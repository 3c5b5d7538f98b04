import HeaderDb.Json.Numeral
import HeaderDb.Text.Utf8

/-!
The tokens of a JSON text. A text that is only skipped is held to weaker rules
than one that is read: an escape may name half a character, and a number may be
of any size. So a string token carries the outcome of reading it, and a broken
token carries what is wrong with it for a reader and for a skipper.
-/

namespace HeaderDb.Json

/-- Why a text is no JSON: it is wrong somewhere, or it ends too early. -/
inductive Fault where
  | malformed
  | truncated
  deriving Repr, DecidableEq

inductive Token where
  | openBracket
  | closeBracket
  | openBrace
  | closeBrace
  | comma
  | colon
  | string (value : Except Fault String)
  /-- A number, or nothing if it is too large. -/
  | number (value : Option Number)
  | boolean (value : Bool)
  | null

/-- The tokens of a text up to its end or to the first broken one. -/
inductive Lexemes where
  | done
  | broken (isString : Bool) (read skipped : Fault)
  | next (token : Token) (rest : Lexemes)

def Lexemes.length : Lexemes → Nat
  | .done => 0
  | .broken .. => 0
  | .next _ rest => rest.length + 1

def isBlank (c : Char) : Bool := c = ' ' || c = '\t' || c = '\n' || c = '\r'

/-! ## Strings -/

def hexValue? (c : Char) : Option Nat :=
  if '0' ≤ c && c ≤ '9' then some (c.toNat - '0'.toNat)
  else if 'a' ≤ c && c ≤ 'f' then some (c.toNat - 'a'.toNat + 10)
  else if 'A' ≤ c && c ≤ 'F' then some (c.toNat - 'A'.toNat + 10)
  else none

/-- The number that four hexadecimal digits spell. -/
def unit? (a b c d : Char) : Option Nat :=
  match hexValue? a, hexValue? b, hexValue? c, hexValue? d with
  | some a, some b, some c, some d => some (((a * 16 + b) * 16 + c) * 16 + d)
  | _, _, _, _ => none

/-- The first half of a character beyond U+FFFF. -/
def isHigh (u : Nat) : Bool := 0xD800 ≤ u && u ≤ 0xDBFF

/-- The second half of a character beyond U+FFFF. -/
def isLow (u : Nat) : Bool := 0xDC00 ≤ u && u ≤ 0xDFFF

/-- The character of two halves. -/
def joinHalves (high low : Nat) : Char :=
  Char.ofNat (0x10000 + (high - 0xD800) * 0x400 + (low - 0xDC00))

/-- The character that a one-letter escape stands for. -/
def shortEscape? (c : Char) : Option Char :=
  if c = '"' then some '"'
  else if c = '\\' then some '\\'
  else if c = '/' then some '/'
  else if c = 'b' then some '\x08'
  else if c = 'f' then some '\x0c'
  else if c = 'n' then some '\n'
  else if c = 'r' then some '\r'
  else if c = 't' then some '\t'
  else none

/-- What is wrong where four hexadecimal digits should stand and do not. -/
def hexFault (cs : List Char) : Fault :=
  if Utf8.size cs < 4 then .truncated else .malformed

/-- What is wrong where the escape of a second half should stand and does not. -/
def halfFault : List Char → Fault
  | [] => .truncated
  | '\\' :: [] => .truncated
  | '\\' :: 'u' :: rest => hexFault rest
  | _ => .malformed

/-- Puts a character in front of what has been read. -/
def prepend (c : Char) (r : Except Fault (List Char × List Char)) :
    Except Fault (List Char × List Char) :=
  match r with
  | .ok (cs, rest) => .ok (c :: cs, rest)
  | .error f => .error f

/-- The rest of a string after its opening quote: its characters and what
follows the closing quote. A reader refuses halves without their partner, a
skipper takes each for some character. -/
def scanString (reading : Bool) : List Char → Except Fault (List Char × List Char)
  | [] => .error .truncated
  | '"' :: rest => .ok ([], rest)
  | '\\' :: 'u' :: a :: b :: c :: d :: rest =>
    match unit? a b c d with
    | none => .error .malformed
    | some u =>
      if !isHigh u && !isLow u then prepend (Char.ofNat u) (scanString reading rest)
      else if !reading then prepend '\uFFFD' (scanString reading rest)
      else if isLow u then .error .malformed
      else match rest with
      | '\\' :: 'u' :: a' :: b' :: c' :: d' :: rest' =>
        match unit? a' b' c' d' with
        | none => .error .malformed
        | some v =>
          if isLow v then prepend (joinHalves u v) (scanString reading rest')
          else .error .malformed
      | _ => .error (halfFault rest)
  | '\\' :: 'u' :: rest => .error (hexFault rest)
  | '\\' :: e :: rest =>
    match shortEscape? e with
    | some c => prepend c (scanString reading rest)
    | none => .error .malformed
  | '\\' :: [] => .error .truncated
  | c :: rest => if c < ' ' then .error .malformed else prepend c (scanString reading rest)

/-! ## Words and numbers -/

/-- What follows the given word. -/
def scanWord : List Char → List Char → Except Fault (List Char)
  | [], cs => .ok cs
  | _ :: _, [] => .error .truncated
  | w :: ws, c :: cs => if c = w then scanWord ws cs else .error .malformed

/-- What is wrong where a digit should stand and does not. -/
def digitFault (cs : List Char) : Fault := if cs.isEmpty then .truncated else .malformed

/-- At least one digit. -/
def scanDigits (cs : List Char) : Except Fault (List Char × List Char) :=
  if (cs.takeWhile Char.isDigit).isEmpty then .error (digitFault cs)
  else .ok (cs.takeWhile Char.isDigit, cs.dropWhile Char.isDigit)

/-- The digits before the point: no zero before another digit. -/
def scanWhole (cs : List Char) : Except Fault (List Char × List Char) :=
  match scanDigits cs with
  | .ok ('0' :: _ :: _, _) => .error .malformed
  | r => r

/-- The digits after the point, if there is one. -/
def scanFraction : List Char → Except Fault (List Char × List Char)
  | '.' :: rest => scanDigits rest
  | cs => .ok ([], cs)

/-- An optional sign. -/
def scanSign : List Char → Bool × List Char
  | '+' :: rest => (false, rest)
  | '-' :: rest => (true, rest)
  | cs => (false, cs)

/-- The exponent, if there is one. -/
def scanExponent : List Char → Except Fault (Option (Bool × List Char) × List Char)
  | [] => .ok (none, [])
  | e :: rest =>
    if e = 'e' || e = 'E' then
      match scanDigits (scanSign rest).2 with
      | .ok (digits, rest') => .ok (some ((scanSign rest).1, digits), rest')
      | .error f => .error f
    else .ok (none, e :: rest)

/-- A number without its minus sign. -/
def scanNumber (negative : Bool) (cs : List Char) : Except Fault (Numeral × List Char) :=
  match scanWhole cs with
  | .error f => .error f
  | .ok (whole, cs) =>
    match scanFraction cs with
    | .error f => .error f
    | .ok (fraction, cs) =>
      match scanExponent cs with
      | .error f => .error f
      | .ok (exponent, cs) => .ok (⟨negative, whole, fraction, exponent⟩, cs)

/-! ## Tokens -/

/-- What stands first in a text. -/
inductive Head where
  | done
  | broken (isString : Bool) (read skipped : Fault)
  | token (token : Token) (rest : List Char)

def Head.ofWord (token : Token) : Except Fault (List Char) → Head
  | .ok rest => .token token rest
  | .error f => .broken false f f

def Head.ofNumber : Except Fault (Numeral × List Char) → Head
  | .ok (n, rest) => .token (.number n.value?) rest
  | .error f => .broken false f .malformed

/-- The string token whose characters after the opening quote are given. -/
def Head.ofString (cs : List Char) : Head :=
  match scanString true cs with
  | .ok (value, rest) => .token (.string (.ok (String.ofList value))) rest
  | .error read =>
    match scanString false cs with
    | .ok (_, rest) => .token (.string (.error read)) rest
    | .error skipped => .broken true read skipped

/-- Tokens of one character. -/
def punctuation? (c : Char) : Option Token :=
  if c = '[' then some .openBracket
  else if c = ']' then some .closeBracket
  else if c = '\x7b' then some .openBrace
  else if c = '\x7d' then some .closeBrace
  else if c = ',' then some .comma
  else if c = ':' then some .colon
  else none

/-- Words, by their first letter and the others. -/
def word? (c : Char) : Option (List Char × Token) :=
  if c = 'n' then some (['u', 'l', 'l'], .null)
  else if c = 't' then some (['r', 'u', 'e'], .boolean true)
  else if c = 'f' then some (['a', 'l', 's', 'e'], .boolean false)
  else none

/-- The first token of a text without leading blanks. -/
def Head.ofChars : List Char → Head
  | [] => .done
  | c :: rest =>
    match punctuation? c, word? c with
    | some t, _ => .token t rest
    | none, some (letters, t) => .ofWord t (scanWord letters rest)
    | none, none =>
      if c = '"' then .ofString rest
      else if c = '-' then .ofNumber (scanNumber true rest)
      else if c.isDigit then .ofNumber (scanNumber false (c :: rest))
      else .broken false .malformed .malformed

/-! ## A token is not empty -/

theorem prepend_shorter {c : Char} {r : Except Fault (List Char × List Char)} {n : Nat}
    {v rest : List Char} (hr : ∀ {w}, r = .ok (w, rest) → rest.length < n)
    (h : prepend c r = .ok (v, rest)) : rest.length < n := by
  unfold prepend at h
  split at h
  · cases h; exact hr rfl
  · cases h

theorem scanString_shorter {reading : Bool} {cs v rest : List Char}
    (h : scanString reading cs = .ok (v, rest)) : rest.length < cs.length := by
  fun_induction scanString reading cs generalizing v with
  | case2 => cases h; simp
  | case4 | case5 | case8 | case12 | case16 =>
    have := prepend_shorter (by assumption) h
    simp only [List.length_cons]
    omega
  | _ => cases h

theorem scanWord_length {word cs rest : List Char} (h : scanWord word cs = .ok rest) :
    rest.length ≤ cs.length := by
  induction word generalizing cs with
  | nil => cases h; exact Nat.le_refl _
  | cons w ws ih =>
    cases cs with
    | nil => cases h
    | cons c cs =>
      simp only [scanWord] at h
      split at h
      · exact Nat.le_succ_of_le (ih h)
      · cases h

theorem scanDigits_shorter {cs digits rest : List Char} (h : scanDigits cs = .ok (digits, rest)) :
    rest.length < cs.length := by
  unfold scanDigits at h
  split at h
  · cases h
  · next hd =>
    cases h
    have : (cs.takeWhile Char.isDigit ++ cs.dropWhile Char.isDigit).length = cs.length := by
      rw [List.takeWhile_append_dropWhile]
    have : (cs.takeWhile Char.isDigit).length ≠ 0 := by simpa using hd
    rw [List.length_append] at *
    omega

theorem scanWhole_shorter {cs digits rest : List Char} (h : scanWhole cs = .ok (digits, rest)) :
    rest.length < cs.length := by
  unfold scanWhole at h
  split at h
  · cases h
  · exact scanDigits_shorter h

theorem scanFraction_length {cs digits rest : List Char}
    (h : scanFraction cs = .ok (digits, rest)) : rest.length ≤ cs.length := by
  unfold scanFraction at h
  split at h
  · exact Nat.le_succ_of_le (Nat.le_of_lt (scanDigits_shorter h))
  · cases h; exact Nat.le_refl _

theorem scanSign_length (cs : List Char) : (scanSign cs).2.length ≤ cs.length := by
  unfold scanSign
  split <;> simp

theorem scanExponent_length {cs rest : List Char} {e : Option (Bool × List Char)}
    (h : scanExponent cs = .ok (e, rest)) : rest.length ≤ cs.length := by
  unfold scanExponent at h
  split at h
  · cases h; exact Nat.le_refl _
  · next c tail =>
    split at h
    · split at h
      · next hd =>
        cases h
        have := scanDigits_shorter hd
        have := scanSign_length tail
        simp only [List.length_cons]
        omega
      · cases h
    · cases h; exact Nat.le_refl _

theorem scanNumber_shorter {negative : Bool} {cs rest : List Char} {n : Numeral}
    (h : scanNumber negative cs = .ok (n, rest)) : rest.length < cs.length := by
  unfold scanNumber at h
  split at h
  · cases h
  · next hw =>
    split at h
    · cases h
    · next hf =>
      split at h
      · cases h
      · next he =>
        cases h
        have := scanWhole_shorter hw
        have := scanFraction_length hf
        have := scanExponent_length he
        omega

theorem Head.ofString_shorter {cs rest : List Char} {t : Token}
    (h : Head.ofString cs = .token t rest) : rest.length < cs.length := by
  unfold Head.ofString at h
  split at h
  · next hs => cases h; exact scanString_shorter hs
  · split at h
    · next hs => cases h; exact scanString_shorter hs
    · cases h

theorem Head.ofChars_shorter {cs rest : List Char} {t : Token}
    (h : Head.ofChars cs = .token t rest) : rest.length < cs.length := by
  have word : ∀ {w tail : List Char} {u : Token},
      Head.ofWord u (scanWord w tail) = .token t rest → rest.length < tail.length + 1 := by
    intro w tail u hw
    unfold Head.ofWord at hw
    split at hw
    · next hs => cases hw; exact Nat.lt_succ_of_le (scanWord_length hs)
    · cases hw
  have number : ∀ {negative : Bool} {tail : List Char},
      Head.ofNumber (scanNumber negative tail) = .token t rest → rest.length < tail.length := by
    intro negative tail hn
    unfold Head.ofNumber at hn
    split at hn
    · next hs => cases hn; exact scanNumber_shorter hs
    · cases hn
  cases cs with
  | nil => cases h
  | cons c tail =>
    rw [Head.ofChars] at h
    simp only [List.length_cons]
    split at h
    · cases h; omega
    · exact word h
    · split at h
      · exact Nat.lt_succ_of_lt (Head.ofString_shorter h)
      · split at h
        · exact Nat.lt_succ_of_lt (number h)
        · split at h
          · exact number h
          · cases h

/-- The tokens of a text. -/
def Lexemes.ofChars (cs : List Char) : Lexemes :=
  match h : Head.ofChars (cs.dropWhile isBlank) with
  | .done => .done
  | .broken isString read skipped => .broken isString read skipped
  | .token token rest =>
    have : rest.length < cs.length :=
      Nat.lt_of_lt_of_le (Head.ofChars_shorter h) (List.dropWhile_suffix isBlank).length_le
    .next token (ofChars rest)
termination_by cs.length

end HeaderDb.Json
