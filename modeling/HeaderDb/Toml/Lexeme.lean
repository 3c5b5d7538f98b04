import HeaderDb.Toml.Text

/-!
The tokens of a TOML document, each with the offset where it starts, up to the
end of the text or to the first place that is no token.
-/

namespace HeaderDb.Toml

inductive Token where
  | whitespace (blanks : List Char)
  | newline
  | comment
  | equals
  | period
  | comma
  | colon
  | plus
  | leftBrace
  | rightBrace
  | leftBracket
  | rightBracket
  /-- Letters, digits, underscores and dashes: a key, a word, or part of a number. -/
  | bare (text : List Char)
  | string (multiline : Bool) (value : String)
  deriving Repr, DecidableEq

def Token.kind : Token → Kind
  | .whitespace _ => .whitespace
  | .newline => .newline
  | .comment => .comment
  | .equals => .equals
  | .period => .period
  | .comma => .comma
  | .colon => .colon
  | .plus => .plus
  | .leftBrace => .leftBrace
  | .rightBrace => .rightBrace
  | .leftBracket => .leftBracket
  | .rightBracket => .rightBracket
  | .bare _ => .bare
  | .string false _ => .string
  | .string true _ => .multilineString

inductive Lexemes where
  | done (stop : Nat)
  | fault (error : Error)
  | next (start : Nat) (token : Token) (rest : Lexemes)

namespace Lexemes

def length : Lexemes → Nat
  | .done _ => 0
  | .fault _ => 0
  | .next _ _ rest => rest.length + 1

/-- The offset of what comes next. -/
def offset : Lexemes → Nat
  | .done stop => stop
  | .fault error => error.offset
  | .next start _ _ => start

end Lexemes

def isBare (c : Char) : Bool := c.isAlphanum || c = '-' || c = '_'

/-- A comment holds tabs and everything from U+0020 on. -/
def inComment (c : Char) : Bool := c = '\t' || ' ' ≤ c

def punctuation? (c : Char) : Option Token :=
  if c = '\n' then some .newline
  else if c = '=' then some .equals
  else if c = '.' then some .period
  else if c = ',' then some .comma
  else if c = ':' then some .colon
  else if c = '+' then some .plus
  else if c = '\x7b' then some .leftBrace
  else if c = '\x7d' then some .rightBrace
  else if c = '[' then some .leftBracket
  else if c = ']' then some .rightBracket
  else none

/-- The characters at the front that satisfy `p`, and the rest. -/
def run (p : Char → Bool) (cs : Source) : List Char × Source :=
  ((cs.takeWhile fun x => p x.2).map (·.2), cs.dropWhile fun x => p x.2)

/-- The token that starts with `c` at offset `i`. -/
def scanToken (i : Nat) (c : Char) (rest : Source) : Except Error (Token × Source) :=
  match punctuation? c with
  | some t => .ok (t, rest)
  | none =>
    if isBlank c then
      let (blanks, rest) := run isBlank rest
      .ok (.whitespace (c :: blanks), rest)
    else if c = '#' then .ok (.comment, (run inComment rest).2)
    else if c = '"' || c = '\x27' then
      match scanString i c rest with
      | .ok (multiline, value, rest) => .ok (.string multiline (String.ofList value), rest)
      | .error e => .error e
    else if isBare c then
      let (text, rest) := run isBare rest
      .ok (.bare (c :: text), rest)
    else .error ⟨i, .unexpectedChar c⟩

/-! ## Scanning does not lengthen the rest -/

theorem run_length (p : Char → Bool) (cs : Source) : (run p cs).2.length ≤ cs.length :=
  (List.dropWhile_suffix _).length_le

theorem twoQuotes?_length {quote : Char} {cs rest : Source} (h : twoQuotes? quote cs = some rest) :
    rest.length ≤ cs.length := by
  unfold twoQuotes? at h
  split at h
  · split at h
    · cases h; simp only [List.length_cons]; omega
    · cases h
  · cases h

theorem closingQuotes_length (quote : Char) (cs : Source) :
    (closingQuotes quote cs).2.length ≤ cs.length := by
  unfold closingQuotes
  split
  · split
    · split
      · simp only [List.length_cons]; omega
      · simp only [List.length_cons]; omega
    · exact Nat.le_refl _
  · split
    · simp
    · exact Nat.le_refl _
  · exact Nat.le_refl _

theorem dropNewline_length (cs : Source) : (dropNewline cs).length ≤ cs.length := by
  unfold dropNewline
  split
  · split
    · simp
    · exact Nat.le_refl _
  · exact Nat.le_refl _

theorem prepend_length {c : Char} {r : Scanned} {n : Nat} {v : List Char} {rest : Source}
    (hr : ∀ {w}, r = .ok (w, rest) → rest.length ≤ n) (h : prepend c r = .ok (v, rest)) :
    rest.length ≤ n + 1 := by
  unfold prepend at h
  split at h
  · cases h; exact Nat.le_succ_of_le (hr rfl)
  · cases h

theorem scanText_length {start : Nat} {quote : Char} {multiline : Bool} {mode : Mode}
    {cs rest : Source} {v : List Char}
    (h : scanText start quote multiline mode cs = .ok (v, rest)) :
    rest.length ≤ cs.length := by
  fun_induction scanText start quote multiline mode cs generalizing v with
  | case2 | case8 | case12 | case13 | case14 | case15 | case18 | case21 | case22 =>
    rename_i ih
    exact Nat.le_succ_of_le (ih h)
  | case3 | case7 | case9 | case11 | case19 => exact prepend_length (by assumption) h
  | case5 => cases h; simp
  | case6 trimming i tail hm after ht =>
    have hc := closingQuotes_length quote after
    rw [Except.ok.inj h] at hc
    exact Nat.le_succ_of_le (Nat.le_trans hc (twoQuotes?_length ht))
  | _ => cases h

theorem scanString_length {start : Nat} {quote : Char} {cs rest : Source} {multiline : Bool}
    {v : List Char} (h : scanString start quote cs = .ok (multiline, v, rest)) :
    rest.length ≤ cs.length := by
  have mapped : ∀ {b : Bool} {r : Scanned} {n : Nat},
      (∀ {w}, r = .ok (w, rest) → rest.length ≤ n) →
      r.map (b, ·) = .ok (multiline, v, rest) → rest.length ≤ n := by
    intro b r n hr hm
    cases r with
    | error e => cases hm
    | ok x => cases hm; exact hr rfl
  unfold scanString at h
  split at h
  · next ht =>
    have := dropNewline_length (by assumption)
    have := twoQuotes?_length ht
    have := mapped scanText_length h
    omega
  · split at h
    · split at h
      · cases h; simp
      · exact mapped scanText_length h
    · cases h

theorem scanToken_length {i : Nat} {c : Char} {cs rest : Source} {t : Token}
    (h : scanToken i c cs = .ok (t, rest)) : rest.length ≤ cs.length := by
  unfold scanToken at h
  split at h
  · cases h; exact Nat.le_refl _
  · split at h
    · cases h; exact run_length _ _
    · split at h
      · cases h; exact run_length _ _
      · split at h
        · split at h
          · next hs => cases h; exact scanString_length hs
          · cases h
        · split at h
          · cases h; exact run_length _ _
          · cases h

/-- The tokens of a source whose text ends at offset `stop`. -/
def Lexemes.ofSource (stop : Nat) (cs : Source) : Lexemes :=
  match cs with
  | [] => .done stop
  | (i, c) :: tail =>
    match h : scanToken i c tail with
    | .error e => .fault e
    | .ok (t, rest) =>
      have : rest.length < tail.length + 1 := Nat.lt_succ_of_le (scanToken_length h)
      .next i t (ofSource stop rest)
termination_by cs.length

/-- The tokens of a document. -/
def Lexemes.ofDocument (cs : List Char) : Lexemes :=
  ofSource (Utf8.size cs) (Source.ofDocument cs)

end HeaderDb.Toml
