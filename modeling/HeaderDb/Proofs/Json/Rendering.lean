import HeaderDb.Json.Lexeme

/-! # JSON values and their texts

A value determines its tokens up to the order of the members of its objects, and
tokens determine their text up to blanks between them and up to the spelling of
strings and numbers. `Renders` allows every choice on both levels. Nothing here
refers to how a text is read. -/

namespace HeaderDb.Json

/-- A JSON value. The members of an object form a list, in which a key may come
more than once; a number is kept as it is written. -/
inductive Value where
  | null
  | boolean (b : Bool)
  | number (n : Numeral)
  | string (s : String)
  | array (items : List Value)
  | object (members : List (String × Value))

/-! ## Strings -/

/-- The letters that can follow a backslash and what they stand for. -/
def shortForms : List (Char × Char) :=
  [('"', '"'), ('\\', '\\'), ('/', '/'), ('b', '\x08'), ('f', '\x0c'), ('n', '\n'), ('r', '\r'),
    ('t', '\t')]

/-- A hexadecimal digit, of either case, and its value. -/
def IsHexDigit (d : Char) (x : Nat) : Prop :=
  "0123456789abcdef".toList[x]? = some d ∨ "0123456789ABCDEF".toList[x]? = some d

/-- A number below 65536 as a backslash, a `u` and four hexadecimal digits. -/
inductive UnitText : Nat → List Char → Prop where
  | digits {a b c d : Char} {w x y z : Nat} :
      IsHexDigit a w → IsHexDigit b x → IsHexDigit c y → IsHexDigit d z →
      UnitText (w * 4096 + x * 256 + y * 16 + z) ['\\', 'u', a, b, c, d]

/-- The spellings of a character inside a string. -/
inductive CharText : Char → List Char → Prop where
  | verbatim {c : Char} : c ≠ '"' → c ≠ '\\' → ' ' ≤ c → CharText c [c]
  | short {e c : Char} : (e, c) ∈ shortForms → CharText c ['\\', e]
  | unit {c : Char} {cs : List Char} : UnitText c.toNat cs → CharText c cs
  /-- Beyond U+FFFF, the two halves of a character one after the other. -/
  | halves {c : Char} {high low : List Char} : 0x10000 ≤ c.toNat →
      UnitText (0xD800 + (c.toNat - 0x10000) / 0x400) high →
      UnitText (0xDC00 + (c.toNat - 0x10000) % 0x400) low → CharText c (high ++ low)

/-- The spellings of a sequence of characters inside a string. -/
inductive CharsText : List Char → List Char → Prop where
  | nil : CharsText [] []
  | cons {c : Char} {s cs text : List Char} :
      CharText c cs → CharsText s text → CharsText (c :: s) (cs ++ text)

/-- Characters that need no escape spell themselves. -/
theorem CharsText.verbatim {s : List Char}
    (h : s.all (fun c => c ≠ '"' && c ≠ '\\' && ' ' ≤ c) = true) : CharsText s s := by
  induction s with
  | nil => exact .nil
  | cons c s ih =>
    rw [List.all_cons, Bool.and_eq_true] at h
    obtain ⟨hc, hs⟩ := h
    simp only [ne_eq, decide_not, Bool.and_eq_true, Bool.not_eq_true', decide_eq_false_iff_not,
      decide_eq_true_eq] at hc
    exact .cons (.verbatim hc.1.1 hc.1.2 hc.2) (ih hs)

/-! ## Numbers -/

/-- One decimal digit or more. -/
def IsDigits (ds : List Char) : Prop := ds ≠ [] ∧ ∀ d ∈ ds, d.isDigit = true

/-- The digits before the point, with no zero before another digit. -/
def IsWhole (ds : List Char) : Prop := IsDigits ds ∧ ∀ d rest, ds ≠ '0' :: d :: rest

inductive FractionText : List Char → List Char → Prop where
  | none : FractionText [] []
  | digits {ds : List Char} : IsDigits ds → FractionText ds ('.' :: ds)

inductive ExponentText : Option (Bool × List Char) → List Char → Prop where
  | none : ExponentText none []
  | unsigned {e : Char} {ds : List Char} : e = 'e' ∨ e = 'E' → IsDigits ds →
      ExponentText (some (false, ds)) (e :: ds)
  | plus {e : Char} {ds : List Char} : e = 'e' ∨ e = 'E' → IsDigits ds →
      ExponentText (some (false, ds)) (e :: '+' :: ds)
  | minus {e : Char} {ds : List Char} : e = 'e' ∨ e = 'E' → IsDigits ds →
      ExponentText (some (true, ds)) (e :: '-' :: ds)

/-- The spellings of a number. -/
inductive NumeralText : Numeral → List Char → Prop where
  | positive {whole fraction f e : List Char} {exponent : Option (Bool × List Char)} :
      IsWhole whole → FractionText fraction f → ExponentText exponent e →
      NumeralText ⟨false, whole, fraction, exponent⟩ (whole ++ (f ++ e))
  | negative {whole fraction f e : List Char} {exponent : Option (Bool × List Char)} :
      IsWhole whole → FractionText fraction f → ExponentText exponent e →
      NumeralText ⟨true, whole, fraction, exponent⟩ ('-' :: (whole ++ (f ++ e)))

/-! ## Texts -/

/-- The spellings of a token. -/
inductive TokenText : Token → List Char → Prop where
  | openBracket : TokenText .openBracket ['[']
  | closeBracket : TokenText .closeBracket [']']
  | openBrace : TokenText .openBrace ['\x7b']
  | closeBrace : TokenText .closeBrace ['\x7d']
  | comma : TokenText .comma [',']
  | colon : TokenText .colon [':']
  | nullWord : TokenText .null ['n', 'u', 'l', 'l']
  | trueWord : TokenText (.boolean true) ['t', 'r', 'u', 'e']
  | falseWord : TokenText (.boolean false) ['f', 'a', 'l', 's', 'e']
  | string {s : String} {cs : List Char} : CharsText s.toList cs →
      TokenText (.string (.ok s)) ('"' :: (cs ++ ['"']))
  | number {n : Numeral} {cs : List Char} : NumeralText n cs → TokenText (.number n.value?) cs

/-- Blanks that do not count. -/
def AllBlank (b : List Char) : Prop := ∀ c ∈ b, c ∈ [' ', '\t', '\n', '\r']

/-- The texts of a sequence of tokens: blanks may stand around each of them. -/
inductive TokensText : List Token → List Char → Prop where
  | nil {b : List Char} : AllBlank b → TokensText [] b
  | cons {b cs text : List Char} {t : Token} {ts : List Token} :
      AllBlank b → TokenText t cs → TokensText ts text → TokensText (t :: ts) (b ++ (cs ++ text))

/-! ## Values -/

/-- The parts of a text that are described together: a value, the elements of an
array, and the members of an object. -/
inductive Part where
  | value (v : Value)
  | elements (vs : List Value)
  | members (ms : List (String × Value))

/-- The tokens of a part. -/
inductive Tokens : Part → List Token → Prop where
  | null : Tokens (.value .null) [.null]
  | boolean {b : Bool} : Tokens (.value (.boolean b)) [.boolean b]
  | number {n : Numeral} : Tokens (.value (.number n)) [.number n.value?]
  | string {s : String} : Tokens (.value (.string s)) [.string (.ok s)]
  | array {vs : List Value} {ts : List Token} : Tokens (.elements vs) ts →
      Tokens (.value (.array vs)) (.openBracket :: (ts ++ [.closeBracket]))
  /-- The members may come in any order. -/
  | object {ms ms' : List (String × Value)} {ts : List Token} : ms'.Perm ms →
      Tokens (.members ms') ts → Tokens (.value (.object ms)) (.openBrace :: (ts ++ [.closeBrace]))
  | noElement : Tokens (.elements []) []
  | lastElement {v : Value} {ts : List Token} : Tokens (.value v) ts → Tokens (.elements [v]) ts
  | element {v w : Value} {vs : List Value} {ts us : List Token} : Tokens (.value v) ts →
      Tokens (.elements (w :: vs)) us → Tokens (.elements (v :: w :: vs)) (ts ++ .comma :: us)
  | noMember : Tokens (.members []) []
  | lastMember {k : String} {v : Value} {ts : List Token} : Tokens (.value v) ts →
      Tokens (.members [(k, v)]) (.string (.ok k) :: .colon :: ts)
  | member {k : String} {v : Value} {m : String × Value} {ms : List (String × Value)}
      {ts us : List Token} : Tokens (.value v) ts → Tokens (.members (m :: ms)) us →
      Tokens (.members ((k, v) :: m :: ms)) (.string (.ok k) :: .colon :: (ts ++ .comma :: us))

/-- A text is a rendering of a value. -/
def Renders (v : Value) (text : String) : Prop :=
  ∃ ts, Tokens (.value v) ts ∧ TokensText ts text.toList

end HeaderDb.Json
