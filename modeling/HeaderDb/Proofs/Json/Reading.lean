import Mathlib.Data.List.Chain
import HeaderDb.Proofs.Json.Literal
import HeaderDb.Proofs.Json.Rendering

/-! # Renderings are read token by token

The lexer gives back the tokens of a text, whichever blanks and spellings the
text was written with. A token is recognised without regard to what stands
behind it, with one exception: a number goes on as far as it can. No two numbers
stand next to each other in a value, so what follows a number ends it. -/

namespace HeaderDb.Json

/-! ## Strings -/

theorem hexValue?_of_isHexDigit {d : Char} {x : Nat} (h : IsHexDigit d x) :
    hexValue? d = some x := by
  have lower : ∀ i : Fin 16, hexValue? ("0123456789abcdef".toList.get i) = some i.val := by decide
  have upper : ∀ i : Fin 16, hexValue? ("0123456789ABCDEF".toList.get i) = some i.val := by decide
  rcases h with h | h
  · obtain ⟨hx, rfl⟩ := List.getElem?_eq_some_iff.1 h
    exact lower ⟨x, hx⟩
  · obtain ⟨hx, rfl⟩ := List.getElem?_eq_some_iff.1 h
    exact upper ⟨x, hx⟩

theorem UnitText.exists_digits {u : Nat} {cs : List Char} (h : UnitText u cs) :
    ∃ a b c d, cs = ['\\', 'u', a, b, c, d] ∧ unit? a b c d = some u := by
  cases h with
  | @digits a b c d w x y z ha hb hc hd =>
    refine ⟨a, b, c, d, rfl, ?_⟩
    simp only [unit?, hexValue?_of_isHexDigit ha, hexValue?_of_isHexDigit hb,
      hexValue?_of_isHexDigit hc, hexValue?_of_isHexDigit hd, Option.some.injEq]
    omega

theorem toNat_not_half (c : Char) : isHigh c.toNat = false ∧ isLow c.toNat = false := by
  have hv : c.toNat < 0xD800 ∨ 0xDFFF < c.toNat ∧ c.toNat < 0x110000 := c.valid
  constructor
  · simp only [isHigh, Bool.and_eq_false_iff, decide_eq_false_iff_not]
    omega
  · simp only [isLow, Bool.and_eq_false_iff, decide_eq_false_iff_not]
    omega

theorem scanString_unit {c : Char} {cs : List Char} (h : UnitText c.toNat cs) (r : List Char) :
    scanString true (cs ++ r) = prepend c (scanString true r) := by
  obtain ⟨a, b, c', d, rfl, hu⟩ := h.exists_digits
  obtain ⟨hh, hl⟩ := toNat_not_half c
  show scanString true ('\\' :: 'u' :: a :: b :: c' :: d :: r) = _
  rw [scanString, hu]
  simp only [hh, hl, Bool.not_false, Bool.and_self, if_true, Char.ofNat_toNat]

/-- The two halves of a character beyond U+FFFF lie where halves lie, and joined
they are that character. -/
theorem halves_of_char {c : Char} (h : 0x10000 ≤ c.toNat) :
    isHigh (0xD800 + (c.toNat - 0x10000) / 0x400) = true ∧
    isLow (0xD800 + (c.toNat - 0x10000) / 0x400) = false ∧
    isLow (0xDC00 + (c.toNat - 0x10000) % 0x400) = true ∧
    joinHalves (0xD800 + (c.toNat - 0x10000) / 0x400) (0xDC00 + (c.toNat - 0x10000) % 0x400) =
      c := by
  have hv : c.toNat < 0xD800 ∨ 0xDFFF < c.toNat ∧ c.toNat < 0x110000 := c.valid
  have hj : 0x10000 + (0xD800 + (c.toNat - 0x10000) / 0x400 - 0xD800) * 0x400 +
      (0xDC00 + (c.toNat - 0x10000) % 0x400 - 0xDC00) = c.toNat := by omega
  refine ⟨?_, ?_, ?_, ?_⟩
  · simp only [isHigh, Bool.and_eq_true, decide_eq_true_eq]
    omega
  · simp only [isLow, Bool.and_eq_false_iff, decide_eq_false_iff_not]
    omega
  · simp only [isLow, Bool.and_eq_true, decide_eq_true_eq]
    omega
  · rw [joinHalves, hj, Char.ofNat_toNat]

theorem scanString_halves {c : Char} {high low : List Char} (h : 0x10000 ≤ c.toNat)
    (hh : UnitText (0xD800 + (c.toNat - 0x10000) / 0x400) high)
    (hl : UnitText (0xDC00 + (c.toNat - 0x10000) % 0x400) low) (r : List Char) :
    scanString true (high ++ low ++ r) = prepend c (scanString true r) := by
  obtain ⟨a, b, c₁, d, rfl, hu⟩ := hh.exists_digits
  obtain ⟨a', b', c₂, d', rfl, hv⟩ := hl.exists_digits
  obtain ⟨isHigh, notLow, isLow, joined⟩ := halves_of_char h
  show scanString true ('\\' :: 'u' :: a :: b :: c₁ :: d ::
    '\\' :: 'u' :: a' :: b' :: c₂ :: d' :: r) = _
  rw [scanString, hu]
  simp only [isHigh, notLow, isLow, hv, joined, Bool.not_true, Bool.false_and, Bool.false_eq_true,
    if_false, if_true]

theorem shortEscape?_of_mem {e c : Char} (h : (e, c) ∈ shortForms) :
    e ≠ 'u' ∧ shortEscape? e = some c := by
  have all : ∀ p ∈ shortForms, p.1 ≠ 'u' ∧ shortEscape? p.1 = some p.2 := by decide
  exact all (e, c) h

/-- A character is read back from each of its spellings. -/
theorem scanString_charText {c : Char} {cs : List Char} (h : CharText c cs) (r : List Char) :
    scanString true (cs ++ r) = prepend c (scanString true r) := by
  cases h with
  | verbatim hq hb hl => exact scanString_verbatim hq hb (Char.not_lt.2 hl) r
  | short hs =>
    obtain ⟨he, hc⟩ := shortEscape?_of_mem hs
    exact scanString_short he hc r
  | unit hu => exact scanString_unit hu r
  | halves hc hh hl => exact scanString_halves hc hh hl r

theorem scanString_charsText {s cs : List Char} (h : CharsText s cs) (r : List Char) :
    scanString true (cs ++ '"' :: r) = .ok (s, r) := by
  induction h with
  | nil => simp [scanString]
  | cons hc _ ih =>
    rw [List.append_assoc, scanString_charText hc, ih]
    rfl

/-! ## Numbers -/

/-- No character of the given kind comes first. -/
def NotFirst (p : Char → Prop) (cs : List Char) : Prop := ∀ c ∈ cs.head?, ¬ p c

/-- A character that a number can go on with. -/
def Continues (c : Char) : Prop := c.isDigit = true ∨ c ∈ ['.', 'e', 'E']

instance : DecidablePred Continues := fun _ => inferInstanceAs (Decidable (_ ∨ _))

theorem NotFirst.mono {p q : Char → Prop} {cs : List Char} (h : NotFirst q cs)
    (hpq : ∀ c, p c → q c) : NotFirst p cs :=
  fun c hc hp => h c hc (hpq c hp)

theorem scanDigits_append {ds rest : List Char} (h : IsDigits ds)
    (hr : NotFirst (Char.isDigit · = true) rest) : scanDigits (ds ++ rest) = .ok (ds, rest) := by
  obtain ⟨hne, hd⟩ := h
  have hrest : rest.takeWhile Char.isDigit = [] ∧ rest.dropWhile Char.isDigit = rest := by
    cases rest with
    | nil => exact ⟨rfl, rfl⟩
    | cons c cs =>
      have hc : ¬ c.isDigit = true := hr c rfl
      exact ⟨List.takeWhile_cons_of_neg hc, List.dropWhile_cons_of_neg hc⟩
  rw [scanDigits, List.takeWhile_append_of_pos hd, List.dropWhile_append_of_pos hd, hrest.1,
    hrest.2, List.append_nil, if_neg (by simpa using hne)]

theorem scanWhole_append {ds rest : List Char} (h : IsWhole ds)
    (hr : NotFirst (Char.isDigit · = true) rest) : scanWhole (ds ++ rest) = .ok (ds, rest) := by
  rw [scanWhole, scanDigits_append h.1 hr]
  split
  · next heq => cases heq; exact absurd rfl (h.2 _ _)
  · rfl

theorem scanFraction_append {ds f rest : List Char} (h : FractionText ds f)
    (hr : NotFirst (fun c => c.isDigit = true ∨ c = '.') rest) :
    scanFraction (f ++ rest) = .ok (ds, rest) := by
  cases h with
  | none =>
    rw [List.nil_append, scanFraction.eq_def]
    split
    · next r => exact absurd (.inr rfl) (hr '.' rfl)
    · rfl
  | digits hd =>
    show scanDigits (ds ++ rest) = _
    exact scanDigits_append hd (hr.mono fun c hc => .inl hc)

theorem scanSign_digits {ds : List Char} (h : IsDigits ds) (rest : List Char) :
    scanSign (ds ++ rest) = (false, ds ++ rest) := by
  obtain ⟨hne, hd⟩ := h
  rw [scanSign.eq_def]
  split
  · next heq =>
    obtain ⟨d, ds, rfl⟩ := List.exists_cons_of_ne_nil hne
    cases heq
    exact absurd (hd '+' (by simp)) (by decide)
  · next heq =>
    obtain ⟨d, ds, rfl⟩ := List.exists_cons_of_ne_nil hne
    cases heq
    exact absurd (hd '-' (by simp)) (by decide)
  · rfl

theorem scanExponent_marked {e : Char} (he : e = 'e' ∨ e = 'E') (cs : List Char) :
    scanExponent (e :: cs) = (scanDigits (scanSign cs).2).map fun (ds, rest) =>
      (some ((scanSign cs).1, ds), rest) := by
  rw [scanExponent, if_pos (by simpa using he)]
  cases scanDigits (scanSign cs).2 <;> rfl

theorem scanExponent_append {x : Option (Bool × List Char)} {e rest : List Char}
    (h : ExponentText x e) (hr : NotFirst Continues rest) :
    scanExponent (e ++ rest) = .ok (x, rest) := by
  have digits : NotFirst (Char.isDigit · = true) rest := hr.mono fun c hc => .inl hc
  cases h with
  | none =>
    cases rest with
    | nil => rfl
    | cons c cs =>
      have hc : ¬ (c = 'e' ∨ c = 'E') := by
        intro he
        exact hr c rfl (.inr (by rcases he with rfl | rfl <;> decide))
      rw [List.nil_append, scanExponent, if_neg (by simpa using hc)]
  | unsigned he hd =>
    rw [List.cons_append, scanExponent_marked he, scanSign_digits hd, scanDigits_append hd digits]
    rfl
  | plus he hd =>
    rw [List.cons_append, scanExponent_marked he, List.cons_append, scanSign,
      scanDigits_append hd digits]
    rfl
  | minus he hd =>
    rw [List.cons_append, scanExponent_marked he, List.cons_append, scanSign,
      scanDigits_append hd digits]
    rfl

/-- An exponent does not look like a fraction or a further digit, and neither
does what comes after a number. -/
theorem ExponentText.notFirst {x : Option (Bool × List Char)} {e rest : List Char}
    (h : ExponentText x e) (hr : NotFirst Continues rest) :
    NotFirst (fun c => c.isDigit = true ∨ c = '.') (e ++ rest) := by
  have marked : ∀ {c : Char} {cs : List Char}, c = 'e' ∨ c = 'E' →
      NotFirst (fun c => c.isDigit = true ∨ c = '.') (c :: cs) := by
    intro c cs he c' hc'
    cases hc'
    rcases he with rfl | rfl <;> decide
  cases h with
  | none => exact hr.mono fun c hc => hc.imp id fun h => by simp [h]
  | unsigned he _ => exact marked he
  | plus he _ => exact marked he
  | minus he _ => exact marked he

theorem FractionText.notFirst {ds f rest : List Char} (h : FractionText ds f)
    (hr : NotFirst (fun c => c.isDigit = true ∨ c = '.') rest) :
    NotFirst (Char.isDigit · = true) (f ++ rest) := by
  cases h with
  | none => exact hr.mono fun c hc => .inl hc
  | digits _ =>
    intro c hc
    cases hc
    decide

/-- The digits of a number are read back, up to a character that it cannot go on
with. -/
theorem scanNumber_append (negative : Bool) {whole fraction f e rest : List Char}
    {exponent : Option (Bool × List Char)} (hw : IsWhole whole) (hf : FractionText fraction f)
    (he : ExponentText exponent e) (hr : NotFirst Continues rest) :
    scanNumber negative (whole ++ (f ++ e) ++ rest) =
      .ok (⟨negative, whole, fraction, exponent⟩, rest) := by
  have hef := he.notFirst hr
  rw [List.append_assoc, List.append_assoc, scanNumber, scanWhole_append hw (hf.notFirst hef)]
  simp only [scanFraction_append hf hef, scanExponent_append he hr]

/-! ## Tokens -/

/-- No digit opens a token of another kind. -/
theorem digit_opens_number {d : Char} (hd : d.isDigit = true) :
    isBlank d = false ∧ punctuation? d = none ∧ word? d = none ∧ d ≠ '"' ∧ d ≠ '-' := by
  have ne : ∀ {c : Char}, c.isDigit = false → d ≠ c := by
    intro c hc heq
    rw [← heq, hd] at hc
    cases hc
  refine ⟨?_, ?_, ?_, ne rfl, ne rfl⟩
  · simp [isBlank, ne (c := ' ') rfl, ne (c := '\t') rfl, ne (c := '\n') rfl, ne (c := '\r') rfl]
  · simp [punctuation?, ne (c := '[') rfl, ne (c := ']') rfl, ne (c := '\x7b') rfl,
      ne (c := '\x7d') rfl, ne (c := ',') rfl, ne (c := ':') rfl]
  · simp [word?, ne (c := 'n') rfl, ne (c := 't') rfl, ne (c := 'f') rfl]

theorem head_digit {d : Char} (hd : d.isDigit = true) (cs : List Char) :
    Head.ofChars (d :: cs) = .ofNumber (scanNumber false (d :: cs)) := by
  obtain ⟨-, hp, hw, hq, hm⟩ := digit_opens_number hd
  simp only [Head.ofChars, hp, hw, hq, hm, hd, if_false, if_true]

theorem head_numeral {n : Numeral} {cs rest : List Char} (h : NumeralText n cs)
    (hr : NotFirst Continues rest) :
    Head.ofChars (cs ++ rest) = .token (.number n.value?) rest := by
  cases h with
  | positive hw hf he =>
    have hs := scanNumber_append false hw hf he hr
    obtain ⟨d, ds, rfl⟩ := List.exists_cons_of_ne_nil hw.1.1
    have hd : d.isDigit = true := hw.1.2 d List.mem_cons_self
    rw [List.cons_append, List.cons_append] at hs ⊢
    rw [head_digit hd, hs]
    rfl
  | negative hw hf he =>
    have hs := scanNumber_append true hw hf he hr
    calc Head.ofChars ('-' :: (_ ++ (_ ++ _) ++ rest))
        = .ofNumber (scanNumber true (_ ++ (_ ++ _) ++ rest)) := rfl
      _ = _ := by rw [hs]; rfl

def Token.isNumber : Token → Bool
  | .number _ => true
  | _ => false

/-- A token is read back from each of its spellings; behind a number there must
be something that it cannot go on with. -/
theorem head_tokenText {t : Token} {cs rest : List Char} (h : TokenText t cs)
    (hr : t.isNumber = true → NotFirst Continues rest) :
    Head.ofChars (cs ++ rest) = .token t rest := by
  cases h with
  | string hs =>
    rw [List.cons_append, List.append_assoc, List.singleton_append]
    simp only [Head.ofChars, show punctuation? '"' = none from rfl,
      show word? '"' = none from rfl, if_true, Head.ofString, scanString_charsText hs,
      String.ofList_toList]
  | number hn => exact head_numeral hn (hr rfl)
  | nullWord | trueWord | falseWord
  | openBracket | closeBracket | openBrace | closeBrace | comma | colon => rfl

/-! ## Texts -/

/-- The given tokens and then the rest. -/
def Lexemes.ofTokens (ts : List Token) (rest : Lexemes) : Lexemes := ts.foldr .next rest

@[simp] theorem Lexemes.ofTokens_nil (rest : Lexemes) : ofTokens [] rest = rest := rfl

@[simp] theorem Lexemes.ofTokens_cons (t : Token) (ts : List Token) (rest : Lexemes) :
    ofTokens (t :: ts) rest = .next t (ofTokens ts rest) := rfl

@[simp] theorem Lexemes.ofTokens_append (ts us : List Token) (rest : Lexemes) :
    ofTokens (ts ++ us) rest = ofTokens ts (ofTokens us rest) := List.foldr_append

theorem isBlank_of_allBlank {b : List Char} (h : AllBlank b) : ∀ c ∈ b, isBlank c = true := by
  intro c hc
  have := h c hc
  simpa [isBlank, or_assoc] using this

theorem ofChars_allBlank {b : List Char} (h : AllBlank b) (cs : List Char) :
    Lexemes.ofChars (b ++ cs) = Lexemes.ofChars cs := by
  have hb := isBlank_of_allBlank h
  clear h
  induction b with
  | nil => rfl
  | cons c b ih =>
    rw [List.cons_append, ofChars_blank (hb c List.mem_cons_self),
      ih fun c' hc' => hb c' (List.mem_cons_of_mem c hc')]

/-- A token does not begin with a blank, and unless it is a number it does not
begin with what a number can go on with. -/
theorem TokenText.exists_cons {t : Token} {cs : List Char} (h : TokenText t cs) :
    ∃ c cs', cs = c :: cs' ∧ isBlank c = false ∧ (t.isNumber = false → ¬ Continues c) := by
  cases h with
  | number hn =>
    cases hn with
    | positive hw _ _ =>
      obtain ⟨d, ds, rfl⟩ := List.exists_cons_of_ne_nil hw.1.1
      have hd : d.isDigit = true := hw.1.2 d List.mem_cons_self
      exact ⟨d, _, rfl, (digit_opens_number hd).1, nofun⟩
    | negative _ _ _ => exact ⟨_, _, rfl, rfl, nofun⟩
  | _ => exact ⟨_, _, rfl, rfl, fun _ => by decide⟩

theorem ofChars_tokenText {t : Token} {cs rest : List Char} (h : TokenText t cs)
    (hr : t.isNumber = true → NotFirst Continues rest) :
    Lexemes.ofChars (cs ++ rest) = .next t (Lexemes.ofChars rest) := by
  have hb : (cs ++ rest).dropWhile isBlank = cs ++ rest := by
    obtain ⟨c, cs, rfl, hc, -⟩ := h.exists_cons
    exact List.dropWhile_cons_of_neg (by simp [hc])
  rw [ofChars_eq, hb, head_tokenText h hr]

/-- Two tokens that can stand next to each other with no blank between them. -/
def Apart (t u : Token) : Prop := t.isNumber = true → u.isNumber = false

/-- What comes after a number cannot belong to it, unless it is a number. -/
theorem TokensText.notFirst {ts : List Token} {text : List Char} (h : TokensText ts text)
    (ht : ∀ t ∈ ts.head?, t.isNumber = false) : NotFirst Continues text := by
  have blank : ∀ {b cs : List Char}, AllBlank b → NotFirst Continues cs →
      NotFirst Continues (b ++ cs) := by
    intro b cs hb hcs
    cases b with
    | nil => exact hcs
    | cons c b =>
      intro c' hc'
      cases hc'
      have all : ∀ c ∈ [' ', '\t', '\n', '\r'], ¬ Continues c := by
        simp only [List.forall_mem_cons]
        exact ⟨by decide, by decide, by decide, by decide, nofun⟩
      exact all c (hb c List.mem_cons_self)
  cases h with
  | nil hb =>
    have hnil : NotFirst Continues [] := nofun
    simpa using blank hb hnil
  | cons hb htext _ =>
    obtain ⟨c, cs, rfl, -, hc⟩ := htext.exists_cons
    apply blank hb
    intro c' hc'
    cases hc'
    exact hc (ht _ rfl)

theorem ofChars_tokensText {ts : List Token} {text : List Char} (h : TokensText ts text)
    (ha : ts.IsChain Apart) : Lexemes.ofChars text = .ofTokens ts .done := by
  induction h with
  | nil hb =>
    have := ofChars_allBlank hb []
    rw [List.append_nil, ofChars_nil] at this
    exact this
  | @cons b cs text t ts hb ht htext ih =>
    have hts : t.isNumber = true → NotFirst Continues text := by
      intro hn
      apply htext.notFirst
      intro u hu
      obtain ⟨us, rfl⟩ := List.head?_eq_some_iff.1 hu
      exact (List.isChain_cons_cons.1 ha).1 hn
    rw [ofChars_allBlank hb, ofChars_tokenText ht hts, ih ha.tail]
    rfl

theorem apart_cons {t : Token} {ts : List Token} (ht : t.isNumber = false)
    (hts : ts.IsChain Apart) : (t :: ts).IsChain Apart :=
  hts.cons fun _ _ hn => by rw [ht] at hn; cases hn

theorem apart_between {ts us : List Token} {t : Token} (hts : ts.IsChain Apart)
    (ht : t.isNumber = false) (hus : us.IsChain Apart) : (ts ++ t :: us).IsChain Apart := by
  refine List.isChain_append.2 ⟨hts, apart_cons ht hus, ?_⟩
  intro _ _ u hu
  cases hu
  exact fun _ => ht

/-- The tokens of a value never have two numbers side by side. -/
theorem Tokens.isChain_apart {part : Part} {ts : List Token} (h : Tokens part ts) :
    ts.IsChain Apart := by
  induction h with
  | null | boolean | number | string => exact .singleton _
  | noElement | noMember => exact .nil
  | lastElement _ ih => exact ih
  | array _ ih | object _ _ ih => exact apart_cons rfl (apart_between ih rfl .nil)
  | element _ _ ih ih' => exact apart_between ih rfl ih'
  | lastMember _ ih => exact apart_cons rfl (apart_cons rfl ih)
  | member _ _ ih ih' => exact apart_cons rfl (apart_cons rfl (apart_between ih rfl ih'))

/-- **A rendering is read as the tokens it was made of.** -/
theorem Renders.exists_tokens {v : Value} {text : String} (h : Renders v text) :
    ∃ ts, Tokens (.value v) ts ∧ Lexemes.ofChars text.toList = .ofTokens ts .done := by
  obtain ⟨ts, hts, htext⟩ := h
  exact ⟨ts, hts, ofChars_tokensText htext hts.isChain_apart⟩

end HeaderDb.Json
