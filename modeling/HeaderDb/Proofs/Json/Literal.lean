import HeaderDb.Json.Lexeme
import HeaderDb.Json.Literal

/-! # Tokens of written JSON

How the lexer reads what the writer produces: one equation for a blank, one for
a token of one character, and one for a string literal with any rest behind it.
The literal is the only case with an argument in it. Its characters are read
back one by one, whichever of the three forms (short escape, `\u00xx`, verbatim)
each of them was given. For readers that only look for the end of a literal it is
enough that a quote or a backslash never stands in it without a backslash. -/

namespace HeaderDb.Json

/-! ## Characters of a literal -/

/-- Two hexadecimal digits after two zeros spell the number they were made from. -/
theorem unit?_hexPair :
    ∀ n < 32, unit? '0' '0' (Nat.digitChar (n / 16)) (Nat.digitChar (n % 16)) = some n := by
  decide

theorem scanString_short {e c : Char} (he : e ≠ 'u') (hs : shortEscape? e = some c)
    (r : List Char) : scanString true ('\\' :: e :: r) = prepend c (scanString true r) := by
  rw [scanString.eq_def]
  simp [he, hs]

theorem scanString_verbatim {c : Char} (hq : c ≠ '"') (hb : c ≠ '\\') (hl : ¬ c < ' ')
    (r : List Char) : scanString true (c :: r) = prepend c (scanString true r) := by
  rw [scanString.eq_def]
  split
  · next h => cases h
  · next h => cases h; exact absurd rfl hq
  · next h => cases h; exact absurd rfl hb
  · next h => cases h; exact absurd rfl hb
  · next h => cases h; exact absurd rfl hb
  · next h => cases h; exact absurd rfl hb
  · next h => cases h; exact if_neg hl

theorem scanString_control {c : Char} (hc : c < ' ') (r : List Char) :
    scanString true (['\\', 'u', '0', '0'] ++ hexPair c.toNat ++ r) =
      prepend c (scanString true r) := by
  have hn : c.toNat < 32 := hc
  have hu := unit?_hexPair c.toNat hn
  have hh : isHigh c.toNat = false := by simp [isHigh]; omega
  have hl : isLow c.toNat = false := by simp [isLow]; omega
  have hx : Char.ofNat c.toNat = c := Char.ofNat_toNat c
  simp only [hexPair, List.cons_append, List.nil_append]
  rw [scanString]
  simp [hu, hh, hl, hx]

/-- An escaped character is read back as that character. -/
theorem scanString_escape (c : Char) (r : List Char) :
    scanString true (escape c ++ r) = prepend c (scanString true r) := by
  unfold escape
  -- the seven characters with a short escape
  iterate 7
    split
    · next h => exact scanString_short (by decide) (by rw [h]; rfl) r
  split
  · next h => exact scanString_control h r
  · next hq hb _ _ _ _ _ hl => exact scanString_verbatim hq hb hl r

/-- The body of a literal is read back up to its closing quote. -/
theorem scanString_body (cs r : List Char) :
    scanString true (cs.flatMap escape ++ '"' :: r) = .ok (cs, r) := by
  induction cs with
  | nil => simp [scanString]
  | cons c cs ih =>
    rw [List.flatMap_cons, List.append_assoc, scanString_escape, ih]
    rfl

/-! ## What a literal is made of -/

/-- A character that can stand for itself in a literal. -/
structure IsPlain (c : Char) : Prop where
  not_quote : c ≠ '"'
  not_backslash : c ≠ '\\'
  not_control : ' ' ≤ c

theorem isPlain_digitChar {x : Nat} (h : x < 16) : IsPlain (Nat.digitChar x) := by
  have all : ∀ x : Fin 16, Nat.digitChar x ≠ '"' ∧ Nat.digitChar x ≠ '\\' ∧
      ' ' ≤ Nat.digitChar x := by decide
  obtain ⟨hquote, hbackslash, hcontrol⟩ := all ⟨x, h⟩
  exact ⟨hquote, hbackslash, hcontrol⟩

/-- A character stands for itself, or a backslash says that the next one does
not; what comes after these two is plain. -/
inductive Written (c : Char) : List Char → Prop where
  | verbatim : IsPlain c → Written c [c]
  | escaped {e : Char} {ds : List Char} : ' ' ≤ e → (∀ d ∈ ds, IsPlain d) →
      Written c ('\\' :: e :: ds)

theorem written_escape (c : Char) : Written c (escape c) := by
  unfold escape
  refine iteInduction (fun _ => .escaped (by decide) nofun) fun hq => ?_
  refine iteInduction (fun _ => .escaped (by decide) nofun) fun hb => ?_
  -- the other characters with a short escape
  iterate 5
    refine iteInduction (fun _ => .escaped (by decide) nofun) fun _ => ?_
  refine iteInduction (fun hc => ?_) fun hc => ?_
  · have hn : c.toNat < 32 := hc
    have hzero : IsPlain '0' := isPlain_digitChar (show 0 < 16 by omega)
    have hds : ∀ d ∈ '0' :: '0' :: hexPair c.toNat, IsPlain d := by
      simp only [hexPair, List.forall_mem_cons]
      exact ⟨hzero, hzero, isPlain_digitChar (by omega), isPlain_digitChar (by omega), nofun⟩
    exact .escaped (by decide) hds
  · exact .verbatim ⟨hq, hb, Char.not_lt.mp hc⟩

theorem toList_literal (s : String) :
    (literal s).toList = '"' :: (s.toList.flatMap escape ++ ['"']) := by
  simp [literal]

/-- A literal holds no control character, whatever its text holds. -/
theorem le_of_mem_literal {s : String} {c : Char} (h : c ∈ (literal s).toList) : ' ' ≤ c := by
  have hquote : ' ' ≤ '"' := by decide
  have hbackslash : ' ' ≤ '\\' := by decide
  rw [toList_literal, List.mem_cons, List.mem_append, List.mem_singleton] at h
  rcases h with rfl | h | rfl
  · exact hquote
  · obtain ⟨d, _, hc⟩ := List.mem_flatMap.mp h
    have hw := written_escape d
    generalize escape d = w at hw hc
    cases hw with
    | verbatim hd =>
      rw [List.mem_singleton] at hc
      exact hc ▸ hd.not_control
    | escaped he hds =>
      rw [List.mem_cons, List.mem_cons] at hc
      rcases hc with rfl | rfl | hc
      · exact hbackslash
      · exact he
      · exact (hds c hc).not_control
  · exact hquote

/-! ## One token after another -/

/-- The equation of the lexer without the proof that it ends. -/
theorem ofChars_eq (cs : List Char) :
    Lexemes.ofChars cs = match Head.ofChars (cs.dropWhile isBlank) with
      | .done => .done
      | .broken isString read skipped => .broken isString read skipped
      | .token t rest => .next t (Lexemes.ofChars rest) := by
  rw [Lexemes.ofChars]
  split <;> simp_all only

theorem ofChars_nil : Lexemes.ofChars [] = .done := by
  rw [ofChars_eq]; rfl

theorem ofChars_blank {c : Char} (h : isBlank c = true) (cs : List Char) :
    Lexemes.ofChars (c :: cs) = Lexemes.ofChars cs := by
  rw [ofChars_eq, ofChars_eq cs, List.dropWhile_cons_of_pos h]

theorem ofChars_punctuation {c : Char} {t : Token} (hb : isBlank c = false)
    (hp : punctuation? c = some t) (cs : List Char) :
    Lexemes.ofChars (c :: cs) = .next t (Lexemes.ofChars cs) := by
  rw [ofChars_eq, List.dropWhile_cons_of_neg (by simp [hb])]
  simp only [Head.ofChars, hp]

/-- A literal is one token, and the text is its value. -/
theorem ofChars_literal (s : String) (cs : List Char) :
    Lexemes.ofChars ((literal s).toList ++ cs) = .next (.string (.ok s)) (Lexemes.ofChars cs) := by
  have hs : (literal s).toList ++ cs = '"' :: (s.toList.flatMap escape ++ '"' :: cs) := by
    simp [toList_literal]
  rw [hs, ofChars_eq, List.dropWhile_cons_of_neg (by decide)]
  simp only [Head.ofChars, show punctuation? '"' = none from rfl, show word? '"' = none from rfl,
    if_true, Head.ofString, scanString_body, String.ofList_toList]

end HeaderDb.Json
