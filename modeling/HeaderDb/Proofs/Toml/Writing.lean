import HeaderDb.Json.Literal
import HeaderDb.Proofs.Toml.Rendering

/-! # A document for any assignments

One line for each assignment, with all keys and texts between double quotes.
Quotes, backslashes and control characters are escaped, so no text can end its
string or its line, and what was written is a document of the assignments. -/

namespace HeaderDb.Toml

/-- A character between double quotes. -/
def escape (c : Char) : List Char :=
  if c = '\x7f' then ['\\', 'u', '0', '0', '7', 'f'] else Json.escape c

def quoted (s : String) : List Char := '"' :: (s.toList.flatMap escape ++ ['"'])

def Assigned.written : Assigned → List Char
  | .text s => quoted s
  | .texts ss => '[' :: (ss.flatMap (fun s => quoted s ++ [',']) ++ [']'])

/-- The line of an assignment. -/
def lineOf (e : String × Assigned) : List Char :=
  quoted e.1 ++ '=' :: (e.2.written ++ ['\n'])

/-- The document of some assignments, in the given order. -/
def document (es : List (String × Assigned)) : String := String.ofList (es.flatMap lineOf)

/-! ## Strings -/

theorem isHexDigit_digitChar {x : Nat} (h : x < 16) : Json.IsHexDigit (Nat.digitChar x) x := by
  have all : ∀ x : Fin 16, "0123456789abcdef".toList[x.val]? = some (Nat.digitChar x) := by decide
  exact .inl (all ⟨x, h⟩)

theorem hexText_hexPair {n : Nat} (h : n < 256) : HexText 0 ('0' :: '0' :: Json.hexPair n) n := by
  have hn : 16 * (16 * (16 * (16 * 0 + 0) + 0) + n / 16) + n % 16 = n := by omega
  have h₀ : Json.IsHexDigit '0' 0 := isHexDigit_digitChar (by decide)
  have h₁ : Json.IsHexDigit (Nat.digitChar (n / 16)) (n / 16) := isHexDigit_digitChar (by omega)
  have h₂ : Json.IsHexDigit (Nat.digitChar (n % 16)) (n % 16) := isHexDigit_digitChar (by omega)
  have hlast : HexText (16 * (16 * (16 * (16 * 0 + 0) + 0) + n / 16) + n % 16) [] n := by
    rw [hn]
    exact .nil
  exact .cons h₀ (.cons h₀ (.cons h₁ (.cons h₂ hlast)))

/-- The three ways to write a character. -/
theorem escape_cases (c : Char) :
    (∃ e, (e, c) ∈ shortForms ∧ escape c = ['\\', e]) ∨
    (c.toNat < 256 ∧ escape c = '\\' :: 'u' :: '0' :: '0' :: Json.hexPair c.toNat) ∨
    (c ≠ '"' ∧ c ≠ '\\' ∧ allowedInString c = true ∧ escape c = [c]) := by
  by_cases hs : ∃ e, (e, c) ∈ shortForms
  · obtain ⟨e, he⟩ := hs
    have all : ∀ p ∈ shortForms, escape p.2 = ['\\', p.1] := by decide
    exact .inl ⟨e, he, all _ he⟩
  · have hne : ∀ p ∈ shortForms, c ≠ p.2 := fun p hp hc => hs ⟨p.1, hc ▸ hp⟩
    simp only [shortForms, List.forall_mem_cons] at hne
    obtain ⟨hq, hb, h8, hf, hn, hr, ht, _⟩ := hne
    by_cases hdel : c = '\x7f'
    · subst hdel
      exact .inr (.inl ⟨by decide, rfl⟩)
    · have he : escape c =
          if c < ' ' then ['\\', 'u', '0', '0'] ++ Json.hexPair c.toNat else [c] := by
        rw [escape, if_neg hdel, Json.escape, if_neg hq, if_neg hb, if_neg h8, if_neg ht, if_neg hn,
          if_neg hf, if_neg hr]
      by_cases hc : c < ' '
      · have hlt : c.toNat < 32 := hc
        exact .inr (.inl ⟨by omega, by rw [he, if_pos hc]; rfl⟩)
      · refine .inr (.inr ⟨hq, hb, ?_, by rw [he, if_neg hc]⟩)
        simp [allowedInString, Char.not_lt.mp hc, hdel]

/-- An escaped character is a spelling of it. -/
theorem TailText.escape {v t : List Char} (h : TailText '"' false v t) (c : Char) :
    TailText '"' false (c :: v) (Toml.escape c ++ t) := by
  rcases escape_cases c with ⟨e, he, hw⟩ | ⟨hlt, hw⟩ | ⟨hq, hb, ha, hw⟩
  · rw [hw]
    exact .short he h
  · rw [hw]
    exact .hex (hexText_hexPair hlt) rfl h
  · rw [hw]
    exact .verbatim hq (fun _ => hb) ha h

theorem stringText_quoted (s : String) : StringText false s.toList (quoted s) := by
  have htail (cs : List Char) : TailText '"' false cs (cs.flatMap escape ++ ['"']) := by
    induction cs with
    | nil => exact .close
    | cons c cs ih =>
      rw [List.flatMap_cons, List.append_assoc]
      exact ih.escape c
  exact .single (by decide) (htail s.toList)

/-! ## Tokens -/

theorem tokensText_quoted (s : String) {c : Char} {ts : List Token} {text : List Char}
    (hc : c ∉ ['"', '\x27']) (h : TokensText ts (c :: text)) :
    TokensText (.string false s :: ts) (quoted s ++ c :: text) := by
  refine .cons (.string (stringText_quoted s)) ?_ h
  intro d hd
  obtain rfl : c = d := Option.some.inj hd
  simpa [continues] using hc

def itemTokens (ss : List String) : List Token :=
  ss.flatMap (fun s => [.string false s, .comma]) ++ [.rightBracket]

def Assigned.tokens : Assigned → List Token
  | .text s => [.string false s]
  | .texts ss => .leftBracket :: itemTokens ss

def lineTokens (e : String × Assigned) : List Token :=
  .string false e.1 :: .equals :: (e.2.tokens ++ [.newline])

theorem items_itemTokens (ss : List String) : Items ss (itemTokens ss) := by
  have hgap : Gap [] := .blank .nothing
  induction ss with
  | nil => exact .close hgap
  | cons s ss ih => exact .item hgap hgap ih

theorem valueTokens_tokens (a : Assigned) : ValueTokens a a.tokens := by
  cases a with
  | text s => exact .text
  | texts ss => exact .texts (items_itemTokens ss)

theorem lines_lineTokens (es : List (String × Assigned)) : Lines es (es.flatMap lineTokens) := by
  induction es with
  | nil => exact .last (.empty (.blank .nothing))
  | cons e es ih =>
    have hline : Line (some e) (.string false e.1 :: .equals :: (e.2.tokens ++ [])) :=
      .assignment .nothing .quoted .nothing .nothing (valueTokens_tokens e.2) (.blank .nothing)
    have h := Lines.next hline ih
    simpa [lineTokens] using h

theorem tokensText_items (ss : List String) {ts : List Token} {text : List Char}
    (h : TokensText ts text) : TokensText (itemTokens ss ++ ts)
      (ss.flatMap (fun s => quoted s ++ [',']) ++ [']'] ++ text) := by
  induction ss with
  | nil => exact .cons .rightBracket (fun _ _ => rfl) h
  | cons s ss ih =>
    have hs := tokensText_quoted s (by decide) (.cons .comma (fun _ _ => rfl) ih)
    simpa [itemTokens] using hs

theorem tokensText_value (a : Assigned) {ts : List Token} {text : List Char}
    (h : TokensText ts ('\n' :: text)) :
    TokensText (a.tokens ++ ts) (a.written ++ '\n' :: text) := by
  cases a with
  | text s => exact tokensText_quoted s (by decide) h
  | texts ss =>
    have hitems := TokensText.cons .leftBracket (fun _ _ => rfl) (tokensText_items ss h)
    exact hitems

theorem tokensText_lines (es : List (String × Assigned)) :
    TokensText (es.flatMap lineTokens) (es.flatMap lineOf) := by
  induction es with
  | nil => exact .nil
  | cons e es ih =>
    have hvalue := tokensText_value e.2 (.cons .newline (fun _ _ => rfl) ih)
    have hline := tokensText_quoted e.1 (by decide) (.cons .equals (fun _ _ => rfl) hvalue)
    simpa [lineTokens, lineOf] using hline

/-! ## Documents -/

theorem return_not_mem_escape (c : Char) : '\r' ∉ escape c := by
  rcases escape_cases c with ⟨e, he, hw⟩ | ⟨_, hw⟩ | ⟨_, _, ha, hw⟩
  · have all : ∀ p ∈ shortForms, '\r' ∉ ['\\', p.1] := by decide
    rw [hw]
    exact all _ he
  · rw [hw]
    simp [Json.hexPair]
  · rw [hw, List.mem_singleton]
    intro hr
    rw [← hr] at ha
    cases ha

theorem return_not_mem_quoted (s : String) : '\r' ∉ quoted s := by
  simp [quoted, return_not_mem_escape]

theorem return_not_mem_lines (es : List (String × Assigned)) : '\r' ∉ es.flatMap lineOf := by
  have hvalue (a : Assigned) : '\r' ∉ a.written := by
    cases a <;> simp [Assigned.written, return_not_mem_quoted]
  simp [lineOf, return_not_mem_quoted, hvalue]

/-- What is written has no carriage return and no byte order mark. -/
theorem seen_lines (es : List (String × Assigned)) :
    seen (es.flatMap lineOf) = es.flatMap lineOf := by
  have h := unified_eq_self (return_not_mem_lines es)
  unfold seen
  split
  · next hb =>
    cases es with
    | nil => cases hb
    | cons e es => simp [lineOf, quoted] at hb
  · exact h

/-- **Any assignments can be written as a document.** -/
theorem renders_document (es : List (String × Assigned)) : Renders es (document es) := by
  refine ⟨_, lines_lineTokens es, ?_⟩
  rw [document, String.toList_ofList, seen_lines]
  exact tokensText_lines es

end HeaderDb.Toml
