import Mathlib.Data.List.Basic
import HeaderDb.Proofs.Toml.Rendering

/-! # TOML texts are read token by token

The lexer gives back the tokens of a text, whichever spellings the text was
written with. Offsets only serve messages, so a source is known here by its
characters, and what is left of it after a token by the characters that are
left. -/

namespace HeaderDb.Toml

/-- The characters of a source. -/
def chars (cs : Source) : List Char := cs.map (·.2)

theorem chars_cons {cs : Source} {c : Char} {text : List Char}
    (h : chars cs = c :: text) : ∃ i rest, cs = (i, c) :: rest ∧ chars rest = text := by
  obtain ⟨⟨i, c'⟩, rest, rfl, hc, hr⟩ := List.map_eq_cons_iff.mp h
  cases hc
  exact ⟨i, rest, rfl, hr⟩

/-! ## Strings -/

/-- A scan ends well, with the given characters, before the given text. -/
def Reads (r : Scanned) (v more : List Char) : Prop :=
  ∃ rest : Source, r = .ok (v, rest) ∧ chars rest = more

theorem Reads.prepend {r : Scanned} {v more : List Char} (h : Reads r v more) (c : Char) :
    Reads (prepend c r) (c :: v) more := by
  obtain ⟨rest, rfl, hr⟩ := h
  exact ⟨rest, rfl, hr⟩

theorem digitValue?_of_isHexDigit {d : Char} {x : Nat} (h : Json.IsHexDigit d x) :
    digitValue? 16 d = some x := by
  have lower : ∀ i : Fin 16, digitValue? 16 ("0123456789abcdef".toList.get i) = some i.val := by
    decide
  have upper : ∀ i : Fin 16, digitValue? 16 ("0123456789ABCDEF".toList.get i) = some i.val := by
    decide
  rcases h with h | h
  · obtain ⟨hx, rfl⟩ := List.getElem?_eq_some_iff.mp h
    exact lower ⟨x, hx⟩
  · obtain ⟨hx, rfl⟩ := List.getElem?_eq_some_iff.mp h
    exact upper ⟨x, hx⟩

theorem shortEscape?_of_mem {e c : Char} (h : (e, c) ∈ shortForms) : shortEscape? e = some c := by
  have all : ∀ p ∈ shortForms, shortEscape? p.1 = some p.2 := by decide
  exact all (e, c) h

section

variable {start : Nat} {q : Char} {m : Bool} {more : List Char}

/-- Digits are read up to the last of them, and then the string goes on. -/
theorem scanText_hex {x n : Nat} {c : Char} {ds t : List Char} (h : HexText x ds c.toNat)
    (hn : ds.length = n) (hpos : n ≠ 0) (offset : Nat) {cs : Source} (hcs : chars cs = ds ++ t) :
    ∃ rest : Source, chars rest = t ∧ scanText start q m (.hex offset n x) cs =
      prepend c (scanText start q m (.plain false) rest) := by
  generalize hz : c.toNat = z at h
  induction h generalizing n cs with
  | nil => exact absurd hn.symm hpos
  | @cons x y z d ds hd hds ih =>
    obtain ⟨i, cs, rfl, hcs'⟩ := chars_cons hcs
    rw [scanText, digitValue?_of_isHexDigit hd]
    cases hds with
    | nil =>
      refine ⟨cs, hcs', ?_⟩
      have hv : c.toNat.isValidChar := c.valid
      simp only [List.length_singleton] at hn
      simp only [← hn, ne_eq, not_true_eq_false, if_false, ← hz, if_pos hv, Char.ofNat_toNat]
    | @cons _ y' _ d' ds hd' hds =>
      have h1 : n ≠ 1 := by
        simp only [List.length_cons] at hn
        omega
      simp only [h1, ne_eq, not_false_eq_true, if_true]
      refine ih ?_ ?_ hcs' hz
      · simp only [List.length_cons] at hn ⊢
        omega
      · simp only [List.length_cons] at hn
        omega

/-- Blanks and line ends are dropped up to the first other character. -/
theorem scanText_trimming {s t : List Char} (hs : ∀ c ∈ s, isBlank c = true ∨ c = '\n')
    (ht : ∀ c ∈ t.head?, isBlank c = false ∧ c ≠ '\n') {cs : Source} (hcs : chars cs = s ++ t) :
    ∃ rest : Source, chars rest = t ∧
      scanText start q true (.plain true) cs = scanText start q true (.plain false) rest := by
  induction s generalizing cs with
  | nil =>
    refine ⟨cs, hcs, ?_⟩
    cases cs with
    | nil => rfl
    | cons x cs =>
      obtain ⟨i, c⟩ := x
      have hc : isBlank c = false ∧ c ≠ '\n' := by
        refine ht c ?_
        rw [show t = c :: chars cs from hcs.symm]
        rfl
      simp [scanText, hc.1, hc.2]
  | cons c s ih =>
    obtain ⟨i, cs, rfl, hcs'⟩ := chars_cons hcs
    rw [List.forall_mem_cons] at hs
    obtain ⟨rest, hr, he⟩ := ih hs.2 hcs'
    refine ⟨rest, hr, ?_⟩
    have hc : (isBlank c || decide (c = '\n')) = true := by simpa using hs.1
    simp only [scanText, hc, Bool.and_self, if_true, he]

theorem scanText_folding {b s t : List Char} (hb : ∀ c ∈ b, isBlank c = true)
    (hs : ∀ c ∈ s, isBlank c = true ∨ c = '\n')
    (ht : ∀ c ∈ t.head?, isBlank c = false ∧ c ≠ '\n') (offset : Nat) (k : Char) {cs : Source}
    (hcs : chars cs = b ++ '\n' :: (s ++ t)) :
    ∃ rest : Source, chars rest = t ∧
      scanText start q true (.folding offset k) cs =
        scanText start q true (.plain false) rest := by
  induction b generalizing cs with
  | nil =>
    obtain ⟨i, cs, rfl, hcs'⟩ := chars_cons hcs
    obtain ⟨rest, hr, he⟩ := scanText_trimming hs ht hcs'
    exact ⟨rest, hr, he⟩
  | cons c b ih =>
    obtain ⟨i, cs, rfl, hcs'⟩ := chars_cons hcs
    rw [List.forall_mem_cons] at hb
    obtain ⟨rest, hr, he⟩ := ih hb.2 hcs'
    refine ⟨rest, hr, ?_⟩
    rw [scanText, if_pos hb.1, he]

/-- A backslash at the end of a line. -/
theorem scanText_fold {b s t : List Char} (hb : ∀ c ∈ b, isBlank c = true)
    (hs : ∀ c ∈ s, isBlank c = true ∨ c = '\n')
    (ht : ∀ c ∈ t.head?, isBlank c = false ∧ c ≠ '\n') {cs : Source}
    (hcs : chars cs = b ++ '\n' :: (s ++ t)) :
    ∃ rest : Source, chars rest = t ∧
      scanText start q true .escape cs = scanText start q true (.plain false) rest := by
  cases b with
  | nil =>
    obtain ⟨i, cs, rfl, hcs'⟩ := chars_cons hcs
    obtain ⟨rest, hr, he⟩ := scanText_trimming hs ht hcs'
    exact ⟨rest, hr, he⟩
  | cons c b =>
    obtain ⟨i, cs, rfl, hcs'⟩ := chars_cons hcs
    rw [List.forall_mem_cons] at hb
    obtain ⟨rest, hr, he⟩ := scanText_folding hb.2 hs ht i c hcs'
    refine ⟨rest, hr, ?_⟩
    have hc : c = ' ' ∨ c = '\t' := by simpa [isBlank] using hb.1
    rw [← he]
    rcases hc with rfl | rfl <;> rfl

theorem twoQuotes?_some {t : List Char} {cs : Source} (h : chars cs = q :: q :: t) :
    ∃ rest : Source, chars rest = t ∧ twoQuotes? q cs = some rest := by
  obtain ⟨i, cs, rfl, h'⟩ := chars_cons h
  obtain ⟨j, cs, rfl, h''⟩ := chars_cons h'
  exact ⟨cs, h'', by simp [twoQuotes?]⟩

theorem twoQuotes?_none {t : List Char} {cs : Source} (h : chars cs = t)
    (ht : ∃ c ∈ t.take 2, c ≠ q) : twoQuotes? q cs = none := by
  unfold twoQuotes?
  split
  · next i a j b rest =>
    subst h
    refine if_neg fun hab => ?_
    simp only [Bool.and_eq_true, decide_eq_true_eq] at hab
    simp [chars, hab] at ht
  · rfl

theorem closingQuotes_replicate {n : Nat} (hn : n ≤ 2) (hm : ∀ c ∈ more.head?, c ≠ q)
    {cs : Source} (h : chars cs = List.replicate n q ++ more) :
    ∃ rest : Source, closingQuotes q cs = (List.replicate n q, rest) ∧ chars rest = more := by
  have hnone {cs : Source} (h : chars cs = more) : closingQuotes q cs = ([], cs) ∧
      ∀ i, closingQuotes q ((i, q) :: cs) = ([q], cs) := by
    unfold closingQuotes
    cases cs with
    | nil => simp
    | cons x cs =>
      have hx : x.2 ≠ q := hm x.2 (by rw [← h]; rfl)
      cases cs <;> simp [hx]
  match n, hn with
  | 0, _ => exact ⟨cs, (hnone h).1, h⟩
  | 1, _ =>
    obtain ⟨i, cs, rfl, h'⟩ := chars_cons h
    exact ⟨cs, (hnone h').2 i, h'⟩
  | 2, _ =>
    obtain ⟨i, cs, rfl, h'⟩ := chars_cons h
    obtain ⟨j, cs, rfl, h''⟩ := chars_cons h'
    exact ⟨cs, by simp [closingQuotes], h''⟩

theorem TailText.ne_nil {v t : List Char} (h : TailText q m v t) : t ≠ [] := by
  cases h <;> simp

theorem scanText_backslash (i : Nat) (cs : Source) :
    scanText start '"' m (.plain false) ((i, '\\') :: cs) = scanText start '"' m .escape cs := by
  simp [scanText]

/-- What is left of a string is read up to and with the closing quotes. -/
theorem scanText_tail (start : Nat) {v t : List Char} (h : TailText q m v t)
    (hq : q ∈ ['"', '\x27']) (hm : ∀ c ∈ more.head?, c ≠ q) {cs : Source} (hcs : chars cs = t ++ more) :
    Reads (scanText start q m (.plain false) cs) v more := by
  have hline : q ≠ '\n' := by
    rintro rfl
    simp at hq
  induction h generalizing cs with
  | close =>
    obtain ⟨i, cs, rfl, hcs'⟩ := chars_cons hcs
    exact ⟨cs, by simp [scanText, hline], hcs'⟩
  | @closeLong q n hn =>
    rw [show n + 3 = 3 + n from Nat.add_comm .., List.replicate_add, List.append_assoc] at hcs
    obtain ⟨i, cs, rfl, hcs'⟩ := chars_cons hcs
    obtain ⟨rest, hr, ht⟩ := twoQuotes?_some hcs'
    obtain ⟨rest', he, hr'⟩ := closingQuotes_replicate hn hm hr
    exact ⟨rest', by simp [scanText, hline, ht, he], hr'⟩
  | @verbatim q c m v t hc hb ha _ ih =>
    obtain ⟨i, cs, rfl, hcs'⟩ := chars_cons hcs
    have hn : c ≠ '\n' := by
      rintro rfl
      cases ha
    have hbs : (decide (c = '\\') && decide (q = '"')) = false := by
      simpa using fun h hq => hb hq h
    have he : scanText start q m (.plain false) ((i, c) :: cs) =
        prepend c (scanText start q m (.plain false) cs) := by
      simp [scanText, hn, hc, hbs, ha]
    rw [he]
    exact (ih hq hm hcs' hline).prepend c
  | @newline q v t _ ih =>
    obtain ⟨i, cs, rfl, hcs'⟩ := chars_cons hcs
    have he : scanText start q true (.plain false) ((i, '\n') :: cs) =
        prepend '\n' (scanText start q true (.plain false) cs) := by
      simp [scanText]
    rw [he]
    exact (ih hq hm hcs' hline).prepend _
  | @quote q v t ht _ ih =>
    obtain ⟨i, cs, rfl, hcs'⟩ := chars_cons hcs
    have htwo : twoQuotes? q cs = none := by
      refine twoQuotes?_none hcs' ?_
      obtain ⟨c, hc, hne⟩ := ht
      exact ⟨c, by rw [List.append_eq, List.take_append]; exact List.mem_append_left _ hc, hne⟩
    have he : scanText start q true (.plain false) ((i, q) :: cs) =
        prepend q (scanText start q true (.plain false) cs) := by
      simp [scanText, hline, htwo]
    rw [he]
    exact (ih hq hm hcs' hline).prepend _
  | @short e c m v t he _ ih =>
    obtain ⟨i, cs, rfl, hcs'⟩ := chars_cons hcs
    obtain ⟨j, cs, rfl, hcs''⟩ := chars_cons hcs'
    rw [scanText_backslash, scanText, shortEscape?_of_mem he]
    exact (ih hq hm hcs'' hline).prepend _
  | @hex c ds m v t hd hn _ ih =>
    obtain ⟨i, cs, rfl, hcs'⟩ := chars_cons hcs
    obtain ⟨j, cs, rfl, hcs''⟩ := chars_cons hcs'
    rw [List.append_eq, List.append_assoc] at hcs''
    obtain ⟨rest, hr, he⟩ := scanText_hex hd hn (by decide) j hcs''
    rw [scanText_backslash]
    exact he ▸ (ih hq hm hr hline).prepend _
  | @longHex c ds m v t hd hn _ ih =>
    obtain ⟨i, cs, rfl, hcs'⟩ := chars_cons hcs
    obtain ⟨j, cs, rfl, hcs''⟩ := chars_cons hcs'
    rw [List.append_eq, List.append_assoc] at hcs''
    obtain ⟨rest, hr, he⟩ := scanText_hex hd hn (by decide) j hcs''
    rw [scanText_backslash]
    exact he ▸ (ih hq hm hr hline).prepend _
  | @fold b s v t hb hs ht htail ih =>
    obtain ⟨i, cs, rfl, hcs'⟩ := chars_cons hcs
    rw [List.append_eq, List.append_assoc, List.cons_append, List.append_assoc] at hcs'
    have ht' : ∀ c ∈ (t ++ more).head?, isBlank c = false ∧ c ≠ '\n' := by
      rw [List.head?_append_of_ne_nil _ htail.ne_nil]
      exact ht
    obtain ⟨rest, hr, he⟩ := scanText_fold hb hs ht' hcs'
    rw [scanText_backslash, he]
    exact ih hq hm hr hline

/-- A string of one quote is empty, or begins with another character. -/
theorem TailText.head_of_single {v t : List Char} (h : TailText q false v t) :
    v = [] ∧ t = [q] ∨ ∃ c t', t = c :: t' ∧ c ≠ q := by
  cases h with
  | close => exact .inl ⟨rfl, rfl⟩
  | verbatim hc _ _ _ => exact .inr ⟨_, _, rfl, hc⟩
  | short _ _ | hex _ _ _ | longHex _ _ _ => exact .inr ⟨_, _, rfl, by decide⟩

theorem scanString_single (start : Nat) {v t : List Char} (h : TailText q false v t)
    (hq : q ∈ ['"', '\x27']) (hm : ∀ c ∈ more.head?, c ≠ q) {cs : Source} (hcs : chars cs = t ++ more) :
    ∃ rest : Source, scanString start q cs = .ok (false, v, rest) ∧ chars rest = more := by
  rcases h.head_of_single with ⟨rfl, rfl⟩ | ⟨c, t', rfl, hc⟩
  · obtain ⟨i, cs, rfl, hcs'⟩ := chars_cons hcs
    have htwo : twoQuotes? q ((i, q) :: cs) = none := by
      cases cs with
      | nil => rfl
      | cons x cs =>
        have hx : x.2 ≠ q := hm x.2 (by rw [show more = _ from hcs'.symm]; rfl)
        simp [twoQuotes?, hx]
    exact ⟨cs, by simp [scanString, htwo], hcs'⟩
  · obtain ⟨rest, he, hr⟩ := scanText_tail start h hq hm hcs
    have htwo : twoQuotes? q cs = none := twoQuotes?_none hcs ⟨c, by simp, hc⟩
    obtain ⟨i, cs, rfl, _⟩ := chars_cons hcs
    exact ⟨rest, by simp [scanString, htwo, hc, he, Except.map], hr⟩

/-- A string is read back from each of its spellings. -/
theorem scanString_text {v t : List Char} (h : StringText m v t)
    (hm : ∀ c ∈ more.head?, c ∉ ['"', '\x27']) {cs : Source} (hcs : chars cs = t ++ more) :
    ∃ i q tail, ∃ rest : Source, cs = (i, q) :: tail ∧ q ∈ ['"', '\x27'] ∧
      scanString i q tail = .ok (m, v, rest) ∧ chars rest = more := by
  have hm' {q : Char} (hq : q ∈ ['"', '\x27']) : ∀ c ∈ more.head?, c ≠ q :=
    fun c hc he => hm c hc (he ▸ hq)
  cases h with
  | @single q v t hq ht =>
    obtain ⟨i, cs, rfl, hcs'⟩ := chars_cons hcs
    obtain ⟨rest, he, hr⟩ := scanString_single i ht hq (hm' hq) hcs'
    exact ⟨i, q, cs, rest, rfl, hq, he, hr⟩
  | @long q v t hq ht hn =>
    obtain ⟨i, cs, rfl, hcs'⟩ := chars_cons hcs
    obtain ⟨cs', hcs'', htwo⟩ := twoQuotes?_some hcs'
    obtain ⟨rest, he, hr⟩ := scanText_tail i ht hq (hm' hq) hcs''
    have hdrop : dropNewline cs' = cs' := by
      cases cs' with
      | nil => rfl
      | cons x cs' =>
        refine if_neg fun hx => hn ?_
        rw [← List.head?_append_of_ne_nil _ ht.ne_nil]
        exact (congrArg List.head? hcs'').symm.trans (congrArg some hx)
    exact ⟨i, q, cs, rest, rfl, hq, by simp [scanString, htwo, hdrop, he, Except.map], hr⟩
  | @longLine q v t hq ht =>
    obtain ⟨i, cs, rfl, hcs'⟩ := chars_cons hcs
    obtain ⟨cs', hcs'', htwo⟩ := twoQuotes?_some hcs'
    obtain ⟨j, cs', rfl, hline⟩ := chars_cons hcs''
    obtain ⟨rest, he, hr⟩ := scanText_tail i ht hq (hm' hq) hline
    have hdrop : dropNewline ((j, '\n') :: cs') = cs' := rfl
    exact ⟨i, q, cs, rest, rfl, hq, by simp [scanString, htwo, hdrop, he, Except.map], hr⟩

end

/-! ## Tokens -/

/-- A run of one kind ends where another kind begins. -/
theorem run_text {p : Char → Bool} {text more : List Char} (ht : ∀ c ∈ text, p c = true)
    (hm : ∀ c ∈ more.head?, p c = false) {cs : Source} (hcs : chars cs = text ++ more) :
    ∃ rest : Source, run p cs = (text, rest) ∧ chars rest = more := by
  induction text generalizing cs with
  | nil =>
    refine ⟨cs, ?_, hcs⟩
    cases cs with
    | nil => rfl
    | cons x cs =>
      have hx : p x.2 = false := hm x.2 (by rw [show more = _ from hcs.symm]; rfl)
      simp [run, hx]
  | cons c text ih =>
    obtain ⟨i, cs, rfl, hcs'⟩ := chars_cons hcs
    rw [List.forall_mem_cons] at ht
    obtain ⟨rest, he, hr⟩ := ih ht.2 hcs'
    refine ⟨rest, ?_, hr⟩
    rw [run, Prod.mk.injEq] at he
    simp [run, ht.1, he.1, he.2]

/-- The characters that a token of another kind begins with. -/
def delimiters : List Char :=
  ['\n', '=', '.', ',', ':', '+', '\x7b', '\x7d', '[', ']', ' ', '\t', '#', '"', '\x27']

theorem delimiters_of_bare {c : Char} (h : isBare c = true) :
    punctuation? c = none ∧ isBlank c = false ∧ c ≠ '#' ∧ c ≠ '"' ∧ c ≠ '\x27' := by
  have hbare : delimiters.all (fun x => !isBare x) = true := rfl
  have hne : ∀ x ∈ delimiters, c ≠ x := by
    intro x hx he
    have hx' := List.all_eq_true.mp hbare x hx
    rw [← he, h] at hx'
    cases hx'
  simp only [delimiters, List.forall_mem_cons] at hne
  simp [punctuation?, isBlank, hne]

/-- A token is read back from each of its spellings. -/
theorem scanToken_text {t : Token} {text more : List Char} (h : TokenText t text)
    (hm : ∀ c ∈ more.head?, continues t c = false) {cs : Source}
    (hcs : chars cs = text ++ more) :
    ∃ i c tail, ∃ rest : Source, cs = (i, c) :: tail ∧ scanToken i c tail = .ok (t, rest) ∧
      chars rest = more := by
  cases h with
  | newline | equals | comma | leftBracket | rightBracket =>
    obtain ⟨i, cs, rfl, hcs'⟩ := chars_cons hcs
    exact ⟨i, _, cs, cs, rfl, rfl, hcs'⟩
  | @whitespace b hne hb =>
    obtain ⟨c, b, rfl⟩ := List.exists_cons_of_ne_nil hne
    obtain ⟨i, cs, rfl, hcs'⟩ := chars_cons hcs
    rw [List.forall_mem_cons] at hb
    obtain ⟨rest, he, hr⟩ := run_text hb.2 hm hcs'
    refine ⟨i, c, cs, rest, rfl, ?_, hr⟩
    have hp : punctuation? c = none := by
      have hc : c = ' ' ∨ c = '\t' := by simpa [isBlank] using hb.1
      rcases hc with rfl | rfl <;> rfl
    simp [scanToken, hp, hb.1, he]
  | comment hc =>
    obtain ⟨i, cs, rfl, hcs'⟩ := chars_cons hcs
    obtain ⟨rest, he, hr⟩ := run_text hc hm hcs'
    exact ⟨i, _, cs, rest, rfl, by simp [scanToken, punctuation?, isBlank, he], hr⟩
  | @bare b hne hb =>
    obtain ⟨c, b, rfl⟩ := List.exists_cons_of_ne_nil hne
    obtain ⟨i, cs, rfl, hcs'⟩ := chars_cons hcs
    rw [List.forall_mem_cons] at hb
    obtain ⟨rest, he, hr⟩ := run_text hb.2 hm hcs'
    refine ⟨i, c, cs, rest, rfl, ?_, hr⟩
    obtain ⟨hp, hbl, hh, hd, hs⟩ := delimiters_of_bare hb.1
    simp [scanToken, hp, hbl, hh, hd, hs, hb.1, he]
  | string hs =>
    have hm' : ∀ c ∈ more.head?, c ∉ ['"', '\x27'] := by
      intro c hc
      simpa [continues] using hm c hc
    obtain ⟨i, q, tail, rest, rfl, hq, he, hr⟩ := scanString_text hs hm' hcs
    refine ⟨i, q, tail, rest, rfl, ?_, hr⟩
    have hq' : q = '"' ∨ q = '\x27' := by simpa using hq
    rcases hq' with rfl | rfl <;>
      simp [scanToken, punctuation?, isBlank, he, String.ofList_toList]

/-! ## Sequences of tokens -/

/-- The tokens of a text without faults. -/
def Lexemes.tokens? : Lexemes → Option (List Token)
  | .done _ => some []
  | .fault _ => none
  | .next _ t rest => rest.tokens?.map (t :: ·)

theorem ofSource_token {stop i : Nat} {c : Char} {t : Token} {tail rest : Source}
    (h : scanToken i c tail = .ok (t, rest)) :
    Lexemes.ofSource stop ((i, c) :: tail) = .next i t (Lexemes.ofSource stop rest) := by
  rw [Lexemes.ofSource]
  split
  · next he => rw [h] at he; cases he
  · next ho => rw [h] at ho; cases ho; rfl

theorem tokens?_ofSource {ts : List Token} {text : List Char} (h : TokensText ts text)
    {cs : Source} (hcs : chars cs = text) (stop : Nat) :
    (Lexemes.ofSource stop cs).tokens? = some ts := by
  induction h generalizing cs with
  | nil =>
    obtain rfl : cs = [] := List.map_eq_nil_iff.mp hcs
    rw [Lexemes.ofSource]
    rfl
  | cons ht hm _ ih =>
    obtain ⟨i, c, tail, rest, rfl, he, hr⟩ := scanToken_text ht hm hcs
    rw [ofSource_token he, Lexemes.tokens?, ih hr]
    rfl

/-! ## Line ends -/

theorem chars_ofChars (offset : Nat) (cs : List Char) :
    chars (Source.ofChars offset cs) = unified cs := by
  fun_induction unified cs generalizing offset with
  | case1 => rfl
  | case2 rest ih => exact congrArg _ (ih _)
  | case3 c rest hne ih =>
    rw [Source.ofChars]
    · exact congrArg _ (ih _)
    · exact hne

theorem chars_ofDocument (cs : List Char) : chars (Source.ofDocument cs) = seen cs := by
  by_cases h : ∃ rest, cs = '\uFEFF' :: rest
  · obtain ⟨rest, rfl⟩ := h
    exact chars_ofChars 3 rest
  · have hne : ∀ rest, cs = '\uFEFF' :: rest → False := fun rest he => h ⟨rest, he⟩
    rw [Source.ofDocument.eq_2 cs hne, seen.eq_2 cs hne]
    exact chars_ofChars 0 cs

/-- The lexer gives back the tokens that a document is written with. -/
theorem tokens?_ofDocument {ts : List Token} {text : List Char} (h : TokensText ts (seen text)) :
    (Lexemes.ofDocument text).tokens? = some ts :=
  tokens?_ofSource h (chars_ofDocument text) _

end HeaderDb.Toml
