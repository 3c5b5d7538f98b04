import Mathlib.Data.List.Forall2
import HeaderDb.Proofs.Toml.Reading
import HeaderDb.Toml.Document

/-! # Documents of assignments are read line by line

A sequence of tokens with the structure of a document is read as the assignments
that it writes, in their order. Every function of the reader is given fuel; one
step is spent on each line, item or piece of a gap, and none of these is without
a token, so the number of tokens bounds all of them. -/

namespace HeaderDb.Toml

/-! ## Tokens ahead -/

variable {ls : Lexemes} {t : Token} {ts us : List Token}

theorem tokens?_cons (h : ls.tokens? = some (t :: ts)) :
    ∃ i rest, ls = .next i t rest ∧ rest.tokens? = some ts := by
  cases ls with
  | done stop => cases h
  | fault e => cases h
  | next i t' rest =>
    obtain ⟨us, hr, he⟩ := Option.map_eq_some_iff.mp h
    cases he
    exact ⟨i, rest, rfl, hr⟩

theorem tokens?_nil (h : ls.tokens? = some []) : ∃ stop, ls = .done stop := by
  cases ls with
  | done stop => exact ⟨stop, rfl⟩
  | fault e => cases h
  | next i t' rest =>
    obtain ⟨us, _, he⟩ := Option.map_eq_some_iff.mp h
    cases he

theorem length_tokens? (h : ls.tokens? = some ts) : ls.length = ts.length := by
  induction ts generalizing ls with
  | nil =>
    obtain ⟨stop, rfl⟩ := tokens?_nil h
    rfl
  | cons t ts ih =>
    obtain ⟨i, rest, rfl, hr⟩ := tokens?_cons h
    rw [Lexemes.length, ih hr, List.length_cons]

theorem skipBlanks_cons {b : List Token} (hb : Blank b) (ht : ∀ w, t ≠ .whitespace w)
    (h : ls.tokens? = some (b ++ t :: ts)) :
    ∃ i rest, ls.skipBlanks = .next i t rest ∧ rest.tokens? = some ts := by
  cases hb with
  | nothing =>
    obtain ⟨i, rest, rfl, hr⟩ := tokens?_cons h
    refine ⟨i, rest, ?_, hr⟩
    unfold Lexemes.skipBlanks
    split
    · next w he => cases he; exact absurd rfl (ht _)
    · rfl
  | whitespace =>
    obtain ⟨i, rest, rfl, hr⟩ := tokens?_cons h
    obtain ⟨j, rest', rfl, hr'⟩ := tokens?_cons hr
    exact ⟨j, rest', rfl, hr'⟩

theorem skipBlanks_nil {b : List Token} (hb : Blank b) (h : ls.tokens? = some b) :
    ∃ stop, ls.skipBlanks = .done stop := by
  cases hb with
  | nothing =>
    obtain ⟨stop, rfl⟩ := tokens?_nil h
    exact ⟨stop, rfl⟩
  | whitespace =>
    obtain ⟨i, rest, rfl, hr⟩ := tokens?_cons h
    exact tokens?_nil hr

/-! ## Ends of lines -/

theorem lineEnd_tokens (hu : ∀ t ∈ us.head?, t = .newline) (h : ls.tokens? = some us) :
    ∃ ls', lineEnd ls = .ok ls' ∧ ls'.tokens? = some us.tail := by
  cases us with
  | nil =>
    obtain ⟨stop, rfl⟩ := tokens?_nil h
    exact ⟨.done stop, rfl, rfl⟩
  | cons t us =>
    obtain rfl := hu t rfl
    obtain ⟨i, rest, rfl, hr⟩ := tokens?_cons h
    exact ⟨rest, rfl, hr⟩

theorem restOfLine_tokens {c : List Token} (hc : LineTail c) (hu : ∀ t ∈ us.head?, t = .newline)
    (h : ls.tokens? = some (c ++ us)) :
    ∃ ls', restOfLine ls = .ok ls' ∧ ls'.tokens? = some us.tail := by
  cases hc with
  | blank hb =>
    cases us with
    | nil =>
      rw [List.append_nil] at h
      obtain ⟨stop, hs⟩ := skipBlanks_nil hb h
      exact ⟨.done stop, by simp only [restOfLine, hs, lineEnd], rfl⟩
    | cons t us =>
      obtain rfl := hu t rfl
      obtain ⟨i, rest, hs, hr⟩ := skipBlanks_cons hb (by simp) h
      exact ⟨rest, by simp only [restOfLine, hs, lineEnd], hr⟩
  | comment hb =>
    rw [List.append_assoc, List.singleton_append] at h
    obtain ⟨i, rest, hs, hr⟩ := skipBlanks_cons hb (by simp) h
    obtain ⟨ls', he, hl⟩ := lineEnd_tokens hu hr
    exact ⟨ls', by simp only [restOfLine, hs, he], hl⟩

/-! ## Values -/

/-- A token that ends a gap. -/
def Token.isSolid : Token → Bool
  | .whitespace _ => false
  | .newline => false
  | .comment => false
  | _ => true

theorem skipLines_gap {g : List Token} (hg : Gap g) (ht : t.isSolid = true) {fuel : Nat}
    (hf : g.length < fuel) (h : ls.tokens? = some (g ++ t :: ts)) :
    ∃ i rest, skipLines fuel ls = .ok (.next i t rest) ∧ rest.tokens? = some ts := by
  induction hg generalizing ls fuel with
  | blank hb =>
    obtain ⟨fuel, rfl⟩ := Nat.exists_eq_succ_of_ne_zero (Nat.ne_zero_of_lt hf)
    obtain ⟨i, rest, hs, hr⟩ := skipBlanks_cons hb (fun w he => by rw [he] at ht; cases ht) h
    refine ⟨i, rest, ?_, hr⟩
    rw [skipLines, hs]
    cases t <;> first | rfl | cases ht
  | newline hb _ ih =>
    obtain ⟨fuel, rfl⟩ := Nat.exists_eq_succ_of_ne_zero (Nat.ne_zero_of_lt hf)
    rw [List.append_assoc, List.cons_append] at h
    obtain ⟨i, rest, hs, hr⟩ := skipBlanks_cons hb (by simp) h
    rw [skipLines, hs]
    refine ih ?_ hr
    simp only [List.length_append, List.length_cons] at hf
    omega
  | comment hb _ ih =>
    obtain ⟨fuel, rfl⟩ := Nat.exists_eq_succ_of_ne_zero (Nat.ne_zero_of_lt hf)
    rw [List.append_assoc, List.cons_append, List.cons_append] at h
    obtain ⟨i, rest, hs, hr⟩ := skipBlanks_cons hb (by simp) h
    obtain ⟨j, rest', rfl, hr'⟩ := tokens?_cons hr
    rw [skipLines, hs]
    refine ih ?_ hr'
    simp only [List.length_append, List.length_cons] at hf
    omega

/-- The same with the fuel that an array gives. -/
theorem skipLines_items {g : List Token} (hg : Gap g) (ht : t.isSolid = true)
    (h : ls.tokens? = some (g ++ t :: ts)) :
    ∃ i rest, skipLines (ls.length + 1) ls = .ok (.next i t rest) ∧ rest.tokens? = some ts := by
  refine skipLines_gap hg ht ?_ h
  rw [length_tokens? h, List.length_append]
  omega

/-- Items that hold the given texts. -/
def HoldTexts (ss : List String) (items : List (Located Value)) : Prop :=
  List.Forall₂ (fun s item => item.value = .string s) ss items

theorem items_tokens {ss : List String} (hi : Items ss ts) {fuel : Nat} (hf : ts.length ≤ fuel)
    (h : ls.tokens? = some (ts ++ us)) :
    ∃ vs ls', items fuel ls = .ok (vs, ls') ∧ ls'.tokens? = some us ∧ HoldTexts ss vs := by
  induction hi generalizing ls fuel with
  | close hg =>
    obtain ⟨fuel, rfl⟩ : ∃ n, fuel = n + 1 := ⟨fuel - 1, by simp at hf; omega⟩
    rw [List.append_assoc, List.singleton_append] at h
    obtain ⟨i, rest, hs, hr⟩ := skipLines_items hg rfl h
    exact ⟨[], rest, by rw [items, hs], hr, .nil⟩
  | @last s m g g' hg hg' =>
    obtain ⟨fuel, rfl⟩ : ∃ n, fuel = n + 2 := ⟨fuel - 2, by simp at hf; omega⟩
    rw [List.append_assoc, List.cons_append, List.append_assoc, List.singleton_append] at h
    obtain ⟨i, rest, hs, hr⟩ := skipLines_items hg rfl h
    obtain ⟨j, rest', hs', hr'⟩ := skipLines_items hg' rfl hr
    refine ⟨[⟨i, .string s⟩], rest', ?_, hr', .cons rfl .nil⟩
    rw [items, hs]
    simp only [value, hs', expect, if_true, Except.map]
  | @item s ss m g g' ts hg hg' _ ih =>
    obtain ⟨fuel, rfl⟩ : ∃ n, fuel = n + 2 := ⟨fuel - 2, by simp at hf; omega⟩
    rw [List.append_assoc, List.cons_append, List.append_assoc, List.cons_append] at h
    obtain ⟨i, rest, hs, hr⟩ := skipLines_items hg rfl h
    obtain ⟨j, rest', hs', hr'⟩ := skipLines_items hg' rfl hr
    have hf' : ts.length ≤ fuel + 1 := by
      simp at hf
      omega
    obtain ⟨vs, ls', he, hl, hv⟩ := ih hf' hr'
    refine ⟨⟨i, .string s⟩ :: vs, ls', ?_, hl, .cons rfl hv⟩
    rw [items, hs]
    simp only [value, hs', he, Except.map]

/-- A value is what it was written for. -/
def Assigned.Holds (v : Value) : Assigned → Prop
  | .text s => v = .string s
  | .texts ss => ∃ items, v = .array items ∧ HoldTexts ss items

theorem value_tokens {a : Assigned} {v : List Token} (hv : ValueTokens a v) {fuel : Nat}
    (hf : v.length ≤ fuel) (h : ls.tokens? = some (v ++ us)) :
    ∃ x ls', value fuel ls = .ok (x, ls') ∧ ls'.tokens? = some us ∧ a.Holds x.value := by
  cases hv with
  | @text s m =>
    obtain ⟨fuel, rfl⟩ : ∃ n, fuel = n + 1 := ⟨fuel - 1, by simp at hf; omega⟩
    obtain ⟨i, rest, rfl, hr⟩ := tokens?_cons h
    exact ⟨⟨i, .string s⟩, rest, by rw [value], hr, rfl⟩
  | texts hi =>
    obtain ⟨fuel, rfl⟩ : ∃ n, fuel = n + 1 := ⟨fuel - 1, by simp at hf; omega⟩
    obtain ⟨i, rest, rfl, hr⟩ := tokens?_cons h
    obtain ⟨vs, ls', he, hl, hs⟩ := items_tokens hi (by simpa using hf) hr
    exact ⟨⟨i, .array vs⟩, ls', by rw [value, he]; rfl, hl, vs, rfl, hs⟩

/-! ## Lines -/

theorem key_tokens {k : String} (hk : KeyToken k t) {b : List Token} (hb : Blank b)
    (h : ls.tokens? = some (t :: (b ++ .equals :: ts))) :
    ∃ i rest, key ls = .ok (⟨k, []⟩, .next i .equals rest) ∧ rest.tokens? = some ts := by
  obtain ⟨i, rest, rfl, hr⟩ := tokens?_cons h
  obtain ⟨j, rest', hs, hr'⟩ := skipBlanks_cons hb (by simp) hr
  refine ⟨j, rest', ?_, hr'⟩
  cases hk <;> simp only [key, keyPart, keyParts, hs, Except.map]

theorem entry_tokens {k : String} {a : Assigned} (hk : KeyToken k t) {b₁ b₂ v : List Token}
    (hb₁ : Blank b₁) (hb₂ : Blank b₂) (hv : ValueTokens a v) {fuel : Nat}
    (hf : v.length < fuel) (h : ls.tokens? = some (t :: (b₁ ++ .equals :: (b₂ ++ (v ++ us))))) :
    ∃ x ls', entry fuel ls = .ok (⟨k, []⟩, x, ls') ∧ ls'.tokens? = some us ∧
      a.Holds x.value := by
  obtain ⟨fuel, rfl⟩ : ∃ n, fuel = n + 1 := ⟨fuel - 1, by omega⟩
  obtain ⟨i, rest, hkey, hr⟩ := key_tokens hk hb₁ h
  have hvalue : rest.skipBlanks.tokens? = some (v ++ us) := by
    obtain ⟨t', v', rfl, ht'⟩ : ∃ t' v', v = t' :: v' ∧ ∀ w, t' ≠ .whitespace w := by
      cases hv <;> exact ⟨_, _, rfl, by simp⟩
    obtain ⟨j, rest', hs, hr'⟩ := skipBlanks_cons hb₂ ht' hr
    rw [hs, Lexemes.tokens?, hr']
    rfl
  obtain ⟨x, ls', he, hl, hx⟩ := value_tokens hv (Nat.le_of_lt_succ hf) hvalue
  refine ⟨x, ls', ?_, hl, hx⟩
  rw [entry, hkey]
  simp only [expect, if_true, he, Except.map]

/-- An entry of a table is an assignment. -/
def Matches (e : String × Assigned) (entry : String × Located Value) : Prop :=
  entry.1 = e.1 ∧ e.2.Holds entry.2.value

theorem lines_done (fuel : Nat) (d : Document) (stop : Nat) :
    lines fuel d (.done stop) = .ok d := by
  cases fuel <;> rfl

/-- What a line adds to a document. -/
structure Extends (es : List (String × Assigned)) (d d' : Document) : Prop where
  sections : d'.sections = []
  root : ∃ added, d'.root = d.root ++ added ∧ List.Forall₂ Matches es added

theorem Extends.refl {d : Document} (hd : d.sections = []) : Extends [] d d :=
  ⟨hd, [], (List.append_nil _).symm, .nil⟩

theorem Extends.trans {es es' : List (String × Assigned)} {d d' d'' : Document}
    (h : Extends es d d') (h' : Extends es' d' d'') : Extends (es ++ es') d d'' := by
  obtain ⟨_, added, hr, hm⟩ := h
  obtain ⟨hs, added', hr', hm'⟩ := h'
  exact ⟨hs, added ++ added', by rw [hr', hr, List.append_assoc], List.rel_append hm hm'⟩

theorem Extends.insert {d : Document} (hd : d.sections = []) {k : String} {a : Assigned}
    {x : Located Value} (hx : a.Holds x.value) :
    ∃ d', d.insert ⟨k, []⟩ x = .ok d' ∧ Extends [(k, a)] d d' := by
  refine ⟨{ d with root := d.root ++ [(k, x)] }, ?_, hd, [(k, x)], rfl, .cons ⟨rfl, hx⟩ .nil⟩
  simp only [Document.insert, hd, Table.insert, Except.map]

/-- A line is read, and then the lines after it. -/
theorem lines_line {e : Option (String × Assigned)} (he : Line e ts)
    (hu : ∀ t ∈ us.head?, t = .newline) (h : ls.tokens? = some (ts ++ us)) {d : Document}
    (hd : d.sections = []) (fuel : Nat) :
    ∃ d' ls', lines (fuel + 1) d ls = lines fuel d' ls' ∧ ls'.tokens? = some us.tail ∧
      Extends e.toList d d' := by
  cases he with
  | empty hc =>
    cases hc with
    | blank hb =>
      cases us with
      | nil =>
        rw [List.append_nil] at h
        obtain ⟨stop, hs⟩ := skipBlanks_nil hb h
        exact ⟨d, .done stop, by rw [lines, hs, lines_done], rfl, .refl hd⟩
      | cons t us =>
        obtain rfl := hu t rfl
        obtain ⟨i, rest, hs, hr⟩ := skipBlanks_cons hb (by simp) h
        exact ⟨d, rest, by rw [lines, hs], hr, .refl hd⟩
    | comment hb =>
      rw [List.append_assoc, List.singleton_append] at h
      obtain ⟨i, rest, hs, hr⟩ := skipBlanks_cons hb (by simp) h
      obtain ⟨ls', he, hl⟩ := lineEnd_tokens hu hr
      exact ⟨d, ls', by simp only [lines, hs, he, Except.bind], hl, .refl hd⟩
  | @assignment k a t b b₁ b₂ v c hb hk hb₁ hb₂ hv hc =>
    simp only [List.append_assoc, List.cons_append] at h
    obtain ⟨i, rest, hs, hr⟩ := skipBlanks_cons hb (by cases hk <;> simp) h
    have hline : (Lexemes.next i t rest).tokens? =
        some (t :: (b₁ ++ .equals :: (b₂ ++ (v ++ (c ++ us))))) := by
      rw [Lexemes.tokens?, hr]
      rfl
    have hfuel : v.length < 2 * (Lexemes.next i t rest).length + 2 := by
      simp only [length_tokens? hline, List.length_cons, List.length_append]
      omega
    obtain ⟨x, ls₁, hentry, hl₁, hx⟩ := entry_tokens hk hb₁ hb₂ hv hfuel hline
    obtain ⟨ls₂, hrest, hl₂⟩ := restOfLine_tokens hc hu hl₁
    obtain ⟨d', hinsert, hext⟩ := Extends.insert hd hx
    refine ⟨d', ls₂, ?_, hl₂, hext⟩
    rw [lines, hs]
    cases hk <;> simp only [hentry, bind, Except.bind, hrest, hinsert]

theorem lines_tokens {es : List (String × Assigned)} (hes : Lines es ts) {fuel : Nat}
    (hf : ts.length < fuel) (h : ls.tokens? = some ts) {d : Document} (hd : d.sections = []) :
    ∃ d', lines fuel d ls = .ok d' ∧ Extends es d d' := by
  induction hes generalizing ls fuel d with
  | @last e ts he =>
    obtain ⟨fuel, rfl⟩ : ∃ n, fuel = n + 1 := ⟨fuel - 1, by omega⟩
    have hend : ls.tokens? = some (ts ++ []) := by rw [List.append_nil, h]
    obtain ⟨d', ls', hstep, hl, hext⟩ := lines_line he (by simp) hend hd fuel
    obtain ⟨stop, rfl⟩ := tokens?_nil hl
    exact ⟨d', hstep.trans (lines_done fuel d' stop), hext⟩
  | @next e es ts us he _ ih =>
    obtain ⟨fuel, rfl⟩ : ∃ n, fuel = n + 1 := ⟨fuel - 1, by omega⟩
    obtain ⟨d', ls', hstep, hl, hext⟩ := lines_line he (by simp) h hd fuel
    have hf' : us.length < fuel := by
      simp only [List.length_append, List.length_cons] at hf
      omega
    obtain ⟨d'', hlines, hext'⟩ := ih hf' hl hext.sections
    exact ⟨d'', hstep.trans hlines, hext.trans hext'⟩

/-- **Every document of assignments is read as these assignments.** -/
theorem parse_renders {es : List (String × Assigned)} {text : String} (h : Renders es text) :
    ∃ d, Document.parse text = .ok d ∧ Extends es {} d := by
  obtain ⟨ts, hes, ht⟩ := h
  have htokens := tokens?_ofDocument ht
  refine lines_tokens hes ?_ htokens rfl
  rw [length_tokens? htokens]
  exact Nat.lt_succ_self _

end HeaderDb.Toml
