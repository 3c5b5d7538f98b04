import Mathlib.Data.List.Nodup
import HeaderDb.Proofs.Toml.Assignments
import HeaderDb.Proofs.Toml.Writing
import HeaderDb.Settings

/-! # Settings and the documents that assign them

Settings are known by the value of each key. An entry is taken over if its key
is known, its value is of the kind of the key, and the key has no value yet; so
a document is accepted exactly if this holds for each of its entries, and then
every key has the value that it was assigned, wherever that was. -/

namespace HeaderDb.Settings

open Toml (Assigned Located Value Matches)

/-- The value of a key. -/
def value? (s : Settings) : Key → Option Assigned
  | .compiler => s.compiler.map .text
  | .flags => s.flags.map .texts
  | .pattern => s.pattern.map .text

/-- Flags are a list of texts, and all else is a text. -/
def Fits : Key → Assigned → Prop
  | .flags, a => ∃ ss, a = .texts ss
  | _, a => ∃ s, a = .text s

variable {s s' : Settings} {elsewhere : Nat} {e : String × Assigned}
  {entry : String × Located Value}

/-- Settings are known by the values of their keys. -/
theorem ext_value (h : ∀ k, s.value? k = s'.value? k) : s = s' := by
  have text {x y : Option String} (e : x.map Assigned.text = y.map Assigned.text) : x = y :=
    Option.map_injective (fun _ _ => Assigned.text.inj) e
  obtain ⟨c, f, p⟩ := s
  obtain rfl : c = _ := text (h .compiler)
  obtain rfl : f = _ := Option.map_injective (fun _ _ => Assigned.texts.inj) (h .flags)
  obtain rfl : p = _ := text (h .pattern)
  rfl

/-! ## One entry -/

theorem newKey_eq_ok_iff {name : String} {k : Key} :
    s.newKey elsewhere name = .ok k ↔ name = k.name ∧ s.value? k = none := by
  have hname : Key.ofName? name = some k ↔ name = k.name := by
    constructor
    · intro h
      have hk := List.find?_some h
      exact (of_decide_eq_true hk).symm
    · intro h
      subst h
      cases k <;> decide
  have hhas (k : Key) : s.has k = (s.value? k).isSome := by
    cases k <;> simp [has, value?]
  rw [← hname, newKey]
  cases hn : Key.ofName? name with
  | none => simp
  | some k' =>
    simp only [hhas, Option.some.injEq]
    cases hv : s.value? k' with
    | none =>
      simp only [Option.isSome_none, Bool.false_eq_true, if_false, Except.ok.injEq]
      exact ⟨fun h => ⟨h, h ▸ hv⟩, And.left⟩
    | some a =>
      simp only [Option.isSome_some, if_true, reduceCtorEq, false_iff, not_and]
      intro h hn
      rw [← h, hv] at hn
      cases hn

theorem text_eq_ok_iff {k : Key} {a : Assigned} {v : Located Value} (h : a.Holds v.value)
    {t : String} : text k elsewhere v = .ok t ↔ a = .text t := by
  cases a with
  | text t' => simp [text, show v.value = .string t' from h]
  | texts ts =>
    obtain ⟨items, hv, _⟩ := h
    simp [text, hv]

theorem texts_eq_ok_iff {k : Key} {a : Assigned} {v : Located Value} (h : a.Holds v.value)
    {ts : List String} : texts k elsewhere v = .ok ts ↔ a = .texts ts := by
  cases a with
  | text t => simp [texts, show v.value = .string t from h]
  | texts ts' =>
    obtain ⟨items, hv, hi⟩ := h
    have hm : items.mapM (text k elsewhere) = .ok ts' := by
      clear hv
      induction hi with
      | nil => rfl
      | cons hs _ ih =>
        rw [List.mapM_cons, ih, text, hs]
        rfl
    simp [texts, hv, hm]

/-- What an entry with a new key changes. -/
theorem assign_of_newKey (hm : Matches e entry) {k : Key}
    (hk : s.newKey elsewhere entry.1 = .ok k) : s.assign elsewhere entry = .ok s' ↔
      Fits k e.2 ∧ ∀ k', s'.value? k' = if k' = k then some e.2 else s.value? k' := by
  have hmap {α : Type} (r : Except Error α) (f : α → Settings) :
      r.map f = .ok s' ↔ ∃ t, r = .ok t ∧ f t = s' := by
    cases r <;> simp [Except.map]
  unfold assign
  rw [hk]
  cases k with
  | compiler | pattern =>
    simp only [hmap, text_eq_ok_iff hm.2]
    constructor
    · intro ⟨t, ha, hs⟩
      subst hs
      exact ⟨⟨t, ha⟩, fun k' => by cases k' <;> simp [value?, ha]⟩
    · intro ⟨⟨t, ha⟩, hs⟩
      exact ⟨t, ha, ext_value fun k' => by rw [hs]; cases k' <;> simp [value?, ha]⟩
  | flags =>
    simp only [hmap, texts_eq_ok_iff hm.2]
    constructor
    · intro ⟨ts, ha, hs⟩
      subst hs
      exact ⟨⟨ts, ha⟩, fun k' => by cases k' <;> simp [value?, ha]⟩
    · intro ⟨⟨ts, ha⟩, hs⟩
      exact ⟨ts, ha, ext_value fun k' => by rw [hs]; cases k' <;> simp [value?, ha]⟩

/-- An entry is taken over exactly if its key is known and new and its value is
of the right kind, and it changes nothing else. -/
theorem assign_eq_ok_iff (hm : Matches e entry) : s.assign elsewhere entry = .ok s' ↔
    ∃ k, e.1 = k.name ∧ s.value? k = none ∧ Fits k e.2 ∧
      ∀ k', s'.value? k' = if k' = k then some e.2 else s.value? k' := by
  constructor
  · intro h
    cases hk : s.newKey elsewhere entry.1 with
    | error err =>
      unfold assign at h
      rw [hk] at h
      cases h
    | ok k =>
      obtain ⟨hname, hnone⟩ := newKey_eq_ok_iff.mp hk
      exact ⟨k, hm.1 ▸ hname, hnone, (assign_of_newKey hm hk).mp h⟩
  · intro ⟨k, hname, hnone, h⟩
    have hk : s.newKey elsewhere entry.1 = .ok k := newKey_eq_ok_iff.mpr ⟨hm.1 ▸ hname, hnone⟩
    exact (assign_of_newKey hm hk).mpr h

/-! ## All entries -/

theorem Key.name_injective {k k' : Key} (h : k.name = k'.name) : k = k' := by
  cases k <;> cases k' <;> first | rfl | exact absurd h (by decide)

/-- Any key can be given a value of its kind. -/
theorem exists_set (s : Settings) {k : Key} {a : Assigned} (h : Fits k a) :
    ∃ s' : Settings, ∀ k', s'.value? k' = if k' = k then some a else s.value? k' := by
  cases k with
  | compiler =>
    obtain ⟨t, rfl⟩ := h
    exact ⟨{ s with compiler := some t }, fun k' => by cases k' <;> rfl⟩
  | flags =>
    obtain ⟨ts, rfl⟩ := h
    exact ⟨{ s with flags := some ts }, fun k' => by cases k' <;> rfl⟩
  | pattern =>
    obtain ⟨t, rfl⟩ := h
    exact ⟨{ s with pattern := some t }, fun k' => by cases k' <;> rfl⟩

theorem value?_set {k : Key} (hname : e.1 = k.name) (hnone : s.value? k = none)
    (hs : ∀ k', s'.value? k' = if k' = k then some e.2 else s.value? k') (k' : Key)
    (a : Assigned) : s'.value? k' = some a ↔ (k'.name, a) = e ∨ s.value? k' = some a := by
  obtain ⟨name, b⟩ := e
  rw [hs, Prod.mk.injEq, show name = k.name from hname]
  by_cases hk : k' = k
  · subst hk
    simp [hnone, eq_comm]
  · simp [hk, mt Key.name_injective hk]

/-- Entries are taken over exactly if their keys are distinct and each of them
is known, new, and given a value of its kind. -/
theorem foldlM_assign_eq_ok_iff {es : List (String × Assigned)}
    {entries : List (String × Located Value)} (hm : List.Forall₂ Matches es entries) :
    entries.foldlM (assign elsewhere) s = .ok s' ↔
      (es.map Prod.fst).Nodup ∧ (∀ e ∈ es, ∃ k, e.1 = k.name ∧ s.value? k = none ∧ Fits k e.2) ∧
        ∀ k a, s'.value? k = some a ↔ (k.name, a) ∈ es ∨ s.value? k = some a := by
  induction hm generalizing s with
  | nil =>
    have hpure : ([] : List (String × Located Value)).foldlM (assign elsewhere) s = .ok s := rfl
    rw [hpure]
    simp only [Except.ok.injEq, List.map_nil, List.nodup_nil, List.not_mem_nil, false_or, true_and,
      false_implies, implies_true]
    constructor
    · intro h k a
      rw [h]
    · intro h
      exact ext_value fun k => Option.ext fun a => (h k a).symm
  | @cons e entry es entries he _ ih =>
    rw [List.map_cons, List.nodup_cons, List.forall_mem_cons, List.foldlM_cons]
    constructor
    · intro h
      cases hs : s.assign elsewhere entry with
      | error err => rw [hs] at h; cases h
      | ok s₁ =>
        rw [hs] at h
        obtain ⟨k, hname, hnone, hfits, hset⟩ := (assign_eq_ok_iff he).mp hs
        obtain ⟨hn, hall, hval⟩ := ih.mp h
        refine ⟨⟨fun hmem => ?_, hn⟩, ⟨⟨k, hname, hnone, hfits⟩, fun e' he' => ?_⟩, fun k' a => ?_⟩
        · -- an entry below with the same key would have found it taken
          obtain ⟨e', he', heq⟩ := List.mem_map.mp hmem
          obtain ⟨k', hname', hnone', _⟩ := hall e' he'
          have hk : k' = k := Key.name_injective (hname'.symm.trans (heq.trans hname))
          rw [hset, if_pos hk] at hnone'
          cases hnone'
        · obtain ⟨k', hname', hnone', hfits'⟩ := hall e' he'
          rw [hset] at hnone'
          split at hnone'
          · cases hnone'
          · exact ⟨k', hname', hnone', hfits'⟩
        · rw [hval, value?_set hname hnone hset, List.mem_cons, or_left_comm, or_assoc]
    · intro ⟨⟨hnew, hn⟩, ⟨⟨k, hname, hnone, hfits⟩, hall⟩, hval⟩
      obtain ⟨s₁, hset⟩ := s.exists_set hfits
      have hs : s.assign elsewhere entry = .ok s₁ :=
        (assign_eq_ok_iff he).mpr ⟨k, hname, hnone, hfits, hset⟩
      rw [hs]
      refine ih.mpr ⟨hn, fun e' he' => ?_, fun k' a => ?_⟩
      · obtain ⟨k', hname', hnone', hfits'⟩ := hall e' he'
        have hk : k' ≠ k := by
          intro hk
          have heq : e'.1 = e.1 := by rw [hname', hk, hname]
          exact hnew (List.mem_map.mpr ⟨e', he', heq⟩)
        exact ⟨k', hname', by rw [hset, if_neg hk, hnone'], hfits'⟩
      · rw [hval, value?_set hname hnone hset, List.mem_cons, or_left_comm, or_assoc]

/-! ## Documents -/

/-- **A document of assignments is accepted exactly if its keys are distinct and
each is known and given a value of its kind.** Then it holds these values. -/
theorem parse_renders {es : List (String × Assigned)} {document : String}
    (h : Toml.Renders es document) : parse document = .ok s ↔
      (es.map Prod.fst).Nodup ∧ (∀ e ∈ es, ∃ k : Key, e.1 = k.name ∧ Fits k e.2) ∧
        ∀ k a, s.value? k = some a ↔ (k.name, a) ∈ es := by
  obtain ⟨d, hd, hsec, added, hroot, hm⟩ := Toml.parse_renders h
  have hempty (k : Key) : ({} : Settings).value? k = none := by cases k <;> rfl
  have hfold : added.foldlM (assign 0) ({} : Settings) = .ok s ↔ _ := foldlM_assign_eq_ok_iff hm
  simp only [hempty, reduceCtorEq, or_false, true_and] at hfold
  rw [← hfold]
  have hadded : d.root = added := hroot
  simp only [parse, hd, ofDocument, hsec, hadded, List.head?_nil, List.getLast?_nil,
    Option.map_none, Option.getD_none]
  cases added.foldlM (assign 0) ({} : Settings) <;> simp

/-- A document that assigns the given settings, each of them once. -/
def WrittenIn (s : Settings) (document : String) : Prop :=
  ∃ es, es.Nodup ∧ (∀ e, e ∈ es ↔ ∃ k a, e = (Key.name k, a) ∧ s.value? k = some a) ∧
    Toml.Renders es document

theorem fits_of_value? {k : Key} {a : Assigned} (h : s.value? k = some a) : Fits k a := by
  cases k <;> exact (Option.map_eq_some_iff.mp h).imp fun _ h => h.2.symm

theorem parse_writtenIn {document : String} (h : s.WrittenIn document) :
    parse document = .ok s := by
  obtain ⟨es, hn, hes, hr⟩ := h
  refine (parse_renders hr).mpr ⟨hn.map_on ?_, fun e he => ?_, fun k a => ?_⟩
  · intro e he e' he' heq
    obtain ⟨k, a, rfl, hk⟩ := (hes e).mp he
    obtain ⟨k', a', rfl, hk'⟩ := (hes e').mp he'
    obtain rfl := Key.name_injective heq
    rw [Option.some.inj (hk.symm.trans hk')]
  · obtain ⟨k, a, rfl, hk⟩ := (hes e).mp he
    exact ⟨k, rfl, fits_of_value? hk⟩
  · rw [hes]
    constructor
    · intro h
      exact ⟨k, a, rfl, h⟩
    · intro ⟨k', a', he, h⟩
      obtain ⟨hname, rfl⟩ := Prod.mk.inj he
      rw [Key.name_injective hname, h]

/-- What has to be assigned for the given settings. -/
def assignments (s : Settings) : List (String × Assigned) :=
  [Key.compiler, .flags, .pattern].filterMap fun k => (s.value? k).map fun a => (k.name, a)

/-- Any settings can be written. -/
theorem writtenIn_document (s : Settings) : s.WrittenIn (Toml.document s.assignments) := by
  refine ⟨s.assignments, ?_, fun e => ?_, Toml.renders_document _⟩
  · refine List.Nodup.filterMap ?_ (by decide)
    intro k k' e he he'
    obtain ⟨a, _, rfl⟩ := Option.map_eq_some_iff.mp he
    obtain ⟨a', _, heq⟩ := Option.map_eq_some_iff.mp he'
    exact Key.name_injective (Prod.mk.inj heq).1.symm
  · have hall (k : Key) : k ∈ [Key.compiler, .flags, .pattern] := by cases k <;> decide
    simp only [assignments, List.mem_filterMap, hall, true_and, Option.map_eq_some_iff,
      eq_comm (b := e), and_comm]

/-! ## Which assignments make settings -/

/-- Distinct keys that are known and given values of their kinds make settings. -/
theorem exists_settings {es : List (String × Assigned)} (hn : (es.map Prod.fst).Nodup)
    (hall : ∀ e ∈ es, ∃ k : Key, e.1 = k.name ∧ Fits k e.2) :
    ∃ s : Settings, ∀ k a, s.value? k = some a ↔ (k.name, a) ∈ es := by
  induction es with
  | nil => exact ⟨{}, fun k a => by cases k <;> simp [value?]⟩
  | cons e es ih =>
    rw [List.map_cons, List.nodup_cons] at hn
    rw [List.forall_mem_cons] at hall
    obtain ⟨⟨k, hname, hfits⟩, hall⟩ := hall
    obtain ⟨s, hs⟩ := ih hn.2 hall
    have hnone : s.value? k = none := by
      refine Option.eq_none_iff_forall_ne_some.mpr fun a ha => hn.1 ?_
      exact List.mem_map.mpr ⟨(k.name, a), (hs k a).mp ha, hname.symm⟩
    obtain ⟨s', hset⟩ := s.exists_set hfits
    refine ⟨s', fun k' a => ?_⟩
    rw [value?_set hname hnone hset, hs, List.mem_cons]

theorem value?_eq_none_iff {es : List (String × Assigned)}
    (h : ∀ k a, s.value? k = some a ↔ (k.name, a) ∈ es) (k : Key) :
    s.value? k = none ↔ k.name ∉ es.map Prod.fst := by
  simp [Option.eq_none_iff_forall_ne_some, h]

/-- **What is assigned is what is set.** Assignments can be written as a document, a
line for each, whatever their texts hold. Such a document is accepted if and only
if its keys are distinct, known, and given values of their kinds. Then every key has
the value that it is assigned, keys that are not assigned have none, and the same
assignments in another order give the same settings. -/
theorem parse_assignments (es : List (String × Assigned)) :
    Toml.Renders es (Toml.document es) ∧
    ∀ document, Toml.Renders es document →
      ((∃ s, parse document = .ok s) ↔
        (es.map Prod.fst).Nodup ∧ ∀ e ∈ es, ∃ k : Key, e.1 = k.name ∧ Fits k e.2) ∧
      ∀ s, parse document = .ok s →
        (∀ k a, s.value? k = some a ↔ (k.name, a) ∈ es) ∧
        (∀ k, s.value? k = none ↔ k.name ∉ es.map Prod.fst) ∧
        ∀ es' document', es'.Perm es → Toml.Renders es' document' → parse document' = .ok s := by
  refine ⟨Toml.renders_document es, fun document hr => ⟨⟨?_, ?_⟩, fun s hs => ?_⟩⟩
  · intro ⟨s, hs⟩
    obtain ⟨hn, hall, _⟩ := (parse_renders hr).mp hs
    exact ⟨hn, hall⟩
  · intro ⟨hn, hall⟩
    obtain ⟨s, hs⟩ := exists_settings hn hall
    exact ⟨s, (parse_renders hr).mpr ⟨hn, hall, hs⟩⟩
  · obtain ⟨hn, hall, hval⟩ := (parse_renders hr).mp hs
    refine ⟨hval, value?_eq_none_iff hval, fun es' document' hperm hr' => ?_⟩
    refine (parse_renders hr').mpr ⟨(hperm.map _).nodup_iff.mpr hn, fun e he => ?_, fun k a => ?_⟩
    · exact hall e (hperm.mem_iff.mp he)
    · rw [hval, hperm.mem_iff]

/-- Texts that hold what a document is made of. -/
def awkward : List (String × Assigned) :=
  [("pattern", .text "] = \"\n#\\"), ("flags", .texts ["", "compiler = \x7f"])]

/-- They are set in either order of the lines, but not if a key is misspelled. -/
theorem parse_assignments_awkward :
    (parse (Toml.document awkward) =
        .ok { flags := some ["", "compiler = \x7f"], pattern := some "] = \"\n#\\" } ∧
      parse (Toml.document awkward.reverse) = parse (Toml.document awkward)) ∧
    ¬ ∃ s, parse (Toml.document (("compilr", .text "cc") :: awkward)) = .ok s := by
  constructor
  · obtain ⟨hr, h⟩ := parse_assignments awkward
    have hfits : ∀ e ∈ awkward, ∃ k : Key, e.1 = k.name ∧ Fits k e.2 := by
      simp only [awkward, List.forall_mem_cons]
      exact ⟨⟨.pattern, rfl, _, rfl⟩, ⟨.flags, rfl, _, rfl⟩, nofun⟩
    obtain ⟨s, hs⟩ := (h _ hr).1.mpr ⟨by decide, hfits⟩
    obtain ⟨hval, _, horder⟩ := (h _ hr).2 s hs
    have hsettings : s =
        { flags := some ["", "compiler = \x7f"], pattern := some "] = \"\n#\\" } := by
      refine ext_value fun k => Option.ext fun a => ?_
      rw [hval]
      cases k <;> simp [awkward, Key.name, value?, eq_comm]
    have hreverse := horder _ _ awkward.reverse_perm (Toml.renders_document _)
    exact ⟨hsettings ▸ hs, hreverse.trans hs.symm⟩
  · intro hparse
    obtain ⟨hr, h⟩ := parse_assignments (("compilr", .text "cc") :: awkward)
    obtain ⟨k, hname, _⟩ := ((h _ hr).1.mp hparse).2 _ List.mem_cons_self
    cases k <;> simp [Key.name] at hname

end HeaderDb.Settings
