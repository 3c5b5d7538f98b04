import HeaderDb.Proofs.Run.Listing
import HeaderDb.Proofs.Tree.Order

/-! # Runs on trees that are enumerated in another order

Notes follow the enumeration of the directory, one for each entry, so another
order permutes them and the headers among them. Sorting makes the order of the
headers canonical: the text that a run emits depends on the contents of the tree
alone. A run that does not sort keeps the order it was given. -/

namespace HeaderDb

/-! ## Surveys -/

theorem sortHeaders_perm {headers headers' : List String} (h : headers.Perm headers') :
    sortHeaders headers = sortHeaders headers' := by
  refine List.Perm.eq_of_pairwise ?_ (List.pairwise_mergeSort Utf8.le_trans Utf8.le_total headers)
    (List.pairwise_mergeSort Utf8.le_trans Utf8.le_total headers') ?_
  · intro a b _ _ hab hba
    exact Utf8.encode_injective (List.le_antisymm (of_decide_eq_true hab) (of_decide_eq_true hba))
  · exact (List.mergeSort_perm headers _).trans (h.trans (List.mergeSort_perm headers' _).symm)

/-- Surveys of the same directory in two orders. -/
structure Survey.Alike (unsorted : Bool) (s s' : Survey) : Prop where
  notes : s.notes.Perm s'.notes
  records : s.database.Perm s'.database
  sorted : unsorted = false → s.database = s'.database

theorem Survey.make_alike (unsorted : Bool) (t : Template) (pattern directory : String)
    {notes notes' : List Note} (h : notes.Perm notes') :
    (make unsorted t pattern directory notes).Alike unsorted
      (make unsorted t pattern directory notes') := by
  have hh : (headersOf notes).Perm (headersOf notes') := h.filterMap _
  cases unsorted with
  | true =>
    refine ⟨?_, hh.map _, by simp⟩
    simp only [make, if_true, hh.length_eq]
    exact h.append_right _
  | false =>
    have hs : (make false t pattern directory notes).database =
        (make false t pattern directory notes').database := by
      simp only [make, Bool.false_eq_true, if_false, sortHeaders_perm hh]
    refine ⟨?_, hs ▸ .rfl, fun _ => hs⟩
    simp only [make, Bool.false_eq_true, if_false, sortHeaders_perm hh]
    exact h.append_right _

theorem scan_perm (pattern : String) {entries entries' : Except OsError (List Entry)}
    (h : Agree List.Perm entries entries') :
    Agree List.Perm (scan pattern entries) (scan pattern entries') := by
  unfold scan
  cases Glob.parse pattern with
  | error e => exact .error _
  | ok g =>
    cases h with
    | error e => exact .error _
    | ok hp => exact .ok (hp.filterMap _)

theorem Tree.survey_sameContents {t t' : Tree} (h : t.SameContents t') (hw : t.root.WellFormed)
    (hw' : t'.root.WellFormed) (args : Arguments) :
    Agree (Survey.Alike args.unsorted) (survey args t.surroundings)
      (survey args t'.surroundings) := by
  have hs : args.settings t'.surroundings = args.settings t.surroundings := by
    simp only [Arguments.settings, surroundings, h.load_eq]
  have hc : t'.surroundings.currentDirectory = t.surroundings.currentDirectory :=
    h.currentDirectory_eq
  unfold survey
  rw [hs, hc]
  cases args.settings t.surroundings with
  | error f => exact .error _
  | ok settings =>
    cases workingDirectory t.surroundings.currentDirectory args.directory with
    | error e => exact .error _
    | ok path =>
      cases hd : Utf8.decode? path with
      | none => simp only [hd]; exact .error _
      | some directory =>
        have hl : Agree List.Perm (t.surroundings.list path) (t'.surroundings.list path) :=
          h.list hw hw' path
        have hn := scan_perm (settings.patternOr args.pattern) hl
        simp only [hd]
        generalize scan (settings.patternOr args.pattern) (t.surroundings.list path) = a at hn ⊢
        generalize scan (settings.patternOr args.pattern) (t'.surroundings.list path) = b at hn ⊢
        cases hn with
        | error f => exact .error _
        | ok hp => exact .ok (Survey.make_alike _ _ _ _ hp)

/-! ## Runs -/

theorem Tree.emit_sameContents {t t' : Tree} (h : t.SameContents t') (ha : t.Anchored)
    (output : Option Bytes) (text text' : String) :
    Agree (fun r r' => text = text' → r.1 = r'.1 ∧ r.2.SameContents r'.2)
      (t.emit output text) (t'.emit output text') := by
  cases output with
  | none => exact .ok fun ht => ⟨ht, h⟩
  | some p =>
    have hs := h.store ha p (Utf8.encode text) (Utf8.encode text')
    simp only [emit]
    generalize t.store p (Utf8.encode text) = a at hs ⊢
    generalize t'.store p (Utf8.encode text') = b at hs ⊢
    cases hs with
    | error e => exact .error e
    | ok hu => exact .ok fun ht => ⟨rfl, hu (ht ▸ rfl)⟩

/-- Outcomes of a run on the same tree in two orders. -/
structure Outcome.Alike (unsorted : Bool) (o o' : Outcome) : Prop where
  result : o'.result = o.result
  notes : o.notes.Perm o'.notes
  stdout : unsorted = false → o'.stdout = o.stdout
  tree : unsorted = false → o.tree.SameContents o'.tree

/-- **What a run does depends on the contents of the tree.** -/
theorem Tree.run_sameContents {t t' : Tree} (h : t.SameContents t') (hw : t.WellFormed)
    (hw' : t'.WellFormed) (args : Arguments) :
    (t.run args).Alike args.unsorted (t'.run args) := by
  have hs := survey_sameContents h hw.names hw'.names args
  unfold run
  generalize survey args t.surroundings = a at hs ⊢
  generalize survey args t'.surroundings = b at hs ⊢
  cases hs with
  | error f => exact ⟨rfl, .rfl, fun _ => rfl, fun _ => h⟩
  | @ok s s' hs =>
    have hn : (if args.verbose then s.notes else []).Perm
        (if args.verbose then s'.notes else []) := by
      split
      · exact hs.notes
      · exact .rfl
    have he := emit_sameContents h hw.anchored args.output s.database.render s'.database.render
    dsimp only
    generalize t.emit args.output s.database.render = a at he ⊢
    generalize t'.emit args.output s'.database.render = b at he ⊢
    cases he with
    | error e => exact ⟨rfl, hn, fun _ => rfl, fun _ => h⟩
    | ok hr =>
      have hr (hu : args.unsorted = false) := hr (congrArg Database.render (hs.sorted hu))
      exact ⟨rfl, hn, fun hu => (hr hu).1.symm, fun hu => (hr hu).2⟩

/-! ## Records in the order of the enumeration -/

/-- The records are those of some of the names, in the order of the names. -/
def Database.Follows (db : Database) (names : List Name) : Prop :=
  (db.map fun r => Utf8.encode r.file).Sublist (names.map fun n => Utf8.encode "./" ++ n)

theorem Database.follows_notes (g : Glob) (directory : String) (t : Template)
    (entries : List Entry) :
    (ofHeaders directory t (headersOf (g.notes entries))).Follows (entries.map Entry.name) := by
  rw [headersOf_notes]
  unfold Follows ofHeaders
  induction entries with
  | nil => exact .slnil
  | cons e entries ih =>
    cases hh : g.header? e with
    | none => rw [List.filterMap_cons_none hh]; exact ih.cons _
    | some n =>
      obtain ⟨hn, _, _⟩ := Glob.header?_eq_some_iff.mp hh
      have hfile : Utf8.encode (Record.ofHeader directory t n).file =
          Utf8.encode "./" ++ e.name := by
        rw [hn]
        exact Utf8.encode_append "./" n
      rw [List.filterMap_cons_some hh]
      simp only [List.map_cons, hfile]
      exact ih.cons_cons _

theorem Tree.survey_follows {t : Tree} {args : Arguments} (hu : args.unsorted = true)
    {s : Survey} (hs : survey args t.surroundings = .ok s) :
    ∃ path names, workingDirectory t.currentDirectory args.directory = .ok path ∧
      t.names path = .ok names ∧ s.database.Follows names := by
  obtain ⟨settings, path, directory, g, entries, _, hp, _, _, hl, rfl⟩ := survey_eq_ok_iff.mp hs
  obtain ⟨names, hn, rfl⟩ := list_eq_ok_iff.mp hl
  refine ⟨path, names, hp, hn, ?_⟩
  have hf := Database.follows_notes g directory (settings.template args.compiler)
    (names.map fun n => ⟨n, t.isDirectory (Path.append path n)⟩)
  simpa [Survey.make, hu, Function.comp_def] using hf

/-- Sorting changes the order of the records only. -/
theorem survey_sorted {args : Arguments} {surroundings : Surroundings} {s : Survey}
    (hs : survey args surroundings = .ok s) :
    ∃ s₀, survey { args with unsorted := false } surroundings = .ok s₀ ∧
      s.database.Perm s₀.database := by
  obtain ⟨settings, path, directory, g, entries, hset, hp, hd, hg, hl, rfl⟩ :=
    survey_eq_ok_iff.mp hs
  refine ⟨_, survey_eq_ok_iff.mpr
    ⟨settings, path, directory, g, entries, hset, hp, hd, hg, hl, rfl⟩, ?_⟩
  have hsort := (List.mergeSort_perm (headersOf (g.notes entries)) Utf8.le).symm
  simp only [Survey.make]
  refine List.Perm.map _ ?_
  split
  · exact hsort
  · exact .rfl

/-- A run succeeds and has emitted the given records: it leaves what the text of
these records leaves once it has gone to the output. -/
def Tree.Emits (t : Tree) (args : Arguments) (db : Database) : Prop :=
  (t.run args).result = .ok () ∧
    t.emit args.output db.render = .ok ((t.run args).stdout, (t.run args).tree)

theorem Tree.emits_of_survey {t : Tree} {args : Arguments} {s : Survey} {r : String × Tree}
    (hs : survey args t.surroundings = .ok s)
    (he : t.emit args.output s.database.render = .ok r) : t.Emits args s.database := by
  have hr : t.run args = ⟨.ok (), r.1, if args.verbose then s.notes else [], r.2⟩ :=
    run_of_survey hs he
  rw [Emits, hr]
  exact ⟨rfl, he⟩

/-- Whether a text can be emitted does not depend on the text. -/
theorem Tree.emit_any {t : Tree} (ha : t.Anchored) {output : Option Bytes} {text : String}
    {r : String × Tree} (h : t.emit output text = .ok r) (text' : String) :
    ∃ r', t.emit output text' = .ok r' := by
  have he := emit_sameContents (.refl t) ha output text text'
  rw [h] at he
  generalize t.emit output text' = b at he ⊢
  cases he with
  | ok _ => exact ⟨_, rfl⟩

/-- **The order in which a directory is enumerated does not show.** With the
entries of any directory in another order, a run has the same result and the
same notes up to their order. If it sorts, it prints the same text and leaves
the same contents at every path. If it does not, its records are the sorted ones
in the order of its own enumeration. -/
theorem Tree.run_reordered {t : Tree} (hw : t.WellFormed) {dir : List Name}
    {es es' : List (Name × Node)} (hd : t.root.get? dir = some (.dir es)) (hp : es'.Perm es)
    (args : Arguments) :
    let t' := t.reordered dir es'
    (t'.run args).result = (t.run args).result ∧
    (t.run args).notes.Perm (t'.run args).notes ∧
    (args.unsorted = false →
      (t'.run args).stdout = (t.run args).stdout ∧
      (t.run args).tree.SameContents (t'.run args).tree) ∧
    (args.unsorted = true → (t.run args).result = .ok () →
      ∃ path names names', ∃ db db' sorted : Database,
        workingDirectory t.currentDirectory args.directory = .ok path ∧
        t.names path = .ok names ∧ t'.names path = .ok names' ∧
        t.Emits args db ∧ t'.Emits args db' ∧ t.Emits { args with unsorted := false } sorted ∧
        db.Perm db' ∧ db.Perm sorted ∧ db.Follows names ∧ db'.Follows names') := by
  intro t'
  have h : t.SameContents t' := sameContents_reordered hw hd hp
  have hw' : t'.WellFormed := hw.reordered hd hp
  have ho := run_sameContents h hw hw' args
  refine ⟨ho.result, ho.notes, fun hu => ⟨ho.stdout hu, ho.tree hu⟩, fun hu hok => ?_⟩
  obtain ⟨s, hs, he⟩ := run_ok hok
  obtain ⟨s', hs', he'⟩ := run_ok (ho.result.trans hok)
  obtain ⟨s₀, hs₀, hperm₀⟩ := survey_sorted hs
  obtain ⟨r₀, he₀⟩ := emit_any hw.anchored he s₀.database.render
  have hperm : s.database.Perm s'.database := by
    have ha := survey_sameContents h hw.names hw'.names args
    rw [hs, hs'] at ha
    cases ha with
    | ok hr => exact hr.records
  obtain ⟨path, names, hpath, hn, hf⟩ := survey_follows hu hs
  obtain ⟨path', names', hpath', hn', hf'⟩ := survey_follows hu hs'
  have hpp : path' = path := by
    rw [h.currentDirectory_eq, hpath] at hpath'
    exact (Except.ok.inj hpath').symm
  subst hpp
  exact ⟨path', names, names', s.database, s'.database, s₀.database, hpath, hn, hn',
    emits_of_survey hs he, emits_of_survey hs' he', emits_of_survey hs₀ he₀, hperm, hperm₀, hf, hf'⟩

/-- Two headers and a directory, enumerated the other way round. -/
theorem Tree.run_reordered_mixed :
    let t' := mixed.reordered [] mixed.root.entries.reverse
    (t'.run {}).stdout = (mixed.run {}).stdout ∧
    (t'.run { unsorted := true }).stdout ≠ (mixed.run { unsorted := true }).stdout ∧
    ∃ db db', mixed.Emits { unsorted := true } db ∧ t'.Emits { unsorted := true } db' ∧
      db.Perm db' := by
  intro t'
  have hd : mixed.root.get? [] = some (.dir mixed.root.entries) := rfl
  have hp : mixed.root.entries.reverse.Perm mixed.root.entries := List.reverse_perm _
  obtain ⟨_, _, hsorted, _⟩ := run_reordered mixed_wellFormed hd hp {}
  obtain ⟨_, _, _, hunsorted⟩ := run_reordered mixed_wellFormed hd hp { unsorted := true }
  have hok : (mixed.run { unsorted := true }).result = .ok () :=
    eq_ok_of_isOk (by decide +kernel)
  obtain ⟨_, _, _, db, db', _, _, _, _, he, he', _, hperm, _, _, _⟩ := hunsorted rfl hok
  exact ⟨(hsorted rfl).1, by decide +kernel, db, db', he, he', hperm⟩

end HeaderDb
