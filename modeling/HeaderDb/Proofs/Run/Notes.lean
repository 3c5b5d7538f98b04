import HeaderDb.Proofs.Run.Order

/-! # What a run reports

A scan says at most one thing about each entry, so its notes fall into three
kinds: names that are no text, directories, and headers. Each kind is described
by the entries it is about, and together with the summary the kinds make up all
that a run reports. Whether this is asked for changes nothing else. -/

namespace HeaderDb

/-! ## Notes on entries -/

/-- The name of the entry that a note is about. -/
def Note.subject? : Note → Option Name
  | .notUtf8 name => some name
  | .directory name => some (Utf8.encode name)
  | .matched name => some (Utf8.encode name)
  | .summary _ _ _ => none

theorem Glob.subject?_of_note? {g : Glob} {e : Entry} {note : Note} (h : g.note? e = some note) :
    note.subject? = some e.name := by
  unfold Glob.note? at h
  split at h
  · cases h; rfl
  · next name hd =>
    have hn : Utf8.encode name = e.name := Utf8.decode?_eq_some_iff.mp hd
    split at h
    · cases h
    · split at h
      · cases h; exact congrArg some hn
      · cases h; exact congrArg some hn

theorem Glob.note?_eq_notUtf8_iff {g : Glob} {e : Entry} {n : Name} :
    g.note? e = some (.notUtf8 n) ↔ e.name = n ∧ Utf8.decode? n = none := by
  unfold Glob.note?
  cases hd : Utf8.decode? e.name with
  | none =>
    simp only [Option.some.injEq, Note.notUtf8.injEq]
    exact ⟨fun h => ⟨h, h ▸ hd⟩, And.left⟩
  | some name =>
    have hn : ¬ (e.name = n ∧ Utf8.decode? n = none) := by
      rintro ⟨rfl, hn⟩
      rw [hd] at hn
      cases hn
    refine iff_of_false ?_ hn
    dsimp only
    split
    · simp
    · split <;> simp

theorem Glob.note?_eq_directory_iff {g : Glob} {e : Entry} {n : String} :
    g.note? e = some (.directory n) ↔
      e.name = Utf8.encode n ∧ g.matches n = true ∧ e.isDirectory = true := by
  rw [eq_comm (a := e.name), ← Utf8.decode?_eq_some_iff]
  unfold Glob.note?
  cases hd : Utf8.decode? e.name with
  | none => simp
  | some name =>
    cases hm : g.matches name <;> cases hi : e.isDirectory <;>
      simp [hm] <;> rintro rfl <;> simp [hm]

theorem Glob.mem_notes {g : Glob} {entries : List Entry} {note : Note} :
    note ∈ g.notes entries ↔ ∃ e ∈ entries, g.note? e = some note :=
  List.mem_filterMap

theorem Glob.nodup_notes (g : Glob) {entries : List Entry}
    (h : (entries.map Entry.name).Nodup) : (g.notes entries).Nodup := by
  refine List.Pairwise.filterMap _ ?_ (List.pairwise_map.mp h)
  rintro e e' hne note hn note' hn' rfl
  have hs := (Glob.subject?_of_note? hn).symm.trans (Glob.subject?_of_note? hn')
  exact hne (Option.some.inj hs)

/-- Notes on entries, one kind after another. -/
theorem notes_by_kind {notes : List Note} (h : ∀ note ∈ notes, note.subject? ≠ none) :
    ∃ (skipped : List Name) (directories : List String), notes.Perm (skipped.map .notUtf8 ++
      (directories.map .directory ++ (headersOf notes).map .matched)) := by
  unfold headersOf
  induction notes with
  | nil => exact ⟨[], [], .nil⟩
  | cons note notes ih =>
    obtain ⟨hnote, hnotes⟩ := List.forall_mem_cons.mp h
    obtain ⟨skipped, directories, hp⟩ := ih hnotes
    cases note with
    | notUtf8 name => exact ⟨name :: skipped, directories, hp.cons _⟩
    | directory name =>
      exact ⟨skipped, name :: directories, (hp.cons _).trans List.perm_middle.symm⟩
    | matched name =>
      refine ⟨skipped, directories, (hp.cons _).trans (List.perm_middle.symm.trans ?_)⟩
      exact List.perm_middle.symm.append_left _
    | summary c p d => exact absurd rfl hnote

/-- The notes of a scan by their kinds, with the entries that each kind is about. -/
theorem Glob.notes_by_kind (g : Glob) {entries : List Entry}
    (h : (entries.map Entry.name).Nodup) :
    ∃ (skipped : List Name) (directories : List String),
      (g.notes entries).Perm (skipped.map .notUtf8 ++
        (directories.map .directory ++ (headersOf (g.notes entries)).map .matched)) ∧
      skipped.Nodup ∧ directories.Nodup ∧
      (∀ n, n ∈ skipped ↔ (∃ e ∈ entries, e.name = n) ∧ Utf8.decode? n = none) ∧
      ∀ n, n ∈ directories ↔
        ∃ e ∈ entries, e.name = Utf8.encode n ∧ g.matches n = true ∧ e.isDirectory = true := by
  have hsubject : ∀ note ∈ g.notes entries, note.subject? ≠ none := by
    intro note hm
    obtain ⟨e, _, hn⟩ := mem_notes.mp hm
    simp [subject?_of_note? hn]
  obtain ⟨skipped, directories, hp⟩ := HeaderDb.notes_by_kind hsubject
  -- the kinds hold the same notes as the scan, so each of them holds its own once
  have hnodup := hp.nodup_iff.mp (g.nodup_notes h)
  obtain ⟨hs, hrest, _⟩ := List.nodup_append.mp hnodup
  obtain ⟨hd, _, _⟩ := List.nodup_append.mp hrest
  refine ⟨skipped, directories, hp,
    List.Pairwise.of_map _ (fun a b hne he => hne (congrArg _ he)) hs,
    List.Pairwise.of_map _ (fun a b hne he => hne (congrArg _ he)) hd, ?_, ?_⟩
  · intro n
    have hm : n ∈ skipped ↔ .notUtf8 n ∈ g.notes entries := by
      rw [hp.mem_iff]
      simp
    rw [hm, mem_notes]
    simp only [note?_eq_notUtf8_iff]
    exact ⟨fun ⟨e, he, hn, hu⟩ => ⟨⟨e, he, hn⟩, hu⟩, fun ⟨⟨e, he, hn⟩, hu⟩ => ⟨e, he, hn, hu⟩⟩
  · intro n
    have hm : n ∈ directories ↔ .directory n ∈ g.notes entries := by
      rw [hp.mem_iff]
      simp
    rw [hm, mem_notes]
    simp only [note?_eq_directory_iff]

/-! ## How far a run gets -/

/-- A run gets as far as the entries of the directory at `dir`. -/
structure Tree.Scans (t : Tree) (args : Arguments) (settings : Settings) (path : Bytes)
    (directory : String) (g : Glob) (dir : List Name) : Prop where
  configured : args.settings t.surroundings = .ok settings
  located : workingDirectory t.currentDirectory args.directory = .ok path
  named : path = Utf8.encode directory
  parsed : Glob.parse (settings.patternOr args.pattern) = .ok g
  opened : t.resolve .follow path = .ok (.directory ⟨dir, 0⟩)

section
variable {t : Tree} {args : Arguments} {settings : Settings} {path : Bytes} {directory : String}
  {g : Glob} {dir : List Name}

theorem Tree.list_of_resolve {es : List (Name × Node)}
    (hr : t.resolve .follow path = .ok (.directory ⟨dir, 0⟩))
    (hes : t.root.get? dir = some (.dir es)) :
    t.list path = .ok (es.map fun e => ⟨e.1, t.isDirectory (Path.append path e.1)⟩) := by
  refine list_eq_ok_iff.mpr ⟨_, names_eq_ok_iff.mpr ⟨_, hr, rfl⟩, ?_⟩
  simp [namesIn, Node.namesAt, hes, Node.entries]

theorem Tree.isDirectory_append_true {place : Place} {n : Name}
    (hr : t.resolve .follow path = .ok (.directory place)) (hn : n.IsLegal) :
    t.isDirectory (Path.append path n) = true ↔
      (∃ links, LeadsToDirectory t.root links place n) ∧ ¬ t.Overlooked path place n := by
  rw [← Bool.not_eq_false, isDirectory_append_false hr hn, Classical.not_imp]

/-- The entries that are listed, by what is in the tree. -/
theorem Tree.exists_entry_iff {es : List (Name × Node)} (hes : t.root.get? dir = some (.dir es))
    (path : Bytes) (k : Name) (P : Bool → Prop) :
    (∃ e ∈ es.map fun e => (⟨e.1, t.isDirectory (Path.append path e.1)⟩ : Entry),
      e.name = k ∧ P e.isDirectory) ↔
    (∃ node, t.root.get? (dir ++ [k]) = some node) ∧ P (t.isDirectory (Path.append path k)) := by
  rw [Node.exists_get?_iff hes]
  constructor
  · rintro ⟨_, hm, rfl, hP⟩
    obtain ⟨e, he, rfl⟩ := List.mem_map.mp hm
    exact ⟨⟨e, he, rfl⟩, hP⟩
  · rintro ⟨⟨e, he, rfl⟩, hP⟩
    exact ⟨_, List.mem_map.mpr ⟨e, he, rfl⟩, rfl, hP⟩

/-- The notes on the entries of a directory, by what is in the tree. -/
theorem Tree.notes_by_kind (hw : t.WellFormed) {es : List (Name × Node)}
    (hr : t.resolve .follow path = .ok (.directory ⟨dir, 0⟩))
    (hes : t.root.get? dir = some (.dir es)) (g : Glob) {notes : List Note}
    (hnotes : notes = g.notes (es.map fun e => ⟨e.1, t.isDirectory (Path.append path e.1)⟩)) :
    ∃ (skipped : List Name) (directories : List String),
      notes.Perm (skipped.map .notUtf8 ++
        (directories.map .directory ++ (headersOf notes).map .matched)) ∧
      skipped.Nodup ∧ directories.Nodup ∧ (headersOf notes).Nodup ∧
      (∀ n, n ∈ skipped ↔
        (∃ node, t.root.get? (dir ++ [n]) = some node) ∧ Utf8.decode? n = none) ∧
      (∀ n, n ∈ directories ↔
        (∃ node, t.root.get? (dir ++ [Utf8.encode n]) = some node) ∧ g.matches n = true ∧
        (∃ links, LeadsToDirectory t.root links ⟨dir, 0⟩ (Utf8.encode n)) ∧
        ¬ t.Overlooked path ⟨dir, 0⟩ (Utf8.encode n)) ∧
      ∀ n, n ∈ headersOf notes ↔
        (∃ node, t.root.get? (dir ++ [Utf8.encode n]) = some node) ∧ g.matches n = true ∧
        ((∃ links, LeadsToDirectory t.root links ⟨dir, 0⟩ (Utf8.encode n)) →
          t.Overlooked path ⟨dir, 0⟩ (Utf8.encode n)) := by
  subst hnotes
  have hnames := nodup_entries hw hes path
  obtain ⟨skipped, directories, hp, hs, hd, hskip, hdir⟩ := g.notes_by_kind hnames
  refine ⟨skipped, directories, hp, hs, hd, nodup_headersOf g hnames, ?_, ?_, ?_⟩
  · intro n
    rw [hskip]
    simpa using and_congr_left' (exists_entry_iff hes path n fun _ => True)
  · intro n
    rw [hdir, exists_entry_iff hes path _ fun b => g.matches n = true ∧ b = true]
    refine and_congr_right fun ⟨node, hn⟩ => and_congr_right fun _ => ?_
    exact isDirectory_append_true hr (hw.names.legal_name hn)
  · exact mem_headersOf_list hw hr hes g

theorem Tree.Scans.survey {es : List (Name × Node)} (h : t.Scans args settings path directory g dir)
    (hes : t.root.get? dir = some (.dir es)) :
    HeaderDb.survey args t.surroundings = .ok (.make args.unsorted (settings.template args.compiler)
      (settings.patternOr args.pattern) directory
      (g.notes (es.map fun e => ⟨e.1, t.isDirectory (Path.append path e.1)⟩))) :=
  survey_eq_ok_iff.mpr ⟨settings, path, directory, g, _, h.configured, h.located,
    Utf8.decode?_eq_some_iff.mpr h.named.symm, h.parsed, list_of_resolve h.opened hes, rfl⟩

theorem Tree.scans_of_survey {s : Survey} (ha : t.Anchored)
    (h : HeaderDb.survey args t.surroundings = .ok s) :
    ∃ settings path directory g dir, t.Scans args settings path directory g dir := by
  obtain ⟨settings, path, directory, g, entries, hs, hp, hd, hg, hl, _⟩ := survey_eq_ok_iff.mp h
  obtain ⟨dir, _, hr, _, _⟩ := list_entries ha (live_of_workingDirectory hp) hl
  exact ⟨settings, path, directory, g, dir, hs, hp, (Utf8.decode?_eq_some_iff.mp hd).symm, hg, hr⟩

end

/-! ## With and without notes -/

theorem survey_verbose (args : Arguments) (s : Surroundings) (verbose : Bool) :
    survey { args with verbose } s = survey args s := rfl

/-- Whether notes are printed shows in the notes alone. -/
theorem Tree.run_verbose (t : Tree) (args : Arguments) (verbose : Bool) :
    t.run { args with verbose } =
      { t.run args with
        notes := if verbose then ((survey args t.surroundings).map Survey.notes).toOption.getD []
          else [] } := by
  unfold run
  rw [survey_verbose]
  cases survey args t.surroundings with
  | error f => simp [Except.map, Except.toOption]
  | ok s =>
    dsimp only
    cases t.emit args.output s.database.render <;> simp [Except.map, Except.toOption]

/-- The records are those of the headers among the notes, in an order of their
own, and the last note gives their number. -/
theorem Survey.make_headers (unsorted : Bool) (template : Template) (pattern directory : String)
    (notes : List Note) : ∃ headers, headers.Perm (headersOf notes) ∧
      make unsorted template pattern directory notes =
        ⟨notes ++ [.summary headers.length pattern directory],
          Database.ofHeaders directory template headers⟩ := by
  refine ⟨_, ?_, rfl⟩
  split
  · exact .rfl
  · exact List.mergeSort_perm _ _

/-- **Notes report, and they report exactly what was found.** With notes or
without, a run has the same result, prints the same and leaves the same tree.
There are no notes where none were asked for, and none if a step before the scan
fails. Else there is one for each name that is no text, one for each directory
that matches and is not overlooked, one for each header, and the last one gives
the number of records, the pattern and the directory. -/
theorem Tree.run_reports {t : Tree} (hw : t.WellFormed) (args : Arguments) :
    let loud := t.run { args with verbose := true }
    let quiet := t.run { args with verbose := false }
    loud.result = quiet.result ∧ loud.stdout = quiet.stdout ∧ loud.tree = quiet.tree ∧
    quiet.notes = [] ∧
    ((∀ settings path directory g dir, ¬ t.Scans args settings path directory g dir) →
      loud.notes = []) ∧
    ∀ settings path directory g dir, t.Scans args settings path directory g dir →
      ∃ (messages : List String) (skipped : List Name) (directories headers : List String),
        loud.notes.map Note.message = messages ++ [toString headers.length ++
          " header(s) matching " ++ settings.patternOr args.pattern ++ " in " ++ directory] ∧
        messages.Perm (skipped.map (Text.quotedName · ++ ": skipping non-utf8 name") ++
          (directories.map (· ++ ": skipping directory") ++ headers.map (· ++ ": matched"))) ∧
        skipped.Nodup ∧ directories.Nodup ∧ headers.Nodup ∧
        (∀ n, n ∈ skipped ↔
          (∃ node, t.root.get? (dir ++ [n]) = some node) ∧ Utf8.decode? n = none) ∧
        (∀ n, n ∈ directories ↔
          (∃ node, t.root.get? (dir ++ [Utf8.encode n]) = some node) ∧ g.matches n = true ∧
          (∃ links, LeadsToDirectory t.root links ⟨dir, 0⟩ (Utf8.encode n)) ∧
          ¬ t.Overlooked path ⟨dir, 0⟩ (Utf8.encode n)) ∧
        (∀ n, n ∈ headers ↔
          (∃ node, t.root.get? (dir ++ [Utf8.encode n]) = some node) ∧ g.matches n = true ∧
          ((∃ links, LeadsToDirectory t.root links ⟨dir, 0⟩ (Utf8.encode n)) →
            t.Overlooked path ⟨dir, 0⟩ (Utf8.encode n))) ∧
        (loud.result = .ok () → t.Emits { args with verbose := true }
          (Database.ofHeaders directory (settings.template args.compiler) headers)) := by
  intro loud quiet
  have hloud : loud = _ := t.run_verbose args true
  have hquiet : quiet = _ := t.run_verbose args false
  refine ⟨by rw [hloud, hquiet], by rw [hloud, hquiet], by rw [hloud, hquiet], by rw [hquiet]; rfl,
    ?_, ?_⟩
  · intro hno
    cases hs : survey args t.surroundings with
    | error f => rw [hloud, hs]; rfl
    | ok s =>
      obtain ⟨_, _, _, _, _, hscan⟩ := scans_of_survey hw.anchored hs
      exact absurd hscan (hno _ _ _ _ _)
  · intro settings path directory g dir h
    obtain ⟨es, hes⟩ := Node.isDirAt_iff.mp (resolve_holds hw.anchored h.opened)
    have hs := h.survey hes
    generalize hnotes : g.notes _ = notes at hs
    obtain ⟨skipped, directories, hp, hsn, hdn, hhn, hskip, hdir, hmem⟩ :=
      notes_by_kind hw h.opened hes g hnotes.symm
    obtain ⟨headers, hh, hmake⟩ := Survey.make_headers args.unsorted
      (settings.template args.compiler) (settings.patternOr args.pattern) directory notes
    rw [hmake] at hs
    refine ⟨notes.map Note.message, skipped, directories, headers, ?_, ?_, hsn, hdn,
      hh.nodup_iff.mpr hhn, hskip, hdir, fun n => hh.mem_iff.trans (hmem n), ?_⟩
    · rw [hloud, hs]
      exact List.map_append
    · have hk := hp.trans (((hh.symm.map Note.matched).append_left _).append_left _)
      have hm := hk.map Note.message
      simp only [List.map_append, List.map_map] at hm
      exact hm
    · intro hok
      obtain ⟨s, hs', he⟩ := run_ok hok
      rw [survey_verbose, hs] at hs'
      cases hs'
      exact ⟨hok, he⟩

/-- Two headers and a directory, each with its note. -/
theorem Tree.run_reports_mixed :
    (mixed.run { verbose := true }).stdout = (mixed.run {}).stdout ∧ (mixed.run {}).notes = [] ∧
    ∃ (messages : List String) (skipped : List Name) (directories headers : List String),
      (mixed.run { verbose := true }).notes.map Note.message =
        messages ++ [toString headers.length ++ " header(s) matching " ++ "*.hh" ++ " in " ++ "/"] ∧
      messages.Perm (skipped.map (Text.quotedName · ++ ": skipping non-utf8 name") ++
        (directories.map (· ++ ": skipping directory") ++ headers.map (· ++ ": matched"))) ∧
      "d.hh" ∈ directories ∧ "b.hh" ∈ headers ∧
      mixed.Emits { verbose := true } (Database.ofHeaders "/" {} headers) := by
  obtain ⟨_, hout, _, hquiet, _, hreport⟩ := run_reports mixed_wellFormed {}
  have hscan : mixed.Scans {} {} [Path.slash] "/"
      ⟨[.anySequence, .literal '.', .literal 'h', .literal 'h']⟩ [] :=
    ⟨rfl, rfl, rfl, rfl, rfl⟩
  obtain ⟨messages, skipped, directories, headers, hm, hp, _, _, _, _, hdir, hhead, hemit⟩ :=
    hreport _ _ _ _ _ hscan
  have hok : (mixed.run { verbose := true }).result = .ok () := eq_ok_of_isOk (by decide +kernel)
  have hlead : LeadsToDirectory mixed.root 0 ⟨[], 0⟩ (Utf8.encode "d.hh") :=
    ⟨_, .enter ⟨by simp, rfl, by decide⟩ rfl .stop⟩
  refine ⟨hout, hquiet, messages, skipped, directories, headers, hm, hp, ?_, ?_, hemit hok⟩
  · refine (hdir "d.hh").mpr ⟨⟨_, rfl⟩, by decide, ⟨0, hlead⟩, ?_⟩
    intro hover
    rcases hover with hlong | hlinks
    · revert hlong
      decide
    · exact absurd (hlinks 0 0 .stop hlead) (by decide)
  · refine (hhead "b.hh").mpr ⟨⟨_, rfl⟩, by decide, ?_⟩
    intro ⟨links, dest, hlead⟩
    cases hlead with
    | enter _ hg _ => cases hg
    | follow _ hg _ _ => cases hg

/-- Along the longest path, the directory of the decoy is reported as a match. -/
theorem Tree.run_reports_directory :
    decoy.WellFormed ∧ decoy.resolve .follow longestRoot = .ok (.directory .root) ∧
      decoy.root.get? [Utf8.encode "d.hh"] = some (.dir []) ∧
      (decoy.run { directory := some longestRoot, verbose := true }).notes =
        [.matched "d.hh",
          .summary 1 "*.hh" (String.ofList (List.replicate maxPathLength '/'))] := by
  have hr : decoy.resolve .follow longestRoot = .ok (.directory .root) :=
    decoy.resolve_slashes (by decide) (Nat.le_refl _)
  have habs : Path.isAbsolute longestRoot = true := by
    simp [longestRoot, Path.isAbsolute, maxPathLength]
  have hs := survey_decoy habs hr List.length_replicate
    (Utf8.decode?_replicate Path.utf8EncodeChar_slash _)
  refine ⟨decoy_wellFormed, hr, rfl, ?_⟩
  rw [run_verbose decoy { directory := some longestRoot } true, hs]
  rfl

end HeaderDb
