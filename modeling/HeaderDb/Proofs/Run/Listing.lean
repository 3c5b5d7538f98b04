import HeaderDb.Proofs.Database.RoundTrip
import HeaderDb.Proofs.Run.Effects
import HeaderDb.Proofs.Tree.Join

/-! # The headers of a run

From the entries of a directory to the records that can be read back from what a
run has emitted: nothing is lost, nothing comes twice, and the order is that of
the bytes of the names. The one thing a run can be mistaken about is whether an
entry is a directory, since it asks by the joined path, and the system does not
follow a path that is too long or has too many links in it. -/

namespace HeaderDb

/-! ## From entries to headers -/

/-- The header that an entry is, if it is one. -/
def Glob.header? (g : Glob) (e : Entry) : Option String := (g.note? e).bind Note.header?

theorem headersOf_notes (g : Glob) (entries : List Entry) :
    headersOf (g.notes entries) = entries.filterMap g.header? := by
  unfold headersOf Glob.notes
  rw [List.filterMap_filterMap]
  rfl

theorem Glob.header?_eq_some_iff {g : Glob} {e : Entry} {n : String} :
    g.header? e = some n ↔
      e.name = Utf8.encode n ∧ g.matches n = true ∧ e.isDirectory = false := by
  unfold Glob.header? Glob.note?
  cases hd : Utf8.decode? e.name with
  | none =>
    have hn : e.name ≠ Utf8.encode n := by
      intro he
      rw [he, Utf8.decode?_encode] at hd
      cases hd
    simp [Note.header?, hn]
  | some name =>
    have hn : e.name = Utf8.encode n ↔ name = n := by
      rw [← Utf8.decode?_eq_some_iff.mp hd]
      exact ⟨fun h => Utf8.encode_injective h, congrArg Utf8.encode⟩
    rw [hn]
    cases hm : g.matches name <;> cases hi : e.isDirectory <;>
      simp [Note.header?, hm] <;> rintro rfl <;> simp [hm]

theorem nodup_headersOf (g : Glob) {entries : List Entry}
    (h : (entries.map Entry.name).Nodup) : (headersOf (g.notes entries)).Nodup := by
  rw [headersOf_notes]
  refine List.Pairwise.filterMap _ ?_ (List.pairwise_map.mp h)
  rintro e e' hne n hn n' hn' rfl
  exact hne ((Glob.header?_eq_some_iff.mp hn).1.trans (Glob.header?_eq_some_iff.mp hn').1.symm)

/-! ## Sorting -/

theorem sortHeaders_strict {headers : List String} (h : headers.Nodup) :
    (sortHeaders headers).Pairwise fun a b => Utf8.encode a < Utf8.encode b := by
  have hp := List.pairwise_mergeSort Utf8.le_trans Utf8.le_total headers
  have hn : (sortHeaders headers).Nodup := (List.mergeSort_perm headers Utf8.le).nodup_iff.mpr h
  refine (hp.and hn).imp ?_
  rintro a b ⟨hle, hne⟩
  rcases List.le_iff_lt_or_eq.mp (of_decide_eq_true hle) with hlt | heq
  · exact hlt
  · exact absurd (Utf8.encode_injective heq) hne

theorem mem_sortHeaders {headers : List String} {n : String} :
    n ∈ sortHeaders headers ↔ n ∈ headers :=
  (List.mergeSort_perm headers Utf8.le).mem_iff

/-! ## The entries of the directory -/

theorem Tree.live_of_workingDirectory {t : Tree} {directory : Option Bytes} {path : Bytes}
    (h : workingDirectory t.currentDirectory directory = .ok path) : t.current.removed = 0 := by
  unfold Tree.currentDirectory at h
  split at h
  · cases h
  · next hn => simpa using hn

/-- What is listed are the entries of the directory that the path leads to. -/
theorem Tree.list_entries {t : Tree} (ha : t.Anchored) (hl : t.current.removed = 0) {path : Bytes}
    {entries : List Entry} (h : t.list path = .ok entries) :
    ∃ dir es, t.resolve .follow path = .ok (.directory ⟨dir, 0⟩) ∧
      t.root.get? dir = some (.dir es) ∧
      entries = es.map fun e => ⟨e.1, t.isDirectory (Path.append path e.1)⟩ := by
  obtain ⟨ns, hns, he⟩ := Tree.list_eq_ok_iff.mp h
  obtain ⟨⟨dir, removed⟩, hr, hn⟩ := Tree.names_eq_ok_iff.mp hns
  obtain ⟨es, hes⟩ := Node.isDirAt_iff.mp (Tree.resolve_holds ha hr)
  obtain ⟨_, _, _, hreach⟩ := Tree.resolve_eq_ok_iff.mp hr
  obtain rfl : removed = 0 := hreach.live (Place.removed_start hl path)
  refine ⟨dir, es, hr, hes, ?_⟩
  rw [he, ← hn, Tree.namesIn, if_neg (by simp), Node.namesAt, hes]
  simp [Node.entries]

theorem Tree.nodup_entries {t : Tree} (hw : t.WellFormed) {p : List Name}
    {es : List (Name × Node)} (hes : t.root.get? p = some (.dir es)) (path : Bytes) :
    ((es.map fun e => (⟨e.1, t.isDirectory (Path.append path e.1)⟩ : Entry)).map
      Entry.name).Nodup := by
  rw [List.map_map]
  exact (hw.names p es hes).1

theorem Tree.nodup_list {t : Tree} (hw : t.WellFormed) (hl : t.current.removed = 0) {path : Bytes}
    {entries : List Entry} (h : t.list path = .ok entries) : (entries.map Entry.name).Nodup := by
  obtain ⟨dir, es, _, hes, rfl⟩ := Tree.list_entries hw.anchored hl h
  exact Tree.nodup_entries hw hes path

/-- An entry whose kind cannot be seen by its joined path: the path is too long,
or the links on the way to the directory leave too few for the entry. -/
def Tree.Overlooked (t : Tree) (path : Bytes) (place : Place) (n : Name) : Prop :=
  maxPathLength < (Path.append path n).length ∨
  ∀ i j, Reaches t.root .follow i (t.current.start path) (components path) (.directory place) →
    LeadsToDirectory t.root j place n → maxLinks < i + j

theorem Tree.isDirectory_append_false {t : Tree} {path : Bytes} {place : Place} {n : Name}
    (hr : t.resolve .follow path = .ok (.directory place)) (hn : n.IsLegal) :
    t.isDirectory (Path.append path n) = false ↔
      (∃ links, LeadsToDirectory t.root links place n) → t.Overlooked path place n := by
  rw [← Bool.not_eq_true, Tree.isDirectory_append hr hn]
  constructor
  · intro h _
    by_cases hlen : (Path.append path n).length ≤ maxPathLength
    · refine .inr fun i j hi hj => ?_
      by_cases hij : i + j ≤ maxLinks
      · exact absurd ⟨hlen, i, j, hij, hi, hj⟩ h
      · omega
    · exact .inl (by omega)
  · intro h ⟨hlen, i, j, hij, hi, hj⟩
    rcases h ⟨j, hj⟩ with hlong | hlinks
    · omega
    · have := hlinks i j hi hj
      omega

/-- The headers among some names, each of which is looked at by its joined path. -/
theorem Tree.mem_headersOf_names {t : Tree} {path : Bytes} {place : Place}
    (hr : t.resolve .follow path = .ok (.directory place)) {names : List Name}
    (hlegal : ∀ k ∈ names, k.IsLegal) (g : Glob) (n : String) :
    n ∈ headersOf (g.notes (names.map fun k => ⟨k, t.isDirectory (Path.append path k)⟩)) ↔
      Utf8.encode n ∈ names ∧ g.matches n = true ∧
      ((∃ links, LeadsToDirectory t.root links place (Utf8.encode n)) →
        t.Overlooked path place (Utf8.encode n)) := by
  simp only [headersOf_notes, List.mem_filterMap, List.mem_map, Glob.header?_eq_some_iff]
  constructor
  · intro ⟨_, ⟨k, hk, he⟩, hname, hm, hd⟩
    subst he
    obtain rfl : k = Utf8.encode n := hname
    exact ⟨hk, hm, (Tree.isDirectory_append_false hr (hlegal _ hk)).mp hd⟩
  · intro ⟨hk, hm, hd⟩
    have hflag := (Tree.isDirectory_append_false hr (hlegal _ hk)).mpr hd
    exact ⟨_, ⟨_, hk, rfl⟩, rfl, hm, hflag⟩

/-- The headers among the entries of a directory. -/
theorem Tree.mem_headersOf_list {t : Tree} (hw : t.WellFormed) {path : Bytes} {place : Place}
    {es : List (Name × Node)} (hr : t.resolve .follow path = .ok (.directory place))
    (hes : t.root.get? place.path = some (.dir es)) (g : Glob) (n : String) :
    n ∈ headersOf (g.notes (es.map fun e => ⟨e.1, t.isDirectory (Path.append path e.1)⟩)) ↔
      (∃ node, t.root.get? (place.path ++ [Utf8.encode n]) = some node) ∧ g.matches n = true ∧
      ((∃ links, LeadsToDirectory t.root links place (Utf8.encode n)) →
        t.Overlooked path place (Utf8.encode n)) := by
  have hlegal : ∀ k ∈ es.map Prod.fst, k.IsLegal :=
    List.forall_mem_map.mpr fun e he => (hw.names _ es hes).2 e he
  have hmem := Tree.mem_headersOf_names hr hlegal g n
  rw [List.map_map] at hmem
  rw [Node.exists_get?_iff hes, ← List.mem_map]
  exact hmem

/-! ## What has been emitted -/

/-- The text that a run has emitted: what it printed, or what the output file
holds. -/
def Outcome.emitted? (o : Outcome) (output : Option Bytes) : Option String :=
  match output with
  | none => some o.stdout
  | some p =>
    match o.tree.load p with
    | .ok data => Utf8.decode? data
    | .error _ => none

theorem Tree.run_emitted {t : Tree} (ha : t.Anchored) {args : Arguments}
    (hpipe : ∀ p, args.output = some p → ¬ t.LeadsToPipe p)
    (hok : (t.run args).result = .ok ()) :
    ∃ s, survey args t.surroundings = .ok s ∧
      (t.run args).emitted? args.output = some s.database.render := by
  obtain ⟨s, hs, he⟩ := Tree.run_ok hok
  refine ⟨s, hs, ?_⟩
  rcases Tree.emit_eq_ok ha he with ⟨ho, hout, _⟩ | ⟨p, ho, _, ⟨hp, _⟩ | ⟨dir, n, hl, ht⟩⟩
  · rw [ho, Outcome.emitted?, hout]
  · exact absurd hp (hpipe p ho)
  · have hr := hl.follow.resolve_written ha (Utf8.encode s.database.render)
    have hload := Tree.load_of_resolve hr
    rw [ho, Outcome.emitted?, ht, hload]
    exact Utf8.decode?_encode _

/-- **What a run emits are the headers of the directory.** The records that can
be read back are those of the entries that match the pattern and are no
directories, in the order of the bytes of their names and each of them once. An
entry that leads to a directory is among them exactly when it is overlooked. -/
theorem Tree.run_lists_headers {t : Tree} (hw : t.WellFormed) {args : Arguments}
    (hsorted : args.unsorted = false)
    (hpipe : ∀ p, args.output = some p → ¬ t.LeadsToPipe p)
    (hok : (t.run args).result = .ok ()) :
    ∃ settings path directory g dir text, ∃ headers : List String,
      args.settings t.surroundings = .ok settings ∧
      workingDirectory t.currentDirectory args.directory = .ok path ∧
      path = Utf8.encode directory ∧
      t.resolve .follow path = .ok (.directory ⟨dir, 0⟩) ∧
      Glob.parse ((args.pattern.or settings.pattern).getD "*.hh") = .ok g ∧
      (t.run args).emitted? args.output = some text ∧
      Database.decode text = .ok (headers.map fun n =>
        { directory
          command := " ".intercalate ((args.compiler.or settings.compiler).getD "/usr/bin/g++" ::
            settings.flags.getD ["-std=c++0x", "-g", "-O0", "-Wall"] ++ [n, "-c"])
          file := "./" ++ n }) ∧
      headers.Pairwise (fun a b => Utf8.encode a < Utf8.encode b) ∧
      ∀ n, n ∈ headers ↔
        (∃ node, t.root.get? (dir ++ [Utf8.encode n]) = some node) ∧
        g.matches n = true ∧
        ((∃ links, LeadsToDirectory t.root links ⟨dir, 0⟩ (Utf8.encode n)) →
          t.Overlooked path ⟨dir, 0⟩ (Utf8.encode n)) := by
  obtain ⟨s, hs, hemit⟩ := Tree.run_emitted hw.anchored hpipe hok
  obtain ⟨settings, path, directory, g, entries, hset, hpath, hd, hg, hl, rfl⟩ :=
    survey_eq_ok_iff.mp hs
  have hlive := Tree.live_of_workingDirectory hpath
  obtain ⟨dir, es, hr, hes, rfl⟩ := Tree.list_entries hw.anchored hlive hl
  -- the names in one directory are distinct, so the headers are
  have hord := sortHeaders_strict (nodup_headersOf g (Tree.nodup_entries hw hes path))
  refine ⟨settings, path, directory, g, dir, _, _, hset, hpath,
    (Utf8.decode?_eq_some_iff.mp hd).symm, hr, hg, hemit, ?_, hord, ?_⟩
  · rw [Database.decode_render]
    simp only [Survey.make, hsorted]
    rfl
  · intro n
    rw [mem_sortHeaders, Tree.mem_headersOf_list hw hr hes]

/-- A header, a link to it, and a directory that is named like one. -/
def Tree.mixed : Tree :=
  { root := .dir [(Utf8.encode "b.hh", .file []), (Utf8.encode "a.hh", .link (Utf8.encode "b.hh")),
      (Utf8.encode "d.hh", .empty)] }

theorem Tree.mixed_wellFormed : mixed.WellFormed := by
  refine ⟨Node.wellFormed_dir (by decide) (by decide) ?_, rfl⟩
  simp only [List.forall_mem_cons]
  refine ⟨Node.wellFormed_leaf (by simp), Node.wellFormed_leaf (by simp), ?_, by simp⟩
  exact Node.wellFormed_dir (by simp) (by simp) (by simp)

theorem Tree.run_lists_headers_mixed :
    ∃ headers : List String,
      Database.decode (mixed.run {}).stdout = .ok (headers.map (Record.ofHeader "/" {})) ∧
      headers.Pairwise (fun a b => Utf8.encode a < Utf8.encode b) ∧
      "b.hh" ∈ headers ∧ "d.hh" ∉ headers := by
  have hok : (mixed.run {}).result = .ok () := eq_ok_of_isOk (by decide +kernel)
  obtain ⟨settings, path, directory, g, dir, text, headers, hset, hpath, hd, hr, hg, hemit, hdec,
    hord, hmem⟩ := Tree.run_lists_headers mixed_wellFormed rfl (by simp) hok
  cases hset
  cases hpath
  cases hr
  cases hg
  cases hemit
  have hd : Utf8.encode "/" = Utf8.encode directory := hd
  obtain rfl := Utf8.encode_injective hd
  refine ⟨headers, hdec, hord, (hmem "b.hh").mpr ⟨⟨_, rfl⟩, by decide, ?_⟩, fun h => ?_⟩
  · intro ⟨links, dest, hlead⟩
    cases hlead with
    | enter _ hg _ => cases hg
    | follow _ hg _ _ => cases hg
  · have hlead : LeadsToDirectory mixed.root 0 ⟨[], 0⟩ (Utf8.encode "d.hh") :=
      ⟨_, .enter ⟨by simp, rfl, by decide⟩ rfl .stop⟩
    rcases ((hmem "d.hh").mp h).2.2 ⟨0, hlead⟩ with hlong | hlinks
    · revert hlong
      decide
    · exact absurd (hlinks 0 0 .stop hlead) (by decide)

/-! ## A directory that is overlooked -/

theorem Tree.resolve_slashes (t : Tree) {n : Nat} (h₀ : 0 < n) (hn : n ≤ maxPathLength) :
    t.resolve .follow (List.replicate n Path.slash) = .ok (.directory .root) := by
  have hc : components (List.replicate n Path.slash) = [] := componentsFrom_slashes (by simp)
  have ha : Path.isAbsolute (List.replicate n Path.slash) = true := by
    simp [Path.isAbsolute, List.head?_replicate, Nat.ne_of_gt h₀]
  refine Tree.resolve_eq_ok_iff.mpr ⟨⟨?_, by simpa using hn, ?_⟩, 0, Nat.zero_le _, ?_⟩
  · intro h
    exact absurd (List.eq_of_mem_replicate h) (by decide)
  · simp [Nat.ne_of_gt h₀]
  · rw [hc, Place.start, if_pos ha]
    exact .stop

/-- A tree with a directory that is named like a header. -/
def Tree.decoy : Tree := { root := .dir [(Utf8.encode "d.hh", .empty)] }

theorem Tree.decoy_wellFormed : decoy.WellFormed := by
  refine ⟨Node.wellFormed_dir (by decide) (by decide) ?_, rfl⟩
  simp only [List.forall_mem_cons]
  exact ⟨Node.wellFormed_dir (by simp) (by simp) (by simp), by simp⟩

theorem Tree.list_decoy {path : Bytes} (hr : decoy.resolve .follow path = .ok (.directory .root))
    (hlen : path.length = maxPathLength) :
    decoy.list path = .ok [⟨Utf8.encode "d.hh", false⟩] := by
  have hlegal : Name.IsLegal (Utf8.encode "d.hh") := by decide
  have hlong : maxPathLength < (Path.append path (Utf8.encode "d.hh")).length := by
    have hn : (Utf8.encode "d.hh").length = 4 := by decide
    unfold Path.append
    split
    · rw [List.length_append]; omega
    · rw [List.length_append, List.length_cons]; omega
  have hseen : decoy.isDirectory (Path.append path (Utf8.encode "d.hh")) = false :=
    (Tree.isDirectory_append_false hr hlegal).mpr fun _ => .inl hlong
  refine Tree.list_eq_ok_iff.mpr ⟨_, Tree.names_eq_ok_iff.mpr ⟨_, hr, rfl⟩, ?_⟩
  rw [← hseen]
  rfl

theorem Tree.survey_decoy {path : Bytes} {directory : String} (habs : Path.isAbsolute path = true)
    (hr : decoy.resolve .follow path = .ok (.directory .root))
    (hlen : path.length = maxPathLength) (hd : Utf8.decode? path = some directory) :
    survey { directory := some path } decoy.surroundings =
      .ok ⟨[.matched "d.hh", .summary 1 "*.hh" directory],
        Database.ofHeaders directory {} ["d.hh"]⟩ := by
  let g : Glob := ⟨[.anySequence, .literal '.', .literal 'h', .literal 'h']⟩
  have hg : Glob.parse "*.hh" = .ok g := rfl
  have hnotes : g.notes [⟨Utf8.encode "d.hh", false⟩] = [.matched "d.hh"] := by
    simp only [Glob.notes, List.filterMap_cons, List.filterMap_nil, Glob.note?, Utf8.decode?_encode]
    decide +kernel
  have hpath : workingDirectory decoy.currentDirectory (some path) = .ok path := by
    show Except.ok (Path.join _ path) = _
    rw [Path.join, if_pos habs]
  have hs : survey { directory := some path } decoy.surroundings = .ok _ :=
    survey_eq_ok_iff.mpr ⟨{}, path, directory, g, _, rfl, hpath, hd, hg,
      Tree.list_decoy hr hlen, rfl⟩
  rw [hs, hnotes]
  simp [Survey.make, headersOf, Note.header?, sortHeaders, Settings.template, Settings.patternOr,
    Settings.defaultPattern]

theorem Tree.run_decoy {path : Bytes} {directory : String} (habs : Path.isAbsolute path = true)
    (hr : decoy.resolve .follow path = .ok (.directory .root))
    (hlen : path.length = maxPathLength) (hd : Utf8.decode? path = some directory) :
    decoy.run { directory := some path } =
      ⟨.ok (), (Database.ofHeaders directory {} ["d.hh"]).render, [], decoy⟩ :=
  Tree.run_of_survey (Tree.survey_decoy habs hr hlen hd) rfl

/-- The root directory, by the longest path that can be opened. -/
def longestRoot : Bytes := List.replicate maxPathLength Path.slash

/-- Along the longest path, the directory of the decoy is taken for a header. -/
theorem Tree.run_lists_directory :
    decoy.WellFormed ∧ decoy.resolve .follow longestRoot = .ok (.directory .root) ∧
      decoy.root.get? [Utf8.encode "d.hh"] = some (.dir []) ∧
      (decoy.run { directory := some longestRoot }).result = .ok () ∧
      ∃ r, Database.decode (decoy.run { directory := some longestRoot }).stdout = .ok [r] ∧
        r.file = "./d.hh" := by
  have hr : decoy.resolve .follow longestRoot = .ok (.directory .root) :=
    decoy.resolve_slashes (by decide) (Nat.le_refl _)
  have habs : Path.isAbsolute longestRoot = true := by
    simp [longestRoot, Path.isAbsolute, maxPathLength]
  have hrun := Tree.run_decoy habs hr List.length_replicate
    (Utf8.decode?_replicate Path.utf8EncodeChar_slash _)
  rw [hrun]
  exact ⟨decoy_wellFormed, hr, rfl, rfl, _, Database.decode_render [_], rfl⟩

end HeaderDb
