import HeaderDb.Proofs.Run.Notes
import HeaderDb.Proofs.Tree.Relocate

/-! # What the records of a run lead to

A record gives the directory of a run and a file in it, and a reader of the
database joins the two. The joined path passes the directory that was scanned
and goes on to the entry, so it leads to a regular file if the entry does. A run
keeps every entry that it does not see to be a directory: also a pipe, and a link
that leads nowhere. -/

namespace HeaderDb

/-! ## The path of a record -/

/-- The path that a reader of a record looks at. -/
def Record.path (r : Record) : Bytes := Utf8.encode (r.directory ++ "/" ++ r.file)

theorem Record.path_ofHeader (directory : String) (template : Template) (n : String) :
    (Record.ofHeader directory template n).path =
      Utf8.encode directory ++ Path.slash :: Path.dot :: Path.slash :: Utf8.encode n := by
  unfold Record.path Record.ofHeader
  rw [Utf8.encode_append, Utf8.encode_append, Utf8.encode_append, List.append_assoc]
  have hslash : Utf8.encode "/" = [Path.slash] := by decide
  have hdot : Utf8.encode "./" = [Path.dot, Path.slash] := by decide
  rw [hslash, hdot]
  rfl

theorem components_dot_slash (p : Bytes) {n : Name} (hn : n.IsLegal) :
    components (p ++ Path.slash :: Path.dot :: Path.slash :: n) =
      unmarked (components p) ++ [.here, .name n] := by
  have hp : p ++ Path.slash :: Path.dot :: Path.slash :: n =
      (p ++ Path.slash :: [Path.dot]) ++ Path.slash :: n := by simp
  have hdot : Component.ofName [Path.dot] = .here := rfl
  unfold components
  rw [hp, componentsFrom_join [] _ hn, componentsFrom_part [] p (by simp) (by decide), hdot,
    unmarked_append, unmarked_unmarked, List.append_assoc]
  rfl

/-- A path leads to a regular file. -/
def Tree.LeadsToRegularFile (t : Tree) (p : Bytes) : Prop :=
  ∃ dir n data, t.resolve .follow p = .ok (.entry dir n (.file data))

/-- The entry `n` of a directory is a regular file, or a link that leads to one
over further links. -/
def EntryLeadsToFile (root : Node) (links : Nat) (place : Place) (n : Name) : Prop :=
  ∃ dir k data, Reaches root .follow links place [.name n] (.entry dir k (.file data))

theorem Reaches.here_iff {root : Node} {links : Nat} {place : Place} {cs : List Component}
    {spot : Spot} : Reaches root .follow links place (.here :: cs) spot ↔
      Reaches root .follow links place cs spot := by
  constructor
  · intro h
    cases h with
    | here h => exact h
  · exact .here

section
variable {t : Tree} {path : Bytes} {place : Place} {n : Name}

/-- The path of an entry, as records give it, passes the directory and goes on
to the entry. -/
theorem Tree.resolve_record (hr : t.resolve .follow path = .ok (.directory place))
    (hn : n.IsLegal) (spot : Spot) :
    t.resolve .follow (path ++ Path.slash :: Path.dot :: Path.slash :: n) = .ok spot ↔
      (path ++ Path.slash :: Path.dot :: Path.slash :: n).length ≤ maxPathLength ∧
      ∃ i j, i + j ≤ maxLinks ∧
        Reaches t.root .follow i (t.current.start path) (components path) (.directory place) ∧
        Reaches t.root .follow j place [.name n] spot := by
  obtain ⟨hw, _⟩ := resolve_eq_ok_iff.mp hr
  have hz : 0 ∉ path ++ Path.slash :: Path.dot :: Path.slash :: n := by
    simp only [List.mem_append, List.mem_cons, not_or]
    exact ⟨hw.nonzero, by decide, by decide, by decide, hn.2.2.2.2.1⟩
  have habs : Path.isAbsolute (path ++ Path.slash :: Path.dot :: Path.slash :: n) =
      Path.isAbsolute path := by
    obtain ⟨b, path, rfl⟩ := List.exists_cons_of_ne_nil hw.nonempty
    rfl
  rw [resolve_extended hr (by simp) (by simp) (components_dot_slash path hn) habs hz (by simp)]
  simp only [Reaches.here_iff]

/-- The record of an entry that was kept does not lead to a directory. -/
theorem Tree.record_not_directory (hr : t.resolve .follow path = .ok (.directory place))
    (hn : n.IsLegal)
    (hkept : (∃ links, LeadsToDirectory t.root links place n) → t.Overlooked path place n)
    (hlen : (path ++ Path.slash :: Path.dot :: Path.slash :: n).length ≤ maxPathLength)
    (dest : Place) :
    t.resolve .follow (path ++ Path.slash :: Path.dot :: Path.slash :: n) ≠
      .ok (.directory dest) := by
  intro h
  obtain ⟨_, i, j, hij, hi, hj⟩ := (resolve_record hr hn _).mp h
  rcases hkept ⟨j, dest, hj⟩ with hlong | hlinks
  · have hshort : (Path.append path n).length ≤
        (path ++ Path.slash :: Path.dot :: Path.slash :: n).length := by
      unfold Path.append
      split <;> (simp only [List.length_append, List.length_cons]; omega)
    omega
  · have := hlinks i j hi ⟨dest, hj⟩
    omega

/-- An entry that is a file is found by its record. -/
theorem Tree.record_of_file {dir : List Name} {data : Bytes}
    (hr : t.resolve .follow path = .ok (.directory ⟨dir, 0⟩)) (hn : n.IsLegal)
    (hf : t.root.get? (dir ++ [n]) = some (.file data))
    (hlen : (path ++ Path.slash :: Path.dot :: Path.slash :: n).length ≤ maxPathLength) :
    t.resolve .follow (path ++ Path.slash :: Path.dot :: Path.slash :: n) =
      .ok (.entry dir n (.file data)) := by
  obtain ⟨_, i, hi, hreach⟩ := resolve_eq_ok_iff.mp hr
  refine (resolve_record hr hn _).mpr ⟨hlen, i, 0, hi, hreach, ?_⟩
  exact .entry ⟨by simp, rfl, hn.2.2.2.2.2⟩ hf (by simp) (by simp)

end

/-! ## The records of a run -/

/-- The records of a run belong to entries of the directory that it does not see
to be directories. -/
theorem Tree.run_records {t : Tree} (hw : t.WellFormed) {args : Arguments}
    (hok : (t.run args).result = .ok ()) :
    ∃ path directory dir template, ∃ headers : List String,
      workingDirectory t.currentDirectory args.directory = .ok path ∧
      path = Utf8.encode directory ∧
      t.resolve .follow path = .ok (.directory ⟨dir, 0⟩) ∧
      t.Emits args (Database.ofHeaders directory template headers) ∧
      ∀ n ∈ headers,
        (∃ node, t.root.get? (dir ++ [Utf8.encode n]) = some node) ∧
        ((∃ links, LeadsToDirectory t.root links ⟨dir, 0⟩ (Utf8.encode n)) →
          t.Overlooked path ⟨dir, 0⟩ (Utf8.encode n)) := by
  obtain ⟨s, hs, he⟩ := run_ok hok
  obtain ⟨settings, path, directory, g, dir, hscan⟩ := scans_of_survey hw.anchored hs
  obtain ⟨es, hes⟩ := Node.isDirAt_iff.mp (resolve_holds hw.anchored hscan.opened)
  rw [hscan.survey hes] at hs
  obtain ⟨headers, hh, hmake⟩ := Survey.make_headers args.unsorted
    (settings.template args.compiler) (settings.patternOr args.pattern) directory
    (g.notes (es.map fun e => ⟨e.1, t.isDirectory (Path.append path e.1)⟩))
  rw [hmake] at hs
  cases hs
  refine ⟨path, directory, dir, _, headers, hscan.located, hscan.named, hscan.opened, ⟨hok, he⟩, ?_⟩
  intro n hn
  obtain ⟨hnode, _, hkept⟩ := (mem_headersOf_list hw hscan.opened hes g n).mp (hh.mem_iff.mp hn)
  exact ⟨hnode, hkept⟩

theorem Tree.isAbsolute_workingDirectory {t : Tree} {directory : Option Bytes} {path : Bytes}
    (h : workingDirectory t.currentDirectory directory = .ok path) :
    Path.isAbsolute path = true := by
  unfold workingDirectory at h
  cases hc : t.currentDirectory with
  | error e => rw [hc] at h; cases h
  | ok here =>
    rw [hc] at h
    cases h
    cases directory with
    | none => exact isAbsolute_here hc
    | some d => exact isAbsolute_join hc d

/-- **What the records of a run lead to.** Each record belongs to an entry of the
directory that was scanned. From any current directory its path leads to a
regular file exactly if the entry does, the path is not too long, and not too
many links are on the way. An entry that is a regular file itself is always
found by a path that is not too long, and no such path leads to a directory. -/
theorem Tree.run_records_lead {t : Tree} (hw : t.WellFormed) {args : Arguments}
    (hok : (t.run args).result = .ok ()) :
    ∃ path dir, ∃ records : Database,
      workingDirectory t.currentDirectory args.directory = .ok path ∧
      t.resolve .follow path = .ok (.directory ⟨dir, 0⟩) ∧
      t.Emits args records ∧
      ∀ r ∈ records, ∃ n node,
        Utf8.encode r.directory = path ∧ r.file = "./" ++ n ∧
        t.root.get? (dir ++ [Utf8.encode n]) = some node ∧
        ∀ here,
          ((t.movedTo here).LeadsToRegularFile r.path ↔
            r.path.length ≤ maxPathLength ∧
            ∃ i j, i + j ≤ maxLinks ∧
              Reaches t.root .follow i .root (components path) (.directory ⟨dir, 0⟩) ∧
              EntryLeadsToFile t.root j ⟨dir, 0⟩ (Utf8.encode n)) ∧
          (r.path.length ≤ maxPathLength → ∀ data, node = .file data →
            (t.movedTo here).resolve .follow r.path =
              .ok (.entry dir (Utf8.encode n) (.file data))) ∧
          (r.path.length ≤ maxPathLength → ∀ place,
            (t.movedTo here).resolve .follow r.path ≠ .ok (.directory place)) := by
  obtain ⟨path, directory, dir, template, headers, hpath, hd, hr, hemit, hmem⟩ :=
    run_records hw hok
  refine ⟨path, dir, _, hpath, hr, hemit, ?_⟩
  intro r hrec
  obtain ⟨n, hn, rfl⟩ := List.mem_map.mp hrec
  obtain ⟨⟨node, hnode⟩, hkept⟩ := hmem n hn
  have hlegal := hw.names.legal_name hnode
  have habs := isAbsolute_workingDirectory hpath
  have hstart : t.current.start path = .root := if_pos habs
  refine ⟨n, node, hd.symm, rfl, hnode, fun here => ?_⟩
  rw [Record.path_ofHeader, ← hd]
  have habs' : Path.isAbsolute (path ++ Path.slash :: Path.dot :: Path.slash :: Utf8.encode n) =
      true := by
    obtain ⟨b, path, rfl⟩ := List.exists_cons_of_ne_nil (Path.ne_nil_of_isAbsolute habs)
    exact habs
  unfold LeadsToRegularFile
  simp only [resolve_movedTo habs']
  refine ⟨?_, ?_, record_not_directory hr hlegal hkept⟩
  · simp only [resolve_record hr hlegal, hstart, EntryLeadsToFile]
    constructor
    · intro ⟨d, k, data, hlen, i, j, hij, h₁, h₂⟩
      exact ⟨hlen, i, j, hij, h₁, d, k, data, h₂⟩
    · intro ⟨hlen, i, j, hij, h₁, d, k, data, h₂⟩
      exact ⟨d, k, data, hlen, i, j, hij, h₁, h₂⟩
  · intro hlen data hf
    exact record_of_file hr hlegal (hf ▸ hnode) hlen

theorem Tree.Emits.stdout_eq {t : Tree} {args : Arguments} {db : Database} (h : t.Emits args db)
    (ho : args.output = none) : (t.run args).stdout = db.render := by
  have he := h.2
  rw [ho] at he
  exact (congrArg Prod.fst (Except.ok.inj he)).symm

/-- A file and a link to it are both found by their records. -/
theorem Tree.run_records_lead_mixed :
    ∃ records : Database, mixed.Emits { unsorted := true } records ∧
      records.map Record.file = ["./b.hh", "./a.hh"] ∧
      ∀ r ∈ records, ∀ here, (mixed.movedTo here).LeadsToRegularFile r.path := by
  have hok : (mixed.run { unsorted := true }).result = .ok () := eq_ok_of_isOk (by decide +kernel)
  obtain ⟨path, dir, records, hpath, hr, hemit, hlead⟩ := run_records_lead mixed_wellFormed hok
  cases hpath
  cases hr
  have hout : (mixed.run { unsorted := true }).stdout =
      (Database.ofHeaders "/" {} ["b.hh", "a.hh"]).render := by
    decide +kernel
  obtain rfl := Database.render_injective ((hemit.stdout_eq rfl).symm.trans hout)
  have hb : Reaches mixed.root .follow 0 .root [.name (Utf8.encode "b.hh")]
      (.entry [] (Utf8.encode "b.hh") (.file [])) :=
    .entry ⟨by simp, rfl, by decide⟩ rfl (by simp) (by simp)
  have ha : Reaches mixed.root .follow 1 .root [.name (Utf8.encode "a.hh")]
      (.entry [] (Utf8.encode "b.hh") (.file [])) :=
    .follow ⟨by simp, rfl, by decide⟩ rfl (by simp) hb
  refine ⟨_, hemit, rfl, fun r hrec here => ?_⟩
  obtain ⟨n, node, _, hfile, _, hall⟩ := hlead r hrec
  obtain ⟨m, hm, rfl⟩ := List.mem_map.mp hrec
  obtain rfl : m = n := (String.append_right_inj "./").mp hfile
  refine (hall here).1.mpr ?_
  have hcases : m = "b.hh" ∨ m = "a.hh" := by simpa using hm
  rcases hcases with rfl | rfl
  · exact ⟨by decide, 0, 0, by decide, .stop, [], _, [], hb⟩
  · exact ⟨by decide, 0, 1, by decide, .stop, [], _, [], ha⟩

/-! ## A record without a file -/

/-- A tree with a link that is named like a header and leads nowhere. -/
def Tree.astray : Tree :=
  { root := .dir [(Utf8.encode "a.hh", .link (Utf8.encode "nowhere"))] }

theorem Tree.astray_wellFormed : astray.WellFormed := by
  refine ⟨Node.wellFormed_dir (by decide) (by decide) ?_, rfl⟩
  simp only [List.forall_mem_cons]
  exact ⟨Node.wellFormed_leaf (by simp), by simp⟩

theorem Tree.run_astray :
    astray.run {} = ⟨.ok (), Database.render [Record.ofHeader "/" {} "a.hh"], [], astray⟩ := by
  let g : Glob := ⟨[.anySequence, .literal '.', .literal 'h', .literal 'h']⟩
  have hscan : astray.Scans {} {} [Path.slash] "/" g [] := ⟨rfl, rfl, rfl, rfl, rfl⟩
  have hnotes : g.notes [⟨Utf8.encode "a.hh", false⟩] = [.matched "a.hh"] := by decide +kernel
  have hs := hscan.survey rfl
  have hseen : astray.isDirectory (Path.append [Path.slash] (Utf8.encode "a.hh")) = false := rfl
  rw [List.map_cons, List.map_nil, hseen, hnotes] at hs
  rw [run_of_survey hs rfl]
  simp [Survey.make, headersOf, Note.header?, sortHeaders, Settings.template, Database.ofHeaders]

/-- The link is kept, and its record leads to no file from anywhere. -/
theorem Tree.run_records_astray :
    astray.WellFormed ∧ (astray.run {}).result = .ok () ∧
      ∃ r, Database.decode (astray.run {}).stdout = .ok [r] ∧
        ∀ here, ¬ (astray.movedTo here).LeadsToRegularFile r.path := by
  rw [run_astray]
  refine ⟨astray_wellFormed, rfl, _, Database.decode_render [_], fun here h => ?_⟩
  obtain ⟨dir, n, data, hr⟩ := h
  have habsent : (astray.movedTo here).resolve .follow (Record.ofHeader "/" {} "a.hh").path =
      .ok (.absent [] (Utf8.encode "nowhere")) := rfl
  rw [habsent] at hr
  cases hr

end HeaderDb
