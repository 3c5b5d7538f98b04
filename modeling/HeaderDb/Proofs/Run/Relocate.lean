import HeaderDb.Proofs.Run.Effects
import HeaderDb.Proofs.Tree.Relocate

/-! # Runs from another current directory

A run asks for the current directory once and leaves relative paths of settings
and output to the system. With the directory and these paths given from the root,
it can be started anywhere: each of its steps gives the same answer, and only the
name of a settings file in a message differs. The equation holds for the whole
outcome, failures included, as long as no joined path is too long. -/

namespace HeaderDb

/-- The failure with another name for the settings file. -/
def Failure.renamed (f : Bytes → Bytes) : Failure → Failure
  | .settings path cause => .settings (f path) cause
  | failure => failure

theorem Failure.kind_renamed (f : Bytes → Bytes) (failure : Failure) :
    (failure.renamed f).kind = failure.kind := by
  cases failure with
  | settings path cause => cases cause <;> rfl
  | os _ | directoryNotUtf8 _ | pattern _ _ => rfl

theorem Failure.renamed_eq (f : Bytes → Bytes) {failure : Failure}
    (h : ∀ path cause, failure ≠ .settings path cause) : failure.renamed f = failure := by
  cases failure with
  | settings path cause => exact absurd rfl (h path cause)
  | os _ | directoryNotUtf8 _ | pattern _ _ => rfl

/-- The arguments with the directory to scan and all paths given from the root. -/
def Arguments.relocated (args : Arguments) (here directory : Bytes) : Arguments :=
  { args with
    directory := some directory
    config := args.config.map (Path.join here)
    output := args.output.map (Path.join here) }

/-- What is asked of the paths in the arguments: they are not empty, and no path
that could be walked along becomes too long when it is joined. -/
structure Arguments.Relocatable (args : Arguments) (here : Bytes) : Prop where
  nonempty : ∀ p, args.config = some p ∨ args.output = some p → p ≠ []
  fits : ∀ p, args.config = some p ∨ args.output = some p → Tree.Walkable p →
    (Path.join here p).length ≤ maxPathLength

theorem mapError_ok {α : Type} (f : Failure → Failure) (a : α) :
    (Except.ok a : Except Failure α).mapError f = .ok a := rfl

theorem readSettings_renamed (f : Bytes → Bytes) (path : Bytes)
    (contents : Except OsError Bytes) :
    readSettings (f path) contents = (readSettings path contents).mapError (Failure.renamed f) := by
  unfold readSettings
  cases contents with
  | error e => rfl
  | ok data =>
    cases hd : Utf8.decode? data with
    | none => simp only [hd]; rfl
    | some document =>
      cases hp : Settings.parse document <;> simp only [hd, hp] <;> rfl

theorem readSettings_error {path : Bytes} {contents : Except OsError Bytes} {f : Failure}
    (h : readSettings path contents = .error f) : ∃ cause, f = .settings path cause := by
  unfold readSettings at h
  cases contents with
  | error e => cases h; exact ⟨_, rfl⟩
  | ok data =>
    cases hd : Utf8.decode? data with
    | none => simp only [hd] at h; cases h; exact ⟨_, rfl⟩
    | some document =>
      cases hp : Settings.parse document with
      | error e => simp only [hd, hp] at h; cases h; exact ⟨_, rfl⟩
      | ok settings => simp only [hd, hp] at h; cases h

theorem scan_error {pattern : String} {entries : Except OsError (List Entry)} {f : Failure}
    (h : scan pattern entries = .error f) : ∀ path cause, f ≠ .settings path cause := by
  unfold scan at h
  cases hg : Glob.parse pattern with
  | error e => rw [hg] at h; cases h; simp
  | ok g =>
    rw [hg] at h
    cases entries with
    | error e => cases h; simp
    | ok es => cases h

/-- No step of a survey but the first speaks of settings. -/
theorem settings_of_survey_error {args : Arguments} {s : Surroundings} {path : Bytes}
    {cause : SettingsFailure} (h : survey args s = .error (.settings path cause)) :
    args.settings s = .error (.settings path cause) := by
  unfold survey at h
  cases hset : args.settings s with
  | error f => rw [hset] at h; cases h; rfl
  | ok settings =>
    rw [hset] at h
    cases hw : workingDirectory s.currentDirectory args.directory with
    | error e => rw [hw] at h; cases h
    | ok directory =>
      rw [hw] at h
      cases hd : Utf8.decode? directory with
      | none => simp only [hd] at h; cases h
      | some text =>
        simp only [hd] at h
        cases hs : scan (settings.patternOr args.pattern) (s.list directory) with
        | error f => rw [hs] at h; cases h; exact absurd rfl (scan_error hs path cause)
        | ok notes => rw [hs] at h; cases h

namespace Tree

variable {t : Tree} {here directory : Bytes} {args : Arguments} {place : Place}

theorem settings_relocated (hw : t.WellFormed) (hc : t.currentDirectory = .ok here)
    (hr : args.Relocatable here) (place : Place) :
    (args.relocated here directory).settings (t.movedTo place).surroundings =
      (args.settings t.surroundings).mapError (Failure.renamed (Path.join here)) := by
  unfold Arguments.settings Arguments.relocated
  cases hcfg : args.config with
  | none => rfl
  | some p =>
    have hl := load_join hw hc (hr.nonempty p (.inl hcfg)) (hr.fits p (.inl hcfg)) place
    simp only [Option.map_some, surroundings, hl]
    exact readSettings_renamed _ p _

theorem workingDirectory_relocated (hc : t.currentDirectory = .ok here)
    (hd : workingDirectory t.currentDirectory args.directory = .ok directory)
    (hlive : place.removed = 0) :
    workingDirectory (t.movedTo place).currentDirectory (some directory) = .ok directory ∧
      Path.isAbsolute directory = true := by
  have ha : Path.isAbsolute directory = true := by
    rw [hc] at hd
    cases hdir : args.directory with
    | none =>
      rw [hdir] at hd
      cases hd
      exact isAbsolute_here hc
    | some d =>
      rw [hdir] at hd
      cases hd
      exact isAbsolute_join hc d
  obtain ⟨there, hthere⟩ : ∃ there, (t.movedTo place).currentDirectory = .ok there :=
    ⟨_, currentDirectory_eq_ok_iff.mpr ⟨hlive, rfl⟩⟩
  refine ⟨?_, ha⟩
  rw [hthere]
  show Except.ok (Path.join there directory) = .ok directory
  rw [Path.join, if_pos ha]

theorem survey_relocated (hw : t.WellFormed) (hc : t.currentDirectory = .ok here)
    (hd : workingDirectory t.currentDirectory args.directory = .ok directory)
    (hr : args.Relocatable here) (hlive : place.removed = 0) :
    survey (args.relocated here directory) (t.movedTo place).surroundings =
      (survey args t.surroundings).mapError (Failure.renamed (Path.join here)) := by
  obtain ⟨hwd, ha⟩ := workingDirectory_relocated hc hd hlive
  have hwd' : workingDirectory (t.movedTo place).surroundings.currentDirectory
      (args.relocated here directory).directory = .ok directory := hwd
  have hl : (t.movedTo place).surroundings.list directory = t.surroundings.list directory :=
    list_movedTo ha place
  have hd' : workingDirectory t.surroundings.currentDirectory args.directory = .ok directory := hd
  unfold survey
  rw [settings_relocated hw hc hr, hwd', hd']
  cases args.settings t.surroundings with
  | error f => rfl
  | ok settings =>
    simp only [mapError_ok, hl]
    cases hu : Utf8.decode? directory with
    | none => rfl
    | some text =>
      dsimp only [Arguments.relocated]
      cases hs : scan (settings.patternOr args.pattern) (t.surroundings.list directory) with
      | error f => exact congrArg Except.error (Failure.renamed_eq _ (scan_error hs)).symm
      | ok notes => rfl

theorem emit_relocated (hw : t.WellFormed) (hc : t.currentDirectory = .ok here)
    (hr : args.Relocatable here) (place : Place) (text : String) :
    (t.movedTo place).emit (args.relocated here directory).output text =
      (t.emit args.output text).map fun r => (r.1, r.2.movedTo place) := by
  unfold Arguments.relocated emit
  cases ho : args.output with
  | none => rfl
  | some p =>
    simp only [Option.map_some, store_join hw hc (hr.nonempty p (.inr ho)) (hr.fits p (.inr ho))]
    cases t.store p (Utf8.encode text) <;> rfl

/-- The outcome of a run that was started elsewhere. -/
theorem run_movedTo (hw : t.WellFormed) (hc : t.currentDirectory = .ok here)
    (hd : workingDirectory t.currentDirectory args.directory = .ok directory)
    (hr : args.Relocatable here) (hlive : place.removed = 0) :
    (t.movedTo place).run (args.relocated here directory) =
      { result := (t.run args).result.mapError (Failure.renamed (Path.join here))
        stdout := (t.run args).stdout
        notes := (t.run args).notes
        tree := (t.run args).tree.movedTo place } := by
  unfold run
  rw [survey_relocated hw hc hd hr hlive]
  cases survey args t.surroundings with
  | error f => rfl
  | ok s =>
    simp only [mapError_ok, emit_relocated hw hc hr]
    cases t.emit args.output s.database.render <;> rfl

/-- A failure over settings names the file that was given. -/
theorem config_of_run_error {path : Bytes} {cause : SettingsFailure}
    (h : (t.run args).result = .error (.settings path cause)) : args.config = some path := by
  rcases t.run_cases args with ⟨f, hs, hrun⟩ | ⟨_, _, _, _, hrun⟩ | ⟨_, _, _, _, _, hrun⟩
  · rw [hrun] at h
    cases h
    have hset := settings_of_survey_error hs
    unfold Arguments.settings at hset
    cases hcfg : args.config with
    | none => rw [hcfg] at hset; cases hset
    | some p =>
      rw [hcfg] at hset
      obtain ⟨_, hf⟩ := readSettings_error hset
      cases hf
      rfl
  · rw [hrun] at h; cases h
  · rw [hrun] at h; cases h

/-- **A run can be started anywhere.** With the directory to scan and the paths
of settings and output given from the root, a run from any other directory
prints the same, notes the same and leaves the same tree. It succeeds or fails
alike, with the same kind of failure and the same message; only the settings
file goes by the name that was given for it. -/
theorem run_relocated (hw : t.WellFormed) (hc : t.currentDirectory = .ok here)
    (hd : workingDirectory t.currentDirectory args.directory = .ok directory)
    (hr : args.Relocatable here) (hlive : place.removed = 0) :
    let o := t.run args
    let o' := (t.movedTo place).run (args.relocated here directory)
    o'.stdout = o.stdout ∧ o'.notes = o.notes ∧ o'.tree = o.tree.movedTo place ∧
    (o.result = .ok () → o'.result = .ok ()) ∧
    ∀ f, o.result = .error f → ∃ f', o'.result = .error f' ∧ f'.kind = f.kind ∧
      (f'.message = f.message ∨ ∃ path cause, args.config = some path ∧
        f = .settings path cause ∧ f' = .settings (Path.join here path) cause) := by
  intro o o'
  have ho : o' = _ := run_movedTo hw hc hd hr hlive
  rw [ho]
  refine ⟨rfl, rfl, rfl, ?_, ?_⟩
  · intro hok
    show o.result.mapError _ = _
    rw [hok, mapError_ok]
  · intro f hf
    refine ⟨f.renamed (Path.join here), ?_, f.kind_renamed _, ?_⟩
    · show o.result.mapError _ = _
      rw [hf]
      rfl
    · cases f with
      | settings path cause =>
        exact .inr ⟨path, cause, config_of_run_error hf, rfl, rfl⟩
      | os _ | directoryNotUtf8 _ | pattern _ _ => exact .inl rfl

/-- A directory with settings and a header, and room for an output beside it. -/
def nested : Tree :=
  { root := .dir [(Utf8.encode "d", .dir [(Utf8.encode "s", .file (Utf8.encode "flags = []")),
      (Utf8.encode "a.hh", .file [])])]
    current := ⟨[Utf8.encode "d"], 0⟩ }

theorem nested_wellFormed : nested.WellFormed := by
  refine ⟨Node.wellFormed_dir (by decide) (by decide) ?_, rfl⟩
  simp only [List.forall_mem_cons]
  refine ⟨Node.wellFormed_dir (by decide) (by decide) ?_, by simp⟩
  simp only [List.forall_mem_cons]
  exact ⟨Node.wellFormed_leaf (by simp), Node.wellFormed_leaf (by simp), by simp⟩

/-- Settings below and an output above the current directory, from the root. -/
theorem run_relocated_nested :
    let args : Arguments :=
      { config := some (Utf8.encode "s"), output := some (Utf8.encode "../o") }
    let args' : Arguments :=
      { directory := some (Utf8.encode "/d"), config := some (Utf8.encode "/d/s")
        output := some (Utf8.encode "/d/../o") }
    (nested.run args).result = .ok () ∧
    ((nested.movedTo .root).run args').result = .ok () ∧
    ((nested.movedTo .root).run args').tree = (nested.run args).tree.movedTo .root := by
  intro args args'
  have hok : (nested.run args).result = .ok () := eq_ok_of_isOk (by decide +kernel)
  have hr : args.Relocatable (Utf8.encode "/d") := by
    refine ⟨?_, ?_⟩
    · rintro p (hp | hp) <;> cases hp <;> decide
    · rintro p (hp | hp) <;> cases hp <;> exact fun _ => by decide
  obtain ⟨_, _, htree, hres, _⟩ :=
    @run_relocated nested _ _ args .root nested_wellFormed rfl rfl hr rfl
  exact ⟨hok, hres hok, htree⟩

/-! ## A path that joining makes too long -/

theorem run_of_settings_error {f : Failure} (h : args.settings t.surroundings = .error f) :
    (t.run args).result = .error f := by
  simp only [run, survey, h]

/-- Settings are read alike by every path that leads to them. -/
theorem run_of_load_eq {p q : Bytes} (hl : t.load p = t.load q)
    (hok : (t.run { args with config := some q }).result = .ok ()) :
    (t.run { args with config := some p }).result = .ok () := by
  obtain ⟨s, hs, he⟩ := run_ok hok
  obtain ⟨settings, path, directory, g, entries, hset, hp, hd, hg, hlist, rfl⟩ :=
    survey_eq_ok_iff.mp hs
  have hset' : ({ args with config := some p } : Arguments).settings t.surroundings =
      .ok settings := by
    have hset : readSettings q (t.load q) = .ok settings := hset
    show readSettings p (t.load p) = .ok settings
    rw [hl, readSettings_renamed (fun _ => p) q, hset]
    rfl
  have hs' : survey { args with config := some p } t.surroundings = .ok _ :=
    survey_eq_ok_iff.mpr ⟨settings, path, directory, g, entries, hset', hp, hd, hg, hlist, rfl⟩
  rw [run_of_survey hs' he]

theorem unmarked_dot_slashes (k : Nat) :
    unmarked (componentsFrom [] (Path.dot :: List.replicate k Path.slash)) = [.here] := by
  induction k with
  | zero => rfl
  | succ k ih => rw [List.replicate_succ', ← List.cons_append, unmarked_componentsFrom_concat, ih]

/-- A name in the current directory behind a dot and many slashes. -/
def dotted (k : Nat) (n : Name) : Bytes :=
  Path.dot :: List.replicate k Path.slash ++ Path.slash :: n

theorem length_dotted (k : Nat) (n : Name) : (dotted k n).length = k + n.length + 2 := by
  simp only [dotted, List.length_append, List.length_cons, List.length_replicate]
  omega

theorem walkable_dotted {k : Nat} {n : Name} (hn : n.IsLegal)
    (hk : k + n.length + 2 ≤ maxPathLength) : Walkable (dotted k n) := by
  refine ⟨?_, by rwa [length_dotted], by simp [dotted]⟩
  intro h
  simp only [dotted, List.mem_append, List.mem_cons, List.mem_replicate] at h
  rcases h with (h | ⟨_, h⟩) | h | h
  · exact absurd h (by decide)
  · exact absurd h (by decide)
  · exact absurd h (by decide)
  · exact hn.2.2.2.2.1 h

theorem load_dotted {k : Nat} {n : Name} (hn : n.IsLegal)
    (hk : k + n.length + 2 ≤ maxPathLength) : t.load (dotted k n) = t.load n := by
  have hc : components (dotted k n) = [.here, .name n] := by
    rw [components, dotted, componentsFrom_join [] _ hn, unmarked_dot_slashes]
    rfl
  have hc' : components n = [.name n] := by
    rw [components, componentsFrom_name [] n hn.2.2.2.1 hn.1]
    exact congrArg (fun c => [c]) (Component.ofName_legal hn)
  have ha : Path.isAbsolute n = false := by
    obtain ⟨b, n, rfl⟩ := List.exists_cons_of_ne_nil hn.1
    have hb : b ≠ Path.slash := fun e => hn.2.2.2.1 (e ▸ List.mem_cons_self)
    simp [Path.isAbsolute, hb]
  have hw : Walkable n := ⟨hn.2.2.2.2.1, by omega, hn.1⟩
  unfold load
  rw [resolve_of_walkable (walkable_dotted hn hk), resolve_of_walkable hw, hc, hc',
    Place.start, Place.start, ha, walk_eq]
  rfl

theorem run_nested_too_long {p : Bytes} (ha : Path.isAbsolute p = false) (hz : 0 ∉ p)
    (hlong : maxPathLength < p.length + 3) :
    ((nested.movedTo .root).run (({ config := some p } : Arguments).relocated
      (Utf8.encode "/d") (Utf8.encode "/d"))).result =
        .error (.settings (Utf8.encode "/d/" ++ p) (.os .nameTooLong)) := by
  have hjoin : Path.join (Utf8.encode "/d") p = Utf8.encode "/d/" ++ p := by
    rw [Path.join, if_neg (by simp [ha])]
    rfl
  have hz' : 0 ∉ Utf8.encode "/d/" ++ p := by
    rw [List.mem_append, not_or]
    exact ⟨by decide, hz⟩
  have hlen : maxPathLength < (Utf8.encode "/d/" ++ p).length := by
    rw [List.length_append, show (Utf8.encode "/d/").length = 3 from by decide]
    omega
  refine run_of_settings_error ?_
  show readSettings (Path.join (Utf8.encode "/d") p)
    ((nested.movedTo .root).load (Path.join (Utf8.encode "/d") p)) = _
  rw [hjoin, load, resolve, if_neg (by simpa using hz'), if_pos hlen]
  rfl

/-- The settings beside the header, by the longest relative path. -/
def longestSettings : Bytes := dotted 4092 (Utf8.encode "s")

/-- Settings that are found from their directory, but not by the joined path. -/
theorem run_relocated_too_long :
    let args : Arguments := { config := some longestSettings }
    nested.WellFormed ∧ nested.currentDirectory = .ok (Utf8.encode "/d") ∧
    workingDirectory nested.currentDirectory args.directory = .ok (Utf8.encode "/d") ∧
    longestSettings ≠ [] ∧ (nested.run args).result = .ok () ∧
    ((nested.movedTo .root).run
      (args.relocated (Utf8.encode "/d") (Utf8.encode "/d"))).result =
        .error (.settings (Utf8.encode "/d/" ++ longestSettings) (.os .nameTooLong)) := by
  intro args
  have hn : Name.IsLegal (Utf8.encode "s") := by decide
  have hk : 4092 + (Utf8.encode "s").length + 2 ≤ maxPathLength := by decide
  have hlen : longestSettings.length = maxPathLength := length_dotted _ _
  have hw : Walkable longestSettings := walkable_dotted hn hk
  have hok : (nested.run { config := some (Utf8.encode "s") }).result = .ok () :=
    eq_ok_of_isOk (by decide +kernel)
  have hfound : (nested.run args).result = .ok () :=
    @run_of_load_eq nested {} longestSettings _ (load_dotted hn hk) hok
  refine ⟨nested_wellFormed, rfl, rfl, hw.nonempty, hfound, ?_⟩
  exact run_nested_too_long rfl hw.nonzero (by omega)

end Tree
end HeaderDb
