import HeaderDb.Program
import HeaderDb.Proofs.Tree.Write

/-! # What a run leaves behind

A run takes its steps in order and writes last. So a run that fails has written
nothing, and a run that succeeds has written the database and nothing else: to
the standard output, or to the one file that the output path leads to. -/

namespace HeaderDb

/-! ## The steps of a run -/

/-- A survey succeeds exactly when each of its steps does. -/
theorem survey_eq_ok_iff {args : Arguments} {s : Surroundings} {v : Survey} :
    survey args s = .ok v ↔ ∃ settings path directory g entries,
      args.settings s = .ok settings ∧
      workingDirectory s.currentDirectory args.directory = .ok path ∧
      Utf8.decode? path = some directory ∧
      Glob.parse (settings.patternOr args.pattern) = .ok g ∧
      s.list path = .ok entries ∧
      v = .make args.unsorted (settings.template args.compiler)
        (settings.patternOr args.pattern) directory (g.notes entries) := by
  unfold survey scan
  constructor
  · intro h
    split at h
    · cases h
    · next settings hs =>
      split at h
      · cases h
      · next path hp =>
        split at h
        · cases h
        · next directory hd =>
          dsimp only at h
          cases hg : Glob.parse (settings.patternOr args.pattern) with
          | error e => rw [hg] at h; cases h
          | ok g =>
            cases hl : s.list path with
            | error e => rw [hg, hl] at h; cases h
            | ok entries =>
              rw [hg, hl] at h
              cases h
              exact ⟨settings, path, directory, g, entries, hs, hp, hd, hg, hl, rfl⟩
  · rintro ⟨settings, path, directory, g, entries, hs, hp, hd, hg, hl, rfl⟩
    simp only [hs, hp, hd, hg, hl]

/-- The three ways a run can go: the survey fails, the writing fails, or all is
written. -/
theorem Tree.run_cases (t : Tree) (args : Arguments) :
    (∃ f, survey args t.surroundings = .error f ∧ t.run args = ⟨.error f, "", [], t⟩) ∨
    (∃ s e, survey args t.surroundings = .ok s ∧
      t.emit args.output s.database.render = .error e ∧
      t.run args = ⟨.error (.os e), "", if args.verbose then s.notes else [], t⟩) ∨
    ∃ s stdout tree, survey args t.surroundings = .ok s ∧
      t.emit args.output s.database.render = .ok (stdout, tree) ∧
      t.run args = ⟨.ok (), stdout, if args.verbose then s.notes else [], tree⟩ := by
  unfold Tree.run
  cases hs : survey args t.surroundings with
  | error f => exact .inl ⟨f, rfl, rfl⟩
  | ok s =>
    cases he : t.emit args.output s.database.render with
    | error e => exact .inr (.inl ⟨s, e, rfl, he, by simp only [he]⟩)
    | ok r => exact .inr (.inr ⟨s, r.1, r.2, rfl, he, by simp only [he]⟩)

theorem eq_ok_of_isOk {r : Except Failure Unit} (h : r.isOk = true) : r = .ok () := by
  cases r with
  | ok u => rfl
  | error f => cases h

theorem Tree.run_error {t : Tree} {args : Arguments} {f : Failure}
    (h : (t.run args).result = .error f) : (t.run args).stdout = "" ∧ (t.run args).tree = t := by
  rcases t.run_cases args with ⟨_, _, hr⟩ | ⟨_, _, _, _, hr⟩ | ⟨_, _, _, _, _, hr⟩
  · rw [hr]; exact ⟨rfl, rfl⟩
  · rw [hr]; exact ⟨rfl, rfl⟩
  · rw [hr] at h; cases h

theorem Tree.run_ok {t : Tree} {args : Arguments} (h : (t.run args).result = .ok ()) :
    ∃ s, survey args t.surroundings = .ok s ∧
      t.emit args.output s.database.render = .ok ((t.run args).stdout, (t.run args).tree) := by
  rcases t.run_cases args with ⟨_, _, hr⟩ | ⟨_, _, _, _, hr⟩ | ⟨s, _, _, hs, he, hr⟩
  · rw [hr] at h; cases h
  · rw [hr] at h; cases h
  · exact ⟨s, hs, by rw [hr]; exact he⟩

theorem Tree.run_of_survey {t tree : Tree} {args : Arguments} {s : Survey} {stdout : String}
    (hs : survey args t.surroundings = .ok s)
    (he : t.emit args.output s.database.render = .ok (stdout, tree)) :
    t.run args = ⟨.ok (), stdout, if args.verbose then s.notes else [], tree⟩ := by
  unfold Tree.run
  simp only [hs, he]

/-- What is emitted goes to the standard output, to a pipe, or to a file. -/
theorem Tree.emit_eq_ok {t tree : Tree} (ha : t.Anchored) {output : Option Bytes}
    {text stdout : String} (h : t.emit output text = .ok (stdout, tree)) :
    output = none ∧ stdout = text ∧ tree = t ∨
    ∃ p, output = some p ∧ stdout = "" ∧
      (t.LeadsToPipe p ∧ tree = t ∨
        ∃ dir n, t.LeadsToFile .create p dir n ∧ tree = t.written dir n (Utf8.encode text)) := by
  cases output with
  | none => cases h; exact .inl ⟨rfl, rfl, rfl⟩
  | some p =>
    simp only [Tree.emit] at h
    cases hs : t.store p (Utf8.encode text) with
    | error e => rw [hs] at h; cases h
    | ok t' =>
      rw [hs] at h
      cases h
      exact .inr ⟨p, rfl, rfl, Tree.store_eq_ok ha hs⟩

/-! ## The whole program -/

namespace Program

theorem execute_run (env : Environment) (t : Tree) {argv : List Bytes} {args : Arguments}
    (hp : CommandLine.parse argv = .ok (.run args)) :
    ((execute env argv t).exit = 0 ↔ (t.run args).result = .ok ()) ∧
      (execute env argv t).stdout = (t.run args).stdout ∧
      (execute env argv t).tree = (t.run args).tree := by
  unfold execute
  rw [hp]
  refine ⟨?_, rfl, rfl⟩
  cases hr : (t.run args).result with
  | ok u => simp [hr]
  | error f => simp [hr]

theorem execute_failed {env : Environment} {argv : List Bytes} {t : Tree}
    (h : (execute env argv t).exit ≠ 0) :
    (execute env argv t).stdout = "" ∧ (execute env argv t).tree = t := by
  cases hp : CommandLine.parse argv with
  | error e => unfold execute; rw [hp]; exact ⟨rfl, rfl⟩
  | ok request =>
    cases request with
    | display d =>
      unfold execute at h
      rw [hp] at h
      exact absurd rfl h
    | run args =>
      obtain ⟨hx, ho, ht⟩ := execute_run env t hp
      rw [ho, ht]
      cases hr : (t.run args).result with
      | ok u => exact absurd (hx.mpr hr) h
      | error f => exact Tree.run_error hr

/-- **A program that fails has done nothing, and one that succeeds has emitted
the database and nothing else.** Without an output path the tree stays and the
database is printed. With one, nothing is printed; the path leads to a file,
there already or still to be created, and afterwards that file holds the
database, while every other path of the tree has what it had. -/
theorem execute_effects (env : Environment) (argv : List Bytes) {t : Tree} (ha : t.Anchored)
    {r : Report} (hr : execute env argv t = r) :
    (r.exit ≠ 0 → r.stdout = "" ∧ r.tree = t) ∧
    ∀ args, CommandLine.parse argv = .ok (.run args) → r.exit = 0 →
      ∃ s, survey args t.surroundings = .ok s ∧
        (args.output = none → r.stdout = s.database.render ∧ r.tree = t) ∧
        ∀ p, args.output = some p → ¬ t.LeadsToPipe p →
          r.stdout = "" ∧
          ∃ dir n, t.LeadsToFile .follow p dir n ∧
            r.tree.load p = .ok (Utf8.encode s.database.render) ∧
            r.tree.current = t.current ∧
            ∀ q, r.tree.root.shapeAt q =
              if q = dir ++ [n] then some (.file (Utf8.encode s.database.render))
              else t.root.shapeAt q := by
  subst hr
  refine ⟨execute_failed, ?_⟩
  intro args hp h
  obtain ⟨hx, ho, ht⟩ := execute_run env t hp
  obtain ⟨s, hs, he⟩ := Tree.run_ok (hx.mp h)
  rw [ho, ht]
  refine ⟨s, hs, ?_, ?_⟩
  · intro hn
    rcases Tree.emit_eq_ok ha he with ⟨_, hout, htree⟩ | ⟨p, hp', _⟩
    · exact ⟨hout, htree⟩
    · rw [hn] at hp'; cases hp'
  · intro p hp' hn
    rcases Tree.emit_eq_ok ha he with ⟨hno, _⟩ | ⟨q, hq, hout, hcases⟩
    · rw [hp'] at hno; cases hno
    · rw [hp'] at hq
      cases hq
      rcases hcases with ⟨hpipe, _⟩ | ⟨dir, n, hl, htree⟩
      · exact absurd hpipe hn
      · rw [htree]
        refine ⟨hout, dir, n, hl.follow, ?_, rfl, ?_⟩
        · exact Tree.load_of_resolve (hl.follow.resolve_written ha _)
        · exact Node.shapeAt_write (hl.slot ha) _

/-- A database that goes through a dangling link into another directory. -/
theorem execute_effects_dangling :
    let t : Tree := { root := .dir [(Utf8.encode "a.hh", .file []), (Utf8.encode "s", .empty),
      (Utf8.encode "o", .link (Utf8.encode "s/d"))] }
    let r := execute {} [Utf8.encode "-o", Utf8.encode "o"] t
    t.Anchored ∧ r.exit = 0 ∧ r.stdout = "" ∧
      ∃ data, r.tree.load (Utf8.encode "o") = .ok data ∧
        r.tree.root.shapeAt [Utf8.encode "s", Utf8.encode "d"] = some (.file data) := by
  intro t r
  have ha : t.Anchored := rfl
  have hexit : r.exit = 0 := by decide +kernel
  have hparse : CommandLine.parse [Utf8.encode "-o", Utf8.encode "o"] =
      .ok (.run { output := some (Utf8.encode "o") }) := rfl
  have hlink : t.resolve .follow (Utf8.encode "o") =
      .ok (.absent [Utf8.encode "s"] (Utf8.encode "d")) := rfl
  have hpipe : ¬ t.LeadsToPipe (Utf8.encode "o") := by
    intro ⟨dir, n, h⟩
    rw [hlink] at h
    cases h
  obtain ⟨_, hrun⟩ := execute_effects {} [Utf8.encode "-o", Utf8.encode "o"] ha rfl
  obtain ⟨s, _, _, hfile⟩ := hrun _ hparse hexit
  obtain ⟨hout, dir, n, hl, hload, _, hshape⟩ := hfile _ rfl hpipe
  have hplace : [Utf8.encode "s", Utf8.encode "d"] = dir ++ [n] := by
    rcases hl with hl | ⟨old, hl⟩
    · rw [hlink] at hl
      cases hl
      rfl
    · rw [hlink] at hl
      cases hl
  refine ⟨ha, hexit, hout, _, hload, ?_⟩
  rw [hshape, if_pos hplace]

end Program
end HeaderDb
