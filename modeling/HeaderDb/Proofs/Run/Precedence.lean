import HeaderDb.Proofs.Run.Effects
import HeaderDb.Proofs.Settings.Document
import HeaderDb.Proofs.Tree.Elsewhere

/-! # Settings from a file and from the arguments

A run looks into its settings file once, and afterwards only the compiler, the
flags and the pattern that it has settled on matter. Two runs that settle on the
same have the same outcome, on trees that differ in that file alone. So a value
means the same wherever it is given, and one that the arguments give hides the
value in the file. -/

namespace HeaderDb

/-! ## The same choices -/

/-- Surveys that settle on the same template and pattern, and find the same
directory, are the same. -/
theorem survey_congr {args args' : Arguments} {s s' : Surroundings} {settings settings' : Settings}
    (hs : args.settings s = .ok settings) (hs' : args'.settings s' = .ok settings')
    (ht : settings'.template args'.compiler = settings.template args.compiler)
    (hp : settings'.patternOr args'.pattern = settings.patternOr args.pattern)
    (hd : args'.directory = args.directory) (hu : args'.unsorted = args.unsorted)
    (hc : s'.currentDirectory = s.currentDirectory) (hl : ∀ p, s'.list p = s.list p) :
    survey args' s' = survey args s := by
  unfold survey
  simp only [hs, hs', ht, hp, hd, hu, hc, hl]

/-- Outcomes on trees that differ in the file `n` in `dir`: the same result,
output and notes, and the same at every other path, also where the output path
leads to. -/
structure Outcome.SameElsewhere (dir : List Name) (n : Name) (output : Option Bytes)
    (o o' : Outcome) : Prop where
  result : o'.result = o.result
  stdout : o'.stdout = o.stdout
  notes : o'.notes = o.notes
  tree : Tree.SameElsewhere dir n o.tree o'.tree
  written : ∀ p, output = some p → o'.tree.load p = o.tree.load p

/-- The same survey has the same outcome, unless it is written to the file in
which the trees differ. -/
theorem Tree.run_sameElsewhere {t t' : Tree} {dir : List Name} {n : Name}
    (h : Tree.SameElsewhere dir n t t') (ha : t.Anchored) {args args' : Arguments}
    (hs : survey args' t'.surroundings = survey args t.surroundings)
    (ho : args'.output = args.output) (hv : args'.verbose = args.verbose)
    (hn : ∀ p, args.output = some p → ¬ t.LeadsToFile .follow p dir n) :
    (t.run args).SameElsewhere dir n args.output (t'.run args') := by
  have hsame : ∀ p, args.output = some p → t'.load p = t.load p :=
    fun p hp => h.load_eq (hn p hp)
  unfold run
  rw [hs, ho, hv]
  cases survey args t.surroundings with
  | error f => exact ⟨rfl, rfl, rfl, h, hsame⟩
  | ok s =>
    cases hout : args.output with
    | none => exact ⟨rfl, rfl, rfl, h, nofun⟩
    | some p =>
      have hst := h.store ha (hn p hout) (Utf8.encode s.database.render)
      simp only [emit]
      generalize t.store p (Utf8.encode s.database.render) = r at hst ⊢
      generalize t'.store p (Utf8.encode s.database.render) = r' at hst ⊢
      cases hst with
      | error e => exact ⟨rfl, rfl, rfl, h, hout ▸ hsame⟩
      | ok hu =>
        refine ⟨rfl, rfl, rfl, hu.1, fun q hq => ?_⟩
        cases hq
        exact hu.2

/-! ## The same settings -/

theorem Arguments.settings_of_writtenIn {t : Tree} (ha : t.Anchored) {args : Arguments}
    {path : Bytes} (hc : args.config = some path) {dir : List Name} {n : Name} {old : Bytes}
    (hr : t.resolve .follow path = .ok (.entry dir n (.file old))) {s : Settings}
    {document : String} (hw : s.WrittenIn document) :
    args.settings (t.written dir n (Utf8.encode document)).surroundings = .ok s := by
  have hl : t.LeadsToFile .follow path dir n := .inr ⟨old, hr⟩
  have hload := Tree.load_of_resolve (hl.resolve_written ha (Utf8.encode document))
  simp only [settings, hc, Tree.surroundings, hload, readSettings, Utf8.decode?_encode,
    Settings.parse_writtenIn hw]

/-- Runs that read settings from one file, and settle on the same. -/
theorem Tree.run_writtenIn {t : Tree} (ha : t.Anchored) {path : Bytes} {dir : List Name}
    {n : Name} {old : Bytes} (hr : t.resolve .follow path = .ok (.entry dir n (.file old)))
    {args args' : Arguments} (hc : args.config = some path) (hc' : args'.config = some path)
    (hd : args'.directory = args.directory) (hu : args'.unsorted = args.unsorted)
    (ho : args'.output = args.output) (hv : args'.verbose = args.verbose)
    (hn : ∀ p, args.output = some p → ¬ t.LeadsToFile .follow p dir n)
    {s s' : Settings} {document document' : String} (hw : s.WrittenIn document)
    (hw' : s'.WrittenIn document')
    (ht : s'.template args'.compiler = s.template args.compiler)
    (hp : s'.patternOr args'.pattern = s.patternOr args.pattern) :
    ((t.written dir n (Utf8.encode document)).run args).SameElsewhere dir n args.output
      ((t.written dir n (Utf8.encode document')).run args') := by
  have hf : t.root.get? (dir ++ [n]) = some (.file old) := (resolve_holds ha hr).1
  have hwritten := sameElsewhere_written hf (Utf8.encode document)
  have hsame := hwritten.symm.trans (sameElsewhere_written hf (Utf8.encode document'))
  have hnames (q : List Name) : (t.written dir n (Utf8.encode document')).root.namesAt q =
      (t.written dir n (Utf8.encode document)).root.namesAt q :=
    (Node.namesAt_write hf _ q).trans (Node.namesAt_write hf _ q).symm
  refine run_sameElsewhere hsame (hwritten.anchored ha) ?_ ho hv ?_
  · exact survey_congr (Arguments.settings_of_writtenIn ha hc hr hw)
      (Arguments.settings_of_writtenIn ha hc' hr hw') ht hp hd hu rfl (hsame.list_eq hnames)
  · exact fun p hout hlead => hn p hout (hwritten.symm.leadsToFile hlead)

/-- **A setting means the same in the file and among the arguments, and the
arguments win.** The first part moves the compiler and the pattern from the file
to the arguments. In the second, two files may differ in what the arguments give.
Every document that assigns the settings will do, and there always is one. -/
theorem Tree.run_settings {t : Tree} (ha : t.Anchored) {path : Bytes} {dir : List Name} {n : Name}
    {old : Bytes} (hr : t.resolve .follow path = .ok (.entry dir n (.file old)))
    {args : Arguments} (hc : args.config = some path)
    (hn : ∀ p, args.output = some p → ¬ t.LeadsToFile .follow p dir n) :
    (∀ (compiler : Option String) (flags : Option (List String)) (pattern : Option String)
      (document document' : String),
      Settings.WrittenIn ⟨compiler, flags, pattern⟩ document →
      Settings.WrittenIn ⟨none, flags, none⟩ document' →
      ((t.written dir n (Utf8.encode document)).run
        { args with compiler := none, pattern := none }).SameElsewhere dir n args.output
      ((t.written dir n (Utf8.encode document')).run { args with compiler, pattern })) ∧
    (∀ (s s' : Settings) (document document' : String),
      s.WrittenIn document → s'.WrittenIn document' → s'.flags = s.flags →
      (args.compiler = none → s'.compiler = s.compiler) →
      (args.pattern = none → s'.pattern = s.pattern) →
      ((t.written dir n (Utf8.encode document)).run args).SameElsewhere dir n args.output
      ((t.written dir n (Utf8.encode document')).run args)) ∧
    ∀ s : Settings, ∃ document, s.WrittenIn document := by
  refine ⟨?_, ?_, fun s => ⟨_, s.writtenIn_document⟩⟩
  · intro compiler flags pattern document document' hw hw'
    have hfile : { args with compiler := none, pattern := none }.config = some path := hc
    have hgiven : { args with compiler, pattern }.config = some path := hc
    refine run_writtenIn ha hr hfile hgiven rfl rfl rfl rfl hn hw hw' ?_ ?_
    · simp [Settings.template]
    · simp [Settings.patternOr]
  · intro s s' document document' hw hw' hflags hcompiler hpattern
    refine run_writtenIn ha hr hc hc rfl rfl rfl rfl hn hw hw' ?_ ?_
    · simp only [Settings.template, hflags]
      cases hg : args.compiler with
      | none => rw [hcompiler hg]
      | some c => rfl
    · unfold Settings.patternOr
      cases hg : args.pattern with
      | none => rw [hpattern hg]
      | some p => rfl

/-- A compiler and a pattern that move from the settings file to the arguments,
and a pattern there that is no pattern at all. -/
theorem Tree.run_settings_output :
    let t : Tree := { root := .dir [(Utf8.encode "a.hh", .file []), (Utf8.encode "s", .file [])] }
    let args : Arguments := { config := some (Utf8.encode "s"), output := some (Utf8.encode "o") }
    let inFile (s : Settings) := t.written [] (Utf8.encode "s")
      (Utf8.encode (Toml.document s.assignments))
    let given : Arguments := { args with compiler := some "cc", pattern := some "a*" }
    t.Anchored ∧
      t.resolve .follow (Utf8.encode "s") = .ok (.entry [] (Utf8.encode "s") (.file [])) ∧
      ((inFile ⟨some "cc", some [], some "a*"⟩).run args).result.isOk = true ∧
      ((inFile { flags := some [] }).run given).tree.load (Utf8.encode "o") =
        ((inFile ⟨some "cc", some [], some "a*"⟩).run args).tree.load (Utf8.encode "o") ∧
      ((inFile { pattern := some "[" }).run given).result = ((inFile {}).run given).result := by
  intro t args inFile given
  have ha : t.Anchored := rfl
  have hr : t.resolve .follow (Utf8.encode "s") =
      .ok (.entry [] (Utf8.encode "s") (.file [])) := rfl
  have hout : t.resolve .follow (Utf8.encode "o") = .ok (.absent [] (Utf8.encode "o")) := rfl
  have hn : ∀ p, args.output = some p → ¬ t.LeadsToFile .follow p [] (Utf8.encode "s") := by
    intro p hp hl
    cases hp
    rcases hl with hl | ⟨old, hl⟩
    · rw [hout] at hl
      exact absurd (Spot.absent.inj (Except.ok.inj hl)).2 (by decide)
    · rw [hout] at hl
      cases hl
  obtain ⟨hmoved, _, _⟩ := run_settings ha hr rfl hn
  obtain ⟨_, hhidden, _⟩ := run_settings ha hr (show given.config = _ from rfl) hn
  have hsame := hmoved (some "cc") (some []) (some "a*") _ _ (Settings.writtenIn_document _)
    (Settings.writtenIn_document _)
  have hsame' := hhidden {} { pattern := some "[" } _ _ (Settings.writtenIn_document _)
    (Settings.writtenIn_document _) rfl nofun nofun
  exact ⟨ha, hr, by decide +kernel, hsame.written _ rfl, hsame'.result⟩

end HeaderDb
