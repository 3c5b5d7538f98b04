import HeaderDb.Proofs.Glob.Items
import HeaderDb.Proofs.Run.Listing

/-! # Why a run fails

A run takes six steps that can fail, one after another, and the first that fails
ends it. Each step is described by what it needs and by what is reported if that
is missing. So a run succeeds if every step has what it needs, and what it reports
otherwise depends on nothing that comes later than the step that fails. -/

namespace HeaderDb

/-- The steps of a run that can fail. -/
inductive Step where
  | settings
  | current
  | directory
  | pattern
  | listing
  | output
  deriving Repr, DecidableEq

/-- The place of a step in their order. -/
def Step.number : Step → Nat
  | .settings => 0
  | .current => 1
  | .directory => 2
  | .pattern => 3
  | .listing => 4
  | .output => 5

theorem Step.number_injective {a b : Step} (h : a.number = b.number) : a = b := by
  cases a <;> cases b <;> first | rfl | cases h

/-- What can come of a settings file. -/
theorem readSettings_cases (p : Bytes) (contents : Except OsError Bytes) :
    (∃ e, contents = .error e ∧ readSettings p contents = .error (.settings p (.os e))) ∨
    (∃ data, contents = .ok data ∧ (∀ document, data ≠ Utf8.encode document) ∧
      readSettings p contents = .error (.settings p .notUtf8)) ∨
    (∃ document e, contents = .ok (Utf8.encode document) ∧ Settings.parse document = .error e ∧
      readSettings p contents = .error (.settings p (.invalid document e))) ∨
    ∃ document settings, contents = .ok (Utf8.encode document) ∧
      Settings.parse document = .ok settings ∧ readSettings p contents = .ok settings := by
  unfold readSettings
  cases contents with
  | error e => exact .inl ⟨e, rfl, rfl⟩
  | ok data =>
    cases hd : Utf8.decode? data with
    | none =>
      refine .inr (.inl ⟨data, rfl, fun document he => ?_, by simp only [hd]⟩)
      rw [he, Utf8.decode?_encode] at hd
      cases hd
    | some document =>
      obtain rfl := Utf8.decode?_eq_some_iff.mp hd
      cases hp : Settings.parse document with
      | error e => exact .inr (.inr (.inl ⟨document, e, rfl, hp, by simp only [hd, hp]⟩))
      | ok settings => exact .inr (.inr (.inr ⟨document, settings, rfl, hp, by simp only [hd, hp]⟩))

namespace Tree

/-- What a step needs. A step that works on what an earlier one has found out
needs nothing where that has failed. -/
def Passes (t : Tree) (args : Arguments) : Step → Prop
  | .settings => ∀ p, args.config = some p → ∃ document settings,
      t.load p = .ok (Utf8.encode document) ∧ Settings.parse document = .ok settings
  | .current => t.current.removed = 0
  | .directory => ∀ path, workingDirectory t.currentDirectory args.directory = .ok path →
      ∃ directory, path = Utf8.encode directory
  | .pattern => ∀ settings, args.settings t.surroundings = .ok settings →
      Glob.IsPattern (settings.patternOr args.pattern)
  | .listing => ∀ path, workingDirectory t.currentDirectory args.directory = .ok path →
      ∃ place, t.resolve .follow path = .ok (.directory place)
  | .output => ∀ p, args.output = some p →
      ∃ spot, t.resolve .create p = .ok spot ∧ ∀ place, spot ≠ .directory place

/-- What is reported if a step does not have what it needs. -/
inductive Fault (t : Tree) (args : Arguments) : Step → Failure.Kind → String → Prop
  | unreadable {p : Bytes} {e : OsError} : args.config = some p → t.load p = .error e →
      Fault t args .settings (.ofOsError e) (Utf8.lossy p ++ ": " ++ e.message)
  | garbled {p data : Bytes} : args.config = some p → t.load p = .ok data →
      (∀ document, data ≠ Utf8.encode document) →
      Fault t args .settings .invalidData
        (Utf8.lossy p ++ ": " ++ "stream did not contain valid UTF-8")
  | invalid {p : Bytes} {document : String} {e : Settings.Error} : args.config = some p →
      t.load p = .ok (Utf8.encode document) → Settings.parse document = .error e →
      Fault t args .settings .other (Utf8.lossy p ++ ": " ++ e.message document)
  | removed : t.current.removed ≠ 0 →
      Fault t args .current .notFound OsError.notFound.message
  | nameless {path : Bytes} : workingDirectory t.currentDirectory args.directory = .ok path →
      (∀ directory, path ≠ Utf8.encode directory) →
      Fault t args .directory .invalidData (Utf8.lossy path ++ ": directory is not valid utf-8")
  | rejected {settings : Settings} {e : Glob.Error} : args.settings t.surroundings = .ok settings →
      Glob.parse (settings.patternOr args.pattern) = .error e →
      Fault t args .pattern .invalidInput (settings.patternOr args.pattern ++ ": " ++ e.message)
  | unlisted {path : Bytes} {e : OsError} :
      workingDirectory t.currentDirectory args.directory = .ok path → t.list path = .error e →
      Fault t args .listing (.ofOsError e) e.message
  | unopened {p : Bytes} {e : OsError} : args.output = some p →
      (∀ data, t.store p data = .error e) → Fault t args .output (.ofOsError e) e.message

/-- The steps before one have all that they need. -/
def Arrives (t : Tree) (args : Arguments) (step : Step) : Prop :=
  ∀ earlier, earlier.number < step.number → t.Passes args earlier

/-- The first step that does not have what it needs. -/
def StopsAt (t : Tree) (args : Arguments) (step : Step) : Prop :=
  t.Arrives args step ∧ ¬ t.Passes args step

/-- A step works on the same in two runs. What it asks of the system counts by the
answer. -/
def SameInputs (t : Tree) (args : Arguments) (t' : Tree) (args' : Arguments) : Step → Prop
  | .settings => args'.config = args.config ∧ ∀ p, args.config = some p → t'.load p = t.load p
  | .current => t'.current.removed = 0 ↔ t.current.removed = 0
  | .directory => workingDirectory t'.currentDirectory args'.directory =
      workingDirectory t.currentDirectory args.directory
  | .pattern => ∀ settings, args.settings t.surroundings = .ok settings →
      settings.patternOr args'.pattern = settings.patternOr args.pattern
  | .listing => ∀ path, workingDirectory t.currentDirectory args.directory = .ok path →
      t'.list path = t.list path
  | .output => args'.output = args.output ∧
      ∀ p, args.output = some p → t'.resolve .create p = t.resolve .create p

/-- Where a run ends if it fails, and with which failure. -/
inductive Ends (t : Tree) (args : Arguments) : Step → Failure → Prop
  | settings {f : Failure} (hs : args.settings t.surroundings = .error f) :
      Ends t args .settings f
  | current {settings : Settings} {e : OsError} (hs : args.settings t.surroundings = .ok settings)
      (hw : workingDirectory t.currentDirectory args.directory = .error e) :
      Ends t args .current (.os e)
  | directory {settings : Settings} {path : Bytes}
      (hs : args.settings t.surroundings = .ok settings)
      (hw : workingDirectory t.currentDirectory args.directory = .ok path)
      (hd : Utf8.decode? path = none) : Ends t args .directory (.directoryNotUtf8 path)
  | pattern {settings : Settings} {path : Bytes} {directory : String} {e : Glob.Error}
      (hs : args.settings t.surroundings = .ok settings)
      (hw : workingDirectory t.currentDirectory args.directory = .ok path)
      (hd : Utf8.decode? path = some directory)
      (hg : Glob.parse (settings.patternOr args.pattern) = .error e) :
      Ends t args .pattern (.pattern (settings.patternOr args.pattern) e)
  | listing {settings : Settings} {path : Bytes} {directory : String} {g : Glob} {e : OsError}
      (hs : args.settings t.surroundings = .ok settings)
      (hw : workingDirectory t.currentDirectory args.directory = .ok path)
      (hd : Utf8.decode? path = some directory)
      (hg : Glob.parse (settings.patternOr args.pattern) = .ok g)
      (hl : t.list path = .error e) : Ends t args .listing (.os e)
  | output {s : Survey} {p : Bytes} {e : OsError} (hs : survey args t.surroundings = .ok s)
      (ho : args.output = some p) (he : t.store p (Utf8.encode s.database.render) = .error e) :
      Ends t args .output (.os e)

section
variable {t t' : Tree} {args args' : Arguments}

/-! ## The end of a run -/

theorem surroundings_currentDirectory (t : Tree) :
    t.surroundings.currentDirectory = t.currentDirectory := rfl

theorem surroundings_list (t : Tree) (p : Bytes) : t.surroundings.list p = t.list p := rfl

theorem result_of_survey_error {f : Failure} (h : survey args t.surroundings = .error f) :
    (t.run args).result = .error f := by
  unfold run
  rw [h]

theorem Ends.result {step : Step} {f : Failure} (h : t.Ends args step f) :
    (t.run args).result = .error f := by
  cases h with
  | output hs ho he => simp only [run, hs, ho, emit, he, Except.map]
  | settings hs | current hs hw | directory hs hw hd | pattern hs hw hd hg
  | listing hs hw hd hg hl =>
    apply result_of_survey_error
    simp only [survey, scan, surroundings_currentDirectory, surroundings_list, *]

theorem ends_of_survey_error {f : Failure} (h : survey args t.surroundings = .error f) :
    ∃ step, t.Ends args step f := by
  unfold survey scan at h
  rw [surroundings_currentDirectory] at h
  split at h
  · next hs => cases h; exact ⟨_, .settings hs⟩
  · next settings hs =>
    split at h
    · next hw => cases h; exact ⟨_, .current hs hw⟩
    · next path hw =>
      split at h
      · next hd => cases h; exact ⟨_, .directory hs hw hd⟩
      · next directory hd =>
        dsimp only [surroundings_list] at h
        cases hg : Glob.parse (settings.patternOr args.pattern) with
        | error e => rw [hg] at h; cases h; exact ⟨_, .pattern hs hw hd hg⟩
        | ok g =>
          cases hl : t.list path with
          | error e => rw [hg, hl] at h; cases h; exact ⟨_, .listing hs hw hd hg hl⟩
          | ok entries => rw [hg, hl] at h; cases h

theorem emit_error {output : Option Bytes} {text : String} {e : OsError}
    (h : t.emit output text = .error e) :
    ∃ p, output = some p ∧ t.store p (Utf8.encode text) = .error e := by
  cases output with
  | none => cases h
  | some p =>
    simp only [emit] at h
    cases hs : t.store p (Utf8.encode text) with
    | error e' => rw [hs] at h; cases h; exact ⟨p, rfl, hs⟩
    | ok t' => rw [hs] at h; cases h

theorem ends_of_error {f : Failure} (h : (t.run args).result = .error f) :
    ∃ step, t.Ends args step f := by
  rcases t.run_cases args with ⟨f', hs, hr⟩ | ⟨s, e, hs, he, hr⟩ | ⟨s, _, _, _, _, hr⟩
  · rw [hr] at h
    cases h
    exact ends_of_survey_error hs
  · rw [hr] at h
    cases h
    obtain ⟨p, ho, he⟩ := emit_error he
    exact ⟨_, .output hs ho he⟩
  · rw [hr] at h
    cases h

/-! ## What the steps need -/

theorem passes_settings_iff :
    t.Passes args .settings ↔ ∃ settings, args.settings t.surroundings = .ok settings := by
  unfold Passes Arguments.settings
  cases hc : args.config with
  | none => exact iff_of_true nofun ⟨{}, rfl⟩
  | some p =>
    constructor
    · intro h
      obtain ⟨document, settings, hl, hp⟩ := h p rfl
      refine ⟨settings, ?_⟩
      simp only [surroundings, readSettings, hl, Utf8.decode?_encode, hp]
    · intro ⟨settings, h⟩ q hq
      cases hq
      have h : readSettings p (t.load p) = .ok settings := h
      rcases readSettings_cases p (t.load p) with ⟨e, _, hr⟩ | ⟨data, _, _, hr⟩ |
        ⟨document, e, _, _, hr⟩ | ⟨document, found, hl, hp, _⟩
      · rw [hr] at h; cases h
      · rw [hr] at h; cases h
      · rw [hr] at h; cases h
      · exact ⟨document, found, hl, hp⟩

theorem fault_settings {f : Failure} (h : args.settings t.surroundings = .error f) :
    t.Fault args .settings f.kind f.message := by
  unfold Arguments.settings at h
  cases hc : args.config with
  | none => rw [hc] at h; cases h
  | some p =>
    rw [hc] at h
    have h : readSettings p (t.load p) = .error f := h
    rcases readSettings_cases p (t.load p) with ⟨e, hl, hr⟩ | ⟨data, hl, hd, hr⟩ |
      ⟨document, e, hl, hp, hr⟩ | ⟨document, found, _, _, hr⟩
    · rw [hr] at h; cases h; exact .unreadable hc hl
    · rw [hr] at h; cases h; exact .garbled hc hl hd
    · rw [hr] at h; cases h; exact .invalid hc hl hp
    · rw [hr] at h; cases h

theorem workingDirectory_error_iff {e : OsError} :
    workingDirectory t.currentDirectory args.directory = .error e ↔
      t.current.removed ≠ 0 ∧ e = .notFound := by
  unfold currentDirectory
  by_cases h : t.current.removed ≠ 0
  · rw [if_pos h]
    simp [workingDirectory, Except.map, h, eq_comm]
  · rw [if_neg h]
    refine iff_of_false ?_ fun hn => h hn.1
    split <;> nofun

theorem passes_current_iff : t.Passes args .current ↔
    ∃ path, workingDirectory t.currentDirectory args.directory = .ok path := by
  constructor
  · intro h
    cases hw : workingDirectory t.currentDirectory args.directory with
    | error e => exact absurd h (workingDirectory_error_iff.mp hw).1
    | ok path => exact ⟨path, rfl⟩
  · intro ⟨path, h⟩
    exact live_of_workingDirectory h

theorem passes_directory_iff {path : Bytes}
    (hw : workingDirectory t.currentDirectory args.directory = .ok path) :
    t.Passes args .directory ↔ ∃ directory, Utf8.decode? path = some directory := by
  unfold Passes
  simp only [hw, Except.ok.injEq, forall_eq', Utf8.decode?_eq_some_iff]
  exact exists_congr fun _ => eq_comm

theorem passes_pattern_iff {settings : Settings}
    (hs : args.settings t.surroundings = .ok settings) :
    t.Passes args .pattern ↔ ∃ g, Glob.parse (settings.patternOr args.pattern) = .ok g := by
  unfold Passes
  simp only [hs, Except.ok.injEq, forall_eq', Glob.isPattern_iff_parse]

theorem passes_listing_iff {path : Bytes}
    (hw : workingDirectory t.currentDirectory args.directory = .ok path) :
    t.Passes args .listing ↔ ∃ entries, t.list path = .ok entries := by
  unfold Passes
  simp only [hw, Except.ok.injEq, forall_eq', list_eq_ok_iff, names_eq_ok_iff]
  constructor
  · intro ⟨place, h⟩
    exact ⟨_, _, ⟨place, h, rfl⟩, rfl⟩
  · intro ⟨_, _, ⟨place, h, _⟩, _⟩
    exact ⟨place, h⟩

/-- A path that cannot be opened cannot be, whatever is to be written. -/
theorem store_error_iff {p data : Bytes} {e : OsError} : t.store p data = .error e ↔
    t.resolve .create p = .error e ∨
      (∃ place, t.resolve .create p = .ok (.directory place)) ∧ e = .isADirectory := by
  unfold store
  split
  · next e' h => simp [h]
  · next place h => simp [h, eq_comm]
  · next h => simp [h]
  · next h => simp [h]
  · next h => simp [h]

theorem passes_output_iff {p : Bytes} (ho : args.output = some p) (data : Bytes) :
    t.Passes args .output ↔ ∀ e, t.store p data ≠ .error e := by
  unfold Passes
  simp only [ho, Option.some.injEq, forall_eq', ne_eq, store_error_iff]
  cases t.resolve .create p with
  | error e => exact iff_of_false (fun ⟨_, h, _⟩ => nomatch h) fun h => h e (.inl rfl)
  | ok spot =>
    simp only [Except.ok.injEq, exists_eq_left', reduceCtorEq, false_or]
    exact ⟨fun h _ ⟨⟨place, hp⟩, _⟩ => h place hp, fun h place hp => h _ ⟨⟨place, hp⟩, rfl⟩⟩

/-! ## The first step that fails -/

theorem Arrives.next {a b : Step} (h : t.Arrives args a) (hn : b.number = a.number + 1)
    (ha : t.Passes args a) : t.Arrives args b := by
  intro earlier hlt
  rcases Nat.lt_or_eq_of_le (Nat.le_of_lt_succ (hn ▸ hlt)) with hlt | heq
  · exact h earlier hlt
  · rw [Step.number_injective heq]
    exact ha

section
variable {settings : Settings} {path : Bytes} {directory : String} {g : Glob} {s : Survey}

theorem arrives_settings : t.Arrives args .settings := nofun

theorem arrives_current (hs : args.settings t.surroundings = .ok settings) :
    t.Arrives args .current :=
  arrives_settings.next rfl (passes_settings_iff.mpr ⟨settings, hs⟩)

theorem arrives_directory (hs : args.settings t.surroundings = .ok settings)
    (hw : workingDirectory t.currentDirectory args.directory = .ok path) :
    t.Arrives args .directory :=
  (arrives_current hs).next rfl (passes_current_iff.mpr ⟨path, hw⟩)

theorem arrives_pattern (hs : args.settings t.surroundings = .ok settings)
    (hw : workingDirectory t.currentDirectory args.directory = .ok path)
    (hd : Utf8.decode? path = some directory) : t.Arrives args .pattern :=
  (arrives_directory hs hw).next rfl ((passes_directory_iff hw).mpr ⟨directory, hd⟩)

theorem arrives_listing (hs : args.settings t.surroundings = .ok settings)
    (hw : workingDirectory t.currentDirectory args.directory = .ok path)
    (hd : Utf8.decode? path = some directory)
    (hg : Glob.parse (settings.patternOr args.pattern) = .ok g) : t.Arrives args .listing :=
  (arrives_pattern hs hw hd).next rfl ((passes_pattern_iff hs).mpr ⟨g, hg⟩)

theorem arrives_output (hs : survey args t.surroundings = .ok s) : t.Arrives args .output := by
  obtain ⟨settings, path, directory, g, entries, hset, hw, hd, hg, hl, _⟩ := survey_eq_ok_iff.mp hs
  exact (arrives_listing hset hw hd hg).next rfl ((passes_listing_iff hw).mpr ⟨entries, hl⟩)

end

theorem Ends.fault {step : Step} {f : Failure} (h : t.Ends args step f) :
    t.Fault args step f.kind f.message := by
  cases h with
  | settings hs => exact fault_settings hs
  | current hs hw =>
    obtain ⟨hr, rfl⟩ := workingDirectory_error_iff.mp hw
    exact .removed hr
  | directory hs hw hd =>
    refine .nameless hw fun directory he => ?_
    rw [he, Utf8.decode?_encode] at hd
    cases hd
  | pattern hs hw hd hg => exact .rejected hs hg
  | listing hs hw hd hg hl => exact .unlisted hw hl
  | output hs ho he => exact .unopened ho fun data => store_error_iff.mpr (store_error_iff.mp he)

theorem Ends.stopsAt {step : Step} {f : Failure} (h : t.Ends args step f) :
    t.StopsAt args step := by
  cases h with
  | settings hs =>
    refine ⟨arrives_settings, ?_⟩
    rw [passes_settings_iff, hs]
    nofun
  | current hs hw =>
    refine ⟨arrives_current hs, ?_⟩
    rw [passes_current_iff, hw]
    nofun
  | directory hs hw hd =>
    refine ⟨arrives_directory hs hw, ?_⟩
    rw [passes_directory_iff hw, hd]
    nofun
  | pattern hs hw hd hg =>
    refine ⟨arrives_pattern hs hw hd, ?_⟩
    rw [passes_pattern_iff hs, hg]
    nofun
  | listing hs hw hd hg hl =>
    refine ⟨arrives_listing hs hw hd hg, ?_⟩
    rw [passes_listing_iff hw, hl]
    nofun
  | output hs ho he =>
    refine ⟨arrives_output hs, ?_⟩
    rw [passes_output_iff ho]
    exact fun h => h _ he

/-- Every step of a run that succeeds has had what it needs. -/
theorem passes_of_ok (h : (t.run args).result = .ok ()) (step : Step) : t.Passes args step := by
  obtain ⟨s, hs, he⟩ := run_ok h
  have hout : t.Passes args .output := by
    cases ho : args.output with
    | none => simp only [Passes, ho, reduceCtorEq, false_implies, implies_true]
    | some p =>
      rw [passes_output_iff ho (Utf8.encode s.database.render)]
      intro e hstore
      rw [ho, emit, hstore] at he
      cases he
  cases step with
  | output => exact hout
  | settings | current | directory | pattern | listing => exact arrives_output hs _ (by decide)

/-- There is but one first step that fails. -/
theorem StopsAt.unique {a b : Step} (ha : t.StopsAt args a) (hb : t.StopsAt args b) : a = b := by
  rcases Nat.lt_trichotomy a.number b.number with hlt | heq | hlt
  · exact absurd (hb.1 a hlt) ha.2
  · exact Step.number_injective heq
  · exact absurd (ha.1 b hlt) hb.2

/-! ## The same failure -/

theorem settings_same (h : t.SameInputs args t' args' .settings) :
    args'.settings t'.surroundings = args.settings t.surroundings := by
  obtain ⟨hc, hl⟩ := h
  unfold Arguments.settings
  rw [hc]
  cases hconfig : args.config with
  | none => rfl
  | some p => simp only [surroundings, hl p hconfig]

/-- A run ends alike where the steps up to its end have the same to work on. -/
theorem Ends.same {step : Step} {f : Failure} (h : t.Ends args step f)
    (hsame : ∀ s, s.number ≤ step.number → t.SameInputs args t' args' s) :
    t'.Ends args' step f := by
  have hset := settings_same (hsame .settings (Nat.zero_le _))
  cases h with
  | settings hs => exact .settings (hset.trans hs)
  | current hs hw =>
    obtain ⟨hr, rfl⟩ := workingDirectory_error_iff.mp hw
    have hr' : t'.current.removed ≠ 0 := fun h => hr ((hsame .current (by decide)).mp h)
    exact .current (hset.trans hs) (workingDirectory_error_iff.mpr ⟨hr', rfl⟩)
  | directory hs hw hd =>
    exact .directory (hset.trans hs) ((hsame .directory (by decide)).trans hw) hd
  | pattern hs hw hd hg =>
    have hp := hsame .pattern (by decide) _ hs
    rw [← hp] at hg ⊢
    exact .pattern (hset.trans hs) ((hsame .directory (by decide)).trans hw) hd hg
  | listing hs hw hd hg hl =>
    have hp := hsame .pattern (by decide) _ hs
    rw [← hp] at hg
    exact .listing (hset.trans hs) ((hsame .directory (by decide)).trans hw) hd hg
      ((hsame .listing (by decide) _ hw).trans hl)
  | output hs ho he =>
    obtain ⟨settings, path, directory, g, entries, hs, hw, hd, hg, hl, _⟩ := survey_eq_ok_iff.mp hs
    have hp := hsame .pattern (by decide) _ hs
    rw [← hp] at hg
    have hs' : survey args' t'.surroundings = .ok _ := survey_eq_ok_iff.mpr
      ⟨settings, path, directory, g, entries, hset.trans hs,
        (hsame .directory (by decide)).trans hw, hd, hg,
        (hsame .listing (by decide) _ hw).trans hl, rfl⟩
    obtain ⟨hout, hopen⟩ := hsame .output (by decide)
    refine .output hs' (hout.trans ho) (store_error_iff.mpr ?_)
    rw [hopen _ ho]
    exact store_error_iff.mp he

/-- **The first step that fails decides.** A run succeeds if and only if every step
has what it needs. Else it reports what the first step without it reports, and so
does every other run in which the steps up to that one have the same to work on. -/
theorem run_first_failure (t : Tree) (args : Arguments) :
    ((t.run args).result = .ok () ↔ ∀ step, t.Passes args step) ∧
    (∀ f, (t.run args).result = .error f →
      ∃ step, t.StopsAt args step ∧ t.Fault args step f.kind f.message) ∧
    ∀ step, t.StopsAt args step →
      ∃ f, (t.run args).result = .error f ∧ t.Fault args step f.kind f.message ∧
        ∀ t' args', (∀ s, s.number ≤ step.number → t.SameInputs args t' args' s) →
          (t'.run args').result = .error f := by
  refine ⟨⟨passes_of_ok, fun hall => ?_⟩, fun f hf => ?_, fun step hstop => ?_⟩
  · cases hr : (t.run args).result with
    | ok u => rfl
    | error f =>
      obtain ⟨step, he⟩ := ends_of_error hr
      exact absurd (hall step) he.stopsAt.2
  · obtain ⟨step, he⟩ := ends_of_error hf
    exact ⟨step, he.stopsAt, he.fault⟩
  · cases hr : (t.run args).result with
    | ok u => exact absurd (passes_of_ok hr step) hstop.2
    | error f =>
      obtain ⟨step', he⟩ := ends_of_error hr
      obtain rfl := he.stopsAt.unique hstop
      exact ⟨f, rfl, he.fault, fun t' args' hsame => (he.same hsame).result⟩

end

end Tree

/-- A pattern that is none, a directory that need not be there, and an output that
is a directory. -/
def Arguments.hopeless : Arguments :=
  { directory := some (Utf8.encode "d.hh"), pattern := some "[", output := some [Path.slash] }

/-- All of it is wrong in the empty tree and only the pattern where there is such a
directory and no output, but what is reported is the same. -/
theorem Tree.run_first_failure_pattern :
    ∃ f, (Tree.run {} .hopeless).result = .error f ∧ f.kind = .invalidInput ∧
      (Tree.decoy.run { Arguments.hopeless with output := none }).result = .error f := by
  have hs : Arguments.hopeless.settings (Tree.surroundings {}) = .ok {} := rfl
  have hw : workingDirectory (Tree.currentDirectory {}) Arguments.hopeless.directory =
      .ok (Utf8.encode "/d.hh") := rfl
  have hstop : Tree.StopsAt {} .hopeless .pattern := by
    refine ⟨Tree.arrives_pattern hs hw (Utf8.decode?_encode _), ?_⟩
    rw [Tree.passes_pattern_iff hs]
    nofun
  obtain ⟨f, hf, hfault, hsame⟩ := (Tree.run_first_failure {} .hopeless).2.2 .pattern hstop
  refine ⟨f, hf, ?_, hsame _ _ fun s hle => ?_⟩
  · generalize f.kind = kind, f.message = message at hfault
    cases hfault
    rfl
  · cases s with
    | settings => exact ⟨rfl, nofun⟩
    | current => exact Iff.rfl
    | directory => rfl
    | pattern => exact fun _ _ => rfl
    | listing | output => exact absurd hle (by decide)

end HeaderDb
