import Mathlib.Data.List.Nodup
import HeaderDb.Proofs.CommandLine.Spelling

/-! # Arguments from command lines

The arguments are known by the options that they give. An option that is not
given yet adds itself and changes nothing else, and one that is given already
cannot be given again; so a command line is read exactly if it gives each option
once, and its order and spelling do not matter. -/

namespace HeaderDb.CommandLine

/-! ## What options do -/

/-- The value that the arguments have for a setting. -/
def valueOf (args : Arguments) : Setting → Option Bytes
  | .directory => args.directory
  | .pattern => args.pattern.map Utf8.encode
  | .compiler => args.compiler.map Utf8.encode
  | .config => args.config
  | .output => args.output

def raised (args : Arguments) : Flag → Bool
  | .unsorted => args.unsorted
  | .verbose => args.verbose

/-- The arguments give an option. -/
def Gives (args : Arguments) : Given → Prop
  | .setting s value => valueOf args s = some value
  | .flag f => raised args f = true

/-- Values that a setting can have: paths are not empty, texts are valid. -/
def Valid : Given → Prop
  | .setting .pattern value => ∃ s, value = Utf8.encode s
  | .setting .compiler value => ∃ s, value = Utf8.encode s
  | .setting _ value => value ≠ []
  | .flag _ => True

theorem map_pathValue {s : Setting} {value : Bytes} {f : Bytes → Arguments} {args : Arguments} :
    (pathValue s value).map f = .ok args ↔ value ≠ [] ∧ f value = args := by
  unfold pathValue
  cases value <;> simp [Except.map]

theorem map_textValue {value : Bytes} {f : String → Arguments} {args : Arguments} :
    (textValue value).map f = .ok args ↔ ∃ v, value = Utf8.encode v ∧ f v = args := by
  simp only [eq_comm (a := value), ← Utf8.decode?_eq_some_iff]
  unfold textValue
  cases Utf8.decode? value <;> simp [Except.map]

/-- Arguments are known by what they give. -/
theorem ext_gives {a b : Arguments} (h : ∀ g, Gives a g ↔ Gives b g) : a = b := by
  have hv (s : Setting) : valueOf a s = valueOf b s := Option.ext fun v => h (.setting s v)
  have hf (f : Flag) : raised a f = raised b f := Bool.eq_iff_iff.mpr (h (.flag f))
  have text {x y : Option String} (e : x.map Utf8.encode = y.map Utf8.encode) : x = y :=
    Option.map_injective (fun _ _ => Utf8.encode_injective) e
  obtain ⟨d, p, c, f, o, u, v⟩ := a
  obtain rfl : d = _ := hv .directory
  obtain rfl : p = _ := text (hv .pattern)
  obtain rfl : c = _ := text (hv .compiler)
  obtain rfl : f = _ := hv .config
  obtain rfl : o = _ := hv .output
  obtain rfl : u = _ := hf .unsorted
  obtain rfl : v = _ := hf .verbose
  rfl

theorem given_eq (args : Arguments) (s : Setting) : given args s = (valueOf args s).isSome := by
  cases s <;> simp [given, valueOf]

/-- An option that is given already cannot be given again, whatever its value. -/
theorem give_again {args : Arguments} {g g' : Given} (h : Gives args g')
    (hs : g'.switch = g.switch) : give args g = .error (.repeated g.switch) := by
  cases g with
  | setting s value =>
    cases g' with
    | flag f => cases hs
    | setting s' value' =>
      cases hs
      exact if_pos (by rw [given_eq, show valueOf args s = some value' from h]; rfl)
  | flag f =>
    cases g' with
    | setting s' value' => cases hs
    | flag f' =>
      cases hs
      cases f <;> exact if_pos h

theorem valid_of_give {args args' : Arguments} {g : Given} (h : give args g = .ok args') :
    Valid g := by
  cases g with
  | flag f => trivial
  | setting s value =>
    simp only [give, assign] at h
    split at h
    · cases h
    · cases s <;> simp only [map_pathValue, map_textValue] at h
      all_goals first | exact h.1 | exact h.imp fun _ => And.left

theorem gives_set {args args' : Arguments} {s : Setting} {value : Bytes}
    (hn : valueOf args s = none)
    (hs : ∀ o, valueOf args' o = if o = s then some value else valueOf args o)
    (hf : ∀ f, raised args' f = raised args f) (g : Given) :
    Gives args' g ↔ g = .setting s value ∨ Gives args g := by
  cases g with
  | flag f => simp [Gives, hf]
  | setting o v =>
    simp only [Gives, hs, Given.setting.injEq]
    by_cases ho : o = s
    · simp [ho, hn, eq_comm]
    · simp [ho]

theorem gives_raised {args args' : Arguments} {f : Flag}
    (hs : ∀ s, valueOf args' s = valueOf args s)
    (hf : ∀ o, raised args' o = (decide (o = f) || raised args o)) (g : Given) :
    Gives args' g ↔ g = .flag f ∨ Gives args g := by
  cases g <;> simp [Gives, hs, hf]

/-- An option that is not given yet can be given any valid value, and nothing
else changes. -/
theorem give_new {args : Arguments} {g : Given} (hv : Valid g)
    (hn : ∀ g', Gives args g' → g'.switch ≠ g.switch) :
    ∃ args', give args g = .ok args' ∧ ∀ g', Gives args' g' ↔ g' = g ∨ Gives args g' := by
  cases g with
  | setting s value =>
    have hnone : valueOf args s = none :=
      Option.eq_none_iff_forall_ne_some.mpr fun v h => hn (.setting s v) h rfl
    have hg : ¬ given args s = true := by simp [given_eq, hnone]
    simp only [give, assign, if_neg hg]
    cases s <;> simp only [map_pathValue, map_textValue, Valid] at hv ⊢
    case pattern | compiler =>
      obtain ⟨v, rfl⟩ := hv
      exact ⟨_, ⟨v, rfl, rfl⟩, gives_set hnone
        (fun o => by cases o <;> rfl) fun f => by cases f <;> rfl⟩
    all_goals
      exact ⟨_, ⟨hv, rfl⟩, gives_set hnone
        (fun o => by cases o <;> rfl) fun f => by cases f <;> rfl⟩
  | flag f =>
    have hf : ¬ raised args f = true := fun h => hn (.flag f) h rfl
    cases f
    all_goals
      exact ⟨_, if_neg hf, gives_raised (fun s => by cases s <;> rfl) fun o => by cases o <;> rfl⟩

theorem give_eq_ok {args args' : Arguments} {g : Given} (h : give args g = .ok args') :
    Valid g ∧ (∀ g', Gives args g' → g'.switch ≠ g.switch) ∧
      ∀ g', Gives args' g' ↔ g' = g ∨ Gives args g' := by
  have hv := valid_of_give h
  have hn (g' : Given) (hg' : Gives args g') : g'.switch ≠ g.switch := by
    intro hs
    rw [give_again hg' hs] at h
    cases h
  obtain ⟨_, he, ha⟩ := give_new hv hn
  rw [h] at he
  cases he
  exact ⟨hv, hn, ha⟩

/-- Options are given one after another as long as all are valid and none is
given twice. -/
theorem give_all {gs : List Given} (hv : ∀ g ∈ gs, Valid g) (hd : (gs.map Given.switch).Nodup)
    {args : Arguments} (hn : ∀ g ∈ gs, ∀ g', Gives args g' → g'.switch ≠ g.switch) :
    ∃ args', gs.foldlM give args = .ok args' ∧ ∀ g, Gives args' g ↔ g ∈ gs ∨ Gives args g := by
  induction gs generalizing args with
  | nil => exact ⟨args, rfl, by simp⟩
  | cons g gs ih =>
    rw [List.forall_mem_cons] at hv hn
    rw [List.map_cons, List.nodup_cons] at hd
    obtain ⟨args₁, he, ha⟩ := give_new hv.1 hn.1
    have hn' : ∀ k ∈ gs, ∀ g', Gives args₁ g' → g'.switch ≠ k.switch := by
      intro k hk g' hg'
      rcases (ha g').mp hg' with rfl | hg'
      · exact fun hs => hd.1 (hs ▸ List.mem_map_of_mem hk)
      · exact hn.2 k hk g' hg'
    obtain ⟨args₂, hf, hb⟩ := ih hv.2 hd.2 hn'
    refine ⟨args₂, ?_, fun k => ?_⟩
    · rw [List.foldlM_cons, he]
      exact hf
    · rw [hb, ha, List.mem_cons, or_left_comm, or_assoc]

/-- What has been given stays given, so nothing can be given again later. -/
theorem give_all_distinct {gs : List Given} {args args' : Arguments}
    (h : gs.foldlM give args = .ok args') :
    (gs.map Given.switch).Nodup ∧ ∀ g ∈ gs, ∀ g', Gives args g' → g'.switch ≠ g.switch := by
  induction gs generalizing args with
  | nil => simp
  | cons g gs ih =>
    rw [List.foldlM_cons] at h
    cases he : give args g with
    | error e => rw [he] at h; cases h
    | ok args₁ =>
      rw [he] at h
      obtain ⟨_, hn, ha⟩ := give_eq_ok he
      obtain ⟨hd, hl⟩ := ih h
      rw [List.map_cons, List.nodup_cons, List.forall_mem_cons]
      refine ⟨⟨fun hm => ?_, hd⟩, hn, fun k hk g' hg' => hl k hk g' ((ha g').mpr (.inr hg'))⟩
      obtain ⟨k, hk, hs⟩ := List.mem_map.mp hm
      exact hl k hk g ((ha g).mpr (.inl rfl)) hs.symm

/-! ## Arguments as command lines -/

/-- A command line that spells each of the given options once. -/
def SpelledBy (args : Arguments) (argv : List Bytes) : Prop :=
  ∃ gs, gs.Nodup ∧ (∀ g, g ∈ gs ↔ Gives args g) ∧ SpellsAll gs argv

theorem eq_of_gives {args : Arguments} {g g' : Given} (h : Gives args g) (h' : Gives args g')
    (hs : g.switch = g'.switch) : g = g' := by
  cases g <;> cases g' <;> cases hs
  · rw [show _ = _ from Option.some.inj ((show valueOf args _ = _ from h).symm.trans h')]
  · rfl

/-- Paths that are not empty are all that arguments need to be given. -/
theorem valid_of_gives {args : Arguments}
    (hp : ∀ p, args.directory = some p ∨ args.config = some p ∨ args.output = some p → p ≠ [])
    {g : Given} (h : Gives args g) : Valid g := by
  cases g with
  | flag f => trivial
  | setting s v =>
    cases s with
    | directory => exact hp v (.inl h)
    | config => exact hp v (.inr (.inl h))
    | output => exact hp v (.inr (.inr h))
    | pattern | compiler =>
      obtain ⟨t, _, ht⟩ := Option.map_eq_some_iff.mp h
      exact ⟨t, ht.symm⟩

/-- **Every spelling of the arguments is read as these arguments, and one option
more than once is a mistake.** The repeated option may have any value, also one
that it could not have, and stand anywhere on the command line. -/
theorem parse_arguments {args : Arguments}
    (hp : ∀ p, args.directory = some p ∨ args.config = some p ∨ args.output = some p → p ≠ [])
    {argv : List Bytes} (h : SpelledBy args argv) :
    parse argv = .ok (.run args) ∧
    ∀ (g : Given) (words pre post : List Bytes), (∃ g', Gives args g' ∧ g'.switch = g.switch) →
      Spells g words → argv = pre ++ post →
      ∃ e, parse (pre ++ words ++ post) = .error e ∧ ∀ (env : Program.Environment) (t : Tree),
        Program.execute env (pre ++ words ++ post) t =
          ⟨2, "", Program.usageLine env.coloursUsage e, t⟩ := by
  obtain ⟨gs, hn, hg, hs⟩ := h
  have hd : (gs.map Given.switch).Nodup := hn.map_on fun g hg₁ g' hg₂ =>
    eq_of_gives ((hg g).mp hg₁) ((hg g').mp hg₂)
  have hnone (g : Given) : ¬ Gives {} g := by
    cases g with
    | setting s v => cases s <;> exact nofun
    | flag f => cases f <;> exact nofun
  constructor
  · obtain ⟨args', hf, ha⟩ := give_all (fun g h => valid_of_gives hp ((hg g).mp h)) hd
      fun _ _ g' h => absurd h (hnone g')
    obtain rfl : args' = args := ext_gives fun g => by simp [ha, hg, hnone]
    rw [parse, parse_spelled hs, State.settle, Except.bind, hf]
    rfl
  · intro g words pre post hrep hw he
    obtain ⟨e, hpe⟩ : ∃ e, parse (pre ++ words ++ post) = .error e := by
      rw [List.append_assoc]
      rcases hs.insert hw pre post he {} with herr | ⟨gs₁, gs₂, rfl, ha⟩
      · exact herr
      · rw [parse, parse_spelled ha, State.settle, Except.bind]
        cases hf : (gs₁ ++ g :: gs₂).foldlM give {} with
        | error e => exact ⟨e, rfl⟩
        | ok args' =>
          -- two options with one switch cannot both have been given
          obtain ⟨g', hg', hsw⟩ := hrep
          have hmem : g.switch ∈ (gs₁ ++ gs₂).map Given.switch :=
            hsw ▸ List.mem_map_of_mem ((hg g').mpr hg')
          have hdis := (give_all_distinct hf).1
          rw [List.map_append, List.map_cons, List.nodup_middle, List.nodup_cons,
            ← List.map_append] at hdis
          exact absurd hmem hdis.1
    refine ⟨e, hpe, fun env t => ?_⟩
    rw [Program.execute, hpe]

/-- A second `--verbose`, put where the pattern is waited for. -/
theorem parse_arguments_pattern :
    let args : Arguments := { pattern := some "=", verbose := true }
    let argv := [Utf8.encode "-v", Utf8.encode "--pattern", Utf8.encode "="]
    SpelledBy args argv ∧ parse argv = .ok (.run args) ∧
      ∃ e, parse [Utf8.encode "-v", Utf8.encode "--pattern", Utf8.encode "--verbose",
        Utf8.encode "="] = .error e := by
  intro args argv
  have hs : SpelledBy args argv := by
    refine ⟨[.flag .verbose, .setting .pattern (Utf8.encode "=")], by decide, fun g => ?_, ?_⟩
    · cases g with
      | setting s v => cases s <;> simp [Gives, valueOf, args, eq_comm]
      | flag f => cases f <;> simp [Gives, raised, args]
    · have hf : Spells (.flag .verbose) [Utf8.encode "-v"] := .flag (by decide)
      have hv : Spells (.setting .pattern (Utf8.encode "="))
          [Utf8.encode "--pattern", Utf8.encode "="] := .apart (by decide) (by decide)
      exact .cons hf (.cons hv .nil)
  have ⟨hr, hrep⟩ := parse_arguments (by simp [args]) hs
  obtain ⟨e, he, _⟩ := hrep (.flag .verbose) [Utf8.encode "--verbose"]
    [Utf8.encode "-v", Utf8.encode "--pattern"] [Utf8.encode "="] ⟨.flag .verbose, rfl, rfl⟩
    (.flag (by decide)) rfl
  exact ⟨hs, hr, e, he⟩

end HeaderDb.CommandLine
