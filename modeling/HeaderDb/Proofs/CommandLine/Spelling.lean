import HeaderDb.Program

/-! # Command lines and the options that they spell

An option is spelled by one word or two, and a command line spells its options
one after another. Words are checked with a delay, but where all of them belong
to known options this makes no difference: `parse_spelled` turns a command line
into a fold over its options. -/

namespace HeaderDb.CommandLine

/-! ## Spellings -/

/-- An option as it is given, with its value if it takes one. -/
inductive Given where
  | setting (s : Setting) (value : Bytes)
  | flag (f : Flag)
  deriving Repr, DecidableEq

def Given.switch : Given → Switch
  | .setting s _ => .setting s
  | .flag f => .flag f

def longForms : List (Switch × String) :=
  [(.setting .directory, "--directory"), (.setting .pattern, "--pattern"),
   (.setting .compiler, "--compiler"), (.setting .config, "--config"),
   (.setting .output, "--output"), (.flag .unsorted, "--unsorted"), (.flag .verbose, "--verbose")]

def shortForms : List (Switch × String) :=
  [(.setting .directory, "-d"), (.setting .pattern, "-p"), (.setting .output, "-o"),
   (.flag .verbose, "-v")]

/-- The words that spell an option. A value may start with a dash only where it
stands in the word of its option. -/
inductive Spells : Given → List Bytes → Prop where
  | equals {s : Setting} {form : String} {value : Bytes} : (.setting s, form) ∈ longForms →
      Spells (.setting s value) [Utf8.encode form ++ 61 :: value]
  | apart {s : Setting} {form : String} {value : Bytes} :
      (.setting s, form) ∈ longForms ++ shortForms → value.head? ≠ some 45 →
      Spells (.setting s value) [Utf8.encode form, value]
  | attached {s : Setting} {form : String} {value : Bytes} : (.setting s, form) ∈ shortForms →
      value ≠ [] → value.head? ≠ some 61 → Spells (.setting s value) [Utf8.encode form ++ value]
  | flag {f : Flag} {form : String} : (.flag f, form) ∈ longForms ++ shortForms →
      Spells (.flag f) [Utf8.encode form]

/-- A command line that spells the given options one after another. -/
inductive SpellsAll : List Given → List Bytes → Prop where
  | nil : SpellsAll [] []
  | cons {g : Given} {gs : List Given} {words argv : List Bytes} :
      Spells g words → SpellsAll gs argv → SpellsAll (g :: gs) (words ++ argv)

/-! ## Words -/

theorem long_form {switch : Switch} {form : String} (h : (switch, form) ∈ longForms) :
    ∃ name, Utf8.encode form = 45 :: 45 :: name ∧ name ≠ [] ∧ 61 ∉ name ∧
      Switch.ofName? name = some switch := by
  have all : ∀ p ∈ longForms, Utf8.encode p.2 = 45 :: 45 :: Utf8.encode p.1.name ∧
      Utf8.encode p.1.name ≠ [] ∧ 61 ∉ Utf8.encode p.1.name ∧
      Switch.ofName? (Utf8.encode p.1.name) = some p.1 := by decide
  exact ⟨_, all _ h⟩

theorem short_form {switch : Switch} {form : String} (h : (switch, form) ∈ shortForms) :
    ∃ letter, Utf8.encode form = [45, letter] ∧ letter ≠ 45 ∧
      Switch.ofLetter? letter = some switch := by
  have all : ∀ p ∈ shortForms, Utf8.encode p.2 = [45, p.1.letter?.getD 0] ∧
      p.1.letter?.getD 0 ≠ 45 ∧ Switch.ofLetter? (p.1.letter?.getD 0) = some p.1 := by decide
  exact ⟨_, all _ h⟩

/-- A word that an option is taken by, with its value if the word holds one. -/
structure Takes (word : Bytes) (switch : Switch) (attached : Option Bytes) : Prop where
  not_dashes : word ≠ [45, 45]
  step : ∀ s : State, s.step word = s.take switch attached

/-- The name of an option ends before the first equals sign. -/
theorem split_name {name : Bytes} (h : 61 ∉ name) (rest : Bytes) (hr : ∀ b ∈ rest.head?, b = 61) :
    (name ++ rest).takeWhile (fun b => decide (b ≠ 61)) = name ∧
      (name ++ rest).dropWhile (fun b => decide (b ≠ 61)) = rest := by
  have hall : ∀ b ∈ name, decide (b ≠ 61) = true := by
    intro b hb
    simpa using fun e : b = 61 => h (e ▸ hb)
  rw [List.takeWhile_append_of_pos hall, List.dropWhile_append_of_pos hall]
  cases rest with
  | nil => simp
  | cons b rest => simp [hr b rfl]

theorem takes_long {switch : Switch} {name : Bytes} (hne : name ≠ []) (h61 : 61 ∉ name)
    (hn : Switch.ofName? name = some switch) : Takes (45 :: 45 :: name) switch none := by
  obtain ⟨ht, hd⟩ := split_name h61 [] (by simp)
  rw [List.append_nil] at ht hd
  refine ⟨by simpa using hne, fun s => ?_⟩
  show s.long name = _
  simp only [State.long, ht, hd, hn]
  cases switch <;> rfl

theorem takes_equals {s : Setting} {name : Bytes} (h61 : 61 ∉ name)
    (hn : Switch.ofName? name = some (.setting s)) (value : Bytes) :
    Takes (45 :: 45 :: name ++ 61 :: value) (.setting s) (some value) := by
  obtain ⟨ht, hd⟩ := split_name h61 (61 :: value) (by simp)
  refine ⟨by simp, fun st => ?_⟩
  show st.long (name ++ 61 :: value) = _
  simp only [State.long, ht, hd, hn]

theorem takes_letter {switch : Switch} {letter : UInt8} (hd : letter ≠ 45)
    (hl : Switch.ofLetter? letter = some switch) : Takes [45, letter] switch none := by
  refine ⟨by simpa using hd, fun s => ?_⟩
  have hs : s.step [45, letter] = s.short [letter] := by
    unfold State.step
    split
    · next h => cases h; exact absurd rfl hd
    · next h => cases h; rfl
    · next h => exact absurd rfl (h letter [])
  rw [hs, State.short, hl]
  cases switch with
  | setting o => rfl
  | flag f | display d =>
    dsimp only
    split
    · next h => rw [h]; rfl
    · rfl

theorem attachedValue_eq {value : Bytes} (hne : value ≠ []) (h : value.head? ≠ some 61) :
    attachedValue value = some value := by
  obtain ⟨b, rest, rfl⟩ := List.exists_cons_of_ne_nil hne
  exact if_neg fun hb => h (congrArg some hb)

theorem takes_attached {s : Setting} {letter : UInt8} (hd : letter ≠ 45)
    (hl : Switch.ofLetter? letter = some (.setting s)) {value : Bytes} (hne : value ≠ [])
    (h : value.head? ≠ some 61) : Takes (45 :: letter :: value) (.setting s) (some value) := by
  refine ⟨by simp [hd], fun st => ?_⟩
  have hs : st.step (45 :: letter :: value) = st.short (letter :: value) := by
    unfold State.step
    split
    · next h => cases h; exact absurd rfl hd
    · next h => cases h; rfl
    · next h => exact absurd rfl (h letter value)
  rw [hs, State.short, hl, attachedValue_eq hne h]

theorem takes_form {switch : Switch} {form : String}
    (h : (switch, form) ∈ longForms ++ shortForms) : Takes (Utf8.encode form) switch none := by
  rcases List.mem_append.mp h with h | h
  · obtain ⟨name, he, hne, h61, hn⟩ := long_form h
    exact he ▸ takes_long hne h61 hn
  · obtain ⟨letter, he, hd, hl⟩ := short_form h
    exact he ▸ takes_letter hd hl

theorem step_plain {value : Bytes} (h : value.head? ≠ some 45) (s : State) :
    s.step value = s.plain value := by
  unfold State.step
  split
  · exact absurd rfl h
  · exact absurd rfl h
  · rfl

/-! ## Command lines -/

/-- What one option does to the arguments. -/
def give (args : Arguments) : Given → Except UsageError Arguments
  | .setting s value => assign s value args
  | .flag f => raise f args

theorem Takes.parse {word : Bytes} {switch : Switch} {attached : Option Bytes}
    (h : Takes word switch attached) (s : State) (rest : List Bytes) :
    s.parse (word :: rest) =
      match s.take switch attached with
      | .error e => .error e
      | .ok (.display d) => .ok (.display d)
      | .ok (.next s) => s.parse rest := by
  cases ht : s.take switch attached with
  | error e => simp only [State.parse, if_neg h.not_dashes, h.step, ht]
  | ok step => cases step <;> simp only [State.parse, if_neg h.not_dashes, h.step, ht]

theorem parse_value {s : State} {o : Setting} (hp : s.pending = some ⟨o, none⟩) {value : Bytes}
    (hv : value.head? ≠ some 45) (rest : List Bytes) :
    s.parse (value :: rest) = { s with pending := some ⟨o, some value⟩ }.parse rest := by
  have hne : value ≠ [45, 45] := by
    intro h
    exact hv (by rw [h]; rfl)
  rw [State.parse, if_neg hne, step_plain hv, State.plain, hp]

/-- The word or the two words of an option. -/
theorem Spells.words {g : Given} {words : List Bytes} (h : Spells g words) :
    (∃ word attached, words = [word] ∧ Takes word g.switch attached ∧
      ∀ s : State, s.take g.switch attached =
        s.settle.bind fun args => (give args g).map fun args => .next { args }) ∨
    ∃ word o value, words = [word, value] ∧ g = .setting o value ∧
      Takes word (.setting o) none ∧ value.head? ≠ some 45 := by
  cases h with
  | equals hf =>
    obtain ⟨name, he, _, h61, hn⟩ := long_form hf
    exact .inl ⟨_, _, rfl, he ▸ takes_equals h61 hn _, fun s => rfl⟩
  | apart hf hv => exact .inr ⟨_, _, _, rfl, rfl, takes_form hf, hv⟩
  | attached hf hne hv =>
    obtain ⟨letter, he, hd, hl⟩ := short_form hf
    rw [he]
    exact .inl ⟨_, _, rfl, takes_attached hd hl hne hv, fun s => rfl⟩
  | flag hf => exact .inl ⟨_, _, rfl, takes_form hf, fun s => rfl⟩

/-- What the words of one option lead to, whatever follows them. -/
theorem Spells.parse {g : Given} {words : List Bytes} (h : Spells g words) (s : State) :
    (∃ e, (∀ rest, s.parse (words ++ rest) = .error e) ∧
      s.settle.bind (give · g) = .error e) ∨
    ∃ s' : State, (∀ rest, s.parse (words ++ rest) = s'.parse rest) ∧
      s'.settle = s.settle.bind (give · g) := by
  rcases h.words with ⟨word, attached, rfl, ht, htake⟩ | ⟨word, o, value, rfl, rfl, ht, hv⟩
  · cases hs : s.settle.bind (give · g) with
    | error e =>
      refine .inl ⟨e, fun rest => ?_, rfl⟩
      rw [List.singleton_append, ht.parse, htake]
      cases hset : s.settle with
      | error e' => rw [hset] at hs; cases hs; rfl
      | ok args =>
        rw [hset] at hs
        rw [Except.bind, show give args g = .error e from hs]
        rfl
    | ok args' =>
      refine .inr ⟨{ args := args' }, fun rest => ?_, rfl⟩
      rw [List.singleton_append, ht.parse, htake]
      cases hset : s.settle with
      | error e' => rw [hset] at hs; cases hs
      | ok args =>
        rw [hset] at hs
        rw [Except.bind, show give args g = .ok args' from hs]
        rfl
  · cases hset : s.settle with
    | error e =>
      refine .inl ⟨e, fun rest => ?_, rfl⟩
      rw [List.cons_append, ht.parse, State.take, hset]
      rfl
    | ok args =>
      refine .inr ⟨{ args, pending := some ⟨o, some value⟩ }, fun rest => ?_, rfl⟩
      rw [List.cons_append, ht.parse, State.take, hset]
      exact parse_value rfl hv rest

/-- A command line is a fold over the options that it spells. -/
theorem parse_spelled {gs : List Given} {argv : List Bytes} (h : SpellsAll gs argv) (s : State) :
    s.parse argv = (s.settle.bind fun args => gs.foldlM give args).map Request.run := by
  induction h generalizing s with
  | nil =>
    show s.settle.map Request.run = _
    cases s.settle <;> rfl
  | @cons g gs words argv hg _ ih =>
    have hfold : (s.settle.bind fun args => (g :: gs).foldlM give args) =
        (s.settle.bind (give · g)).bind fun args => gs.foldlM give args := by
      cases s.settle <;> rfl
    rw [hfold]
    rcases hg.parse s with ⟨e, hp, he⟩ | ⟨s', hp, hs⟩
    · rw [hp, he]
      rfl
    · rw [hp, ← hs, ih]

/-! ## One more option -/

theorem take_unsettled {s : State} {e : UsageError} (h : s.settle = .error e) (switch : Switch)
    (attached : Option Bytes) : s.take switch attached = .error e := by
  cases switch <;> cases attached <;> simp only [State.take, h] <;> rfl

/-- An option does not stand between another option and its value. -/
theorem parse_interrupted {word : Bytes} {o : Setting} (ht : Takes word (.setting o) none)
    {g : Given} {words : List Bytes} (hg : Spells g words) (s : State) (rest : List Bytes) :
    ∃ e, s.parse (word :: (words ++ rest)) = .error e := by
  obtain ⟨w, ws, attached, rfl, hw⟩ :
      ∃ w ws attached, words = w :: ws ∧ Takes w g.switch attached := by
    rcases hg.words with ⟨w, attached, rfl, hw, _⟩ | ⟨w, o, value, rfl, rfl, hw, _⟩
    · exact ⟨w, [], attached, rfl, hw⟩
    · exact ⟨w, [value], none, rfl, hw⟩
  rw [ht.parse, State.take]
  cases s.settle with
  | error e => exact ⟨e, rfl⟩
  | ok args =>
    refine ⟨.missingValue o, ?_⟩
    show State.parse { args, pending := some ⟨o, none⟩ } (w :: (ws ++ rest)) = _
    rw [hw.parse, take_unsettled rfl]

/-- An option that is put anywhere into a command line either cannot be read
there, or is one more among the others. -/
theorem SpellsAll.insert {gs : List Given} {argv : List Bytes} (h : SpellsAll gs argv)
    {g : Given} {words : List Bytes} (hg : Spells g words) (pre post : List Bytes)
    (he : argv = pre ++ post) (s : State) :
    (∃ e, s.parse (pre ++ (words ++ post)) = .error e) ∨
    ∃ gs₁ gs₂, gs = gs₁ ++ gs₂ ∧ SpellsAll (gs₁ ++ g :: gs₂) (pre ++ (words ++ post)) := by
  induction h generalizing pre s with
  | nil =>
    obtain ⟨rfl, rfl⟩ := List.append_eq_nil_iff.mp he.symm
    rw [List.nil_append]
    exact .inr ⟨[], [], rfl, .cons hg .nil⟩
  | @cons k gs ws argv hk h ih =>
    rcases List.append_eq_append_iff.mp he with ⟨a, rfl, rfl⟩ | ⟨a, rfl, rfl⟩
    · -- the words of the first option stay together
      rw [List.append_assoc]
      rcases hk.parse s with ⟨e, hp, _⟩ | ⟨s', hp, _⟩
      · exact .inl ⟨e, hp _⟩
      · rw [hp]
        refine (ih a rfl s').imp id ?_
        intro ⟨gs₁, gs₂, hgs, ha⟩
        exact ⟨k :: gs₁, gs₂, by rw [hgs]; rfl, .cons hk ha⟩
    · cases pre with
      | nil =>
        have hall : SpellsAll (g :: k :: gs) (words ++ (a ++ argv)) := .cons hg (.cons hk h)
        exact .inr ⟨[], k :: gs, rfl, hall⟩
      | cons w pre =>
        rcases hk.words with ⟨word, attached, hw, _, _⟩ | ⟨word, o, value, hw, rfl, ht, _⟩
        · obtain ⟨rfl, hnil⟩ := List.cons_eq_cons.mp hw
          obtain ⟨rfl, rfl⟩ := List.append_eq_nil_iff.mp hnil
          exact .inr ⟨[k], gs, rfl, .cons hk (.cons hg h)⟩
        · obtain ⟨rfl, hrest⟩ := List.cons_eq_cons.mp hw
          cases pre with
          | nil => exact .inl (parse_interrupted ht hg s _)
          | cons v pre =>
            obtain ⟨rfl, hnil⟩ := List.cons_eq_cons.mp hrest
            obtain ⟨rfl, rfl⟩ := List.append_eq_nil_iff.mp hnil
            exact .inr ⟨[_], gs, rfl, .cons hk (.cons hg h)⟩

end HeaderDb.CommandLine
