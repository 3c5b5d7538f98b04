import HeaderDb.Proofs.Run.Effects
import HeaderDb.Proofs.Toml.Reading

/-! # Runs one after another

A run can read what an earlier run has written: the output file may be listed as
a header, or be the settings file. This feeds back once at most. After the first
run the file is there, so later runs list the same names; and its text opens
with a bracket and a line end, which no settings file does, so a run that reads
its settings from there fails and writes nothing. -/

namespace HeaderDb

/-! ## A database is no settings file -/

namespace Toml

theorem ofSource_punctuation {stop i : Nat} {c : Char} {t : Token} (h : punctuation? c = some t)
    (rest : Source) : Lexemes.ofSource stop ((i, c) :: rest) =
      .next i t (Lexemes.ofSource stop rest) :=
  ofSource_token (by simp [scanToken, h])

/-- A header has its key on the line of its bracket. -/
theorem parse_bracket_newline {s : String} {cs : List Char} (h : s.toList = '[' :: '\n' :: cs) :
    ∃ e, Document.parse s = .error e := by
  have hs : Source.ofDocument s.toList = (0, '[') :: (1, '\n') :: Source.ofChars 2 cs := by
    rw [h]
    rfl
  have hl : Lexemes.ofDocument s.toList = .next 0 .leftBracket (.next 1 .newline
      (Lexemes.ofSource (Utf8.size s.toList) (Source.ofChars 2 cs))) := by
    rw [Lexemes.ofDocument, hs, ofSource_punctuation rfl, ofSource_punctuation rfl]
  unfold Document.parse
  rw [hl]
  exact ⟨_, rfl⟩

end Toml

theorem Database.render_head (db : Database) : ∃ cs, db.render.toList = '[' :: '\n' :: cs := by
  unfold Database.render
  rw [String.toList_append, String.toList_append, show "[\n".toList = ['[', '\n'] from by decide]
  exact ⟨_, rfl⟩

theorem readSettings_render (path : Bytes) (db : Database) :
    ∃ f, readSettings path (.ok (Utf8.encode db.render)) = .error f := by
  obtain ⟨cs, hcs⟩ := db.render_head
  obtain ⟨e, he⟩ := Toml.parse_bracket_newline hcs
  simp only [readSettings, Utf8.decode?_encode, Settings.parse, he]
  exact ⟨_, rfl⟩

/-! ## What a later run sees -/

/-- The settings of a run that succeeds do not come from a database. -/
theorem Arguments.settings_written {t : Tree} (ha : t.Anchored) {args : Arguments}
    {dir : List Name} {n : Name} {db : Database} {settings : Settings}
    (hf : t.root.get? (dir ++ [n]) = some (.file (Utf8.encode db.render)))
    (h : args.settings t.surroundings = .ok settings) (data : Bytes) :
    args.settings (t.written dir n data).surroundings = .ok settings := by
  unfold Arguments.settings at h ⊢
  cases hc : args.config with
  | none => rw [hc] at h; exact h
  | some path =>
    rw [hc] at h
    cases hl : t.load path with
    | error e => simp [Tree.surroundings, hl, readSettings] at h
    | ok bytes =>
      obtain ⟨d, k, node, hr⟩ := Tree.resolve_of_load hl
      by_cases hk : d ++ [k] = dir ++ [n]
      · -- the file named is the database, which cannot be read as settings
        have hn : node = .file (Utf8.encode db.render) := by
          have hg := (Tree.resolve_holds ha hr).1
          rw [hk, hf] at hg
          exact (Option.some.inj hg).symm
        subst hn
        obtain ⟨f, he⟩ := readSettings_render path db
        simp only [Tree.surroundings, Tree.load_of_resolve hr, he] at h
        cases h
      · simp only [Tree.surroundings] at h ⊢
        rw [Tree.load_written (Node.Slot.of_file hf) hr hk]
        exact h

/-- A survey that succeeds with a database in the tree comes out the same after
that database has been replaced. -/
theorem survey_written {t : Tree} (ha : t.Anchored) {args : Arguments} {dir : List Name}
    {n : Name} {db : Database} {v : Survey}
    (hf : t.root.get? (dir ++ [n]) = some (.file (Utf8.encode db.render)))
    (h : survey args t.surroundings = .ok v) (data : Bytes) :
    survey args (t.written dir n data).surroundings = .ok v := by
  obtain ⟨settings, path, directory, g, entries, hs, hp, hd, hg, hl, rfl⟩ := survey_eq_ok_iff.mp h
  exact survey_eq_ok_iff.mpr ⟨settings, path, directory, g, entries,
    Arguments.settings_written ha hf hs data, hp, hd, hg, Tree.list_written hf hl, rfl⟩

/-! ## The second run and the third -/

/-- A run either leaves the tree as it was, or writes its database to the file
that the output path leads to. -/
theorem Tree.run_tree {t : Tree} (ha : t.Anchored) (args : Arguments) :
    (t.run args).tree = t ∨
    ∃ s p dir n, survey args t.surroundings = .ok s ∧ args.output = some p ∧
      t.LeadsToFile .create p dir n ∧
      (t.run args).tree = t.written dir n (Utf8.encode s.database.render) := by
  rcases t.run_cases args with ⟨_, _, hr⟩ | ⟨_, _, _, _, hr⟩ | ⟨s, _, tree, hs, he, hr⟩
  · exact .inl (by rw [hr])
  · exact .inl (by rw [hr])
  · rcases Tree.emit_eq_ok ha he with ⟨_, _, ht⟩ | ⟨p, hp, _, ⟨_, ht⟩ | ⟨dir, n, hl, ht⟩⟩
    · exact .inl (by rw [hr]; exact ht)
    · exact .inl (by rw [hr]; exact ht)
    · exact .inr ⟨s, p, dir, n, hs, hp, hl, by rw [hr]; exact ht⟩

/-- **Runs come to rest after the first.** With the same arguments, the third run
in a row has the outcome of the second: result, output, notes and tree. -/
theorem Tree.run_stabilises {t : Tree} (ha : t.Anchored) (args : Arguments) :
    ((t.run args).tree.run args).tree.run args = (t.run args).tree.run args := by
  rcases Tree.run_tree ha args with ht | ⟨s, p, dir, n, hs, hp, hl, ht⟩
  · rw [ht, ht]
  · rw [ht]
    -- from here on the output file is in the tree and holds a database
    have ha' : (t.written dir n (Utf8.encode s.database.render)).Anchored := ha.written (hl.slot ha)
    have hf : (t.written dir n (Utf8.encode s.database.render)).root.get? (dir ++ [n]) =
        some (.file (Utf8.encode s.database.render)) := Node.get?_write_self (hl.slot ha)
    rcases Tree.run_tree ha' args with ht' | ⟨s', _, _, _, hs', _, _, _⟩
    · rw [ht']
    · have he (data : Bytes) : (t.written dir n data).emit args.output s'.database.render =
          .ok ("", t.written dir n (Utf8.encode s'.database.render)) := by
        rw [hp, Tree.emit, Tree.store_written ha hl]
        rfl
      have hs'' := survey_written ha' hf hs' (Utf8.encode s'.database.render)
      rw [Tree.written_written] at hs''
      rw [Tree.run_of_survey hs' (he _), Tree.run_of_survey hs'' (he _)]

/-- The first of these runs puts its database in the place of its settings, and
the second one fails on them. -/
theorem Tree.run_stabilises_without_settings :
    let t : Tree := { root := .dir [(Utf8.encode "s", .file [])] }
    let args : Arguments := { config := some (Utf8.encode "s"), output := some (Utf8.encode "s") }
    t.Anchored ∧ (t.run args).result.isOk = true ∧
      ((t.run args).tree.run args).result.isOk = false ∧
      ((t.run args).tree.run args).tree.run args = (t.run args).tree.run args := by
  intro t args
  have ha : t.Anchored := rfl
  exact ⟨ha, by decide +kernel, by decide +kernel, Tree.run_stabilises ha args⟩

end HeaderDb
