import HeaderDb.Proofs.Run.Order
import HeaderDb.Proofs.Tree.Fresh

/-! # Runs before and after a file is created

A new file in the scanned directory adds one entry to the listing and changes no
other, so there is at most one header more. Sorting puts it at its place among
the others and moves none of them. Where the new file is enumerated makes no
difference, and once it is gone a run prints what it printed at first. -/

namespace HeaderDb

/-! ## One header more -/

theorem headersOf_notes_concat (g : Glob) (entries : List Entry) (e : Entry) :
    headersOf (g.notes (entries ++ [e])) =
      headersOf (g.notes entries) ++ (g.header? e).toList := by
  simp only [headersOf_notes, List.filterMap_append]
  cases hh : g.header? e <;> simp [hh]

/-- Sorting inserts one more header at its place. -/
theorem sortHeaders_concat {headers : List String} {n : String} (h : (headers ++ [n]).Nodup) :
    ∃ before after, sortHeaders headers = before ++ after ∧
      sortHeaders (headers ++ [n]) = before ++ n :: after ∧
      (∀ b ∈ before, Utf8.encode b < Utf8.encode n) ∧
      ∀ a ∈ after, Utf8.encode n < Utf8.encode a := by
  obtain ⟨before, after, hnew, hold, _⟩ :=
    List.mergeSort_cons Utf8.le_trans Utf8.le_total n headers
  have hs : sortHeaders (headers ++ [n]) = before ++ n :: after :=
    (sortHeaders_perm (List.perm_append_singleton n headers)).trans hnew
  have hord := sortHeaders_strict h
  rw [hs] at hord
  obtain ⟨_, hafter, hbefore⟩ := List.pairwise_append.mp hord
  exact ⟨before, after, hold, hs, fun b hb => hbefore b hb n List.mem_cons_self,
    (List.pairwise_cons.mp hafter).1⟩

/-- The records of sorted headers, with one more record at its place. -/
theorem Database.ofHeaders_concat (directory : String) (t : Template) {headers : List String}
    {n : String} (h : (headers ++ [n]).Nodup) :
    ∃ before after, ofHeaders directory t (sortHeaders headers) = before ++ after ∧
      ofHeaders directory t (sortHeaders (headers ++ [n])) =
        before ++ Record.ofHeader directory t n :: after ∧
      (∀ r ∈ before, Utf8.encode r.file < Utf8.encode ("./" ++ n)) ∧
      ∀ r ∈ after, Utf8.encode ("./" ++ n) < Utf8.encode r.file := by
  obtain ⟨before, after, hold, hnew, hb, ha⟩ := sortHeaders_concat h
  have hfile {a b : String} (hab : Utf8.encode a < Utf8.encode b) :
      Utf8.encode ("./" ++ a) < Utf8.encode ("./" ++ b) := by
    rw [Utf8.encode_append, Utf8.encode_append]
    exact List.append_left_lt hab
  refine ⟨before.map (Record.ofHeader directory t), after.map (Record.ofHeader directory t),
    ?_, ?_, ?_, ?_⟩
  · rw [hold, ofHeaders, List.map_append]
  · rw [hnew, ofHeaders, List.map_append, List.map_cons]
  · intro r hr
    obtain ⟨b, hmem, rfl⟩ := List.mem_map.mp hr
    exact hfile (hb b hmem)
  · intro r hr
    obtain ⟨a, hmem, rfl⟩ := List.mem_map.mp hr
    exact hfile (ha a hmem)

/-! ## The survey of the larger directory -/

theorem Arguments.settings_put_fresh {t : Tree} (ha : t.Anchored) {args : Arguments}
    {dir : List Name} {n : Name} (hf : t.root.Fresh dir n) {settings : Settings}
    (h : args.settings t.surroundings = .ok settings) (data : Bytes) :
    args.settings (t.put dir n (.file data)).surroundings = .ok settings := by
  unfold Arguments.settings at h ⊢
  cases hc : args.config with
  | none => rw [hc] at h; exact h
  | some path =>
    rw [hc] at h
    cases hl : t.load path with
    | error e => simp [Tree.surroundings, hl, readSettings] at h
    | ok bytes =>
      simp only [Tree.surroundings, hl] at h
      simp only [Tree.surroundings, Tree.load_put_fresh ha hf hl]
      exact h

/-- What a run without an output prints. -/
theorem Tree.run_stdout {t : Tree} {args : Arguments} (ho : args.output = none) {s : Survey}
    (hs : survey args t.surroundings = .ok s) :
    (t.run args).result = .ok () ∧ (t.run args).stdout = s.database.render := by
  have he : t.emit args.output s.database.render = .ok (s.database.render, t) := by rw [ho]; rfl
  rw [run_of_survey hs he]
  exact ⟨rfl, rfl⟩

/-- **A new file adds its own record and changes no other.** The tree `t'` holds a
new file `n` in the scanned directory, enumerated at any place, and `t''` is what
is left once it has been removed. If `n` is no text or does not match, the
records stay; else its record stands at its place in the order of bytes. -/
theorem Tree.run_after_creation {t t' t'' : Tree} (hw : t.WellFormed) {args : Arguments}
    (ho : args.output = none) (hu : args.unsorted = false) (hok : (t.run args).result = .ok ())
    {path : Bytes} {dir : List Name}
    (hpath : workingDirectory t.currentDirectory args.directory = .ok path)
    (hdir : t.resolve .follow path = .ok (.directory ⟨dir, 0⟩))
    {n : Name} (hn : n.IsLegal) (hfree : t.root.get? (dir ++ [n]) = none) {data : Bytes}
    (hw' : t'.WellFormed) (ht' : (t.put dir n (.file data)).SameContents t')
    (hw'' : t''.WellFormed) (ht'' : (t'.erase dir n).SameContents t'') :
    ∃ settings directory g, ∃ records records' : Database,
      args.settings t.surroundings = .ok settings ∧
      path = Utf8.encode directory ∧
      Glob.parse (settings.patternOr args.pattern) = .ok g ∧
      Database.decode (t.run args).stdout = .ok records ∧
      (t'.run args).result = .ok () ∧
      Database.decode (t'.run args).stdout = .ok records' ∧
      ((∀ name, n = Utf8.encode name → g.matches name = false) → records' = records) ∧
      (∀ name, n = Utf8.encode name → g.matches name = true →
        ∃ before after, records = before ++ after ∧
          records' = before ++
            Record.ofHeader directory (settings.template args.compiler) name :: after ∧
          (∀ r ∈ before, Utf8.encode r.file < Utf8.encode ("./" ++ name)) ∧
          ∀ r ∈ after, Utf8.encode ("./" ++ name) < Utf8.encode r.file) ∧
      (t''.run args).result = .ok () ∧
      (t''.run args).stdout = (t.run args).stdout := by
  obtain ⟨s, hs, _⟩ := run_ok hok
  obtain ⟨settings, path', directory, g, entries, hset, hpath', hd, hg, hl, rfl⟩ :=
    survey_eq_ok_iff.mp hs
  cases hpath.symm.trans hpath'
  have hf : t.root.Fresh dir n := ⟨resolve_holds hw.anchored hdir, hfree⟩
  have hl₁ : (t.put dir n (.file data)).list path = .ok (entries ++ [⟨n, false⟩]) :=
    list_put_fresh hf hn hdir hl
  have hs₁ := survey_eq_ok_iff.mpr ⟨settings, path, directory, g, _,
    Arguments.settings_put_fresh hw.anchored hf hset data, hpath, hd, hg, hl₁, rfl⟩
  obtain ⟨_, hout⟩ := run_stdout ho hs
  obtain ⟨hok₁, hout₁⟩ := run_stdout ho hs₁
  have hrun' := run_sameContents ht' (hw.put_fresh hf hn) hw' args
  have hrun'' := run_sameContents ((SameContents.erase_put hw.anchored hf ht').trans ht'') hw hw''
    args
  have hnodup := nodup_headersOf g
    (nodup_list (hw.put_fresh hf hn) (live_of_workingDirectory hpath) hl₁)
  rw [headersOf_notes_concat] at hnodup
  refine ⟨settings, directory, g, _, _, hset, (Utf8.decode?_eq_some_iff.mp hd).symm, hg,
    by rw [hout, Database.decode_render], hrun'.result.trans hok₁,
    by rw [hrun'.stdout hu, hout₁, Database.decode_render], ?_, ?_,
    hrun''.result.trans hok, hrun''.stdout hu⟩
  · intro hno
    have hh : g.header? ⟨n, false⟩ = none := by
      rw [Option.eq_none_iff_forall_not_mem]
      intro name hname
      obtain ⟨he, hm, _⟩ := Glob.header?_eq_some_iff.mp hname
      rw [hno name he] at hm
      cases hm
    simp [Survey.make, headersOf_notes_concat, hh]
  · intro name he hm
    have hh : g.header? ⟨n, false⟩ = some name := Glob.header?_eq_some_iff.mpr ⟨he, hm, rfl⟩
    rw [hh] at hnodup
    simpa [Survey.make, headersOf_notes_concat, hh, hu] using
      Database.ofHeaders_concat directory (settings.template args.compiler) hnodup

/-- A header between two others, created and removed again. -/
theorem Tree.run_after_creation_mixed :
    let t' := mixed.put [] (Utf8.encode "aa.hh") (.file [])
    ∃ before after : Database,
      Database.decode (mixed.run {}).stdout = .ok (before ++ after) ∧
      Database.decode (t'.run {}).stdout =
        .ok (before ++ Record.ofHeader "/" {} "aa.hh" :: after) ∧
      ((t'.erase [] (Utf8.encode "aa.hh")).run {}).stdout = (mixed.run {}).stdout := by
  intro t'
  have hok : (mixed.run {}).result = .ok () := eq_ok_of_isOk (by decide +kernel)
  have hn : Name.IsLegal (Utf8.encode "aa.hh") := by decide
  have hfree : mixed.root.get? ([] ++ [Utf8.encode "aa.hh"]) = none := rfl
  have hw' : t'.WellFormed := mixed_wellFormed.put_fresh ⟨rfl, hfree⟩ hn
  have herase : t'.erase [] (Utf8.encode "aa.hh") = mixed := rfl
  obtain ⟨settings, directory, g, records, records', hset, hdir, hg, hdec, _, hdec', _, hnew, _,
    hout⟩ := run_after_creation mixed_wellFormed rfl rfl hok rfl rfl hn hfree hw' (.refl t')
      (herase ▸ mixed_wellFormed) (.refl _)
  cases hset
  cases hg
  have hdir : Utf8.encode "/" = Utf8.encode directory := hdir
  obtain rfl := Utf8.encode_injective hdir
  obtain ⟨before, after, rfl, rfl, _, _⟩ := hnew "aa.hh" rfl (by decide)
  exact ⟨before, after, hdec, hdec', hout⟩

end HeaderDb
