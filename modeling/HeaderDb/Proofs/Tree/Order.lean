import HeaderDb.Proofs.Tree.Write

/-! # Trees that are enumerated in another order

Two trees have the same contents if every path has the same shape in both; a
directory may still be enumerated in two orders. A walk looks its names up one
by one and cannot see the order, so it ends at the same spot or fails with the
same error. Only a listing shows the order, and since the names in a directory
are distinct, two listings of one directory are permutations of each other. -/

namespace HeaderDb

/-- Two answers that fail with the same error or succeed with related values. -/
inductive Agree {ε α β : Type} (R : α → β → Prop) : Except ε α → Except ε β → Prop where
  | error (e : ε) : Agree R (.error e) (.error e)
  | ok {a : α} {b : β} : R a b → Agree R (.ok a) (.ok b)

namespace Node

/-- Every path has the same shape in both trees. -/
def SameShapes (root root' : Node) : Prop := ∀ q, root'.shapeAt q = root.shapeAt q

variable {root root' : Node} {dir : List Name} {es es' : List (Name × Node)}

theorem SameShapes.isDirAt_iff (h : root.SameShapes root') {q : List Name} :
    root'.IsDirAt q ↔ root.IsDirAt q := by
  unfold IsDirAt
  rw [h q]

/-- What can be found under a path that has the same shape in both trees. -/
theorem get?_cases {q : List Name} (h : root'.shapeAt q = root.shapeAt q) :
    root.get? q = none ∧ root'.get? q = none ∨
    (∃ es es', root.get? q = some (.dir es) ∧ root'.get? q = some (.dir es')) ∨
    ∃ node, (∀ es, node ≠ .dir es) ∧ root.get? q = some node ∧ root'.get? q = some node := by
  cases hg : root.get? q with
  | none =>
    have hn := get?_eq_none_iff.mp hg
    rw [← h] at hn
    exact .inl ⟨rfl, get?_eq_none_iff.mpr hn⟩
  | some node =>
    by_cases hd : root.IsDirAt q
    · obtain ⟨es, hes⟩ := Node.isDirAt_iff.mp hd
      obtain ⟨es', hes'⟩ := Node.isDirAt_iff.mp (h.trans hd)
      exact .inr (.inl ⟨es, es', hg ▸ hes, hes'⟩)
    · have hn : ∀ es, node ≠ .dir es := by
        rintro es rfl
        exact hd (Node.isDirAt_iff.mpr ⟨es, hg⟩)
      have hs := (get?_eq_some_iff hn).mp hg
      rw [← h] at hs
      exact .inr (.inr ⟨node, hn, rfl, (get?_eq_some_iff hn).mpr hs⟩)

/-- The names of a directory are the same in both trees, in some order. -/
theorem SameShapes.names_perm (h : root.SameShapes root') (hw : root.WellFormed)
    (hw' : root'.WellFormed) (hes : root.get? dir = some (.dir es))
    (hes' : root'.get? dir = some (.dir es')) :
    (es'.map Prod.fst).Perm (es.map Prod.fst) := by
  have hmem {r : Node} {xs : List (Name × Node)} (hx : r.get? dir = some (.dir xs)) (k : Name) :
      k ∈ xs.map Prod.fst ↔ r.shapeAt (dir ++ [k]) ≠ none := by
    rw [List.mem_map, ← exists_get?_iff hx, ← Option.ne_none_iff_exists', ne_eq, get?_eq_none_iff]
  refine (List.perm_ext_iff_of_nodup (hw' dir es' hes').1 (hw dir es hes).1).mpr fun k => ?_
  rw [hmem hes', hmem hes, h]

/-! ## One directory in another order -/

theorem lookup_eq_some_iff {n : Name} {child : Node} (hn : (es.map Prod.fst).Nodup) :
    es.lookup n = some child ↔ (n, child) ∈ es := by
  induction es with
  | nil => simp
  | cons e es ih =>
    obtain ⟨k, c⟩ := e
    obtain ⟨hk, hes⟩ := List.nodup_cons.mp hn
    by_cases hm : n = k
    · subst hm
      have hno : (n, child) ∉ es := fun hm => hk (List.mem_map.mpr ⟨_, hm, rfl⟩)
      simp [hno, eq_comm]
    · rw [lookup_cons_ne hm, ih hes]
      simp [hm]

theorem lookup_perm (hn : (es.map Prod.fst).Nodup) (hp : es'.Perm es) (n : Name) :
    es'.lookup n = es.lookup n := by
  have hn' : (es'.map Prod.fst).Nodup := (hp.map Prod.fst).nodup_iff.mpr hn
  apply Option.ext
  intro child
  rw [lookup_eq_some_iff hn', lookup_eq_some_iff hn, hp.mem_iff]

/-- The tree with the entries of one directory enumerated as given. -/
def reordered (root : Node) (dir : List Name) (es : List (Name × Node)) : Node :=
  root.modify (fun _ => .dir es) dir

theorem get?_reordered_self (hd : root.get? dir = some (.dir es)) :
    (root.reordered dir es').get? dir = some (.dir es') := by
  have h := get?_modify_append (fun _ => .dir es') dir [] root
  rw [List.append_nil, hd] at h
  exact h

theorem get?_reordered_below (hn : (es.map Prod.fst).Nodup)
    (hd : root.get? dir = some (.dir es)) (hp : es'.Perm es) (n : Name) (q : List Name) :
    (root.reordered dir es').get? (dir ++ n :: q) = root.get? (dir ++ n :: q) := by
  rw [reordered, get?_modify_append, get?_append, hd]
  simp only [Option.bind_some, get?, entries, lookup_perm hn hp]

theorem sameShapes_reordered (hn : (es.map Prod.fst).Nodup)
    (hd : root.get? dir = some (.dir es)) (hp : es'.Perm es) :
    root.SameShapes (root.reordered dir es') := by
  intro q
  by_cases hq : dir <+: q
  · obtain ⟨r, rfl⟩ := hq
    cases r with
    | nil => rw [List.append_nil, shapeAt, shapeAt, get?_reordered_self hd, hd]; rfl
    | cons n r => rw [shapeAt, get?_reordered_below hn hd hp, shapeAt]
  · exact view_modify steady_shape _ hq root

theorem WellFormed.reordered (hw : root.WellFormed) (hd : root.get? dir = some (.dir es))
    (hp : es'.Perm es) : (root.reordered dir es').WellFormed := by
  obtain ⟨hn, hl⟩ := hw dir es hd
  refine wellFormed_iff.mpr fun q ns hq => ?_
  by_cases hpre : dir <+: q
  · obtain ⟨r, rfl⟩ := hpre
    cases r with
    | nil =>
      rw [List.append_nil, namesAt, get?_reordered_self hd] at hq
      cases hq
      refine ⟨(hp.map Prod.fst).nodup_iff.mpr hn, fun n hm => ?_⟩
      obtain ⟨e, he, rfl⟩ := List.mem_map.mp hm
      exact hl e (hp.mem_iff.mp he)
    | cons n r =>
      rw [namesAt, get?_reordered_below hn hd hp] at hq
      exact wellFormed_iff.mp hw _ _ hq
  · have hv : (root.reordered dir es').namesAt q = root.namesAt q :=
      view_modify steady_names _ hpre root
    exact wellFormed_iff.mp hw q ns (hv ▸ hq)

end Node

/-! ## Walks in the two trees -/

theorem advance_congr {root root' : Node} (h : root.SameShapes root') {intent : Intent}
    {follow follow' : Place → List Component → Except OsError Spot}
    (hf : ∀ here cs, follow' here cs = follow here cs) (here : Place) (cs : List Component) :
    advance root' intent follow' here cs = advance root intent follow here cs := by
  induction cs generalizing here with
  | nil => rfl
  | cons c rest ih =>
    cases c with
    | here | slash | up => exact ih _
    | name n =>
      simp only [advance, ih, hf]
      -- the one look-up of the step
      rcases Node.get?_cases (h (here.path ++ [n])) with ⟨hg, hg'⟩ | ⟨_, _, hg, hg'⟩ | ⟨node, hn, hg, hg'⟩
      · rw [hg, hg']
      · rw [hg, hg']
      · rw [hg, hg']

theorem walk_congr {root root' : Node} (h : root.SameShapes root') (intent : Intent) (m : Nat)
    (here : Place) (cs : List Component) :
    walk root' intent m here cs = walk root intent m here cs := by
  induction m generalizing here cs with
  | zero => exact advance_congr h (fun _ _ => rfl) here cs
  | succ m ih => exact advance_congr h ih here cs

namespace Tree

/-- The trees differ at most in the order in which directories are enumerated. -/
structure SameContents (t t' : Tree) : Prop where
  shapes : t.root.SameShapes t'.root
  current : t'.current = t.current

namespace SameContents

variable {t t' : Tree} {p : Bytes}

theorem refl (t : Tree) : t.SameContents t := ⟨fun _ => rfl, rfl⟩

theorem trans {t'' : Tree} (h : t.SameContents t') (h' : t'.SameContents t'') :
    t.SameContents t'' :=
  ⟨fun q => (h'.shapes q).trans (h.shapes q), h'.current.trans h.current⟩

theorem resolve_eq (h : t.SameContents t') (intent : Intent) (p : Bytes) :
    t'.resolve intent p = t.resolve intent p := by
  unfold resolve
  rw [h.current, walk_congr h.shapes]

theorem load_eq (h : t.SameContents t') (p : Bytes) : t'.load p = t.load p := by
  unfold load
  rw [h.resolve_eq]

theorem isDirectory_eq (h : t.SameContents t') (p : Bytes) :
    t'.isDirectory p = t.isDirectory p := by
  unfold isDirectory
  rw [h.resolve_eq]

theorem currentDirectory_eq (h : t.SameContents t') :
    t'.currentDirectory = t.currentDirectory := by
  unfold currentDirectory
  rw [h.current]

theorem namesIn_perm (h : t.SameContents t') (hw : t.root.WellFormed) (hw' : t'.root.WellFormed)
    (place : Place) : (t.namesIn place).Perm (t'.namesIn place) := by
  unfold namesIn
  split
  · exact .rfl
  · rcases Node.get?_cases (h.shapes place.path) with ⟨hg, hg'⟩ | ⟨es, es', hg, hg'⟩ | ⟨node, _, hg, hg'⟩
    · simp [Node.namesAt, hg, hg']
    · simpa [Node.namesAt, hg, hg', Node.entries] using
        (h.shapes.names_perm hw hw' hg hg').symm
    · simp [Node.namesAt, hg, hg']

/-- A directory that can be listed in one tree can be listed in the other. -/
theorem names (h : t.SameContents t') (hw : t.root.WellFormed) (hw' : t'.root.WellFormed)
    (p : Bytes) : Agree List.Perm (t.names p) (t'.names p) := by
  have hok {place : Place} (hr : t.resolve .follow p = .ok (.directory place)) :
      Agree List.Perm (t.names p) (t'.names p) := by
    rw [names_eq_ok_iff.mpr ⟨place, hr, rfl⟩,
      names_eq_ok_iff.mpr ⟨place, (h.resolve_eq _ p).trans hr, rfl⟩]
    exact .ok (h.namesIn_perm hw hw' place)
  cases hr : t.resolve .follow p with
  | ok spot =>
    cases spot with
    | directory place => exact hok hr
    | absent dir n | entry dir n node =>
      simp only [Tree.names, h.resolve_eq, hr]
      exact .error _
  | error e =>
    simp only [Tree.names, h.resolve_eq, hr]
    exact .error _

theorem list (h : t.SameContents t') (hw : t.root.WellFormed) (hw' : t'.root.WellFormed)
    (p : Bytes) : Agree List.Perm (t.list p) (t'.list p) := by
  have hn := h.names hw hw' p
  unfold Tree.list
  simp only [h.isDirectory_eq]
  generalize t.names p = a at hn ⊢
  generalize t'.names p = b at hn ⊢
  cases hn with
  | error e => exact .error e
  | ok hp => exact .ok (hp.map _)

theorem written (h : t.SameContents t') {dir : List Name} {n : Name}
    (hs : t.root.Slot dir n) (data : Bytes) :
    (t.written dir n data).SameContents (t'.written dir n data) := by
  have hs' : t'.root.Slot dir n :=
    ⟨h.shapes.isDirAt_iff.mpr hs.parent, by rw [h.shapes]; exact hs.free⟩
  refine ⟨fun q => ?_, h.current⟩
  show (t'.root.write dir n data).shapeAt q = (t.root.write dir n data).shapeAt q
  rw [Node.shapeAt_write hs', Node.shapeAt_write hs, h.shapes]

/-- A file can be written in both trees or in none, whatever goes into it. -/
theorem store (h : t.SameContents t') (ha : t.Anchored) (p data data' : Bytes) :
    Agree (fun u u' => data' = data → u.SameContents u') (t.store p data) (t'.store p data') := by
  unfold Tree.store
  rw [h.resolve_eq]
  cases hr : t.resolve .create p with
  | error e => exact .error e
  | ok spot =>
    cases spot with
    | directory place => exact .error _
    | absent dir n =>
      have hl : t.LeadsToFile .create p dir n := .inl hr
      exact .ok (by rintro rfl; exact h.written (hl.slot ha) _)
    | entry dir n node =>
      cases node with
      | file old =>
        have hl : t.LeadsToFile .create p dir n := .inr ⟨old, hr⟩
        exact .ok (by rintro rfl; exact h.written (hl.slot ha) _)
      | dir _ | link _ | fifo => exact .ok fun _ => h

end SameContents

/-- The tree with the entries of one directory enumerated as given. -/
def reordered (t : Tree) (dir : List Name) (es : List (Name × Node)) : Tree :=
  { t with root := t.root.reordered dir es }

theorem sameContents_reordered {t : Tree} (hw : t.WellFormed) {dir : List Name}
    {es es' : List (Name × Node)} (hd : t.root.get? dir = some (.dir es)) (hp : es'.Perm es) :
    t.SameContents (t.reordered dir es') :=
  ⟨Node.sameShapes_reordered (hw.names dir es hd).1 hd hp, rfl⟩

theorem WellFormed.reordered {t : Tree} (hw : t.WellFormed) {dir : List Name}
    {es es' : List (Name × Node)} (hd : t.root.get? dir = some (.dir es)) (hp : es'.Perm es) :
    (t.reordered dir es').WellFormed :=
  ⟨hw.names.reordered hd hp,
    (sameContents_reordered hw hd hp).shapes.isDirAt_iff.mpr hw.anchored⟩

end Tree
end HeaderDb
