import HeaderDb.Proofs.Tree.Join
import HeaderDb.Proofs.Tree.Order
import HeaderDb.Tree.Edit

/-! # A file that is created and removed again

A new file takes a name that its directory does not have. The directory then has
one name more and every other directory the names it had. Nothing leads through
a file, so no entry turns into a directory by it, and a file that could be read
is read as before. Taking the new file away restores the contents of the tree. -/

namespace HeaderDb

namespace Node

variable {root : Node} {dir : List Name} {n : Name} {es : List (Name × Node)} {data : Bytes}

/-- A name in a directory that nothing has yet. -/
structure Fresh (root : Node) (dir : List Name) (n : Name) : Prop where
  parent : root.IsDirAt dir
  free : root.get? (dir ++ [n]) = none

theorem Fresh.slot (hf : root.Fresh dir n) : root.Slot dir n :=
  ⟨hf.parent, .inl (get?_eq_none_iff.mp hf.free)⟩

theorem Fresh.not_mem (hf : root.Fresh dir n) (hes : root.get? dir = some (.dir es)) :
    n ∉ es.map Prod.fst := by
  intro hm
  obtain ⟨node, hg⟩ := (exists_get?_iff hes).mpr (List.mem_map.mp hm)
  rw [hf.free] at hg
  cases hg

/-- A new file is enumerated last. -/
theorem get?_write_fresh (hf : root.Fresh dir n) (hes : root.get? dir = some (.dir es)) :
    (root.write dir n data).get? dir = some (.dir (es ++ [(n, .file data)])) := by
  have hput : put n (.file data) (.dir es) = .dir (es ++ [(n, .file data)]) := by
    refine if_neg fun ha => ?_
    obtain ⟨e, he, hk⟩ := List.any_eq_true.mp ha
    exact hf.not_mem hes (List.mem_map.mpr ⟨e, he, by simpa using hk⟩)
  have h := get?_modify_append (put n (.file data)) dir [] root
  rw [List.append_nil, hes, Option.bind_some, hput] at h
  exact h

theorem WellFormed.write_fresh (hw : root.WellFormed) (hf : root.Fresh dir n) (hn : n.IsLegal) :
    (root.write dir n data).WellFormed := by
  obtain ⟨es, hes⟩ := isDirAt_iff.mp hf.parent
  obtain ⟨hnodup, hlegal⟩ := hw dir es hes
  refine wellFormed_iff.mpr fun q ns hq => ?_
  by_cases hp : dir <+: q
  · obtain ⟨r, rfl⟩ := hp
    cases r with
    | nil =>
      rw [List.append_nil, namesAt, get?_write_fresh hf hes] at hq
      have hns : ns = es.map Prod.fst ++ [n] := by simpa [entries, eq_comm] using hq
      subst hns
      refine ⟨?_, ?_⟩
      · refine List.nodup_append.mpr ⟨hnodup, by simp, ?_⟩
        intro a ha b hb hab
        obtain rfl : b = n := by simpa using hb
        exact hf.not_mem hes (hab ▸ ha)
      · intro k hk
        rcases List.mem_append.mp hk with hk | hk
        · obtain ⟨e, he, rfl⟩ := List.mem_map.mp hk
          exact hlegal e he
        · obtain rfl : k = n := by simpa using hk
          exact hn
    | cons m r =>
      rw [namesAt, write, get?_modify_append, hes, Option.bind_some, get?_put_cons] at hq
      split at hq
      · -- the file itself, which has no entries, or a path below it
        cases r with
        | nil => cases hq; simp [entries]
        | cons k r => simp [get?, entries] at hq
      · refine wellFormed_iff.mp hw (dir ++ m :: r) ns ?_
        rw [namesAt, get?_append, hes, Option.bind_some]
        exact hq
  · have hv : (root.write dir n data).namesAt q = root.namesAt q :=
      view_modify steady_names _ hp root
    exact wellFormed_iff.mp hw q ns (hv ▸ hq)

/-! ## An entry removed -/

theorem lookup_erase (n m : Name) (es : List (Name × Node)) :
    (erase n (.dir es)).entries.lookup m = if m = n then none else es.lookup m := by
  simp only [erase, entries]
  induction es with
  | nil => simp
  | cons e es ih =>
    obtain ⟨k, child⟩ := e
    by_cases hk : k = n
    · subst hk
      rw [List.filter_cons_of_neg (by simp), ih]
      split
      · rfl
      · next hm => rw [lookup_cons_ne hm]
    · rw [List.filter_cons_of_pos (by simpa using hk)]
      by_cases hm : m = k
      · subst hm; simp [hk]
      · rw [lookup_cons_ne hm, lookup_cons_ne hm, ih]

/-- A removal empties the paths at and below one place. -/
theorem shapeAt_erase (hd : root.IsDirAt dir) (n : Name) (q : List Name) :
    (root.modify (erase n) dir).shapeAt q =
      if dir ++ [n] <+: q then none else root.shapeAt q := by
  obtain ⟨es, hes⟩ := isDirAt_iff.mp hd
  by_cases hp : dir <+: q
  · obtain ⟨r, rfl⟩ := hp
    simp only [shapeAt, get?_modify_append, get?_append root, hes, Option.bind_some,
      List.prefix_append_right_inj]
    cases r with
    | nil => simp [get?, shape, erase]
    | cons m r =>
      simp only [get?, lookup_erase, List.cons_prefix_cons, List.nil_prefix, and_true,
        eq_comm (a := n)]
      split <;> rfl
  · rw [if_neg fun hq => hp ((List.prefix_append dir [n]).trans hq)]
    exact view_modify steady_shape _ hp root

theorem Fresh.shapeAt_below (hf : root.Fresh dir n) {q : List Name} (hq : dir ++ [n] <+: q) :
    root.shapeAt q = none := by
  obtain ⟨r, rfl⟩ := hq
  rw [shapeAt, get?_append, hf.free]
  rfl

end Node

namespace Tree

variable {t t' : Tree} {dir : List Name} {n : Name} {data : Bytes}

theorem WellFormed.put_fresh (hw : t.WellFormed) (hf : t.root.Fresh dir n) (hn : n.IsLegal) :
    (t.put dir n (.file data)).WellFormed :=
  ⟨hw.names.write_fresh hf hn, hw.anchored.written hf.slot⟩

/-- Removing a file that was created leaves the contents of before. -/
theorem SameContents.erase_put (ha : t.Anchored) (hf : t.root.Fresh dir n)
    (h : (t.put dir n (.file data)).SameContents t') : t.SameContents (t'.erase dir n) := by
  have hd : t'.root.IsDirAt dir :=
    h.shapes.isDirAt_iff.mpr ((Node.isDirAt_write hf.slot).mpr hf.parent)
  refine ⟨fun q => ?_, ?_⟩
  · show (t'.root.modify (Node.erase n) dir).shapeAt q = t.root.shapeAt q
    rw [Node.shapeAt_erase hd]
    split
    · next hq => exact (hf.shapeAt_below hq).symm
    · next hq =>
      rw [h.shapes q]
      refine Node.shapeAt_write_ne hf.slot ?_
      rintro rfl
      exact hq (List.prefix_refl _)
  · -- the current directory does not lie below the file
    show t'.current.afterRemoval (dir ++ [n]) = t.current
    have hc : t'.current = t.current := h.current
    rw [hc, Place.afterRemoval, if_neg]
    intro hp
    have hnone := hf.shapeAt_below (List.isPrefixOf_iff_prefix.mp hp)
    rw [show t.root.shapeAt t.current.path = some .dir from ha] at hnone
    cases hnone

/-- A name that nothing has does not lead to a directory. -/
theorem isDirectory_fresh (hf : t.root.Fresh dir n) (hn : n.IsLegal) {p : Bytes}
    (hr : t.resolve .follow p = .ok (.directory ⟨dir, 0⟩)) :
    t.isDirectory (Path.append p n) = false := by
  have hno (j : Nat) : ¬ LeadsToDirectory t.root j ⟨dir, 0⟩ n := by
    rintro ⟨dest, h⟩
    cases h with
    | enter _ hg _ => rw [hf.free] at hg; cases hg
    | follow _ hg _ _ => rw [hf.free] at hg; cases hg
  rw [← Bool.not_eq_true, isDirectory_append hr hn]
  rintro ⟨_, i, j, _, _, hj⟩
  exact hno j hj

/-- A listing after a file has been created in the directory. -/
theorem list_put_fresh (hf : t.root.Fresh dir n) (hn : n.IsLegal) {p : Bytes}
    (hr : t.resolve .follow p = .ok (.directory ⟨dir, 0⟩)) {entries : List Entry}
    (hl : t.list p = .ok entries) :
    (t.put dir n (.file data)).list p = .ok (entries ++ [⟨n, false⟩]) := by
  obtain ⟨es, hes⟩ := Node.isDirAt_iff.mp hf.parent
  have hnames : t.names p = .ok (es.map Prod.fst) := by
    refine names_eq_ok_iff.mpr ⟨_, hr, ?_⟩
    simp [namesIn, Node.namesAt, hes, Node.entries]
  have hnames' : (t.written dir n data).names p = .ok (es.map Prod.fst ++ [n]) := by
    refine names_eq_ok_iff.mpr ⟨_, (resolve_written hf.slot).mpr ⟨_, hr, rfl⟩, ?_⟩
    simp [namesIn, Node.namesAt, written, Node.get?_write_fresh hf hes, Node.entries]
  obtain ⟨ns, hns, rfl⟩ := list_eq_ok_iff.mp hl
  cases hnames.symm.trans hns
  refine list_eq_ok_iff.mpr ⟨_, hnames', ?_⟩
  show _ = (es.map Prod.fst ++ [n]).map fun k =>
    (⟨k, (t.written dir n data).isDirectory (Path.append p k)⟩ : Entry)
  simp only [isDirectory_written hf.slot, List.map_append, List.map_cons, List.map_nil,
    isDirectory_fresh hf hn hr]

/-- What could be read before a file was created is read as before. -/
theorem load_put_fresh (ha : t.Anchored) (hf : t.root.Fresh dir n) {p bytes : Bytes}
    (h : t.load p = .ok bytes) : (t.put dir n (.file data)).load p = .ok bytes := by
  obtain ⟨d, k, node, hr⟩ := resolve_of_load h
  have hk : d ++ [k] ≠ dir ++ [n] := by
    intro he
    have hg := (resolve_holds ha hr).1
    rw [he, hf.free] at hg
    cases hg
  rw [← h]
  exact load_written hf.slot hr hk

end Tree
end HeaderDb
