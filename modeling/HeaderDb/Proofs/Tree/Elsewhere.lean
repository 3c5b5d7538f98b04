import HeaderDb.Proofs.Tree.Order

/-! # Trees that differ in the contents of one file

Both trees hold a file in one place, and every other path has the same shape in
both. A walk never looks into a file, so it goes the same way in both trees and
fails with the same error, and only where it ends at that file can it tell them
apart. Listings are the same, and so is everything that is read or written
elsewhere. -/

namespace HeaderDb

/-- Spots that differ at most in the contents of the file `n` in `dir`. -/
def Spot.SameElsewhere (dir : List Name) (n : Name) (spot spot' : Spot) : Prop :=
  spot' = spot ∨ ∃ a b, spot = .entry dir n (.file a) ∧ spot' = .entry dir n (.file b)

/-- Both trees hold a file as `n` in `dir`, and all else has the same shape. -/
structure Node.SameElsewhere (dir : List Name) (n : Name) (root root' : Node) : Prop where
  file : ∃ data, root.get? (dir ++ [n]) = some (.file data)
  file' : ∃ data, root'.get? (dir ++ [n]) = some (.file data)
  shapes : ∀ q, q ≠ dir ++ [n] → root'.shapeAt q = root.shapeAt q

variable {dir : List Name} {n : Name}

theorem Node.SameElsewhere.isDirAt_iff {root root' : Node}
    (h : Node.SameElsewhere dir n root root') {q : List Name} :
    root'.IsDirAt q ↔ root.IsDirAt q := by
  by_cases hq : q = dir ++ [n]
  · obtain ⟨a, ha⟩ := h.file
    obtain ⟨b, hb⟩ := h.file'
    subst hq
    exact iff_of_false (Slot.of_file hb).not_dir (Slot.of_file ha).not_dir
  · unfold IsDirAt
    rw [h.shapes q hq]

/-! ## Walks in the two trees -/

theorem advance_sameElsewhere {root root' : Node} (h : Node.SameElsewhere dir n root root')
    {intent : Intent} {follow follow' : Place → List Component → Except OsError Spot}
    (hf : ∀ here cs, Agree (Spot.SameElsewhere dir n) (follow here cs) (follow' here cs))
    (here : Place) (cs : List Component) :
    Agree (Spot.SameElsewhere dir n) (advance root intent follow here cs)
      (advance root' intent follow' here cs) := by
  induction cs generalizing here with
  | nil => exact .ok (.inl rfl)
  | cons c rest ih =>
    cases c with
    | here | slash | up => exact ih _
    | name m =>
      simp only [advance]
      split
      · exact .error _
      split
      · exact .error _
      split
      · exact .error _
      by_cases hq : here.path ++ [m] = dir ++ [n]
      · -- the file in question, which nothing lies below
        obtain ⟨a, ha⟩ := h.file
        obtain ⟨b, hb⟩ := h.file'
        obtain ⟨hdir, rfl⟩ : here.path = dir ∧ m = n := by simpa using hq
        rw [hq, ha, hb, hdir]
        dsimp only
        split
        · exact .ok (.inr ⟨a, b, rfl, rfl⟩)
        · exact .error _
      · rcases Node.get?_cases (h.shapes _ hq) with
          ⟨hg, hg'⟩ | ⟨_, _, hg, hg'⟩ | ⟨node, hn, hg, hg'⟩
        · rw [hg, hg']
          dsimp only
          split
          · exact .ok (.inl rfl)
          · exact .error _
        · rw [hg, hg']
          exact ih _
        · rw [hg, hg']
          cases node with
          | dir es => exact absurd rfl (hn es)
          | link target =>
            dsimp only
            split
            · exact .ok (.inl rfl)
            · exact hf _ _
          | file data | fifo =>
            dsimp only
            split
            · exact .ok (.inl rfl)
            · exact .error _

theorem walk_sameElsewhere {root root' : Node} (h : Node.SameElsewhere dir n root root')
    (intent : Intent) (m : Nat) (here : Place) (cs : List Component) :
    Agree (Spot.SameElsewhere dir n) (walk root intent m here cs)
      (walk root' intent m here cs) := by
  induction m generalizing here cs with
  | zero => exact advance_sameElsewhere h (fun _ _ => .error _) here cs
  | succ m ih => exact advance_sameElsewhere h ih here cs

namespace Tree

/-- The trees differ at most in the contents of the file `n` in `dir`, and in the
order in which directories are enumerated. -/
structure SameElsewhere (dir : List Name) (n : Name) (t t' : Tree) : Prop where
  root : Node.SameElsewhere dir n t.root t'.root
  current : t'.current = t.current

/-- A file that is there is written again. -/
theorem sameElsewhere_written {t : Tree} {old : Bytes}
    (hf : t.root.get? (dir ++ [n]) = some (.file old)) (data : Bytes) :
    SameElsewhere dir n t (t.written dir n data) := by
  have hs := Node.Slot.of_file hf
  exact ⟨⟨⟨old, hf⟩, ⟨data, Node.get?_write_self hs⟩, fun q hq => Node.shapeAt_write_ne hs hq⟩, rfl⟩

namespace SameElsewhere

variable {t t' : Tree} {p : Bytes}

theorem symm (h : SameElsewhere dir n t t') : SameElsewhere dir n t' t :=
  ⟨⟨h.root.file', h.root.file, fun q hq => (h.root.shapes q hq).symm⟩, h.current.symm⟩

theorem trans {t'' : Tree} (h : SameElsewhere dir n t t') (h' : SameElsewhere dir n t' t'') :
    SameElsewhere dir n t t'' :=
  ⟨⟨h.root.file, h'.root.file', fun q hq => (h'.root.shapes q hq).trans (h.root.shapes q hq)⟩,
    h'.current.trans h.current⟩

theorem anchored (h : SameElsewhere dir n t t') (ha : t.Anchored) : t'.Anchored := by
  unfold Anchored
  rw [h.current]
  exact h.root.isDirAt_iff.mpr ha

theorem resolve (h : SameElsewhere dir n t t') (intent : Intent) (p : Bytes) :
    Agree (Spot.SameElsewhere dir n) (t.resolve intent p) (t'.resolve intent p) := by
  unfold Tree.resolve
  rw [h.current]
  split
  · exact .error _
  split
  · exact .error _
  split
  · exact .error _
  exact walk_sameElsewhere h.root intent _ _ _

theorem leadsToFile (h : SameElsewhere dir n t t') {intent : Intent}
    (hl : t.LeadsToFile intent p dir n) : t'.LeadsToFile intent p dir n := by
  have hr := h.resolve intent p
  unfold LeadsToFile at hl ⊢
  generalize t.resolve intent p = r at hr hl
  generalize t'.resolve intent p = r' at hr ⊢
  cases hr with
  | error e => exact hl
  | ok hs =>
    rcases hs with rfl | ⟨a, b, rfl, rfl⟩
    · exact hl
    · exact .inr ⟨b, rfl⟩

theorem isDirectory_eq (h : SameElsewhere dir n t t') (p : Bytes) :
    t'.isDirectory p = t.isDirectory p := by
  have hr := h.resolve .follow p
  unfold isDirectory
  generalize t.resolve .follow p = r at hr ⊢
  generalize t'.resolve .follow p = r' at hr ⊢
  cases hr with
  | error e => rfl
  | ok hs =>
    rcases hs with rfl | ⟨a, b, rfl, rfl⟩
    · rfl
    · rfl

/-- A file elsewhere is read as before. -/
theorem load_eq (h : SameElsewhere dir n t t') (hp : ¬ t.LeadsToFile .follow p dir n) :
    t'.load p = t.load p := by
  have hr := h.resolve .follow p
  unfold LeadsToFile at hp
  unfold load
  generalize t.resolve .follow p = r at hr hp ⊢
  generalize t'.resolve .follow p = r' at hr ⊢
  cases hr with
  | error e => rfl
  | ok hs =>
    rcases hs with rfl | ⟨a, b, rfl, rfl⟩
    · rfl
    · exact absurd (.inr ⟨a, rfl⟩) hp

/-- If the names of directories come in the same order, listings are the same. -/
theorem list_eq (h : SameElsewhere dir n t t')
    (hn : ∀ q, t'.root.namesAt q = t.root.namesAt q) (p : Bytes) : t'.list p = t.list p := by
  have hr := h.resolve .follow p
  have hentries (root : Node) (q : List Name) :
      (((root.get? q).map Node.entries).getD []).map Prod.fst = (root.namesAt q).getD [] := by
    unfold Node.namesAt
    cases root.get? q <;> rfl
  have hnames : t'.names p = t.names p := by
    unfold names
    generalize t.resolve .follow p = r at hr ⊢
    generalize t'.resolve .follow p = r' at hr ⊢
    cases hr with
    | error e => rfl
    | ok hs =>
      rcases hs with rfl | ⟨a, b, rfl, rfl⟩
      · simp only [hentries, hn]
      · rfl
  unfold list
  simp only [hnames, h.isDirectory_eq]

theorem written (h : SameElsewhere dir n t t') {d : List Name} {k : Name}
    (hs : t.root.Slot d k) (hne : d ++ [k] ≠ dir ++ [n]) (data : Bytes) :
    SameElsewhere dir n (t.written d k data) (t'.written d k data) := by
  have hs' : t'.root.Slot d k :=
    ⟨h.root.isDirAt_iff.mpr hs.parent, by rw [h.root.shapes _ hne]; exact hs.free⟩
  obtain ⟨a, ha⟩ := h.root.file
  obtain ⟨b, hb⟩ := h.root.file'
  refine ⟨⟨⟨a, ?_⟩, ⟨b, ?_⟩, fun q hq => ?_⟩, h.current⟩
  · exact (Node.get?_write_some hs hne.symm (by simp)).mpr ha
  · exact (Node.get?_write_some hs' hne.symm (by simp)).mpr hb
  · show (t'.root.write d k data).shapeAt q = (t.root.write d k data).shapeAt q
    rw [Node.shapeAt_write hs', Node.shapeAt_write hs, h.root.shapes q hq]

/-- Something is written to the same place in both trees or in none, and can be
read there afterwards. -/
theorem store (h : SameElsewhere dir n t t') (ha : t.Anchored)
    (hp : ¬ t.LeadsToFile .follow p dir n) (data : Bytes) :
    Agree (fun u u' => SameElsewhere dir n u u' ∧ u'.load p = u.load p)
      (t.store p data) (t'.store p data) := by
  have hfile {d : List Name} {k : Name} (hl : t.LeadsToFile .create p d k)
      (hl' : t'.LeadsToFile .create p d k) :
      SameElsewhere dir n (t.written d k data) (t'.written d k data) ∧
        (t'.written d k data).load p = (t.written d k data).load p := by
    have hne : d ++ [k] ≠ dir ++ [n] := by
      intro heq
      obtain ⟨rfl, rfl⟩ : d = dir ∧ k = n := by simpa using heq
      exact hp hl.follow
    refine ⟨h.written (hl.slot ha) hne data, ?_⟩
    rw [load_of_resolve (hl.follow.resolve_written ha data),
      load_of_resolve (hl'.follow.resolve_written (h.anchored ha) data)]
  have hr := h.resolve .create p
  generalize hs : t.resolve .create p = r at hr
  generalize hs' : t'.resolve .create p = r' at hr
  unfold Tree.store
  rw [hs, hs']
  cases hr with
  | error e => exact .error e
  | @ok spot spot' hspot =>
    rcases hspot with rfl | ⟨a, b, rfl, rfl⟩
    · cases spot' with
      | directory place => exact .error _
      | absent d k => exact .ok (hfile (.inl hs) (.inl hs'))
      | entry d k node =>
        cases node with
        | file old => exact .ok (hfile (.inr ⟨old, hs⟩) (.inr ⟨old, hs'⟩))
        | dir _ | link _ | fifo => exact .ok ⟨h, h.load_eq hp⟩
    · exact absurd (.inr ⟨a, resolve_follow_of_create hs⟩) hp

end SameElsewhere
end Tree
end HeaderDb
