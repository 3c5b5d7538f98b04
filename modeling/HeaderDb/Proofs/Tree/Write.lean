import HeaderDb.Proofs.Tree.Walk
import HeaderDb.Tree.Access

/-! # A tree before and after a file is written

A write puts a file where nothing or a file was. No directory and no link comes
or goes, so every walk takes the same way in both trees, and only a walk that
ends at the place of the file sees the difference. The relation between the two
is proved once, in both directions, and everything a program can ask of a tree
(reading a file, listing a directory, writing again) follows from it. -/

namespace HeaderDb

/-- A spot after `n` in `dir` has become a file with the given data. -/
def Spot.written (dir : List Name) (n : Name) (data : Bytes) : Spot → Spot
  | .directory place => .directory place
  | .absent d k => if d ++ [k] = dir ++ [n] then .entry d k (.file data) else .absent d k
  | .entry d k node => if d ++ [k] = dir ++ [n] then .entry d k (.file data) else .entry d k node

theorem Spot.written_eq_directory {dir : List Name} {n : Name} {data : Bytes} {spot : Spot}
    {place : Place} : .directory place = spot.written dir n data ↔ spot = .directory place := by
  cases spot with
  | directory p => simp [written, eq_comm]
  | absent d k | entry d k node => simp only [written]; split <;> simp

namespace Node

/-- Nodes other than directories are known by their shape. -/
theorem get?_eq_some_iff {root node : Node} {p : List Name} (hn : ∀ es, node ≠ .dir es) :
    root.get? p = some node ↔ root.shapeAt p = some node.shape := by
  unfold shapeAt
  cases root.get? p with
  | none => simp
  | some node' =>
    cases node' <;> cases node <;> simp_all [shape]

theorem get?_eq_none_iff {root : Node} {p : List Name} :
    root.get? p = none ↔ root.shapeAt p = none := by
  unfold shapeAt
  cases root.get? p <;> simp

variable {root : Node} {dir : List Name} {n : Name} {data : Bytes} {q : List Name}

theorem Slot.not_dir (hs : root.Slot dir n) : ¬ root.IsDirAt (dir ++ [n]) := by
  unfold IsDirAt
  rcases hs.free with h | ⟨old, h⟩ <;> simp [h]

theorem Slot.of_file {old : Bytes} (h : root.get? (dir ++ [n]) = some (.file old)) :
    root.Slot dir n :=
  ⟨isDirAt_of_get? h, .inr ⟨old, by rw [shapeAt, h]; rfl⟩⟩

theorem shapeAt_write_ne (hs : root.Slot dir n) (hq : q ≠ dir ++ [n]) :
    (root.write dir n data).shapeAt q = root.shapeAt q := by
  rw [shapeAt_write hs, if_neg hq]

theorem isDirAt_write (hs : root.Slot dir n) :
    (root.write dir n data).IsDirAt q ↔ root.IsDirAt q := by
  by_cases hq : q = dir ++ [n]
  · subst hq
    have hw := shapeAt_write hs data (dir ++ [n])
    rw [if_pos rfl] at hw
    exact iff_of_false (by unfold IsDirAt; simp [hw]) hs.not_dir
  · unfold IsDirAt
    rw [shapeAt_write_ne hs hq]

theorem get?_write_dir (hs : root.Slot dir n) :
    (∃ es, (root.write dir n data).get? q = some (.dir es)) ↔
      ∃ es, root.get? q = some (.dir es) := by
  rw [← isDirAt_iff, ← isDirAt_iff, isDirAt_write hs]

theorem get?_write_link (hs : root.Slot dir n) {target : Bytes} :
    (root.write dir n data).get? q = some (.link target) ↔ root.get? q = some (.link target) := by
  rw [get?_eq_some_iff (by simp), get?_eq_some_iff (by simp), shapeAt_write hs]
  split
  · next hq =>
    subst hq
    rcases hs.free with h | ⟨old, h⟩ <;> simp [h, shape]
  · rfl

theorem get?_write_self (hs : root.Slot dir n) :
    (root.write dir n data).get? (dir ++ [n]) = some (.file data) := by
  rw [get?_eq_some_iff (by simp), shapeAt_write hs, if_pos rfl]
  rfl

theorem get?_write_none (hs : root.Slot dir n) (hq : q ≠ dir ++ [n]) :
    (root.write dir n data).get? q = none ↔ root.get? q = none := by
  rw [get?_eq_none_iff, get?_eq_none_iff, shapeAt_write_ne hs hq]

theorem get?_write_some (hs : root.Slot dir n) (hq : q ≠ dir ++ [n]) {node : Node}
    (hn : ∀ es, node ≠ .dir es) :
    (root.write dir n data).get? q = some node ↔ root.get? q = some node := by
  rw [get?_eq_some_iff hn, get?_eq_some_iff hn, shapeAt_write_ne hs hq]

end Node

/-! ## Walks in the two trees -/

variable {root : Node} {dir : List Name} {n : Name} {data : Bytes} {intent : Intent}

/-- A walk in the old tree can be taken in the new one. -/
theorem Reaches.written (hs : root.Slot dir n) {k : Nat} {here : Place} {cs : List Component}
    {spot : Spot} (h : Reaches root intent k here cs spot) :
    Reaches (root.write dir n data) intent k here cs (spot.written dir n data) := by
  induction h with
  | stop => exact .stop
  | here _ ih => exact .here ih
  | slash _ ih => exact .slash ih
  | up _ ih => exact .up ih
  | enter hp hg _ ih =>
    obtain ⟨es, hes⟩ := (Node.get?_write_dir hs).mpr ⟨_, hg⟩
    exact .enter hp hes ih
  | follow hp hg hi _ ih => exact .follow hp ((Node.get?_write_link hs).mpr hg) hi ih
  | @absent here m hp hg =>
    rw [Spot.written]
    split
    · next hq => exact .entry hp (hq ▸ Node.get?_write_self hs) (by simp) (by simp)
    · next hq => exact .absent hp ((Node.get?_write_none hs hq).mpr hg)
  | @entry here m node hp hg hn hl =>
    rw [Spot.written]
    split
    · next hq => exact .entry hp (hq ▸ Node.get?_write_self hs) (by simp) (by simp)
    · next hq => exact .entry hp ((Node.get?_write_some hs hq hn).mpr hg) hn hl

/-- A walk in the new tree is one that could be taken in the old tree. -/
theorem Reaches.unwritten (hs : root.Slot dir n) {k : Nat} {here : Place} {cs : List Component}
    {spot' : Spot} (h : Reaches (root.write dir n data) intent k here cs spot') :
    ∃ spot, Reaches root intent k here cs spot ∧ spot' = spot.written dir n data := by
  induction h with
  | stop => exact ⟨_, .stop, rfl⟩
  | here _ ih => obtain ⟨s, hr, he⟩ := ih; exact ⟨s, .here hr, he⟩
  | slash _ ih => obtain ⟨s, hr, he⟩ := ih; exact ⟨s, .slash hr, he⟩
  | up _ ih => obtain ⟨s, hr, he⟩ := ih; exact ⟨s, .up hr, he⟩
  | enter hp hg _ ih =>
    obtain ⟨s, hr, he⟩ := ih
    obtain ⟨es, hes⟩ := (Node.get?_write_dir hs).mp ⟨_, hg⟩
    exact ⟨s, .enter hp hes hr, he⟩
  | follow hp hg hi _ ih =>
    obtain ⟨s, hr, he⟩ := ih
    exact ⟨s, .follow hp ((Node.get?_write_link hs).mp hg) hi hr, he⟩
  | @absent here m hp hg =>
    by_cases hq : here.path ++ [m] = dir ++ [n]
    · rw [hq, Node.get?_write_self hs] at hg; cases hg
    · exact ⟨_, .absent hp ((Node.get?_write_none hs hq).mp hg), (if_neg hq).symm⟩
  | @entry here m node hp hg hn hl =>
    by_cases hq : here.path ++ [m] = dir ++ [n]
    · have hf : node = .file data := by
        rw [hq, Node.get?_write_self hs] at hg
        exact (Option.some.inj hg).symm
      subst hf
      -- before the write there was nothing, or a file
      rcases hs.free with h | ⟨old, h⟩
      · exact ⟨_, .absent hp (hq ▸ Node.get?_eq_none_iff.mpr h), (if_pos hq).symm⟩
      · refine ⟨.entry here.path m (.file old), .entry hp ?_ (by simp) (by simp), (if_pos hq).symm⟩
        rw [hq, Node.get?_eq_some_iff (by simp), h]
        rfl
    · exact ⟨_, .entry hp ((Node.get?_write_some hs hq hn).mp hg) hn hl, (if_neg hq).symm⟩

/-- What may be created may as well be looked up. -/
theorem Reaches.of_create {k : Nat} {here : Place} {cs : List Component} {spot : Spot}
    (h : Reaches root .create k here cs spot) : Reaches root .follow k here cs spot := by
  induction h with
  | stop => exact .stop
  | here _ ih => exact .here ih
  | slash _ ih => exact .slash ih
  | up _ ih => exact .up ih
  | enter hp hg _ ih => exact .enter hp.lookup hg ih
  | follow hp hg _ _ ih => exact .follow hp.lookup hg (by simp) ih
  | absent hp hg => exact .absent hp.lookup hg
  | entry hp hg hn hl => exact .entry hp.lookup hg hn fun target ht => nomatch hl target ht

namespace Tree

variable {t : Tree} {p : Bytes}

/-- The current directory, or the one it was removed from, is in the tree. -/
def Anchored (t : Tree) : Prop := t.root.IsDirAt t.current.path

/-- A tree as a system keeps it. -/
structure WellFormed (t : Tree) : Prop where
  names : t.root.WellFormed
  anchored : t.Anchored

/-- The tree with a file written as `n` in `dir`. -/
def written (t : Tree) (dir : List Name) (n : Name) (data : Bytes) : Tree :=
  { t with root := t.root.write dir n data }

/-- A path leads to the file `n` in `dir`, which is there or can be created. -/
def LeadsToFile (t : Tree) (intent : Intent) (p : Bytes) (dir : List Name) (n : Name) : Prop :=
  t.resolve intent p = .ok (.absent dir n) ∨
    ∃ old, t.resolve intent p = .ok (.entry dir n (.file old))

/-- A path leads to a pipe. -/
def LeadsToPipe (t : Tree) (p : Bytes) : Prop :=
  ∃ dir n, t.resolve .follow p = .ok (.entry dir n .fifo)

theorem Anchored.written (ha : t.Anchored) (hs : t.root.Slot dir n) :
    (t.written dir n data).Anchored :=
  (Node.isDirAt_write hs).mpr ha

/-- What a path has to meet before it is walked along. -/
structure Walkable (p : Bytes) : Prop where
  nonzero : 0 ∉ p
  fits : p.length ≤ maxPathLength
  nonempty : p ≠ []

theorem resolve_eq_ok_iff {spot : Spot} : t.resolve intent p = .ok spot ↔
    Walkable p ∧ ∃ k, k ≤ maxLinks ∧
      Reaches t.root intent k (t.current.start p) (components p) spot := by
  rw [← walk_eq_ok_iff, resolve]
  constructor
  · intro h
    split at h
    · cases h
    · split at h
      · cases h
      · split at h
        · cases h
        · next h₀ h₁ h₂ => exact ⟨⟨by simpa using h₀, by omega, by simpa using h₂⟩, h⟩
  · rintro ⟨hw, h⟩
    rw [if_neg (by simpa using hw.nonzero), if_neg (Nat.not_lt.mpr hw.fits),
      if_neg (by simpa using hw.nonempty)]
    exact h

theorem resolve_written (hs : t.root.Slot dir n) {spot' : Spot} :
    (t.written dir n data).resolve intent p = .ok spot' ↔
      ∃ spot, t.resolve intent p = .ok spot ∧ spot' = spot.written dir n data := by
  simp only [resolve_eq_ok_iff]
  constructor
  · rintro ⟨hw, k, hk, h⟩
    obtain ⟨spot, hr, he⟩ := Reaches.unwritten hs h
    exact ⟨spot, ⟨hw, k, hk, hr⟩, he⟩
  · rintro ⟨spot, ⟨hw, k, hk, h⟩, rfl⟩
    exact ⟨hw, k, hk, h.written hs⟩

theorem resolve_follow_of_create {spot : Spot} (h : t.resolve .create p = .ok spot) :
    t.resolve .follow p = .ok spot := by
  obtain ⟨hw, k, hk, hr⟩ := resolve_eq_ok_iff.mp h
  exact resolve_eq_ok_iff.mpr ⟨hw, k, hk, hr.of_create⟩

theorem resolve_holds (ha : t.Anchored) {spot : Spot} (h : t.resolve intent p = .ok spot) :
    spot.Holds t.root intent := by
  obtain ⟨_, _, _, hr⟩ := resolve_eq_ok_iff.mp h
  exact hr.holds (isDirAt_start ha p)

/-! ## Questions to the two trees -/

theorem isDirectory_iff : t.isDirectory p = true ↔
    ∃ place, t.resolve .follow p = .ok (.directory place) := by
  unfold isDirectory
  split
  · next place h => simp [h]
  · next hn => simpa using fun place h => hn place h

theorem isDirectory_written (hs : t.root.Slot dir n) :
    (t.written dir n data).isDirectory p = t.isDirectory p := by
  rw [Bool.eq_iff_iff, isDirectory_iff, isDirectory_iff]
  simp only [resolve_written hs, Spot.written_eq_directory]
  constructor
  · rintro ⟨place, _, h, rfl⟩; exact ⟨place, h⟩
  · rintro ⟨place, h⟩; exact ⟨place, _, h, rfl⟩

/-- The names in a directory, which has none once it has been removed. -/
def namesIn (t : Tree) (place : Place) : List Name :=
  if place.removed ≠ 0 then [] else (t.root.namesAt place.path).getD []

theorem legal_of_namesIn (hw : t.root.WellFormed) {place : Place} {k : Name}
    (hk : k ∈ t.namesIn place) : k.IsLegal := by
  unfold namesIn at hk
  split at hk
  · cases hk
  · cases hns : t.root.namesAt place.path with
    | none => rw [hns] at hk; cases hk
    | some ns =>
      rw [hns] at hk
      exact (Node.wellFormed_iff.mp hw _ ns hns).2 k hk

theorem names_eq_ok_iff {ns : List Name} : t.names p = .ok ns ↔
    ∃ place, t.resolve .follow p = .ok (.directory place) ∧ t.namesIn place = ns := by
  unfold names
  split
  · next h => simp [h]
  · next place h =>
    have hn : (if place.removed ≠ 0 then Except.ok [] else
        .ok ((((t.root.get? place.path).map Node.entries).getD []).map Prod.fst)) =
        (.ok (t.namesIn place) : Except OsError (List Name)) := by
      unfold namesIn Node.namesAt
      cases t.root.get? place.path <;> split <;> rfl
    rw [hn, h]
    simp
  · next h => simp [h]
  · next h => simp [h]

theorem list_eq_ok_iff {es : List Entry} : t.list p = .ok es ↔
    ∃ ns, t.names p = .ok ns ∧ es = ns.map fun n => ⟨n, t.isDirectory (Path.append p n)⟩ := by
  unfold list
  cases t.names p <;> simp [Except.map, eq_comm]

/-- A listing stays the same when a file in the tree is written again. -/
theorem list_written {old : Bytes} (hf : t.root.get? (dir ++ [n]) = some (.file old))
    {es : List Entry} (h : t.list p = .ok es) : (t.written dir n data).list p = .ok es := by
  have hs := Node.Slot.of_file hf
  obtain ⟨ns, hns, rfl⟩ := list_eq_ok_iff.mp h
  obtain ⟨place, hr, rfl⟩ := names_eq_ok_iff.mp hns
  refine list_eq_ok_iff.mpr ⟨_, names_eq_ok_iff.mpr ⟨place, ?_, rfl⟩, ?_⟩
  · exact (resolve_written hs).mpr ⟨_, hr, rfl⟩
  · have hn : (t.written dir n data).namesIn place = t.namesIn place := by
      simp only [namesIn, written, Node.namesAt_write hf]
    simp only [isDirectory_written hs, hn]

theorem load_of_resolve {d : List Name} {k : Name} {content : Bytes}
    (h : t.resolve .follow p = .ok (.entry d k (.file content))) : t.load p = .ok content := by
  unfold load
  rw [h]

theorem resolve_of_load {bytes : Bytes} (h : t.load p = .ok bytes) :
    ∃ d k node, t.resolve .follow p = .ok (.entry d k node) := by
  unfold load at h
  split at h
  · cases h
  · cases h
  · cases h
  · next hr => exact ⟨_, _, _, hr⟩
  · next hr => exact ⟨_, _, _, hr⟩

/-- A file elsewhere is read as before. -/
theorem load_written (hs : t.root.Slot dir n) {d : List Name} {k : Name} {node : Node}
    (h : t.resolve .follow p = .ok (.entry d k node)) (hk : d ++ [k] ≠ dir ++ [n]) :
    (t.written dir n data).load p = t.load p := by
  have hw : (t.written dir n data).resolve .follow p = .ok _ :=
    (resolve_written hs).mpr ⟨_, h, rfl⟩
  rw [Spot.written, if_neg hk] at hw
  unfold load
  rw [hw, h]

/-! ## Writing -/

theorem LeadsToFile.slot (h : t.LeadsToFile intent p dir n) (ha : t.Anchored) :
    t.root.Slot dir n := by
  rcases h with h | ⟨old, h⟩
  · obtain ⟨hd, hg⟩ := resolve_holds ha h
    exact ⟨hd, .inl (Node.get?_eq_none_iff.mp hg)⟩
  · exact Node.Slot.of_file (resolve_holds ha h).1

theorem LeadsToFile.follow (h : t.LeadsToFile .create p dir n) : t.LeadsToFile .follow p dir n :=
  h.imp resolve_follow_of_create fun ⟨old, h⟩ => ⟨old, resolve_follow_of_create h⟩

/-- The path of a file leads to it also after it has been written. -/
theorem LeadsToFile.resolve_written (h : t.LeadsToFile intent p dir n) (ha : t.Anchored)
    (data : Bytes) : (t.written dir n data).resolve intent p = .ok (.entry dir n (.file data)) := by
  have hs := h.slot ha
  rcases h with h | ⟨old, h⟩
  · exact (Tree.resolve_written hs).mpr ⟨_, h, (if_pos rfl).symm⟩
  · exact (Tree.resolve_written hs).mpr ⟨_, h, (if_pos rfl).symm⟩

/-- **What a write does.** A pipe takes the data and the tree stays; otherwise
the path leads to a file, there already or not, and that file is written. -/
theorem store_eq_ok (ha : t.Anchored) {t' : Tree} (h : t.store p data = .ok t') :
    t.LeadsToPipe p ∧ t' = t ∨
      ∃ dir n, t.LeadsToFile .create p dir n ∧ t' = t.written dir n data := by
  unfold store at h
  split at h
  · cases h
  · cases h
  · next dir n hr => cases h; exact .inr ⟨dir, n, .inl hr, rfl⟩
  · next dir n old hr => cases h; exact .inr ⟨dir, n, .inr ⟨old, hr⟩, rfl⟩
  · next dir n node hn hr =>
    cases h
    obtain ⟨_, hd, hl⟩ := resolve_holds ha hr
    cases node with
    | file old => exact absurd rfl (hn old)
    | dir es => exact absurd rfl (hd es)
    | link target => cases hl target rfl
    | fifo => exact .inl ⟨⟨dir, n, resolve_follow_of_create hr⟩, rfl⟩

theorem written_written (t : Tree) (dir : List Name) (n : Name) (a b : Bytes) :
    (t.written dir n a).written dir n b = t.written dir n b := by
  simp only [written, Node.write_write]

/-- A second write to the same path leaves nothing of the first. -/
theorem store_written (ha : t.Anchored) (h : t.LeadsToFile .create p dir n) (again : Bytes) :
    (t.written dir n data).store p again = .ok (t.written dir n again) := by
  rw [← written_written t dir n data again]
  unfold store
  rw [h.resolve_written ha]
  rfl

end Tree
end HeaderDb
