import HeaderDb.Proofs.Tree.Join

/-! # Paths as seen from the root

The path of the current directory joined with a relative path leads where the
relative path leads. Its components are the names down to the current directory,
each of them a directory and none a link, and then those of the relative path; so
the walk from the root passes the current directory with all its links left. The
one thing that joining can spoil is the length of the path. From this follows one
equation for every question about a tree. -/

namespace HeaderDb

/-! ## Components of a path with names in front -/

theorem componentsFrom_append (started n q : Bytes) (h : Path.slash ∉ n) :
    componentsFrom started (n ++ q) = componentsFrom (n.reverse ++ started) q := by
  induction n generalizing started with
  | nil => rfl
  | cons b n ih =>
    have hb : b ≠ Path.slash := fun e => h (e ▸ List.mem_cons_self)
    rw [List.cons_append, componentsFrom, if_pos hb, ih _ fun hm => h (List.mem_cons_of_mem _ hm)]
    simp

/-- The path of a directory that is not the root, by its names. -/
def absolutePath (names : List Name) : Bytes := names.flatMap fun n => Path.slash :: n

theorem not_all_slash {c : UInt8} (hc : c ≠ Path.slash) {q : Bytes} (hq : c ∈ q) :
    q.all (· = Path.slash) = false :=
  List.all_eq_false.mpr ⟨c, hq, by simpa using hc⟩

/-- The components of an absolute path, where what follows the names holds more
than slashes. -/
theorem components_absolutePath {names : List Name} (hn : ∀ n ∈ names, n.IsLegal) {p : Bytes}
    {c : UInt8} (hc : c ≠ Path.slash) (hp : c ∈ p) :
    components (absolutePath names ++ Path.slash :: p) = names.map .name ++ components p := by
  unfold components
  induction names with
  | nil => exact componentsFrom_slash [] (not_all_slash hc hp)
  | cons n names ih =>
    have hl := hn n List.mem_cons_self
    have ih := ih fun m hm => hn m (List.mem_cons_of_mem _ hm)
    obtain ⟨q, hq⟩ : ∃ q, absolutePath names ++ Path.slash :: p = Path.slash :: q := by
      cases names with
      | nil => exact ⟨p, rfl⟩
      | cons m names => exact ⟨m ++ absolutePath names ++ Path.slash :: p, by simp [absolutePath]⟩
    have hmem : c ∈ q := by
      have hm : c ∈ Path.slash :: q := by rw [← hq]; simp [hp]
      exact (List.mem_cons.mp hm).resolve_left hc
    have hslash (started : Name) := componentsFrom_slash started (not_all_slash hc hmem)
    have he : absolutePath (n :: names) ++ Path.slash :: p =
        Path.slash :: (n ++ Path.slash :: q) := by
      rw [← hq]
      simp [absolutePath]
    have hone : componentsFrom n.reverse [] = [.name n] := by
      simp [componentsFrom, hl.1, Component.ofName_legal hl]
    rw [hq, hslash] at ih
    rw [he, componentsFrom_slash [] (not_all_slash hc (by simp [hmem])),
      componentsFrom_append [] n _ hl.2.2.2.1, List.append_nil, hslash, hone]
    simpa [componentsFrom] using ih

/-- No component stands before the mark of a slash at the end. -/
theorem head?_componentsFrom (started : Name) (p : Bytes) :
    (componentsFrom started p).head? ≠ some .slash := by
  induction p generalizing started with
  | nil =>
    rw [componentsFrom]
    split <;> simp [Component.ofName_ne_slash]
  | cons b p ih =>
    rw [componentsFrom]
    split
    · exact ih _
    · split
      · exact ih _
      · split <;> simp [Component.ofName_ne_slash]

/-! ## The walk down to a directory -/

namespace Node

theorem IsDirAt.of_append {root : Node} {p q : List Name} (h : root.IsDirAt (p ++ q)) :
    root.IsDirAt p := by
  cases q with
  | nil => rwa [List.append_nil] at h
  | cons n q =>
    by_cases hp : root.IsDirAt p
    · exact hp
    · have hn := shapeAt_below hp n q
      rw [h] at hn
      cases hn

theorem WellFormed.legal {root : Node} (hw : root.WellFormed) {p : List Name} {n : Name}
    (h : root.IsDirAt (p ++ [n])) : n.IsLegal := by
  obtain ⟨es, hes⟩ := isDirAt_iff.mp h
  exact hw.legal_name hes

/-- The names on the way to a directory are legal. -/
theorem WellFormed.legal_path {root : Node} (hw : root.WellFormed) {p q : List Name}
    (h : root.IsDirAt (p ++ q)) : ∀ n ∈ q, n.IsLegal := by
  induction q generalizing p with
  | nil => simp
  | cons n q ih =>
    have he : p ++ n :: q = (p ++ [n]) ++ q := by simp
    rw [he] at h
    intro k hk
    rcases List.mem_cons.mp hk with rfl | hk
    · exact hw.legal h.of_append
    · exact ih h k hk

end Node

/-- A walk along the names of directories goes down to the last of them. -/
theorem walk_names {root : Node} (hw : root.WellFormed) (intent : Intent) (m : Nat)
    {p q : List Name} (hd : root.IsDirAt (p ++ q)) {cs : List Component} (hcs : cs ≠ [.slash]) :
    walk root intent m ⟨p, 0⟩ (q.map .name ++ cs) = walk root intent m ⟨p ++ q, 0⟩ cs := by
  rw [walk_eq]
  induction q generalizing p with
  | nil => simp
  | cons n q ih =>
    have he : p ++ n :: q = (p ++ [n]) ++ q := by simp
    rw [he] at hd ⊢
    obtain ⟨es, hes⟩ := Node.isDirAt_iff.mp hd.of_append
    have hp : Passable intent ⟨p, 0⟩ n (q.map .name ++ cs) := by
      refine ⟨?_, rfl, (hw.legal hd.of_append).2.2.2.2.2⟩
      rintro ⟨_, hs⟩
      cases q with
      | nil => exact hcs hs
      | cons k q => cases hs
    rw [List.map_cons, List.cons_append, advance_name hp, hes]
    exact ih hd

theorem Path.ne_nil_of_isAbsolute {p : Bytes} (h : Path.isAbsolute p = true) : p ≠ [] := by
  rintro rfl
  cases h

namespace Tree

/-- The tree with another current directory. -/
def movedTo (t : Tree) (place : Place) : Tree := { t with current := place }

variable {t : Tree} {here p : Bytes}

/-! ## Absolute paths -/

theorem resolve_movedTo (hp : Path.isAbsolute p = true) (place : Place) (intent : Intent) :
    (t.movedTo place).resolve intent p = t.resolve intent p := by
  simp [resolve, movedTo, Place.start, hp]

theorem list_movedTo (hp : Path.isAbsolute p = true) (place : Place) :
    (t.movedTo place).list p = t.list p := by
  have hne := Path.ne_nil_of_isAbsolute hp
  have hn : (t.movedTo place).names p = t.names p := by
    unfold names
    rw [resolve_movedTo hp]
    rfl
  have hd (n : Name) : (t.movedTo place).isDirectory (Path.append p n) =
      t.isDirectory (Path.append p n) := by
    unfold isDirectory
    rw [resolve_movedTo ((Path.isAbsolute_append hne n).trans hp)]
  simp only [list, hn, hd]

/-! ## Joined paths -/

theorem currentDirectory_eq_ok_iff : t.currentDirectory = .ok here ↔
    t.current.removed = 0 ∧
      here = if t.current.path = [] then [Path.slash] else absolutePath t.current.path := by
  unfold currentDirectory
  by_cases hr : t.current.removed = 0
  · by_cases hp : t.current.path = []
    · simp only [hr, hp, ne_eq, not_true_eq_false, if_false, List.isEmpty_nil, if_true,
        Except.ok.injEq, true_and]
      exact eq_comm
    · rw [if_neg (by simp [hr]), if_neg (by simpa using hp), if_neg hp]
      simp only [hr, Except.ok.injEq, true_and]
      exact eq_comm
  · simp [hr]

/-- A relative path joined to the path of the current directory. -/
theorem join_here (hw : t.WellFormed) (hc : t.currentDirectory = .ok here)
    (hp : Path.isAbsolute p = false) :
    Path.join here p = absolutePath t.current.path ++ Path.slash :: p := by
  obtain ⟨_, rfl⟩ := currentDirectory_eq_ok_iff.mp hc
  rw [Path.join, if_neg (by simp [hp])]
  split
  · next he => rw [he]; rfl
  · next hne =>
    -- the last name is not empty and does not end in a slash
    have hlegal := hw.names.legal_path (p := []) hw.anchored
    obtain ⟨names, n, hn⟩ : ∃ names n, t.current.path = names ++ [n] :=
      ⟨_, _, (List.dropLast_concat_getLast hne).symm⟩
    have hl : n.IsLegal := hlegal n (by simp [hn])
    have hlast : (absolutePath t.current.path).getLast? = n.getLast? := by
      obtain ⟨b, n, rfl⟩ := List.exists_cons_of_ne_nil hl.1
      simp [hn, absolutePath, List.getLast?_cons]
    have hslash : (absolutePath t.current.path).getLast? ≠ some Path.slash := by
      rw [hlast]
      intro h
      exact hl.2.2.2.1 (List.mem_of_getLast? h)
    have hne' : absolutePath t.current.path ≠ [] := by simp [hn, absolutePath]
    rw [Path.append, if_neg (by simp [hslash, hne'])]

theorem isAbsolute_here (hc : t.currentDirectory = .ok here) : Path.isAbsolute here = true := by
  obtain ⟨_, rfl⟩ := currentDirectory_eq_ok_iff.mp hc
  split
  · rfl
  · next hne =>
    obtain ⟨n, names, hn⟩ := List.exists_cons_of_ne_nil hne
    simp [hn, absolutePath, Path.isAbsolute]

theorem isAbsolute_join (hc : t.currentDirectory = .ok here) (p : Bytes) :
    Path.isAbsolute (Path.join here p) = true := by
  have hh := isAbsolute_here hc
  unfold Path.join
  split
  · next hp => exact hp
  · rwa [Path.isAbsolute_append (Path.ne_nil_of_isAbsolute hh)]

/-- The path of the current directory holds no zero byte. -/
theorem zero_not_mem_absolutePath (hw : t.WellFormed) :
    (0 : UInt8) ∉ absolutePath t.current.path := by
  have hlegal := hw.names.legal_path (p := []) hw.anchored
  intro h
  obtain ⟨n, hn, hz⟩ := List.mem_flatMap.mp h
  rcases List.mem_cons.mp hz with hz | hz
  · exact absurd hz (by decide)
  · exact (hlegal n hn).2.2.2.2.1 hz

theorem resolve_of_walkable (hp : Walkable p) (intent : Intent) :
    t.resolve intent p = walk t.root intent maxLinks (t.current.start p) (components p) := by
  rw [resolve, if_neg (by simpa using hp.nonzero), if_neg (Nat.not_lt.mpr hp.fits),
    if_neg (by simpa using hp.nonempty)]

/-- **A joined path leads where the relative path leads,** from any current
directory, unless joining makes it too long. -/
theorem resolve_join (hw : t.WellFormed) (hc : t.currentDirectory = .ok here) (hp : p ≠ [])
    (hfits : Walkable p → (Path.join here p).length ≤ maxPathLength) (place : Place)
    (intent : Intent) :
    (t.movedTo place).resolve intent (Path.join here p) = t.resolve intent p := by
  cases ha : Path.isAbsolute p with
  | true => rw [Path.join, if_pos ha, resolve_movedTo ha]
  | false =>
    have hj := join_here hw hc ha
    by_cases hz : 0 ∈ p
    · rw [resolve, resolve, if_pos (by simp [hj, hz]), if_pos (by simpa using hz)]
    · have hzj : 0 ∉ Path.join here p := by
        rw [hj]
        simp only [List.mem_append, List.mem_cons, not_or]
        exact ⟨zero_not_mem_absolutePath hw, by decide, hz⟩
      by_cases hlen : p.length ≤ maxPathLength
      · have hpw : Walkable p := ⟨hz, hlen, hp⟩
        have hjw : Walkable (Path.join here p) := ⟨hzj, hfits hpw, by simp [hj]⟩
        obtain ⟨b, q, rfl⟩ := List.exists_cons_of_ne_nil hp
        have hb : b ≠ Path.slash := by simpa [Path.isAbsolute] using ha
        have hcs : components (b :: q) ≠ [.slash] := by
          intro h
          exact head?_componentsFrom [] (b :: q) (by rw [← components, h]; rfl)
        have hcur : (⟨t.current.path, 0⟩ : Place) = t.current := by
          rw [← (currentDirectory_eq_ok_iff.mp hc).1]
        have hwalk := walk_names hw.names intent maxLinks (p := []) hw.anchored hcs
        rw [List.nil_append, hcur] at hwalk
        rw [resolve_of_walkable hjw, resolve_of_walkable hpw, Place.start, Place.start,
          if_pos (isAbsolute_join hc _), if_neg (by simp [ha]), hj,
          components_absolutePath (hw.names.legal_path (p := []) hw.anchored) hb List.mem_cons_self]
        exact hwalk
      · have hlj : maxPathLength < (Path.join here p).length := by
          rw [hj, List.length_append, List.length_cons]
          omega
        rw [resolve, resolve, if_neg (by simpa using hzj), if_pos hlj, if_neg (by simpa using hz),
          if_pos (Nat.not_le.mp hlen)]

theorem load_join (hw : t.WellFormed) (hc : t.currentDirectory = .ok here) (hp : p ≠ [])
    (hfits : Walkable p → (Path.join here p).length ≤ maxPathLength) (place : Place) :
    (t.movedTo place).load (Path.join here p) = t.load p := by
  unfold load
  rw [resolve_join hw hc hp hfits]

theorem store_join (hw : t.WellFormed) (hc : t.currentDirectory = .ok here) (hp : p ≠ [])
    (hfits : Walkable p → (Path.join here p).length ≤ maxPathLength) (place : Place)
    (data : Bytes) :
    (t.movedTo place).store (Path.join here p) data =
      (t.store p data).map fun u => u.movedTo place := by
  unfold store
  rw [resolve_join hw hc hp hfits]
  cases t.resolve .create p with
  | error e => rfl
  | ok spot =>
    cases spot with
    | directory _ | absent _ _ => rfl
    | entry dir n node => cases node <;> rfl

end Tree
end HeaderDb
