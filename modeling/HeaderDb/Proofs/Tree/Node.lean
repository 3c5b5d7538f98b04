import HeaderDb.Tree.Node

/-! # Look-up after a file has been written

A path is looked up name by name, and writing a file changes one entry of one
directory. What a path holds is described by its shape: the contents of a file,
the target of a link, or that it is a directory or a pipe. The main equation
gives the shape at every path after a write, and two more facts say which names
a directory has then and that the last of two writes alone is left. -/

namespace HeaderDb.Node

/-- What is at the end of a path, without what lies below it. -/
inductive Shape where
  | file (data : Bytes)
  | dir
  | link (target : Bytes)
  | fifo
  deriving Repr, DecidableEq

def shape : Node → Shape
  | .file data => .file data
  | .dir _ => .dir
  | .link target => .link target
  | .fifo => .fifo

/-- The shape at the end of a list of names. -/
def shapeAt (root : Node) (p : List Name) : Option Shape := (root.get? p).map shape

/-- Whether a list of names leads to a directory. -/
def IsDirAt (root : Node) (p : List Name) : Prop := root.shapeAt p = some .dir

/-- Puts a file with the given contents into the directory at `dir`. -/
def write (root : Node) (dir : List Name) (n : Name) (data : Bytes) : Node :=
  root.modify (put n (.file data)) dir

/-! ## Paths in two parts -/

theorem get?_append (root : Node) (p q : List Name) :
    root.get? (p ++ q) = (root.get? p).bind fun node => node.get? q := by
  induction p generalizing root with
  | nil => rfl
  | cons n p ih =>
    simp only [List.cons_append, get?]
    cases root.entries.lookup n with
    | none => rfl
    | some child => exact ih child

theorem isDirAt_iff {root : Node} {p : List Name} :
    root.IsDirAt p ↔ ∃ es, root.get? p = some (.dir es) := by
  unfold IsDirAt shapeAt
  cases h : root.get? p with
  | none => simp
  | some node => cases node <;> simp [shape]

/-- Only a directory has anything below it. -/
theorem isDirAt_of_get? {root : Node} {p : List Name} {n : Name} {node : Node}
    (h : root.get? (p ++ [n]) = some node) : root.IsDirAt p := by
  rw [get?_append] at h
  cases hp : root.get? p with
  | none => rw [hp] at h; cases h
  | some parent =>
    rw [hp] at h
    cases parent with
    | dir es => exact isDirAt_iff.mpr ⟨es, hp⟩
    | file _ | link _ | fifo => simp [get?, entries] at h

/-- What lies one step below a directory lies under one of its names. -/
theorem exists_get?_iff {root : Node} {p : List Name} {es : List (Name × Node)}
    (h : root.get? p = some (.dir es)) {k : Name} :
    (∃ node, root.get? (p ++ [k]) = some node) ↔ ∃ e ∈ es, e.1 = k := by
  have hk : root.get? (p ++ [k]) = es.lookup k := by
    rw [get?_append, h]
    simp [get?, entries]
  rw [hk, ← Option.isSome_iff_exists, List.lookup_isSome_iff]
  constructor
  · intro h
    obtain ⟨e, he, hb⟩ := h
    exact ⟨e, he, (eq_of_beq hb).symm⟩
  · intro h
    obtain ⟨e, he, hb⟩ := h
    exact ⟨e, he, beq_iff_eq.mpr hb.symm⟩

theorem IsDirAt.dropLast {root : Node} {p : List Name} (h : root.IsDirAt p) :
    root.IsDirAt p.dropLast := by
  cases hp : p.reverse with
  | nil =>
    have : p = [] := by simpa using hp
    subst this
    exact h
  | cons n rest =>
    have he : p = rest.reverse ++ [n] := by simpa using congrArg List.reverse hp
    subst he
    obtain ⟨es, hes⟩ := isDirAt_iff.mp h
    rw [List.dropLast_concat]
    exact isDirAt_of_get? hes

/-! ## One entry changed -/

theorem lookup_cons_ne {n k : Name} (h : n ≠ k) (child : Node) (es : List (Name × Node)) :
    ((k, child) :: es).lookup n = es.lookup n := by
  have hb : (n == k) = false := beq_eq_false_iff_ne.mpr h
  simp [List.lookup_cons, hb]

theorem lookup_change (g : Node → Node) (n m : Name) (es : List (Name × Node)) :
    (es.map fun (k, child) => if k = n then (k, g child) else (k, child)).lookup m =
      if m = n then (es.lookup m).map g else es.lookup m := by
  induction es with
  | nil => simp
  | cons e es ih =>
    obtain ⟨k, child⟩ := e
    simp only [List.map_cons]
    by_cases hk : k = n
    · subst hk
      by_cases hm : m = k
      · subst hm; simp
      · rw [if_pos rfl, lookup_cons_ne hm, lookup_cons_ne hm, ih]
    · by_cases hm : m = k
      · subst hm; simp [hk]
      · rw [if_neg hk, lookup_cons_ne hm, lookup_cons_ne hm, ih]

theorem lookup_eq_none {n : Name} {es : List (Name × Node)}
    (h : ¬ (es.any fun e => e.1 = n) = true) : es.lookup n = none := by
  rw [List.lookup_eq_none_iff]
  intro e he
  have hn : e.1 ≠ n := by
    intro hn
    exact h (List.any_eq_true.mpr ⟨e, he, by simpa using hn⟩)
  exact bne_iff_ne.mpr hn.symm

theorem lookup_put (n m : Name) (child : Node) (es : List (Name × Node)) :
    (put n child (.dir es)).entries.lookup m = if m = n then some child else es.lookup m := by
  rw [put]
  split
  · next h =>
    have hc : (es.map fun e => if e.1 = n then (n, child) else e) =
        es.map fun (k, c) => if k = n then (k, (fun _ => child) c) else (k, c) := by
      apply List.map_congr_left
      rintro ⟨k, c⟩ _
      by_cases hk : k = n <;> simp [hk]
    rw [entries, hc, lookup_change fun _ => child]
    split
    · next hm =>
      subst hm
      cases hl : es.lookup m with
      | some c => rfl
      | none =>
        obtain ⟨e, he, hk⟩ := List.any_eq_true.mp h
        have := List.lookup_eq_none_iff.mp hl e he
        simp_all
    · rfl
  · next h =>
    simp only [entries, List.lookup_append]
    by_cases hm : m = n
    · subst hm; simp [lookup_eq_none h]
    · simp [hm, lookup_cons_ne]

theorem get?_put_cons (n m : Name) (child : Node) (es : List (Name × Node)) (p : List Name) :
    (put n child (.dir es)).get? (m :: p) =
      if m = n then child.get? p else (Node.dir es).get? (m :: p) := by
  simp only [get?, lookup_put]
  split <;> rfl

/-- Below the place of a change, the tree is that of the changed node. -/
theorem get?_modify_append (f : Node → Node) (p q : List Name) (root : Node) :
    (root.modify f p).get? (p ++ q) = (root.get? p).bind fun node => (f node).get? q := by
  induction p generalizing root with
  | nil => rfl
  | cons n p ih =>
    cases root with
    | dir es =>
      simp only [modify, List.cons_append, get?, entries, lookup_change, if_true]
      cases es.lookup n with
      | none => rfl
      | some child => exact ih child
    | file _ | link _ | fifo => rfl

/-- A view of a node that no change of an entry in place can be seen in. -/
def Steady {β : Type} (v : Node → β) : Prop :=
  ∀ (g : Node → Node) (n : Name) (es : List (Name × Node)),
    v (.dir (es.map fun (k, child) => if k = n then (k, g child) else (k, child))) = v (.dir es)

/-- Elsewhere a steady view sees no change. -/
theorem view_modify {β : Type} {v : Node → β} (hv : Steady v) (f : Node → Node)
    {p q : List Name} (h : ¬ p <+: q) (root : Node) :
    ((root.modify f p).get? q).map v = (root.get? q).map v := by
  induction p generalizing q root with
  | nil => exact absurd List.nil_prefix h
  | cons n p ih =>
    cases root with
    | dir es =>
      cases q with
      | nil => exact congrArg some (hv (modify f p) n es)
      | cons m q =>
        simp only [modify, get?, entries, lookup_change]
        split
        · next hm =>
          subst hm
          have hp : ¬ p <+: q := fun hp => h (List.cons_prefix_cons.mpr ⟨rfl, hp⟩)
          cases es.lookup m with
          | none => rfl
          | some child => exact ih hp child
        · rfl
    | file _ | link _ | fifo => rfl

theorem steady_shape : Steady shape := fun _ _ _ => rfl

/-! ## A file written -/

/-- A place for a file: a name in a directory with nothing under it, or a file. -/
structure Slot (root : Node) (dir : List Name) (n : Name) : Prop where
  parent : root.IsDirAt dir
  free : root.shapeAt (dir ++ [n]) = none ∨ ∃ old, root.shapeAt (dir ++ [n]) = some (.file old)

theorem shapeAt_below {root : Node} {p : List Name} (h : ¬ root.IsDirAt p) (n : Name)
    (q : List Name) : root.shapeAt (p ++ n :: q) = none := by
  unfold shapeAt
  rw [get?_append]
  cases hp : root.get? p with
  | none => rfl
  | some node =>
    cases node with
    | dir es => exact absurd (isDirAt_iff.mpr ⟨es, hp⟩) h
    | file _ | link _ | fifo => rfl

/-- **A write changes the shape of one path.** -/
theorem shapeAt_write {root : Node} {dir : List Name} {n : Name} (hs : root.Slot dir n)
    (data : Bytes) (q : List Name) :
    (root.write dir n data).shapeAt q =
      if q = dir ++ [n] then some (.file data) else root.shapeAt q := by
  obtain ⟨es, hes⟩ := isDirAt_iff.mp hs.parent
  by_cases hp : dir <+: q
  · obtain ⟨r, rfl⟩ := hp
    simp only [shapeAt, write, get?_modify_append, hes, Option.bind_some,
      List.append_cancel_left_eq]
    cases r with
    | nil =>
      rw [if_neg (by simp), List.append_nil, hes]
      simp only [get?, put]
      split <;> rfl
    | cons m r =>
      rw [get?_put_cons]
      by_cases hm : m = n
      · subst hm
        cases r with
        | nil => simp [get?, shape]
        | cons k r =>
          have hf : ¬ root.IsDirAt (dir ++ [m]) := by
            unfold IsDirAt
            rcases hs.free with h | ⟨old, h⟩ <;> simp [h]
          rw [if_pos rfl, if_neg (by simp)]
          simpa [shapeAt, get?_append, hes, get?, entries, eq_comm] using shapeAt_below hf k r
      · rw [if_neg hm, if_neg (by simp [hm]), get?_append, hes]
        rfl
  · rw [if_neg]
    · exact view_modify steady_shape _ hp root
    · rintro rfl
      exact hp (List.prefix_append dir [n])

/-- The names in the directory at the end of a list of names. -/
def namesAt (root : Node) (p : List Name) : Option (List Name) :=
  (root.get? p).map fun node => node.entries.map Prod.fst

theorem steady_names : Steady fun node => node.entries.map Prod.fst := by
  intro g n es
  simp only [entries, List.map_map]
  apply List.map_congr_left
  rintro ⟨k, child⟩ _
  by_cases hk : k = n <;> simp [hk]

theorem map_fst_put {n : Name} {child : Node} {es : List (Name × Node)}
    (h : es.lookup n ≠ none) :
    (put n child (.dir es)).entries.map Prod.fst = es.map Prod.fst := by
  have ha : (es.any fun e => e.1 = n) = true :=
    Decidable.byContradiction fun hn => h (lookup_eq_none hn)
  rw [put, if_pos ha, entries, List.map_map]
  apply List.map_congr_left
  rintro ⟨k, c⟩ _
  by_cases hk : k = n <;> simp [hk]

/-- A file that was there is written without a change of names. -/
theorem namesAt_write {root : Node} {dir : List Name} {n : Name} {old : Bytes}
    (hf : root.get? (dir ++ [n]) = some (.file old)) (data : Bytes) (q : List Name) :
    (root.write dir n data).namesAt q = root.namesAt q := by
  obtain ⟨es, hes⟩ := isDirAt_iff.mp (isDirAt_of_get? hf)
  have hn : es.lookup n = some (.file old) := by
    simpa [get?_append, hes, get?, entries] using hf
  by_cases hp : dir <+: q
  · obtain ⟨r, rfl⟩ := hp
    simp only [namesAt, write, get?_modify_append, get?_append root, hes, Option.bind_some]
    cases r with
    | nil => exact congrArg some (map_fst_put (by simp [hn]))
    | cons m r =>
      rw [get?_put_cons]
      by_cases hm : m = n
      · subst hm
        rw [if_pos rfl, get?, entries, hn]
        cases r <;> rfl
      · rw [if_neg hm]
  · exact view_modify steady_names _ hp root

theorem put_put (n : Name) (a b : Node) (node : Node) :
    put n b (put n a node) = put n b node := by
  cases node with
  | dir es =>
    by_cases ha : (es.any fun e => e.1 = n) = true
    · have hb : ((es.map fun e => if e.1 = n then (n, a) else e).any fun e => e.1 = n) = true := by
        obtain ⟨e, he, hk⟩ := List.any_eq_true.mp ha
        refine List.any_eq_true.mpr ⟨(n, a), List.mem_map.mpr ⟨e, he, ?_⟩, by simp⟩
        exact if_pos (by simpa using hk)
      simp only [put, if_pos ha, if_pos hb, List.map_map]
      congr 1
      apply List.map_congr_left
      rintro ⟨k, c⟩ _
      by_cases hk : k = n <;> simp [hk]
    · have hs : (es.map fun e => if e.1 = n then (n, b) else e) = es := by
        refine Eq.trans (List.map_congr_left ?_) (List.map_id es)
        intro e he
        exact if_neg fun hk => ha (List.any_eq_true.mpr ⟨e, he, by simpa using hk⟩)
      simp [put, ha, hs]
  | file _ | link _ | fifo => rfl

theorem modify_modify (f g : Node → Node) (p : List Name) (root : Node) :
    (root.modify f p).modify g p = root.modify (fun node => g (f node)) p := by
  induction p generalizing root with
  | nil => rfl
  | cons n p ih =>
    cases root with
    | dir es =>
      simp only [modify, List.map_map]
      congr 1
      apply List.map_congr_left
      rintro ⟨k, child⟩ _
      by_cases hk : k = n <;> simp [hk, ih]
    | file _ | link _ | fifo => rfl

/-- Of two writes to the same place the last one counts. -/
theorem write_write (root : Node) (dir : List Name) (n : Name) (a b : Bytes) :
    (root.write dir n a).write dir n b = root.write dir n b := by
  simp only [write, modify_modify, put_put]

/-! ## Well-formed trees -/

instance (n : Name) : Decidable n.IsLegal := inferInstanceAs (Decidable (_ ∧ _))

theorem wellFormed_iff {root : Node} : root.WellFormed ↔ ∀ q ns, root.namesAt q = some ns →
    ns.Nodup ∧ ∀ n ∈ ns, n.IsLegal := by
  constructor
  · intro hw q ns hq
    obtain ⟨node, hg, rfl⟩ := Option.map_eq_some_iff.mp hq
    cases node with
    | dir es =>
      obtain ⟨hn, hl⟩ := hw q es hg
      exact ⟨hn, by simpa [entries] using hl⟩
    | file _ | link _ | fifo => simp [entries]
  · intro h q es hg
    obtain ⟨hn, hl⟩ := h q (es.map Prod.fst) (by rw [namesAt, hg]; rfl)
    exact ⟨hn, fun e he => hl e.1 (List.mem_map.mpr ⟨e, he, rfl⟩)⟩

/-- Whatever is in a well-formed tree has a legal name. -/
theorem WellFormed.legal_name {root node : Node} (hw : root.WellFormed) {p : List Name} {n : Name}
    (h : root.get? (p ++ [n]) = some node) : n.IsLegal := by
  obtain ⟨es, hes⟩ := isDirAt_iff.mp (isDirAt_of_get? h)
  obtain ⟨e, he, rfl⟩ := (exists_get?_iff hes).mp ⟨_, h⟩
  exact (hw p es hes).2 e he

/-- What is no directory has no names to be wrong. -/
theorem wellFormed_leaf {node : Node} (h : ∀ es, node ≠ .dir es) : node.WellFormed := by
  intro path es hes
  cases path with
  | nil => exact absurd (Option.some.inj hes) (h es)
  | cons n path =>
    cases node with
    | dir es' => exact absurd rfl (h es')
    | file _ | link _ | fifo => simp [get?, entries] at hes

theorem wellFormed_dir {es : List (Name × Node)} (hn : (es.map Prod.fst).Nodup)
    (hl : ∀ e ∈ es, e.1.IsLegal) (hc : ∀ e ∈ es, e.2.WellFormed) : (Node.dir es).WellFormed := by
  intro path es' h
  cases path with
  | nil => cases h; exact ⟨hn, hl⟩
  | cons n path =>
    obtain ⟨child, hk, hg⟩ := Option.bind_eq_some_iff.mp h
    obtain ⟨before, after, he, _⟩ := List.lookup_eq_some_iff.mp hk
    have hmem : (n, child) ∈ (Node.dir es).entries := by simp [he]
    exact hc _ hmem path es' hg

end HeaderDb.Node
