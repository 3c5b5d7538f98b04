import HeaderDb.Proofs.Tree.Node
import HeaderDb.Tree.Walk

/-! # Path resolution as a relation

`Reaches` says where a walk along components ends and how many links it follows
on the way, one rule for each way to go on. `walk_eq_ok_iff` ties it to the
function that is run: a walk succeeds exactly when the relation ends somewhere
within the links that are allowed. Laws of path resolution are then inductions
on the rules: where a walk can end, and how a walk along two paths one after the
other divides the links between them. -/

namespace HeaderDb

/-- Nothing stands against looking up `n` in the directory `here`. -/
structure Passable (intent : Intent) (here : Place) (n : Name) (rest : List Component) : Prop where
  creatable : ¬ (intent = .create ∧ rest = [.slash])
  live : here.removed = 0
  short : n.length ≤ maxNameLength

/-- A walk from `here` along components ends at a spot after following `links`
links. -/
inductive Reaches (root : Node) (intent : Intent) :
    (links : Nat) → Place → List Component → Spot → Prop where
  | stop {here} : Reaches root intent 0 here [] (.directory here)
  | here {links here rest spot} : Reaches root intent links here rest spot →
      Reaches root intent links here (.here :: rest) spot
  | slash {links here rest spot} : Reaches root intent links here rest spot →
      Reaches root intent links here (.slash :: rest) spot
  | up {links here rest spot} : Reaches root intent links here.parent rest spot →
      Reaches root intent links here (.up :: rest) spot
  | enter {links here n rest es spot} : Passable intent here n rest →
      root.get? (here.path ++ [n]) = some (.dir es) →
      Reaches root intent links ⟨here.path ++ [n], 0⟩ rest spot →
      Reaches root intent links here (.name n :: rest) spot
  | follow {links here n rest target spot} : Passable intent here n rest →
      root.get? (here.path ++ [n]) = some (.link target) → ¬ (rest = [] ∧ intent = .keep) →
      Reaches root intent links (here.start target) (components target ++ rest) spot →
      Reaches root intent (links + 1) here (.name n :: rest) spot
  | absent {here n} : Passable intent here n [] → root.get? (here.path ++ [n]) = none →
      Reaches root intent 0 here [.name n] (.absent here.path n)
  | entry {here n node} : Passable intent here n [] →
      root.get? (here.path ++ [n]) = some node → (∀ es, node ≠ .dir es) →
      (∀ target, node = .link target → intent = .keep) →
      Reaches root intent 0 here [.name n] (.entry here.path n node)

/-! ## The relation is the walk -/

theorem reaches_of_advance {root : Node} {intent : Intent}
    {follow : Place → List Component → Except OsError Spot} {m : Nat}
    (hf : ∀ {here cs spot}, follow here cs = .ok spot →
      ∃ k, k < m ∧ Reaches root intent k here cs spot)
    {here : Place} {cs : List Component} {spot : Spot}
    (h : advance root intent follow here cs = .ok spot) :
    ∃ k, k ≤ m ∧ Reaches root intent k here cs spot := by
  induction cs generalizing here with
  | nil => cases h; exact ⟨0, Nat.zero_le _, .stop⟩
  | cons c rest ih =>
    cases c with
    | here => obtain ⟨k, hk, hr⟩ := ih h; exact ⟨k, hk, .here hr⟩
    | slash => obtain ⟨k, hk, hr⟩ := ih h; exact ⟨k, hk, .slash hr⟩
    | up => obtain ⟨k, hk, hr⟩ := ih h; exact ⟨k, hk, .up hr⟩
    | name n =>
      simp only [advance] at h
      split at h
      · cases h
      · next hc =>
        split at h
        · cases h
        · next hl =>
          split at h
          · cases h
          · next hn =>
            have hp : Passable intent here n rest :=
              ⟨by simpa using hc, by simpa using hl, by omega⟩
            split at h
            · next hg =>
              split at h
              · next he =>
                cases h
                have hr : rest = [] := by simpa using he
                subst hr
                exact ⟨0, Nat.zero_le _, .absent hp hg⟩
              · cases h
            · next hg => obtain ⟨k, hk, hr⟩ := ih h; exact ⟨k, hk, .enter hp hg hr⟩
            · next hg =>
              split at h
              · next he =>
                cases h
                obtain ⟨hr, hi⟩ : rest = [] ∧ intent = .keep := by simpa using he
                subst hr
                exact ⟨0, Nat.zero_le _, .entry hp hg (by simp) (fun _ _ => hi)⟩
              · next he =>
                obtain ⟨k, hk, hr⟩ := hf h
                exact ⟨k + 1, hk, .follow hp hg (by simpa using he) hr⟩
            · next hd hl' hg =>
              split at h
              · next he =>
                cases h
                have hr : rest = [] := by simpa using he
                subst hr
                exact ⟨0, Nat.zero_le _, .entry hp hg hd fun target ht => absurd ht (hl' target)⟩
              · cases h

theorem reaches_of_walk {root : Node} {intent : Intent} {m : Nat} {here : Place}
    {cs : List Component} {spot : Spot} (h : walk root intent m here cs = .ok spot) :
    ∃ k, k ≤ m ∧ Reaches root intent k here cs spot := by
  induction m generalizing here cs spot with
  | zero => exact reaches_of_advance (fun hf => by cases hf) h
  | succ m ih =>
    refine reaches_of_advance (fun hf => ?_) h
    obtain ⟨k, hk, hr⟩ := ih hf
    exact ⟨k, Nat.lt_succ_of_le hk, hr⟩

/-- What a walk does after a link. -/
def followUp (root : Node) (intent : Intent) : Nat → Place → List Component → Except OsError Spot
  | 0 => fun _ _ => .error .linkLoop
  | links + 1 => walk root intent links

theorem walk_eq (root : Node) (intent : Intent) (m : Nat) :
    walk root intent m = advance root intent (followUp root intent m) := by
  cases m <;> rfl

theorem advance_name {root : Node} {intent : Intent}
    {follow : Place → List Component → Except OsError Spot} {here : Place} {n : Name}
    {rest : List Component} (hp : Passable intent here n rest) :
    advance root intent follow here (.name n :: rest) =
      match root.get? (here.path ++ [n]) with
      | none => if rest.isEmpty then .ok (.absent here.path n) else .error .notFound
      | some (.dir _) => advance root intent follow ⟨here.path ++ [n], 0⟩ rest
      | some (.link target) =>
        if rest.isEmpty && intent = .keep then .ok (.entry here.path n (.link target))
        else follow (here.start target) (components target ++ rest)
      | some node =>
        if rest.isEmpty then .ok (.entry here.path n node) else .error .notADirectory := by
  have hc : (intent = .create && rest = [.slash]) = false := by simpa using hp.creatable
  rw [advance, hc, if_neg (by simp), if_neg (by simp [hp.live])]
  exact if_neg (Nat.not_lt.mpr hp.short)

theorem walk_of_reaches {root : Node} {intent : Intent} {k m : Nat} {here : Place}
    {cs : List Component} {spot : Spot} (h : Reaches root intent k here cs spot) (hk : k ≤ m) :
    walk root intent m here cs = .ok spot := by
  induction h generalizing m with
  | stop => rw [walk_eq]; rfl
  | here _ ih | slash _ ih | up _ ih =>
    have := ih hk
    rw [walk_eq] at this ⊢
    exact this
  | enter hp hg _ ih =>
    have := ih hk
    rw [walk_eq] at this ⊢
    rw [advance_name hp, hg]
    exact this
  | follow hp hg hi _ ih =>
    cases m with
    | zero => omega
    | succ m =>
      rw [walk_eq, advance_name hp, hg]
      simp only
      rw [if_neg (by simpa using hi)]
      exact ih (by omega)
  | absent hp hg => rw [walk_eq, advance_name hp, hg]; rfl
  | @entry here n node hp hg hd hl =>
    rw [walk_eq, advance_name hp, hg]
    cases node with
    | dir es => exact absurd rfl (hd es)
    | link target => simp [hl target rfl]
    | file _ | fifo => rfl

/-- **A walk is the relation within its number of links.** -/
theorem walk_eq_ok_iff {root : Node} {intent : Intent} {m : Nat} {here : Place}
    {cs : List Component} {spot : Spot} :
    walk root intent m here cs = .ok spot ↔ ∃ k, k ≤ m ∧ Reaches root intent k here cs spot :=
  ⟨reaches_of_walk, fun ⟨_, hk, h⟩ => walk_of_reaches h hk⟩

/-- A walk ends at one spot only. -/
theorem Reaches.spot_unique {root : Node} {intent : Intent} {j k : Nat} {here : Place}
    {cs : List Component} {s s' : Spot} (h : Reaches root intent j here cs s)
    (h' : Reaches root intent k here cs s') : s = s' := by
  have hw := walk_of_reaches h (Nat.le_max_left j k)
  rw [walk_of_reaches h' (Nat.le_max_right j k)] at hw
  exact (Except.ok.inj hw).symm

/-! ## Where a walk can end -/

/-- What a spot says about the tree. -/
def Spot.Holds (root : Node) (intent : Intent) : Spot → Prop
  | .directory place => root.IsDirAt place.path
  | .absent dir n => root.IsDirAt dir ∧ root.get? (dir ++ [n]) = none
  | .entry dir n node => root.get? (dir ++ [n]) = some node ∧ (∀ es, node ≠ .dir es) ∧
      ∀ target, node = .link target → intent = .keep

theorem isDirAt_parent {root : Node} {here : Place} (h : root.IsDirAt here.path) :
    root.IsDirAt here.parent.path := by
  unfold Place.parent
  split
  · exact h.dropLast
  · exact h

theorem isDirAt_root {root : Node} {p : List Name} (h : root.IsDirAt p) : root.IsDirAt [] := by
  cases p with
  | nil => exact h
  | cons n p =>
    by_cases hr : root.IsDirAt []
    · exact hr
    · have hn := Node.shapeAt_below hr n p
      rw [List.nil_append, h] at hn
      cases hn

theorem isDirAt_start {root : Node} {here : Place} (h : root.IsDirAt here.path) (p : Bytes) :
    root.IsDirAt (here.start p).path := by
  unfold Place.start
  split
  · exact isDirAt_root h
  · exact h

/-- From a directory of the tree, a walk ends at what is in the tree. -/
theorem Reaches.holds {root : Node} {intent : Intent} {k : Nat} {here : Place}
    {cs : List Component} {spot : Spot} (h : Reaches root intent k here cs spot)
    (hd : root.IsDirAt here.path) : spot.Holds root intent := by
  induction h with
  | stop => exact hd
  | here _ ih | slash _ ih => exact ih hd
  | up _ ih => exact ih (isDirAt_parent hd)
  | enter _ hg _ ih => exact ih (Node.isDirAt_iff.mpr ⟨_, hg⟩)
  | follow _ _ _ _ ih => exact ih (isDirAt_start hd _)
  | absent _ hg => exact ⟨hd, hg⟩
  | entry _ hg hn hl => exact ⟨hg, hn, hl⟩

theorem Place.removed_start {here : Place} (h : here.removed = 0) (p : Bytes) :
    (here.start p).removed = 0 := by
  unfold Place.start
  split
  · rfl
  · exact h

theorem Place.removed_parent {here : Place} (h : here.removed = 0) : here.parent.removed = 0 := by
  unfold Place.parent
  rw [if_pos h]
  exact h

/-- No walk leads from the tree to a directory that has been removed. -/
theorem Reaches.live {root : Node} {intent : Intent} {k : Nat} {here mid : Place}
    {cs : List Component} (h : Reaches root intent k here cs (.directory mid))
    (hl : here.removed = 0) : mid.removed = 0 := by
  generalize hs : Spot.directory mid = spot at h
  induction h with
  | stop => cases hs; exact hl
  | here _ ih | slash _ ih => exact ih hl hs
  | up _ ih => exact ih (Place.removed_parent hl) hs
  | enter _ _ _ ih => exact ih rfl hs
  | follow _ _ _ _ ih => exact ih (Place.removed_start hl _) hs
  | absent _ _ | entry _ _ _ _ => cases hs

/-! ## One path after another -/

theorem Passable.extend {intent : Intent} {here : Place} {n : Name} {rest ds : List Component}
    (hp : Passable .follow here n rest) (hds : ds ≠ []) (hs : ds ≠ [.slash]) :
    Passable intent here n (rest ++ ds) := by
  refine ⟨?_, hp.live, hp.short⟩
  rintro ⟨_, he⟩
  rcases List.append_eq_singleton_iff.mp he with ⟨_, h⟩ | ⟨_, h⟩
  · exact hs h
  · exact hds h

theorem Passable.lookup {intent : Intent} {here : Place} {n : Name} {rest rest' : List Component}
    (hp : Passable intent here n rest) : Passable .follow here n rest' :=
  ⟨by simp, hp.live, hp.short⟩

/-- A walk to a directory and a walk on from there make one walk. -/
theorem Reaches.append {root : Node} {intent : Intent} {i j : Nat} {here mid : Place}
    {cs ds : List Component} {spot : Spot} (h : Reaches root .follow i here cs (.directory mid))
    (h' : Reaches root intent j mid ds spot) (hds : ds ≠ []) (hs : ds ≠ [.slash]) :
    Reaches root intent (i + j) here (cs ++ ds) spot := by
  generalize hm : Spot.directory mid = target at h
  induction h with
  | stop => cases hm; simpa using h'
  | here _ ih => exact .here (ih hm)
  | slash _ ih => exact .slash (ih hm)
  | up _ ih => exact .up (ih hm)
  | enter hp hg _ ih => exact .enter (hp.extend hds hs) hg (ih hm)
  | @follow links here n rest target spot hp hg _ _ ih =>
    have hr := ih hm
    rw [List.append_assoc] at hr
    rw [Nat.add_right_comm]
    exact .follow (hp.extend hds hs) hg (fun he => hds (List.append_eq_nil_iff.mp he.1).2) hr
  | absent _ _ => cases hm
  | entry _ _ _ _ => cases hm

/-- A walk along two paths passes a directory between them, and the links that
it follows are those of the two parts. -/
theorem Reaches.split {root : Node} {intent : Intent} {k : Nat} {here : Place}
    {cs ds : List Component} {spot : Spot} (h : Reaches root intent k here (cs ++ ds) spot)
    (hds : ds ≠ []) : ∃ i j mid, i + j = k ∧
      Reaches root .follow i here cs (.directory mid) ∧ Reaches root intent j mid ds spot := by
  generalize he : cs ++ ds = es at h
  -- the first path shrinks with each rule, and grows by the target after a link
  induction h generalizing cs with
  | stop => exact absurd (List.append_eq_nil_iff.mp he).2 hds
  | @here links here rest spot hr ih =>
    cases cs with
    | nil => cases he; exact ⟨0, links, here, by omega, .stop, .here hr⟩
    | cons c cs =>
      cases he
      obtain ⟨i, j, mid, hk, h₁, h₂⟩ := ih rfl
      exact ⟨i, j, mid, hk, .here h₁, h₂⟩
  | @slash links here rest spot hr ih =>
    cases cs with
    | nil => cases he; exact ⟨0, links, here, by omega, .stop, .slash hr⟩
    | cons c cs =>
      cases he
      obtain ⟨i, j, mid, hk, h₁, h₂⟩ := ih rfl
      exact ⟨i, j, mid, hk, .slash h₁, h₂⟩
  | @up links here rest spot hr ih =>
    cases cs with
    | nil => cases he; exact ⟨0, links, here, by omega, .stop, .up hr⟩
    | cons c cs =>
      cases he
      obtain ⟨i, j, mid, hk, h₁, h₂⟩ := ih rfl
      exact ⟨i, j, mid, hk, .up h₁, h₂⟩
  | @enter links here n rest es spot hp hg hr ih =>
    cases cs with
    | nil => cases he; exact ⟨0, links, here, by omega, .stop, .enter hp hg hr⟩
    | cons c cs =>
      cases he
      obtain ⟨i, j, mid, hk, h₁, h₂⟩ := ih rfl
      exact ⟨i, j, mid, hk, .enter hp.lookup hg h₁, h₂⟩
  | @follow links here n rest target spot hp hg hi hr ih =>
    cases cs with
    | nil => cases he; exact ⟨0, links + 1, here, by omega, .stop, .follow hp hg hi hr⟩
    | cons c cs =>
      cases he
      obtain ⟨i, j, mid, hk, h₁, h₂⟩ := ih (List.append_assoc ..)
      exact ⟨i + 1, j, mid, by omega, .follow hp.lookup hg (by simp) h₁, h₂⟩
  | @absent here n hp hg =>
    cases cs with
    | nil => cases he; exact ⟨0, 0, here, rfl, .stop, .absent hp hg⟩
    | cons c cs => exact absurd (List.append_eq_nil_iff.mp (List.cons.inj he).2).2 hds
  | @entry here n node hp hg hn hl =>
    cases cs with
    | nil => cases he; exact ⟨0, 0, here, rfl, .stop, .entry hp hg hn hl⟩
    | cons c cs => exact absurd (List.append_eq_nil_iff.mp (List.cons.inj he).2).2 hds

end HeaderDb
