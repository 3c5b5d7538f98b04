import HeaderDb.Proofs.Tree.Write

/-! # An entry by its joined path

A scan looks at an entry through the path of its directory with the name
appended. Slashes at the end of that path make no difference to the components,
so the walk passes the directory and then takes one step more. Whether it ends
at a directory is therefore a matter of the entry itself, of the links that are
left for it, and of the length of the whole path. -/

namespace HeaderDb

/-! ## Components of a joined path -/

theorem Component.ofName_ne_slash (n : Name) : Component.ofName n ≠ .slash := by
  unfold Component.ofName
  split
  · simp
  · split <;> simp

theorem Component.ofName_legal {n : Name} (h : n.IsLegal) : Component.ofName n = .name n := by
  unfold Component.ofName
  rw [if_neg h.2.1, if_neg h.2.2.1]

/-- A name without slashes goes on with the one that has been started. -/
theorem componentsFrom_name (started n : Name) (h : Path.slash ∉ n) (hn : n ≠ []) :
    componentsFrom started n = [.ofName (started.reverse ++ n)] := by
  induction n generalizing started with
  | nil => exact absurd rfl hn
  | cons b n ih =>
    have hb : b ≠ Path.slash := fun e => h (e ▸ List.mem_cons_self)
    rw [componentsFrom, if_pos hb]
    cases n with
    | nil => simp [componentsFrom]
    | cons c n =>
      rw [ih (b :: started) (fun hm => h (List.mem_cons_of_mem _ hm)) (by simp)]
      simp

theorem componentsFrom_slashes {p : Bytes} (h : p.all (· = Path.slash) = true) :
    componentsFrom [] p = [] := by
  induction p with
  | nil => rfl
  | cons b p ih =>
    simp only [List.all_cons, Bool.and_eq_true, decide_eq_true_eq] at h
    rw [componentsFrom, if_neg (by simp [h.1])]
    exact ih h.2

/-- Components without the mark of a slash at the end. -/
def unmarked (cs : List Component) : List Component := cs.filter (· ≠ .slash)

theorem unmarked_append (cs ds : List Component) :
    unmarked (cs ++ ds) = unmarked cs ++ unmarked ds :=
  List.filter_append ..

theorem unmarked_componentsFrom_nil (started : Name) :
    unmarked (componentsFrom started []) = componentsFrom started [] := by
  rw [componentsFrom]
  split
  · rfl
  · simp [unmarked, Component.ofName_ne_slash]

theorem componentsFrom_slash (started : Name) {p : Bytes} (h : p.all (· = Path.slash) = false) :
    componentsFrom started (Path.slash :: p) =
      componentsFrom started [] ++ componentsFrom [] p := by
  by_cases hs : started = []
  · simp [componentsFrom, hs]
  · simp [componentsFrom, hs, h]

theorem unmarked_componentsFrom_slash (started : Name) (p : Bytes) :
    unmarked (componentsFrom started (Path.slash :: p)) =
      componentsFrom started [] ++ unmarked (componentsFrom [] p) := by
  cases h : p.all (· = Path.slash) with
  | false =>
    rw [componentsFrom_slash started h, unmarked_append, unmarked_componentsFrom_nil]
  | true =>
    by_cases hs : started = []
    · simp [componentsFrom, hs, componentsFrom_slashes h, unmarked]
    · simp [componentsFrom, hs, h, componentsFrom_slashes h, unmarked, Component.ofName_ne_slash]

/-- A slash and a further part without slashes add one component. -/
theorem componentsFrom_part (started : Name) (p : Bytes) {n : Name} (hn : n ≠ [])
    (hs : Path.slash ∉ n) : componentsFrom started (p ++ Path.slash :: n) =
      unmarked (componentsFrom started p) ++ [.ofName n] := by
  have hlast : componentsFrom [] n = [.ofName n] := by
    rw [componentsFrom_name [] n hs hn, List.reverse_nil, List.nil_append]
  obtain ⟨c, hc⟩ := List.exists_mem_of_ne_nil n hn
  have hne {q : Bytes} (hq : c ∈ q) : q.all (· = Path.slash) = false := by
    refine List.all_eq_false.mpr ⟨c, hq, ?_⟩
    simp only [decide_eq_true_eq]
    rintro rfl
    exact hs hc
  induction p generalizing started with
  | nil => rw [List.nil_append, componentsFrom_slash _ (hne hc), hlast, unmarked_componentsFrom_nil]
  | cons b p ih =>
    rw [List.cons_append]
    by_cases hb : b = Path.slash
    · subst hb
      rw [componentsFrom_slash _ (hne (by simp [hc])), ih, unmarked_componentsFrom_slash,
        List.append_assoc]
    · rw [componentsFrom, if_pos hb, ih, componentsFrom.eq_def started (b :: p)]
      simp only [if_pos hb]

theorem componentsFrom_join (started : Name) (p : Bytes) {n : Name} (hn : n.IsLegal) :
    componentsFrom started (p ++ Path.slash :: n) =
      unmarked (componentsFrom started p) ++ [.name n] := by
  rw [componentsFrom_part started p hn.1 hn.2.2.2.1, Component.ofName_legal hn]

theorem unmarked_componentsFrom_concat (started : Name) (p : Bytes) :
    unmarked (componentsFrom started (p ++ [Path.slash])) =
      unmarked (componentsFrom started p) := by
  induction p generalizing started with
  | nil =>
    rw [List.nil_append, unmarked_componentsFrom_slash, unmarked_componentsFrom_nil started]
    exact List.append_nil _
  | cons b p ih =>
    rw [List.cons_append]
    by_cases hb : b = Path.slash
    · subst hb
      rw [unmarked_componentsFrom_slash, unmarked_componentsFrom_slash, ih]
    · rw [componentsFrom, if_pos hb, ih, componentsFrom.eq_def started (b :: p)]
      simp only [if_pos hb]

/-- The components of a path with a name appended. -/
theorem components_append {p : Bytes} {n : Name} (hp : p ≠ []) (hn : n.IsLegal) :
    components (Path.append p n) = unmarked (components p) ++ [.name n] := by
  unfold components Path.append
  by_cases hl : p.getLast? = some Path.slash
  · obtain ⟨q, rfl⟩ := List.getLast?_eq_some_iff.mp hl
    rw [if_pos (by simp), List.append_assoc, unmarked_componentsFrom_concat]
    exact componentsFrom_join [] q hn
  · rw [if_neg (by simp [hl, hp]), componentsFrom_join [] p hn]

/-! ## The walk along a joined path -/

theorem Reaches.slashes {root : Node} {intent : Intent} {k : Nat} {here : Place}
    {cs : List Component} {spot : Spot} {marks : List Component} (hm : ∀ c ∈ marks, c = .slash)
    (h : Reaches root intent k here cs spot) : Reaches root intent k here (marks ++ cs) spot := by
  induction marks with
  | nil => exact h
  | cons c marks ih =>
    obtain rfl := hm c List.mem_cons_self
    exact .slash (ih fun c hc => hm c (List.mem_cons_of_mem _ hc))

theorem unmarked_cons {c : Component} (hc : c ≠ .slash) (cs : List Component) :
    unmarked (c :: cs) = c :: unmarked cs :=
  List.filter_cons_of_pos (by simpa using hc)

theorem unmarked_eq_cons {cs ds : List Component} {c : Component} (hc : c ≠ .slash)
    (h : unmarked cs = unmarked (c :: ds)) :
    ∃ marks rest, cs = marks ++ c :: rest ∧ (∀ m ∈ marks, m = .slash) ∧
      unmarked rest = unmarked ds := by
  rw [unmarked_cons hc] at h
  obtain ⟨marks, rest, he, hm, _, hf⟩ := List.filter_eq_cons_iff.mp h
  exact ⟨marks, rest, he, fun m hmem => by simpa using hm m hmem, hf⟩

/-- On the way to a directory, the mark of a slash at the end does not count. -/
theorem Reaches.directory_congr {root : Node} {k : Nat} {here mid : Place}
    {cs cs' : List Component} (h : Reaches root .follow k here cs (.directory mid))
    (he : unmarked cs' = unmarked cs) : Reaches root .follow k here cs' (.directory mid) := by
  generalize hs : Spot.directory mid = spot at h ⊢
  induction h generalizing cs' with
  | @stop here =>
    have hm : ∀ c ∈ cs', c = .slash := by simpa [unmarked] using he
    have h₀ : Reaches root .follow 0 here [] (.directory here) := .stop
    simpa using h₀.slashes hm
  | slash _ ih => exact ih he hs
  | here _ ih =>
    obtain ⟨marks, rest, rfl, hm, hr⟩ := unmarked_eq_cons (by simp) he
    exact .slashes hm (.here (ih hr hs))
  | up _ ih =>
    obtain ⟨marks, rest, rfl, hm, hr⟩ := unmarked_eq_cons (by simp) he
    exact .slashes hm (.up (ih hr hs))
  | enter hp hg _ ih =>
    obtain ⟨marks, rest, rfl, hm, hr⟩ := unmarked_eq_cons (by simp) he
    exact .slashes hm (.enter hp.lookup hg (ih hr hs))
  | @follow links here n rest target spot hp hg _ _ ih =>
    obtain ⟨marks, rest', rfl, hm, hr⟩ := unmarked_eq_cons (by simp) he
    have ht : unmarked (components target ++ rest') = unmarked (components target ++ rest) := by
      rw [unmarked_append, unmarked_append, hr]
    exact .slashes hm (.follow hp.lookup hg (by simp) (ih ht hs))
  | absent _ _ => cases hs
  | entry _ _ _ _ => cases hs

theorem unmarked_unmarked (cs : List Component) : unmarked (unmarked cs) = unmarked cs := by
  simp [unmarked]

theorem Path.isAbsolute_append {p : Bytes} (hp : p ≠ []) (n : Name) :
    Path.isAbsolute (Path.append p n) = Path.isAbsolute p := by
  cases p with
  | nil => exact absurd rfl hp
  | cons b p =>
    unfold Path.append Path.isAbsolute
    split <;> rfl

theorem Path.mem_append {b : UInt8} {p : Bytes} {n : Name} (h : b ∈ Path.append p n) :
    b ∈ p ∨ b = Path.slash ∨ b ∈ n := by
  unfold Path.append at h
  split at h
  · exact (List.mem_append.mp h).imp_right .inr
  · simpa using h

/-- The entry `n` of a directory is a directory, or a link that leads to one over
further links. -/
def LeadsToDirectory (root : Node) (links : Nat) (place : Place) (n : Name) : Prop :=
  ∃ dest, Reaches root .follow links place [.name n] (.directory dest)

/-- A path that goes on from a directory leads where its last part leads from
there, if it is not too long and the links on the way to the directory leave
enough for the rest. -/
theorem Tree.resolve_extended {t : Tree} {p q : Bytes} {place : Place} {ds : List Component}
    (hr : t.resolve .follow p = .ok (.directory place)) (hds : ds ≠ []) (hs : ds ≠ [.slash])
    (hq : components q = unmarked (components p) ++ ds)
    (habs : Path.isAbsolute q = Path.isAbsolute p) (hz : 0 ∉ q) (hne : q ≠ []) (spot : Spot) :
    t.resolve .follow q = .ok spot ↔
      q.length ≤ maxPathLength ∧
      ∃ i j, i + j ≤ maxLinks ∧
        Reaches t.root .follow i (t.current.start p) (components p) (.directory place) ∧
        Reaches t.root .follow j place ds spot := by
  obtain ⟨hw, k, hk, hp⟩ := Tree.resolve_eq_ok_iff.mp hr
  have hstart : t.current.start q = t.current.start p := by
    unfold Place.start
    rw [habs]
  rw [Tree.resolve_eq_ok_iff, hstart, hq]
  constructor
  · rintro ⟨hw', m, hm, h⟩
    obtain ⟨i, j, mid, hij, h₁, h₂⟩ := h.split hds
    have h₁' := h₁.directory_congr (unmarked_unmarked (components p)).symm
    cases h₁'.spot_unique hp
    exact ⟨hw'.fits, i, j, by omega, h₁', h₂⟩
  · rintro ⟨hlen, i, j, hij, h₁, h₂⟩
    have h₁' := h₁.directory_congr (unmarked_unmarked (components p))
    exact ⟨⟨hz, hlen, hne⟩, i + j, hij, h₁'.append h₂ hds hs⟩

theorem Path.append_ne_nil {p : Bytes} (hp : p ≠ []) (n : Name) : Path.append p n ≠ [] := by
  unfold Path.append
  split <;> simp [hp]

/-- **An entry is seen to be a directory** if it leads to one, the joined path is
not too long, and the links on the way to the directory leave enough for the
entry. -/
theorem Tree.isDirectory_append {t : Tree} {p : Bytes} {place : Place} {n : Name}
    (hr : t.resolve .follow p = .ok (.directory place)) (hn : n.IsLegal) :
    t.isDirectory (Path.append p n) = true ↔
      (Path.append p n).length ≤ maxPathLength ∧
      ∃ i j, i + j ≤ maxLinks ∧
        Reaches t.root .follow i (t.current.start p) (components p) (.directory place) ∧
        LeadsToDirectory t.root j place n := by
  obtain ⟨hw, _⟩ := Tree.resolve_eq_ok_iff.mp hr
  have hz : 0 ∉ Path.append p n := by
    intro h0
    rcases Path.mem_append h0 with h | h | h
    · exact hw.nonzero h
    · exact absurd h (by decide)
    · exact hn.2.2.2.2.1 h
  have hext (dest : Place) := Tree.resolve_extended hr (by simp) (by simp)
    (components_append hw.nonempty hn) (Path.isAbsolute_append hw.nonempty n) hz
    (Path.append_ne_nil hw.nonempty n) (.directory dest)
  rw [Tree.isDirectory_iff]
  simp only [hext, LeadsToDirectory]
  constructor
  · rintro ⟨dest, hlen, i, j, hij, h₁, h₂⟩
    exact ⟨hlen, i, j, hij, h₁, dest, h₂⟩
  · rintro ⟨hlen, i, j, hij, h₁, dest, h₂⟩
    exact ⟨dest, hlen, i, j, hij, h₁, h₂⟩

end HeaderDb
