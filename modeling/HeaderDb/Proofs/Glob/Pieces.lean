import Mathlib.Data.List.Chain
import HeaderDb.Proofs.Glob.Items

/-! # What a pattern matches

A name matches a pattern if it can be cut into pieces, one for each token. The
search for the pieces tries them from left to right and gives up altogether once
a token finds no character left. This is sound as long as no wildcard that may
take any piece comes before one that takes all or nothing: then a search that
has run out of characters would run out of them from every later start as well.
In a pattern that has been read, a component wildcard comes first or behind a
slash, and names have no slashes. -/

namespace HeaderDb
namespace Glob

/-- The pieces that a token stands for; `rest` is what of the name comes behind. -/
def Token.StandsFor (piece rest : List Char) : Token → Prop
  | .literal l => ∃ c, piece = [c] ∧ c.toLower = l.toLower
  | .anyChar => ∃ c, piece = [c]
  | .within ms => ∃ c, piece = [c] ∧ ∃ m ∈ ms, m.holds c = true
  | .outside ms => ∃ c, piece = [c] ∧ ∀ m ∈ ms, m.holds c = false
  | .anySequence => True
  | .anyComponents => piece = [] ∨ rest = []

/-- The text of pieces. -/
def joined (split : List (Token × List Char)) : List Char := split.flatMap Prod.snd

/-- Every token stands for its piece. Where the pieces make up the start of a
name, a dot there falls to a literal. -/
def IsSplit (leading : Bool) (split : List (Token × List Char)) : Prop :=
  ∀ before t piece after, split = before ++ (t, piece) :: after →
    t.StandsFor piece (joined after) ∧
    (leading = true → joined before = [] → piece.head? = some '.' → ∃ l, t = .literal l)

/-- The rest of a name can be cut into pieces for the rest of the tokens. -/
def Splits (leading : Bool) (tokens : List Token) (name : List Char) : Prop :=
  ∃ split, split.map Prod.fst = tokens ∧ joined split = name ∧ IsSplit leading split

/-! ## Cutting off the first piece -/

theorem splits_nil {leading : Bool} {name : List Char} : Splits leading [] name ↔ name = [] := by
  constructor
  · rintro ⟨split, ht, rfl, _⟩
    rw [List.map_eq_nil_iff.mp ht]
    rfl
  · rintro rfl
    exact ⟨[], rfl, rfl, fun before t piece after h => by simp at h⟩

theorem joined_cons (t : Token) (piece : List Char) (split : List (Token × List Char)) :
    joined ((t, piece) :: split) = piece ++ joined split := rfl

theorem splits_cons {leading : Bool} {t : Token} {ts : List Token} {name : List Char} :
    Splits leading (t :: ts) name ↔ ∃ piece rest, name = piece ++ rest ∧ t.StandsFor piece rest ∧
      (leading = true → piece.head? = some '.' → ∃ l, t = .literal l) ∧
      Splits (leading && piece.isEmpty) ts rest := by
  constructor
  · rintro ⟨split, ht, rfl, hs⟩
    obtain ⟨⟨t', piece⟩, split, rfl, rfl, rfl⟩ := List.map_eq_cons_iff.mp ht
    obtain ⟨hstands, hdot⟩ := hs [] t' piece split rfl
    refine ⟨piece, joined split, rfl, hstands, fun hl => hdot hl rfl, split, rfl, rfl, ?_⟩
    intro before u other after h
    obtain ⟨hu, hd⟩ := hs ((t', piece) :: before) u other after (congrArg (_ :: ·) h)
    refine ⟨hu, fun hl hb => ?_⟩
    rw [Bool.and_eq_true, List.isEmpty_iff] at hl
    exact hd hl.1 (by rw [joined_cons, hl.2, hb]; rfl)
  · rintro ⟨piece, rest, rfl, hstands, hdot, split, rfl, rfl, hs⟩
    refine ⟨(t, piece) :: split, rfl, rfl, fun before u other after h => ?_⟩
    cases before with
    | nil => cases h; exact ⟨hstands, fun hl _ => hdot hl⟩
    | cons first before =>
      cases h
      obtain ⟨hu, hd⟩ := hs before u other after rfl
      refine ⟨hu, fun hl hb => ?_⟩
      rw [joined_cons, List.append_eq_nil_iff] at hb
      exact hd (by rw [hl, hb.1]; rfl) hb.2

/-- Where a name goes on, less is asked than where it starts. -/
theorem Splits.inside {leading : Bool} {ts : List Token} {name : List Char}
    (h : Splits leading ts name) : Splits false ts name := by
  obtain ⟨split, ht, hn, hs⟩ := h
  exact ⟨split, ht, hn, fun before t piece after he => ⟨(hs before t piece after he).1, nofun⟩⟩

/-- Without a dot at the start, no more is asked. -/
theorem Splits.start {leading : Bool} {ts : List Token} {name : List Char}
    (h : Splits false ts name) (hd : ¬ (leading = true ∧ name.head? = some '.')) :
    Splits leading ts name := by
  obtain ⟨split, ht, rfl, hs⟩ := h
  refine ⟨split, ht, rfl, fun before t piece after he => ⟨(hs before t piece after he).1, ?_⟩⟩
  intro hl hb hp
  obtain ⟨more, rfl⟩ := List.head?_eq_some_iff.mp hp
  have hj : joined split = joined before ++ ('.' :: more ++ joined after) := by
    rw [he, joined, List.flatMap_append]
    rfl
  rw [hj, hb] at hd
  exact absurd ⟨hl, rfl⟩ hd

theorem Token.takes_iff {t : Token} (hs : t ≠ .anySequence) (hc : t ≠ .anyComponents)
    (leading : Bool) (c : Char) (rest : List Char) :
    t.takes leading c = true ↔
      t.StandsFor [c] rest ∧ (leading = true → c = '.' → ∃ l, t = .literal l) := by
  cases t with
  | literal l => simp [Token.takes, Token.StandsFor, sameLetter]
  | anyChar => cases leading <;> simp [Token.takes, Token.StandsFor]
  | within ms => cases leading <;> simp [Token.takes, Token.StandsFor, and_comm]
  | outside ms => cases leading <;> simp [Token.takes, Token.StandsFor, and_comm]
  | anySequence => exact absurd rfl hs
  | anyComponents => exact absurd rfl hc

theorem Token.StandsFor.exists_char {t : Token} {piece rest : List Char}
    (h : t.StandsFor piece rest) (hs : t ≠ .anySequence) (hc : t ≠ .anyComponents) :
    ∃ c, piece = [c] := by
  cases t with
  | literal l => exact ⟨h.choose, h.choose_spec.1⟩
  | anyChar => exact h
  | within ms => exact ⟨h.choose, h.choose_spec.1⟩
  | outside ms => exact ⟨h.choose, h.choose_spec.1⟩
  | anySequence => exact absurd rfl hs
  | anyComponents => exact absurd rfl hc

section
variable {leading : Bool} {t : Token} {ts : List Token} {c : Char} {name rest : List Char}

/-- A token other than a wildcard takes one character. -/
theorem splits_char (hs : t ≠ .anySequence) (hc : t ≠ .anyComponents) :
    Splits leading (t :: ts) name ↔
      ∃ c rest, name = c :: rest ∧ t.takes leading c = true ∧ Splits false ts rest := by
  rw [splits_cons]
  constructor
  · intro ⟨piece, rest, hn, hstands, hdot, htail⟩
    obtain ⟨c, rfl⟩ := hstands.exists_char hs hc
    refine ⟨c, rest, hn, (Token.takes_iff hs hc leading c rest).mpr ⟨hstands, ?_⟩, htail.inside⟩
    intro hl hd
    exact hdot hl (by rw [hd]; rfl)
  · intro ⟨c, rest, hn, htakes, htail⟩
    obtain ⟨hstands, hdot⟩ := (Token.takes_iff hs hc leading c rest).mp htakes
    refine ⟨[c], rest, hn, hstands, fun hl hd => hdot hl (Option.some.inj hd), ?_⟩
    rw [List.isEmpty_cons, Bool.and_false]
    exact htail

/-- A sequence is empty, or it takes one character and goes on. -/
theorem splits_sequence_cons : Splits leading (.anySequence :: ts) (c :: rest) ↔
    Splits leading ts (c :: rest) ∨
      ¬ (leading = true ∧ c = '.') ∧ Splits false (.anySequence :: ts) rest := by
  constructor
  · intro h
    obtain ⟨piece, after, hn, _, hdot, htail⟩ := splits_cons.mp h
    cases piece with
    | nil =>
      cases hn
      rw [List.isEmpty_nil, Bool.and_true] at htail
      exact .inl htail
    | cons d piece =>
      cases hn
      refine .inr ⟨?_, splits_cons.mpr ⟨piece, after, rfl, trivial, nofun, htail.inside⟩⟩
      intro ⟨hl, hd⟩
      obtain ⟨l, hlit⟩ := hdot hl (by rw [hd]; rfl)
      cases hlit
  · intro h
    rcases h with h | ⟨hdot, h⟩
    · refine splits_cons.mpr ⟨[], c :: rest, rfl, trivial, nofun, ?_⟩
      rw [List.isEmpty_nil, Bool.and_true]
      exact h
    · obtain ⟨piece, after, rfl, _, _, htail⟩ := splits_cons.mp h
      refine splits_cons.mpr ⟨c :: piece, after, rfl, trivial, ?_, ?_⟩
      · intro hl hd
        exact absurd ⟨hl, Option.some.inj hd⟩ hdot
      · rw [List.isEmpty_cons, Bool.and_false]
        exact htail

theorem splits_wildcard_nil (ht : t = .anySequence ∨ t = .anyComponents) :
    Splits leading (t :: ts) [] ↔ Splits leading ts [] := by
  constructor
  · intro h
    obtain ⟨piece, after, hn, _, _, htail⟩ := splits_cons.mp h
    obtain ⟨rfl, rfl⟩ := List.append_eq_nil_iff.mp hn.symm
    rw [List.isEmpty_nil, Bool.and_true] at htail
    exact htail
  · intro h
    refine splits_cons.mpr ⟨[], [], rfl, ?_, nofun, ?_⟩
    · rcases ht with rfl | rfl
      · trivial
      · exact .inl rfl
    · rw [List.isEmpty_nil, Bool.and_true]
      exact h

/-- A component wildcard takes nothing or all. -/
theorem splits_components : Splits leading (.anyComponents :: ts) name ↔
    Splits leading ts name ∨
      ¬ (leading = true ∧ name.head? = some '.') ∧ Splits false ts [] := by
  constructor
  · intro h
    obtain ⟨piece, after, rfl, hstands, hdot, htail⟩ := splits_cons.mp h
    rcases hstands with rfl | rfl
    · rw [List.isEmpty_nil, Bool.and_true] at htail
      exact .inl htail
    · rw [List.append_nil]
      refine .inr ⟨?_, htail.inside⟩
      intro ⟨hl, hd⟩
      obtain ⟨l, hlit⟩ := hdot hl hd
      cases hlit
  · intro h
    rcases h with h | ⟨hdot, h⟩
    · refine splits_cons.mpr ⟨[], name, rfl, .inl rfl, nofun, ?_⟩
      rw [List.isEmpty_nil, Bool.and_true]
      exact h
    · refine splits_cons.mpr ⟨name, [], (List.append_nil name).symm, .inr rfl, ?_, ?_⟩
      · intro hl hd
        exact absurd ⟨hl, hd⟩ hdot
      · exact h.start (by simp)

/-- What a sequence leaves is a suffix. -/
theorem Splits.exists_suffix (h : Splits leading (.anySequence :: ts) name) :
    ∃ suffix, suffix <:+ name ∧ Splits false ts suffix := by
  obtain ⟨piece, suffix, rfl, _, _, htail⟩ := splits_cons.mp h
  exact ⟨suffix, List.suffix_append piece suffix, htail.inside⟩

end

/-! ## The search -/

/-- What comes before a component wildcard. -/
def Follows (a b : Token) : Prop := b = .anyComponents → a = .anyComponents ∨ a = .literal '/'

/-- Every component wildcard comes first, behind another one, or behind a slash. -/
def Placed (tokens : List Token) : Prop := tokens.IsChain Follows

theorem matchWildcard_nil (components : Bool) (tail : Bool → List Char → Verdict)
    (leading : Bool) : matchWildcard components tail leading [] = tail leading [] := by
  unfold matchWildcard extendWildcard
  split <;> rfl

theorem matchWildcard_cons (tail : Bool → List Char → Verdict) (leading : Bool) (c : Char)
    (rest : List Char) :
    matchWildcard false tail leading (c :: rest) =
      match tail leading (c :: rest) with
      | .mismatch =>
        if leading && c = '.' then .mismatch else matchWildcard false tail (c = '/') rest
      | v => v := by
  unfold matchWildcard
  rw [extendWildcard]
  rfl

/-- Without slashes, a component wildcard that takes anything takes all. -/
theorem extendWildcard_components (tail : Bool → List Char → Verdict) (leading : Bool)
    {name : List Char} (h : '/' ∉ name) :
    extendWildcard true tail leading name =
      if leading && name.head? = some '.' then .mismatch
      else tail (leading && name.isEmpty) [] := by
  induction name generalizing leading with
  | nil => simp [extendWildcard]
  | cons c rest ih =>
    rw [List.mem_cons, not_or] at h
    rw [extendWildcard, ih false h.2]
    simp [Ne.symm h.1]

/-- What a verdict on the rest of a name tells. One that gives up tells that the
tokens cannot stand for nothing, and unless a component wildcard comes first, that no
later start can do better. -/
structure Verdict.Tells (v : Verdict) (leading : Bool) (ts : List Token) (name : List Char) :
    Prop where
  matched : v = .matched ↔ Splits leading ts name
  empty : v = .exhausted → ¬ Splits false ts []
  hopeless : v = .exhausted → ts.head? ≠ some .anyComponents →
    ∀ suffix, suffix <:+ name → ¬ Splits false ts suffix

theorem Verdict.tells {v : Verdict} {leading : Bool} {ts : List Token} {name : List Char}
    (hm : v = .matched ↔ Splits leading ts name)
    (hh : v = .exhausted → ∀ suffix, suffix <:+ name → ¬ Splits false ts suffix) :
    v.Tells leading ts name :=
  ⟨hm, fun hv => hh hv [] (List.nil_suffix), fun hv _ => hh hv⟩

/-- The search for the tokens tells the truth about every name without a slash. -/
def Decides (ts : List Token) : Prop :=
  ∀ leading name, '/' ∉ name → (matchTokens ts leading name).Tells leading ts name

section
variable {t : Token} {ts : List Token}

theorem decides_nil : Decides [] := by
  intro leading name _
  rw [matchTokens]
  cases name with
  | nil => exact ⟨iff_of_true rfl (splits_nil.mpr rfl), nofun, nofun⟩
  | cons c rest => exact ⟨iff_of_false nofun (fun h => nomatch splits_nil.mp h), nofun, nofun⟩

theorem matchTokens_char (hs : t ≠ .anySequence) (hc : t ≠ .anyComponents) (leading : Bool)
    (name : List Char) :
    matchTokens (t :: ts) leading name = matchChar t (matchTokens ts) leading name := by
  rw [matchTokens]
  · exact hs
  · exact hc

theorem not_splits_char_nil {leading : Bool} (hs : t ≠ .anySequence) (hc : t ≠ .anyComponents) :
    ¬ Splits leading (t :: ts) [] := by
  intro h
  obtain ⟨c, rest, hn, _⟩ := (splits_char hs hc).mp h
  cases hn

theorem eq_slash_of_toLower {c : Char} (h : c.toLower = '/') : c = '/' := by
  unfold Char.toLower at h
  split at h
  · next hu =>
    have hsum : c.val + 32 = 47 := congrArg Char.val h
    have hlow : 65 ≤ c.val := hu.1
    have hhigh : c.val ≤ 90 := hu.2
    grind
  · exact h

theorem decides_char (hs : t ≠ .anySequence) (hc : t ≠ .anyComponents)
    (hf : ts.head? = some .anyComponents → t = .literal '/') (ih : Decides ts) :
    Decides (t :: ts) := by
  intro leading name hname
  rw [matchTokens_char hs hc]
  cases name with
  | nil =>
    refine Verdict.tells (iff_of_false nofun (not_splits_char_nil hs hc)) ?_
    intro _ suffix hsuffix
    rw [List.suffix_nil.mp hsuffix]
    exact not_splits_char_nil hs hc
  | cons c rest =>
    rw [List.mem_cons, not_or] at hname
    have hsplit : Splits leading (t :: ts) (c :: rest) ↔
        t.takes leading c = true ∧ Splits false ts rest := by
      rw [splits_char hs hc]
      exact ⟨fun ⟨_, _, hn, h⟩ => by cases hn; exact h, fun h => ⟨c, rest, rfl, h⟩⟩
    rw [matchChar, decide_eq_false (Ne.symm hname.1)]
    by_cases htakes : t.takes leading c = true
    · rw [if_pos htakes]
      obtain ⟨hm, _, hh⟩ := ih false rest hname.2
      refine Verdict.tells (by rw [hm, hsplit]; exact ⟨.intro htakes, And.right⟩) ?_
      -- what is left behind the first character of a suffix is a suffix of the rest
      intro hv suffix hsuffix hsp
      obtain ⟨d, tail, rfl, _, htail⟩ := (splits_char hs hc).mp hsp
      have hrest : tail <:+ rest := by
        rcases List.suffix_cons_iff.mp hsuffix with he | hr
        · cases he; exact List.suffix_refl _
        · exact (List.suffix_cons d tail).trans hr
      refine hh hv ?_ tail hrest htail
      -- before a component wildcard the token is a slash, and takes no character
      intro hhead
      rw [hf hhead] at htakes
      exact hname.1 (eq_slash_of_toLower (of_decide_eq_true htakes)).symm
    · rw [if_neg htakes]
      exact Verdict.tells (iff_of_false nofun fun h => htakes (hsplit.mp h).1) nofun

theorem decides_sequence (hf : ts.head? ≠ some .anyComponents) (ih : Decides ts) :
    Decides (.anySequence :: ts) := by
  intro leading name hname
  rw [matchTokens]
  induction name generalizing leading with
  | nil =>
    obtain ⟨hm, he, _⟩ := ih leading [] hname
    rw [matchWildcard_nil]
    refine Verdict.tells (hm.trans (splits_wildcard_nil (.inl rfl)).symm) ?_
    intro hv suffix hsuffix
    rw [List.suffix_nil.mp hsuffix, splits_wildcard_nil (.inl rfl)]
    exact he hv
  | cons c rest iname =>
    obtain ⟨hm, _, hh⟩ := ih leading (c :: rest) hname
    rw [List.mem_cons, not_or] at hname
    rw [matchWildcard_cons, decide_eq_false (Ne.symm hname.1)]
    cases hv : matchTokens ts leading (c :: rest) with
    | matched =>
      exact Verdict.tells (iff_of_true rfl (splits_sequence_cons.mpr (.inl (hm.mp hv)))) nofun
    | exhausted =>
      -- no suffix can be split, and the sequence would leave one
      have hno (suffix : List Char) (hsuffix : suffix <:+ c :: rest) (l : Bool) :
          ¬ Splits l (.anySequence :: ts) suffix := by
        intro h
        obtain ⟨tail, htail, hs⟩ := h.exists_suffix
        exact hh hv hf tail (htail.trans hsuffix) hs
      exact Verdict.tells (iff_of_false nofun (hno _ (List.suffix_refl _) leading))
        fun _ suffix hsuffix => hno suffix hsuffix false
    | mismatch =>
      have hnot : ¬ Splits leading ts (c :: rest) := by
        rw [← hm, hv]
        nofun
      by_cases hdot : leading = true ∧ c = '.'
      · rw [if_pos (by simpa using hdot)]
        refine Verdict.tells (iff_of_false nofun fun h => ?_) nofun
        rcases splits_sequence_cons.mp h with h | ⟨h, _⟩
        · exact hnot h
        · exact h hdot
      · rw [if_neg (by simpa using hdot)]
        obtain ⟨hm', _, hh'⟩ := iname false hname.2
        have hsplit : Splits leading (.anySequence :: ts) (c :: rest) ↔
            Splits false (.anySequence :: ts) rest := by
          rw [splits_sequence_cons]
          exact ⟨fun h => h.elim (absurd · hnot) And.right, fun h => .inr ⟨hdot, h⟩⟩
        refine Verdict.tells (hm'.trans hsplit.symm) fun hx suffix hsuffix h => ?_
        rcases List.suffix_cons_iff.mp hsuffix with rfl | hrest
        · rcases splits_sequence_cons.mp h with h | ⟨_, h⟩
          · exact hnot (h.start (by simpa using hdot))
          · exact hh' hx nofun rest (List.suffix_refl _) h
        · exact hh' hx nofun suffix hrest h

theorem decides_components (ih : Decides ts) : Decides (.anyComponents :: ts) := by
  intro leading name hname
  rw [matchTokens, matchWildcard]
  have hempty (h : ¬ Splits false ts []) : ¬ Splits false (.anyComponents :: ts) [] := by
    rwa [splits_wildcard_nil (.inr rfl)]
  obtain ⟨hm, he, _⟩ := ih leading name hname
  cases hv : matchTokens ts leading name with
  | matched => exact ⟨iff_of_true rfl (splits_components.mpr (.inl (hm.mp hv))), nofun, nofun⟩
  | exhausted =>
    refine ⟨iff_of_false nofun fun h => ?_, fun _ => hempty (he hv), fun _ hf => absurd rfl hf⟩
    rcases splits_components.mp h with h | ⟨_, h⟩
    · rw [← hm, hv] at h
      cases h
    · exact he hv h
  | mismatch =>
    have hnot : ¬ Splits leading ts name := by
      rw [← hm, hv]
      nofun
    have hsplit : Splits leading (.anyComponents :: ts) name ↔
        ¬ (leading = true ∧ name.head? = some '.') ∧ Splits false ts [] := by
      rw [splits_components]
      exact ⟨fun h => h.resolve_left hnot, .inr⟩
    rw [extendWildcard_components _ _ hname]
    by_cases hdot : leading = true ∧ name.head? = some '.'
    · rw [if_pos (by simpa using hdot)]
      exact ⟨iff_of_false nofun fun h => (hsplit.mp h).1 hdot, nofun, nofun⟩
    · rw [if_neg (by simpa using hdot)]
      obtain ⟨hm', he', _⟩ := ih (leading && name.isEmpty) [] (by simp)
      refine ⟨?_, fun hx => hempty (he' hx), fun _ hf => absurd rfl hf⟩
      rw [hm', hsplit]
      exact ⟨fun h => ⟨hdot, h.inside⟩, fun h => h.2.start (by simp)⟩

/-- **The search decides whether a name can be cut into pieces**, for tokens in
which component wildcards are where patterns have them. -/
theorem Placed.decides (h : Placed ts) : Decides ts := by
  induction ts with
  | nil => exact decides_nil
  | cons t ts ih =>
    obtain ⟨hfirst, hrest⟩ := List.isChain_cons.mp h
    by_cases hc : t = .anyComponents
    · subst hc
      exact decides_components (ih hrest)
    · by_cases hs : t = .anySequence
      · subst hs
        refine decides_sequence (fun hhead => ?_) (ih hrest)
        rcases hfirst _ hhead rfl with h | h <;> cases h
      · exact decides_char hs hc (fun hhead => (hfirst _ hhead rfl).resolve_left hc) (ih hrest)

end

/-! ## Tokens of a pattern -/

theorem placed_reverse_cons {t : Token} {seen : List Token} :
    Placed (t :: seen).reverse ↔ (∀ a ∈ seen.head?, Follows a t) ∧ Placed seen.reverse := by
  unfold Placed
  rw [List.isChain_reverse, List.isChain_reverse, List.isChain_cons]

theorem pushComponents_head (seen : List Token) :
    (pushComponents seen).head? = some .anyComponents := by
  unfold pushComponents
  split <;> rfl

theorem placed_pushComponents {seen : List Token} (hs : Placed seen.reverse)
    (hp : ∀ a ∈ seen.head?, a = .anyComponents ∨ a = .literal '/') :
    Placed (pushComponents seen).reverse := by
  unfold pushComponents
  split
  · exact hs
  · exact placed_reverse_cons.mpr ⟨fun a ha _ => hp a ha, hs⟩

theorem Item.push_eq_cons {item : Item} (hc : item ≠ .anyComponents) (seen : List Token) :
    ∃ t, item.push seen = t :: seen ∧ t ≠ .anyComponents ∧
      (item.last = '/' → t = .literal '/') := by
  cases item with
  | plain c => exact ⟨.literal c, rfl, by simp, fun h => congrArg Token.literal h⟩
  | anyChar => exact ⟨.anyChar, rfl, by simp, by simp [Item.last]⟩
  | anySequence => exact ⟨.anySequence, rfl, by simp, by simp [Item.last]⟩
  | anyComponents => exact absurd rfl hc
  | within c more => exact ⟨.within _, rfl, by simp, by simp [Item.last]⟩
  | outside c more => exact ⟨.outside _, rfl, by simp, by simp [Item.last]⟩

/-- Along the items, the latest token is a slash or a component wildcard wherever
another one may come next. -/
theorem placed_gather {previous : Option Char} {items : List Item} (hf : Fits previous items)
    {seen : List Token} (hs : Placed seen.reverse)
    (hp : previous = none ∨ previous = some '/' →
      ∀ a ∈ seen.head?, a = .anyComponents ∨ a = .literal '/') :
    Placed (gather seen items) := by
  fun_induction gather seen items generalizing previous with
  | case1 seen => exact hs
  | case2 seen c items ih =>
    obtain ⟨⟨hprev, _⟩, hf⟩ := fits_cons.mp hf
    obtain ⟨_, hf⟩ := fits_cons.mp hf
    refine ih hf (placed_pushComponents hs (hp hprev)) fun _ a ha => .inl ?_
    rw [pushComponents_head] at ha
    exact (Option.some.inj ha).symm
  | case3 seen item items hno ih =>
    obtain ⟨hi, hf⟩ := fits_cons.mp hf
    by_cases hc : item = .anyComponents
    · subst hc
      refine ih hf (placed_pushComponents hs (hp hi.1)) fun _ a ha => .inl ?_
      rw [Item.push, pushComponents_head] at ha
      exact (Option.some.inj ha).symm
    · obtain ⟨t, ht, htc, hslash⟩ := item.push_eq_cons hc seen
      rw [ht] at ih ⊢
      refine ih hf (placed_reverse_cons.mpr ⟨fun a _ h => absurd h htc, hs⟩) fun hl a ha => .inr ?_
      rw [← Option.some.inj ha]
      exact hslash (Option.some.inj (hl.resolve_left (by simp)))

theorem placed_of_parse {pattern : String} {g : Glob} (h : Glob.parse pattern = .ok g) :
    Placed g.tokens := by
  obtain ⟨items, _, hf, ht⟩ := parse_eq_ok_iff.mp h
  rw [ht]
  exact placed_gather hf .nil nofun

theorem matches_iff_splits {pattern : String} {g : Glob} (hg : Glob.parse pattern = .ok g)
    {name : String} (hn : '/' ∉ name.toList) :
    g.matches name = true ↔ Splits true g.tokens name.toList := by
  rw [Glob.matches, decide_eq_true_iff]
  exact ((placed_of_parse hg).decides true name.toList hn).matched

/-- **A pattern matches the names that can be cut into pieces, one for each of its
tokens**, such that every token stands for its piece, and a dot at the start of the
name falls to a literal. -/
theorem matches_iff_pieces {pattern : String} {g : Glob} (hg : Glob.parse pattern = .ok g)
    {name : String} (hn : '/' ∉ name.toList) :
    g.matches name = true ↔
      ∃ split : List (Token × List Char),
        split.map Prod.fst = g.tokens ∧ split.flatMap Prod.snd = name.toList ∧
        ∀ before t piece after, split = before ++ (t, piece) :: after →
          t.StandsFor piece (after.flatMap Prod.snd) ∧
          (before.flatMap Prod.snd = [] → piece.head? = some '.' → ∃ l, t = .literal l) := by
  rw [matches_iff_splits hg hn, Splits]
  simp only [IsSplit, joined, true_implies]

/-- The first star takes a dot that is not the last one, and the class the other case
of one of its letters. -/
theorem matches_iff_pieces_dotted :
    let g : Glob := ⟨[.anySequence, .literal '.', .within [.range 'g' 'i'], .anySequence]⟩
    Glob.parse "*.[g-i]*" = .ok g ∧ g.matches "a.b.Hh" = true ∧
      ∃ split : List (Token × List Char),
        split.map Prod.fst = g.tokens ∧ split.flatMap Prod.snd = "a.b.Hh".toList := by
  intro g
  have hg : Glob.parse "*.[g-i]*" = .ok g := rfl
  have hn : '/' ∉ "a.b.Hh".toList := by simp
  have hm : g.matches "a.b.Hh" = true := by decide
  obtain ⟨split, ht, hj, _⟩ := (matches_iff_pieces hg hn).mp hm
  exact ⟨hg, hm, split, ht, hj⟩

end Glob
end HeaderDb
