import HeaderDb.Proofs.Glob.Pieces
import HeaderDb.Proofs.Run.Listing

/-! # Patterns with one star

A pattern with a single star and no other special character asks for a beginning
and an end, up to the case of letters, which must not overlap. Only where nothing
stands before the star can it meet the start of a name, and there it passes no
dot. -/

namespace HeaderDb
namespace Glob

/-- A text in which every character stands for itself. -/
def IsPlain (s : String) : Prop := ∀ c ∈ s.toList, c ≠ '*' ∧ c ≠ '?' ∧ c ≠ '['

/-- Texts that are equal up to the case of ASCII letters. -/
def SameLetters (a b : String) : Prop := a.toList.map Char.toLower = b.toList.map Char.toLower

/-! ## Reading -/

theorem texts_plain (cs : List Char) (items : List Item) :
    texts (cs.map .plain ++ items) = cs ++ texts items := by
  induction cs with
  | nil => rfl
  | cons c cs ih => exact congrArg (c :: ·) ih

theorem gather_plain (seen : List Token) (cs : List Char) (items : List Item) :
    gather seen (cs.map .plain ++ items) = gather ((cs.map .literal).reverse ++ seen) items := by
  induction cs generalizing seen with
  | nil => rfl
  | cons c cs ih =>
    have hstep : gather seen ((c :: cs).map .plain ++ items) =
        gather (.literal c :: seen) (cs.map .plain ++ items) := rfl
    rw [hstep, ih, List.map_cons, List.reverse_cons, List.append_assoc]
    rfl

theorem fits_plain {previous : Option Char} {cs : List Char} {items : List Item}
    (hcs : ∀ c ∈ cs, c ≠ '*' ∧ c ≠ '?' ∧ c ≠ '[') (hi : Fits (cs.getLast?.or previous) items) :
    Fits previous (cs.map .plain ++ items) := by
  induction cs generalizing previous with
  | nil => exact hi
  | cons c cs ih =>
    obtain ⟨hc, hcs⟩ := List.forall_mem_cons.mp hcs
    refine fits_cons.mpr ⟨hc, ih hcs ?_⟩
    rw [List.getLast?_cons] at hi
    cases hl : cs.getLast? with
    | none => rw [hl] at hi; exact hi
    | some d => rw [hl] at hi; exact hi

theorem parse_affixes {p s : String} (hp : IsPlain p) (hs : IsPlain s) :
    Glob.parse (p ++ "*" ++ s) =
      .ok ⟨p.toList.map .literal ++ .anySequence :: s.toList.map .literal⟩ := by
  refine parse_eq_ok_iff.mpr
    ⟨p.toList.map .plain ++ .anySequence :: (s.toList.map .plain ++ []), ?_, ?_, ?_⟩
  · rw [texts_plain, texts_cons, texts_plain]
    simp [Item.text]
  · refine fits_plain hp (fits_cons.mpr ⟨⟨?_, ?_⟩, fits_plain hs (fits_nil _)⟩)
    · rw [Option.or_none]
      intro hl
      exact (hp _ (List.mem_of_getLast? hl)).1 rfl
    · rw [texts_plain, texts_nil, List.append_nil]
      intro hh
      exact (hs _ (List.mem_of_head? hh)).1 rfl
  · have hstar (seen : List Token) (items : List Item) :
        gather seen (.anySequence :: items) = gather (.anySequence :: seen) items := rfl
    rw [gather_plain, hstar, gather_plain, gather]
    simp

/-! ## Matching -/

theorem splits_literals {leading : Bool} {cs : List Char} {ts : List Token} {name : List Char} :
    Splits leading (cs.map .literal ++ ts) name ↔ ∃ first rest, name = first ++ rest ∧
      first.map Char.toLower = cs.map Char.toLower ∧ Splits (leading && cs.isEmpty) ts rest := by
  induction cs generalizing leading name with
  | nil =>
    rw [List.isEmpty_nil, Bool.and_true]
    constructor
    · intro h
      exact ⟨[], name, rfl, rfl, h⟩
    · intro ⟨first, rest, hn, hf, h⟩
      rw [List.map_nil, List.map_eq_nil_iff] at hf
      rw [hn, hf]
      exact h
  | cons c cs ih =>
    rw [List.map_cons, List.cons_append, splits_char (t := .literal c) nofun nofun,
      List.isEmpty_cons, Bool.and_false]
    constructor
    · intro ⟨d, rest, hn, hd, h⟩
      obtain ⟨first, after, rfl, hf, h⟩ := ih.mp h
      have hsame : d.toLower = c.toLower := of_decide_eq_true hd
      exact ⟨d :: first, after, hn, by rw [List.map_cons, List.map_cons, hsame, hf], h⟩
    · intro ⟨first, after, hn, hf, h⟩
      obtain ⟨d, first, rfl, hd, hf⟩ := List.map_eq_cons_iff.mp hf
      exact ⟨d, first ++ after, hn, decide_eq_true hd, ih.mpr ⟨first, after, rfl, hf, h⟩⟩

theorem splits_star {leading : Bool} {cs name : List Char} :
    Splits leading (.anySequence :: cs.map .literal) name ↔ ∃ middle last, name = middle ++ last ∧
      last.map Char.toLower = cs.map Char.toLower ∧
      ¬ (leading = true ∧ middle.head? = some '.') := by
  have hend {l : Bool} {rest : List Char} : Splits l (cs.map .literal) rest ↔
      rest.map Char.toLower = cs.map Char.toLower := by
    rw [← List.append_nil (cs.map Token.literal), splits_literals]
    constructor
    · intro ⟨first, after, hr, hf, h⟩
      rw [hr, splits_nil.mp h, List.append_nil, hf]
    · intro h
      exact ⟨rest, [], (List.append_nil rest).symm, h, splits_nil.mpr rfl⟩
  rw [splits_cons]
  constructor
  · intro ⟨middle, last, hn, _, hdot, h⟩
    refine ⟨middle, last, hn, hend.mp h, fun ⟨hl, hd⟩ => ?_⟩
    obtain ⟨l, hlit⟩ := hdot hl hd
    cases hlit
  · intro ⟨middle, last, hn, h, hdot⟩
    exact ⟨middle, last, hn, trivial, fun hl hd => absurd ⟨hl, hd⟩ hdot, hend.mpr h⟩

/-- The names that a pattern with one star matches. -/
theorem matches_affixes {p s n : String} {g : Glob} (hp : IsPlain p) (hs : IsPlain s)
    (hg : Glob.parse (p ++ "*" ++ s) = .ok g) (hn : '/' ∉ n.toList) :
    g.matches n = true ↔ ∃ p' m s', n = p' ++ m ++ s' ∧ SameLetters p' p ∧ SameLetters s' s ∧
      (p = "" → m.toList.head? ≠ some '.') := by
  have hempty : (true && p.toList.isEmpty) = true ↔ p = "" := by simp
  rw [matches_iff_splits hg hn]
  cases hg.symm.trans (parse_affixes hp hs)
  rw [splits_literals]
  simp only [splits_star, hempty]
  constructor
  · intro ⟨first, rest, hname, hfirst, middle, last, hrest, hlast, hdot⟩
    refine ⟨.ofList first, .ofList middle, .ofList last, ?_, ?_, ?_, fun hp hd => hdot ⟨hp, ?_⟩⟩
    · rw [← String.toList_inj, hname, hrest]
      simp
    · simpa [SameLetters] using hfirst
    · simpa [SameLetters] using hlast
    · simpa using hd
  · intro ⟨p', m, s', hname, hfirst, hlast, hdot⟩
    refine ⟨p'.toList, m.toList ++ s'.toList, ?_, hfirst, m.toList, s'.toList, rfl, hlast,
      fun ⟨hp, hd⟩ => hdot hp hd⟩
    rw [hname]
    simp

/-- Without a beginning, a name that starts with a dot is the end alone. -/
theorem sameLetters_of_hidden {s n p' m s' : String} (hname : n = p' ++ m ++ s')
    (hp : SameLetters p' "") (hs : SameLetters s' s) (hm : m.toList.head? ≠ some '.')
    (hdot : n.toList.head? = some '.') : SameLetters n s := by
  have hp : p'.toList = [] := List.map_eq_nil_iff.mp hp
  have hn : n.toList = m.toList ++ s'.toList := by
    rw [hname, String.toList_append, String.toList_append, hp]
    rfl
  cases hmid : m.toList with
  | nil =>
    rw [hmid, List.nil_append] at hn
    rw [SameLetters, hn]
    exact hs
  | cons c rest =>
    rw [hn, hmid] at hdot
    rw [hmid] at hm
    exact absurd hdot hm

end Glob

/-! ## Scanning -/

section
open Glob

/-- **With one star, the headers are the names with the right beginning and the
right end.** Every directory is scanned. Of the names in it that lead to no directory,
those are headers that begin and end as the pattern does, with anything between them;
at the start of a name the star passes no dot. A directory is among them only if it is
overlooked. -/
theorem scan_affixes {t : Tree} (hw : t.root.WellFormed) {path : Bytes} {place : Place}
    (hr : t.resolve .follow path = .ok (.directory place)) {p s : String} (hp : IsPlain p)
    (hs : IsPlain s) :
    ∃ notes, scan (p ++ "*" ++ s) (t.list path) = .ok notes ∧
      (∀ n, n ∈ headersOf notes ↔
        Utf8.encode n ∈ t.namesIn place ∧
        ((∃ links, LeadsToDirectory t.root links place (Utf8.encode n)) →
          t.Overlooked path place (Utf8.encode n)) ∧
        ∃ p' m s', n = p' ++ m ++ s' ∧ SameLetters p' p ∧ SameLetters s' s ∧
          (p = "" → m.toList.head? ≠ some '.')) ∧
      (p = "" → ∀ n ∈ headersOf notes, n.toList.head? = some '.' → SameLetters n s) := by
  obtain ⟨g, hg⟩ : ∃ g, Glob.parse (p ++ "*" ++ s) = .ok g := ⟨_, parse_affixes hp hs⟩
  have hl := Tree.list_eq_ok_iff.mpr ⟨_, Tree.names_eq_ok_iff.mpr ⟨place, hr, rfl⟩, rfl⟩
  have hlegal : ∀ k ∈ t.namesIn place, k.IsLegal := fun _ => Tree.legal_of_namesIn hw
  have hmatch (n : String) (hk : Utf8.encode n ∈ t.namesIn place) :=
    matches_affixes (n := n) hp hs hg fun hslash =>
      (hlegal _ hk).2.2.2.1 (Utf8.mem_encode Path.utf8EncodeChar_slash hslash)
  have hmem (n : String) := (Tree.mem_headersOf_names hr hlegal g n).trans <|
    and_congr_right fun hk => and_comm.trans (and_congr_right fun _ => hmatch n hk)
  refine ⟨_, by rw [scan, hg, hl], hmem, ?_⟩
  intro hempty n hn hdot
  obtain ⟨_, _, p', m, s', hname, hfirst, hlast, hm⟩ := (hmem n).mp hn
  exact sameLetters_of_hidden hname (hempty ▸ hfirst) hlast (hm hempty) hdot

/-- A tree with two hidden files, one of them with nothing before its ending. -/
def Tree.veiled : Tree :=
  { root := .dir [(Utf8.encode ".hh", .file []), (Utf8.encode ".a.hh", .file []),
      (Utf8.encode "B.HH", .file [])] }

theorem Tree.veiled_wellFormed : veiled.root.WellFormed := by
  refine Node.wellFormed_dir (by decide) (by decide) ?_
  simp only [List.forall_mem_cons]
  exact ⟨Node.wellFormed_leaf (by simp), Node.wellFormed_leaf (by simp),
    Node.wellFormed_leaf (by simp), by simp⟩

theorem scan_affixes_veiled :
    ∃ notes, scan ("" ++ "*" ++ ".hh") (Tree.veiled.list [Path.slash]) = .ok notes ∧
      ".hh" ∈ headersOf notes ∧ "B.HH" ∈ headersOf notes ∧ ".a.hh" ∉ headersOf notes := by
  have hr : Tree.veiled.resolve .follow [Path.slash] = .ok (.directory .root) := rfl
  obtain ⟨notes, hscan, hmem, hhidden⟩ := scan_affixes Tree.veiled_wellFormed hr
    (show IsPlain "" by simp [IsPlain]) (show IsPlain ".hh" by simp [IsPlain])
  refine ⟨notes, hscan, (hmem _).mpr ⟨?_, ?_, "", "", ".hh", rfl, rfl, rfl, by simp⟩,
    (hmem _).mpr ⟨?_, ?_, "", "B", ".HH", rfl, rfl, rfl, by simp⟩, fun h => ?_⟩
  · exact List.mem_cons_self
  · exact (Tree.isDirectory_append_false hr (by decide)).mp rfl
  · exact .tail _ (.tail _ List.mem_cons_self)
  · exact (Tree.isDirectory_append_false hr (by decide)).mp rfl
  · exact absurd (hhidden rfl _ h rfl) (by simp [SameLetters])

end

end HeaderDb
