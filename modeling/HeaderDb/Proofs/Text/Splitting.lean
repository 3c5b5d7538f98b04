import Mathlib.Data.List.Infix

/-! # Texts cut at a character

Joining parts with a character and cutting at it again gives the parts back
exactly if none of them holds the character: a piece never does. For texts of
lines, each with its line end, cutting gives the lines and an empty rest, and a
word that ends with a line end is found once for every line that it ends. -/

namespace HeaderDb.Text

/-- The pieces of a text between the places where `c` stands. There is one more
of them than there are such places, and any of them may be empty. -/
def pieces (c : Char) (s : String) : List String := (s.split c).toList.map String.Slice.copy

theorem pieces_eq (c : Char) (s : String) :
    pieces c s = (s.toList.splitOn c).map String.ofList :=
  String.toList_split_char

theorem not_mem_of_mem_splitOn {c : Char} {cs piece : List Char} (h : piece ∈ cs.splitOn c) :
    c ∉ piece := by
  induction cs generalizing piece with
  | nil =>
    obtain rfl : piece = [] := by simpa using h
    exact List.not_mem_nil
  | cons d cs ih =>
    rw [List.splitOn_cons_eq_if_modifyHead] at h
    split at h
    · rcases List.mem_cons.mp h with rfl | h
      · exact List.not_mem_nil
      · exact ih h
    · next hd =>
      -- `d` goes to the front of the first piece and leaves the others alone
      obtain ⟨first, rest, hs⟩ := List.exists_cons_of_ne_nil (List.splitOn_ne_nil c cs)
      rw [hs, List.modifyHead_cons] at h
      rcases List.mem_cons.mp h with rfl | h
      · have hfirst : c ∉ first := ih (hs ▸ List.mem_cons_self)
        intro hc
        rcases List.mem_cons.mp hc with rfl | hc
        · exact hd BEq.rfl
        · exact hfirst hc
      · exact ih (hs ▸ List.mem_cons_of_mem _ h)

/-- Joined parts are the pieces of the whole exactly if none holds the separator. -/
theorem pieces_intercalate_iff {c : Char} {parts : List String} (hne : parts ≠ []) :
    pieces c ((String.singleton c).intercalate parts) = parts ↔ ∀ p ∈ parts, c ∉ p.toList := by
  constructor
  · intro h p hp
    rw [← h, pieces_eq] at hp
    obtain ⟨piece, hpiece, rfl⟩ := List.mem_map.mp hp
    rw [String.toList_ofList]
    exact not_mem_of_mem_splitOn hpiece
  · intro h
    have hs := String.toList_split_intercalate h
    rwa [if_neg hne] at hs

/-- Every text but the last has the separator after it. -/
theorem toList_intercalate_concat {α : Type} (sep : String) (f : α → String) (xs : List α) (x : α) :
    (sep.intercalate ((xs ++ [x]).map f)).toList =
      xs.flatMap (fun y => (f y).toList ++ sep.toList) ++ (f x).toList := by
  induction xs with
  | nil => simp
  | cons y xs ih =>
    rw [List.cons_append, List.map_cons, String.intercalate_cons_of_ne_nil (by simp),
      String.toList_append, String.toList_append, ih, List.flatMap_cons]
    simp only [List.append_assoc]

/-! ## Lines -/

/-- A line with its line end. -/
def terminated (line : String) : List Char := line.toList ++ ['\n']

theorem flatMap_terminated_cons (line : String) (lines : List String) :
    (line :: lines).flatMap terminated = line.toList ++ '\n' :: lines.flatMap terminated := by
  simp [terminated]

theorem pieces_lines {lines : List String} (h : ∀ l ∈ lines, '\n' ∉ l.toList) {s : String}
    (hs : s.toList = lines.flatMap terminated) : pieces '\n' s = lines ++ [""] := by
  rw [pieces_eq, hs]
  clear hs
  induction lines with
  | nil => rfl
  | cons l lines ih =>
    rw [List.forall_mem_cons] at h
    rw [flatMap_terminated_cons, List.splitOn_append_cons_self_of_not_mem h.1, List.map_cons,
      ih h.2, String.ofList_toList, List.cons_append]

/-- How often a word stands in a text: the ends of the text that begin with it. -/
def occurrences (word text : List Char) : Nat := text.tails.countP word.isPrefixOf

theorem occurrences_cons (word : List Char) (c : Char) (text : List Char) :
    occurrences word (c :: text) =
      occurrences word text + if word <+: c :: text then 1 else 0 := by
  simp [occurrences, List.countP_cons]

/-- A text begins with a line and its end only if this is its first line. -/
theorem prefix_line_iff {w l : List Char} (hw : '\n' ∉ w) (hl : '\n' ∉ l) (text : List Char) :
    w ++ ['\n'] <+: l ++ '\n' :: text ↔ w = l := by
  constructor
  · intro ⟨rest, h⟩
    rw [List.append_assoc, List.singleton_append] at h
    have hcut := congrArg (List.splitOn '\n') h
    rw [List.splitOn_append_cons_self_of_not_mem hw, List.splitOn_append_cons_self_of_not_mem hl]
      at hcut
    exact (List.cons.inj hcut).1
  · intro h
    subst h
    exact ⟨text, by simp⟩

/-- A word that ends with a line end stands in a line at most once, at its end. -/
theorem occurrences_line {w l : List Char} (hw : '\n' ∉ w) (hl : '\n' ∉ l) (text : List Char) :
    occurrences (w ++ ['\n']) (l ++ '\n' :: text) =
      occurrences (w ++ ['\n']) text + if w <:+ l then 1 else 0 := by
  induction l with
  | nil =>
    have hstart := prefix_line_iff hw hl text
    rw [List.nil_append] at hstart ⊢
    rw [occurrences_cons]
    simp only [hstart, List.suffix_nil]
  | cons c l ih =>
    have hl' : '\n' ∉ l := List.not_mem_of_not_mem_cons hl
    have hstart := prefix_line_iff hw hl text
    rw [List.cons_append] at hstart ⊢
    rw [occurrences_cons, ih hl']
    simp only [hstart, List.suffix_cons_iff]
    by_cases hwl : w = c :: l
    · subst hwl
      have hlong : ¬ c :: l <:+ l := by
        intro h
        exact absurd h.length_le (by simp)
      simp [hlong]
    · simp [hwl]

theorem occurrences_lines {w : List Char} (hw : '\n' ∉ w) {lines : List String}
    (h : ∀ l ∈ lines, '\n' ∉ l.toList) :
    occurrences (w ++ ['\n']) (lines.flatMap terminated) =
      lines.countP fun l => w.isSuffixOf l.toList := by
  induction lines with
  | nil => simp [occurrences]
  | cons l lines ih =>
    rw [List.forall_mem_cons] at h
    rw [flatMap_terminated_cons, occurrences_line hw h.1, ih h.2, List.countP_cons]
    simp only [List.isSuffixOf_iff_suffix]

end HeaderDb.Text
