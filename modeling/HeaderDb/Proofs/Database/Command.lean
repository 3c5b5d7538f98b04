import HeaderDb.Database.Record
import HeaderDb.Proofs.Text.Splitting

/-! # Commands cut at their spaces

The parts of a command are joined by single spaces and none of them is quoted, so
whoever cuts a command at its spaces gets its parts back only if no part holds a
space. Then a command tells its parts. -/

namespace HeaderDb

open Text

/-- Nothing that a command is made from holds a space. -/
def SpaceFree (compiler : String) (flags : List String) (header : String) : Prop :=
  ' ' ∉ compiler.toList ∧ (∀ f ∈ flags, ' ' ∉ f.toList) ∧ ' ' ∉ header.toList

theorem spaceFree_iff {compiler header : String} {flags : List String} :
    SpaceFree compiler flags header ↔ ∀ p ∈ commandParts compiler flags header, ' ' ∉ p.toList := by
  simp [SpaceFree, commandParts, or_imp, forall_and]

theorem pieces_compileCommand_iff {compiler header : String} {flags : List String} :
    pieces ' ' (compileCommand compiler flags header) = commandParts compiler flags header ↔
      SpaceFree compiler flags header := by
  rw [spaceFree_iff]
  exact pieces_intercalate_iff (by simp [commandParts])

theorem commandParts_injective {compiler header compiler' header' : String}
    {flags flags' : List String}
    (h : commandParts compiler flags header = commandParts compiler' flags' header') :
    compiler = compiler' ∧ flags = flags' ∧ header = header' := by
  -- both end with a header and `-c`, so the lists agree before them too
  obtain ⟨hstart, hend⟩ := List.append_inj' h rfl
  obtain ⟨hc, hf⟩ := List.cons.inj hstart
  exact ⟨hc, hf, (List.cons.inj hend).1⟩

/-- **A command can be cut into its parts again exactly if none of them holds a
space.** Commands of such parts are equal only if their parts are, however many
flags there are. -/
theorem compileCommand_pieces :
    (∀ (compiler : String) (flags : List String) (header : String),
      pieces ' ' (compileCommand compiler flags header) = compiler :: flags ++ [header, "-c"] ↔
        SpaceFree compiler flags header) ∧
    ∀ (compiler compiler' : String) (flags flags' : List String) (header header' : String),
      SpaceFree compiler flags header → SpaceFree compiler' flags' header' →
      (compileCommand compiler flags header = compileCommand compiler' flags' header' ↔
        compiler = compiler' ∧ flags = flags' ∧ header = header') := by
  refine ⟨fun compiler flags header => pieces_compileCommand_iff, ?_⟩
  intro compiler compiler' flags flags' header header' hfree hfree'
  constructor
  · intro h
    refine commandParts_injective ?_
    rw [← pieces_compileCommand_iff.mpr hfree, h, pieces_compileCommand_iff.mpr hfree']
  · intro ⟨hc, hf, hh⟩
    rw [hc, hf, hh]

/-- An empty flag is told from none, but a flag with a space is not told from two. -/
theorem compileCommand_pieces_flags :
    (SpaceFree "cc" ["", "-g"] "a.hh" ∧ SpaceFree "cc" ["-g"] "a.hh" ∧
      compileCommand "cc" ["", "-g"] "a.hh" ≠ compileCommand "cc" ["-g"] "a.hh") ∧
    pieces ' ' (compileCommand "cc" ["-I d"] "a.hh") ≠ ["cc", "-I d", "a.hh", "-c"] := by
  have hfree : SpaceFree "cc" ["", "-g"] "a.hh" ∧ SpaceFree "cc" ["-g"] "a.hh" := by
    simp [SpaceFree]
  refine ⟨⟨hfree.1, hfree.2, fun h => ?_⟩, fun h => ?_⟩
  · have hflags := ((compileCommand_pieces.2 _ _ _ _ _ _ hfree.1 hfree.2).mp h).2.1
    simp at hflags
  · have hspace := ((compileCommand_pieces.1 "cc" ["-I d"] "a.hh").mp h).2.1
    simp at hspace

end HeaderDb
