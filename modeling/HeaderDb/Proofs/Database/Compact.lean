import HeaderDb.Proofs.Database.RoundTrip
import HeaderDb.Proofs.Text.Splitting

/-! # The two texts of a database

Both write the same literals and the same marks around them, and differ in the
blanks between these. What stands between literals is found by a reader that
follows the quotes and the backslashes; a literal takes it back to where it was,
since every quote inside it has a backslash before it. -/

namespace HeaderDb

namespace Json

/-- Where a reader of a JSON text stands. -/
inductive Zone where
  | outside
  | inside
  /-- Inside a literal and right after a backslash. -/
  | escaped
  deriving Repr, DecidableEq

def Zone.next : Zone → Char → Zone
  | .outside, c => if c = '"' then .inside else .outside
  | .inside, c => if c = '"' then .outside else if c = '\\' then .escaped else .inside
  | .escaped, _ => .inside

/-- The characters from the given zone on, without the spaces and line ends
outside literals. -/
def squeeze : Zone → List Char → List Char
  | _, [] => []
  | z, c :: cs =>
    if z = .outside ∧ (c = ' ' ∨ c = '\n') then squeeze z cs else c :: squeeze (z.next c) cs

/-- A JSON text without the spaces and line ends outside its literals. -/
def squeezed (s : String) : String := String.ofList (squeeze .outside s.toList)

/-! ## Inside a literal -/

theorem squeeze_inside (c : Char) (cs : List Char) :
    squeeze .inside (c :: cs) = c :: squeeze (Zone.inside.next c) cs := by
  simp [squeeze]

theorem squeeze_plain {ds : List Char} (h : ∀ d ∈ ds, IsPlain d) (cs : List Char) :
    squeeze .inside (ds ++ cs) = ds ++ squeeze .inside cs := by
  induction ds with
  | nil => rfl
  | cons d ds ih =>
    obtain ⟨hd, hds⟩ := List.forall_mem_cons.mp h
    rw [List.cons_append, squeeze_inside, Zone.next, if_neg hd.not_quote,
      if_neg hd.not_backslash, ih hds, List.cons_append]

/-- Whatever a character is written as, the reader is inside again after it. -/
theorem squeeze_escape (c : Char) (cs : List Char) :
    squeeze .inside (escape c ++ cs) = escape c ++ squeeze .inside cs := by
  have hw := written_escape c
  generalize escape c = w at hw ⊢
  cases hw with
  | verbatim hc => exact squeeze_plain (by simpa using hc) cs
  | escaped _ hds =>
    have hbackslash : Zone.inside.next '\\' = .escaped := rfl
    rw [List.cons_append, List.cons_append, squeeze_inside, hbackslash]
    simp [squeeze, Zone.next, squeeze_plain hds]

theorem squeeze_literal (s : String) (cs : List Char) :
    squeeze .outside ((literal s).toList ++ cs) = (literal s).toList ++ squeeze .outside cs := by
  have hbody (text : List Char) : squeeze .inside (text.flatMap escape ++ '"' :: cs) =
      text.flatMap escape ++ '"' :: squeeze .outside cs := by
    induction text with
    | nil => exact squeeze_inside '"' cs
    | cons c text ih =>
      rw [List.flatMap_cons, List.append_assoc, squeeze_escape, ih, List.append_assoc]
  rw [toList_literal, List.cons_append, List.append_assoc, List.singleton_append]
  simp [squeeze, Zone.next, hbody]

/-! ## Between literals -/

theorem squeeze_blank {c : Char} (h : c = ' ' ∨ c = '\n') (cs : List Char) :
    squeeze .outside (c :: cs) = squeeze .outside cs := by
  simp [squeeze, h]

theorem squeeze_mark {c : Char} (hb : c ∉ ['"', ' ', '\n']) (cs : List Char) :
    squeeze .outside (c :: cs) = c :: squeeze .outside cs := by
  simp only [List.mem_cons, List.not_mem_nil, or_false, not_or] at hb
  simp [squeeze, Zone.next, hb]

end Json

namespace Database

open Json Text

/-- The characters of a record without blanks, with its keys as literals. -/
theorem toList_compact (r : Record) : r.compact.toList =
    '\x7b' :: ((Json.literal "directory").toList ++ ':' :: ((Json.literal r.directory).toList ++
    ',' :: ((Json.literal "command").toList ++ ':' :: ((Json.literal r.command).toList ++
    ',' :: ((Json.literal "file").toList ++
      ':' :: ((Json.literal r.file).toList ++ ['\x7d'])))))) := by
  have hd : Json.literal "directory" = "\"directory\"" := rfl
  have hc : Json.literal "command" = "\"command\"" := rfl
  have hf : Json.literal "file" = "\"file\"" := rfl
  unfold Record.compact
  simp [hd, hc, hf]

theorem squeeze_record (r : Record) (cs : List Char) :
    squeeze .outside (r.render.toList ++ cs) = r.compact.toList ++ squeeze .outside cs := by
  rw [toList_render, toList_compact]
  simp [squeeze_literal, squeeze_blank, squeeze_mark]

/-- The line end after the comma between two records goes too. -/
theorem squeeze_records (rs : List Record) (cs : List Char) :
    squeeze .outside (rs.flatMap (fun r => r.render.toList ++ ",\n".toList) ++ cs) =
      rs.flatMap (fun r => r.compact.toList ++ ",".toList) ++ squeeze .outside cs := by
  induction rs with
  | nil => rfl
  | cons r rs ih =>
    simp only [List.flatMap_cons, List.append_assoc]
    rw [squeeze_record, ← ih]
    simp [squeeze_blank, squeeze_mark]

theorem squeeze_render (db : Database) :
    squeeze .outside db.render.toList = db.compact.toList := by
  rcases db.eq_nil_or_concat' with rfl | ⟨rs, r, rfl⟩
  · rfl
  · have hdb : (rs ++ [r]).isEmpty = false := by simp
    have hstart (cs : List Char) :
        squeeze .outside ("[\n".toList ++ cs) = "[".toList ++ squeeze .outside cs := rfl
    have hend : squeeze .outside ("\n".toList ++ "]\n".toList) = "]".toList := rfl
    rw [render, hdb, if_neg Bool.false_ne_true, compact]
    simp only [String.toList_append, toList_intercalate_concat, List.append_assoc]
    rw [hstart, squeeze_records, squeeze_record, hend]

/-- **The two texts of a database differ in blanks between literals only.** Without
the spaces and line ends outside its literals the one text is the other, and every
literal is left as it is, with the blanks that its text holds. -/
theorem squeezed_render :
    (∀ db : Database, squeezed db.render = db.compact) ∧
    ∀ (s : String) (cs : List Char), squeeze .outside ((Json.literal s).toList ++ cs) =
      (Json.literal s).toList ++ squeeze .outside cs := by
  refine ⟨fun db => ?_, squeeze_literal⟩
  rw [squeezed, squeeze_render, String.ofList_toList]

end Database
end HeaderDb
