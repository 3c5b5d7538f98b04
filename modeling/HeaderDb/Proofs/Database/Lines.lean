import HeaderDb.Proofs.Database.RoundTrip
import HeaderDb.Proofs.Text.Splitting

/-! # The lines of a database

A literal holds no control character, so the line ends of the text are those of its
layout, whatever the fields hold: a line for each bracket, brace and field. Only
the last line of a record that another one follows ends with a brace and a comma;
a line with a field ends with a quote, or with a comma after a quote. -/

namespace HeaderDb.Database

open Text

/-- The line of a field, without a comma. -/
def fieldLine (key value : String) : String :=
  "  " ++ Json.literal key ++ ": " ++ Json.literal value

/-- The five lines of a record; the last of them is `close`. -/
def recordLines (close : String) (r : Record) : List String :=
  ["\x7b", fieldLine "directory" r.directory ++ ",", fieldLine "command" r.command ++ ",",
    fieldLine "file" r.file, close]

/-- The lines of a database. Every record but the last has a comma after it. -/
def lines (db : Database) : List String :=
  "[" :: (db.dropLast.flatMap (recordLines "\x7d,") ++
    db.getLast?.toList.flatMap (recordLines "\x7d") ++ ["]"])

theorem length_lines (db : Database) : db.lines.length = 5 * db.length + 2 := by
  rcases db.eq_nil_or_concat' with rfl | ⟨rs, r, rfl⟩
  · rfl
  · simp [lines, recordLines, List.length_flatMap]
    omega

/-! ## The text is made of these lines -/

theorem terminated_record (mark : String) (r : Record) :
    (recordLines ("\x7d" ++ mark) r).flatMap terminated = r.render.toList ++ terminated mark := by
  rw [toList_render]
  unfold recordLines fieldLine terminated
  simp

theorem toList_render_lines (db : Database) : db.render.toList = db.lines.flatMap terminated := by
  rcases db.eq_nil_or_concat' with rfl | ⟨rs, r, rfl⟩
  · rfl
  · have hlast : (recordLines "\x7d" r).flatMap terminated = r.render.toList ++ ['\n'] :=
      terminated_record "" r
    have hothers : (rs.flatMap (recordLines "\x7d,")).flatMap terminated =
        rs.flatMap fun r => r.render.toList ++ ",\n".toList := by
      rw [List.flatMap_assoc]
      exact congrArg (List.flatMap · rs) (funext (terminated_record ","))
    have hdb : (rs ++ [r]).isEmpty = false := by simp
    rw [render, hdb, if_neg Bool.false_ne_true, lines, List.dropLast_concat, List.getLast?_concat]
    simp only [String.toList_append, toList_intercalate_concat, List.flatMap_cons,
      List.flatMap_append, List.flatMap_nil, Option.toList_some, hothers, hlast]
    simp [terminated]

/-! ## What the lines hold -/

theorem le_of_mem_fieldLine (key value : String) : ∀ c ∈ (fieldLine key value).toList, ' ' ≤ c := by
  have hliteral (s : String) : ∀ c ∈ (Json.literal s).toList, ' ' ≤ c :=
    fun _ => Json.le_of_mem_literal
  simp only [fieldLine, String.toList_append, List.forall_mem_append]
  exact ⟨⟨⟨by simp, hliteral key⟩, by simp⟩, hliteral value⟩

/-- No line holds a control character. -/
theorem le_of_mem_lines (db : Database) : ∀ line ∈ db.lines, ∀ c ∈ line.toList, ' ' ≤ c := by
  have hrecord {close : String} (hclose : ∀ c ∈ close.toList, ' ' ≤ c) (r : Record) :
      ∀ line ∈ recordLines close r, ∀ c ∈ line.toList, ' ' ≤ c := by
    simp only [recordLines, List.forall_mem_cons, String.toList_append, List.forall_mem_append]
    exact ⟨by simp, ⟨le_of_mem_fieldLine _ _, by simp⟩, ⟨le_of_mem_fieldLine _ _, by simp⟩,
      le_of_mem_fieldLine _ _, hclose, nofun⟩
  simp only [lines, List.forall_mem_cons, List.forall_mem_append, List.forall_mem_flatMap]
  exact ⟨by simp, ⟨fun r _ => hrecord (by simp) r, fun r _ => hrecord (by simp) r⟩,
    by simp, nofun⟩

theorem newline_not_mem_lines (db : Database) : ∀ line ∈ db.lines, '\n' ∉ line.toList := by
  intro line hline hc
  exact absurd (le_of_mem_lines db line hline _ hc) (by decide)

/-- Whether a line is the end of a record with a comma after it. -/
def endsRecord (line : String) : Bool := ['\x7d', ','].isSuffixOf line.toList

theorem toList_fieldLine (key value : String) :
    ∃ cs, (fieldLine key value).toList = cs ++ ['"'] := by
  rw [fieldLine, String.toList_append, Json.toList_literal, ← List.cons_append, ← List.append_assoc]
  exact ⟨_, rfl⟩

theorem endsRecord_fieldLine (key value : String) :
    endsRecord (fieldLine key value) = false ∧ endsRecord (fieldLine key value ++ ",") = false := by
  obtain ⟨cs, hcs⟩ := toList_fieldLine key value
  simp only [endsRecord, String.toList_append, hcs, Bool.eq_false_iff, ne_eq,
    List.isSuffixOf_iff_suffix]
  constructor
  · intro ⟨before, h⟩
    rw [← List.singleton_append, ← List.append_assoc] at h
    cases (List.append_inj' h rfl).2
  · intro ⟨before, h⟩
    rw [List.append_assoc] at h
    cases (List.append_inj' h rfl).2

theorem countP_record (close : String) (r : Record) :
    (recordLines close r).countP endsRecord = if endsRecord close then 1 else 0 := by
  have hopen : endsRecord "\x7b" = false := rfl
  simp [recordLines, List.countP_cons, endsRecord_fieldLine, hopen]

theorem countP_lines (db : Database) : db.lines.countP endsRecord = db.length - 1 := by
  have hbrackets : endsRecord "[" = false ∧ endsRecord "]" = false := ⟨rfl, rfl⟩
  have hothers (rs : List Record) :
      (rs.flatMap (recordLines "\x7d,")).countP endsRecord = rs.length := by
    have hcomma : endsRecord "\x7d," = true := rfl
    simp [List.countP_flatMap, Function.comp_def, countP_record, hcomma]
  have hlast (rs : List Record) : (rs.flatMap (recordLines "\x7d")).countP endsRecord = 0 := by
    have hclose : endsRecord "\x7d" = false := rfl
    simp [List.countP_flatMap, Function.comp_def, countP_record, hclose]
  simp [lines, List.countP_append, hbrackets, hothers, hlast]

/-- **The text of a database is line-oriented whatever its fields hold.** Cut at
every line end it gives two lines and five for each record, with an empty rest; no
line holds a control character, and a brace with a comma and a line end after it
stands only between two records. -/
theorem render_lines (db : Database) :
    pieces '\n' db.render = db.lines ++ [""] ∧
    db.lines.length = 5 * db.length + 2 ∧
    (∀ line ∈ db.lines, ∀ c ∈ line.toList, ' ' ≤ c) ∧
    occurrences "\x7d,\n".toList db.render.toList = db.length - 1 := by
  have hlines := newline_not_mem_lines db
  refine ⟨pieces_lines hlines (toList_render_lines db), length_lines db, le_of_mem_lines db, ?_⟩
  have hword : "\x7d,\n".toList = ['\x7d', ','] ++ ['\n'] := rfl
  rw [hword, toList_render_lines, occurrences_lines (by decide) hlines]
  exact countP_lines db

/-- Two records whose fields hold what separates records and lines. -/
def misleading : Database :=
  [⟨"/\x7d,\n\x7b", "cc \x7d,\n -c", "./\x7d,\n"⟩, ⟨"\n", "", "\x7d,\n\x7d,\n"⟩]

theorem render_lines_misleading :
    pieces '\n' misleading.render = misleading.lines ++ [""] ∧ misleading.lines.length = 12 ∧
    (fieldLine "file" "./\x7d,\n" ∈ misleading.lines ∧
      ∀ c ∈ (fieldLine "file" "./\x7d,\n").toList, ' ' ≤ c) ∧
    occurrences "\x7d,\n".toList misleading.render.toList = 1 := by
  obtain ⟨hpieces, hlength, hle, hcount⟩ := render_lines misleading
  have hmem : fieldLine "file" "./\x7d,\n" ∈ misleading.lines := by
    simp [misleading, lines, recordLines]
  exact ⟨hpieces, hlength, ⟨hmem, hle _ hmem⟩, hcount⟩

end HeaderDb.Database
