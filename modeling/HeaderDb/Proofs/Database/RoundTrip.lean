import HeaderDb.Database.Decode
import HeaderDb.Database.Layout
import HeaderDb.Proofs.Json.Literal

/-! # A database survives being written and read

The text of a record is a fixed run of tokens around its three literals, so the
reader fills its draft field by field and closes it. The list of records then
goes by induction, with the comma between two of them and the two brackets of an
empty list as its cases. Nothing is assumed of the fields. -/

namespace HeaderDb.Database

open Json (Lexemes Token ofChars_nil ofChars_blank ofChars_punctuation ofChars_literal)

/-! ## The tokens of a record -/

/-- The tokens of a member of an object, before what follows it. -/
def memberLexemes (key value : String) (rest : Lexemes) : Lexemes :=
  .next (.string (.ok key)) (.next .colon (.next (.string (.ok value)) rest))

/-- The tokens of a record, before what follows it. -/
def recordLexemes (r : Record) (rest : Lexemes) : Lexemes :=
  .next .openBrace (memberLexemes "directory" r.directory (.next .comma
    (memberLexemes "command" r.command (.next .comma
      (memberLexemes "file" r.file (.next .closeBrace rest))))))

theorem ofChars_member (key value : String) (cs : List Char) :
    Lexemes.ofChars (' ' :: ' ' :: ((Json.literal key).toList ++
      ':' :: ' ' :: ((Json.literal value).toList ++ cs))) =
      memberLexemes key value (Lexemes.ofChars cs) := by
  rw [ofChars_blank rfl, ofChars_blank rfl, ofChars_literal, ofChars_punctuation rfl rfl,
    ofChars_blank rfl, ofChars_literal]
  rfl

/-- The characters of a record, with its keys as literals. -/
theorem toList_render (r : Record) : r.render.toList =
    '\x7b' :: '\n' :: ' ' :: ' ' :: ((Json.literal "directory").toList ++
      ':' :: ' ' :: ((Json.literal r.directory).toList ++
    ',' :: '\n' :: ' ' :: ' ' :: ((Json.literal "command").toList ++
      ':' :: ' ' :: ((Json.literal r.command).toList ++
    ',' :: '\n' :: ' ' :: ' ' :: ((Json.literal "file").toList ++
      ':' :: ' ' :: ((Json.literal r.file).toList ++ ['\n', '\x7d'])))))) := by
  have hd : "\x7b\n  \"directory\": ".toList =
      '\x7b' :: '\n' :: ' ' :: ' ' :: ((Json.literal "directory").toList ++ [':', ' ']) := by decide
  have hc : ",\n  \"command\": ".toList =
      ',' :: '\n' :: ' ' :: ' ' :: ((Json.literal "command").toList ++ [':', ' ']) := by decide
  have hf : ",\n  \"file\": ".toList =
      ',' :: '\n' :: ' ' :: ' ' :: ((Json.literal "file").toList ++ [':', ' ']) := by decide
  have he : "\n\x7d".toList = ['\n', '\x7d'] := by decide
  unfold Record.render
  simp only [String.toList_append, hd, hc, hf, he, List.cons_append, List.append_assoc,
    List.nil_append]

theorem ofChars_record (r : Record) (cs : List Char) :
    Lexemes.ofChars (r.render.toList ++ cs) = recordLexemes r (Lexemes.ofChars cs) := by
  rw [toList_render]
  simp only [List.cons_append, List.append_assoc, List.nil_append]
  rw [ofChars_punctuation (t := .openBrace) rfl rfl, ofChars_blank rfl, ofChars_member,
    ofChars_punctuation (t := .comma) rfl rfl, ofChars_blank rfl, ofChars_member,
    ofChars_punctuation (t := .comma) rfl rfl, ofChars_blank rfl, ofChars_member,
    ofChars_blank rfl, ofChars_punctuation (t := .closeBrace) rfl rfl]
  rfl

/-! ## Reading the tokens back -/

theorem member_field {d : Draft} {f : Field} (value : String) (rest : Lexemes)
    (hf : d.get? f = none) :
    member d f.name (.next .colon (.next (.string (.ok value)) rest)) =
      .ok (d.set value f, rest) := by
  have hn : Field.ofName? f.name = some f := by cases f <;> decide
  simp [member, hn, hf, colon, text]

theorem members_comma {d d' : Draft} {key : String} {tail rest : Lexemes}
    (h : member d key tail = .ok (d', .next .comma rest)) :
    members d (.next (.string (.ok key)) tail) = members d' rest := by
  rw [members]
  split <;> simp_all

theorem members_brace {d d' : Draft} {key : String} {tail rest : Lexemes}
    (h : member d key tail = .ok (d', .next .closeBrace rest)) :
    members d (.next (.string (.ok key)) tail) = d'.finish.map fun r => (r, rest) := by
  rw [members]
  split <;> simp_all

/-- The tokens of a record are read as that record. -/
theorem record_lexemes (r : Record) (rest : Lexemes) :
    record (recordLexemes r rest) = .ok (r, rest) := by
  have h₁ := member_field (d := {}) (f := .directory) r.directory
    (.next .comma (memberLexemes "command" r.command (.next .comma
      (memberLexemes "file" r.file (.next .closeBrace rest))))) rfl
  have h₂ := member_field (d := { directory := some r.directory }) (f := .command) r.command
    (.next .comma (memberLexemes "file" r.file (.next .closeBrace rest))) rfl
  have h₃ := member_field (d := { directory := some r.directory, command := some r.command })
    (f := .file) r.file (.next .closeBrace rest) rfl
  calc record (recordLexemes r rest)
      = members {} (memberLexemes "directory" r.directory (.next .comma
          (memberLexemes "command" r.command (.next .comma
            (memberLexemes "file" r.file (.next .closeBrace rest)))))) := rfl
    _ = members { directory := some r.directory } (memberLexemes "command" r.command
          (.next .comma (memberLexemes "file" r.file (.next .closeBrace rest)))) :=
        members_comma h₁
    _ = members { directory := some r.directory, command := some r.command }
          (memberLexemes "file" r.file (.next .closeBrace rest)) := members_comma h₂
    _ = .ok (r, rest) := members_brace h₃

/-- The tokens of one record or more with commas between them, and the closing
bracket. -/
def recordsLexemes : Record → List Record → Lexemes → Lexemes
  | r, [], rest => recordLexemes r (.next .closeBracket rest)
  | r, r' :: rs, rest => recordLexemes r (.next .comma (recordsLexemes r' rs rest))

theorem records_comma {r : Record} {ls rest : Lexemes}
    (h : record ls = .ok (r, .next .comma rest)) :
    records ls = (records rest).map fun (rs, rest) => (r :: rs, rest) := by
  rw [records]
  split <;> simp_all

theorem records_bracket {r : Record} {ls rest : Lexemes}
    (h : record ls = .ok (r, .next .closeBracket rest)) : records ls = .ok ([r], rest) := by
  rw [records]
  split <;> simp_all

theorem records_lexemes (r : Record) (rs : List Record) (rest : Lexemes) :
    records (recordsLexemes r rs rest) = .ok (r :: rs, rest) := by
  induction rs generalizing r with
  | nil => exact records_bracket (record_lexemes r _)
  | cons r' rs ih =>
    rw [recordsLexemes, records_comma (record_lexemes r _), ih]
    rfl

theorem ofChars_records (r : Record) (rs : List Record) (cs : List Char) :
    Lexemes.ofChars ((",\n".intercalate ((r :: rs).map Record.render)).toList ++
      '\n' :: ']' :: cs) = recordsLexemes r rs (Lexemes.ofChars cs) := by
  induction rs generalizing r with
  | nil =>
    rw [List.map_singleton, String.intercalate_singleton, ofChars_record, ofChars_blank rfl,
      ofChars_punctuation (t := .closeBracket) rfl rfl]
    rfl
  | cons r' rs ih =>
    rw [List.map_cons, List.map_cons, String.intercalate_cons_cons, ← List.map_cons]
    simp only [String.toList_append, List.append_assoc]
    rw [ofChars_record, show ",\n".toList = [',', '\n'] from by decide, List.cons_append,
      List.cons_append, List.nil_append, ofChars_punctuation (t := .comma) rfl rfl,
      ofChars_blank rfl, ih]
    rfl

theorem list_records (r : Record) (rs : List Record) (rest : Lexemes) :
    list (.next .openBracket (recordsLexemes r rs rest)) = .ok (r :: rs, rest) := by
  rw [← records_lexemes r rs rest]
  cases rs <;> rfl

/-- Reading the text of a database gives that database. -/
theorem decode_render (db : Database) : decode db.render = .ok db := by
  cases db with
  | nil =>
    have hl : Lexemes.ofChars (render []).toList =
        .next .openBracket (.next .closeBracket .done) := by
      rw [show (render []).toList = ['[', '\n', ']', '\n'] from by decide,
        ofChars_punctuation (t := .openBracket) rfl rfl, ofChars_blank rfl,
        ofChars_punctuation (t := .closeBracket) rfl rfl, ofChars_blank rfl, ofChars_nil]
    simp [decode, hl, list]
  | cons r rs =>
    have ht : (render (r :: rs)).toList = '[' :: '\n' ::
        ((",\n".intercalate ((r :: rs).map Record.render)).toList ++ '\n' :: ']' :: ['\n']) := by
      unfold render
      rw [List.isEmpty_cons, if_neg (by decide)]
      simp only [String.toList_append, show "[\n".toList = ['[', '\n'] from by decide,
        show "]\n".toList = [']', '\n'] from by decide, show "\n".toList = ['\n'] from by decide,
        List.append_assoc, List.cons_append, List.nil_append]
    have hl : Lexemes.ofChars (render (r :: rs)).toList =
        .next .openBracket (recordsLexemes r rs .done) := by
      rw [ht, ofChars_punctuation (t := .openBracket) rfl rfl, ofChars_blank rfl,
        ofChars_records, ofChars_blank rfl, ofChars_nil]
    simp [decode, hl, list_records]

theorem render_injective : Function.Injective render := by
  intro db db' h
  have hd := decode_render db
  rw [h, decode_render] at hd
  exact (Except.ok.inj hd).symm

/-- **Writing and reading are inverse to each other on databases.** Reading gives
back the records that were written, so no two databases share a text; and a text
that can be read comes to rest once it has been written again. -/
theorem render_decode_round_trip :
    (∀ db : Database, decode db.render = .ok db) ∧
    Function.Injective render ∧
    ∀ text again : String, (decode text).map render = .ok again →
      (decode again).map render = .ok again := by
  refine ⟨decode_render, render_injective, ?_⟩
  intro text again h
  cases hd : decode text with
  | error e => rw [hd] at h; cases h
  | ok db =>
    rw [hd] at h
    cases h
    rw [decode_render]
    rfl

/-- A record in the form of an array, with blanks and an escape that the writer
does not use, is written in the form of an object from then on. -/
theorem render_decode_round_trip_array :
    (decode "[ [\"/d\",\"cc \\u0061.hh -c\", \"./a.hh\"]]").map render =
      .ok (render [⟨"/d", "cc a.hh -c", "./a.hh"⟩]) ∧
    (decode (render [⟨"/d", "cc a.hh -c", "./a.hh"⟩])).map render =
      .ok (render [⟨"/d", "cc a.hh -c", "./a.hh"⟩]) := by
  have hk : (decode "[ [\"/d\",\"cc \\u0061.hh -c\", \"./a.hh\"]]").toOption =
      some [⟨"/d", "cc a.hh -c", "./a.hh"⟩] := by decide +kernel
  have h : (decode "[ [\"/d\",\"cc \\u0061.hh -c\", \"./a.hh\"]]").map render =
      .ok (render [⟨"/d", "cc a.hh -c", "./a.hh"⟩]) := by
    cases hd : decode "[ [\"/d\",\"cc \\u0061.hh -c\", \"./a.hh\"]]" with
    | error e => rw [hd] at hk; cases hk
    | ok db => rw [hd] at hk; cases hk; rfl
  exact ⟨h, render_decode_round_trip.2.2 _ _ h⟩

end HeaderDb.Database
