import HeaderDb.Database.Record
import HeaderDb.Json.Literal

/-!
The JSON text of a database, in two forms: `render` gives every bracket and
every field a line of its own, `compact` writes no blank outside the literals.
-/

namespace HeaderDb

/-- A record over five lines, without the last line end. -/
def Record.render (r : Record) : String :=
  "\x7b\n  \"directory\": " ++ Json.literal r.directory ++
  ",\n  \"command\": " ++ Json.literal r.command ++
  ",\n  \"file\": " ++ Json.literal r.file ++ "\n\x7d"

/-- The text of a database, one field a line. -/
def Database.render (db : Database) : String :=
  "[\n" ++ (if db.isEmpty then "" else ",\n".intercalate (db.map Record.render) ++ "\n") ++ "]\n"

/-- A record without blanks. -/
def Record.compact (r : Record) : String :=
  "\x7b\"directory\":" ++ Json.literal r.directory ++
  ",\"command\":" ++ Json.literal r.command ++
  ",\"file\":" ++ Json.literal r.file ++ "\x7d"

/-- The text of a database without blanks. -/
def Database.compact (db : Database) : String :=
  "[" ++ ",".intercalate (db.map Record.compact) ++ "]"

end HeaderDb
