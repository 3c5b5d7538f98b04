import HeaderDb.Database.Layout
import HeaderDb.Scan

/-!
A run: settings, directory, headers, database. A run is described once, over
whatever answers its questions about files, and then for a file tree.
-/

namespace HeaderDb

/-- What a run is asked to do. -/
structure Arguments where
  directory : Option Bytes := none
  pattern : Option String := none
  compiler : Option String := none
  config : Option Bytes := none
  output : Option Bytes := none
  unsorted : Bool := false
  verbose : Bool := false
  deriving Repr, DecidableEq

/-- The answers to a run's questions about files. -/
structure Surroundings where
  load : Bytes → Except OsError Bytes
  currentDirectory : Except OsError Bytes
  list : Bytes → Except OsError (List Entry)

/-- The settings in the file at `path`, whose contents are given. -/
def readSettings (path : Bytes) (contents : Except OsError Bytes) : Except Failure Settings :=
  match contents with
  | .error e => .error (.settings path (.os e))
  | .ok data =>
    match Utf8.decode? data with
    | none => .error (.settings path .notUtf8)
    | some document =>
      match Settings.parse document with
      | .error e => .error (.settings path (.invalid document e))
      | .ok s => .ok s

/-- The settings of a run: those of the file that was named, else none. -/
def Arguments.settings (args : Arguments) (s : Surroundings) : Except Failure Settings :=
  match args.config with
  | none => .ok {}
  | some path => readSettings path (s.load path)

/-- The directory to scan: the one that was named, as seen from the current one.
The current directory has to exist even where its path is not needed. -/
def workingDirectory (current : Except OsError Bytes) (directory : Option Bytes) :
    Except OsError Bytes :=
  current.map fun here =>
    match directory with
    | none => here
    | some d => Path.join here d

/-- What a run has found out before it writes anything. -/
structure Survey where
  notes : List Note
  database : Database
  deriving Repr, DecidableEq

/-- Headers in the order of their bytes. -/
def sortHeaders (headers : List String) : List String := headers.mergeSort Utf8.le

/-- The survey of a directory, once everything is known about it. -/
def Survey.make (unsorted : Bool) (t : Template) (pattern directory : String)
    (notes : List Note) : Survey :=
  let headers := if unsorted then headersOf notes else sortHeaders (headersOf notes)
  { notes := notes ++ [.summary headers.length pattern directory]
    database := Database.ofHeaders directory t headers }

/-- Finds out what a run has to write. The steps are taken in order, and the
first that fails decides. -/
def survey (args : Arguments) (s : Surroundings) : Except Failure Survey :=
  match args.settings s with
  | .error f => .error f
  | .ok settings =>
    match workingDirectory s.currentDirectory args.directory with
    | .error e => .error (.os e)
    | .ok path =>
      match Utf8.decode? path with
      | none => .error (.directoryNotUtf8 path)
      | some directory =>
        let pattern := settings.patternOr args.pattern
        match scan pattern (s.list path) with
        | .error f => .error f
        | .ok notes =>
          .ok (.make args.unsorted (settings.template args.compiler) pattern directory notes)

/-! ## In a file tree -/

/-- What a run leaves behind. -/
structure Outcome where
  result : Except Failure Unit
  stdout : String
  notes : List Note
  tree : Tree

def Tree.surroundings (t : Tree) : Surroundings where
  load := t.load
  currentDirectory := t.currentDirectory
  list := t.list

/-- Writes a text to the output: to the file that was named, else to the
standard output. -/
def Tree.emit (t : Tree) (output : Option Bytes) (text : String) :
    Except OsError (String × Tree) :=
  match output with
  | none => .ok (text, t)
  | some path => (t.store path (Utf8.encode text)).map fun t => ("", t)

/-- Runs in a file tree. Notes are kept only where they were asked for; they
stay when writing fails. -/
def Tree.run (t : Tree) (args : Arguments) : Outcome :=
  match survey args t.surroundings with
  | .error f => ⟨.error f, "", [], t⟩
  | .ok s =>
    let notes := if args.verbose then s.notes else []
    match t.emit args.output s.database.render with
    | .error e => ⟨.error (.os e), "", notes, t⟩
    | .ok (stdout, tree) => ⟨.ok (), stdout, notes, tree⟩

end HeaderDb
