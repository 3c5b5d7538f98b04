import HeaderDb.CommandLine.Help
import HeaderDb.Terminal.Filter

/-!
The whole program on a file tree: from the command line to what it prints, its
exit code, and the tree that it leaves.
-/

namespace HeaderDb.Program

open Terminal

/-- The variables of the environment that decide on colours. The output never
goes to a terminal, so only these can ask for them. -/
structure Environment where
  /-- The value of `CLICOLOR_FORCE`. -/
  force : Option String := none
  /-- The value of `NO_COLOR`. -/
  refuse : Option String := none
  deriving Repr, DecidableEq

/-- Notes and failures are coloured if colours are forced, by any value but
zero. -/
def Environment.coloursNotes (e : Environment) : Bool :=
  match e.force with
  | none => false
  | some value => value ≠ "0"

/-- An empty value is none. -/
def isGiven (value : Option String) : Bool := (value.getD "") ≠ ""

/-- What the command line itself shows is coloured if colours are forced and not
refused. -/
def Environment.coloursUsage (e : Environment) : Bool := isGiven e.force && !isGiven e.refuse

/-- A word in colour, if colours are used. -/
def paint (coloured : Bool) (colour : Attribute) (word : String) : String :=
  if coloured then Span.render { attributes := [colour], text := word } else word

def noteLine (coloured : Bool) (n : Note) : String :=
  paint coloured .cyan "note" ++ " " ++ n.message ++ "\n"

def errorLine (coloured : Bool) (message : String) : String :=
  paint coloured .red "error" ++ " " ++ message ++ "\n"

/-- A line on a mistake in the arguments. -/
def usageLine (coloured : Bool) (e : CommandLine.UsageError) : String :=
  Styled.print
    ([{ attributes := [.bold, .red], text := "error:" }, plain " "] ++ e.message ++ [plain "\n"])
    coloured

/-- What the program prints to the error stream: the notes, then the failure. -/
def stderrText (coloured : Bool) (notes : List Note) (result : Except Failure Unit) : String :=
  String.join (notes.map (noteLine coloured)) ++
    match result with
    | .ok () => ""
    | .error f => errorLine coloured f.message

structure Report where
  exit : UInt8
  stdout : String
  stderr : String
  tree : Tree

/-- Runs the program with the given arguments. -/
def execute (env : Environment) (argv : List Bytes) (t : Tree) : Report :=
  match CommandLine.parse argv with
  | .error e => ⟨2, "", usageLine env.coloursUsage e, t⟩
  | .ok (.display d) => ⟨0, d.text.print env.coloursUsage, "", t⟩
  | .ok (.run args) =>
    let o := t.run args
    let exit := match o.result with
      | .ok () => 0
      | .error _ => 1
    ⟨exit, o.stdout, stderrText env.coloursNotes o.notes o.result, o.tree⟩

end HeaderDb.Program
