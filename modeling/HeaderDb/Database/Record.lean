/-!
A compilation database lists, for every header, the directory of the compile,
the command and the file. The command is the compiler, its flags, the header and
`-c`, separated by single spaces and not quoted.
-/

namespace HeaderDb

/-- The compiler invocation that every header is compiled with. -/
structure Template where
  compiler : String := "/usr/bin/g++"
  flags : List String := ["-std=c++0x", "-g", "-O0", "-Wall"]
  deriving Repr, DecidableEq

/-- The parts of the command for a header, in order. -/
def commandParts (compiler : String) (flags : List String) (header : String) : List String :=
  compiler :: flags ++ [header, "-c"]

/-- The command for a header. -/
def compileCommand (compiler : String) (flags : List String) (header : String) : String :=
  " ".intercalate (commandParts compiler flags header)

def Template.command (t : Template) (header : String) : String :=
  compileCommand t.compiler t.flags header

/-- One entry of a database. -/
structure Record where
  directory : String
  command : String
  file : String
  deriving Repr, DecidableEq

/-- The record of a header that lies directly in `directory`. -/
def Record.ofHeader (directory : String) (t : Template) (header : String) : Record where
  directory := directory
  command := t.command header
  file := "./" ++ header

abbrev Database := List Record

/-- One record for each header, in the given order. -/
def Database.ofHeaders (directory : String) (t : Template) (headers : List String) : Database :=
  headers.map (Record.ofHeader directory t)

end HeaderDb
