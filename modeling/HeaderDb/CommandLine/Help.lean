import HeaderDb.CommandLine

/-!
The texts that the command line shows instead of a run.
-/

namespace HeaderDb.CommandLine

open Terminal

def Switch.description : Switch → String
  | .setting .directory => "Directory to scan. Defaults to the current directory"
  | .setting .pattern => "Glob matched against file names [default: *.hh]"
  | .setting .compiler => "Compiler to put in each command [default: /usr/bin/g++]"
  | .setting .config => "TOML file with compiler, flags and pattern overrides"
  | .setting .output => "Write the database here instead of stdout"
  | .flag .unsorted => "Keep directory enumeration order instead of sorting by name"
  | .flag .verbose => "Print a note for each file considered"
  | .display .help => "Print help"
  | .display .version => "Print version"

/-- The letter of an option, or blanks in its place. -/
def Switch.letterColumn (switch : Switch) : Styled :=
  match switch.letter? with
  | some letter => [literal (String.ofList ['-', Char.ofNat letter.toNat]), plain ", "]
  | none => [plain "    "]

/-- The width of the column with the names of the options. -/
def nameWidth : Nat := 25

/-- Blanks up to the column with the descriptions. -/
def Switch.gap (switch : Switch) : String :=
  String.ofList (List.replicate (nameWidth - switch.label.length) ' ')

/-- The line on an option: letter, name, the name of its value, description. -/
def Switch.helpLine (switch : Switch) : Styled :=
  [plain "  "] ++ switch.letterColumn
    ++ [literal ("--" ++ switch.name),
      plain (switch.valueLabel ++ switch.gap ++ switch.description ++ "\n")]

def heading (text : String) : Span := { attributes := [.bold, .underlined], text }

def helpText : Styled :=
  [plain "Emit a compilation database for the C++ headers in a directory\n\n",
    heading "Usage:", plain " ", literal "hhdb", plain " [OPTIONS]\n\n",
    heading "Options:", plain "\n"]
    ++ Switch.all.flatMap Switch.helpLine

def versionText : Styled := [plain "hhdb 0.1.0\n"]

def Display.text : Display → Styled
  | .help => helpText
  | .version => versionText

end HeaderDb.CommandLine
