import HeaderDb.Run
import HeaderDb.Terminal.Style

/-!
The command line. Arguments are handled from left to right. A value follows its
option as the next argument, after an equals sign, or directly after the letter
of a short option; short flags can be combined.

An option and its value are checked only when the next known option has been
reached or the arguments have ended, so an unknown argument after them is
complained about first.
-/

namespace HeaderDb.CommandLine

open Terminal

/-- Options that take a value. -/
inductive Setting where
  | directory
  | pattern
  | compiler
  | config
  | output
  deriving Repr, DecidableEq

/-- Options that are given or not. -/
inductive Flag where
  | unsorted
  | verbose
  deriving Repr, DecidableEq

/-- Texts that are shown instead of a run. -/
inductive Display where
  | help
  | version
  deriving Repr, DecidableEq

inductive Switch where
  | setting (s : Setting)
  | flag (f : Flag)
  | display (d : Display)
  deriving Repr, DecidableEq

def Setting.name : Setting → String
  | .directory => "directory"
  | .pattern => "pattern"
  | .compiler => "compiler"
  | .config => "config"
  | .output => "output"

/-- The name of an option's value in messages. -/
def Setting.valueName : Setting → String
  | .directory => "DIRECTORY"
  | .pattern => "PATTERN"
  | .compiler => "COMPILER"
  | .config => "CONFIG"
  | .output => "OUTPUT"

def Switch.name : Switch → String
  | .setting s => s.name
  | .flag .unsorted => "unsorted"
  | .flag .verbose => "verbose"
  | .display .help => "help"
  | .display .version => "version"

/-- What messages show of an option's value. -/
def Switch.valueLabel : Switch → String
  | .setting s => " <" ++ s.valueName ++ ">"
  | _ => ""

/-- An option as messages show it. -/
def Switch.label (switch : Switch) : String := "--" ++ switch.name ++ switch.valueLabel

def Switch.all : List Switch :=
  [.setting .directory, .setting .pattern, .setting .compiler, .setting .config, .setting .output,
   .flag .unsorted, .flag .verbose, .display .help, .display .version]

/-- The option with the given long name. -/
def Switch.ofName? (name : Bytes) : Option Switch :=
  Switch.all.find? fun switch => Utf8.encode switch.name = name

/-- The letter of an option, if it has one. -/
def Switch.letter? : Switch → Option UInt8
  | .setting .directory => some 100
  | .setting .pattern => some 112
  | .setting .output => some 111
  | .flag .verbose => some 118
  | .display .help => some 104
  | .display .version => some 86
  | _ => none

/-- The option with the given letter. -/
def Switch.ofLetter? (letter : UInt8) : Option Switch :=
  Switch.all.find? fun switch => switch.letter? = some letter

/-! ## Errors -/

inductive UsageError where
  | unexpectedArgument (argument : String)
  | unexpectedValue (value : String) (switch : Switch)
  | missingValue (setting : Setting)
  | repeated (switch : Switch)
  | notUtf8
  deriving Repr, DecidableEq

/-- What has to be typed as it stands. -/
def literal (text : String) : Span := { attributes := [.bold], text }

/-- What is wrong with the arguments. -/
def invalid (text : String) : Span := { attributes := [.yellow], text }

def UsageError.message : UsageError → Styled
  | .unexpectedArgument a => [plain "unexpected argument '", invalid a, plain "' found"]
  | .unexpectedValue v switch =>
    [plain "unexpected value '", invalid v, plain "' for '", literal switch.label,
      plain "' found; no more were expected"]
  | .missingValue s =>
    [plain "a value is required for '", invalid (Switch.setting s).label,
      plain "' but none was supplied"]
  | .repeated switch =>
    [plain "the argument '", invalid switch.label, plain "' cannot be used multiple times"]
  | .notUtf8 => [plain "invalid UTF-8 was detected in one or more arguments"]

/-! ## Values -/

/-- Whether an option has been given. -/
def given (args : Arguments) : Setting → Bool
  | .directory => args.directory.isSome
  | .pattern => args.pattern.isSome
  | .compiler => args.compiler.isSome
  | .config => args.config.isSome
  | .output => args.output.isSome

/-- A path may be anything but empty. -/
def pathValue (s : Setting) (value : Bytes) : Except UsageError Bytes :=
  if value.isEmpty then .error (.missingValue s) else .ok value

/-- A text may be empty. -/
def textValue (value : Bytes) : Except UsageError String :=
  match Utf8.decode? value with
  | some s => .ok s
  | none => .error .notUtf8

/-- Gives an option its value. -/
def assign (s : Setting) (value : Bytes) (args : Arguments) : Except UsageError Arguments :=
  if given args s then .error (.repeated (.setting s))
  else match s with
  | .directory => (pathValue s value).map fun v => { args with directory := some v }
  | .pattern => (textValue value).map fun v => { args with pattern := some v }
  | .compiler => (textValue value).map fun v => { args with compiler := some v }
  | .config => (pathValue s value).map fun v => { args with config := some v }
  | .output => (pathValue s value).map fun v => { args with output := some v }

/-- Gives a flag. -/
def raise (f : Flag) (args : Arguments) : Except UsageError Arguments :=
  match f with
  | .unsorted =>
    if args.unsorted then .error (.repeated (.flag f)) else .ok { args with unsorted := true }
  | .verbose =>
    if args.verbose then .error (.repeated (.flag f)) else .ok { args with verbose := true }

/-! ## Arguments -/

/-- An option whose check is still to come: its value has been seen or not. -/
structure Pending where
  setting : Setting
  value : Option Bytes := none
  deriving Repr, DecidableEq

structure State where
  args : Arguments := {}
  pending : Option Pending := none
  deriving Repr, DecidableEq

/-- The arguments with the pending option taken in. -/
def State.settle (s : State) : Except UsageError Arguments :=
  match s.pending with
  | none => .ok s.args
  | some ⟨setting, none⟩ => .error (.missingValue setting)
  | some ⟨setting, some value⟩ => assign setting value s.args

/-- What an argument leads to. -/
inductive Step where
  | next (state : State)
  | display (d : Display)
  deriving Repr, DecidableEq

/-- A known option, with its value if that is attached. -/
def State.take (s : State) (switch : Switch) (attached : Option Bytes) : Except UsageError Step :=
  match switch, attached with
  | .setting o, some value =>
    s.settle.bind fun args => (assign o value args).map fun args => .next { args }
  | .setting o, none => s.settle.map fun args => .next { args, pending := some { setting := o } }
  | .flag f, _ => s.settle.bind fun args => (raise f args).map fun args => .next { args }
  | .display d, _ => s.settle.map fun _ => .display d

/-- An argument after two dashes. Only options with a value may have one
attached. -/
def State.long (s : State) (text : Bytes) : Except UsageError Step :=
  let name := text.takeWhile (· ≠ 61)
  let attached := match text.dropWhile (· ≠ 61) with
    | [] => none
    | _ :: value => some value
  match Switch.ofName? name, attached with
  | none, _ => .error (.unexpectedArgument ("--" ++ Utf8.lossy name))
  | some (.setting o), value => s.take (.setting o) value
  | some switch, some value => .error (.unexpectedValue (Utf8.lossy value) switch)
  | some switch, none => s.take switch none

/-- What is shown of an unknown letter: the letter alone, or all the rest if
that is no text. -/
def unknownLetter (text : Bytes) : String :=
  match Utf8.pieces text with
  | .char c :: _ => String.ofList ['-', c]
  | _ => "-" ++ Utf8.lossy text

/-- The value that is attached to a letter. -/
def attachedValue : Bytes → Option Bytes
  | [] => none
  | b :: rest => if b = 61 then some rest else some (b :: rest)

/-- An argument after one dash: letters of flags, and at last one of an option
with a value. -/
def State.short (s : State) : Bytes → Except UsageError Step
  | [] => .ok (.next s)
  | b :: rest =>
    match Switch.ofLetter? b with
    | none => .error (.unexpectedArgument (unknownLetter (b :: rest)))
    | some (.setting o) => s.take (.setting o) (attachedValue rest)
    | some switch =>
      match s.take switch none with
      | .ok (.next s) => s.short rest
      | r => r

/-- An argument that is no option: the value that is waited for. -/
def State.plain (s : State) (argument : Bytes) : Except UsageError Step :=
  match s.pending with
  | some ⟨setting, none⟩ => .ok (.next { s with pending := some ⟨setting, some argument⟩ })
  | _ => .error (.unexpectedArgument (Utf8.lossy argument))

def State.step (s : State) (argument : Bytes) : Except UsageError Step :=
  match argument with
  | 45 :: 45 :: text => s.long text
  | 45 :: b :: text => s.short (b :: text)
  | _ => s.plain argument

/-- What the command line asks for. -/
inductive Request where
  | display (d : Display)
  | run (args : Arguments)
  deriving Repr, DecidableEq

/-- Nothing may follow two dashes that stand alone. -/
def State.finish (s : State) : List Bytes → Except UsageError Request
  | [] => s.settle.map .run
  | argument :: _ => .error (.unexpectedArgument (Utf8.lossy argument))

def State.parse (s : State) : List Bytes → Except UsageError Request
  | [] => s.finish []
  | argument :: rest =>
    if argument = [45, 45] then s.finish rest
    else match s.step argument with
    | .error e => .error e
    | .ok (.display d) => .ok (.display d)
    | .ok (.next s) => s.parse rest

/-- What the arguments of the program ask for. -/
def parse (argv : List Bytes) : Except UsageError Request := State.parse {} argv

end HeaderDb.CommandLine
