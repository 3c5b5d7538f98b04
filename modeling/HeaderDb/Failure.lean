import HeaderDb.Glob.Pattern
import HeaderDb.Settings
import HeaderDb.Tree.Walk

/-!
Why a run fails, what kind of failure it is, and the words for it. Paths that
are no text are shown with replacement characters.
-/

namespace HeaderDb

/-- Why a settings file cannot be used. -/
inductive SettingsFailure where
  | os (error : OsError)
  | notUtf8
  | invalid (document : String) (error : Settings.Error)
  deriving Repr, DecidableEq

inductive Failure where
  | os (error : OsError)
  | settings (path : Bytes) (cause : SettingsFailure)
  | directoryNotUtf8 (path : Bytes)
  | pattern (pattern : String) (error : Glob.Error)
  deriving Repr, DecidableEq

namespace Failure

/-- The kinds of failure that callers tell apart. -/
inductive Kind where
  | notFound
  | notADirectory
  | isADirectory
  | invalidName
  | linkLoop
  | invalidInput
  | invalidData
  | other
  deriving Repr, DecidableEq

def Kind.ofOsError : OsError → Kind
  | .notFound => .notFound
  | .notADirectory => .notADirectory
  | .isADirectory => .isADirectory
  | .nameTooLong => .invalidName
  | .linkLoop => .linkLoop
  | .nulByte => .invalidInput

def kind : Failure → Kind
  | .os e => .ofOsError e
  | .settings _ (.os e) => .ofOsError e
  | .settings _ .notUtf8 => .invalidData
  | .settings _ (.invalid _ _) => .other
  | .directoryNotUtf8 _ => .invalidData
  | .pattern _ _ => .invalidInput

def causeMessage : SettingsFailure → String
  | .os e => e.message
  | .notUtf8 => "stream did not contain valid UTF-8"
  | .invalid document e => e.message document

def message : Failure → String
  | .os e => e.message
  | .settings path cause => Utf8.lossy path ++ ": " ++ causeMessage cause
  | .directoryNotUtf8 path => Utf8.lossy path ++ ": directory is not valid utf-8"
  | .pattern p e => p ++ ": " ++ e.message

end Failure
end HeaderDb
