import HeaderDb.Database.Record
import HeaderDb.Json.Skip
import HeaderDb.Mismatch

/-!
Reading a database back from JSON. A record is an object with each of its three
fields once, in any order and among any others, or an array of the three texts.
The text is checked from left to right and the first failure wins.
-/

namespace HeaderDb

open Json (Fault Lexemes Token)

inductive Field where
  | directory
  | command
  | file
  deriving Repr, DecidableEq

def Field.name : Field → String
  | .directory => "directory"
  | .command => "command"
  | .file => "file"

def Field.ofName? (name : String) : Option Field :=
  [Field.directory, .command, .file].find? fun f => f.name = name

/-- Why a text is no database. -/
inductive DecodeError where
  | fault (fault : Fault)
  | mismatch (mismatch : Mismatch)
  | missing (field : Field)
  | duplicate (field : Field)
  /-- An array with fewer than three elements. -/
  | tooFew (count : Nat)
  deriving Repr, DecidableEq

/-- The words for an error; a text that is no JSON has none. -/
def DecodeError.message? : DecodeError → Option String
  | .fault _ => none
  | .mismatch m => some m.message
  | .missing f => some ("missing field `" ++ f.name ++ "`")
  | .duplicate f => some ("duplicate field `" ++ f.name ++ "`")
  | .tooFew n =>
    some ("invalid length " ++ toString n ++ ", expected struct CompileCommand with 3 elements")

namespace Database

/-- Numbers in messages are written positionally from `0.00001` to below `10 ^ 16`. -/
def numberStyle : Decimal.Style := ⟨.toEven, some (-5, 15)⟩

/-- The value that a token opens, as messages name it. -/
def found : Token → Except Fault Found
  | .openBracket => .ok .sequence
  | .openBrace => .ok .map
  | .string (.ok s) => .ok (.string s)
  | .string (.error f) => .error f
  | .number (some (.integer n)) => .ok (.integer n)
  | .number (some (.floating negative x)) => .ok (.floating (numberStyle.render negative x))
  | .boolean b => .ok (.boolean b)
  | .null => .ok .null
  | .number none | .closeBracket | .closeBrace | .comma | .colon => .error .malformed

/-- The error of a token that is not what was wanted. -/
def unwanted (token : Token) (wanted : Wanted) : DecodeError :=
  match found token with
  | .ok f => .mismatch ⟨f, wanted⟩
  | .error f => .fault f

/-- A text where one is wanted. -/
def text : Lexemes → Except DecodeError (String × Lexemes)
  | .done => .error (.fault .truncated)
  | .broken _ read _ => .error (.fault read)
  | .next (.string (.ok s)) rest => .ok (s, rest)
  | .next token _ => .error (unwanted token .string)

def colon : Lexemes → Except DecodeError Lexemes
  | .next .colon rest => .ok rest
  | .done => .error (.fault .truncated)
  | _ => .error (.fault .malformed)

/-! ## Records as objects -/

/-- The fields of a record that have been read so far. -/
structure Draft where
  directory : Option String := none
  command : Option String := none
  file : Option String := none
  deriving Repr, DecidableEq

def Draft.get? (d : Draft) : Field → Option String
  | .directory => d.directory
  | .command => d.command
  | .file => d.file

def Draft.set (d : Draft) (value : String) : Field → Draft
  | .directory => { d with directory := some value }
  | .command => { d with command := some value }
  | .file => { d with file := some value }

/-- The record, or the first field that it lacks. -/
def Draft.finish (d : Draft) : Except DecodeError Record :=
  match d.directory, d.command, d.file with
  | some directory, some command, some file => .ok ⟨directory, command, file⟩
  | none, _, _ => .error (.missing .directory)
  | _, none, _ => .error (.missing .command)
  | _, _, none => .error (.missing .file)

/-- What follows the key of a member: its value goes into the draft, or is
passed over if the key is none of a record. -/
def member (d : Draft) (key : String) (ls : Lexemes) : Except DecodeError (Draft × Lexemes) :=
  match Field.ofName? key with
  | some f =>
    if (d.get? f).isSome then .error (.duplicate f)
    else match colon ls with
    | .error e => .error e
    | .ok ls =>
      match text ls with
      | .error e => .error e
      | .ok (value, rest) => .ok (d.set value f, rest)
  | none =>
    match colon ls with
    | .error e => .error e
    | .ok ls =>
      match Json.skip .value [] ls with
      | .error f => .error (.fault f)
      | .ok rest => .ok (d, rest)

theorem text_shorter {ls rest : Lexemes} {s : String} (h : text ls = .ok (s, rest)) :
    rest.length < ls.length := by
  unfold text at h
  split at h
  · cases h
  · cases h
  · cases h; simp [Lexemes.length]
  · cases h

theorem colon_shorter {ls rest : Lexemes} (h : colon ls = .ok rest) :
    rest.length < ls.length := by
  unfold colon at h
  split at h
  · cases h; simp [Lexemes.length]
  · cases h
  · cases h

theorem member_shorter {d d' : Draft} {key : String} {ls rest : Lexemes}
    (h : member d key ls = .ok (d', rest)) : rest.length < ls.length := by
  unfold member at h
  split at h
  · split at h
    · cases h
    · split at h
      · cases h
      · next hc =>
        split at h
        · cases h
        · next ht => cases h; exact Nat.lt_trans (text_shorter ht) (colon_shorter hc)
  · split at h
    · cases h
    · next hc =>
      split at h
      · cases h
      · next hs => cases h; exact Nat.lt_trans (Json.skip_shorter hs) (colon_shorter hc)

/-- The members of an object from a key on, up to its closing brace. -/
def members (d : Draft) (ls : Lexemes) : Except DecodeError (Record × Lexemes) :=
  match ls with
  | .done => .error (.fault .truncated)
  | .broken isString read _ => .error (.fault (if isString then read else .malformed))
  | .next (.string (.ok key)) tail =>
    match h : member d key tail with
    | .error e => .error e
    | .ok (d', .next .comma rest) =>
      have : rest.length < tail.length + 1 := by
        have := member_shorter h
        simp only [Lexemes.length] at this
        omega
      members d' rest
    | .ok (d', .next .closeBrace rest) => d'.finish.map fun r => (r, rest)
    | .ok (_, .done) => .error (.fault .truncated)
    | .ok _ => .error (.fault .malformed)
  | .next (.string (.error f)) _ => .error (.fault f)
  | .next _ _ => .error (.fault .malformed)
termination_by ls.length
decreasing_by simpa only [Lexemes.length] using this

/-- An object after its opening brace. -/
def object : Lexemes → Except DecodeError (Record × Lexemes)
  | .next .closeBrace rest => ({} : Draft).finish.map fun r => (r, rest)
  | ls => members {} ls

/-! ## Records as arrays -/

/-- The text at the given place of an array. -/
def column (place : Nat) (ls : Lexemes) : Except DecodeError (String × Lexemes) :=
  match place, ls with
  | n, .next .closeBracket _ => .error (.tooFew n)
  | 0, ls => text ls
  | _, .done => .error (.fault .truncated)
  | _, .next .comma rest => text rest
  | _, _ => .error (.fault .malformed)

/-- An array after its opening bracket. -/
def columns (ls : Lexemes) : Except DecodeError (Record × Lexemes) := do
  let (directory, ls) ← column 0 ls
  let (command, ls) ← column 1 ls
  let (file, ls) ← column 2 ls
  match ls with
  | .next .closeBracket rest => .ok (⟨directory, command, file⟩, rest)
  | .done => .error (.fault .truncated)
  | _ => .error (.fault .malformed)

/-! ## The list of records -/

def record : Lexemes → Except DecodeError (Record × Lexemes)
  | .done => .error (.fault .truncated)
  | .broken _ read _ => .error (.fault read)
  | .next .openBrace rest => object rest
  | .next .openBracket rest => columns rest
  | .next token _ => .error (unwanted token .record)

theorem finish_shorter {d : Draft} {ls rest : Lexemes} {r : Record}
    (h : (d.finish.map fun r => (r, ls)) = .ok (r, rest)) : rest = ls := by
  cases hf : d.finish with
  | error e => rw [hf] at h; cases h
  | ok _ => rw [hf] at h; cases h; rfl

theorem members_shorter {d : Draft} {ls rest : Lexemes} {r : Record}
    (h : members d ls = .ok (r, rest)) : rest.length < ls.length := by
  fun_induction members d ls with
  | case4 d key tail d' tail' hm this ih =>
    have := ih h
    simp only [Lexemes.length]
    omega
  | case5 d key tail d' tail' hm =>
    have := member_shorter hm
    rw [finish_shorter h]
    simp only [Lexemes.length] at *
    omega
  | _ => cases h

theorem object_shorter {ls rest : Lexemes} {r : Record} (h : object ls = .ok (r, rest)) :
    rest.length < ls.length := by
  unfold object at h
  split at h
  · rw [finish_shorter h]; simp [Lexemes.length]
  · exact members_shorter h

theorem column_shorter {place : Nat} {ls rest : Lexemes} {s : String}
    (h : column place ls = .ok (s, rest)) : rest.length < ls.length := by
  unfold column at h
  split at h
  · cases h
  · exact text_shorter h
  · cases h
  · have := text_shorter h; simp only [Lexemes.length]; omega
  · cases h

theorem columns_shorter {ls rest : Lexemes} {r : Record} (h : columns ls = .ok (r, rest)) :
    rest.length < ls.length := by
  unfold columns at h
  cases h₀ : column 0 ls with
  | error e => simp [h₀, bind, Except.bind] at h
  | ok c₀ =>
    cases h₁ : column 1 c₀.2 with
    | error e => simp [h₀, h₁, bind, Except.bind] at h
    | ok c₁ =>
      cases h₂ : column 2 c₁.2 with
      | error e => simp [h₀, h₁, h₂, bind, Except.bind] at h
      | ok c₂ =>
        simp only [h₀, h₁, h₂, bind, Except.bind] at h
        have := column_shorter h₀
        have := column_shorter h₁
        have := column_shorter h₂
        split at h
        · next hc => cases h; rw [hc] at this; simp only [Lexemes.length] at this; omega
        · cases h
        · cases h

theorem record_shorter {ls rest : Lexemes} {r : Record} (h : record ls = .ok (r, rest)) :
    rest.length < ls.length := by
  unfold record at h
  split at h
  · cases h
  · cases h
  · exact Nat.lt_succ_of_lt (object_shorter h)
  · exact Nat.lt_succ_of_lt (columns_shorter h)
  · cases h

/-- The records of a list from one on, up to the closing bracket. -/
def records (ls : Lexemes) : Except DecodeError (Database × Lexemes) :=
  match h : record ls with
  | .error e => .error e
  | .ok (r, .next .comma rest) =>
    have : rest.length < ls.length := by
      have := record_shorter h
      simp only [Lexemes.length] at this
      omega
    (records rest).map fun (rs, rest) => (r :: rs, rest)
  | .ok (r, .next .closeBracket rest) => .ok ([r], rest)
  | .ok (_, .done) => .error (.fault .truncated)
  | .ok _ => .error (.fault .malformed)
termination_by ls.length

/-- A list of records and what follows it. -/
def list : Lexemes → Except DecodeError (Database × Lexemes)
  | .done => .error (.fault .truncated)
  | .broken _ read _ => .error (.fault read)
  | .next .openBracket (.next .closeBracket rest) => .ok ([], rest)
  | .next .openBracket rest => records rest
  | .next token _ => .error (unwanted token .sequence)

/-- The database that a text holds. -/
def decode (s : String) : Except DecodeError Database :=
  match list (Lexemes.ofChars s.toList) with
  | .error e => .error e
  | .ok (db, .done) => .ok db
  | .ok _ => .error (.fault .malformed)

end Database
end HeaderDb
