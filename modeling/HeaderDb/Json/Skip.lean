import HeaderDb.Json.Lexeme

/-!
Passing over one JSON value of any depth. The containers that are still open
form a stack, so one walk along the tokens suffices.
-/

namespace HeaderDb.Json

/-- A container that has been opened and not yet closed. -/
inductive Container where
  | array
  | object
  deriving Repr, DecidableEq

/-- What has to come next. -/
inductive Expecting where
  | value
  /-- The first element of an array, or its end. -/
  | element
  /-- After a value in a container: a comma or the end. -/
  | more
  /-- The first key of an object, or its end. -/
  | member
  /-- A key after a comma. -/
  | key
  | colon
  deriving Repr, DecidableEq

/-- What a broken token means to a skipper: a quote opens a key, and only a
value or a key is looked into. -/
def Expecting.fault (isString : Bool) (skipped : Fault) : Expecting → Fault
  | .value | .element => skipped
  | .member | .key => if isString then skipped else .malformed
  | .more | .colon => .malformed

/-- The tokens after the value, given what comes next and the open containers,
innermost first. -/
def skip : Expecting → List Container → Lexemes → Except Fault Lexemes
  | _, _, .done => .error .truncated
  | expecting, _, .broken isString _ skipped => .error (expecting.fault isString skipped)
  | expecting, stack, .next token rest =>
    -- a value has just ended and `outer` encloses it
    let close (outer : List Container) : Except Fault Lexemes :=
      if outer.isEmpty then .ok rest else skip .more outer rest
    match expecting, token with
    | .value, .openBracket | .element, .openBracket => skip .element (.array :: stack) rest
    | .value, .openBrace | .element, .openBrace => skip .member (.object :: stack) rest
    | .value, .string _ | .element, .string _
    | .value, .number _ | .element, .number _
    | .value, .boolean _ | .element, .boolean _
    | .value, .null | .element, .null => close stack
    | .element, .closeBracket => close (stack.drop 1)
    | .member, .closeBrace => close (stack.drop 1)
    | .member, .string _ | .key, .string _ => skip .colon stack rest
    | .colon, .colon => skip .value stack rest
    | .more, .comma =>
      match stack with
      | .object :: _ => skip .key stack rest
      | _ => skip .value stack rest
    | .more, .closeBracket =>
      match stack with
      | .array :: outer => close outer
      | _ => .error .malformed
    | .more, .closeBrace =>
      match stack with
      | .object :: outer => close outer
      | _ => .error .malformed
    | _, _ => .error .malformed

theorem skip_shorter {expecting : Expecting} {stack : List Container} {ls rest : Lexemes}
    (h : skip expecting stack ls = .ok rest) : rest.length < ls.length := by
  induction ls generalizing expecting stack with
  | done => simp [skip] at h
  | broken => simp [skip] at h
  | next token tail ih =>
    have close : ∀ {outer : List Container},
        (if outer.isEmpty then Except.ok tail else skip .more outer tail) = .ok rest →
        rest.length < tail.length + 1 := by
      intro outer ho
      split at ho
      · cases ho; omega
      · exact Nat.lt_succ_of_lt (ih ho)
    simp only [Lexemes.length]
    unfold skip at h
    repeat' split at h
    all_goals first
      | exact close h
      | exact Nat.lt_succ_of_lt (ih h)
      | cases h

end HeaderDb.Json
