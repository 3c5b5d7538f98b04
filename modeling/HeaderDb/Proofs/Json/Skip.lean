import HeaderDb.Json.Skip
import HeaderDb.Proofs.Json.Reading

/-! # A value is passed over as a whole

However deep a value is, skipping it ends right behind its last token. The
containers that enclose the value wait on the stack, so the statement is about
any stack and any rest. -/

namespace HeaderDb.Json

/-- How skipping goes on behind a value that the given containers enclose. -/
def resume (stack : List Container) (rest : Lexemes) : Except Fault Lexemes :=
  if stack.isEmpty then .ok rest else skip .more stack rest

/-- Where a value may stand. -/
def Expecting.AllowsValue (e : Expecting) : Prop := e = .value ∨ e = .element

/-- The tokens of a part are passed over. Those of elements and of members take
the end of their container with them; if there are any, they can also stand
behind a comma. -/
def Skipped : Part → List Token → Prop
  | .value _, ts => ∀ e : Expecting, e.AllowsValue → ∀ stack rest,
      skip e stack (.ofTokens ts rest) = resume stack rest
  | .elements vs, ts => ∀ e : Expecting, e = .element ∨ e = .value ∧ vs ≠ [] → ∀ outer rest,
      skip e (.array :: outer) (.ofTokens ts (.next .closeBracket rest)) = resume outer rest
  | .members ms, ts => ∀ e : Expecting, e = .member ∨ e = .key ∧ ms ≠ [] → ∀ outer rest,
      skip e (.object :: outer) (.ofTokens ts (.next .closeBrace rest)) = resume outer rest

variable {e : Expecting} {stack : List Container} {rest : Lexemes}

theorem skip_openBracket (he : e.AllowsValue) :
    skip e stack (.next .openBracket rest) = skip .element (.array :: stack) rest := by
  rcases he with rfl | rfl <;> rfl

theorem skip_openBrace (he : e.AllowsValue) :
    skip e stack (.next .openBrace rest) = skip .member (.object :: stack) rest := by
  rcases he with rfl | rfl <;> rfl

theorem skip_key {k : String} (he : e = .member ∨ e = .key) :
    skip e stack (.next (.string (.ok k)) (.next .colon rest)) = skip .value stack rest := by
  rcases he with rfl | rfl <;> rfl

/-- The tokens of a part are passed over, by induction on how they are made. -/
theorem Tokens.skipped {part : Part} {ts : List Token} (h : Tokens part ts) :
    Skipped part ts := by
  induction h with
  | null | boolean | number | string =>
    intro e he stack rest
    rcases he with rfl | rfl <;> rfl
  | array _ ih =>
    intro e he stack rest
    rw [Lexemes.ofTokens_cons, Lexemes.ofTokens_append, skip_openBracket he]
    exact ih .element (.inl rfl) stack rest
  | object _ _ ih =>
    intro e he stack rest
    rw [Lexemes.ofTokens_cons, Lexemes.ofTokens_append, skip_openBrace he]
    exact ih .member (.inl rfl) stack rest
  | noElement =>
    intro e he outer rest
    rcases he with rfl | ⟨-, hne⟩
    · rfl
    · exact absurd rfl hne
  | lastElement _ ih =>
    intro e he outer rest
    exact ih e (he.symm.imp And.left id) (.array :: outer) (.next .closeBracket rest)
  | element _ _ ih ih' =>
    intro e he outer rest
    rw [Lexemes.ofTokens_append, ih e (he.symm.imp And.left id)]
    exact ih' .value (.inr ⟨rfl, nofun⟩) outer rest
  | noMember =>
    intro e he outer rest
    rcases he with rfl | ⟨-, hne⟩
    · rfl
    · exact absurd rfl hne
  | lastMember _ ih =>
    intro e he outer rest
    rw [Lexemes.ofTokens_cons, Lexemes.ofTokens_cons, skip_key (he.imp id And.left),
      ih .value (.inl rfl)]
    rfl
  | member _ _ ih ih' =>
    intro e he outer rest
    rw [Lexemes.ofTokens_cons, Lexemes.ofTokens_cons, skip_key (he.imp id And.left),
      Lexemes.ofTokens_append, ih .value (.inl rfl)]
    exact ih' .key (.inr ⟨rfl, nofun⟩) outer rest

/-- **A value that nothing encloses is skipped up to the first token behind it.** -/
theorem skip_value {v : Value} {ts : List Token} (h : Tokens (.value v) ts) (rest : Lexemes) :
    skip .value [] (.ofTokens ts rest) = .ok rest :=
  h.skipped .value (.inl rfl) [] rest

end HeaderDb.Json
