import HeaderDb.Proofs.Database.RoundTrip
import HeaderDb.Proofs.Json.Skip

/-! # The format of a database

A text that renders a JSON value is accepted if and only if the value is a list
of records, and then it is read as those records. What a record looks like is
said of values (`IsRecord`), so neither blanks nor spellings nor the order of
members play a part in it.

Each reader is described by the values it accepts (`Reads`). The reader of an
object is the only one with a state: its draft and the members still to come
make up the record together (`Completes`). -/

namespace HeaderDb.Database

open Json (AllBlank CharText Lexemes Numeral Renders Token Tokens TokenText TokensText UnitText
  Value)

/-! ## Records among values -/

/-- The values of the members with the given key. -/
def valuesOf (key : String) (ms : List (String × Value)) : List Value :=
  (ms.filter fun m => m.1 = key).map Prod.snd

/-- A value that stands for a record: an object in which each of the three keys
comes once and has a text, or an array of the three texts. -/
inductive IsRecord : Value → Record → Prop where
  | object {ms : List (String × Value)} {r : Record} :
      valuesOf "directory" ms = [.string r.directory] →
      valuesOf "command" ms = [.string r.command] →
      valuesOf "file" ms = [.string r.file] → IsRecord (.object ms) r
  | array {directory command file : String} :
      IsRecord (.array [.string directory, .string command, .string file])
        ⟨directory, command, file⟩

/-- A reader stops right before `rest`, with a result that `P` describes; where
there is no such result, it fails. -/
def Reads {α : Type} (x : Except DecodeError (α × Lexemes)) (rest : Lexemes) (P : α → Prop) :
    Prop :=
  ∀ a rest', x = .ok (a, rest') ↔ P a ∧ rest' = rest

section Reads

variable {α : Type} {x : Except DecodeError (α × Lexemes)} {rest : Lexemes} {P Q : α → Prop}

theorem Reads.congr (h : Reads x rest P) (hpq : ∀ a, P a ↔ Q a) : Reads x rest Q :=
  fun a rest' => (h a rest').trans (and_congr_left' (hpq a))

theorem reads_ok {a : α} (h : ∀ b, P b ↔ b = a) : Reads (.ok (a, rest)) rest P := by
  intro b rest'
  rw [Except.ok.injEq, Prod.mk.injEq, h b, eq_comm, @eq_comm _ rest]

theorem reads_error {e : DecodeError} (h : ∀ a, ¬ P a) : Reads (.error e) rest P :=
  fun a _ => ⟨nofun, fun hp => absurd hp.1 (h a)⟩

/-- A reader has one result or none. -/
theorem Reads.cases (h : Reads x rest P) :
    (∃ a, x = .ok (a, rest) ∧ ∀ b, P b ↔ b = a) ∨ ∃ e, x = .error e ∧ ∀ b, ¬ P b := by
  cases x with
  | error e =>
    refine .inr ⟨e, rfl, ?_⟩
    intro b hb
    cases (h b rest).2 ⟨hb, rfl⟩
  | ok p =>
    obtain ⟨a, rest'⟩ := p
    obtain ⟨ha, rfl⟩ := (h a rest').1 rfl
    refine .inl ⟨a, rfl, ?_⟩
    intro b
    constructor
    · intro hb
      cases (h b rest').2 ⟨hb, rfl⟩
      rfl
    · intro hb
      rw [hb]
      exact ha

theorem Reads.bind {β : Type} {mid : Lexemes} {R : β → Prop}
    {f : α × Lexemes → Except DecodeError (β × Lexemes)} (h : Reads x mid P)
    (hf : ∀ a, P a → Reads (f (a, mid)) rest R) (hr : ∀ b, R b → ∃ a, P a) :
    Reads (x >>= f) rest R := by
  rcases h.cases with ⟨a, rfl, ha⟩ | ⟨e, rfl, hno⟩
  · exact hf a ((ha a).2 rfl)
  · refine reads_error ?_
    intro b hb
    obtain ⟨a, ha⟩ := hr b hb
    exact hno a ha

end Reads

/-! ## Texts -/

theorem reads_text {v : Value} {ts : List Token} (h : Tokens (.value v) ts) (rest : Lexemes) :
    Reads (text (.ofTokens ts rest)) rest fun s => v = .string s := by
  cases h with
  | string => exact reads_ok fun s => by rw [Value.string.injEq, eq_comm]
  | _ => exact reads_error nofun

/-! ## Objects -/

theorem name_injective : Function.Injective Field.name := by
  intro f g
  cases f <;> cases g <;> decide

theorem get?_set (d : Draft) (s : String) (f g : Field) :
    (d.set s f).get? g = if g = f then some s else d.get? g := by
  cases f <;> cases g <;> rfl

theorem valuesOf_cons (key : String) (m : String × Value) (ms : List (String × Value)) :
    valuesOf key (m :: ms) = if m.1 = key then m.2 :: valuesOf key ms else valuesOf key ms := by
  unfold valuesOf
  split
  · next h => rw [List.filter_cons_of_pos (by simpa using h), List.map_cons]
  · next h => rw [List.filter_cons_of_neg (by simpa using h)]

theorem valuesOf_unknown {key : String} (hk : Field.ofName? key = none) (f : Field) (v : Value)
    (ms : List (String × Value)) : valuesOf f.name ((key, v) :: ms) = valuesOf f.name ms := by
  have hf := List.find?_eq_none.1 hk f (by cases f <;> decide)
  have hne : f.name ≠ key := by simpa using hf
  rw [valuesOf_cons, if_neg hne.symm]

theorem valuesOf_field {key : String} {f : Field} (hk : Field.ofName? key = some f) (g : Field)
    (v : Value) (ms : List (String × Value)) : valuesOf g.name ((key, v) :: ms) =
      if g = f then v :: valuesOf g.name ms else valuesOf g.name ms := by
  have hf : f.name = key := by simpa using List.find?_some hk
  have hg : key = g.name ↔ g = f := by
    rw [← hf]
    exact ⟨fun h => (name_injective h).symm, fun h => h ▸ rfl⟩
  simp only [valuesOf_cons, hg]

/-- The text of a field. -/
def field (r : Record) : Field → String
  | .directory => r.directory
  | .command => r.command
  | .file => r.file

/-- What a member does to a draft. -/
def Takes (d : Draft) (key : String) (v : Value) (d' : Draft) : Prop :=
  match Field.ofName? key with
  | some f => d.get? f = none ∧ ∃ s, v = .string s ∧ d' = d.set s f
  | none => d' = d

/-- Each field comes once, in the draft or in the members, and has a text. -/
def Completes (d : Draft) (ms : List (String × Value)) (r : Record) : Prop :=
  ∀ f : Field, (d.get? f).toList.map .string ++ valuesOf f.name ms = [.string (field r f)]

/-- A member is taken, and the others complete the draft that it leaves. -/
theorem completes_cons {d : Draft} {key : String} {v : Value} {ms : List (String × Value)}
    {r : Record} :
    Completes d ((key, v) :: ms) r ↔ ∃ d', Takes d key v d' ∧ Completes d' ms r := by
  unfold Takes Completes
  cases hk : Field.ofName? key with
  | none => simp only [valuesOf_unknown hk, exists_eq_left]
  | some f =>
    simp only [valuesOf_field hk]
    constructor
    · intro h
      have hf := h f
      rw [if_pos rfl] at hf
      -- the draft cannot have the field as well, for then it would come twice
      cases hd : d.get? f with
      | some s => simp [hd] at hf
      | none =>
        simp only [hd, Option.toList_none, List.map_nil, List.nil_append, List.cons.injEq] at hf
        refine ⟨_, ⟨rfl, field r f, hf.1, rfl⟩, ?_⟩
        intro g
        rw [get?_set]
        by_cases hg : g = f
        · simp [hg, hf.2]
        · simpa only [if_neg hg] using h g
    · intro ⟨d', ⟨hd, s, hs, hd'⟩, h⟩ g
      have hg' := h g
      rw [hd', get?_set] at hg'
      by_cases hg : g = f
      · simpa [hg, hd, hs] using hg'
      · simpa only [if_neg hg] using hg'

theorem completes_of_takes {d d' : Draft} {key : String} {v : Value}
    (h : ∀ b, Takes d key v b ↔ b = d') (ms : List (String × Value)) (r : Record) :
    Completes d' ms r ↔ Completes d ((key, v) :: ms) r := by
  rw [completes_cons]
  simp only [h, exists_eq_left]

theorem not_completes {d : Draft} {key : String} {v : Value} (h : ∀ b, ¬ Takes d key v b)
    (ms : List (String × Value)) (r : Record) : ¬ Completes d ((key, v) :: ms) r := by
  intro hr
  obtain ⟨d', hd', -⟩ := completes_cons.1 hr
  exact h d' hd'

theorem completes_empty {ms : List (String × Value)} {r : Record} :
    Completes {} ms r ↔ IsRecord (.object ms) r := by
  constructor
  · intro h
    exact .object (h .directory) (h .command) (h .file)
  · intro h
    cases h with
    | object hd hc hf =>
      intro f
      cases f
      · exact hd
      · exact hc
      · exact hf

theorem reads_member (d : Draft) (key : String) {v : Value} {ts : List Token}
    (h : Tokens (.value v) ts) (rest : Lexemes) :
    Reads (member d key (.next .colon (.ofTokens ts rest))) rest (Takes d key v) := by
  unfold member Takes
  cases Field.ofName? key with
  | none =>
    simp only [colon, Json.skip_value h]
    exact reads_ok fun d' => Iff.rfl
  | some f =>
    by_cases hd : (d.get? f).isSome
    · simp only [hd, if_true]
      refine reads_error ?_
      intro d' hd'
      rw [hd'.1] at hd
      cases hd
    · have hn : d.get? f = none := by simpa using hd
      simp only [hn, Option.isSome_none, Bool.false_eq_true, if_false, colon, true_and]
      rcases (reads_text h rest).cases with ⟨s, hs, hv⟩ | ⟨e, he, hv⟩
      · rw [hs]
        refine reads_ok ?_
        intro d'
        simp only [hv, exists_eq_left]
      · rw [he]
        refine reads_error ?_
        intro d' hd'
        obtain ⟨s, hs, -⟩ := hd'
        exact hv s hs

theorem members_error {d : Draft} {key : String} {tail : Lexemes} {e : DecodeError}
    (h : member d key tail = .error e) :
    members d (.next (.string (.ok key)) tail) = .error e := by
  rw [members]
  split <;> simp_all

theorem reads_finish (d : Draft) (rest : Lexemes) :
    Reads (d.finish.map fun r => (r, rest)) rest (Completes d []) := by
  obtain ⟨directory, command, file⟩ := d
  cases directory with
  | none => exact reads_error fun r hr => nomatch hr .directory
  | some directory =>
    cases command with
    | none => exact reads_error fun r hr => nomatch hr .command
    | some command =>
      cases file with
      | none => exact reads_error fun r hr => nomatch hr .file
      | some file =>
        refine reads_ok ?_
        intro r
        constructor
        · intro hr
          cases hr .directory
          cases hr .command
          cases hr .file
          rfl
        · rintro rfl f
          cases f <;> rfl

theorem reads_members {m : String × Value} {ms : List (String × Value)} {ts : List Token}
    (h : Tokens (.members (m :: ms)) ts) (d : Draft) (rest : Lexemes) :
    Reads (members d (.ofTokens ts (.next .closeBrace rest))) rest (Completes d (m :: ms)) := by
  induction ms generalizing m d ts with
  | nil =>
    cases h with
    | @lastMember k v ts hv =>
      rw [Lexemes.ofTokens_cons, Lexemes.ofTokens_cons]
      rcases (reads_member d k hv (.next .closeBrace rest)).cases with ⟨d', hm, hd'⟩ | ⟨e, hm, hno⟩
      · rw [members_brace hm]
        exact (reads_finish d' rest).congr (completes_of_takes hd' [])
      · rw [members_error hm]
        exact reads_error (not_completes hno [])
  | cons m' ms ih =>
    cases h with
    | @member k v _ _ ts us hv hms =>
      rw [Lexemes.ofTokens_cons, Lexemes.ofTokens_cons, Lexemes.ofTokens_append,
        Lexemes.ofTokens_cons]
      rcases (reads_member d k hv (.next .comma (.ofTokens us (.next .closeBrace rest)))).cases
        with ⟨d', hm, hd'⟩ | ⟨e, hm, hno⟩
      · rw [members_comma hm]
        exact (ih hms d').congr (completes_of_takes hd' (m' :: ms))
      · rw [members_error hm]
        exact reads_error (not_completes hno (m' :: ms))

theorem reads_object {ms : List (String × Value)} {ts : List Token} (h : Tokens (.members ms) ts)
    (rest : Lexemes) :
    Reads (object (.ofTokens ts (.next .closeBrace rest))) rest (IsRecord (.object ms)) := by
  cases ms with
  | nil =>
    cases h
    exact (reads_finish {} rest).congr fun r => completes_empty
  | cons m ms =>
    have hm : Reads (members {} (.ofTokens ts (.next .closeBrace rest))) rest _ :=
      (reads_members h {} rest).congr fun r => completes_empty
    cases h <;> exact hm

/-- The order of the members does not matter. -/
theorem IsRecord.perm {ms ms' : List (String × Value)} {r : Record} (hp : ms.Perm ms')
    (h : IsRecord (.object ms) r) : IsRecord (.object ms') r := by
  have same : ∀ {key : String} {v : Value}, valuesOf key ms = [v] → valuesOf key ms' = [v] := by
    intro key v hv
    have hperm : (valuesOf key ms').Perm (valuesOf key ms) := ((hp.filter _).map Prod.snd).symm
    rw [hv] at hperm
    exact List.perm_singleton.1 hperm
  cases h with
  | object hd hc hf => exact .object (same hd) (same hc) (same hf)

/-! ## Arrays -/

/-- A value does not begin with the end of an array. -/
theorem tokens_value_first {v : Value} {ts : List Token} (h : Tokens (.value v) ts) :
    ∃ t us, ts = t :: us ∧ t ≠ .closeBracket := by
  cases h <;> exact ⟨_, _, rfl, nofun⟩

/-- The elements of an array from the given place on, as they are met there. -/
inductive Remaining (rest : Lexemes) : Nat → List Value → Lexemes → Prop where
  | first {vs : List Value} {ts : List Token} : Tokens (.elements vs) ts →
      Remaining rest 0 vs (.ofTokens ts (.next .closeBracket rest))
  | last {n : Nat} : Remaining rest (n + 1) [] (.next .closeBracket rest)
  | more {n : Nat} {v : Value} {vs : List Value} {ts : List Token} :
      Tokens (.elements (v :: vs)) ts →
      Remaining rest (n + 1) (v :: vs) (.next .comma (.ofTokens ts (.next .closeBracket rest)))

theorem exists_remaining {v : Value} {vs : List Value} {ts : List Token}
    (h : Tokens (.elements (v :: vs)) ts) (n : Nat) (rest : Lexemes) :
    ∃ us ls, Tokens (.value v) us ∧ Remaining rest (n + 1) vs ls ∧
      Lexemes.ofTokens ts (.next .closeBracket rest) = .ofTokens us ls := by
  cases h with
  | lastElement hv => exact ⟨_, _, hv, .last, rfl⟩
  | element hv hvs => exact ⟨_, _, hv, .more hvs, Lexemes.ofTokens_append ..⟩

theorem column_zero {t : Token} (ht : t ≠ .closeBracket) (ls : Lexemes) :
    column 0 (.next t ls) = text (.next t ls) := by
  cases t with
  | closeBracket => exact absurd rfl ht
  | _ => rfl

/-- A place of an array is read as its text, up to the next place. -/
theorem reads_column {rest ls : Lexemes} {n : Nat} {vs : List Value} (h : Remaining rest n vs ls) :
    ∃ ls', Remaining rest (n + 1) vs.tail ls' ∧
      Reads (column n ls) ls' fun s => vs.head? = some (.string s) := by
  cases vs with
  | nil =>
    refine ⟨_, .last, ?_⟩
    cases h with
    | first ht => cases ht; exact reads_error nofun
    | last => exact reads_error nofun
  | cons v vs =>
    cases h with
    | first ht =>
      obtain ⟨us, ls', hv, hls', heq⟩ := exists_remaining ht 0 rest
      have htext := reads_text hv ls'
      obtain ⟨t, us, rfl, hne⟩ := tokens_value_first hv
      refine ⟨ls', hls', ?_⟩
      rw [heq, Lexemes.ofTokens_cons, column_zero hne]
      exact htext.congr fun s => by simp
    | @more n _ _ ts ht =>
      obtain ⟨us, ls', hv, hls', heq⟩ := exists_remaining ht (n + 1) rest
      refine ⟨ls', hls', ?_⟩
      show Reads (text (.ofTokens ts (.next .closeBracket rest))) _ _
      rw [heq]
      exact (reads_text hv ls').congr fun s => by simp

theorem reads_columns {vs : List Value} {ts : List Token} (h : Tokens (.elements vs) ts)
    (rest : Lexemes) :
    Reads (columns (.ofTokens ts (.next .closeBracket rest))) rest (IsRecord (.array vs)) := by
  obtain ⟨l₁, h₁, read₁⟩ := reads_column (.first h)
  obtain ⟨l₂, h₂, read₂⟩ := reads_column h₁
  obtain ⟨l₃, h₃, read₃⟩ := reads_column h₂
  unfold columns
  refine read₁.bind ?_ ?_
  · intro directory hd
    obtain ⟨vs, rfl⟩ := List.head?_eq_some_iff.1 hd
    refine read₂.bind ?_ ?_
    · intro command hc
      obtain ⟨vs, rfl⟩ := List.head?_eq_some_iff.1 hc
      refine read₃.bind ?_ ?_
      · intro file hf
        obtain ⟨vs, rfl⟩ := List.head?_eq_some_iff.1 hf
        cases h₃ with
        | last =>
          refine reads_ok fun r => ⟨?_, ?_⟩
          · intro hr
            cases hr
            rfl
          · rintro rfl
            exact .array
        | more _ => exact reads_error nofun
      · intro r hr
        cases hr
        exact ⟨_, rfl⟩
    · intro r hr
      cases hr
      exact ⟨_, rfl⟩
  · intro r hr
    cases hr
    exact ⟨_, rfl⟩

/-! ## Lists of records -/

theorem reads_record {v : Value} {ts : List Token} (h : Tokens (.value v) ts) (rest : Lexemes) :
    Reads (record (.ofTokens ts rest)) rest (IsRecord v) := by
  cases h with
  | null | boolean | string => exact reads_error nofun
  | number => exact reads_error nofun
  | array hvs =>
    rw [Lexemes.ofTokens_cons, Lexemes.ofTokens_append]
    exact reads_columns hvs rest
  | object hp hms =>
    rw [Lexemes.ofTokens_cons, Lexemes.ofTokens_append]
    exact (reads_object hms rest).congr fun r => ⟨.perm hp, .perm hp.symm⟩

theorem records_error {ls : Lexemes} {e : DecodeError} (h : record ls = .error e) :
    records ls = .error e := by
  rw [records]
  split <;> simp_all

theorem forall₂_cons_unique {v : Value} {vs : List Value} {r : Record} {rs : Database}
    (h : ∀ b, IsRecord v b ↔ b = r) (hs : ∀ b, List.Forall₂ IsRecord vs b ↔ b = rs)
    (db : Database) : List.Forall₂ IsRecord (v :: vs) db ↔ db = r :: rs := by
  simp [List.forall₂_cons_left_iff, h, hs]

theorem not_forall₂_cons {v : Value} (h : ∀ b, ¬ IsRecord v b) (vs : List Value) (db : Database) :
    ¬ List.Forall₂ IsRecord (v :: vs) db := by
  simp [List.forall₂_cons_left_iff, h]

theorem reads_records {v : Value} {vs : List Value} {ts : List Token}
    (h : Tokens (.elements (v :: vs)) ts) (rest : Lexemes) :
    Reads (records (.ofTokens ts (.next .closeBracket rest))) rest
      (List.Forall₂ IsRecord (v :: vs)) := by
  induction vs generalizing v ts with
  | nil =>
    cases h with
    | lastElement hv =>
      rcases (reads_record hv (.next .closeBracket rest)).cases with ⟨r, hr, hv⟩ | ⟨e, he, hv⟩
      · rw [records_bracket hr]
        exact reads_ok (forall₂_cons_unique hv fun b => List.forall₂_nil_left_iff)
      · rw [records_error he]
        exact reads_error (not_forall₂_cons hv [])
  | cons w vs ih =>
    cases h with
    | @element _ _ _ ts us hv hvs =>
      rw [Lexemes.ofTokens_append, Lexemes.ofTokens_cons]
      rcases (reads_record hv (.next .comma (.ofTokens us (.next .closeBracket rest)))).cases
        with ⟨r, hr, hv⟩ | ⟨e, he, hv⟩
      · rw [records_comma hr]
        rcases (ih hvs).cases with ⟨rs, hrs, hvs⟩ | ⟨e, he, hvs⟩
        · rw [hrs]
          exact reads_ok (forall₂_cons_unique hv hvs)
        · rw [he]
          refine reads_error ?_
          intro db hdb
          cases hdb with
          | cons _ htail => exact hvs _ htail
      · rw [records_error he]
        exact reads_error (not_forall₂_cons hv (w :: vs))

theorem list_openBracket {t : Token} (ht : t ≠ .closeBracket) (ls : Lexemes) :
    list (.next .openBracket (.next t ls)) = records (.next t ls) := by
  cases t with
  | closeBracket => exact absurd rfl ht
  | _ => rfl

theorem reads_list {v : Value} {ts : List Token} (h : Tokens (.value v) ts) (rest : Lexemes) :
    Reads (list (.ofTokens ts rest)) rest fun db =>
      ∃ vs, v = .array vs ∧ List.Forall₂ IsRecord vs db := by
  cases h with
  | @array vs ts hvs =>
    rw [Lexemes.ofTokens_cons, Lexemes.ofTokens_append, Lexemes.ofTokens_cons, Lexemes.ofTokens_nil]
    cases vs with
    | nil =>
      cases hvs
      exact reads_ok fun db => by simp
    | cons v vs =>
      have hrs := reads_records hvs rest
      obtain ⟨us, ls, hv, -, heq⟩ := exists_remaining hvs 0 rest
      obtain ⟨t, us, rfl, hne⟩ := tokens_value_first hv
      rw [heq, Lexemes.ofTokens_cons] at hrs ⊢
      rw [list_openBracket hne]
      exact hrs.congr fun db => by simp
  | _ => exact reads_error (by simp)

theorem decode_eq_ok {text : String} {db : Database} :
    decode text = .ok db ↔ list (Lexemes.ofChars text.toList) = .ok (db, .done) := by
  unfold decode
  split
  · next he => rw [he]; exact ⟨nofun, nofun⟩
  · next hd => rw [hd]; simp
  · next hne hd =>
    rw [hd]
    refine ⟨nofun, ?_⟩
    intro h
    cases h
    exact absurd rfl (hne db)

theorem exists_forall₂_iff {vs : List Value} :
    (∃ db, List.Forall₂ IsRecord vs db) ↔ ∀ e ∈ vs, ∃ r, IsRecord e r := by
  induction vs with
  | nil => simp
  | cons v vs ih =>
    rw [List.forall_mem_cons, ← ih]
    constructor
    · intro ⟨db, hdb⟩
      cases hdb with
      | cons hr hrs => exact ⟨⟨_, hr⟩, _, hrs⟩
    · intro ⟨⟨r, hr⟩, rs, hrs⟩
      exact ⟨r :: rs, .cons hr hrs⟩

/-- **Exactly the lists of records are accepted, whatever their presentation.** A
rendering of a value can be read if and only if the value is an array whose
elements all stand for records, and what is read are these records in order. -/
theorem decode_renders {v : Value} {text : String} (h : Renders v text) :
    ((∃ db, decode text = .ok db) ↔ ∃ vs, v = .array vs ∧ ∀ e ∈ vs, ∃ r, IsRecord e r) ∧
    ∀ db, decode text = .ok db ↔ ∃ vs, v = .array vs ∧ List.Forall₂ IsRecord vs db := by
  obtain ⟨ts, hts, htext⟩ := h.exists_tokens
  have accepted : ∀ db, decode text = .ok db ↔
      ∃ vs, v = .array vs ∧ List.Forall₂ IsRecord vs db := by
    intro db
    rw [decode_eq_ok, htext, reads_list hts .done db .done]
    simp
  refine ⟨?_, accepted⟩
  simp only [accepted, ← exists_forall₂_iff]
  constructor
  · intro ⟨db, vs, hv, hdb⟩
    exact ⟨vs, hv, db, hdb⟩
  · intro ⟨vs, hv, db, hdb⟩
    exact ⟨db, vs, hv, hdb⟩

/-- A record in either form; the object has a member of its own besides. -/
def sampleValue : Value :=
  .array [
    .object [("directory", .string "/d"), ("command", .string "cc"), ("file", .string "a.hh"),
      ("x", .array [.number ⟨false, ['1'], [], none⟩, .null])],
    .array [.string "/e", .string "c++", .string "b.hh"]]

/-- A text of `sampleValue`: the members are in reverse order, one of the keys is
spelled with an escape, and blanks stand here and there. -/
def sampleText : String :=
  "[\x7b\"x\": [1, null],\"\\u0066ile\":\"a.hh\", \"command\":\"cc\"," ++
    "\"directory\":\"\\/d\"\x7d ,\n[\"/e\",\"c++\",\"b.hh\"]\n]\n"

theorem renders_sample : Renders sampleValue sampleText := by
  have tokens : Tokens (.value sampleValue) _ :=
    .array (.element (.object (List.reverse_perm _)
      (.member (.array (.element .number (.lastElement .null)))
        (.member .string (.member .string (.lastMember .string)))))
      (.lastElement (.array (.element .string (.element .string (.lastElement .string))))))
  have none : AllBlank [] := by simp [AllBlank]
  have space : AllBlank [' '] := by simp [AllBlank]
  have line : AllBlank ['\n'] := by simp [AllBlank]
  have plain : ∀ s : String, s.toList.all (fun c => c ≠ '"' && c ≠ '\\' && ' ' ≤ c) = true →
      TokenText (.string (.ok s)) ('"' :: (s.toList ++ ['"'])) :=
    fun s hs => .string (.verbatim hs)
  have one : TokenText (.number (Numeral.value? ⟨false, ['1'], [], .none⟩)) ['1'] := by
    have whole : Json.IsWhole ['1'] := by
      refine ⟨⟨nofun, List.forall_mem_singleton.2 rfl⟩, ?_⟩
      intro d rest h
      cases h
    exact .number (.positive whole .none .none)
  have file : TokenText (.string (.ok "file"))
      ('"' :: (['\\', 'u', '0', '0', '6', '6', 'i', 'l', 'e'] ++ ['"'])) := by
    have f : CharText 'f' ['\\', 'u', '0', '0', '6', '6'] := .unit <|
      @UnitText.digits '0' '0' '6' '6' 0 0 6 6 (.inl rfl) (.inl rfl) (.inl rfl) (.inl rfl)
    refine .string ?_
    rw [show "file".toList = ['f', 'i', 'l', 'e'] from by decide]
    exact .cons f (.verbatim (by decide))
  have directory : TokenText (.string (.ok "/d")) ('"' :: (['\\', '/', 'd'] ++ ['"'])) := by
    have slash : CharText '/' ['\\', '/'] := .short (by decide)
    refine .string ?_
    rw [show "/d".toList = ['/', 'd'] from by decide]
    exact .cons slash (.verbatim (by decide))
  have text :=
    TokensText.cons none .openBracket <| .cons none .openBrace <|
    .cons none (plain "x" (by decide)) <| .cons none .colon <|
    .cons space .openBracket <| .cons none one <| .cons none .comma <| .cons space .nullWord <|
    .cons none .closeBracket <| .cons none .comma <|
    .cons none file <| .cons none .colon <| .cons none (plain "a.hh" (by decide)) <|
    .cons none .comma <|
    .cons space (plain "command" (by decide)) <| .cons none .colon <|
    .cons none (plain "cc" (by decide)) <| .cons none .comma <|
    .cons none (plain "directory" (by decide)) <| .cons none .colon <| .cons none directory <|
    .cons none .closeBrace <| .cons space .comma <|
    .cons line .openBracket <| .cons none (plain "/e" (by decide)) <| .cons none .comma <|
    .cons none (plain "c++" (by decide)) <| .cons none .comma <|
    .cons none (plain "b.hh" (by decide)) <| .cons none .closeBracket <|
    .cons line .closeBracket <| .nil line
  exact ⟨_, tokens, (congrArg (TokensText _) (by decide)).mpr text⟩

theorem decode_renders_sample : Renders sampleValue sampleText ∧
    decode sampleText = .ok [⟨"/d", "cc", "a.hh"⟩, ⟨"/e", "c++", "b.hh"⟩] := by
  refine ⟨renders_sample, ((decode_renders renders_sample).2 _).2 ⟨_, rfl, ?_⟩⟩
  exact .cons (.object rfl rfl rfl) (.cons .array .nil)

end HeaderDb.Database
