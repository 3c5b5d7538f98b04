import HeaderDb.Scan

/-! # Which texts are patterns

A pattern is written as a row of items: characters, wildcards and classes. What
an item may be depends on the characters right before and behind it only, so
being a pattern is a condition on each item between its neighbours. Reading
follows the items from left to right: it accepts exactly the rows in which every
item is allowed, and takes each item for one token. -/

namespace HeaderDb
namespace Glob

/-- An item of a written pattern. A class holds at least one character, and its
first one may be a closing bracket. -/
inductive Item where
  | plain (c : Char)
  | anyChar
  | anySequence
  | anyComponents
  | within (first : Char) (more : List Char)
  | outside (first : Char) (more : List Char)

def Item.text : Item → List Char
  | .plain c => [c]
  | .anyChar => ['?']
  | .anySequence => ['*']
  | .anyComponents => ['*', '*']
  | .within c more => '[' :: c :: (more ++ [']'])
  | .outside c more => '[' :: '!' :: c :: (more ++ [']'])

/-- The text of a row of items. -/
def texts (items : List Item) : List Char := items.flatMap Item.text

/-- Whether an item may stand between two characters, which are missing at the
ends of a pattern. No wildcard touches another, and one for components has a
component of its own. -/
def Item.Allowed (previous next : Option Char) : Item → Prop
  | .plain c => c ≠ '*' ∧ c ≠ '?' ∧ c ≠ '['
  | .anyChar => True
  | .anySequence => previous ≠ some '*' ∧ next ≠ some '*'
  | .anyComponents =>
    (previous = none ∨ previous = some '/') ∧ (next = none ∨ next = some '/')
  | .within c more => c ≠ '!' ∧ ']' ∉ more
  | .outside _ more => ']' ∉ more

/-- Every item of a row may stand where it does, if the row itself comes after
the given character. -/
def Fits (previous : Option Char) (items : List Item) : Prop :=
  ∀ before item after, items = before ++ item :: after →
    item.Allowed ((texts before).getLast?.or previous) (texts after).head?

/-- A text that can be read as a pattern. -/
def IsPattern (pattern : String) : Prop :=
  ∃ items, texts items = pattern.toList ∧
    ∀ before item after, items = before ++ item :: after →
      item.Allowed (texts before).getLast? (texts after).head?

/-! ## Rows of items -/

@[simp] theorem texts_nil : texts [] = [] := rfl

@[simp] theorem texts_cons (item : Item) (items : List Item) :
    texts (item :: items) = item.text ++ texts items := rfl

/-- The last character of an item. -/
def Item.last : Item → Char
  | .plain c => c
  | .anyChar => '?'
  | .anySequence | .anyComponents => '*'
  | .within _ _ | .outside _ _ => ']'

theorem Item.getLast?_text (item : Item) : item.text.getLast? = some item.last := by
  cases item with
  | plain c => rfl
  | anyChar | anySequence | anyComponents => rfl
  | within c more => exact List.getLast?_concat (l := '[' :: c :: more)
  | outside c more => exact List.getLast?_concat (l := '[' :: '!' :: c :: more)

theorem fits_nil (previous : Option Char) : Fits previous [] := by
  intro before item after h
  simp at h

theorem fits_cons {previous : Option Char} {item : Item} {items : List Item} :
    Fits previous (item :: items) ↔
      item.Allowed previous (texts items).head? ∧ Fits (some item.last) items := by
  -- what comes before a later item ends in the text of the first, or behind it
  have hlast (before : List Item) : (texts (item :: before)).getLast?.or previous =
      (texts before).getLast?.or (some item.last) := by
    rw [texts_cons, List.getLast?_append, item.getLast?_text]
    cases (texts before).getLast? <;> rfl
  constructor
  · intro h
    refine ⟨h [] item items rfl, fun before other after hs => ?_⟩
    rw [← hlast]
    exact h (item :: before) other after (congrArg (item :: ·) hs)
  · intro ⟨hi, hs⟩ before other after h
    cases before with
    | nil => cases h; exact hi
    | cons first before =>
      cases h
      rw [hlast]
      exact hs before other after rfl

theorem isPattern_iff {pattern : String} :
    IsPattern pattern ↔ ∃ items, texts items = pattern.toList ∧ Fits none items := by
  simp only [IsPattern, Fits, Option.or_none]

/-- The only item that begins with a slash is the slash. -/
theorem exists_slash {items : List Item} (h : (texts items).head? = some '/') :
    ∃ more, items = .plain '/' :: more := by
  cases items with
  | nil => cases h
  | cons item items =>
    cases item <;> simp [Item.text] at h
    exact ⟨items, by rw [h]⟩

theorem eq_nil_of_head? {items : List Item} (h : (texts items).head? = none) : items = [] := by
  cases items with
  | nil => rfl
  | cons item items => cases item <;> simp [Item.text] at h

/-! ## Reading -/

/-- The tokens so far and that of one more item. -/
def Item.push (seen : List Token) : Item → List Token
  | .plain c => .literal c :: seen
  | .anyChar => .anyChar :: seen
  | .anySequence => .anySequence :: seen
  | .anyComponents => pushComponents seen
  | .within c more => .within (members (c :: more)) :: seen
  | .outside c more => .outside (members (c :: more)) :: seen

/-- The tokens of a row of items, after those so far. The slash behind a
component wildcard goes with it. -/
def gather (seen : List Token) : List Item → List Token
  | [] => seen.reverse
  | .anyComponents :: .plain _ :: items => gather (pushComponents seen) items
  | item :: items => gather (item.push seen) items

theorem readClass_append {start : Nat} {negated : Bool} {inside : List Char} {position : Nat}
    {seen : List Token} {more rest : List Char} (h : ']' ∉ more) :
    readClass start negated inside position seen (more ++ ']' :: rest) =
      readTokens (position + more.length + 1) (some ']')
        ((if negated then .outside (members (inside.reverse ++ more))
          else .within (members (inside.reverse ++ more))) :: seen) rest := by
  induction more generalizing inside position with
  | nil => simp [readClass]
  | cons c more ih =>
    rw [List.mem_cons, not_or] at h
    have hp : position + 1 + more.length + 1 = position + (c :: more).length + 1 := by
      rw [List.length_cons]
      omega
    rw [List.cons_append, readClass, ih h.2, hp]
    · simp
    · exact Ne.symm h.1

theorem exists_class {start : Nat} {negated : Bool} {inside : List Char} {position : Nat}
    {seen : List Token} {rest : List Char} {tokens : List Token}
    (h : readClass start negated inside position seen rest = .ok tokens) :
    ∃ more after, ']' ∉ more ∧ rest = more ++ ']' :: after := by
  induction rest generalizing inside position with
  | nil => simp [readClass] at h
  | cons c rest ih =>
    by_cases hc : c = ']'
    · exact ⟨[], rest, by simp, by rw [hc]; rfl⟩
    · have hstep := readClass.eq_3 start negated inside position seen c rest hc
      obtain ⟨more, after, hm, rfl⟩ := ih (hstep.symm.trans h)
      exact ⟨c :: more, after, by simp [Ne.symm hc, hm], rfl⟩

/-- One step of reading. -/
theorem readTokens_item {previous : Option Char} {item : Item} {rest : List Char}
    (hi : item.Allowed previous rest.head?) (hc : item ≠ .anyComponents) (position : Nat)
    (seen : List Token) :
    readTokens position previous seen (item.text ++ rest) =
      readTokens (position + item.text.length) (some item.last) (item.push seen) rest := by
  cases item with
  | plain c =>
    obtain ⟨hstar, hmark, hbracket⟩ := hi
    rw [Item.text, List.singleton_append, readTokens]
    · rfl
    all_goals simp [hstar, hmark, hbracket]
  | anyChar => simp [Item.text, Item.last, Item.push, readTokens]
  | anySequence =>
    have hnext (tail : List Char) : rest ≠ '*' :: tail := by
      rintro rfl
      exact hi.2 rfl
    simp [Item.text, Item.last, Item.push, readTokens, hnext]
  | anyComponents => exact absurd rfl hc
  | within c more =>
    obtain ⟨h₁, h₂⟩ := hi
    have hp : position + 2 + more.length + 1 = position + (Item.within c more).text.length := by
      simp [Item.text]
      omega
    have ht : (Item.within c more).text ++ rest = '[' :: c :: (more ++ ']' :: rest) := by
      simp [Item.text]
    simp [ht, readTokens, h₁, readClass_append h₂, hp, Item.last, Item.push]
  | outside c more =>
    have hp : position + 3 + more.length + 1 = position + (Item.outside c more).text.length := by
      simp [Item.text]
      omega
    have ht : (Item.outside c more).text ++ rest = '[' :: '!' :: c :: (more ++ ']' :: rest) := by
      simp [Item.text]
    simp [ht, readTokens, readClass_append hi, hp, Item.last, Item.push]

theorem all_slash_iff {previous : Option Char} :
    previous.all (· = '/') = true ↔ previous = none ∨ previous = some '/' := by
  cases previous <;> simp

/-- A row of items that fit is read. -/
theorem readTokens_texts {previous : Option Char} {items : List Item} (h : Fits previous items)
    (position : Nat) (seen : List Token) :
    readTokens position previous seen (texts items) = .ok (gather seen items) := by
  fun_induction gather seen items generalizing position previous with
  | case1 seen => exact readTokens.eq_1 _ _ _
  | case2 seen c items ih =>
    obtain ⟨⟨hprev, hnext⟩, hs⟩ := fits_cons.mp h
    obtain ⟨_, hs⟩ := fits_cons.mp hs
    have hslash : c = '/' := by simpa [Item.text] using hnext
    subst hslash
    simp only [texts_cons, Item.text, List.cons_append, List.nil_append, readTokens,
      all_slash_iff.mpr hprev, if_true]
    exact ih hs _
  | case3 seen item items hno ih =>
    obtain ⟨hi, hs⟩ := fits_cons.mp h
    by_cases hc : item = .anyComponents
    · -- nothing can follow that is not a slash
      subst hc
      obtain ⟨hprev, hnone | hslash⟩ := hi
      · obtain rfl := eq_nil_of_head? hnone
        simp [Item.text, readTokens, all_slash_iff.mpr hprev, gather, Item.push]
      · obtain ⟨more, rfl⟩ := exists_slash hslash
        exact absurd rfl (hno _ _ rfl)
    · rw [texts_cons, readTokens_item hi hc, ih hs]

/-- What reading has met first: the end, an item, or a component wildcard, at the
end or before a slash. -/
theorem readTokens_first {position : Nat} {previous : Option Char} {seen tokens : List Token}
    {rest : List Char} (hstar : previous = some '*' → rest.head? ≠ some '*')
    (h : readTokens position previous seen rest = .ok tokens) :
    rest = [] ∨
    (∃ (item : Item) (after : List Char), rest = item.text ++ after ∧
      item.Allowed previous after.head? ∧ item ≠ .anyComponents) ∨
    (previous = none ∨ previous = some '/') ∧
      (rest = ['*', '*'] ∨ ∃ after, rest = '*' :: '*' :: '/' :: after) := by
  revert h
  fun_cases readTokens position previous seen rest with
  | case1 => exact fun _ => .inl rfl
  | case2 after => exact fun _ => .inr (.inl ⟨.anyChar, after, rfl, trivial, nofun⟩)
  | case3 => nofun
  | case4 hall => exact fun _ => .inr (.inr ⟨all_slash_iff.mp hall, .inl rfl⟩)
  | case5 hall after => exact fun _ => .inr (.inr ⟨all_slash_iff.mp hall, .inr ⟨after, rfl⟩⟩)
  | case6 => nofun
  | case7 => nofun
  | case8 after _ hno =>
    refine fun _ => .inr (.inl ⟨.anySequence, after, rfl, ⟨fun hp => hstar hp rfl, ?_⟩, nofun⟩)
    intro hnext
    obtain ⟨tail, rfl⟩ := List.head?_eq_some_iff.mp hnext
    exact hno tail rfl
  | case9 c rest =>
    intro h
    obtain ⟨more, after, hm, rfl⟩ := exists_class h
    exact .inr (.inl ⟨.outside c more, after, by simp [Item.text], hm, nofun⟩)
  | case10 => nofun
  | case11 c rest hno _ =>
    intro h
    obtain ⟨more, after, hm, rfl⟩ := exists_class h
    have hc : c ≠ '!' := by
      intro hc
      obtain ⟨d, tail, hd⟩ : ∃ d tail, more ++ ']' :: after = d :: tail :=
        List.exists_cons_of_ne_nil (by simp)
      exact hno d tail hc hd
    exact .inr (.inl ⟨.within c more, after, by simp [Item.text], ⟨hc, hm⟩, nofun⟩)
  | case12 => nofun
  | case13 c after hmark _ _ hc _ _ hbracket hend =>
    refine fun _ => .inr (.inl ⟨.plain c, after, rfl, ⟨hc, hmark, ?_⟩, nofun⟩)
    intro hopen
    cases after with
    | nil => exact hend hopen rfl
    | cons d tail => exact hbracket d tail hopen rfl

/-- Behind an item that ends in a star there is no other star. -/
theorem Item.Allowed.next {previous next : Option Char} {item : Item}
    (h : item.Allowed previous next) (hl : some item.last = some '*') : next ≠ some '*' := by
  cases item with
  | plain c => exact absurd (Option.some.inj hl) h.1
  | anySequence => exact h.2
  | anyComponents => rcases h.2 with rfl | rfl <;> simp
  | anyChar | within _ _ | outside _ _ => simp [Item.last] at hl

/-- What is read is a row of items that fit. No star comes right after a star, since
two of them are read together. -/
theorem exists_items {position : Nat} {previous : Option Char} {seen tokens : List Token}
    {rest : List Char} (hstar : previous = some '*' → rest.head? ≠ some '*')
    (h : readTokens position previous seen rest = .ok tokens) :
    ∃ items, texts items = rest ∧ Fits previous items := by
  induction hn : rest.length using Nat.strongRecOn generalizing position previous seen rest with
  | ind n ih =>
    subst hn
    rcases readTokens_first hstar h with rfl | ⟨item, after, rfl, hi, hc⟩ |
      ⟨hprev, rfl | ⟨after, rfl⟩⟩
    · exact ⟨[], rfl, fits_nil _⟩
    · rw [readTokens_item hi hc] at h
      have hlt : after.length < (item.text ++ after).length := by
        rw [List.length_append]
        cases item <;> simp [Item.text]
      obtain ⟨items, rfl, hf⟩ := ih _ hlt hi.next h rfl
      exact ⟨item :: items, rfl, fits_cons.mpr ⟨hi, hf⟩⟩
    · exact ⟨[.anyComponents], rfl, fits_cons.mpr ⟨⟨hprev, .inl rfl⟩, fits_nil _⟩⟩
    · simp only [readTokens, all_slash_iff.mpr hprev, if_true] at h
      obtain ⟨items, rfl, hf⟩ := ih _ (by simp; omega) (by simp) h rfl
      refine ⟨.anyComponents :: .plain '/' :: items, rfl, fits_cons.mpr ⟨⟨hprev, .inr rfl⟩, ?_⟩⟩
      exact fits_cons.mpr ⟨by simp [Item.Allowed], hf⟩

/-- **Reading accepts exactly the patterns**, and gives the tokens of the items. -/
theorem parse_eq_ok_iff {pattern : String} {g : Glob} :
    Glob.parse pattern = .ok g ↔
      ∃ items, texts items = pattern.toList ∧ Fits none items ∧ g.tokens = gather [] items := by
  unfold Glob.parse
  constructor
  · intro h
    cases hr : readTokens 0 none [] pattern.toList with
    | error e => rw [hr] at h; cases h
    | ok tokens =>
      obtain ⟨items, ht, hf⟩ := exists_items (by simp) hr
      rw [← ht, readTokens_texts hf] at h
      cases h
      exact ⟨items, ht, hf, rfl⟩
  · intro ⟨items, ht, hf, hg⟩
    rw [← ht, readTokens_texts hf, ← hg]
    rfl

theorem isPattern_iff_parse {pattern : String} :
    IsPattern pattern ↔ ∃ g, Glob.parse pattern = .ok g := by
  rw [isPattern_iff]
  constructor
  · intro ⟨items, ht, hf⟩
    exact ⟨⟨gather [] items⟩, parse_eq_ok_iff.mpr ⟨items, ht, hf, rfl⟩⟩
  · intro ⟨g, hg⟩
    obtain ⟨items, ht, hf, _⟩ := parse_eq_ok_iff.mp hg
    exact ⟨items, ht, hf⟩

end Glob

/-! ## Rejecting -/

theorem scan_of_parse_error {pattern : String} {e : Glob.Error}
    (h : Glob.parse pattern = .error e) (entries : Except OsError (List Entry)) :
    scan pattern entries = .error (.pattern pattern e) := by
  rw [scan, h]

theorem scan_error_of_parse {pattern : String} {g : Glob} (h : Glob.parse pattern = .ok g)
    {entries : Except OsError (List Entry)} {f : Failure} (hf : scan pattern entries = .error f) :
    ∃ e, f = .os e := by
  rw [scan, h] at hf
  cases entries with
  | error e => cases hf; exact ⟨e, rfl⟩
  | ok es => cases hf

/-- The words of the system hold no colon, and those on a pattern do. -/
theorem OsError.colon_not_mem (e : OsError) : ':' ∉ e.message.toList := by
  cases e <;> decide

/-- **A scan rejects exactly what is no pattern, and before it looks at the
directory.** The failure names the pattern, wherever the path leads, and it is the same
for every other path in every other tree. -/
theorem scan_rejects_iff (pattern : String) (t : Tree) (path : Bytes) :
    ((∃ f, scan pattern (t.list path) = .error f ∧ f.kind = .invalidInput ∧
        ∃ text, f.message = pattern ++ ": " ++ text) ↔ ¬ Glob.IsPattern pattern) ∧
    (¬ Glob.IsPattern pattern → ∀ (t' : Tree) (path' : Bytes),
      scan pattern (t'.list path') = scan pattern (t.list path)) := by
  rw [Glob.isPattern_iff_parse]
  cases hp : Glob.parse pattern with
  | error e =>
    have hscan := scan_of_parse_error hp
    refine ⟨iff_of_true ⟨_, hscan _, rfl, e.message, rfl⟩ nofun, fun _ t' path' => ?_⟩
    rw [hscan, hscan]
  | ok g =>
    refine ⟨iff_of_false ?_ fun h => h ⟨g, rfl⟩, fun h => absurd ⟨g, rfl⟩ h⟩
    intro ⟨f, hf, _, text, htext⟩
    obtain ⟨e, rfl⟩ := scan_error_of_parse hp hf
    refine e.colon_not_mem ?_
    rw [show e.message = pattern ++ ": " ++ text from htext]
    simp

/-- A class outside nothing is never closed. -/
theorem scan_rejects_unclosed :
    ¬ Glob.IsPattern "[!]" ∧ ∀ (t : Tree) (path : Bytes),
      scan "[!]" (t.list path) = .error (.pattern "[!]" ⟨0, .range⟩) := by
  have hscan : scan "[!]" (Tree.list {} [Path.slash]) = .error (.pattern "[!]" ⟨0, .range⟩) := rfl
  obtain ⟨hiff, hsame⟩ := scan_rejects_iff "[!]" {} [Path.slash]
  have hno : ¬ Glob.IsPattern "[!]" := hiff.mp ⟨_, hscan, rfl, _, rfl⟩
  exact ⟨hno, fun t path => (hsame hno t path).trans hscan⟩

end HeaderDb
