import HeaderDb.Proofs.Json.Rendering
import HeaderDb.Toml.Lexeme

/-! # TOML documents and the assignments that they write

A document that gives keys texts and lists of texts determines its tokens up to
blanks, comments, empty lines and commas that may be left out, and tokens
determine their text up to the spelling of strings. `Renders` allows every choice
on both levels. It takes its alphabets from the lexer, and nothing else of how a
document is read. -/

namespace HeaderDb.Toml

/-- A value that a key is given. -/
inductive Assigned where
  | text (s : String)
  | texts (ss : List String)
  deriving Repr, DecidableEq

/-! ## Strings -/

/-- The letters that can follow a backslash and what they stand for. -/
def shortForms : List (Char × Char) :=
  [('"', '"'), ('\\', '\\'), ('b', '\x08'), ('f', '\x0c'), ('n', '\n'), ('r', '\r'), ('t', '\t')]

/-- What hexadecimal digits make of the number before them. -/
inductive HexText : Nat → List Char → Nat → Prop where
  | nil {x : Nat} : HexText x [] x
  | cons {x y z : Nat} {d : Char} {ds : List Char} : Json.IsHexDigit d y →
      HexText (16 * x + y) ds z → HexText x (d :: ds) z

/-- The spellings of what is left of a string, with the closing quotes. Escapes
are for double quotes, and line ends for strings of three quotes. -/
inductive TailText : (quote : Char) → (multiline : Bool) → List Char → List Char → Prop where
  | close {q : Char} : TailText q false [] [q]
  /-- Up to two quotes before the closing three are characters of the string. -/
  | closeLong {q : Char} {n : Nat} : n ≤ 2 →
      TailText q true (List.replicate n q) (List.replicate (n + 3) q)
  | verbatim {q c : Char} {m : Bool} {v t : List Char} : c ≠ q → (q = '"' → c ≠ '\\') →
      allowedInString c = true → TailText q m v t → TailText q m (c :: v) (c :: t)
  | newline {q : Char} {v t : List Char} : TailText q true v t →
      TailText q true ('\n' :: v) ('\n' :: t)
  /-- No three quotes stand together before the end. -/
  | quote {q : Char} {v t : List Char} : (∃ c ∈ t.take 2, c ≠ q) → TailText q true v t →
      TailText q true (q :: v) (q :: t)
  | short {e c : Char} {m : Bool} {v t : List Char} : (e, c) ∈ shortForms →
      TailText '"' m v t → TailText '"' m (c :: v) ('\\' :: e :: t)
  | hex {c : Char} {ds : List Char} {m : Bool} {v t : List Char} : HexText 0 ds c.toNat →
      ds.length = 4 → TailText '"' m v t → TailText '"' m (c :: v) ('\\' :: 'u' :: (ds ++ t))
  | longHex {c : Char} {ds : List Char} {m : Bool} {v t : List Char} : HexText 0 ds c.toNat →
      ds.length = 8 → TailText '"' m v t → TailText '"' m (c :: v) ('\\' :: 'U' :: (ds ++ t))
  /-- A backslash at the end of a line takes away the line end and all blanks
  and line ends after it. -/
  | fold {b s v t : List Char} : (∀ c ∈ b, isBlank c = true) →
      (∀ c ∈ s, isBlank c = true ∨ c = '\n') →
      (∀ c ∈ t.head?, isBlank c = false ∧ c ≠ '\n') → TailText '"' true v t →
      TailText '"' true v ('\\' :: (b ++ '\n' :: (s ++ t)))

/-- The spellings of a string. A line end right after three quotes is no part of
it. -/
inductive StringText : (multiline : Bool) → List Char → List Char → Prop where
  | single {q : Char} {v t : List Char} : q ∈ ['"', '\x27'] → TailText q false v t →
      StringText false v (q :: t)
  | long {q : Char} {v t : List Char} : q ∈ ['"', '\x27'] → TailText q true v t →
      t.head? ≠ some '\n' → StringText true v (q :: q :: q :: t)
  | longLine {q : Char} {v t : List Char} : q ∈ ['"', '\x27'] → TailText q true v t →
      StringText true v (q :: q :: q :: '\n' :: t)

/-! ## Texts -/

/-- The spellings of the tokens that documents are made of here. -/
inductive TokenText : Token → List Char → Prop where
  | whitespace {b : List Char} : b ≠ [] → (∀ c ∈ b, isBlank c = true) →
      TokenText (.whitespace b) b
  | newline : TokenText .newline ['\n']
  | comment {cs : List Char} : (∀ c ∈ cs, inComment c = true) → TokenText .comment ('#' :: cs)
  | equals : TokenText .equals ['=']
  | comma : TokenText .comma [',']
  | leftBracket : TokenText .leftBracket ['[']
  | rightBracket : TokenText .rightBracket [']']
  | bare {cs : List Char} : cs ≠ [] → (∀ c ∈ cs, isBare c = true) → TokenText (.bare cs) cs
  | string {m : Bool} {s : String} {cs : List Char} : StringText m s.toList cs →
      TokenText (.string m s) cs

/-- Whether a token would not end before the character. -/
def continues : Token → Char → Bool
  | .whitespace _, c => isBlank c
  | .comment, c => inComment c
  | .bare _, c => isBare c
  | .string _ _, c => c = '"' || c = '\x27'
  | _, _ => false

/-- The texts of a sequence of tokens. -/
inductive TokensText : List Token → List Char → Prop where
  | nil : TokensText [] []
  | cons {t : Token} {ts : List Token} {cs text : List Char} : TokenText t cs →
      (∀ c ∈ text.head?, continues t c = false) → TokensText ts text →
      TokensText (t :: ts) (cs ++ text)

/-- The characters with one line feed for each line end. -/
def unified : List Char → List Char
  | [] => []
  | '\r' :: '\n' :: rest => '\n' :: unified rest
  | c :: rest => c :: unified rest

theorem unified_eq_self {cs : List Char} (h : '\r' ∉ cs) : unified cs = cs := by
  fun_induction unified cs with
  | case1 => rfl
  | case2 rest _ => simp at h
  | case3 c rest _ ih => rw [ih (List.not_mem_of_not_mem_cons h)]

/-- A document without a byte order mark and with unified line ends. -/
def seen : List Char → List Char
  | '\uFEFF' :: rest => unified rest
  | cs => unified cs

/-! ## Documents -/

/-- Blanks, or nothing. -/
inductive Blank : List Token → Prop where
  | nothing : Blank []
  | whitespace {b : List Char} : Blank [.whitespace b]

/-- What may stand before an item of an array and after it. -/
inductive Gap : List Token → Prop where
  | blank {b : List Token} : Blank b → Gap b
  | newline {b g : List Token} : Blank b → Gap g → Gap (b ++ .newline :: g)
  | comment {b g : List Token} : Blank b → Gap g → Gap (b ++ .comment :: .newline :: g)

/-- The rest of an array with the given items. The last item may have a comma
after it. -/
inductive Items : List String → List Token → Prop where
  | close {g : List Token} : Gap g → Items [] (g ++ [.rightBracket])
  | last {s : String} {m : Bool} {g g' : List Token} : Gap g → Gap g' →
      Items [s] (g ++ .string m s :: (g' ++ [.rightBracket]))
  | item {s : String} {ss : List String} {m : Bool} {g g' ts : List Token} : Gap g → Gap g' →
      Items ss ts → Items (s :: ss) (g ++ .string m s :: (g' ++ .comma :: ts))

inductive ValueTokens : Assigned → List Token → Prop where
  | text {s : String} {m : Bool} : ValueTokens (.text s) [.string m s]
  | texts {ss : List String} {ts : List Token} : Items ss ts →
      ValueTokens (.texts ss) (.leftBracket :: ts)

inductive KeyToken : String → Token → Prop where
  | bare {cs : List Char} : KeyToken (String.ofList cs) (.bare cs)
  | quoted {s : String} : KeyToken s (.string false s)

/-- What may stand at the end of a line. -/
inductive LineTail : List Token → Prop where
  | blank {b : List Token} : Blank b → LineTail b
  | comment {b : List Token} : Blank b → LineTail (b ++ [.comment])

/-- A line with an assignment or with none. -/
inductive Line : Option (String × Assigned) → List Token → Prop where
  | empty {c : List Token} : LineTail c → Line none c
  | assignment {k : String} {a : Assigned} {t : Token} {b b₁ b₂ v c : List Token} : Blank b →
      KeyToken k t → Blank b₁ → Blank b₂ → ValueTokens a v → LineTail c →
      Line (some (k, a)) (b ++ t :: (b₁ ++ .equals :: (b₂ ++ (v ++ c))))

/-- The lines of a document. The last one needs no line end. -/
inductive Lines : List (String × Assigned) → List Token → Prop where
  | last {e : Option (String × Assigned)} {ts : List Token} : Line e ts → Lines e.toList ts
  | next {e : Option (String × Assigned)} {es : List (String × Assigned)} {ts us : List Token} :
      Line e ts → Lines es us → Lines (e.toList ++ es) (ts ++ .newline :: us)

/-- A text is a document with the given assignments, in this order. -/
def Renders (es : List (String × Assigned)) (text : String) : Prop :=
  ∃ ts, Lines es ts ∧ TokensText ts (seen text.toList)

end HeaderDb.Toml
