/-!
Names and file contents are byte sequences; a text is a byte sequence that is
valid UTF-8. Reading accepts exactly what writing produces. Bytes that are no
text are shown with one replacement character for each stretch that cannot be
part of a character.
-/

namespace HeaderDb

abbrev Bytes := List UInt8

namespace Utf8

/-- The bytes of a text. -/
def encode (s : String) : Bytes := s.toList.flatMap String.utf8EncodeChar

/-- The text with the given bytes, if they are valid. -/
def decode? (b : Bytes) : Option String := String.fromUTF8? b.toByteArray

theorem encode_toByteArray (s : String) : (encode s).toByteArray = s.toByteArray := by
  have h : (String.ofList s.toList).toByteArray = s.toByteArray := by simp
  exact h

theorem decode?_eq_some_iff {b : Bytes} {s : String} : decode? b = some s ↔ encode s = b := by
  have inj : ∀ {x y : Bytes}, x.toByteArray = y.toByteArray → x = y := by
    intro x y h
    simpa using congrArg (fun a : ByteArray => a.data.toList) h
  constructor
  · intro h
    unfold decode? String.fromUTF8? at h
    split at h
    · apply inj
      rw [encode_toByteArray, ← Option.some.inj h]
      rfl
    · cases h
  · intro h
    have hb : b.toByteArray = s.toByteArray := h ▸ encode_toByteArray s
    have hv : b.toByteArray.IsValidUTF8 := hb ▸ s.isValidUTF8
    unfold decode? String.fromUTF8?
    rw [dif_pos hv]
    congr 1
    apply String.toByteArray_inj.mp
    exact hb

@[simp] theorem decode?_encode (s : String) : decode? (encode s) = some s :=
  decode?_eq_some_iff.mpr rfl

theorem encode_injective {s t : String} (h : encode s = encode t) : s = t := by
  have := decode?_encode s
  rw [h, decode?_encode] at this
  exact (Option.some.inj this).symm

theorem encode_append (s t : String) : encode (s ++ t) = encode s ++ encode t := by
  simp [encode, String.toList_append]

theorem mem_encode {c : Char} {b : UInt8} (hb : String.utf8EncodeChar c = [b]) {s : String}
    (hc : c ∈ s.toList) : b ∈ encode s :=
  List.mem_flatMap.mpr ⟨c, hc, hb ▸ List.mem_cons_self⟩

theorem decode?_replicate {c : Char} {b : UInt8} (hb : String.utf8EncodeChar c = [b]) (n : Nat) :
    decode? (List.replicate n b) = some (String.ofList (List.replicate n c)) := by
  rw [decode?_eq_some_iff, encode, String.toList_ofList, List.flatMap_replicate, hb,
    List.flatten_replicate_singleton]

/-- The number of bytes of a sequence of characters. -/
def size : List Char → Nat
  | [] => 0
  | c :: cs => c.utf8Size + size cs

/-- A stretch of bytes as a reader of text sees it: one character, or the
longest stretch that cannot be completed to a character. -/
inductive Piece where
  | char (c : Char)
  | broken (bytes : Bytes)
  deriving Repr, DecidableEq

/-- What the first byte of a longer character announces: the number of bytes
that follow, and the least and greatest value of the first of them. -/
def announced (b : UInt8) : Option (Nat × UInt8 × UInt8) :=
  if b < 0xC2 then none
  else if b < 0xE0 then some (1, 0x80, 0xBF)
  else if b = 0xE0 then some (2, 0xA0, 0xBF)
  else if b = 0xED then some (2, 0x80, 0x9F)
  else if b < 0xF0 then some (2, 0x80, 0xBF)
  else if b = 0xF0 then some (3, 0x90, 0xBF)
  else if b < 0xF4 then some (3, 0x80, 0xBF)
  else if b = 0xF4 then some (3, 0x80, 0x8F)
  else none

/-- The bits that a byte after the first adds to its character. -/
def low (b : UInt8) : Nat := b.toNat % 64

def continues (b : UInt8) : Bool := 0x80 ≤ b && b ≤ 0xBF

/-- Cuts a byte sequence into pieces. -/
def pieces : Bytes → List Piece
  | [] => []
  | a :: rest =>
    if a < 0x80 then .char (Char.ofNat a.toNat) :: pieces rest
    else match announced a with
    | none => .broken [a] :: pieces rest
    | some (more, least, greatest) =>
      match rest with
      | [] => [.broken [a]]
      | b :: rest₂ =>
        if !(least ≤ b && b ≤ greatest) then .broken [a] :: pieces (b :: rest₂)
        else if more = 1 then
          .char (Char.ofNat (a.toNat % 32 * 64 + low b)) :: pieces rest₂
        else match rest₂ with
        | [] => [.broken [a, b]]
        | c :: rest₃ =>
          if !continues c then .broken [a, b] :: pieces (c :: rest₃)
          else if more = 2 then
            .char (Char.ofNat ((a.toNat % 16 * 64 + low b) * 64 + low c)) :: pieces rest₃
          else match rest₃ with
          | [] => [.broken [a, b, c]]
          | d :: rest₄ =>
            if !continues d then .broken [a, b, c] :: pieces (d :: rest₄)
            else
              .char (Char.ofNat (((a.toNat % 8 * 64 + low b) * 64 + low c) * 64 + low d))
                :: pieces rest₄

/-- The bytes as text, with U+FFFD for every broken stretch. -/
def lossy (b : Bytes) : String :=
  String.ofList ((pieces b).map fun
    | .char c => c
    | .broken _ => '\uFFFD')

/-- Whether `x` comes before or with `y` in the order of their bytes. -/
def le (x y : String) : Bool := decide (encode x ≤ encode y)

theorem le_trans (a b c : String) (hab : le a b = true) (hbc : le b c = true) :
    le a c = true := by
  unfold le at *
  exact decide_eq_true (List.le_trans (of_decide_eq_true hab) (of_decide_eq_true hbc))

theorem le_total (a b : String) : (le a b || le b a) = true := by
  unfold le
  simpa using List.le_total (encode a) (encode b)

end Utf8
end HeaderDb
