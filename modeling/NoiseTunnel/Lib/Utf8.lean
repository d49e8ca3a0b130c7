import NoiseTunnel.Lib.Rust
/-!
# Rust strings

A Rust `String` is a Lean `String`: both are UTF-8 encoded sequences of
Unicode scalar values. `from_utf8_lossy` follows the standard library: every
maximal invalid sequence becomes one U+FFFD.
-/

namespace Rust

/-- `str::as_bytes`. -/
def as_bytes (s : String) : Bytes := s.toByteArray.data.toList

/-- `String::from_utf8`, `none` for its `Err`. -/
def from_utf8 (b : Bytes) : Option String := String.fromUTF8? b.toByteArray

/-- The character whose encoding starts `b`. -/
def decode_char (b : Bytes) : Option Char := b.toByteArray.utf8DecodeChar? 0

def is_continuation (x : UInt8) : Bool := 0x80 ≤ x && x ≤ 0xBF

/-- `x` opens a three byte sequence that `y` may continue. -/
def opens_three (x y : UInt8) : Bool :=
  (x == 0xE0 && 0xA0 ≤ y && y ≤ 0xBF) || (0xE1 ≤ x && x ≤ 0xEC && is_continuation y) ||
  (x == 0xED && 0x80 ≤ y && y ≤ 0x9F) || (0xEE ≤ x && x ≤ 0xEF && is_continuation y)

/-- `x` opens a four byte sequence that `y` may continue. -/
def opens_four (x y : UInt8) : Bool :=
  (x == 0xF0 && 0x90 ≤ y && y ≤ 0xBF) || (0xF1 ≤ x && x ≤ 0xF3 && is_continuation y) ||
  (x == 0xF4 && 0x80 ≤ y && y ≤ 0x8F)

/-- How many bytes one U+FFFD stands for, where no character starts. -/
def invalid_len : Bytes → Nat
  | x :: y :: z :: _ =>
    if opens_four x y then (if is_continuation z then 3 else 2) else if opens_three x y then 2 else 1
  | [x, y] => if opens_four x y || opens_three x y then 2 else 1
  | _ => 1

def lossy_chars : Bytes → List Char
  | [] => []
  | x :: b =>
    match decode_char (x :: b) with
    | some c => c :: lossy_chars (b.drop (c.utf8Size - 1))
    | none => Char.ofNat 0xFFFD :: lossy_chars (b.drop (invalid_len (x :: b) - 1))
termination_by b => b.length
decreasing_by all_goals simp only [List.length_drop, List.length_cons]; omega

/-- `String::from_utf8_lossy`. -/
def from_utf8_lossy (b : Bytes) : String := String.ofList (lossy_chars b)

/-! ## Bytes of a string -/

theorem toByteArray_as_bytes (s : String) : (as_bytes s).toByteArray = s.toByteArray := by
  apply ByteArray.ext
  simp [as_bytes]

@[simp] theorem as_bytes_append (s t : String) : as_bytes (s ++ t) = as_bytes s ++ as_bytes t := by
  simp [as_bytes]

@[simp] theorem as_bytes_length (s : String) : (as_bytes s).length = s.utf8ByteSize := by
  simp [as_bytes]

/-! ## Decoding -/

theorem from_utf8_as_bytes (s : String) : from_utf8 (as_bytes s) = some s := by
  rw [from_utf8, toByteArray_as_bytes, String.fromUTF8?, dif_pos s.isValidUTF8]
  rfl

theorem decode_char_encode (c : Char) (b : Bytes) : decode_char (String.utf8EncodeChar c ++ b) = some c := by
  rw [decode_char, List.toByteArray_append]
  exact ByteArray.utf8DecodeChar?_utf8EncodeChar_append

theorem lossy_chars_encode (l : List Char) : lossy_chars (l.flatMap String.utf8EncodeChar) = l := by
  induction l with
  | nil => simp [lossy_chars]
  | cons c l ih =>
    have hd := decode_char_encode c (l.flatMap String.utf8EncodeChar)
    have hl := String.length_utf8EncodeChar c
    rw [List.flatMap_cons]
    cases he : String.utf8EncodeChar c with
    | nil => exact absurd he String.utf8EncodeChar_ne_nil
    | cons x b =>
      rw [he] at hd hl
      rw [List.cons_append] at hd ⊢
      rw [List.length_cons] at hl
      rw [lossy_chars, hd]
      simp only [← hl, Nat.add_sub_cancel, List.drop_left', ih]

/-- Lossy conversion leaves valid UTF-8 as it is. -/
theorem from_utf8_lossy_as_bytes (s : String) : from_utf8_lossy (as_bytes s) = s := by
  have h : as_bytes s = s.toList.flatMap String.utf8EncodeChar := by
    rw [as_bytes, ← String.utf8Encode_toList, List.utf8Encode, List.data_toByteArray]
  rw [from_utf8_lossy, h, lossy_chars_encode, String.ofList_toList]

/-! ## Lengths -/

theorem utf8ByteSize_ofList_cons (c : Char) (l : List Char) :
    (String.ofList (c :: l)).utf8ByteSize = c.utf8Size + (String.ofList l).utf8ByteSize := by
  rw [String.ofList_cons, String.utf8ByteSize_append, String.utf8ByteSize_singleton]

theorem utf8ByteSize_ofList_replicate (c : Char) (n : Nat) :
    (String.ofList (List.replicate n c)).utf8ByteSize = n * c.utf8Size := by
  induction n with
  | zero => simp
  | succ n ih => rw [List.replicate_succ, utf8ByteSize_ofList_cons, ih, Nat.succ_mul, Nat.add_comm]

theorem utf8ByteSize_ofList_le {l l' : List Char} (h : l.Sublist l') :
    (String.ofList l).utf8ByteSize ≤ (String.ofList l').utf8ByteSize := by
  induction h with
  | slnil => exact Nat.le_refl _
  | cons c _ ih =>
    rw [utf8ByteSize_ofList_cons]
    exact Nat.le_trans ih (Nat.le_add_left _ _)
  | cons_cons c _ ih =>
    rw [utf8ByteSize_ofList_cons, utf8ByteSize_ofList_cons]
    exact Nat.add_le_add_left ih _

theorem decode_char_size {b : Bytes} {c : Char} (h : decode_char b = some c) : c.utf8Size ≤ b.length := by
  have hs := ByteArray.le_size_of_utf8DecodeChar?_eq_some h
  simpa using hs

/-- Lossy conversion at most triples the length: U+FFFD takes three bytes. -/
theorem from_utf8_lossy_length (b : Bytes) : (from_utf8_lossy b).utf8ByteSize ≤ 3 * b.length := by
  unfold from_utf8_lossy
  fun_induction lossy_chars b with
  | case1 => simp
  | case2 x b c hc ih =>
    have hs := decode_char_size hc
    have hpos := c.utf8Size_pos
    rw [List.length_drop] at ih
    rw [utf8ByteSize_ofList_cons]
    rw [List.length_cons] at hs ⊢
    omega
  | case3 x b hc ih =>
    have hs : (Char.ofNat 0xFFFD).utf8Size = 3 := by decide
    rw [List.length_drop] at ih
    rw [utf8ByteSize_ofList_cons, hs, List.length_cons]
    omega

end Rust
