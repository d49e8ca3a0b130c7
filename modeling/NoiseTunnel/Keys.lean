import Mathlib.Data.List.TakeWhile
import NoiseTunnel.Accepting
import NoiseTunnel.Echo
/-!
# Keys as text

`Keygen` prints a key pair in hexadecimal; `Server` and `Client` read their
keys back from what is typed. The `hex` crate is a parameter. What it accepts
as a key is what it prints for one, in either case and among blanks, and
nothing else.
-/
open Rust Schedule

namespace NoiseTunnel

/-- The `hex` crate, with its error type. -/
structure Hex (ε : Type) where
  encode : Bytes → String
  decode : String → Except ε Bytes

/-- A byte in hexadecimal. -/
def digits (x : UInt8) : List Char := [hexDigit (x.toNat / 16), hexDigit (x.toNat % 16)]

def to_ascii_lowercase (s : String) : String := String.ofList (s.toList.map Char.toLower)

/-- What it documents: it prints two digits a byte in lower case, and reads
such digits back in either case, and nothing else. -/
structure Hex.Correct {ε : Type} (hex : Hex ε) : Prop where
  encode_eq : ∀ b, hex.encode b = String.ofList (b.flatMap digits)
  decode_encode : ∀ b, hex.decode (hex.encode b) = .ok b
  decode_case : ∀ s t b, to_ascii_lowercase s = to_ascii_lowercase t → hex.decode s = .ok b → hex.decode t = .ok b
  decode_digits : ∀ s b, hex.decode s = .ok b →
    s.toList.length % 2 = 0 ∧ ∀ c ∈ s.toList, ∃ n < 16, c.toLower = hexDigit n

/-! ## Reading a key -/

inductive KeyKind where
  | private_key
  | public_key
  deriving DecidableEq, Repr

inductive KeyError (ε : Type) where
  | decode (kind : KeyKind) (e : ε)
  | hex_length (kind : KeyKind) (len : Nat)
  | slice_length (len : Nat)
  | client_length (len : Nat)
  | server_length (len : Nat)
  deriving DecidableEq, Repr

/-- The text of an error; `debug` is `{:?}` of the crate's own. -/
def KeyError.text {ε : Type} (debug : ε → String) : KeyError ε → String
  | .decode .private_key e => "Ugyldig hex-enkoding for privat nøkkel: " ++ debug e
  | .decode .public_key e => "Ugyldig hex-enkoding for offentlig nøkkel: " ++ debug e
  | .hex_length .private_key len =>
    "Privat nøkkel må være nøyaktig 32 bytes (64 hex-tegn), mottok " ++ toString len
  | .hex_length .public_key len =>
    "Offentlig nøkkel må være nøyaktig 32 bytes (64 hex-tegn), mottok " ++ toString len
  | .slice_length len => "Privat nøkkel må være nøyaktig 32 bytes, mottok " ++ toString len
  | .client_length len => "Klient-skrivenøkkel må være 32 bytes, mottok " ++ toString len
  | .server_length len => "Server-skrivenøkkel må være 32 bytes, mottok " ++ toString len

section
variable {ε : Type} (hex : Hex ε) (P : Primitives)

/-- Bytes that must be a key, copied into one. -/
def key_of_slice (slice : Bytes) (e : KeyError ε) : Except (Stop (KeyError ε)) Key :=
  if slice.length ≠ KEY_LEN then throw (.err e) else copy_from_slice KEY_LEN slice

/-- A key from a text. -/
def key_of_hex (kind : KeyKind) (hex_str : String) : Except (Stop (KeyError ε)) Key :=
  match hex.decode (trim hex_str) with
  | .error e => throw (.err (.decode kind e))
  | .ok bytes => key_of_slice bytes (.hex_length kind bytes.length)

namespace KeyPair

/-- `secret` is what the system's generator yields. -/
def generate (secret : Key) : KeyPair := ⟨secret, P.x25519_public secret⟩

def from_private_hex (hex_str : String) : Except (Stop (KeyError ε)) KeyPair := do
  let arr ← key_of_hex hex .private_key hex_str
  return from_private_bytes P arr

def from_private_slice (slice : Bytes) : Except (Stop (KeyError ε)) KeyPair := do
  let arr ← key_of_slice slice (.slice_length slice.length)
  return from_private_bytes P arr

def parse_public_key_hex (hex_str : String) : Except (Stop (KeyError ε)) Key := key_of_hex hex .public_key hex_str

def public_key_hex (self : KeyPair) : String := hex.encode self.public_key.val

def private_key_hex (self : KeyPair) : String := hex.encode self.private_key.val

end KeyPair

def SessionKeys.from_slices (client_key server_key : Bytes) : Except (Stop (KeyError ε)) SessionKeys := do
  let client_arr ← key_of_slice client_key (.client_length client_key.length)
  let server_arr ← key_of_slice server_key (.server_length server_key.length)
  return { client_write_key := client_arr, server_write_key := server_arr }

end

/-! ## What is printed -/

theorem digits_ofNat {high low : Nat} (hh : high < 16) (hl : low < 16) :
    digits (UInt8.ofNat (16 * high + low)) = [hexDigit high, hexDigit low] := by
  have hx : (UInt8.ofNat (16 * high + low)).toNat = 16 * high + low := UInt8.toNat_ofNat_of_lt' (by show _ < 256; omega)
  rw [digits, hx, show (16 * high + low) / 16 = high by omega, show (16 * high + low) % 16 = low by omega]

theorem of_mem_digits {b : Bytes} {c : Char} (h : c ∈ b.flatMap digits) : ∃ n < 16, c = hexDigit n := by
  obtain ⟨x, -, hx⟩ := List.mem_flatMap.1 h
  have hlt := x.toNat_lt
  rcases List.mem_cons.1 hx with rfl | hx
  · exact ⟨_, by omega, rfl⟩
  · exact ⟨_, Nat.mod_lt _ (by decide), List.mem_singleton.1 hx⟩

/-- An even number of digits is the print of some bytes. -/
theorem exists_digits : ∀ {cs : List Char}, cs.length % 2 = 0 → (∀ c ∈ cs, ∃ n < 16, c = hexDigit n) →
    ∃ b : Bytes, cs = b.flatMap digits
  | [], _, _ => ⟨[], rfl⟩
  | [_], h, _ => by cases h
  | c :: d :: cs, h, hdigits => by
    obtain ⟨high, hh, rfl⟩ := hdigits c List.mem_cons_self
    obtain ⟨low, hl, rfl⟩ := hdigits d (List.mem_cons_of_mem _ List.mem_cons_self)
    have hlen : cs.length % 2 = 0 := by
      rw [List.length_cons, List.length_cons] at h
      omega
    obtain ⟨b, rfl⟩ := exists_digits hlen fun e he => hdigits e (List.mem_cons_of_mem _ (List.mem_cons_of_mem _ he))
    exact ⟨UInt8.ofNat (16 * high + low) :: b, by rw [List.flatMap_cons, digits_ofNat hh hl]; rfl⟩

namespace Hex.Correct

variable {ε : Type} {hex : Hex ε}

/-- What holds of the sixteen digits holds of what is printed. -/
theorem forall_digit (hh : hex.Correct) {Q : Char → Prop} (h : ∀ n < 16, Q (hexDigit n)) (b : Bytes) :
    ∀ c ∈ (hex.encode b).toList, Q c := by
  intro c hc
  rw [hh.encode_eq, String.toList_ofList] at hc
  obtain ⟨n, hn, rfl⟩ := of_mem_digits hc
  exact h n hn

/-- What is printed is in lower case. -/
theorem lowercase_encode (hh : hex.Correct) (b : Bytes) : to_ascii_lowercase (hex.encode b) = hex.encode b := by
  have hdigits := hh.forall_digit (Q := fun c => c.toLower = c) (by decide) b
  rw [to_ascii_lowercase, List.map_congr_left hdigits, List.map_id', String.ofList_toList]

/-- What is read is, in lower case, what is printed. -/
theorem decode_eq_ok (hh : hex.Correct) {s : String} {b : Bytes} :
    hex.decode s = .ok b ↔ to_ascii_lowercase s = hex.encode b := by
  constructor
  · intro hd
    obtain ⟨hlen, hdigits⟩ := hh.decode_digits s b hd
    obtain ⟨b', hb'⟩ : ∃ b' : Bytes, s.toList.map Char.toLower = b'.flatMap digits := by
      apply exists_digits (by rwa [List.length_map])
      intro c hc
      obtain ⟨c', hc', rfl⟩ := List.mem_map.1 hc
      exact hdigits c' hc'
    have hlower : to_ascii_lowercase s = hex.encode b' := by rw [to_ascii_lowercase, hb', hh.encode_eq]
    have hread := hh.decode_case s (hex.encode b') b (hlower.trans (hh.lowercase_encode b').symm) hd
    rw [hh.decode_encode] at hread
    rw [hlower, Except.ok.inj hread]
  · intro hs
    exact hh.decode_case (hex.encode b) s b ((hh.lowercase_encode b).trans hs.symm) (hh.decode_encode b)

end Hex.Correct

/-! ## What is accepted -/

section
variable {ε : Type} {hex : Hex ε} {P : Primitives} {slice : Bytes} {e : KeyError ε} {k : Key} {kind : KeyKind}
  {s w w' : String} {stop : Stop (KeyError ε)}

theorem key_of_slice_eq_ok : key_of_slice slice e = .ok k ↔ slice = k.val := by
  unfold key_of_slice
  rw [throw_eq_error, guard_eq_ok, copy_from_slice_eq_ok, not_not]
  constructor
  · intro h
    exact h.2
  · rintro rfl
    exact ⟨k.property, rfl⟩

/-- The length is checked before the copy, which then does not panic. -/
theorem key_of_slice_error (h : key_of_slice slice e = .error stop) : slice.length ≠ KEY_LEN ∧ stop = .err e := by
  unfold key_of_slice at h
  split at h
  · rename_i hlen
    cases h
    exact ⟨hlen, rfl⟩
  · rename_i hlen
    rw [copy_from_slice, dif_pos (not_not.1 hlen)] at h
    cases h

theorem key_of_hex_eq_ok (hh : hex.Correct) :
    key_of_hex hex kind s = .ok k ↔ to_ascii_lowercase (trim s) = hex.encode k.val := by
  unfold key_of_hex
  cases hd : hex.decode (trim s) with
  | error e =>
    refine iff_of_false (fun h => by cases h) fun h => ?_
    rw [hh.decode_eq_ok.2 h] at hd
    cases hd
  | ok bytes =>
    rw [key_of_slice_eq_ok, ← hh.decode_eq_ok, hd, Except.ok.injEq]

/-- A text is refused because it is no hexadecimal, or because it has another length. -/
theorem key_of_hex_error (h : key_of_hex hex kind s = .error stop) :
    (∃ e, hex.decode (trim s) = .error e ∧ stop = .err (.decode kind e)) ∨
      ∃ bytes, hex.decode (trim s) = .ok bytes ∧ bytes.length ≠ KEY_LEN ∧
        stop = .err (.hex_length kind bytes.length) := by
  unfold key_of_hex at h
  cases hd : hex.decode (trim s) with
  | error e =>
    rw [hd] at h
    cases h
    exact .inl ⟨e, rfl, rfl⟩
  | ok bytes =>
    rw [hd] at h
    obtain ⟨hlen, rfl⟩ := key_of_slice_error h
    exact .inr ⟨bytes, rfl, hlen, rfl⟩

end

/-! ## Blanks -/

theorem dropWhile_none {α : Type} {p : α → Bool} {l : List α} (h : ∀ a ∈ l, p a = false) : l.dropWhile p = l := by
  cases l with
  | nil => rfl
  | cons a l => rw [List.dropWhile_cons_of_neg (by simp [h a])]

/-- Blanks around a text without blanks. -/
theorem trim_blanks {w s w' : String} (hw : ∀ c ∈ w.toList, is_whitespace c) (hs : ∀ c ∈ s.toList, is_whitespace c = false)
    (hw' : ∀ c ∈ w'.toList, is_whitespace c) : trim (w ++ s ++ w') = s := by
  have hfront : (w ++ s ++ w').toList.dropWhile is_whitespace = (s.toList ++ w'.toList).dropWhile is_whitespace := by
    rw [String.toList_append, String.toList_append, List.append_assoc, List.dropWhile_append_of_pos hw]
  rw [trim, hfront]
  cases hl : s.toList with
  | nil =>
    rw [List.nil_append, List.dropWhile_eq_nil_iff.2 hw']
    show String.ofList [] = s
    rw [← hl, String.ofList_toList]
  | cons a l =>
    rw [hl] at hs
    have hkept : (a :: l ++ w'.toList).dropWhile is_whitespace = a :: l ++ w'.toList :=
      List.dropWhile_cons_of_neg (by simp [hs a List.mem_cons_self])
    have hback : ∀ c ∈ w'.toList.reverse, is_whitespace c := fun c hc => hw' c (List.mem_reverse.1 hc)
    rw [hkept, List.reverse_append, List.dropWhile_append_of_pos hback,
      dropWhile_none fun c hc => hs c (List.mem_reverse.1 hc), List.reverse_reverse, ← hl]
    exact String.ofList_toList

section
variable {ε : Type} {hex : Hex ε} {P : Primitives} {k : Key} {kind : KeyKind} {w w' : String}

/-- What is printed is found in any text that adds only blanks to it. -/
theorem Hex.Correct.trim_encode (hh : hex.Correct) (b : Bytes) (hw : ∀ c ∈ w.toList, is_whitespace c)
    (hw' : ∀ c ∈ w'.toList, is_whitespace c) : to_ascii_lowercase (trim (w ++ hex.encode b ++ w')) = hex.encode b := by
  have hdigits := hh.forall_digit (Q := fun c => is_whitespace c = false) (by decide) b
  rw [trim_blanks hw hdigits hw', hh.lowercase_encode]

theorem key_of_hex_encode (hh : hex.Correct) (hw : ∀ c ∈ w.toList, is_whitespace c)
    (hw' : ∀ c ∈ w'.toList, is_whitespace c) : key_of_hex hex kind (w ++ hex.encode k.val ++ w') = .ok k :=
  (key_of_hex_eq_ok hh).2 (hh.trim_encode k.val hw hw')

end

/-! ## A crate that behaves so -/

namespace Concrete

/-- The error of the crate: what is no digit, as a character, and its place in the bytes. -/
inductive FromHexError where
  | InvalidHexCharacter (c : Char) (index : Nat)
  | OddLength
  deriving DecidableEq, Repr

/-- The value of a digit in either case. -/
def digit (x : UInt8) : Option Nat :=
  if 48 ≤ x.toNat ∧ x.toNat ≤ 57 then some (x.toNat - 48)
  else if 97 ≤ x.toNat ∧ x.toNat ≤ 102 then some (x.toNat - 87)
  else if 65 ≤ x.toNat ∧ x.toNat ≤ 70 then some (x.toNat - 55)
  else none

def val (x : UInt8) (idx : Nat) : Except FromHexError Nat :=
  match digit x with
  | some n => .ok n
  | none => .error (.InvalidHexCharacter (Char.ofNat x.toNat) idx)

def decode_from (idx : Nat) : Bytes → Except FromHexError Bytes
  | a :: b :: rest => do
    let high ← val a idx
    let low ← val b (idx + 1)
    let bytes ← decode_from (idx + 2) rest
    return UInt8.ofNat (16 * high + low) :: bytes
  | _ => .ok []

def hex : Hex FromHexError where
  encode b := String.ofList (b.flatMap digits)
  decode s := if (as_bytes s).length % 2 ≠ 0 then .error .OddLength else decode_from 0 (as_bytes s)

/-- The byte as an ASCII letter in lower case. -/
def lower (x : UInt8) : Char := (Char.ofNat x.toNat).toLower

theorem digit_eq_some {x : UInt8} {n : Nat} : digit x = some n ↔ n < 16 ∧ lower x = hexDigit n := by
  have hall : ∀ i < 256, ∀ n < 16, digit (UInt8.ofNat i) = some n ↔ lower (UInt8.ofNat i) = hexDigit n := by
    decide +kernel
  have hiff (hn : n < 16) := hall x.toNat x.toNat_lt n hn
  rw [UInt8.ofNat_toNat] at hiff
  have hsmall (h : digit x = some n) : n < 16 := by
    unfold digit at h
    grind
  exact ⟨fun h => ⟨hsmall h, (hiff (hsmall h)).1 h⟩, fun ⟨hn, h⟩ => (hiff hn).2 h⟩

theorem val_eq_ok {x : UInt8} {idx n : Nat} : val x idx = .ok n ↔ n < 16 ∧ lower x = hexDigit n := by
  rw [← digit_eq_some, val]
  cases digit x <;> simp

theorem decode_from_eq_ok {bs : Bytes} {idx : Nat} {b : Bytes} (heven : bs.length % 2 = 0) :
    decode_from idx bs = .ok b ↔ bs.map lower = b.flatMap digits := by
  induction idx, bs using decode_from.induct generalizing b with
  | case1 idx x y rest ih =>
    have hrest : rest.length % 2 = 0 := by
      rw [List.length_cons, List.length_cons] at heven
      omega
    simp only [decode_from, bind_eq_ok, val_eq_ok, ih hrest, pure_eq_ok, Except.ok.injEq, List.map_cons]
    constructor
    · rintro ⟨high, ⟨hh, hc⟩, low, ⟨hl, hd⟩, bytes, hrest, rfl⟩
      rw [List.flatMap_cons, digits_ofNat hh hl, hrest, hc, hd]
      rfl
    · intro h
      cases b with
      | nil => cases h
      | cons z b =>
        obtain ⟨hc, h⟩ := List.cons.inj h
        obtain ⟨hd, h⟩ := List.cons.inj h
        have hlt := z.toNat_lt
        refine ⟨_, ⟨by omega, hc⟩, _, ⟨Nat.mod_lt _ (by decide), hd⟩, b, h, ?_⟩
        rw [show 16 * (z.toNat / 16) + z.toNat % 16 = z.toNat by omega, UInt8.ofNat_toNat]
  | case2 bs idx hshort =>
    cases bs with
    | nil => cases b <;> simp [decode_from, digits]
    | cons x bs =>
      cases bs with
      | nil => cases heven
      | cons y rest => exact absurd rfl (hshort x y rest)

/-- An ASCII character is one byte, and any other starts with a byte that no digit has. -/
theorem encode_char_cases (c : Char) :
    (∃ x, String.utf8EncodeChar c = [x] ∧ lower x = c.toLower) ∨
      ∃ x bs, String.utf8EncodeChar c = x :: bs ∧ (∀ n < 16, lower x ≠ hexDigit n) ∧ ∀ n < 16, c.toLower ≠ hexDigit n := by
  have hhigh : ∀ i < 256, 128 ≤ i → ∀ n < 16, lower (UInt8.ofNat i) ≠ hexDigit n := by decide +kernel
  by_cases hc : c.val.toNat ≤ 127
  · left
    refine ⟨UInt8.ofNat c.val.toNat, if_pos hc, ?_⟩
    have hx : (UInt8.ofNat c.val.toNat).toNat = c.toNat := UInt8.toNat_ofNat_of_lt' (by show _ < 256; omega)
    rw [lower, hx, Char.ofNat_toNat]
  · right
    have hlower : ∀ n < 16, c.toLower ≠ hexDigit n := by
      intro n hn h
      have hsmall : ∀ n < 16, (hexDigit n).toNat < 128 := by decide
      have hstays : c.toLower = c := by
        unfold Char.toLower
        rw [dif_neg]
        rintro ⟨-, hle⟩
        have hz : c.val.toNat ≤ 90 := hle
        omega
      have hlt := hsmall n hn
      rw [← h, hstays] at hlt
      exact hc (Nat.le_of_lt_succ hlt)
    have hfirst {i : Nat} (h : 128 ≤ i) (h' : i < 256) : ∀ n < 16, lower (UInt8.ofNat i) ≠ hexDigit n := hhigh i h' h
    unfold String.utf8EncodeChar
    simp only [if_neg hc]
    split
    · exact ⟨_, _, rfl, hfirst (by omega) (by omega), hlower⟩
    · split <;> exact ⟨_, _, rfl, hfirst (by omega) (by omega), hlower⟩

/-- Read as bytes or as characters, the digits are the same. -/
theorem lower_bytes {cs ds : List Char} (hds : ∀ d ∈ ds, ∃ n < 16, d = hexDigit n) :
    (cs.flatMap String.utf8EncodeChar).map lower = ds ↔ cs.map Char.toLower = ds := by
  induction cs generalizing ds with
  | nil => rfl
  | cons c cs ih =>
    rw [List.flatMap_cons, List.map_append, List.map_cons]
    rcases encode_char_cases c with ⟨x, he, hx⟩ | ⟨x, bs, he, hx, hc⟩
    · cases ds with
      | nil => simp [he]
      | cons d ds =>
        rw [he, List.map_singleton, List.singleton_append, List.cons.injEq, List.cons.injEq, hx,
          ih fun e hd => hds e (List.mem_cons_of_mem d hd)]
    · refine iff_of_false ?_ ?_
      · rintro rfl
        rw [he] at hds
        obtain ⟨n, hn, h⟩ := hds (lower x) (by simp)
        exact hx n hn h
      · rintro rfl
        obtain ⟨n, hn, h⟩ := hds c.toLower List.mem_cons_self
        exact hc n hn h

theorem hex_decode_eq_ok {s : String} {b : Bytes} :
    hex.decode s = .ok b ↔ to_ascii_lowercase s = String.ofList (b.flatMap digits) := by
  have hbytes : as_bytes s = s.toList.flatMap String.utf8EncodeChar := by
    rw [as_bytes, ← String.utf8Encode_toList, List.utf8Encode, List.data_toByteArray]
  have hiff : (as_bytes s).map lower = b.flatMap digits ↔ s.toList.map Char.toLower = b.flatMap digits := by
    rw [hbytes]
    exact lower_bytes fun d hd => of_mem_digits hd
  rw [to_ascii_lowercase, String.ofList_inj, ← hiff]
  show (if (as_bytes s).length % 2 ≠ 0 then _ else _) = _ ↔ _
  split
  · rename_i hodd
    refine iff_of_false (fun h => by cases h) fun h => hodd ?_
    have hlen := congrArg List.length h
    rw [List.length_map, List.length_flatMap] at hlen
    simp [hlen, digits]
  · rename_i heven
    exact decode_from_eq_ok (not_not.1 heven)

theorem hex_correct : hex.Correct where
  encode_eq _ := rfl
  decode_encode b := by
    have hlower : (b.flatMap digits).map Char.toLower = b.flatMap digits := by
      refine (List.map_congr_left fun c hc => ?_).trans (List.map_id _)
      obtain ⟨n, hn, rfl⟩ := of_mem_digits hc
      exact (by decide : ∀ n < 16, (hexDigit n).toLower = hexDigit n) n hn
    exact hex_decode_eq_ok.2 (by rw [hex, to_ascii_lowercase, String.toList_ofList, hlower])
  decode_case s t b hst hd := hex_decode_eq_ok.2 (hst ▸ hex_decode_eq_ok.1 hd)
  decode_digits s b hd := by
    have hs : s.toList.map Char.toLower = b.flatMap digits := String.ofList_inj.1 (hex_decode_eq_ok.1 hd)
    constructor
    · have hlen := congrArg List.length hs
      rw [List.length_map, List.length_flatMap] at hlen
      simp [hlen, digits]
    · intro c hc
      exact of_mem_digits (hs ▸ List.mem_map_of_mem hc)

end Concrete

/-! ## Key texts -/

namespace KeyPair

variable {ε : Type} {hex : Hex ε} {P : Primitives} {keys : KeyPair} {s : String} {stop : Stop (KeyError ε)}

theorem from_private_hex_eq_ok (hh : hex.Correct) : from_private_hex hex P s = .ok keys ↔
    keys.public_key = P.x25519_public keys.private_key ∧ to_ascii_lowercase (trim s) = keys.private_key_hex hex := by
  unfold from_private_hex
  simp only [bind_eq_ok, key_of_hex_eq_ok hh, pure_eq_ok, Except.ok.injEq]
  constructor
  · rintro ⟨k, hk, rfl⟩
    exact ⟨rfl, hk⟩
  · rintro ⟨hpub, hs⟩
    exact ⟨keys.private_key, hs, by rw [from_private_bytes, ← hpub]⟩

theorem from_private_slice_eq_ok {slice : Bytes} : (from_private_slice P slice : Except (Stop (KeyError ε)) _) = .ok keys ↔
    keys.public_key = P.x25519_public keys.private_key ∧ slice = keys.private_key.val := by
  unfold from_private_slice
  simp only [bind_eq_ok, key_of_slice_eq_ok, pure_eq_ok, Except.ok.injEq]
  constructor
  · rintro ⟨k, hk, rfl⟩
    exact ⟨rfl, hk⟩
  · rintro ⟨hpub, hs⟩
    exact ⟨keys.private_key, hs, by rw [from_private_bytes, ← hpub]⟩

theorem from_private_hex_error (h : from_private_hex hex P s = .error stop) :
    key_of_hex hex .private_key s = .error stop := by
  rcases bind_eq_error.1 h with h | ⟨k, -, h⟩
  · exact h
  · cases h

end KeyPair

namespace SessionKeys

variable {ε : Type} {keys : SessionKeys} {client_key server_key : Bytes} {stop : Stop (KeyError ε)}

theorem from_slices_eq_ok : (from_slices client_key server_key : Except (Stop (KeyError ε)) _) = .ok keys ↔
    client_key = keys.client_write_key.val ∧ server_key = keys.server_write_key.val := by
  unfold from_slices
  simp only [bind_eq_ok, key_of_slice_eq_ok, pure_eq_ok, Except.ok.injEq]
  constructor
  · rintro ⟨kc, hc, ks, hs, rfl⟩
    exact ⟨hc, hs⟩
  · intro h
    exact ⟨_, h.1, _, h.2, rfl⟩

/-- The client's key is looked at first. -/
theorem from_slices_error (h : from_slices client_key server_key = .error stop) :
    (client_key.length ≠ KEY_LEN ∧ stop = .err (.client_length client_key.length)) ∨
      (client_key.length = KEY_LEN ∧ server_key.length ≠ KEY_LEN ∧ stop = .err (.server_length server_key.length)) := by
  rcases bind_eq_error.1 h with h | ⟨kc, hc, h⟩
  · exact .inl (key_of_slice_error h)
  · rcases bind_eq_error.1 h with h | ⟨ks, -, h⟩
    · exact .inr ⟨key_of_slice_eq_ok.1 hc ▸ kc.property, key_of_slice_error h⟩
    · cases h

end SessionKeys

theorem key_of_hex_refuses {ε : Type} {hex : Hex ε} {kind : KeyKind} {s : String} {stop : Stop (KeyError ε)}
    (h : key_of_hex hex kind s = .error stop) : ∃ e, stop = .err e := by
  rcases key_of_hex_error h with ⟨e, -, rfl⟩ | ⟨bytes, -, -, rfl⟩ <;> exact ⟨_, rfl⟩

/-- A text is accepted as a public or a private key exactly if, without the
blanks around it and in lower case, it is what is printed for 32 bytes: these
are the key. Any other text is an error, and none panics. What is printed is
read back, whatever blanks it is pasted with. -/
theorem key_texts {ε : Type} {hex : Hex ε} (hh : hex.Correct) (P : Primitives) (s : String) :
    (∀ k, KeyPair.parse_public_key_hex hex s = .ok k ↔ to_ascii_lowercase (trim s) = hex.encode k.val) ∧
    (∀ keys, KeyPair.from_private_hex hex P s = .ok keys ↔
      keys.public_key = P.x25519_public keys.private_key ∧
        to_ascii_lowercase (trim s) = keys.private_key_hex hex) ∧
    (∀ stop, KeyPair.parse_public_key_hex hex s = .error stop ∨ KeyPair.from_private_hex hex P s = .error stop →
      ∃ e, stop = .err e) ∧
    ∀ secret w w', (∀ c ∈ String.toList w, is_whitespace c) → (∀ c ∈ String.toList w', is_whitespace c) →
      KeyPair.parse_public_key_hex hex (w ++ (KeyPair.generate P secret).public_key_hex hex ++ w') =
          .ok (KeyPair.generate P secret).public_key ∧
        KeyPair.from_private_hex hex P (w ++ (KeyPair.generate P secret).private_key_hex hex ++ w') =
          .ok (KeyPair.generate P secret) := by
  refine ⟨fun k => key_of_hex_eq_ok hh, fun keys => KeyPair.from_private_hex_eq_ok hh, ?_, ?_⟩
  · rintro stop (h | h)
    · exact key_of_hex_refuses h
    · exact key_of_hex_refuses (KeyPair.from_private_hex_error h)
  · intro secret w w' hw hw'
    refine ⟨key_of_hex_encode hh hw hw', ?_⟩
    rw [KeyPair.from_private_hex, KeyPair.private_key_hex, key_of_hex_encode hh hw hw']
    rfl

/-- A printed key between a blank and a line end. -/
theorem key_texts_pasted :
    KeyPair.parse_public_key_hex Concrete.hex
        (" " ++ (KeyPair.generate (Concrete.primitives true) (Concrete.key 11)).public_key_hex Concrete.hex ++ "\n") =
      .ok (KeyPair.generate (Concrete.primitives true) (Concrete.key 11)).public_key :=
  ((key_texts Concrete.hex_correct (Concrete.primitives true) "").2.2.2 (Concrete.key 11) " " "\n"
    (List.all_eq_true.1 rfl) (List.all_eq_true.1 rfl)).1

/-! ## The commands -/

/-- The server as it is set up: its counter, and what it hands to its sessions. -/
structure ServerSetup extends TunnelServer where
  keypair : KeyPair
  bind_addr : String
  prologue : Bytes

namespace ServerSetup

def new (keypair : KeyPair) (bind_addr : String) : ServerSetup :=
  { TunnelServer.new with keypair, bind_addr, prologue := PROTOCOL_NAME }

def with_max_connections (self : ServerSetup) (max : UInt64) : ServerSetup :=
  { self with toTunnelServer := self.toTunnelServer.with_max_connections max }

def with_prologue (self : ServerSetup) (prologue : Bytes) : ServerSetup := { self with prologue }

def with_prologue_str (self : ServerSetup) (prologue : String) : ServerSetup := self.with_prologue (as_bytes prologue)

def from_hex {ε : Type} (hex : Hex ε) (P : Primitives) (private_key_hex bind_addr : String) :
    Except (Stop (KeyError ε)) ServerSetup := do
  let keypair ← KeyPair.from_private_hex hex P private_key_hex
  return new keypair bind_addr

theorem from_hex_eq_ok {ε : Type} {hex : Hex ε} {P : Primitives} (hh : hex.Correct) {text addr : String}
    {server : ServerSetup} : from_hex hex P text addr = .ok server ↔ server = new server.keypair addr ∧
      server.keypair.public_key = P.x25519_public server.keypair.private_key ∧
      to_ascii_lowercase (trim text) = server.keypair.private_key_hex hex := by
  unfold from_hex
  simp only [bind_eq_ok, KeyPair.from_private_hex_eq_ok hh, pure_eq_ok, Except.ok.injEq]
  constructor
  · rintro ⟨keypair, hk, rfl⟩
    exact ⟨rfl, hk⟩
  · intro h
    exact ⟨_, h.2, h.1.symm⟩

end ServerSetup

/-- The client as it is set up; the timeout is in seconds. -/
structure ClientSetup extends TunnelClient where
  timeout : Option UInt64

namespace ClientSetup

def new (server_pubkey : Key) (target_addr : String) : ClientSetup :=
  { TunnelClient.new server_pubkey target_addr with timeout := none }

def with_timeout (self : ClientSetup) (timeout : UInt64) : ClientSetup := { self with timeout := some timeout }

def with_prologue (self : ClientSetup) (prologue : Bytes) : ClientSetup :=
  { self with toTunnelClient := self.toTunnelClient.with_prologue prologue }

def with_prologue_str (self : ClientSetup) (prologue : String) : ClientSetup := self.with_prologue (as_bytes prologue)

def from_hex {ε : Type} (hex : Hex ε) (server_pubkey_hex target_addr : String) :
    Except (Stop (KeyError ε)) ClientSetup := do
  let key ← KeyPair.parse_public_key_hex hex server_pubkey_hex
  return new key target_addr

theorem from_hex_eq_ok {ε : Type} {hex : Hex ε} (hh : hex.Correct) {text addr : String} {client : ClientSetup} :
    from_hex hex text addr = .ok client ↔ client = new client.server_pubkey addr ∧
      to_ascii_lowercase (trim text) = hex.encode client.server_pubkey.val := by
  unfold from_hex KeyPair.parse_public_key_hex
  simp only [bind_eq_ok, key_of_hex_eq_ok hh, pure_eq_ok, Except.ok.injEq]
  constructor
  · rintro ⟨k, hk, rfl⟩
    exact ⟨rfl, hk⟩
  · intro h
    exact ⟨_, h.2, h.1.symm⟩

end ClientSetup

/-- What is typed after `server`. -/
structure ServerArgs where
  bind : String
  private_key : Option String
  prologue : Option String
  max_connections : Option UInt64

/-- What is typed after `client`. -/
structure ClientArgs where
  connect : String
  server_pubkey : String
  message : String
  interactive : Bool
  prologue : Option String
  timeout : Option UInt64

namespace Commands

variable {ε : Type} (hex : Hex ε) (P : Primitives)

/-- `.context(..)?`. -/
def context {α : Type} (text : String) (x : Except (Stop (KeyError ε)) α) : Except (Stop (String × KeyError ε)) α :=
  x.mapError fun | .err e => .err (text, e) | .panic p => .panic p

/-- The key pair of the server: the one it is given, or one generated from `secret`. -/
def server_keypair (secret : Key) : Option String → Except (Stop (String × KeyError ε)) KeyPair
  | some hex_str => context "Kunne ikke laste privat nokkel" (KeyPair.from_private_hex hex P hex_str)
  | none => return KeyPair.generate P secret

/-- The server that is run. -/
def server (secret : Key) (args : ServerArgs) : Except (Stop (String × KeyError ε)) ServerSetup := do
  let keypair ← server_keypair hex P secret args.private_key
  let server := ServerSetup.new keypair args.bind
  let server := match args.prologue with
    | some p => server.with_prologue_str p
    | none => server
  return match args.max_connections with
    | some max => server.with_max_connections max
    | none => server

/-- The client that is used. -/
def client (args : ClientArgs) : Except (Stop (String × KeyError ε)) ClientSetup := do
  let server_pubkey_arr ← context "Kunne ikke laste server offentlig nokkel"
    (KeyPair.parse_public_key_hex hex args.server_pubkey)
  let client := ClientSetup.new server_pubkey_arr args.connect
  let client := match args.prologue with
    | some p => client.with_prologue_str p
    | none => client
  return match args.timeout with
    | some secs => client.with_timeout secs
    | none => client

section
variable {hex P} {secret : Key} {server_args : ServerArgs} {client_args : ClientArgs} {keypair : KeyPair} {k : Key}

/-- An idle server whose limit is not 0 lets a connection in. -/
theorem admits {max_connections : Option UInt64} (h : max_connections ≠ some 0) :
    ∃ r, (Running.start ⟨max_connections, 0⟩).exec [.accept true, .load, .compare, .fetch_add, .spawn] = some r ∧
      r.sessions = [.handling] := by
  cases max_connections with
  | none => exact ⟨_, rfl, rfl⟩
  | some max =>
    have hpos : ¬(0 : UInt64) ≥ max := by
      intro hle
      exact h (congrArg some (UInt64.le_zero_iff.1 hle))
    refine ⟨⟨⟨some max, 1⟩, .listening, [.handling]⟩, ?_, rfl⟩
    simp [Running.exec, Running.step, Running.start, hpos]

end

end Commands

namespace Concrete

end Concrete

end NoiseTunnel
