import Mathlib.Tactic.Common
import Mathlib.Algebra.Group.Nat.Defs
import Mathlib.Data.List.Basic
/-!
# Rust values

Byte strings, fixed arrays, machine words as bytes, and the operations that
panic out of range. An operation that can fail returns `Except (Stop ε)`: it
stops with an `Err`, which `?` hands to the caller, or with a panic.
-/

namespace Rust

abbrev Bytes := List UInt8

/-- `[u8; n]`. -/
abbrev U8Array (n : Nat) := { b : Bytes // b.length = n }

inductive Panic where
  | index (i len : Nat)
  | range (i j len : Nat)
  | copyLength (dst src : Nat)
  | addOverflow
  | subOverflow
  | shlOverflow
  deriving DecidableEq, Repr

/-- How a call ends without a value. -/
inductive Stop (ε : Type) where
  | err (e : ε)
  | panic (p : Panic)
  deriving DecidableEq, Repr

variable {ε α β : Type}

instance : MonadLift (Except Panic) (Except (Stop ε)) := ⟨Except.mapError .panic⟩

/-! ## Results -/

theorem bind_eq_ok {x : Except ε α} {f : α → Except ε β} {b : β} :
    (x >>= f) = .ok b ↔ ∃ a, x = .ok a ∧ f a = .ok b := by
  cases x <;> simp [bind, Except.bind]

theorem bind_eq_error {x : Except ε α} {f : α → Except ε β} {e : ε} :
    (x >>= f) = .error e ↔ x = .error e ∨ ∃ a, x = .ok a ∧ f a = .error e := by
  cases x <;> simp [bind, Except.bind]

@[simp] theorem ok_bind (a : α) (f : α → Except ε β) : (Except.ok a >>= f) = f a := rfl

@[simp] theorem error_bind (e : ε) (f : α → Except ε β) : (Except.error e >>= f) = .error e := rfl

theorem throw_eq_error (e : ε) : (throw e : Except ε α) = .error e := rfl

theorem pure_eq_ok (a : α) : (pure a : Except ε α) = .ok a := rfl

/-- Code goes on past a guard only if it does not fire. -/
theorem guard_eq_ok {c : Prop} [Decidable c] {e : ε} {x : Except ε α} {a : α} :
    (if c then .error e else x) = .ok a ↔ ¬c ∧ x = .ok a := by
  split <;> simp [*]

/-! ## Slices -/

/-- `b[i]`. -/
def index (b : Bytes) (i : Nat) : Except (Stop ε) UInt8 :=
  match b[i]? with
  | some x => .ok x
  | none => .error (.panic (.index i b.length))

/-- `b[i..j]`. -/
def slice (b : Bytes) (i j : Nat) : Except (Stop ε) Bytes :=
  if i ≤ j ∧ j ≤ b.length then .ok ((b.take j).drop i) else .error (.panic (.range i j b.length))

/-- `b[i..]`. -/
def slice_from (b : Bytes) (i : Nat) : Except (Stop ε) Bytes :=
  slice b i b.length

/-- `b[..j]`. -/
def slice_to (b : Bytes) (j : Nat) : Except (Stop ε) Bytes :=
  slice b 0 j

/-- `copy_from_slice` into a `[u8; n]`. -/
def copy_from_slice (n : Nat) (b : Bytes) : Except (Stop ε) (U8Array n) :=
  if h : b.length = n then .ok ⟨b, h⟩ else .error (.panic (.copyLength n b.length))

/-- `b.try_into()?` to a `[u8; n]`, with the error `e` of the conversion. -/
def try_into (n : Nat) (e : ε) (b : Bytes) : Except (Stop ε) (U8Array n) :=
  if h : b.length = n then .ok ⟨b, h⟩ else .error (.err e)

theorem index_eq_ok {b : Bytes} {i : Nat} {x : UInt8} :
    (index b i : Except (Stop ε) UInt8) = .ok x ↔ b[i]? = some x := by
  unfold index
  cases b[i]? <;> simp

theorem slice_eq_ok {b c : Bytes} {i j : Nat} :
    (slice b i j : Except (Stop ε) Bytes) = .ok c ↔ (i ≤ j ∧ j ≤ b.length) ∧ (b.take j).drop i = c := by
  unfold slice
  split
  · simp [*]
  · simp only [reduceCtorEq, false_iff]
    exact fun h => absurd h.1 ‹_›

theorem slice_from_eq_ok {b c : Bytes} {i : Nat} :
    (slice_from b i : Except (Stop ε) Bytes) = .ok c ↔ i ≤ b.length ∧ b.drop i = c := by
  simp [slice_from, slice_eq_ok]

theorem slice_to_eq_ok {b c : Bytes} {j : Nat} :
    (slice_to b j : Except (Stop ε) Bytes) = .ok c ↔ j ≤ b.length ∧ b.take j = c := by
  simp [slice_to, slice_eq_ok]

theorem copy_from_slice_eq_ok {n : Nat} {b : Bytes} {a : U8Array n} :
    (copy_from_slice n b : Except (Stop ε) (U8Array n)) = .ok a ↔ b = a.val := by
  unfold copy_from_slice
  split
  · simp [Subtype.ext_iff]
  · rename_i h
    simp only [reduceCtorEq, false_iff]
    rintro rfl
    exact h a.property

theorem try_into_eq_ok {n : Nat} {e : ε} {b : Bytes} {a : U8Array n} :
    try_into n e b = .ok a ↔ b = a.val := by
  unfold try_into
  split
  · simp [Subtype.ext_iff]
  · rename_i h
    simp only [reduceCtorEq, false_iff]
    rintro rfl
    exact h a.property

/-! ## Calls that do not panic -/

def Safe (x : Except (Stop ε) α) : Prop := ∀ p, x ≠ .error (.panic p)

/-- Where `x` stops, `good` holds of how. -/
def Stops (good : Stop ε → Prop) (x : Except (Stop ε) α) : Prop := ∀ e, x = .error e → good e

section
variable {good : Stop ε → Prop}

theorem Stops.safe {x : Except (Stop ε) α} (h : Stops good x) (hgood : ∀ p, ¬good (.panic p)) : Safe x :=
  fun p hp => hgood p (h _ hp)

theorem stops_ok (a : α) : Stops good (.ok a : Except (Stop ε) α) := by
  intro e h
  cases h

theorem stops_error {e : Stop ε} (h : good e) : Stops good (.error e : Except (Stop ε) α) := by
  intro e' h'
  cases h'
  exact h

theorem Stops.bind {x : Except (Stop ε) α} {f : α → Except (Stop ε) β} (h : Stops good x)
    (hf : ∀ a, x = .ok a → Stops good (f a)) : Stops good (x >>= f) := by
  intro e he
  rcases bind_eq_error.1 he with hx | ⟨a, hx, ha⟩
  · exact h e hx
  · exact hf a hx e ha

theorem stops_index {b : Bytes} {i : Nat} (h : i < b.length) : Stops good (index b i) := by
  rw [index, List.getElem?_eq_getElem h]
  exact stops_ok _

theorem stops_slice {b : Bytes} {i j : Nat} (h : i ≤ j ∧ j ≤ b.length) : Stops good (slice b i j) := by
  rw [slice, if_pos h]
  exact stops_ok _

theorem stops_slice_from {b : Bytes} {i : Nat} (h : i ≤ b.length) : Stops good (slice_from b i) :=
  stops_slice ⟨h, Nat.le_refl _⟩

theorem stops_slice_to {b : Bytes} {j : Nat} (h : j ≤ b.length) : Stops good (slice_to b j) :=
  stops_slice ⟨Nat.zero_le j, h⟩

theorem stops_copy_from_slice {n : Nat} {b : Bytes} (h : b.length = n) : Stops good (copy_from_slice n b) := by
  rw [copy_from_slice, dif_pos h]
  exact stops_ok _

theorem stops_try_into {n : Nat} {e : ε} {b : Bytes} (h : b.length = n) : Stops good (try_into n e b) := by
  rw [try_into, dif_pos h]
  exact stops_ok _

end

/-! ## Words -/

/-- The low `w` bytes of `n`, least significant first. -/
def le : Nat → Nat → Bytes
  | 0, _ => []
  | w + 1, n => UInt8.ofNat n :: le w (n / 256)

def ofLE : Bytes → Nat
  | [] => 0
  | x :: b => x.toNat + 256 * ofLE b

@[simp] theorem le_length (w n : Nat) : (le w n).length = w := by
  induction w generalizing n with
  | zero => rfl
  | succ w ih => simp [le, ih]

theorem ofLE_le (w n : Nat) (h : n < 256 ^ w) : ofLE (le w n) = n := by
  induction w generalizing n with
  | zero => simp at h; simp [le, ofLE, h]
  | succ w ih =>
    rw [Nat.pow_succ] at h
    rw [le, ofLE, ih _ (by omega), UInt8.toNat_ofNat']
    omega

theorem ofLE_lt (b : Bytes) : ofLE b < 256 ^ b.length := by
  induction b with
  | nil => simp [ofLE]
  | cons x b ih =>
    have hx := x.toNat_lt
    rw [ofLE, List.length_cons, Nat.pow_succ]
    omega

theorem le_ofLE (b : Bytes) : le b.length (ofLE b) = b := by
  induction b with
  | nil => rfl
  | cons x b ih =>
    have hx := x.toNat_lt
    rw [List.length_cons, le, ofLE, show (x.toNat + 256 * ofLE b) / 256 = ofLE b by omega, ih]
    congr 1
    apply UInt8.toNat_inj.1
    rw [UInt8.toNat_ofNat']
    omega

def u32_to_be_bytes (x : UInt32) : Bytes := (le 4 x.toNat).reverse

def u32_from_be_bytes (b : U8Array 4) : UInt32 := UInt32.ofNat (ofLE b.val.reverse)

def u64_to_be_bytes (x : UInt64) : Bytes := (le 8 x.toNat).reverse

def u64_from_be_bytes (b : U8Array 8) : UInt64 := UInt64.ofNat (ofLE b.val.reverse)

def u64_to_le_bytes (x : UInt64) : Bytes := le 8 x.toNat

@[simp] theorem u32_to_be_bytes_length (x : UInt32) : (u32_to_be_bytes x).length = 4 := by
  simp [u32_to_be_bytes]

@[simp] theorem u64_to_be_bytes_length (x : UInt64) : (u64_to_be_bytes x).length = 8 := by
  simp [u64_to_be_bytes]

@[simp] theorem u64_to_le_bytes_length (x : UInt64) : (u64_to_le_bytes x).length = 8 := by
  simp [u64_to_le_bytes]

theorem u32_from_to (x : UInt32) (h : (u32_to_be_bytes x).length = 4) :
    u32_from_be_bytes ⟨u32_to_be_bytes x, h⟩ = x := by
  simp only [u32_from_be_bytes, u32_to_be_bytes, List.reverse_reverse]
  rw [ofLE_le _ _ (by simpa using x.toNat_lt)]
  simp

theorem u32_to_from (b : U8Array 4) : u32_to_be_bytes (u32_from_be_bytes b) = b.val := by
  have hl : b.val.reverse.length = 4 := by simp [b.property]
  have hlt := ofLE_lt b.val.reverse
  have he := le_ofLE b.val.reverse
  rw [hl] at hlt he
  rw [u32_to_be_bytes, u32_from_be_bytes, UInt32.toNat_ofNat_of_lt' (by simpa using hlt), he, List.reverse_reverse]

theorem u64_from_to (x : UInt64) (h : (u64_to_be_bytes x).length = 8) :
    u64_from_be_bytes ⟨u64_to_be_bytes x, h⟩ = x := by
  simp only [u64_from_be_bytes, u64_to_be_bytes, List.reverse_reverse]
  rw [ofLE_le _ _ (by simpa using x.toNat_lt)]
  simp

theorem u64_to_from (b : U8Array 8) : u64_to_be_bytes (u64_from_be_bytes b) = b.val := by
  have hl : b.val.reverse.length = 8 := by simp [b.property]
  have hlt := ofLE_lt b.val.reverse
  have he := le_ofLE b.val.reverse
  rw [hl] at hlt he
  rw [u64_to_be_bytes, u64_from_be_bytes, UInt64.toNat_ofNat_of_lt' (by simpa using hlt), he, List.reverse_reverse]

theorem u64_to_le_bytes_inj {x y : UInt64} (h : u64_to_le_bytes x = u64_to_le_bytes y) : x = y := by
  have e := congrArg ofLE h
  rw [u64_to_le_bytes, u64_to_le_bytes, ofLE_le _ _ (by simpa using x.toNat_lt),
    ofLE_le _ _ (by simpa using y.toNat_lt)] at e
  exact UInt64.toNat_inj.1 e

/-! ## Arithmetic -/

def checked_add (x y : UInt64) : Option UInt64 :=
  if x.toNat + y.toNat < 2 ^ 64 then some (x + y) else none

/-- `x + y`: a build with overflow checks panics where the other wraps. -/
def add (overflow_checks : Bool) (x y : UInt64) : Except Panic UInt64 :=
  if x.toNat + y.toNat < 2 ^ 64 ∨ overflow_checks = false then .ok (x + y) else .error .addOverflow

/-- `x - y`, of operands that never underflow. -/
def sub (x y : UInt64) : Except Panic UInt64 :=
  if y ≤ x then .ok (x - y) else .error .subOverflow

/-- `x.saturating_sub(y)`. -/
def saturating_sub (x y : UInt64) : UInt64 := if y ≤ x then x - y else 0

/-- `x << n`, by less than the width. -/
def shl (x : BitVec 128) (n : UInt64) : Except Panic (BitVec 128) :=
  if n < 128 then .ok (x <<< n.toNat) else .error .shlOverflow

theorem checked_add_one {x y : UInt64} (h : checked_add x 1 = some y) : y.toNat = x.toNat + 1 := by
  unfold checked_add at h
  split at h
  · rename_i hlt
    cases h
    rw [UInt64.toNat_add, Nat.mod_eq_of_lt hlt]
    rfl
  · cases h

theorem checked_add_one_of_lt {x : UInt64} (h : x.toNat + 1 < 2 ^ 64) : checked_add x 1 = some (x + 1) := by
  rw [checked_add, if_pos (by simpa using h)]

theorem toNat_add_one {x : UInt64} (h : x.toNat + 1 < 2 ^ 64) : (x + 1).toNat = x.toNat + 1 := by
  rw [UInt64.toNat_add, UInt64.toNat_one, Nat.mod_eq_of_lt h]

theorem add_one {c : Bool} {x : UInt64} (h : x.toNat + 1 < 2 ^ 64) : add c x 1 = .ok (x + 1) := by
  rw [add, if_pos (.inl (by simpa using h))]

theorem add_one_mod {c : Bool} {x y : UInt64} (h : add c x 1 = .ok y) : y.toNat = (x.toNat + 1) % 2 ^ 64 := by
  unfold add at h
  split at h
  · cases h
    rw [UInt64.toNat_add, UInt64.toNat_one]
  · cases h

theorem add_eq_ok {c : Bool} {x y z : UInt64} :
    add c x y = .ok z ↔ (x.toNat + y.toNat < 2 ^ 64 ∨ c = false) ∧ x + y = z := by
  unfold add
  split
  · exact ⟨fun e => ⟨‹_›, Except.ok.inj e⟩, fun h => congrArg Except.ok h.2⟩
  · exact iff_of_false (by simp) (fun h => absurd h.1 ‹_›)

/-- A sum that comes out at all is the machine's. -/
theorem add_bind {c : Bool} {x y : UInt64} {f : UInt64 → Except Panic β} {z : Except Panic β} (h : f (x + y) = z) :
    (add c x y >>= f) = (add c x y >>= fun _ => z) := by
  unfold add
  split
  · exact h
  · rfl

theorem sub_of_le {x y : UInt64} (h : y.toNat ≤ x.toNat) :
    ∃ d, sub x y = .ok d ∧ d.toNat = x.toNat - y.toNat := by
  have hle : y ≤ x := UInt64.le_iff_toNat_le.2 h
  exact ⟨x - y, by rw [sub, if_pos hle], UInt64.toNat_sub_of_le _ _ hle⟩

theorem toNat_saturating_sub (x y : UInt64) : (saturating_sub x y).toNat = x.toNat - y.toNat := by
  unfold saturating_sub
  split
  · exact UInt64.toNat_sub_of_le _ _ ‹_›
  · rename_i h
    rw [UInt64.le_iff_toNat_le] at h
    rw [UInt64.toNat_zero]
    omega

theorem shl_of_lt {x : BitVec 128} {n : UInt64} (h : n.toNat < 128) : shl x n = .ok (x <<< n.toNat) := by
  rw [shl, if_pos (UInt64.lt_iff_toNat_lt.2 (by simpa using h))]

end Rust
