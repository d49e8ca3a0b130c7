import NoiseTunnel.Error
/-!
# The replay filter

`ReplayFilter`: a 128-bit bitmap that slides behind the highest sequence
number. Bit `d` stands for the number `d` below it.
-/
open Rust

namespace NoiseTunnel

/-- Packets the standard window covers. -/
def REPLAY_WINDOW_SIZE : UInt64 := 128

/-- The filter; `with_window_size`, its only constructor, keeps the size in range. -/
structure ReplayFilter where
  window_size : UInt64
  bitmap : BitVec 128
  last_seq : UInt64
  initialized : Bool
  total_seen : UInt64
  total_accepted : UInt64
  total_rejected : UInt64
  window_pos : 1 ≤ window_size.toNat
  window_le : window_size.toNat ≤ 128
  deriving DecidableEq

namespace ReplayFilter

/-- `u64::clamp`. -/
def clamp (x lo hi : UInt64) : UInt64 := if x < lo then lo else if x > hi then hi else x

theorem clamp_mem (x : UInt64) : 1 ≤ (clamp x 1 128).toNat ∧ (clamp x 1 128).toNat ≤ 128 := by
  unfold clamp
  split_ifs with hlo hhi
  · decide
  · decide
  · rw [UInt64.lt_iff_toNat_lt] at hlo
    rw [gt_iff_lt, UInt64.lt_iff_toNat_lt] at hhi
    exact ⟨Nat.not_lt.1 hlo, Nat.not_lt.1 hhi⟩

def with_window_size (window_size : UInt64) : ReplayFilter where
  window_size := clamp window_size 1 128
  bitmap := 0
  last_seq := 0
  initialized := false
  total_seen := 0
  total_accepted := 0
  total_rejected := 0
  window_pos := (clamp_mem window_size).1
  window_le := (clamp_mem window_size).2

def new : ReplayFilter := with_window_size REPLAY_WINDOW_SIZE

/-- Record `seq` unless it is too old or was seen. The counters also change
where it is refused; `overflow_checks` is the build's. -/
def validate_and_record (overflow_checks : Bool) (self : ReplayFilter) (seq : UInt64) :
    Except Panic (ReplayFilter × Except Error Unit) := do
  let self := { self with total_seen := ← add overflow_checks self.total_seen 1 }
  if !self.initialized then
    let self := { self with last_seq := seq, bitmap := 1, initialized := true }
    return ({ self with total_accepted := ← add overflow_checks self.total_accepted 1 }, .ok ())
  if seq > self.last_seq then
    let diff ← sub seq self.last_seq
    let bitmap ← if diff < self.window_size then (· ||| 1) <$> shl self.bitmap diff else pure 1
    let self := { self with bitmap := bitmap, last_seq := seq }
    return ({ self with total_accepted := ← add overflow_checks self.total_accepted 1 }, .ok ())
  let diff ← sub self.last_seq seq
  if diff ≥ self.window_size then
    return ({ self with total_rejected := ← add overflow_checks self.total_rejected 1 },
      .error (.replay_too_old seq self.window_size))
  let bit ← shl 1 diff
  if self.bitmap &&& bit ≠ 0 then
    return ({ self with total_rejected := ← add overflow_checks self.total_rejected 1 }, .error (.replay_seen seq))
  let self := { self with bitmap := self.bitmap ||| bit }
  return ({ self with total_accepted := ← add overflow_checks self.total_accepted 1 }, .ok ())

def highest_seen (self : ReplayFilter) : UInt64 := self.last_seq

/-- Was `seq` recorded, or has the window passed it? -/
def has_seen (self : ReplayFilter) (seq : UInt64) : Except Panic Bool := do
  if !self.initialized then
    return false
  if seq > self.last_seq then
    return false
  let diff ← sub self.last_seq seq
  if diff ≥ self.window_size then
    return true
  let bit ← shl 1 diff
  return self.bitmap &&& bit ≠ 0

/-- The lowest number the window still reaches. -/
def min_valid_seq (self : ReplayFilter) : UInt64 :=
  if !self.initialized then 0 else saturating_sub self.last_seq (saturating_sub self.window_size 1)

def reset (self : ReplayFilter) : ReplayFilter :=
  { self with
    bitmap := 0
    last_seq := 0
    initialized := false
    total_seen := 0
    total_accepted := 0
    total_rejected := 0 }

end ReplayFilter

end NoiseTunnel
