import Mathlib.Tactic.Common
/-!
# Session statistics

`SessionMetrics` without its two clocks. A counter that passes 2^64 wraps, as
in a release build; a build with overflow checks panics there. What is proved
about panics or exact counts therefore bounds the bytes of a session, so that
no counter gets so far.
-/

namespace NoiseTunnel

structure SessionMetrics where
  bytes_sent : UInt64
  bytes_received : UInt64
  frames_sent : UInt64
  frames_received : UInt64
  deriving DecidableEq

namespace SessionMetrics

def new : SessionMetrics := ⟨0, 0, 0, 0⟩

def record_tx (self : SessionMetrics) (bytes : Nat) : SessionMetrics :=
  { self with bytes_sent := self.bytes_sent + UInt64.ofNat bytes, frames_sent := self.frames_sent + 1 }

def record_rx (self : SessionMetrics) (bytes : Nat) : SessionMetrics :=
  { self with bytes_received := self.bytes_received + UInt64.ofNat bytes, frames_received := self.frames_received + 1 }

def total_bytes (self : SessionMetrics) : UInt64 := self.bytes_sent + self.bytes_received

end SessionMetrics

end NoiseTunnel
