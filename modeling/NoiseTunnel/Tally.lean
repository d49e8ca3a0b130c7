import NoiseTunnel.Turns
import Mathlib.Algebra.BigOperators.Group.List.Basic
import Mathlib.Algebra.GroupWithZero.Nat
/-!
# Exact statistics

The statistics of a session are the tally of the frames it wrote and read. As
long as these come to fewer than 2^64 bytes no counter has wrapped. A server
writes at most three times as many bytes as it reads.
-/
open Rust

namespace NoiseTunnel

open WireFrame

/-! ## Bytes on the wire -/

/-- The bytes of some frames. -/
def wire_bytes (fs : List WireFrame) : Nat := (fs.map fun f => f.serialize.length).sum

variable {sent received fs gs : List WireFrame} {f : WireFrame}

@[simp] theorem wire_bytes_nil : wire_bytes [] = 0 := rfl

@[simp] theorem wire_bytes_cons (f : WireFrame) (fs : List WireFrame) :
    wire_bytes (f :: fs) = f.payload_len + 13 + wire_bytes fs := by
  rw [wire_bytes, List.map_cons, List.sum_cons, serialize_length]
  rfl

@[simp] theorem wire_bytes_append (fs gs : List WireFrame) : wire_bytes (fs ++ gs) = wire_bytes fs + wire_bytes gs := by
  rw [wire_bytes, List.map_append, List.sum_append]
  rfl

theorem wire_bytes_eq (fs : List WireFrame) : wire_bytes fs = (fs.flatMap serialize).length :=
  List.length_flatMap.symm

theorem length_le_wire_bytes (fs : List WireFrame) : 13 * fs.length ≤ wire_bytes fs := by
  rw [wire_bytes_eq]
  exact flatMap_serialize_length fs

theorem wire_bytes_prefix (h : fs <+: gs) : wire_bytes fs ≤ wire_bytes gs := by
  obtain ⟨rest, rfl⟩ := h
  rw [wire_bytes_append]
  exact Nat.le_add_right _ _

/-- The frames on a stream are bytes of it. -/
theorem wire_bytes_read_all (stream : Bytes) : wire_bytes (read_all stream).1 ≤ stream.length := by
  induction h : stream.length using Nat.strongRecOn generalizing stream with
  | _ n ih =>
    cases hr : read_from stream with
    | error e =>
      rw [read_all_error hr]
      exact Nat.zero_le _
    | ok y =>
      obtain ⟨f, rest⟩ := y
      have hrest := ih rest.length (h ▸ read_from_length_lt hr) rest rfl
      obtain ⟨-, rfl⟩ := read_from_eq_ok.1 hr
      rw [read_all_ok hr, wire_bytes_cons, ← h, List.length_append, serialize_length]
      omega

/-! ## The tally -/

namespace SessionMetrics

/-- The statistics after these frames. -/
def tally (sent received : List WireFrame) : SessionMetrics where
  bytes_sent := UInt64.ofNat (wire_bytes sent)
  bytes_received := UInt64.ofNat (wire_bytes received)
  frames_sent := UInt64.ofNat sent.length
  frames_received := UInt64.ofNat received.length

theorem tally_sent (sent received : List WireFrame) (f : WireFrame) :
    (tally sent received).record_tx (f.payload_len + 13) = tally (sent ++ [f]) received := by
  simp [tally, record_tx, UInt64.ofNat_add]

theorem tally_received (sent received : List WireFrame) (f : WireFrame) :
    (tally sent received).record_rx (f.payload_len + 13) = tally sent (received ++ [f]) := by
  simp [tally, record_rx, UInt64.ofNat_add]

/-- The counters say how much these frames are: none of them has wrapped. -/
structure Exact (m : SessionMetrics) (sent received : List WireFrame) : Prop where
  bytes_sent : m.bytes_sent.toNat = wire_bytes sent
  bytes_received : m.bytes_received.toNat = wire_bytes received
  frames_sent : m.frames_sent.toNat = sent.length
  frames_received : m.frames_received.toNat = received.length
  total_bytes : m.total_bytes.toNat = wire_bytes sent + wire_bytes received

theorem exact_tally (h : wire_bytes sent + wire_bytes received < 2 ^ 64) : (tally sent received).Exact sent received := by
  have hsent := length_le_wire_bytes sent
  have hreceived := length_le_wire_bytes received
  have htotal : (tally sent received).total_bytes = UInt64.ofNat (wire_bytes sent + wire_bytes received) :=
    (UInt64.ofNat_add _ _).symm
  have hfits (n : ℕ) (hn : n < 2 ^ 64) : (UInt64.ofNat n).toNat = n := UInt64.toNat_ofNat_of_lt' hn
  constructor
  · exact hfits _ (by omega)
  · exact hfits _ (by omega)
  · exact hfits _ (by omega)
  · exact hfits _ (by omega)
  · rw [htotal]
    exact hfits _ h

end SessionMetrics

/-! ## What a server writes -/

namespace ServerSession

variable {P : Primitives} {s : ServerSession} {c : ControlFlow ServerSession}

/-- A reply is at most three times as long as the request: a byte that is not
UTF-8 comes back as three. -/
theorem transport_frame_bytes (hP : P.Correct) (s : ServerSession) (f : WireFrame) :
    wire_bytes (frames (s.transport_frame P f).log) ≤ 3 * (f.payload_len + 13) := by
  rcases s.transport_frame_cases P f with
    ⟨-, hr⟩ | ⟨-, hr⟩ | ⟨aad, -, ⟨e, hr⟩ | ⟨pt, filter', rx', -, hd, ⟨e, hr⟩ | ⟨ct, tx', he, hr⟩⟩⟩
  · rw [hr]
    exact Nat.zero_le _
  · rw [hr]
    exact Nat.zero_le _
  · rw [hr]
    exact Nat.zero_le _
  · rw [hr]
    exact Nat.zero_le _
  · have hrequest := hP.decrypt_length _ _ _ _ _ (CipherState.decrypt_eq_ok.1 hd).2.1
    have hreply := hP.encrypt_length _ _ _ _ _ (CipherState.encrypt_eq_ok.1 he).1
    have hlossy := from_utf8_lossy_length pt
    have htag : TAG_LEN = 16 := rfl
    rw [answerTo_length] at hreply
    rw [hr, frames_answered, wire_bytes_cons, wire_bytes_nil, payload_len, payload_len, hreply, hrequest]
    split <;> omega

theorem feed_bytes (hP : P.Correct) (s : ServerSession) (fs : List WireFrame) :
    wire_bytes (frames (feed (transport_frame P) s fs).log) ≤ 3 * wire_bytes fs := by
  induction fs generalizing s with
  | nil => exact Nat.zero_le _
  | cons f fs ih =>
    have hturn := s.transport_frame_bytes hP f
    rw [feed, wire_bytes_cons]
    cases hr : (s.transport_frame P f).res with
    | error e =>
      rw [Act.bind_of_error hr]
      dsimp only
      omega
    | ok c =>
      rw [Act.bind_of_ok hr]
      cases c with
      | done s' =>
        dsimp only
        rw [Act.pure_log, List.append_nil]
        omega
      | cont s' =>
        have hrest := ih s'
        dsimp only
        rw [frames_append, wire_bytes_append]
        omega

/-- A loop over fewer than 2^62 bytes reads and writes fewer than 2^64. -/
theorem loop_bytes (hP : P.Correct) (s : ServerSession) {stream : Bytes} (h : stream.length < 2 ^ 62) :
    wire_bytes (frames (s.transport_loop P stream).log) + wire_bytes (read_all stream).1 < 2 ^ 64 := by
  have hread := wire_bytes_read_all stream
  have hwrote := s.feed_bytes hP (read_all stream).1
  rw [transport_loop_log]
  omega

end ServerSession

end NoiseTunnel
