import NoiseTunnel.Codec
import NoiseTunnel.Handshake
/-!
# The server's session

`handle_client_with_prologue`: the handshake, then a loop that answers frame
by frame until the stream ends, the client sends `Close`, or a frame fails.
-/
open Rust

namespace NoiseTunnel

def REPLY_PREFIX : String := "Server mottok: "
def PONG : Bytes := as_bytes "PONG"

structure ServerSession where
  rx_cipher : CipherState
  tx_cipher : CipherState
  replay_filter : ReplayFilter
  session_metrics : SessionMetrics

namespace ServerSession

variable (P : Primitives)

/-- The transport state after the handshake. -/
def start (ciphers : CipherState × CipherState) : ServerSession where
  rx_cipher := ciphers.1
  tx_cipher := ciphers.2
  replay_filter := .new
  session_metrics := .new

/-- Encrypt a reply under the next nonce and write it. -/
def reply (self : ServerSession) (msg_type : MessageType) (plaintext associated_data : Bytes) :
    Exec ServerSession := do
  let reply_nonce := self.tx_cipher.current_nonce
  let (encrypted_reply, tx_cipher) ← Exec.encrypt P self.tx_cipher plaintext associated_data
  Act.emit (.sent msg_type plaintext)
  let reply_frame : WireFrame := ⟨msg_type, reply_nonce, encrypted_reply⟩
  let session_metrics := self.session_metrics.record_tx (reply_frame.payload_len + 13)
  Exec.write_to reply_frame
  return { self with tx_cipher, session_metrics }

/-- Check a frame's nonce against the window and decrypt it. -/
def receive (self : ServerSession) (frame : WireFrame) (associated_data : Bytes) : Exec (Bytes × ServerSession) := do
  let replay_filter ← Exec.validate_and_record P self.replay_filter frame.nonce
  let (plaintext, rx_cipher) ← Exec.decrypt P self.rx_cipher frame.payload associated_data frame.nonce
  Act.emit (.received frame.msg_type plaintext)
  return (plaintext, { self with replay_filter, rx_cipher })

/-- One turn of the loop, from the frame it reads. -/
def transport_frame (self : ServerSession) (frame : WireFrame) : Exec (ControlFlow ServerSession) := do
  let self := { self with session_metrics := self.session_metrics.record_rx (frame.payload_len + 13) }
  match frame.msg_type with
  | .DataPayload =>
    let (plaintext, self) ← self.receive P frame TUNNEL_DATA
    let msg_str := from_utf8_lossy plaintext
    let reply_msg := REPLY_PREFIX ++ msg_str
    return .cont (← self.reply P .DataPayload (as_bytes reply_msg) TUNNEL_DATA)
  | .Heartbeat =>
    let (_, self) ← self.receive P frame HEARTBEAT
    return .cont (← self.reply P .Heartbeat PONG HEARTBEAT)
  | .Close => return .done self
  | _ => return .cont self

/-- The loop, on the bytes that still arrive. -/
def transport_loop (self : ServerSession) (stream : Bytes) : Exec ServerSession :=
  match _h : WireFrame.read_from stream with
  | .error (.err _) => return self
  | .error (.panic p) => throw (.panic p)
  | .ok (frame, stream) => do
    match ← self.transport_frame P frame with
    | .cont self => self.transport_loop stream
    | .done self => return self
termination_by stream.length
decreasing_by
  obtain ⟨-, rfl⟩ := WireFrame.read_from_eq_ok.1 _h
  simp

end ServerSession

namespace TunnelServer

variable (P : Primitives)

/-- A connection, from its first byte to its last; the final transport state is returned. -/
def handle_client_with_prologue (server_keys : KeyPair) (prologue : Bytes) (secret : Key) (stream : Bytes) :
    Exec ServerSession := do
  let (ciphers, stream) ← receive_handshake P server_keys prologue secret stream
  (ServerSession.start ciphers).transport_loop P stream

def handle_client (server_keys : KeyPair) (secret : Key) (stream : Bytes) : Exec ServerSession :=
  handle_client_with_prologue P server_keys PROTOCOL_NAME secret stream

end TunnelServer

/-! ## How a turn ends -/

namespace ServerSession

variable (P : Primitives) (s : ServerSession)

/-- The statistics after a frame has come in. -/
def counted (f : WireFrame) : ServerSession :=
  { s with session_metrics := s.session_metrics.record_rx (f.payload_len + 13) }

/-- The session after a frame was taken in. -/
def took (rx_cipher : CipherState) (replay_filter : ReplayFilter) : ServerSession := { s with rx_cipher, replay_filter }

/-- The session after `f` was sent. -/
def sentFrame (tx_cipher : CipherState) (f : WireFrame) : ServerSession :=
  { s with tx_cipher, session_metrics := s.session_metrics.record_tx (f.payload_len + 13) }

theorem receive_cases (f : WireFrame) (aad : Bytes) :
    (∃ pt filter' rx', s.replay_filter.validate_and_record P.overflow_checks f.nonce = .ok (filter', .ok ()) ∧
      s.rx_cipher.decrypt P f.payload aad f.nonce = .ok (rx', .ok pt) ∧
      s.receive P f aad = ⟨openedLog s.rx_cipher f aad pt, .ok (pt, s.took rx' filter')⟩) ∨
    (∃ e, s.receive P f aad = ⟨[], .error e⟩) := by
  unfold receive
  rcases Exec.validate_and_record_cases P s.replay_filter f.nonce with ⟨filter', hv, he⟩ | ⟨e, he⟩
  · rcases Exec.decrypt_cases P s.rx_cipher f.payload aad f.nonce with ⟨pt, rx', hd, hde⟩ | ⟨e, hde, -⟩
    · left
      refine ⟨pt, filter', rx', hv, hd, ?_⟩
      simp only [he, hde, Act.mk_ok_bind]
      rfl
    · right
      exact ⟨e, by simp only [he, hde, Act.mk_ok_bind, Act.mk_error_bind, List.append_nil]⟩
  · right
    exact ⟨e, by simp only [he, Act.mk_error_bind]⟩

theorem reply_cases (t : MessageType) (pt aad : Bytes) :
    (∃ ct tx', s.tx_cipher.encrypt P pt aad = (tx', .ok ct) ∧
      s.reply P t pt aad =
        ⟨sealedLog s.tx_cipher t pt aad ct, .ok (s.sentFrame tx' ⟨t, s.tx_cipher.nonce, ct⟩)⟩) ∨
    (∃ e, s.reply P t pt aad = ⟨[], .error (.err e)⟩ ∧
      (P.Correct → pt.length / 64 < 2 ^ 32 - 1 → ¬s.tx_cipher.nonce.toNat + 1 < 2 ^ 64)) := by
  unfold reply
  rcases Exec.encrypt_cases P s.tx_cipher pt aad with ⟨ct, tx', h, he⟩ | ⟨e, he, hfail⟩
  · left
    refine ⟨ct, tx', h, ?_⟩
    simp only [he, Act.mk_ok_bind]
    rfl
  · right
    exact ⟨e, by simp only [he, Act.mk_error_bind], hfail⟩

theorem receive_of {f : WireFrame} {aad pt : Bytes} {filter' : ReplayFilter} {rx' : CipherState}
    (hv : s.replay_filter.validate_and_record P.overflow_checks f.nonce = .ok (filter', .ok ()))
    (hd : s.rx_cipher.decrypt P f.payload aad f.nonce = .ok (rx', .ok pt)) :
    s.receive P f aad = ⟨openedLog s.rx_cipher f aad pt, .ok (pt, s.took rx' filter')⟩ := by
  rw [receive, Exec.validate_and_record, hv, Exec.decrypt_ok hd]
  rfl

/-- What the server answers to a frame of type `t` that decrypts to `pt`. -/
def answerTo (t : MessageType) (pt : Bytes) : Bytes :=
  match t with
  | .Heartbeat => PONG
  | _ => as_bytes (REPLY_PREFIX ++ from_utf8_lossy pt)

/-- A frame that carries a payload is taken in and answered. -/
theorem transport_frame_carries {f : WireFrame} {aad : Bytes} (h : Carries f.msg_type aad) :
    s.transport_frame P f = (do
      let (pt, s) ← (s.counted f).receive P f aad
      return .cont (← s.reply P f.msg_type (answerTo f.msg_type pt) aad)) := by
  unfold transport_frame
  cases hf : f.msg_type <;> rw [hf] at h <;> cases h <;> rfl

/-- A frame that is taken in: its answer is written, or encrypting it fails. -/
theorem transport_frame_taken {f : WireFrame} {aad pt : Bytes} {filter' : ReplayFilter} {rx' : CipherState}
    (h : Carries f.msg_type aad) (hv : s.replay_filter.validate_and_record P.overflow_checks f.nonce = .ok (filter', .ok ()))
    (hd : s.rx_cipher.decrypt P f.payload aad f.nonce = .ok (rx', .ok pt)) :
    (∃ ct tx', s.tx_cipher.encrypt P (answerTo f.msg_type pt) aad = (tx', .ok ct) ∧
      s.transport_frame P f =
        ⟨openedLog s.rx_cipher f aad pt ++ sealedLog s.tx_cipher f.msg_type (answerTo f.msg_type pt) aad ct,
          .ok (.cont (((s.counted f).took rx' filter').sentFrame tx' ⟨f.msg_type, s.tx_cipher.nonce, ct⟩))⟩) ∨
    (∃ e, s.transport_frame P f = ⟨openedLog s.rx_cipher f aad pt, .error (.err e)⟩ ∧
      (P.Correct → (answerTo f.msg_type pt).length / 64 < 2 ^ 32 - 1 → ¬s.tx_cipher.nonce.toNat + 1 < 2 ^ 64)) := by
  rw [transport_frame_carries P s h, receive_of P (s.counted f) hv hd]
  rcases reply_cases P ((s.counted f).took rx' filter') f.msg_type (answerTo f.msg_type pt) aad with
    ⟨ct, tx', hen, hre⟩ | ⟨e, hre, hfail⟩
  · left
    refine ⟨ct, tx', hen, ?_⟩
    simp only [hre, Act.mk_ok_bind]
    rfl
  · right
    refine ⟨e, ?_, hfail⟩
    simp only [hre, Act.mk_ok_bind, Act.mk_error_bind, List.append_nil]
    rfl

theorem transport_frame_close {f : WireFrame} (h : f.msg_type = .Close) :
    s.transport_frame P f = ⟨[], .ok (.done (s.counted f))⟩ := by
  unfold transport_frame
  rw [h]
  rfl

theorem transport_frame_handshake {f : WireFrame} (h : f.msg_type = .HandshakeInit ∨ f.msg_type = .HandshakeResp) :
    s.transport_frame P f = ⟨[], .ok (.cont (s.counted f))⟩ := by
  unfold transport_frame
  rcases h with h | h <;> rw [h] <;> rfl

/-- What a frame with a payload does: it is refused, or taken in and then
answered or not. -/
def TakesIn (f : WireFrame) (aad : Bytes) : Prop :=
  (∃ e, s.transport_frame P f = ⟨[], .error e⟩) ∨
  ∃ pt filter' rx', s.replay_filter.validate_and_record P.overflow_checks f.nonce = .ok (filter', .ok ()) ∧
    s.rx_cipher.decrypt P f.payload aad f.nonce = .ok (rx', .ok pt) ∧
    ((∃ e, s.transport_frame P f = ⟨openedLog s.rx_cipher f aad pt, .error (.err e)⟩) ∨
      ∃ ct tx', s.tx_cipher.encrypt P (answerTo f.msg_type pt) aad = (tx', .ok ct) ∧
        s.transport_frame P f =
          ⟨openedLog s.rx_cipher f aad pt ++ sealedLog s.tx_cipher f.msg_type (answerTo f.msg_type pt) aad ct,
            .ok (.cont (((s.counted f).took rx' filter').sentFrame tx' ⟨f.msg_type, s.tx_cipher.nonce, ct⟩))⟩)

theorem takes_in {f : WireFrame} {aad : Bytes} (h : Carries f.msg_type aad) : TakesIn P s f aad := by
  rcases receive_cases P (s.counted f) f aad with ⟨pt, filter', rx', hv, hd, -⟩ | ⟨e, hr⟩
  · right
    refine ⟨pt, filter', rx', hv, hd, ?_⟩
    rcases transport_frame_taken P s h hv hd with ⟨ct, tx', he, ht⟩ | ⟨e, ht, -⟩
    · exact .inr ⟨ct, tx', he, ht⟩
    · exact .inl ⟨e, ht⟩
  · left
    exact ⟨e, by rw [transport_frame_carries P s h]; simp only [hr, Act.mk_error_bind]⟩

/-- A turn of the loop: it ends on `Close`, skips handshake frames, and takes in the others. -/
theorem transport_frame_cases (f : WireFrame) :
    (f.msg_type = .Close ∧ s.transport_frame P f = ⟨[], .ok (.done (s.counted f))⟩) ∨
    ((f.msg_type = .HandshakeInit ∨ f.msg_type = .HandshakeResp) ∧
      s.transport_frame P f = ⟨[], .ok (.cont (s.counted f))⟩) ∨
    ∃ aad, Carries f.msg_type aad ∧ TakesIn P s f aad := by
  cases hf : f.msg_type with
  | Close => exact .inl ⟨rfl, transport_frame_close P s hf⟩
  | HandshakeInit => exact .inr (.inl ⟨.inl rfl, transport_frame_handshake P s (.inl hf)⟩)
  | HandshakeResp => exact .inr (.inl ⟨.inr rfl, transport_frame_handshake P s (.inr hf)⟩)
  | DataPayload => exact .inr (.inr ⟨_, .data, takes_in P s (hf ▸ .data)⟩)
  | Heartbeat => exact .inr (.inr ⟨_, .heartbeat, takes_in P s (hf ▸ .heartbeat)⟩)

end ServerSession

end NoiseTunnel
