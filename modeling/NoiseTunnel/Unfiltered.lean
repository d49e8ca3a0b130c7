import NoiseTunnel.Turns
/-!
# The server without its replay filter

The cipher checks the same number that the filter checks, and more strictly.
So the filter refuses nothing the cipher would accept, and the loop does the
same without it.
-/
open Rust

namespace NoiseTunnel.ServerSession

/-! ## The loop without the filter -/

section
variable (P : Primitives)

/-- `receive` without the filter. -/
def receive_unfiltered (self : ServerSession) (frame : WireFrame) (associated_data : Bytes) :
    Exec (Bytes × ServerSession) := do
  let (plaintext, rx_cipher) ← Exec.decrypt P self.rx_cipher frame.payload associated_data frame.nonce
  Act.emit (.received frame.msg_type plaintext)
  return (plaintext, { self with rx_cipher })

/-- `transport_frame` without the filter. -/
def transport_frame_unfiltered (self : ServerSession) (frame : WireFrame) : Exec (ControlFlow ServerSession) := do
  let self := { self with session_metrics := self.session_metrics.record_rx (frame.payload_len + 13) }
  match frame.msg_type with
  | .DataPayload =>
    let (plaintext, self) ← self.receive_unfiltered P frame TUNNEL_DATA
    let msg_str := from_utf8_lossy plaintext
    let reply_msg := REPLY_PREFIX ++ msg_str
    return .cont (← self.reply P .DataPayload (as_bytes reply_msg) TUNNEL_DATA)
  | .Heartbeat =>
    let (_, self) ← self.receive_unfiltered P frame HEARTBEAT
    return .cont (← self.reply P .Heartbeat PONG HEARTBEAT)
  | .Close => return .done self
  | _ => return .cont self

end

/-! ## Outcomes -/

/-- The two sessions differ in the filter alone. -/
def SameButFilter (s s' : ServerSession) : Prop := ∃ replay_filter, s' = { s with replay_filter }

/-- Both go on or both end. -/
def SameFlow : ControlFlow ServerSession → ControlFlow ServerSession → Prop
  | .cont s, .cont s' => SameButFilter s s'
  | .done s, .done s' => SameButFilter s s'
  | _, _ => False

/-- Both fail with an error, whichever it is. -/
def BothErr : Stop Error → Stop Error → Prop
  | .err _, .err _ => True
  | _, _ => False

variable {P : Primitives} {s s' : ServerSession} {n : Nat} {f : WireFrame} {fs : List WireFrame} {aad pt : Bytes}
  {t : MessageType}

theorem unfiltered_carries (h : Carries f.msg_type aad) :
    s.transport_frame_unfiltered P f = (do
      let (pt, s) ← (s.counted f).receive_unfiltered P f aad
      return .cont (← s.reply P f.msg_type (answerTo f.msg_type pt) aad)) := by
  unfold transport_frame_unfiltered
  cases hf : f.msg_type <;> rw [hf] at h <;> cases h <;> rfl

theorem reply_same (h : SameButFilter s s') :
    Act.Rel BothErr SameButFilter (s.reply P t pt aad) (s'.reply P t pt aad) := by
  obtain ⟨g, rfl⟩ := h
  unfold reply
  rcases Exec.encrypt_cases P s.tx_cipher pt aad with ⟨ct, tx', -, he⟩ | ⟨e, he, -⟩
  · simp only [he, Act.mk_ok_bind]
    exact .ok ⟨g, rfl⟩
  · simp only [he, Act.mk_error_bind]
    exact .error trivial

/-- A frame is taken in by both, or refused by both. -/
theorem receive_same (hs : Synced s n) (hn : n + 1 < 2 ^ 64) (h : SameButFilter s s') :
    Act.Rel BothErr (fun x y => x.1 = y.1 ∧ SameButFilter x.2 y.2) (s.receive P f aad)
      (s'.receive_unfiltered P f aad) := by
  obtain ⟨g, rfl⟩ := h
  obtain ⟨rx', r, hd⟩ := CipherState.decrypt_returns P f.payload aad f.nonce (hs.nonce ▸ hn)
  cases r with
  | ok pt =>
    obtain ⟨filter', hv, -⟩ := hs.takes hn hd
    rw [receive_of P s hv hd, receive_unfiltered, Exec.decrypt_ok hd]
    exact .ok ⟨rfl, g, rfl⟩
  | error e =>
    have he : Exec.decrypt P s.rx_cipher f.payload aad f.nonce = ⟨[], .error (.err e)⟩ := by
      rw [Exec.decrypt, hd]
      rfl
    obtain ⟨filter', r, hv, -, -, -⟩ := hs.tracks.call hn P.overflow_checks f.nonce
    rw [receive, receive_unfiltered, Exec.validate_and_record, hv, he]
    cases r <;> exact .error trivial

theorem turn_same (hs : Synced s n) (hn : n + 1 < 2 ^ 64) (h : SameButFilter s s') :
    Act.Rel BothErr SameFlow (s.transport_frame P f) (s'.transport_frame_unfiltered P f) := by
  have hcounted : SameButFilter (s.counted f) (s'.counted f) := by
    obtain ⟨g, rfl⟩ := h
    exact ⟨g, rfl⟩
  have hcarries (aad : Bytes) (ht : Carries f.msg_type aad) :
      Act.Rel BothErr SameFlow (s.transport_frame P f) (s'.transport_frame_unfiltered P f) := by
    rw [transport_frame_carries P s ht, unfiltered_carries ht]
    have hsynced : Synced (s.counted f) n := ⟨hs.nonce, hs.tracks⟩
    refine (receive_same hsynced hn hcounted).bind fun x y _ hxy => ?_
    obtain ⟨pt, s₁⟩ := x
    obtain ⟨pt', s₁'⟩ := y
    obtain ⟨rfl, hsame⟩ := hxy
    exact (reply_same hsame).bind fun _ _ _ hreply => .ok hreply
  cases hf : f.msg_type with
  | DataPayload => exact hcarries TUNNEL_DATA (hf ▸ .data)
  | Heartbeat => exact hcarries HEARTBEAT (hf ▸ .heartbeat)
  | Close =>
    simp only [transport_frame, transport_frame_unfiltered, hf]
    exact .ok hcounted
  | HandshakeInit | HandshakeResp =>
    simp only [transport_frame, transport_frame_unfiltered, hf]
    exact .ok hcounted

theorem feed_same (hs : Synced s n) (hn : n + fs.length < 2 ^ 64) (h : SameButFilter s s') :
    Act.Rel BothErr SameFlow (feed (transport_frame P) s fs) (feed (transport_frame_unfiltered P) s' fs) := by
  induction fs generalizing s s' n with
  | nil => exact .ok h
  | cons f fs ih =>
    rw [List.length_cons] at hn
    refine (turn_same hs (by omega) h).bind fun c c' hc hsame => ?_
    cases c with
    | cont s₁ =>
      cases c' with
      | done s₁' => exact hsame.elim
      | cont s₁' =>
        obtain ⟨m, hm, hsynced⟩ := hs.turn (by omega) hc
        exact ih hsynced (by omega) hsame
    | done s₁ =>
      cases c' with
      | cont s₁' => exact hsame.elim
      | done s₁' => exact .ok hsame

/-- A session of fewer than 2^64 frames does the same with and without the
filter, on frames and on streams, and the filter refuses no frame that the
cipher would have accepted. -/
theorem filter_redundant (P : Primitives) (rx_key tx_key : Key) (fs : List WireFrame) (hn : fs.length < 2 ^ 64) :
    Act.Rel BothErr SameFlow
      (feed (transport_frame P) (start (CipherState.new rx_key, CipherState.new tx_key)) fs)
      (feed (transport_frame_unfiltered P) (start (CipherState.new rx_key, CipherState.new tx_key)) fs) ∧
    (∀ stream, (WireFrame.read_all stream).1 = fs →
      Act.Rel BothErr SameButFilter
        ((start (CipherState.new rx_key, CipherState.new tx_key)).transport_loop P stream)
        (loop (transport_frame_unfiltered P) (start (CipherState.new rx_key, CipherState.new tx_key)) stream)) ∧
    ∀ pre f post s aad rx' pt, fs = pre ++ f :: post →
      (feed (transport_frame P) (start (CipherState.new rx_key, CipherState.new tx_key)) pre).res = .ok (.cont s) →
      s.rx_cipher.decrypt P f.payload aad f.nonce = .ok (rx', .ok pt) →
      ∃ filter', s.replay_filter.validate_and_record P.overflow_checks f.nonce = .ok (filter', .ok ()) := by
  have hsynced := synced_start rx_key tx_key
  have hfeed : Act.Rel BothErr SameFlow
      (feed (transport_frame P) (start (CipherState.new rx_key, CipherState.new tx_key)) fs)
      (feed (transport_frame_unfiltered P) (start (CipherState.new rx_key, CipherState.new tx_key)) fs) :=
    feed_same hsynced (by omega) ⟨_, rfl⟩
  refine ⟨hfeed, fun stream hs => ?_, fun pre f post s aad rx' pt hsplit hpre hd => ?_⟩
  · obtain ⟨e, he⟩ := WireFrame.read_all_err stream
    rw [transport_loop_eq, loop_eq_feed, loop_eq_feed, hs, he]
    refine hfeed.bind fun c c' _ hsame => ?_
    cases c <;> cases c' <;> first | exact hsame.elim | exact .ok hsame
  · have hlen : pre.length + (post.length + 1) = fs.length := by rw [hsplit, List.length_append, List.length_cons]
    obtain ⟨m, hm, hs⟩ := hsynced.feed (by omega) hpre
    obtain ⟨filter', hv, -⟩ := hs.takes (by omega) hd
    exact ⟨filter', hv⟩

/-- A message and its replay. -/
theorem filter_redundant_replay :
    Act.Rel BothErr SameFlow
      (feed (transport_frame (Concrete.primitives true)) Concrete.session [Concrete.question "a", Concrete.question "a"])
      (feed (transport_frame_unfiltered (Concrete.primitives true)) Concrete.session
        [Concrete.question "a", Concrete.question "a"]) :=
  (filter_redundant (Concrete.primitives true) (Concrete.key 5) (Concrete.key 6)
    [Concrete.question "a", Concrete.question "a"] (by decide)).1

end NoiseTunnel.ServerSession
