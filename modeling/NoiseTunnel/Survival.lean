import NoiseTunnel.Agreement
import NoiseTunnel.Hostile
import NoiseTunnel.Streams
/-!
# Clients of a hostile server

Whatever a server sends and whatever is typed, a client ends with a result or
an error of its own. While it waits its receiving counter is behind its sending
counter, which ends the session before it wraps.
-/
open Rust Reactive

namespace NoiseTunnel

open WireFrame

variable {P : Primitives} {client : TunnelClient} {secret : Key} {message : String}

theorem Input.FromStream.in_range {e : Stop Error} (h : (Input.broken e).FromStream) : InRange e := by
  obtain ⟨stream, hr⟩ := h e rfl
  exact read_from_in_range stream e hr

/-! ## Segments -/

namespace TunnelClient

theorem start_handshake_in_range (self : TunnelClient) (secret : Key) :
    (self.start_handshake P secret).Stops InRange := by
  intro e he
  refine self.perform_handshake_in_range (P := P) secret [] e ?_
  unfold perform_handshake
  rw [Act.bind_of_error he]

theorem send_message_in_range (tx_cipher : CipherState) (message : String) :
    (send_message P tx_cipher message).Stops InRange := by
  unfold send_message
  exact (Exec.encrypt_in_range _ _ _).bind fun _ _ => (Act.stops_ok _ _).bind fun _ _ =>
    (Act.stops_ok _ _).bind fun _ _ => Act.stops_ok _ _

theorem read_reply_in_range (tx_cipher : CipherState) {rx_cipher : CipherState}
    (hn : rx_cipher.nonce.toNat + 1 < 2 ^ 64) (f : WireFrame) : (read_reply P tx_cipher rx_cipher f).Stops InRange := by
  unfold read_reply
  refine (Exec.bail_if_in_range Error.noConfusion).bind fun _ _ => (Exec.decrypt_in_range hn _ _ _).bind fun ⟨pt, _⟩ _ => ?_
  refine (Act.stops_ok _ _).bind fun _ _ => ?_
  cases from_utf8 pt with
  | none => exact Act.stops_error [] (in_range_err Error.noConfusion)
  | some text => exact (Act.stops_ok _ _).bind fun _ _ => Act.stops_ok _ _

end TunnelClient

namespace ClientSession

variable {s : ClientSession}

theorem request_in_range (s : ClientSession) (t : MessageType) (pt aad : Bytes) :
    (s.request P t pt aad).Stops InRange := by
  unfold request
  exact (Exec.encrypt_in_range _ _ _).bind fun _ _ => (Act.stops_ok _ _).bind fun _ _ =>
    (Act.stops_ok _ _).bind fun _ _ => Act.stops_ok _ _

theorem repl_line_in_range (s : ClientSession) (client : TunnelClient) (line : Option String) :
    (s.repl_line P client line).Stops InRange := by
  cases line with
  | none => exact Act.stops_ok _ _
  | some l =>
    rcases s.repl_line_some P client l with ⟨-, log, -, -, he⟩ | ⟨log, -, -, he⟩ | ⟨t, pt, aad, w, -, -, -, he⟩
    · exact he ▸ Act.stops_ok _ _
    · exact he ▸ Act.stops_ok _ _
    · exact he ▸ (s.request_in_range t pt aad).bind fun _ _ => Act.stops_ok _ _

theorem answer_in_range (hn : s.rx_cipher.nonce.toNat + 1 < 2 ^ 64) (f : WireFrame) (aad : Bytes) (label : String) :
    (s.answer P f aad label).Stops InRange := by
  unfold answer
  exact (Exec.decrypt_in_range hn _ _ _).bind fun _ _ => (Act.stops_ok _ _).bind fun _ _ =>
    (Act.stops_ok _ _).bind fun _ _ => Act.stops_ok _ _

theorem repl_frame_in_range (hn : s.rx_cipher.nonce.toNat + 1 < 2 ^ 64) (a : Awaited) (f : WireFrame) :
    (s.repl_frame P a f).Stops InRange := by
  have hcounted : (s.counted f).rx_cipher.nonce.toNat + 1 < 2 ^ 64 := hn
  have hanswer (aad : Bytes) (label : String) :
      (do return ControlFlow.cont (← (s.counted f).answer P f aad label, Waiting.line) : Exec _).Stops InRange :=
    (answer_in_range hcounted f aad label).bind fun _ _ => Act.stops_ok _ _
  cases a with
  | pong =>
    by_cases hf : f.msg_type = .Heartbeat
    · rw [repl_frame_pong P s hf]
      exact hanswer _ _
    · have hskip : s.repl_frame P .pong f = pure (.cont (s.counted f, .line)) := if_neg hf
      exact hskip ▸ Act.stops_ok _ _
  | reply =>
    by_cases hf : f.msg_type = .DataPayload
    · rw [repl_frame_reply P s hf]
      exact hanswer _ _
    by_cases hc : f.msg_type = .Close
    · have hclose : s.repl_frame P .reply f = (do
          Exec.println ["Server lukket forbindelsen."]
          return .done (s.counted f, .line)) := (if_neg hf).trans (if_pos hc)
      exact hclose ▸ (Act.stops_ok _ _).bind fun _ _ => Act.stops_ok _ _
    · have hskip : s.repl_frame P .reply f = pure (.cont (s.counted f, .line)) := (if_neg hf).trans (if_neg hc)
      exact hskip ▸ Act.stops_ok _ _

end ClientSession

/-- Where a segment that stops in range leaves its task. -/
theorem settle_cases {α σ : Type} {x : Exec α} {next : α → σ} {stop : Stop Error → σ} {Q : σ → Prop}
    (hx : x.Stops InRange) (hok : ∀ a, x.res = .ok a → Q (next a)) (herr : ∀ e, InRange e → Q (stop e)) :
    Q (settle x next stop).2 := by
  unfold settle
  cases hr : x.res with
  | ok a => exact hok a hr
  | error e => exact herr e (hx e hr)

/-! ## One message -/

namespace OneShot

/-- Past the handshake nothing has been opened; at the end there is a result, or an error of the client's own. -/
def Sound : OneShot P → Prop
  | await_reply _ rx_cipher => rx_cipher.nonce = 0
  | done r => ∀ e, r = .error e → InRange e
  | _ => True

variable {s : OneShot P}

theorem sound_error {e : Stop Error} (h : InRange e) : Sound (P := P) (done (.error e)) := by
  rintro e' ⟨⟩
  exact h

theorem sound_step (i : Input) (h : Sound s) (hi : i.FromStream) : Sound (step P client secret message s i).2 := by
  cases s with
  | idle =>
    cases i with
    | connect =>
      exact settle_cases (client.start_handshake_in_range secret) (fun _ _ => trivial) fun _ => sound_error
    | broken e => exact sound_error hi.in_range
    | frame _ | line _ | unwritten => exact trivial
  | await_resp started =>
    cases i with
    | frame f =>
      have hrange : (finish_and_send P client message started f).Stops InRange :=
        (client.finish_handshake_in_range started f).bind fun _ _ =>
          (TunnelClient.send_message_in_range _ _).bind fun _ _ => Act.stops_ok _ _
      refine settle_cases hrange (fun c hc => ?_) fun _ => sound_error
      obtain ⟨ciphers, hfinish, hc⟩ := Act.bind_res_ok.1 hc
      obtain ⟨tx', -, hc⟩ := Act.bind_res_ok.1 hc
      cases hc
      rcases finish_handshake_cases P client started f with ⟨H, ct, -, -, -, -, -, -, -, he⟩ | ⟨e, he, -⟩
      · rw [he] at hfinish
        cases hfinish
        rfl
      · rw [he] at hfinish
        cases hfinish
    | broken e => exact sound_error hi.in_range
    | unwritten => exact sound_error (in_range_err Error.noConfusion)
    | connect => exact trivial
    | line l => exact trivial
  | await_reply tx rx =>
    have hzero : rx.nonce = 0 := h
    cases i with
    | frame f =>
      have hn : rx.nonce.toNat + 1 < 2 ^ 64 := by
        rw [hzero]
        decide
      exact settle_cases (TunnelClient.read_reply_in_range tx hn f) (fun _ _ _ he => by cases he) fun _ => sound_error
    | broken e => exact sound_error hi.in_range
    | unwritten => exact sound_error (in_range_err Error.noConfusion)
    | connect => exact h
    | line l => exact h
  | done r => exact h

theorem sound_run {s : (task P client secret message).State} {log : Log}
    (h : RunsIf (task P client secret message) (fun _ i => i.FromStream) s log) : Sound (P := P) s := by
  have hidle : Sound (P := P) .idle := trivial
  exact h.inv (fun s _ => Sound (P := P) s) hidle fun _ _ i hs hi => sound_step i hs hi

end OneShot

/-! ## The terminal session -/

namespace Interactive

/-- The loop has opened no more than it has sealed, and one less while it waits. -/
def Sound : Interactive P → Prop
  | repl session .line => session.rx_cipher.nonce.toNat ≤ session.tx_cipher.nonce.toNat
  | repl session (.frame _) => session.rx_cipher.nonce.toNat + 1 ≤ session.tx_cipher.nonce.toNat
  | done r => ∀ e, r = .error e → InRange e
  | _ => True

variable {s : Interactive P} {session : ClientSession} {w : Waiting} {a : Awaited}

theorem sound_error {e : Stop Error} (h : InRange e) : Sound (P := P) (done (.error e)) := by
  rintro e' ⟨⟩
  exact h

theorem Sound.le (h : Sound (P := P) (.repl session w)) :
    session.rx_cipher.nonce.toNat ≤ session.tx_cipher.nonce.toNat := by
  cases w with
  | line => exact h
  | frame a => exact Nat.le_of_succ_le h

/-- While the loop waits, its receiving counter has room for the answer. -/
theorem Sound.room (h : Sound (P := P) (.repl session (.frame a))) : session.rx_cipher.nonce.toNat + 1 < 2 ^ 64 :=
  Nat.lt_of_le_of_lt h session.tx_cipher.nonce.toNat_lt

theorem after_ne (c : ControlFlow (ClientSession × Waiting)) (e : Stop Error) : after P c ≠ done (.error e) := by
  intro h
  cases c <;> cases h

/-- An error that ends the loop. -/
theorem ends_in_range {i : Input} {e : Stop Error} (h : Sound (P := P) (.repl session w)) (hi : i.FromStream)
    (he : (step P client secret (repl session w) i).2 = done (.error e)) : InRange e := by
  have hsettle {x : Exec (ControlFlow (ClientSession × Waiting))} (hx : x.Stops InRange)
      (hs : (settle x (after P) fun e => done (.error e)).2 = done (.error e)) : InRange e :=
    settle_cases (Q := fun s => s = done (.error e) → InRange e) hx (fun c _ hc => absurd hc (after_ne c e))
      (fun e' he' hc => by cases hc; exact he') hs
  cases i with
  | connect => cases w <;> cases he
  | broken e' =>
    have hrange := hi.in_range
    cases w <;>
    · cases he
      exact hrange
  | unwritten =>
    cases w with
    | line => cases he
    | frame a =>
      cases he
      exact in_range_err Error.noConfusion
  | line l =>
    cases w with
    | line => exact hsettle (session.repl_line_in_range client l) he
    | frame a => cases he
  | frame f =>
    cases w with
    | line => cases he
    | frame a => exact hsettle (ClientSession.repl_frame_in_range h.room a f) he

theorem sound_repl (i : Input) (h : Sound (P := P) (.repl session w)) (hi : i.FromStream) :
    Sound (step P client secret (repl session w) i).2 := by
  have hends (e : Stop Error) (he : (step P client secret (repl session w) i).2 = done (.error e)) : InRange e :=
    ends_in_range h hi he
  have hturn := repl_turn P client secret session w i
  generalize step P client secret (repl session w) i = next at hturn hends ⊢
  cases hturn with
  | stays m hl => cases w <;> exact h
  | ended hl =>
    rintro e rfl
    exact hends e rfl
  | @asked line t pt aad ct tx' a hw hreq he =>
    obtain ⟨rfl, hlt⟩ := CipherState.encrypt_next he
    have hle : session.rx_cipher.nonce.toNat + 1 ≤ (session.tx_cipher.nonce + 1).toNat := by
      rw [toNat_add_one hlt]
      exact Nat.succ_le_succ h.le
    exact hle
  | skipped m hl hw hskip => exact h.le
  | @heard f a aad pt rx' text hw ht hd =>
    subst hw
    have hnext := add_one_mod (CipherState.decrypt_eq_ok.1 hd).2.2.1
    rw [Nat.mod_eq_of_lt h.room] at hnext
    exact hnext.trans_le h

theorem sound_step (i : Input) (h : Sound s) (hi : i.FromStream) : Sound (step P client secret s i).2 := by
  cases s with
  | idle =>
    cases i with
    | connect =>
      exact settle_cases ((Act.stops_ok _ _).bind fun _ _ => client.start_handshake_in_range secret)
        (fun _ _ => trivial) fun _ => sound_error
    | broken e => exact sound_error hi.in_range
    | frame _ | line _ | unwritten => exact trivial
  | await_resp started =>
    cases i with
    | frame f =>
      have hrange : (finish_and_greet P client started f).Stops InRange :=
        (client.finish_handshake_in_range started f).bind fun _ _ => (Act.stops_ok _ _).bind fun _ _ => Act.stops_ok _ _
      refine settle_cases hrange (fun c hc => ?_) fun _ => sound_error
      obtain ⟨ciphers, hfinish, hc⟩ := Act.bind_res_ok.1 hc
      cases hc
      rcases finish_handshake_cases P client started f with ⟨H, ct, -, -, -, -, -, -, -, he⟩ | ⟨e, he, -⟩
      · rw [he] at hfinish
        cases hfinish
        exact Nat.le_refl 0
      · rw [he] at hfinish
        cases hfinish
    | broken e => exact sound_error hi.in_range
    | unwritten => exact sound_error (in_range_err Error.noConfusion)
    | connect => exact trivial
    | line l => exact trivial
  | repl session w => exact sound_repl i h hi
  | done r => exact h

theorem sound_run {s : (task P client secret).State} {log : Log}
    (h : RunsIf (task P client secret) (fun _ i => i.FromStream) s log) : Sound (P := P) s := by
  have hidle : Sound (P := P) .idle := trivial
  exact h.inv (fun s _ => Sound (P := P) s) hidle fun _ _ i hs hi => sound_step i hs hi

end Interactive

end NoiseTunnel
