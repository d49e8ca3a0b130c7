import NoiseTunnel.Framing
import NoiseTunnel.Replay
import NoiseTunnel.Replies
/-!
# The server's turns

The loop on a stream is the loop over the frames read off it. As long as it
goes on, the receiving counter and the filter agree: both have had exactly the
numbers below the counter.
-/
open Rust

namespace NoiseTunnel

/-! ## Loops over frames -/

/-- A loop of turns over the frames that come. At the end it still runs or it has ended. -/
def feed {σ : Type} (turn : σ → WireFrame → Exec (ControlFlow σ)) (self : σ) :
    List WireFrame → Exec (ControlFlow σ)
  | [] => return .cont self
  | frame :: frames => do
    match ← turn self frame with
    | .cont self => feed turn self frames
    | .done self => return .done self

namespace ServerSession

/-- `transport_loop` with another turn. -/
def loop (turn : ServerSession → WireFrame → Exec (ControlFlow ServerSession)) (self : ServerSession)
    (stream : Bytes) : Exec ServerSession :=
  match _h : WireFrame.read_from stream with
  | .error (.err _) => return self
  | .error (.panic p) => throw (.panic p)
  | .ok (frame, stream) => do
    match ← turn self frame with
    | .cont self => loop turn self stream
    | .done self => return self
termination_by stream.length
decreasing_by
  obtain ⟨-, rfl⟩ := WireFrame.read_from_eq_ok.1 _h
  simp

/-- The end of the loop when `e` stops the next read. -/
def finish (e : Stop Error) : ControlFlow ServerSession → Exec ServerSession
  | .done self => return self
  | .cont self =>
    match e with
    | .err _ => return self
    | .panic p => throw (.panic p)

variable {P : Primitives} {s : ServerSession} {n : Nat} {f : WireFrame} {fs : List WireFrame}
  {stream aad pt ct : Bytes} {t : MessageType} {c' : CipherState}
  {rx' : CipherState}

theorem loop_eq_feed {turn : ServerSession → WireFrame → Exec (ControlFlow ServerSession)} :
    loop turn s stream = feed turn s (WireFrame.read_all stream).1 >>= finish (WireFrame.read_all stream).2 := by
  induction h : stream.length using Nat.strongRecOn generalizing s stream with
  | _ n ih =>
    unfold loop
    cases hr : WireFrame.read_from stream with
    | error e =>
      rw [WireFrame.read_all_error hr]
      cases e <;> rfl
    | ok y =>
      obtain ⟨f, rest⟩ := y
      have hlt : rest.length < n := h ▸ WireFrame.read_from_length_lt hr
      rw [WireFrame.read_all_ok hr, feed, Act.bind_assoc]
      dsimp only
      congr 1
      funext c
      cases c with
      | cont s' => exact ih rest.length hlt rfl
      | done s' => rfl

theorem transport_loop_eq (P : Primitives) : s.transport_loop P stream = loop (transport_frame P) s stream := by
  induction h : stream.length using Nat.strongRecOn generalizing s stream with
  | _ n ih =>
    unfold loop transport_loop
    cases hr : WireFrame.read_from stream with
    | error e => cases e <;> rfl
    | ok y =>
      obtain ⟨f, rest⟩ := y
      have hlt : rest.length < n := h ▸ WireFrame.read_from_length_lt hr
      dsimp only
      congr 1
      funext c
      cases c with
      | cont s' => exact ih rest.length hlt rfl
      | done s' => rfl

theorem transport_loop_log (P : Primitives) :
    (s.transport_loop P stream).log = (feed (transport_frame P) s (WireFrame.read_all stream).1).log := by
  obtain ⟨e, he⟩ := WireFrame.read_all_err stream
  rw [transport_loop_eq, loop_eq_feed, he]
  cases hr : (feed (transport_frame P) s (WireFrame.read_all stream).1).res with
  | error e' => rw [Act.bind_of_error hr]
  | ok c =>
    rw [Act.bind_of_ok hr]
    cases c <;> exact List.append_nil _

/-! ## The counter and the filter -/

/-- The receiving counter is at `n`, and the filter has had the numbers below it. -/
structure Synced (s : ServerSession) (n : Nat) : Prop where
  nonce : s.rx_cipher.nonce.toNat = n
  tracks : s.replay_filter.Tracks (Finset.range n) n

theorem synced_start (k k' : Key) : Synced (.start (CipherState.new k, CipherState.new k')) 0 where
  nonce := rfl
  tracks := ReplayFilter.tracks_with_window_size _

/-- What the cipher accepts, the filter accepts. -/
theorem Synced.takes (h : Synced s n) (hn : n + 1 < 2 ^ 64)
    (hd : s.rx_cipher.decrypt P f.payload aad f.nonce = .ok (rx', .ok pt)) :
    ∃ filter', s.replay_filter.validate_and_record P.overflow_checks f.nonce = .ok (filter', .ok ()) ∧
      Synced (s.took rx' filter') (n + 1) := by
  obtain ⟨hnonce, -, hadd, -⟩ := CipherState.decrypt_eq_ok.1 hd
  obtain ⟨filter', hv, ht⟩ := h.tracks.next hn P.overflow_checks (hnonce ▸ h.nonce)
  refine ⟨filter', hv, ?_, ht⟩
  rw [took, add_one_mod hadd, h.nonce, Nat.mod_eq_of_lt hn]

/-- What a turn preserves. -/
theorem Synced.turn {s' : ServerSession} (h : Synced s n) (hn : n + 1 < 2 ^ 64)
    (ht : (s.transport_frame P f).res = .ok (.cont s')) : ∃ m ≤ n + 1, Synced s' m := by
  rcases s.transport_frame_cases P f with ⟨-, hr⟩ | ⟨-, hr⟩ | ⟨aad, -, ⟨e, hr⟩ | ⟨pt, filter', rx', hv, hd, hanswer⟩⟩
  · rw [hr] at ht
    cases ht
  · rw [hr] at ht
    cases ht
    exact ⟨n, Nat.le_succ n, h.nonce, h.tracks⟩
  · rw [hr] at ht
    cases ht
  · rcases hanswer with ⟨e, hr⟩ | ⟨ct, tx', -, hr⟩
    · rw [hr] at ht
      cases ht
    · obtain ⟨filter'', hv', hsynced⟩ := h.takes hn hd
      rw [hv] at hv'
      cases hv'
      rw [hr] at ht
      cases ht
      exact ⟨n + 1, Nat.le_refl _, hsynced.nonce, hsynced.tracks⟩

/-- What a run of turns preserves. -/
theorem Synced.feed {s' : ServerSession} (h : Synced s n) (hn : n + fs.length < 2 ^ 64)
    (hf : (NoiseTunnel.feed (transport_frame P) s fs).res = .ok (.cont s')) : ∃ m ≤ n + fs.length, Synced s' m := by
  induction fs generalizing s n with
  | nil =>
    cases hf
    exact ⟨n, Nat.le_refl n, h⟩
  | cons f fs ih =>
    rw [List.length_cons] at hn ⊢
    obtain ⟨c, ht, hrest⟩ := Act.bind_res_ok.1 hf
    cases c with
    | done s₁ => cases hrest
    | cont s₁ =>
      obtain ⟨m, hm, hsynced⟩ := h.turn (by omega) ht
      obtain ⟨m', hm', hend⟩ := ih hsynced (by omega) hrest
      exact ⟨m', by omega, hend⟩

/-! ## Messages in order -/

/-- The session has taken in `n` messages and answered each. -/
structure Ready (s : ServerSession) (n : Nat) : Prop extends Synced s n where
  tx_nonce : s.tx_cipher.nonce.toNat = n

theorem ready_start (k k' : Key) : Ready (.start (CipherState.new k, CipherState.new k')) 0 where
  toSynced := synced_start k k'
  tx_nonce := rfl

/-- The next message, encrypted by a sender in step, is taken in and answered. -/
theorem Ready.answers (hP : P.Correct) (h : Ready s n) (he : s.rx_cipher.encrypt P pt aad = (c', .ok ct))
    (ht : Carries t aad) (hvalid : WireFrame.is_valid_payload_size ct.length) :
    ∃ ct' s', s.transport_frame P ⟨t, s.rx_cipher.nonce, ct⟩ =
        ⟨openedLog s.rx_cipher ⟨t, s.rx_cipher.nonce, ct⟩ aad pt ++ sealedLog s.tx_cipher t (answerTo t pt) aad ct',
          .ok (.cont s')⟩ ∧
      Ready s' (n + 1) ∧ s'.rx_cipher = c' ∧ s.tx_cipher.encrypt P (answerTo t pt) aad = (s'.tx_cipher, .ok ct') ∧
      s'.session_metrics = (s.session_metrics.record_rx (ct.length + 13)).record_tx (ct'.length + 13) := by
  have hn : n + 1 < 2 ^ 64 := h.nonce ▸ (CipherState.encrypt_next he).2
  have hd := CipherState.decrypt_encrypted hP he
  obtain ⟨filter', hv, hsynced⟩ := h.takes (f := ⟨t, s.rx_cipher.nonce, ct⟩) hn hd
  rcases transport_frame_taken P s ht hv hd with ⟨ct', tx', hen, hturn⟩ | ⟨e, -, hfail⟩
  · refine ⟨ct', _, hturn, ⟨⟨hsynced.nonce, hsynced.tracks⟩, ?_⟩, rfl, hen, rfl⟩
    have hnext := checked_add_one (CipherState.encrypt_eq_ok.1 hen).2.1
    rw [h.tx_nonce] at hnext
    exact hnext
  · refine absurd ?_ (hfail hP (answerTo_encryptable hP (f := ⟨t, s.rx_cipher.nonce, ct⟩) hvalid
      (CipherState.aead_decrypt_encrypted hP he)))
    rw [h.tx_nonce]
    exact hn

end ServerSession

end NoiseTunnel
