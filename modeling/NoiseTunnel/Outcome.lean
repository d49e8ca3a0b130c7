import NoiseTunnel.Loops
/-!
# The server's loop, without its state

What the loop makes of a frame depends on the two keys, on the frame, and on
how many messages came before it. Ciphers, counters, filter and statistics are
gone from this account: the replies are the verdicts up to the first refusal,
and the refusal is how the session ends.
-/
open Rust

namespace NoiseTunnel

open WireFrame

/-! ## Verdicts -/

/-- The results up to the first error, and that error. -/
def upToError {ε α : Type} : List (Except ε α) → List α × Option ε
  | [] => ([], none)
  | .ok a :: rs => (a :: (upToError rs).1, (upToError rs).2)
  | .error e :: _ => ([], some e)

/-- The associated data of the messages of a type. -/
def associated : MessageType → Bytes
  | .Heartbeat => HEARTBEAT
  | _ => TUNNEL_DATA

/-- What the server makes of `f` after `n` messages: the reply, or the check that fails. -/
def verdict (P : Primitives) (rx_key tx_key : Key) (n : ℕ) (f : WireFrame) : Except Error WireFrame :=
  if f.nonce.toNat < n then
    .error (if n ≤ f.nonce.toNat + 128 then .replay_seen f.nonce else .replay_too_old f.nonce REPLAY_WINDOW_SIZE)
  else if n < f.nonce.toNat then .error (.nonce_order (UInt64.ofNat n) f.nonce)
  else
    match P.aead_decrypt rx_key (CipherState.build_nonce f.nonce) f.payload (associated f.msg_type) with
    | none => .error .aead_decrypt
    | some plaintext =>
      match P.aead_encrypt tx_key (CipherState.build_nonce f.nonce) (ServerSession.answerTo f.msg_type plaintext)
        (associated f.msg_type) with
      | none => .error .aead_encrypt
      | some ciphertext => .ok ⟨f.msg_type, f.nonce, ciphertext⟩

/-- The verdicts on the messages among `fs`, `n` of which came before. -/
def verdicts (P : Primitives) (rx_key tx_key : Key) (n : ℕ) (fs : List WireFrame) : List (Except Error WireFrame) :=
  ((ServerSession.up_to_close fs).filter ServerSession.answerable).mapIdx fun i f => verdict P rx_key tx_key (n + i) f

/-- A computation writes the replies and ends as the verdicts say. -/
structure Bears {α : Type} (x : Exec α) (r : List WireFrame × Option Error) : Prop where
  replies : frames x.log = r.1
  ends : match r.2 with
    | none => ∃ a, x.res = .ok a
    | some e => x.res = .error (.err e)

/-! ## The filter -/

/-- A number below the counter was seen or is too old. -/
theorem ReplayFilter.Tracks.refuses {filter : ReplayFilter} {n : ℕ} {seq : UInt64} (h : filter.Tracks (Finset.range n) n)
    (hw : filter.window_size = REPLAY_WINDOW_SIZE) (hn : n + 1 < 2 ^ 64) (hs : seq.toNat < n) (c : Bool) :
    ∃ filter', filter.validate_and_record c seq =
      .ok (filter', .error (if n ≤ seq.toNat + 128 then .replay_seen seq else .replay_too_old seq REPLAY_WINDOW_SIZE)) := by
  obtain ⟨m, rfl⟩ : ∃ m, n = m + 1 := ⟨n - 1, by omega⟩
  obtain ⟨filter', r, hv, -⟩ := h.call hn c seq
  have hinit : ¬filter.initialized = false := fun hi => by
    have hempty := Finset.range_eq_empty_iff.1 (h.unset hi)
    exact Nat.succ_ne_zero m hempty
  have hwin := h.window (by simpa using hinit)
  have hlast : filter.last_seq.toNat = m := hwin.last_eq.trans (Window.top_range_succ m)
  have hsize : filter.window_size.toNat = 128 := by rw [hw]; rfl
  refine ⟨filter', ?_⟩
  have hr := ReplayFilter.validate_and_record_eq_ok hv
  unfold ReplayFilter.recorded at hr
  rw [if_neg hinit, if_neg (by omega)] at hr
  by_cases hold : filter.window_size.toNat ≤ filter.last_seq.toNat - seq.toNat
  · rw [if_pos hold] at hr
    rw [hv, if_neg (by omega), ← hw]
    rw [← (Prod.mk.inj hr).2]
  · have hbit : filter.bitmap.getLsbD (filter.last_seq.toNat - seq.toNat) = true := by
      refine (hwin.bit_iff _ (by omega) (by omega)).2 (Finset.mem_range.2 (by omega))
    rw [if_neg hold, if_pos hbit] at hr
    rw [hv, if_pos (by omega)]
    rw [← (Prod.mk.inj hr).2]

/-- A number from the counter on is accepted. -/
theorem ReplayFilter.Tracks.admits {filter : ReplayFilter} {n : ℕ} {seq : UInt64} (h : filter.Tracks (Finset.range n) n)
    (hn : n + 1 < 2 ^ 64) (hs : n ≤ seq.toNat) (c : Bool) :
    ∃ filter', filter.validate_and_record c seq = .ok (filter', .ok ()) := by
  have haccept : Window.Accepts filter.window_size.toNat (Finset.range n) seq.toNat := by
    cases n with
    | zero => exact .inl Finset.range_zero
    | succ m => exact .inr (.inl (by rw [Window.top_range_succ]; exact hs))
  obtain ⟨filter', r, hv, -, hr, -⟩ := h.call hn c seq
  exact ⟨filter', hr.2 haccept ▸ hv⟩

/-! ## Turns -/

namespace ServerSession

variable {P : Primitives} {rx_key tx_key : Key} {s : ServerSession} {n : ℕ} {f : WireFrame} {fs : List WireFrame}
  {aad pt : Bytes} {filter' : ReplayFilter} {e : Error}

/-- The session has answered `n` messages under its two keys. -/
structure Stage (rx_key tx_key : Key) (s : ServerSession) (n : ℕ) : Prop extends Ready s n where
  rx_key : s.rx_cipher.key = rx_key
  tx_key : s.tx_cipher.key = tx_key
  window : s.replay_filter.window_size = REPLAY_WINDOW_SIZE

theorem stage_start (rx_key tx_key : Key) :
    Stage rx_key tx_key (start (CipherState.new rx_key, CipherState.new tx_key)) 0 where
  toReady := ready_start rx_key tx_key
  rx_key := rfl
  tx_key := rfl
  window := rfl

theorem Stage.rx_nonce (h : Stage rx_key tx_key s n) : s.rx_cipher.nonce = UInt64.ofNat n := by
  rw [← h.nonce, UInt64.ofNat_toNat]

theorem associated_of (h : Carries f.msg_type aad) : associated f.msg_type = aad := by
  generalize f.msg_type = t at h
  cases h <;> rfl

/-- A frame that is not taken in. -/
theorem turn_refused {x : Stop Error} (ht : Carries f.msg_type aad)
    (hr : (s.counted f).receive P f aad = ⟨[], .error x⟩) : s.transport_frame P f = ⟨[], .error x⟩ := by
  rw [transport_frame_carries P s ht, hr, Act.mk_error_bind]

/-- The filter refuses a frame. -/
theorem receive_filtered (hv : s.replay_filter.validate_and_record P.overflow_checks f.nonce = .ok (filter', .error e)) :
    s.receive P f aad = ⟨[], .error (.err e)⟩ := by
  rw [receive, Exec.validate_and_record, hv]
  rfl

/-- The cipher refuses a frame. -/
theorem receive_undecrypted {rx' : CipherState}
    (hv : s.replay_filter.validate_and_record P.overflow_checks f.nonce = .ok (filter', .ok ()))
    (hd : s.rx_cipher.decrypt P f.payload aad f.nonce = .ok (rx', .error e)) :
    s.receive P f aad = ⟨[], .error (.err e)⟩ := by
  rw [receive, Exec.validate_and_record, hv, Exec.decrypt, hd]
  rfl

/-- A frame that is taken in and answered. -/
theorem turn_answered {rx' tx' : CipherState} {ct : Bytes} (ht : Carries f.msg_type aad)
    (hv : s.replay_filter.validate_and_record P.overflow_checks f.nonce = .ok (filter', .ok ()))
    (hd : s.rx_cipher.decrypt P f.payload aad f.nonce = .ok (rx', .ok pt))
    (he : s.tx_cipher.encrypt P (answerTo f.msg_type pt) aad = (tx', .ok ct)) :
    s.transport_frame P f =
      ⟨openedLog s.rx_cipher f aad pt ++ sealedLog s.tx_cipher f.msg_type (answerTo f.msg_type pt) aad ct,
        .ok (.cont (((s.counted f).took rx' filter').sentFrame tx' ⟨f.msg_type, s.tx_cipher.nonce, ct⟩))⟩ := by
  rw [transport_frame_carries P s ht, receive_of P (s.counted f) hv hd, Act.mk_ok_bind]
  unfold reply
  dsimp only [took, counted]
  rw [Exec.encrypt_ok he]
  rfl

/-- A frame that is taken in and whose answer fails. -/
theorem turn_unanswered {rx' : CipherState} (ht : Carries f.msg_type aad)
    (hv : s.replay_filter.validate_and_record P.overflow_checks f.nonce = .ok (filter', .ok ()))
    (hd : s.rx_cipher.decrypt P f.payload aad f.nonce = .ok (rx', .ok pt))
    (he : s.tx_cipher.encrypt P (answerTo f.msg_type pt) aad = (s.tx_cipher, .error e)) :
    s.transport_frame P f = ⟨openedLog s.rx_cipher f aad pt, .error (.err e)⟩ := by
  have hfail : Exec.encrypt P s.tx_cipher (answerTo f.msg_type pt) aad = ⟨[], .error (.err e)⟩ := by
    rw [Exec.encrypt, he]
    rfl
  rw [transport_frame_carries P s ht, receive_of P (s.counted f) hv hd, Act.mk_ok_bind]
  unfold reply
  dsimp only [took, counted]
  rw [hfail]
  rfl

/-- The turn of a message is its verdict. -/
theorem Stage.turn (h : Stage rx_key tx_key s n) (hn : n + 1 < 2 ^ 64) (ht : Carries f.msg_type aad) :
    match verdict P rx_key tx_key n f with
    | .ok reply => ∃ s', frames (s.transport_frame P f).log = [reply] ∧
        (s.transport_frame P f).res = .ok (.cont s') ∧ Stage rx_key tx_key s' (n + 1)
    | .error e => frames (s.transport_frame P f).log = [] ∧ (s.transport_frame P f).res = .error (.err e) := by
  have haad := associated_of ht
  unfold verdict
  by_cases hlt : f.nonce.toNat < n
  · rw [if_pos hlt]
    obtain ⟨filter', hv⟩ := h.tracks.refuses h.window hn hlt P.overflow_checks
    rw [turn_refused ht (receive_filtered hv)]
    exact ⟨rfl, rfl⟩
  rw [if_neg hlt]
  obtain ⟨filter', hv⟩ := h.tracks.admits hn (Nat.not_lt.1 hlt) P.overflow_checks
  by_cases hgt : n < f.nonce.toNat
  · rw [if_pos hgt]
    have hne : f.nonce ≠ s.rx_cipher.nonce := fun he => by
      rw [he, h.nonce] at hgt
      exact Nat.lt_irrefl n hgt
    have hd : s.rx_cipher.decrypt P f.payload aad f.nonce =
        .ok (s.rx_cipher, .error (.nonce_order s.rx_cipher.nonce f.nonce)) := if_pos hne
    rw [turn_refused ht (receive_undecrypted hv hd), h.rx_nonce]
    exact ⟨rfl, rfl⟩
  rw [if_neg hgt]
  have heq : f.nonce = s.rx_cipher.nonce := UInt64.toNat_inj.1 (by rw [h.nonce]; omega)
  have hrx : s.rx_cipher.nonce.toNat + 1 < 2 ^ 64 := by rw [h.nonce]; exact hn
  have htx : s.tx_cipher.nonce = f.nonce := UInt64.toNat_inj.1 (by rw [h.tx_nonce, heq, h.nonce])
  rw [haad, ← h.rx_key, ← h.tx_key]
  cases hpt : P.aead_decrypt s.rx_cipher.key (CipherState.build_nonce f.nonce) f.payload aad with
  | none =>
    have hd : s.rx_cipher.decrypt P f.payload aad f.nonce = .ok (s.rx_cipher, .error .aead_decrypt) := by
      unfold CipherState.decrypt
      rw [if_neg (not_not.2 heq), hpt]
    rw [turn_refused ht (receive_undecrypted hv hd)]
    exact ⟨rfl, rfl⟩
  | some pt =>
    have hd : s.rx_cipher.decrypt P f.payload aad f.nonce = .ok (⟨s.rx_cipher.key, s.rx_cipher.nonce + 1⟩, .ok pt) := by
      rw [heq] at hpt ⊢
      exact CipherState.decrypt_of hpt hrx
    obtain ⟨filter'', hv', hsynced⟩ := h.takes hn hd
    have hwindow : filter''.window_size = REPLAY_WINDOW_SIZE := by
      have hsize := s.replay_filter.recorded_window_size f.nonce
      rwa [ReplayFilter.validate_and_record_eq_ok hv', h.window] at hsize
    rw [← htx]
    dsimp only
    cases hct : P.aead_encrypt s.tx_cipher.key (CipherState.build_nonce s.tx_cipher.nonce) (answerTo f.msg_type pt) aad with
    | none =>
      have he : s.tx_cipher.encrypt P (answerTo f.msg_type pt) aad = (s.tx_cipher, .error .aead_encrypt) := by
        rw [CipherState.encrypt, hct]
      rw [turn_unanswered ht hv' hd he]
      exact ⟨rfl, rfl⟩
    | some ct =>
      have htxlt : s.tx_cipher.nonce.toNat + 1 < 2 ^ 64 := by rw [h.tx_nonce]; exact hn
      rw [turn_answered ht hv' hd (CipherState.encrypt_of hct htxlt)]
      refine ⟨_, by simp [frames, openedLog, sealedLog], rfl, ⟨⟨hsynced.nonce, hsynced.tracks⟩, ?_⟩, rfl, rfl, hwindow⟩
      exact (toNat_add_one htxlt).trans (congrArg (· + 1) h.tx_nonce)

theorem verdicts_cons (P : Primitives) (rx_key tx_key : Key) (n : ℕ) (f : WireFrame) (fs : List WireFrame) :
    verdicts P rx_key tx_key n (f :: fs) =
      if f.is_close then []
      else if f.is_handshake then verdicts P rx_key tx_key n fs
      else verdict P rx_key tx_key n f :: verdicts P rx_key tx_key (n + 1) fs := by
  rw [verdicts, up_to_close, verdicts, verdicts]
  cases hclose : f.is_close with
  | true => simp [answerable, hclose]
  | false =>
    cases hskip : f.is_handshake with
    | true => simp [answerable, hskip]
    | false => simp [answerable, hclose, hskip, List.mapIdx_cons, Nat.add_assoc, Nat.add_comm 1]

/-- By induction on the frames: as many messages have been answered as verdicts are behind. -/
theorem Stage.feed (h : Stage rx_key tx_key s n) (hn : n + fs.length < 2 ^ 64) :
    Bears (NoiseTunnel.feed (transport_frame P) s fs) (upToError (verdicts P rx_key tx_key n fs)) := by
  induction fs generalizing s n with
  | nil => exact ⟨rfl, _, rfl⟩
  | cons f fs ih =>
    rw [List.length_cons] at hn
    rw [verdicts_cons, NoiseTunnel.feed]
    cases hclose : f.is_close with
    | true =>
      rw [transport_frame_close P s (is_close_iff.1 hclose)]
      exact ⟨rfl, _, rfl⟩
    | false =>
    cases hskip : f.is_handshake with
    | true =>
      rw [transport_frame_handshake P s (is_handshake_iff.1 hskip), Act.mk_ok_bind]
      exact ih (s := s.counted f) ⟨⟨⟨h.nonce, h.tracks⟩, h.tx_nonce⟩, h.rx_key, h.tx_key, h.window⟩ (by omega)
    | false =>
      obtain ⟨aad, ht⟩ := carries_of hclose hskip
      have hturn := h.turn (P := P) (by omega) ht
      simp only [Bool.false_eq_true, if_false]
      cases hv : verdict P rx_key tx_key n f with
      | ok reply =>
        rw [hv] at hturn
        obtain ⟨s', hlog, hres, hstage⟩ := hturn
        obtain ⟨hreplies, hends⟩ := ih hstage (by omega)
        rw [Act.bind_of_ok hres]
        exact ⟨by rw [frames_append, hlog, hreplies]; rfl, hends⟩
      | error e =>
        rw [hv] at hturn
        rw [Act.bind_of_error hturn.2]
        exact ⟨hturn.1, rfl⟩

theorem loop_bears (P : Primitives) (rx_key tx_key : Key) (stream : Bytes) (hn : (read_all stream).1.length < 2 ^ 64) :
    Bears ((start (CipherState.new rx_key, CipherState.new tx_key)).transport_loop P stream)
      (upToError (verdicts P rx_key tx_key 0 (read_all stream).1)) := by
  obtain ⟨hreplies, hends⟩ :
      Bears (feed (transport_frame P) (start (CipherState.new rx_key, CipherState.new tx_key)) (read_all stream).1)
        (upToError (verdicts P rx_key tx_key 0 (read_all stream).1)) :=
    (stage_start rx_key tx_key).feed (by omega)
  refine ⟨by rw [transport_loop_log, hreplies], ?_⟩
  obtain ⟨e, he⟩ := read_all_err stream
  rw [transport_loop_eq, loop_eq_feed, he]
  generalize (upToError (verdicts P rx_key tx_key 0 (read_all stream).1)).2 = refusal at hends ⊢
  cases refusal with
  | none =>
    obtain ⟨c, hc⟩ := hends
    rw [Act.bind_of_ok hc]
    cases c <;> exact ⟨_, rfl⟩
  | some e => rw [Act.bind_of_error hends]

/-- What a session makes of fewer than 2^64 frames: of the messages before the
first `Close`, each is judged by its position, the keys and nothing else. The
session writes the replies up to the first that is refused, and ends with that
refusal's error, or well if there is none. Over fewer than 2^62 bytes its
statistics do not come to 2^64. -/
theorem loop_outcome (P : Primitives) (rx_key tx_key : Key) (stream : Bytes) (hn : (read_all stream).1.length < 2 ^ 64) :
    let x := (start (CipherState.new rx_key, CipherState.new tx_key)).transport_loop P stream
    Bears x (upToError (verdicts P rx_key tx_key 0 (read_all stream).1)) ∧
      (P.Correct → stream.length < 2 ^ 62 → wire_bytes (frames x.log) + wire_bytes (read_all stream).1 < 2 ^ 64) :=
  ⟨loop_bears P rx_key tx_key stream hn, fun hP => loop_bytes hP _⟩

/-- A message and its replay. -/
theorem loop_outcome_replay :
    let stream := serialize_all_into [Concrete.question "a", Concrete.question "a"] []
    (frames (Concrete.session.transport_loop (Concrete.primitives true) stream).log).length = 1 ∧
      (Concrete.session.transport_loop (Concrete.primitives true) stream).res = .error (.err (.replay_seen 0)) := by
  intro stream
  have hread : (read_all stream).1 = [Concrete.question "a", Concrete.question "a"] := by
    rw [show stream = _ from serialize_all_into_eq _ _, List.nil_append, read_all_whole (by decide)]
  have hlen : (read_all stream).1.length < 2 ^ 64 := by
    rw [hread]
    decide
  obtain ⟨⟨hreplies, hends⟩, -⟩ := loop_outcome (Concrete.primitives true) (Concrete.key 5) (Concrete.key 6) stream hlen
  rw [hread] at hreplies hends
  have hrefusal : (upToError (verdicts (Concrete.primitives true) (Concrete.key 5) (Concrete.key 6) 0
      [Concrete.question "a", Concrete.question "a"])).2 = some (.replay_seen 0) := by decide +kernel
  rw [hrefusal] at hends
  exact ⟨by rw [Concrete.session, hreplies]; decide +kernel, hends⟩

end ServerSession

end NoiseTunnel
