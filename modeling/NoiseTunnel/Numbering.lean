import NoiseTunnel.Standing
/-!
# Frame numbers

How a session numbers its frames after the handshake, in every run and
whatever it is sent. The sending counter ends the session before it could wrap,
and the receiving counter, which the code lets wrap, is not used after that.
-/
open Rust Reactive Numbered

namespace NoiseTunnel

variable {P : Primitives} {log l : Log}

theorem opens_quiet (h : Quiet l) : opens (log ++ l) = opens log := by
  rw [opens_append, h.opens, List.append_nil]

theorem seals_quiet (h : Quiet l) : seals (log ++ l) = seals log := by
  rw [seals_append, h.seals, List.append_nil]

/-! ## Opened and sealed -/

namespace Interactive

/-- The client has opened no more frames than it has sealed, and one less while it waits. -/
def Ahead : Interactive P → Log → Prop
  | repl _ .line, log => (opens log).length ≤ (seals log).length
  | repl _ (.frame _), log => (opens log).length + 1 ≤ (seals log).length
  | done _, log => (opens log).length ≤ (seals log).length
  | _, _ => False

variable {client : TunnelClient} {secret : Key} {s : Interactive P} {session session' : ClientSession} {w : Waiting}

theorem Ahead.le (h : Ahead s log) : (opens log).length ≤ (seals log).length := by
  cases s with
  | idle => exact h.elim
  | await_resp started => exact h.elim
  | done r => exact h
  | repl session w =>
    cases w with
    | line => exact h
    | frame a => exact Nat.le_of_succ_le h

theorem Ahead.quiet (h : Ahead (P := P) (.repl session w) log) (hl : Quiet l) :
    Ahead (P := P) (.repl session' w) (log ++ l) := by
  have hopens : opens (log ++ l) = opens log := opens_quiet hl
  have hseals : seals (log ++ l) = seals log := seals_quiet hl
  cases w <;>
  · simp only [Ahead, hopens, hseals]
    exact h

theorem ahead_step (i : Input) (h : Ahead s log) :
    Ahead (step P client secret s i).2 (log ++ (step P client secret s i).1) := by
  cases s with
  | idle => exact h.elim
  | await_resp started => exact h.elim
  | done r => exact (List.append_nil log).symm ▸ h
  | repl session w =>
    have hle := h.le
    have hturn := repl_turn P client secret session w i
    generalize step P client secret (repl session w) i = next at hturn ⊢
    cases hturn with
    | stays m hl => exact h.quiet hl
    | ended hl =>
      rw [Ahead, opens_quiet hl, seals_quiet hl]
      exact hle
    | @asked line t pt aad ct tx' a hw hreq he =>
      have hcount : (opens (log ++ sealedLog session.tx_cipher t pt aad ct)).length + 1 ≤
          (seals (log ++ sealedLog session.tx_cipher t pt aad ct)).length := by
        rw [opens_append, seals_append, List.length_append, List.length_append]
        exact Nat.succ_le_succ hle
      exact hcount
    | skipped m hl hw hskip =>
      rw [Ahead, opens_quiet hl, seals_quiet hl]
      exact hle
    | heard text hw ht hd =>
      subst hw
      rw [Ahead, opens_append, seals_append, List.length_append, List.length_append]
      exact h

theorem ahead_run {ciphers : CipherState × CipherState} {s : (resumed P client secret ciphers).State}
    (h : Runs (resumed P client secret ciphers) s log) : (opens log).length ≤ (seals log).length := by
  have hahead := h.inv Ahead (Nat.le_refl 0) fun _ _ i hs => ahead_step i hs
  exact hahead.le

end Interactive

namespace Serving

/-- The server has sealed an answer to every frame it has opened, but for the last one at the end. -/
def Behind : Serving → Log → Prop
  | transport _, log => (opens log).length = (seals log).length
  | done _, log => (opens log).length ≤ (seals log).length + 1
  | _, _ => False

variable {server_keys : KeyPair} {prologue : Bytes} {secret : Key} {s : Serving}

theorem Behind.le (h : Behind s log) : (opens log).length ≤ (seals log).length + 1 := by
  cases s with
  | await_init => exact h.elim
  | transport session => exact Nat.le_succ_of_le (Nat.le_of_eq h)
  | done r => exact h

theorem behind_step (i : Input) (h : Behind s log) :
    Behind (step P server_keys prologue secret s i).2 (log ++ (step P server_keys prologue secret s i).1) := by
  cases s with
  | await_init => exact h.elim
  | done r => exact (List.append_nil log).symm ▸ h
  | transport session =>
    have hle := h.le
    have heq : (opens log).length = (seals log).length := h
    have hturn := transport_turn P server_keys prologue secret session i
    generalize step P server_keys prologue secret (transport session) i = next at hturn ⊢
    cases hturn with
    | stays m => exact (List.append_nil log).symm ▸ heq
    | ended r => exact (List.append_nil log).symm ▸ hle
    | took e ht hd =>
      rw [Behind, opens_append, seals_append, List.length_append, List.length_append, heq]
      exact Nat.le_refl _
    | answered ht hd he =>
      rw [Behind, opens_append, seals_append, List.length_append, List.length_append, heq]
      rfl

theorem behind_run {ciphers : CipherState × CipherState} {s : (resumed P server_keys prologue secret ciphers).State}
    (h : Runs (resumed P server_keys prologue secret ciphers) s log) :
    (opens log).length ≤ (seals log).length + 1 := by
  have hbehind := h.inv Behind rfl fun _ _ i hs => behind_step i hs
  exact hbehind.le

end Serving

theorem Intact.seals_lt {k k' : Key} (h : Intact P k k' log) : (seals log).length < 2 ^ 64 := by
  apply h.sent.length_lt (by decide)
  intro s hs
  obtain ⟨i, hi⟩ := List.getElem?_of_mem hs
  obtain ⟨-, m, -, -, -, hlt, -⟩ := h.sent.record i s hi
  exact hlt

namespace OneShot

variable {H : Completed P} {message : String} {tx : CipherState} {pt : Bytes}

theorem Asked.counts (h : Asked H message tx log) : (opens log).length = 0 ∧ (seals log).length = 1 := by
  obtain ⟨ct, -, rfl⟩ := h
  exact ⟨rfl, rfl⟩

theorem Heard.counts (h : Heard H message tx pt log) : (opens log).length = 1 ∧ (seals log).length = 1 := by
  obtain ⟨l, f, rx, ha, -, -, rfl⟩ := h
  obtain ⟨hopens, hseals⟩ := ha.counts
  rw [opens_append, seals_append, List.length_append, List.length_append, hopens, hseals]
  exact ⟨rfl, rfl⟩

/-- The client with one message opens at most one frame, after it has sealed one. -/
theorem Talks.ahead (h : Talks H message log) : (opens log).length ≤ (seals log).length := by
  cases h with
  | silent => exact Nat.le_refl _
  | asked h =>
    obtain ⟨hopens, hseals⟩ := h.counts
    omega
  | heard h =>
    obtain ⟨hopens, hseals⟩ := h.counts
    omega
  | @parted tx pt l h =>
    obtain ⟨hopens, hseals⟩ := h.counts
    rw [opens_quiet (quiet_wrote _), seals_quiet (quiet_wrote _)]
    omega

end OneShot

/-- What was sealed is numbered 0, 1, 2 and so on, and so is what was opened, and neither sequence wraps. -/
structure NumberedOnce (side : Side) (log : Log) : Prop where
  seals : (seals log).map Seal.num = List.range (seals log).length
  seals_lt : (NoiseTunnel.seals log).length < 2 ^ 64
  opens : (opens log).map Seal.num = List.range (opens log).length
  opens_le : (NoiseTunnel.opens log).length ≤ 2 ^ 64
  client_opens_lt : side = .client → (NoiseTunnel.opens log).length < 2 ^ 64

theorem Intact.once {k k' : Key} {side : Side} (h : Intact P k k' log)
    (hopens : (opens log).length ≤ (seals log).length + 1)
    (hclient : side = .client → (opens log).length ≤ (seals log).length) : NumberedOnce side log := by
  have hseals := h.seals_lt
  have hle : (opens log).length ≤ 2 ^ 64 := by omega
  exact ⟨h.sent.numbered (Nat.le_of_lt hseals), hseals, h.received.numbered hle, hle, fun hs => by
    have := hclient hs
    omega⟩

/-- A run of a session has not come to its transport, or what it seals after its handshake is numbered 0, 1, 2
and so on, and so is what it opens. Neither sequence wraps, whatever it is sent and however long it runs. -/
theorem numbered_once (x : Session) {s : (x.task P).State} (h : Runs (x.task P) s log) :
    Early P x log ∨ Established P x (fun _ transport => NumberedOnce x.side transport) log := by
  cases x with
  | one_shot client secret message =>
    exact (OneShot.talks h).imp_right fun ht => ht.mono fun H t ht =>
      ht.intact.once (Nat.le_succ_of_le ht.ahead) fun _ => ht.ahead
  | interactive client secret =>
    refine (Interactive.splits h).imp_right fun hr => hr.mono fun H t hr => ?_
    have hle := Interactive.ahead_run hr
    exact (Interactive.intact_run hr).once (Nat.le_succ_of_le hle) fun _ => hle
  | server keys prologue secret =>
    exact (Serving.splits h).imp_right fun hr => hr.mono fun H t hr =>
      (Serving.intact_run hr).once (Serving.behind_run hr) Side.noConfusion

/-- A client with a message, in a run in which it gets its answer. -/
theorem Concrete.messaged_runs :
    (∃ s, Runs ((one_shot_pair true).task (primitives true)) s (proj true messaged)) ∧
      ¬Early (primitives true) (one_shot_pair true) (proj true messaged) := by
  refine ⟨⟨_, (World.play (fun k => (one_shot_pair k).task (primitives true)) one_message).runs true⟩, fun hearly => ?_⟩
  have hsent : sentPairs (proj true messaged) ≠ [] := by decide +kernel
  exact hsent hearly.2.1

theorem numbered_once_hei :
    Established (Concrete.primitives true) (.one_shot (Concrete.relay PROTOCOL_NAME).client (Concrete.key 21) "hei")
      (fun _ transport => NumberedOnce .client transport) (proj true Concrete.messaged) := by
  obtain ⟨⟨s, hruns⟩, hlate⟩ := Concrete.messaged_runs
  exact (numbered_once (Concrete.one_shot_pair true) hruns).resolve_left hlate

/-! ## What the wire shows -/

/-- What can be read off a frame without its key: type, number and length. -/
def shape (f : WireFrame) : MessageType × Nat × Nat := (f.msg_type, f.nonce.toNat, f.payload.length)

/-- The shapes that the types and lengths of the messages make. -/
def shapes (ms : List (MessageType × Bytes)) : List (MessageType × Nat × Nat) :=
  ms.mapIdx fun i m => (m.1, i, m.2.length + TAG_LEN)

theorem shapes_append (ms : List (MessageType × Bytes)) (m : MessageType × Bytes) :
    shapes (ms ++ [m]) = shapes ms ++ [(m.1, ms.length, m.2.length + TAG_LEN)] := by
  simp [shapes, List.mapIdx_append]

/-- The frames show the messages' types and lengths. -/
def Shaped (log : Log) : Prop := (frames log).map shape = shapes (sentPairs log)

/-- And then there is a `Close`, which carries the next number. -/
def Parted (log : Log) : Prop :=
  (frames log).map shape = shapes (sentPairs log) ++ [(.Close, (sentPairs log).length, 0)]

section
variable {k k' : Key} {tx rx tx' : CipherState} {t : MessageType} {pt aad ct : Bytes}

theorem Shaped.same (h : Shaped log) (hf : frames l = []) (hs : sentPairs l = []) : Shaped (log ++ l) := by
  rw [Shaped, frames_append, sentPairs_append, hf, hs, List.append_nil, List.append_nil]
  exact h

theorem Carrying.nonce_eq (h : Carrying P k k' log tx rx) : tx.nonce.toNat = (sentPairs log).length := by
  have hlt := h.intact.seals_lt
  rw [h.tx_nonce, Nat.mod_eq_of_lt hlt, h.intact.sent.length_eq]

theorem Shaped.close (h : Shaped log) (hc : Carrying P k k' log tx rx) (hf : frames l = [⟨.Close, tx.nonce, []⟩])
    (hs : sentPairs l = []) : Parted (log ++ l) := by
  rw [Parted, frames_append, sentPairs_append, hf, hs, List.append_nil, List.map_append, h, ← hc.nonce_eq]
  rfl

theorem Shaped.sent (hP : P.Correct) (h : Shaped log) (hc : Carrying P k k' log tx rx)
    (he : tx.encrypt P pt aad = (tx', .ok ct)) (hf : frames l = [⟨t, tx.nonce, ct⟩]) (hs : sentPairs l = [(t, pt)]) :
    Shaped (log ++ l) := by
  have hlen := hP.encrypt_length _ _ _ _ _ (CipherState.encrypt_eq_ok.1 he).1
  rw [Shaped, frames_append, sentPairs_append, hf, hs, List.map_append, h, shapes_append, ← hc.nonce_eq, ← hlen]
  rfl

end

theorem ClientSession.frames_repl_frame (s : ClientSession) (a : Awaited) (f : WireFrame) :
    frames (s.repl_frame P a f).log = [] := by
  have hanswer (aad : Bytes) (label : String) : frames ((s.counted f).answer P f aad label).log = [] := by
    rcases (s.counted f).answer_cases P f aad label with ⟨pt, rx', -, he⟩ | ⟨e, he⟩ <;> rw [he] <;> rfl
  cases a with
  | pong =>
    by_cases hf : f.msg_type = .Heartbeat
    · rw [repl_frame_pong P s hf, Act.bind_pure_map]
      exact hanswer _ _
    · exact congrArg (fun x : Exec _ => frames x.log) (if_neg hf)
  | reply =>
    by_cases hf : f.msg_type = .DataPayload
    · rw [repl_frame_reply P s hf, Act.bind_pure_map]
      exact hanswer _ _
    · by_cases hc : f.msg_type = .Close
      · exact congrArg (fun x : Exec _ => frames x.log) ((if_neg hf).trans (if_pos hc))
      · exact congrArg (fun x : Exec _ => frames x.log) ((if_neg hf).trans (if_neg hc))

namespace Interactive

/-- What one input makes the loop write. -/
inductive Writes (P : Primitives) (s : ClientSession) : Log × Interactive P → Prop
  | nothing {l : Log} {next : Interactive P} (hf : frames l = []) (hs : sentPairs l = []) : Writes P s (l, next)
  | request {t : MessageType} {pt aad ct : Bytes} {tx' : CipherState} (s' : ClientSession) (a : Awaited)
      (he : s.tx_cipher.encrypt P pt aad = (tx', .ok ct)) :
      Writes P s (sealedLog s.tx_cipher t pt aad ct, repl s' (.frame a))
  | close {l : Log} (hf : frames l = [⟨.Close, s.tx_cipher.nonce, []⟩]) (hs : sentPairs l = []) :
      Writes P s (l, done (.ok ()))

variable {client : TunnelClient} {secret : Key} {s : Interactive P} {k k' : Key}

theorem writes_line (session : ClientSession) (line : Option String) :
    Writes P session (step P client secret (repl session .line) (.line line)) := by
  cases line with
  | none => exact .nothing rfl rfl
  | some l =>
    simp only [step]
    rcases session.repl_line_some P client l with
      ⟨-, log, hq, hf, he⟩ | ⟨log, hq, hf, he⟩ | ⟨t, pt, aad, w, hreq, -, -, he⟩
    · rw [he, settle_ok rfl]
      exact .nothing hf hq.sent
    · rw [he, settle_ok rfl]
      exact .close hf hq.sent
    · rcases session.request_cases P t pt aad with ⟨ct, tx', h, hr⟩ | ⟨e, hr⟩
      · rw [he, hr, Act.mk_ok_bind, settle_ok rfl]
        exact .request _ _ h
      · rw [he, hr, Act.mk_error_bind, settle_error rfl]
        exact .nothing rfl rfl

theorem writes_frame (session : ClientSession) (a : Awaited) (f : WireFrame) (next : Interactive P) :
    Writes P session ((session.repl_frame P a f).log, next) := by
  refine .nothing (session.frames_repl_frame a f) ?_
  rcases session.repl_frame_cases P a f with ⟨hq, -⟩ | ⟨aad, pt, rx', label, -, -, he⟩
  · exact hq.sent
  · rw [he]
    rfl

theorem writes_step (session : ClientSession) (w : Waiting) (i : Input) :
    Writes P session (step P client secret (repl session w) i) := by
  cases i with
  | connect => cases w <;> exact .nothing rfl rfl
  | broken _ | unwritten => cases w <;> exact .nothing rfl rfl
  | line line =>
    cases w with
    | line => exact writes_line session line
    | frame a => exact .nothing rfl rfl
  | frame f =>
    cases w with
    | line => exact .nothing rfl rfl
    | frame a => exact writes_frame session a f _

/-- Until the session ends it has written its messages, and then perhaps `Close`. -/
def Traced : Interactive P → Log → Prop
  | done _, log => Shaped log ∨ Parted log
  | _, log => Shaped log

theorem Traced.of_shaped (h : Shaped log) : Traced s log := by
  cases s with
  | done r => exact .inl h
  | idle => exact h
  | await_resp started => exact h
  | repl session w => exact h

theorem traced_step (hP : P.Correct) (i : Input) (hc : Carried P k k' s log) (h : Traced s log) :
    Traced (step P client secret s i).2 (log ++ (step P client secret s i).1) := by
  cases s with
  | idle => exact hc.elim
  | await_resp started => exact hc.elim
  | done r => exact (List.append_nil log).symm ▸ h
  | repl session w =>
    have hc : Carrying P k k' log session.tx_cipher session.rx_cipher := hc
    have h : Shaped log := h
    have hwrites : Writes P session (step P client secret (repl session w) i) := writes_step session w i
    generalize step P client secret (repl session w) i = next at hwrites ⊢
    cases hwrites with
    | nothing hf hs => exact .of_shaped (h.same hf hs)
    | request s' a he => exact .of_shaped (h.sent hP hc he rfl rfl)
    | close hf hs => exact .inr (h.close hc hf hs)

theorem traced_run (hP : P.Correct) {s : (resumed P client secret (CipherState.new k, CipherState.new k')).State}
    (h : Runs (resumed P client secret (CipherState.new k, CipherState.new k')) s log) : Shaped log ∨ Parted log := by
  have hrun := h.inv (fun (s : Interactive P) log => Carried P k k' s log ∧ Traced s log) ⟨Carrying.start P k k', rfl⟩
    fun _ _ i hs => ⟨carried_step i hs.1, traced_step hP i hs.1 hs.2⟩
  obtain ⟨-, htraced⟩ := hrun
  cases s with
  | done r => exact htraced
  | idle => exact .inl htraced
  | await_resp started => exact .inl htraced
  | repl session w => exact .inl htraced

end Interactive

namespace Serving

variable {server_keys : KeyPair} {prologue : Bytes} {secret : Key} {s : Serving} {k k' : Key}

theorem shaped_step (hP : P.Correct) (i : Input) (hc : Carried P k k' s log) (h : Shaped log) :
    Shaped (log ++ (step P server_keys prologue secret s i).1) := by
  cases s with
  | await_init => exact hc.elim
  | done r => exact h.same rfl rfl
  | transport session =>
    have hc : Carrying P k k' log session.tx_cipher session.rx_cipher := hc
    have hturn := transport_turn P server_keys prologue secret session i
    generalize step P server_keys prologue secret (transport session) i = next at hturn ⊢
    cases hturn with
    | stays m => exact h.same rfl rfl
    | ended r => exact h.same rfl rfl
    | took e ht hd => exact h.same rfl rfl
    | answered ht hd he => exact h.sent hP hc he rfl rfl

theorem shaped_run (hP : P.Correct)
    {s : (resumed P server_keys prologue secret (CipherState.new k', CipherState.new k)).State}
    (h : Runs (resumed P server_keys prologue secret (CipherState.new k', CipherState.new k)) s log) : Shaped log := by
  have hrun := h.inv (fun (s : Serving) log => Carried P k k' s log ∧ Shaped log) ⟨Carrying.start P k k', rfl⟩
    fun _ _ i hs => ⟨carried_step i hs.1, shaped_step hP i hs.1 hs.2⟩
  exact hrun.2

end Serving

namespace OneShot

variable {H : Completed P} {message : String} {tx : CipherState} {pt : Bytes}

theorem Asked.shaped (hP : P.Correct) (h : Asked H message tx log) : Shaped log := by
  obtain ⟨ct, he, rfl⟩ := h
  have hstart : Shaped [] := rfl
  exact hstart.sent hP (Carrying.start P _ H.server_write_key) he rfl rfl

theorem Heard.shaped (hP : P.Correct) (h : Heard H message tx pt log) : Shaped log := by
  obtain ⟨l, f, rx, ha, -, -, rfl⟩ := h
  exact (ha.shaped hP).same rfl rfl

theorem Talks.traced (hP : P.Correct) (h : Talks H message log) : Shaped log ∨ Parted log := by
  cases h with
  | silent => exact .inl rfl
  | asked h => exact .inl (h.shaped hP)
  | heard h => exact .inl (h.shaped hP)
  | parted h =>
    obtain ⟨rx, hc⟩ := h.carrying
    exact .inr ((h.shaped hP).close hc rfl rfl)

end OneShot

/-- A run of a session has not come to its transport, or its frames after the handshake have the types of its
messages and the next number each, and are 16 bytes longer than they; a client may part with a `Close`. -/
theorem wire_shape (hP : P.Correct) (x : Session) {s : (x.task P).State} (h : Runs (x.task P) s log) :
    Early P x log ∨ Established P x (fun _ transport => (frames transport).map shape = shapes (sentPairs transport) ∨
      (x.side = .client ∧ (frames transport).map shape =
        shapes (sentPairs transport) ++ [(.Close, (sentPairs transport).length, 0)])) log := by
  cases x with
  | one_shot client secret message =>
    exact (OneShot.talks h).imp_right fun ht => ht.mono fun H t ht => (ht.traced hP).imp_right fun hp => ⟨rfl, hp⟩
  | interactive client secret =>
    exact (Interactive.splits h).imp_right fun hr => hr.mono fun H t hr =>
      (Interactive.traced_run hP hr).imp_right fun hp => ⟨rfl, hp⟩
  | server keys prologue secret =>
    exact (Serving.splits h).imp_right fun hr => hr.mono fun H t hr => .inl (Serving.shaped_run hP hr)

theorem wire_shape_hei :
    Established (Concrete.primitives true) (.one_shot (Concrete.relay PROTOCOL_NAME).client (Concrete.key 21) "hei")
      (fun _ transport => (frames transport).map shape = shapes (sentPairs transport) ∨
        (Side.client = .client ∧ (frames transport).map shape =
          shapes (sentPairs transport) ++ [(.Close, (sentPairs transport).length, 0)]))
      (proj true Concrete.messaged) := by
  obtain ⟨⟨s, hruns⟩, hlate⟩ := Concrete.messaged_runs
  exact (wire_shape (Concrete.correct true) (Concrete.one_shot_pair true) hruns).resolve_left hlate

/-- The frames of that client after its handshake: its message, and a `Close`. -/
example : ((frames (proj true Concrete.messaged)).drop 1).map shape = [(.DataPayload, 0, 19), (.Close, 1, 0)] := by
  decide +kernel

end NoiseTunnel
