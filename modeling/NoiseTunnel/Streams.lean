import NoiseTunnel.Completed
import NoiseTunnel.Sessions
/-!
# Sessions on byte streams

A session reads its frames off a stream of bytes. On a stream that has ended,
the tasks do what the functions they were cut from do, and a connection that
takes no more frames is one more input to them.
-/
open Rust Reactive

namespace NoiseTunnel

/-- What a read gets from the bytes that have come: a frame, a failure, or
nothing as long as more may come. -/
def arrival (stream : Bytes) (closed : Bool) : Option (Input × Bytes) :=
  match WireFrame.read_from stream with
  | .ok (f, rest) => some (.frame f, rest)
  | .error (.err .eof) => if closed then some (.broken (.err .eof), stream) else none
  | .error s => some (.broken s, stream)

theorem arrival_frame {stream rest : Bytes} {f : WireFrame} (closed : Bool)
    (h : WireFrame.read_from stream = .ok (f, rest)) : arrival stream closed = some (.frame f, rest) := by
  rw [arrival, h]

theorem arrival_broken {stream : Bytes} {e : Error} (closed : Bool)
    (h : WireFrame.read_from stream = .error (.err e)) (he : e ≠ .eof) :
    arrival stream closed = some (.broken (.err e), stream) := by
  rw [arrival, h]
  cases e <;> first | rfl | exact absurd rfl he

theorem arrival_closed {stream : Bytes} {s : Stop Error} (h : WireFrame.read_from stream = .error s) :
    arrival stream true = some (.broken s, stream) := by
  rw [arrival, h]
  cases s with
  | panic p => rfl
  | err e => cases e <;> rfl

namespace OneShot

/-- The session waits for a frame. -/
def waits {P : Primitives} : OneShot P → Bool
  | await_resp _ | await_reply _ _ => true
  | _ => false

def ended {P : Primitives} : OneShot P → Bool
  | done _ => true
  | _ => false

end OneShot

namespace Serving

def waits : Serving → Bool
  | done _ => false
  | _ => true

end Serving

/-! ## Streams that have ended -/

/-- A session with the steps `step`, on a stream that has ended, until it no
longer waits: its log and its last state. -/
inductive Drains {σ : Type} (step : σ → Input → Log × σ) (waits : σ → Bool) : σ → Bytes → Log → σ → Prop
  | stop {s : σ} (stream : Bytes) : waits s = false → Drains step waits s stream [] s
  | read {s s' : σ} {stream rest : Bytes} {i : Input} {l : Log} : waits s = true →
      arrival stream true = some (i, rest) → Drains step waits (step s i).2 rest l s' →
      Drains step waits s stream ((step s i).1 ++ l) s'

section
variable {σ : Type} {step : σ → Input → Log × σ} {waits : σ → Bool} {s s' : σ} {stream rest : Bytes} {i : Input}
  {l l' : Log} {t : σ}

/-- A read that the session does not come back from. -/
theorem Drains.last (hw : waits s = true) (ha : arrival stream true = some (i, rest)) (hs : step s i = (l, s'))
    (hs' : waits s' = false) : Drains step waits s stream l s' := by
  have h : Drains step waits s stream ((step s i).1 ++ []) s' := .read hw ha (by rw [hs]; exact .stop rest hs')
  rwa [hs, List.append_nil] at h

/-- A read and what follows it. -/
theorem Drains.next (hw : waits s = true) (ha : arrival stream true = some (i, rest)) (hs : step s i = (l, s'))
    (h : Drains step waits s' rest l' t) : Drains step waits s stream (l ++ l') t := by
  have hread : Drains step waits s stream ((step s i).1 ++ l') t := .read hw ha (by rw [hs]; exact h)
  rwa [hs] at hread

end

/-- What a session does on a stream that has ended is determined. -/
theorem Drains.det {σ : Type} {step : σ → Input → Log × σ} {waits : σ → Bool} {s s₁ s₂ : σ} {stream : Bytes}
    {l₁ l₂ : Log} (h₁ : Drains step waits s stream l₁ s₁) (h₂ : Drains step waits s stream l₂ s₂) :
    l₁ = l₂ ∧ s₁ = s₂ := by
  induction h₁ generalizing l₂ s₂ with
  | stop stream hw =>
    cases h₂ with
    | stop _ _ => exact ⟨rfl, rfl⟩
    | read hw' _ _ => exact absurd hw' (by rw [hw]; exact Bool.noConfusion)
  | read hw ha _ ih =>
    cases h₂ with
    | stop _ hw' => exact absurd hw (by rw [hw']; exact Bool.noConfusion)
    | read _ ha' h =>
      obtain ⟨rfl, rfl⟩ := Prod.mk.inj (Option.some.inj (ha.symm.trans ha'))
      obtain ⟨rfl, rfl⟩ := ih h
      exact ⟨rfl, rfl⟩

/-! ## Streams that go on -/

/-- What a read got, it also gets when more has come and the stream has ended. -/
theorem arrival_append {stream rest z : Bytes} {i : Input} {closed : Bool} (h : arrival stream closed = some (i, rest))
    (hz : closed → z = []) : arrival (stream ++ z) true = some (i, rest ++ z) := by
  unfold arrival at h
  cases hr : WireFrame.read_from stream with
  | ok y =>
    obtain ⟨f, rest'⟩ := y
    rw [hr] at h
    cases h
    obtain ⟨hvalid, rfl⟩ := WireFrame.read_from_eq_ok.1 hr
    rw [List.append_assoc]
    exact arrival_frame true (WireFrame.read_from_eq_ok.2 ⟨hvalid, rfl⟩)
  | error e =>
    by_cases he : e = .err .eof
    · rw [hr, he] at h
      cases closed with
      | true =>
        obtain rfl := hz rfl
        obtain ⟨rfl, rfl⟩ := Prod.mk.inj (Option.some.inj h)
        rw [List.append_nil, ← he]
        exact arrival_closed hr
      | false => cases h
    · have hall : arrival stream closed = some (.broken e, stream) := by
        rw [arrival, hr]
        cases e with
        | panic p => rfl
        | err e => cases e <;> first | rfl | exact absurd rfl he
      obtain ⟨rfl, rfl⟩ := Prod.mk.inj (Option.some.inj (hall.symm.trans h))
      exact arrival_closed (WireFrame.read_from_error_append hr he)

/-- A session that began in `s₀` has come to `s`, with the effects `log`, by
reading from a stream that so far held `b`, of which `rest` is left: however
the stream goes on from here, the session ends as if it had been given the
whole stream at once. -/
def Follows {σ : Type} (step : σ → Input → Log × σ) (waits : σ → Bool) (s₀ : σ) (b : Bytes) (closed : Bool) (log : Log)
    (s : σ) (rest : Bytes) : Prop :=
  ∀ z, (closed → z = []) → ∀ l t, Drains step waits s (rest ++ z) l t → Drains step waits s₀ (b ++ z) (log ++ l) t

namespace Follows

variable {σ : Type} {step : σ → Input → Log × σ} {waits : σ → Bool} {s₀ s t : σ} {b rest rest' : Bytes} {i : Input}
  {closed : Bool} {log : Log}

theorem refl (s₀ : σ) (b : Bytes) (closed : Bool) : Follows step waits s₀ b closed [] s₀ b :=
  fun _ _ _ _ h => h

theorem write (h : Follows step waits s₀ b false log s rest) (w : Bytes) (closed : Bool) :
    Follows step waits s₀ (b ++ w) closed log s (rest ++ w) := by
  intro z _ l t hd
  rw [List.append_assoc] at hd ⊢
  exact h (w ++ z) (fun hc => nomatch hc) l t hd

theorem read (h : Follows step waits s₀ b closed log s rest) (hw : waits s = true)
    (ha : arrival rest closed = some (i, rest')) :
    Follows step waits s₀ b closed (log ++ (step s i).1) (step s i).2 rest' := by
  intro z hz l t hd
  rw [List.append_assoc]
  exact h z hz _ t (.read hw (arrival_append ha hz) hd)

theorem ended (h : Follows step waits s₀ b closed log s rest) (hw : waits s = false) :
    Drains step waits s₀ b log s := by
  have hend := h [] (fun _ => rfl) [] s (.stop _ hw)
  rwa [List.append_nil, List.append_nil] at hend

end Follows

variable (P : Primitives)

/-- The server's loop. -/
theorem transport_loop_drains (server_keys : KeyPair) (prologue : Bytes) (secret : Key) (s : ServerSession)
    (stream : Bytes) :
    Drains (Serving.step P server_keys prologue secret) Serving.waits (.transport s) stream
      (s.transport_loop P stream).log (.done (s.transport_loop P stream).res) := by
  induction h : stream.length using Nat.strongRecOn generalizing s stream with
  | _ n ih =>
    unfold ServerSession.transport_loop
    cases hr : WireFrame.read_from stream with
    | error e =>
      cases e with
      | err e => exact .last rfl (arrival_closed hr) rfl rfl
      | panic p => exact .last rfl (arrival_closed hr) rfl rfl
    | ok y =>
      obtain ⟨f, rest⟩ := y
      have ha := arrival_frame true hr
      have hlt : rest.length < n := h ▸ WireFrame.read_from_length_lt hr
      cases ht : (s.transport_frame P f).res with
      | error e =>
        dsimp only
        rw [Act.bind_of_error ht]
        exact .last rfl ha (settle_error ht) rfl
      | ok c =>
        dsimp only
        rw [Act.bind_of_ok ht]
        cases c with
        | done s' =>
          rw [show (pure s' : Exec ServerSession).log = [] from rfl, List.append_nil]
          exact .last rfl ha (settle_ok ht) rfl
        | cont s' => exact .next rfl ha (settle_ok ht) (ih rest.length hlt s' rest rfl)

/-- A connection of the server, on all the bytes it is sent. -/
theorem handle_client_drains (server_keys : KeyPair) (prologue : Bytes) (secret : Key) (stream : Bytes) :
    Drains (Serving.step P server_keys prologue secret) Serving.waits .await_init stream
      (TunnelServer.handle_client_with_prologue P server_keys prologue secret stream).log
      (.done (TunnelServer.handle_client_with_prologue P server_keys prologue secret stream).res) := by
  unfold TunnelServer.handle_client_with_prologue TunnelServer.receive_handshake
  cases hr : WireFrame.read_from stream with
  | error e => exact .last rfl (arrival_closed hr) rfl rfl
  | ok y =>
    obtain ⟨f, rest⟩ := y
    have ha := arrival_frame true hr
    simp only [Act.liftM_eq, Act.lift_ok_bind]
    cases ht : (TunnelServer.accept_handshake P server_keys prologue secret f).res with
    | error e =>
      rw [Act.bind_of_error ht, Act.mk_error_bind]
      exact .last rfl ha (settle_error ht) rfl
    | ok c =>
      rw [Act.bind_of_ok ht]
      simp only [Act.pure_log, Act.pure_res, Act.mk_ok_bind, List.append_nil]
      exact .next rfl ha (settle_ok ht) (transport_loop_drains P server_keys prologue secret _ rest)

/-- `send_secure_message` cut at its reads. -/
theorem send_secure_message_segments (client : TunnelClient) (secret : Key) (message : String) (stream : Bytes) :
    client.send_secure_message P secret message stream = (do
      let started ← client.start_handshake P secret
      let (resp_frame, stream) ← WireFrame.read_from stream
      let (tx_cipher, rx_cipher) ← OneShot.finish_and_send P client message started resp_frame
      let (reply_frame, _) ← WireFrame.read_from stream
      TunnelClient.read_reply P tx_cipher rx_cipher reply_frame) := by
  simp only [TunnelClient.send_secure_message, TunnelClient.perform_handshake, OneShot.finish_and_send,
    Act.bind_assoc, Act.pure_then]

/-- One message of the client, on all the bytes it is sent. -/
theorem send_secure_message_drains (client : TunnelClient) (secret : Key) (message : String) (stream : Bytes) :
    ∃ l, (client.send_secure_message P secret message stream).log =
        (OneShot.step P client secret message .idle .connect).1 ++ l ∧
      Drains (OneShot.step P client secret message) OneShot.waits
        (OneShot.step P client secret message .idle .connect).2 stream l
        (.done (client.send_secure_message P secret message stream).res) := by
  rw [send_secure_message_segments]
  simp only [OneShot.step]
  cases hs : (client.start_handshake P secret).res with
  | error e =>
    rw [settle_error hs, Act.bind_of_error hs]
    exact ⟨[], (List.append_nil _).symm, .stop stream rfl⟩
  | ok started =>
    rw [settle_ok hs, Act.bind_of_ok hs]
    cases hr : WireFrame.read_from stream with
    | error e => exact ⟨[], rfl, .last rfl (arrival_closed hr) rfl rfl⟩
    | ok y =>
      obtain ⟨f, rest⟩ := y
      have ha := arrival_frame true hr
      simp only [Act.liftM_eq, Act.lift_ok_bind]
      cases hf : (OneShot.finish_and_send P client message started f).res with
      | error e =>
        rw [Act.bind_of_error hf]
        exact ⟨_, rfl, .last rfl ha (settle_error hf) rfl⟩
      | ok c =>
        rw [Act.bind_of_ok hf]
        cases hr' : WireFrame.read_from rest with
        | error e =>
          refine ⟨_, rfl, .next rfl ha (settle_ok hf) ?_⟩
          exact .last rfl (arrival_closed hr') rfl rfl
        | ok y' =>
          obtain ⟨f', rest'⟩ := y'
          simp only [Act.lift_ok_bind]
          refine ⟨_, rfl, .next rfl ha (settle_ok hf) (.last rfl (arrival_frame true hr') ?_ rfl)⟩
          cases hp : (TunnelClient.read_reply P c.1 c.2 f').res with
          | error e => exact settle_error hp
          | ok text => exact settle_ok hp

/-! ## Writes that fail -/

section
variable {T : Task Input Effect} {C : T.State → Input → Prop} {s failed : T.State} {log p : Log} {n : ℕ}

/-- By induction on the run: where the next write fails, the task ends there. -/
theorem unwritten_runs (hC : ∀ s, C s .unwritten)
    (hwrites : ∀ s i n p, Act.upTo Exec.is_checked_write n (T.step s i).1 = some p →
      p = (T.step s i).1 ∧ T.step (T.step s i).2 .unwritten = ([], failed))
    (h : RunsIf T C s log) (hp : Act.upTo Exec.is_checked_write n log = some p) : RunsIf T C failed p := by
  induction h generalizing p with
  | nil => cases hp
  | @step s log i hr hc ih =>
    rw [Act.upTo_append, Option.or_eq_some_iff] at hp
    rcases hp with hp | ⟨-, hp⟩
    · exact ih hp
    · obtain ⟨q, hq, rfl⟩ := Option.map_eq_some_iff.1 hp
      obtain ⟨rfl, hfails⟩ := hwrites s i _ q hq
      have hfailed := (hr.step i hc).next (hC _) hfails
      rwa [List.append_nil] at hfailed

/-- A function that is a run of a task is one on a connection that fails, too. -/
theorem broken_after_runs {α : Type} {x : Exec α} (ended : Except (Stop Error) α → T.State) (hC : ∀ s, C s .unwritten)
    (hwrites : ∀ s i n p, Act.upTo Exec.is_checked_write n (T.step s i).1 = some p →
      p = (T.step s i).1 ∧ T.step (T.step s i).2 .unwritten = ([], ended (.error (.err .broken_pipe))))
    (h : RunsIf T C (ended x.res) x.log) (n : ℕ) :
    RunsIf T C (ended (x.broken_after n).res) (x.broken_after n).log := by
  rcases Act.failing_cases Exec.is_checked_write n (.err .broken_pipe) x with ⟨-, he⟩ | ⟨p, hp, he⟩
  · rw [show x.broken_after n = x from he]
    exact h
  · rw [show x.broken_after n = _ from he]
    exact unwritten_runs hC hwrites h hp

end

/-- A read that fails does so as `read_from` does on some stream. -/
def Input.FromStream (i : Input) : Prop := ∀ e, i = .broken e → ∃ stream, WireFrame.read_from stream = .error e

theorem fromStream_unwritten : Input.unwritten.FromStream := fun _ he => by cases he

theorem fromStream_arrival {stream rest : Bytes} {closed : Bool} {i : Input} (h : arrival stream closed = some (i, rest)) :
    i.FromStream := by
  rintro e rfl
  unfold arrival at h
  split at h
  · cases h
  · split at h <;> cases h
    exact ⟨stream, ‹_›⟩
  · cases h
    exact ⟨stream, ‹_›⟩

/-- What a session does on a stream that has ended is a run of its task. -/
theorem Drains.runs {T : Task Input Effect} {waits : T.State → Bool} {s t : T.State} {stream : Bytes} {log l : Log}
    (h : Drains T.step waits s stream l t) (hr : RunsIf T (fun _ i => i.FromStream) s log) :
    RunsIf T (fun _ i => i.FromStream) t (log ++ l) := by
  induction h generalizing log with
  | stop stream _ => exact (List.append_nil log).symm ▸ hr
  | read _ ha _ ih =>
    rw [← List.append_assoc]
    exact ih (hr.step _ (fromStream_arrival ha))

namespace Serving

variable {P} {server_keys : KeyPair} {prologue : Bytes} {secret : Key}

/-- A write is the last that an input leads to, and the loop goes on after it. -/
theorem step_writes (s : Serving) (i : Input) (n : ℕ) (p : Log)
    (h : Act.upTo Exec.is_checked_write n (step P server_keys prologue secret s i).1 = some p) :
    p = (step P server_keys prologue secret s i).1 ∧
      step P server_keys prologue secret (step P server_keys prologue secret s i).2 .unwritten =
        ([], done (.error (.err .broken_pipe))) := by
  cases s with
  | await_init =>
    cases i with
    | frame f =>
      simp only [step] at h ⊢
      rcases accept_handshake_cases P server_keys prologue secret f with
        ⟨H, ki, cti, msg, ct, -, -, -, -, -, -, -, -, -, he⟩ | ⟨e, he, -, hframes⟩
      · rw [he, settle_ok rfl] at h ⊢
        refine ⟨?_, rfl⟩
        have hlog : acceptLog H ki cti msg ct = _ ++ [.wrote (respFrame H.view.server_ephemeral ct)] :=
          (List.append_assoc _ [_] [_]).symm
        dsimp only at h ⊢
        rw [hlog] at h ⊢
        exact Act.upTo_last (by simp [Exec.is_checked_write, derived]) h
      · rw [settle_error he, Act.upTo_none (unchecked_of_frames (by simp [hframes]))] at h
        cases h
    | broken _ | connect | line _ | unwritten => cases h
  | transport session =>
    have hturn := transport_turn P server_keys prologue secret session i
    generalize step P server_keys prologue secret (transport session) i = next at hturn h ⊢
    cases hturn with
    | stays m => cases h
    | ended r => cases h
    | took e ht hd =>
      rw [Act.upTo_none (unchecked_of_frames (List.forall_mem_nil _))] at h
      cases h
    | @answered f aad pt ct filter' rx' tx' ht hd he =>
      refine ⟨?_, rfl⟩
      dsimp only at h ⊢
      exact Act.upTo_last (l := openedLog session.rx_cipher f aad pt ++ [_, _])
        (by simp [Exec.is_checked_write, openedLog]) h
  | done r => cases h

end Serving

/-- A connection, also one that fails, is a run of the server's task. -/
theorem handle_client_runs (server_keys : KeyPair) (prologue : Bytes) (secret : Key) (stream : Bytes) (n : ℕ) :
    let x := (TunnelServer.handle_client_with_prologue P server_keys prologue secret stream).broken_after n
    RunsIf (Serving.task P server_keys prologue secret) (fun _ i => i.FromStream) (.done x.res) x.log := by
  have hruns : RunsIf (Serving.task P server_keys prologue secret) _ (.done _) _ :=
    (handle_client_drains P server_keys prologue secret stream).runs (T := Serving.task P server_keys prologue secret) .nil
  rw [List.nil_append] at hruns
  exact broken_after_runs _ (fun _ => fromStream_unwritten) Serving.step_writes hruns n

end NoiseTunnel
