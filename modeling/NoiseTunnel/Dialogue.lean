import NoiseTunnel.Numbering
import NoiseTunnel.Survival
import NoiseTunnel.Traffic
/-!
# The terminal session on whole streams

`start_interactive_session` blocks on its terminal and on its stream in turn.
What it does is one run of the task of `Sessions`. At every prompt it has read
as many frames as it has written, whoever sent them.
-/
open Rust Reactive

namespace NoiseTunnel

open WireFrame

variable {P : Primitives} {client : TunnelClient} {secret : Key} {lines : List String} {l : String}
  {stream rest : Bytes} {s s' t : ClientSession} {w w' : Waiting} {a : Awaited} {f : WireFrame} {log log' : Log}
  {e : Stop Error}

/-! ## Rounds -/

namespace ClientSession

theorem repl_loop_stops (h : (s.repl_line P client (some l)).res = .error e) :
    repl_loop P client s (l :: lines) stream = ⟨(s.repl_line P client (some l)).log, .error e⟩ := by
  rw [repl_loop, Act.bind_of_error h]

theorem repl_loop_done (h : (s.repl_line P client (some l)).res = .ok (.done (s', w))) :
    repl_loop P client s (l :: lines) stream = ⟨(s.repl_line P client (some l)).log, .ok s'⟩ := by
  rw [repl_loop, Act.bind_of_ok h, Act.pure_log, Act.pure_res, List.append_nil]

theorem repl_loop_next (h : (s.repl_line P client (some l)).res = .ok (.cont (s', .line))) :
    repl_loop P client s (l :: lines) stream =
      ⟨(s.repl_line P client (some l)).log ++ (repl_loop P client s' lines stream).log,
        (repl_loop P client s' lines stream).res⟩ := by
  rw [repl_loop, Act.bind_of_ok h]

/-- A loop that waits and cannot read. -/
theorem repl_loop_broken (h : (s.repl_line P client (some l)).res = .ok (.cont (s', .frame a)))
    (hr : read_from stream = .error e) :
    repl_loop P client s (l :: lines) stream = ⟨(s.repl_line P client (some l)).log, .error e⟩ := by
  rw [repl_loop, Act.bind_of_ok h, hr]
  simp only [Act.liftM_eq, Act.lift_error_bind, List.append_nil]

/-- A loop that fails on the frame it waited for. -/
theorem repl_loop_fails (h : (s.repl_line P client (some l)).res = .ok (.cont (s', .frame a)))
    (hr : read_from stream = .ok (f, rest)) (hf : (s'.repl_frame P a f).res = .error e) :
    repl_loop P client s (l :: lines) stream =
      ⟨(s.repl_line P client (some l)).log ++ (s'.repl_frame P a f).log, .error e⟩ := by
  rw [repl_loop, Act.bind_of_ok h, hr]
  simp only [Act.liftM_eq, Act.lift_ok_bind, Act.bind_of_error hf]

/-- A loop that ends with the frame it waited for. -/
theorem repl_loop_closed (h : (s.repl_line P client (some l)).res = .ok (.cont (s', .frame a)))
    (hr : read_from stream = .ok (f, rest)) (hf : (s'.repl_frame P a f).res = .ok (.done (t, w'))) :
    repl_loop P client s (l :: lines) stream =
      ⟨(s.repl_line P client (some l)).log ++ (s'.repl_frame P a f).log, .ok t⟩ := by
  rw [repl_loop, Act.bind_of_ok h, hr]
  simp only [Act.liftM_eq, Act.lift_ok_bind, Act.bind_of_ok hf, Act.pure_log, Act.pure_res, List.append_nil]

/-- A loop that is done with the frame it waited for. -/
theorem repl_loop_read (h : (s.repl_line P client (some l)).res = .ok (.cont (s', .frame a)))
    (hr : read_from stream = .ok (f, rest)) (hf : (s'.repl_frame P a f).res = .ok (.cont (t, w'))) :
    repl_loop P client s (l :: lines) stream =
      ⟨(s.repl_line P client (some l)).log ++ (s'.repl_frame P a f).log ++ (repl_loop P client t lines rest).log,
        (repl_loop P client t lines rest).res⟩ := by
  rw [repl_loop, Act.bind_of_ok h, hr]
  simp only [Act.liftM_eq, Act.lift_ok_bind, Act.bind_of_ok hf, List.append_assoc]

/-- After a frame the loop is at its prompt. -/
theorem repl_frame_line (h : (s.repl_frame P a f).res = .ok (.cont (s', w'))) : w' = .line := by
  rcases s.repl_frame_cases P a f with ⟨-, ⟨e, hr⟩ | ⟨-, m, hr⟩ | ⟨-, -, hr⟩⟩ | ⟨aad, pt, rx', label, -, -, hr⟩
  · rw [hr] at h
    cases h
  · rw [hr] at h
    cases h
    rfl
  · rw [hr] at h
    cases h
  · rw [hr] at h
    cases h
    rfl

end ClientSession

/-! ## One run of the task -/

theorem fromStream_line (l : Option String) : (Input.line l).FromStream := fun _ he => by cases he

theorem fromStream_frame (f : WireFrame) : (Input.frame f).FromStream := fun _ he => by cases he

theorem fromStream_broken (h : read_from stream = .error e) : (Input.broken e).FromStream := by
  rintro e' ⟨⟩
  exact ⟨stream, h⟩

namespace Interactive

/-- By induction on the lines: each is an input, and so is what is read after it. -/
theorem repl_loop_runs (h : RunsIf (task P client secret) (fun _ i => i.FromStream) (repl s .line) log) :
    RunsIf (task P client secret) (fun _ i => i.FromStream)
      (done ((ClientSession.repl_loop P client s lines stream).res.map fun _ => ()))
      (log ++ (ClientSession.repl_loop P client s lines stream).log) := by
  induction lines generalizing s stream log with
  | nil => exact h.next (fromStream_line none) rfl
  | cons l lines ih =>
    have hi := fromStream_line (some l)
    have hstep : step P client secret (repl s .line) (.line (some l)) =
        settle (s.repl_line P client (some l)) (after P) fun e => done (.error e) := rfl
    cases hr : (s.repl_line P client (some l)).res with
    | error e =>
      rw [ClientSession.repl_loop_stops hr]
      dsimp only
      exact h.next hi (hstep.trans (settle_error hr))
    | ok c =>
      have hline := h.next hi (hstep.trans (settle_ok hr))
      rcases c with ⟨s', w⟩ | ⟨s', w⟩
      swap
      · rw [ClientSession.repl_loop_done hr]
        dsimp only
        exact hline
      cases w with
      | line =>
        rw [ClientSession.repl_loop_next hr]
        dsimp only
        rw [← List.append_assoc]
        exact ih hline
      | frame a =>
        cases hread : read_from stream with
        | error e =>
          have hbroken := hline.next (fromStream_broken hread) rfl
          rw [List.append_nil] at hbroken
          rw [ClientSession.repl_loop_broken hr hread]
          dsimp only
          exact hbroken
        | ok y =>
          obtain ⟨f, rest⟩ := y
          have hstep : step P client secret (repl s' (.frame a)) (.frame f) =
              settle (s'.repl_frame P a f) (after P) fun e => done (.error e) := rfl
          cases hf : (s'.repl_frame P a f).res with
          | error e =>
            rw [ClientSession.repl_loop_fails hr hread hf]
            dsimp only
            rw [← List.append_assoc]
            exact hline.next (fromStream_frame f) (hstep.trans (settle_error hf))
          | ok c =>
            have hframe := hline.next (fromStream_frame f) (hstep.trans (settle_ok hf))
            rcases c with ⟨t, w'⟩ | ⟨t, w'⟩
            swap
            · rw [ClientSession.repl_loop_closed hr hread hf]
              dsimp only
              rw [← List.append_assoc]
              exact hframe
            obtain rfl := ClientSession.repl_frame_line hf
            rw [ClientSession.repl_loop_read hr hread hf]
            dsimp only
            rw [← List.append_assoc, ← List.append_assoc]
            exact ih hframe

/-- `start_interactive_session` up to its first read. -/
def hail (P : Primitives) (client : TunnelClient) (secret : Key) : Exec (TunnelClient.Started P) := do
  Exec.println ["Kobler til server på " ++ client.target_addr ++ " for interaktiv sesjon..."]
  client.start_handshake P secret

/-- `start_interactive_session` cut at its reads. -/
theorem start_interactive_session_segments :
    client.start_interactive_session P secret lines stream = (do
      let started ← hail P client secret
      let (resp_frame, stream) ← read_from stream
      let ciphers ← finish_and_greet P client started resp_frame
      ClientSession.repl_loop P client (.start ciphers) lines stream) := by
  simp only [TunnelClient.start_interactive_session, TunnelClient.perform_handshake, hail,
    finish_and_greet, Act.bind_assoc, Act.pure_then]

end Interactive

theorem start_interactive_session_runs (P : Primitives) (client : TunnelClient) (secret : Key) (lines : List String)
    (stream : Bytes) :
    RunsIf (Interactive.task P client secret) (fun _ i => i.FromStream)
      (.done ((client.start_interactive_session P secret lines stream).res.map fun _ => ()))
      (client.start_interactive_session P secret lines stream).log := by
  have hidle : RunsIf (Interactive.task P client secret) (fun _ i => i.FromStream) .idle [] := .nil
  have hi : Input.connect.FromStream := fun _ he => by cases he
  rw [Interactive.start_interactive_session_segments]
  cases hs : (Interactive.hail P client secret).res with
  | error e =>
    rw [Act.bind_of_error hs]
    exact hidle.next hi (settle_error hs)
  | ok started =>
    have hconnect := hidle.next hi (settle_ok hs)
    rw [Act.bind_of_ok hs]
    cases hr : read_from stream with
    | error e => exact hconnect.next (fromStream_broken hr) rfl
    | ok y =>
      obtain ⟨f, rest⟩ := y
      simp only [Act.liftM_eq, Act.lift_ok_bind]
      cases hf : (Interactive.finish_and_greet P client started f).res with
      | error e =>
        rw [Act.bind_of_error hf]
        exact hconnect.next (fromStream_frame f) (settle_error hf)
      | ok ciphers =>
        have hframe := hconnect.next (fromStream_frame f) (settle_ok hf)
        rw [Act.bind_of_ok hf, ← List.append_assoc]
        exact Interactive.repl_loop_runs hframe

namespace Interactive

/-- A checked write is the last that an input leads to, and the session then waits for a frame. -/
theorem step_writes (s : Interactive P) (i : Input) (n : ℕ) (p : Log)
    (h : Act.upTo Exec.is_checked_write n (step P client secret s i).1 = some p) :
    p = (step P client secret s i).1 ∧
      step P client secret (step P client secret s i).2 .unwritten = ([], done (.error (.err .broken_pipe))) := by
  cases s with
  | idle =>
    cases i with
    | connect =>
      simp only [step, Exec.println_eq, Act.mk_ok_bind] at h ⊢
      rcases start_handshake_cases P client secret rfl rfl rfl with ⟨k, ct, -, -, he⟩ | ⟨e, he, -⟩
      · rw [he, settle_ok rfl] at h ⊢
        refine ⟨?_, rfl⟩
        have hlog (greeting : Log) (e dh : Key) (t : Bytes) : greeting ++ initLog P e t dh k ct =
            greeting ++ startLog P e t dh ++ [.sealed ⟨k, 0, (P.sha256 t).val, HANDSHAKE_INIT_CLIENT, ct⟩] ++
              [.wrote (initFrame e ct)] := by
          simp [initLog]
        dsimp only at h ⊢
        rw [hlog] at h ⊢
        exact Act.upTo_last (by simp [Exec.is_checked_write, startLog, derived]) h
      · rw [he, settle_error rfl, Act.upTo_none (by simp [Exec.is_checked_write, startLog, derived])] at h
        cases h
    | broken _ | frame _ | line _ | unwritten => cases h
  | await_resp started =>
    cases i with
    | frame f =>
      have hframes : frames (finish_and_greet P client started f).log = [] := by
        unfold finish_and_greet
        rcases finish_handshake_cases P client started f with ⟨H, ct, -, -, -, -, -, -, -, he⟩ | ⟨e, he, -, -, hframes⟩
        · rw [he]
          rfl
        · rw [Act.bind_of_error he]
          exact hframes
      have hnone : Act.upTo Exec.is_checked_write n (finish_and_greet P client started f).log = some p := h
      rw [Act.upTo_none (unchecked_of_frames (by simp [hframes]))] at hnone
      cases hnone
    | broken _ | connect | line _ | unwritten => cases h
  | repl session w =>
    have hwrites : Writes P session (step P client secret (repl session w) i) := writes_step session w i
    generalize step P client secret (repl session w) i = next at hwrites h ⊢
    cases hwrites with
    | nothing hf hs =>
      rw [Act.upTo_none (unchecked_of_frames (by simp [hf]))] at h
      cases h
    | @request t pt aad ct tx' s' a he =>
      refine ⟨?_, rfl⟩
      exact Act.upTo_last (l := [_, _]) (by simp [Exec.is_checked_write]) h
    | close hf hs =>
      rw [Act.upTo_none (unchecked_of_frames (by simp [hf, WireFrame.is_close, MessageType.is_close]))] at h
      cases h
  | done r => cases h

end Interactive

/-- The session that blocks on its terminal and its stream, also on a connection
that fails after `n` frames, is a run of the task that reacts to both, and ends
as the task does. -/
theorem interactive_session_reacts (P : Primitives) (client : TunnelClient) (secret : Key) (lines : List String)
    (stream : Bytes) (n : ℕ) :
    let x := (client.start_interactive_session P secret lines stream).broken_after n
    RunsIf (Interactive.task P client secret) (fun _ i => i.FromStream) (.done (x.res.map fun _ => ())) x.log := by
  have hruns := start_interactive_session_runs P client secret lines stream
  exact broken_after_runs (T := Interactive.task P client secret) (fun r => .done (r.map fun _ => ()))
    (fun _ => fromStream_unwritten) Interactive.step_writes hruns n

theorem interactive_in_range (P : Primitives) (client : TunnelClient) (secret : Key) (lines : List String)
    (stream : Bytes) : (client.start_interactive_session P secret lines stream).Stops InRange := by
  intro e he
  have hruns := start_interactive_session_runs P client secret lines stream
  rw [he] at hruns
  exact Interactive.sound_run hruns e rfl

/-! ## Statistics -/

open SessionMetrics (Exact tally tally_sent tally_received)

/-- `Q` holds of the statistics that a log shows and of the log before them. -/
def AtStats (Q : Log → SessionMetrics → Prop) (log : Log) : Prop :=
  ∀ pre m post, log = pre ++ .printed_stats m :: post → Q pre m

section
variable {Q : Log → SessionMetrics → Prop}

theorem AtStats.append (h : AtStats Q log) (h' : AtStats (fun pre => Q (log ++ pre)) log') :
    AtStats Q (log ++ log') := by
  intro pre m post he
  rcases List.append_eq_append_iff.1 he with ⟨pre', rfl, hl'⟩ | ⟨rest, hlog, hrest⟩
  · exact h' pre' m post hl'
  · cases rest with
    | nil =>
      have hend : Q (log ++ []) m := h' [] m post hrest.symm
      rw [List.append_nil] at hend hlog
      rwa [hlog] at hend
    | cons e rest =>
      obtain ⟨rfl, -⟩ := List.cons.inj hrest
      exact h pre m rest hlog

/-- A log whose statistics are all `m`, and that writes nothing. -/
theorem atStats_const {m : SessionMetrics} (h : ∀ m', .printed_stats m' ∈ log → m' = m) (hf : frames log = [])
    (hQ : ∀ pre, frames pre = [] → Q pre m) : AtStats Q log := by
  rintro pre m' post rfl
  obtain rfl := h m' (List.mem_append_right _ List.mem_cons_self)
  rw [frames_append] at hf
  exact hQ pre (List.append_eq_nil_iff.1 hf).1

theorem atStats_none (h : ∀ m, .printed_stats m ∉ log) : AtStats Q log := by
  rintro pre m post rfl
  exact absurd (List.mem_append_right _ List.mem_cons_self) (h m)

end

/-- The statistics at a prompt: after `sent` and `received`, with the frames
`fs` to come, the session has written those of `pre` and read as many. -/
structure Level (sent received fs : List WireFrame) (pre : Log) (m : SessionMetrics) : Prop where
  read : (frames pre).length ≤ fs.length
  metrics : m = tally (sent ++ frames pre) (received ++ fs.take (frames pre).length)

/-- A session shows such statistics, and has them when it ends. A `Close` it wrote is not answered. -/
structure Counts (sent received fs : List WireFrame) (x : Exec ClientSession) : Prop where
  prompts : AtStats (Level sent received fs) x.log
  ends : ∀ t, x.res = .ok t → ∃ n, n = ((frames x.log).filter fun g => !g.is_close).length ∧ n ≤ fs.length ∧
    t.session_metrics = tally (sent ++ frames x.log) (received ++ fs.take n)

variable {sent received fs : List WireFrame} {g : WireFrame} {pre : Log} {m : SessionMetrics} {x : Exec ClientSession}

theorem counts_error (h : ∀ m, .printed_stats m ∉ log) : Counts sent received fs ⟨log, .error e⟩ where
  prompts := atStats_none h
  ends t ht := by cases ht

theorem counts_pure (h : s.session_metrics = tally sent received) : Counts sent received fs ⟨[], .ok s⟩ where
  prompts := atStats_none fun _ => List.not_mem_nil
  ends t ht := by
    cases ht
    refine ⟨0, rfl, Nat.zero_le _, ?_⟩
    rw [h, show frames [] = [] from rfl, List.take_zero, List.append_nil, List.append_nil]

/-- A session that ends with a `Close`. -/
theorem counts_quit (hstats : ∀ m, .printed_stats m ∉ log) (hf : frames log = [⟨.Close, s.tx_cipher.nonce, []⟩])
    (h : s.session_metrics = tally sent received) :
    Counts sent received fs ⟨log, .ok (s.sentFrame s.tx_cipher ⟨.Close, s.tx_cipher.nonce, []⟩)⟩ where
  prompts := atStats_none hstats
  ends t ht := by
    cases ht
    refine ⟨0, by rw [hf]; rfl, Nat.zero_le _, ?_⟩
    rw [hf, List.take_zero, List.append_nil, ← tally_sent, ← h]
    rfl

/-- A line that is dealt with on the spot. -/
theorem Counts.local (hstats : ∀ m, .printed_stats m ∈ log → m = tally sent received) (hf : frames log = [])
    (h : Counts sent received fs x) : Counts sent received fs ⟨log ++ x.log, x.res⟩ := by
  have hframes (pre : Log) : frames (log ++ pre) = frames pre := by rw [frames_append, hf, List.nil_append]
  constructor
  · refine AtStats.append (atStats_const hstats hf fun pre hpre => ⟨?_, ?_⟩) fun pre m post he => ?_
    · rw [hpre]
      exact Nat.zero_le _
    · rw [hpre, List.length_nil, List.take_zero, List.append_nil, List.append_nil]
    · obtain ⟨hread, hm⟩ := h.prompts pre m post he
      exact ⟨by rw [hframes]; exact hread, by rw [hframes]; exact hm⟩
  · dsimp only
    rw [hframes]
    exact h.ends

/-- A request, the frame that is read after it, and the rest. -/
theorem Counts.exchange (hstats : ∀ m, .printed_stats m ∉ log) (hg : frames log = [g]) (hopen : g.is_close = false)
    (h : Counts (sent ++ [g]) (received ++ [f]) fs x) : Counts sent received (f :: fs) ⟨log ++ x.log, x.res⟩ := by
  have hframes (pre : Log) : frames (log ++ pre) = g :: frames pre := by rw [frames_append, hg]; rfl
  have hmetrics (n : ℕ) (fs' : List WireFrame) : tally (sent ++ [g] ++ fs') (received ++ [f] ++ fs.take n) =
      tally (sent ++ g :: fs') (received ++ (f :: fs).take (n + 1)) := by
    rw [List.append_assoc, List.append_assoc, List.take_succ_cons]
    rfl
  constructor
  · refine AtStats.append (atStats_none hstats) fun pre m post he => ?_
    obtain ⟨hread, hm⟩ := h.prompts pre m post he
    constructor
    · rw [hframes, List.length_cons, List.length_cons]
      exact Nat.succ_le_succ hread
    · rw [hframes, List.length_cons, ← hmetrics]
      exact hm
  · intro t ht
    obtain ⟨n, hn, hle, hm⟩ := h.ends t ht
    refine ⟨n + 1, ?_, Nat.succ_le_succ hle, ?_⟩
    · rw [hframes, List.filter_cons_of_pos (by simp [hopen]), List.length_cons, ← hn]
    · rw [hframes, ← hmetrics]
      exact hm

namespace ClientSession

/-- A line that shows statistics shows what they are, and writes nothing. -/
theorem repl_line_stats (h : .printed_stats m ∈ (s.repl_line P client (some l)).log) :
    m = s.session_metrics ∧ frames (s.repl_line P client (some l)).log = [] := by
  have hrequest {t : MessageType} {pt aad : Bytes} {w : Waiting} :
      .printed_stats m ∉ (do return ControlFlow.cont (← s.request P t pt aad, w) : Exec _).log := by
    rcases request_cases P s t pt aad with ⟨ct, tx', -, hr⟩ | ⟨e, hr⟩
    · rw [hr, Act.mk_ok_bind]
      simp [sealedLog]
    · rw [hr, Act.mk_error_bind]
      exact List.not_mem_nil
  unfold repl_line at h ⊢
  dsimp only at h ⊢
  generalize trim l = line at h ⊢
  by_cases hempty : line = ""
  · rw [if_pos hempty] at h
    cases h
  rw [if_neg hempty] at h ⊢
  by_cases hhelp : line = "/help"
  · rw [if_pos hhelp] at h
    simp [Exec.println] at h
  rw [if_neg hhelp] at h ⊢
  by_cases hinfo : line = "/info"
  · rw [if_pos hinfo] at h
    simp [Exec.println] at h
  rw [if_neg hinfo] at h ⊢
  by_cases hstats : line = "/stats"
  · rw [if_pos hstats] at h ⊢
    exact ⟨by simpa [Exec.println] using h, rfl⟩
  rw [if_neg hstats] at h
  by_cases hquit : line = "/quit" ∨ line = "exit"
  · rw [if_pos hquit] at h
    simp [Exec.println, Exec.write_to] at h
  rw [if_neg hquit] at h
  by_cases hping : line = "/ping"
  · rw [if_pos hping] at h
    exact absurd h hrequest
  · rw [if_neg hping] at h
    exact absurd h hrequest

/-- A part of the loop that counts the frame it has read, writes nothing and shows no statistics. -/
structure OnlyCounts (s : ClientSession) (f : WireFrame) (x : Exec (ControlFlow (ClientSession × Waiting))) : Prop where
  frames : frames x.log = []
  unshown : ∀ m, .printed_stats m ∉ x.log
  counted : ∀ c, x.res = .ok c → c.state.1.session_metrics = (s.counted f).session_metrics

theorem onlyCounts_answer (s : ClientSession) (f : WireFrame) (aad : Bytes) (label : String) :
    OnlyCounts s f (do return .cont (← (s.counted f).answer P f aad label, .line)) := by
  rcases answer_cases P (s.counted f) f aad label with ⟨pt, rx', -, ha⟩ | ⟨e, ha⟩
  · rw [ha, Act.mk_ok_bind]
    refine ⟨by simp [frames, openedLog], by simp [openedLog], fun c hc => ?_⟩
    cases hc
    rfl
  · rw [ha, Act.mk_error_bind]
    exact ⟨rfl, fun _ => List.not_mem_nil, fun c hc => by cases hc⟩

theorem onlyCounts_pure {s : ClientSession} {f : WireFrame} {c : ControlFlow (ClientSession × Waiting)}
    (h : c.state.1 = s.counted f) : OnlyCounts s f (pure c) where
  frames := rfl
  unshown _ := List.not_mem_nil
  counted c' hc := by
    cases hc
    rw [h]

/-- A frame is counted, whatever comes of it. -/
theorem repl_frame_counts (s : ClientSession) (a : Awaited) (f : WireFrame) : OnlyCounts s f (s.repl_frame P a f) := by
  cases a with
  | pong =>
    by_cases hf : f.msg_type = .Heartbeat
    · rw [repl_frame_pong P s hf]
      exact onlyCounts_answer s f _ _
    · rw [show s.repl_frame P .pong f = _ from if_neg hf]
      exact onlyCounts_pure rfl
  | reply =>
    by_cases hf : f.msg_type = .DataPayload
    · rw [repl_frame_reply P s hf]
      exact onlyCounts_answer s f _ _
    by_cases hc : f.msg_type = .Close
    · have he : s.repl_frame P .reply f = (do
          Exec.println ["Server lukket forbindelsen."]
          return .done (s.counted f, .line)) := (if_neg hf).trans (if_pos hc)
      rw [he]
      exact ⟨rfl, by simp [Exec.println], fun c hc => by cases hc; rfl⟩
    · rw [show s.repl_frame P .reply f = _ from (if_neg hf).trans (if_neg hc)]
      exact onlyCounts_pure rfl

/-- A request is counted when it is written, the frame after it when it is read. -/
theorem exchange_counts (hs : s.session_metrics = tally sent received) {t : MessageType} {pt aad : Bytes}
    (hreq : Requests t pt aad a) (tx' : CipherState) (ct : Bytes) (f : WireFrame) :
    let g : WireFrame := ⟨t, s.tx_cipher.nonce, ct⟩
    let log := sealedLog s.tx_cipher t pt aad ct ++ ((s.sentFrame tx' g).repl_frame P a f).log
    (∀ m, .printed_stats m ∉ log) ∧ frames log = [g] ∧ g.is_close = false ∧
      ∀ c, ((s.sentFrame tx' g).repl_frame P a f).res = .ok c →
        c.state.1.session_metrics = tally (sent ++ [g]) (received ++ [f]) := by
  intro g log
  obtain ⟨hframes, hquiet, hcounted⟩ := repl_frame_counts (P := P) (s.sentFrame tx' g) a f
  refine ⟨fun m hm => ?_, ?_, ?_, fun c hc => ?_⟩
  · rcases List.mem_append.1 hm with hm | hm
    · simp [sealedLog] at hm
    · exact hquiet m hm
  · rw [frames_append, hframes]
    simp [frames, sealedLog, g]
  · have hcarries := hreq.carries
    cases hcarries <;> rfl
  · rw [hcounted c hc, ← tally_received, ← tally_sent, ← hs]
    rfl

/-- What the loop counts from a prompt on, by induction on the lines. -/
theorem repl_loop_counts (hs : s.session_metrics = tally sent received) :
    Counts sent received (read_all stream).1 (repl_loop P client s lines stream) := by
  induction lines generalizing s stream sent received with
  | nil => exact counts_pure hs
  | cons l lines ih =>
    rcases s.repl_line_some P client l with
      ⟨-, log, -, hf, he⟩ | ⟨log, -, hf, he⟩ | ⟨t, pt, aad, a, hreq, -, -, he⟩
    · rw [repl_loop_next (congrArg Act.res he)]
      exact Counts.local (fun m hm => (repl_line_stats hm).1.trans hs) (by rw [he]; exact hf) (ih hs)
    · rw [repl_loop_done (congrArg Act.res he), he]
      refine counts_quit (fun m hm => ?_) hf hs
      have hnone := (repl_line_stats (s := s) (by rw [he]; exact hm)).2
      rw [he, hf] at hnone
      cases hnone
    · rcases request_cases P s t pt aad with ⟨ct, tx', -, hr⟩ | ⟨e, hr⟩
      swap
      · rw [hr, Act.mk_error_bind] at he
        rw [repl_loop_stops (congrArg Act.res he), he]
        exact counts_error fun _ => List.not_mem_nil
      rw [hr, Act.mk_ok_bind, Act.pure_log, List.append_nil, Act.pure_res] at he
      have hres := congrArg Act.res he
      cases hread : read_from stream with
      | error e =>
        rw [repl_loop_broken hres hread, he]
        exact counts_error (by simp [sealedLog])
      | ok y =>
        obtain ⟨f, rest⟩ := y
        obtain ⟨hstats, hwrote, hopen, hcounted⟩ := exchange_counts (P := P) hs hreq tx' ct f
        rw [read_all_ok hread]
        cases hf : ((s.sentFrame tx' ⟨t, s.tx_cipher.nonce, ct⟩).repl_frame P a f).res with
        | error e =>
          rw [repl_loop_fails hres hread hf, he]
          exact counts_error hstats
        | ok c =>
          have hm := hcounted c hf
          rcases c with ⟨u, w'⟩ | ⟨u, w'⟩
          · rw [repl_loop_read hres hread hf, he]
            exact Counts.exchange hstats hwrote hopen (ih hm)
          · have hpure : Counts _ _ (read_all rest).1 ⟨[], .ok u⟩ := counts_pure hm
            have hclosed := Counts.exchange hstats hwrote hopen hpure
            rw [List.append_nil] at hclosed
            rw [repl_loop_closed hres hread hf, he]
            exact hclosed

end ClientSession

namespace Interactive

theorem hail_unshown (client : TunnelClient) (secret : Key) : .printed_stats m ∉ (hail P client secret).log := by
  intro hm
  rcases List.mem_append.1 hm with hm | hm
  · simp at hm
  · exact start_handshake_logs client secret _ hm

/-- The handshake of the client writes one frame. -/
theorem hail_frames {started : TunnelClient.Started P} (h : (hail P client secret).res = .ok started) :
    ∃ init, frames (hail P client secret).log = [init] := by
  have hlog : (hail P client secret).log = [.printed _] ++ (client.start_handshake P secret).log := rfl
  have hres : (client.start_handshake P secret).res = .ok started := h
  rw [hlog, frames_append]
  rcases start_handshake_cases P client secret rfl rfl rfl with ⟨k, ct, -, -, he⟩ | ⟨e, he, -⟩
  · exact ⟨_, by rw [he]; simp [frames, initLog, startLog, derived]; rfl⟩
  · rw [he] at hres
    cases hres

theorem finish_and_greet_unshown (client : TunnelClient) (started : TunnelClient.Started P) (f : WireFrame) :
    .printed_stats m ∉ (finish_and_greet P client started f).log := by
  have hlogs : (finish_and_greet P client started f).Logs fun e => e ≠ .printed_stats m := by
    refine Act.Logs.bind (fun e he hm => ?_) fun _ _ => Act.Logs.bind (fun e he hm => ?_) fun _ _ => Act.logs_nil _
    · exact finish_handshake_logs client started f _ (hm ▸ he)
    · simp [Exec.println, hm] at he
  intro hm
  exact hlogs _ hm rfl

theorem finish_and_greet_frames {started : TunnelClient.Started P} {ciphers : CipherState × CipherState}
    (h : (finish_and_greet P client started f).res = .ok ciphers) :
    frames (finish_and_greet P client started f).log = [] := by
  unfold finish_and_greet at h ⊢
  rcases finish_handshake_cases P client started f with ⟨H, ct, -, -, -, -, -, -, -, he⟩ | ⟨e, he, -⟩
  · rw [he]
    rfl
  · rw [Act.bind_of_error he] at h
    cases h

end Interactive

/-- What a session shows and ends with, in terms of its log and of the frames
that came: statistics that say what was written since the handshake, and as
many frames after the answer to it. The last may be a `Close`: it is counted
like the others, and not answered. -/
structure Reports (Says : SessionMetrics → List WireFrame → List WireFrame → Prop) (came : List WireFrame)
    (x : Exec ClientSession) : Prop where
  prompts : ∀ pre m post, x.log = pre ++ .printed_stats m :: post → ∃ init sent resp fs,
    frames pre = init :: sent ∧ came = resp :: fs ∧ sent.length ≤ fs.length ∧ Says m sent (fs.take sent.length)
  ends : ∀ s, x.res = .ok s → ∃ init sent resp fs n,
    frames x.log = init :: sent ∧ came = resp :: fs ∧ n = (sent.filter fun g => !g.is_close).length ∧ n ≤ fs.length ∧
      Says s.session_metrics sent (fs.take n)

/-- Statistics that are the tally of these frames. -/
def Tallies (m : SessionMetrics) (sent received : List WireFrame) : Prop := m = tally sent received

theorem reports_error {came : List WireFrame} (h : ∀ m, .printed_stats m ∉ log) :
    Reports Tallies came ⟨log, .error e⟩ where
  prompts := atStats_none h
  ends s hs := by cases hs

theorem Counts.reports (hstats : ∀ m, .printed_stats m ∉ log) (hf : frames log = [g]) (h : Counts [] [] fs x) :
    Reports Tallies (f :: fs) ⟨log ++ x.log, x.res⟩ where
  prompts := by
    refine AtStats.append (atStats_none hstats) fun pre m post he => ?_
    obtain ⟨hread, hm⟩ := h.prompts pre m post he
    exact ⟨g, frames pre, f, fs, by rw [frames_append, hf]; rfl, rfl, hread, hm⟩
  ends s hs := by
    obtain ⟨n, hn, hle, hm⟩ := h.ends s hs
    exact ⟨g, frames x.log, f, fs, n, by rw [frames_append, hf]; rfl, rfl, hn, hle, hm⟩

/-- As long as fewer than 2^64 bytes pass, the tally is exact. -/
theorem Reports.exact {came : List WireFrame} (h : Reports Tallies came x)
    (hbytes : wire_bytes (frames x.log) + wire_bytes came < 2 ^ 64) : Reports Exact came x := by
  have hexact {init resp : WireFrame} {sent fs : List WireFrame} {m : SessionMetrics} {n : ℕ}
      (hwrote : init :: sent <+: frames x.log) (hcame : came = resp :: fs) (hm : Tallies m sent (fs.take n)) :
      Exact m sent (fs.take n) := by
    have hsent := wire_bytes_prefix hwrote
    have htaken := wire_bytes_prefix (List.take_prefix n fs)
    rw [wire_bytes_cons] at hsent
    rw [hcame, wire_bytes_cons] at hbytes
    rw [show m = tally sent (fs.take n) from hm]
    exact SessionMetrics.exact_tally (by omega)
  constructor
  · intro pre m post he
    obtain ⟨init, sent, resp, fs, hwrote, hcame, hread, hm⟩ := h.prompts pre m post he
    have hpre : init :: sent <+: frames x.log := by
      rw [he, frames_append, hwrote]
      exact List.prefix_append _ _
    exact ⟨init, sent, resp, fs, hwrote, hcame, hread, hexact hpre hcame hm⟩
  · intro s hs
    obtain ⟨init, sent, resp, fs, n, hwrote, hcame, hn, hread, hm⟩ := h.ends s hs
    have hlog : init :: sent <+: frames x.log := by rw [hwrote]
    exact ⟨init, sent, resp, fs, n, hwrote, hcame, hn, hread, hexact hlog hcame hm⟩

/-- The statistics of a session are the tally of its frames. -/
theorem interactive_tally (P : Primitives) (client : TunnelClient) (secret : Key) (lines : List String) (stream : Bytes) :
    Reports Tallies (read_all stream).1 (client.start_interactive_session P secret lines stream) := by
  rw [Interactive.start_interactive_session_segments]
  have hhail (m : SessionMetrics) := Interactive.hail_unshown (P := P) (m := m) client secret
  cases hs : (Interactive.hail P client secret).res with
  | error e =>
    rw [Act.bind_of_error hs]
    exact reports_error hhail
  | ok started =>
    rw [Act.bind_of_ok hs]
    cases hr : read_from stream with
    | error e =>
      rw [Act.liftM_eq, Act.lift_error_bind, List.append_nil]
      exact reports_error hhail
    | ok y =>
      obtain ⟨f, rest⟩ := y
      have hlog : ∀ m, .printed_stats m ∉
          (Interactive.hail P client secret).log ++ (Interactive.finish_and_greet P client started f).log := by
        intro m hm
        rcases List.mem_append.1 hm with hm | hm
        · exact hhail m hm
        · exact Interactive.finish_and_greet_unshown client started f hm
      simp only [Act.liftM_eq, Act.lift_ok_bind]
      cases hf : (Interactive.finish_and_greet P client started f).res with
      | error e =>
        rw [Act.bind_of_error hf]
        exact reports_error hlog
      | ok ciphers =>
        obtain ⟨init, hinit⟩ := Interactive.hail_frames hs
        rw [Act.bind_of_ok hf, ← List.append_assoc, read_all_ok hr]
        refine Counts.reports (g := init) hlog ?_ (ClientSession.repl_loop_counts rfl)
        rw [frames_append, hinit, Interactive.finish_and_greet_frames hf]
        rfl

/-- Whatever a server sends, the statistics that the terminal shows are exact. -/
theorem terminal_statistics (P : Primitives) (client : TunnelClient) (secret : Key) (lines : List String) (stream : Bytes)
    (hbytes : wire_bytes (frames (client.start_interactive_session P secret lines stream).log) +
      wire_bytes (read_all stream).1 < 2 ^ 64) :
    Reports Exact (read_all stream).1 (client.start_interactive_session P secret lines stream) :=
  (interactive_tally P client secret lines stream).exact hbytes

/-- A message and its answer, and the statistics after them. -/
theorem terminal_statistics_hei :
    let stream := serialize_all_into (frames (proj false Concrete.played)) []
    let x := (Concrete.relay PROTOCOL_NAME).client.start_interactive_session (Concrete.primitives true) (Concrete.key 21)
      ["hei", "/stats", "/quit"] stream
    .printed_stats ⟨32, 47, 1, 1⟩ ∈ x.log ∧ Reports Exact (read_all stream).1 x := by
  intro stream x
  have hread := wire_bytes_read_all stream
  have hstream : stream.length < 1000 := by decide +kernel
  have hwrote : wire_bytes (frames x.log) < 1000 := by decide +kernel
  have hbytes : wire_bytes (frames x.log) + wire_bytes (read_all stream).1 < 2 ^ 64 := by omega
  exact ⟨by decide +kernel, terminal_statistics _ _ _ _ _ hbytes⟩

/-- No server makes a client panic or fail a conversion, whatever it sends:
neither the client with one message nor, whatever is typed, the terminal session
as long as fewer than 2^64 bytes pass. Its counters are then exact. -/
theorem client_survives (P : Primitives) (client : TunnelClient) (secret : Key) :
    (∀ message s log e, RunsIf (OneShot.task P client secret message) (fun _ i => i.FromStream) s log →
      s = .done (.error e) → InRange e) ∧
    ∀ lines stream, let x := client.start_interactive_session P secret lines stream
      wire_bytes (frames x.log) + wire_bytes (read_all stream).1 < 2 ^ 64 →
        x.Stops InRange ∧ Reports Exact (read_all stream).1 x := by
  constructor
  · rintro message s log e h rfl
    exact OneShot.sound_run h e rfl
  · intro lines stream x hbytes
    have htally := interactive_tally P client secret lines stream
    exact ⟨interactive_in_range P client secret lines stream, htally.exact hbytes⟩

/-- A server that answers the handshake with a `Close` frame: the client with a message
and the terminal session both end with an error of their own. -/
theorem client_survives_close :
    let P := Concrete.primitives true
    let client := (Concrete.relay PROTOCOL_NAME).client
    let x := client.start_interactive_session P (Concrete.key 21) ["hei"] (WireFrame.close 0).serialize
    (∃ s log, RunsIf (OneShot.task P client (Concrete.key 21) "hei") (fun _ i => i.FromStream) s log ∧
      s = .done (.error (.err (.expected_resp .Close))) ∧ InRange (.err (.expected_resp .Close))) ∧
    x.res = .error (.err (.expected_resp .Close)) ∧ x.Stops InRange := by
  intro P client x
  have hsurvives := client_survives P client (Concrete.key 21)
  constructor
  · have hconnect := RunsIf.step (T := OneShot.task P client (Concrete.key 21) "hei") (C := fun _ i => i.FromStream)
      .connect .nil (fun _ he => by cases he)
    have hclose := hconnect.step (.frame (.close 0)) (fromStream_frame _)
    exact ⟨_, _, hclose, rfl, hsurvives.1 _ _ _ _ hclose rfl⟩
  · have hread := wire_bytes_read_all (WireFrame.close 0).serialize
    have hstream : (WireFrame.close 0).serialize.length < 1000 := by decide +kernel
    have hwrote : wire_bytes (frames x.log) < 1000 := by decide +kernel
    have hbytes : wire_bytes (frames x.log) + wire_bytes (read_all (WireFrame.close 0).serialize).1 < 2 ^ 64 := by omega
    exact ⟨rfl, (hsurvives.2 _ _ hbytes).1⟩

end NoiseTunnel
