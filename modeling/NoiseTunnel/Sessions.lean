import NoiseTunnel.Client
import NoiseTunnel.Server
import NoiseTunnel.Lib.Reactive
/-!
# Sessions as tasks

Each session of the program as a task that reacts to what reaches it: frames
off its stream, lines of the terminal, the end of either. Whoever chooses the
inputs is the network, honest or not. An input that a session does not wait
for is not read, and changes nothing.
-/
open Rust Reactive

namespace NoiseTunnel

inductive Input where
  /-- The connection is made. -/
  | connect
  | frame (f : WireFrame)
  /-- A line of the terminal, `none` at its end. -/
  | line (l : Option String)
  /-- A read fails: the stream has ended, or holds no frame. -/
  | broken (s : Stop Error)
  /-- The last write has failed. -/
  | unwritten

/-- Run a segment and go on from its result. -/
def settle {α σ : Type} (x : Exec α) (next : α → σ) (stop : Stop Error → σ) : Log × σ :=
  (x.log, match x.res with | .ok a => next a | .error s => stop s)

theorem settle_ok {α σ : Type} {x : Exec α} {a : α} {next : α → σ} {stop : Stop Error → σ} (h : x.res = .ok a) :
    settle x next stop = (x.log, next a) := by
  rw [settle, h]

theorem settle_error {α σ : Type} {x : Exec α} {s : Stop Error} {next : α → σ} {stop : Stop Error → σ}
    (h : x.res = .error s) : settle x next stop = (x.log, stop s) := by
  rw [settle, h]

variable (P : Primitives)

/-! ## The client's one message -/

inductive OneShot where
  | idle
  | await_resp (started : TunnelClient.Started P)
  | await_reply (tx_cipher rx_cipher : CipherState)
  | done (r : Except (Stop Error) String)

namespace OneShot

/-- `send_secure_message` from the end of its first read to its second. -/
def finish_and_send (client : TunnelClient) (message : String) (started : TunnelClient.Started P) (f : WireFrame) :
    Exec (CipherState × CipherState) := do
  let (tx_cipher, rx_cipher) ← client.finish_handshake P started f
  let tx_cipher ← TunnelClient.send_message P tx_cipher message
  return (tx_cipher, rx_cipher)

def step (client : TunnelClient) (secret : Key) (message : String) : OneShot P → Input → Log × OneShot P
  | idle, .connect => settle (client.start_handshake P secret) await_resp (fun s => done (.error s))
  | await_resp started, .frame f =>
    settle (finish_and_send P client message started f) (fun c => await_reply c.1 c.2) (fun s => done (.error s))
  | await_reply tx_cipher rx_cipher, .frame f =>
    settle (TunnelClient.read_reply P tx_cipher rx_cipher f) (fun text => done (.ok text)) (fun s => done (.error s))
  | await_resp _, .unwritten => ([], done (.error (.err .broken_pipe)))
  | await_reply .., .unwritten => ([], done (.error (.err .broken_pipe)))
  | done r, _ => ([], done r)
  | _, .broken s => ([], done (.error s))
  | s, _ => ([], s)

def task (client : TunnelClient) (secret : Key) (message : String) : Task Input Effect :=
  ⟨OneShot P, idle, step P client secret message⟩

end OneShot

/-! ## The client's terminal session -/

inductive Interactive where
  | idle
  | await_resp (started : TunnelClient.Started P)
  | repl (session : ClientSession) (waiting : Waiting)
  | done (r : Except (Stop Error) Unit)

namespace Interactive

/-- `start_interactive_session` from its first read to its loop. -/
def finish_and_greet (client : TunnelClient) (started : TunnelClient.Started P) (f : WireFrame) :
    Exec (CipherState × CipherState) := do
  let ciphers ← client.finish_handshake P started f
  Exec.println banner
  return ciphers

def after : ControlFlow (ClientSession × Waiting) → Interactive P
  | .cont (s, w) => repl s w
  | .done _ => done (.ok ())

def step (client : TunnelClient) (secret : Key) : Interactive P → Input → Log × Interactive P
  | idle, .connect =>
    settle (do
      Exec.println ["Kobler til server på " ++ client.target_addr ++ " for interaktiv sesjon..."]
      client.start_handshake P secret) await_resp (fun s => done (.error s))
  | await_resp started, .frame f =>
    settle (finish_and_greet P client started f) (fun c => repl (.start c) .line) (fun s => done (.error s))
  | repl s .line, .line l => settle (s.repl_line P client l) (after P) (fun s => done (.error s))
  | repl s (.frame a), .frame f => settle (s.repl_frame P a f) (after P) (fun s => done (.error s))
  | await_resp _, .unwritten => ([], done (.error (.err .broken_pipe)))
  | repl _ (.frame _), .unwritten => ([], done (.error (.err .broken_pipe)))
  | done r, _ => ([], done r)
  | _, .broken s => ([], done (.error s))
  | s, _ => ([], s)

def task (client : TunnelClient) (secret : Key) : Task Input Effect :=
  ⟨Interactive P, idle, step P client secret⟩

/-- What one input does to the loop: at most one message is encrypted or decrypted. -/
inductive Turn (s : ClientSession) (w : Waiting) : Input → Log × Interactive P → Prop
  | stays {i : Input} {l : Log} (m : SessionMetrics) (hl : Quiet l) :
      Turn s w i (l, repl { s with session_metrics := m } w)
  | ended {i : Input} {l : Log} {r : Except (Stop Error) Unit} (hl : Quiet l) : Turn s w i (l, done r)
  | asked {line : Option String} {t : MessageType} {pt aad ct : Bytes} {tx' : CipherState} {a : Awaited}
      (hw : w = .line) (hreq : ClientSession.Requests t pt aad a)
      (he : s.tx_cipher.encrypt P pt aad = (tx', .ok ct)) :
      Turn s w (.line line)
        (sealedLog s.tx_cipher t pt aad ct, repl (s.sentFrame tx' ⟨t, s.tx_cipher.nonce, ct⟩) (.frame a))
  | skipped {f : WireFrame} {l : Log} {a : Awaited} (m : SessionMetrics) (hl : Quiet l) (hw : w = .frame a)
      (hskip : a.expects f.msg_type = false) : Turn s w (.frame f) (l, repl { s with session_metrics := m } .line)
  | heard {f : WireFrame} {a : Awaited} {aad pt : Bytes} {rx' : CipherState} (text : String) (hw : w = .frame a)
      (ht : Carries f.msg_type aad) (hd : s.rx_cipher.decrypt P f.payload aad f.nonce = .ok (rx', .ok pt)) :
      Turn s w (.frame f)
        (openedLog s.rx_cipher f aad pt ++ [.printed text], repl { s.counted f with rx_cipher := rx' } .line)

theorem turn_line (client : TunnelClient) (s : ClientSession) (line : Option String) :
    Turn P s .line (.line line) (settle (s.repl_line P client line) (after P) fun e => done (.error e)) := by
  rcases s.repl_line_cases P client line with
    ⟨hq, ⟨m, hr⟩ | ⟨m, hr⟩⟩ | ⟨t, pt, aad, a, hreq, ⟨err, hr⟩ | ⟨ct, tx', he, hr⟩⟩
  · rw [settle_ok hr]
    exact .stays m hq
  · rw [settle_ok hr]
    exact .ended hq
  · rw [hr, settle_error rfl]
    exact .ended .nil
  · rw [hr, settle_ok rfl]
    exact .asked rfl hreq he

theorem turn_frame (s : ClientSession) (a : Awaited) (f : WireFrame) :
    Turn P s (.frame a) (.frame f) (settle (s.repl_frame P a f) (after P) fun e => done (.error e)) := by
  rcases s.repl_frame_cases P a f with
    ⟨hq, ⟨err, hr⟩ | ⟨hskip, m, hr⟩ | ⟨-, -, hr⟩⟩ | ⟨aad, pt, rx', label, ht, hd, hr⟩
  · rw [settle_error hr]
    exact .ended hq
  · rw [settle_ok hr]
    exact .skipped m hq rfl hskip
  · rw [settle_ok hr]
    exact .ended hq
  · rw [hr, settle_ok rfl]
    exact .heard _ rfl ht hd

theorem repl_turn (client : TunnelClient) (secret : Key) (s : ClientSession) (w : Waiting) (i : Input) :
    Turn P s w i (step P client secret (repl s w) i) := by
  cases i with
  | connect => cases w <;> exact .stays s.session_metrics .nil
  | broken e => cases w <;> exact .ended .nil
  | unwritten =>
    cases w with
    | line => exact .stays s.session_metrics .nil
    | frame a => exact .ended .nil
  | line line =>
    cases w with
    | line => exact turn_line P client s line
    | frame a => exact .stays s.session_metrics .nil
  | frame f =>
    cases w with
    | line => exact .stays s.session_metrics .nil
    | frame a => exact turn_frame P s a f

end Interactive

/-! ## The server's session -/

inductive Serving where
  | await_init
  | transport (session : ServerSession)
  | done (r : Except (Stop Error) ServerSession)

namespace Serving

def after : ControlFlow ServerSession → Serving
  | .cont s => transport s
  | .done s => done (.ok s)

def step (server_keys : KeyPair) (prologue : Bytes) (secret : Key) : Serving → Input → Log × Serving
  | await_init, .frame f =>
    settle (TunnelServer.accept_handshake P server_keys prologue secret f) (fun c => transport (.start c))
      (fun s => done (.error s))
  | transport s, .frame f => settle (s.transport_frame P f) after (fun s => done (.error s))
  | transport s, .broken (.err _) => ([], done (.ok s))
  | transport _, .broken (.panic p) => ([], done (.error (.panic p)))
  | transport _, .unwritten => ([], done (.error (.err .broken_pipe)))
  | await_init, .broken s => ([], done (.error s))
  | s, _ => ([], s)

def task (server_keys : KeyPair) (prologue : Bytes) (secret : Key) : Task Input Effect :=
  ⟨Serving, await_init, step P server_keys prologue secret⟩

/-- What one input does to the loop: at most one message is decrypted, and then answered. -/
inductive Turn (s : ServerSession) : Input → Log × Serving → Prop
  | stays {i : Input} (m : SessionMetrics) : Turn s i ([], transport { s with session_metrics := m })
  | ended {i : Input} (r : Except (Stop Error) ServerSession) : Turn s i ([], done r)
  | took {f : WireFrame} {aad pt : Bytes} {rx' : CipherState} (e : Stop Error) (ht : Carries f.msg_type aad)
      (hd : s.rx_cipher.decrypt P f.payload aad f.nonce = .ok (rx', .ok pt)) :
      Turn s (.frame f) (openedLog s.rx_cipher f aad pt, done (.error e))
  | answered {f : WireFrame} {aad pt ct : Bytes} {filter' : ReplayFilter} {rx' tx' : CipherState}
      (ht : Carries f.msg_type aad) (hd : s.rx_cipher.decrypt P f.payload aad f.nonce = .ok (rx', .ok pt))
      (he : s.tx_cipher.encrypt P (ServerSession.answerTo f.msg_type pt) aad = (tx', .ok ct)) :
      Turn s (.frame f) (openedLog s.rx_cipher f aad pt ++
          sealedLog s.tx_cipher f.msg_type (ServerSession.answerTo f.msg_type pt) aad ct,
        transport (((s.counted f).took rx' filter').sentFrame tx' ⟨f.msg_type, s.tx_cipher.nonce, ct⟩))

theorem turn_frame (s : ServerSession) (f : WireFrame) :
    Turn P s (.frame f) (settle (s.transport_frame P f) after fun e => done (.error e)) := by
  rcases s.transport_frame_cases P f with
    ⟨-, hr⟩ | ⟨-, hr⟩ | ⟨aad, ht, ⟨err, hr⟩ | ⟨pt, filter', rx', -, hd, ⟨err, hr⟩ | ⟨ct, tx', he, hr⟩⟩⟩
  · rw [hr, settle_ok rfl]
    exact .ended _
  · rw [hr, settle_ok rfl]
    exact .stays _
  · rw [hr, settle_error rfl]
    exact .ended _
  · rw [hr, settle_error rfl]
    exact .took _ ht hd
  · rw [hr, settle_ok rfl]
    exact .answered ht hd he

theorem transport_turn (server_keys : KeyPair) (prologue : Bytes) (secret : Key) (s : ServerSession) (i : Input) :
    Turn P s i (step P server_keys prologue secret (transport s) i) := by
  cases i with
  | connect => exact .stays s.session_metrics
  | broken e => cases e <;> exact .ended _
  | unwritten => exact .ended _
  | line line => exact .stays s.session_metrics
  | frame f => exact turn_frame P s f

end Serving

/-! ## Any session -/

inductive Side where
  | client
  | server
  deriving DecidableEq

/-- A session of the program, with the secret it will draw. -/
inductive Session where
  | one_shot (client : TunnelClient) (secret : Key) (message : String)
  | interactive (client : TunnelClient) (secret : Key)
  | server (server_keys : KeyPair) (prologue : Bytes) (secret : Key)

def Session.task : Session → Task Input Effect
  | one_shot client secret message => OneShot.task P client secret message
  | interactive client secret => Interactive.task P client secret
  | server server_keys prologue secret => Serving.task P server_keys prologue secret

end NoiseTunnel
