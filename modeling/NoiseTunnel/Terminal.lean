import NoiseTunnel.Lib.Schedule
import NoiseTunnel.Traffic
/-!
# What the terminal shows

The tunnel beside a program that has none: it reads the same lines, answers
them itself and keeps the requests made so far. At the terminal the two cannot
be told apart, and the server is asked what the program was asked.
-/
open Rust

namespace NoiseTunnel

/-- The numbers in a line of statistics. -/
structure Figures where
  bytes_sent : Nat
  bytes_received : Nat
  frames_sent : Nat
  frames_received : Nat
  total_bytes : Nat
  deriving DecidableEq

def SessionMetrics.figures (m : SessionMetrics) : Figures where
  bytes_sent := m.bytes_sent.toNat
  bytes_received := m.bytes_received.toNat
  frames_sent := m.frames_sent.toNat
  frames_received := m.frames_received.toNat
  total_bytes := m.total_bytes.toNat

inductive Shown where
  | text (s : String)
  | stats (figures : Figures)
  deriving DecidableEq

/-- What a log puts on the terminal. -/
def shown (log : Log) : List Shown :=
  log.filterMap fun | .printed t => some (.text t) | .printed_stats m => some (.stats m.figures) | _ => none

@[simp] theorem shown_append (l l' : Log) : shown (l ++ l') = shown l ++ shown l' := List.filterMap_append

/-! ## A session without a tunnel -/

namespace Plain

inductive Request where
  | ping
  | say (text : String)
  deriving DecidableEq

inductive Command where
  | skip
  | help
  | info
  | stats
  | quit
  | ask (r : Request)

def command (l : String) : Command :=
  let line := trim l
  if line = "" then .skip
  else if line = "/help" then .help
  else if line = "/info" then .info
  else if line = "/stats" then .stats
  else if line = "/quit" ∨ line = "exit" then .quit
  else if line = "/ping" then .ask .ping
  else .ask (.say line)

namespace Request

def reply : Request → String
  | ping => "< [Heartbeat Response]: PONG"
  | say text => "< [Server Svar]: Server mottok: " ++ text

/-- The message that carries the request. -/
def message : Request → MessageType × Bytes
  | ping => (.Heartbeat, PING)
  | say text => (.DataPayload, as_bytes text)

/-- The bytes of the request on the wire, with header and tag. -/
def sent_bytes : Request → Nat
  | ping => 33
  | say text => text.utf8ByteSize + 29

def received_bytes : Request → Nat
  | ping => 33
  | say text => text.utf8ByteSize + 44

end Request

/-- What the requests and their replies come to. -/
def totals (asked : List Request) : Figures where
  bytes_sent := (asked.map Request.sent_bytes).sum
  bytes_received := (asked.map Request.received_bytes).sum
  frames_sent := asked.length
  frames_received := asked.length
  total_bytes := (asked.map Request.sent_bytes).sum + (asked.map Request.received_bytes).sum

/-- What a command shows after the requests `asked`. -/
def shows (client : TunnelClient) (asked : List Request) : Command → List Shown
  | .skip => []
  | .help => ("Tilgjengelige kommandoer:" :: commands).map .text
  | .info => ["Sesjonsinformasjon:", "  Server: " ++ client.target_addr,
      "  Prolog: " ++ from_utf8_lossy client.prologue, "  TX Nonce: " ++ toString asked.length].map .text
  | .stats => [.text "Sesjonsstatistikk:", .stats (totals asked)]
  | .quit => [.text "Avslutter tunnel-sesjon..."]
  | .ask r => [.text r.reply]

/-- What is shown for the lines of a script, and all requests at its end. -/
def session (client : TunnelClient) (asked : List Request) : List String → List Shown × List Request
  | [] => ([], asked)
  | l :: script =>
    match command l with
    | .quit => (shows client asked .quit, asked)
    | .ask r =>
      let rest := session client (asked ++ [r]) script
      (shows client asked (.ask r) ++ rest.1, rest.2)
    | c =>
      let rest := session client asked script
      (shows client asked c ++ rest.1, rest.2)

variable (client : TunnelClient) (asked : List Request) {l : String} {script : List String}

theorem session_quit (h : command l = .quit) :
    session client asked (l :: script) = (shows client asked .quit, asked) := by
  rw [session, h]

theorem session_ask {r : Request} (h : command l = .ask r) :
    session client asked (l :: script) =
      (.text r.reply :: (session client (asked ++ [r]) script).1, (session client (asked ++ [r]) script).2) := by
  rw [session, h]
  rfl

theorem session_local {c : Command} (h : command l = c) (hq : c ≠ .quit) (ha : ∀ r, c ≠ .ask r) :
    session client asked (l :: script) =
      (shows client asked c ++ (session client asked script).1, (session client asked script).2) := by
  rw [session, h]
  cases c with
  | quit => exact absurd rfl hq
  | ask r => exact absurd rfl (ha r)
  | skip => rfl
  | help => rfl
  | info => rfl
  | stats => rfl

/-- Requests are only added. -/
theorem asked_first (script : List String) : asked <+: (session client asked script).2 := by
  induction script generalizing asked with
  | nil => exact List.prefix_rfl
  | cons l script ih =>
    cases h : command l with
    | quit =>
      rw [session_quit client asked h]
    | ask r =>
      rw [session_ask client asked h]
      exact (List.prefix_append asked [r]).trans (ih (asked ++ [r]))
    | skip | help | info | stats =>
      rw [session_local client asked h Command.noConfusion fun _ => Command.noConfusion]
      exact ih asked

/-- The counters of a session in which this was asked. -/
def metrics (asked : List Request) : SessionMetrics where
  bytes_sent := UInt64.ofNat (totals asked).bytes_sent
  bytes_received := UInt64.ofNat (totals asked).bytes_received
  frames_sent := UInt64.ofNat (totals asked).frames_sent
  frames_received := UInt64.ofNat (totals asked).frames_received

theorem metrics_append (r : Request) :
    metrics (asked ++ [r]) = ((metrics asked).record_tx r.sent_bytes).record_rx r.received_bytes := by
  simp [metrics, totals, SessionMetrics.record_tx, SessionMetrics.record_rx, UInt64.ofNat_add]

variable {asked}

theorem length_le_total (asked : List Request) : asked.length ≤ (totals asked).total_bytes := by
  have hbytes : asked.length ≤ (asked.map Request.sent_bytes).sum := by
    induction asked with
    | nil => exact Nat.zero_le _
    | cons r asked ih =>
      have hr : 29 ≤ r.sent_bytes := by
        cases r with
        | ping => decide
        | say text => exact Nat.le_add_left _ _
      rw [List.length_cons, List.map_cons, List.sum_cons]
      omega
  exact hbytes.trans (Nat.le_add_right _ _)

theorem totals_mono {asked' : List Request} (h : asked <+: asked') :
    (totals asked).total_bytes ≤ (totals asked').total_bytes := by
  obtain ⟨more, rfl⟩ := h
  simp only [totals, List.map_append, List.sum_append]
  omega

/-- Below 2^64 bytes the counters show the totals. -/
theorem figures_metrics (h : (totals asked).total_bytes < 2 ^ 64) : (metrics asked).figures = totals asked := by
  have hlen : (totals asked).frames_sent ≤ (totals asked).total_bytes := length_le_total asked
  have hsum : (totals asked).total_bytes = (totals asked).bytes_sent + (totals asked).bytes_received := rfl
  have hfits (n : ℕ) (hn : n < 2 ^ 64) : (UInt64.ofNat n).toNat = n := UInt64.toNat_ofNat_of_lt' hn
  have htotal : (metrics asked).total_bytes = UInt64.ofNat (totals asked).total_bytes := (UInt64.ofNat_add _ _).symm
  have hsent : (metrics asked).bytes_sent.toNat = (totals asked).bytes_sent := hfits _ (by omega)
  have hreceived : (metrics asked).bytes_received.toNat = (totals asked).bytes_received := hfits _ (by omega)
  have hframes : (metrics asked).frames_sent.toNat = (totals asked).frames_sent := hfits _ (by omega)
  rw [SessionMetrics.figures, htotal, hfits _ h, hsent, hreceived, hframes]
  exact congrArg (Figures.mk _ _ _ · _) hframes

end Plain

/-! ## The client's side of it -/

namespace ClientSession

variable {P : Primitives} {s : ClientSession} {asked : List Plain.Request} {f : WireFrame} {aad pt : Bytes}
  {a : Awaited} {rx' : CipherState}

/-- A line asks the server, or ends the loop, or shows what the plain session shows. -/
theorem repl_line_plain (client : TunnelClient) (hm : s.session_metrics = Plain.metrics asked)
    (hfits : (Plain.totals asked).total_bytes < 2 ^ 64) (hn : s.tx_cipher.nonce.toNat = asked.length) (l : String) :
    (∃ r aad a, Plain.command l = .ask r ∧ Requests r.message.1 r.message.2 aad a ∧
      r.message.2.length ≤ max 4 l.utf8ByteSize ∧
      s.repl_line P client (some l) = (do return .cont (← s.request P r.message.1 r.message.2 aad, .frame a))) ∨
    (∃ log, Plain.command l = .quit ∧ shown log = Plain.shows client asked .quit ∧
      frames log = [⟨.Close, s.tx_cipher.nonce, []⟩] ∧
      s.repl_line P client (some l) =
        ⟨log, .ok (.done (s.sentFrame s.tx_cipher ⟨.Close, s.tx_cipher.nonce, []⟩, .line))⟩) ∨
    ∃ c log, Plain.command l = c ∧ c ≠ .quit ∧ (∀ r, c ≠ .ask r) ∧ shown log = Plain.shows client asked c ∧
      frames log = [] ∧ s.repl_line P client (some l) = ⟨log, .ok (.cont (s, .line))⟩ := by
  have hlen := trim_utf8ByteSize_le l
  unfold repl_line Plain.command
  dsimp only
  generalize trim l = line at hlen ⊢
  by_cases hempty : line = ""
  · rw [if_pos hempty, if_pos hempty]
    exact .inr (.inr ⟨.skip, _, rfl, Plain.Command.noConfusion, fun _ => Plain.Command.noConfusion, rfl, rfl, rfl⟩)
  rw [if_neg hempty, if_neg hempty]
  by_cases hhelp : line = "/help"
  · rw [if_pos hhelp, if_pos hhelp]
    exact .inr (.inr ⟨.help, _, rfl, Plain.Command.noConfusion, fun _ => Plain.Command.noConfusion, rfl, rfl, rfl⟩)
  rw [if_neg hhelp, if_neg hhelp]
  by_cases hinfo : line = "/info"
  · rw [if_pos hinfo, if_pos hinfo]
    have hnonce : toString s.tx_cipher.current_nonce = toString asked.length := by rw [← hn]; rfl
    rw [hnonce]
    exact .inr (.inr ⟨.info, _, rfl, Plain.Command.noConfusion, fun _ => Plain.Command.noConfusion, rfl, rfl, rfl⟩)
  rw [if_neg hinfo, if_neg hinfo]
  by_cases hstats : line = "/stats"
  · have hshown : [.text "Sesjonsstatistikk:", .stats (Plain.metrics asked).figures] = Plain.shows client asked .stats := by
      rw [Plain.figures_metrics hfits]
      rfl
    rw [if_pos hstats, if_pos hstats, hm]
    exact .inr (.inr ⟨.stats, [.printed _, .printed_stats _], rfl, Plain.Command.noConfusion,
      fun _ => Plain.Command.noConfusion, hshown, rfl, rfl⟩)
  rw [if_neg hstats, if_neg hstats]
  by_cases hquit : line = "/quit" ∨ line = "exit"
  · rw [if_pos hquit, if_pos hquit]
    exact .inr (.inl ⟨_, rfl, rfl, rfl, rfl⟩)
  rw [if_neg hquit, if_neg hquit]
  left
  by_cases hping : line = "/ping"
  · rw [if_pos hping, if_pos hping]
    exact ⟨.ping, _, _, rfl, .ping, Nat.le_max_left 4 _, rfl⟩
  · rw [if_neg hping, if_neg hping]
    refine ⟨.say line, _, _, rfl, .data line, ?_, rfl⟩
    rw [Plain.Request.message, as_bytes_length]
    exact Nat.le_trans hlen (Nat.le_max_right 4 _)

theorem Requests.of_data (h : Requests .DataPayload pt aad a) : aad = TUNNEL_DATA ∧ a = .reply := by
  cases h
  exact ⟨rfl, rfl⟩

/-- The answer to a request shows the reply of the plain session. -/
theorem repl_frame_plain {r : Plain.Request} (hreq : Requests r.message.1 r.message.2 aad a)
    (hf : f.msg_type = r.message.1)
    (hd : s.rx_cipher.decrypt P f.payload aad f.nonce =
      .ok (rx', .ok (ServerSession.answerTo r.message.1 r.message.2))) :
    s.repl_frame P a f =
      ⟨openedLog s.rx_cipher f aad (ServerSession.answerTo r.message.1 r.message.2) ++ [.printed r.reply],
        .ok (.cont ({ s.counted f with rx_cipher := rx' }, .line))⟩ := by
  cases r with
  | ping =>
    cases hreq
    have hreply : "< [Heartbeat Response]: " ++ from_utf8_lossy PONG = Plain.Request.ping.reply :=
      congrArg ("< [Heartbeat Response]: " ++ ·) (from_utf8_lossy_as_bytes "PONG")
    rw [repl_frame_pong P s hf, answer_of P (s.counted f) _ hd, ← hreply]
    rfl
  | say text =>
    obtain ⟨rfl, rfl⟩ := hreq.of_data
    have htext : from_utf8_lossy (ServerSession.answerTo .DataPayload (as_bytes text)) = REPLY_PREFIX ++ text := by
      show from_utf8_lossy (as_bytes (REPLY_PREFIX ++ from_utf8_lossy (as_bytes text))) = _
      rw [from_utf8_lossy_as_bytes, from_utf8_lossy_as_bytes]
    have hreply : "< [Server Svar]: " ++ from_utf8_lossy (ServerSession.answerTo .DataPayload (as_bytes text)) =
        (Plain.Request.say text).reply := by
      rw [htext, ← String.append_assoc]
      rfl
    rw [repl_frame_reply P s hf, answer_of P (s.counted f) _ hd, ← hreply]
    rfl

end ClientSession

/-! ## The conversation -/

namespace Plain.Request

theorem sent_bytes_eq (r : Request) : r.message.2.length + 29 = r.sent_bytes := by
  cases r with
  | ping => rfl
  | say text =>
    rw [message, as_bytes_length]
    rfl

theorem received_bytes_eq (r : Request) :
    (ServerSession.answerTo r.message.1 r.message.2).length + 29 = r.received_bytes := by
  rw [ServerSession.answerTo_length]
  cases r with
  | ping => rfl
  | say text =>
    rw [message, if_neg (by simp), from_utf8_lossy_as_bytes]
    show 15 + text.utf8ByteSize + 29 = text.utf8ByteSize + 44
    omega

end Plain.Request

namespace Conversation

open Plain

/-- The server was asked `taken`. With `out` shown and `asked` asked, the plain
session comes from the lines left to `whole`. -/
structure Tells (client : TunnelClient) (whole : List Shown × List Plain.Request) (v : Conversation)
    (taken asked : List Plain.Request) (out : List Shown) : Prop where
  taken : receivedPairs v.server_log = taken.map Plain.Request.message
  remains : whole = (out ++ (session client asked v.script).1, (session client asked v.script).2)

/-- At the prompt; a request on its way; its answer on its way; `Close` on its
way; and `Close` read. No more than `k` turns can follow. -/
inductive Told (P : Primitives) (client : TunnelClient) (whole : List Shown × List Plain.Request)
    (v : Conversation) : ℕ → Prop
  | prompt {asked : List Plain.Request} : v.to_server = [] → v.to_client = [] → v.waiting = .line → v.quit = false →
      v.closed = false → v.server.Ready asked.length →
      v.client.tx_cipher = v.server.rx_cipher → v.client.rx_cipher = v.server.tx_cipher →
      v.client.session_metrics = metrics asked → Tells client whole v asked asked (shown v.client_log) →
      Told P client whole v (3 * v.script.length)
  | asked {asked : List Plain.Request} {r : Plain.Request} {aad ct : Bytes} {a : Awaited} :
      v.to_server = WireFrame.serialize ⟨r.message.1, v.server.rx_cipher.nonce, ct⟩ → v.to_client = [] →
      v.waiting = .frame a → ClientSession.Requests r.message.1 r.message.2 aad a → v.quit = false → v.closed = false →
      v.server.Ready asked.length → r.message.2.length ≤ 65496 →
      v.server.rx_cipher.encrypt P r.message.2 aad = (v.client.tx_cipher, .ok ct) →
      v.client.rx_cipher = v.server.tx_cipher →
      v.client.session_metrics = (metrics asked).record_tx r.sent_bytes →
      Tells client whole v asked (asked ++ [r]) (shown v.client_log ++ [.text r.reply]) →
      Told P client whole v (3 * v.script.length + 2)
  | answered {asked : List Plain.Request} {r : Plain.Request} {aad ct : Bytes} {a : Awaited} : v.to_server = [] →
      v.to_client = WireFrame.serialize ⟨r.message.1, v.client.rx_cipher.nonce, ct⟩ → v.waiting = .frame a →
      ClientSession.Requests r.message.1 r.message.2 aad a → v.quit = false → v.closed = false →
      v.server.Ready (asked.length + 1) → r.message.2.length ≤ 65496 →
      v.client.rx_cipher.encrypt P (ServerSession.answerTo r.message.1 r.message.2) aad =
        (v.server.tx_cipher, .ok ct) →
      v.client.tx_cipher = v.server.rx_cipher →
      v.client.session_metrics = (metrics asked).record_tx r.sent_bytes →
      Tells client whole v (asked ++ [r]) (asked ++ [r]) (shown v.client_log ++ [.text r.reply]) →
      Told P client whole v (3 * v.script.length + 1)
  | leaving {asked : List Plain.Request} (nonce : UInt64) : v.to_server = WireFrame.serialize ⟨.Close, nonce, []⟩ →
      v.quit = true → v.closed = false → receivedPairs v.server_log = asked.map Plain.Request.message →
      whole = (shown v.client_log, asked) → Told P client whole v 1
  | left {asked : List Plain.Request} : v.quit = true → v.closed = true →
      receivedPairs v.server_log = asked.map Plain.Request.message → whole = (shown v.client_log, asked) →
      Told P client whole v 0

variable {P : Primitives} {client : TunnelClient} {whole : List Shown × List Plain.Request} {k : ℕ}
  {v v' : Conversation} {f : WireFrame} {rest : Bytes} {log : Log} {script : List String}

theorem told_start (P : Primitives) (client : TunnelClient) (client_write_key server_write_key : Key)
    (script : List String) :
    Told P client (session client [] script) (start client_write_key server_write_key script) (3 * script.length) := by
  have hready : (start client_write_key server_write_key script).server.Ready ([] : List Plain.Request).length :=
    ServerSession.ready_start _ _
  exact .prompt rfl rfl rfl rfl rfl hready rfl rfl rfl ⟨rfl, rfl⟩

/-- What has been asked fits if all that will be asked does. -/
theorem Tells.fits {taken asked : List Plain.Request} {out : List Shown} (h : Tells client whole v taken asked out)
    (hfits : (totals whole.2).total_bytes < 2 ^ 64) : (totals asked).total_bytes < 2 ^ 64 := by
  have hasked : asked <+: whole.2 := by
    rw [h.remains]
    exact asked_first client asked v.script
  exact (totals_mono hasked).trans_lt hfits

theorem reads_frame (hvalid : WireFrame.is_valid_payload_size f.payload.length) :
    WireFrame.read_from f.serialize = .ok (f, []) :=
  WireFrame.read_from_eq_ok.2 ⟨hvalid, (List.append_nil _).symm⟩

/-- A line is typed at the prompt. -/
theorem Told.line (hP : P.Correct) {l : String} {c : ControlFlow (ClientSession × Waiting)}
    (h : Told P client whole v k) (hfits : (totals whole.2).total_bytes < 2 ^ 64)
    (hshort : ∀ l ∈ v.script, l.utf8ByteSize ≤ 65496) (hquit : v.quit = false)
    (hw : v.waiting = .line) (hs : v.script = l :: script)
    (hr : v.client.repl_line P client (some l) = ⟨log, .ok c⟩) :
    ∃ k' < k, Told P client whole (v.typed log script c) k' := by
  cases h with
  | asked _ _ hframe =>
    rw [hw] at hframe
    cases hframe
  | answered _ _ hframe =>
    rw [hw] at hframe
    cases hframe
  | leaving _ _ hq =>
    rw [hq] at hquit
    cases hquit
  | left hq =>
    rw [hq] at hquit
    cases hquit
  | @prompt asked hup hdown _ _ hclosed hready htx hrx hm ht =>
    have hl := hshort l (by rw [hs]; exact List.mem_cons_self)
    have hlen : v.script.length = script.length + 1 := by rw [hs]; rfl
    have hnonce : v.client.tx_cipher.nonce.toNat = asked.length := by rw [htx, hready.nonce]
    have hremains := ht.remains
    rw [hs] at hremains
    rcases v.client.repl_line_plain client hm (ht.fits hfits) hnonce l with
      ⟨r, aad, a, hc, hreq, hpt, he⟩ | ⟨log', hc, hout, hf, he⟩ | ⟨cmd, log', hc, hne, hask, hout, hf, he⟩
    · rcases v.client.request_cases P r.message.1 r.message.2 aad with ⟨ct, tx', hen, hsent⟩ | ⟨e, hfail⟩
      · have hline : v.client.repl_line P client (some l) =
            ⟨sealedLog v.client.tx_cipher r.message.1 r.message.2 aad ct,
              .ok (.cont (v.client.sentFrame tx' ⟨r.message.1, v.client.tx_cipher.nonce, ct⟩, .frame a))⟩ := by
          rw [he, hsent]
          rfl
        rw [hline] at hr
        cases hr
        have hsize := hP.encrypt_length _ _ _ _ _ (CipherState.encrypt_eq_ok.1 hen).1
        rw [session_ask client asked hc] at hremains
        refine ⟨3 * script.length + 2, by omega, .asked ?_ hdown rfl hreq rfl hclosed hready (by omega)
          (htx ▸ hen) hrx ?_ ⟨ht.taken, ?_⟩⟩
        · show v.to_server ++ written (sealedLog _ _ _ _ _) = _
          rw [hup, htx]
          simp [written, frames, sealedLog]
          rfl
        · show v.client.session_metrics.record_tx (ct.length + 13) = _
          rw [hm, hsize, ← r.sent_bytes_eq]
          rfl
        · have hshown : shown (v.client_log ++ sealedLog v.client.tx_cipher r.message.1 r.message.2 aad ct) =
              shown v.client_log := by
            rw [shown_append]
            exact List.append_nil _
          show whole = (shown (v.client_log ++ sealedLog _ _ _ _ _) ++ _ ++ _, _)
          rw [hshown, hremains, List.append_assoc]
          rfl
      · rw [he, hfail] at hr
        cases hr
    · rw [he] at hr
      cases hr
      rw [session_quit client asked hc] at hremains
      refine ⟨1, by omega, .leaving v.client.tx_cipher.nonce ?_ rfl hclosed ht.taken ?_⟩
      · show v.to_server ++ written log = _
        rw [hup, written, hf]
        exact List.append_nil _
      · show whole = (shown (v.client_log ++ log), _)
        rw [shown_append, hout, hremains]
    · rw [he] at hr
      cases hr
      rw [session_local client asked hc hne hask] at hremains
      refine ⟨3 * script.length, by omega, .prompt ?_ hdown rfl rfl hclosed hready htx hrx hm ⟨ht.taken, ?_⟩⟩
      · show v.to_server ++ written log = _
        rw [hup, written, hf]
        rfl
      · show whole = (shown (v.client_log ++ log) ++ _, _)
        rw [shown_append, hout, hremains, List.append_assoc]
        rfl

/-- The server takes a turn. -/
theorem Told.serve {c : ControlFlow ServerSession} (hP : P.Correct) (h : Told P client whole v k)
    (hclosed : v.closed = false) (hr : WireFrame.read_from v.to_server = .ok (f, rest))
    (ht : v.server.transport_frame P f = ⟨log, .ok c⟩) :
    ∃ k' < k, Told P client whole (v.served rest log c) k' := by
  cases h with
  | prompt hup =>
    rw [hup] at hr
    cases hr
  | answered hup =>
    rw [hup] at hr
    cases hr
  | left _ hc =>
    rw [hc] at hclosed
    cases hclosed
  | leaving nonce hup hq _ htaken hwhole =>
    rw [hup, reads_frame rfl] at hr
    cases hr
    rw [ServerSession.transport_frame_close P v.server rfl] at ht
    cases ht
    refine ⟨0, Nat.zero_lt_one, .left hq rfl ?_ hwhole⟩
    show receivedPairs (v.server_log ++ []) = _
    rw [List.append_nil, htaken]
  | @asked asked r aad ct a hup hdown hw hreq hquit _ hready hlen he hrx hm htells =>
    have hvalid := encrypted_valid hP (Nat.le_trans hlen (by omega)) (CipherState.encrypt_eq_ok.1 he).1
    rw [hup, reads_frame hvalid] at hr
    cases hr
    obtain ⟨ct', s', hturn, hready', hrx', hen, -⟩ := hready.answers hP he hreq.carries hvalid
    rw [hturn] at ht
    cases ht
    refine ⟨3 * v.script.length + 1, by omega, .answered rfl ?_ hw hreq hquit rfl hready' hlen (hrx ▸ hen) hrx'.symm
      hm ⟨?_, htells.remains⟩⟩
    · show v.to_client ++ written (openedLog _ _ _ _ ++ sealedLog _ _ _ _ _) =
        WireFrame.serialize ⟨_, v.client.rx_cipher.nonce, _⟩
      rw [hdown, hrx]
      simp [written, frames, openedLog, sealedLog]
    · show receivedPairs (v.server_log ++ _) = _
      rw [receivedPairs_append, htells.taken, List.map_append]
      rfl

/-- The client takes in the frame it waits for. -/
theorem Told.receive {c : ControlFlow (ClientSession × Waiting)} (hP : P.Correct) (h : Told P client whole v k)
    {a : Awaited} (hquit : v.quit = false) (hw : v.waiting = .frame a)
    (hr : WireFrame.read_from v.to_client = .ok (f, rest)) (ht : v.client.repl_frame P a f = ⟨log, .ok c⟩) :
    ∃ k' < k, Told P client whole (v.received rest log c) k' := by
  cases h with
  | prompt _ _ hline =>
    rw [hw] at hline
    cases hline
  | asked _ hdown =>
    rw [hdown] at hr
    cases hr
  | leaving _ _ hq =>
    rw [hq] at hquit
    cases hquit
  | left hq =>
    rw [hq] at hquit
    cases hquit
  | @answered asked r aad ct a' hup hdown hframe hreq _ hclosed hready hlen he htx hm htells =>
    obtain rfl : a = a' := Waiting.frame.inj (hw.symm.trans hframe)
    have hanswer := hreq.answer_length
    have hvalid := encrypted_valid hP (by omega) (CipherState.encrypt_eq_ok.1 he).1
    rw [hdown, reads_frame hvalid] at hr
    cases hr
    have hd := CipherState.decrypt_encrypted hP he
    have hturn := ClientSession.repl_frame_plain (f := ⟨r.message.1, v.client.rx_cipher.nonce, ct⟩) hreq rfl hd
    rw [hturn] at ht
    cases ht
    have hsize := hP.encrypt_length _ _ _ _ _ (CipherState.encrypt_eq_ok.1 he).1
    have hready' : v.server.Ready (asked ++ [r]).length := by
      rw [List.length_append]
      exact hready
    refine ⟨3 * v.script.length, by omega, .prompt ?_ rfl rfl rfl hclosed hready' htx rfl ?_ ⟨htells.taken, ?_⟩⟩
    · show v.to_server ++ written (openedLog _ _ _ _ ++ _) = _
      rw [hup]
      rfl
    · show v.client.session_metrics.record_rx (ct.length + 13) = _
      rw [hm, metrics_append, hsize, ← r.received_bytes_eq]
      rfl
    · show whole = (shown (v.client_log ++ (openedLog _ _ _ _ ++ [.printed r.reply])) ++ _, _)
      rw [htells.remains, shown_append]
      rfl

/-- Every turn keeps the session what the plain one is, and brings the end nearer. -/
theorem Told.step (hP : P.Correct) (h : Told P client whole v k) (hfits : (totals whole.2).total_bytes < 2 ^ 64)
    (hshort : ∀ l ∈ v.script, l.utf8ByteSize ≤ 65496) (hs : Step P client v v') :
    ∃ k' < k, Told P client whole v' k' := by
  cases hs with
  | line hquit hw hscript hr => exact h.line hP hfits hshort hquit hw hscript hr
  | serve hclosed hr ht => exact h.serve hP hclosed hr ht
  | receive hquit hw hr ht => exact h.receive hP hquit hw hr ht

theorem Told.run (hP : P.Correct) (h : Told P client whole v k) (hfits : (totals whole.2).total_bytes < 2 ^ 64)
    (hshort : ∀ l ∈ v.script, l.utf8ByteSize ≤ 65496) (hr : Reaches P client v v') :
    (∃ k', Told P client whole v' k') ∧ v'.script <:+ v.script := by
  induction hr with
  | refl => exact ⟨⟨k, h⟩, List.suffix_refl _⟩
  | tail _ hs ih =>
    obtain ⟨⟨k', htold⟩, hsuffix⟩ := ih
    obtain ⟨k'', -, htold'⟩ := htold.step hP hfits (fun l hl => hshort l (hsuffix.subset hl)) hs
    exact ⟨⟨k'', htold'⟩, hs.types.1.trans hsuffix⟩

/-- By induction on the turns left: no run goes on for ever. -/
theorem Told.terminates (hP : P.Correct) (h : Told P client whole v k)
    (hfits : (totals whole.2).total_bytes < 2 ^ 64) (hshort : ∀ l ∈ v.script, l.utf8ByteSize ≤ 65496) :
    Acc (fun a b => Step P client b a) v := by
  induction k using Nat.strongRecOn generalizing v with
  | _ k ih =>
    apply Acc.intro v
    intro v' hs
    obtain ⟨k', hk, h'⟩ := h.step hP hfits hshort hs
    exact ih k' hk h' fun l hl => hshort l (hs.types.1.subset hl)

/-- What has been shown and asked is the beginning of what the plain session shows and asks. -/
theorem Told.sound (h : Told P client whole v k) :
    shown v.client_log <+: whole.1 ∧ receivedPairs v.server_log <+: whole.2.map Plain.Request.message := by
  have htells {taken asked : List Plain.Request} {out : List Shown} (ht : Tells client whole v taken asked out)
      (hout : shown v.client_log <+: out) (htaken : taken <+: asked) :
      shown v.client_log <+: whole.1 ∧ receivedPairs v.server_log <+: whole.2.map Plain.Request.message := by
    rw [ht.taken, ht.remains]
    exact ⟨hout.trans (List.prefix_append _ _), (htaken.trans (asked_first client asked v.script)).map _⟩
  cases h with
  | prompt _ _ _ _ _ _ _ _ _ ht => exact htells ht List.prefix_rfl List.prefix_rfl
  | asked _ _ _ _ _ _ _ _ _ _ _ ht => exact htells ht (List.prefix_append _ _) (List.prefix_append _ _)
  | answered _ _ _ _ _ _ _ _ _ _ _ ht => exact htells ht (List.prefix_append _ _) List.prefix_rfl
  | leaving _ _ _ _ htaken hwhole =>
    rw [htaken, hwhole]
    exact ⟨List.prefix_rfl, List.prefix_rfl⟩
  | left _ _ htaken hwhole =>
    rw [htaken, hwhole]
    exact ⟨List.prefix_rfl, List.prefix_rfl⟩

/-- Where nobody can take a turn, everything has been shown and asked. -/
theorem Told.complete (hP : P.Correct) (h : Told P client whole v k) (hfits : (totals whole.2).total_bytes < 2 ^ 64)
    (hshort : ∀ l ∈ v.script, l.utf8ByteSize ≤ 65496) (hrest : ∀ v', ¬Step P client v v') :
    shown v.client_log = whole.1 ∧ receivedPairs v.server_log = whole.2.map Plain.Request.message := by
  cases h with
  | left _ _ htaken hwhole =>
    rw [htaken, hwhole]
    exact ⟨rfl, rfl⟩
  | leaving nonce hup _ hclosed =>
    have hread : WireFrame.read_from v.to_server = .ok (⟨.Close, nonce, []⟩, []) := by
      rw [hup]
      exact reads_frame rfl
    exact (hrest _ (.serve hclosed hread (v.server.transport_frame_close P rfl))).elim
  | @asked asked r aad ct a hup hdown _ hreq hquit hclosed hready hlen he =>
    have hvalid := encrypted_valid hP (Nat.le_trans hlen (by omega)) (CipherState.encrypt_eq_ok.1 he).1
    obtain ⟨ct', s', hturn, -⟩ := hready.answers hP he hreq.carries hvalid
    have hread := reads_frame (f := ⟨r.message.1, v.server.rx_cipher.nonce, ct⟩) hvalid
    rw [← hup] at hread
    exact (hrest _ (.serve hclosed hread hturn)).elim
  | @answered asked r aad ct a hup hdown hw hreq hquit hclosed hready hlen he =>
    have hanswer := hreq.answer_length
    have hvalid := encrypted_valid hP (by omega) (CipherState.encrypt_eq_ok.1 he).1
    have hd := CipherState.decrypt_encrypted hP he
    have hframe := ClientSession.repl_frame_plain (f := ⟨r.message.1, v.client.rx_cipher.nonce, ct⟩) hreq rfl hd
    have hread := reads_frame (f := ⟨r.message.1, v.client.rx_cipher.nonce, ct⟩) hvalid
    rw [← hdown] at hread
    exact (hrest _ (.receive hquit hw hread hframe)).elim
  | @prompt asked hup hdown hw hquit hclosed hready htx hrx hm ht =>
    cases hs : v.script with
    | nil =>
      have hremains := ht.remains
      rw [hs] at hremains
      rw [ht.taken, hremains]
      exact ⟨(List.append_nil _).symm, rfl⟩
    | cons l script =>
      have hnonce : v.client.tx_cipher.nonce.toNat = asked.length := by rw [htx, hready.nonce]
      rcases v.client.repl_line_plain client hm (ht.fits hfits) hnonce l with
        ⟨r, aad, a, hc, -, hpt, he⟩ | ⟨log, -, -, -, he⟩ | ⟨cmd, log, -, -, -, -, -, he⟩
      · have hl := hshort l (by rw [hs]; exact List.mem_cons_self)
        have hasked : asked ++ [r] <+: whole.2 := by
          rw [ht.remains, hs, session_ask client asked hc]
          exact asked_first client (asked ++ [r]) script
        have hlt : v.client.tx_cipher.nonce.toNat + 1 < 2 ^ 64 := by
          have hlen := (hasked.length_le.trans (length_le_total _)).trans_lt hfits
          rw [List.length_append] at hlen
          rw [hnonce]
          exact hlen
        obtain ⟨ct, hct⟩ := hP.encrypt_some v.client.tx_cipher.key (CipherState.build_nonce v.client.tx_cipher.nonce)
          r.message.2 aad (by omega)
        rw [v.client.request_of P (CipherState.encrypt_of hct hlt)] at he
        exact (hrest _ (.line hquit hw hs he)).elim
      · exact (hrest _ (.line hquit hw hs he)).elim
      · exact (hrest _ (.line hquit hw hs he)).elim

/-- The tunnel is transparent to a script whose requests and replies come to fewer than 2^64 bytes. Whatever
turns the two sides take, the terminal shows the beginning of what the session without a tunnel shows, and the
server has been asked the beginning of its requests; no run goes on for ever, and where it ends both are complete. -/
theorem terminal_transparent (hP : P.Correct) (client : TunnelClient) (client_write_key server_write_key : Key)
    {script : List String} (hshort : ∀ l ∈ script, l.utf8ByteSize ≤ 65496)
    (hfits : (totals (session client [] script).2).total_bytes < 2 ^ 64) :
    ∀ v, Reaches P client (start client_write_key server_write_key script) v →
      shown v.client_log <+: (session client [] script).1 ∧
      receivedPairs v.server_log <+: (session client [] script).2.map Plain.Request.message ∧
      Acc (fun a b => Step P client b a) v ∧
      ((∀ v', ¬Step P client v v') → shown v.client_log = (session client [] script).1 ∧
        receivedPairs v.server_log = (session client [] script).2.map Plain.Request.message) := by
  intro v hr
  have hstart := told_start P client client_write_key server_write_key script
  obtain ⟨⟨k, h⟩, hsuffix⟩ := hstart.run hP hfits hshort hr
  have hshort' : ∀ l ∈ v.script, l.utf8ByteSize ≤ 65496 := fun l hl => hshort l (hsuffix.subset hl)
  exact ⟨h.sound.1, h.sound.2, h.terminates hP hfits hshort', h.complete hP hfits hshort'⟩

/-- A run of a script with a message, a command and a ping comes to its end. -/
theorem terminal_transparent_ping :
    ∃ v, Reaches (Concrete.primitives true) (.new (Concrete.key 1) "localhost:9000")
        (start (Concrete.key 5) (Concrete.key 6) ["hei", "/stats", "/ping"]) v ∧
      shown v.client_log = [.text "< [Server Svar]: Server mottok: hei", .text "Sesjonsstatistikk:",
        .stats ⟨32, 47, 1, 1, 79⟩, .text "< [Heartbeat Response]: PONG"] := by
  have hshort : ∀ l ∈ ["hei", "/stats", "/ping"], l.utf8ByteSize ≤ 65496 := by decide
  have hall := terminal_transparent (Concrete.correct true) (.new (Concrete.key 1) "localhost:9000") (Concrete.key 5)
    (Concrete.key 6) hshort (by decide)
  obtain ⟨v, hr, hrest⟩ := Schedule.exists_rest (hall _ .refl).2.2.1
  exact ⟨v, hr, ((hall v hr).2.2.2 hrest).1.trans (by decide)⟩

end Conversation

end NoiseTunnel
