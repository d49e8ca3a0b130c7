import NoiseTunnel.Client
import NoiseTunnel.Tally
import Mathlib.Logic.Relation
/-!
# Traffic statistics

An interactive client that types its way through a script, and an honest
server, joined by two byte streams. Between two requests, and once the server
has read the `Close`, the statistics of both are the bytes on the wire.
-/
open Rust

namespace NoiseTunnel

/-! ## A conversation -/

/-- Both loops after the handshake, the lines still to be typed, and the bytes on the way to each. -/
structure Conversation where
  client : ClientSession
  waiting : Waiting
  /-- The client has left its loop. -/
  quit : Bool
  server : ServerSession
  /-- The server has left its loop. -/
  closed : Bool
  script : List String
  to_server : Bytes
  to_client : Bytes
  client_log : Log
  server_log : Log

namespace ControlFlow

variable {σ : Type}

def state : ControlFlow σ → σ
  | cont s => s
  | done s => s

def ended : ControlFlow σ → Bool
  | cont _ => false
  | done _ => true

end ControlFlow

namespace ClientSession

theorem Requests.expects {t : MessageType} {pt aad : Bytes} {a : Awaited} (h : Requests t pt aad a) :
    a.expects t = true := by
  cases h <;> simp [Awaited.expects]

theorem Requests.answer_length {t : MessageType} {pt aad : Bytes} {a : Awaited} (h : Requests t pt aad a) :
    (ServerSession.answerTo t pt).length ≤ pt.length + 15 := by
  rw [ServerSession.answerTo_length]
  cases h with
  | ping => simp
  | data line =>
    rw [if_neg (by simp), from_utf8_lossy_as_bytes, as_bytes_length]
    omega

end ClientSession

namespace Conversation

open SessionMetrics (tally tally_sent tally_received)

def start (client_write_key server_write_key : Key) (script : List String) : Conversation where
  client := .start (CipherState.new client_write_key, CipherState.new server_write_key)
  waiting := .line
  quit := false
  server := .start (CipherState.new client_write_key, CipherState.new server_write_key)
  closed := false
  script := script
  to_server := []
  to_client := []
  client_log := []
  server_log := []

variable (v : Conversation) (rest : Bytes) (log : Log)

/-- After the client has dealt with a line; `script` is left. -/
def typed (script : List String) (c : ControlFlow (ClientSession × Waiting)) : Conversation :=
  { v with
    client := c.state.1
    waiting := c.state.2
    quit := c.ended
    script := script
    to_server := v.to_server ++ written log
    client_log := v.client_log ++ log }

/-- After a turn of the server; `rest` is left on its stream. -/
def served (c : ControlFlow ServerSession) : Conversation :=
  { v with
    server := c.state
    closed := c.ended
    to_server := rest
    to_client := v.to_client ++ written log
    server_log := v.server_log ++ log }

/-- After the client has dealt with a frame; `rest` is left on its stream. -/
def received (c : ControlFlow (ClientSession × Waiting)) : Conversation :=
  { v with
    client := c.state.1
    waiting := c.state.2
    quit := c.ended
    to_server := v.to_server ++ written log
    to_client := rest
    client_log := v.client_log ++ log }

/-- One turn of either loop. After a turn that fails nothing more is exchanged. -/
inductive Step (P : Primitives) (tunnel_client : TunnelClient) : Conversation → Conversation → Prop
  | line {v l script log c} : v.quit = false → v.waiting = .line → v.script = l :: script →
      v.client.repl_line P tunnel_client (some l) = ⟨log, .ok c⟩ → Step P tunnel_client v (v.typed log script c)
  | serve {v f rest log c} : v.closed = false → WireFrame.read_from v.to_server = .ok (f, rest) →
      v.server.transport_frame P f = ⟨log, .ok c⟩ → Step P tunnel_client v (v.served rest log c)
  | receive {v a f rest log c} : v.quit = false → v.waiting = .frame a →
      WireFrame.read_from v.to_client = .ok (f, rest) → v.client.repl_frame P a f = ⟨log, .ok c⟩ →
      Step P tunnel_client v (v.received rest log c)

/-- Any number of turns. -/
def Reaches (P : Primitives) (tunnel_client : TunnelClient) : Conversation → Conversation → Prop :=
  Relation.ReflTransGen (Step P tunnel_client)

/-! ## The wire -/

/-- The most that the requests of a script and their replies come to: a line
of `n` bytes makes a request of at most `n + 33` and a reply of at most `n + 48`. -/
def script_bytes (script : List String) : Nat := (script.map fun l => 2 * l.utf8ByteSize + 81).sum

/-- What has crossed the wire, with a reply of `reply` bytes, and what the script can still add. -/
def spent (v : Conversation) (reply : Nat) : Nat :=
  wire_bytes (frames v.client_log) + wire_bytes (frames v.server_log) + reply + script_bytes v.script

/-- Both ends have counted the same, and it is what crossed the wire. -/
structure Matches (v : Conversation) : Prop where
  bytes_up : v.client.session_metrics.bytes_sent = v.server.session_metrics.bytes_received
  frames_up : v.client.session_metrics.frames_sent = v.server.session_metrics.frames_received
  bytes_down : v.client.session_metrics.bytes_received = v.server.session_metrics.bytes_sent
  frames_down : v.client.session_metrics.frames_received = v.server.session_metrics.frames_sent
  wire_up : v.client.session_metrics.bytes_sent.toNat = wire_bytes (frames v.client_log)
  wire_down : v.server.session_metrics.bytes_sent.toNat = wire_bytes (frames v.server_log)

/-- The server has read `up` and will read `up'`; the client has read `down`
and will read `down'`. Both have counted what they wrote and read. -/
structure Tally (v : Conversation) (up up' down down' : List WireFrame) : Prop where
  client_frames : frames v.client_log = up ++ up'
  server_frames : frames v.server_log = down ++ down'
  to_server : v.to_server = up'.flatMap WireFrame.serialize
  to_client : v.to_client = down'.flatMap WireFrame.serialize
  client : v.client.session_metrics = tally (up ++ up') down
  server : v.server.session_metrics = tally (down ++ down') up

variable {v : Conversation} {up up' down down' fs : List WireFrame} {f g : WireFrame} {rest : Bytes} {log : Log}
  {script : List String}

theorem tally_start (client_write_key server_write_key : Key) (script : List String) :
    Tally (start client_write_key server_write_key script) [] [] [] [] := ⟨rfl, rfl, rfl, rfl, rfl, rfl⟩

theorem spent_typed {l : String} (hs : v.script = l :: script) (log : Log) (c : ControlFlow (ClientSession × Waiting))
    (reply : ℕ) :
    (v.typed log script c).spent reply + (2 * l.utf8ByteSize + 81) = v.spent 0 + wire_bytes (frames log) + reply := by
  have hscript : script_bytes v.script = 2 * l.utf8ByteSize + 81 + script_bytes script := by
    rw [hs, script_bytes, List.map_cons, List.sum_cons]
    rfl
  have hlog :
      wire_bytes (frames (v.client_log ++ log)) = wire_bytes (frames v.client_log) + wire_bytes (frames log) := by
    rw [frames_append, wire_bytes_append]
  simp only [spent, Conversation.typed, hscript, hlog]
  omega

theorem spent_served (rest : Bytes) (log : Log) (c : ControlFlow ServerSession) :
    (v.served rest log c).spent 0 = v.spent (wire_bytes (frames log)) := by
  have hlog :
      wire_bytes (frames (v.server_log ++ log)) = wire_bytes (frames v.server_log) + wire_bytes (frames log) := by
    rw [frames_append, wire_bytes_append]
  simp only [spent, Conversation.served, hlog]
  omega

theorem spent_received (rest : Bytes) (hf : frames log = []) (c : ControlFlow (ClientSession × Waiting)) :
    (v.received rest log c).spent 0 = v.spent 0 := by
  simp only [spent, Conversation.received, frames_append, hf, List.append_nil]

/-- With nothing on its way, both ends agree. -/
theorem Tally.matches (h : Tally v up [] down []) (hspent : v.spent 0 < 2 ^ 64) : Matches v := by
  obtain ⟨hcf, hsf, -, -, hc, hs⟩ := h
  rw [List.append_nil] at hcf hsf hc hs
  rw [spent, hcf, hsf] at hspent
  have hup : wire_bytes up + wire_bytes down < 2 ^ 64 := by omega
  have hdown : wire_bytes down + wire_bytes up < 2 ^ 64 := by omega
  constructor
  · rw [hc, hs]
    rfl
  · rw [hc, hs]
    rfl
  · rw [hc, hs]
    rfl
  · rw [hc, hs]
    rfl
  · rw [hc, hcf]
    exact (SessionMetrics.exact_tally hup).bytes_sent
  · rw [hs, hsf]
    exact (SessionMetrics.exact_tally hdown).bytes_sent

theorem Tally.typed {c : ControlFlow (ClientSession × Waiting)} (h : Tally v up up' down down')
    (hf : frames log = fs) (hm : c.state.1.session_metrics = tally (up ++ (up' ++ fs)) down) :
    Tally (v.typed log script c) up (up' ++ fs) down down' where
  client_frames := by
    rw [← hf, ← List.append_assoc, ← h.client_frames]
    exact frames_append _ _
  server_frames := h.server_frames
  to_server := by
    rw [← hf, List.flatMap_append, ← h.to_server]
    rfl
  to_client := h.to_client
  client := hm
  server := h.server

theorem Tally.served {c : ControlFlow ServerSession} (h : Tally v up (f :: up') down down')
    (hf : frames log = fs) (hm : c.state.session_metrics = tally (down ++ (down' ++ fs)) (up ++ [f])) :
    Tally (v.served (up'.flatMap WireFrame.serialize) log c) (up ++ [f]) up' down (down' ++ fs) where
  client_frames := by
    rw [List.append_assoc]
    exact h.client_frames
  server_frames := by
    rw [← hf, ← List.append_assoc, ← h.server_frames]
    exact frames_append _ _
  to_server := rfl
  to_client := by
    rw [← hf, List.flatMap_append, ← h.to_client]
    rfl
  client := by
    rw [List.append_assoc]
    exact h.client
  server := hm

theorem Tally.received {c : ControlFlow (ClientSession × Waiting)} (h : Tally v up up' down (f :: down'))
    (hf : frames log = []) (hm : c.state.1.session_metrics = tally (up ++ up') (down ++ [f])) :
    Tally (v.received (down'.flatMap WireFrame.serialize) log c) up up' (down ++ [f]) down' where
  client_frames := by
    rw [← List.append_nil (up ++ up'), ← hf, ← h.client_frames]
    exact frames_append _ _
  server_frames := by
    rw [List.append_assoc]
    exact h.server_frames
  to_server := by
    rw [← h.to_server, ← List.append_nil v.to_server]
    exact congrArg (v.to_server ++ ·) (by rw [written, hf]; rfl)
  to_client := rfl
  client := hm
  server := by
    rw [List.append_assoc]
    exact h.server

/-! ## The phases of a request -/

/-- At the prompt; a request on its way; its answer on its way; `Close` on its
way; and `Close` read. No more than `k` turns can follow, and no more than `M`
bytes cross the wire. -/
inductive Phase (P : Primitives) (N M : ℕ) (v : Conversation) : ℕ → Prop
  | prompt {n : ℕ} {up down : List WireFrame} : Tally v up [] down [] → v.spent 0 ≤ M → v.waiting = .line →
      v.quit = false → v.closed = false → v.server.Ready n → n + v.script.length ≤ N → v.client.tx_cipher = v.server.rx_cipher →
      v.client.rx_cipher = v.server.tx_cipher → Phase P N M v (3 * v.script.length)
  | asked {n : ℕ} {up down : List WireFrame} {t : MessageType} {pt aad ct : Bytes} {a : Awaited} :
      Tally v up [⟨t, v.server.rx_cipher.nonce, ct⟩] down [] →
      v.spent ((ServerSession.answerTo t pt).length + 29) ≤ M → v.waiting = .frame a →
      ClientSession.Requests t pt aad a → v.quit = false → v.closed = false → v.server.Ready n →
      n + 1 + v.script.length ≤ N → pt.length ≤ 65496 →
      v.server.rx_cipher.encrypt P pt aad = (v.client.tx_cipher, .ok ct) →
      v.client.rx_cipher = v.server.tx_cipher → Phase P N M v (3 * v.script.length + 2)
  | answered {n : ℕ} {up down : List WireFrame} {t : MessageType} {pt aad ct : Bytes} {a : Awaited} :
      Tally v up [] down [⟨t, v.client.rx_cipher.nonce, ct⟩] → v.spent 0 ≤ M → v.waiting = .frame a →
      a.expects t = true → Carries t aad → v.quit = false → v.closed = false → v.server.Ready n →
      n + v.script.length ≤ N → pt.length ≤ 65511 →
      v.client.rx_cipher.encrypt P pt aad = (v.server.tx_cipher, .ok ct) →
      v.client.tx_cipher = v.server.rx_cipher → Phase P N M v (3 * v.script.length + 1)
  | leaving {up down : List WireFrame} {nonce : UInt64} : Tally v up [⟨.Close, nonce, []⟩] down [] → v.spent 0 ≤ M →
      v.quit = true → v.closed = false → Phase P N M v 1
  | left {up down : List WireFrame} : Tally v up [] down [] → v.spent 0 ≤ M → v.quit = true → v.closed = true →
      Phase P N M v 0

variable {P : Primitives} {tunnel_client : TunnelClient} {N M k : ℕ} {v' : Conversation}

theorem Phase.matches (h : Phase P N M v k) (hM : M < 2 ^ 64)
    (hv : (v.waiting = .line ∧ v.quit = false) ∨ v.closed = true) : Matches v := by
  cases h with
  | prompt h hspent => exact h.matches (Nat.lt_of_le_of_lt hspent hM)
  | asked h _ hw hreq hquit hclosed =>
    rcases hv with ⟨hline, -⟩ | hc
    · rw [hline] at hw
      cases hw
    · rw [hclosed] at hc
      cases hc
  | answered h _ hw hexp hcarries hquit hclosed =>
    rcases hv with ⟨hline, -⟩ | hc
    · rw [hline] at hw
      cases hw
    · rw [hclosed] at hc
      cases hc
  | leaving h _ hquit hclosed =>
    rcases hv with ⟨-, hq⟩ | hc
    · rw [hquit] at hq
      cases hq
    · rw [hclosed] at hc
      cases hc
  | left h hspent => exact h.matches (Nat.lt_of_le_of_lt hspent hM)

theorem Tally.client_sends (h : Tally v up up' down down') (tx' : CipherState) (f : WireFrame) :
    (v.client.sentFrame tx' f).session_metrics = tally (up ++ (up' ++ [f])) down := by
  show v.client.session_metrics.record_tx (f.payload_len + 13) = _
  rw [h.client, tally_sent, List.append_assoc]

theorem Tally.server_reads (h : Tally v up (f :: up') down down') :
    (v.server.counted f).session_metrics = tally (down ++ down') (up ++ [f]) := by
  show v.server.session_metrics.record_rx (f.payload_len + 13) = _
  rw [h.server, tally_received]

theorem Tally.reads_up (h : Tally v up (f :: up') down down')
    (hvalid : WireFrame.is_valid_payload_size f.payload.length) :
    WireFrame.read_from v.to_server = .ok (f, up'.flatMap WireFrame.serialize) := by
  rw [h.to_server, List.flatMap_cons]
  exact WireFrame.read_from_eq_ok.2 ⟨hvalid, rfl⟩

theorem Tally.reads_down (h : Tally v up up' down (f :: down'))
    (hvalid : WireFrame.is_valid_payload_size f.payload.length) :
    WireFrame.read_from v.to_client = .ok (f, down'.flatMap WireFrame.serialize) := by
  rw [h.to_client, List.flatMap_cons]
  exact WireFrame.read_from_eq_ok.2 ⟨hvalid, rfl⟩

/-- A line is typed at the prompt. -/
theorem Phase.line {l : String} {c : ControlFlow (ClientSession × Waiting)} (hP : P.Correct) (h : Phase P N M v k)
    (hshort : ∀ l ∈ v.script, l.utf8ByteSize ≤ 65496) (hquit : v.quit = false) (hw : v.waiting = .line)
    (hs : v.script = l :: script) (hr : v.client.repl_line P tunnel_client (some l) = ⟨log, .ok c⟩) :
    ∃ k' < k, Phase P N M (v.typed log script c) k' := by
  cases h with
  | asked _ _ hframe =>
    rw [hw] at hframe
    cases hframe
  | answered _ _ hframe =>
    rw [hw] at hframe
    cases hframe
  | leaving _ _ hq =>
    rw [hq] at hquit
    cases hquit
  | left _ _ hq =>
    rw [hq] at hquit
    cases hquit
  | @prompt n up down h hspent _ _ hclosed hready hN htx hrx =>
    have hl := hshort l (by rw [hs]; exact List.mem_cons_self)
    have hlen : v.script.length = script.length + 1 := by rw [hs]; rfl
    rcases v.client.repl_line_some P tunnel_client l with
      ⟨-, log', -, hf, he⟩ | ⟨log', -, hf, he⟩ | ⟨t, pt, aad, a, hreq, -, hpt, he⟩
    · rw [he] at hr
      cases hr
      have hcost := spent_typed hs log (.cont (v.client, .line)) 0
      rw [hf, wire_bytes_nil] at hcost
      exact ⟨3 * script.length, by omega, .prompt (h.typed hf h.client) (by omega) rfl rfl hclosed hready
        (Nat.le_trans (by show n + script.length ≤ _; omega) hN) htx hrx⟩
    · rw [he] at hr
      cases hr
      have hcost := spent_typed hs log (.done (v.client.sentFrame v.client.tx_cipher
        ⟨.Close, v.client.tx_cipher.nonce, []⟩, .line)) 0
      rw [hf, wire_bytes_cons, wire_bytes_nil, WireFrame.payload_len, List.length_nil] at hcost
      exact ⟨1, by omega, .leaving (h.typed hf (h.client_sends _ _)) (by omega) rfl hclosed⟩
    · rcases v.client.request_cases P t pt aad with ⟨ct, tx', hen, hsent⟩ | ⟨e, hfail⟩
      · have hline : v.client.repl_line P tunnel_client (some l) = ⟨sealedLog v.client.tx_cipher t pt aad ct,
            .ok (.cont (v.client.sentFrame tx' ⟨t, v.client.tx_cipher.nonce, ct⟩, .frame a))⟩ := by
          rw [he, hsent]
          rfl
        rw [hline] at hr
        cases hr
        have htally : Tally (v.typed (sealedLog v.client.tx_cipher t pt aad ct) script
            (.cont (v.client.sentFrame tx' ⟨t, v.client.tx_cipher.nonce, ct⟩, .frame a))) up
            [⟨t, v.server.rx_cipher.nonce, ct⟩] down [] := by
          rw [← htx]
          exact h.typed rfl (h.client_sends _ _)
        have hbound : n + 1 + script.length ≤ N := by omega
        have hsize := hP.encrypt_length _ _ _ _ _ (CipherState.encrypt_eq_ok.1 hen).1
        have hreply := hreq.answer_length
        have htag : TAG_LEN = 16 := rfl
        have hcost := spent_typed hs (sealedLog v.client.tx_cipher t pt aad ct)
          (.cont (v.client.sentFrame tx' ⟨t, v.client.tx_cipher.nonce, ct⟩, .frame a))
          ((ServerSession.answerTo t pt).length + 29)
        have hframe : wire_bytes (frames (sealedLog v.client.tx_cipher t pt aad ct)) = ct.length + 13 := rfl
        rw [hframe, hsize] at hcost
        exact ⟨3 * script.length + 2, by omega, .asked htally (by omega) rfl hreq rfl hclosed hready hbound (by omega)
          (htx ▸ hen) hrx⟩
      · rw [he, hfail] at hr
        cases hr

/-- The server takes a turn. -/
theorem Phase.serve {c : ControlFlow ServerSession} (hP : P.Correct) (h : Phase P N M v k) (hclosed : v.closed = false)
    (hr : WireFrame.read_from v.to_server = .ok (f, rest)) (ht : v.server.transport_frame P f = ⟨log, .ok c⟩) :
    ∃ k' < k, Phase P N M (v.served rest log c) k' := by
  cases h with
  | prompt h =>
    rw [h.to_server] at hr
    cases hr
  | answered h =>
    rw [h.to_server] at hr
    cases hr
  | left _ _ _ hc =>
    rw [hc] at hclosed
    cases hclosed
  | leaving h hspent hq =>
    rw [h.reads_up rfl] at hr
    cases hr
    rw [ServerSession.transport_frame_close P v.server rfl] at ht
    cases ht
    exact ⟨0, Nat.zero_lt_one, .left (h.served rfl h.server_reads) ((spent_served _ _ _).trans_le hspent) hq rfl⟩
  | @asked n up down t pt aad ct a h hspent hw hreq hquit _ hready hN hlen he hrx =>
    have hvalid := encrypted_valid hP (Nat.le_trans hlen (by omega)) (CipherState.encrypt_eq_ok.1 he).1
    rw [h.reads_up hvalid] at hr
    cases hr
    obtain ⟨ct', s', hturn, hready', hrx', hen, hm⟩ := hready.answers hP he hreq.carries hvalid
    rw [hturn] at ht
    cases ht
    have htally : Tally (v.served ([].flatMap WireFrame.serialize) (openedLog v.server.rx_cipher
        ⟨t, v.server.rx_cipher.nonce, ct⟩ aad pt ++
          sealedLog v.server.tx_cipher t (ServerSession.answerTo t pt) aad ct') (.cont s'))
        (up ++ [⟨t, v.server.rx_cipher.nonce, ct⟩]) [] down [⟨t, v.client.rx_cipher.nonce, ct'⟩] := by
      rw [hrx]
      refine h.served (frames_answered _ _ _ _ _ _ _ _) ?_
      calc s'.session_metrics
          = (v.server.counted ⟨t, v.server.rx_cipher.nonce, ct⟩).session_metrics.record_tx (ct'.length + 13) := hm
        _ = (tally down (up ++ [⟨t, v.server.rx_cipher.nonce, ct⟩])).record_tx (ct'.length + 13) := by
          rw [h.server_reads, List.append_nil]
        _ = _ := tally_sent _ _ ⟨t, v.server.tx_cipher.nonce, ct'⟩
    have hsize := hP.encrypt_length _ _ _ _ _ (CipherState.encrypt_eq_ok.1 hen).1
    have hcost := spent_served (v := v) ([].flatMap WireFrame.serialize) (openedLog v.server.rx_cipher
      ⟨t, v.server.rx_cipher.nonce, ct⟩ aad pt ++ sealedLog v.server.tx_cipher t (ServerSession.answerTo t pt) aad ct')
      (.cont s')
    have hframe : wire_bytes (frames (openedLog v.server.rx_cipher ⟨t, v.server.rx_cipher.nonce, ct⟩ aad pt ++
        sealedLog v.server.tx_cipher t (ServerSession.answerTo t pt) aad ct')) =
        (ServerSession.answerTo t pt).length + 29 := by
      rw [frames_answered, wire_bytes_cons, wire_bytes_nil, WireFrame.payload_len, hsize]
      rfl
    rw [hframe] at hcost
    exact ⟨3 * v.script.length + 1, by omega, .answered htally (hcost.trans_le hspent) hw hreq.expects hreq.carries
      hquit rfl hready' hN (Nat.le_trans hreq.answer_length (by omega)) (hrx ▸ hen) hrx'.symm⟩

/-- The client takes in the frame it waits for. -/
theorem Phase.receive {a : Awaited} {c : ControlFlow (ClientSession × Waiting)} (hP : P.Correct) (h : Phase P N M v k)
    (hquit : v.quit = false) (hw : v.waiting = .frame a) (hr : WireFrame.read_from v.to_client = .ok (f, rest))
    (ht : v.client.repl_frame P a f = ⟨log, .ok c⟩) : ∃ k' < k, Phase P N M (v.received rest log c) k' := by
  cases h with
  | prompt _ _ hline =>
    rw [hw] at hline
    cases hline
  | asked h =>
    rw [h.to_client] at hr
    cases hr
  | leaving _ _ hq =>
    rw [hq] at hquit
    cases hquit
  | left _ _ hq =>
    rw [hq] at hquit
    cases hquit
  | @answered n up down t pt aad ct a' h hspent hframe hexp hcarries _ hclosed hready hN hlen he htx =>
    obtain rfl : a = a' := Waiting.frame.inj (hw.symm.trans hframe)
    rw [h.reads_down (encrypted_valid hP hlen (CipherState.encrypt_eq_ok.1 he).1)] at hr
    cases hr
    have hd := CipherState.decrypt_encrypted hP he
    obtain ⟨text, hturn⟩ := v.client.repl_frame_expected P (f := ⟨t, v.client.rx_cipher.nonce, ct⟩) hexp hcarries hd
    rw [hturn] at ht
    cases ht
    refine ⟨3 * v.script.length, by omega, .prompt (h.received rfl ?_) ((spent_received _ rfl _).trans_le hspent) rfl rfl
      hclosed hready hN htx rfl⟩
    show v.client.session_metrics.record_rx _ = _
    rw [h.client]
    exact tally_received _ _ ⟨t, v.client.rx_cipher.nonce, ct⟩

/-- Every turn brings the end nearer. -/
theorem Phase.step (hP : P.Correct) (h : Phase P N M v k) (hshort : ∀ l ∈ v.script, l.utf8ByteSize ≤ 65496)
    (hs : Step P tunnel_client v v') : ∃ k' < k, Phase P N M v' k' := by
  cases hs with
  | line hquit hw hscript hr => exact h.line hP hshort hquit hw hscript hr
  | serve hclosed hr ht => exact h.serve hP hclosed hr ht
  | receive hquit hw hr ht => exact h.receive hP hquit hw hr ht

/-! ## Until the end -/

/-- Until the server has read the `Close` someone can take a turn. -/
theorem Phase.advances (hP : P.Correct) (tunnel_client : TunnelClient) (h : Phase P N M v k) (hN : N < 2 ^ 64)
    (hshort : ∀ l ∈ v.script, l.utf8ByteSize ≤ 65496) (hscript : v.quit = false → v.script ≠ [])
    (hclosed : v.closed = false) : ∃ v', Step P tunnel_client v v' := by
  cases h with
  | @prompt n up down _ _ hw hquit _ hready hbound htx _ =>
    obtain ⟨l, script, hs⟩ := List.exists_cons_of_ne_nil (hscript hquit)
    rcases v.client.repl_line_some P tunnel_client l with
      ⟨-, log, -, -, he⟩ | ⟨log, -, -, he⟩ | ⟨t, pt, aad, a, -, -, hpt, he⟩
    · exact ⟨_, .line hquit hw hs he⟩
    · exact ⟨_, .line hquit hw hs he⟩
    · have hl := hshort l (by rw [hs]; exact List.mem_cons_self)
      have hlen : v.script.length = script.length + 1 := by rw [hs]; rfl
      have hnonce : v.client.tx_cipher.nonce.toNat + 1 < 2 ^ 64 := by
        rw [htx, hready.nonce]
        omega
      obtain ⟨ct, hct⟩ := hP.encrypt_some v.client.tx_cipher.key (CipherState.build_nonce v.client.tx_cipher.nonce)
        pt aad (by omega)
      rw [v.client.request_of P (CipherState.encrypt_of hct hnonce)] at he
      exact ⟨_, .line hquit hw hs he⟩
  | @asked n up down t pt aad ct a h _ _ hreq hquit _ hready _ hlen he _ =>
    have hvalid := encrypted_valid hP (Nat.le_trans hlen (by omega)) (CipherState.encrypt_eq_ok.1 he).1
    obtain ⟨ct', s', hturn, -⟩ := hready.answers hP he hreq.carries hvalid
    have hread := h.reads_up hvalid
    exact ⟨_, .serve hclosed hread hturn⟩
  | @answered n up down t pt aad ct a h _ hw hexp hcarries hquit _ _ _ hlen he _ =>
    have hvalid := encrypted_valid hP hlen (CipherState.encrypt_eq_ok.1 he).1
    have hd := CipherState.decrypt_encrypted hP he
    obtain ⟨text, hframe⟩ := v.client.repl_frame_expected P (f := ⟨t, v.client.rx_cipher.nonce, ct⟩) hexp hcarries hd
    exact ⟨_, .receive hquit hw (h.reads_down hvalid) hframe⟩
  | leaving h => exact ⟨_, .serve hclosed (h.reads_up rfl) (v.server.transport_frame_close P rfl)⟩
  | left _ _ _ hc =>
    rw [hc] at hclosed
    cases hclosed

/-- The script is typed from the front, and a client that has not left has not typed `/quit`. -/
theorem Step.types (hs : Step P tunnel_client v v') :
    v'.script <:+ v.script ∧
      (v'.quit = false → v.quit = false ∧ ("/quit" ∈ v.script → "/quit" ∈ v'.script)) := by
  cases hs with
  | @line l script log c hquit hw hscript hr =>
    refine ⟨hscript ▸ List.suffix_cons l script, fun hq => ⟨hquit, fun hmem => ?_⟩⟩
    rw [hscript] at hmem
    refine (List.mem_cons.1 hmem).resolve_left fun hl => ?_
    have htrim : trim l = "/quit" := by rw [← hl]; decide
    rcases v.client.repl_line_some P tunnel_client l with ⟨hne, -⟩ | ⟨log', -, -, he⟩ | ⟨t, pt, aad, a, -, hne, -⟩
    · exact hne htrim
    · rw [he] at hr
      cases hr
      cases hq
    · exact hne htrim
  | serve => exact ⟨List.suffix_refl _, fun hq => ⟨hq, fun hmem => hmem⟩⟩
  | receive hquit => exact ⟨List.suffix_refl _, fun _ => ⟨hquit, fun hmem => hmem⟩⟩

/-- What holds along a conversation. -/
theorem Reaches.phase (hP : P.Correct) (h : Phase P N M v k) (hshort : ∀ l ∈ v.script, l.utf8ByteSize ≤ 65496)
    (hr : Reaches P tunnel_client v v') : ∃ k', Phase P N M v' k' ∧ v'.script <:+ v.script ∧
      ("/quit" ∈ v.script → v'.quit = false → "/quit" ∈ v'.script) := by
  induction hr with
  | refl => exact ⟨k, h, List.suffix_refl _, fun hmem _ => hmem⟩
  | tail _ hs ih =>
    obtain ⟨k', hphase, hsuffix, hmem⟩ := ih
    obtain ⟨k'', -, hphase'⟩ := hphase.step hP (fun l hl => hshort l (hsuffix.subset hl)) hs
    obtain ⟨hsuffix', htyped⟩ := hs.types
    exact ⟨k'', hphase', hsuffix'.trans hsuffix, fun hquit hq => (htyped hq).2 (hmem hquit (htyped hq).1)⟩

/-- By induction on the turns left: the conversation comes to its end. -/
theorem Phase.ends (hP : P.Correct) (tunnel_client : TunnelClient) (h : Phase P N M v k) (hN : N < 2 ^ 64)
    (hshort : ∀ l ∈ v.script, l.utf8ByteSize ≤ 65496) (hscript : v.quit = false → "/quit" ∈ v.script) :
    ∃ v', Reaches P tunnel_client v v' ∧ v'.closed = true := by
  induction k using Nat.strongRecOn generalizing v with
  | _ k ih =>
    cases hclosed : v.closed with
    | true => exact ⟨v, .refl, hclosed⟩
    | false =>
      have hne (hq : v.quit = false) : v.script ≠ [] := List.ne_nil_of_mem (hscript hq)
      obtain ⟨v₁, hs⟩ := h.advances hP tunnel_client hN hshort hne hclosed
      obtain ⟨k', hk, h₁⟩ := h.step hP hshort hs
      obtain ⟨hsuffix, htyped⟩ := hs.types
      obtain ⟨v', hr, hc⟩ := ih k' hk h₁ (fun l hl => hshort l (hsuffix.subset hl))
        fun hq => (htyped hq).2 (hscript (htyped hq).1)
      exact ⟨v', .head hs hr, hc⟩

theorem phase_start (P : Primitives) (client_write_key server_write_key : Key) (script : List String) :
    Phase P script.length (script_bytes script) (start client_write_key server_write_key script) (3 * script.length) :=
  .prompt (tally_start _ _ script) (Nat.zero_add _).le rfl rfl rfl (ServerSession.ready_start _ _)
    (Nat.zero_add _).le rfl rfl

theorem length_le_script_bytes (script : List String) : script.length ≤ script_bytes script := by
  induction script with
  | nil => exact Nat.le_refl 0
  | cons l script ih =>
    rw [script_bytes, List.map_cons, List.sum_cons, List.length_cons]
    exact (Nat.succ_le_succ ih).trans (by unfold script_bytes; omega)

/-- A script whose requests and replies come to fewer than 2^64 bytes. At the
prompt, and once the server has read the `Close`, both ends have counted the
same frames and bytes, and these are what crossed the wire. With a `/quit` in
the script they get there from wherever they are. -/
theorem traffic_matches (hP : P.Correct) (tunnel_client : TunnelClient) (client_write_key server_write_key : Key)
    {script : List String} (hshort : ∀ l ∈ script, l.utf8ByteSize ≤ 65496) (hbytes : script_bytes script < 2 ^ 64) :
    ∀ v, Reaches P tunnel_client (start client_write_key server_write_key script) v →
      ((v.waiting = .line ∧ v.quit = false) ∨ v.closed = true → Matches v) ∧
      ("/quit" ∈ script → ∃ v', Reaches P tunnel_client v v' ∧ v'.closed = true) := by
  intro v hr
  obtain ⟨k, h, hsuffix, hmem⟩ := hr.phase hP (phase_start P client_write_key server_write_key script) hshort
  have hN := Nat.lt_of_le_of_lt (length_le_script_bytes script) hbytes
  exact ⟨h.matches hbytes, fun hquit =>
    h.ends hP tunnel_client hN (fun l hl => hshort l (hsuffix.subset hl)) (hmem hquit)⟩

/-- A message, a ping and the end. -/
theorem traffic_matches_ping :
    ∃ v, Reaches (Concrete.primitives true) (.new (Concrete.key 1) "localhost:9000")
        (start (Concrete.key 5) (Concrete.key 6) ["hei", "/ping", "/quit"]) v ∧ v.closed = true ∧ Matches v := by
  have hshort : ∀ l ∈ ["hei", "/ping", "/quit"], l.utf8ByteSize ≤ 65496 := by decide
  have hall := traffic_matches (Concrete.correct true) (.new (Concrete.key 1) "localhost:9000") (Concrete.key 5)
    (Concrete.key 6) hshort (by decide)
  obtain ⟨v, hr, hc⟩ := (hall _ .refl).2 (by decide)
  exact ⟨v, hr, hc, (hall v hr).1 (.inr hc)⟩

end Conversation

end NoiseTunnel
