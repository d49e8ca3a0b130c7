import NoiseTunnel.Pairing
import NoiseTunnel.Sequence
import NoiseTunnel.Streams
import NoiseTunnel.Turns
/-!
# Pipelined sessions

A client that sends without waiting for the answers, and a server, joined by
two byte streams. In any interleaving nothing fails, and the answers come in
the order of the requests.
-/
open Rust

namespace NoiseTunnel

/-! ## The two parties -/

/-- What a client may send. -/
inductive Request where
  | data (text : String) (short : text.utf8ByteSize ≤ 65496)
  | ping

namespace Request

/-- The type of the frame, and what is encrypted in it. -/
def message : Request → MessageType × Bytes
  | data text _ => (.DataPayload, as_bytes text)
  | ping => (.Heartbeat, PING)

def associated_data : Request → Bytes
  | data _ _ => TUNNEL_DATA
  | ping => HEARTBEAT

/-- The type of the answer, and what it should decrypt to. -/
def reply : Request → MessageType × Bytes
  | data text _ => (.DataPayload, as_bytes ("Server mottok: " ++ text))
  | ping => (.Heartbeat, as_bytes "PONG")

theorem carries (r : Request) : Carries r.message.1 r.associated_data := by
  cases r
  · exact .data
  · exact .heartbeat

theorem answered_message (r : Request) : answered r.message = r.reply := by
  cases r with
  | data text short => simp only [answered, message, ServerSession.answerTo, from_utf8_lossy_as_bytes, reply, REPLY_PREFIX]
  | ping => rfl

theorem message_length (r : Request) : r.message.2.length ≤ 65496 := by
  cases r with
  | data text short => exact (as_bytes_length text).trans_le short
  | ping => decide

theorem reply_length (r : Request) : r.reply.2.length ≤ 65511 := by
  cases r with
  | data text short =>
    have hprefix : "Server mottok: ".utf8ByteSize = 15 := by decide
    rw [reply, as_bytes_length, String.utf8ByteSize_append]
    omega
  | ping => decide

end Request

/-- Take in a frame as the answer that its type says it is. -/
def ClientSession.receive (P : Primitives) (self : ClientSession) (reply : WireFrame) : Exec ClientSession := do
  let self := { self with session_metrics := self.session_metrics.record_rx (reply.payload_len + 13) }
  match reply.msg_type with
  | .DataPayload => self.answer P reply TUNNEL_DATA "< [Server Svar]: "
  | .Heartbeat => self.answer P reply HEARTBEAT "< [Heartbeat Response]: "
  | _ => throw (.err (.expected_reply reply.msg_type))

/-- Both sessions, and the bytes on the way to each. -/
structure Pipeline where
  client : ClientSession
  server : ServerSession
  to_server : Bytes
  to_client : Bytes
  client_log : Log

/-- The client sends, the server's loop turns, the client receives. -/
inductive Move where
  | send (r : Request)
  | serve
  | receive

/-- How many requests were sent, how many of them answered, and how many answers received. -/
structure Progress where
  sent : Nat
  answered : Nat
  received : Nat

/-- Two queues: the server takes from the first and the client from the second, where there is something to take. -/
def Progress.step (c : Progress) : Move → Progress
  | .send _ => { c with sent := c.sent + 1 }
  | .serve => if c.answered < c.sent then { c with answered := c.answered + 1 } else c
  | .receive => if c.received < c.answered then { c with received := c.received + 1 } else c

def Progress.after (moves : List Move) : Progress := moves.foldl step ⟨0, 0, 0⟩

/-- The requests a client sends. -/
def requests (moves : List Move) : List Request := moves.filterMap fun | .send r => some r | _ => none

/-- The frames that lie on a stream. -/
def in_flight (stream : Bytes) : Nat := (WireFrame.read_all stream).1.length

namespace Pipeline

variable (P : Primitives)

/-- Right after the handshake. -/
def start (client_write_key server_write_key : Key) : Pipeline where
  client := .start (CipherState.new client_write_key, CipherState.new server_write_key)
  server := .start (CipherState.new client_write_key, CipherState.new server_write_key)
  to_server := []
  to_client := []
  client_log := []

/-- One move, unless something in it fails. Where no whole frame has come, the reader waits. -/
def step (p : Pipeline) : Move → Option Pipeline
  | .send r =>
    match p.client.request P r.message.1 r.message.2 r.associated_data with
    | ⟨l, .ok client⟩ =>
      some { p with client, to_server := p.to_server ++ written l, client_log := p.client_log ++ l }
    | _ => none
  | .serve =>
    match arrival p.to_server false with
    | none => some p
    | some (.frame f, to_server) =>
      match p.server.transport_frame P f with
      | ⟨l, .ok (.cont server)⟩ => some { p with server, to_server, to_client := p.to_client ++ written l }
      | _ => none
    | _ => none
  | .receive =>
    match arrival p.to_client false with
    | none => some p
    | some (.frame f, to_client) =>
      match p.client.receive P f with
      | ⟨l, .ok client⟩ => some { p with client, to_client, client_log := p.client_log ++ l }
      | _ => none
    | _ => none

def run (p : Pipeline) : List Move → Option Pipeline
  | [] => some p
  | m :: moves => (p.step P m).bind fun p => p.run moves

end Pipeline

/-! ## Streams of numbered frames -/

variable {P : Primitives} {c c₁ c' : CipherState} {ms : List (MessageType × Bytes)} {stream : Bytes}
  {t : MessageType} {pt aad ct : Bytes} {m : MessageType × Bytes}

/-- The stream holds the frames of the messages `ms`, encrypted one after another from `c` to `c'`. -/
def Conveys (P : Primitives) (c : CipherState) (ms : List (MessageType × Bytes)) (stream : Bytes) (c' : CipherState) :
    Prop :=
  ∃ fs, Encrypts P c ms fs c' ∧ (∀ f ∈ fs, WireFrame.is_valid_payload_size f.payload_len) ∧
    stream = fs.flatMap WireFrame.serialize

namespace Conveys

theorem nil (c : CipherState) : Conveys P c [] [] c := ⟨[], .nil c, List.forall_mem_nil _, rfl⟩

theorem snoc (h : Conveys P c ms stream c₁) (ht : Carries t aad) (he : c₁.encrypt P pt aad = (c', .ok ct))
    (hvalid : WireFrame.is_valid_payload_size ct.length) :
    Conveys P c (ms ++ [(t, pt)]) (stream ++ (WireFrame.mk t c₁.nonce ct).serialize) c' := by
  obtain ⟨fs, hfs, hall, rfl⟩ := h
  refine ⟨_, hfs.snoc ht he, List.forall_mem_append.2 ⟨hall, List.forall_mem_singleton.2 hvalid⟩, ?_⟩
  rw [List.flatMap_append, List.flatMap_singleton]
  rfl

/-- Nothing is there to be read. -/
theorem empty (h : Conveys P c [] stream c') : arrival stream false = none := by
  obtain ⟨fs, hfs, -, rfl⟩ := h
  cases hfs
  rfl

/-- The first frame is read. -/
theorem uncons (h : Conveys P c (m :: ms) stream c') :
    ∃ aad ct c₁ rest, arrival stream false = some (.frame ⟨m.1, c.nonce, ct⟩, rest) ∧ Carries m.1 aad ∧
      c.encrypt P m.2 aad = (c₁, .ok ct) ∧ WireFrame.is_valid_payload_size ct.length ∧ Conveys P c₁ ms rest c' := by
  obtain ⟨fs, hfs, hall, rfl⟩ := h
  cases hfs with
  | @cons _ c₁ _ t pt aad ct _ fs ht he hrest =>
    obtain ⟨hvalid, hall⟩ := List.forall_mem_cons.1 hall
    refine ⟨aad, ct, c₁, fs.flatMap WireFrame.serialize, ?_, ht, he, hvalid, fs, hrest, hall, rfl⟩
    exact arrival_frame false (WireFrame.read_from_eq_ok.2 ⟨hvalid, rfl⟩)

theorem in_flight (h : Conveys P c ms stream c') : NoiseTunnel.in_flight stream = ms.length := by
  obtain ⟨fs, hfs, hall, rfl⟩ := h
  rw [NoiseTunnel.in_flight, WireFrame.read_all_whole hall, hfs.length_eq]

theorem nonce_end (h : Conveys P c ms stream c') : c'.nonce.toNat = c.nonce.toNat + ms.length := by
  obtain ⟨fs, hfs, -, -⟩ := h
  rw [hfs.nonce_end, hfs.length_eq]

end Conveys

/-! ## What every move preserves -/

theorem ClientSession.receive_of {s : ClientSession} {f : WireFrame} {rx' : CipherState} (ht : Carries f.msg_type aad)
    (hd : s.rx_cipher.decrypt P f.payload aad f.nonce = .ok (rx', .ok pt)) :
    ∃ text, s.receive P f =
      ⟨openedLog s.rx_cipher f aad pt ++ [.printed text], .ok { s.counted f with rx_cipher := rx' }⟩ := by
  unfold receive
  cases hf : f.msg_type <;> rw [hf] at ht <;> cases ht
  · exact ⟨_, answer_of P (s.counted f) _ hd⟩
  · exact ⟨_, answer_of P (s.counted f) _ hd⟩

namespace Pipeline

/-- Of the requests sent so far, the client has the answers to `done`, the
answers to `replied` are on their way, and `queued` are on their way themselves. -/
structure Flow (P : Primitives) (p : Pipeline) (done replied queued : List Request) : Prop where
  requests : Conveys P p.server.rx_cipher (queued.map Request.message) p.to_server p.client.tx_cipher
  replies : Conveys P p.client.rx_cipher (replied.map Request.reply) p.to_client p.server.tx_cipher
  server : p.server.Ready (done.length + replied.length)
  client : p.client.rx_cipher.nonce.toNat = done.length
  received : receivedPairs p.client_log = done.map Request.reply

/-- The three parts of the requests, counted. -/
def tally (done replied queued : List Request) : Progress :=
  ⟨done.length + replied.length + queued.length, done.length + replied.length, done.length⟩

variable {p : Pipeline} {done replied queued : List Request} {client : ClientSession} {server : ServerSession}
  {f : WireFrame} {rest : Bytes} {l : Log}

theorem step_send {r : Request}
    (h : p.client.request P r.message.1 r.message.2 r.associated_data = ⟨l, .ok client⟩) :
    p.step P (.send r) =
      some { p with client, to_server := p.to_server ++ written l, client_log := p.client_log ++ l } := by
  rw [step, h]

theorem step_serve (ha : arrival p.to_server false = some (.frame f, rest))
    (h : p.server.transport_frame P f = ⟨l, .ok (.cont server)⟩) :
    p.step P .serve = some { p with server, to_server := rest, to_client := p.to_client ++ written l } := by
  simp only [step, ha, h]

theorem step_receive (ha : arrival p.to_client false = some (.frame f, rest))
    (h : p.client.receive P f = ⟨l, .ok client⟩) :
    p.step P .receive = some { p with client, to_client := rest, client_log := p.client_log ++ l } := by
  simp only [step, ha, h]

theorem flow_start (client_write_key server_write_key : Key) :
    Flow P (start client_write_key server_write_key) [] [] [] where
  requests := .nil _
  replies := .nil _
  server := ServerSession.ready_start _ _
  client := rfl
  received := rfl

/-- The client's sending counter. -/
theorem Flow.tx_nonce (h : Flow P p done replied queued) :
    p.client.tx_cipher.nonce.toNat = done.length + replied.length + queued.length := by
  rw [h.requests.nonce_end, h.server.nonce, List.length_map]

theorem Flow.send (hP : P.Correct) (h : Flow P p done replied queued) (r : Request)
    (hn : done.length + replied.length + queued.length + 1 < 2 ^ 64) :
    ∃ p', p.step P (.send r) = some p' ∧ Flow P p' done replied (queued ++ [r]) := by
  have hlen := r.message_length
  obtain ⟨ct, hct⟩ := hP.encrypt_some p.client.tx_cipher.key (CipherState.build_nonce p.client.tx_cipher.nonce)
    r.message.2 r.associated_data (by omega)
  have he := CipherState.encrypt_of hct (h.tx_nonce ▸ hn)
  have hvalid := encrypted_valid hP (Nat.le_trans hlen (by omega)) hct
  have hreq := ClientSession.request_of P p.client (t := r.message.1) he
  refine ⟨_, step_send hreq, ?_, h.replies, h.server, h.client, ?_⟩
  · rw [List.map_append]
    have hwritten : written (sealedLog p.client.tx_cipher r.message.1 r.message.2 r.associated_data ct) =
        (WireFrame.mk r.message.1 p.client.tx_cipher.nonce ct).serialize := List.flatMap_singleton _ _
    rw [hwritten]
    exact h.requests.snoc r.carries he hvalid
  · rw [receivedPairs_append, h.received]
    exact List.append_nil _

theorem Flow.serve (hP : P.Correct) (h : Flow P p done replied queued) :
    ∃ p' replied' queued', p.step P .serve = some p' ∧ replied' ++ queued' = replied ++ queued ∧
      tally done replied' queued' = (tally done replied queued).step .serve ∧ Flow P p' done replied' queued' := by
  cases queued with
  | nil =>
    refine ⟨p, replied, [], by rw [step, h.requests.empty], rfl, ?_, h⟩
    exact (if_neg (Nat.lt_irrefl _)).symm
  | cons r queued =>
    obtain ⟨aad, ct, c₁, rest, ha, ht, he, hvalid, hrest⟩ := h.requests.uncons
    obtain ⟨ct', s', hturn, hs', hrx, hen, -⟩ := h.server.answers hP he ht hvalid
    have hreply := r.answered_message
    have hlen := r.reply_length
    rw [← hreply] at hlen
    have hvalid' := encrypted_valid hP hlen (CipherState.encrypt_eq_ok.1 hen).1
    refine ⟨_, replied ++ [r], queued, step_serve ha hturn, ?_, ?_, ?_, ?_, ?_, h.client, h.received⟩
    · rw [List.append_assoc, List.singleton_append]
    · have hlt : (tally done replied (r :: queued)).answered < (tally done replied (r :: queued)).sent := by simp [tally]
      rw [Progress.step, if_pos hlt]
      simp [tally, Nat.add_assoc, Nat.add_comm 1]
    · exact hrx ▸ hrest
    · rw [written, frames_answered, List.flatMap_singleton, List.map_append, List.map_singleton, ← hreply]
      exact h.replies.snoc ht hen hvalid'
    · rw [List.length_append, List.length_singleton, ← Nat.add_assoc]
      exact hs'

theorem Flow.receive (hP : P.Correct) (h : Flow P p done replied queued) :
    ∃ p' done' replied', p.step P .receive = some p' ∧ done' ++ replied' = done ++ replied ∧
      tally done' replied' queued = (tally done replied queued).step .receive ∧ Flow P p' done' replied' queued := by
  cases replied with
  | nil =>
    refine ⟨p, done, [], by rw [step, h.replies.empty], rfl, ?_, h⟩
    exact (if_neg (Nat.lt_irrefl _)).symm
  | cons r replied =>
    obtain ⟨aad, ct, c₁, rest, ha, ht, he, -, hrest⟩ := h.replies.uncons
    have hd := CipherState.decrypt_encrypted hP he
    obtain ⟨rfl, hlt⟩ := CipherState.encrypt_next he
    obtain ⟨text, hreceive⟩ := ClientSession.receive_of (f := ⟨r.reply.1, p.client.rx_cipher.nonce, ct⟩) ht hd
    refine ⟨_, done ++ [r], replied, step_receive ha hreceive, ?_, ?_, h.requests, hrest, ?_, ?_, ?_⟩
    · rw [List.append_assoc, List.singleton_append]
    · have hlt : (tally done (r :: replied) queued).received < (tally done (r :: replied) queued).answered := by
        simp [tally]
      rw [Progress.step, if_pos hlt]
      simp [tally, Nat.add_assoc, Nat.add_comm 1]
    · have hserver := h.server
      rw [List.length_cons] at hserver
      rw [List.length_append, List.length_singleton, Nat.add_assoc, Nat.add_comm 1]
      exact hserver
    · rw [List.length_append, List.length_singleton, ← h.client]
      exact toNat_add_one hlt
    · rw [receivedPairs_append, h.received, List.map_append]
      rfl

/-- What a move preserves. -/
theorem Flow.step (hP : P.Correct) (h : Flow P p done replied queued) (m : Move)
    (hn : done.length + replied.length + queued.length + (NoiseTunnel.requests [m]).length < 2 ^ 64 - 1) :
    ∃ p' done' replied' queued', p.step P m = some p' ∧
      done' ++ replied' ++ queued' = done ++ replied ++ queued ++ NoiseTunnel.requests [m] ∧
      tally done' replied' queued' = (tally done replied queued).step m ∧ Flow P p' done' replied' queued' := by
  cases m with
  | send r =>
    have hone : (NoiseTunnel.requests [.send r]).length = 1 := rfl
    obtain ⟨p', hp, hflow⟩ := h.send hP r (by omega)
    refine ⟨p', done, replied, queued ++ [r], hp, (List.append_assoc _ _ _).symm, ?_, hflow⟩
    simp [tally, Progress.step, Nat.add_assoc]
  | serve =>
    obtain ⟨p', replied', queued', hp, hsplit, hcounts, hflow⟩ := h.serve hP
    refine ⟨p', done, replied', queued', hp, ?_, hcounts, hflow⟩
    rw [List.append_assoc, hsplit, ← List.append_assoc]
    exact (List.append_nil _).symm
  | receive =>
    obtain ⟨p', done', replied', hp, hsplit, hcounts, hflow⟩ := h.receive hP
    refine ⟨p', done', replied', queued, hp, ?_, hcounts, hflow⟩
    rw [hsplit]
    exact (List.append_nil _).symm

/-- What a run preserves. -/
theorem Flow.run (hP : P.Correct) (h : Flow P p done replied queued) (moves : List Move)
    (hn : done.length + replied.length + queued.length + (NoiseTunnel.requests moves).length < 2 ^ 64 - 1) :
    ∃ p' done' replied' queued', p.run P moves = some p' ∧
      done' ++ replied' ++ queued' = done ++ replied ++ queued ++ NoiseTunnel.requests moves ∧
      tally done' replied' queued' = moves.foldl Progress.step (tally done replied queued) ∧
      Flow P p' done' replied' queued' := by
  induction moves generalizing p done replied queued with
  | nil => exact ⟨p, done, replied, queued, rfl, (List.append_nil _).symm, rfl, h⟩
  | cons m moves ih =>
    have hreq : NoiseTunnel.requests (m :: moves) = NoiseTunnel.requests [m] ++ NoiseTunnel.requests moves :=
      List.filterMap_append (l := [m])
    rw [hreq, List.length_append] at hn
    obtain ⟨p₁, done₁, replied₁, queued₁, hstep, hsplit₁, hcounts₁, h₁⟩ := h.step hP m (by omega)
    have hlen := congrArg List.length hsplit₁
    simp only [List.length_append] at hlen
    obtain ⟨p', done', replied', queued', hrun, hsplit, hcounts, h'⟩ := ih h₁ (by omega)
    refine ⟨p', done', replied', queued', by rw [Pipeline.run, hstep]; exact hrun, ?_, ?_, h'⟩
    · rw [hsplit, hsplit₁, hreq, List.append_assoc]
    · rw [hcounts, hcounts₁, List.foldl_cons]

theorem Progress.serves (c : Progress) (h : c.answered ≤ c.sent) (n : ℕ) :
    (List.replicate n Move.serve).foldl Progress.step c = ⟨c.sent, min c.sent (c.answered + n), c.received⟩ := by
  induction n generalizing c with
  | zero =>
    rw [Nat.add_zero, Nat.min_eq_right h]
    rfl
  | succ n ih =>
    rw [List.replicate_succ, List.foldl_cons, Progress.step]
    split
    · rename_i hlt
      rw [ih ⟨c.sent, c.answered + 1, c.received⟩ hlt, Nat.add_right_comm, Nat.add_assoc]
    · rename_i hle
      rw [ih c h, Nat.min_eq_left (by omega), Nat.min_eq_left (by omega)]

theorem Progress.receives (c : Progress) (h : c.received ≤ c.answered) (n : ℕ) :
    (List.replicate n Move.receive).foldl Progress.step c = ⟨c.sent, c.answered, min c.answered (c.received + n)⟩ := by
  induction n generalizing c with
  | zero =>
    rw [Nat.add_zero, Nat.min_eq_right h]
    rfl
  | succ n ih =>
    rw [List.replicate_succ, List.foldl_cons, Progress.step]
    split
    · rename_i hlt
      rw [ih ⟨c.sent, c.answered, c.received + 1⟩ hlt, Nat.add_right_comm, Nat.add_assoc]
    · rename_i hle
      rw [ih c h, Nat.min_eq_left (by omega), Nat.min_eq_left (by omega)]

/-- Enough turns of the server empty the first queue, and enough of the client the second. -/
theorem Progress.drained {c : Progress} {n : ℕ} (h : c.answered ≤ c.sent) (h' : c.received ≤ c.answered)
    (hn : c.sent ≤ n) :
    ((List.replicate n Move.serve ++ List.replicate n Move.receive).foldl Progress.step c).received = c.sent := by
  rw [List.foldl_append, Progress.serves c h, Nat.min_eq_left (by omega),
    Progress.receives ⟨c.sent, c.sent, c.received⟩ (h'.trans h)]
  exact Nat.min_eq_left (Nat.le_add_left_of_le hn)

/-- A run from the start. -/
theorem run_start (hP : P.Correct) (client_write_key server_write_key : Key) (moves : List Move)
    (hn : (NoiseTunnel.requests moves).length < 2 ^ 64 - 1) :
    ∃ p done replied queued, (start client_write_key server_write_key).run P moves = some p ∧
      done ++ replied ++ queued = NoiseTunnel.requests moves ∧ tally done replied queued = Progress.after moves ∧
      Flow P p done replied queued :=
  (flow_start client_write_key server_write_key).run hP moves (by simpa using hn)

/-- The answers that the client has, of all those to come. -/
theorem Flow.received_eq (h : Flow P p done replied queued) :
    receivedPairs p.client_log = ((done ++ replied ++ queued).map Request.reply).take p.client.rx_cipher.nonce.toNat := by
  rw [h.received, h.client, List.append_assoc, List.map_append]
  exact (List.take_left' (List.length_map _)).symm

/-- Fewer than 2^64 - 1 requests, in any interleaving with the server's turns
and the client's receiving: nothing fails, the counters differ by what is on
its way, and the answers received are the answers to the requests in order.
Each turn of the server answers the next request and each of the client
receives the next answer, where there is one: enough of both bring all. -/
theorem pipelined (hP : P.Correct) (client_write_key server_write_key : Key) (moves : List Move)
    (hn : (NoiseTunnel.requests moves).length < 2 ^ 64 - 1) :
    (∃ p, (start client_write_key server_write_key).run P moves = some p ∧
      p.client.tx_cipher.nonce.toNat = p.server.rx_cipher.nonce.toNat + in_flight p.to_server ∧
      p.server.tx_cipher.nonce.toNat = p.client.rx_cipher.nonce.toNat + in_flight p.to_client ∧
      p.client.tx_cipher.nonce.toNat = (NoiseTunnel.requests moves).length ∧
      p.server.tx_cipher.nonce = p.server.rx_cipher.nonce ∧
      p.server.rx_cipher.nonce.toNat = (Progress.after moves).answered ∧
      p.client.rx_cipher.nonce.toNat = (Progress.after moves).received ∧
      receivedPairs p.client_log =
        ((NoiseTunnel.requests moves).map Request.reply).take p.client.rx_cipher.nonce.toNat) ∧
    ∀ n, (NoiseTunnel.requests moves).length ≤ n →
      ∃ p, (start client_write_key server_write_key).run P
          (moves ++ (List.replicate n .serve ++ List.replicate n .receive)) = some p ∧
        receivedPairs p.client_log = (NoiseTunnel.requests moves).map Request.reply := by
  obtain ⟨p, done, replied, queued, hrun, hsplit, hcounts, h⟩ := run_start hP client_write_key server_write_key moves hn
  have hsent : (NoiseTunnel.requests moves).length = (Progress.after moves).sent := by
    rw [← hcounts, ← hsplit, List.length_append, List.length_append]
    rfl
  constructor
  · refine ⟨p, hrun, ?_, ?_, ?_, ?_, ?_, ?_, ?_⟩
    · rw [h.requests.nonce_end, h.requests.in_flight]
    · rw [h.replies.nonce_end, h.replies.in_flight]
    · rw [h.tx_nonce, ← hsplit, List.length_append, List.length_append]
    · exact UInt64.toNat_inj.1 (h.server.tx_nonce.trans h.server.nonce.symm)
    · rw [h.server.nonce, ← hcounts]
      rfl
    · rw [h.client, ← hcounts]
      rfl
    · rw [h.received_eq, hsplit]
  · intro n hle
    have hnone (m : Move) (hm : NoiseTunnel.requests [m] = []) : NoiseTunnel.requests (List.replicate n m) = [] := by
      refine List.filterMap_eq_nil_iff.2 fun m' hm' => ?_
      rw [List.eq_of_mem_replicate hm']
      exact List.filterMap_eq_nil_iff.1 hm m (List.mem_singleton_self m)
    have hreq : NoiseTunnel.requests (moves ++ (List.replicate n .serve ++ List.replicate n .receive)) =
        NoiseTunnel.requests moves := by
      rw [NoiseTunnel.requests, List.filterMap_append, List.filterMap_append]
      show NoiseTunnel.requests moves ++
        (NoiseTunnel.requests (List.replicate n .serve) ++ NoiseTunnel.requests (List.replicate n .receive)) = _
      rw [hnone .serve rfl, hnone .receive rfl, List.append_nil, List.append_nil]
    obtain ⟨p', done', replied', queued', hrun', hsplit', hcounts', h'⟩ := run_start hP client_write_key server_write_key
      (moves ++ (List.replicate n .serve ++ List.replicate n .receive)) (hreq ▸ hn)
    have hall : p'.client.rx_cipher.nonce.toNat = (NoiseTunnel.requests moves).length := by
      have hdrained := Progress.drained (c := tally done replied queued) (Nat.le_add_right _ _) (Nat.le_add_right _ _)
        (hcounts ▸ hsent ▸ hle)
      rw [h'.client, hsent, ← hcounts, ← hdrained, hcounts, Progress.after, ← List.foldl_append]
      exact congrArg Progress.received hcounts'
    refine ⟨p', hrun', ?_⟩
    rw [h'.received_eq, hsplit', hreq, hall, ← List.length_map (f := Request.reply), List.take_length]

/-- Two requests are sent before the server turns; then the server answers
both and the client takes the first answer. -/
theorem pipelined_two :
    ∃ p, (start (Concrete.key 5) (Concrete.key 6)).run (Concrete.primitives true)
        [.send (.data "a" (by decide)), .send .ping, .serve, .serve, .receive] = some p ∧
      p.server.rx_cipher.nonce.toNat = 2 ∧
      p.client.tx_cipher.nonce.toNat = p.server.rx_cipher.nonce.toNat + in_flight p.to_server ∧
      receivedPairs p.client_log = [(.DataPayload, as_bytes "Server mottok: a")] := by
  obtain ⟨p, hrun, hserver, -, -, -, hanswered, hreceived, hpairs⟩ := (pipelined (Concrete.correct true)
    (Concrete.key 5) (Concrete.key 6) [.send (.data "a" (by decide)), .send .ping, .serve, .serve, .receive]
    (by decide)).1
  refine ⟨p, hrun, hanswered, hserver, ?_⟩
  rw [hpairs, hreceived]
  rfl

end Pipeline

end NoiseTunnel
