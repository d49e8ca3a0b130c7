import NoiseTunnel.Agreement
import NoiseTunnel.Lib.Schedule
import NoiseTunnel.Streams
import NoiseTunnel.Turns
/-!
# Echo

A client that sends one message and an honest server, joined by two byte
streams. The client ends with its message behind the reply prefix if the
message is at most 65496 bytes long, and with an error otherwise.
-/
open Rust Schedule

namespace NoiseTunnel

/-! ## Two sessions on two streams -/

/-- Both sessions, the bytes each has not read yet, and their logs. -/
structure Net (P : Primitives) where
  client : OneShot P
  server : Serving
  to_client : Bytes
  to_server : Bytes
  client_log : Log
  server_log : Log

namespace Net

variable (P : Primitives) (r : Relay) (message : String)

def start : Net P := ⟨.idle, .await_init, [], [], [], []⟩

/-- A turn of the client. A session that has ended has closed its streams. -/
def clientTurn (n : Net P) : Net P :=
  match n.client with
  | .done _ => n
  | .idle =>
    let (l, client) := OneShot.step P r.client r.client_secret message .idle .connect
    { n with client, to_server := n.to_server ++ written l, client_log := n.client_log ++ l }
  | s =>
    match arrival n.to_client (!n.server.waits) with
    | none => n
    | some (i, to_client) =>
      let (l, client) := OneShot.step P r.client r.client_secret message s i
      { n with client, to_client, to_server := n.to_server ++ written l, client_log := n.client_log ++ l }

def serverTurn (n : Net P) : Net P :=
  match n.server with
  | .done _ => n
  | s =>
    match arrival n.to_server n.client.ended with
    | none => n
    | some (i, to_server) =>
      let (l, server) := Serving.step P r.server_keys r.prologue r.server_secret s i
      { n with server, to_server, to_client := n.to_client ++ written l, server_log := n.server_log ++ l }

def turn : Side → Net P → Net P
  | .client => clientTurn P r message
  | .server => serverTurn P r

variable {P r message} {c c' : OneShot P} {s s' : Serving} {toc tos rest : Bytes} {cl sl l : Log} {i : Input}

/-! ## One turn -/

theorem clientTurn_waits (hc : c.waits) (ha : arrival toc (!s.waits) = none) :
    clientTurn P r message ⟨c, s, toc, tos, cl, sl⟩ = ⟨c, s, toc, tos, cl, sl⟩ := by
  cases c <;> first | exact Bool.noConfusion hc | simp only [clientTurn, ha]

theorem clientTurn_reads (hc : c.waits) (ha : arrival toc (!s.waits) = some (i, rest))
    (hs : OneShot.step P r.client r.client_secret message c i = (l, c')) :
    clientTurn P r message ⟨c, s, toc, tos, cl, sl⟩ = ⟨c', s, rest, tos ++ written l, cl ++ l, sl⟩ := by
  cases c <;> first | exact Bool.noConfusion hc | simp only [clientTurn, ha, hs]

theorem clientTurn_ended (hc : c.ended) :
    clientTurn P r message ⟨c, s, toc, tos, cl, sl⟩ = ⟨c, s, toc, tos, cl, sl⟩ := by
  cases c <;> first | exact Bool.noConfusion hc | rfl

theorem serverTurn_waits (hs : s.waits) (ha : arrival tos c.ended = none) :
    serverTurn P r ⟨c, s, toc, tos, cl, sl⟩ = ⟨c, s, toc, tos, cl, sl⟩ := by
  cases s <;> first | exact Bool.noConfusion hs | simp only [serverTurn, ha]

theorem serverTurn_reads (hs : s.waits) (ha : arrival tos c.ended = some (i, rest))
    (hstep : Serving.step P r.server_keys r.prologue r.server_secret s i = (l, s')) :
    serverTurn P r ⟨c, s, toc, tos, cl, sl⟩ = ⟨c, s', toc ++ written l, rest, cl, sl ++ l⟩ := by
  cases s <;> first | exact Bool.noConfusion hs | simp only [serverTurn, ha, hstep]

theorem serverTurn_ended (hs : s.waits = false) :
    serverTurn P r ⟨c, s, toc, tos, cl, sl⟩ = ⟨c, s, toc, tos, cl, sl⟩ := by
  cases s <;> first | exact Bool.noConfusion hs | rfl

theorem other_client {q : Side} (h : q ≠ .server) : q = .client := by
  cases q
  · rfl
  · exact absurd rfl h

theorem other_server {q : Side} (h : q ≠ .client) : q = .server := by
  cases q
  · exact absurd rfl h
  · rfl

theorem moves_client {n n' : Net P} (h : clientTurn P r message n = n') (hs : serverTurn P r n = n) :
    Moves (turn P r message) n n' := by
  refine ⟨.client, h, fun q hq => ?_⟩
  rw [other_server hq]
  exact hs

theorem moves_server {n n' : Net P} (h : serverTurn P r n = n') (hc : clientTurn P r message n = n) :
    Moves (turn P r message) n n' := by
  refine ⟨.server, h, fun q hq => ?_⟩
  rw [other_client hq]
  exact hc

/-- Both have ended. -/
theorem rests {n : Net P} (hc : n.client.ended) (hs : n.server.waits = false) : Rests (turn P r message) n := by
  intro q
  cases q with
  | client => exact clientTurn_ended hc
  | server => exact serverTurn_ended hs

/-- The client takes the one frame that lies before it. -/
theorem client_takes (s : Serving) (cl sl : Log) {f : WireFrame}
    (hvalid : WireFrame.is_valid_payload_size f.payload.length) (hc : c.waits) (hs : s.waits)
    (hstep : OneShot.step P r.client r.client_secret message c (.frame f) = (l, c')) :
    Moves (turn P r message) ⟨c, s, f.serialize, [], cl, sl⟩ ⟨c', s, [], written l, cl ++ l, sl⟩ := by
  have hr := read_from_serialize hvalid []
  rw [List.append_nil] at hr
  have hopen : c.ended = false := by cases c <;> first | exact Bool.noConfusion hc | rfl
  exact moves_client (clientTurn_reads hc (arrival_frame _ hr) hstep)
    (serverTurn_waits hs (by rw [hopen]; rfl))

/-- The server takes the one frame that lies before it. -/
theorem server_takes (message : String) (c : OneShot P) (cl sl : Log) {f : WireFrame}
    (hvalid : WireFrame.is_valid_payload_size f.payload.length) (hs : s.waits) (hc : c.waits ∨ c.ended)
    (hstep : Serving.step P r.server_keys r.prologue r.server_secret s (.frame f) = (l, s')) :
    Moves (turn P r message) ⟨c, s, [], f.serialize, cl, sl⟩ ⟨c, s', written l, [], cl, sl ++ l⟩ := by
  have hr := read_from_serialize hvalid []
  rw [List.append_nil] at hr
  refine moves_server (serverTurn_reads hs (arrival_frame _ hr) hstep) ?_
  rcases hc with hc | hc
  · exact clientTurn_waits hc (by rw [hs]; rfl)
  · exact clientTurn_ended hc

/-- The server fails to read: the client waits for it, or has ended. -/
theorem server_breaks {session : ServerSession} {e : Error} (hr : WireFrame.read_from tos = .error (.err e))
    (he : (e ≠ .eof ∧ c.waits ∧ toc = []) ∨ c.ended) :
    Moves (turn P r message) ⟨c, .transport session, toc, tos, cl, sl⟩ ⟨c, .done (.ok session), toc, tos, cl, sl⟩ := by
  have hstep : Serving.step P r.server_keys r.prologue r.server_secret (.transport session) (.broken (.err e)) =
    ([], .done (.ok session)) := rfl
  have hmove (ha : arrival tos c.ended = some (.broken (.err e), tos)) :
      serverTurn P r ⟨c, .transport session, toc, tos, cl, sl⟩ = ⟨c, .done (.ok session), toc, tos, cl, sl⟩ := by
    rw [serverTurn_reads rfl ha hstep, List.append_nil]
    exact congrArg (fun b => Net.mk c _ b tos cl sl) (List.append_nil toc)
  rcases he with ⟨he, hc, rfl⟩ | hc
  · exact moves_server (hmove (arrival_broken _ hr he)) (clientTurn_waits hc rfl)
  · exact moves_server (hmove (by rw [hc]; exact arrival_closed hr)) (clientTurn_ended hc)

/-- The client fails to read: the server has ended, or waits for it. -/
theorem client_breaks {tx rx : CipherState} {e : Error} (hr : WireFrame.read_from toc = .error (.err e))
    (he : s.waits = false ∨ e ≠ .eof ∧ tos = []) :
    Moves (turn P r message) ⟨.await_reply tx rx, s, toc, tos, cl, sl⟩
      ⟨.done (.error (.err e)), s, toc, tos, cl, sl⟩ := by
  have hstep : OneShot.step P r.client r.client_secret message (.await_reply tx rx) (.broken (.err e)) =
    ([], .done (.error (.err e))) := rfl
  have hmove (ha : arrival toc (!s.waits) = some (.broken (.err e), toc)) :
      clientTurn P r message ⟨.await_reply tx rx, s, toc, tos, cl, sl⟩ =
        ⟨.done (.error (.err e)), s, toc, tos, cl, sl⟩ := by
    rw [clientTurn_reads rfl ha hstep, List.append_nil]
    exact congrArg (fun b => Net.mk _ s toc b cl sl) (List.append_nil tos)
  rcases he with hs | ⟨he, rfl⟩
  · exact moves_client (hmove (by rw [hs]; exact arrival_closed hr)) (serverTurn_ended hs)
  · refine moves_client (hmove (arrival_broken _ hr he)) ?_
    cases hs : s.waits with
    | true => exact serverTurn_waits hs rfl
    | false => exact serverTurn_ended hs

/-! ## The sessions do what the functions do -/

variable (P r message) in
/-- A session that has ended has done what its function does on the bytes that
the other has written by now. -/
def Conforms (n : Net P) : Prop :=
  (∀ res, n.client = .done res →
    r.client.send_secure_message P r.client_secret message (written n.server_log) = ⟨n.client_log, res⟩) ∧
  ∀ res, n.server = .done res →
    TunnelServer.handle_client_with_prologue P r.server_keys r.prologue r.server_secret (written n.client_log) =
      ⟨n.server_log, res⟩

variable (P r message) in
/-- Each session has come as far as its function does on the bytes that the
other has written by now. -/
structure Following (n : Net P) : Prop where
  client : (n.client = .idle ∧ n.client_log = [] ∧ n.to_client = written n.server_log) ∨
    ∃ l, n.client_log = (OneShot.step P r.client r.client_secret message .idle .connect).1 ++ l ∧
      Follows (OneShot.step P r.client r.client_secret message) OneShot.waits
        (OneShot.step P r.client r.client_secret message .idle .connect).2 (written n.server_log) (!n.server.waits)
        l n.client n.to_client
  server : Follows (Serving.step P r.server_keys r.prologue r.server_secret) Serving.waits .await_init
    (written n.client_log) n.client.ended n.server_log n.server n.to_server

theorem following_start : Following P r message (start P) :=
  ⟨.inl ⟨rfl, rfl, rfl⟩, .refl _ _ _⟩

theorem Following.clientTurn {n : Net P} (h : Following P r message n) :
    Following P r message (Net.clientTurn P r message n) := by
  obtain ⟨c, s, toc, tos, cl, sl⟩ := n
  obtain ⟨hc, hs⟩ := h
  dsimp only at hc hs
  have hwritten {l : Log} {closed : Bool} (ho : c.ended = false) :
      Follows (Serving.step P r.server_keys r.prologue r.server_secret) Serving.waits .await_init (written (cl ++ l))
        closed sl s (tos ++ written l) := by
    rw [written_append]
    simp only [ho] at hs
    exact hs.write _ _
  have hreads (hw : c.waits) : Following P r message (Net.clientTurn P r message ⟨c, s, toc, tos, cl, sl⟩) := by
    have ho : c.ended = false := by cases c <;> first | exact Bool.noConfusion hw | rfl
    cases ha : arrival toc (!s.waits) with
    | none =>
      rw [clientTurn_waits hw ha]
      exact ⟨hc, hs⟩
    | some x =>
      obtain ⟨i, rest⟩ := x
      rw [clientTurn_reads hw ha rfl]
      rcases hc with ⟨rfl, -⟩ | ⟨l, rfl, hf⟩
      · exact Bool.noConfusion hw
      · exact ⟨.inr ⟨_, List.append_assoc _ _ _, hf.read hw ha⟩, hwritten ho⟩
  cases c with
  | done res => exact ⟨hc, hs⟩
  | idle =>
    rcases hc with ⟨-, rfl, rfl⟩ | ⟨l, rfl, hf⟩
    · exact ⟨.inr ⟨[], (List.append_nil _).symm, .refl _ _ _⟩, hwritten rfl⟩
    · -- where the function ends it is not idle
      obtain ⟨_, -, hsend⟩ := send_secure_message_drains P r.client r.client_secret message (written sl)
      cases (hsend.det (hf.ended rfl)).2
  | await_resp started => exact hreads rfl
  | await_reply tx rx => exact hreads rfl

theorem Following.serverTurn {n : Net P} (h : Following P r message n) :
    Following P r message (Net.serverTurn P r n) := by
  obtain ⟨c, s, toc, tos, cl, sl⟩ := n
  obtain ⟨hc, hs⟩ := h
  dsimp only at hc hs
  cases hw : s.waits with
  | false =>
    rw [serverTurn_ended hw]
    exact ⟨hc, hs⟩
  | true =>
    cases ha : arrival tos c.ended with
    | none =>
      rw [serverTurn_waits hw ha]
      exact ⟨hc, hs⟩
    | some x =>
      obtain ⟨i, rest⟩ := x
      rw [serverTurn_reads hw ha rfl]
      refine ⟨?_, hs.read hw ha⟩
      rcases hc with ⟨rfl, rfl, rfl⟩ | ⟨l, rfl, hf⟩
      · exact .inl ⟨rfl, rfl, (written_append _ _).symm⟩
      · simp only [hw] at hf
        refine .inr ⟨l, rfl, ?_⟩
        rw [written_append]
        exact hf.write _ _

theorem following_turn (q : Side) {n : Net P} (h : Following P r message n) :
    Following P r message (turn P r message q n) := by
  cases q with
  | client => exact h.clientTurn
  | server => exact h.serverTurn

/-- A client that has ended has done what `send_secure_message` does. -/
theorem Following.client_done {n : Net P} {res : Except (Stop Error) String} (h : Following P r message n)
    (hn : n.client = .done res) :
    r.client.send_secure_message P r.client_secret message (written n.server_log) = ⟨n.client_log, res⟩ := by
  obtain ⟨l, hlog, hsend⟩ := send_secure_message_drains P r.client r.client_secret message (written n.server_log)
  rcases h.client with ⟨hidle, -⟩ | ⟨l', hl', hf⟩
  · rw [hn] at hidle
    cases hidle
  · rw [hn] at hf
    obtain ⟨rfl, hdone⟩ := hsend.det (hf.ended rfl)
    rw [hl', ← hlog, ← OneShot.done.inj hdone]

/-- A server that has ended has done what `handle_client_with_prologue` does. -/
theorem Following.server_done {n : Net P} {res : Except (Stop Error) ServerSession} (h : Following P r message n)
    (hn : n.server = .done res) :
    TunnelServer.handle_client_with_prologue P r.server_keys r.prologue r.server_secret (written n.client_log) =
      ⟨n.server_log, res⟩ := by
  have hf := h.server
  rw [hn] at hf
  obtain ⟨hlog, hdone⟩ := (handle_client_drains P r.server_keys r.prologue r.server_secret _).det (hf.ended rfl)
  rw [← hlog, ← Serving.done.inj hdone]

theorem Following.conforms {n : Net P} (h : Following P r message n) : Conforms P r message n :=
  ⟨fun _ hn => h.client_done hn, fun _ hn => h.server_done hn⟩

/-! ## The handshake -/

/-- The two sessions shake hands, and the server's answer lies before the client. -/
theorem handshaken (message : String) (hP : P.Correct) (hk : r.server_keys.public_key = P.x25519_public r.server_keys.private_key)
    (hp : r.client.prologue = r.prologue) (hs : r.client.server_pubkey = r.server_keys.public_key) :
    ∃ (H : Completed P) (k : Key) (ct ct₂ : Bytes) (sl : Log),
      Relation.ReflTransGen (Moves (turn P r message)) (start P)
        ⟨.await_resp (r.started P),
          .transport (.start (CipherState.new H.client_write_key, CipherState.new H.server_write_key)),
          (respFrame H.view.server_ephemeral ct₂).serialize, [],
          initLog P (P.x25519_public r.client_secret) (r.clientView P).first (r.started P).dh_static k ct, sl⟩ ∧
      WireFrame.is_valid_payload_size (respFrame H.view.server_ephemeral ct₂).payload.length ∧
      r.client.finish_handshake P (r.started P) (respFrame H.view.server_ephemeral ct₂) =
        ⟨finishLog H ct₂, .ok (CipherState.new H.client_write_key, CipherState.new H.server_write_key)⟩ := by
  obtain ⟨H, k, ct, ct₂, hstart, hvalid, hacc, hvalid₂, hfinish⟩ := r.completes hP hk hp hs
  have hfirst : Moves (turn P r message) (start P)
      ⟨.await_resp (r.started P), .await_init, [], (initFrame (P.x25519_public r.client_secret) ct).serialize,
        initLog P (P.x25519_public r.client_secret) (r.clientView P).first (r.started P).dh_static k ct, []⟩ := by
    refine moves_client ?_ (serverTurn_waits rfl rfl)
    simp only [start, clientTurn, OneShot.step, hstart, settle, written_initLog, List.nil_append]
  have hstep : Serving.step P r.server_keys r.prologue r.server_secret .await_init
      (.frame (initFrame (P.x25519_public r.client_secret) ct)) =
      (acceptLog H k ct HANDSHAKE_INIT_CLIENT ct₂,
        .transport (.start (CipherState.new H.client_write_key, CipherState.new H.server_write_key))) := by
    simp only [Serving.step, hacc, settle]
  refine ⟨H, k, ct, ct₂, acceptLog H k ct HANDSHAKE_INIT_CLIENT ct₂, .tail (.single hfirst) ?_, hvalid₂, hfinish⟩
  have hsecond := server_takes message (.await_resp (r.started P))
    (initLog P (P.x25519_public r.client_secret) (r.clientView P).first (r.started P).dh_static k ct) [] hvalid rfl
    (.inl rfl) hstep
  rw [written_acceptLog] at hsecond
  exact hsecond

/-! ## The message -/

theorem written_sealedLog (c : CipherState) (t : MessageType) (pt aad ct : Bytes) :
    written (sealedLog c t pt aad ct) = (WireFrame.mk t c.nonce ct).serialize := by
  simp [written, frames, sealedLog]

@[simp] theorem written_finishLog (H : Completed P) (ct : Bytes) : written (finishLog H ct) = [] := by
  simp [written, frames, finishLog, derived]

/-- The client takes the answer and sends its message, or fails because that
is too long to encrypt. -/
theorem sends (message : String) (hP : P.Correct) {H : Completed P} {ct₂ : Bytes} {session : ServerSession}
    (hvalid : WireFrame.is_valid_payload_size (respFrame H.view.server_ephemeral ct₂).payload.length)
    (hfinish : r.client.finish_handshake P (r.started P) (respFrame H.view.server_ephemeral ct₂) =
      ⟨finishLog H ct₂, .ok (CipherState.new H.client_write_key, CipherState.new H.server_write_key)⟩) :
    (∃ ct tx, P.aead_encrypt H.client_write_key (CipherState.build_nonce 0) (as_bytes message) TUNNEL_DATA = some ct ∧
      Moves (turn P r message)
        ⟨.await_resp (r.started P), .transport session, (respFrame H.view.server_ephemeral ct₂).serialize, [], cl, sl⟩
        ⟨.await_reply tx (CipherState.new H.server_write_key), .transport session, [],
          (WireFrame.mk .DataPayload 0 ct).serialize,
          cl ++ (finishLog H ct₂ ++
            sealedLog (CipherState.new H.client_write_key) .DataPayload (as_bytes message) TUNNEL_DATA ct), sl⟩) ∨
    (∃ e, 65496 < message.utf8ByteSize ∧
      Moves (turn P r message)
        ⟨.await_resp (r.started P), .transport session, (respFrame H.view.server_ephemeral ct₂).serialize, [], cl, sl⟩
        ⟨.done (.error (.err e)), .transport session, [], [], cl ++ finishLog H ct₂, sl⟩) := by
  rcases TunnelClient.send_message_cases P (CipherState.new H.client_write_key) message with
    ⟨ct, tx, he, hm⟩ | ⟨e, hm, hfail⟩
  · left
    have hstep : OneShot.step P r.client r.client_secret message (.await_resp (r.started P))
        (.frame (respFrame H.view.server_ephemeral ct₂)) =
        (finishLog H ct₂ ++
            sealedLog (CipherState.new H.client_write_key) .DataPayload (as_bytes message) TUNNEL_DATA ct,
          .await_reply tx (CipherState.new H.server_write_key)) := by
      simp only [OneShot.step, OneShot.finish_and_send, hfinish, Act.mk_ok_bind, hm, settle, Act.pure_log, Act.pure_res,
        List.append_nil]
    have hmove := client_takes (.transport session) cl sl hvalid rfl rfl hstep
    rw [written_append, written_finishLog, written_sealedLog] at hmove
    exact ⟨ct, tx, (CipherState.encrypt_eq_ok.1 he).1, hmove⟩
  · right
    have hlong : 65496 < message.utf8ByteSize := by
      by_contra hle
      exact hfail hP (by omega) (CipherState.new_nonce_lt _)
    have hstep : OneShot.step P r.client r.client_secret message (.await_resp (r.started P))
        (.frame (respFrame H.view.server_ephemeral ct₂)) = (finishLog H ct₂, .done (.error (.err e))) := by
      simp only [OneShot.step, OneShot.finish_and_send, hfinish, Act.mk_ok_bind, hm, settle, Act.mk_error_bind,
        List.append_nil]
    have hmove := client_takes (.transport session) cl sl hvalid rfl rfl hstep
    rw [written_finishLog] at hmove
    exact ⟨e, hlong, hmove⟩

/-- The server takes a message of legal size and answers it. -/
theorem answers (hP : P.Correct) {kc : Key} (kw : Key) {ct : Bytes} (hc : c.waits)
    (he : P.aead_encrypt kc (CipherState.build_nonce 0) (as_bytes message) TUNNEL_DATA = some ct)
    (hvalid : WireFrame.is_valid_payload_size ct.length) :
    ∃ ct₂ session sl', P.aead_encrypt kw (CipherState.build_nonce 0) (as_bytes (REPLY_PREFIX ++ message)) TUNNEL_DATA =
        some ct₂ ∧
      Moves (turn P r message)
        ⟨c, .transport (.start (CipherState.new kc, CipherState.new kw)), [], (WireFrame.mk .DataPayload 0 ct).serialize,
          cl, sl⟩
        ⟨c, .transport session, (WireFrame.mk .DataPayload 0 ct₂).serialize, [], cl, sl'⟩ := by
  have he' := CipherState.encrypt_of (c := CipherState.new kc) he (CipherState.new_nonce_lt kc)
  obtain ⟨ct₂, session, ht, -, -, hen, -⟩ := (ServerSession.ready_start kc kw).answers hP he' .data hvalid
  have hanswer : ServerSession.answerTo .DataPayload (as_bytes message) = as_bytes (REPLY_PREFIX ++ message) := by
    simp only [ServerSession.answerTo, from_utf8_lossy_as_bytes]
  have hturn : ServerSession.transport_frame P (.start (CipherState.new kc, CipherState.new kw))
      ⟨.DataPayload, 0, ct⟩ = _ := ht
  have hstep : Serving.step P r.server_keys r.prologue r.server_secret
      (.transport (.start (CipherState.new kc, CipherState.new kw))) (.frame ⟨.DataPayload, 0, ct⟩) = _ :=
    settle_ok (congrArg Act.res hturn)
  have hmove := server_takes message c cl sl hvalid rfl (.inl hc) hstep
  rw [hturn, written_append, written_sealedLog] at hmove
  rw [hanswer] at hen
  exact ⟨ct₂, _, _, (CipherState.encrypt_eq_ok.1 hen).1, hmove⟩

/-! ## How it ends -/

variable (P r message) in
/-- From `n` the sessions come to rest, and the client has then ended with `res`. -/
def Ends (n : Net P) (res : Except (Stop Error) String) : Prop :=
  ∃ n', Relation.ReflTransGen (Moves (turn P r message)) n n' ∧ Rests (turn P r message) n' ∧ n'.client = .done res

theorem Ends.of_moves {n n' : Net P} {res : Except (Stop Error) String}
    (h : Relation.ReflTransGen (Moves (turn P r message)) n n') (he : Ends P r message n' res) :
    Ends P r message n res := by
  obtain ⟨n'', hm, hr, hc⟩ := he
  exact ⟨n'', h.trans hm, hr, hc⟩

/-- A client that has ended leaves the server to the end of its stream. -/
theorem ends_of_client_ended (cl sl : Log) (toc : Bytes) (session : ServerSession) (res : Except (Stop Error) String) :
    Ends P r message ⟨.done res, .transport session, toc, [], cl, sl⟩ res :=
  ⟨_, .single (server_breaks WireFrame.read_from_nil (.inr rfl)), rests rfl rfl, rfl⟩

/-- A server that has ended leaves the client to the end of its stream. -/
theorem ends_of_server_ended (cl sl : Log) (tos : Bytes) (tx rx : CipherState) (hs : s.waits = false) :
    Ends P r message ⟨.await_reply tx rx, s, [], tos, cl, sl⟩ (.error (.err .eof)) :=
  ⟨_, .single (client_breaks WireFrame.read_from_nil (.inl hs)), rests rfl hs, rfl⟩

theorem ends_of_close (cl sl : Log) (session : ServerSession) (nonce : UInt64) (res : Except (Stop Error) String) :
    Ends P r message ⟨.done res, .transport session, [], (WireFrame.mk .Close nonce []).serialize, cl, sl⟩ res := by
  have hstep : Serving.step P r.server_keys r.prologue r.server_secret (.transport session)
      (.frame ⟨.Close, nonce, []⟩) = ([], .done (.ok (session.counted ⟨.Close, nonce, []⟩))) := by
    simp only [Serving.step, session.transport_frame_close P (f := ⟨.Close, nonce, []⟩) rfl, settle, Serving.after]
  have hvalid : WireFrame.is_valid_payload_size 0 := by decide
  exact ⟨_, .single (server_takes message _ cl sl hvalid rfl (.inr rfl) hstep), rests rfl rfl, rfl⟩

/-- An answer of legal size comes back and both sides end. -/
theorem ends_of_answer (hP : P.Correct) (cl sl : Log) (tx : CipherState) {kw : Key} {ct : Bytes}
    (session : ServerSession)
    (he : P.aead_encrypt kw (CipherState.build_nonce 0) (as_bytes (REPLY_PREFIX ++ message)) TUNNEL_DATA = some ct)
    (hvalid : WireFrame.is_valid_payload_size ct.length) :
    Ends P r message
      ⟨.await_reply tx (CipherState.new kw), .transport session, (WireFrame.mk .DataPayload 0 ct).serialize, [], cl, sl⟩
      (.ok (REPLY_PREFIX ++ message)) := by
  have hd := CipherState.decrypt_of (c := CipherState.new kw) (hP.decrypt_encrypt _ _ _ _ _ he)
    (CipherState.new_nonce_lt kw)
  have hreply : TunnelClient.read_reply P tx (CipherState.new kw) ⟨.DataPayload, 0, ct⟩ = _ :=
    TunnelClient.read_reply_of P rfl hd (from_utf8_as_bytes _)
  have hwritten : written (TunnelClient.read_reply P tx (CipherState.new kw) ⟨.DataPayload, 0, ct⟩).log =
      (WireFrame.mk .Close tx.nonce []).serialize := by
    rw [hreply]
    simp [written, frames, openedLog]
  have hstep : OneShot.step P r.client r.client_secret message (.await_reply tx (CipherState.new kw))
      (.frame ⟨.DataPayload, 0, ct⟩) = _ := settle_ok (congrArg Act.res hreply)
  have hclient := client_takes (.transport session) cl sl hvalid rfl rfl hstep
  rw [hwritten] at hclient
  exact .of_moves (.single hclient) (ends_of_close _ _ _ _ _)

/-- An answer of illegal size is refused. -/
theorem ends_of_oversized (cl sl : Log) (tx rx : CipherState) {ct : Bytes} (session : ServerSession)
    (hillegal : ¬WireFrame.is_valid_payload_size ct.length) (hwrap : 9 + ct.length < 2 ^ 32) :
    ∃ e, Ends P r message
      ⟨.await_reply tx rx, .transport session, (WireFrame.mk .DataPayload 0 ct).serialize, [], cl, sl⟩
      (.error (.err e)) := by
  rcases WireFrame.read_from_illegal (f := ⟨.DataPayload, 0, ct⟩) hillegal with ⟨e, hr, he⟩ | ⟨hle, -⟩
  · exact ⟨e, .of_moves (.single (client_breaks hr (.inr ⟨he, rfl⟩))) (ends_of_client_ended _ _ _ _ _)⟩
  · exact absurd hwrap (Nat.not_lt.2 hle)

/-- A message of illegal size is refused: at its length field, or where that
has wrapped, by the AEAD, which is handed only a part of the ciphertext. -/
theorem ends_of_illegal (cl sl : Log) (tx rx : CipherState) {ct : Bytes} (session : ServerSession)
    (hillegal : ¬WireFrame.is_valid_payload_size ct.length)
    (hseals : ∀ x ∈ seals cl, x.aad = TUNNEL_DATA → x.ct = ct)
    (hun : 2 ^ 32 ≤ 9 + ct.length → ∀ n, Relation.ReflTransGen (Moves (turn P r message))
      ⟨.await_reply tx rx, .transport session, [], (WireFrame.mk .DataPayload 0 ct).serialize, cl, sl⟩ n →
        Unforged n.server_log n.client_log) :
    ∃ e, Ends P r message
      ⟨.await_reply tx rx, .transport session, [], (WireFrame.mk .DataPayload 0 ct).serialize, cl, sl⟩
      (.error (.err e)) := by
  rcases WireFrame.read_from_illegal (f := ⟨.DataPayload, 0, ct⟩) hillegal with
    ⟨e, hr, he⟩ | ⟨hle, g, rest, hr, ht, -, hlt⟩
  · exact ⟨.eof, .of_moves (.single (server_breaks hr (.inl ⟨he, rfl, rfl⟩))) (ends_of_server_ended _ _ _ _ _ rfl)⟩
  · have hmove {l : Log} {s' : Serving} (hstep : Serving.step P r.server_keys r.prologue r.server_secret
        (.transport session) (.frame g) = (l, s')) : Moves (turn P r message)
          ⟨.await_reply tx rx, .transport session, [], (WireFrame.mk .DataPayload 0 ct).serialize, cl, sl⟩
          ⟨.await_reply tx rx, s', written l, rest, cl, sl ++ l⟩ :=
      moves_server (serverTurn_reads rfl (arrival_frame _ hr) hstep) (clientTurn_waits rfl rfl)
    have haad : Carries g.msg_type TUNNEL_DATA := ht ▸ .data
    -- the server cannot have opened a part of what the client sealed
    have hopen {l : Log} {pt : Bytes} {n' : Net P}
        (hm : Moves (turn P r message)
          ⟨.await_reply tx rx, .transport session, [], (WireFrame.mk .DataPayload 0 ct).serialize, cl, sl⟩ n')
        (hcl : n'.client_log = cl) (hsl : n'.server_log = sl ++ (openedLog session.rx_cipher g TUNNEL_DATA pt ++ l)) :
        False := by
      have ho : (⟨session.rx_cipher.key, g.nonce, TUNNEL_DATA, pt, g.payload⟩ : Seal) ∈ opens n'.server_log := by
        rw [hsl, opens_append, opens_append]
        exact List.mem_append_right _ List.mem_cons_self
      obtain ⟨x, hx, -, -, hxa, hxc⟩ := hun hle n' (.single hm) _ ho
      rw [hcl] at hx
      have hct := hseals x hx hxa
      rw [hxc] at hct
      exact absurd (congrArg List.length hct) (Nat.ne_of_lt hlt)
    rcases ServerSession.takes_in P session haad with ⟨e, hf⟩ | ⟨pt, filter', rx', -, -, ⟨e, hf⟩ | ⟨ct₂, tx', -, hf⟩⟩
    · have hstep : Serving.step P r.server_keys r.prologue r.server_secret (.transport session) (.frame g) =
        ([], .done (.error e)) := by simp only [Serving.step, hf, settle]
      exact ⟨.eof, .of_moves (.single (hmove hstep)) (ends_of_server_ended _ _ _ _ _ rfl)⟩
    · have hstep : Serving.step P r.server_keys r.prologue r.server_secret (.transport session) (.frame g) =
        (openedLog session.rx_cipher g TUNNEL_DATA pt ++ [], .done (.error (.err e))) := by
        simp only [Serving.step, hf, settle, List.append_nil]
      exact (hopen (hmove hstep) rfl rfl).elim
    · have hstep : Serving.step P r.server_keys r.prologue r.server_secret (.transport session) (.frame g) = (_, _) :=
        settle_ok (congrArg Act.res hf)
      rw [hf] at hstep
      exact (hopen (hmove hstep) rfl rfl).elim

/-- The client seals one ciphertext as data: the other is bound to a transcript hash. -/
theorem client_seals {H : Completed P} {e dh k : Key} {t ct ct₂ ct₃ : Bytes} :
    ∀ x ∈ seals (initLog P e t dh k ct ++ (finishLog H ct₂ ++
      sealedLog (CipherState.new H.client_write_key) .DataPayload (as_bytes message) TUNNEL_DATA ct₃)),
      x.aad = TUNNEL_DATA → x.ct = ct₃ := by
  intro x hx haad
  rw [seals_append] at hx
  rcases List.mem_append.1 hx with hx | hx
  · have hinit : x = ⟨k, 0, (P.sha256 t).val, HANDSHAKE_INIT_CLIENT, ct⟩ := List.mem_singleton.1 hx
    rw [hinit] at haad
    have hhash := congrArg List.length haad
    rw [(P.sha256 t).property] at hhash
    exact absurd hhash (by decide)
  · have hdata : x = ⟨H.client_write_key, 0, TUNNEL_DATA, as_bytes message, ct₃⟩ := List.mem_singleton.1 hx
    rw [hdata]

/-- The client's result, by the length of its message. -/
def Expected (message : String) (res : Except (Stop Error) String) : Prop :=
  (message.utf8ByteSize ≤ 65496 → res = .ok (REPLY_PREFIX ++ message)) ∧
    (65496 < message.utf8ByteSize → ∃ e, res = .error (.err e))

theorem expected_error {e : Error} (h : 65496 < message.utf8ByteSize) : Expected message (.error (.err e)) :=
  ⟨fun hle => absurd h (Nat.not_lt.2 hle), fun _ => ⟨e, rfl⟩⟩

/-- Where the two sessions come to rest. -/
theorem settles (hP : P.Correct) (hk : r.server_keys.public_key = P.x25519_public r.server_keys.private_key)
    (hp : r.client.prologue = r.prologue) (hs : r.client.server_pubkey = r.server_keys.public_key)
    (hun : 2 ^ 32 ≤ message.utf8ByteSize + 25 → ∀ n, Relation.ReflTransGen (Moves (turn P r message)) (start P) n →
      Unforged n.server_log n.client_log) :
    ∃ res, Ends P r message (start P) res ∧ Expected message res := by
  obtain ⟨H, k, cti, ctr, sl, hshake, hvalid, hfinish⟩ := handshaken message hP hk hp hs
  rcases sends message hP hvalid hfinish with ⟨ct, tx, he, hsend⟩ | ⟨e, hlong, hfail⟩
  swap
  · exact ⟨_, .of_moves (hshake.tail hfail) (ends_of_client_ended _ _ _ _ _), expected_error hlong⟩
  have hsent := hshake.tail hsend
  have hlen := hP.encrypt_length _ _ _ _ _ he
  rw [as_bytes_length, TAG_LEN] at hlen
  by_cases hct : WireFrame.is_valid_payload_size ct.length
  · obtain ⟨ct₂, session, sl', he₂, hanswer⟩ := answers hP H.server_write_key (c := .await_reply tx _) rfl he hct
    have hlen₂ := hP.encrypt_length _ _ _ _ _ he₂
    have hprefix : REPLY_PREFIX.utf8ByteSize = 15 := by decide
    rw [as_bytes_length, String.utf8ByteSize_append, hprefix, TAG_LEN] at hlen₂
    have hfits := WireFrame.is_valid_payload_size_iff.1 hct
    rw [MAX_FRAME_SIZE] at hfits
    have hiff : WireFrame.is_valid_payload_size ct₂.length ↔ message.utf8ByteSize ≤ 65496 := by
      rw [WireFrame.is_valid_payload_size_iff, MAX_FRAME_SIZE]
      omega
    by_cases hct₂ : WireFrame.is_valid_payload_size ct₂.length
    · exact ⟨_, .of_moves (hsent.tail hanswer) (ends_of_answer hP _ _ _ _ he₂ hct₂), fun _ => rfl,
        fun hlt => absurd (hiff.1 hct₂) (Nat.not_le.2 hlt)⟩
    · obtain ⟨e, hend⟩ := ends_of_oversized _ _ _ _ _ hct₂ (by omega)
      exact ⟨_, .of_moves (hsent.tail hanswer) hend, expected_error (Nat.not_le.1 (mt hiff.2 hct₂))⟩
  · have hlong : 65496 < message.utf8ByteSize := by
      rw [WireFrame.is_valid_payload_size_iff, MAX_FRAME_SIZE] at hct
      omega
    obtain ⟨e, hend⟩ := ends_of_illegal _ _ _ _ _ hct client_seals
      (fun hle n hn => hun (by omega) n (hsent.trans hn))
    exact ⟨_, .of_moves hsent hend, expected_error hlong⟩

theorem client_stays {res : Except (Stop Error) String} (q : Side) {n : Net P} (h : n.client = .done res) :
    (turn P r message q n).client = .done res := by
  obtain ⟨c, s, toc, tos, cl, sl⟩ := n
  obtain rfl : c = .done res := h
  cases q with
  | client => rfl
  | server =>
    simp only [turn, serverTurn]
    split
    · rfl
    · split <;> rfl

end Net

/-- Under every fair order of turns the client comes to an end and stays there:
with its message behind the reply prefix if that is at most 65496 bytes long,
and with an error if it is longer. At no time has it ended with another text,
and what either side ends with is what its function returns. Only a message of
4 GiB, whose length field wraps, needs an AEAD that refuses what was not
encrypted. -/
theorem echo {P : Primitives} (hP : P.Correct) (r : Relay) (message : String)
    (hk : r.server_keys.public_key = P.x25519_public r.server_keys.private_key)
    (hp : r.client.prologue = r.prologue) (hs : r.client.server_pubkey = r.server_keys.public_key)
    {sched : Nat → Side} (hfair : Fair sched)
    (hun : 2 ^ 32 ≤ message.utf8ByteSize + 25 → ∀ n,
      Unforged (run (Net.turn P r message) sched (Net.start P) n).server_log
        (run (Net.turn P r message) sched (Net.start P) n).client_log) :
    (∃ n res, (∀ k, n ≤ k → (run (Net.turn P r message) sched (Net.start P) k).client = .done res) ∧
      (message.utf8ByteSize ≤ 65496 → res = .ok (REPLY_PREFIX ++ message)) ∧
      (65496 < message.utf8ByteSize → ∃ e, res = .error (.err e))) ∧
    (∀ n text, (run (Net.turn P r message) sched (Net.start P) n).client = .done (.ok text) →
      text = REPLY_PREFIX ++ message) ∧
    ∀ n, (run (Net.turn P r message) sched (Net.start P) n).Conforms P r message := by
  obtain ⟨res, ⟨n', hmoves, hrests, hclient⟩, hshort, hlong⟩ := Net.settles hP hk hp hs fun hle n hn => by
    obtain ⟨k, hk⟩ := hfair.reached hn
    rw [← hk]
    exact hun hle k
  obtain ⟨n, hn⟩ := hfair.settles hmoves hrests
  refine ⟨⟨n, res, fun k hk => by rw [hn k hk, hclient], hshort, hlong⟩, fun j text hj => ?_, fun j => ?_⟩
  · -- the client still has this result when the system has come to rest
    have hlast := run_inv (fun m : Net P => m.client = .done (.ok text)) (fun q _ h => Net.client_stays q h) hj
      (Nat.le_max_left j n)
    rw [hn _ (Nat.le_max_right j n), hclient] at hlast
    obtain rfl : res = .ok text := OneShot.done.inj hlast
    rcases Nat.lt_or_ge 65496 message.utf8ByteSize with hlt | hle
    · obtain ⟨e, he⟩ := hlong hlt
      cases he
    · exact Except.ok.inj (hshort hle)
  · have hf : Net.Following P r message (run (Net.turn P r message) sched (Net.start P) j) :=
      run_inv (Net.Following P r message) (fun q _ h => Net.following_turn q h) (n := 0) Net.following_start
        (Nat.zero_le j)
    exact hf.conforms

/-- The client and the server by turns. -/
def alternating (n : Nat) : Side := if n % 2 = 0 then .client else .server

theorem alternating_fair : Fair alternating := by
  intro p n
  rcases Nat.mod_two_eq_zero_or_one n with h | h
  · cases p with
    | client => exact ⟨0, by simp [alternating, h]⟩
    | server => exact ⟨1, by simp [alternating, Nat.add_mod, h]⟩
  · cases p with
    | client => exact ⟨1, by simp [alternating, Nat.add_mod, h]⟩
    | server => exact ⟨0, by simp [alternating, h]⟩

/-- The echo of a short message. -/
theorem echo_hei :
    ∃ n, ∀ k, n ≤ k → (run (Net.turn (Concrete.primitives true) (Concrete.relay PROTOCOL_NAME) "hei") alternating
      (Net.start _) k).client = .done (.ok "Server mottok: hei") := by
  obtain ⟨⟨n, res, hclient, hshort, -⟩, -⟩ := echo (Concrete.correct true) (Concrete.relay PROTOCOL_NAME) "hei" rfl rfl
    rfl alternating_fair (fun h => absurd h (by decide))
  have hres : res = .ok "Server mottok: hei" := hshort (by decide)
  exact ⟨n, fun k hk => by rw [hclient k hk, hres]⟩

end NoiseTunnel
