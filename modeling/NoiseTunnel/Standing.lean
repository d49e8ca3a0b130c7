import NoiseTunnel.Pairing
/-!
# Before and after the handshake

Every run of a session, whatever it is sent, is one of two things: it has not
come to its transport, or its log is that of a completed handshake followed by
what was sent and received under the keys of that handshake.
-/
open Rust Reactive Numbered

namespace NoiseTunnel

variable {P : Primitives} {log l : Log} {x : Session} {H : Completed P}

/-! ## Logs of handshakes -/

/-- Nothing was encrypted or decrypted in transport. -/
def Silent (log : Log) : Prop := sentPairs log = [] ∧ receivedPairs log = []

theorem Silent.append (h : Silent log) (hl : Silent l) : Silent (log ++ l) := by
  constructor
  · rw [sentPairs_append, h.1, hl.1, List.append_nil]
  · rw [receivedPairs_append, h.2, hl.2, List.append_nil]

/-- A handshake has effects of these kinds only. -/
def Effect.InHandshake : Effect → Prop
  | .sent .. | .received .. | .printed .. | .printed_stats .. => False
  | _ => True

theorem silent_of {α : Type} {x : Exec α} (h : x.Logs Effect.InHandshake) : Silent x.log := by
  constructor
  · apply List.filterMap_eq_nil_iff.2
    intro e he
    cases e with
    | sent t m => exact (h _ he).elim
    | _ => rfl
  · apply List.filterMap_eq_nil_iff.2
    intro e he
    cases e with
    | received t m => exact (h _ he).elim
    | _ => rfl

namespace Exec

theorem bail_if_in_handshake {cond : Prop} [Decidable cond] {e : Error} :
    (bail_if cond e).Logs Effect.InHandshake := by
  unfold bail_if
  split <;> exact Act.logs_nil _

theorem generate_in_handshake (secret : Key) : (generate P secret).Logs Effect.InHandshake := by
  simp [Act.Logs, Effect.InHandshake]

theorem hash_in_handshake (p : Bytes) (e s : Key) (r : Option Key) :
    (hash_handshake_state P p e s r).Logs Effect.InHandshake := by
  simp [Act.Logs, Effect.InHandshake]

theorem write_to_in_handshake (f : WireFrame) : (write_to f).Logs Effect.InHandshake := by
  simp [Act.Logs, Effect.InHandshake]

theorem derive_session_keys_in_handshake (ss hh : Bytes) :
    (derive_session_keys P ss hh).Logs Effect.InHandshake := by
  rcases derive_session_keys_cases P ss hh with ⟨kc, ks, -, -, he⟩ | ⟨e, he, -⟩ <;>
  · rw [he]
    simp [Act.Logs, derived, Effect.InHandshake]

theorem encrypt_in_handshake (c : CipherState) (msg aad : Bytes) : (encrypt P c msg aad).Logs Effect.InHandshake := by
  rcases encrypt_cases P c msg aad with ⟨ct, c', -, he⟩ | ⟨e, he, -⟩
  · rw [he]
    simp [Act.Logs, Effect.InHandshake]
  · rw [he]
    exact Act.logs_nil _

theorem decrypt_in_handshake (c : CipherState) (ct aad : Bytes) (n : UInt64) :
    (decrypt P c ct aad n).Logs Effect.InHandshake := by
  rcases decrypt_cases P c ct aad n with ⟨msg, c', -, he⟩ | ⟨s, he, -⟩
  · rw [he]
    simp [Act.Logs, Effect.InHandshake]
  · rw [he]
    exact Act.logs_nil _

end Exec

theorem start_handshake_logs (c : TunnelClient) (secret : Key) :
    (c.start_handshake P secret).Logs Effect.InHandshake := by
  unfold TunnelClient.start_handshake
  refine (Exec.generate_in_handshake _).bind fun e _ => ?_
  refine (Exec.hash_in_handshake _ _ _ _).bind fun h1 _ => ?_
  refine (Exec.derive_session_keys_in_handshake _ _).bind fun k _ => ?_
  refine (Exec.encrypt_in_handshake _ _ _).bind fun ct _ => ?_
  exact (Exec.write_to_in_handshake _).bind fun _ _ => Act.logs_nil _

theorem finish_handshake_logs (c : TunnelClient) (started : TunnelClient.Started P) (f : WireFrame) :
    (c.finish_handshake P started f).Logs Effect.InHandshake := by
  unfold TunnelClient.finish_handshake
  refine Exec.bail_if_in_handshake.bind fun _ _ => Exec.bail_if_in_handshake.bind fun _ _ => ?_
  refine Act.Logs.bind (Act.logs_nil _) fun p _ => ?_
  refine (Exec.hash_in_handshake _ _ _ _).bind fun h2 _ => ?_
  refine (Exec.derive_session_keys_in_handshake _ _).bind fun k _ => ?_
  refine (Exec.decrypt_in_handshake _ _ _ _).bind fun ack _ => Exec.bail_if_in_handshake.bind fun _ _ => ?_
  exact (Exec.derive_session_keys_in_handshake _ _).bind fun _ _ => Act.logs_nil _

theorem start_handshake_silent (c : TunnelClient) (secret : Key) : Silent (c.start_handshake P secret).log :=
  silent_of (start_handshake_logs c secret)

theorem finish_handshake_silent (c : TunnelClient) (started : TunnelClient.Started P) (f : WireFrame) :
    Silent (c.finish_handshake P started f).log := silent_of (finish_handshake_logs c started f)

theorem accept_handshake_silent (P : Primitives) (keys : KeyPair) (prologue : Bytes) (secret : Key) (f : WireFrame) :
    Silent (TunnelServer.accept_handshake P keys prologue secret f).log := by
  apply silent_of
  unfold TunnelServer.accept_handshake
  refine Exec.bail_if_in_handshake.bind fun _ _ => Exec.bail_if_in_handshake.bind fun _ _ => ?_
  refine Act.Logs.bind (Act.logs_nil _) fun p _ => ?_
  refine (Exec.hash_in_handshake _ _ _ _).bind fun h1 _ => ?_
  refine (Exec.derive_session_keys_in_handshake _ _).bind fun k _ => ?_
  refine (Exec.decrypt_in_handshake _ _ _ _).bind fun msg _ => ?_
  refine (Exec.generate_in_handshake _).bind fun e _ => ?_
  refine (Exec.hash_in_handshake _ _ _ _).bind fun h2 _ => ?_
  refine (Exec.derive_session_keys_in_handshake _ _).bind fun keys' _ => ?_
  refine (Exec.derive_session_keys_in_handshake _ _).bind fun k' _ => ?_
  refine (Exec.encrypt_in_handshake _ _ _).bind fun ct _ => ?_
  exact (Exec.write_to_in_handshake _).bind fun _ _ => Act.logs_nil _

/-! ## Completed sessions -/

namespace Session

def side : Session → Side
  | one_shot .. | interactive .. => .client
  | server .. => .server

def ephemeral (P : Primitives) (x : Session) : Key := P.x25519_public x.secret

/-- `v` holds what the session itself brings into the handshake. -/
def Sees (P : Primitives) : Session → View → Prop
  | one_shot client secret _, v | interactive client secret, v =>
    v.prologue = client.prologue ∧ v.client_ephemeral = P.x25519_public secret ∧ v.server_public = client.server_pubkey
  | server server_keys prologue secret, v =>
    v.prologue = prologue ∧ v.server_public = server_keys.public_key ∧ v.server_ephemeral = P.x25519_public secret

/-- The ephemeral key of the session's own side. -/
def own (x : Session) (v : View) : Key :=
  match x.side with
  | .client => v.client_ephemeral
  | .server => v.server_ephemeral

def write_key (x : Session) (H : Completed P) : Key :=
  match x.side with
  | .client => H.client_write_key
  | .server => H.server_write_key

def read_key (x : Session) (H : Completed P) : Key :=
  match x.side with
  | .client => H.server_write_key
  | .server => H.client_write_key

/-- The session has drawn its ephemeral key and derived the transport keys of the view `v`. -/
structure Completes (P : Primitives) (x : Session) (log : Log) (v : View) : Prop where
  sees : x.Sees P v
  generated : x.ephemeral P ∈ generated log
  hashed : v.second ∈ hashes log
  derived : ∃ ikm : Bytes, ikm.length = KEY_LEN * 2 ∧ (⟨v.h2 P, ikm, client_key_info⟩ : Expansion) ∈ expansions log ∧
    (⟨v.h2 P, ikm, server_key_info⟩ : Expansion) ∈ expansions log

theorem Sees.own {v : View} (h : x.Sees P v) : x.own v = x.ephemeral P := by
  cases x with
  | one_shot client secret message => exact h.2.1
  | interactive client secret => exact h.2.1
  | server server_keys prologue secret => exact h.2.2

end Session

namespace Completed

/-- How the transport keys are derived. -/
def client_expansion (H : Completed P) : Expansion :=
  ⟨H.view.h2 P, H.dh_static.val ++ H.dh_ephem.val, client_key_info⟩

def server_expansion (H : Completed P) : Expansion :=
  ⟨H.view.h2 P, H.dh_static.val ++ H.dh_ephem.val, server_key_info⟩

/-- The ciphers after the handshake: the one under the client's write key, and the one under the server's. -/
def ciphers (H : Completed P) : CipherState × CipherState :=
  (CipherState.new H.client_write_key, CipherState.new H.server_write_key)

theorem ikm_length (H : Completed P) : (H.dh_static.val ++ H.dh_ephem.val).length = KEY_LEN * 2 := by
  rw [List.length_append, H.dh_static.property, H.dh_ephem.property]
  rfl

end Completed

/-- The log of a session's completed handshake. -/
structure Handshaken (x : Session) (H : Completed P) (log : Log) : Prop where
  sees : x.Sees P H.view
  live : Live P (x.ephemeral P) x.slots.1 x.slots.2 log (CipherState.new (x.write_key H))
  hashed : H.view.second ∈ hashes log
  client_derived : H.client_expansion ∈ expansions log
  server_derived : H.server_expansion ∈ expansions log
  silent : Silent log

theorem Handshaken.completes (h : Handshaken x H log) : x.Completes P (log ++ l) H.view where
  sees := h.sees
  generated := by
    rw [generated_append]
    exact List.mem_append_left _ h.live.generated
  hashed := by
    rw [hashes_append]
    exact List.mem_append_left _ h.hashed
  derived := by
    refine ⟨_, H.ikm_length, ?_⟩
    rw [expansions_append]
    exact ⟨List.mem_append_left _ h.client_derived, List.mem_append_left _ h.server_derived⟩

theorem Handshaken.quiet (h : Handshaken x H log) (hl : Quiet l) : Handshaken x H (log ++ l) where
  sees := h.sees
  live := h.live.append hl.seals
  hashed := by
    rw [hashes_append]
    exact List.mem_append_left _ h.hashed
  client_derived := by
    rw [expansions_append]
    exact List.mem_append_left _ h.client_derived
  server_derived := by
    rw [expansions_append]
    exact List.mem_append_left _ h.server_derived
  silent := h.silent.append ⟨hl.sent, hl.received⟩

/-- A session before its transport: it has encrypted at most its part of the handshake. -/
def Early (P : Primitives) (x : Session) (log : Log) : Prop :=
  (∃ first, Spent P (x.ephemeral P) x.slots.1 x.slots.2 log first []) ∧ Silent log

theorem Early.append (h : Early P x log) (hl : seals l = []) (hs : Silent l) : Early P x (log ++ l) := by
  obtain ⟨⟨first, hfirst⟩, hsilent⟩ := h
  exact ⟨⟨first, hfirst.append hl⟩, hsilent.append hs⟩

theorem Early.of_nil (hl : seals log = []) (hs : Silent log) : Early P x log := by
  refine ⟨⟨[], ⟨hl, Nat.zero_le _, List.forall_mem_nil _, List.forall_mem_nil _, List.nodup_nil, ?_⟩⟩, hs⟩
  intro hne
  exact absurd hl hne

/-- A completed handshake, and then a transport log of which `I` holds. -/
def Established (P : Primitives) (x : Session) (I : Completed P → Log → Prop) (log : Log) : Prop :=
  ∃ H hs transport, log = hs ++ transport ∧ Handshaken x H hs ∧ I H transport

theorem Established.mono {I J : Completed P → Log → Prop} (h : Established P x I log) (hIJ : ∀ H l, I H l → J H l) :
    Established P x J log := by
  obtain ⟨H, hs, transport, hlog, hh, hi⟩ := h
  exact ⟨H, hs, transport, hlog, hh, hIJ H transport hi⟩

theorem Established.append {I J : Completed P → Log → Prop} (h : Established P x I log)
    (hIJ : ∀ H transport, I H transport → J H (transport ++ l)) : Established P x J (log ++ l) := by
  obtain ⟨H, hs, transport, rfl, hh, hi⟩ := h
  exact ⟨H, hs, transport ++ l, List.append_assoc .., hh, hIJ H transport hi⟩

theorem Handshaken.established {I : Completed P → Log → Prop} (h : Handshaken x H log) (hi : I H l) :
    Established P x I (log ++ l) := ⟨H, log, l, rfl, h, hi⟩

/-! ## The handshakes -/

/-- The sessions of the client `c` that draw `secret`. -/
inductive ClientOf (c : TunnelClient) (secret : Key) : Session → Prop
  | one_shot (message : String) : ClientOf c secret (.one_shot c secret message)
  | interactive : ClientOf c secret (.interactive c secret)

/-- The client's handshake is over: it is completed, or the transport is never reached. -/
theorem finish_handshake_stands {c : TunnelClient} {secret : Key} (hx : ClientOf c secret x) (dh : Key)
    (f : WireFrame) (hg : Greeted P (P.x25519_public secret) log) (hs : Silent log) :
    (∃ H : Completed P, (c.finish_handshake P ⟨EphemeralKeyPair.generate P secret, dh⟩ f).res =
        .ok (CipherState.new H.client_write_key, CipherState.new H.server_write_key) ∧
      Handshaken x H (log ++ (c.finish_handshake P ⟨EphemeralKeyPair.generate P secret, dh⟩ f).log)) ∨
    (∃ s, (c.finish_handshake P ⟨EphemeralKeyPair.generate P secret, dh⟩ f).res = .error s) ∧
      Early P x (log ++ (c.finish_handshake P ⟨EphemeralKeyPair.generate P secret, dh⟩ f).log) := by
  have hsilent := hs.append (finish_handshake_silent c ⟨EphemeralKeyPair.generate P secret, dh⟩ f)
  have hlive := finish_handshake_live c dh f hg
  rcases finish_handshake_cases P c ⟨EphemeralKeyPair.generate P secret, dh⟩ f with
    ⟨H, ct, -, -, -, hv, -, -, -, hf⟩ | ⟨s, hr, hl, -⟩
  · rw [hf] at hsilent hlive ⊢
    rcases hlive with ⟨tx, rx, hr, hlive⟩ | ⟨⟨s, hr⟩, -⟩
    · left
      cases hr
      have hhash : H.view.second ∈ hashes (finishLog H ct) := List.mem_cons_self
      have hclient : H.client_expansion ∈ expansions (finishLog H ct) := by
        simp [finishLog, expansions, derived, Completed.client_expansion]
      have hserver : H.server_expansion ∈ expansions (finishLog H ct) := by
        simp [finishLog, expansions, derived, Completed.server_expansion]
      refine ⟨H, rfl, ?_, ?_, ?_, ?_, ?_, hsilent⟩
      · cases hx <;> (rw [hv]; exact ⟨rfl, rfl, rfl⟩)
      · cases hx <;> exact hlive
      · rw [hashes_append]
        exact List.mem_append_right _ hhash
      · rw [expansions_append]
        exact List.mem_append_right _ hclient
      · rw [expansions_append]
        exact List.mem_append_right _ hserver
    · cases hr
  · right
    obtain ⟨⟨first, hfirst⟩, -⟩ := hg
    refine ⟨⟨s, hr⟩, ⟨first, ?_⟩, hsilent⟩
    cases hx <;> exact hfirst.append hl

theorem accept_handshake_stands (P : Primitives) (keys : KeyPair) (prologue : Bytes) (secret : Key) (f : WireFrame) :
    (∃ H : Completed P, (TunnelServer.accept_handshake P keys prologue secret f).res =
        .ok (CipherState.new H.client_write_key, CipherState.new H.server_write_key) ∧
      Handshaken (.server keys prologue secret) H (TunnelServer.accept_handshake P keys prologue secret f).log) ∨
    (∃ s, (TunnelServer.accept_handshake P keys prologue secret f).res = .error s) ∧
      Early P (.server keys prologue secret) (TunnelServer.accept_handshake P keys prologue secret f).log := by
  have hsilent := accept_handshake_silent P keys prologue secret f
  have hlive := accept_handshake_live P keys prologue secret f
  rcases accept_handshake_cases P keys prologue secret f with
    ⟨H, ki, cti, msg, ct, -, -, -, hv, -, -, -, -, -, hf⟩ | ⟨s, hr, hl, -⟩
  · rw [hf] at hsilent hlive ⊢
    rcases hlive with ⟨rx, tx, hr, hlive⟩ | ⟨⟨s, hr⟩, -⟩
    · left
      cases hr
      refine ⟨H, rfl, ?_, hlive, ?_, ?_, ?_, hsilent⟩
      · rw [hv]
        exact ⟨rfl, rfl, rfl⟩
      · simp [acceptLog, hashes]
      · simp [acceptLog, expansions, derived, Completed.client_expansion]
      · simp [acceptLog, expansions, derived, Completed.server_expansion]
    · cases hr
  · right
    exact ⟨⟨s, hr⟩, .of_nil hl hsilent⟩

/-! ## Whole sessions -/

/-- The transport log as the session's keys number it; a server has answered what it took in, in order. -/
def Transport (P : Primitives) (x : Session) (H : Completed P) (log : Log) : Prop :=
  Intact P (x.write_key H) (x.read_key H) log ∧
    (x.side = .server → sentPairs log <+: (receivedPairs log).map answered)

namespace OneShot

/-- The message has been sent; its cipher is now `tx`. -/
def Asked (H : Completed P) (message : String) (tx : CipherState) (log : Log) : Prop :=
  ∃ ct, (CipherState.new H.client_write_key).encrypt P (as_bytes message) TUNNEL_DATA = (tx, .ok ct) ∧
    log = sealedLog (CipherState.new H.client_write_key) .DataPayload (as_bytes message) TUNNEL_DATA ct

/-- And the answer `pt` has been taken in. -/
def Heard (H : Completed P) (message : String) (tx : CipherState) (pt : Bytes) (log : Log) : Prop :=
  ∃ l f rx, Asked H message tx l ∧ f.msg_type = .DataPayload ∧
    (CipherState.new H.server_write_key).decrypt P f.payload TUNNEL_DATA f.nonce = .ok (rx, .ok pt) ∧
    log = l ++ openedLog (CipherState.new H.server_write_key) f TUNNEL_DATA pt

/-- What the session does after its handshake, as far as it comes. -/
inductive Talks (H : Completed P) (message : String) : Log → Prop
  | silent : Talks H message []
  | asked {tx : CipherState} {log : Log} : Asked H message tx log → Talks H message log
  | heard {tx : CipherState} {pt : Bytes} {log : Log} : Heard H message tx pt log → Talks H message log
  | parted {tx : CipherState} {pt : Bytes} {log : Log} : Heard H message tx pt log →
      Talks H message (log ++ [.wrote ⟨.Close, tx.nonce, []⟩])

section
variable {message : String} {tx : CipherState} {pt : Bytes}

theorem Asked.carrying (h : Asked H message tx log) :
    Carrying P H.client_write_key H.server_write_key log tx (CipherState.new H.server_write_key) := by
  obtain ⟨ct, he, rfl⟩ := h
  exact (Carrying.start P _ _).seal .data he

theorem Asked.sent (h : Asked H message tx log) :
    sentPairs log = [(.DataPayload, as_bytes message)] ∧ receivedPairs log = [] := by
  obtain ⟨ct, -, rfl⟩ := h
  exact ⟨rfl, rfl⟩

theorem Heard.carrying (h : Heard H message tx pt log) :
    ∃ rx, Carrying P H.client_write_key H.server_write_key log tx rx := by
  obtain ⟨l, f, rx, ha, hf, hd, rfl⟩ := h
  have hc : Carries f.msg_type TUNNEL_DATA := hf ▸ .data
  exact ⟨rx, ha.carrying.opened hc hd⟩

theorem Heard.sent (h : Heard H message tx pt log) :
    sentPairs log = [(.DataPayload, as_bytes message)] ∧ receivedPairs log = [(.DataPayload, pt)] := by
  obtain ⟨l, f, rx, ha, hf, -, rfl⟩ := h
  obtain ⟨hsent, hreceived⟩ := ha.sent
  constructor
  · rw [sentPairs_append, hsent]
    rfl
  · rw [receivedPairs_append, hreceived]
    show [(f.msg_type, pt)] = _
    rw [hf]

theorem Talks.intact (h : Talks H message log) : Intact P H.client_write_key H.server_write_key log := by
  cases h with
  | silent => exact (Carrying.start P _ _).intact
  | asked h => exact h.carrying.intact
  | heard h =>
    obtain ⟨rx, hc⟩ := h.carrying
    exact hc.intact
  | parted h =>
    obtain ⟨rx, hc⟩ := h.carrying
    exact hc.intact.quiet (quiet_wrote _)

end

/-- What the session's log holds, by how far it has come. -/
def Standing (P : Primitives) (client : TunnelClient) (secret : Key) (message : String) : OneShot P → Log → Prop
  | idle, log => log = []
  | await_resp started, log =>
    started = ⟨EphemeralKeyPair.generate P secret, P.x25519 secret client.server_pubkey⟩ ∧
      Greeted P (P.x25519_public secret) log ∧ Silent log
  | await_reply tx_cipher rx_cipher, log =>
    Established P (.one_shot client secret message) (fun H transport =>
      Asked H message tx_cipher transport ∧ rx_cipher = CipherState.new H.server_write_key) log
  | done (.ok text), log =>
    Established P (.one_shot client secret message) (fun H transport =>
      ∃ tx pt l, Heard H message tx pt l ∧ transport = l ++ [.wrote ⟨.Close, tx.nonce, []⟩] ∧
        from_utf8 pt = some text) log
  | done (.error _), log =>
    Early P (.one_shot client secret message) log ∨
      Established P (.one_shot client secret message) (fun H transport => Talks H message transport) log

variable {client : TunnelClient} {secret : Key} {message : String} {s : OneShot P}

theorem standing_finish {dh : Key} {f : WireFrame} (hg : Greeted P (P.x25519_public secret) log) (hs : Silent log) :
    Standing P client secret message
      (step P client secret message (await_resp ⟨EphemeralKeyPair.generate P secret, dh⟩) (.frame f)).2
      (log ++ (step P client secret message (await_resp ⟨EphemeralKeyPair.generate P secret, dh⟩) (.frame f)).1) := by
  simp only [step, finish_and_send]
  rcases finish_handshake_stands (ClientOf.one_shot message) dh f hg hs with
    ⟨H, hr, hshaken⟩ | ⟨⟨err, hr⟩, hearly⟩
  · rw [Act.bind_of_ok hr]
    dsimp only
    rw [Act.bind_pure_map]
    rcases TunnelClient.send_message_cases P (CipherState.new H.client_write_key) message with
      ⟨ct, tx', he, hsend⟩ | ⟨err, hsend, -⟩
    · rw [hsend, settle_ok rfl, ← List.append_assoc]
      exact hshaken.established ⟨⟨ct, he, rfl⟩, rfl⟩
    · rw [hsend, settle_error rfl, ← List.append_assoc]
      exact .inr (hshaken.established .silent)
  · rw [Act.bind_of_error hr, settle_error rfl]
    exact .inl hearly

theorem standing_reply {tx rx : CipherState} {f : WireFrame}
    (h : Standing P client secret message (await_reply tx rx) log) :
    Standing P client secret message (step P client secret message (await_reply tx rx) (.frame f)).2
      (log ++ (step P client secret message (await_reply tx rx) (.frame f)).1) := by
  simp only [step]
  obtain ⟨H, hs, transport, rfl, hh, hasked, rfl⟩ := h
  rcases TunnelClient.read_reply_cases P tx (CipherState.new H.server_write_key) f with
    ⟨s, hr⟩ | ⟨pt, rx', hf, hd, ⟨-, hr⟩ | ⟨text, ht, hr⟩⟩
  · rw [hr, settle_error rfl, List.append_nil]
    exact .inr (hh.established (.asked hasked))
  · rw [hr, settle_error rfl, List.append_assoc]
    exact .inr (hh.established (.heard ⟨transport, f, rx', hasked, hf, hd, rfl⟩))
  · rw [hr, settle_ok rfl, List.append_assoc, ← List.append_assoc transport]
    exact hh.established ⟨tx, pt, _, ⟨transport, f, rx', hasked, hf, hd, rfl⟩, rfl, ht⟩

theorem standing_step (i : Input) (h : Standing P client secret message s log) :
    Standing P client secret message (step P client secret message s i).2
      (log ++ (step P client secret message s i).1) := by
  cases s with
  | idle =>
    obtain rfl : log = [] := h
    cases i with
    | connect =>
      simp only [step]
      have hsilent := start_handshake_silent (P := P) client secret
      rcases start_handshake_spends P client secret with ⟨hr, hg⟩ | ⟨⟨err, hr⟩, hl⟩
      · rw [settle_ok hr]
        exact ⟨rfl, hg, hsilent⟩
      · rw [settle_error hr]
        exact .inl (.of_nil hl hsilent)
    | broken err => exact .inl (.of_nil rfl ⟨rfl, rfl⟩)
    | frame _ | line _ | unwritten => exact rfl
  | await_resp started =>
    obtain ⟨rfl, hg, hs⟩ := h
    cases i with
    | frame f => exact standing_finish hg hs
    | broken _ | unwritten => exact .inl (Early.append ⟨hg.1, hs⟩ rfl ⟨rfl, rfl⟩)
    | connect => exact (List.append_nil log).symm ▸ ⟨rfl, hg, hs⟩
    | line l => exact (List.append_nil log).symm ▸ ⟨rfl, hg, hs⟩
  | await_reply tx rx =>
    cases i with
    | frame f => exact standing_reply h
    | broken _ | unwritten =>
      have h : Established P _ _ log := h
      exact .inr ((List.append_nil log).symm ▸ h.mono fun H transport ha => .asked ha.1)
    | connect => exact (List.append_nil log).symm ▸ h
    | line l => exact (List.append_nil log).symm ▸ h
  | done r => exact (List.append_nil log).symm ▸ h

/-- A run of the session is over before its transport, or does no more in it than its exchange. -/
theorem talks {s : (task P client secret message).State} (h : Runs (task P client secret message) s log) :
    Early P (.one_shot client secret message) log ∨
      Established P (.one_shot client secret message) (fun H transport => Talks H message transport) log := by
  have hstanding : Standing P client secret message s log :=
    h.inv (Standing P client secret message) rfl fun _ _ i hs => standing_step i hs
  cases s with
  | idle =>
    obtain rfl : log = [] := hstanding
    exact .inl (.of_nil rfl ⟨rfl, rfl⟩)
  | await_resp started =>
    obtain ⟨rfl, hg, hs⟩ := hstanding
    exact .inl ⟨hg.1, hs⟩
  | await_reply tx rx =>
    have hstanding : Established P _ _ log := hstanding
    exact .inr (hstanding.mono fun H transport ha => .asked ha.1)
  | done r =>
    cases r with
    | ok text =>
      have hstanding : Established P _ _ log := hstanding
      refine .inr (hstanding.mono fun H transport hs => ?_)
      obtain ⟨tx, pt, l, hheard, rfl, -⟩ := hs
      exact .parted hheard
    | error err => exact hstanding

end OneShot

namespace Interactive

def Standing (P : Primitives) (client : TunnelClient) (secret : Key) : Interactive P → Log → Prop
  | idle, log => log = []
  | await_resp started, log =>
    started = ⟨EphemeralKeyPair.generate P secret, P.x25519 secret client.server_pubkey⟩ ∧
      Greeted P (P.x25519_public secret) log ∧ Silent log
  | repl session w, log =>
    Established P (.interactive client secret) (fun H t =>
      Runs (resumed P client secret H.ciphers) (repl session w) t) log
  | done r, log =>
    Early P (.interactive client secret) log ∨ Established P (.interactive client secret) (fun H t =>
      Runs (resumed P client secret H.ciphers) (done r) t) log

variable {client : TunnelClient} {secret : Key} {s : Interactive P}

theorem carried_run {k k' : Key}
    (h : Runs (resumed P client secret (CipherState.new k, CipherState.new k')) s log) : Carried P k k' s log :=
  h.inv (Carried P k k') (Carrying.start P k k') fun _ _ i hs => carried_step i hs

theorem Standing.of_runs (h : Established P (.interactive client secret) (fun H t =>
    Runs (resumed P client secret H.ciphers) s t) log) : Standing P client secret s log := by
  cases s with
  | idle =>
    obtain ⟨H, hs, t, -, -, hr⟩ := h
    exact (carried_run hr).elim
  | await_resp started =>
    obtain ⟨H, hs, t, -, -, hr⟩ := h
    exact (carried_run hr).elim
  | repl session w => exact h
  | done r => exact .inr h

theorem standing_finish {dh : Key} {f : WireFrame} (hg : Greeted P (P.x25519_public secret) log) (hs : Silent log) :
    Standing P client secret (step P client secret (await_resp ⟨EphemeralKeyPair.generate P secret, dh⟩) (.frame f)).2
      (log ++ (step P client secret (await_resp ⟨EphemeralKeyPair.generate P secret, dh⟩) (.frame f)).1) := by
  simp only [step, finish_and_greet]
  rcases finish_handshake_stands ClientOf.interactive dh f hg hs with
    ⟨H, hr, hshaken⟩ | ⟨⟨err, hr⟩, hearly⟩
  · rw [Act.bind_of_ok hr, Exec.println_eq, Act.mk_ok_bind, settle_ok rfl]
    have hbanner := hshaken.quiet ((quiet_println banner).append .nil)
    rw [List.append_assoc] at hbanner
    exact ⟨H, _, [], (List.append_nil _).symm, hbanner, .nil⟩
  · rw [Act.bind_of_error hr, settle_error rfl]
    exact .inl hearly

theorem standing_step (i : Input) (h : Standing P client secret s log) :
    Standing P client secret (step P client secret s i).2 (log ++ (step P client secret s i).1) := by
  cases s with
  | idle =>
    obtain rfl : log = [] := h
    cases i with
    | connect =>
      simp only [step, Exec.println_eq, Act.mk_ok_bind]
      have hq := quiet_println ["Kobler til server på " ++ client.target_addr ++ " for interaktiv sesjon..."]
      have hsilent := Silent.append ⟨hq.sent, hq.received⟩ (start_handshake_silent (P := P) client secret)
      rcases start_handshake_spends P client secret with ⟨hr, ⟨first, hs⟩, hg⟩ | ⟨⟨err, hr⟩, hl⟩
      · simp only [settle, hr]
        refine ⟨rfl, ⟨⟨first, hs.prepend hq.seals⟩, ?_⟩, hsilent⟩
        rw [List.nil_append, generated_append]
        exact List.mem_append_right _ hg
      · simp only [settle, hr]
        exact .inl (.of_nil (by rw [List.nil_append, seals_append, hq.seals, hl]; rfl) hsilent)
    | broken err => exact .inl (.of_nil rfl ⟨rfl, rfl⟩)
    | frame _ | line _ | unwritten => exact rfl
  | await_resp started =>
    obtain ⟨rfl, hg, hs⟩ := h
    cases i with
    | frame f => exact standing_finish hg hs
    | broken _ | unwritten => exact .inl (Early.append ⟨hg.1, hs⟩ rfl ⟨rfl, rfl⟩)
    | connect => exact (List.append_nil log).symm ▸ ⟨rfl, hg, hs⟩
    | line l => exact (List.append_nil log).symm ▸ ⟨rfl, hg, hs⟩
  | repl session w =>
    have h : Established P _ _ log := h
    exact Standing.of_runs (h.append fun H t hr => hr.step i)
  | done r => exact (List.append_nil log).symm ▸ h

/-- A run of the session is over before the loop, or goes on as a run of the loop. -/
theorem splits (h : Runs (task P client secret) s log) :
    Early P (.interactive client secret) log ∨
      Established P (.interactive client secret) (fun H t => Runs (resumed P client secret H.ciphers) s t) log := by
  have hstanding := h.inv (Standing P client secret) rfl fun _ _ i hs => standing_step i hs
  cases s with
  | idle =>
    obtain rfl : log = [] := hstanding
    exact .inl (.of_nil rfl ⟨rfl, rfl⟩)
  | await_resp started =>
    obtain ⟨rfl, hg, hs⟩ := hstanding
    exact .inl ⟨hg.1, hs⟩
  | repl session w => exact .inr hstanding
  | done r => exact hstanding

end Interactive

namespace Serving

def Standing (P : Primitives) (keys : KeyPair) (prologue : Bytes) (secret : Key) : Serving → Log → Prop
  | await_init, log => log = []
  | transport session, log =>
    Established P (.server keys prologue secret) (fun H t =>
      Runs (resumed P keys prologue secret H.ciphers) (transport session) t) log
  | done r, log =>
    Early P (.server keys prologue secret) log ∨ Established P (.server keys prologue secret) (fun H t =>
      Runs (resumed P keys prologue secret H.ciphers) (done r) t) log

variable {keys : KeyPair} {prologue : Bytes} {secret : Key} {s : Serving}

theorem carried_run {k k' : Key}
    (h : Runs (resumed P keys prologue secret (CipherState.new k', CipherState.new k)) s log) : Carried P k k' s log :=
  h.inv (Carried P k k') (Carrying.start P k k') fun _ _ i hs => carried_step i hs

theorem Standing.of_runs (h : Established P (.server keys prologue secret) (fun H t =>
    Runs (resumed P keys prologue secret H.ciphers) s t) log) : Standing P keys prologue secret s log := by
  cases s with
  | await_init =>
    obtain ⟨H, hs, t, -, -, hr⟩ := h
    exact (carried_run hr).elim
  | transport session => exact h
  | done r => exact .inr h

theorem standing_step (i : Input) (h : Standing P keys prologue secret s log) :
    Standing P keys prologue secret (step P keys prologue secret s i).2 (log ++ (step P keys prologue secret s i).1) := by
  cases s with
  | await_init =>
    obtain rfl : log = [] := h
    cases i with
    | frame f =>
      simp only [step]
      rcases accept_handshake_stands P keys prologue secret f with ⟨H, hr, hshaken⟩ | ⟨⟨err, hr⟩, hearly⟩
      · rw [settle_ok hr]
        exact ⟨H, _, [], (List.append_nil _).symm, hshaken, .nil⟩
      · rw [settle_error hr]
        exact .inl hearly
    | broken err => exact .inl (.of_nil rfl ⟨rfl, rfl⟩)
    | connect | line _ | unwritten => exact rfl
  | transport session =>
    have h : Established P _ _ log := h
    exact Standing.of_runs (h.append fun H t hr => hr.step i)
  | done r => exact (List.append_nil log).symm ▸ h

theorem splits (h : Runs (task P keys prologue secret) s log) :
    Early P (.server keys prologue secret) log ∨
      Established P (.server keys prologue secret) (fun H t => Runs (resumed P keys prologue secret H.ciphers) s t) log := by
  have hstanding := h.inv (Standing P keys prologue secret) rfl fun _ _ i hs => standing_step i hs
  cases s with
  | await_init =>
    obtain rfl : log = [] := hstanding
    exact .inl (.of_nil rfl ⟨rfl, rfl⟩)
  | transport session => exact .inr hstanding
  | done r => exact hstanding

end Serving

/-- Every run of a session, whatever its inputs: it is still before its transport, or its log is a completed handshake
and then what was sent and received under its keys. -/
theorem Session.stands (x : Session) {s : (x.task P).State} (h : Runs (x.task P) s log) :
    Early P x log ∨ Established P x (Transport P x) log := by
  cases x with
  | one_shot client secret message =>
    exact (OneShot.talks h).imp_right fun ht => ht.mono fun H t ht => ⟨ht.intact, Side.noConfusion⟩
  | interactive client secret =>
    exact (Interactive.splits h).imp_right fun hr => hr.mono fun H t hr =>
      ⟨Interactive.intact_run hr, Side.noConfusion⟩
  | server keys prologue secret =>
    exact (Serving.splits h).imp_right fun hr => hr.mono fun H t hr =>
      ⟨Serving.intact_run hr, fun _ => Serving.answers_run hr⟩

end NoiseTunnel
