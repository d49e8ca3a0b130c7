import NoiseTunnel.Codec
import NoiseTunnel.Completed
import NoiseTunnel.Concrete
/-!
# Agreement

A handshake relayed unchanged succeeds exactly when the two sides are
configured alike, and then both hold the same keys. Under an attacker, equal
transport keys still mean equal views.
-/
open Rust

namespace NoiseTunnel

/-! ## Streams -/

theorem read_from_serialize {f : WireFrame} (h : WireFrame.is_valid_payload_size f.payload.length) (rest : Bytes) :
    WireFrame.read_from (f.serialize ++ rest) = .ok (f, rest) := WireFrame.read_from_eq_ok.2 ⟨h, rfl⟩

/-- Handshake payloads are far below the limit. -/
theorem valid_handshake_payload {P : Primitives} (hP : P.Correct) {k e : Key} {n : Nonce} {msg aad ct : Bytes}
    (h : P.aead_encrypt k n msg aad = some ct) (hm : msg.length ≤ 100) :
    WireFrame.is_valid_payload_size (e.val ++ ct).length := by
  have hl := hP.encrypt_length _ _ _ _ _ h
  have he : e.val.length = 32 := e.property
  rw [WireFrame.is_valid_payload_size_iff, List.length_append, he, hl, MAX_FRAME_SIZE, TAG_LEN]
  omega

section
variable {P : Primitives} {c : TunnelClient} {secret : Key} {l : Log} {started : TunnelClient.Started P}
  {stream rest : Bytes} {f : WireFrame}

theorem perform_handshake_eof {s : Stop Error} (h : c.start_handshake P secret = ⟨l, .ok started⟩)
    (hr : WireFrame.read_from stream = .error s) : c.perform_handshake P secret stream = ⟨l, .error s⟩ := by
  rw [TunnelClient.perform_handshake, h, Act.mk_ok_bind, hr]
  simp

theorem perform_handshake_read (h : c.start_handshake P secret = ⟨l, .ok started⟩)
    (hr : WireFrame.read_from stream = .ok (f, rest)) :
    c.perform_handshake P secret stream =
      ⟨l ++ (c.finish_handshake P started f).log, (c.finish_handshake P started f).res.map (·, rest)⟩ := by
  rw [TunnelClient.perform_handshake, h, Act.mk_ok_bind, hr]
  simp only [Act.liftM_eq, Act.lift_ok_bind, Act.bind_pure_map]

theorem receive_handshake_read {keys : KeyPair} {prologue : Bytes} (hr : WireFrame.read_from stream = .ok (f, rest)) :
    TunnelServer.receive_handshake P keys prologue secret stream =
      ⟨(TunnelServer.accept_handshake P keys prologue secret f).log,
        (TunnelServer.accept_handshake P keys prologue secret f).res.map (·, rest)⟩ := by
  rw [TunnelServer.receive_handshake, hr]
  simp only [Act.liftM_eq, Act.lift_ok_bind, Act.bind_pure_map]

end

/-! ## A relayed handshake -/

/-- Two parties whose messages are passed on unchanged. -/
structure Relay where
  client : TunnelClient
  client_secret : Key
  server_keys : KeyPair
  prologue : Bytes
  server_secret : Key

namespace Relay

variable (P : Primitives) (r : Relay)

/-- The server's run, on what the client writes before it reads anything. -/
def serverRun : Exec ((CipherState × CipherState) × Bytes) :=
  TunnelServer.receive_handshake P r.server_keys r.prologue r.server_secret
    (written (r.client.perform_handshake P r.client_secret []).log)

/-- The client's run, on what the server writes. -/
def clientRun : Exec ((CipherState × CipherState) × Bytes) :=
  r.client.perform_handshake P r.client_secret (written (r.serverRun P).log)

def log : Log := (r.clientRun P).log ++ (r.serverRun P).log

/-- The client's view, if it accepts the server's ephemeral key. -/
def clientView : View :=
  ⟨r.client.prologue, P.x25519_public r.client_secret, r.client.server_pubkey, P.x25519_public r.server_secret⟩

variable {P} {r}

/-- The client's first message reaches the server. -/
theorem serverRun_of {t ct : Bytes} {dh k : Key} {started : TunnelClient.Started P}
    (hstart : r.client.start_handshake P r.client_secret =
      ⟨initLog P (P.x25519_public r.client_secret) t dh k ct, .ok started⟩)
    (hv : WireFrame.is_valid_payload_size (initFrame (P.x25519_public r.client_secret) ct).payload.length) :
    r.serverRun P =
      ⟨(TunnelServer.accept_handshake P r.server_keys r.prologue r.server_secret
          (initFrame (P.x25519_public r.client_secret) ct)).log,
        (TunnelServer.accept_handshake P r.server_keys r.prologue r.server_secret
          (initFrame (P.x25519_public r.client_secret) ct)).res.map (·, [])⟩ := by
  have hr := read_from_serialize hv []
  rw [List.append_nil] at hr
  rw [serverRun, perform_handshake_eof hstart WireFrame.read_from_nil, written_initLog, receive_handshake_read hr]

variable (P r) in
/-- What the client waits with. -/
def started : TunnelClient.Started P :=
  ⟨EphemeralKeyPair.generate P r.client_secret, P.x25519 r.client_secret r.client.server_pubkey⟩

/-- The client starts, and its first frame is legal. -/
theorem starts (hP : P.Correct) :
    ∃ k ct, P.hkdf ((r.clientView P).h1 P) (r.started P).dh_static.val client_key_info = some k ∧
      P.aead_encrypt k (CipherState.build_nonce 0) HANDSHAKE_INIT_CLIENT ((r.clientView P).h1 P) = some ct ∧
      r.client.start_handshake P r.client_secret =
        ⟨initLog P (P.x25519_public r.client_secret) (r.clientView P).first (r.started P).dh_static k ct,
          .ok (r.started P)⟩ ∧
      WireFrame.is_valid_payload_size (initFrame (P.x25519_public r.client_secret) ct).payload.length := by
  rcases start_handshake_cases P r.client r.client_secret rfl rfl rfl with ⟨k, ct, hk, hct, hs⟩ | ⟨s, -, h⟩
  · exact ⟨k, ct, hk, hct, hs, valid_handshake_payload hP (e := P.x25519_public r.client_secret) hct (by decide)⟩
  · exact absurd hP h

/-- Configured alike, the two sides take each other's messages and end with the
keys of one completed handshake. -/
theorem completes (hP : P.Correct) (hk : r.server_keys.public_key = P.x25519_public r.server_keys.private_key)
    (hp : r.client.prologue = r.prologue) (hs : r.client.server_pubkey = r.server_keys.public_key) :
    ∃ (H : Completed P) (k : Key) (ct ct₂ : Bytes),
      r.client.start_handshake P r.client_secret =
        ⟨initLog P (P.x25519_public r.client_secret) (r.clientView P).first (r.started P).dh_static k ct,
          .ok (r.started P)⟩ ∧
      WireFrame.is_valid_payload_size (initFrame (P.x25519_public r.client_secret) ct).payload.length ∧
      TunnelServer.accept_handshake P r.server_keys r.prologue r.server_secret
          (initFrame (P.x25519_public r.client_secret) ct) =
        ⟨acceptLog H k ct HANDSHAKE_INIT_CLIENT ct₂,
          .ok (CipherState.new H.client_write_key, CipherState.new H.server_write_key)⟩ ∧
      WireFrame.is_valid_payload_size (respFrame H.view.server_ephemeral ct₂).payload.length ∧
      r.client.finish_handshake P (r.started P) (respFrame H.view.server_ephemeral ct₂) =
        ⟨finishLog H ct₂, .ok (CipherState.new H.client_write_key, CipherState.new H.server_write_key)⟩ := by
  obtain ⟨k, ct, hk₁, hct, hstart, hvalid⟩ := r.starts hP
  -- both compute DH(e_c, s_s) and DH(e_c, e_s)
  have hdhs : P.x25519 r.client_secret r.client.server_pubkey =
      P.x25519 r.server_keys.private_key (P.x25519_public r.client_secret) := by rw [hs, hk, hP.dh_comm]
  have hdhe : P.x25519 r.client_secret (P.x25519_public r.server_secret) =
      P.x25519 r.server_secret (P.x25519_public r.client_secret) := hP.dh_comm _ _
  obtain ⟨H, hv, hHs, hHe⟩ := Completed.exists_of hP (r.clientView P)
    (P.x25519 r.client_secret r.client.server_pubkey) (P.x25519 r.client_secret (P.x25519_public r.server_secret))
  obtain ⟨ct₂, hct₂⟩ := hP.encrypt_some H.k_resp_s (CipherState.build_nonce 0) HANDSHAKE_COMPLETE_ACK (H.view.h2 P)
    (by decide)
  have hl := hP.encrypt_length _ _ _ _ _ hct
  have hl₂ := hP.encrypt_length _ _ _ _ _ hct₂
  refine ⟨H, k, ct, ct₂, hstart, hvalid, ?_, ?_, ?_⟩
  · exact accept_handshake_of P hP H rfl (by rw [hv]; rfl) (by rw [hl, TAG_LEN]; omega) (by rw [hv, ← hp, ← hs]; rfl)
      (by rw [hHs, hv, hdhs]; rfl) (by rw [hHe, hv, hdhe]; rfl) (by rw [hHs, hv]; exact hk₁)
      (by rw [hv]; exact hP.decrypt_encrypt _ _ _ _ _ hct) hct₂
  · exact valid_handshake_payload hP (e := H.view.server_ephemeral) hct₂ (by decide)
  · exact finish_handshake_of P _ _ _ hP H rfl rfl (by rw [hl₂, TAG_LEN]; omega) (by rw [hv]; rfl) hHs
      (by rw [hHe, hv]; rfl) (hP.decrypt_encrypt _ _ _ _ _ hct₂)

theorem agree (hP : P.Correct) (hk : r.server_keys.public_key = P.x25519_public r.server_keys.private_key)
    (hp : r.client.prologue = r.prologue) (hs : r.client.server_pubkey = r.server_keys.public_key) :
    ∃ H : Completed P, (r.serverRun P).res =
        .ok ((CipherState.new H.client_write_key, CipherState.new H.server_write_key), []) ∧
      (r.clientRun P).res = .ok ((CipherState.new H.client_write_key, CipherState.new H.server_write_key), []) := by
  obtain ⟨H, k, ct, ct₂, hstart, hvalid, hacc, hvalid₂, hfinish⟩ := r.completes hP hk hp hs
  have hserver := serverRun_of hstart hvalid
  have hr := read_from_serialize hvalid₂ []
  rw [List.append_nil] at hr
  refine ⟨H, by rw [hserver, hacc]; rfl, ?_⟩
  rw [clientRun, hserver, hacc, written_acceptLog, perform_handshake_read hstart hr, hfinish]
  rfl

/-- A client that completes the handshake is configured as the server is: the
server has opened its first message, and so hashed the same transcript. -/
theorem configured_alike (hP : P.Correct) (hcol : NoCollision P (r.log P)) (hbind : Binding (r.log P))
    {x : (CipherState × CipherState) × Bytes} (h : (r.clientRun P).res = .ok x) :
    r.client.prologue = r.prologue ∧ r.client.server_pubkey = r.server_keys.public_key := by
  obtain ⟨k, ct, -, hct, hstart, hvalid⟩ := r.starts hP
  have hslog : (r.serverRun P).log = _ := congrArg Act.log (serverRun_of hstart hvalid)
  dsimp only at hslog
  rcases accept_handshake_cases P r.server_keys r.prologue r.server_secret
      (initFrame (P.x25519_public r.client_secret) ct) with
    ⟨H, ki, cti, msg, ct₂, -, hp, -, hv, -, -, -, -, -, hacc⟩ | ⟨s, -, -, hf⟩
  · rw [hacc] at hslog
    -- the server took the client's key and ciphertext off the frame
    obtain ⟨he, rfl⟩ := List.append_inj hp ((P.x25519_public r.client_secret).property.trans
      H.view.client_ephemeral.property.symm)
    have hclog : ∃ l, (r.clientRun P).log = initLog P (P.x25519_public r.client_secret) (r.clientView P).first
        (r.started P).dh_static k ct ++ l := by
      cases hr : WireFrame.read_from (written (r.serverRun P).log) with
      | error s => exact ⟨[], by rw [clientRun, perform_handshake_eof hstart hr, List.append_nil]⟩
      | ok y => exact ⟨_, by rw [clientRun, perform_handshake_read hstart hr]⟩
    obtain ⟨l, hclog⟩ := hclog
    have hsealed : (⟨k, 0, (r.clientView P).h1 P, HANDSHAKE_INIT_CLIENT, ct⟩ : Seal) ∈ seals (r.log P) := by
      simp [log, hclog, initLog, seals, View.h1]
    have hopened : (⟨ki, 0, H.view.h1 P, msg, ct⟩ : Seal) ∈ opens (r.log P) := by
      simp [log, hslog, acceptLog, opens]
    have hcview : (r.clientView P).first ∈ hashes (r.log P) := by
      simp [log, hclog, initLog, startLog, hashes]
    have hsview : H.view.first ∈ hashes (r.log P) := by
      simp [log, hslog, acceptLog, hashes]
    have haad : H.view.h1 P = (r.clientView P).h1 P := (hbind _ hopened _ hsealed rfl).2.2
    have hfirst := hcol.eq hsview hcview haad
    obtain ⟨h₁, -, h₃⟩ := View.first_inj hfirst
    rw [hv] at h₁ h₃
    exact ⟨h₁.symm, h₃.symm⟩
  · -- a server that fails writes nothing
    have hw : written (r.serverRun P).log = [] := by rw [hslog, written, hf]; rfl
    rw [clientRun, hw, perform_handshake_eof hstart WireFrame.read_from_nil] at h
    cases h

end Relay

/-- With its messages relayed unchanged, the client's handshake succeeds
exactly when both sides have the same prologue and the same server key, and
then each side sends under the key the other receives under, from nonce 0. -/
theorem handshake_agreement {P : Primitives} (hP : P.Correct) (r : Relay)
    (hk : r.server_keys.public_key = P.x25519_public r.server_keys.private_key)
    (hcol : NoCollision P (r.log P)) (hbind : Binding (r.log P)) :
    ((∃ x, (r.clientRun P).res = .ok x) ↔
      r.client.prologue = r.prologue ∧ r.client.server_pubkey = r.server_keys.public_key) ∧
    ∀ tx rx rest, (r.clientRun P).res = .ok ((tx, rx), rest) →
      ∃ server_rx server_tx rest', (r.serverRun P).res = .ok ((server_rx, server_tx), rest') ∧
        tx.key = server_rx.key ∧ rx.key = server_tx.key ∧
        tx.nonce = 0 ∧ rx.nonce = 0 ∧ server_rx.nonce = 0 ∧ server_tx.nonce = 0 := by
  refine ⟨⟨fun ⟨x, h⟩ => r.configured_alike hP hcol hbind h, fun ⟨hp, hs⟩ => ?_⟩, fun tx rx rest h => ?_⟩
  · obtain ⟨H, -, hc⟩ := r.agree hP hk hp hs
    exact ⟨_, hc⟩
  · obtain ⟨hp, hs⟩ := r.configured_alike hP hcol hbind h
    obtain ⟨H, hserver, hclient⟩ := r.agree hP hk hp hs
    rw [hclient] at h
    cases h
    exact ⟨_, _, _, hserver, rfl, rfl, rfl, rfl, rfl, rfl⟩

/-- A server and a client of it that uses `prologue`. -/
def Concrete.relay (prologue : Bytes) : Relay where
  client := (TunnelClient.new (KeyPair.from_private_bytes (primitives true) (key 11)).public_key "127.0.0.1:8080").with_prologue prologue
  client_secret := key 21
  server_keys := KeyPair.from_private_bytes (primitives true) (key 11)
  prologue := PROTOCOL_NAME
  server_secret := key 31

/-- The default prologue connects and another does not. -/
theorem handshake_agreement_prologues :
    (∃ x, ((Concrete.relay PROTOCOL_NAME).clientRun (Concrete.primitives true)).res = .ok x) ∧
      ¬∃ x, ((Concrete.relay (as_bytes "annen_app")).clientRun (Concrete.primitives true)).res = .ok x :=
  ⟨(handshake_agreement (Concrete.correct true) (Concrete.relay PROTOCOL_NAME) rfl (by decide +kernel)
      (by decide +kernel)).1.2 ⟨rfl, rfl⟩,
    mt (handshake_agreement (Concrete.correct true) (Concrete.relay (as_bytes "annen_app")) rfl (by decide +kernel)
      (by decide +kernel)).1.1 (fun h => absurd h.1 (by decide))⟩

/-! ## Any two sessions -/

/-- A session of either side, with every byte it is sent. -/
inductive Endpoint where
  | client (config : TunnelClient) (secret : Key) (stream : Bytes)
  | server (server_keys : KeyPair) (prologue : Bytes) (secret : Key) (stream : Bytes)

/-- The key that opens the first frame of a stream. -/
def peer_key (stream : Bytes) : Key :=
  match WireFrame.read_from stream with
  | .ok (f, _) => as_key f.payload
  | .error _ => as_key []

namespace Endpoint

variable (P : Primitives)

/-- The handshake: the cipher under the client's write key, and the one under the server's. -/
def run : Endpoint → Exec ((CipherState × CipherState) × Bytes)
  | client config secret stream => config.perform_handshake P secret stream
  | server server_keys prologue secret stream => TunnelServer.receive_handshake P server_keys prologue secret stream

def view : Endpoint → View
  | client config secret stream =>
    ⟨config.prologue, P.x25519_public secret, config.server_pubkey, peer_key stream⟩
  | server server_keys prologue secret stream =>
    ⟨prologue, peer_key stream, server_keys.public_key, P.x25519_public secret⟩

variable {P}

theorem peer_key_eq {stream rest ct : Bytes} {f : WireFrame} {e : Key}
    (hr : WireFrame.read_from stream = .ok (f, rest)) (hp : f.payload = e.val ++ ct) : peer_key stream = e := by
  simp only [peer_key, hr, hp, as_key_append]

/-- A session that ends its handshake has completed it with its own view, and
has hashed that view and derived both keys. -/
theorem completes {x : Endpoint} {tx rx : CipherState} {rest : Bytes} (h : (x.run P).res = .ok ((tx, rx), rest)) :
    ∃ H : Completed P, H.view = x.view P ∧ tx.key = H.client_write_key ∧ rx.key = H.server_write_key ∧
      H.view.second ∈ hashes (x.run P).log ∧
      ⟨H.view.h2 P, H.dh_static.val ++ H.dh_ephem.val, client_key_info⟩ ∈ expansions (x.run P).log ∧
      ⟨H.view.h2 P, H.dh_static.val ++ H.dh_ephem.val, server_key_info⟩ ∈ expansions (x.run P).log := by
  cases x with
  | client c secret stream =>
    simp only [run] at h ⊢
    rcases start_handshake_cases P c secret rfl rfl rfl with ⟨k, ct, -, -, hs⟩ | ⟨s, hs, -⟩
    swap
    · rw [TunnelClient.perform_handshake, hs] at h
      cases h
    cases hr : WireFrame.read_from stream with
    | error s =>
      rw [perform_handshake_eof hs hr] at h
      cases h
    | ok y =>
      obtain ⟨f, rest'⟩ := y
      rw [perform_handshake_read hs hr] at h ⊢
      rcases finish_handshake_cases P c ⟨EphemeralKeyPair.generate P secret, P.x25519 secret c.server_pubkey⟩ f with
        ⟨H, ct', -, hp, -, hv, -, -, -, hf⟩ | ⟨s, hf, -, -⟩
      · rw [hf] at h ⊢
        cases h
        refine ⟨H, by rw [hv, view, peer_key_eq hr hp]; rfl, rfl, rfl, ?_⟩
        simp [finishLog, hashes, expansions, derived]
      · simp only [hf] at h
        cases h
  | server keys prologue secret stream =>
    simp only [run] at h ⊢
    cases hr : WireFrame.read_from stream with
    | error s =>
      rw [TunnelServer.receive_handshake, hr] at h
      cases h
    | ok y =>
      obtain ⟨f, rest'⟩ := y
      rw [receive_handshake_read hr] at h ⊢
      rcases accept_handshake_cases P keys prologue secret f with
        ⟨H, ki, cti, msg, ct, -, hp, -, hv, -, -, -, -, -, hf⟩ | ⟨s, hf, -, -⟩
      · rw [hf] at h ⊢
        cases h
        refine ⟨H, by rw [hv, view, peer_key_eq hr hp], rfl, rfl, ?_⟩
        simp [acceptLog, hashes, expansions, derived]
      · simp only [hf] at h
        cases h

end Endpoint

/-- Two sessions that share a transport key have the same view. A key that one
session's client writes under is none that a server writes under, so no
session opens a ciphertext sealed for the other direction. -/
theorem matching_keys {P : Primitives} {a b : Endpoint} {aw ar bw br : CipherState} {rest rest' : Bytes}
    (ha : (a.run P).res = .ok ((aw, ar), rest)) (hb : (b.run P).res = .ok ((bw, br), rest'))
    (hcol : NoCollision P ((a.run P).log ++ (b.run P).log)) (hkdf : KdfInjective P ((a.run P).log ++ (b.run P).log)) :
    (aw.key = bw.key ∨ ar.key = br.key → a.view P = b.view P) ∧ aw.key ≠ br.key ∧ ar.key ≠ bw.key ∧
    ∀ log, Binding log → ∀ s ∈ seals log, ∀ o ∈ opens log, o.ct = s.ct →
      ¬(s.key = aw.key ∧ o.key = br.key) ∧ ¬(s.key = ar.key ∧ o.key = bw.key) := by
  obtain ⟨H, hHv, haw, har, hHh, hHc, hHs⟩ := Endpoint.completes ha
  obtain ⟨K, hKv, hbw, hbr, hKh, hKc, hKs⟩ := Endpoint.completes hb
  have inl {x} (h : x ∈ expansions (a.run P).log) : x ∈ expansions ((a.run P).log ++ (b.run P).log) := by
    rw [expansions_append]
    exact List.mem_append_left _ h
  have inr {x} (h : x ∈ expansions (b.run P).log) : x ∈ expansions ((a.run P).log ++ (b.run P).log) := by
    rw [expansions_append]
    exact List.mem_append_right _ h
  -- the label keeps the two directions apart
  have hne : aw.key ≠ br.key ∧ ar.key ≠ bw.key := by
    constructor
    · intro he
      rw [haw, hbr] at he
      have hx := hkdf.eq (inl hHc) (inr hKs) H.client_eq (he ▸ K.server_eq)
      exact client_key_info_ne (congrArg Expansion.info hx)
    · intro he
      rw [har, hbw] at he
      have hx := hkdf.eq (inl hHs) (inr hKc) H.server_eq (he ▸ K.client_eq)
      exact client_key_info_ne (congrArg Expansion.info hx).symm
  refine ⟨fun he => ?_, hne.1, hne.2, fun log hbind s hs o ho hct => ?_⟩
  · -- the salt is the hash of the view
    have hsalt : H.view.h2 P = K.view.h2 P := by
      rcases he with he | he
      · rw [haw, hbw] at he
        exact congrArg Expansion.salt (hkdf.eq (inl hHc) (inr hKc) H.client_eq (he ▸ K.client_eq))
      · rw [har, hbr] at he
        exact congrArg Expansion.salt (hkdf.eq (inl hHs) (inr hKs) H.server_eq (he ▸ K.server_eq))
    have hsecond := hcol.eq (by rw [hashes_append]; exact List.mem_append_left _ hHh)
      (by rw [hashes_append]; exact List.mem_append_right _ hKh) hsalt
    rw [← hHv, ← hKv]
    exact View.second_inj hsecond
  · have hkey := (hbind o ho s hs hct).1
    exact ⟨fun ⟨h₁, h₂⟩ => hne.1 (by rw [← h₁, ← h₂, hkey]), fun ⟨h₁, h₂⟩ => hne.2 (by rw [← h₁, ← h₂, hkey])⟩

namespace Relay

variable (P : Primitives) (r : Relay)

def clientEnd : Endpoint := .client r.client r.client_secret (written (r.serverRun P).log)

def serverEnd : Endpoint :=
  .server r.server_keys r.prologue r.server_secret (written (r.client.perform_handshake P r.client_secret []).log)

theorem ends_agree (hP : P.Correct) (hk : r.server_keys.public_key = P.x25519_public r.server_keys.private_key)
    (hp : r.client.prologue = r.prologue) (hs : r.client.server_pubkey = r.server_keys.public_key) :
    ∃ kc kw, ((r.clientEnd P).run P).res = .ok ((kc, kw), []) ∧ ((r.serverEnd P).run P).res = .ok ((kc, kw), []) := by
  obtain ⟨H, hserver, hclient⟩ := r.agree hP hk hp hs
  exact ⟨_, _, hclient, hserver⟩

end Relay

/-- The two ends of a relayed handshake. -/
theorem matching_keys_relayed :
    ((Concrete.relay PROTOCOL_NAME).clientEnd (Concrete.primitives true)).view (Concrete.primitives true) =
      ((Concrete.relay PROTOCOL_NAME).serverEnd (Concrete.primitives true)).view (Concrete.primitives true) := by
  obtain ⟨kc, kw, hc, hs⟩ := (Concrete.relay PROTOCOL_NAME).ends_agree (Concrete.primitives true)
    (Concrete.correct true) rfl rfl rfl
  exact (matching_keys hc hs (by decide +kernel) (by decide +kernel)).1 (.inl rfl)

end NoiseTunnel
