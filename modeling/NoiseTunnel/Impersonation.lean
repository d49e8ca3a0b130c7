import NoiseTunnel.Agreement
/-!
# Who can answer a client

The key of the server's answer comes from the ephemeral keys alone. Whoever
sees the client's first frame can so compute an answer that the client takes
for the server's.
-/
open Rust

namespace NoiseTunnel

/-! ## What an attacker computes -/

/-- A computation on public bytes and the attacker's own secret. The only
constants are the protocol's own strings. -/
inductive Recipe where
  | prologue
  | server_pubkey
  | init_payload
  | own_secret
  | client_key_info
  | server_key_info
  | handshake_init_client
  | handshake_complete_ack
  | append (a b : Recipe)
  | take (n : Nat) (a : Recipe)
  | drop (n : Nat) (a : Recipe)
  | sha256 (a : Recipe)
  | hkdf (salt ikm info : Recipe)
  | aead_encrypt (key : Recipe) (counter : UInt64) (msg aad : Recipe)
  | aead_decrypt (key : Recipe) (counter : UInt64) (msg aad : Recipe)
  | x25519_public (secret : Recipe)
  | x25519 (secret peer : Recipe)

/-- What anyone on the path of a client knows: its configuration and its first frame. -/
structure Public where
  prologue : Bytes
  server_pubkey : Key
  init_frame : WireFrame

/-- Where a primitive fails, nothing is computed. -/
def Recipe.eval (P : Primitives) (pub : Public) (own : Key) : Recipe → Bytes
  | prologue => pub.prologue
  | server_pubkey => pub.server_pubkey.val
  | init_payload => pub.init_frame.payload
  | own_secret => own.val
  | client_key_info => NoiseTunnel.client_key_info
  | server_key_info => NoiseTunnel.server_key_info
  | handshake_init_client => HANDSHAKE_INIT_CLIENT
  | handshake_complete_ack => HANDSHAKE_COMPLETE_ACK
  | append a b => a.eval P pub own ++ b.eval P pub own
  | take n a => (a.eval P pub own).take n
  | drop n a => (a.eval P pub own).drop n
  | sha256 a => (P.sha256 (a.eval P pub own)).val
  | hkdf salt ikm info =>
    ((P.hkdf (salt.eval P pub own) (ikm.eval P pub own) (info.eval P pub own)).map Subtype.val).getD []
  | aead_encrypt key counter msg aad =>
    (P.aead_encrypt (as_key (key.eval P pub own)) (CipherState.build_nonce counter) (msg.eval P pub own)
      (aad.eval P pub own)).getD []
  | aead_decrypt key counter msg aad =>
    (P.aead_decrypt (as_key (key.eval P pub own)) (CipherState.build_nonce counter) (msg.eval P pub own)
      (aad.eval P pub own)).getD []
  | x25519_public secret => (P.x25519_public (as_key (secret.eval P pub own))).val
  | x25519 secret peer => (P.x25519 (as_key (secret.eval P pub own)) (as_key (peer.eval P pub own))).val

/-! ## Authentication of the server -/

/-- What a client puts on the network before it reads anything. -/
def observe (P : Primitives) (client : TunnelClient) (secret : Key) : Public where
  prologue := client.prologue
  server_pubkey := client.server_pubkey
  init_frame := (frames (client.start_handshake P secret).log).headD ⟨.HandshakeInit, 0, []⟩

/-- The answer an attacker makes by `r`. -/
def Recipe.answer (P : Primitives) (client : TunnelClient) (secret own : Key) (r : Recipe) : WireFrame :=
  ⟨.HandshakeResp, 0, r.eval P (observe P client secret) own⟩

/-- The client completes its handshake on `answer`. -/
def Accepts (P : Primitives) (client : TunnelClient) (secret : Key) (answer : WireFrame) : Prop :=
  ∃ x, (client.perform_handshake P secret answer.serialize).res = .ok x

/-- No answer made without the server's key is accepted. -/
def ServerAuthenticated (P : Primitives) (client : TunnelClient) (secret : Key) : Prop :=
  ∀ (r : Recipe) (own : Key), ¬Accepts P client secret (r.answer P client secret own)

/-! ## The forged answer -/

namespace Recipe

def own_public : Recipe := x25519_public own_secret

def client_ephemeral : Recipe := take KEY_LEN init_payload

def h2 : Recipe := sha256 (append (append (append prologue client_ephemeral) server_pubkey) own_public)

def k_resp_s : Recipe := hkdf h2 (x25519 own_secret client_ephemeral) server_key_info

/-- The payload of the server's answer, with the attacker's ephemeral key. -/
def impersonate : Recipe := append own_public (aead_encrypt k_resp_s 0 handshake_complete_ack h2)

variable (P : Primitives) {pub : Public} (own : Key) {e : Key} {ct : Bytes}

theorem eval_own_public : own_public.eval P pub own = (P.x25519_public own).val := by
  rw [own_public, eval, eval, as_key_val]

theorem eval_client_ephemeral (h : pub.init_frame.payload = e.val ++ ct) :
    client_ephemeral.eval P pub own = e.val := by
  rw [client_ephemeral, eval, eval, h]
  exact List.take_left' e.property

theorem eval_h2 (h : pub.init_frame.payload = e.val ++ ct) :
    h2.eval P pub own = View.h2 P ⟨pub.prologue, e, pub.server_pubkey, P.x25519_public own⟩ := by
  simp only [h2, eval, eval_client_ephemeral P own h, eval_own_public]
  rfl

theorem eval_k_resp_s (h : pub.init_frame.payload = e.val ++ ct) {k : Key}
    (hk : P.hkdf (View.h2 P ⟨pub.prologue, e, pub.server_pubkey, P.x25519_public own⟩) (P.x25519 own e).val
      NoiseTunnel.server_key_info = some k) : k_resp_s.eval P pub own = k.val := by
  simp only [k_resp_s, eval, eval_h2 P own h, eval_client_ephemeral P own h, as_key_val, hk]
  rfl

end Recipe

/-- Every client takes the forged answer for the server's. -/
theorem impersonate_accepted {P : Primitives} (hP : P.Correct) (client : TunnelClient) (secret own : Key) :
    Accepts P client secret (Recipe.impersonate.answer P client secret own) := by
  rcases start_handshake_cases P client secret rfl rfl rfl with ⟨k, cti, -, -, hs⟩ | ⟨s, -, h⟩
  swap
  · exact absurd hP h
  have hpub : (observe P client secret).init_frame.payload = (P.x25519_public secret).val ++ cti := by
    rw [observe, hs]
    rfl
  obtain ⟨H, hv, hHs, hHe⟩ := Completed.exists_of hP
    ⟨client.prologue, P.x25519_public secret, client.server_pubkey, P.x25519_public own⟩
    (P.x25519 secret client.server_pubkey) (P.x25519 secret (P.x25519_public own))
  obtain ⟨ct, hct⟩ := hP.encrypt_some H.k_resp_s (CipherState.build_nonce 0) HANDSHAKE_COMPLETE_ACK (H.view.h2 P)
    (by decide)
  have hl := hP.encrypt_length _ _ _ _ _ hct
  -- the attacker's DH(e_a, e_c) is the client's DH(e_c, e_a)
  have hk := H.resp_eq
  rw [hHe, hP.dh_comm, hv] at hk
  have heval : Recipe.impersonate.eval P (observe P client secret) own = (P.x25519_public own).val ++ ct := by
    have hke := Recipe.eval_k_resp_s P own hpub hk
    have hhe := Recipe.eval_h2 P own hpub
    rw [hv] at hct
    simp only [Recipe.impersonate, Recipe.eval, Recipe.eval_own_public, hke, hhe, as_key_val]
    exact congrArg (fun c => (P.x25519_public own).val ++ c) (congrArg (Option.getD · []) hct)
  have hanswer : Recipe.impersonate.answer P client secret own = respFrame (P.x25519_public own) ct := by
    rw [Recipe.answer, heval]
    rfl
  have hvalid := valid_handshake_payload hP (e := P.x25519_public own) hct (by decide)
  have hr := read_from_serialize (f := respFrame (P.x25519_public own) ct) hvalid []
  rw [List.append_nil] at hr
  have hfinish := finish_handshake_of P client
    ⟨EphemeralKeyPair.generate P secret, P.x25519 secret client.server_pubkey⟩
    (respFrame (P.x25519_public own) ct) hP H rfl (by rw [hv]; rfl) (by rw [hl, TAG_LEN]; omega) (by rw [hv]; rfl)
    hHs (by rw [hHe, hv]; rfl) (hP.decrypt_encrypt _ _ _ _ _ hct)
  refine ⟨((CipherState.new H.client_write_key, CipherState.new H.server_write_key), []), ?_⟩
  rw [hanswer, perform_handshake_read hs hr, hfinish]
  rfl

/-- Completing the handshake never authenticates the server: for every client,
whatever its prologue, its server key and its secret, one and the same recipe
makes an answer that it accepts. -/
theorem server_never_authenticated {P : Primitives} (hP : P.Correct) :
    (∃ r : Recipe, ∀ (client : TunnelClient) (secret own : Key),
      Accepts P client secret (r.answer P client secret own)) ∧
    ∀ (client : TunnelClient) (secret : Key), ¬ServerAuthenticated P client secret :=
  ⟨⟨.impersonate, impersonate_accepted hP⟩, fun client secret h =>
    h .impersonate (as_key []) (impersonate_accepted hP client secret (as_key []))⟩

/-- Also a client whose server key belongs to nobody accepts it. -/
theorem server_never_authenticated_wrong_key :
    ¬ServerAuthenticated (Concrete.primitives true) (TunnelClient.new (Concrete.key 12) "127.0.0.1:8080")
      (Concrete.key 21) :=
  (server_never_authenticated (Concrete.correct true)).2 _ _

/-- A client of a real server, and an attacker with the secret 77. -/
theorem impersonated :
    Accepts (Concrete.primitives true) (Concrete.relay PROTOCOL_NAME).client (Concrete.key 21)
        (Recipe.impersonate.answer (Concrete.primitives true) (Concrete.relay PROTOCOL_NAME).client (Concrete.key 21)
          (Concrete.key 77)) ∧
      ¬ServerAuthenticated (Concrete.primitives true) (Concrete.relay PROTOCOL_NAME).client (Concrete.key 21) :=
  have h := impersonate_accepted (Concrete.correct true) (Concrete.relay PROTOCOL_NAME).client (Concrete.key 21)
    (Concrete.key 77)
  ⟨h, fun hauth => hauth .impersonate (Concrete.key 77) h⟩

end NoiseTunnel
