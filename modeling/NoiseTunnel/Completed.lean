import NoiseTunnel.Handshake
/-!
# Completed handshakes

What either party holds when its handshake is done, and the one way its code
gets there: each segment ends with that, or stops before it encrypts anything.
-/
open Rust

namespace NoiseTunnel

/-! ## Views -/

/-- The handshake as one party sees it: what its second transcript hash covers. -/
structure View where
  prologue : Bytes
  client_ephemeral : Key
  server_public : Key
  server_ephemeral : Key
  deriving DecidableEq

namespace View

def first (v : View) : Bytes := transcript v.prologue v.client_ephemeral v.server_public none
def second (v : View) : Bytes := transcript v.prologue v.client_ephemeral v.server_public (some v.server_ephemeral)

def h1 (P : Primitives) (v : View) : Bytes := (P.sha256 v.first).val
def h2 (P : Primitives) (v : View) : Bytes := (P.sha256 v.second).val

theorem h1_eq (P : Primitives) (p : Bytes) (e s r : Key) :
    (P.sha256 (transcript p e s none)).val = h1 P ⟨p, e, s, r⟩ := rfl

theorem h2_eq (P : Primitives) (p : Bytes) (e s r : Key) :
    (P.sha256 (transcript p e s (some r))).val = h2 P ⟨p, e, s, r⟩ := rfl

theorem first_inj {v w : View} (h : v.first = w.first) :
    v.prologue = w.prologue ∧ v.client_ephemeral = w.client_ephemeral ∧ v.server_public = w.server_public :=
  transcript_none_inj h

theorem second_inj {v w : View} (h : v.second = w.second) : v = w := by
  obtain ⟨v₁, v₂, v₃, v₄⟩ := v
  obtain ⟨rfl, rfl, rfl, rfl⟩ := transcript_some_inj h
  rfl

end View

/-- What one party holds at the end: its view, its shared secrets, and the keys
derived from them. -/
structure Completed (P : Primitives) where
  view : View
  dh_static : Key
  dh_ephem : Key
  k_resp_s : Key
  client_write_key : Key
  server_write_key : Key
  resp_eq : P.hkdf (view.h2 P) dh_ephem.val server_key_info = some k_resp_s
  client_eq : P.hkdf (view.h2 P) (dh_static.val ++ dh_ephem.val) client_key_info = some client_write_key
  server_eq : P.hkdf (view.h2 P) (dh_static.val ++ dh_ephem.val) server_key_info = some server_write_key

namespace Completed

variable {P : Primitives}

/-- The view and the secrets determine the keys. -/
theorem ext {H H' : Completed P} (hv : H.view = H'.view) (hs : H.dh_static = H'.dh_static)
    (he : H.dh_ephem = H'.dh_ephem) : H = H' := by
  obtain ⟨v, s, e, kr, kc, kw, hr, hc, hw⟩ := H
  obtain ⟨v', s', e', kr', kc', kw', hr', hc', hw'⟩ := H'
  obtain ⟨rfl, rfl, rfl⟩ : v = v' ∧ s = s' ∧ e = e' := ⟨hv, hs, he⟩
  obtain rfl : kr = kr' := Option.some.inj (hr.symm.trans hr')
  obtain rfl : kc = kc' := Option.some.inj (hc.symm.trans hc')
  obtain rfl : kw = kw' := Option.some.inj (hw.symm.trans hw')
  rfl

theorem exists_of (hP : P.Correct) (v : View) (dhs dhe : Key) :
    ∃ H : Completed P, H.view = v ∧ H.dh_static = dhs ∧ H.dh_ephem = dhe := by
  obtain ⟨kr, hr⟩ := hP.hkdf_some (v.h2 P) dhe.val server_key_info
  obtain ⟨kc, hc⟩ := hP.hkdf_some (v.h2 P) (dhs.val ++ dhe.val) client_key_info
  obtain ⟨kw, hw⟩ := hP.hkdf_some (v.h2 P) (dhs.val ++ dhe.val) server_key_info
  exact ⟨⟨v, dhs, dhe, kr, kc, kw, hr, hc, hw⟩, rfl, rfl, rfl⟩

end Completed

/-! ## How a segment ends -/

theorem split_payload_eq_ok {payload ct : Bytes} {e : Key} :
    split_payload payload = .ok (e, ct) ↔ payload = e.val ++ ct := by
  unfold split_payload
  simp only [bind_eq_ok, pure_eq_ok, slice_to_eq_ok, slice_from_eq_ok, copy_from_slice_eq_ok, Except.ok.injEq,
    Prod.mk.injEq]
  have he : e.val.length = KEY_LEN := e.property
  constructor
  · rintro ⟨b, ⟨-, hb⟩, a, rfl, _, ⟨-, rfl⟩, rfl, rfl⟩
    rw [← hb, List.take_append_drop]
  · rintro rfl
    have hl : KEY_LEN ≤ (e.val ++ ct).length := by rw [List.length_append, he]; omega
    exact ⟨e.val, ⟨hl, List.take_left' he⟩, e, rfl, ct, ⟨hl, List.drop_left' he⟩, rfl, rfl⟩

theorem payload_length {e : Key} {ct payload : Bytes} (h : payload = e.val ++ ct) :
    ¬payload.length < KEY_LEN + 16 ↔ 16 ≤ ct.length := by
  have he : e.val.length = KEY_LEN := e.property
  rw [h, List.length_append, he]
  omega

section
variable (P : Primitives)

def initFrame (e : Key) (ct : Bytes) : WireFrame := ⟨.HandshakeInit, 0, e.val ++ ct⟩
def respFrame (e : Key) (ct : Bytes) : WireFrame := ⟨.HandshakeResp, 0, e.val ++ ct⟩

/-- The client's log up to its ciphertext. -/
def startLog (e : Key) (t : Bytes) (dh : Key) : Log :=
  [.generated e, .hashed t] ++ derived dh.val (P.sha256 t).val

/-- The log of a client that sends `ct`. -/
def initLog (e : Key) (t : Bytes) (dh k : Key) (ct : Bytes) : Log :=
  startLog P e t dh ++ [.sealed ⟨k, 0, (P.sha256 t).val, HANDSHAKE_INIT_CLIENT, ct⟩, .wrote (initFrame e ct)]

/-- The log of a client that accepts the answer `ct`. -/
def finishLog {P : Primitives} (H : Completed P) (ct : Bytes) : Log :=
  [.hashed H.view.second] ++ derived H.dh_ephem.val (H.view.h2 P) ++
    [.opened ⟨H.k_resp_s, 0, H.view.h2 P, HANDSHAKE_COMPLETE_ACK, ct⟩] ++
    derived (H.dh_static.val ++ H.dh_ephem.val) (H.view.h2 P)

/-- The log of a server that opens `cti` to `msg` and answers `ct`. -/
def acceptLog {P : Primitives} (H : Completed P) (ki : Key) (cti msg ct : Bytes) : Log :=
  [.hashed H.view.first] ++ derived H.dh_static.val (H.view.h1 P) ++
    [.opened ⟨ki, 0, H.view.h1 P, msg, cti⟩, .generated H.view.server_ephemeral, .hashed H.view.second] ++
    derived (H.dh_static.val ++ H.dh_ephem.val) (H.view.h2 P) ++ derived H.dh_ephem.val (H.view.h2 P) ++
    [.sealed ⟨H.k_resp_s, 0, H.view.h2 P, HANDSHAKE_COMPLETE_ACK, ct⟩, .wrote (respFrame H.view.server_ephemeral ct)]

@[simp] theorem written_initLog (e : Key) (t : Bytes) (dh k : Key) (ct : Bytes) :
    written (initLog P e t dh k ct) = (initFrame e ct).serialize := by
  simp [written, frames, initLog, startLog, derived]

@[simp] theorem written_acceptLog {P : Primitives} (H : Completed P) (ki : Key) (cti msg ct : Bytes) :
    written (acceptLog H ki cti msg ct) = (respFrame H.view.server_ephemeral ct).serialize := by
  simp [written, frames, acceptLog, derived]

/-- The client's first message: all of it, or nothing is encrypted. -/
theorem start_handshake_cases (c : TunnelClient) (secret : Key) {e dh : Key} {t : Bytes}
    (hv : e = P.x25519_public secret) (hdh : dh = P.x25519 secret c.server_pubkey)
    (ht : t = transcript c.prologue e c.server_pubkey none) :
    (∃ k ct, P.hkdf (P.sha256 t).val dh.val client_key_info = some k ∧
      P.aead_encrypt k (CipherState.build_nonce 0) HANDSHAKE_INIT_CLIENT (P.sha256 t).val = some ct ∧
      c.start_handshake P secret = ⟨initLog P e t dh k ct, .ok ⟨EphemeralKeyPair.generate P secret, dh⟩⟩) ∨
    (∃ s, c.start_handshake P secret = ⟨startLog P e t dh, .error s⟩ ∧ ¬P.Correct) := by
  subst hv hdh ht
  unfold TunnelClient.start_handshake
  simp only [Exec.generate_eq, Exec.hash_handshake_state_eq, Act.mk_ok_bind, EphemeralKeyPair.generate_public_key,
    EphemeralKeyPair.generate_diffie_hellman, hash_handshake_state]
  rcases Exec.derive_session_keys_cases P (P.x25519 secret c.server_pubkey).val
    (P.sha256 (transcript c.prologue (P.x25519_public secret) c.server_pubkey none)).val with
    ⟨k, ks, hk, -, he⟩ | ⟨err, he, hP⟩
  · rcases Exec.encrypt_cases P (CipherState.new k) HANDSHAKE_INIT_CLIENT
      (P.sha256 (transcript c.prologue (P.x25519_public secret) c.server_pubkey none)).val with
      ⟨ct, c', hct, hen⟩ | ⟨err, hen, hP⟩
    · left
      refine ⟨k, ct, hk, (CipherState.encrypt_eq_ok.1 hct).1, ?_⟩
      simp only [he, hen, Act.mk_ok_bind, Exec.write_to_eq]
      rfl
    · right
      refine ⟨.err err, ?_, fun h => hP h (by decide) (CipherState.new_nonce_lt k)⟩
      simp only [he, hen, Act.mk_ok_bind, Act.mk_error_bind]
      rfl
  · right
    refine ⟨.err err, ?_, hP⟩
    simp only [he, Act.mk_error_bind]
    rfl

/-- The client completes the handshake, and has then opened the server's
acknowledgement, or it stops. It encrypts nothing. -/
theorem finish_handshake_cases (c : TunnelClient) (started : TunnelClient.Started P) (f : WireFrame) :
    (∃ (H : Completed P) (ct : Bytes), f.msg_type = .HandshakeResp ∧
      f.payload = H.view.server_ephemeral.val ++ ct ∧ 16 ≤ ct.length ∧
      H.view = ⟨c.prologue, started.client_ephemeral.public_key, c.server_pubkey, H.view.server_ephemeral⟩ ∧
      H.dh_static = started.dh_static ∧
      H.dh_ephem = started.client_ephemeral.diffie_hellman H.view.server_ephemeral ∧
      P.aead_decrypt H.k_resp_s (CipherState.build_nonce 0) ct (H.view.h2 P) = some HANDSHAKE_COMPLETE_ACK ∧
      c.finish_handshake P started f =
        ⟨finishLog H ct, .ok (CipherState.new H.client_write_key, CipherState.new H.server_write_key)⟩) ∨
    (∃ s, (c.finish_handshake P started f).res = .error s ∧ seals (c.finish_handshake P started f).log = [] ∧
      generated (c.finish_handshake P started f).log = [] ∧ frames (c.finish_handshake P started f).log = []) := by
  obtain ⟨e, dh_static⟩ := started
  unfold TunnelClient.finish_handshake
  dsimp only
  by_cases ht : f.msg_type = .HandshakeResp
  swap
  · right
    simp [Exec.bail_if_pos ht, seals, generated, frames]
  by_cases hl : f.payload.length < KEY_LEN + 16
  · right
    simp [Exec.bail_if_neg (not_not.2 ht), Exec.bail_if_pos hl, seals, generated, frames]
  simp only [Exec.bail_if_neg (not_not.2 ht), Exec.bail_if_neg hl, Act.mk_ok_bind]
  cases hs : split_payload f.payload with
  | error s =>
    right
    simp [seals, generated, frames]
  | ok p =>
    obtain ⟨es, ct⟩ := p
    have hp := split_payload_eq_ok.1 hs
    simp only [Act.liftM_eq, Act.lift_ok_bind, Exec.hash_handshake_state_eq, Act.mk_ok_bind, hash_handshake_state,
      View.h2_eq]
    rcases Exec.derive_session_keys_cases P (e.diffie_hellman es).val
      (View.h2 P ⟨c.prologue, e.public_key, c.server_pubkey, es⟩) with ⟨ks, kr, -, hkr, hd⟩ | ⟨err, hd, -⟩
    swap
    · right
      simp [hd, seals, generated, frames, derived]
    rcases Exec.decrypt_cases P (CipherState.new kr) ct
      (View.h2 P ⟨c.prologue, e.public_key, c.server_pubkey, es⟩) 0 with ⟨ack, c', hdec, ho⟩ | ⟨s, ho, -⟩
    swap
    · right
      simp [hd, ho, seals, generated, frames, derived]
    by_cases hack : ack = HANDSHAKE_COMPLETE_ACK
    swap
    · right
      simp [hd, ho, Exec.bail_if_pos hack, seals, generated, frames, derived]
    subst hack
    rcases Exec.derive_session_keys_cases P (dh_static.val ++ (e.diffie_hellman es).val)
      (View.h2 P ⟨c.prologue, e.public_key, c.server_pubkey, es⟩) with ⟨kc, kw, hkc, hkw, hd'⟩ | ⟨err, hd', -⟩
    swap
    · right
      simp [hd, ho, hd', Exec.bail_if_neg, seals, generated, frames, derived]
    left
    refine ⟨⟨_, dh_static, _, kr, kc, kw, hkr, hkc, hkw⟩, ct, ht, hp, (payload_length hp).1 hl, rfl, rfl, rfl,
      (CipherState.decrypt_eq_ok.1 hdec).2.1, ?_⟩
    simp only [hd, ho, hd', Exec.bail_if_neg (not_not.2 rfl), Act.mk_ok_bind]
    rfl

/-- The client does complete it on an answer that decrypts. -/
theorem finish_handshake_of (c : TunnelClient) (started : TunnelClient.Started P) (f : WireFrame) {ct : Bytes}
    (hP : P.Correct) (H : Completed P) (ht : f.msg_type = .HandshakeResp)
    (hp : f.payload = H.view.server_ephemeral.val ++ ct) (hl : 16 ≤ ct.length)
    (hv : H.view = ⟨c.prologue, started.client_ephemeral.public_key, c.server_pubkey, H.view.server_ephemeral⟩)
    (hs : H.dh_static = started.dh_static)
    (he : H.dh_ephem = started.client_ephemeral.diffie_hellman H.view.server_ephemeral)
    (hd : P.aead_decrypt H.k_resp_s (CipherState.build_nonce 0) ct (H.view.h2 P) = some HANDSHAKE_COMPLETE_ACK) :
    c.finish_handshake P started f =
      ⟨finishLog H ct, .ok (CipherState.new H.client_write_key, CipherState.new H.server_write_key)⟩ := by
  obtain ⟨⟨p, ce, sp, es⟩, dhs, dhe, kr, kc, kw, hkr, hkc, hkw⟩ := H
  obtain ⟨e, dh_static⟩ := started
  simp only [View.mk.injEq, and_true] at hv hs he hp hd hkr hkc hkw
  obtain ⟨rfl, rfl, rfl⟩ := hv
  subst hs he
  obtain ⟨ks, hks⟩ := hP.hkdf_some (View.h2 P ⟨c.prologue, e.public_key, c.server_pubkey, es⟩)
    (e.diffie_hellman es).val client_key_info
  have ho := Exec.decrypt_of (c := CipherState.new kr) hd (CipherState.new_nonce_lt kr)
  have h0 : (CipherState.new kr).nonce = 0 := rfl
  rw [h0] at ho
  unfold TunnelClient.finish_handshake
  simp only [Exec.bail_if_neg (not_not.2 ht), Exec.bail_if_neg ((payload_length hp).2 hl), Act.mk_ok_bind,
    split_payload_eq_ok.2 hp, Act.liftM_eq, Act.lift_ok_bind, Exec.hash_handshake_state_eq, hash_handshake_state,
    View.h2_eq, Exec.derive_session_keys_of hks hkr, Exec.derive_session_keys_of hkc hkw, ho,
    Exec.bail_if_neg (not_not.2 rfl)]
  rfl

/-- The server completes the handshake and has then opened the client's message
and sealed its acknowledgement, or it stops and has encrypted nothing. -/
theorem accept_handshake_cases (keys : KeyPair) (prologue : Bytes) (secret : Key) (f : WireFrame) :
    (∃ (H : Completed P) (ki : Key) (cti msg ct : Bytes), f.msg_type = .HandshakeInit ∧
      f.payload = H.view.client_ephemeral.val ++ cti ∧ 16 ≤ cti.length ∧
      H.view = ⟨prologue, H.view.client_ephemeral, keys.public_key, P.x25519_public secret⟩ ∧
      H.dh_static = P.x25519 keys.private_key H.view.client_ephemeral ∧
      H.dh_ephem = P.x25519 secret H.view.client_ephemeral ∧
      P.hkdf (H.view.h1 P) H.dh_static.val client_key_info = some ki ∧
      P.aead_decrypt ki (CipherState.build_nonce 0) cti (H.view.h1 P) = some msg ∧
      P.aead_encrypt H.k_resp_s (CipherState.build_nonce 0) HANDSHAKE_COMPLETE_ACK (H.view.h2 P) = some ct ∧
      TunnelServer.accept_handshake P keys prologue secret f =
        ⟨acceptLog H ki cti msg ct,
          .ok (CipherState.new H.client_write_key, CipherState.new H.server_write_key)⟩) ∨
    (∃ s, (TunnelServer.accept_handshake P keys prologue secret f).res = .error s ∧
      seals (TunnelServer.accept_handshake P keys prologue secret f).log = [] ∧
      frames (TunnelServer.accept_handshake P keys prologue secret f).log = []) := by
  unfold TunnelServer.accept_handshake
  by_cases ht : f.msg_type = .HandshakeInit
  swap
  · right
    simp [Exec.bail_if_pos ht, seals, frames]
  by_cases hl : f.payload.length < KEY_LEN + 16
  · right
    simp [Exec.bail_if_neg (not_not.2 ht), Exec.bail_if_pos hl, seals, frames]
  simp only [Exec.bail_if_neg (not_not.2 ht), Exec.bail_if_neg hl, Act.mk_ok_bind]
  cases hs : split_payload f.payload with
  | error s =>
    right
    simp [seals, frames]
  | ok p =>
    obtain ⟨ce, cti⟩ := p
    have hp := split_payload_eq_ok.1 hs
    simp only [Act.liftM_eq, Act.lift_ok_bind, Exec.hash_handshake_state_eq, Act.mk_ok_bind, hash_handshake_state,
      View.h1_eq P prologue ce keys.public_key (P.x25519_public secret), diffie_hellman]
    rcases Exec.derive_session_keys_cases P (P.x25519 keys.private_key ce).val
      (View.h1 P ⟨prologue, ce, keys.public_key, P.x25519_public secret⟩) with ⟨ki, _, hki, -, hd⟩ | ⟨err, hd, -⟩
    swap
    · right
      simp [hd, seals, frames, derived]
    rcases Exec.decrypt_cases P (CipherState.new ki) cti
      (View.h1 P ⟨prologue, ce, keys.public_key, P.x25519_public secret⟩) 0 with ⟨msg, c', hdec, ho⟩ | ⟨s, ho, -⟩
    swap
    · right
      simp [hd, ho, seals, frames, derived]
    simp only [hd, ho, Act.mk_ok_bind, Exec.generate_eq, EphemeralKeyPair.generate_public_key,
      EphemeralKeyPair.generate_diffie_hellman, View.h2_eq]
    rcases Exec.derive_session_keys_cases P ((P.x25519 keys.private_key ce).val ++ (P.x25519 secret ce).val)
      (View.h2 P ⟨prologue, ce, keys.public_key, P.x25519_public secret⟩) with ⟨kc, kw, hkc, hkw, hd₂⟩ | ⟨err, hd₂, -⟩
    swap
    · right
      simp [hd₂, seals, frames, derived]
    rcases Exec.derive_session_keys_cases P (P.x25519 secret ce).val
      (View.h2 P ⟨prologue, ce, keys.public_key, P.x25519_public secret⟩) with ⟨_, kr, -, hkr, hd₃⟩ | ⟨err, hd₃, -⟩
    swap
    · right
      simp [hd₂, hd₃, seals, frames, derived]
    rcases Exec.encrypt_cases P (CipherState.new kr) HANDSHAKE_COMPLETE_ACK
      (View.h2 P ⟨prologue, ce, keys.public_key, P.x25519_public secret⟩) with ⟨ct, c'', henc, hen⟩ | ⟨err, hen, -⟩
    swap
    · right
      simp [hd₂, hd₃, hen, seals, frames, derived]
    left
    refine ⟨⟨_, _, _, kr, kc, kw, hkr, hkc, hkw⟩, ki, cti, msg, ct, ht, hp, (payload_length hp).1 hl, rfl, rfl, rfl, hki,
      (CipherState.decrypt_eq_ok.1 hdec).2.1, (CipherState.encrypt_eq_ok.1 henc).1, ?_⟩
    simp only [hd₂, hd₃, hen, Act.mk_ok_bind, Exec.write_to_eq]
    rfl

/-- The server does complete it on a message that decrypts. -/
theorem accept_handshake_of {keys : KeyPair} {prologue : Bytes} {secret ki : Key} {f : WireFrame}
    {cti msg ct : Bytes} (hP : P.Correct) (H : Completed P) (ht : f.msg_type = .HandshakeInit)
    (hp : f.payload = H.view.client_ephemeral.val ++ cti) (hl : 16 ≤ cti.length)
    (hv : H.view = ⟨prologue, H.view.client_ephemeral, keys.public_key, P.x25519_public secret⟩)
    (hs : H.dh_static = P.x25519 keys.private_key H.view.client_ephemeral)
    (he : H.dh_ephem = P.x25519 secret H.view.client_ephemeral)
    (hi : P.hkdf (H.view.h1 P) H.dh_static.val client_key_info = some ki)
    (hd : P.aead_decrypt ki (CipherState.build_nonce 0) cti (H.view.h1 P) = some msg)
    (hen : P.aead_encrypt H.k_resp_s (CipherState.build_nonce 0) HANDSHAKE_COMPLETE_ACK (H.view.h2 P) = some ct) :
    TunnelServer.accept_handshake P keys prologue secret f =
      ⟨acceptLog H ki cti msg ct,
        .ok (CipherState.new H.client_write_key, CipherState.new H.server_write_key)⟩ := by
  obtain ⟨⟨p, ce, sp, es⟩, dhs, dhe, kr, kc, kw, hkr, hkc, hkw⟩ := H
  simp only [View.mk.injEq, true_and] at hv hs he hp hi hd hen hkr hkc hkw
  obtain ⟨rfl, rfl, rfl⟩ := hv
  subst hs he
  obtain ⟨ki', hi'⟩ := hP.hkdf_some (View.h1 P ⟨p, ce, keys.public_key, P.x25519_public secret⟩)
    (P.x25519 keys.private_key ce).val server_key_info
  obtain ⟨kr', hkr'⟩ := hP.hkdf_some (View.h2 P ⟨p, ce, keys.public_key, P.x25519_public secret⟩)
    (P.x25519 secret ce).val client_key_info
  have ho := Exec.decrypt_of (c := CipherState.new ki) hd (CipherState.new_nonce_lt ki)
  have h0 : (CipherState.new ki).nonce = 0 := rfl
  rw [h0] at ho
  unfold TunnelServer.accept_handshake
  simp only [Exec.bail_if_neg (not_not.2 ht), Exec.bail_if_neg ((payload_length hp).2 hl), Act.mk_ok_bind,
    split_payload_eq_ok.2 hp, Act.liftM_eq, Act.lift_ok_bind, Exec.hash_handshake_state_eq, hash_handshake_state,
    diffie_hellman, Exec.generate_eq, EphemeralKeyPair.generate_public_key, EphemeralKeyPair.generate_diffie_hellman,
    View.h1_eq P p ce keys.public_key (P.x25519_public secret), View.h2_eq, Exec.derive_session_keys_of hi hi',
    Exec.derive_session_keys_of hkr' hkr, Exec.derive_session_keys_of hkc hkw, ho,
    Exec.encrypt_of (c := CipherState.new kr) hen (CipherState.new_nonce_lt kr), Exec.write_to_eq]
  rfl

end

end NoiseTunnel
