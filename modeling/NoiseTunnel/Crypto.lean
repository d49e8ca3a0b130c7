import NoiseTunnel.Error
import NoiseTunnel.Lib.Utf8
/-!
# Keys and ciphers

The primitives come from other crates, so they are a parameter here: a
`Primitives` gives each as a function. What is proved about them is assumed by
name, in `Primitives.Correct`.
-/
open Rust

namespace NoiseTunnel

def KEY_LEN : Nat := 32
def NONCE_LEN : Nat := 12
def TAG_LEN : Nat := 16

abbrev Key := U8Array KEY_LEN
abbrev Nonce := U8Array NONCE_LEN

/-- The first 32 bytes, as a key. -/
def as_key (b : Bytes) : Key := ⟨(b ++ List.replicate KEY_LEN 0).take KEY_LEN, by simp⟩

theorem as_key_append (k : Key) (b : Bytes) : as_key (k.val ++ b) = k := by
  apply Subtype.ext
  simp only [as_key, List.append_assoc]
  exact List.take_left' k.property

theorem as_key_val (k : Key) : as_key k.val = k := by
  have h := as_key_append k []
  rwa [List.append_nil] at h

/-- The third-party primitives, and the build's arithmetic. -/
structure Primitives where
  sha256 : Bytes → U8Array 32
  /-- `Hkdf::<Sha256>::new(Some(salt), ikm).expand(info, _)` to 32 bytes. -/
  hkdf : (salt ikm info : Bytes) → Option Key
  aead_encrypt : Key → Nonce → (msg aad : Bytes) → Option Bytes
  aead_decrypt : Key → Nonce → (msg aad : Bytes) → Option Bytes
  x25519_public : Key → Key
  x25519 : (secret_key public_key : Key) → Key
  /-- Whether `+` panics on overflow; otherwise it wraps. -/
  overflow_checks : Bool

/-- What the primitives document. -/
structure Primitives.Correct (P : Primitives) : Prop where
  dh_comm : ∀ a b, P.x25519 a (P.x25519_public b) = P.x25519 b (P.x25519_public a)
  hkdf_some : ∀ salt ikm info, ∃ k, P.hkdf salt ikm info = some k
  /-- ChaCha20 counts its 64-byte blocks in 32 bits. -/
  encrypt_some : ∀ k n msg aad, msg.length / 64 < 2 ^ 32 - 1 → ∃ ct, P.aead_encrypt k n msg aad = some ct
  encrypt_length : ∀ k n msg aad ct, P.aead_encrypt k n msg aad = some ct → ct.length = msg.length + TAG_LEN
  decrypt_length : ∀ k n ct aad msg, P.aead_decrypt k n ct aad = some msg → ct.length = msg.length + TAG_LEN
  decrypt_encrypt : ∀ k n msg aad ct, P.aead_encrypt k n msg aad = some ct → P.aead_decrypt k n ct aad = some msg

structure KeyPair where
  private_key : Key
  public_key : Key
  deriving DecidableEq

namespace KeyPair

def from_private_bytes (P : Primitives) (bytes : Key) : KeyPair := ⟨bytes, P.x25519_public bytes⟩

end KeyPair

/-! ## CipherState -/

/-- A key with the counter of the next nonce. -/
structure CipherState where
  key : Key
  nonce : UInt64
  deriving DecidableEq

namespace CipherState

def new (key : Key) : CipherState := ⟨key, 0⟩

def with_nonce (key : Key) (nonce : UInt64) : CipherState := ⟨key, nonce⟩

def current_nonce (self : CipherState) : UInt64 := self.nonce

def remaining_nonces (self : CipherState) : UInt64 := saturating_sub 0xFFFFFFFFFFFFFFFF self.nonce

/-- The counter has no next number. -/
def is_exhausted (self : CipherState) : Bool := self.nonce == 0xFFFFFFFFFFFFFFFF

def is_near_exhaustion (self : CipherState) (threshold : UInt64) : Bool := self.remaining_nonces < threshold

/-- A new key starts at number 0. -/
def rekey (_self : CipherState) (new_key : Key) : CipherState := { key := new_key, nonce := 0 }

/-- Back to number 0 under the same key. -/
def reset_nonce (self : CipherState) : CipherState := { self with nonce := 0 }

/-- The counter, little-endian, padded with zeros. -/
def build_nonce (counter : UInt64) : Nonce := ⟨u64_to_le_bytes counter ++ [0, 0, 0, 0], by simp [NONCE_LEN]⟩

/-- Encrypt under the current nonce and move on to the next. -/
def encrypt (P : Primitives) (self : CipherState) (plaintext associated_data : Bytes) :
    CipherState × Except Error Bytes :=
  match P.aead_encrypt self.key (build_nonce self.nonce) plaintext associated_data with
  | none => (self, .error .aead_encrypt)
  | some ciphertext =>
    match checked_add self.nonce 1 with
    | none => (self, .error .nonce_overflow)
    | some nonce => ({ self with nonce }, .ok ciphertext)

/-- Decrypt what claims to be the next message. -/
def decrypt (P : Primitives) (self : CipherState) (ciphertext associated_data : Bytes) (expected_nonce : UInt64) :
    Except Panic (CipherState × Except Error Bytes) :=
  if expected_nonce ≠ self.nonce then .ok (self, .error (.nonce_order self.nonce expected_nonce))
  else
    match P.aead_decrypt self.key (build_nonce expected_nonce) ciphertext associated_data with
    | none => .ok (self, .error .aead_decrypt)
    | some plaintext => do
      let nonce ← add P.overflow_checks self.nonce 1
      return ({ self with nonce }, .ok plaintext)

theorem new_nonce_lt (key : Key) : (new key).nonce.toNat + 1 < 2 ^ 64 := by
  show (0 : UInt64).toNat + 1 < 2 ^ 64
  decide

theorem is_exhausted_iff {c : CipherState} : c.is_exhausted = true ↔ c.nonce.toNat + 1 = 2 ^ 64 := by
  rw [is_exhausted, beq_iff_eq, ← UInt64.toNat_inj]
  have hmax : (0xFFFFFFFFFFFFFFFF : UInt64).toNat = 2 ^ 64 - 1 := by decide
  rw [hmax]
  omega

theorem remaining_nonces_toNat (c : CipherState) : c.remaining_nonces.toNat = 2 ^ 64 - 1 - c.nonce.toNat := by
  have hmax : (0xFFFFFFFFFFFFFFFF : UInt64).toNat = 2 ^ 64 - 1 := by decide
  rw [remaining_nonces, toNat_saturating_sub, hmax]

theorem build_nonce_inj {m n : UInt64} (h : build_nonce m = build_nonce n) : m = n := by
  have := congrArg Subtype.val h
  exact u64_to_le_bytes_inj (List.append_cancel_right this)

variable {P : Primitives} {c c' : CipherState} {msg aad ct : Bytes} {n : UInt64}

theorem encrypt_eq_ok :
    c.encrypt P msg aad = (c', .ok ct) ↔
      P.aead_encrypt c.key (build_nonce c.nonce) msg aad = some ct ∧ checked_add c.nonce 1 = some c'.nonce ∧
        c'.key = c.key := by
  unfold encrypt
  cases P.aead_encrypt c.key (build_nonce c.nonce) msg aad with
  | none => simp
  | some ct' =>
    cases checked_add c.nonce 1 with
    | none => simp
    | some nonce =>
      obtain ⟨key', nonce'⟩ := c'
      simp only [Prod.mk.injEq, mk.injEq, Except.ok.injEq, Option.some.injEq]
      tauto

theorem encrypt_of (h : P.aead_encrypt c.key (build_nonce c.nonce) msg aad = some ct)
    (hn : c.nonce.toNat + 1 < 2 ^ 64) : c.encrypt P msg aad = (⟨c.key, c.nonce + 1⟩, .ok ct) :=
  encrypt_eq_ok.2 ⟨h, checked_add_one_of_lt hn, rfl⟩

theorem encrypt_next (h : c.encrypt P msg aad = (c', .ok ct)) :
    c' = ⟨c.key, c.nonce + 1⟩ ∧ c.nonce.toNat + 1 < 2 ^ 64 := by
  obtain ⟨hct, hadd, -⟩ := encrypt_eq_ok.1 h
  have hlt : c.nonce.toNat + 1 < 2 ^ 64 := checked_add_one hadd ▸ c'.nonce.toNat_lt
  rw [encrypt_of hct hlt] at h
  exact ⟨(Prod.mk.inj h).1.symm, hlt⟩

theorem encrypt_error {e : Error} (h : c.encrypt P msg aad = (c', .error e)) : c' = c := by
  unfold encrypt at h
  split at h
  · cases h; rfl
  · split at h
    · cases h; rfl
    · cases h

theorem decrypt_eq_ok :
    c.decrypt P ct aad n = .ok (c', .ok msg) ↔
      n = c.nonce ∧ P.aead_decrypt c.key (build_nonce c.nonce) ct aad = some msg ∧
        add P.overflow_checks c.nonce 1 = .ok c'.nonce ∧ c'.key = c.key := by
  unfold decrypt
  by_cases hn : n = c.nonce
  · subst hn
    simp only [ne_eq, not_true_eq_false, if_false, true_and]
    cases P.aead_decrypt c.key (build_nonce c.nonce) ct aad with
    | none => simp
    | some msg' =>
      obtain ⟨key', nonce'⟩ := c'
      simp only [bind_eq_ok, pure_eq_ok, Except.ok.injEq, Prod.mk.injEq, mk.injEq, Option.some.injEq]
      constructor
      · rintro ⟨m, hm, ⟨rfl, rfl⟩, rfl⟩
        exact ⟨rfl, hm, rfl⟩
      · rintro ⟨rfl, hm, rfl⟩
        exact ⟨nonce', hm, ⟨rfl, rfl⟩, rfl⟩
  · simp [hn]

/-- Only a counter that cannot go on makes `decrypt` panic. -/
theorem decrypt_returns (P : Primitives) (ct aad : Bytes) (n : UInt64) (hn : c.nonce.toNat + 1 < 2 ^ 64) :
    ∃ c' r, c.decrypt P ct aad n = .ok (c', r) := by
  unfold decrypt
  split
  · exact ⟨_, _, rfl⟩
  · split
    · exact ⟨_, _, rfl⟩
    · rw [add_one hn]
      exact ⟨_, _, rfl⟩

theorem decrypt_of (h : P.aead_decrypt c.key (build_nonce c.nonce) ct aad = some msg)
    (hn : c.nonce.toNat + 1 < 2 ^ 64) : c.decrypt P ct aad c.nonce = .ok (⟨c.key, c.nonce + 1⟩, .ok msg) :=
  decrypt_eq_ok.2 ⟨rfl, h, add_one hn, rfl⟩

theorem aead_decrypt_encrypted (hP : P.Correct) (h : c.encrypt P msg aad = (c', .ok ct)) :
    P.aead_decrypt c.key (build_nonce c.nonce) ct aad = some msg :=
  hP.decrypt_encrypt _ _ _ _ _ (encrypt_eq_ok.1 h).1

/-- A receiver in the sender's state decrypts what was encrypted and is in the sender's state again. -/
theorem decrypt_encrypted (hP : P.Correct) (h : c.encrypt P msg aad = (c', .ok ct)) :
    c.decrypt P ct aad c.nonce = .ok (c', .ok msg) := by
  obtain ⟨rfl, hlt⟩ := encrypt_next h
  exact decrypt_of (aead_decrypt_encrypted hP h) hlt

end CipherState

/-! ## Key derivation -/

structure SessionKeys where
  client_write_key : Key
  server_write_key : Key
  deriving DecidableEq

def client_key_info : Bytes := as_bytes "noise-tunnel-client-write-key-v1"
def server_key_info : Bytes := as_bytes "noise-tunnel-server-write-key-v1"

/-- Split a shared secret into the two keys, under the handshake hash. -/
def derive_session_keypair (P : Primitives) (shared_secret handshake_hash : Bytes) : Except Error SessionKeys :=
  match P.hkdf handshake_hash shared_secret client_key_info with
  | none => .error .expand_client_key
  | some client_write_key =>
    match P.hkdf handshake_hash shared_secret server_key_info with
    | none => .error .expand_server_key
    | some server_write_key => .ok { client_write_key, server_write_key }

def SessionKeys.into_parts (self : SessionKeys) : Key × Key := (self.client_write_key, self.server_write_key)

/-- The client's and the server's sending keys. -/
def derive_session_keys (P : Primitives) (shared_secret handshake_hash : Bytes) : Except Error (Key × Key) := do
  let keys ← derive_session_keypair P shared_secret handshake_hash
  return keys.into_parts

def diffie_hellman (P : Primitives) (secret_bytes public_bytes : Key) : Key := P.x25519 secret_bytes public_bytes

/-- A key pair for one handshake. Its public key belongs to its secret. -/
structure EphemeralKeyPair (P : Primitives) where
  secret : Key
  public_key : Key
  public_eq : public_key = P.x25519_public secret

namespace EphemeralKeyPair

/-- `generate`, for the secret it draws. -/
def generate (P : Primitives) (secret : Key) : EphemeralKeyPair P := ⟨secret, P.x25519_public secret, rfl⟩

def diffie_hellman {P : Primitives} (self : EphemeralKeyPair P) (peer_public : Key) : Key :=
  NoiseTunnel.diffie_hellman P self.secret peer_public

@[simp] theorem generate_public_key (P : Primitives) (secret : Key) :
    (generate P secret).public_key = P.x25519_public secret := rfl

@[simp] theorem generate_diffie_hellman (P : Primitives) (secret peer : Key) :
    (generate P secret).diffie_hellman peer = P.x25519 secret peer := rfl

end EphemeralKeyPair

theorem client_key_info_ne : client_key_info ≠ server_key_info := by
  decide

theorem derive_session_keys_eq_ok {P : Primitives} {ss hh : Bytes} {kc ks : Key} :
    derive_session_keys P ss hh = .ok (kc, ks) ↔
      P.hkdf hh ss client_key_info = some kc ∧ P.hkdf hh ss server_key_info = some ks := by
  unfold derive_session_keys derive_session_keypair
  cases P.hkdf hh ss client_key_info with
  | none => simp
  | some kc' =>
    cases P.hkdf hh ss server_key_info with
    | none => simp
    | some ks' => simp [pure_eq_ok, SessionKeys.into_parts]

end NoiseTunnel
