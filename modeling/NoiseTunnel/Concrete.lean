import NoiseTunnel.Effect
/-!
# Primitives that meet the assumptions

A small set of primitives to run the code on: multiplication modulo 2^255 - 19
for the curve, a polynomial hash, and an AEAD that appends a 16-byte tag. They
are not secure, but `Primitives.Correct` holds of them.
-/
open Rust

namespace NoiseTunnel.Concrete

/-! ## Diffie-Hellman -/

def prime : Nat := 2 ^ 255 - 19

def key (n : Nat) : Key := ⟨le 32 n, le_length 32 n⟩

def num (k : Key) : Nat := ofLE k.val

theorem num_key (n : Nat) : num (key (n % prime)) = n % prime := by
  apply ofLE_le
  have : n % prime < prime := Nat.mod_lt _ (by decide)
  exact Nat.lt_trans this (by decide)

def x25519 (s p : Key) : Key := key (num s * num p % prime)

theorem x25519_comm (a b : Key) : x25519 a (x25519 b (key 9)) = x25519 b (x25519 a (key 9)) := by
  simp only [x25519, num_key, Nat.mul_mod_mod]
  rw [Nat.mul_left_comm]

/-! ## Hashing -/

def mix (b : Bytes) : Nat := b.foldl (fun h x => (h * 65599 + x.toNat + 1) % 2 ^ 256) 7

/-! ## AEAD -/

def tag (k : Key) (n : Nonce) (msg aad : Bytes) : Bytes :=
  le 16 (mix (k.val ++ n.val ++ le 8 aad.length ++ aad ++ msg))

def aead_encrypt (k : Key) (n : Nonce) (msg aad : Bytes) : Option Bytes :=
  if msg.length / 64 < 2 ^ 32 - 1 then some (msg ++ tag k n msg aad) else none

def aead_decrypt (k : Key) (n : Nonce) (ct aad : Bytes) : Option Bytes :=
  let msg := ct.take (ct.length - 16)
  if ct = msg ++ tag k n msg aad then some msg else none

@[simp] theorem tag_length (k : Key) (n : Nonce) (msg aad : Bytes) : (tag k n msg aad).length = 16 := le_length _ _

theorem aead_encrypt_eq {k : Key} {n : Nonce} {msg aad ct : Bytes} (h : aead_encrypt k n msg aad = some ct) :
    ct = msg ++ tag k n msg aad := by
  unfold aead_encrypt at h
  split at h
  · exact (Option.some.inj h).symm
  · cases h

theorem aead_decrypt_append (k : Key) (n : Nonce) (msg aad : Bytes) :
    aead_decrypt k n (msg ++ tag k n msg aad) aad = some msg := by
  have h : (msg ++ tag k n msg aad).take ((msg ++ tag k n msg aad).length - 16) = msg := by simp
  rw [aead_decrypt, h, if_pos rfl]

theorem aead_decrypt_eq {k : Key} {n : Nonce} {msg aad ct : Bytes} (h : aead_decrypt k n ct aad = some msg) :
    ct = msg ++ tag k n msg aad := by
  unfold aead_decrypt at h
  dsimp only at h
  split at h
  · rename_i he
    cases h
    exact he
  · cases h

/-! ## Together -/

def primitives (overflow_checks : Bool) : Primitives where
  sha256 b := key (mix b)
  hkdf salt ikm info := some (key (mix (salt ++ ikm ++ info)))
  aead_encrypt := aead_encrypt
  aead_decrypt := aead_decrypt
  x25519_public s := x25519 s (key 9)
  x25519 := x25519
  overflow_checks := overflow_checks

theorem correct (c : Bool) : (primitives c).Correct where
  dh_comm := x25519_comm
  hkdf_some _ _ _ := ⟨_, rfl⟩
  encrypt_some k n msg aad h := ⟨msg ++ tag k n msg aad, if_pos h⟩
  encrypt_length k n msg aad ct h := by simp [aead_encrypt_eq h, TAG_LEN]
  decrypt_length k n ct aad msg h := by simp [aead_decrypt_eq h, TAG_LEN]
  decrypt_encrypt k n msg aad ct h := by
    rw [aead_encrypt_eq h]
    exact aead_decrypt_append k n msg aad

end NoiseTunnel.Concrete
