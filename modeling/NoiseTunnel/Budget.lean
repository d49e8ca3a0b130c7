import NoiseTunnel.Concrete
/-!
# How far a sending key goes

A cipher that encrypts and gets new keys, in any order. Under one key it
encrypts once with each number that is left but the last, and then refuses
every message until it gets the next key.
-/
open Rust

namespace NoiseTunnel

/-- The AEAD does not fail on this message. -/
def Primitives.Encryptable (P : Primitives) (msg aad : Bytes) : Prop :=
  ∀ k n, ∃ ct, P.aead_encrypt k n msg aad = some ct

namespace CipherState

/-! ## Runs -/

/-- What a sender does with its cipher. -/
inductive Operation where
  | encrypt (plaintext associated_data : Bytes)
  | rekey (new_key : Key)

/-- An `encrypt` call: the state it found, its arguments, what it returned and
the state it left. -/
structure Encryption where
  before : CipherState
  plaintext : Bytes
  associated_data : Bytes
  result : Except Error Bytes
  after : CipherState

/-- The `encrypt` calls of a run. -/
def encryptions (P : Primitives) : CipherState → List Operation → List Encryption
  | _, [] => []
  | c, .encrypt plaintext associated_data :: ops =>
    let (c', result) := c.encrypt P plaintext associated_data
    ⟨c, plaintext, associated_data, result, c'⟩ :: encryptions P c' ops
  | c, .rekey new_key :: ops => encryptions P (c.rekey new_key) ops

/-- The state a run leaves. -/
def final (P : Primitives) : CipherState → List Operation → CipherState
  | c, [] => c
  | c, .encrypt plaintext associated_data :: ops => final P (c.encrypt P plaintext associated_data).1 ops
  | c, .rekey new_key :: ops => final P (c.rekey new_key) ops

def new_keys (ops : List Operation) : List Key := ops.filterMap fun | .rekey k => some k | .encrypt .. => none

/-- Messages, each with its associated data, and nothing else. -/
def messages (ms : List (Bytes × Bytes)) : List Operation := ms.map fun m => .encrypt m.1 m.2

namespace Encryption

/-- The key and the nonce of a ciphertext that was returned. -/
def spent (x : Encryption) : Option (Key × Nonce) :=
  match x.result with
  | .ok _ => some (x.before.key, build_nonce x.before.nonce)
  | .error _ => none

/-- A ciphertext is returned, made under `key` and number `n`. -/
def Releases (P : Primitives) (x : Encryption) (key : Key) (n : Nat) : Prop :=
  x.before.key = key ∧ x.before.nonce.toNat = n ∧
    ∃ ct, x.result = .ok ct ∧ P.aead_encrypt key (build_nonce x.before.nonce) x.plaintext x.associated_data = some ct

/-- An error is returned and nothing has changed. -/
def Refused (x : Encryption) (key : Key) : Prop :=
  x.before.key = key ∧ x.before.is_exhausted = true ∧ x.result = .error .nonce_overflow ∧ x.after = x.before

end Encryption

variable {P : Primitives} {c c' : CipherState} {ops : List Operation} {msg aad : Bytes} {ms : List (Bytes × Bytes)}

/-! ## No pair twice -/

/-- A run spends under the key it finds only numbers from its counter on, and
otherwise only keys that it is given. -/
theorem spent_cases {p : Key × Nonce} (hp : p ∈ (encryptions P c ops).filterMap Encryption.spent) :
    (p.1 = c.key ∧ ∃ n, c.nonce ≤ n ∧ p.2 = build_nonce n) ∨ p.1 ∈ new_keys ops := by
  induction ops generalizing c with
  | nil => cases hp
  | cons op ops ih =>
    cases op with
    | rekey k =>
      rcases ih hp with ⟨hk, -⟩ | hk
      · exact .inr (hk ▸ List.mem_cons_self)
      · exact .inr (List.mem_cons_of_mem k hk)
    | encrypt msg aad =>
      cases he : c.encrypt P msg aad with
      | mk c' r =>
        simp only [encryptions, he] at hp
        cases r with
        | error e =>
          obtain rfl := encrypt_error he
          exact ih hp
        | ok ct =>
          obtain ⟨rfl, hlt⟩ := encrypt_next he
          rcases List.mem_cons.1 hp with rfl | hp
          · exact .inl ⟨rfl, c.nonce, UInt64.le_refl _, rfl⟩
          rcases ih hp with ⟨hk, n, hn, hp⟩ | hk
          · refine .inl ⟨hk, n, ?_, hp⟩
            rw [UInt64.le_iff_toNat_le, toNat_add_one hlt] at hn
            exact UInt64.le_iff_toNat_le.2 (Nat.le_of_succ_le hn)
          · exact .inr hk

theorem spent_nodup (h : (c.key :: new_keys ops).Nodup) :
    ((encryptions P c ops).filterMap Encryption.spent).Nodup := by
  induction ops generalizing c with
  | nil => exact List.nodup_nil
  | cons op ops ih =>
    cases op with
    | rekey k => exact ih (List.nodup_cons.1 h).2
    | encrypt msg aad =>
      cases he : c.encrypt P msg aad with
      | mk c' r =>
        simp only [encryptions, he]
        cases r with
        | error e =>
          obtain rfl := encrypt_error he
          exact ih h
        | ok ct =>
          obtain ⟨rfl, hlt⟩ := encrypt_next he
          refine List.nodup_cons.2 ⟨fun hmem => ?_, ih h⟩
          -- the pair just spent is below the counter, and its key is not given again
          rcases spent_cases hmem with ⟨-, n, hn, heq⟩ | hk
          · rw [UInt64.le_iff_toNat_le, toNat_add_one hlt, ← build_nonce_inj heq] at hn
            exact absurd hn (Nat.not_succ_le_self _)
          · exact (List.nodup_cons.1 h).1 hk

/-- What is returned was made under the state the call found. -/
theorem released (x : Encryption) (hx : x ∈ encryptions P c ops) {ct : Bytes} (hr : x.result = .ok ct) :
    P.aead_encrypt x.before.key (build_nonce x.before.nonce) x.plaintext x.associated_data = some ct := by
  induction ops generalizing c with
  | nil => cases hx
  | cons op ops ih =>
    cases op with
    | rekey k => exact ih hx
    | encrypt msg aad =>
      rcases List.mem_cons.1 hx with rfl | hx
      · exact (encrypt_eq_ok.1 (Prod.ext rfl hr)).1
      · exact ih hx

/-! ## The budget -/

/-- The state after `i` messages under one key. -/
def advanced (c : CipherState) (i : Nat) : CipherState := ⟨c.key, UInt64.ofNat (min (c.nonce.toNat + i) (2 ^ 64 - 1))⟩

theorem advanced_nonce (c : CipherState) (i : Nat) :
    (c.advanced i).nonce.toNat = min (c.nonce.toNat + i) (2 ^ 64 - 1) := by
  exact UInt64.toNat_ofNat_of_lt' (Nat.lt_of_le_of_lt (Nat.min_le_right _ _) (by decide))

@[simp] theorem advanced_zero (c : CipherState) : c.advanced 0 = c := by
  have hlt := c.nonce.toNat_lt
  rw [advanced, Nat.add_zero, Nat.min_eq_left (by omega), UInt64.ofNat_toNat]

theorem advanced_advanced (c : CipherState) (i : Nat) : (c.advanced 1).advanced i = c.advanced (i + 1) := by
  rw [advanced, advanced_nonce, advanced]
  congr 2
  omega

/-- One message: it is encrypted and the counter moves on, or the counter is at its end. -/
theorem encrypt_advances (h : P.Encryptable msg aad) :
    ∃ r, c.encrypt P msg aad = (c.advanced 1, r) ∧
      ((c.nonce.toNat + 1 < 2 ^ 64 ∧ ∃ ct, r = .ok ct ∧ P.aead_encrypt c.key (build_nonce c.nonce) msg aad = some ct) ∨
        (c.nonce.toNat + 1 = 2 ^ 64 ∧ r = .error .nonce_overflow)) := by
  obtain ⟨ct, hct⟩ := h c.key (build_nonce c.nonce)
  have hlt := c.nonce.toNat_lt
  by_cases hn : c.nonce.toNat + 1 < 2 ^ 64
  · refine ⟨.ok ct, ?_, .inl ⟨hn, ct, rfl, hct⟩⟩
    rw [encrypt_of hct hn, advanced, Nat.min_eq_left (by omega), ← toNat_add_one hn, UInt64.ofNat_toNat]
  · refine ⟨.error .nonce_overflow, ?_, .inr ⟨by omega, rfl⟩⟩
    have hend : checked_add c.nonce 1 = none := if_neg (by rwa [UInt64.toNat_one])
    have hstay : c.advanced 1 = c := by
      rw [advanced, Nat.min_eq_right (by omega), show 2 ^ 64 - 1 = c.nonce.toNat by omega, UInt64.ofNat_toNat]
    rw [encrypt, hct, hstay]
    simp only [hend]

theorem encryptions_messages (h : ∀ m ∈ ms, P.Encryptable m.1 m.2) {i : Nat} {m : Bytes × Bytes}
    (hm : ms[i]? = some m) :
    ∃ r, (encryptions P c (messages ms))[i]? = some ⟨c.advanced i, m.1, m.2, r, c.advanced (i + 1)⟩ ∧
      ((c.nonce.toNat + i + 1 < 2 ^ 64 ∧
          ∃ ct, r = .ok ct ∧ P.aead_encrypt c.key (build_nonce (c.advanced i).nonce) m.1 m.2 = some ct) ∨
        (2 ^ 64 ≤ c.nonce.toNat + i + 1 ∧ r = .error .nonce_overflow)) := by
  induction ms generalizing c i with
  | nil => simp at hm
  | cons m₀ ms ih =>
    obtain ⟨hhead, htail⟩ := List.forall_mem_cons.1 h
    obtain ⟨r, he, hr⟩ := encrypt_advances (c := c) hhead
    simp only [messages, List.map_cons, encryptions, he]
    cases i with
    | zero =>
      obtain rfl : m₀ = m := Option.some.inj hm
      rw [advanced_zero]
      refine ⟨r, rfl, ?_⟩
      rcases hr with hr | ⟨hn, hr⟩
      · exact .inl hr
      · exact .inr ⟨Nat.le_of_eq hn.symm, hr⟩
    | succ i =>
      obtain ⟨r', hget, hr'⟩ := ih (c := c.advanced 1) htail hm
      rw [advanced_advanced, advanced_advanced, advanced_nonce] at *
      refine ⟨r', hget, ?_⟩
      rcases hr' with ⟨hn, hr'⟩ | ⟨hn, hr'⟩
      · exact .inl ⟨by omega, hr'⟩
      · exact .inr ⟨by omega, hr'⟩

theorem final_messages (h : ∀ m ∈ ms, P.Encryptable m.1 m.2) : final P c (messages ms) = c.advanced ms.length := by
  induction ms generalizing c with
  | nil => exact (advanced_zero c).symm
  | cons m ms ih =>
    obtain ⟨hhead, htail⟩ := List.forall_mem_cons.1 h
    obtain ⟨r, he, -⟩ := encrypt_advances (c := c) hhead
    simp only [messages, List.map_cons, final, he]
    exact (ih htail).trans (advanced_advanced c ms.length)

/-- Any run of `encrypt` and `rekey`, each key new: no ciphertext that is
returned shares its key and nonce with another. And from any state, with an
AEAD that does not fail, exactly `remaining_nonces` messages are encrypted,
under the numbers from the counter on; from then on every call is refused, until
`rekey` gives the whole budget again. -/
theorem nonce_budget (P : Primitives) (key : Key) (nonce : UInt64) (ops : List Operation)
    (hfresh : (key :: new_keys ops).Nodup) :
    ((encryptions P (with_nonce key nonce) ops).filterMap Encryption.spent).Nodup ∧
    (∀ x ∈ encryptions P (with_nonce key nonce) ops, ∀ ct, x.result = .ok ct →
      P.aead_encrypt x.before.key (build_nonce x.before.nonce) x.plaintext x.associated_data = some ct) ∧
    ∀ (c : CipherState) (ms : List (Bytes × Bytes)), (∀ m ∈ ms, P.Encryptable m.1 m.2) →
      c.remaining_nonces.toNat = 2 ^ 64 - 1 - c.nonce.toNat ∧
      (∀ i m, ms[i]? = some m → ∃ x, (encryptions P c (messages ms))[i]? = some x ∧ x.plaintext = m.1 ∧
        x.associated_data = m.2 ∧
        if i < c.remaining_nonces.toNat then x.Releases P c.key (c.nonce.toNat + i) else x.Refused c.key) ∧
      ((final P c (messages ms)).is_exhausted = true ↔ c.remaining_nonces.toNat ≤ ms.length) ∧
      ∀ k, ((final P c (messages ms)).rekey k).key = k ∧
        ((final P c (messages ms)).rekey k).remaining_nonces.toNat = 2 ^ 64 - 1 := by
  refine ⟨spent_nodup hfresh, fun x hx ct hr => released x hx hr, fun c ms h => ?_⟩
  have hlt := c.nonce.toNat_lt
  have hrem := remaining_nonces_toNat c
  refine ⟨hrem, fun i m hm => ?_, ?_, fun k => ⟨rfl, remaining_nonces_toNat _⟩⟩
  · obtain ⟨r, hget, hr⟩ := encryptions_messages (c := c) h hm
    refine ⟨_, hget, rfl, rfl, ?_⟩
    have hnonce := advanced_nonce c i
    rcases hr with ⟨hn, ct, rfl, hct⟩ | ⟨hn, rfl⟩
    · rw [if_pos (by omega)]
      exact ⟨rfl, by rw [hnonce]; omega, ct, rfl, hct⟩
    · rw [if_neg (by omega)]
      refine ⟨rfl, is_exhausted_iff.2 (by rw [hnonce]; omega), rfl, ?_⟩
      rw [advanced, advanced, Nat.min_eq_right (by omega), Nat.min_eq_right (by omega)]
  · rw [final_messages h, is_exhausted_iff, advanced_nonce]
    omega

/-- The last number but one, a refusal, and the first number of a new key. -/
theorem nonce_budget_rekeyed :
    ((encryptions (Concrete.primitives true) (with_nonce (Concrete.key 5) 0xFFFFFFFFFFFFFFFE)
      [.encrypt [7] [], .encrypt [8] [], .rekey (Concrete.key 6), .encrypt [8] []]).filterMap
        Encryption.spent).Nodup :=
  (nonce_budget (Concrete.primitives true) (Concrete.key 5) 0xFFFFFFFFFFFFFFFE
    [.encrypt [7] [], .encrypt [8] [], .rekey (Concrete.key 6), .encrypt [8] []] (by decide)).1

end CipherState

end NoiseTunnel
