import Mathlib.Data.List.Nodup
import NoiseTunnel.Budget
/-!
# Resetting the counter

A sender may also set its counter back to 0 under the same key. That repeats a
nonce exactly if the key was used before and is used again.
-/
open Rust

namespace NoiseTunnel.CipherState

/-! ## Runs -/

/-- What a sender can do with its cipher. -/
inductive Use where
  | encrypt (plaintext associated_data : Bytes)
  | rekey (new_key : Key)
  | reset_nonce

/-- The keys and nonces of the ciphertexts that a run returns. -/
def spends (P : Primitives) : CipherState → List Use → List (Key × Nonce)
  | _, [] => []
  | c, .encrypt plaintext associated_data :: uses =>
    match c.encrypt P plaintext associated_data with
    | (c', .ok _) => (c.key, build_nonce c.nonce) :: spends P c' uses
    | (c', .error _) => spends P c' uses
  | c, .rekey new_key :: uses => spends P (c.rekey new_key) uses
  | c, .reset_nonce :: uses => spends P c.reset_nonce uses

def given_keys (uses : List Use) : List Key := uses.filterMap fun | .rekey k => some k | _ => none

/-- The AEAD does not fail in the run. -/
def Encrypting (P : Primitives) (uses : List Use) : Prop := ∀ msg aad, .encrypt msg aad ∈ uses → P.Encryptable msg aad

/-- Does a run encrypt under a key that was used before a reset? `used` says
whether the present key was used, `back` whether the counter was set back since. -/
def reuses : Bool → Bool → List Use → Bool
  | _, _, [] => false
  | _, back, .encrypt _ _ :: uses => back || reuses true false uses
  | _, _, .rekey _ :: uses => reuses false false uses
  | used, _, .reset_nonce :: uses => reuses used used uses

/-! ## Exactly then -/

variable {P : Primitives} {c c' : CipherState} {uses : List Use} {S : List (Key × Nonce)} {used back : Bool}
  {msg aad : Bytes} {k : Key}

/-- A run has spent `S` and come to `c`; `uses` are still to come. -/
structure Epoch (S : List (Key × Nonce)) (c : CipherState) (used back : Bool) (uses : List Use) : Prop where
  nodup : S.Nodup
  /-- No key that is still to come was used. -/
  fresh : ∀ k ∈ given_keys uses, k ≠ c.key ∧ ∀ p ∈ S, p.1 ≠ k
  keys : (given_keys uses).Nodup
  /-- An unused key is at its first number; a used one has spent it. -/
  unused : used = false → c.nonce = 0 ∧ ∀ p ∈ S, p.1 ≠ c.key
  first : used = true → (c.key, build_nonce 0) ∈ S
  /-- After a reset the key is at its first number again; otherwise it is past what it spent. -/
  reset : back = true → used = true ∧ c.nonce = 0
  past : back = false → ∀ n, (c.key, build_nonce n) ∈ S → n.toNat < c.nonce.toNat

theorem epoch_new (hkeys : (k :: given_keys uses).Nodup) : Epoch [] (new k) false false uses where
  nodup := List.nodup_nil
  fresh k' hk' := ⟨ne_of_mem_of_not_mem hk' (List.nodup_cons.1 hkeys).1, List.forall_mem_nil _⟩
  keys := (List.nodup_cons.1 hkeys).2
  unused _ := ⟨rfl, List.forall_mem_nil _⟩
  first h := by cases h
  reset h := by cases h
  past _ _ h := absurd h List.not_mem_nil

/-- One more message. -/
theorem Epoch.encrypt (h : Epoch S c used false (.encrypt msg aad :: uses)) (hn : c.nonce.toNat + 1 < 2 ^ 64) :
    Epoch (S ++ [(c.key, build_nonce c.nonce)]) ⟨c.key, c.nonce + 1⟩ true false uses := by
  have hnew : (c.key, build_nonce c.nonce) ∉ S := fun hmem => Nat.lt_irrefl _ (h.past rfl _ hmem)
  constructor
  · exact List.nodup_append'.2 ⟨h.nodup, List.nodup_singleton _, by simpa using hnew⟩
  · intro k hk
    obtain ⟨hne, hS⟩ := h.fresh k hk
    refine ⟨hne, fun p hp => ?_⟩
    rcases List.mem_append.1 hp with hp | hp
    · exact hS p hp
    · rw [List.mem_singleton.1 hp]
      exact hne.symm
  · exact h.keys
  · intro hu
    exact Bool.noConfusion hu
  · intro _
    cases used with
    | true => exact List.mem_append_left _ (h.first rfl)
    | false => exact List.mem_append_right _ (by rw [(h.unused rfl).1]; exact List.mem_singleton_self _)
  · intro hb
    exact Bool.noConfusion hb
  · intro _ n hmem
    rw [toNat_add_one hn]
    rcases List.mem_append.1 hmem with hmem | hmem
    · exact Nat.lt_succ_of_lt (h.past rfl n hmem)
    · have heq := build_nonce_inj (Prod.mk.inj (List.mem_singleton.1 hmem)).2
      rw [heq]
      exact Nat.lt_succ_self _

/-- At the end of the counter nothing is encrypted; the key was used. -/
theorem Epoch.exhausted (h : Epoch S c used false (.encrypt msg aad :: uses)) (hn : c.nonce.toNat + 1 = 2 ^ 64) :
    Epoch S c true false uses where
  nodup := h.nodup
  fresh := h.fresh
  keys := h.keys
  unused hu := Bool.noConfusion hu
  first _ := by
    cases used with
    | true => exact h.first rfl
    | false =>
      rw [(h.unused rfl).1] at hn
      cases hn
  reset hb := Bool.noConfusion hb
  past := h.past

theorem Epoch.rekey (h : Epoch S c used back (.rekey k :: uses)) : Epoch S (c.rekey k) false false uses := by
  obtain ⟨hk, hkeys⟩ := List.nodup_cons.1 h.keys
  have hS := (h.fresh k List.mem_cons_self).2
  constructor
  · exact h.nodup
  · intro k' hk'
    exact ⟨ne_of_mem_of_not_mem hk' hk, (h.fresh k' (List.mem_cons_of_mem k hk')).2⟩
  · exact hkeys
  · intro _
    exact ⟨rfl, hS⟩
  · intro hu
    exact Bool.noConfusion hu
  · intro hb
    exact Bool.noConfusion hb
  · intro _ n hmem
    exact absurd rfl (hS _ hmem)

theorem Epoch.reset_nonce (h : Epoch S c used back (.reset_nonce :: uses)) : Epoch S c.reset_nonce used used uses where
  nodup := h.nodup
  fresh := h.fresh
  keys := h.keys
  unused hu := ⟨rfl, (h.unused hu).2⟩
  first := h.first
  reset hb := ⟨hb, rfl⟩
  past hb _ hmem := absurd rfl ((h.unused hb).2 _ hmem)

/-- By induction on what is still to come. -/
theorem Epoch.nodup_iff (h : Epoch S c used back uses) (he : Encrypting P uses) :
    (S ++ spends P c uses).Nodup ↔ reuses used back uses = false := by
  induction uses generalizing S c used back with
  | nil => simp [spends, reuses, h.nodup]
  | cons u uses ih =>
    have he' : Encrypting P uses := fun msg aad hmem => he msg aad (List.mem_cons_of_mem u hmem)
    cases u with
    | rekey k => exact ih h.rekey he'
    | reset_nonce => exact ih h.reset_nonce he'
    | encrypt msg aad =>
      obtain ⟨r, hen, hr⟩ := encrypt_advances (c := c) (he msg aad List.mem_cons_self)
      rw [reuses]
      cases back with
      | true =>
        -- the first number of the key is spent once more
        obtain ⟨hu, hzero⟩ := h.reset rfl
        refine iff_of_false (fun hnodup => ?_) Bool.noConfusion
        rcases hr with ⟨-, ct, rfl, -⟩ | ⟨hn, -⟩
        · simp only [spends, hen] at hnodup
          have hfirst := h.first hu
          rw [hzero] at hnodup
          exact (List.nodup_append'.1 hnodup).2.2 hfirst List.mem_cons_self
        · rw [hzero] at hn
          cases hn
      | false =>
        rw [Bool.false_or]
        rcases hr with ⟨hn, ct, rfl, -⟩ | ⟨hn, rfl⟩
        · have hrest := ih (h.encrypt hn) he'
          rw [List.append_assoc, ← (encrypt_next hen).1] at hrest
          simp only [spends, hen]
          exact hrest
        · simp only [spends, hen, encrypt_error hen]
          exact ih (h.exhausted hn) he'

/-- From a new key on, each key given once: two ciphertexts share key and nonce
exactly if the run encrypts under a key that it had used before it reset the
counter. -/
theorem reset_reuses (P : Primitives) (key : Key) (uses : List Use) (hfresh : (key :: given_keys uses).Nodup)
    (he : Encrypting P uses) : (spends P (new key) uses).Nodup ↔ reuses false false uses = false :=
  (epoch_new hfresh).nodup_iff he

/-- A reset before the first message and one after the last are harmless; one between two messages is not. -/
theorem reset_reuses_between :
    (spends (Concrete.primitives true) (new (Concrete.key 5))
        [.reset_nonce, .encrypt [7] [], .reset_nonce, .rekey (Concrete.key 6), .encrypt [7] []]).Nodup ∧
      ¬(spends (Concrete.primitives true) (new (Concrete.key 5)) [.encrypt [7] [], .reset_nonce, .encrypt [7] []]).Nodup := by
  have hencrypt : (Concrete.primitives true).Encryptable [7] [] :=
    fun k n => (Concrete.correct true).encrypt_some k n [7] [] (by decide)
  constructor
  · refine (reset_reuses _ _ _ (by decide) fun msg aad hmem => ?_).2 rfl
    obtain ⟨rfl, rfl⟩ : msg = [7] ∧ aad = [] := by simpa using hmem
    exact hencrypt
  · refine mt (reset_reuses _ _ _ (by decide) fun msg aad hmem => ?_).1 Bool.noConfusion
    obtain ⟨rfl, rfl⟩ : msg = [7] ∧ aad = [] := by simpa using hmem
    exact hencrypt

/-! ## The warning -/

theorem is_near_exhaustion_iff {threshold : UInt64} :
    c.is_near_exhaustion threshold = false ↔ c.nonce.toNat + threshold.toNat < 2 ^ 64 := by
  have hlt := c.nonce.toNat_lt
  rw [is_near_exhaustion, decide_eq_false_iff_not, UInt64.lt_iff_toNat_lt, remaining_nonces_toNat]
  omega

/-- No warning for a threshold: exactly then as many messages are all encrypted. -/
theorem near_exhaustion_iff {ms : List (Bytes × Bytes)} (h : ∀ m ∈ ms, P.Encryptable m.1 m.2) {threshold : UInt64}
    (hlen : ms.length = threshold.toNat) :
    c.is_near_exhaustion threshold = false ↔
      ∀ (i : ℕ) (m : Bytes × Bytes), ms[i]? = some m →
        ∃ (x : Encryption) (ct : Bytes), (encryptions P c (messages ms))[i]? = some x ∧ x.result = .ok ct := by
  rw [is_near_exhaustion_iff, ← hlen]
  constructor
  · intro hn i m hm
    have hi := (List.getElem?_eq_some_iff.1 hm).1
    obtain ⟨r, hget, ⟨-, ct, rfl, -⟩ | ⟨hend, -⟩⟩ := encryptions_messages (c := c) h hm
    · exact ⟨_, ct, hget, rfl⟩
    · omega
  · intro hall
    by_contra hn
    have hlt := c.nonce.toNat_lt
    -- the message for which no number is left
    have hm := List.getElem?_eq_getElem (l := ms) (show 2 ^ 64 - 1 - c.nonce.toNat < ms.length by omega)
    obtain ⟨x, ct, hx, hct⟩ := hall _ _ hm
    obtain ⟨r, hget, ⟨hroom, -⟩ | ⟨-, rfl⟩⟩ := encryptions_messages (c := c) h hm
    · omega
    · rw [hget] at hx
      cases hx
      cases hct

end NoiseTunnel.CipherState
