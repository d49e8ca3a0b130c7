import NoiseTunnel.Budget
import NoiseTunnel.Exhaustion
/-!
# Two ciphers in step

A sender and a receiver with one key and counter. Calls of the receiver that
fail, wherever they come between the deliveries, do not move it: it decrypts
every ciphertext under its number and ends where the sender ends.
-/
open Rust

namespace NoiseTunnel

namespace CipherState

/-- A message with its associated data, and the ciphertext that `encrypt` returned. -/
structure Returned where
  plaintext : Bytes
  associated_data : Bytes
  ciphertext : Bytes
  deriving DecidableEq

def Encryption.returned (x : Encryption) : Option Returned :=
  match x.result with
  | .ok ct => some ⟨x.plaintext, x.associated_data, ct⟩
  | .error _ => none

/-- A call of the receiver: the next ciphertext of the sender, or any other. -/
inductive Delivery where
  | genuine (s : Returned)
  | inserted (a : Arguments)

def genuine (ds : List Delivery) : List Returned := ds.filterMap fun | .genuine s => some s | .inserted _ => none

/-- The calls' arguments: the ciphertexts are delivered under the numbers from `n` on. -/
def arguments (n : UInt64) : List Delivery → List Arguments
  | [] => []
  | .genuine s :: ds => ⟨s.ciphertext, s.associated_data, n⟩ :: arguments (n + 1) ds
  | .inserted a :: ds => a :: arguments n ds

/-- Not the number `n` whose turn it is, or nothing that the AEAD accepts under
it: not this ciphertext with this associated data. -/
def Garbage (P : Primitives) (key : Key) (n : UInt64) (a : Arguments) : Prop :=
  a.expected_nonce ≠ n ∨ P.aead_decrypt key (build_nonce n) a.ciphertext a.associated_data = none

/-- Every inserted call is garbage where it comes. -/
def Garbled (P : Primitives) (key : Key) : UInt64 → List Delivery → Prop
  | _, [] => True
  | n, .genuine _ :: ds => Garbled P key (n + 1) ds
  | n, .inserted a :: ds => Garbage P key n a ∧ Garbled P key n ds

instance (P : Primitives) (key : Key) (n : UInt64) (a : Arguments) : Decidable (Garbage P key n a) :=
  inferInstanceAs (Decidable (_ ∨ _))

instance instDecidableGarbled (P : Primitives) (key : Key) :
    (n : UInt64) → (ds : List Delivery) → Decidable (Garbled P key n ds)
  | _, [] => isTrue trivial
  | n, .genuine _ :: ds => instDecidableGarbled P key (n + 1) ds
  | n, .inserted _ :: ds =>
    have := instDecidableGarbled P key n ds
    inferInstanceAs (Decidable (_ ∧ _))

/-- A ciphertext is decrypted to its message, an inserted call fails and changes nothing. -/
def Delivery.Outcome : Delivery → Call → Prop
  | .genuine s, x => ∃ c', x.result = .ok (c', .ok s.plaintext)
  | .inserted _, x => x.Refuses

/-- The state that the receiver's calls leave. -/
def received (P : Primitives) : CipherState → List Arguments → Except Panic CipherState
  | c, [] => .ok c
  | c, a :: as => do
    let (c', _) ← c.decrypt P a.ciphertext a.associated_data a.expected_nonce
    received P c' as

variable {P : Primitives} {c c' : CipherState} {ms : List (Bytes × Bytes)} {ds : List Delivery}

/-- The ciphertexts `ss` are encrypted one after another from `c` to `c'`. -/
inductive Yields (P : Primitives) : CipherState → List Returned → CipherState → Prop
  | nil (c : CipherState) : Yields P c [] c
  | cons {c c₁ c' : CipherState} {s : Returned} {ss : List Returned} :
      c.encrypt P s.plaintext s.associated_data = (c₁, .ok s.ciphertext) → Yields P c₁ ss c' → Yields P c (s :: ss) c'

/-- A failed `encrypt` call returns no ciphertext and leaves the counter. -/
theorem yields_returned (P : Primitives) (c : CipherState) (ms : List (Bytes × Bytes)) :
    Yields P c ((encryptions P c (messages ms)).filterMap Encryption.returned) (final P c (messages ms)) := by
  induction ms generalizing c with
  | nil => exact .nil c
  | cons m ms ih =>
    simp only [messages, List.map_cons, encryptions, final]
    cases he : c.encrypt P m.1 m.2 with
    | mk c₁ r =>
      cases r with
      | ok ct => exact .cons he (ih c₁)
      | error e =>
        obtain rfl := encrypt_error he
        exact ih c₁

/-- What the receiver makes of the deliveries. -/
theorem Yields.delivered (hP : P.Correct) (h : Yields P c (genuine ds) c') (hg : Garbled P c.key c.nonce ds) :
    List.Forall₂ Delivery.Outcome ds (c.calls P (arguments c.nonce ds)) ∧
      received P c (arguments c.nonce ds) = .ok c' := by
  induction ds generalizing c with
  | nil =>
    cases h
    exact ⟨.nil, rfl⟩
  | cons d ds ih =>
    cases d with
    | genuine s =>
      cases h with
      | @cons _ c₁ _ _ _ he hrest =>
        have hd := decrypt_encrypted hP he
        obtain ⟨rfl, -⟩ := encrypt_next he
        obtain ⟨hout, hend⟩ := ih hrest hg
        simp only [arguments, calls, received, hd, ok_bind]
        exact ⟨.cons ⟨_, rfl⟩ hout, hend⟩
    | inserted a =>
      obtain ⟨hgarbage, hg⟩ := hg
      have hnot : ¬(a.expected_nonce = c.nonce ∧
          ∃ msg, P.aead_decrypt c.key (build_nonce c.nonce) a.ciphertext a.associated_data = some msg) := by
        rintro ⟨hn, msg, hm⟩
        rcases hgarbage with hne | hnone
        · exact hne hn
        · rw [hnone] at hm
          cases hm
      obtain ⟨e, he⟩ := decrypt_refuses hnot
      obtain ⟨hout, hend⟩ := ih h hg
      simp only [arguments, calls, received, he, ok_bind]
      exact ⟨.cons ⟨e, rfl⟩ hout, hend⟩

/-- Within the budget every message gets its ciphertext. -/
theorem returned_messages (h : ∀ m ∈ ms, P.Encryptable m.1 m.2) (hlen : ms.length ≤ c.remaining_nonces.toNat) :
    ((encryptions P c (messages ms)).filterMap Encryption.returned).map (fun s => (s.plaintext, s.associated_data)) =
      ms := by
  induction ms generalizing c with
  | nil => rfl
  | cons m ms ih =>
    obtain ⟨hhead, htail⟩ := List.forall_mem_cons.1 h
    obtain ⟨r, he, hr⟩ := encrypt_advances (c := c) hhead
    rw [List.length_cons, remaining_nonces_toNat] at hlen
    rcases hr with ⟨hn, ct, rfl, -⟩ | ⟨hn, rfl⟩
    · have hrest := ih (c := c.advanced 1) htail (by rw [remaining_nonces_toNat, advanced_nonce]; omega)
      simp only [messages, List.map_cons, encryptions, he]
      exact congrArg (m :: ·) hrest
    · omega

/-- A sender and a receiver from the same key and counter on, and any calls
that fail before, between and after the deliveries. Each ciphertext is
decrypted to its message under the next number, each inserted call fails, and
the counters end equal; as long as there are numbers left and the AEAD does not
fail, the ciphertexts are those of all the messages. -/
theorem stays_in_step (hP : P.Correct) (key : Key) (nonce : UInt64) (ms : List (Bytes × Bytes)) (ds : List Delivery)
    (hgenuine : genuine ds = (encryptions P (with_nonce key nonce) (messages ms)).filterMap Encryption.returned)
    (hgarbled : Garbled P key nonce ds) :
    List.Forall₂ Delivery.Outcome ds ((with_nonce key nonce).calls P (arguments nonce ds)) ∧
    received P (with_nonce key nonce) (arguments nonce ds) = .ok (final P (with_nonce key nonce) (messages ms)) ∧
    (ms.length ≤ (with_nonce key nonce).remaining_nonces.toNat → (∀ m ∈ ms, P.Encryptable m.1 m.2) →
      (genuine ds).map (fun s => (s.plaintext, s.associated_data)) = ms) := by
  have hyields := yields_returned P (with_nonce key nonce) ms
  rw [← hgenuine] at hyields
  obtain ⟨hout, hend⟩ := hyields.delivered hP hgarbled
  exact ⟨hout, hend, fun hlen h => hgenuine ▸ returned_messages h hlen⟩

end CipherState

namespace Concrete

/-- A message, as the sender returns it under number `n`. -/
def returned (msg : Bytes) (n : UInt64) : CipherState.Returned := ⟨msg, [], (numbered msg n).ciphertext⟩

/-- Two messages. Before the first comes its ciphertext with other associated
data, after it comes the same ciphertext again, and at the end an empty one. -/
def noisy : List CipherState.Delivery :=
  [.inserted { numbered [7] 0 with associated_data := [1] }, .genuine (returned [7] 0), .inserted (numbered [7] 0),
    .genuine (returned [8] 1), .inserted ⟨[], [], 2⟩]

end Concrete

open CipherState in
theorem CipherState.stays_in_step_noisy :
    received (Concrete.primitives true) (with_nonce (Concrete.key 5) 0) (arguments 0 Concrete.noisy) =
      .ok (final (Concrete.primitives true) (with_nonce (Concrete.key 5) 0) (messages [([7], []), ([8], [])])) :=
  (stays_in_step (Concrete.correct true) (Concrete.key 5) 0 [([7], []), ([8], [])] Concrete.noisy (by decide +kernel)
    (by decide +kernel)).2.1

end NoiseTunnel
