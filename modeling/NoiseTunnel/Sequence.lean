import NoiseTunnel.Effect
/-!
# Messages in sequence

The frames that a cipher makes of messages, one after another: their numbers
count up, and the counter never runs out.
-/
open Rust

namespace NoiseTunnel

/-- `fs` are the frames of the messages `ms`, encrypted one after another from `c` to `c'`. -/
inductive Encrypts (P : Primitives) :
    CipherState → List (MessageType × Bytes) → List WireFrame → CipherState → Prop
  | nil (c : CipherState) : Encrypts P c [] [] c
  | cons {c c₁ c' : CipherState} {t : MessageType} {pt aad ct : Bytes} {ms fs} : Carries t aad →
      c.encrypt P pt aad = (c₁, .ok ct) → Encrypts P c₁ ms fs c' →
      Encrypts P c ((t, pt) :: ms) (⟨t, c.current_nonce, ct⟩ :: fs) c'

namespace Encrypts

variable {P : Primitives} {c c₁ c' : CipherState} {ms : List (MessageType × Bytes)} {fs : List WireFrame}

theorem length_eq (h : Encrypts P c ms fs c') : fs.length = ms.length := by
  induction h with
  | nil c => rfl
  | cons _ _ _ ih => rw [List.length_cons, List.length_cons, ih]

theorem carries (h : Encrypts P c ms fs c') : ∀ f ∈ fs, ∃ aad, Carries f.msg_type aad := by
  induction h with
  | nil c => exact List.forall_mem_nil _
  | cons ht _ _ ih => exact List.forall_mem_cons.2 ⟨⟨_, ht⟩, ih⟩

/-- The counter has moved by the number of the frames. -/
theorem nonce_end (h : Encrypts P c ms fs c') : c'.nonce.toNat = c.nonce.toNat + fs.length := by
  induction h with
  | nil c => rfl
  | cons _ he _ ih =>
    rw [ih, checked_add_one (CipherState.encrypt_eq_ok.1 he).2.1, List.length_cons]
    omega

/-- The frames are numbered in order. -/
theorem nonce (h : Encrypts P c ms fs c') : ∀ i f, fs[i]? = some f → f.nonce.toNat = c.nonce.toNat + i := by
  induction h with
  | nil c => exact fun i f hi => by simp at hi
  | cons _ he _ ih =>
    intro i f hi
    cases i with
    | zero =>
      cases hi
      rfl
    | succ i =>
      rw [ih i f hi, checked_add_one (CipherState.encrypt_eq_ok.1 he).2.1]
      omega

/-- One more message at the end. -/
theorem snoc {t : MessageType} {pt aad ct : Bytes} (h : Encrypts P c ms fs c₁) (ht : Carries t aad)
    (he : c₁.encrypt P pt aad = (c', .ok ct)) :
    Encrypts P c (ms ++ [(t, pt)]) (fs ++ [⟨t, c₁.current_nonce, ct⟩]) c' := by
  induction h with
  | nil c => exact .cons ht he (.nil c')
  | cons ht' he' _ ih => exact .cons ht' he' (ih he)

end Encrypts

end NoiseTunnel
