import NoiseTunnel.Concrete
/-!
# The end of the receiving counter

`encrypt` fails where its counter has no next number. `decrypt` adds one
without asking: up to there it accepts numbers in strictly increasing order,
and there it panics or starts again from 0.
-/
open Rust

namespace NoiseTunnel

namespace CipherState

/-- The arguments of a `decrypt` call. -/
structure Arguments where
  ciphertext : Bytes
  associated_data : Bytes
  expected_nonce : UInt64

/-- A `decrypt` call: the state it found, and what it returned. -/
structure Call where
  before : CipherState
  arguments : Arguments
  result : Except Panic (CipherState × Except Error Bytes)

/-- The calls of a run, one after another. A panic ends it. -/
def calls (P : Primitives) : CipherState → List Arguments → List Call
  | _, [] => []
  | c, a :: as =>
    match c.decrypt P a.ciphertext a.associated_data a.expected_nonce with
    | .ok (c', r) => ⟨c, a, .ok (c', r)⟩ :: calls P c' as
    | .error p => [⟨c, a, .error p⟩]

namespace Call

/-- Accepted: one number further, from a counter that had a next one. -/
def Accepts (x : Call) : Prop :=
  x.before.is_exhausted = false ∧ ∃ c' msg, x.result = .ok (c', .ok msg) ∧ c'.key = x.before.key ∧
    c'.nonce.toNat = x.before.nonce.toNat + 1

/-- Refused: nothing has changed. -/
def Refuses (x : Call) : Prop := ∃ e, x.result = .ok (x.before, .error e)

/-- The call gets a ciphertext that authenticates under the current number, and
there is no next one. -/
def Overflows (P : Primitives) (x : Call) : Prop :=
  x.before.is_exhausted = true ∧ x.arguments.expected_nonce = x.before.nonce ∧
    ∃ msg, P.aead_decrypt x.before.key (build_nonce x.before.nonce) x.arguments.ciphertext
      x.arguments.associated_data = some msg

def accepted_nonce (x : Call) : Option UInt64 :=
  match x.result with
  | .ok (_, .ok _) => some x.arguments.expected_nonce
  | _ => none

end Call

variable {P : Primitives} {c : CipherState} {ct aad msg : Bytes} {n : UInt64} {as : List Arguments} {x : Call}

/-! ## One call -/

theorem decrypt_refuses (h : ¬(n = c.nonce ∧ ∃ msg, P.aead_decrypt c.key (build_nonce c.nonce) ct aad = some msg)) :
    ∃ e, c.decrypt P ct aad n = .ok (c, .error e) := by
  unfold decrypt
  by_cases hn : n = c.nonce
  · subst hn
    rw [if_neg (not_not.2 rfl)]
    cases hm : P.aead_decrypt c.key (build_nonce c.nonce) ct aad with
    | none => exact ⟨.aead_decrypt, rfl⟩
    | some msg => exact absurd ⟨rfl, msg, hm⟩ h
  · exact ⟨.nonce_order c.nonce n, if_pos hn⟩

/-- At the last number the addition panics or wraps. -/
theorem decrypt_exhausted (hc : c.is_exhausted = true)
    (h : P.aead_decrypt c.key (build_nonce c.nonce) ct aad = some msg) :
    c.decrypt P ct aad c.nonce =
      if P.overflow_checks then .error .addOverflow else .ok (⟨c.key, c.nonce + 1⟩, .ok msg) := by
  have hlast := is_exhausted_iff.1 hc
  have hadd : add P.overflow_checks c.nonce 1 =
      if P.overflow_checks then .error .addOverflow else .ok (c.nonce + 1) := by
    rw [add, UInt64.toNat_one, hlast]
    cases P.overflow_checks <;> rfl
  unfold decrypt
  simp only [ne_eq, not_true_eq_false, if_false, h, hadd]
  cases P.overflow_checks <;> rfl

/-- A call is accepted or refused as it should be unless it overflows. -/
theorem Call.sound_iff (h : x.result = x.before.decrypt P x.arguments.ciphertext x.arguments.associated_data
    x.arguments.expected_nonce) : x.Accepts ∨ x.Refuses ↔ ¬x.Overflows P := by
  obtain ⟨c, ⟨ct, aad, n⟩, r⟩ := x
  obtain rfl : r = c.decrypt P ct aad n := h
  by_cases hauth : n = c.nonce ∧ ∃ msg, P.aead_decrypt c.key (build_nonce c.nonce) ct aad = some msg
  · obtain ⟨rfl, msg, hm⟩ := hauth
    cases hc : c.is_exhausted with
    | false =>
      have hlt : c.nonce.toNat + 1 < 2 ^ 64 := by
        have hne := mt is_exhausted_iff.2 (by rw [hc]; exact Bool.noConfusion)
        have := c.nonce.toNat_lt
        omega
      refine iff_of_true (.inl ⟨hc, _, msg, decrypt_of hm hlt, rfl, toNat_add_one hlt⟩) ?_
      rintro ⟨hex, -⟩
      rw [hc] at hex
      cases hex
    | true =>
      refine iff_of_false ?_ (not_not.2 ⟨hc, rfl, msg, hm⟩)
      rintro (⟨hex, -⟩ | ⟨e, he⟩)
      · rw [hc] at hex
        cases hex
      · rw [decrypt_exhausted hc hm] at he
        split at he
        · cases he
        · cases congrArg Prod.snd (Except.ok.inj he)
  · refine iff_of_true (.inr (decrypt_refuses hauth)) ?_
    rintro ⟨-, hn, hm⟩
    exact hauth ⟨hn, hm⟩

/-! ## Runs -/

theorem result_of_mem_calls (h : x ∈ c.calls P as) :
    x.result = x.before.decrypt P x.arguments.ciphertext x.arguments.associated_data x.arguments.expected_nonce := by
  induction as generalizing c with
  | nil => cases h
  | cons a as ih =>
    rw [calls] at h
    split at h
    · rename_i hd
      rcases List.mem_cons.1 h with rfl | h
      · exact hd.symm
      · exact ih h
    · rename_i hd
      obtain rfl := List.mem_singleton.1 h
      exact hd.symm

theorem first_mem_calls (P : Primitives) (c : CipherState) (a : Arguments) (as : List Arguments) :
    ∃ x ∈ c.calls P (a :: as), x.before = c ∧ x.arguments = a := by
  rw [calls]
  split <;> exact ⟨_, List.mem_cons_self, rfl, rfl⟩

/-- Where nothing overflows, the numbers accepted from `c` on increase. -/
theorem accepted_increasing (h : ∀ x ∈ c.calls P as, x.Accepts ∨ x.Refuses) :
    ((c.calls P as).filterMap Call.accepted_nonce).Pairwise (· < ·) ∧
      ∀ n ∈ (c.calls P as).filterMap Call.accepted_nonce, c.nonce ≤ n := by
  induction as generalizing c with
  | nil => exact ⟨.nil, List.forall_mem_nil _⟩
  | cons a as ih =>
    rw [calls] at h ⊢
    cases hd : c.decrypt P a.ciphertext a.associated_data a.expected_nonce with
    | error p =>
      rw [hd] at h
      exact ⟨.nil, List.forall_mem_nil _⟩
    | ok y =>
      obtain ⟨c', r⟩ := y
      rw [hd] at h
      obtain ⟨hhead, htail⟩ := List.forall_mem_cons.1 h
      obtain ⟨hinc, hle⟩ := ih htail
      cases r with
      | error e =>
        -- a refused call leaves the counter
        obtain rfl : c' = c := by
          rcases hhead with ⟨-, c₁, msg, hr, -⟩ | ⟨e', hr⟩
          · cases hr
          · exact congrArg Prod.fst (Except.ok.inj hr)
        exact ⟨hinc, hle⟩
      | ok msg =>
        obtain ⟨hn, -, -, -⟩ := decrypt_eq_ok.1 hd
        have hnext : c'.nonce.toNat = c.nonce.toNat + 1 := by
          rcases hhead with ⟨-, c₁, msg₁, hr, -, hnext⟩ | ⟨e', hr⟩
          · obtain rfl : c' = c₁ := congrArg Prod.fst (Except.ok.inj hr)
            exact hnext
          · cases congrArg Prod.snd (Except.ok.inj hr)
        have hlt (m : UInt64) (hm : c'.nonce ≤ m) : c.nonce < m := by
          rw [UInt64.le_iff_toNat_le] at hm
          rw [UInt64.lt_iff_toNat_lt]
          omega
        simp only [List.filterMap_cons, Call.accepted_nonce, hn]
        refine ⟨List.pairwise_cons.2 ⟨fun m hm => hlt m (hle m hm), hinc⟩, ?_⟩
        refine List.forall_mem_cons.2 ⟨UInt64.le_refl _, fun m hm => ?_⟩
        exact UInt64.le_of_lt (hlt m (hle m hm))

/-- Over a whole run from any counter: every call moves the counter on by one
or leaves it, an exhausted state accepts nothing, and the accepted numbers
increase, exactly if no exhausted state is handed a ciphertext that
authenticates. -/
theorem decrypt_monotone_iff (P : Primitives) (key : Key) (nonce : UInt64) (as : List Arguments) :
    ((∀ x ∈ (with_nonce key nonce).calls P as, x.Accepts ∨ x.Refuses) ∧
      (((with_nonce key nonce).calls P as).filterMap Call.accepted_nonce).Pairwise (· < ·)) ↔
    ∀ x ∈ (with_nonce key nonce).calls P as, ¬x.Overflows P := by
  constructor
  · rintro ⟨hsound, -⟩ x hx
    exact (Call.sound_iff (result_of_mem_calls hx)).1 (hsound x hx)
  · intro h
    have hsound : ∀ x ∈ (with_nonce key nonce).calls P as, x.Accepts ∨ x.Refuses := fun x hx =>
      (Call.sound_iff (result_of_mem_calls hx)).2 (h x hx)
    exact ⟨hsound, (accepted_increasing hsound).1⟩

end CipherState

namespace Concrete

/-- A message encrypted under number `n`. -/
def numbered (msg : Bytes) (n : UInt64) : CipherState.Arguments where
  ciphertext := msg ++ tag (key 5) (CipherState.build_nonce n) msg []
  associated_data := []
  expected_nonce := n

theorem open_numbered (overflow_checks : Bool) (msg : Bytes) (n : UInt64) :
    (primitives overflow_checks).aead_decrypt (key 5) (CipherState.build_nonce n) (numbered msg n).ciphertext [] =
      some msg :=
  aead_decrypt_append (key 5) (CipherState.build_nonce n) msg []

end Concrete

/-- Without overflow checks the last number is followed by 0; with them the
call panics. -/
theorem CipherState.decrypt_wraps :
    (((with_nonce (Concrete.key 5) 0xFFFFFFFFFFFFFFFF).calls (Concrete.primitives false)
        [Concrete.numbered [7] 0xFFFFFFFFFFFFFFFF, Concrete.numbered [7] 0]).filterMap Call.accepted_nonce =
          [0xFFFFFFFFFFFFFFFF, 0]) ∧
      (((with_nonce (Concrete.key 5) 0xFFFFFFFFFFFFFFFF).calls (Concrete.primitives true)
        [Concrete.numbered [7] 0xFFFFFFFFFFFFFFFF]).map Call.result = [.error .addOverflow]) ∧
      ∀ overflow_checks, ¬∀ x ∈ (with_nonce (Concrete.key 5) 0xFFFFFFFFFFFFFFFF).calls
        (Concrete.primitives overflow_checks) [Concrete.numbered [7] 0xFFFFFFFFFFFFFFFF], x.Accepts ∨ x.Refuses := by
  refine ⟨by decide +kernel, by decide +kernel, fun overflow_checks h => ?_⟩
  obtain ⟨x, hx, hbefore, harguments⟩ := first_mem_calls (Concrete.primitives overflow_checks)
    (with_nonce (Concrete.key 5) 0xFFFFFFFFFFFFFFFF) (Concrete.numbered [7] 0xFFFFFFFFFFFFFFFF) []
  refine (Call.sound_iff (result_of_mem_calls hx)).1 (h x hx) ?_
  rw [Call.Overflows, hbefore, harguments]
  exact ⟨by decide, rfl, _, Concrete.open_numbered overflow_checks [7] 0xFFFFFFFFFFFFFFFF⟩

end NoiseTunnel
