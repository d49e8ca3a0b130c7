import Mathlib.Logic.Relation
import Mathlib.Tactic.Common
/-!
# Fair schedules

Parties share a state and take turns in an order that someone else chooses; a
party that has to wait leaves the state as it is. Where only one party can move
at a time, every fair order ends in the same place.
-/

namespace Schedule

variable {π σ : Type} (step : π → σ → σ)

/-- The state after the first `n` turns of `sched`. -/
def run (sched : Nat → π) (s : σ) : Nat → σ
  | 0 => s
  | n + 1 => step (sched n) (run sched s n)

/-- Every party gets a turn again and again. -/
def Fair (sched : Nat → π) : Prop := ∀ p n, ∃ d, sched (n + d) = p

/-- Only one party can move, from `s` to `s'`. -/
def Moves (s s' : σ) : Prop := ∃ p, step p s = s' ∧ ∀ q, q ≠ p → step q s = s

/-- Nobody can move. -/
def Rests (s : σ) : Prop := ∀ p, step p s = s

variable {step} {sched : Nat → π} {s s' : σ}

/-- What every turn preserves lasts. -/
theorem run_inv (I : σ → Prop) (hI : ∀ p s, I s → I (step p s)) {n k : Nat} (h : I (run step sched s n)) (hk : n ≤ k) :
    I (run step sched s k) := by
  induction hk with
  | refl => exact h
  | step _ ih => exact hI _ _ ih

/-- What can move does, and until then nothing changes. -/
theorem Fair.moves {s₀ : σ} (hf : Fair sched) {n : Nat} (hn : run step sched s₀ n = s) (h : Moves step s s') :
    ∃ m, n ≤ m ∧ run step sched s₀ m = s' := by
  obtain ⟨p, hp, hother⟩ := h
  obtain ⟨d, hd⟩ := hf p n
  -- induction on how far off the turn of `p` is
  induction d generalizing n with
  | zero => exact ⟨n + 1, Nat.le_succ n, by rw [run, hn, ← hp, ← hd]; rfl⟩
  | succ d ih =>
    by_cases hq : sched n = p
    · exact ⟨n + 1, Nat.le_succ n, by rw [run, hn, hq, hp]⟩
    · have hn' : run step sched s₀ (n + 1) = s := by rw [run, hn, hother _ hq]
      obtain ⟨m, hm, hr⟩ := ih hn' (by rw [← hd]; congr 1; omega)
      exact ⟨m, Nat.le_of_succ_le hm, hr⟩

theorem Fair.reached (hf : Fair sched) (h : Relation.ReflTransGen (Moves step) s s') :
    ∃ n, run step sched s n = s' := by
  induction h with
  | refl => exact ⟨0, rfl⟩
  | tail _ hm ih =>
    obtain ⟨n, hn⟩ := ih
    obtain ⟨m, -, hr⟩ := hf.moves hn hm
    exact ⟨m, hr⟩

theorem Rests.run (h : Rests step s') {n k : Nat} (hn : Schedule.run step sched s n = s') (hk : n ≤ k) :
    Schedule.run step sched s k = s' := by
  exact run_inv (· = s') (fun p _ hs => by rw [hs, h p]) hn hk

/-- Every fair order comes to rest where single moves do. -/
theorem Fair.settles (hf : Fair sched) (h : Relation.ReflTransGen (Moves step) s s') (hr : Rests step s') :
    ∃ n, ∀ k, n ≤ k → run step sched s k = s' := by
  obtain ⟨n, hn⟩ := hf.reached h
  exact ⟨n, fun k hk => hr.run hn hk⟩

/-- Where no run goes on for ever, some run comes to its end. -/
theorem exists_rest {r : σ → σ → Prop} (h : Acc (fun a b => r b a) s) :
    ∃ t, Relation.ReflTransGen r s t ∧ ∀ u, ¬r t u := by
  induction h with
  | intro s _ ih =>
    by_cases hs : ∃ t, r s t
    · obtain ⟨t, hst⟩ := hs
      obtain ⟨u, htu, hu⟩ := ih t hst
      exact ⟨u, .head hst htu, hu⟩
    · exact ⟨s, .refl, not_exists.1 hs⟩

end Schedule
