import NoiseTunnel.Replay
import Mathlib.Logic.Relation
/-!
# What the filter answers

`has_seen` says beforehand how a call would end, and an answer of yes is
never taken back.
-/
open Rust

namespace NoiseTunnel.ReplayFilter

variable {f f' : ReplayFilter} {seq : UInt64} {c : Bool} {S : Finset ℕ} {w : UInt64} {calls : List Call}

/-! ## One filter -/

theorem Stands.has_seen (h : Stands f S) (seq : UInt64) :
    f.has_seen seq = .ok (decide ¬Window.Accepts f.window_size.toNat S seq.toNat) := by
  have hw := f.window_le
  unfold ReplayFilter.has_seen
  by_cases hi : f.initialized = false
  · obtain rfl := h.unset hi
    simp [hi, pure_eq_ok, Window.Accepts]
  simp only [Bool.not_eq_false] at hi
  simp only [(h.window hi).accepts_iff, hi, Bool.not_true, Bool.false_eq_true, if_false, gt_iff_lt,
    UInt64.lt_iff_toNat_lt, ge_iff_le, UInt64.le_iff_toNat_le, pure_eq_ok]
  by_cases hlt : f.last_seq.toNat < seq.toNat
  · simp [hlt]
  obtain ⟨d, ed, hd⟩ := sub_of_le (x := f.last_seq) (y := seq) (Nat.le_of_not_lt hlt)
  simp only [hlt, if_false, ed, ok_bind, hd, false_or]
  by_cases hold : f.window_size.toNat ≤ f.last_seq.toNat - seq.toNat
  · simp [hold, Nat.not_lt.2 hold]
  · rw [if_neg hold, shl_of_lt (by omega), ok_bind, hd]
    simp only [bit_test (by omega : f.last_seq.toNat - seq.toNat < 128)]
    simp [Nat.lt_of_not_le hold, Nat.le_of_not_lt hlt]

theorem Sound.min_valid_seq (h : Sound f S) (hs : Stands f S) :
    f.min_valid_seq.toNat = Window.top S - (f.window_size.toNat - 1) := by
  unfold ReplayFilter.min_valid_seq
  by_cases hi : f.initialized = false
  · rw [hs.unset hi, hi]
    simp [Window.top]
  · simp only [Bool.not_eq_false] at hi
    rw [hi, Bool.not_true, if_neg Bool.false_ne_true, toNat_saturating_sub, toNat_saturating_sub, h.last_seq hs,
      UInt64.toNat_one]

/-! ## Later filters -/

/-- `f'` comes from `f` by calls alone, without a `reset`. -/
def Further (c : Bool) : ReplayFilter → ReplayFilter → Prop :=
  Relation.ReflTransGen fun f f' => ∃ seq r, f.validate_and_record c seq = .ok (f', r)

/-- Calls keep the highest number or raise it, and what is refused stays refused. -/
theorem Run.further (h : Run c w f calls) (hf : Further c f f') :
    ∃ calls', Run c w f' calls' ∧ Window.top (accepted calls).toFinset ≤ Window.top (accepted calls').toFinset ∧
      ∀ n, ¬Window.Accepts (clamp w 1 128).toNat (accepted calls).toFinset n →
        ¬Window.Accepts (clamp w 1 128).toNat (accepted calls').toFinset n := by
  induction hf with
  | refl => exact ⟨calls, h, Nat.le_refl _, fun _ hn => hn⟩
  | @tail g g' _ hstep ih =>
    obtain ⟨calls', hrun, htop, hrefused⟩ := ih
    obtain ⟨seq, r, e⟩ := hstep
    have hr := (hrun.stands.2.recorded seq).1
    rw [validate_and_record_eq_ok e, hrun.window_size] at hr
    refine ⟨calls' ++ [(seq, r)], hrun.call e, ?_, fun n hn => ?_⟩
    · rw [accepted_record hr]
      exact htop.trans (Window.top_le_top_record _ _ _)
    · rw [accepted_record hr]
      exact Window.not_accepts_record (hrefused n hn) _

/-- A call fails just where `has_seen` says yes, the answer is right on both
sides of the window and inside it, and no later call takes a yes back. -/
theorem queries_truthful (h : Run c w f calls) (seq : UInt64) :
    ((∃ f' r, f.validate_and_record c seq = .ok (f', r)) ↔ (c = true → calls.length + 1 < 2 ^ 64)) ∧
    ∃ seen, f.has_seen seq = .ok seen ∧
      (∀ f' r, f.validate_and_record c seq = .ok (f', r) → ((∃ e, r = .error e) ↔ seen = true)) ∧
      (f.highest_seen < seq → seen = false) ∧
      (seq < f.min_valid_seq → seen = true) ∧
      (f.min_valid_seq ≤ seq → seq ≤ f.highest_seen → (seen = true ↔ seq.toNat ∈ accepted calls)) ∧
      ∀ f', Further c f f' → (seen = true → f'.has_seen seq = .ok true) ∧
        f.min_valid_seq ≤ f'.min_valid_seq ∧ f.highest_seen ≤ f'.highest_seen := by
  have hs := h.stands.2
  have hsound := h.sound
  have hw := f.window_pos
  have hlast := hsound.last_seq hs
  have hmin := hsound.min_valid_seq hs
  refine ⟨h.call_returns seq, _, hs.has_seen seq, fun f' r e => ?_, fun hlt => ?_, fun hlt => ?_, fun hle hge => ?_,
    fun f' hf => ?_⟩
  · have hr := (hs.recorded seq).1
    rw [validate_and_record_eq_ok e] at hr
    rw [decide_eq_true_iff, ← hr]
    cases r <;> simp
  · rw [UInt64.lt_iff_toNat_lt, highest_seen, hlast] at hlt
    simp [Window.Accepts, hlt]
  · rw [UInt64.lt_iff_toNat_lt, hmin] at hlt
    rw [decide_eq_true_iff]
    rintro (he | hgt | ⟨hd, -⟩)
    · rw [he] at hlt
      simp [Window.top] at hlt
    · omega
    · omega
  · rw [UInt64.le_iff_toNat_le, hmin] at hle
    rw [UInt64.le_iff_toNat_le, highest_seen, hlast] at hge
    rw [decide_eq_true_iff, Window.accepts_iff_of_lt (by omega), not_not, List.mem_toFinset]
  · obtain ⟨calls', hrun, htop, hrefused⟩ := h.further hf
    have hs' := hrun.stands.2
    have hwin : f'.window_size = f.window_size := by rw [hrun.window_size, h.window_size]
    refine ⟨fun hseen => ?_, ?_, ?_⟩
    · rw [decide_eq_true_iff, h.window_size] at hseen
      rw [hs'.has_seen, hrun.window_size, decide_eq_true (hrefused _ hseen)]
    · rw [UInt64.le_iff_toNat_le, hmin, hrun.sound.min_valid_seq hs', hwin]
      omega
    · rw [UInt64.le_iff_toNat_le, highest_seen, highest_seen, hlast, hrun.sound.last_seq hs']
      exact htop

/-- After 10 and 100 the window of 64 has passed 10, and 37 is the lowest it reaches. -/
theorem queries_truthful_passed :
    ∃ f, Run true 64 f [(10, .ok ()), (100, .ok ())] ∧ f.min_valid_seq = 37 ∧ f.has_seen 10 = .ok true ∧
      f.has_seen 37 = .ok false := by
  have hr : ∃ f, Run true 64 f [(10, .ok ()), (100, .ok ())] ∧ f.min_valid_seq = 37 ∧ f.highest_seen = 100 :=
    ⟨_, .call (.call .new rfl) rfl, rfl, rfl⟩
  obtain ⟨f, hr, hmin, hmax⟩ := hr
  obtain ⟨-, seen, e, -, -, hbelow, -⟩ := queries_truthful hr 10
  obtain ⟨-, seen', e', -, -, -, hin, -⟩ := queries_truthful hr 37
  rw [hbelow (by rw [hmin]; decide)] at e
  refine ⟨f, hr, hmin, e, ?_⟩
  have hnot : ¬seen' = true := mt (hin (by rw [hmin]; decide) (by rw [hmax]; decide)).1 (by decide)
  rw [e', Bool.eq_false_iff.2 hnot]

end NoiseTunnel.ReplayFilter
