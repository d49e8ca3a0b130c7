import NoiseTunnel.ReplayFilter
import NoiseTunnel.Lib.Window
/-!
# The filter is a sliding window

The filter's bitmap stands for the set of all numbers it has accepted, over
any run of fewer than 2^64 calls.
-/
open Rust

namespace NoiseTunnel.ReplayFilter

variable {f f' : ReplayFilter} {seq : UInt64} {c : Bool} {S : Finset ℕ} {n : ℕ}

/-! ## One call -/

theorem one_shiftLeft (d : ℕ) : (1 : BitVec 128) <<< d = BitVec.twoPow 128 d := (BitVec.twoPow_eq 128 d).symm

theorem bit_test {b : BitVec 128} {d : ℕ} (hd : d < 128) :
    b &&& (1 : BitVec 128) <<< d ≠ 0 ↔ b.getLsbD d = true := by
  rw [one_shiftLeft, BitVec.and_twoPow]
  split
  · refine iff_of_true (fun h => ?_) ‹_›
    have := congrArg (·.getLsbD d) h
    simp [hd] at this
  · exact iff_of_false (fun h => h rfl) ‹_›

theorem bit_mark {b : BitVec 128} {d i : ℕ} (hi : i < 128) :
    (b ||| (1 : BitVec 128) <<< d).getLsbD i = true ↔ b.getLsbD i = true ∨ i = d := by
  rw [one_shiftLeft, BitVec.getLsbD_or, BitVec.getLsbD_twoPow]
  simp only [Bool.or_eq_true, Bool.and_eq_true, decide_eq_true_eq]
  constructor
  · rintro (h | ⟨-, rfl⟩)
    · exact .inl h
    · exact .inr rfl
  · rintro (h | rfl)
    · exact .inl h
    · exact .inr ⟨hi, rfl⟩

theorem bit_shift {b : BitVec 128} {d i : ℕ} (hi : i < 128) :
    (b <<< d ||| 1).getLsbD i = true ↔ i = 0 ∨ (d ≤ i ∧ b.getLsbD (i - d) = true) := by
  have h1 : (1 : BitVec 128).getLsbD i = decide (i = 0) := by simp [BitVec.getLsbD_one]
  rw [BitVec.getLsbD_or, BitVec.getLsbD_shiftLeft, h1]
  simp only [Bool.or_eq_true, Bool.and_eq_true, Bool.not_eq_true', decide_eq_true_eq, decide_eq_false_iff_not, hi,
    true_and, Nat.not_lt]
  exact or_comm

/-- What a call leaves and returns, with counters that wrap. -/
def recorded (f : ReplayFilter) (seq : UInt64) : ReplayFilter × Except Error Unit :=
  if f.initialized = false then
    ({ f with
        total_seen := f.total_seen + 1
        last_seq := seq
        bitmap := 1
        initialized := true
        total_accepted := f.total_accepted + 1 }, .ok ())
  else if f.last_seq.toNat < seq.toNat then
    ({ f with
        total_seen := f.total_seen + 1
        bitmap := if seq.toNat - f.last_seq.toNat < f.window_size.toNat then
          f.bitmap <<< (seq.toNat - f.last_seq.toNat) ||| 1 else 1
        last_seq := seq
        total_accepted := f.total_accepted + 1 }, .ok ())
  else if f.window_size.toNat ≤ f.last_seq.toNat - seq.toNat then
    ({ f with total_seen := f.total_seen + 1, total_rejected := f.total_rejected + 1 },
      .error (.replay_too_old seq f.window_size))
  else if f.bitmap.getLsbD (f.last_seq.toNat - seq.toNat) then
    ({ f with total_seen := f.total_seen + 1, total_rejected := f.total_rejected + 1 }, .error (.replay_seen seq))
  else
    ({ f with
        total_seen := f.total_seen + 1
        bitmap := f.bitmap ||| (1 : BitVec 128) <<< (f.last_seq.toNat - seq.toNat)
        total_accepted := f.total_accepted + 1 }, .ok ())

/-- A call can only stop on a counter. -/
theorem validate_and_record_eq (c : Bool) (f : ReplayFilter) (seq : UInt64) :
    f.validate_and_record c seq = (do
      let _ ← add c f.total_seen 1
      let _ ← add c (if (f.recorded seq).2 = .ok () then f.total_accepted else f.total_rejected) 1
      .ok (f.recorded seq)) := by
  unfold validate_and_record
  apply add_bind
  by_cases hi : f.initialized = false
  · have hr : f.recorded seq = _ := if_pos hi
    simp only [hr, hi, Bool.not_false, if_true]
    exact add_bind rfl
  simp only [Bool.not_eq_false] at hi
  simp only [recorded, hi, Bool.not_true, Bool.false_eq_true, if_false, gt_iff_lt, UInt64.lt_iff_toNat_lt, ge_iff_le,
    UInt64.le_iff_toNat_le, Bool.true_eq_false]
  by_cases hlt : f.last_seq.toNat < seq.toNat
  · obtain ⟨d, ed, hd⟩ := sub_of_le (x := seq) (y := f.last_seq) (by omega)
    simp only [hlt, if_true, ed, ok_bind, hd]
    split
    · rw [shl_of_lt (by have := f.window_le; omega), hd]
      exact add_bind rfl
    · exact add_bind rfl
  · obtain ⟨d, ed, hd⟩ := sub_of_le (x := f.last_seq) (y := seq) (by omega)
    simp only [hlt, if_false, ed, ok_bind, hd]
    split
    · exact add_bind rfl
    · have hw := f.window_le
      rw [shl_of_lt (by omega), hd, ok_bind]
      simp only [bit_test (by omega : f.last_seq.toNat - seq.toNat < 128)]
      split <;> exact add_bind rfl

theorem validate_and_record_eq_ok {y : ReplayFilter × Except Error Unit} (e : f.validate_and_record c seq = .ok y) :
    f.recorded seq = y := by
  rw [validate_and_record_eq] at e
  obtain ⟨-, -, e⟩ := bind_eq_ok.1 e
  obtain ⟨-, -, e⟩ := bind_eq_ok.1 e
  exact Except.ok.inj e

/-- While no counter is full, or in a build where counters wrap, a call returns. -/
theorem validate_and_record_returns (h : c = true → f.total_seen.toNat + 1 < 2 ^ 64 ∧
      f.total_accepted.toNat + 1 < 2 ^ 64 ∧ f.total_rejected.toNat + 1 < 2 ^ 64) :
    f.validate_and_record c seq = .ok (f.recorded seq) := by
  have hadd {x : UInt64} (hx : c = true → x.toNat + 1 < 2 ^ 64) : add c x 1 = .ok (x + 1) := by
    refine add_eq_ok.2 ⟨?_, rfl⟩
    cases c with
    | false => exact .inr rfl
    | true => exact .inl (by simpa using hx rfl)
  rw [validate_and_record_eq, hadd fun hc => (h hc).1, ok_bind, hadd, ok_bind]
  intro hc
  split
  · exact (h hc).2.1
  · exact (h hc).2.2

/-! ## The set the filter stands for -/

/-- `f` has had `n` calls and accepted the numbers in `S`. -/
structure Tracks (f : ReplayFilter) (S : Finset ℕ) (n : ℕ) : Prop where
  unset : f.initialized = false → S = ∅
  window : f.initialized = true →
    Window.Represents f.window_size.toNat S f.last_seq.toNat (fun d => f.bitmap.getLsbD d = true)
  seen : f.total_seen.toNat = n
  accepted : f.total_accepted.toNat = S.card
  balance : f.total_accepted.toNat + f.total_rejected.toNat = n

theorem tracks_with_window_size (w : UInt64) : Tracks (with_window_size w) ∅ 0 where
  unset _ := rfl
  window h := by cases h
  seen := rfl
  accepted := rfl
  balance := rfl

theorem tracks_reset (f : ReplayFilter) : Tracks f.reset ∅ 0 where
  unset _ := rfl
  window h := by cases h
  seen := rfl
  accepted := rfl
  balance := rfl

/-- What `Tracks` says of the window alone. -/
structure Stands (f : ReplayFilter) (S : Finset ℕ) : Prop where
  unset : f.initialized = false → S = ∅
  window : f.initialized = true →
    Window.Represents f.window_size.toNat S f.last_seq.toNat (fun d => f.bitmap.getLsbD d = true)

theorem Tracks.stands (h : Tracks f S n) : Stands f S := ⟨h.unset, h.window⟩

theorem Stands.accept {w m : ℕ} (ha : Window.Accepts w S m) (hi : f'.initialized = true)
    (hw : Window.Represents f'.window_size.toNat (insert m S) f'.last_seq.toNat
      (fun d => f'.bitmap.getLsbD d = true)) : Stands f' (Window.record w S m) := by
  rw [Window.record_of_accepts ha]
  refine ⟨fun hu => ?_, fun _ => hw⟩
  rw [hi] at hu
  cases hu

/-- A call decides as the window does, and the filter then stands for the
window's new set. -/
theorem Stands.recorded (h : Stands f S) (seq : UInt64) :
    ((f.recorded seq).2 = .ok () ↔ Window.Accepts f.window_size.toNat S seq.toNat) ∧
    Stands (f.recorded seq).1 (Window.record f.window_size.toNat S seq.toNat) := by
  have hw := f.window_le
  unfold ReplayFilter.recorded
  by_cases hi : f.initialized = false
  · -- the first number
    rw [if_pos hi]
    obtain rfl := h.unset hi
    have hacc : Window.Accepts f.window_size.toNat ∅ seq.toNat := .inl rfl
    refine ⟨iff_of_true rfl hacc, .accept hacc rfl (.first fun d _ => ?_)⟩
    simp [BitVec.getLsbD_one]
  have hwin := h.window (by simpa using hi)
  rw [if_neg hi, hwin.accepts_iff]
  by_cases hlt : f.last_seq.toNat < seq.toNat
  · -- above the window
    have hacc : Window.Accepts f.window_size.toNat S seq.toNat := hwin.accepts_iff.2 (.inl hlt)
    rw [if_pos hlt]
    refine ⟨iff_of_true rfl (.inl hlt), .accept hacc (by simpa using hi) ?_⟩
    by_cases hd : seq.toNat - f.last_seq.toNat < f.window_size.toNat
    · simp only [if_pos hd]
      exact hwin.shift hlt (fun d _ => bit_shift (by omega))
    · simp only [if_neg hd]
      exact hwin.jump hlt (by omega) (fun d _ => by simp [BitVec.getLsbD_one])
  rw [if_neg hlt]
  by_cases hold : f.window_size.toNat ≤ f.last_seq.toNat - seq.toNat
  · -- below the window
    rw [if_pos hold]
    have hrej : ¬(f.last_seq.toNat < seq.toNat ∨ f.last_seq.toNat - seq.toNat < f.window_size.toNat ∧
        seq.toNat ≤ f.last_seq.toNat ∧ ¬f.bitmap.getLsbD (f.last_seq.toNat - seq.toNat) = true) := by omega
    rw [Window.record_of_not_accepts (mt hwin.accepts_iff.1 hrej)]
    exact ⟨iff_of_false (by simp) hrej, ⟨h.unset, h.window⟩⟩
  rw [if_neg hold]
  by_cases hbit : f.bitmap.getLsbD (f.last_seq.toNat - seq.toNat) = true
  · -- seen before
    rw [if_pos hbit]
    have hrej : ¬(f.last_seq.toNat < seq.toNat ∨ f.last_seq.toNat - seq.toNat < f.window_size.toNat ∧
        seq.toNat ≤ f.last_seq.toNat ∧ ¬f.bitmap.getLsbD (f.last_seq.toNat - seq.toNat) = true) := by
      rintro (hc | ⟨-, -, hc⟩)
      · exact hlt hc
      · exact hc hbit
    rw [Window.record_of_not_accepts (mt hwin.accepts_iff.1 hrej)]
    exact ⟨iff_of_false (by simp) hrej, ⟨h.unset, h.window⟩⟩
  · -- new, inside the window
    rw [if_neg hbit]
    have hacc : f.last_seq.toNat < seq.toNat ∨ f.last_seq.toNat - seq.toNat < f.window_size.toNat ∧
        seq.toNat ≤ f.last_seq.toNat ∧ ¬f.bitmap.getLsbD (f.last_seq.toNat - seq.toNat) = true :=
      .inr ⟨Nat.lt_of_not_le hold, Nat.le_of_not_lt hlt, hbit⟩
    exact ⟨iff_of_true rfl hacc, .accept (hwin.accepts_iff.2 hacc) (by simpa using hi)
      (hwin.mark (Nat.le_of_not_lt hlt) fun d _ => bit_mark (by omega))⟩

/-- A filter without a number has 0 as its highest, and every bit that is set,
also outside the window, stands for a number in `S`. -/
structure Sound (f : ReplayFilter) (S : Finset ℕ) : Prop where
  fresh : f.initialized = false → f.last_seq = 0
  covers : Window.Covers S f.last_seq.toNat (fun d => f.bitmap.getLsbD d = true)

theorem sound_with_window_size (w : UInt64) : Sound (with_window_size w) ∅ where
  fresh _ := rfl
  covers d hd := by simp [with_window_size] at hd

theorem sound_reset (f : ReplayFilter) : Sound f.reset ∅ where
  fresh _ := rfl
  covers d hd := by simp [reset] at hd

theorem Sound.recorded {T : Finset ℕ} (h : Sound f S) (hS : S ⊆ T)
    (hT : (f.recorded seq).2 = .ok () → seq.toNat ∈ T) : Sound (f.recorded seq).1 T := by
  have hone (d : ℕ) (hd : (1 : BitVec 128).getLsbD d = true) : d = 0 := by simpa [BitVec.getLsbD_one] using hd
  have hcov := h.covers.subset hS
  revert hT
  unfold ReplayFilter.recorded
  by_cases hi : f.initialized = false
  · rw [if_pos hi]
    exact fun hT => ⟨fun hu => absurd hu (by simp), Window.covers_first (hT rfl) hone⟩
  rw [if_neg hi]
  by_cases hlt : f.last_seq.toNat < seq.toNat
  · rw [if_pos hlt]
    refine fun hT => ⟨fun hu => absurd hu hi, ?_⟩
    by_cases hd : seq.toNat - f.last_seq.toNat < f.window_size.toNat
    · simp only [if_pos hd]
      have hshift := hcov.shift hlt fun d hd => (bit_shift (BitVec.lt_of_getLsbD hd)).1 hd
      rwa [Finset.insert_eq_of_mem (hT rfl)] at hshift
    · simp only [if_neg hd]
      exact Window.covers_first (hT rfl) hone
  rw [if_neg hlt]
  split
  · exact fun _ => ⟨h.fresh, hcov⟩
  split
  · exact fun _ => ⟨h.fresh, hcov⟩
  · intro hT
    have hmark := hcov.mark (Nat.le_of_not_lt hlt) fun d hd => (bit_mark (BitVec.lt_of_getLsbD hd)).1 hd
    rw [Finset.insert_eq_of_mem (hT rfl)] at hmark
    exact ⟨h.fresh, hmark⟩

/-- The highest number, and 0 before the first. -/
theorem Sound.last_seq (h : Sound f S) (hs : Stands f S) : f.last_seq.toNat = Window.top S := by
  by_cases hi : f.initialized = false
  · rw [h.fresh hi, hs.unset hi]
    rfl
  · exact (hs.window (by simpa using hi)).last_eq

theorem recorded_window_size (f : ReplayFilter) (seq : UInt64) : (f.recorded seq).1.window_size = f.window_size := by
  unfold recorded
  split_ifs <;> rfl

theorem recorded_error {e : Error} (h : f.recorded seq = (f', .error e)) : e ≠ .try_from_slice := by
  unfold recorded at h
  split_ifs at h <;> cases h <;> exact Error.noConfusion

theorem recorded_counters (f : ReplayFilter) (seq : UInt64) :
    (f.recorded seq).1.total_seen = f.total_seen + 1 ∧
    (f.recorded seq).1.total_accepted = f.total_accepted + (if (f.recorded seq).2 = .ok () then 1 else 0) ∧
    (f.recorded seq).1.total_rejected = f.total_rejected + (if (f.recorded seq).2 = .ok () then 0 else 1) := by
  unfold recorded
  split_ifs <;> simp_all

/-- While the calls so far are fewer than 2^64, the counters count them. -/
theorem Tracks.call (h : Tracks f S n) (hn : n + 1 < 2 ^ 64) (c : Bool) (seq : UInt64) :
    ∃ f' r, f.validate_and_record c seq = .ok (f', r) ∧ f'.window_size = f.window_size ∧
      (r = .ok () ↔ Window.Accepts f.window_size.toNat S seq.toNat) ∧
      Tracks f' (Window.record f.window_size.toNat S seq.toNat) (n + 1) := by
  have hseen := h.seen
  have hb := h.balance
  obtain ⟨hr, hs⟩ := h.stands.recorded seq
  obtain ⟨es, ea, er⟩ := recorded_counters f seq
  refine ⟨(f.recorded seq).1, (f.recorded seq).2, validate_and_record_returns fun _ => ⟨by omega, by omega, by omega⟩,
    recorded_window_size f seq, hr, hs.unset, hs.window, ?_, ?_, ?_⟩
  · rw [es, toNat_add_one (by omega), hseen]
  · by_cases ha : Window.Accepts f.window_size.toNat S seq.toNat
    · have hm : seq.toNat ∉ S := fun hm => Window.not_accepts_of_mem hm ha
      rw [ea, if_pos (hr.2 ha), toNat_add_one (by omega), h.accepted, Window.record_of_accepts ha,
        Finset.card_insert_of_notMem hm]
    · rw [ea, if_neg (mt hr.1 ha), UInt64.add_zero, h.accepted, Window.record_of_not_accepts ha]
  · rw [ea, er]
    split
    · rw [toNat_add_one (by omega), UInt64.add_zero]
      omega
    · rw [toNat_add_one (by omega), UInt64.add_zero]
      omega

/-- The numbers from 0 on, in order: the next one is accepted. -/
theorem Tracks.next (h : Tracks f (Finset.range n) n) (hn : n + 1 < 2 ^ 64) (c : Bool) (hs : seq.toNat = n) :
    ∃ f', f.validate_and_record c seq = .ok (f', .ok ()) ∧ Tracks f' (Finset.range (n + 1)) (n + 1) := by
  have haccept : Window.Accepts f.window_size.toNat (Finset.range n) seq.toNat := by
    rw [hs]
    rcases Nat.eq_zero_or_pos n with rfl | hpos
    · exact .inl Finset.range_zero
    · exact .inr (.inl ((Finset.sup_lt_iff hpos).2 fun m hm => Finset.mem_range.1 hm))
  obtain ⟨f', r, he, -, hr, ht⟩ := h.call hn c seq
  obtain rfl := hr.2 haccept
  rw [Window.record_of_accepts haccept, hs, ← Finset.range_add_one] at ht
  exact ⟨f', he, ht⟩

/-! ## Runs -/

/-- A call's number and whether it was accepted. -/
abbrev Call := UInt64 × Except Error Unit

/-- The filters that `with_window_size w` leads to, with the calls since it or
since the last `reset`. -/
inductive Run (c : Bool) (w : UInt64) : ReplayFilter → List Call → Prop
  | new : Run c w (with_window_size w) []
  | call {f calls seq f' r} : Run c w f calls → f.validate_and_record c seq = .ok (f', r) →
      Run c w f' (calls ++ [(seq, r)])
  | reset {f calls} : Run c w f calls → Run c w f.reset []

/-- The numbers accepted, in order. -/
def accepted (calls : List Call) : List ℕ :=
  (calls.filter (fun call => call.2 = .ok ())).map (·.1.toNat)

theorem accepted_snoc (calls : List Call) (seq : UInt64) (r : Except Error Unit) :
    accepted (calls ++ [(seq, r)]) = accepted calls ++ if r = .ok () then [seq.toNat] else [] := by
  rw [accepted, accepted, List.filter_append, List.map_append]
  congr 1
  split <;> simp [*]

variable {w : UInt64} {calls : List Call}

theorem Run.window_size (h : Run c w f calls) : f.window_size = clamp w 1 128 := by
  induction h with
  | new => rfl
  | reset _ ih => exact ih
  | call _ e ih =>
    rw [← recorded_window_size, validate_and_record_eq_ok e] at ih
    exact ih

theorem accepted_record {k : ℕ} {r : Except Error Unit}
    (hr : r = .ok () ↔ Window.Accepts k (accepted calls).toFinset seq.toNat) :
    (accepted (calls ++ [(seq, r)])).toFinset = Window.record k (accepted calls).toFinset seq.toNat := by
  rw [accepted_snoc]
  split
  · rw [Window.record_of_accepts (hr.1 ‹_›), List.toFinset_append, List.toFinset_cons, List.toFinset_nil,
      Finset.union_comm, Finset.insert_union, Finset.empty_union]
  · rw [Window.record_of_not_accepts (mt hr.2 ‹_›), List.append_nil]

/-- Along a run, however long, no number is taken twice, and the filter
stands for the set of those it took. -/
theorem Run.stands (h : Run c w f calls) : (accepted calls).Nodup ∧ Stands f (accepted calls).toFinset := by
  induction h with
  | new => exact ⟨List.nodup_nil, (tracks_with_window_size w).stands⟩
  | reset _ _ => exact ⟨List.nodup_nil, (tracks_reset _).stands⟩
  | @call f calls seq f' r _ e ih =>
    obtain ⟨hd, hs⟩ := ih
    obtain ⟨hr, hs⟩ := hs.recorded seq
    rw [validate_and_record_eq_ok e] at hr hs
    refine ⟨?_, by rwa [accepted_record hr]⟩
    rw [accepted_snoc]
    split
    · have hm : seq.toNat ∉ accepted calls := fun hm =>
        Window.not_accepts_of_mem (List.mem_toFinset.2 hm) (hr.1 ‹_›)
      exact List.nodup_append'.2 ⟨hd, List.nodup_singleton _, by simpa using hm⟩
    · rwa [List.append_nil]

theorem Run.sound (h : Run c w f calls) : Sound f (accepted calls).toFinset := by
  induction h with
  | new => exact sound_with_window_size w
  | reset _ _ => exact sound_reset _
  | @call f calls seq f' r hrun e ih =>
    have hr := (hrun.stands.2.recorded seq).1
    have htaken (hok : (f.recorded seq).2 = .ok ()) :
        seq.toNat ∈ Window.record f.window_size.toNat (accepted calls).toFinset seq.toNat := by
      rw [Window.record_of_accepts (hr.1 hok)]
      exact Finset.mem_insert_self _ _
    have hsound := ih.recorded (Window.subset_record f.window_size.toNat _ seq.toNat) htaken
    rw [validate_and_record_eq_ok e] at hr hsound
    rwa [accepted_record hr]

theorem Run.tracks (h : Run c w f calls) (hn : calls.length < 2 ^ 64) :
    Tracks f (accepted calls).toFinset calls.length := by
  induction h with
  | new => exact tracks_with_window_size w
  | reset _ _ => exact tracks_reset _
  | @call f calls seq f' r _ e ih =>
    rw [List.length_append, List.length_singleton] at hn ⊢
    obtain ⟨f₁, r₁, e₁, -, hr, ht⟩ := (ih (by omega)).call hn c seq
    rw [e] at e₁
    cases e₁
    rwa [accepted_record hr]

theorem seen_of_checked {y : ReplayFilter × Except Error Unit} (e : f.validate_and_record true seq = .ok y) :
    f.total_seen.toNat + 1 < 2 ^ 64 := by
  rw [validate_and_record_eq] at e
  obtain ⟨s, es, -⟩ := bind_eq_ok.1 e
  simpa using (add_eq_ok.1 es).1

theorem Run.checked (h : Run true w f calls) : calls.length < 2 ^ 64 := by
  induction h with
  | new => simp
  | reset _ _ => simp
  | call hrun e ih =>
    have hlt := seen_of_checked e
    rw [(hrun.tracks ih).seen] at hlt
    simpa using hlt

/-- A build with overflow checks ends a run at 2^64 - 1 calls. -/
theorem Run.call_returns (h : Run c w f calls) (seq : UInt64) :
    (∃ f' r, f.validate_and_record c seq = .ok (f', r)) ↔ (c = true → calls.length + 1 < 2 ^ 64) := by
  cases c with
  | false => exact iff_of_true ⟨_, _, validate_and_record_returns (by simp)⟩ (by simp)
  | true =>
    have ht := h.tracks h.checked
    have hseen := ht.seen
    have hb := ht.balance
    constructor
    · rintro ⟨f', r, e⟩ -
      have := seen_of_checked e
      omega
    · intro hn
      have hn := hn rfl
      exact ⟨_, _, validate_and_record_returns fun _ => ⟨by omega, by omega, by omega⟩⟩

/-- The filter decides as the set of all numbers it has accepted since its
start or its latest reset does, and its fields say what that set is. No call
stops on a shift or a subtraction out of range. -/
theorem sliding_window (h : Run c w f calls) (hn : calls.length < 2 ^ 64) :
    (calls.length + 1 < 2 ^ 64 → ∀ seq, ∃ f' r, f.validate_and_record c seq = .ok (f', r) ∧
      (r = .ok () ↔ accepted calls = [] ∨ Window.top (accepted calls).toFinset < seq.toNat ∨
        (Window.top (accepted calls).toFinset - seq.toNat < (clamp w 1 128).toNat ∧ seq.toNat ∉ accepted calls))) ∧
    (accepted calls).Nodup ∧
    (f.initialized = true → f.last_seq.toNat = Window.top (accepted calls).toFinset ∧
      ∀ d < (clamp w 1 128).toNat, d ≤ f.last_seq.toNat →
        (f.bitmap.getLsbD d = true ↔ f.last_seq.toNat - d ∈ accepted calls)) ∧
    f.total_accepted.toNat = (accepted calls).toFinset.card ∧
    f.total_accepted.toNat + f.total_rejected.toNat = f.total_seen.toNat ∧
    f.total_seen.toNat = calls.length := by
  have ht := h.tracks hn
  have hw := h.window_size
  refine ⟨fun hn' seq => ?_, h.stands.1, fun hi => ?_, ht.accepted, by rw [ht.balance, ht.seen], ht.seen⟩
  · obtain ⟨f', r, e, -, hr, -⟩ := ht.call hn' c seq
    refine ⟨f', r, e, ?_⟩
    rw [hr, hw, Window.Accepts, List.toFinset_eq_empty_iff, List.mem_toFinset]
  · have hwin := ht.window hi
    refine ⟨hwin.last_eq, fun d hdw hdl => ?_⟩
    rw [hwin.bit_iff d (by rw [hw]; exact hdw) hdl, List.mem_toFinset]

/-- 37 comes late but inside the window, and then once more; 36 is then too old. -/
theorem sliding_window_repeat :
    ∃ f, Run true 64 f [(100, .ok ()), (37, .ok ()), (37, .error (.replay_seen 37))] ∧
      (∃ f' r, f.validate_and_record true 36 = .ok (f', r) ∧ r ≠ .ok ()) ∧ f.total_accepted.toNat = 2 := by
  have hr : ∃ f, Run true 64 f [(100, .ok ()), (37, .ok ()), (37, .error (.replay_seen 37))] :=
    ⟨_, .call (.call (.call .new rfl) rfl) rfl⟩
  obtain ⟨f, hr⟩ := hr
  obtain ⟨hnext, -, -, hcount, -, -⟩ := sliding_window hr (by decide)
  obtain ⟨f', r, e, h⟩ := hnext (by decide) 36
  exact ⟨f, hr, ⟨f', r, e, mt h.1 (by decide)⟩, hcount⟩

end NoiseTunnel.ReplayFilter
