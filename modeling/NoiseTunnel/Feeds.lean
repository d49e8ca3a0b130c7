import NoiseTunnel.Replay
/-!
# Feeding a fresh filter

Inside one window the order in which numbers come does not matter, and a
larger window refuses nothing that a smaller one takes.
-/
open Rust

namespace NoiseTunnel.ReplayFilter

variable {f f' : ReplayFilter} {seq : UInt64} {c : Bool} {S : Finset ℕ} {w : UInt64} {calls calls' : List Call}
  {l : List UInt64} {rs : List (Except Error Unit)}

/-- One call a number, in order. -/
def validate_all (overflow_checks : Bool) (self : ReplayFilter) :
    List UInt64 → Except Panic (ReplayFilter × List (Except Error Unit))
  | [] => .ok (self, [])
  | seq :: l => do
    let (self, r) ← self.validate_and_record overflow_checks seq
    let (self, rs) ← self.validate_all overflow_checks l
    return (self, r :: rs)

theorem validate_all_cons_ok {y : ReplayFilter × List (Except Error Unit)} :
    f.validate_all c (seq :: l) = .ok y ↔ ∃ g r rs, f.validate_and_record c seq = .ok (g, r) ∧
      g.validate_all c l = .ok (y.1, rs) ∧ y.2 = r :: rs := by
  simp only [validate_all, bind_eq_ok, pure_eq_ok, Except.ok.injEq, Prod.exists]
  constructor
  · rintro ⟨g, r, e, f', rs, el, rfl⟩
    exact ⟨g, r, rs, e, el, rfl⟩
  · rintro ⟨g, r, rs, e, el, ey⟩
    exact ⟨g, r, e, y.1, rs, el, by rw [← ey]⟩

/-- A feed is a run that goes on. -/
theorem Run.feed (h : Run c w f calls) (e : f.validate_all c l = .ok (f', rs)) :
    rs.length = l.length ∧ Run c w f' (calls ++ l.zip rs) := by
  induction l generalizing f calls rs with
  | nil =>
    cases e
    exact ⟨rfl, by simpa using h⟩
  | cons seq l ih =>
    obtain ⟨g, r, rs', eg, el, rfl⟩ := validate_all_cons_ok.1 e
    obtain ⟨hlen, hrun⟩ := ih (h.call eg) el
    refine ⟨by simp [hlen], ?_⟩
    rwa [List.append_assoc] at hrun

theorem Run.feed_returns (h : Run c w f calls) (l : List UInt64) :
    (∃ y, f.validate_all c l = .ok y) ↔ (c = true → calls.length + l.length < 2 ^ 64) := by
  induction l generalizing f calls with
  | nil =>
    refine iff_of_true ⟨_, rfl⟩ fun hc => ?_
    subst hc
    exact h.checked
  | cons seq l ih =>
    have hone := h.call_returns seq
    constructor
    · rintro ⟨y, e⟩ hc
      obtain ⟨g, r, rs, eg, el, -⟩ := validate_all_cons_ok.1 e
      have := (ih (h.call eg)).1 ⟨_, el⟩ hc
      simp only [List.length_append, List.length_cons, List.length_nil] at this ⊢
      omega
    · intro hn
      obtain ⟨g, r, eg⟩ := hone.2 fun hc => by have := hn hc; simp only [List.length_cons] at this; omega
      obtain ⟨⟨g', rs⟩, el⟩ := (ih (h.call eg)).2 fun hc => by
        have := hn hc
        simp only [List.length_append, List.length_cons, List.length_nil] at this ⊢
        omega
      exact ⟨(g', r :: rs), validate_all_cons_ok.2 ⟨g, r, rs, eg, el, rfl⟩⟩

/-! ## Inside one window -/

/-- A number is accepted where it first comes, and refused wherever it comes again. -/
def Once (l : List UInt64) (rs : List (Except Error Unit)) : Prop :=
  rs.length = l.length ∧ ∀ i seq r, l[i]? = some seq → rs[i]? = some r → (r = .ok () ↔ seq ∉ l.take i)

/-- In a run inside one window every number is taken, once. -/
theorem Run.spanned (h : Run c w f calls)
    (hspan : ∀ a ∈ calls, ∀ b ∈ calls, a.1.toNat - b.1.toNat < (clamp w 1 128).toNat) :
    (accepted calls).toFinset = (calls.map (·.1.toNat)).toFinset ∧
      ∀ i seq r, calls[i]? = some (seq, r) → (r = .ok () ↔ seq ∉ (calls.take i).map Prod.fst) := by
  induction h with
  | new => exact ⟨rfl, by simp⟩
  | reset _ _ => exact ⟨rfl, by simp⟩
  | @call f calls seq f' r hrun e ih =>
    obtain ⟨hset, honce⟩ := ih fun a ha b hb => hspan a (List.mem_append_left _ ha) b (List.mem_append_left _ hb)
    have hr := (hrun.stands.2.recorded seq).1
    rw [validate_and_record_eq_ok e] at hr
    have hacc : Window.Accepts f.window_size.toNat (accepted calls).toFinset seq.toNat ↔
        seq.toNat ∉ (accepted calls).toFinset := by
      refine Window.accepts_iff_of_span fun m hm => ?_
      rw [hset, List.mem_toFinset, List.mem_map] at hm
      obtain ⟨a, ha, rfl⟩ := hm
      rw [hrun.window_size]
      exact hspan a (List.mem_append_left _ ha) _ (List.mem_append_right _ (List.mem_singleton_self _))
    constructor
    · rw [accepted_record hr, Window.record_eq_insert hacc, hset]
      ext m
      simp
    · intro i seq' r' hi
      rcases Nat.lt_trichotomy i calls.length with hlt | rfl | hgt
      · rw [List.getElem?_append_left hlt] at hi
        rw [List.take_append_of_le_length hlt.le]
        exact honce i seq' r' hi
      · rw [List.getElem?_concat_length] at hi
        cases hi
        rw [hr, hacc, hset, List.take_left]
        simp [UInt64.toNat_inj]
      · rw [List.getElem?_eq_none (by rw [List.length_append, List.length_singleton]; omega)] at hi
        cases hi

/-! ## The state a set of numbers leaves -/

theorem Stands.initialized_iff (hs : Stands f S) : f.initialized = true ↔ S ≠ ∅ := by
  constructor
  · exact fun hi => (hs.window hi).nonempty.ne_empty
  · intro hS
    by_contra hi
    exact hS (hs.unset (by simpa using hi))

theorem Sound.bit_iff (h : Sound f S) (hs : Stands f S) (hspan : ∀ a ∈ S, ∀ b ∈ S, a - b < f.window_size.toNat) (d : ℕ) :
    f.bitmap.getLsbD d = true ↔ d ≤ Window.top S ∧ Window.top S - d ∈ S := by
  rw [← h.last_seq hs]
  by_cases hS : S = ∅
  · refine ⟨h.covers d, fun hd => ?_⟩
    rw [hS] at hd
    exact absurd hd.2 (Finset.notMem_empty _)
  · refine (hs.window (hs.initialized_iff.2 hS)).bit_iff_of_span h.covers (fun n hn => ?_) d
    rw [h.last_seq hs]
    exact hspan _ (Window.top_mem hS) n hn

/-- The counters of a run, however long. -/
theorem Run.counters (h : Run c w f calls) :
    f.total_seen = UInt64.ofNat calls.length ∧ f.total_accepted = UInt64.ofNat (accepted calls).length ∧
      f.total_accepted + f.total_rejected = f.total_seen := by
  induction h with
  | new => exact ⟨rfl, rfl, rfl⟩
  | reset _ _ => exact ⟨rfl, rfl, rfl⟩
  | @call f calls seq f' r hrun e ih =>
    obtain ⟨hseen, hacc, hsum⟩ := ih
    obtain ⟨es, ea, er⟩ := recorded_counters f seq
    rw [validate_and_record_eq_ok e] at es ea er
    simp only at es ea er
    refine ⟨?_, ?_, ?_⟩
    · rw [es, hseen, List.length_append, UInt64.ofNat_add]
      rfl
    · rw [ea, hacc, accepted_snoc, List.length_append, UInt64.ofNat_add]
      split <;> rfl
    · rw [es, ea, er, ← hsum]
      split
      · rw [UInt64.add_zero, UInt64.add_assoc, UInt64.add_comm 1, UInt64.add_assoc]
      · rw [UInt64.add_zero, UInt64.add_assoc]

/-- Inside one window, runs of as many calls that took the same numbers end in
the same filter. -/
theorem Run.determined (h : Run c w f calls) (h' : Run c w f' calls') (hlen : calls.length = calls'.length)
    (hS : (accepted calls).toFinset = (accepted calls').toFinset)
    (hspan : ∀ a ∈ (accepted calls).toFinset, ∀ b ∈ (accepted calls).toFinset, a - b < (clamp w 1 128).toNat) :
    f = f' := by
  obtain ⟨hnodup, hs⟩ := h.stands
  obtain ⟨hnodup', hs'⟩ := h'.stands
  obtain ⟨hseen, hacc, hsum⟩ := h.counters
  obtain ⟨hseen', hacc', hsum'⟩ := h'.counters
  have hw := h.window_size
  have hw' := h'.window_size
  have hsound := h.sound
  have hsound' := h'.sound
  rw [← hS] at hs' hsound'
  have hcard : (accepted calls).length = (accepted calls').length := by
    rw [← List.toFinset_card_of_nodup hnodup, hS, List.toFinset_card_of_nodup hnodup']
  have hlast : f.last_seq = f'.last_seq := UInt64.toNat_inj.1 (by rw [hsound.last_seq hs, hsound'.last_seq hs'])
  have hbits : f.bitmap = f'.bitmap := by
    refine BitVec.eq_of_getLsbD_eq fun d _ => Bool.eq_iff_iff.2 ?_
    rw [hsound.bit_iff hs (by rwa [hw]), hsound'.bit_iff hs' (by rwa [hw'])]
  have hinit : f.initialized = f'.initialized := by
    rw [Bool.eq_iff_iff, hs.initialized_iff, hs'.initialized_iff]
  have hseen_eq : f.total_seen = f'.total_seen := by rw [hseen, hseen', hlen]
  have hacc_eq : f.total_accepted = f'.total_accepted := by rw [hacc, hacc', hcard]
  have hrej_eq : f.total_rejected = f'.total_rejected := by
    rw [hseen_eq, ← hsum', hacc_eq] at hsum
    exact (UInt64.add_right_inj _).1 hsum
  have hwin : f.window_size = f'.window_size := by rw [hw, hw']
  cases f
  cases f'
  simp_all

theorem validate_all_returns (c : Bool) (w : UInt64) (l : List UInt64) :
    (∃ y, (with_window_size w).validate_all c l = .ok y) ↔ (c = true → l.length < 2 ^ 64) := by
  rw [Run.new.feed_returns l, List.length_nil, Nat.zero_add]

/-- What a fresh filter's calls say, in terms of the numbers alone. -/
theorem once_of_feed (hspan : ∀ a ∈ l, ∀ b ∈ l, a.toNat - b.toNat < (clamp w 1 128).toNat)
    (e : (with_window_size w).validate_all c l = .ok (f, rs)) :
    Run c w f (l.zip rs) ∧ Once l rs ∧ (accepted (l.zip rs)).toFinset = (l.map UInt64.toNat).toFinset := by
  obtain ⟨hlen, hrun⟩ := Run.new.feed e
  rw [List.nil_append] at hrun
  have hmap : (l.zip rs).map Prod.fst = l := List.map_fst_zip hlen.ge
  have hmem (a : Call) (ha : a ∈ l.zip rs) : a.1 ∈ l := (List.of_mem_zip ha).1
  obtain ⟨hset, honce⟩ := hrun.spanned fun a ha b hb => hspan _ (hmem a ha) _ (hmem b hb)
  refine ⟨hrun, ⟨hlen, fun i seq r hi hr => ?_⟩, ?_⟩
  · have := honce i seq r (List.getElem?_zip_eq_some.2 ⟨hi, hr⟩)
    rwa [List.map_take, hmap] at this
  · have hnat := congrArg (List.map UInt64.toNat) hmap
    rw [List.map_map] at hnat
    exact hset.trans (congrArg List.toFinset hnat)

/-- Numbers that all lie within the window leave the same filter in every
order, and every number is accepted once. -/
theorem order_independent (c : Bool) (w : UInt64) {l l' : List UInt64} (hp : l.Perm l')
    (hspan : ∀ a ∈ l, ∀ b ∈ l, a.toNat - b.toNat < (clamp w 1 128).toNat) :
    ((∃ y, (with_window_size w).validate_all c l = .ok y) ↔ (c = true → l.length < 2 ^ 64)) ∧
    ∀ f rs, (with_window_size w).validate_all c l = .ok (f, rs) →
      Once l rs ∧ ∃ rs', (with_window_size w).validate_all c l' = .ok (f, rs') ∧ Once l' rs' := by
  refine ⟨validate_all_returns c w l, fun f rs e => ?_⟩
  have hspan' (a : UInt64) (ha : a ∈ l') (b : UInt64) (hb : b ∈ l') : a.toNat - b.toNat < (clamp w 1 128).toNat :=
    hspan a (hp.mem_iff.2 ha) b (hp.mem_iff.2 hb)
  obtain ⟨⟨f', rs'⟩, e'⟩ := (validate_all_returns c w l').2 fun hc => hp.length_eq ▸ (validate_all_returns c w l).1 ⟨_, e⟩ hc
  obtain ⟨hrun, honce, hset⟩ := once_of_feed hspan e
  obtain ⟨hrun', honce', hset'⟩ := once_of_feed hspan' e'
  have hlen : (l.zip rs).length = (l'.zip rs').length := by
    rw [List.length_zip, List.length_zip, honce.1, honce'.1, hp.length_eq]
  have hsame : (accepted (l.zip rs)).toFinset = (accepted (l'.zip rs')).toFinset := by
    rw [hset, hset', List.toFinset_eq_of_perm _ _ (hp.map _)]
  refine ⟨honce, rs', ?_, honce'⟩
  rw [hrun.determined hrun' hlen hsame, e']
  intro a ha b hb
  rw [hset, List.mem_toFinset, List.mem_map] at ha hb
  obtain ⟨x, hx, rfl⟩ := ha
  obtain ⟨y, hy, rfl⟩ := hb
  exact hspan x hx y hy

/-- 7, 5, 7 and 6 in two orders, through a window of three. -/
theorem order_independent_two_orders :
    ∃ f rs rs', (with_window_size 3).validate_all true [7, 5, 7, 6] = .ok (f, rs) ∧ Once [7, 5, 7, 6] rs ∧
      (with_window_size 3).validate_all true [5, 6, 7, 7] = .ok (f, rs') ∧ Once [5, 6, 7, 7] rs' := by
  have hp : [7, 5, 7, 6].Perm ([5, 6, 7, 7] : List UInt64) := by decide
  have hw : clamp 3 1 128 = 3 := rfl
  obtain ⟨hreturns, hsame⟩ := order_independent true 3 hp (by simp [hw])
  obtain ⟨⟨f, rs⟩, e⟩ := hreturns.2 (by simp)
  obtain ⟨honce, rs', e', honce'⟩ := hsame f rs e
  exact ⟨f, rs, rs', e, honce, e', honce'⟩

/-! ## Two window sizes -/

theorem clamp_mono {w₁ w₂ : UInt64} (hw : w₁ ≤ w₂) : (clamp w₁ 1 128).toNat ≤ (clamp w₂ 1 128).toNat := by
  rw [UInt64.le_iff_toNat_le] at hw
  have h1 : (1 : UInt64).toNat = 1 := rfl
  have h128 : (128 : UInt64).toNat = 128 := rfl
  simp only [clamp, gt_iff_lt, UInt64.lt_iff_toNat_lt]
  split_ifs <;> omega

/-- Step by step the larger window takes what the smaller one takes, and both
have the same highest number. -/
theorem Run.larger {w₁ w₂ : UInt64} {f₁ f₂ g₁ : ReplayFilter} {calls₁ calls₂ : List Call} (hw : w₁ ≤ w₂)
    (h₁ : Run c w₁ f₁ calls₁) (h₂ : Run c w₂ f₂ calls₂) (hlen : calls₁.length = calls₂.length)
    (hx : Window.Extends (clamp w₁ 1 128).toNat (accepted calls₁).toFinset (accepted calls₂).toFinset)
    (e : f₁.validate_all c l = .ok (g₁, rs)) :
    ∃ g₂ rs₂, f₂.validate_all c l = .ok (g₂, rs₂) ∧ g₁.highest_seen = g₂.highest_seen ∧
      ∀ i : ℕ, rs[i]? = some (.ok ()) → rs₂[i]? = some (.ok ()) := by
  induction l generalizing f₁ f₂ calls₁ calls₂ rs with
  | nil =>
    cases e
    refine ⟨f₂, [], rfl, UInt64.toNat_inj.1 ?_, fun i hi => hi⟩
    rw [highest_seen, highest_seen, h₁.sound.last_seq h₁.stands.2, h₂.sound.last_seq h₂.stands.2, hx.top_eq]
  | cons seq l ih =>
    obtain ⟨f₁', r₁, rs', e₁, el, rfl⟩ := validate_all_cons_ok.1 e
    obtain ⟨f₂', r₂, e₂⟩ := (h₂.call_returns seq).2 (hlen ▸ (h₁.call_returns seq).1 ⟨_, _, e₁⟩)
    have hr₁ := (h₁.stands.2.recorded seq).1
    have hr₂ := (h₂.stands.2.recorded seq).1
    rw [validate_and_record_eq_ok e₁, h₁.window_size] at hr₁
    rw [validate_and_record_eq_ok e₂, h₂.window_size] at hr₂
    have hx' := hx.record (clamp_mono hw) seq.toNat
    rw [← accepted_record hr₁, ← accepted_record hr₂] at hx'
    obtain ⟨g₂, rs₂, el₂, hhigh, hok⟩ := ih (h₁.call e₁) (h₂.call e₂) (by simp [hlen]) hx' el
    refine ⟨g₂, r₂ :: rs₂, validate_all_cons_ok.2 ⟨f₂', r₂, rs₂, e₂, el₂, rfl⟩, hhigh, fun i hi => ?_⟩
    cases i with
    | zero =>
      simp only [List.getElem?_cons_zero, Option.some.injEq] at hi ⊢
      exact hr₂.2 (hx.accepts (clamp_mono hw) (hr₁.1 hi))
    | succ i => exact hok i (by simpa using hi)

theorem validate_all_take (e : f.validate_all c l = .ok (f', rs)) (k : ℕ) :
    ∃ g, f.validate_all c (l.take k) = .ok (g, rs.take k) := by
  induction l generalizing f rs k with
  | nil =>
    cases e
    exact ⟨f', by simp [validate_all]⟩
  | cons seq l ih =>
    obtain ⟨g, r, rs', eg, el, rfl⟩ := validate_all_cons_ok.1 e
    cases k with
    | zero => exact ⟨f, rfl⟩
    | succ k =>
      obtain ⟨g', eg'⟩ := ih el k
      exact ⟨g', validate_all_cons_ok.2 ⟨g, r, _, eg, eg', rfl⟩⟩

/-- What a window accepts, every larger one accepts at the same step, and
after every step both name the same highest number. The sizes are those asked
for, kept between 1 and 128. -/
theorem larger_window (c : Bool) {w₁ w₂ : UInt64} (hw : w₁ ≤ w₂) (l : List UInt64) :
    ((∃ y, (with_window_size w₁).validate_all c l = .ok y) ↔ (c = true → l.length < 2 ^ 64)) ∧
    ∀ f₁ rs₁, (with_window_size w₁).validate_all c l = .ok (f₁, rs₁) →
      ∃ f₂ rs₂, (with_window_size w₂).validate_all c l = .ok (f₂, rs₂) ∧
        f₁.window_size = clamp w₁ 1 128 ∧ f₂.window_size = clamp w₂ 1 128 ∧
        rs₁.length = l.length ∧ (∀ i : ℕ, rs₁[i]? = some (.ok ()) → rs₂[i]? = some (.ok ())) ∧
        ∀ k, ∃ g₁ g₂, (with_window_size w₁).validate_all c (l.take k) = .ok (g₁, rs₁.take k) ∧
          (with_window_size w₂).validate_all c (l.take k) = .ok (g₂, rs₂.take k) ∧
          g₁.highest_seen = g₂.highest_seen := by
  have hlarger {l : List UInt64} {f₁ rs₁} (e : (with_window_size w₁).validate_all c l = .ok (f₁, rs₁)) :=
    Run.larger hw .new .new rfl (Window.extends_empty _) e
  refine ⟨validate_all_returns c w₁ l, fun f₁ rs₁ e => ?_⟩
  obtain ⟨f₂, rs₂, e₂, -, hok⟩ := hlarger e
  obtain ⟨hlen, hrun⟩ := Run.new.feed e
  have hrun₂ := (Run.new.feed e₂).2
  refine ⟨f₂, rs₂, e₂, hrun.window_size, hrun₂.window_size, hlen, hok, fun k => ?_⟩
  obtain ⟨g₁, eg₁⟩ := validate_all_take e k
  obtain ⟨g₂, eg₂⟩ := validate_all_take e₂ k
  obtain ⟨g₂', rs', eg₂', hhigh, -⟩ := hlarger eg₁
  rw [eg₂] at eg₂'
  cases eg₂'
  exact ⟨g₁, g₂, eg₁, eg₂, hhigh⟩

/-- A window of 64 takes 37 after 100, and so does the standard one. -/
theorem larger_window_standard :
    ∃ f rs, (with_window_size REPLAY_WINDOW_SIZE).validate_all true [100, 37] = .ok (f, rs) ∧
      rs[1]? = some (.ok ()) := by
  have hw : 64 ≤ REPLAY_WINDOW_SIZE := by decide
  obtain ⟨hreturns, hmore⟩ := larger_window true hw [100, 37]
  obtain ⟨f, rs, e, -, -, -, hok, -⟩ := hmore _ [.ok (), .ok ()] rfl
  exact ⟨f, rs, e, hok 1 rfl⟩

end NoiseTunnel.ReplayFilter
