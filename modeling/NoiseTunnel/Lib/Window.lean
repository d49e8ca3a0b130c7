import Mathlib.Data.Finset.Lattice.Fold
import Mathlib.Data.Finset.Card
import Mathlib.Order.Lattice.Nat
/-!
# Sliding windows

A set of numbers that only takes a number above all it has, or a new one less
than `w` below the largest. Such a set can be kept as its largest member and
a bitmap that counts back from it.
-/

namespace Window

variable {w n last : ℕ} {S : Finset ℕ} {bit bit' : ℕ → Prop}

/-- The largest member. -/
def top (S : Finset ℕ) : ℕ := S.sup id

def Accepts (w : ℕ) (S : Finset ℕ) (n : ℕ) : Prop :=
  S = ∅ ∨ top S < n ∨ (top S - n < w ∧ n ∉ S)

instance : Decidable (Accepts w S n) := inferInstanceAs (Decidable (_ ∨ _ ∨ _))

def record (w : ℕ) (S : Finset ℕ) (n : ℕ) : Finset ℕ :=
  if Accepts w S n then insert n S else S

theorem le_top (h : n ∈ S) : n ≤ top S := Finset.le_sup (f := id) h

@[simp] theorem top_insert : top (insert n S) = max n (top S) := Finset.sup_insert

theorem top_range_succ (n : ℕ) : top (Finset.range (n + 1)) = n := by
  refine Nat.le_antisymm (Finset.sup_le fun m hm => ?_) (le_top (Finset.self_mem_range_succ n))
  exact Nat.lt_succ_iff.1 (Finset.mem_range.1 hm)

/-- No number is taken twice. -/
theorem not_accepts_of_mem (h : n ∈ S) : ¬Accepts w S n := by
  rintro (rfl | hlt | ⟨-, hn⟩)
  · simp at h
  · exact absurd (le_top h) (by omega)
  · exact hn h

theorem record_of_accepts (h : Accepts w S n) : record w S n = insert n S := if_pos h

theorem record_of_not_accepts (h : ¬Accepts w S n) : record w S n = S := if_neg h

theorem subset_record (w : ℕ) (S : Finset ℕ) (n : ℕ) : S ⊆ record w S n := by
  unfold record
  split
  · exact Finset.subset_insert n S
  · exact Finset.Subset.refl S

theorem top_mem (h : S ≠ ∅) : top S ∈ S := by
  obtain ⟨m, hm, e⟩ := Finset.exists_mem_eq_sup S (Finset.nonempty_iff_ne_empty.2 h) id
  rw [top, e]
  exact hm

theorem top_le_top_record (w : ℕ) (S : Finset ℕ) (n : ℕ) : top S ≤ top (record w S n) :=
  Finset.sup_mono (subset_record w S n)

/-- The largest member does not depend on the size of the window. -/
theorem top_record (w : ℕ) (S : Finset ℕ) (n : ℕ) : top (record w S n) = max n (top S) := by
  by_cases h : Accepts w S n
  · rw [record_of_accepts h, top_insert]
  · have hle : n ≤ top S := Nat.le_of_not_lt fun hlt => h (.inr (.inl hlt))
    rw [record_of_not_accepts h, Nat.max_eq_right hle]

theorem record_ne_empty (w : ℕ) (S : Finset ℕ) (n : ℕ) : record w S n ≠ ∅ := by
  by_cases h : Accepts w S n
  · rw [record_of_accepts h]
    exact Finset.insert_ne_empty n S
  · rw [record_of_not_accepts h]
    exact fun he => h (.inl he)

/-- A number refused is refused for good. -/
theorem not_accepts_record (h : ¬Accepts w S n) (m : ℕ) : ¬Accepts w (record w S m) n := by
  have htop := top_le_top_record w S m
  rintro (he | hlt | ⟨hd, hn⟩)
  · exact record_ne_empty w S m he
  · exact h (.inr (.inl (Nat.lt_of_le_of_lt htop hlt)))
  · exact h (.inr (.inr ⟨by omega, fun hm => hn (subset_record w S m hm)⟩))

/-- Less than `w` below the largest, only a member is refused. -/
theorem accepts_iff_of_lt (h : top S - n < w) : Accepts w S n ↔ n ∉ S := by
  constructor
  · exact fun ha hn => not_accepts_of_mem hn ha
  · exact fun hn => .inr (.inr ⟨h, hn⟩)

theorem accepts_iff_of_span (h : ∀ m ∈ S, m - n < w) : Accepts w S n ↔ n ∉ S := by
  by_cases hS : S = ∅
  · simp [Accepts, hS]
  · exact accepts_iff_of_lt (h _ (top_mem hS))

theorem record_eq_insert (h : Accepts w S n ↔ n ∉ S) : record w S n = insert n S := by
  by_cases hn : n ∈ S
  · rw [record_of_not_accepts fun ha => h.1 ha hn, Finset.insert_eq_of_mem hn]
  · exact record_of_accepts (h.2 hn)

/-! ## Two sizes -/

/-- `T` has the members of `S`, and others that a window of `w` has left behind. -/
structure Extends (w : ℕ) (S T : Finset ℕ) : Prop where
  subset : S ⊆ T
  top_eq : top S = top T
  empty : S = ∅ → T = ∅
  behind : ∀ n ∈ T, n ∉ S → w ≤ top S - n

theorem extends_empty (w : ℕ) : Extends w ∅ ∅ where
  subset := Finset.Subset.refl ∅
  top_eq := rfl
  empty h := h
  behind n hn _ := by simp at hn

theorem Extends.accepts {v : ℕ} {T : Finset ℕ} (h : Extends w S T) (hw : w ≤ v) (ha : Accepts w S n) :
    Accepts v T n := by
  rcases ha with he | hlt | ⟨hd, hn⟩
  · exact .inl (h.empty he)
  · exact .inr (.inl (h.top_eq ▸ hlt))
  · refine .inr (.inr ⟨h.top_eq ▸ Nat.lt_of_lt_of_le hd hw, fun hT => ?_⟩)
    exact absurd (h.behind n hT hn) (Nat.not_le.2 hd)

/-- What only the larger window takes, the smaller one has left behind. -/
theorem Extends.record {v : ℕ} {T : Finset ℕ} (h : Extends w S T) (hw : w ≤ v) (n : ℕ) :
    Extends w (record w S n) (Window.record v T n) where
  subset := by
    by_cases ha : Accepts w S n
    · rw [record_of_accepts ha, record_of_accepts (h.accepts hw ha)]
      exact Finset.insert_subset_insert n h.subset
    · rw [record_of_not_accepts ha]
      exact h.subset.trans (subset_record v T n)
  top_eq := by rw [top_record, top_record, h.top_eq]
  empty he := absurd he (record_ne_empty w S n)
  behind m hm hn := by
    have htop := top_le_top_record w S n
    have hS : m ∉ S := fun hS => hn (subset_record w S n hS)
    by_cases hT : m ∈ T
    · exact (h.behind m hT hS).trans (by omega)
    · have hmn : m = n := by
        unfold Window.record at hm
        split at hm
        · exact (Finset.mem_insert.1 hm).resolve_right hT
        · exact absurd hm hT
      subst hmn
      have ha : ¬Accepts w S m := fun ha => hn (by rw [record_of_accepts ha]; exact Finset.mem_insert_self m S)
      have hd : ¬top S - m < w := fun hd => ha (.inr (.inr ⟨hd, hS⟩))
      omega

/-! ## Bitmaps -/

/-- `last` is the largest member of `S`, and `bit d` says whether `last - d`
is one. -/
structure Represents (w : ℕ) (S : Finset ℕ) (last : ℕ) (bit : ℕ → Prop) : Prop where
  nonempty : S.Nonempty
  last_eq : last = top S
  bit_iff : ∀ d < w, d ≤ last → (bit d ↔ last - d ∈ S)

namespace Represents

theorem accepts_iff (h : Represents w S last bit) :
    Accepts w S n ↔ last < n ∨ (last - n < w ∧ n ≤ last ∧ ¬bit (last - n)) := by
  rw [Accepts, ← h.last_eq]
  have hS : S ≠ ∅ := h.nonempty.ne_empty
  constructor
  · rintro (rfl | hlt | ⟨hd, hn⟩)
    · exact absurd rfl hS
    · exact .inl hlt
    · by_cases hlt : last < n
      · exact .inl hlt
      · have hle : n ≤ last := by omega
        rw [h.bit_iff _ hd (by omega), show last - (last - n) = n by omega]
        exact .inr ⟨hd, hle, hn⟩
  · rintro (hlt | ⟨hd, hle, hn⟩)
    · exact .inr (.inl hlt)
    · rw [h.bit_iff _ hd (by omega), show last - (last - n) = n by omega] at hn
      exact .inr (.inr ⟨hd, hn⟩)

/-- The first number. -/
theorem first (hb : ∀ d < w, bit d ↔ d = 0) : Represents w {n} n bit where
  nonempty := Finset.singleton_nonempty n
  last_eq := by simp [top]
  bit_iff d hd hn := by
    rw [hb d hd, Finset.mem_singleton]
    omega

/-- A number above all others moves the bits up by its distance. -/
theorem shift (h : Represents w S last bit) (hn : last < n)
    (hb : ∀ d < w, bit' d ↔ d = 0 ∨ (n - last ≤ d ∧ bit (d - (n - last)))) :
    Represents w (insert n S) n bit' where
  nonempty := Finset.insert_nonempty n S
  last_eq := by rw [top_insert, ← h.last_eq]; omega
  bit_iff d hd hdn := by
    rw [hb d hd, Finset.mem_insert]
    by_cases hle : n - last ≤ d
    · rw [h.bit_iff _ (by omega) (by omega), show last - (d - (n - last)) = n - d by omega]
      constructor
      · rintro (rfl | ⟨-, hm⟩)
        · exact .inl (by omega)
        · exact .inr hm
      · rintro (he | hm)
        · exact .inl (by omega)
        · exact .inr ⟨hle, hm⟩
    · constructor
      · rintro (rfl | ⟨hc, -⟩)
        · exact .inl (by omega)
        · exact absurd hc hle
      · rintro (he | hm)
        · exact .inl (by omega)
        · have := le_top hm
          rw [← h.last_eq] at this
          omega

/-- A jump of the whole window leaves no other number in it. -/
theorem jump (h : Represents w S last bit) (hn : last < n) (hw : w ≤ n - last) (hb : ∀ d < w, bit' d ↔ d = 0) :
    Represents w (insert n S) n bit' := by
  refine h.shift hn (fun d hd => ?_)
  rw [hb d hd]
  constructor
  · exact .inl
  · rintro (rfl | ⟨hc, -⟩)
    · rfl
    · omega

/-- A number inside the window sets its bit. -/
theorem mark (h : Represents w S last bit) (hn : n ≤ last) (hb : ∀ d < w, bit' d ↔ bit d ∨ d = last - n) :
    Represents w (insert n S) last bit' where
  nonempty := Finset.insert_nonempty n S
  last_eq := by rw [top_insert, ← h.last_eq]; omega
  bit_iff d hd hdl := by
    rw [hb d hd, h.bit_iff d hd hdl, Finset.mem_insert, or_comm]
    constructor
    · rintro (rfl | hm)
      · exact .inl (by omega)
      · exact .inr hm
    · rintro (he | hm)
      · exact .inl (by omega)
      · exact .inr hm

end Represents

/-- Every bit that is set stands for a member, also above the window. -/
def Covers (S : Finset ℕ) (last : ℕ) (bit : ℕ → Prop) : Prop := ∀ d, bit d → d ≤ last ∧ last - d ∈ S

theorem Covers.subset {T : Finset ℕ} (h : Covers S last bit) (hS : S ⊆ T) : Covers T last bit :=
  fun d hd => ⟨(h d hd).1, hS (h d hd).2⟩

theorem covers_first (hn : n ∈ S) (hb : ∀ d, bit d → d = 0) : Covers S n bit := by
  intro d hd
  obtain rfl := hb d hd
  exact ⟨Nat.zero_le n, hn⟩

theorem Covers.shift (h : Covers S last bit) (hn : last < n)
    (hb : ∀ d, bit' d → d = 0 ∨ (n - last ≤ d ∧ bit (d - (n - last)))) : Covers (insert n S) n bit' := by
  intro d hd
  rcases hb d hd with rfl | ⟨hle, hd⟩
  · exact ⟨Nat.zero_le n, Finset.mem_insert_self n S⟩
  · obtain ⟨hl, hm⟩ := h _ hd
    refine ⟨by omega, Finset.mem_insert_of_mem ?_⟩
    rwa [show n - d = last - (d - (n - last)) by omega]

theorem Covers.mark (h : Covers S last bit) (hn : n ≤ last) (hb : ∀ d, bit' d → bit d ∨ d = last - n) :
    Covers (insert n S) last bit' := by
  intro d hd
  rcases hb d hd with hd | rfl
  · exact ⟨(h d hd).1, Finset.mem_insert_of_mem (h d hd).2⟩
  · refine ⟨Nat.sub_le last n, ?_⟩
    rw [Nat.sub_sub_self hn]
    exact Finset.mem_insert_self n S

/-- Members that all lie in the window are the bits. -/
theorem Represents.bit_iff_of_span (h : Represents w S last bit) (hc : Covers S last bit)
    (hs : ∀ n ∈ S, last - n < w) (d : ℕ) : bit d ↔ d ≤ last ∧ last - d ∈ S := by
  constructor
  · exact hc d
  · rintro ⟨hd, hm⟩
    have hw := hs _ hm
    rw [Nat.sub_sub_self hd] at hw
    exact (h.bit_iff d hw hd).2 hm

end Window
