import Mathlib.Data.List.Basic
import Mathlib.Tactic.Common
/-!
# Numbered records

A sender numbers its records with a counter below `N` and never lets it wrap;
a receiver takes records in the order of its own counter, which may. If every
record received is one that was sent, the messages received are a prefix of the
messages sent, whatever was dropped, copied or reordered on the way.
-/

namespace Numbered

variable {α β γ : Type} {N : Nat} {num : α → Nat} {means : α → β → Prop} {rs : List α} {ms : List β}

theorem getElem?_of_prefix {xs ys : List α} (h : xs <+: ys) {i : Nat} {a : α} (hi : xs[i]? = some a) :
    ys[i]? = some a := by
  obtain ⟨rest, rfl⟩ := h
  rw [List.getElem?_append_left (List.getElem?_eq_some_iff.1 hi).1]
  exact hi

/-- The records `rs` carry the messages `ms`, numbered from 0 by a counter modulo `N`. -/
structure Records (N : Nat) (num : α → Nat) (means : α → β → Prop) (rs : List α) (ms : List β) : Prop where
  length_eq : rs.length = ms.length
  record : ∀ i r, rs[i]? = some r → num r = i % N ∧ ∃ m, ms[i]? = some m ∧ means r m

theorem Records.nil : Records N num means [] [] := ⟨rfl, fun _ _ h => by simp at h⟩

theorem Records.snoc (h : Records N num means rs ms) {r : α} {m : β} (hn : num r = rs.length % N) (hm : means r m) :
    Records N num means (rs ++ [r]) (ms ++ [m]) where
  length_eq := by rw [List.length_append, List.length_append, h.length_eq]; rfl
  record i r' hr := by
    rcases Nat.lt_trichotomy i rs.length with hi | rfl | hi
    · rw [List.getElem?_append_left hi] at hr
      obtain ⟨hnum, m', hm', hmeans⟩ := h.record i r' hr
      refine ⟨hnum, m', ?_, hmeans⟩
      rw [List.getElem?_append_left (h.length_eq ▸ hi)]
      exact hm'
    · obtain rfl : r = r' := by simpa using hr
      exact ⟨hn, m, by rw [h.length_eq]; simp, hm⟩
    · rw [List.getElem?_eq_none (by rw [List.length_append]; exact hi)] at hr
      cases hr

/-- A counter that never wraps is the index. -/
theorem Records.num_eq (h : Records N num means rs ms) (hb : ∀ r ∈ rs, num r + 1 < N) {i : Nat} {r : α}
    (hr : rs[i]? = some r) : num r = i := by
  have hpos : 0 < N := Nat.lt_of_le_of_lt (Nat.zero_le _) (hb r (List.mem_of_getElem? hr))
  have hlen : rs.length < N := by
    by_contra hle
    -- the record with the last number would have wrapped the counter
    have hlt : N - 1 < rs.length := by omega
    obtain ⟨hnum, -⟩ := h.record (N - 1) rs[N - 1] (List.getElem?_eq_getElem hlt)
    have hlast := hb _ (List.getElem_mem hlt)
    rw [hnum, Nat.mod_eq_of_lt (by omega)] at hlast
    omega
  have hi : i < rs.length := (List.getElem?_eq_some_iff.1 hr).1
  rw [(h.record i r hr).1, Nat.mod_eq_of_lt (by omega)]

theorem Records.length_lt (h : Records N num means rs ms) (hN : 0 < N) (hb : ∀ r ∈ rs, num r + 1 < N) :
    rs.length < N := by
  cases hlen : rs.length with
  | zero => exact hN
  | succ n =>
    have hn : n < rs.length := by omega
    have hnum := h.num_eq hb (List.getElem?_eq_getElem hn)
    have hlt := hb rs[n] (List.getElem_mem hn)
    omega

/-- As long as there are no more records than numbers, the numbers are those from 0 on. -/
theorem Records.numbered (h : Records N num means rs ms) (hlen : rs.length ≤ N) :
    rs.map num = List.range rs.length := by
  refine List.ext_getElem (by rw [List.length_map, List.length_range]) fun i hi _ => ?_
  rw [List.length_map] at hi
  obtain ⟨hnum, -⟩ := h.record i rs[i] (List.getElem?_eq_getElem hi)
  rw [List.getElem_map, List.getElem_range, hnum, Nat.mod_eq_of_lt (by omega)]

/-- Authentic records in order carry a prefix. -/
theorem Records.of_authentic {os : List γ} {num' : γ → Nat} {means' : γ → β → Prop} {ms' : List β}
    (hs : Records N num means rs ms) (hb : ∀ r ∈ rs, num r + 1 < N) (ho : Records N num' means' os ms')
    (hauth : ∀ o ∈ os, ∃ r ∈ rs, num r = num' o ∧ ∀ m m', means r m → means' o m' → m = m') : ms' <+: ms := by
  have hbo : ∀ o ∈ os, num' o + 1 < N := by
    intro o hm
    obtain ⟨r, hr, hnum, -⟩ := hauth o hm
    rw [← hnum]
    exact hb r hr
  rw [List.prefix_iff_getElem?]
  intro i hi
  have hio : i < os.length := ho.length_eq ▸ hi
  have hoi := List.getElem?_eq_getElem hio
  obtain ⟨r, hr, hnum, hmsg⟩ := hauth _ (List.getElem_mem hio)
  obtain ⟨j, hj⟩ := List.getElem?_of_mem hr
  -- both counters equal their index, so the sender's record stands at the same place
  obtain rfl : j = i := by rw [← hs.num_eq hb hj, hnum, ho.num_eq hbo hoi]
  obtain ⟨-, m, hm, hmeans⟩ := hs.record j r hj
  obtain ⟨-, m', hm', hmeans'⟩ := ho.record j _ hoi
  rw [hm, hmsg m m' hmeans hmeans', ← hm', List.getElem?_eq_getElem hi]

end Numbered
