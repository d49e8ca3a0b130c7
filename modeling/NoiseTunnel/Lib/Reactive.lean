import Mathlib.Data.List.Nodup
import Mathlib.Logic.Function.Basic
import Mathlib.Tactic.Common
/-!
# Reactive tasks

A task reacts to inputs from outside: each input takes it to a new state and
has effects. Any number of tasks may run interleaved, in any order of inputs;
what one of them does is then still a run of its own.
-/

namespace Reactive

structure Task (ι ε : Type) where
  State : Type
  init : State
  step : State → ι → List ε × State

variable {ι ε κ β : Type}

/-- The states a task reaches, with its effects so far. -/
inductive Runs (T : Task ι ε) : T.State → List ε → Prop
  | nil : Runs T T.init []
  | step {s l} (i : ι) : Runs T s l → Runs T (T.step s i).2 (l ++ (T.step s i).1)

/-- What every step preserves holds of every run. -/
theorem Runs.inv {T : Task ι ε} (I : T.State → List ε → Prop) (h0 : I T.init [])
    (hs : ∀ s l i, I s l → I (T.step s i).2 (l ++ (T.step s i).1)) {s l} (h : Runs T s l) : I s l := by
  induction h with
  | nil => exact h0
  | step i _ ih => exact hs _ _ i ih

/-- The states a task reaches while every input meets `C` where it comes. -/
inductive RunsIf (T : Task ι ε) (C : T.State → ι → Prop) : T.State → List ε → Prop
  | nil : RunsIf T C T.init []
  | step {s l} (i : ι) : RunsIf T C s l → C s i → RunsIf T C (T.step s i).2 (l ++ (T.step s i).1)

theorem RunsIf.next {T : Task ι ε} {C : T.State → ι → Prop} {s s' : T.State} {l l' : List ε} {i : ι}
    (h : RunsIf T C s l) (hc : C s i) (hs : T.step s i = (l', s')) : RunsIf T C s' (l ++ l') := by
  have hnext := h.step i hc
  rwa [hs] at hnext

theorem RunsIf.runs {T : Task ι ε} {C : T.State → ι → Prop} {s l} (h : RunsIf T C s l) : Runs T s l := by
  induction h with
  | nil => exact .nil
  | step i _ _ ih => exact .step i ih

theorem RunsIf.inv {T : Task ι ε} {C : T.State → ι → Prop} (I : T.State → List ε → Prop) (h0 : I T.init [])
    (hs : ∀ s l i, I s l → C s i → I (T.step s i).2 (l ++ (T.step s i).1)) {s l} (h : RunsIf T C s l) : I s l := by
  induction h with
  | nil => exact h0
  | step i _ hc ih => exact hs _ _ i ih hc

/-! ## Interleaving -/

/-- The tasks of the index set `κ`, run in any interleaving. An effect carries
the index of its task. -/
inductive World [DecidableEq κ] (T : κ → Task ι ε) : ((k : κ) → (T k).State) → List (κ × ε) → Prop
  | nil : World T (fun k => (T k).init) []
  | step {w l} (k : κ) (i : ι) : World T w l →
      World T (Function.update w k ((T k).step (w k) i).2) (l ++ ((T k).step (w k) i).1.map (k, ·))

section
variable [DecidableEq κ] {T : κ → Task ι ε}

/-- The effects of one task. -/
def proj (k : κ) (l : List (κ × ε)) : List ε := l.filterMap fun x => if x.1 = k then some x.2 else none

theorem proj_append (k : κ) (l l' : List (κ × ε)) : proj k (l ++ l') = proj k l ++ proj k l' := List.filterMap_append

theorem proj_cons_self (k : κ) (e : ε) (l : List (κ × ε)) : proj k ((k, e) :: l) = e :: proj k l := by
  simp [proj]

theorem proj_own (k : κ) (l : List ε) : proj k (l.map (k, ·)) = l := by
  induction l with
  | nil => rfl
  | cons e l ih =>
    rw [List.map_cons, proj_cons_self, ih]

theorem proj_other {k k' : κ} (h : k' ≠ k) (l : List ε) : proj k (l.map (k', ·)) = [] := by
  rw [proj, List.filterMap_eq_nil_iff]
  intro x hx
  obtain ⟨e, -, rfl⟩ := List.mem_map.1 hx
  exact if_neg h

theorem mem_proj {k : κ} {e : ε} {l : List (κ × ε)} : e ∈ proj k l ↔ (k, e) ∈ l := by
  rw [proj, List.mem_filterMap]
  constructor
  · rintro ⟨⟨k', e'⟩, hm, he⟩
    simp only [Option.ite_none_right_eq_some, Option.some.injEq] at he
    obtain ⟨rfl, rfl⟩ := he
    exact hm
  · intro hm
    exact ⟨(k, e), hm, if_pos rfl⟩

theorem proj_sublist (k : κ) (l : List (κ × ε)) : (proj k l).Sublist (l.map Prod.snd) := by
  induction l with
  | nil => exact .slnil
  | cons x l ih =>
    obtain ⟨k', e⟩ := x
    by_cases h : k' = k
    · subst h
      rw [proj_cons_self]
      exact ih.cons_cons e
    · have hp : proj k ((k', e) :: l) = proj k l := by simp [proj, h]
      rw [hp]
      exact ih.cons e

/-- An interleaving in which every input meets its task's condition. -/
inductive WorldIf (T : κ → Task ι ε) (C : (k : κ) → (T k).State → ι → Prop) :
    ((k : κ) → (T k).State) → List (κ × ε) → Prop
  | nil : WorldIf T C (fun k => (T k).init) []
  | step {w l} (k : κ) (i : ι) : WorldIf T C w l → C k (w k) i →
      WorldIf T C (Function.update w k ((T k).step (w k) i).2) (l ++ ((T k).step (w k) i).1.map (k, ·))

/-- Each task of an interleaving runs as it would alone. -/
theorem WorldIf.runs {C : (k : κ) → (T k).State → ι → Prop} {w : (k : κ) → (T k).State} {l : List (κ × ε)}
    (h : WorldIf T C w l) (k : κ) : RunsIf (T k) (C k) (w k) (proj k l) := by
  induction h with
  | nil => exact .nil
  | @step w l k' i _ hc ih =>
    rw [proj_append]
    by_cases hk : k' = k
    · subst hk
      rw [proj_own, Function.update_self]
      exact .step i ih hc
    · rw [proj_other hk, List.append_nil, Function.update_of_ne (Ne.symm hk)]
      exact ih

theorem WorldIf.world {C : (k : κ) → (T k).State → ι → Prop} {w : (k : κ) → (T k).State} {l : List (κ × ε)}
    (h : WorldIf T C w l) : World T w l := by
  induction h with
  | nil => exact .nil
  | step k i _ _ ih => exact .step k i ih

theorem World.unconditional {w : (k : κ) → (T k).State} {l : List (κ × ε)} (h : World T w l) :
    WorldIf T (fun _ _ _ => True) w l := by
  induction h with
  | nil => exact .nil
  | step k i _ ih => exact .step k i ih trivial

theorem World.runs {w : (k : κ) → (T k).State} {l : List (κ × ε)} (h : World T w l) (k : κ) :
    Runs (T k) (w k) (proj k l) :=
  (h.unconditional.runs k).runs

end

/-- The run in which every input is chosen after seeing all effects so far. The
last move stands first. -/
def play [DecidableEq κ] (T : κ → Task ι ε) :
    List (κ × (List (κ × ε) → ι)) → ((k : κ) → (T k).State) × List (κ × ε)
  | [] => (fun k => (T k).init, [])
  | (k, i) :: moves =>
    let r := play T moves
    let s := (T k).step (r.1 k) (i r.2)
    (Function.update r.1 k s.2, r.2 ++ s.1.map (k, ·))

theorem World.play [DecidableEq κ] (T : κ → Task ι ε) (moves : List (κ × (List (κ × ε) → ι))) :
    World T (play T moves).1 (play T moves).2 := by
  induction moves with
  | nil => exact .nil
  | cons m moves ih => exact .step m.1 (m.2 (Reactive.play T moves).2) ih

/-- Every move of such a run meets its task's condition. -/
def Met [DecidableEq κ] (T : κ → Task ι ε) (C : (k : κ) → (T k).State → ι → Prop) :
    List (κ × (List (κ × ε) → ι)) → Prop
  | [] => True
  | (k, i) :: moves => C k ((play T moves).1 k) (i (play T moves).2) ∧ Met T C moves

instance Met.decidable [DecidableEq κ] {T : κ → Task ι ε} {C : (k : κ) → (T k).State → ι → Prop}
    [∀ k s i, Decidable (C k s i)] : (moves : List (κ × (List (κ × ε) → ι))) → Decidable (Met T C moves)
  | [] => inferInstanceAs (Decidable True)
  | (_, _) :: moves =>
    have := Met.decidable (T := T) (C := C) moves
    inferInstanceAs (Decidable (_ ∧ _))

theorem WorldIf.play [DecidableEq κ] {T : κ → Task ι ε} {C : (k : κ) → (T k).State → ι → Prop}
    {moves : List (κ × (List (κ × ε) → ι))} (h : Met T C moves) :
    WorldIf T C (play T moves).1 (play T moves).2 := by
  induction moves with
  | nil => exact .nil
  | cons m moves ih => exact .step m.1 (m.2 (Reactive.play T moves).2) (ih h.2) h.1

/-- A mark that no two effects share tells their task. -/
theorem apart_of_nodup (f : ε → Option β) {l : List (κ × ε)} (h : (l.filterMap fun x => f x.2).Nodup) {k k' : κ}
    {e e' : ε} {b : β} (hm : (k, e) ∈ l) (hm' : (k', e') ∈ l) (he : f e = some b) (he' : f e' = some b) : k = k' := by
  induction l with
  | nil => cases hm
  | cons x l ih =>
    have htail : (l.filterMap fun x => f x.2).Nodup :=
      h.sublist ((List.sublist_cons_self x l).filterMap _)
    -- the mark of the head is no mark of the tail
    have hhead {k₁ k₂ : κ} {e₁ e₂ : ε} (hx : (k₁, e₁) = x) (hl : (k₂, e₂) ∈ l) (h₁ : f e₁ = some b)
        (h₂ : f e₂ = some b) : False := by
      subst hx
      simp only [List.filterMap_cons, h₁, List.nodup_cons] at h
      exact h.1 (List.mem_filterMap.2 ⟨_, hl, h₂⟩)
    rcases List.mem_cons.1 hm with hx | hl
    · rcases List.mem_cons.1 hm' with hx' | hl'
      · exact congrArg Prod.fst (hx.trans hx'.symm)
      · exact (hhead hx hl' he he').elim
    · rcases List.mem_cons.1 hm' with hx' | hl'
      · exact (hhead hx' hl he' he).elim
      · exact ih htail hl hl'

/-- Marks that repeat neither inside one task nor in two tasks do not repeat. -/
theorem nodup_of_proj [DecidableEq κ] (f : ε → Option β) {l : List (κ × ε)}
    (own : ∀ k, ((proj k l).filterMap f).Nodup)
    (apart : ∀ k k' e e' b, (k, e) ∈ l → (k', e') ∈ l → f e = some b → f e' = some b → k = k') :
    (l.filterMap fun x => f x.2).Nodup := by
  induction l with
  | nil => exact List.nodup_nil
  | cons x l ih =>
    obtain ⟨k, e⟩ := x
    have hsub (k' : κ) : (proj k' l).Sublist (proj k' ((k, e) :: l)) :=
      (List.sublist_cons_self _ _).filterMap _
    have ih' := ih (fun k' => (own k').sublist ((hsub k').filterMap f))
      (fun k₁ k₂ e₁ e₂ b h₁ h₂ => apart k₁ k₂ e₁ e₂ b (List.mem_cons_of_mem _ h₁) (List.mem_cons_of_mem _ h₂))
    cases hf : f e with
    | none =>
      simp only [List.filterMap_cons, hf]
      exact ih'
    | some b =>
      simp only [List.filterMap_cons, hf, List.nodup_cons]
      refine ⟨fun hb => ?_, ih'⟩
      -- a second `b` comes from the same task, so that task's own list repeats it
      obtain ⟨⟨k', e'⟩, hm, he'⟩ := List.mem_filterMap.1 hb
      obtain rfl := apart k k' e e' b List.mem_cons_self (List.mem_cons_of_mem _ hm) hf he'
      have hown := own k
      rw [proj_cons_self, List.filterMap_cons_some hf, List.nodup_cons] at hown
      exact hown.1 (List.mem_filterMap.2 ⟨e', mem_proj.2 hm, he'⟩)

end Reactive
