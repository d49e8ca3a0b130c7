import Mathlib.Tactic.Common
import Mathlib.Data.List.Basic
/-!
# Logged computations

An `Act ε σ α` runs one stretch of code: it logs the effects `ε` it has, in
order, and then returns an `α` or stops with a `σ`. The log survives the stop.
-/

structure Act (ε σ α : Type) where
  log : List ε
  res : Except σ α

namespace Act

variable {ε σ α β : Type}

/-- Run `x`; where it returns, run `f` after it. -/
def andThen (x : Act ε σ α) (f : α → Act ε σ β) : Act ε σ β :=
  match x.res with
  | .ok a => ⟨x.log ++ (f a).log, (f a).res⟩
  | .error s => ⟨x.log, .error s⟩

instance : Monad (Act ε σ) where
  pure a := ⟨[], .ok a⟩
  bind := andThen

def emit (e : ε) : Act ε σ Unit := ⟨[e], .ok ()⟩

/-- A computation without effects. -/
def lift (r : Except σ α) : Act ε σ α := ⟨[], r⟩

instance : MonadLift (Except σ) (Act ε σ) := ⟨lift⟩

instance : MonadExceptOf σ (Act ε σ) where
  throw s := ⟨[], .error s⟩
  tryCatch x h :=
    match x.res with
    | .ok _ => x
    | .error s => ⟨x.log ++ (h s).log, (h s).res⟩

/-! ## What a computation does, piece by piece -/

@[simp] theorem pure_log (a : α) : (pure a : Act ε σ α).log = [] := rfl
@[simp] theorem pure_res (a : α) : (pure a : Act ε σ α).res = .ok a := rfl
@[simp] theorem emit_log (e : ε) : (emit e : Act ε σ Unit).log = [e] := rfl
@[simp] theorem emit_res (e : ε) : (emit e : Act ε σ Unit).res = .ok () := rfl
@[simp] theorem lift_log (r : Except σ α) : (lift r : Act ε σ α).log = [] := rfl
@[simp] theorem lift_res (r : Except σ α) : (lift r : Act ε σ α).res = r := rfl
@[simp] theorem monadLift_eq (r : Except σ α) : (MonadLift.monadLift r : Act ε σ α) = lift r := rfl
@[simp] theorem liftM_eq (r : Except σ α) : (liftM r : Act ε σ α) = lift r := rfl
@[simp] theorem throw_log (s : σ) : (throw s : Act ε σ α).log = [] := rfl
@[simp] theorem throw_res (s : σ) : (throw s : Act ε σ α).res = .error s := rfl

theorem bind_of_ok {x : Act ε σ α} {f : α → Act ε σ β} {a : α} (h : x.res = .ok a) :
    x >>= f = ⟨x.log ++ (f a).log, (f a).res⟩ := by
  show andThen x f = _
  simp only [andThen, h]

theorem bind_of_error {x : Act ε σ α} {f : α → Act ε σ β} {s : σ} (h : x.res = .error s) :
    x >>= f = ⟨x.log, .error s⟩ := by
  show andThen x f = _
  simp only [andThen, h]

/-- A sequence returns only if both parts do. -/
theorem bind_res_ok {x : Act ε σ α} {f : α → Act ε σ β} {b : β} :
    (x >>= f).res = .ok b ↔ ∃ a, x.res = .ok a ∧ (f a).res = .ok b := by
  cases h : x.res with
  | ok a => simp [bind_of_ok h]
  | error s => simp [bind_of_error h]

theorem bind_assoc {γ : Type} (x : Act ε σ α) (f : α → Act ε σ β) (g : β → Act ε σ γ) :
    x >>= f >>= g = x >>= fun a => f a >>= g := by
  cases hx : x.res with
  | error s => rw [bind_of_error hx, bind_of_error hx, bind_of_error rfl]
  | ok a =>
    rw [bind_of_ok hx, bind_of_ok hx]
    cases hf : (f a).res with
    | error s => rw [bind_of_error hf, bind_of_error rfl]
    | ok b => rw [bind_of_ok hf, bind_of_ok rfl, List.append_assoc]

theorem bind_pure_map (x : Act ε σ α) (f : α → β) : (x >>= fun a => pure (f a)) = ⟨x.log, x.res.map f⟩ := by
  obtain ⟨l, r⟩ := x
  cases r with
  | ok a => rw [bind_of_ok rfl]; simp [Except.map]
  | error s => rw [bind_of_error rfl]; rfl

@[simp] theorem emit_bind (e : ε) (f : Unit → Act ε σ β) :
    emit e >>= f = ⟨e :: (f ()).log, (f ()).res⟩ := rfl

@[simp] theorem lift_ok_bind (a : α) (f : α → Act ε σ β) : lift (.ok a) >>= f = f a := rfl

@[simp] theorem lift_error_bind (s : σ) (f : α → Act ε σ β) : lift (.error s) >>= f = ⟨[], .error s⟩ := rfl

@[simp] theorem pure_then (a : α) (f : α → Act ε σ β) : (pure a : Act ε σ α) >>= f = f a := rfl

@[simp] theorem throw_bind (s : σ) (f : α → Act ε σ β) : (throw s : Act ε σ α) >>= f = ⟨[], .error s⟩ := rfl

@[simp] theorem mk_ok_bind (l : List ε) (a : α) (f : α → Act ε σ β) :
    (⟨l, .ok a⟩ : Act ε σ α) >>= f = ⟨l ++ (f a).log, (f a).res⟩ := rfl

@[simp] theorem mk_error_bind (l : List ε) (s : σ) (f : α → Act ε σ β) :
    (⟨l, .error s⟩ : Act ε σ α) >>= f = ⟨l, .error s⟩ := rfl

/-! ## How a computation stops -/

/-- Where `x` stops, `good` holds of how. -/
def Stops (good : σ → Prop) (x : Act ε σ α) : Prop := ∀ s, x.res = .error s → good s

section
variable {good : σ → Prop}

theorem stops_ok (l : List ε) (a : α) : Stops good (⟨l, .ok a⟩ : Act ε σ α) := by
  intro s h
  cases h

theorem stops_error {s : σ} (l : List ε) (h : good s) : Stops good (⟨l, .error s⟩ : Act ε σ α) := by
  intro s' h'
  cases h'
  exact h

theorem Stops.bind {x : Act ε σ α} {f : α → Act ε σ β} (h : Stops good x)
    (hf : ∀ a, x.res = .ok a → Stops good (f a)) : Stops good (x >>= f) := by
  obtain ⟨l, r⟩ := x
  cases r with
  | ok a =>
    rw [mk_ok_bind]
    exact hf a rfl
  | error s =>
    rw [mk_error_bind]
    exact stops_error l (h s rfl)

end

/-! ## What a computation logs -/

/-- `good` holds of every effect of `x`. -/
def Logs (good : ε → Prop) (x : Act ε σ α) : Prop := ∀ e ∈ x.log, good e

section
variable {good : ε → Prop}

theorem logs_nil (r : Except σ α) : Logs good (⟨[], r⟩ : Act ε σ α) := List.forall_mem_nil good

theorem Logs.bind {x : Act ε σ α} {f : α → Act ε σ β} (h : Logs good x)
    (hf : ∀ a, x.res = .ok a → Logs good (f a)) : Logs good (x >>= f) := by
  obtain ⟨l, r⟩ := x
  cases r with
  | ok a =>
    rw [mk_ok_bind]
    exact List.forall_mem_append.2 ⟨h, hf a rfl⟩
  | error s =>
    rw [mk_error_bind]
    exact h

end

/-! ## Operations that fail -/

/-- The log up to the operation that fails: the one after the first `n` that `hit` holds of. -/
def upTo (hit : ε → Bool) : ℕ → List ε → Option (List ε)
  | _, [] => none
  | n, e :: l =>
    if hit e then
      match n with
      | 0 => some [e]
      | n + 1 => (upTo hit n l).map (e :: ·)
    else (upTo hit n l).map (e :: ·)

/-- `x` where the operation after the first `n` that `hit` holds of stops it with `s`. -/
def failing (hit : ε → Bool) (n : ℕ) (s : σ) (x : Act ε σ α) : Act ε σ α :=
  match upTo hit n x.log with
  | some l => ⟨l, .error s⟩
  | none => x

section
variable {hit : ε → Bool} {n : ℕ} {l l' p : List ε}

theorem upTo_append (hit : ε → Bool) (n : ℕ) (l l' : List ε) :
    upTo hit n (l ++ l') = (upTo hit n l).or ((upTo hit (n - l.countP hit) l').map (l ++ ·)) := by
  induction l generalizing n with
  | nil => simp [upTo]
  | cons e l ih =>
    cases he : hit e with
    | false => simp [upTo, he, ih, Option.map_or, Function.comp_def]
    | true =>
      cases n with
      | zero => simp [upTo, he]
      | succ n => simp [upTo, he, ih, Option.map_or, Function.comp_def]

/-- Up to there the log is what it was, with one such operation more than succeed. -/
theorem upTo_spec (h : upTo hit n l = some p) : p <+: l ∧ p.countP hit = n + 1 := by
  induction l generalizing n p with
  | nil => cases h
  | cons e l ih =>
    have hrest {m : ℕ} (h : (upTo hit m l).map (e :: ·) = some p) :
        p <+: e :: l ∧ p.countP hit = m + 1 + [e].countP hit := by
      obtain ⟨q, hq, rfl⟩ := Option.map_eq_some_iff.1 h
      obtain ⟨hpre, hcount⟩ := ih hq
      rw [← List.singleton_append, List.countP_append, hcount, Nat.add_comm]
      exact ⟨(List.prefix_append_right_inj [e]).2 hpre, rfl⟩
    cases he : hit e with
    | false =>
      simp only [upTo, he, Bool.false_eq_true, if_false] at h
      simpa [he] using hrest h
    | true =>
      cases n with
      | zero =>
        simp only [upTo, he, if_true, Option.some.injEq] at h
        subst h
        exact ⟨⟨l, rfl⟩, by simp [he]⟩
      | succ n =>
        simp only [upTo, he, if_true] at h
        simpa [he] using hrest h

theorem upTo_none (h : ∀ e ∈ l, hit e = false) : upTo hit n l = none := by
  cases hp : upTo hit n l with
  | none => rfl
  | some p =>
    obtain ⟨hpre, hcount⟩ := upTo_spec hp
    have hpos : 0 < p.countP hit := by omega
    obtain ⟨e, he, hhit⟩ := List.countP_pos_iff.1 hpos
    rw [h e (hpre.subset he)] at hhit
    cases hhit

/-- Where only the last operation can fail, the log up to there is the log. -/
theorem upTo_last {e : ε} (hl : ∀ e ∈ l, hit e = false) (h : upTo hit n (l ++ [e]) = some p) : p = l ++ [e] := by
  rw [upTo_append, upTo_none hl, Option.none_or] at h
  obtain ⟨q, hq, rfl⟩ := Option.map_eq_some_iff.1 h
  obtain ⟨hpre, hcount⟩ := upTo_spec hq
  rcases List.prefix_cons_iff.1 hpre with rfl | ⟨q', rfl, hnil⟩
  · cases hcount
  · rw [List.prefix_nil.1 hnil]

/-- Either nothing fails, or the code stops at the operation that does. -/
theorem failing_cases (hit : ε → Bool) (n : ℕ) (s : σ) (x : Act ε σ α) :
    (upTo hit n x.log = none ∧ failing hit n s x = x) ∨
    ∃ p, upTo hit n x.log = some p ∧ failing hit n s x = ⟨p, .error s⟩ := by
  unfold failing
  cases h : upTo hit n x.log with
  | none => exact .inl ⟨rfl, rfl⟩
  | some p => exact .inr ⟨p, rfl, rfl⟩

end

/-! ## Two computations side by side -/

section
variable {α' β' : Type} {E : σ → σ → Prop} {R : α → α' → Prop} {S : β → β' → Prop}

/-- Both have the same effects; then both return, related by `R`, or both stop, related by `E`. -/
structure Rel (E : σ → σ → Prop) (R : α → α' → Prop) (x : Act ε σ α) (y : Act ε σ α') : Prop where
  log : x.log = y.log
  res : match x.res, y.res with
    | .ok a, .ok b => R a b
    | .error s, .error t => E s t
    | _, _ => False

theorem Rel.ok {l : List ε} {a : α} {b : α'} (h : R a b) : Rel E R ⟨l, .ok a⟩ ⟨l, .ok b⟩ := ⟨rfl, h⟩

theorem Rel.error {l : List ε} {s t : σ} (h : E s t) : Rel E R (⟨l, .error s⟩ : Act ε σ α) ⟨l, .error t⟩ := ⟨rfl, h⟩

theorem Rel.refl {R : α → α → Prop} (hE : ∀ s, E s s) (hR : ∀ a, R a a) (x : Act ε σ α) : Rel E R x x := by
  obtain ⟨l, r⟩ := x
  cases r with
  | ok a => exact .ok (hR a)
  | error s => exact .error (hE s)

/-- Related parts in sequence. -/
theorem Rel.bind {x : Act ε σ α} {y : Act ε σ α'} {f : α → Act ε σ β} {g : α' → Act ε σ β'} (h : Rel E R x y)
    (hf : ∀ a b, x.res = .ok a → R a b → Rel E S (f a) (g b)) : Rel E S (x >>= f) (y >>= g) := by
  obtain ⟨l, r⟩ := x
  obtain ⟨l', r'⟩ := y
  obtain ⟨hlog, hres⟩ := h
  obtain rfl : l = l' := hlog
  cases r with
  | ok a =>
    cases r' with
    | ok b =>
      obtain ⟨hlog', hres'⟩ := hf a b rfl hres
      rw [mk_ok_bind, mk_ok_bind]
      exact ⟨congrArg (l ++ ·) hlog', hres'⟩
    | error t => exact hres.elim
  | error s =>
    cases r' with
    | ok b => exact hres.elim
    | error t => exact .error hres

end

end Act
