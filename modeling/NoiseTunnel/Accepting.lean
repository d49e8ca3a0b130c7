import NoiseTunnel.Error
/-!
# Accepting connections

The accept loop of `run` and the sessions it has spawned share one counter.
They touch it in separate atomic steps, which interleave in any order, and
`reset_connections` may set it to 0 at any time.
-/
open Rust

namespace NoiseTunnel

/-- What of the server the counter concerns. -/
structure TunnelServer where
  max_connections : Option UInt64
  active_connections : UInt64
  deriving DecidableEq

namespace TunnelServer

def new : TunnelServer := ⟨none, 0⟩

def with_max_connections (self : TunnelServer) (max : UInt64) : TunnelServer :=
  { self with max_connections := some max }

def is_at_capacity (self : TunnelServer) : Bool :=
  match self.max_connections with
  | some max => self.active_connections ≥ max
  | none => false

def available_capacity (self : TunnelServer) : Option UInt64 :=
  self.max_connections.map fun max => saturating_sub max self.active_connections

def reset_connections (self : TunnelServer) : TunnelServer := { self with active_connections := 0 }

end TunnelServer

/-! ## A server that runs -/

/-- Where the accept loop stands. -/
inductive Accepting where
  | listening
  /-- A connection has come in. -/
  | connected
  /-- The counter was read. -/
  | loaded (active : UInt64)
  /-- The connection is within the limit. -/
  | admitted
  /-- The counter was raised. -/
  | counted
  deriving DecidableEq

/-- A spawned task: its handler runs, has returned, or the counter was lowered after it. -/
inductive Spawned where
  | handling
  | returned (res : Except Error Unit)
  | finished
  deriving DecidableEq

structure Running where
  server : TunnelServer
  accepting : Accepting
  sessions : List Spawned
  deriving DecidableEq

/-- The atomic steps of the accept loop, of the spawned tasks, and of whoever resets the counter. -/
inductive Event where
  | accept (ok : Bool)
  | load
  | compare
  | fetch_add
  | spawn
  | handled (i : Nat) (res : Except Error Unit)
  | fetch_sub (i : Nat)
  | reset
  deriving DecidableEq

/-- A step of a spawned task. -/
def Event.ofSession : Event → Prop
  | .handled _ _ | .fetch_sub _ => True
  | _ => False

namespace Running

def start (server : TunnelServer) : Running := ⟨server, .listening, []⟩

/-- One step, where the loop or the task is at it. -/
def step (r : Running) : Event → Option Running
  | .accept ok => if r.accepting = .listening then some (if ok then { r with accepting := .connected } else r) else none
  | .load => if r.accepting = .connected then some { r with accepting := .loaded r.server.active_connections } else none
  | .compare =>
    match r.accepting, r.server.max_connections with
    | .loaded active, some max =>
      if active ≥ max then some { r with accepting := .listening } else some { r with accepting := .admitted }
    | .loaded _, none => some { r with accepting := .admitted }
    | _, _ => none
  | .fetch_add =>
    if r.accepting = .admitted then
      some { r with
        server := { r.server with active_connections := r.server.active_connections + 1 }
        accepting := .counted }
    else none
  | .spawn =>
    if r.accepting = .counted then some { r with accepting := .listening, sessions := r.sessions ++ [.handling] }
    else none
  | .handled i res =>
    if r.sessions[i]? = some .handling then some { r with sessions := r.sessions.set i (.returned res) } else none
  | .fetch_sub i =>
    match r.sessions[i]? with
    | some (.returned _) =>
      some { r with
        server := { r.server with active_connections := r.server.active_connections - 1 }
        sessions := r.sessions.set i .finished }
    | _ => none
  | .reset => some { r with server := r.server.reset_connections }

/-- Sessions that were admitted and have not completed. -/
def live (r : Running) : Nat :=
  r.sessions.countP (· ≠ .finished) + if r.accepting = .counted then 1 else 0

def exec (r : Running) : List Event → Option Running
  | [] => some r
  | e :: es => (r.step e).bind fun r' => r'.exec es

/-- The steps taken and the state they led to. Every step met `C` where it was taken. -/
inductive Run (C : Running → Event → Prop) (server : TunnelServer) : List Event → Running → Prop
  | start : Run C server [] (start server)
  | step {es r r'} (e : Event) : Run C server es r → C r e → r.step e = some r' → Run C server (es ++ [e]) r'

variable {r r' : Running} {i : Nat}

/-! ## Counting -/

theorem unfinished_pos {l : List Spawned} {x : Spawned} (h : l[i]? = some x) (hx : x ≠ .finished) :
    0 < l.countP (· ≠ .finished) :=
  List.countP_pos_iff.2 ⟨x, List.mem_of_getElem? h, decide_eq_true hx⟩

/-- A task that goes on without finishing. -/
theorem unfinished_set {l : List Spawned} {x y : Spawned} (h : l[i]? = some x) (hx : x ≠ .finished)
    (hy : y ≠ .finished) : (l.set i y).countP (· ≠ .finished) = l.countP (· ≠ .finished) := by
  have hpos := unfinished_pos h hx
  obtain ⟨hi, rfl⟩ := List.getElem?_eq_some_iff.1 h
  rw [List.countP_set hi, if_pos (decide_eq_true hx), if_pos (decide_eq_true hy)]
  omega

/-- A task that finishes. -/
theorem unfinished_finish {l : List Spawned} {x : Spawned} (h : l[i]? = some x) (hx : x ≠ .finished) :
    (l.set i .finished).countP (· ≠ .finished) + 1 = l.countP (· ≠ .finished) := by
  have hpos := unfinished_pos h hx
  obtain ⟨hi, rfl⟩ := List.getElem?_eq_some_iff.1 h
  rw [List.countP_set hi, if_pos (decide_eq_true hx), if_neg (by decide)]
  omega

/-! ## What holds in an orderly run -/

/-- The counter counts, and the loop admits nobody past the limit. -/
structure Counted (r : Running) : Prop where
  counter : r.server.active_connections.toNat = r.live
  loaded : ∀ a, r.accepting = .loaded a → r.live ≤ a.toNat
  admitted : ∀ max, r.server.max_connections = some max → r.accepting = .admitted → r.live < max.toNat
  bound : ∀ max, r.server.max_connections = some max → r.live ≤ max.toNat

/-- The counter is reset only while every admitted session has completed, and
without a limit the number of sessions stays below 2^64. -/
def Orderly (r : Running) (e : Event) : Prop :=
  (e = .reset → r.live = 0) ∧ (e = .fetch_add → r.server.max_connections = none → r.live + 1 < 2 ^ 64)

instance (r : Running) (e : Event) : Decidable (Orderly r e) := inferInstanceAs (Decidable ((_ → _) ∧ (_ → _ → _)))

theorem counted_start {server : TunnelServer} (h : server.active_connections = 0) : Counted (start server) where
  counter := by rw [start, h]; rfl
  loaded a ha := by cases ha
  admitted max _ ha := by cases ha
  bound max _ := Nat.zero_le _

/-- A step of the accept loop that does not touch the counter. -/
theorem Counted.move (h : Counted r) {p : Accepting} (hlive : ({ r with accepting := p } : Running).live = r.live)
    (hloaded : ∀ a, p = .loaded a → r.live ≤ a.toNat)
    (hadmitted : ∀ max, r.server.max_connections = some max → p = .admitted → r.live < max.toNat) :
    Counted { r with accepting := p } where
  counter := by rw [hlive]; exact h.counter
  loaded a ha := by rw [hlive]; exact hloaded a ha
  admitted max hm ha := by rw [hlive]; exact hadmitted max hm ha
  bound max hm := by rw [hlive]; exact h.bound max hm

theorem live_move (r : Running) {p : Accepting} (hr : r.accepting ≠ .counted) (hp : p ≠ .counted) :
    ({ r with accepting := p } : Running).live = r.live := by
  simp only [live, if_neg hr, if_neg hp]

theorem Counted.compare (h : Counted r) (hs : r.step .compare = some r') : Counted r' := by
  simp only [step] at hs
  split at hs
  · rename_i active max hacc hmax
    have hne : r.accepting ≠ .counted := by rw [hacc]; exact Accepting.noConfusion
    split at hs
    · cases hs
      exact h.move (live_move r hne Accepting.noConfusion) (fun _ ha => by cases ha) (fun _ _ ha => by cases ha)
    · rename_i hlt
      cases hs
      have hle := h.loaded active hacc
      rw [ge_iff_le, UInt64.le_iff_toNat_le] at hlt
      refine h.move (live_move r hne Accepting.noConfusion) (fun _ ha => by cases ha) fun max' hm _ => ?_
      obtain rfl := Option.some.inj (hmax.symm.trans hm)
      omega
  · rename_i active hacc hmax
    have hne : r.accepting ≠ .counted := by rw [hacc]; exact Accepting.noConfusion
    cases hs
    refine h.move (live_move r hne Accepting.noConfusion) (fun _ ha => by cases ha) fun max' hm _ => ?_
    rw [hmax] at hm
    cases hm
  · cases hs

/-- Where a connection is admitted, the counter has room for it. -/
theorem Counted.room (h : Counted r) (hacc : r.accepting = .admitted)
    (hn : r.server.max_connections = none → r.live + 1 < 2 ^ 64) : r.live + 1 < 2 ^ 64 := by
  cases hmax : r.server.max_connections with
  | none => exact hn hmax
  | some max =>
    have hlt := h.admitted max hmax hacc
    have := max.toNat_lt
    omega

theorem Counted.fetch_add (h : Counted r) (hn : r.server.max_connections = none → r.live + 1 < 2 ^ 64)
    (hs : r.step .fetch_add = some r') : Counted r' := by
  simp only [step] at hs
  split at hs
  · rename_i hacc
    cases hs
    have hroom := h.room hacc hn
    have hlive : ({ r with
        server := { r.server with active_connections := r.server.active_connections + 1 }
        accepting := .counted } : Running).live = r.live + 1 := by
      simp only [live, hacc, if_true, reduceCtorEq, if_false]
    constructor
    · rw [hlive, toNat_add_one (by rw [h.counter]; exact hroom), h.counter]
    · exact fun _ ha => by cases ha
    · exact fun _ _ ha => by cases ha
    · intro max hm
      rw [hlive]
      exact h.admitted max hm hacc
  · cases hs

theorem Counted.spawn (h : Counted r) (hs : r.step .spawn = some r') : Counted r' := by
  simp only [step] at hs
  split at hs
  · rename_i hacc
    cases hs
    have hlive : ({ r with accepting := .listening, sessions := r.sessions ++ [.handling] } : Running).live = r.live := by
      simp [live, hacc]
    exact ⟨by rw [hlive]; exact h.counter, (fun _ ha => by cases ha), (fun _ _ ha => by cases ha),
      fun max hm => by rw [hlive]; exact h.bound max hm⟩
  · cases hs

/-- A completion gives one place back. -/
theorem live_fetch_sub (hs : r.step (.fetch_sub i) = some r') :
    r'.live + 1 = r.live ∧ r'.accepting = r.accepting ∧
      r'.server = { r.server with active_connections := r.server.active_connections - 1 } := by
  simp only [step] at hs
  split at hs
  · rename_i res hi
    cases hs
    have hfinish := unfinished_finish hi Spawned.noConfusion
    refine ⟨?_, rfl, rfl⟩
    simp only [live]
    omega
  · cases hs

theorem Counted.fetch_sub (h : Counted r) (hs : r.step (.fetch_sub i) = some r') :
    Counted r' ∧ r'.server.active_connections.toNat + 1 = r.server.active_connections.toNat := by
  obtain ⟨hlive, hacc, hserver⟩ := live_fetch_sub hs
  have hcounter : r'.server.active_connections.toNat + 1 = r.server.active_connections.toNat := by
    have hle : (1 : UInt64).toNat ≤ r.server.active_connections.toNat := by
      rw [h.counter, ← hlive]
      exact Nat.le_add_left 1 _
    rw [hserver, UInt64.toNat_sub_of_le _ _ (UInt64.le_iff_toNat_le.2 hle)]
    exact Nat.sub_add_cancel hle
  have hmax : r'.server.max_connections = r.server.max_connections := by rw [hserver]
  refine ⟨⟨?_, fun a ha => ?_, fun max hm ha => ?_, fun max hm => ?_⟩, hcounter⟩
  · rw [h.counter] at hcounter
    omega
  · have := h.loaded a (hacc ▸ ha)
    omega
  · have := h.admitted max (hmax ▸ hm) (hacc ▸ ha)
    omega
  · have := h.bound max (hmax ▸ hm)
    omega

theorem live_handled {res : Except Error Unit} (hs : r.step (.handled i res) = some r') :
    r'.live = r.live ∧ r'.accepting = r.accepting ∧ r'.server = r.server := by
  simp only [step] at hs
  split at hs
  · rename_i hi
    cases hs
    refine ⟨?_, rfl, rfl⟩
    have hset := unfinished_set (y := .returned res) hi Spawned.noConfusion Spawned.noConfusion
    simp only [live, hset]
  · cases hs

/-- What an orderly step preserves. -/
theorem Counted.step {e : Event} (h : Counted r) (ho : Orderly r e) (hs : r.step e = some r') : Counted r' := by
  cases e with
  | accept ok =>
    simp only [Running.step] at hs
    split at hs
    · rename_i hacc
      cases hs
      cases ok with
      | true =>
        have hne : r.accepting ≠ .counted := by rw [hacc]; exact Accepting.noConfusion
        exact h.move (live_move r hne Accepting.noConfusion) (fun _ ha => by cases ha) (fun _ _ ha => by cases ha)
      | false => exact h
    · cases hs
  | load =>
    simp only [Running.step] at hs
    split at hs
    · rename_i hacc
      cases hs
      have hne : r.accepting ≠ .counted := by rw [hacc]; exact Accepting.noConfusion
      refine h.move (live_move r hne Accepting.noConfusion) (fun a ha => ?_) (fun _ _ ha => by cases ha)
      cases ha
      exact Nat.le_of_eq h.counter.symm
    · cases hs
  | compare => exact h.compare hs
  | fetch_add => exact h.fetch_add (ho.2 rfl) hs
  | spawn => exact h.spawn hs
  | handled i res =>
    obtain ⟨hlive, hacc, hserver⟩ := live_handled hs
    exact ⟨by rw [hlive, hserver]; exact h.counter, fun a ha => by rw [hlive]; exact h.loaded a (hacc ▸ ha),
      fun max hm ha => by rw [hlive]; exact h.admitted max (hserver ▸ hm) (hacc ▸ ha),
      fun max hm => by rw [hlive]; exact h.bound max (hserver ▸ hm)⟩
  | fetch_sub i => exact (h.fetch_sub hs).1
  | reset =>
    cases hs
    have hlive : ({ r with server := r.server.reset_connections } : Running).live = 0 := ho.1 rfl
    exact ⟨by rw [hlive]; rfl, fun _ _ => by rw [hlive]; exact Nat.zero_le _,
      fun max hm ha => by rw [hlive, ← ho.1 rfl]; exact h.admitted max hm ha,
      fun _ _ => by rw [hlive]; exact Nat.zero_le _⟩

/-- The limit is configured once. -/
theorem max_connections_step {e : Event} (hs : r.step e = some r') :
    r'.server.max_connections = r.server.max_connections := by
  cases e with
  | fetch_sub i => rw [(live_fetch_sub hs).2.2]
  | handled i res => rw [(live_handled hs).2.2]
  | reset =>
    cases hs
    rfl
  | compare =>
    simp only [step] at hs
    split at hs
    · split at hs <;> cases hs <;> rfl
    · cases hs
      rfl
    · cases hs
  | accept ok =>
    simp only [step] at hs
    split at hs
    · cases ok <;> cases hs <;> rfl
    · cases hs
  | load | fetch_add | spawn =>
    simp only [step] at hs
    split at hs
    · cases hs
      rfl
    · cases hs

variable {C : Running → Event → Prop} {server : TunnelServer} {es : List Event}

theorem Run.exec (es' : List Event) (h : Run C server es r) (hC : ∀ e ∈ es', ∀ r, C r e)
    (he : r.exec es' = some r') : Run C server (es ++ es') r' := by
  induction es' generalizing es r with
  | nil =>
    cases he
    rwa [List.append_nil]
  | cons e es' ih =>
    obtain ⟨r₁, hs, he⟩ := Option.bind_eq_some_iff.1 he
    obtain ⟨hc, hC⟩ := List.forall_mem_cons.1 hC
    have hrun := ih (h.step e (hc r) hs) hC he
    rwa [List.append_assoc] at hrun

theorem Run.max_connections (h : Run C server es r) : r.server.max_connections = server.max_connections := by
  induction h with
  | start => rfl
  | step e _ _ hs ih => rw [max_connections_step hs, ih]

/-- An orderly run. -/
theorem Run.counted (h : Run C server es r) (hserver : server.active_connections = 0)
    (hC : ∀ r e, C r e → r.server.max_connections = server.max_connections → Orderly r e) : Counted r := by
  induction h with
  | start => exact counted_start hserver
  | step e hrun hc hs ih => exact ih.step (hC _ e hc hrun.max_connections) hs

/-! ## The limit -/

/-- Only a load leaves a loaded value in the loop's hand. -/
theorem loaded_of_step {a : UInt64} {e : Event} (hs : r.step e = some r') (ha : r'.accepting = .loaded a) :
    (e = .load ∧ a = r.server.active_connections) ∨ (r.accepting = .loaded a ∧ (e.ofSession ∨ e = .reset)) := by
  cases e with
  | fetch_sub i => exact .inr ⟨(live_fetch_sub hs).2.1 ▸ ha, .inl trivial⟩
  | handled i res => exact .inr ⟨(live_handled hs).2.1 ▸ ha, .inl trivial⟩
  | reset =>
    cases hs
    exact .inr ⟨ha, .inr rfl⟩
  | load =>
    simp only [step] at hs
    split at hs
    · cases hs
      exact .inl ⟨rfl, (Accepting.loaded.inj ha).symm⟩
    · cases hs
  | accept ok =>
    simp only [step] at hs
    split at hs
    · rename_i hacc
      cases ok <;> cases hs
      · cases hacc.symm.trans ha
      · cases ha
    · cases hs
  | compare =>
    simp only [step] at hs
    split at hs
    · split at hs <;> cases hs <;> cases ha
    · cases hs
      cases ha
    · cases hs
  | fetch_add | spawn =>
    simp only [step] at hs
    split at hs
    · cases hs
      cases ha
    · cases hs

/-- A value in the loop's hand was loaded with nothing but sessions' steps since. -/
theorem Run.loaded {a : UInt64} (h : Run (fun _ e => e ≠ .reset) server es r) (ha : r.accepting = .loaded a) :
    ∃ es₁ es₂ r₁, es = es₁ ++ .load :: es₂ ∧ Run (fun _ e => e ≠ .reset) server es₁ r₁ ∧
      a = r₁.server.active_connections ∧ ∀ e ∈ es₂, e.ofSession := by
  induction h with
  | start => cases ha
  | @step es r r' e hrun hc hs ih =>
    rcases loaded_of_step hs ha with ⟨rfl, hload⟩ | ⟨hacc, he⟩
    · exact ⟨es, [], r, rfl, hrun, hload, List.forall_mem_nil _⟩
    · obtain ⟨es₁, es₂, r₁, rfl, hrun₁, hload, hes⟩ := ih hacc
      refine ⟨es₁, es₂ ++ [e], r₁, by rw [List.append_assoc]; rfl, hrun₁, hload, fun x hx => ?_⟩
      rcases List.mem_append.1 hx with hx | hx
      · exact hes x hx
      · rw [List.mem_singleton.1 hx]
        exact he.resolve_right hc

/-- The next completion does not take the counter below 0, and when all
sessions have completed the counter is 0 and the next connection is admitted. -/
structure Accounted (r : Running) : Prop where
  no_wrap : ∀ i r', r.step (.fetch_sub i) = some r' →
    r'.server.active_connections.toNat + 1 = r.server.active_connections.toNat
  empty : r.live = 0 → r.server.active_connections = 0
  admits : r.live = 0 → r.server.max_connections ≠ some 0 → r.server.is_at_capacity = false ∧
    (r.accepting = .listening →
      ∃ r', r.exec [.accept true, .load, .compare, .fetch_add] = some r' ∧ r'.accepting = .counted)

theorem Counted.accounted (h : Counted r) : Accounted r := by
  have hempty (hl : r.live = 0) : r.server.active_connections = 0 := by
    apply UInt64.toNat_inj.1
    rw [h.counter, hl]
    rfl
  refine ⟨fun i r' hs => (h.fetch_sub hs).2, hempty, fun hl hmax => ?_⟩
  have hzero := hempty hl
  obtain ⟨⟨max, active⟩, accepting, sessions⟩ := r
  obtain rfl : active = 0 := hzero
  cases max with
  | none =>
    refine ⟨rfl, fun hacc => ?_⟩
    cases hacc
    exact ⟨_, rfl, rfl⟩
  | some max =>
    have hpos : ¬(0 : UInt64) ≥ max := by
      intro hge
      apply hmax
      have hle : max.toNat ≤ 0 := UInt64.le_iff_toNat_le.1 hge
      exact congrArg some (UInt64.toNat_inj.1 (Nat.le_zero.1 hle))
    refine ⟨decide_eq_false hpos, fun hacc => ?_⟩
    cases hacc
    have hcompare : (Running.mk ⟨some max, 0⟩ (.loaded 0) sessions).step .compare =
        some ⟨⟨some max, 0⟩, .admitted, sessions⟩ := if_neg hpos
    refine ⟨⟨⟨some max, 0 + 1⟩, .counted, sessions⟩, ?_, rfl⟩
    show ((Running.mk ⟨some max, 0⟩ (.loaded 0) sessions).step .compare).bind (fun r => r.exec [.fetch_add]) = _
    rw [hcompare]
    rfl

/-- In every run whose steps are all orderly, every state is accounted for. -/
theorem connections_accounted (hserver : server.active_connections = 0) (h : Run Orderly server es r) : Accounted r :=
  (h.counted hserver fun _ _ ho _ => ho).accounted

/-- A reset while nobody is connected. -/
theorem connections_accounted_idle :
    ∃ r, Run Orderly (TunnelServer.new.with_max_connections 1)
        [.accept true, .load, .compare, .fetch_add, .spawn, .handled 0 (.ok ()), .fetch_sub 0, .reset] r ∧
      Accounted r := by
  have hstart : Run Orderly (TunnelServer.new.with_max_connections 1) [] (start _) := .start
  have hcounted := (((hstart.step (.accept true) (by decide) rfl).step .load (by decide) rfl).step .compare (by decide)
    rfl).step .fetch_add (by decide) rfl
  have hidle := ((hcounted.step .spawn (by decide) rfl).step (.handled 0 (.ok ())) (by decide) rfl).step (.fetch_sub 0)
    (by decide) rfl
  have h := hidle.step .reset (by decide) rfl
  exact ⟨_, h, connections_accounted rfl h⟩

/-- A server with one place, reset while it handles its only session. -/
theorem connections_reset :
    ∃ r, Run (fun _ _ => True) (TunnelServer.new.with_max_connections 1)
        [.accept true, .load, .compare, .fetch_add, .spawn, .reset, .handled 0 (.ok ()), .fetch_sub 0] r ∧
      r.live = 0 ∧ r.server.active_connections = 0xFFFFFFFFFFFFFFFF ∧ r.server.is_at_capacity = true ∧
      ¬Accounted r := by
  have hstart : Run (fun _ _ => True) (TunnelServer.new.with_max_connections 1) [] (start _) := .start
  have h := hstart.exec [.accept true, .load, .compare, .fetch_add, .spawn, .reset, .handled 0 (.ok ()), .fetch_sub 0]
    (fun _ _ _ => trivial) rfl
  exact ⟨_, h, by decide, by decide, by decide, fun ha => absurd (ha.empty (by decide)) (by decide)⟩

end Running

end NoiseTunnel
