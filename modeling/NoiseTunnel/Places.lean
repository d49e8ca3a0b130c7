import NoiseTunnel.Accepting
import NoiseTunnel.Survival
import NoiseTunnel.Tally
/-!
# Every place is given back

The accept loop, with the program's own handler behind each session. A handler
that panicked would keep its place for good, and so does one whose client stays
connected and silent. None panics, so the sessions of all other clients come to
an end, and give their places back.
-/
open Rust

namespace NoiseTunnel

open WireFrame

/-! ## Connections -/

/-- The frames among what reaches a session. -/
def Input.frames (inputs : List Input) : List WireFrame := inputs.filterMap fun | .frame f => some f | _ => none

/-- What a connection brings: the secret its handshake will draw, and what the
reads and the writes on it come to. A client that stays connected and silent
adds nothing to that. A session over fewer than 2^62 bytes counts fewer than
2^64, as `loop_bytes` says. -/
structure Connection where
  secret : Key
  inputs : List Input
  from_stream : ∀ i ∈ inputs, i.FromStream
  bytes_lt : wire_bytes (Input.frames inputs) < 2 ^ 62

namespace Serving

variable {s : Serving} {n : ℕ}

/-- In transport the counter and the filter agree; at the end there is a result, or an error of the server's own. -/
def Sound (n : ℕ) : Serving → Prop
  | await_init => True
  | transport session => ∃ m ≤ n, session.Synced m
  | done r => ∀ e, r = .error e → InRange e

theorem sound_error {e : Stop Error} (h : InRange e) : Sound n (done (.error e)) := by
  rintro e' ⟨⟩
  exact h

theorem sound_ok (session : ServerSession) : Sound n (done (.ok session)) := by
  rintro e' ⟨⟩

theorem Sound.mono {m : ℕ} (h : Sound n s) (hm : n ≤ m) : Sound m s := by
  cases s with
  | await_init => exact trivial
  | done r => exact h
  | transport session =>
    obtain ⟨k, hk, hsynced⟩ := h
    exact ⟨k, hk.trans hm, hsynced⟩

section
variable (P : Primitives) (server_keys : KeyPair) (prologue : Bytes) (secret : Key)

/-- One frame more. -/
theorem sound_frame (f : WireFrame) (h : Sound n s) (hn : n + 1 < 2 ^ 64) :
    Sound (n + 1) (step P server_keys prologue secret s (.frame f)).2 := by
  cases s with
  | await_init =>
    refine settle_cases (TunnelServer.accept_handshake_in_range server_keys prologue secret f) (fun c hc => ?_)
      fun _ => sound_error
    obtain ⟨k, k', rfl⟩ := TunnelServer.accept_handshake_ok hc
    exact ⟨0, Nat.zero_le _, ServerSession.synced_start k k'⟩
  | transport session =>
    obtain ⟨m, hm, hsynced⟩ := h
    refine settle_cases (hsynced.turn_in_range (by omega) f) (fun c hc => ?_) fun _ => sound_error
    cases c with
    | done session' => exact sound_ok session'
    | cont session' =>
      obtain ⟨m', hm', hsynced'⟩ := hsynced.turn (by omega) hc
      exact ⟨m', by omega, hsynced'⟩
  | done r => exact h

/-- Any other input. -/
theorem sound_other {i : Input} (h : Sound n s) (hi : i.FromStream) (hf : ∀ f, i ≠ .frame f) :
    Sound n (step P server_keys prologue secret s i).2 := by
  cases i with
  | frame f => exact absurd rfl (hf f)
  | connect | line l => cases s <;> exact h
  | broken e =>
    have hrange := hi.in_range
    cases s with
    | await_init => exact sound_error hrange
    | transport session =>
      cases e with
      | err e => exact sound_ok session
      | panic p => exact sound_error hrange
    | done r => exact h
  | unwritten =>
    cases s with
    | transport session => exact sound_error (in_range_err Error.noConfusion)
    | await_init | done r => exact h

/-- By induction on the inputs: the frames among them are all that the counter can have counted. -/
theorem sound_run {inputs : List Input} (h : Sound n s) (hi : ∀ i ∈ inputs, i.FromStream)
    (hn : n + (Input.frames inputs).length < 2 ^ 64) :
    Sound (n + (Input.frames inputs).length)
      (inputs.foldl (fun s i => (step P server_keys prologue secret s i).2) s) := by
  induction inputs generalizing s n with
  | nil => exact h
  | cons i inputs ih =>
    obtain ⟨hi, his⟩ := List.forall_mem_cons.1 hi
    rw [List.foldl_cons]
    by_cases hf : ∃ f, i = .frame f
    · obtain ⟨f, rfl⟩ := hf
      have hlen : (Input.frames (.frame f :: inputs)).length = (Input.frames inputs).length + 1 := rfl
      rw [hlen] at hn ⊢
      have hrest := ih (sound_frame P server_keys prologue secret f h (by omega)) his (by omega)
      exact hrest.mono (by omega)
    · have hframe : ∀ f, i ≠ .frame f := fun f he => hf ⟨f, he⟩
      have hlen : Input.frames (i :: inputs) = Input.frames inputs := by
        cases i <;> first | rfl | exact absurd rfl (hframe _)
      rw [hlen] at hn ⊢
      exact ih (sound_other P server_keys prologue secret h hi hframe) his hn

end

end Serving

namespace Connection

variable (P : Primitives) (server_keys : KeyPair) (prologue : Bytes) (c : Connection)

/-- Where the handler of the connection comes to. -/
def handler : Serving :=
  c.inputs.foldl (fun s i => (Serving.step P server_keys prologue c.secret s i).2) .await_init

/-- The handler returns `res`. -/
def Returns (res : Except Error Unit) : Prop :=
  match c.handler P server_keys prologue, res with
  | .done (.ok _), .ok () => True
  | .done (.error (.err e)), .error e' => e = e'
  | _, _ => False

/-- The connection ends: its stream does, or it fails, or a frame ends it. -/
def Ends : Prop := ∃ r, c.handler P server_keys prologue = .done r

theorem Returns.ends {P : Primitives} {server_keys : KeyPair} {prologue : Bytes} {c : Connection}
    {res : Except Error Unit} (h : c.Returns P server_keys prologue res) : c.Ends P server_keys prologue := by
  unfold Returns at h
  split at h
  · exact ⟨_, ‹_›⟩
  · exact ⟨_, ‹_›⟩
  · exact h.elim

/-- No handler panics: at the end of its connection it returns. -/
theorem Ends.returns {P : Primitives} {server_keys : KeyPair} {prologue : Bytes} {c : Connection}
    (h : c.Ends P server_keys prologue) : ∃ res, c.Returns P server_keys prologue res := by
  obtain ⟨r, hr⟩ := h
  have hlen := length_le_wire_bytes (Input.frames c.inputs)
  have hbytes := c.bytes_lt
  have hinit : Serving.Sound 0 .await_init := trivial
  have hsound := Serving.sound_run P server_keys prologue c.secret hinit c.from_stream (by omega)
  rw [show c.inputs.foldl _ _ = _ from hr] at hsound
  cases r with
  | ok s => exact ⟨.ok (), by simp only [Returns, hr]⟩
  | error e =>
    cases e with
    | err e => exact ⟨.error e, by simp only [Returns, hr]⟩
    | panic p => exact (hsound _ rfl).elim

end Connection

namespace Running

/-- A step without resets; the handler of the `i`th connection returns what it returns. -/
def Handles (P : Primitives) (server_keys : KeyPair) (prologue : Bytes) (connections : ℕ → Connection) (_ : Running) :
    Event → Prop
  | .handled i res => (connections i).Returns P server_keys prologue res
  | .reset => False
  | _ => True

/-- The steps that the spawned tasks still have to take. -/
def work (r : Running) : ℕ := r.sessions.countP (· ≠ .finished) + r.sessions.countP (· = .handling)

variable {P : Primitives} {server_keys : KeyPair} {prologue : Bytes} {connections : ℕ → Connection} {r r' : Running}
  {server : TunnelServer} {es : List Event} {e : Event}

theorem work_le (r : Running) : r.work ≤ 2 * r.sessions.length := by
  have hunfinished := List.countP_le_length (p := fun s : Spawned => decide (s ≠ .finished)) (l := r.sessions)
  have hhandling := List.countP_le_length (p := fun s : Spawned => decide (s = .handling)) (l := r.sessions)
  unfold work
  omega

/-- Every step of a task is one less to take. -/
theorem work_step (he : e.ofSession) (hs : r.step e = some r') : r'.work + 1 = r.work := by
  cases e with
  | handled i res =>
    simp only [step] at hs
    split at hs
    · rename_i hi
      cases hs
      have hset := unfinished_set (y := .returned res) hi Spawned.noConfusion Spawned.noConfusion
      obtain ⟨hlt, hget⟩ := List.getElem?_eq_some_iff.1 hi
      have hpos : 0 < r.sessions.countP (· = .handling) :=
        List.countP_pos_iff.2 ⟨_, List.mem_of_getElem? hi, decide_eq_true rfl⟩
      have hhandling : (r.sessions.set i (.returned res)).countP (· = .handling) + 1 =
          r.sessions.countP (· = .handling) := by
        rw [List.countP_set hlt, hget, if_pos (decide_eq_true rfl), if_neg (by simp)]
        omega
      simp only [work, hset]
      omega
    · cases hs
  | fetch_sub i =>
    simp only [step] at hs
    split at hs
    · rename_i res hi
      cases hs
      have hfinish := unfinished_finish hi Spawned.noConfusion
      obtain ⟨hlt, hget⟩ := List.getElem?_eq_some_iff.1 hi
      have hhandling : (r.sessions.set i .finished).countP (· = .handling) = r.sessions.countP (· = .handling) := by
        rw [List.countP_set hlt, hget, if_neg (by simp), if_neg (by simp)]
        rfl
      simp only [work, hhandling]
      omega
    · cases hs
  | accept | load | compare | fetch_add | spawn | reset => exact he.elim

theorem work_exec (he : ∀ e ∈ es, e.ofSession) (hs : r.exec es = some r') : r'.work + es.length = r.work := by
  induction es generalizing r with
  | nil =>
    cases hs
    rfl
  | cons e es ih =>
    obtain ⟨he, hes⟩ := List.forall_mem_cons.1 he
    obtain ⟨r₁, hstep, hs⟩ := Option.bind_eq_some_iff.1 hs
    have hrest := ih hes hs
    have hone := work_step he hstep
    rw [List.length_cons]
    omega

/-- Every task has finished, but for those whose connections have not ended. -/
def Settled (P : Primitives) (server_keys : KeyPair) (prologue : Bytes) (connections : ℕ → Connection)
    (r : Running) : Prop :=
  ∀ i s, r.sessions[i]? = some s → s = .finished ∨ s = .handling ∧ ¬(connections i).Ends P server_keys prologue

/-- A task that has not finished can take a step, unless its connection stays open. -/
theorem task_steps {i : ℕ} {s : Spawned} (hi : r.sessions[i]? = some s) (hs : s ≠ .finished)
    (hends : s = .handling → (connections i).Ends P server_keys prologue) :
    ∃ e r', e.ofSession ∧ Handles P server_keys prologue connections r e ∧ r.step e = some r' := by
  cases s with
  | handling =>
    obtain ⟨res, hres⟩ := (hends rfl).returns
    exact ⟨.handled i res, _, trivial, hres, if_pos hi⟩
  | returned res => exact ⟨.fetch_sub i, _, trivial, trivial, by simp only [step, hi]; rfl⟩
  | finished => exact absurd rfl hs

/-- Where no task can take a step, all are settled. -/
theorem settled_of_stuck
    (h : ∀ e, e.ofSession → Handles P server_keys prologue connections r e → r.step e = none) :
    Settled P server_keys prologue connections r := by
  intro i s hi
  by_contra hs
  rw [not_or] at hs
  obtain ⟨hfinished, hopen⟩ := hs
  have hends (hh : s = .handling) : (connections i).Ends P server_keys prologue := by
    by_contra hn
    exact hopen ⟨hh, hn⟩
  obtain ⟨e, r', he, hhandles, hstep⟩ := task_steps hi hfinished hends
  rw [h e he hhandles] at hstep
  cases hstep

/-- By induction on the steps left: the tasks settle. -/
theorem tasks_settle (h : Run (Handles P server_keys prologue connections) server es r) :
    ∃ es' r', (∀ e ∈ es', e.ofSession) ∧ Run (Handles P server_keys prologue connections) server (es ++ es') r' ∧
      Settled P server_keys prologue connections r' := by
  induction hw : r.work using Nat.strongRecOn generalizing r es with
  | _ w ih =>
    by_cases hall : Settled P server_keys prologue connections r
    · exact ⟨[], r, List.forall_mem_nil _, (List.append_nil es).symm ▸ h, hall⟩
    · obtain ⟨e, he, hhandles, hstep⟩ :
          ∃ e, e.ofSession ∧ Handles P server_keys prologue connections r e ∧ r.step e ≠ none := by
        by_contra hnone
        refine hall (settled_of_stuck fun e he hhandles => ?_)
        by_contra hs
        exact hnone ⟨e, he, hhandles, hs⟩
      obtain ⟨r₁, hstep⟩ := Option.ne_none_iff_exists'.1 hstep
      have hlt := work_step he hstep
      obtain ⟨es', r', hes', hrun, hsettled⟩ := ih r₁.work (by omega) (h.step e hhandles hstep) rfl
      rw [List.append_assoc] at hrun
      exact ⟨e :: es', r', List.forall_mem_cons.2 ⟨he, hes'⟩, hrun, hsettled⟩

/-- A step that a task leaves its handler by is the return of the handler. -/
theorem returned_of_step {i : ℕ} {s : Spawned} (hs : r.step e = some r') (hi : r'.sessions[i]? = some s)
    (hne : s ≠ .handling) :
    r.sessions[i]? = some s ∨ (∃ res, e = .handled i res) ∨ ∃ res, r.sessions[i]? = some (.returned res) := by
  cases e with
  | handled j res =>
    simp only [step] at hs
    split at hs <;> cases hs
    by_cases hij : j = i
    · exact .inr (.inl ⟨res, by rw [hij]⟩)
    · rw [List.getElem?_set_ne hij] at hi
      exact .inl hi
  | fetch_sub j =>
    simp only [step] at hs
    split at hs <;> cases hs
    rename_i res hj
    by_cases hij : j = i
    · exact .inr (.inr ⟨res, by rw [← hij]; exact hj⟩)
    · rw [List.getElem?_set_ne hij] at hi
      exact .inl hi
  | spawn =>
    simp only [step] at hs
    split at hs <;> cases hs
    by_cases hlt : i < r.sessions.length
    · rw [List.getElem?_append_left hlt] at hi
      exact .inl hi
    · rw [List.getElem?_append_right (Nat.not_lt.1 hlt)] at hi
      exact absurd (List.mem_singleton.1 (List.mem_of_getElem? hi)) hne
  | compare =>
    simp only [step] at hs
    split at hs
    · split at hs <;> cases hs <;> exact .inl hi
    · cases hs
      exact .inl hi
    · cases hs
  | accept ok =>
    simp only [step] at hs
    split at hs <;> cases hs
    cases ok <;> exact .inl hi
  | load | fetch_add =>
    simp only [step] at hs
    split at hs <;> cases hs
    exact .inl hi
  | reset =>
    cases hs
    exact .inl hi

/-- A task is at its handler until the handler returns. -/
theorem handling_kept (h : Run (Handles P server_keys prologue connections) server es r) {i : ℕ} {s : Spawned}
    (hi : r.sessions[i]? = some s) (hopen : ¬(connections i).Ends P server_keys prologue) : s = .handling := by
  induction h generalizing s with
  | start => cases hi
  | step e h hc hs ih =>
    by_contra hne
    rcases returned_of_step hs hi hne with hold | ⟨res, rfl⟩ | ⟨res, hold⟩
    · exact hne (ih hold)
    · exact hopen (Connection.Returns.ends hc)
    · cases ih hold

/-- The sessions that are live are those whose connections have not ended. -/
theorem Settled.live (h : Settled P server_keys prologue connections r) (hacc : r.accepting ≠ .counted) :
    r.live = r.sessions.countP (· = .handling) := by
  rw [Running.live, if_neg hacc, Nat.add_zero]
  refine List.countP_congr fun s hs => ?_
  obtain ⟨i, hi⟩ := List.mem_iff_getElem?.1 hs
  rcases h i s hi with rfl | ⟨rfl, -⟩ <;> decide

theorem admits_of_room {max : UInt64} (hmax : r.server.max_connections = some max) (hacc : r.accepting = .listening)
    (hroom : r.server.active_connections < max) :
    ∃ r', r.exec [.accept true, .load, .compare, .fetch_add] = some r' ∧ r'.accepting = .counted := by
  obtain ⟨⟨max', active⟩, accepting, sessions⟩ := r
  cases hacc
  cases hmax
  have hcompare : (Running.mk ⟨some max, active⟩ (.loaded active) sessions).step .compare =
      some ⟨⟨some max, active⟩, .admitted, sessions⟩ := if_neg (UInt64.not_le.2 hroom)
  refine ⟨⟨⟨some max, active + 1⟩, .counted, sessions⟩, ?_, rfl⟩
  show ((Running.mk ⟨some max, active⟩ (.loaded active) sessions).step .compare).bind (fun r => r.exec [.fetch_add]) = _
  rw [hcompare]
  rfl

theorem Run.handled_counted (h : Run (Handles P server_keys prologue connections) server es r)
    (hserver : server.active_connections = 0) {max : UInt64} (hmax : server.max_connections = some max) : Counted r :=
  h.counted hserver fun _ e he hm => ⟨fun hr => by rw [hr] at he; exact he.elim, fun _ hn => by
    rw [hm, hmax] at hn
    cases hn⟩

/-- A server with a limit, whatever its clients send: from wherever it is, its
sessions take at most two steps each, and can take them until all have finished
whose connections end. Where they have, a loop that listens has all places but
those of the connections still open, and admits the next one if there is such a
place. A connection that stays open keeps its own. -/
theorem places_returned (P : Primitives) (server_keys : KeyPair) (prologue : Bytes) (connections : ℕ → Connection)
    (max : UInt64)
    (h : Run (Handles P server_keys prologue connections) (TunnelServer.new.with_max_connections max) es r) :
    (∀ es' r', (∀ e ∈ es', e.ofSession) → r.exec es' = some r' → es'.length ≤ 2 * r.sessions.length) ∧
    (∃ es' r', (∀ e ∈ es', e.ofSession) ∧
      Run (Handles P server_keys prologue connections) (TunnelServer.new.with_max_connections max) (es ++ es') r' ∧
      Settled P server_keys prologue connections r') ∧
    ((∀ e, e.ofSession → Handles P server_keys prologue connections r e → r.step e = none) →
      Settled P server_keys prologue connections r ∧
      (r.accepting = .listening →
        (∃ n, r.server.available_capacity = some n ∧ n.toNat = max.toNat - r.sessions.countP (· = .handling)) ∧
        (r.sessions.countP (· = .handling) < max.toNat →
          ∃ r', r.exec [.accept true, .load, .compare, .fetch_add] = some r' ∧ r'.accepting = .counted))) ∧
    ∀ i s, r.sessions[i]? = some s → ¬(connections i).Ends P server_keys prologue → s = .handling := by
  refine ⟨fun es' r' hes hs => ?_, tasks_settle h, fun hstuck => ⟨settled_of_stuck hstuck, fun hacc => ?_⟩,
    fun i s => handling_kept h⟩
  · have hwork := work_exec hes hs
    have hle := work_le r
    omega
  · have hlive := (settled_of_stuck hstuck).live (by rw [hacc]; exact Accepting.noConfusion)
    have hmax : r.server.max_connections = some max := h.max_connections
    have hcounter := (h.handled_counted rfl rfl).counter
    rw [hlive] at hcounter
    constructor
    · refine ⟨saturating_sub max r.server.active_connections, ?_, ?_⟩
      · rw [TunnelServer.available_capacity, hmax]
        rfl
      · rw [toNat_saturating_sub, hcounter]
    · intro hroom
      refine admits_of_room hmax hacc (UInt64.lt_iff_toNat_lt.2 ?_)
      rw [hcounter]
      exact hroom

end Running

namespace Concrete

theorem read_zeros : WireFrame.read_from [0, 0, 0, 0] = .error (.err (.short_frame 0)) := rfl

/-- A client that sends four zero bytes, and then clients that send nothing. -/
def visitors : ℕ → Connection
  | 0 => ⟨key 41, [.broken (.err (.short_frame 0))], fun i hi e he => by
      obtain rfl := List.mem_singleton.1 hi
      cases he
      exact ⟨_, read_zeros⟩, by decide⟩
  | _ => ⟨key 42, [], List.forall_mem_nil _, by decide⟩

end Concrete

namespace Running

/-- Two places, both taken; the handler of the first connection has just returned. -/
theorem places_returned_visitors :
    ∃ es r,
      Settled (Concrete.primitives true) (Concrete.relay PROTOCOL_NAME).server_keys PROTOCOL_NAME Concrete.visitors r ∧
      (∀ s, r.sessions[1]? = some s → s = .handling) ∧
      Run (Handles (Concrete.primitives true) (Concrete.relay PROTOCOL_NAME).server_keys PROTOCOL_NAME Concrete.visitors)
        (TunnelServer.new.with_max_connections 2)
        ([.accept true, .load, .compare, .fetch_add, .spawn, .accept true, .load, .compare, .fetch_add, .spawn,
          .handled 0 (.error (.short_frame 0))] ++ es) r := by
  have hstart : Run (Handles (Concrete.primitives true) (Concrete.relay PROTOCOL_NAME).server_keys PROTOCOL_NAME
      Concrete.visitors) (TunnelServer.new.with_max_connections 2) [] (start _) := .start
  have hfirst := hstart.step (.accept true) trivial rfl |>.step .load trivial rfl |>.step .compare trivial rfl
    |>.step .fetch_add trivial rfl |>.step .spawn trivial rfl
  have hsecond := hfirst.step (.accept true) trivial rfl |>.step .load trivial rfl |>.step .compare trivial rfl
    |>.step .fetch_add trivial rfl |>.step .spawn trivial rfl
  have h := hsecond.step (.handled 0 (.error (.short_frame 0))) rfl rfl
  obtain ⟨es, r, -, hrun, hsettled⟩ := (places_returned _ _ _ _ 2 h).2.1
  have hopen : ¬(Concrete.visitors 1).Ends (Concrete.primitives true) (Concrete.relay PROTOCOL_NAME).server_keys
      PROTOCOL_NAME := by
    rintro ⟨r, hr⟩
    cases hr
  exact ⟨es, r, hsettled, fun s hs => (places_returned _ _ _ _ 2 hrun).2.2.2 1 s hs hopen, hrun⟩

end Running

end NoiseTunnel
