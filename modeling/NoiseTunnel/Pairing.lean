import NoiseTunnel.Channel
/-!
# Which answer belongs to which request

The terminal session reads one frame after each request. It skips a frame of a
type it does not expect there, and from then on prints every answer one
request late.
-/
open Rust Reactive Numbered

namespace NoiseTunnel

variable {P : Primitives} {log l : Log} {c : CipherState} {f : WireFrame} {aad pt : Bytes}

/-- What the server sends back for a message. -/
def answered (m : MessageType × Bytes) : MessageType × Bytes := (m.1, ServerSession.answerTo m.1 m.2)

/-- Each answer the client has decrypted is the server's answer to the request
that the client had sent last. -/
def Paired (client_log server_log : Log) : Prop :=
  ∀ pre t pt post, client_log = pre ++ .received t pt :: post → ∃ k m, (sentPairs pre).length = k + 1 ∧
    (sentPairs pre)[k]? = some m ∧ (receivedPairs server_log)[k]? = some m ∧
    (sentPairs server_log)[k]? = some (t, pt) ∧ answered m = (t, pt)

/-! ## The client's turns -/

/-- Whatever was decrypted came when one more request had been sent than answered. -/
def InStep (log : Log) : Prop :=
  ∀ pre t pt post, log = pre ++ .received t pt :: post → (sentPairs pre).length = (receivedPairs pre).length + 1

theorem InStep.nil : InStep [] := by
  intro pre t pt post h
  cases pre <;> cases h

/-- Only what is decrypted in `l` is still to be looked at. -/
theorem InStep.append (h : InStep log)
    (hl : ∀ pre t pt post, l = pre ++ .received t pt :: post →
      (sentPairs (log ++ pre)).length = (receivedPairs (log ++ pre)).length + 1) : InStep (log ++ l) := by
  intro pre t pt post he
  rcases List.append_eq_append_iff.1 he with ⟨pre', rfl, hl'⟩ | ⟨rest, hlog, hrest⟩
  · exact hl pre' t pt post hl'
  · cases rest with
    | nil =>
      have hend := hl [] t pt post hrest.symm
      rw [List.append_nil] at hend hlog
      rwa [hlog] at hend
    | cons e rest =>
      obtain ⟨rfl, -⟩ := List.cons.inj hrest
      exact h pre t pt rest hlog

theorem receivedPairs_ne_nil {pre post : Log} {t : MessageType} : receivedPairs (pre ++ .received t pt :: post) ≠ [] := by
  intro h
  rw [receivedPairs_append] at h
  exact List.cons_ne_nil _ _ (List.append_eq_nil_iff.1 h).2

theorem InStep.silent (h : InStep log) (hl : receivedPairs l = []) : InStep (log ++ l) :=
  h.append fun _ _ _ _ he => absurd (he ▸ hl) receivedPairs_ne_nil

theorem InStep.opened (h : InStep log) (hw : (sentPairs log).length = (receivedPairs log).length + 1) :
    InStep (log ++ openedLog c f aad pt) := by
  refine h.append fun pre t pt' post he => ?_
  rcases pre with _ | ⟨e, _ | ⟨e', pre⟩⟩
  · cases he
  · obtain ⟨rfl, -⟩ := List.cons.inj he
    rw [sentPairs_append, receivedPairs_append]
    exact (congrArg₂ (fun a b : List _ => a.length = b.length + 1) (List.append_nil _) (List.append_nil _)).mpr hw
  · obtain ⟨-, he⟩ := List.cons.inj he
    obtain ⟨-, he⟩ := List.cons.inj he
    cases pre <;> cases he

namespace Interactive

/-- The session does not skip the frame it reads. -/
def heeds : Interactive P → Input → Bool
  | repl _ (.frame a), .frame f => a.expects f.msg_type
  | _, _ => true

/-- A request is open just while the loop waits for a frame. -/
def Balanced : Interactive P → Log → Prop
  | repl _ .line, log => InStep log ∧ (sentPairs log).length = (receivedPairs log).length
  | repl _ (.frame _), log => InStep log ∧ (sentPairs log).length = (receivedPairs log).length + 1
  | done _, log => InStep log
  | _, _ => False

variable {client : TunnelClient} {secret : Key} {s : Interactive P}

theorem Balanced.in_step (h : Balanced s log) : InStep log := by
  cases s with
  | idle => exact h.elim
  | await_resp started => exact h.elim
  | done r => exact h
  | repl session w => cases w <;> exact And.left h

theorem Balanced.quiet {session : ClientSession} {w : Waiting} (h : Balanced (P := P) (.repl session w) log)
    (hl : Quiet l) (session' : ClientSession) : Balanced (P := P) (.repl session' w) (log ++ l) := by
  have hsent : sentPairs (log ++ l) = sentPairs log := by rw [sentPairs_append, hl.sent, List.append_nil]
  have hreceived : receivedPairs (log ++ l) = receivedPairs log := by
    rw [receivedPairs_append, hl.received, List.append_nil]
  cases w <;> exact ⟨h.in_step.silent hl.received, by rw [hsent, hreceived]; exact h.2⟩

/-- A request is sent, and its answer is waited for. -/
theorem Balanced.asked {session : ClientSession} {t : MessageType} {pt ct : Bytes} {a : Awaited} {tx : CipherState}
    (h : Balanced (P := P) (.repl session .line) log) (session' : ClientSession) :
    Balanced (P := P) (.repl session' (.frame a)) (log ++ sealedLog tx t pt aad ct) := by
  have hcount : (sentPairs (log ++ sealedLog tx t pt aad ct)).length =
      (receivedPairs (log ++ sealedLog tx t pt aad ct)).length + 1 := by
    rw [sentPairs_append, receivedPairs_append, List.length_append, List.length_append, h.2]
    rfl
  exact ⟨h.1.silent rfl, hcount⟩

theorem balanced_step (i : Input) (h : Balanced s log) (hi : s.heeds i = true) :
    Balanced (step P client secret s i).2 (log ++ (step P client secret s i).1) := by
  cases s with
  | idle => exact h.elim
  | await_resp started => exact h.elim
  | done r => exact InStep.silent h rfl
  | repl session w =>
    have hturn := repl_turn P client secret session w i
    generalize step P client secret (repl session w) i = next at hturn ⊢
    cases hturn with
    | stays m hl => exact h.quiet hl _
    | ended hl => exact h.in_step.silent hl.received
    | asked hw hreq he =>
      subst hw
      exact h.asked _
    | @skipped f l a m hl hw hskip =>
      subst hw
      -- the session heeds every frame it reads
      have hheeds : a.expects f.msg_type = true := hi
      rw [hskip] at hheeds
      cases hheeds
    | @heard f a aad pt rx' text hw ht hd =>
      subst hw
      refine List.append_assoc log _ _ ▸ ⟨(h.1.opened h.2).silent rfl, ?_⟩
      simp only [sentPairs_append, receivedPairs_append, List.length_append, h.2]
      rfl

theorem in_step_run {ciphers : CipherState × CipherState} {s : (resumed P client secret ciphers).State}
    (h : RunsIf (resumed P client secret ciphers) (fun s i => heeds s i = true) s log) : InStep log := by
  have hbalanced := h.inv Balanced ⟨InStep.nil, rfl⟩ fun _ _ i hs hi => balanced_step i hs hi
  exact hbalanced.in_step

end Interactive

/-! ## The server's answers -/

namespace Serving

/-- The server has answered what it took in, in order; it may have ended before the last answer. -/
def Answering : Serving → Log → Prop
  | await_init, _ => False
  | transport _, log => sentPairs log = (receivedPairs log).map answered
  | done _, log => sentPairs log <+: (receivedPairs log).map answered

variable {server_keys : KeyPair} {prologue : Bytes} {secret : Key} {s : Serving}

theorem Answering.answers (h : Answering s log) : sentPairs log <+: (receivedPairs log).map answered := by
  cases s with
  | await_init => exact h.elim
  | transport session => exact Eq.subst h List.prefix_rfl
  | done r => exact h

theorem answering_step (i : Input) (h : Answering s log) :
    Answering (step P server_keys prologue secret s i).2 (log ++ (step P server_keys prologue secret s i).1) := by
  cases s with
  | await_init => exact h.elim
  | done r => exact (List.append_nil log).symm ▸ h
  | transport session =>
    have hlog : sentPairs log = (receivedPairs log).map answered := h
    have hturn := transport_turn P server_keys prologue secret session i
    generalize step P server_keys prologue secret (transport session) i = next at hturn ⊢
    cases hturn with
    | stays m => exact (List.append_nil log).symm ▸ h
    | ended r =>
      have hanswers := h.answers
      exact (List.append_nil log).symm ▸ hanswers
    | @took f aad pt rx' e ht hd =>
      show sentPairs (log ++ _) <+: (receivedPairs (log ++ _)).map answered
      rw [sentPairs_append, receivedPairs_append, List.map_append, hlog]
      exact ⟨[answered (f.msg_type, pt)], congrArg (· ++ _) (List.append_nil _)⟩
    | answered ht hd he =>
      show sentPairs (log ++ _) = (receivedPairs (log ++ _)).map answered
      rw [sentPairs_append, receivedPairs_append, List.map_append, hlog]
      rfl

theorem answers_run {ciphers : CipherState × CipherState} {s : (resumed P server_keys prologue secret ciphers).State}
    (h : Runs (resumed P server_keys prologue secret ciphers) s log) :
    sentPairs log <+: (receivedPairs log).map answered := by
  have hanswering := h.inv Answering rfl fun _ _ i hs => answering_step i hs
  exact hanswering.answers

end Serving

/-! ## The channel -/

/-- The client skips no frame that it reads. -/
def Channel.heeds (P : Primitives) (c : Channel) : (k : Side) → (c.task P k).State → Input → Bool
  | .client => Interactive.heeds
  | .server => fun _ _ => true

/-- Nothing is forged and the client skips no frame: whatever else the attacker
does, each answer is the server's answer to the request just sent. -/
theorem reply_pairing (hP : P.Correct) (c : Channel) {w : (k : Side) → (c.task P k).State}
    {l : List (Side × Effect)} (h : WorldIf (c.task P) (fun k s i => c.heeds P k s i = true) w l)
    (hserver : Unforged (proj .server l) (proj .client l)) (hclient : Unforged (proj .client l) (proj .server l)) :
    Paired (proj .client l) (proj .server l) := by
  obtain ⟨hforth, hback⟩ := channel_integrity hP c h.world hserver hclient
  have hstep : InStep (proj .client l) := Interactive.in_step_run (h.runs .client)
  have hanswers := Serving.answers_run (h.world.runs .server)
  intro pre t pt post he
  have hlen := hstep pre t pt post he
  -- the answer is the server's answer of that number
  have hgot : (receivedPairs (proj .client l))[(receivedPairs pre).length]? = some (t, pt) := by
    rw [he, receivedPairs_append, List.getElem?_append_right (Nat.le_refl _), Nat.sub_self]
    rfl
  have hsent := getElem?_of_prefix hback hgot
  have hmap := getElem?_of_prefix hanswers hsent
  rw [List.getElem?_map, Option.map_eq_some_iff] at hmap
  obtain ⟨m, hm, hanswer⟩ := hmap
  -- which it gave to the client's request of that number, the last before it
  have hreq := getElem?_of_prefix hforth hm
  refine ⟨(receivedPairs pre).length, m, hlen, ?_, hm, hsent, hanswer⟩
  rw [he, sentPairs_append, List.getElem?_append_left (by omega)] at hreq
  exact hreq

namespace Concrete

/-- A handshake frame, which the client skips where it waits for an answer. -/
def injected : Input := .frame ⟨.HandshakeInit, 0, []⟩

/-- Two messages; the attacker adds a frame before the first answer. The last move stands first. -/
def shift : List (Side × (List (Side × Effect) → Input)) :=
  [(.client, relayed .server), (.client, fun _ => .line (some "to")), (.client, fun _ => injected),
    (.server, relayed .client), (.client, fun _ => .line (some "en"))]

def shifted : List (Side × Effect) := (play (channel.task (primitives true)) shift).2

/-- The same two messages, and nothing added. -/
def regular : List (Side × (List (Side × Effect) → Input)) :=
  [(.client, relayed .server), (.server, relayed .client), (.client, fun _ => .line (some "to")),
    (.client, relayed .server), (.server, relayed .client), (.client, fun _ => .line (some "en"))]

end Concrete

theorem reply_pairing_regular :
    let l := (play (Concrete.channel.task (Concrete.primitives true)) Concrete.regular).2
    Paired (proj .client l) (proj .server l) :=
  reply_pairing (Concrete.correct true) Concrete.channel
    (WorldIf.play (C := fun k s i => Concrete.channel.heeds _ k s i = true) (by decide +kernel))
    (by decide +kernel) (by decide +kernel)

/-- The client prints the answer to its first message right after its second. -/
theorem reply_shifted :
    World (Concrete.channel.task (Concrete.primitives true)) (play _ Concrete.shift).1 Concrete.shifted ∧
      Unforged (proj .server Concrete.shifted) (proj .client Concrete.shifted) ∧
      Unforged (proj .client Concrete.shifted) (proj .server Concrete.shifted) ∧
      sentPairs (proj .client Concrete.shifted) = [(.DataPayload, as_bytes "en"), (.DataPayload, as_bytes "to")] ∧
      receivedPairs (proj .client Concrete.shifted) = [(.DataPayload, as_bytes "Server mottok: en")] ∧
      ¬Paired (proj .client Concrete.shifted) (proj .server Concrete.shifted) := by
  refine ⟨World.play _ _, by decide +kernel, by decide +kernel, by decide +kernel, by decide +kernel, fun h => ?_⟩
  have he : proj .client Concrete.shifted = (proj .client Concrete.shifted).take 7 ++
      .received .DataPayload (as_bytes "Server mottok: en") :: (proj .client Concrete.shifted).drop 8 := by
    decide +kernel
  have hsent : (sentPairs ((proj .client Concrete.shifted).take 7)).length = 2 := by decide +kernel
  -- the server has answered one message only
  have hserver : (receivedPairs (proj .server Concrete.shifted))[1]? = none := by decide +kernel
  obtain ⟨k, m, hlen, -, hm, -⟩ := h _ _ _ _ he
  obtain rfl : k = 1 := Nat.succ.inj (hlen.symm.trans hsent)
  rw [hserver] at hm
  cases hm

end NoiseTunnel
