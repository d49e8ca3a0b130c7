import NoiseTunnel.Client
import NoiseTunnel.Concrete
import NoiseTunnel.Server
/-!
# Closing

Which endpoints a `Close` frame closes, and whether anything about the frame
is checked: its nonce and its payload are not read.
-/
open Rust

namespace NoiseTunnel

/-- An endpoint after its handshake, about to read a frame. A client at its
prompt is none: it reads a frame only after its next request. -/
inductive Receiver where
  | server (session : ServerSession)
  | client (session : ClientSession) (awaited : Awaited)

namespace Receiver

def rx_cipher : Receiver → CipherState
  | server session => session.rx_cipher
  | client session _ => session.rx_cipher

/-- On `f` the endpoint ends its session as one that its peer has closed. -/
def Closes (P : Primitives) : Receiver → WireFrame → Prop
  | server session, f => ∃ session', (session.transport_frame P f).res = .ok (.done session')
  | client session awaited, f => ∃ session', (session.repl_frame P awaited f).res = .ok (.done session')

/-- A client that has sent `/ping`. -/
def awaits_pong : Receiver → Bool
  | client _ .pong => true
  | _ => false

end Receiver

/-- `payload` decrypts under the cipher's key and nonce, with associated data
that the frame's type may have. -/
def Authenticates (P : Primitives) (allowed : Bytes → Prop) (c : CipherState) (payload : Bytes) : Prop :=
  ∃ aad msg, allowed aad ∧ P.aead_decrypt c.key (CipherState.build_nonce c.nonce) payload aad = some msg

/-- The program's own `Close` frames have no payload, and so do not authenticate. -/
theorem not_authenticates_nil {P : Primitives} (hP : P.Correct) (allowed : Bytes → Prop) (c : CipherState) :
    ¬Authenticates P allowed c [] := by
  rintro ⟨aad, msg, -, h⟩
  have hlen := hP.decrypt_length _ _ _ _ _ h
  exact absurd hlen.symm (Nat.succ_ne_zero _)

theorem ClientSession.repl_frame_close {P : Primitives} {s : ClientSession} {a : Awaited} {f : WireFrame}
    (h : f.msg_type = .Close) :
    (a = .reply ∧ (s.repl_frame P a f).res = .ok (.done (s.counted f, .line))) ∨
    (a = .pong ∧ (s.repl_frame P a f).res = .ok (.cont (s.counted f, .line))) := by
  cases a with
  | pong =>
    have hne : f.msg_type ≠ .Heartbeat := by
      rw [h]
      exact MessageType.noConfusion
    exact .inr ⟨rfl, congrArg Act.res (if_neg hne)⟩
  | reply =>
    have hne : f.msg_type ≠ .DataPayload := by
      rw [h]
      exact MessageType.noConfusion
    exact .inl ⟨rfl, congrArg Act.res ((if_neg hne).trans (if_pos h))⟩

/-- Nothing of the frame but its type is looked at. -/
theorem Receiver.closes_iff (P : Primitives) (x : Receiver) {f : WireFrame} (h : f.msg_type = .Close) :
    x.Closes P f ↔ x.awaits_pong = false := by
  cases x with
  | server s =>
    refine iff_of_true ⟨s.counted f, ?_⟩ rfl
    rw [s.transport_frame_close P h]
  | client s a =>
    rcases s.repl_frame_close (P := P) (a := a) h with ⟨rfl, he⟩ | ⟨rfl, he⟩
    · exact iff_of_true ⟨_, he⟩ rfl
    · refine iff_of_false ?_ Bool.noConfusion
      rintro ⟨s', hd⟩
      rw [he] at hd
      cases hd

/-- Where a `Close` frame is looked at, every one closes, and the shortest
authenticates nothing. So an endpoint closes on authentic frames only if it
closes on none: a client that waits for the answer to `/ping`. -/
theorem close_authenticated_iff {P : Primitives} (hP : P.Correct) (allowed : Bytes → Prop) (x : Receiver) :
    (∀ nonce payload, x.Closes P ⟨.Close, nonce, payload⟩ → Authenticates P allowed x.rx_cipher payload) ↔
      x.awaits_pong = true := by
  constructor
  · intro h
    cases hx : x.awaits_pong with
    | true => rfl
    | false => exact absurd (h 0 [] ((x.closes_iff P rfl).2 hx)) (not_authenticates_nil hP allowed x.rx_cipher)
  · intro hx nonce payload hcloses
    rw [x.closes_iff P rfl, hx] at hcloses
    cases hcloses

namespace Concrete

/-- An endpoint of each kind, right after the handshake. -/
def server : Receiver := .server (.start (CipherState.new (key 5), CipherState.new (key 6)))
def client (awaited : Awaited) : Receiver :=
  .client (.start (CipherState.new (key 5), CipherState.new (key 6))) awaited

end Concrete

/-- After `/ping` no `Close` frame closes, authentic or not; after a message there is one that should not. -/
theorem close_authenticated_pong :
    (∀ nonce payload, (Concrete.client .pong).Closes (Concrete.primitives true) ⟨.Close, nonce, payload⟩ →
      Authenticates (Concrete.primitives true) (fun _ => True) (Concrete.client .pong).rx_cipher payload) ∧
    ¬∀ nonce payload, (Concrete.client .reply).Closes (Concrete.primitives true) ⟨.Close, nonce, payload⟩ →
      Authenticates (Concrete.primitives true) (fun _ => True) (Concrete.client .reply).rx_cipher payload := by
  have hiff (x : Receiver) := close_authenticated_iff (Concrete.correct true) (fun _ => True) x
  exact ⟨(hiff (Concrete.client .pong)).2 rfl, mt (hiff (Concrete.client .reply)).1 Bool.noConfusion⟩

/-- Thirteen bytes that anyone can write close either side. -/
theorem close_unauthenticated :
    Concrete.server.Closes (Concrete.primitives true) ⟨.Close, 0, []⟩ ∧
      ¬Authenticates (Concrete.primitives true) (fun _ => True) Concrete.server.rx_cipher [] ∧
    (Concrete.client .reply).Closes (Concrete.primitives true) ⟨.Close, 0, []⟩ ∧
      ¬Authenticates (Concrete.primitives true) (fun _ => True) (Concrete.client .reply).rx_cipher [] :=
  ⟨(Concrete.server.closes_iff _ rfl).2 rfl, not_authenticates_nil (Concrete.correct true) _ _,
    ((Concrete.client .reply).closes_iff _ rfl).2 rfl, not_authenticates_nil (Concrete.correct true) _ _⟩

end NoiseTunnel
