import NoiseTunnel.Protocol
import NoiseTunnel.Transcript
import NoiseTunnel.ReplayFilter
import NoiseTunnel.Stats
import NoiseTunnel.Lib.Act
/-!
# What a session does

Session code runs in `Exec`, which logs what it writes and prints and every
use it makes of a primitive. Assumptions about the primitives then speak of
the uses in a log: no two inputs *that were hashed* collide, no payload *that
was opened* is forged.
-/
open Rust

namespace NoiseTunnel

/-- One use of the AEAD. -/
structure Seal where
  key : Key
  nonce : UInt64
  aad : Bytes
  msg : Bytes
  ct : Bytes
  deriving DecidableEq

/-- The nonce that the AEAD gets. -/
def Seal.aead_nonce (s : Seal) : Nonce := CipherState.build_nonce s.nonce

theorem Seal.nonce_eq {s s' : Seal} (h : s.aead_nonce = s'.aead_nonce) : s.nonce = s'.nonce :=
  CipherState.build_nonce_inj h

/-- One use of the KDF. -/
structure Expansion where
  salt : Bytes
  ikm : Bytes
  info : Bytes
  deriving DecidableEq

inductive Effect where
  | generated (public_key : Key)
  | hashed (input : Bytes)
  | expanded (x : Expansion)
  | sealed (s : Seal)
  | opened (s : Seal)
  | wrote (frame : WireFrame)
  /-- The transport code encrypted `plaintext` for a frame of type `t`. -/
  | sent (t : MessageType) (plaintext : Bytes)
  /-- The transport code decrypted `plaintext` from a frame of type `t`. -/
  | received (t : MessageType) (plaintext : Bytes)
  | printed (text : String)
  | printed_stats (metrics : SessionMetrics)
  deriving DecidableEq

abbrev Log := List Effect

abbrev Exec (α : Type) := Act Effect (Stop Error) α

instance : MonadLift (Except Error) (Except (Stop Error)) := ⟨Except.mapError .err⟩

/-! ## Logged operations -/

namespace Exec

variable (P : Primitives)

/-- `if cond { return Err(e) }`. -/
def bail_if (cond : Prop) [Decidable cond] (e : Error) : Exec Unit := if cond then throw (.err e) else pure ()

def generate (secret : Key) : Exec (EphemeralKeyPair P) := do
  let pair := EphemeralKeyPair.generate P secret
  Act.emit (.generated pair.public_key)
  return pair

def hash_handshake_state (prologue : Bytes) (client_ephemeral server_public : Key) (server_ephemeral : Option Key) :
    Exec (U8Array 32) := do
  Act.emit (.hashed (transcript prologue client_ephemeral server_public server_ephemeral))
  return NoiseTunnel.hash_handshake_state P prologue client_ephemeral server_public server_ephemeral

def derive_session_keys (shared_secret handshake_hash : Bytes) : Exec (Key × Key) := do
  Act.emit (.expanded ⟨handshake_hash, shared_secret, client_key_info⟩)
  Act.emit (.expanded ⟨handshake_hash, shared_secret, server_key_info⟩)
  match NoiseTunnel.derive_session_keys P shared_secret handshake_hash with
  | .ok keys => return keys
  | .error e => throw (.err e)

def encrypt (cipher : CipherState) (plaintext associated_data : Bytes) : Exec (Bytes × CipherState) :=
  match cipher.encrypt P plaintext associated_data with
  | (cipher', .ok ct) => do
    Act.emit (.sealed ⟨cipher.key, cipher.nonce, associated_data, plaintext, ct⟩)
    return (ct, cipher')
  | (_, .error e) => throw (.err e)

def decrypt (cipher : CipherState) (ciphertext associated_data : Bytes) (expected_nonce : UInt64) :
    Exec (Bytes × CipherState) :=
  match cipher.decrypt P ciphertext associated_data expected_nonce with
  | .ok (cipher', .ok plaintext) => do
    Act.emit (.opened ⟨cipher.key, expected_nonce, associated_data, plaintext, ciphertext⟩)
    return (plaintext, cipher')
  | .ok (_, .error e) => throw (.err e)
  | .error p => throw (.panic p)

/-- `write_to`: hand the frame to the connection. What follows when it is not
taken is `broken_after`. -/
def write_to (frame : WireFrame) : Exec Unit := Act.emit (.wrote frame)

/-- A write whose error goes up with `?`: of every frame but the last `Close`,
whose error is dropped with `let _ =`. -/
def is_checked_write : Effect → Bool
  | .wrote frame => !frame.is_close
  | _ => false

/-- `x` on a connection that takes `n` frames and fails at the next. -/
def broken_after {α : Type} (n : ℕ) (x : Exec α) : Exec α := x.failing is_checked_write n (.err .broken_pipe)

def println (lines : List String) : Exec Unit := ⟨lines.map .printed, .ok ()⟩

def validate_and_record (filter : ReplayFilter) (seq : UInt64) : Exec ReplayFilter :=
  match filter.validate_and_record P.overflow_checks seq with
  | .ok (filter', .ok ()) => return filter'
  | .ok (_, .error e) => throw (.err e)
  | .error p => throw (.panic p)

end Exec

/-- How one turn of a loop ends. -/
inductive ControlFlow (σ : Type) where
  | cont (s : σ)
  | done (s : σ)

/-! ## Associated data of the transport frames -/

def TUNNEL_DATA : Bytes := as_bytes "tunnel-data"
def HEARTBEAT : Bytes := as_bytes "heartbeat"

/-- The associated data of a frame type that carries a payload. -/
inductive Carries : MessageType → Bytes → Prop
  | data : Carries .DataPayload TUNNEL_DATA
  | heartbeat : Carries .Heartbeat HEARTBEAT

theorem Carries.inj {t t' : MessageType} {aad : Bytes} (h : Carries t aad) (h' : Carries t' aad) : t = t' := by
  have hne : TUNNEL_DATA ≠ HEARTBEAT := by decide
  generalize ha : aad = aad' at h'
  cases h <;> cases h'
  · rfl
  · exact absurd ha hne
  · exact absurd ha.symm hne
  · rfl

theorem Carries.inj_right {t : MessageType} {aad aad' : Bytes} (h : Carries t aad) (h' : Carries t aad') :
    aad = aad' := by
  cases h <;> cases h' <;> rfl

/-! ## Reading a log -/

def generated (log : Log) : List Key := log.filterMap fun | .generated k => some k | _ => none
def hashes (log : Log) : List Bytes := log.filterMap fun | .hashed x => some x | _ => none
def expansions (log : Log) : List Expansion := log.filterMap fun | .expanded x => some x | _ => none
def seals (log : Log) : List Seal := log.filterMap fun | .sealed s => some s | _ => none
def opens (log : Log) : List Seal := log.filterMap fun | .opened s => some s | _ => none
def frames (log : Log) : List WireFrame := log.filterMap fun | .wrote f => some f | _ => none

/-- What was encrypted and what was decrypted in transport: type and plaintext, in order. -/
def sentPairs (log : Log) : List (MessageType × Bytes) := log.filterMap fun | .sent t m => some (t, m) | _ => none
def receivedPairs (log : Log) : List (MessageType × Bytes) :=
  log.filterMap fun | .received t m => some (t, m) | _ => none

/-- The bytes a session has put on its stream. -/
def written (log : Log) : Bytes := (frames log).flatMap WireFrame.serialize

section
variable (l l' : Log)

@[simp] theorem generated_append : generated (l ++ l') = generated l ++ generated l' := List.filterMap_append
@[simp] theorem hashes_append : hashes (l ++ l') = hashes l ++ hashes l' := List.filterMap_append
@[simp] theorem expansions_append : expansions (l ++ l') = expansions l ++ expansions l' := List.filterMap_append
@[simp] theorem seals_append : seals (l ++ l') = seals l ++ seals l' := List.filterMap_append
@[simp] theorem opens_append : opens (l ++ l') = opens l ++ opens l' := List.filterMap_append
@[simp] theorem frames_append : frames (l ++ l') = frames l ++ frames l' := List.filterMap_append
@[simp] theorem sentPairs_append : sentPairs (l ++ l') = sentPairs l ++ sentPairs l' := List.filterMap_append
@[simp] theorem receivedPairs_append : receivedPairs (l ++ l') = receivedPairs l ++ receivedPairs l' :=
  List.filterMap_append
@[simp] theorem written_append : written (l ++ l') = written l ++ written l' := by simp [written]

end

theorem countP_checked_writes (log : Log) :
    log.countP Exec.is_checked_write = (frames log).countP fun f => !f.is_close := by
  rw [frames, List.countP_filterMap]
  refine List.countP_congr fun e _ => ?_
  cases e <;> simp [Exec.is_checked_write]

theorem unchecked_of_frames {log : Log} (h : ∀ f ∈ frames log, f.is_close = true) :
    ∀ e ∈ log, Exec.is_checked_write e = false := by
  intro e he
  cases e with
  | wrote f =>
    have hclose := h f (List.mem_filterMap.2 ⟨_, he, rfl⟩)
    simp [Exec.is_checked_write, hclose]
  | _ => rfl

/-- A connection takes all frames, or the code stops at one that it does not take. -/
theorem Exec.broken_after_cases {α : Type} (n : ℕ) (x : Exec α) :
    x.broken_after n = x ∨ ∃ p, p <+: x.log ∧ (frames p).countP (fun f => !f.is_close) = n + 1 ∧
      x.broken_after n = ⟨p, .error (.err .broken_pipe)⟩ := by
  rcases Act.failing_cases Exec.is_checked_write n (.err .broken_pipe) x with ⟨-, he⟩ | ⟨p, hp, he⟩
  · exact .inl he
  · obtain ⟨hpre, hcount⟩ := Act.upTo_spec hp
    rw [countP_checked_writes] at hcount
    exact .inr ⟨p, hpre, hcount, he⟩

/-- No two inputs hashed in the log collide. -/
def NoCollision (P : Primitives) (log : Log) : Prop :=
  ∀ x ∈ hashes log, ∀ y ∈ hashes log, P.sha256 x = P.sha256 y → x = y

/-- No two expansions of the log give the same key. -/
def KdfInjective (P : Primitives) (log : Log) : Prop :=
  ∀ x ∈ expansions log, ∀ y ∈ expansions log,
    P.hkdf x.salt x.ikm x.info = P.hkdf y.salt y.ikm y.info → P.hkdf x.salt x.ikm x.info ≠ none → x = y

/-- A ciphertext made in the log was opened in it only under the key, nonce and
associated data it was made with. -/
def Binding (log : Log) : Prop :=
  ∀ o ∈ opens log, ∀ s ∈ seals log, o.ct = s.ct → o.key = s.key ∧ o.aead_nonce = s.aead_nonce ∧ o.aad = s.aad

/-- What was opened in `log` was sealed in the peer's. -/
def Unforged (log peer : Log) : Prop :=
  ∀ o ∈ opens log, ∃ s ∈ seals peer, s.key = o.key ∧ s.aead_nonce = o.aead_nonce ∧ s.aad = o.aad ∧ s.ct = o.ct

theorem NoCollision.eq {P : Primitives} {log : Log} (h : NoCollision P log) {x y : Bytes} (hx : x ∈ hashes log)
    (hy : y ∈ hashes log) (e : (P.sha256 x).val = (P.sha256 y).val) : x = y := h x hx y hy (Subtype.ext e)

theorem KdfInjective.eq {P : Primitives} {log : Log} (h : KdfInjective P log) {x y : Expansion} {k : Key}
    (hx : x ∈ expansions log) (hy : y ∈ expansions log) (ex : P.hkdf x.salt x.ikm x.info = some k)
    (ey : P.hkdf y.salt y.ikm y.info = some k) : x = y :=
  h x hx y hy (by rw [ex, ey]) (by rw [ex]; exact Option.some_ne_none k)

instance (P : Primitives) (log : Log) : Decidable (NoCollision P log) :=
  inferInstanceAs (Decidable (∀ x ∈ hashes log, ∀ y ∈ hashes log, _ → _))

instance (P : Primitives) (log : Log) : Decidable (KdfInjective P log) :=
  inferInstanceAs (Decidable (∀ x ∈ expansions log, ∀ y ∈ expansions log, _ → _ → _))

instance (log : Log) : Decidable (Binding log) :=
  inferInstanceAs (Decidable (∀ o ∈ opens log, ∀ s ∈ seals log, _ → _ ∧ _ ∧ _))

instance (log peer : Log) : Decidable (Unforged log peer) :=
  inferInstanceAs (Decidable (∀ o ∈ opens log, ∃ s ∈ seals peer, _ ∧ _ ∧ _ ∧ _))

/-- Nothing was sealed, opened or generated: the log only prints and writes. -/
structure Quiet (log : Log) : Prop where
  generated : generated log = []
  seals : seals log = []
  opens : opens log = []
  sent : sentPairs log = []
  received : receivedPairs log = []

theorem quiet_of {log : Log} (h : ∀ e ∈ log, (∃ t, e = .printed t) ∨ (∃ m, e = .printed_stats m) ∨ ∃ f, e = .wrote f) :
    Quiet log := by
  constructor <;>
  · simp only [NoiseTunnel.generated, NoiseTunnel.seals, NoiseTunnel.opens, sentPairs, receivedPairs,
      List.filterMap_eq_nil_iff]
    intro e he
    rcases h e he with ⟨t, rfl⟩ | ⟨m, rfl⟩ | ⟨f, rfl⟩ <;> rfl

theorem Quiet.nil : Quiet [] := ⟨rfl, rfl, rfl, rfl, rfl⟩

theorem Quiet.append {l l' : Log} (h : Quiet l) (h' : Quiet l') : Quiet (l ++ l') where
  generated := by rw [generated_append, h.generated, h'.generated]; rfl
  seals := by rw [seals_append, h.seals, h'.seals]; rfl
  opens := by rw [opens_append, h.opens, h'.opens]; rfl
  sent := by rw [sentPairs_append, h.sent, h'.sent]; rfl
  received := by rw [receivedPairs_append, h.received, h'.received]; rfl

theorem quiet_println (lines : List String) : Quiet (lines.map .printed) :=
  quiet_of fun e he => by
    obtain ⟨t, -, rfl⟩ := List.mem_map.1 he
    exact .inl ⟨t, rfl⟩

theorem quiet_stats (m : SessionMetrics) : Quiet [.printed_stats m] :=
  quiet_of fun _ he => .inr (.inl ⟨m, List.mem_singleton.1 he⟩)

theorem quiet_wrote (f : WireFrame) : Quiet [.wrote f] :=
  quiet_of fun _ he => .inr (.inr ⟨f, List.mem_singleton.1 he⟩)

/-! ## How an operation ends -/

/-- The log of a transport frame sent under `c`. -/
def sealedLog (c : CipherState) (t : MessageType) (pt aad ct : Bytes) : Log :=
  [.sealed ⟨c.key, c.nonce, aad, pt, ct⟩, .sent t pt, .wrote ⟨t, c.nonce, ct⟩]

/-- The log of a transport frame `f` taken in under `c`. -/
def openedLog (c : CipherState) (f : WireFrame) (aad pt : Bytes) : Log :=
  [.opened ⟨c.key, f.nonce, aad, pt, f.payload⟩, .received f.msg_type pt]

/-- The log of `derive_session_keys`. -/
def derived (ss hh : Bytes) : Log :=
  [.expanded ⟨hh, ss, client_key_info⟩, .expanded ⟨hh, ss, server_key_info⟩]

namespace Exec

variable {P : Primitives}

theorem derive_session_keys_cases (P : Primitives) (ss hh : Bytes) :
    (∃ kc ks, P.hkdf hh ss client_key_info = some kc ∧ P.hkdf hh ss server_key_info = some ks ∧
      derive_session_keys P ss hh = ⟨derived ss hh, .ok (kc, ks)⟩) ∨
    (∃ e, derive_session_keys P ss hh = ⟨derived ss hh, .error (.err e)⟩ ∧ ¬P.Correct) := by
  unfold derive_session_keys derived
  cases h : NoiseTunnel.derive_session_keys P ss hh with
  | ok keys =>
    obtain ⟨kc, ks⟩ := keys
    obtain ⟨hc, hs⟩ := derive_session_keys_eq_ok.1 h
    exact .inl ⟨kc, ks, hc, hs, rfl⟩
  | error e =>
    refine .inr ⟨e, rfl, fun hP => ?_⟩
    obtain ⟨kc, hc⟩ := hP.hkdf_some hh ss client_key_info
    obtain ⟨ks, hs⟩ := hP.hkdf_some hh ss server_key_info
    rw [derive_session_keys_eq_ok.2 ⟨hc, hs⟩] at h
    cases h

theorem encrypt_ok {P : Primitives} {c c' : CipherState} {msg aad ct : Bytes}
    (h : c.encrypt P msg aad = (c', .ok ct)) :
    encrypt P c msg aad = ⟨[.sealed ⟨c.key, c.nonce, aad, msg, ct⟩], .ok (ct, c')⟩ := by
  rw [encrypt, h]
  rfl

theorem encrypt_cases (P : Primitives) (c : CipherState) (msg aad : Bytes) :
    (∃ ct c', c.encrypt P msg aad = (c', .ok ct) ∧
      encrypt P c msg aad = ⟨[.sealed ⟨c.key, c.nonce, aad, msg, ct⟩], .ok (ct, c')⟩) ∨
    (∃ e, encrypt P c msg aad = ⟨[], .error (.err e)⟩ ∧
      (P.Correct → msg.length / 64 < 2 ^ 32 - 1 → ¬c.nonce.toNat + 1 < 2 ^ 64)) := by
  cases h : c.encrypt P msg aad with
  | mk c' r =>
    cases r with
    | ok ct => exact .inl ⟨ct, c', rfl, encrypt_ok h⟩
    | error e =>
      refine .inr ⟨e, by rw [encrypt, h]; rfl, fun hP hl hn => ?_⟩
      obtain ⟨ct, hct⟩ := hP.encrypt_some c.key (CipherState.build_nonce c.nonce) msg aad hl
      rw [CipherState.encrypt_of hct hn] at h
      cases h

theorem decrypt_ok {P : Primitives} {c c' : CipherState} {ct aad msg : Bytes} {n : UInt64}
    (h : c.decrypt P ct aad n = .ok (c', .ok msg)) :
    decrypt P c ct aad n = ⟨[.opened ⟨c.key, n, aad, msg, ct⟩], .ok (msg, c')⟩ := by
  rw [decrypt, h]
  rfl

theorem decrypt_cases (P : Primitives) (c : CipherState) (ct aad : Bytes) (n : UInt64) :
    (∃ msg c', c.decrypt P ct aad n = .ok (c', .ok msg) ∧
      decrypt P c ct aad n = ⟨[.opened ⟨c.key, n, aad, msg, ct⟩], .ok (msg, c')⟩) ∨
    (∃ s, decrypt P c ct aad n = ⟨[], .error s⟩ ∧
      (n = c.nonce → c.nonce.toNat + 1 < 2 ^ 64 →
        P.aead_decrypt c.key (CipherState.build_nonce c.nonce) ct aad = none)) := by
  have hfail {s : Stop Error} (h : decrypt P c ct aad n = ⟨[], .error s⟩) : n = c.nonce →
      c.nonce.toNat + 1 < 2 ^ 64 → P.aead_decrypt c.key (CipherState.build_nonce c.nonce) ct aad = none := by
    rintro rfl hn
    cases hm : P.aead_decrypt c.key (CipherState.build_nonce c.nonce) ct aad with
    | none => rfl
    | some msg =>
      rw [decrypt_ok (CipherState.decrypt_of hm hn)] at h
      cases h
  cases h : c.decrypt P ct aad n with
  | error p =>
    have e : decrypt P c ct aad n = ⟨[], .error (.panic p)⟩ := by rw [decrypt, h]; rfl
    exact .inr ⟨_, e, hfail e⟩
  | ok r =>
    obtain ⟨c', r⟩ := r
    cases r with
    | ok msg => exact .inl ⟨msg, c', rfl, decrypt_ok h⟩
    | error err =>
      have e : decrypt P c ct aad n = ⟨[], .error (.err err)⟩ := by rw [decrypt, h]; rfl
      exact .inr ⟨_, e, hfail e⟩

theorem validate_and_record_cases (P : Primitives) (f : ReplayFilter) (seq : UInt64) :
    (∃ f', f.validate_and_record P.overflow_checks seq = .ok (f', .ok ()) ∧
      validate_and_record P f seq = ⟨[], .ok f'⟩) ∨
    (∃ s, validate_and_record P f seq = ⟨[], .error s⟩) := by
  unfold validate_and_record
  cases h : f.validate_and_record P.overflow_checks seq with
  | error p => exact .inr ⟨_, rfl⟩
  | ok r =>
    obtain ⟨f', r⟩ := r
    cases r with
    | ok u => exact .inl ⟨f', rfl, rfl⟩
    | error e => exact .inr ⟨_, rfl⟩

theorem bail_if_pos {cond : Prop} [Decidable cond] (h : cond) (e : Error) : bail_if cond e = ⟨[], .error (.err e)⟩ :=
  if_pos h

theorem bail_if_neg {cond : Prop} [Decidable cond] (h : ¬cond) (e : Error) : bail_if cond e = ⟨[], .ok ()⟩ :=
  if_neg h

@[simp] theorem generate_eq (secret : Key) :
    generate P secret = ⟨[.generated (P.x25519_public secret)], .ok (EphemeralKeyPair.generate P secret)⟩ := rfl

@[simp] theorem hash_handshake_state_eq (p : Bytes) (e s : Key) (r : Option Key) :
    hash_handshake_state P p e s r =
      ⟨[.hashed (transcript p e s r)], .ok (NoiseTunnel.hash_handshake_state P p e s r)⟩ := rfl

@[simp] theorem write_to_eq (f : WireFrame) : write_to f = ⟨[.wrote f], .ok ()⟩ := rfl

@[simp] theorem println_eq (lines : List String) : println lines = ⟨lines.map .printed, .ok ()⟩ := rfl

variable {c : CipherState} {msg aad ct ss hh : Bytes} {kc ks : Key}

theorem derive_session_keys_of (hc : P.hkdf hh ss client_key_info = some kc)
    (hs : P.hkdf hh ss server_key_info = some ks) : derive_session_keys P ss hh = ⟨derived ss hh, .ok (kc, ks)⟩ := by
  rw [derive_session_keys, derive_session_keys_eq_ok.2 ⟨hc, hs⟩]
  rfl

theorem encrypt_of (h : P.aead_encrypt c.key (CipherState.build_nonce c.nonce) msg aad = some ct)
    (hn : c.nonce.toNat + 1 < 2 ^ 64) :
    encrypt P c msg aad = ⟨[.sealed ⟨c.key, c.nonce, aad, msg, ct⟩], .ok (ct, ⟨c.key, c.nonce + 1⟩)⟩ :=
  encrypt_ok (CipherState.encrypt_of h hn)

theorem decrypt_of (h : P.aead_decrypt c.key (CipherState.build_nonce c.nonce) ct aad = some msg)
    (hn : c.nonce.toNat + 1 < 2 ^ 64) :
    decrypt P c ct aad c.nonce = ⟨[.opened ⟨c.key, c.nonce, aad, msg, ct⟩], .ok (msg, ⟨c.key, c.nonce + 1⟩)⟩ :=
  decrypt_ok (CipherState.decrypt_of h hn)

end Exec

end NoiseTunnel
