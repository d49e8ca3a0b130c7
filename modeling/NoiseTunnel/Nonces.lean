import NoiseTunnel.Agreement
import NoiseTunnel.Sessions
import NoiseTunnel.Slots
import Mathlib.Data.Prod.Basic
/-!
# No nonce is used twice

Every session keeps its encryptions in its two key slots, whatever it is sent.
Sessions with different ephemeral keys so never share a key, and under one key
the counter gives every message its own nonce.
-/
open Rust Reactive

namespace NoiseTunnel

variable {P : Primitives} {log l : Log} {e : Key} {a b : Slot} {tx : CipherState}

/-! ## Handshakes -/

/-- A client that has sent its first message. -/
def Greeted (P : Primitives) (e : Key) (log : Log) : Prop :=
  (∃ first, Spent P e .init .client_write log first []) ∧ e ∈ generated log

theorem start_handshake_spends (P : Primitives) (c : TunnelClient) (secret : Key) :
    ((c.start_handshake P secret).res =
        .ok ⟨EphemeralKeyPair.generate P secret, P.x25519 secret c.server_pubkey⟩ ∧
      Greeted P (P.x25519_public secret) (c.start_handshake P secret).log) ∨
    (∃ s, (c.start_handshake P secret).res = .error s) ∧
      seals (c.start_handshake P secret).log = [] := by
  rcases start_handshake_cases P c secret rfl rfl rfl with ⟨k, ct, hk, -, hs⟩ | ⟨s, hs, -⟩
  · left
    rw [hs]
    refine ⟨rfl, ⟨[⟨k, 0, _, _, ct⟩], ⟨rfl, Nat.le_refl 1, ?_, List.forall_mem_nil _, List.nodup_nil, ?_⟩⟩, ?_⟩
    · intro x hx
      rw [List.mem_singleton.1 hx]
      refine ⟨⟨c.prologue, P.x25519_public secret, c.server_pubkey, P.x25519_public secret⟩,
        (P.x25519 secret c.server_pubkey).val, rfl, ?_, ?_, hk, (P.x25519 secret c.server_pubkey).property⟩
      · exact List.mem_cons_self
      · exact List.mem_cons_self
    · exact fun _ => List.mem_cons_self
    · exact List.mem_cons_self
  · right
    rw [hs]
    exact ⟨⟨s, rfl⟩, rfl⟩

/-- The key a completed handshake gives the client, whoever answered. -/
theorem finish_handshake_live (c : TunnelClient) {secret : Key} (dh : Key) (f : WireFrame)
    (h : Greeted P (P.x25519_public secret) log) :
    (∃ tx rx, (c.finish_handshake P ⟨EphemeralKeyPair.generate P secret, dh⟩ f).res = .ok (tx, rx) ∧
      Live P (P.x25519_public secret) .init .client_write
        (log ++ (c.finish_handshake P ⟨EphemeralKeyPair.generate P secret, dh⟩ f).log) tx) ∨
    (∃ s, (c.finish_handshake P ⟨EphemeralKeyPair.generate P secret, dh⟩ f).res = .error s) ∧
      Ended P (P.x25519_public secret) .init .client_write
        (log ++ (c.finish_handshake P ⟨EphemeralKeyPair.generate P secret, dh⟩ f).log) := by
  obtain ⟨⟨first, hs⟩, hg⟩ := h
  rcases finish_handshake_cases P c ⟨EphemeralKeyPair.generate P secret, dh⟩ f with
    ⟨H, ct, -, -, -, hv, -, -, -, hf⟩ | ⟨s, hr, hl, -⟩
  · left
    rw [hf]
    refine ⟨_, _, rfl, ⟨⟨first, [], hs.append rfl, List.forall_mem_nil _⟩, ?_, ?_⟩⟩
    · refine FromSlot.prepend ⟨H.view, H.dh_static.val ++ H.dh_ephem.val, by rw [hv]; rfl, ?_, ?_, H.client_eq, ?_⟩
      · exact List.mem_cons_self
      · simp [finishLog, expansions, derived, Slot.info, Slot.text, View.h2]
      · rw [List.length_append, H.dh_static.property, H.dh_ephem.property]
        rfl
    · rw [generated_append]
      exact List.mem_append_left _ hg
  · exact .inr ⟨⟨s, hr⟩, ⟨first, [], hs.append hl⟩⟩

/-- The key a completed handshake gives the server, whoever connects. -/
theorem accept_handshake_live (P : Primitives) (keys : KeyPair) (prologue : Bytes) (secret : Key) (f : WireFrame) :
    (∃ rx tx, (TunnelServer.accept_handshake P keys prologue secret f).res = .ok (rx, tx) ∧
      Live P (P.x25519_public secret) .resp .server_write
        (TunnelServer.accept_handshake P keys prologue secret f).log tx) ∨
    (∃ s, (TunnelServer.accept_handshake P keys prologue secret f).res = .error s) ∧
      Ended P (P.x25519_public secret) .resp .server_write
        (TunnelServer.accept_handshake P keys prologue secret f).log := by
  rcases accept_handshake_cases P keys prologue secret f with
    ⟨H, ki, cti, msg, ct, -, -, -, hv, -, -, -, -, -, hf⟩ | ⟨s, hr, hl, -⟩
  · left
    rw [hf]
    have hown : H.view.server_ephemeral = P.x25519_public secret := by rw [hv]
    have hgen : P.x25519_public secret ∈ generated (acceptLog H ki cti msg ct) := by
      rw [← hown]
      exact List.mem_cons_self
    have htext : H.view.second ∈ hashes (acceptLog H ki cti msg ct) := by simp [acceptLog, hashes]
    refine ⟨_, _, rfl, ⟨⟨[⟨H.k_resp_s, 0, H.view.h2 P, HANDSHAKE_COMPLETE_ACK, ct⟩], [], ?_, List.forall_mem_nil _⟩, ?_, hgen⟩⟩
    · refine ⟨rfl, Nat.le_refl 1, ?_, List.forall_mem_nil _, List.nodup_nil, fun _ => hgen⟩
      intro x hx
      rw [List.mem_singleton.1 hx]
      refine ⟨H.view, H.dh_ephem.val, hown, htext, ?_, H.resp_eq, H.dh_ephem.property⟩
      simp [acceptLog, expansions, derived, Slot.info, Slot.text, View.h2]
    · refine ⟨H.view, H.dh_static.val ++ H.dh_ephem.val, hown, htext, ?_, H.server_eq, ?_⟩
      · simp [acceptLog, expansions, derived, Slot.info, Slot.text, View.h2]
      · rw [List.length_append, H.dh_static.property, H.dh_ephem.property]
        rfl
  · exact .inr ⟨⟨s, hr⟩, .of_nil hl⟩

/-! ## Transport -/

theorem seals_sealedLog (c : CipherState) (t : MessageType) (pt aad ct : Bytes) :
    seals (sealedLog c t pt aad ct) = [⟨c.key, c.nonce, aad, pt, ct⟩] := rfl

theorem seals_openedLog (c : CipherState) (f : WireFrame) (aad pt : Bytes) : seals (openedLog c f aad pt) = [] := rfl

theorem Live.send_message (message : String) (h : Live P e a b log tx) :
    (∃ tx', (TunnelClient.send_message P tx message).res = .ok tx' ∧
      Live P e a b (log ++ (TunnelClient.send_message P tx message).log) tx') ∨
    (∃ s, (TunnelClient.send_message P tx message).res = .error s) ∧
      Ended P e a b (log ++ (TunnelClient.send_message P tx message).log) := by
  rcases TunnelClient.send_message_cases P tx message with ⟨ct, tx', he, hr⟩ | ⟨s, hr, -⟩
  · left
    rw [hr]
    exact ⟨tx', rfl, h.seal he (seals_sealedLog _ _ _ _ _)⟩
  · right
    rw [hr]
    exact ⟨⟨.err s, rfl⟩, h.ended.append rfl⟩

theorem seals_read_reply (P : Primitives) (tx rx : CipherState) (f : WireFrame) :
    seals (TunnelClient.read_reply P tx rx f).log = [] := by
  rcases TunnelClient.read_reply_cases P tx rx f with ⟨s, hr⟩ | ⟨pt, rx', -, -, ⟨-, hr⟩ | ⟨text, -, hr⟩⟩
  · rw [hr]; rfl
  · rw [hr]; rfl
  · rw [hr]; rfl

/-! ## Sessions -/

namespace OneShot

/-- What the session's log holds, by how far it has come. -/
def Accounted (P : Primitives) (client : TunnelClient) (secret : Key) : OneShot P → Log → Prop
  | idle, log => seals log = []
  | await_resp started, log =>
    started = ⟨EphemeralKeyPair.generate P secret, P.x25519 secret client.server_pubkey⟩ ∧
      Greeted P (P.x25519_public secret) log
  | await_reply tx_cipher _, log => Live P (P.x25519_public secret) .init .client_write log tx_cipher
  | done _, log => Ended P (P.x25519_public secret) .init .client_write log

variable {client : TunnelClient} {secret : Key} {message : String} {s : OneShot P}

theorem Accounted.ended (h : Accounted P client secret s log) :
    Ended P (P.x25519_public secret) .init .client_write log := by
  cases s with
  | idle => exact .of_nil h
  | await_resp started => exact ⟨_, _, h.2.1.choose_spec⟩
  | await_reply tx rx => exact Live.ended h
  | done r => exact h

theorem accounted_step (i : Input) (h : Accounted P client secret s log) :
    Accounted P client secret (step P client secret message s i).2 (log ++ (step P client secret message s i).1) := by
  cases s with
  | idle =>
    have hlog : seals log = [] := h
    cases i with
    | connect =>
      simp only [step]
      rcases start_handshake_spends P client secret with ⟨hr, ⟨first, hs⟩, hg⟩ | ⟨⟨err, hr⟩, hl⟩
      · rw [settle_ok hr]
        refine ⟨rfl, ⟨first, hs.prepend hlog⟩, ?_⟩
        rw [generated_append]
        exact List.mem_append_right _ hg
      · rw [settle_error hr]
        exact .of_nil (by rw [seals_append, hlog, hl]; rfl)
    | broken err => exact .of_nil (by rw [seals_append, hlog]; rfl)
    | frame _ | line _ | unwritten => exact (List.append_nil log).symm ▸ hlog
  | await_resp started =>
    obtain ⟨rfl, hg⟩ := h
    cases i with
    | frame f =>
      simp only [step, finish_and_send]
      rcases finish_handshake_live client (P.x25519 secret client.server_pubkey) f hg with
        ⟨tx, rx, hr, hlive⟩ | ⟨⟨err, hr⟩, hended⟩
      · rw [Act.bind_of_ok hr, Act.bind_pure_map]
        rcases hlive.send_message message with ⟨tx', hr', hlive'⟩ | ⟨⟨err, hr'⟩, hended⟩
        · rw [settle_ok (a := (tx', rx)) (by rw [hr']; rfl), ← List.append_assoc]
          exact hlive'
        · rw [settle_error (s := err) (by rw [hr']; rfl), ← List.append_assoc]
          exact hended
      · rw [Act.bind_of_error hr, settle_error rfl]
        exact hended
    | broken _ | unwritten => exact Ended.append ⟨_, _, hg.1.choose_spec⟩ rfl
    | connect => exact (List.append_nil log).symm ▸ ⟨rfl, hg⟩
    | line l => exact (List.append_nil log).symm ▸ ⟨rfl, hg⟩
  | await_reply tx rx =>
    have hlive : Live P _ _ _ log tx := h
    cases i with
    | frame f =>
      simp only [step]
      have hended := hlive.ended.append (seals_read_reply P tx rx f)
      cases hr : (TunnelClient.read_reply P tx rx f).res with
      | ok text => rw [settle_ok hr]; exact hended
      | error err => rw [settle_error hr]; exact hended
    | broken _ | unwritten => exact hlive.ended.append rfl
    | connect => exact hlive.append rfl
    | line l => exact hlive.append rfl
  | done r => exact Ended.append h rfl

end OneShot

namespace Interactive

def Accounted (P : Primitives) (client : TunnelClient) (secret : Key) : Interactive P → Log → Prop
  | idle, log => seals log = []
  | await_resp started, log =>
    started = ⟨EphemeralKeyPair.generate P secret, P.x25519 secret client.server_pubkey⟩ ∧
      Greeted P (P.x25519_public secret) log
  | repl session _, log => Live P (P.x25519_public secret) .init .client_write log session.tx_cipher
  | done _, log => Ended P (P.x25519_public secret) .init .client_write log

variable {client : TunnelClient} {secret : Key} {s : Interactive P}

theorem Accounted.ended (h : Accounted P client secret s log) :
    Ended P (P.x25519_public secret) .init .client_write log := by
  cases s with
  | idle => exact .of_nil h
  | await_resp started => exact ⟨_, _, h.2.1.choose_spec⟩
  | repl s w => exact Live.ended h
  | done r => exact h

theorem accounted_step (i : Input) (h : Accounted P client secret s log) :
    Accounted P client secret (step P client secret s i).2 (log ++ (step P client secret s i).1) := by
  cases s with
  | idle =>
    have hlog : seals log = [] := h
    cases i with
    | connect =>
      simp only [step, Exec.println_eq, Act.mk_ok_bind]
      have hq := (quiet_println ["Kobler til server på " ++ client.target_addr ++ " for interaktiv sesjon..."]).seals
      rcases start_handshake_spends P client secret with ⟨hr, ⟨first, hs⟩, hg⟩ | ⟨⟨err, hr⟩, hl⟩
      · simp only [settle, hr]
        refine ⟨rfl, ⟨first, (hs.prepend hq).prepend hlog⟩, ?_⟩
        rw [generated_append, generated_append]
        exact List.mem_append_right _ (List.mem_append_right _ hg)
      · simp only [settle, hr]
        exact .of_nil (by rw [seals_append, seals_append, hlog, hq, hl]; rfl)
    | broken err => exact .of_nil (by rw [seals_append, hlog]; rfl)
    | frame _ | line _ | unwritten => exact (List.append_nil log).symm ▸ hlog
  | await_resp started =>
    obtain ⟨rfl, hg⟩ := h
    cases i with
    | frame f =>
      simp only [step, finish_and_greet]
      rcases finish_handshake_live client (P.x25519 secret client.server_pubkey) f hg with
        ⟨tx, rx, hr, hlive⟩ | ⟨⟨err, hr⟩, hended⟩
      · have hgreeted := hlive.append ((quiet_println banner).append .nil).seals
        rw [List.append_assoc] at hgreeted
        rw [Act.bind_of_ok hr, Exec.println_eq, Act.mk_ok_bind, settle_ok (a := (tx, rx)) rfl]
        exact hgreeted
      · rw [Act.bind_of_error hr, settle_error rfl]
        exact hended
    | broken _ | unwritten => exact Ended.append ⟨_, _, hg.1.choose_spec⟩ rfl
    | connect => exact (List.append_nil log).symm ▸ ⟨rfl, hg⟩
    | line l => exact (List.append_nil log).symm ▸ ⟨rfl, hg⟩
  | repl session w =>
    have hlive : Live P _ _ _ log session.tx_cipher := h
    have hturn := repl_turn P client secret session w i
    generalize step P client secret (repl session w) i = next at hturn ⊢
    cases hturn with
    | stays m hl => exact hlive.append hl.seals
    | ended hl => exact hlive.ended.append hl.seals
    | asked hw hreq he => exact hlive.seal he (seals_sealedLog _ _ _ _ _)
    | skipped m hl hw hskip => exact hlive.append hl.seals
    | heard text hw ht hd => exact hlive.append rfl
  | done r => exact Ended.append h rfl

end Interactive

namespace Serving

def Accounted (P : Primitives) (secret : Key) : Serving → Log → Prop
  | await_init, log => log = []
  | transport session, log => Live P (P.x25519_public secret) .resp .server_write log session.tx_cipher
  | done _, log => Ended P (P.x25519_public secret) .resp .server_write log

variable {server_keys : KeyPair} {prologue : Bytes} {secret : Key} {s : Serving}

theorem Accounted.ended (h : Accounted P secret s log) : Ended P (P.x25519_public secret) .resp .server_write log := by
  cases s with
  | await_init => exact .of_nil (by rw [show log = [] from h]; rfl)
  | transport s => exact Live.ended h
  | done r => exact h

theorem accounted_step (i : Input) (h : Accounted P secret s log) :
    Accounted P secret (step P server_keys prologue secret s i).2 (log ++ (step P server_keys prologue secret s i).1) := by
  cases s with
  | await_init =>
    obtain rfl : log = [] := h
    cases i with
    | frame f =>
      simp only [step]
      rcases accept_handshake_live P server_keys prologue secret f with ⟨rx, tx, hr, hlive⟩ | ⟨⟨err, hr⟩, hended⟩
      · rw [settle_ok hr]
        exact hlive
      · rw [settle_error hr]
        exact hended
    | broken err => exact .of_nil rfl
    | connect | line _ | unwritten => exact rfl
  | transport session =>
    have hlive : Live P _ _ _ log session.tx_cipher := h
    have hturn := transport_turn P server_keys prologue secret session i
    generalize step P server_keys prologue secret (transport session) i = next at hturn ⊢
    cases hturn with
    | stays m => exact hlive.append rfl
    | ended r => exact hlive.ended.append rfl
    | took e ht hd => exact hlive.ended.append rfl
    | answered ht hd he => exact hlive.seal he (seals_sealedLog _ _ _ _ _)
  | done r => exact Ended.append h rfl

end Serving

namespace Session

/-- The secret the session draws, and the slots it encrypts in. -/
def secret : Session → Key
  | one_shot _ secret _ | interactive _ secret | server _ _ secret => secret

def slots : Session → Slot × Slot
  | one_shot .. | interactive .. => (.init, .client_write)
  | server .. => (.resp, .server_write)

theorem slots_ne (x : Session) : x.slots.1 ≠ x.slots.2 := by
  cases x <;> exact Slot.noConfusion

/-- Every run of a session is accounted for, whatever its inputs. -/
theorem ended (x : Session) {s : (x.task P).State} (h : Runs (x.task P) s log) :
    Ended P (P.x25519_public x.secret) x.slots.1 x.slots.2 log := by
  cases x with
  | one_shot client secret message =>
    have := h.inv (OneShot.Accounted P client secret) rfl fun _ _ i hs => OneShot.accounted_step i hs
    exact this.ended
  | interactive client secret =>
    have := h.inv (Interactive.Accounted P client secret) rfl fun _ _ i hs => Interactive.accounted_step i hs
    exact this.ended
  | server keys prologue secret =>
    have := h.inv (Serving.Accounted P secret) rfl fun _ _ i hs => Serving.accounted_step i hs
    exact this.ended

end Session

/-! ## Any sessions, interleaved -/

/-- The key and the nonce of an encryption. -/
def spends : Effect → Option (Key × UInt64)
  | .sealed s => some (s.key, s.nonce)
  | _ => none

theorem filterMap_spends (log : Log) : log.filterMap spends = (seals log).map fun s => (s.key, s.nonce) := by
  rw [seals, List.map_filterMap]
  congr 1
  funext e
  cases e <;> rfl

/-- The ephemeral key an effect draws. -/
def draws : Effect → Option Key
  | .generated k => some k
  | _ => none

theorem generated_eq (log : Log) : generated log = log.filterMap draws := rfl

theorem Ended.slot_of (h : Ended P e a b log) {x : Seal} (hx : x ∈ seals log) :
    ∃ s, FromSlot P log e s x.key := by
  obtain ⟨first, rest, hs⟩ := h
  rw [hs.split] at hx
  rcases List.mem_append.1 hx with hx | hx
  · exact ⟨a, hs.first_slot x hx⟩
  · exact ⟨b, hs.rest_slot x hx⟩

theorem Ended.generated_of (h : Ended P e a b log) {x : Seal} (hx : x ∈ seals log) : e ∈ generated log := by
  obtain ⟨first, rest, hs⟩ := h
  exact hs.generated (List.ne_nil_of_mem hx)

/-- Inside one session the two slots keep the keys apart, and the counter the nonces. -/
theorem Ended.nodup (h : Ended P e a b log) (hab : a ≠ b) (hcol : NoCollision P log) (hkdf : KdfInjective P log) :
    ((seals log).map fun s => (s.key, s.nonce)).Nodup := by
  obtain ⟨first, rest, hs⟩ := h
  rw [hs.split, List.map_append, List.nodup_append']
  refine ⟨?_, ?_, ?_⟩
  · match first, hs.short with
    | [], _ => exact List.nodup_nil
    | [x], _ => exact List.nodup_singleton _
  · refine List.Nodup.of_map Prod.snd ?_
    rw [List.map_map]
    exact hs.nodup
  · intro p hp hp'
    obtain ⟨x, hx, rfl⟩ := List.mem_map.1 hp
    obtain ⟨y, hy, he⟩ := List.mem_map.1 hp'
    have hkey : y.key = x.key := congrArg Prod.fst he
    have hy := hs.rest_slot y hy
    rw [hkey] at hy
    exact hab ((hs.first_slot x hx).unique hcol hkdf hy).1

theorem no_counter_reuse {κ : Type} [DecidableEq κ] (P : Primitives) (sessions : κ → Session)
    {w : (k : κ) → ((sessions k).task P).State} {l : List (κ × Effect)} (h : World (fun k => (sessions k).task P) w l)
    (hgen : (generated (l.map Prod.snd)).Nodup) (hcol : NoCollision P (l.map Prod.snd))
    (hkdf : KdfInjective P (l.map Prod.snd)) :
    ((seals (l.map Prod.snd)).map fun s => (s.key, s.nonce)).Nodup := by
  have hended (k : κ) := (sessions k).ended (h.runs k)
  have hhash (k : κ) : ∀ x ∈ hashes (proj k l), x ∈ hashes (l.map Prod.snd) := fun x hx =>
    ((proj_sublist k l).filterMap _).subset hx
  have hexp (k : κ) : ∀ x ∈ expansions (proj k l), x ∈ expansions (l.map Prod.snd) := fun x hx =>
    ((proj_sublist k l).filterMap _).subset hx
  rw [← filterMap_spends, List.filterMap_map]
  refine nodup_of_proj spends (fun k => ?_) (fun k k' e e' p hm hm' he he' => ?_)
  · rw [filterMap_spends]
    exact (hended k).nodup (sessions k).slots_ne (fun x hx y hy => hcol x (hhash k x hx) y (hhash k y hy))
      (fun x hx y hy => hkdf x (hexp k x hx) y (hexp k y hy))
  · -- one key for both means one ephemeral key, and that was generated once
    obtain ⟨s, rfl⟩ : ∃ s, e = .sealed s := by
      cases e <;> first | exact ⟨_, rfl⟩ | cases he
    obtain ⟨s', rfl⟩ : ∃ s, e' = .sealed s := by
      cases e' <;> first | exact ⟨_, rfl⟩ | cases he'
    have hkey : s.key = s'.key := congrArg Prod.fst (Option.some.inj (he.trans he'.symm))
    have hs : s ∈ seals (proj k l) := List.mem_filterMap.2 ⟨_, mem_proj.2 hm, rfl⟩
    have hs' : s' ∈ seals (proj k' l) := List.mem_filterMap.2 ⟨_, mem_proj.2 hm', rfl⟩
    obtain ⟨t, ht⟩ := (hended k).slot_of hs
    obtain ⟨t', ht'⟩ := (hended k').slot_of hs'
    rw [← hkey] at ht'
    have heph := ((ht.mono (hhash k) (hexp k)).unique hcol hkdf (ht'.mono (hhash k') (hexp k'))).2
    have hg := (hended k).generated_of hs
    have hg' := (hended k').generated_of hs'
    rw [← heph] at hg'
    rw [generated_eq] at hg hg'
    rw [generated_eq, List.filterMap_map] at hgen
    obtain ⟨g, hgm, hge⟩ := List.mem_filterMap.1 hg
    obtain ⟨g', hgm', hge'⟩ := List.mem_filterMap.1 hg'
    exact apart_of_nodup draws hgen (mem_proj.1 hgm) (mem_proj.1 hgm') hge hge'

/-- However many sessions run, interleaved and attacked in any way, no two
messages are encrypted under the same key and nonce. -/
theorem no_nonce_reuse {κ : Type} [DecidableEq κ] (P : Primitives) (sessions : κ → Session)
    {w : (k : κ) → ((sessions k).task P).State} {l : List (κ × Effect)} (h : World (fun k => (sessions k).task P) w l)
    (hgen : (generated (l.map Prod.snd)).Nodup) (hcol : NoCollision P (l.map Prod.snd))
    (hkdf : KdfInjective P (l.map Prod.snd)) :
    ((seals (l.map Prod.snd)).map fun s => (s.key, s.aead_nonce)).Nodup := by
  have hnodup := no_counter_reuse P sessions h hgen hcol hkdf
  have hinj : Function.Injective (Prod.map (id : Key → Key) CipherState.build_nonce) :=
    Function.Injective.prodMap Function.injective_id fun _ _ => CipherState.build_nonce_inj
  have hmap := hnodup.map hinj
  rw [List.map_map] at hmap
  exact hmap

namespace Concrete

/-- A terminal session and its server. -/
def pair : Bool → Session
  | true => .interactive (relay PROTOCOL_NAME).client (key 21)
  | false => .server (relay PROTOCOL_NAME).server_keys PROTOCOL_NAME (key 31)

/-- The last frame that task `k` wrote. -/
def relayed {κ : Type} [DecidableEq κ] (k : κ) (l : List (κ × Effect)) : Input :=
  match (frames (proj k l)).getLast? with
  | some f => .frame f
  | none => .broken (.err .eof)

/-- A handshake, a message and its answer; the last move stands first. -/
def conversation : List (Bool × (List (Bool × Effect) → Input)) :=
  [(true, relayed false), (false, relayed true), (true, fun _ => .line (some "hei")), (true, relayed false),
    (false, relayed true), (true, fun _ => .connect)]

def played : List (Bool × Effect) := (play (fun k => (pair k).task (primitives true)) conversation).2

/-- A client with one message and its server. -/
def one_shot_pair : Bool → Session
  | true => .one_shot (relay PROTOCOL_NAME).client (key 21) "hei"
  | false => pair false

/-- The handshake, the message and its answer. -/
def one_message : List (Bool × (List (Bool × Effect) → Input)) :=
  [(true, relayed false), (false, relayed true), (true, relayed false), (false, relayed true), (true, fun _ => .connect)]

def messaged : List (Bool × Effect) := (play (fun k => (one_shot_pair k).task (primitives true)) one_message).2

end Concrete

example : (seals (Concrete.played.map Prod.snd)).length = 4 := by decide +kernel

theorem no_nonce_reuse_conversation :
    ((seals (Concrete.played.map Prod.snd)).map fun s => (s.key, s.aead_nonce)).Nodup :=
  no_nonce_reuse (Concrete.primitives true) Concrete.pair (World.play _ Concrete.conversation) (by decide +kernel)
    (by decide +kernel) (by decide +kernel)

end NoiseTunnel
