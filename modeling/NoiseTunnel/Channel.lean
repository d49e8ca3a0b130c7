import NoiseTunnel.Nonces
import NoiseTunnel.Lib.Numbered
/-!
# Integrity of the channel

A terminal session and a server that hold the same transport keys, with an
attacker between them who delivers to either whatever frames it likes. Each
side decrypts a prefix of what the other encrypted.
-/
open Rust Reactive Numbered

namespace NoiseTunnel

variable {P : Primitives} {k k' : Key} {log l : Log} {tx rx tx' rx' : CipherState} {t : MessageType}
  {pt aad ct : Bytes} {f : WireFrame}

/-! ## One side -/

def Seal.num (s : Seal) : Nat := s.nonce.toNat

/-- `s` was made by encrypting the message `m` under `k`. -/
def Made (P : Primitives) (k : Key) (s : Seal) (m : MessageType × Bytes) : Prop :=
  s.key = k ∧ Carries m.1 s.aad ∧ s.nonce.toNat + 1 < 2 ^ 64 ∧
    P.aead_encrypt k (CipherState.build_nonce s.nonce) m.2 s.aad = some s.ct

/-- `s` decrypts under `k` to the message `m`. -/
def Gives (P : Primitives) (k : Key) (s : Seal) (m : MessageType × Bytes) : Prop :=
  s.key = k ∧ Carries m.1 s.aad ∧ P.aead_decrypt k (CipherState.build_nonce s.nonce) s.ct s.aad = some m.2

/-- All messages encrypted were numbered under `k`, and all messages decrypted under `k'`. -/
structure Intact (P : Primitives) (k k' : Key) (log : Log) : Prop where
  sent : Records (2 ^ 64) Seal.num (Made P k) (seals log) (sentPairs log)
  received : Records (2 ^ 64) Seal.num (Gives P k') (opens log) (receivedPairs log)

/-- The ciphers stand where the log left them. The receiving counter may wrap. -/
structure Carrying (P : Primitives) (k k' : Key) (log : Log) (tx rx : CipherState) : Prop where
  intact : Intact P k k' log
  tx_key : tx.key = k
  tx_nonce : tx.nonce.toNat = (seals log).length % 2 ^ 64
  rx_key : rx.key = k'
  rx_nonce : rx.nonce.toNat = (opens log).length % 2 ^ 64

theorem Intact.quiet (h : Intact P k k' log) (hl : Quiet l) : Intact P k k' (log ++ l) := by
  constructor
  · rw [seals_append, sentPairs_append, hl.seals, hl.sent, List.append_nil, List.append_nil]
    exact h.sent
  · rw [opens_append, receivedPairs_append, hl.opens, hl.received, List.append_nil, List.append_nil]
    exact h.received

theorem Carrying.quiet (h : Carrying P k k' log tx rx) (hl : Quiet l) : Carrying P k k' (log ++ l) tx rx where
  intact := h.intact.quiet hl
  tx_key := h.tx_key
  tx_nonce := by rw [seals_append, hl.seals, List.append_nil, h.tx_nonce]
  rx_key := h.rx_key
  rx_nonce := by rw [opens_append, hl.opens, List.append_nil, h.rx_nonce]

theorem Carrying.start (P : Primitives) (k k' : Key) : Carrying P k k' [] (CipherState.new k) (CipherState.new k') :=
  ⟨⟨.nil, .nil⟩, rfl, rfl, rfl, rfl⟩

/-- A message goes out under the next number. -/
theorem Carrying.seal (h : Carrying P k k' log tx rx) (ht : Carries t aad) (he : tx.encrypt P pt aad = (tx', .ok ct)) :
    Carrying P k k' (log ++ sealedLog tx t pt aad ct) tx' rx := by
  obtain ⟨hct, hadd, hkey⟩ := CipherState.encrypt_eq_ok.1 he
  have hnext := checked_add_one hadd
  have hlt : tx.nonce.toNat + 1 < 2 ^ 64 := hnext ▸ tx'.nonce.toNat_lt
  have hseals : seals (log ++ sealedLog tx t pt aad ct) = seals log ++ [⟨tx.key, tx.nonce, aad, pt, ct⟩] := by
    rw [seals_append, seals_sealedLog]
  have hopens : opens (log ++ sealedLog tx t pt aad ct) = opens log := by
    rw [opens_append]
    exact List.append_nil _
  constructor
  · constructor
    · rw [hseals, sentPairs_append]
      exact h.intact.sent.snoc (r := ⟨tx.key, tx.nonce, aad, pt, ct⟩) h.tx_nonce ⟨h.tx_key, ht, hlt, h.tx_key ▸ hct⟩
    · rw [hopens, receivedPairs_append]
      exact (List.append_nil (receivedPairs log)).symm ▸ h.intact.received
  · rw [hkey, h.tx_key]
  · rw [hseals, List.length_append, List.length_singleton, Nat.add_mod, ← h.tx_nonce, hnext]
    omega
  · exact h.rx_key
  · rw [hopens, h.rx_nonce]

/-- A message comes in under the expected number. -/
theorem Carrying.opened (h : Carrying P k k' log tx rx) (ht : Carries f.msg_type aad)
    (hd : rx.decrypt P f.payload aad f.nonce = .ok (rx', .ok pt)) :
    Carrying P k k' (log ++ openedLog rx f aad pt) tx rx' := by
  obtain ⟨hn, hpt, hadd, hkey⟩ := CipherState.decrypt_eq_ok.1 hd
  have hopens : opens (log ++ openedLog rx f aad pt) = opens log ++ [⟨rx.key, f.nonce, aad, pt, f.payload⟩] := by
    rw [opens_append]
    rfl
  have hseals : seals (log ++ openedLog rx f aad pt) = seals log := by
    rw [seals_append, seals_openedLog, List.append_nil]
  constructor
  · constructor
    · rw [hseals, sentPairs_append]
      exact (List.append_nil (sentPairs log)).symm ▸ h.intact.sent
    · rw [hopens, receivedPairs_append]
      apply h.intact.received.snoc
      · rw [Seal.num, hn]
        exact h.rx_nonce
      · refine ⟨h.rx_key, ht, ?_⟩
        rw [hn, ← h.rx_key]
        exact hpt
  · exact h.tx_key
  · rw [hseals, h.tx_nonce]
  · rw [hkey, h.rx_key]
  · rw [hopens, List.length_append, List.length_singleton, add_one_mod hadd, h.rx_nonce, Nat.mod_add_mod]

/-- The whole of what was received was sent, in order. -/
theorem Intact.received_of_sent (hP : P.Correct) {log' : Log} {k'' : Key} (hs : Intact P k k'' log)
    (hr : Intact P k' k log') (hu : Unforged log' log) : receivedPairs log' <+: sentPairs log := by
  refine hs.sent.of_authentic (fun s hm => ?_) hr.received (fun o hm => ?_)
  · obtain ⟨i, hi⟩ := List.getElem?_of_mem hm
    obtain ⟨-, m, -, -, -, hlt, -⟩ := hs.sent.record i s hi
    exact hlt
  · obtain ⟨s, hsm, -, haead, haad, hct⟩ := hu o hm
    have hnonce : s.nonce = o.nonce := Seal.nonce_eq haead
    refine ⟨s, hsm, by rw [Seal.num, Seal.num, hnonce], fun m m' ⟨_, ht, _, he⟩ ⟨_, ht', hd⟩ => ?_⟩
    -- the same associated data, so the same type; the same ciphertext, so the same plaintext
    have htype : m.1 = m'.1 := ht.inj (haad ▸ ht')
    have hdec := hP.decrypt_encrypt _ _ _ _ _ he
    rw [hnonce, haad, hct] at hdec
    have hmsg : m.2 = m'.2 := Option.some.inj (hdec.symm.trans hd)
    exact Prod.ext htype hmsg

/-! ## The two sessions -/

namespace Interactive

/-- The terminal session from the end of its handshake on. -/
def resumed (P : Primitives) (client : TunnelClient) (secret : Key) (ciphers : CipherState × CipherState) :
    Task Input Effect :=
  ⟨Interactive P, repl (.start ciphers) .line, step P client secret⟩

def Carried (P : Primitives) (k k' : Key) : Interactive P → Log → Prop
  | repl session _, log => Carrying P k k' log session.tx_cipher session.rx_cipher
  | done _, log => Intact P k k' log
  | _, _ => False

variable {client : TunnelClient} {secret : Key} {s : Interactive P}

theorem carried_step (i : Input) (h : Carried P k k' s log) :
    Carried P k k' (step P client secret s i).2 (log ++ (step P client secret s i).1) := by
  cases s with
  | idle => exact h.elim
  | await_resp started => exact h.elim
  | done r => exact Intact.quiet h .nil
  | repl session w =>
    have hc : Carrying P k k' log session.tx_cipher session.rx_cipher := h
    have hturn := repl_turn P client secret session w i
    generalize step P client secret (repl session w) i = next at hturn ⊢
    cases hturn with
    | stays m hl => exact hc.quiet hl
    | ended hl => exact hc.intact.quiet hl
    | asked hw hreq he => exact hc.seal hreq.carries he
    | skipped m hl hw hskip => exact hc.quiet hl
    | @heard f a aad pt rx' text hw ht hd =>
      have hopen := (hc.opened ht hd).quiet (quiet_println [text])
      rw [List.append_assoc] at hopen
      exact hopen

theorem Carried.intact (h : Carried P k k' s log) : Intact P k k' log := by
  cases s with
  | idle => exact h.elim
  | await_resp started => exact h.elim
  | repl session w => exact Carrying.intact h
  | done r => exact h

theorem intact_run {s : (resumed P client secret (CipherState.new k, CipherState.new k')).State}
    (h : Runs (resumed P client secret (CipherState.new k, CipherState.new k')) s log) : Intact P k k' log := by
  have hcarried := h.inv (Carried P k k') (Carrying.start P k k') fun _ _ i hs => carried_step i hs
  exact hcarried.intact

end Interactive

namespace Serving

/-- The server's session from the end of its handshake on. -/
def resumed (P : Primitives) (server_keys : KeyPair) (prologue : Bytes) (secret : Key)
    (ciphers : CipherState × CipherState) : Task Input Effect :=
  ⟨Serving, transport (.start ciphers), step P server_keys prologue secret⟩

def Carried (P : Primitives) (k k' : Key) : Serving → Log → Prop
  | await_init, _ => False
  | transport session, log => Carrying P k k' log session.tx_cipher session.rx_cipher
  | done _, log => Intact P k k' log

variable {server_keys : KeyPair} {prologue : Bytes} {secret : Key} {s : Serving}

theorem carried_step (i : Input) (h : Carried P k k' s log) :
    Carried P k k' (step P server_keys prologue secret s i).2 (log ++ (step P server_keys prologue secret s i).1) := by
  cases s with
  | await_init => exact h.elim
  | done r => exact Intact.quiet h .nil
  | transport session =>
    have hc : Carrying P k k' log session.tx_cipher session.rx_cipher := h
    have hturn := transport_turn P server_keys prologue secret session i
    generalize step P server_keys prologue secret (transport session) i = next at hturn ⊢
    cases hturn with
    | stays m => exact hc.quiet .nil
    | ended r => exact hc.intact.quiet .nil
    | took e ht hd => exact (hc.opened ht hd).intact
    | @answered f aad pt ct filter' rx' tx' ht hd he =>
      have hseal := (hc.opened ht hd).seal ht he
      rw [List.append_assoc] at hseal
      exact hseal

theorem Carried.intact (h : Carried P k k' s log) : Intact P k k' log := by
  cases s with
  | await_init => exact h.elim
  | transport session => exact Carrying.intact h
  | done r => exact h

theorem intact_run {s : (resumed P server_keys prologue secret (CipherState.new k', CipherState.new k)).State}
    (h : Runs (resumed P server_keys prologue secret (CipherState.new k', CipherState.new k)) s log) :
    Intact P k k' log := by
  have hcarried := h.inv (Carried P k k') (Carrying.start P k k') fun _ _ i hs => carried_step i hs
  exact hcarried.intact

end Serving

/-! ## The channel -/

/-- A client and a server that hold the same pair of transport keys. -/
structure Channel where
  client : TunnelClient
  client_secret : Key
  server_keys : KeyPair
  prologue : Bytes
  server_secret : Key
  client_write_key : Key
  server_write_key : Key

def Channel.task (P : Primitives) (c : Channel) : Side → Task Input Effect
  | .client =>
    Interactive.resumed P c.client c.client_secret
      (CipherState.new c.client_write_key, CipherState.new c.server_write_key)
  | .server =>
    Serving.resumed P c.server_keys c.prologue c.server_secret
      (CipherState.new c.client_write_key, CipherState.new c.server_write_key)

/-- Whatever reaches the two sides, and in whatever order: as long as nothing
is forged, the server has decrypted a prefix of the messages the client
encrypted, and the client a prefix of the server's replies. -/
theorem channel_integrity {P : Primitives} (hP : P.Correct) (c : Channel) {w : (k : Side) → (c.task P k).State}
    {l : List (Side × Effect)} (h : World (c.task P) w l) (hserver : Unforged (proj .server l) (proj .client l))
    (hclient : Unforged (proj .client l) (proj .server l)) :
    receivedPairs (proj .server l) <+: sentPairs (proj .client l) ∧
      receivedPairs (proj .client l) <+: sentPairs (proj .server l) := by
  have hc : Intact P c.client_write_key c.server_write_key (proj .client l) := Interactive.intact_run (h.runs .client)
  have hs : Intact P c.server_write_key c.client_write_key (proj .server l) := Serving.intact_run (h.runs .server)
  exact ⟨hc.received_of_sent hP hs hserver, hs.received_of_sent hP hc hclient⟩

namespace Concrete

def channel : Channel where
  client := (relay PROTOCOL_NAME).client
  client_secret := key 21
  server_keys := (relay PROTOCOL_NAME).server_keys
  prologue := PROTOCOL_NAME
  server_secret := key 31
  client_write_key := key 5
  server_write_key := key 6

/-- The last frame that side `k` wrote, with its type byte changed. -/
def relabelled (k : Side) (l : List (Side × Effect)) : Input :=
  match relayed k l with
  | .frame f => .frame { f with msg_type := .DataPayload }
  | i => i

/-- A message, its answer, and a heartbeat passed off as data; the last move stands first. -/
def attack : List (Side × (List (Side × Effect) → Input)) :=
  [(.server, relabelled .client), (.client, fun _ => .line (some "/ping")), (.client, relayed .server),
    (.server, relayed .client), (.client, fun _ => .line (some "hei"))]

def attacked : List (Side × Effect) := (play (channel.task (primitives true)) attack).2

end Concrete

/-- The server has taken in the message and not the relabelled heartbeat. -/
theorem channel_integrity_attacked :
    receivedPairs (proj .server Concrete.attacked) <+: sentPairs (proj .client Concrete.attacked) ∧
      receivedPairs (proj .client Concrete.attacked) <+: sentPairs (proj .server Concrete.attacked) :=
  channel_integrity (Concrete.correct true) Concrete.channel (World.play _ Concrete.attack) (by decide +kernel)
    (by decide +kernel)

example : receivedPairs (proj .server Concrete.attacked) = [(.DataPayload, as_bytes "hei")] := by decide +kernel

end NoiseTunnel
