import NoiseTunnel.Agreement
import NoiseTunnel.Tally
/-!
# Hostile input

Whatever bytes the peer sends, both handshakes and the server's loop end with
a result or an error of their own, and the loop reads a frame for every 13
bytes at most.
-/
open Rust

namespace NoiseTunnel

open WireFrame

variable {P : Primitives}

/-! ## Operations -/

namespace Exec

theorem bail_if_in_range {cond : Prop} [Decidable cond] {e : Error} (h : e ≠ .try_from_slice) :
    (bail_if cond e).Stops InRange := by
  unfold bail_if
  split
  · exact Act.stops_error [] (in_range_err h)
  · exact Act.stops_ok [] ()

theorem of_bail_if {cond : Prop} [Decidable cond] {e : Error} {u : Unit} (h : (bail_if cond e).res = .ok u) :
    ¬cond := by
  intro hc
  rw [bail_if_pos hc] at h
  cases h

theorem derive_session_keys_in_range (ss hh : Bytes) : (derive_session_keys P ss hh).Stops InRange := by
  unfold derive_session_keys NoiseTunnel.derive_session_keys derive_session_keypair
  cases P.hkdf hh ss client_key_info with
  | none => exact Act.stops_error _ (in_range_err Error.noConfusion)
  | some kc =>
    cases P.hkdf hh ss server_key_info with
    | none => exact Act.stops_error _ (in_range_err Error.noConfusion)
    | some ks => exact Act.stops_ok _ _

theorem encrypt_in_range (c : CipherState) (msg aad : Bytes) : (encrypt P c msg aad).Stops InRange := by
  unfold encrypt CipherState.encrypt
  cases P.aead_encrypt c.key (CipherState.build_nonce c.nonce) msg aad with
  | none => exact Act.stops_error [] (in_range_err Error.noConfusion)
  | some ct =>
    cases checked_add c.nonce 1 with
    | none => exact Act.stops_error [] (in_range_err Error.noConfusion)
    | some nonce => exact Act.stops_ok _ _

theorem decrypt_in_range {c : CipherState} (hn : c.nonce.toNat + 1 < 2 ^ 64) (ct aad : Bytes) (n : UInt64) :
    (decrypt P c ct aad n).Stops InRange := by
  unfold decrypt CipherState.decrypt
  split_ifs with hne
  · exact Act.stops_error [] (in_range_err Error.noConfusion)
  · rw [add_one hn]
    cases P.aead_decrypt c.key (CipherState.build_nonce n) ct aad with
    | none => exact Act.stops_error [] (in_range_err Error.noConfusion)
    | some msg => exact Act.stops_ok _ _

theorem validate_and_record_in_range {filter : ReplayFilter} {S : Finset ℕ} {n : ℕ} (h : filter.Tracks S n)
    (hn : n + 1 < 2 ^ 64) (seq : UInt64) : (validate_and_record P filter seq).Stops InRange := by
  obtain ⟨filter', r, e, -⟩ := h.call hn P.overflow_checks seq
  have he := ReplayFilter.validate_and_record_eq_ok e
  unfold validate_and_record
  rw [e]
  cases r with
  | ok u => exact Act.stops_ok [] filter'
  | error err => exact Act.stops_error [] (in_range_err (ReplayFilter.recorded_error he))

end Exec

theorem split_payload_in_range {payload : Bytes} (h : KEY_LEN ≤ payload.length) :
    Rust.Stops InRange (split_payload payload) := by
  refine (stops_slice_to h).bind fun k hk => ?_
  have hlen : k.length = KEY_LEN := by
    rw [← (slice_to_eq_ok.1 hk).2, List.length_take, Nat.min_eq_left h]
  exact (stops_copy_from_slice hlen).bind fun _ _ => (stops_slice_from h).bind fun _ _ => stops_ok _

/-! ## The handshakes -/

namespace TunnelClient

theorem finish_handshake_in_range (self : TunnelClient) (started : Started P) (f : WireFrame) :
    (self.finish_handshake P started f).Stops InRange := by
  unfold finish_handshake
  refine (Exec.bail_if_in_range Error.noConfusion).bind fun _ _ => ?_
  refine (Exec.bail_if_in_range Error.noConfusion).bind fun _ hlen => ?_
  have hlen := Exec.of_bail_if hlen
  refine Act.Stops.bind (split_payload_in_range (by omega)) fun ⟨e, ct⟩ _ => ?_
  refine (Act.stops_ok _ _).bind fun h2 _ => (Exec.derive_session_keys_in_range _ _).bind fun ⟨_, k⟩ _ => ?_
  refine (Exec.decrypt_in_range (CipherState.new_nonce_lt k) _ _ _).bind fun ⟨ack, _⟩ _ => ?_
  refine (Exec.bail_if_in_range Error.noConfusion).bind fun _ _ => ?_
  exact (Exec.derive_session_keys_in_range _ _).bind fun _ _ => Act.stops_ok _ _

theorem perform_handshake_in_range (self : TunnelClient) (secret : Key) (stream : Bytes) :
    (self.perform_handshake P secret stream).Stops InRange := by
  unfold perform_handshake
  refine Act.Stops.bind ?_ fun started _ => Act.Stops.bind (read_from_in_range stream) fun ⟨f, rest⟩ _ =>
    (self.finish_handshake_in_range started f).bind fun _ _ => Act.stops_ok _ _
  unfold start_handshake
  refine (Act.stops_ok _ _).bind fun _ _ => (Act.stops_ok _ _).bind fun h1 _ => ?_
  refine (Exec.derive_session_keys_in_range _ _).bind fun ⟨k, _⟩ _ => (Exec.encrypt_in_range _ _ _).bind fun _ _ => ?_
  exact (Act.stops_ok _ _).bind fun _ _ => Act.stops_ok _ _

end TunnelClient

namespace TunnelServer

theorem accept_handshake_in_range (server_keys : KeyPair) (prologue : Bytes) (secret : Key) (f : WireFrame) :
    (accept_handshake P server_keys prologue secret f).Stops InRange := by
  unfold accept_handshake
  refine (Exec.bail_if_in_range Error.noConfusion).bind fun _ _ => ?_
  refine (Exec.bail_if_in_range Error.noConfusion).bind fun _ hlen => ?_
  have hlen := Exec.of_bail_if hlen
  refine Act.Stops.bind (split_payload_in_range (by omega)) fun ⟨e, ct⟩ _ => ?_
  refine (Act.stops_ok _ _).bind fun h1 _ => (Exec.derive_session_keys_in_range _ _).bind fun ⟨k, _⟩ _ => ?_
  refine (Exec.decrypt_in_range (CipherState.new_nonce_lt k) _ _ _).bind fun _ _ => ?_
  refine (Act.stops_ok _ _).bind fun _ _ => (Act.stops_ok _ _).bind fun h2 _ => ?_
  refine (Exec.derive_session_keys_in_range _ _).bind fun ⟨kc, ks⟩ _ => ?_
  refine (Exec.derive_session_keys_in_range _ _).bind fun ⟨_, k⟩ _ => (Exec.encrypt_in_range _ _ _).bind fun _ _ => ?_
  exact (Act.stops_ok _ _).bind fun _ _ => Act.stops_ok _ _

theorem receive_handshake_in_range (server_keys : KeyPair) (prologue : Bytes) (secret : Key) (stream : Bytes) :
    (receive_handshake P server_keys prologue secret stream).Stops InRange := by
  unfold receive_handshake
  exact Act.Stops.bind (read_from_in_range stream) fun ⟨f, rest⟩ _ =>
    (accept_handshake_in_range server_keys prologue secret f).bind fun _ _ => Act.stops_ok _ _

theorem accept_handshake_ok {server_keys : KeyPair} {prologue : Bytes} {secret : Key} {f : WireFrame}
    {ciphers : CipherState × CipherState} (h : (accept_handshake P server_keys prologue secret f).res = .ok ciphers) :
    ∃ k k', ciphers = (CipherState.new k, CipherState.new k') := by
  rcases accept_handshake_cases P server_keys prologue secret f with
    ⟨H, ki, cti, msg, ct, -, -, -, -, -, -, -, -, -, he⟩ | ⟨s, he, -⟩
  · rw [he] at h
    cases h
    exact ⟨_, _, rfl⟩
  · rw [he] at h
    cases h

theorem receive_handshake_ok {server_keys : KeyPair} {prologue stream rest : Bytes} {secret : Key}
    {ciphers : CipherState × CipherState}
    (h : (receive_handshake P server_keys prologue secret stream).res = .ok (ciphers, rest)) :
    ∃ f k k', read_from stream = .ok (f, rest) ∧ ciphers = (CipherState.new k, CipherState.new k') := by
  obtain ⟨⟨f, rest'⟩, hr, h⟩ := Act.bind_res_ok.1 h
  obtain ⟨ciphers', hres, h⟩ := Act.bind_res_ok.1 h
  cases h
  obtain ⟨k, k', rfl⟩ := accept_handshake_ok hres
  exact ⟨f, k, k', hr, rfl⟩

end TunnelServer

/-! ## The loop -/

namespace ServerSession

variable {s : ServerSession} {n : ℕ} {fs : List WireFrame} {stream : Bytes}

theorem reply_in_range (s : ServerSession) (t : MessageType) (pt aad : Bytes) :
    (s.reply P t pt aad).Stops InRange := by
  unfold reply
  exact (Exec.encrypt_in_range _ _ _).bind fun _ _ => (Act.stops_ok _ _).bind fun _ _ =>
    (Act.stops_ok _ _).bind fun _ _ => Act.stops_ok _ _

theorem Synced.receive_in_range (h : Synced s n) (hn : n + 1 < 2 ^ 64) (f : WireFrame) (aad : Bytes) :
    (s.receive P f aad).Stops InRange := by
  have hnonce : s.rx_cipher.nonce.toNat + 1 < 2 ^ 64 := by
    rw [h.nonce]
    exact hn
  unfold receive
  exact (Exec.validate_and_record_in_range h.tracks hn _).bind fun _ _ => (Exec.decrypt_in_range hnonce _ _ _).bind
    fun _ _ => (Act.stops_ok _ _).bind fun _ _ => Act.stops_ok _ _

theorem Synced.turn_in_range (h : Synced s n) (hn : n + 1 < 2 ^ 64) (f : WireFrame) :
    (s.transport_frame P f).Stops InRange := by
  rcases s.transport_frame_cases P f with ⟨-, hr⟩ | ⟨-, hr⟩ | ⟨aad, hc, -⟩
  · rw [hr]
    exact Act.stops_ok _ _
  · rw [hr]
    exact Act.stops_ok _ _
  · have hcounted : Synced (s.counted f) n := ⟨h.nonce, h.tracks⟩
    rw [transport_frame_carries P s hc]
    exact (hcounted.receive_in_range hn f aad).bind fun ⟨pt, s'⟩ _ =>
      (s'.reply_in_range _ _ _).bind fun _ _ => Act.stops_ok _ _

/-- By induction on the frames: the counter has at most counted them. -/
theorem Synced.feed_in_range (h : Synced s n) (hn : n + fs.length < 2 ^ 64) :
    (NoiseTunnel.feed (transport_frame P) s fs).Stops InRange := by
  induction fs generalizing s n with
  | nil => exact Act.stops_ok _ _
  | cons f fs ih =>
    rw [List.length_cons] at hn
    unfold NoiseTunnel.feed
    refine (h.turn_in_range (by omega) f).bind fun c hc => ?_
    cases c with
    | done s' => exact Act.stops_ok _ _
    | cont s' =>
      obtain ⟨m, hm, hsynced⟩ := h.turn (by omega) hc
      exact ih hsynced (by omega)

theorem Synced.transport_loop_in_range (h : Synced s n) (hn : n + (read_all stream).1.length < 2 ^ 64) :
    (s.transport_loop P stream).Stops InRange := by
  rw [transport_loop_eq, loop_eq_feed]
  refine (h.feed_in_range hn).bind fun c _ => ?_
  obtain ⟨e, he⟩ := read_all_err stream
  rw [he]
  cases c <;> exact Act.stops_ok _ _

/-- The frames the loop reads off a stream, each with what its turn does. -/
def turns (self : ServerSession) (P : Primitives) (stream : Bytes) : List (WireFrame × Log) :=
  match _h : read_from stream with
  | .error _ => []
  | .ok (frame, stream) =>
    (frame, (self.transport_frame P frame).log) ::
      match (self.transport_frame P frame).res with
      | .ok (.cont self) => turns self P stream
      | _ => []
termination_by stream.length
decreasing_by
  obtain ⟨-, rfl⟩ := read_from_eq_ok.1 _h
  simp

theorem transport_frame_replies (s : ServerSession) (f : WireFrame) : (frames (s.transport_frame P f).log).length ≤ 1 := by
  rcases s.transport_frame_cases P f with
    ⟨-, hr⟩ | ⟨-, hr⟩ | ⟨aad, -, ⟨e, hr⟩ | ⟨pt, filter', rx', -, -, ⟨e, hr⟩ | ⟨ct, tx', -, hr⟩⟩⟩ <;>
  · rw [hr]
    simp [frames, openedLog, sealedLog]

theorem turns_error {e : Stop Error} (h : read_from stream = .error e) : s.turns P stream = [] := by
  unfold turns
  split
  · rfl
  · rename_i h'
    rw [h] at h'
    cases h'

theorem turns_ok {f : WireFrame} {rest : Bytes} (h : read_from stream = .ok (f, rest)) :
    s.turns P stream = (f, (s.transport_frame P f).log) ::
      match (s.transport_frame P f).res with
      | .ok (.cont s') => s'.turns P rest
      | _ => [] := by
  rw [turns]
  split
  · rename_i h'
    rw [h] at h'
    cases h'
  · rename_i h'
    rw [h] at h'
    cases h'
    rfl

/-- By induction on what is left of the stream: the turns are the loop's, and
their frames are the bytes it has read. -/
theorem turns_spec (P : Primitives) (s : ServerSession) (stream : Bytes) :
    (s.transport_loop P stream).log = (s.turns P stream).flatMap Prod.snd ∧
    ((s.turns P stream).map Prod.fst).flatMap serialize <+: stream ∧
    ∀ t ∈ s.turns P stream, (frames t.2).length ≤ 1 := by
  induction h : stream.length using Nat.strongRecOn generalizing s stream with
  | _ n ih =>
    rw [transport_loop_eq]
    unfold loop
    cases hr : read_from stream with
    | error e =>
      rw [turns_error hr]
      refine ⟨?_, List.nil_prefix, fun t ht => absurd ht List.not_mem_nil⟩
      cases e <;> rfl
    | ok y =>
      obtain ⟨f, rest⟩ := y
      have hlt : rest.length < n := h ▸ read_from_length_lt hr
      have hone := s.transport_frame_replies (P := P) f
      obtain ⟨-, rfl⟩ := read_from_eq_ok.1 hr
      rw [turns_ok hr]
      dsimp only
      cases hres : (s.transport_frame P f).res with
      | error e =>
        rw [Act.bind_of_error hres]
        refine ⟨by simp, by simp, ?_⟩
        simpa using hone
      | ok c =>
        rw [Act.bind_of_ok hres]
        cases c with
        | done s' =>
          refine ⟨by simp, by simp, ?_⟩
          simpa using hone
        | cont s' =>
          obtain ⟨hlog, hprefix, hreplies⟩ := ih rest.length hlt s' rest rfl
          dsimp only
          rw [← transport_loop_eq, hlog]
          refine ⟨by simp, ?_, ?_⟩
          · rw [List.map_cons, List.flatMap_cons]
            exact (List.prefix_append_right_inj _).2 hprefix
          · exact List.forall_mem_cons.2 ⟨hone, hreplies⟩

end ServerSession

theorem TunnelServer.handle_client_in_range (server_keys : KeyPair) (prologue : Bytes) (secret : Key) {stream : Bytes}
    (hn : (read_all stream).1.length < 2 ^ 64) :
    (handle_client_with_prologue P server_keys prologue secret stream).Stops InRange := by
  unfold handle_client_with_prologue
  refine (receive_handshake_in_range server_keys prologue secret stream).bind fun ⟨ciphers, rest⟩ hc => ?_
  obtain ⟨f, k, k', hr, rfl⟩ := receive_handshake_ok hc
  rw [read_all_ok hr, List.length_cons] at hn
  exact (ServerSession.synced_start k k').transport_loop_in_range (by omega)

/-- No bytes of a peer make a reader, a handshake or the server's loop panic
or fail a conversion. The loop reads one frame for every 13 bytes at most, and
answers none twice. Over fewer than 2^62 bytes its statistics stay below 2^64. -/
theorem hostile_input (P : Primitives) :
    (∀ stream, Rust.Stops InRange (read_from stream)) ∧
    (∀ (client : TunnelClient) secret stream, (client.perform_handshake P secret stream).Stops InRange) ∧
    (∀ server_keys prologue secret stream,
      (TunnelServer.receive_handshake P server_keys prologue secret stream).Stops InRange ∧
      ((read_all stream).1.length < 2 ^ 64 →
        (TunnelServer.handle_client_with_prologue P server_keys prologue secret stream).Stops InRange)) ∧
    ∀ (session : ServerSession) stream,
      (session.transport_loop P stream).log = (session.turns P stream).flatMap Prod.snd ∧
      ((session.turns P stream).map Prod.fst).flatMap serialize <+: stream ∧
      13 * (session.turns P stream).length ≤ stream.length ∧
      (∀ t ∈ session.turns P stream, (frames t.2).length ≤ 1) ∧
      (P.Correct → stream.length < 2 ^ 62 →
        wire_bytes (frames (session.transport_loop P stream).log) + wire_bytes (read_all stream).1 < 2 ^ 64) := by
  refine ⟨read_from_in_range, fun client => client.perform_handshake_in_range, fun keys prologue secret stream =>
    ⟨TunnelServer.receive_handshake_in_range keys prologue secret stream, fun hn =>
      TunnelServer.handle_client_in_range keys prologue secret hn⟩, fun session stream => ?_⟩
  obtain ⟨hlog, hprefix, hreplies⟩ := session.turns_spec P stream
  have hlen := (flatMap_serialize_length _).trans hprefix.length_le
  rw [List.length_map] at hlen
  exact ⟨hlog, hprefix, hlen, hreplies, fun hP => session.loop_bytes hP⟩

/-- A handshake that is too short, and a byte that is no frame. -/
theorem hostile_input_short :
    let stream := WireFrame.serialize ⟨.HandshakeInit, 0, List.replicate 10 0x42⟩ ++ [0]
    let x := TunnelServer.handle_client_with_prologue (Concrete.primitives true) (Concrete.relay PROTOCOL_NAME).server_keys
      PROTOCOL_NAME (Concrete.key 31) stream
    x.res = .error (.err .init_size) ∧ x.Stops InRange := by
  intro stream x
  have hread := wire_bytes_read_all stream
  have hframes := length_le_wire_bytes (read_all stream).1
  have hstream : stream.length = 24 := rfl
  have hlen : (read_all stream).1.length < 2 ^ 64 := by omega
  have hserver := (hostile_input (Concrete.primitives true)).2.2.1 (Concrete.relay PROTOCOL_NAME).server_keys
    PROTOCOL_NAME (Concrete.key 31) stream
  exact ⟨rfl, hserver.2 hlen⟩

end NoiseTunnel
