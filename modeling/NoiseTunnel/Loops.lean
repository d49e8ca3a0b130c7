import NoiseTunnel.Nonces
import NoiseTunnel.Traffic
/-!
# What the server makes of a stream

A connection that is cut has been served up to the cut. Handshake frames after
the handshake are counted and otherwise ignored. The statistics of a session
are its traffic after the handshake, up to the first `Close`.
-/
open Rust Reactive

namespace NoiseTunnel

open WireFrame

/-! ## Streams that go on -/

namespace WireFrame

variable {s rest : Bytes} {f : WireFrame}

theorem is_close_iff : f.is_close = true ↔ f.msg_type = .Close := decide_eq_true_iff

theorem is_handshake_iff : f.is_handshake = true ↔ f.msg_type = .HandshakeInit ∨ f.msg_type = .HandshakeResp := by
  unfold is_handshake
  cases f.msg_type <;> simp [MessageType.is_handshake]

theorem read_from_append (z : Bytes) (h : read_from s = .ok (f, rest)) : read_from (s ++ z) = .ok (f, rest ++ z) := by
  obtain ⟨hf, rfl⟩ := read_from_eq_ok.1 h
  exact read_from_eq_ok.2 ⟨hf, List.append_assoc _ _ _⟩

/-- When more comes, the frames read so far come first. -/
theorem read_all_append (s z : Bytes) : ∃ fs, (read_all (s ++ z)).1 = (read_all s).1 ++ fs := by
  induction h : s.length using Nat.strongRecOn generalizing s with
  | _ n ih =>
    cases hr : read_from s with
    | ok y =>
      obtain ⟨f, rest⟩ := y
      obtain ⟨fs, he⟩ := ih rest.length (h ▸ read_from_length_lt hr) rest rfl
      exact ⟨fs, by rw [read_all_ok (read_from_append z hr), read_all_ok hr, he]; rfl⟩
    | error e => exact ⟨_, by rw [read_all_error hr]; rfl⟩

theorem read_all_valid (s : Bytes) : ∀ f ∈ (read_all s).1, is_valid_payload_size f.payload.length := by
  induction h : s.length using Nat.strongRecOn generalizing s with
  | _ n ih =>
    cases hr : read_from s with
    | ok y =>
      rw [read_all_ok hr]
      exact List.forall_mem_cons.2 ⟨(read_from_eq_ok.1 hr).1, ih _ (h ▸ read_from_length_lt hr) y.2 rfl⟩
    | error e =>
      rw [read_all_error hr]
      exact List.forall_mem_nil _

end WireFrame

/-- Frames in two parts: the second is fed to what the first has left running. -/
theorem feed_append {σ : Type} {turn : σ → WireFrame → Exec (ControlFlow σ)} (s : σ) (fs gs : List WireFrame) :
    feed turn s (fs ++ gs) = (do
      match ← feed turn s fs with
      | .cont s => feed turn s gs
      | .done s => return .done s) := by
  induction fs generalizing s with
  | nil => rfl
  | cons f fs ih =>
    rw [List.cons_append, feed, feed, Act.bind_assoc]
    congr 1
    funext c
    cases c with
    | cont s' => exact ih s'
    | done s' => rfl

namespace ServerSession

variable {P : Primitives} {s s' : ServerSession} {f : WireFrame} {fs sent received : List WireFrame}
  {c : ControlFlow ServerSession}

/-- A loop on a stream that is cut: it did what it would have done up to the
cut, and ended well if it would not have ended before. -/
theorem loop_append (turn : ServerSession → WireFrame → Exec (ControlFlow ServerSession)) (s : ServerSession)
    (stream z : Bytes) :
    (loop turn s stream).log <+: (loop turn s (stream ++ z)).log ∧
      (loop turn s stream = loop turn s (stream ++ z) ∨ ∃ s', (loop turn s stream).res = .ok s') := by
  obtain ⟨gs, hgs⟩ := read_all_append stream z
  obtain ⟨e, he⟩ := read_all_err stream
  rw [loop_eq_feed, loop_eq_feed, hgs, he, feed_append, Act.bind_assoc]
  cases hr : (feed turn s (read_all stream).1).res with
  | error e =>
    rw [Act.bind_of_error hr, Act.bind_of_error hr]
    exact ⟨List.prefix_rfl, .inl rfl⟩
  | ok c =>
    rw [Act.bind_of_ok hr, Act.bind_of_ok hr]
    cases c with
    | done s' => exact ⟨List.prefix_rfl, .inl rfl⟩
    | cont s' =>
      refine ⟨?_, .inr ⟨s', rfl⟩⟩
      exact (List.append_nil _).symm ▸ List.prefix_append _ _

/-! ## Handshake frames -/

/-- The two sessions differ in their statistics alone. -/
def SameButMetrics (s s' : ServerSession) : Prop := ∃ session_metrics, s' = { s with session_metrics }

/-- Both go on or both end. -/
def SameTurn : ControlFlow ServerSession → ControlFlow ServerSession → Prop
  | .cont s, .cont s' => SameButMetrics s s'
  | .done s, .done s' => SameButMetrics s s'
  | _, _ => False

theorem turn_same_metrics (h : SameButMetrics s s') :
    Act.Rel Eq SameTurn (s.transport_frame P f) (s'.transport_frame P f) := by
  obtain ⟨m, rfl⟩ := h
  have hcarries (aad : Bytes) (ht : Carries f.msg_type aad) :
      Act.Rel Eq SameTurn (s.transport_frame P f) ({ s with session_metrics := m }.transport_frame P f) := by
    rw [transport_frame_carries P s ht, transport_frame_carries P _ ht]
    have hreceive : Act.Rel Eq (fun x y => x.1 = y.1 ∧ SameButMetrics x.2 y.2) ((s.counted f).receive P f aad)
        (({ s with session_metrics := m }.counted f).receive P f aad) := by
      unfold receive
      refine (Act.Rel.refl (R := Eq) (fun _ => rfl) (fun _ => rfl) _).bind fun filter _ _ hfilter => ?_
      subst hfilter
      refine (Act.Rel.refl (R := Eq) (fun _ => rfl) (fun _ => rfl) _).bind fun opened _ _ hopened => ?_
      subst hopened
      exact .ok ⟨rfl, _, rfl⟩
    refine hreceive.bind fun x y _ hxy => ?_
    obtain ⟨pt, s₁⟩ := x
    obtain ⟨pt', s₁'⟩ := y
    obtain ⟨rfl, m', rfl⟩ := hxy
    refine Act.Rel.bind (R := SameButMetrics) ?_ fun _ _ _ hreply => .ok hreply
    unfold reply
    refine (Act.Rel.refl (R := Eq) (fun _ => rfl) (fun _ => rfl) _).bind fun sealed' _ _ hsealed => ?_
    subst hsealed
    exact .ok ⟨_, rfl⟩
  cases hf : f.msg_type with
  | DataPayload => exact hcarries TUNNEL_DATA (hf ▸ .data)
  | Heartbeat => exact hcarries HEARTBEAT (hf ▸ .heartbeat)
  | Close =>
    rw [transport_frame_close P s hf, transport_frame_close P _ hf]
    exact .ok ⟨_, rfl⟩
  | HandshakeInit | HandshakeResp =>
    rw [transport_frame_handshake P s (by simp [hf]), transport_frame_handshake P _ (by simp [hf])]
    exact .ok ⟨_, rfl⟩

/-- By induction on the frames: the statistics are all that a skipped frame leaves behind. -/
theorem feed_skips (h : SameButMetrics s s') :
    Act.Rel Eq SameTurn (feed (transport_frame P) s fs)
      (feed (transport_frame P) s' (fs.filter fun f => !f.is_handshake)) := by
  induction fs generalizing s s' with
  | nil => exact .ok h
  | cons f fs ih =>
    cases hf : f.is_handshake with
    | true =>
      have hskip := transport_frame_handshake P s (is_handshake_iff.1 hf)
      obtain ⟨m, rfl⟩ := h
      rw [List.filter_cons_of_neg (by simp [hf]), feed, hskip, Act.mk_ok_bind, List.nil_append]
      exact ih ⟨m, rfl⟩
    | false =>
      rw [List.filter_cons_of_pos (by simp [hf])]
      apply (turn_same_metrics h).bind
      intro c c' _ hsame
      cases c with
      | cont s₁ =>
        cases c' with
        | cont s₁' => exact ih hsame
        | done s₁' => exact hsame.elim
      | done s₁ =>
        cases c' with
        | cont s₁' => exact hsame.elim
        | done s₁' => exact .ok hsame

theorem loop_skips (P : Primitives) (s : ServerSession) (stream : Bytes) :
    Act.Rel Eq SameButMetrics (s.transport_loop P stream)
      (s.transport_loop P (serialize_all_into ((read_all stream).1.filter fun f => !f.is_handshake) [])) := by
  obtain ⟨e, he⟩ := read_all_err stream
  have hvalid : ∀ f ∈ (read_all stream).1.filter fun f => !f.is_handshake, is_valid_payload_size f.payload.length :=
    fun f hf => read_all_valid stream f (List.mem_filter.1 hf).1
  rw [serialize_all_into_eq, List.nil_append, transport_loop_eq, transport_loop_eq, loop_eq_feed, loop_eq_feed,
    read_all_whole hvalid, he]
  apply (feed_skips ⟨_, rfl⟩).bind
  intro c c' _ hsame
  cases c <;> cases c' <;> first | exact hsame.elim | exact .ok hsame

/-- Whoever puts handshake frames between the frames of a session changes its
statistics and nothing else: not what it does, nor how it ends. Over fewer than
2^62 bytes the statistics do not come to 2^64 bytes, with those frames counted. -/
theorem handshake_frames_skipped (P : Primitives) (s : ServerSession) (stream : Bytes) :
    Act.Rel Eq SameButMetrics (s.transport_loop P stream)
        (s.transport_loop P (serialize_all_into ((read_all stream).1.filter fun f => !f.is_handshake) [])) ∧
      (P.Correct → stream.length < 2 ^ 62 →
        wire_bytes (frames (s.transport_loop P stream).log) + wire_bytes (read_all stream).1 < 2 ^ 64) :=
  ⟨loop_skips P s stream, fun hP => s.loop_bytes hP⟩

/-! ## Statistics -/

open SessionMetrics (tally tally_sent tally_received)

/-- The frames that the loop reads of those that come. -/
def up_to_close : List WireFrame → List WireFrame
  | [] => []
  | f :: fs => if f.is_close then [f] else f :: up_to_close fs

theorem up_to_close_prefix (fs : List WireFrame) : up_to_close fs <+: fs := by
  induction fs with
  | nil => exact List.nil_prefix
  | cons f fs ih =>
    rw [up_to_close]
    split
    · exact ⟨fs, rfl⟩
    · exact (List.prefix_cons_inj f).2 ih

/-- The frames that are answered. -/
def answerable (f : WireFrame) : Bool := !f.is_handshake && !f.is_close

theorem answerable_of {aad : Bytes} (h : Carries f.msg_type aad) : answerable f = true ∧ f.is_close = false := by
  unfold answerable WireFrame.is_handshake WireFrame.is_close
  generalize f.msg_type = t at h
  cases h <;> exact ⟨rfl, rfl⟩

theorem carries_of (hclose : f.is_close = false) (hskip : f.is_handshake = false) : ∃ aad, Carries f.msg_type aad := by
  unfold WireFrame.is_close at hclose
  unfold WireFrame.is_handshake at hskip
  generalize f.msg_type = t at hclose hskip ⊢
  cases t with
  | DataPayload => exact ⟨_, .data⟩
  | Heartbeat => exact ⟨_, .heartbeat⟩
  | Close => cases hclose
  | HandshakeInit | HandshakeResp => cases hskip

/-- What a turn adds to the statistics. -/
theorem turn_tally (hs : s.session_metrics = tally sent received) (hr : (s.transport_frame P f).res = .ok c) :
    c.state.session_metrics = tally (sent ++ frames (s.transport_frame P f).log) (received ++ [f]) ∧
      c.ended = f.is_close ∧
      (frames (s.transport_frame P f).log).map WireFrame.msg_type = ([f].filter answerable).map WireFrame.msg_type := by
  have hcounted : (s.counted f).session_metrics = tally sent (received ++ [f]) := by
    rw [← tally_received, ← hs]
    rfl
  rcases s.transport_frame_cases P f with
    ⟨hf, ht⟩ | ⟨hf, ht⟩ | ⟨aad, haad, ⟨e, ht⟩ | ⟨pt, filter', rx', -, -, ⟨e, ht⟩ | ⟨ct, tx', -, ht⟩⟩⟩
  · rw [ht] at hr ⊢
    cases hr
    have hclose := is_close_iff.2 hf
    exact ⟨by rw [show frames [] = [] from rfl, List.append_nil]; exact hcounted, hclose.symm,
      by simp [answerable, hclose, frames]⟩
  · rw [ht] at hr ⊢
    cases hr
    have hskip := is_handshake_iff.2 hf
    have hclose : f.is_close = false := by
      rcases hf with hf | hf <;> rw [WireFrame.is_close, hf] <;> rfl
    exact ⟨by rw [show frames [] = [] from rfl, List.append_nil]; exact hcounted, hclose.symm,
      by simp [answerable, hskip, frames]⟩
  · rw [ht] at hr
    cases hr
  · rw [ht] at hr
    cases hr
  · obtain ⟨hanswer, hclose⟩ := answerable_of haad
    rw [ht] at hr ⊢
    cases hr
    refine ⟨?_, hclose.symm, by simp [hanswer, frames, openedLog, sealedLog]⟩
    show (s.counted f).session_metrics.record_tx _ = _
    rw [hcounted]
    exact tally_sent _ _ ⟨f.msg_type, s.tx_cipher.nonce, ct⟩

/-- What a run of turns adds. -/
theorem feed_tally (hs : s.session_metrics = tally sent received)
    (hr : (feed (transport_frame P) s fs).res = .ok c) :
    c.state.session_metrics =
        tally (sent ++ frames (feed (transport_frame P) s fs).log) (received ++ up_to_close fs) ∧
      (frames (feed (transport_frame P) s fs).log).map WireFrame.msg_type =
        ((up_to_close fs).filter answerable).map WireFrame.msg_type := by
  induction fs generalizing s sent received with
  | nil =>
    cases hr
    rw [feed, up_to_close, Act.pure_log, show frames [] = [] from rfl, List.append_nil, List.append_nil]
    exact ⟨hs, rfl⟩
  | cons f fs ih =>
    obtain ⟨c₁, ht, hrest⟩ := Act.bind_res_ok.1 hr
    obtain ⟨hm, hend, htypes⟩ := turn_tally hs ht
    rw [feed, Act.bind_of_ok ht, up_to_close, ← hend]
    cases c₁ with
    | done s₁ =>
      cases hrest
      simp only [ControlFlow.ended, if_true, Act.pure_log, List.append_nil]
      exact ⟨hm, htypes⟩
    | cont s₁ =>
      have hs₁ : s₁.session_metrics = tally (sent ++ frames (s.transport_frame P f).log) (received ++ [f]) := hm
      obtain ⟨hm', htypes'⟩ := ih hs₁ hrest
      simp only [ControlFlow.ended, Bool.false_eq_true, if_false, frames_append, List.map_append]
      constructor
      · rw [hm', List.append_assoc, List.append_assoc]
        rfl
      · rw [htypes, htypes', ← List.map_append, ← List.filter_append]
        rfl

end ServerSession

namespace TunnelServer

variable {P : Primitives} {server_keys : KeyPair} {prologue stream rest : Bytes} {secret : Key} {f : WireFrame}

theorem handle_client_read (h : read_from stream = .ok (f, rest)) :
    handle_client_with_prologue P server_keys prologue secret stream =
      (do
        let ciphers ← accept_handshake P server_keys prologue secret f
        (ServerSession.start ciphers).transport_loop P rest) := by
  unfold handle_client_with_prologue receive_handshake
  rw [h]
  simp only [Act.liftM_eq, Act.lift_ok_bind, Act.bind_assoc, Act.pure_then]

theorem handle_client_unread {e : Stop Error} (h : read_from stream = .error e) :
    handle_client_with_prologue P server_keys prologue secret stream = ⟨[], .error e⟩ := by
  unfold handle_client_with_prologue receive_handshake
  rw [h]
  rfl

/-- A connection on which legal frames arrive. -/
theorem handle_client_frames {fs : List WireFrame} (h : ∀ f' ∈ f :: fs, is_valid_payload_size f'.payload.length) :
    handle_client_with_prologue P server_keys prologue secret (serialize_all_into (f :: fs) []) =
      (do
        let ciphers ← accept_handshake P server_keys prologue secret f
        let c ← feed (ServerSession.transport_frame P) (.start ciphers) fs
        ServerSession.finish (.err .eof) c) := by
  obtain ⟨hf, hfs⟩ := List.forall_mem_cons.1 h
  have hr : read_from (serialize_all_into (f :: fs) []) = .ok (f, fs.flatMap serialize) := by
    rw [serialize_all_into_eq, List.nil_append, List.flatMap_cons]
    exact read_from_eq_ok.2 ⟨hf, rfl⟩
  rw [handle_client_read hr]
  congr 1
  funext ciphers
  rw [ServerSession.transport_loop_eq, ServerSession.loop_eq_feed, read_all_whole hfs]

end TunnelServer

/-! ## Whole connections -/

/-- A stream that is cut. -/
theorem handle_client_cut (P : Primitives) (server_keys : KeyPair) (prologue : Bytes) (secret : Key) (stream z : Bytes) :
    let whole := TunnelServer.handle_client_with_prologue P server_keys prologue secret (stream ++ z)
    let cut := TunnelServer.handle_client_with_prologue P server_keys prologue secret stream
    cut.log <+: whole.log ∧ (cut = whole ∨ (∃ s', cut.res = .ok s') ∨ cut = ⟨[], .error (.err .eof)⟩) := by
  intro whole cut
  cases hr : read_from stream with
  | error e =>
    have hcut : cut = ⟨[], .error e⟩ := TunnelServer.handle_client_unread hr
    refine ⟨hcut ▸ List.nil_prefix, ?_⟩
    by_cases he : e = .err .eof
    · exact .inr (.inr (he ▸ hcut))
    · exact .inl (hcut.trans (TunnelServer.handle_client_unread (read_from_error_append hr he)).symm)
  | ok y =>
    obtain ⟨f, rest⟩ := y
    have hcut : cut = _ := TunnelServer.handle_client_read hr
    have hwhole : whole = _ := TunnelServer.handle_client_read (read_from_append z hr)
    cases ha : (TunnelServer.accept_handshake P server_keys prologue secret f).res with
    | error e =>
      rw [Act.bind_of_error ha] at hcut hwhole
      rw [hcut, hwhole]
      exact ⟨List.prefix_rfl, .inl rfl⟩
    | ok ciphers =>
      obtain ⟨hlog, hend⟩ := ServerSession.loop_append (ServerSession.transport_frame P) (.start ciphers) rest z
      rw [← ServerSession.transport_loop_eq, ← ServerSession.transport_loop_eq] at hlog hend
      rw [Act.bind_of_ok ha] at hcut hwhole
      rw [hcut, hwhole]
      refine ⟨(List.prefix_append_right_inj _).2 hlog, ?_⟩
      rcases hend with heq | hok
      · exact .inl (by rw [heq])
      · exact .inr (.inl hok)

/-- A connection that is cut, after any byte that the server has read and any
frame that it has written: the server has done what it would have done up to
the cut. Then it has ended as it would have, or well, or before the handshake
without a trace, or with the error of its next write. -/
theorem served_up_to_cut (P : Primitives) (server_keys : KeyPair) (prologue : Bytes) (secret : Key) (stream z : Bytes)
    (n : ℕ) :
    let whole := TunnelServer.handle_client_with_prologue P server_keys prologue secret (stream ++ z)
    let cut := (TunnelServer.handle_client_with_prologue P server_keys prologue secret stream).broken_after n
    cut.log <+: whole.log ∧
      (cut = whole ∨ (∃ s', cut.res = .ok s') ∨ cut = ⟨[], .error (.err .eof)⟩ ∨
        cut.res = .error (.err .broken_pipe) ∧ (frames cut.log).countP (fun f => !f.is_close) = n + 1) := by
  intro whole cut
  obtain ⟨hlog, hend⟩ := handle_client_cut P server_keys prologue secret stream z
  rcases Exec.broken_after_cases n (TunnelServer.handle_client_with_prologue P server_keys prologue secret stream) with
    hall | ⟨p, hp, hwrites, he⟩
  · rw [show cut = _ from hall]
    refine ⟨hlog, ?_⟩
    rcases hend with hend | hend | hend
    · exact .inl hend
    · exact .inr (.inl hend)
    · exact .inr (.inr (.inl hend))
  · rw [show cut = _ from he]
    exact ⟨hp.trans hlog, .inr (.inr (.inr ⟨rfl, hwrites⟩))⟩

/-- The statistics that a session over fewer than 2^62 bytes ends with are exact
for the frames after the handshake: for the replies it wrote, one of the same
type to each message and heartbeat, and for what it read up to the first `Close`. -/
theorem session_statistics {P : Primitives} (hP : P.Correct) (server_keys : KeyPair) (prologue : Bytes) (secret : Key)
    {stream : Bytes} (hbytes : stream.length < 2 ^ 62) {s : ServerSession}
    (h : (TunnelServer.handle_client_with_prologue P server_keys prologue secret stream).res = .ok s) :
    ∃ init fs resp replies, (read_all stream).1 = init :: fs ∧
      frames (TunnelServer.handle_client_with_prologue P server_keys prologue secret stream).log = resp :: replies ∧
      init.is_handshake ∧ resp.is_handshake ∧
      s.session_metrics.Exact replies (ServerSession.up_to_close fs) ∧
      replies.map WireFrame.msg_type =
        ((ServerSession.up_to_close fs).filter ServerSession.answerable).map WireFrame.msg_type := by
  cases hr : read_from stream with
  | error e =>
    rw [TunnelServer.handle_client_unread hr] at h
    cases h
  | ok y =>
    obtain ⟨f, rest⟩ := y
    rw [TunnelServer.handle_client_read hr] at h ⊢
    obtain ⟨ciphers, ha, hloop⟩ := Act.bind_res_ok.1 h
    obtain ⟨e, he⟩ := read_all_err rest
    rw [ServerSession.transport_loop_eq, ServerSession.loop_eq_feed, he] at hloop
    obtain ⟨c, hfeed, hend⟩ := Act.bind_res_ok.1 hloop
    have hstate : c.state = s := by
      cases c <;>
      · cases hend
        rfl
    have hstart : (ServerSession.start ciphers).session_metrics = SessionMetrics.tally [] [] := rfl
    obtain ⟨hm, htypes⟩ := ServerSession.feed_tally hstart hfeed
    have hrest : rest.length < 2 ^ 62 := (read_from_length_lt hr).trans hbytes
    have hloop_bytes := ServerSession.loop_bytes hP (.start ciphers) hrest
    have hread := wire_bytes_prefix (ServerSession.up_to_close_prefix (read_all rest).1)
    rw [ServerSession.transport_loop_log] at hloop_bytes
    have hexact := SessionMetrics.exact_tally ((Nat.add_le_add_left hread _).trans_lt hloop_bytes)
    rw [List.nil_append, List.nil_append, hstate] at hm
    rw [← hm] at hexact
    rcases accept_handshake_cases P server_keys prologue secret f with
      ⟨H, ki, cti, msg, ct, hf, -, -, -, -, -, -, -, -, hacc⟩ | ⟨e', hacc, -⟩
    · refine ⟨f, (read_all rest).1, respFrame H.view.server_ephemeral ct, _, by rw [read_all_ok hr], ?_,
        by rw [WireFrame.is_handshake, hf]; rfl, rfl, hexact, htypes⟩
      rw [Act.bind_of_ok ha, frames_append, ServerSession.transport_loop_log, hacc]
      simp [frames, acceptLog, derived, respFrame]
    · rw [hacc] at ha
      cases ha

namespace Concrete

/-- A connection on which `fs` arrive. -/
def visit (fs : List WireFrame) : Exec ServerSession :=
  match fs with
  | [] => throw (.err .eof)
  | f :: fs => do
    let ciphers ← TunnelServer.accept_handshake (primitives true) (relay PROTOCOL_NAME).server_keys PROTOCOL_NAME
      (key 31) f
    let c ← feed (ServerSession.transport_frame (primitives true)) (.start ciphers) fs
    ServerSession.finish (.err .eof) c

end Concrete

/-- The frames of a client: its handshake and one message. -/
theorem session_statistics_conversation :
    ∃ s replies fs, (TunnelServer.handle_client_with_prologue (Concrete.primitives true)
        (Concrete.relay PROTOCOL_NAME).server_keys PROTOCOL_NAME (Concrete.key 31)
        (serialize_all_into (frames (proj true Concrete.played)) [])).res = .ok s ∧
      s.session_metrics.Exact replies fs ∧ replies.length = 1 := by
  have hbytes : (serialize_all_into (frames (proj true Concrete.played)) []).length < 2 ^ 62 := by decide +kernel
  have hvalid : ∀ f ∈ frames (proj true Concrete.played), is_valid_payload_size f.payload.length := by decide +kernel
  have hvisit : (Concrete.visit (frames (proj true Concrete.played))).res.isOk = true := by decide +kernel
  have htypes : (frames (proj true Concrete.played)).map WireFrame.msg_type = [.HandshakeInit, .DataPayload] := by
    decide +kernel
  generalize frames (proj true Concrete.played) = fs at hbytes hvalid hvisit htypes ⊢
  match fs with
  | [] => cases htypes
  | f :: fs =>
    cases hr : (Concrete.visit (f :: fs)).res with
    | error e =>
      rw [hr] at hvisit
      cases hvisit
    | ok s =>
      have hok := (congrArg Act.res (TunnelServer.handle_client_frames hvalid)).trans hr
      obtain ⟨init, fs', resp, replies, hread, -, -, -, hm, hreplies⟩ :=
        session_statistics (Concrete.correct true) _ _ _ hbytes hok
      rw [serialize_all_into_eq, List.nil_append, read_all_whole hvalid] at hread
      obtain ⟨rfl, rfl⟩ := List.cons.inj hread
      obtain ⟨g, rfl, hg⟩ := List.map_eq_singleton_iff.1 (List.cons.inj htypes).2
      have hcarries : Carries g.msg_type TUNNEL_DATA := hg ▸ .data
      have hanswer := ServerSession.answerable_of hcarries
      refine ⟨s, replies, _, hok, hm, ?_⟩
      simpa [ServerSession.up_to_close, hanswer] using congrArg List.length hreplies

end NoiseTunnel
