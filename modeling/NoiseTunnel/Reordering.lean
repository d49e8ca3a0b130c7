import NoiseTunnel.Pairing
import NoiseTunnel.Sequence
import NoiseTunnel.Turns
/-!
# Frames out of order

The window of the filter would take frames out of order; the cipher behind it
takes no frame but the next. So of all orders in which a client's frames can
come, the server answers every frame in one only: the order they were sent in.
-/
open Rust

namespace NoiseTunnel

variable {P : Primitives} {c c' : CipherState} {ms : List (MessageType × Bytes)} {fs : List WireFrame}

/-! ## What the server takes in -/

/-- Every one of the frames `fs`, which carry the messages `ms`, was taken in
once and answered once. -/
structure AnswersEach (log : Log) (fs : List WireFrame) (ms : List (MessageType × Bytes)) : Prop where
  taken : ((opens log).map fun o => (o.nonce, o.ct)).Perm (fs.map fun f => (f.nonce, f.payload))
  received : (receivedPairs log).Perm ms
  answers : sentPairs log = (receivedPairs log).map answered

namespace ServerSession

variable {s : ServerSession} {n : Nat}

/-- Whatever frames come, a first part of them is taken in, and its numbers
count on from the server's counter. -/
theorem feed_numbers (hfs : ∀ f ∈ fs, ∃ aad, Carries f.msg_type aad) (hn : s.rx_cipher.nonce.toNat + fs.length < 2 ^ 64) :
    ∃ taken, taken <+: fs ∧ (receivedPairs (feed (transport_frame P) s fs).log).length = taken.length ∧
      ∀ i f, taken[i]? = some f → f.nonce.toNat = s.rx_cipher.nonce.toNat + i := by
  induction fs generalizing s with
  | nil => exact ⟨[], List.prefix_rfl, rfl, fun i f hi => by simp at hi⟩
  | cons f fs ih =>
    obtain ⟨⟨aad, ht⟩, hfs⟩ := List.forall_mem_cons.1 hfs
    rw [List.length_cons] at hn
    rcases takes_in P s ht with ⟨e, hr⟩ | ⟨pt, filter', rx', -, hd, hanswer⟩
    · refine ⟨[], List.nil_prefix, ?_, fun i f hi => by simp at hi⟩
      rw [feed, hr, Act.mk_error_bind]
      rfl
    · obtain ⟨hnonce, -, hadd, -⟩ := CipherState.decrypt_eq_ok.1 hd
      have hnext : rx'.nonce.toNat = s.rx_cipher.nonce.toNat + 1 := by
        rw [add_one_mod hadd, Nat.mod_eq_of_lt (by omega)]
      rcases hanswer with ⟨e, hr⟩ | ⟨ct, tx', -, hr⟩
      · refine ⟨[f], ⟨fs, rfl⟩, ?_, fun i g hi => ?_⟩
        · rw [feed, hr, Act.mk_error_bind]
          rfl
        · cases i with
          | zero =>
            cases hi
            rw [hnonce]
            rfl
          | succ i => simp at hi
      · obtain ⟨taken, hpre, hlen, hnum⟩ :=
          ih (s := ((s.counted f).took rx' filter').sentFrame tx' ⟨f.msg_type, s.tx_cipher.nonce, ct⟩) hfs
            (show rx'.nonce.toNat + fs.length < 2 ^ 64 by omega)
        refine ⟨f :: taken, List.cons_prefix_cons.2 ⟨rfl, hpre⟩, ?_, fun i g hi => ?_⟩
        · rw [feed, hr, Act.mk_ok_bind, receivedPairs_append, List.length_append, hlen, List.length_cons]
          exact Nat.add_comm _ _
        · cases i with
          | zero =>
            cases hi
            rw [hnonce]
            rfl
          | succ i =>
            rw [hnum i g hi]
            show rx'.nonce.toNat + i = _
            omega

/-- In the order they were sent, all frames are taken in and answered. -/
theorem feed_in_order (hP : P.Correct) (h : Encrypts P c ms fs c')
    (hvalid : ∀ f ∈ fs, WireFrame.is_valid_payload_size f.payload_len) (hs : Ready s n) (hc : s.rx_cipher = c) :
    ((opens (feed (transport_frame P) s fs).log).map fun o => (o.nonce, o.ct)) =
        fs.map (fun f => (f.nonce, f.payload)) ∧
      receivedPairs (feed (transport_frame P) s fs).log = ms ∧
      sentPairs (feed (transport_frame P) s fs).log = ms.map answered := by
  induction h generalizing s n with
  | nil c => exact ⟨rfl, rfl, rfl⟩
  | @cons c c₁ _ t pt aad ct ms fs ht he hrest ih =>
    obtain ⟨hhead, htail⟩ := List.forall_mem_cons.1 hvalid
    subst hc
    obtain ⟨ct', s', hturn, hs', hrx, -⟩ := hs.answers hP he ht hhead
    obtain ⟨hopens, hreceived, hsent⟩ := ih htail hs' hrx
    rw [feed, CipherState.current_nonce, hturn, Act.mk_ok_bind]
    simp only [opens_append, receivedPairs_append, sentPairs_append, List.map_append, hopens, hreceived, hsent]
    exact ⟨rfl, rfl, rfl⟩

end ServerSession

/-- A client's frames, delivered in any order: the server takes in and answers
each exactly if the order is the one they were sent in. -/
theorem reordered_answered_iff (hP : P.Correct) (k k' : Key) (h : Encrypts P (CipherState.new k) ms fs c')
    (hvalid : ∀ f ∈ fs, WireFrame.is_valid_payload_size f.payload_len) {delivered : List WireFrame}
    (hd : delivered.Perm fs) :
    AnswersEach ((ServerSession.start (CipherState.new k, CipherState.new k')).transport_loop P
      (delivered.flatMap WireFrame.serialize)).log delivered ms ↔ delivered = fs := by
  have hlog : ((ServerSession.start (CipherState.new k, CipherState.new k')).transport_loop P
      (delivered.flatMap WireFrame.serialize)).log =
      (feed (ServerSession.transport_frame P) (.start (CipherState.new k, CipherState.new k')) delivered).log := by
    rw [ServerSession.transport_loop_log, WireFrame.read_all_whole fun f hf => hvalid f (hd.subset hf)]
  rw [hlog]
  constructor
  · intro ha
    obtain ⟨taken, hpre, hlen, hnum⟩ := ServerSession.feed_numbers (P := P)
      (s := .start (CipherState.new k, CipherState.new k')) (fun f hf => h.carries f (hd.subset hf))
      (hd.length_eq ▸ h.nonce_end ▸ UInt64.toNat_lt _)
    have hall : taken = delivered :=
      hpre.eq_of_length (by rw [← hlen, ha.received.length_eq, hd.length_eq, h.length_eq])
    subst hall
    -- the frame with the number `i` stands at `i` in both lists
    refine List.ext_getElem? fun i => ?_
    cases hi : taken[i]? with
    | none =>
      rw [List.getElem?_eq_none_iff, hd.length_eq] at hi
      exact (List.getElem?_eq_none hi).symm
    | some f =>
      obtain ⟨j, hj⟩ := List.getElem?_of_mem (hd.subset (List.mem_of_getElem? hi))
      have hnonce := (hnum i f hi).symm.trans (h.nonce j f hj)
      obtain rfl : i = j := Nat.add_left_cancel hnonce
      exact hj.symm
  · rintro rfl
    obtain ⟨hopens, hreceived, hsent⟩ := ServerSession.feed_in_order hP h hvalid (ServerSession.ready_start k k') rfl
    exact ⟨hopens ▸ .refl _, hreceived ▸ .refl _, by rw [hsent, hreceived]⟩

namespace Concrete

/-- The second frame of a client, after `question`. -/
def ping : WireFrame where
  msg_type := .Heartbeat
  nonce := 1
  payload := PING ++ tag (key 5) (CipherState.build_nonce 1) PING HEARTBEAT

theorem encrypts_question_ping :
    Encrypts (primitives true) (CipherState.new (key 5)) [(.DataPayload, as_bytes "a"), (.Heartbeat, PING)]
      [question "a", ping] ⟨key 5, 2⟩ :=
  .cons .data (show _ = (CipherState.mk (key 5) 1, _) by decide +kernel)
    (.cons .heartbeat (show _ = (CipherState.mk (key 5) 2, _) by decide +kernel) (.nil _))

end Concrete

theorem reordered_answered_in_order :
    AnswersEach (Concrete.session.transport_loop (Concrete.primitives true)
        ([Concrete.question "a", Concrete.ping].flatMap WireFrame.serialize)).log
      [Concrete.question "a", Concrete.ping] [(.DataPayload, as_bytes "a"), (.Heartbeat, PING)] :=
  (reordered_answered_iff (Concrete.correct true) (Concrete.key 5) (Concrete.key 6) Concrete.encrypts_question_ping
    (by decide +kernel) (.refl _)).2 rfl

/-- Two frames in the wrong order, inside the window: the server takes in neither. -/
theorem reordered_refused :
    Encrypts (Concrete.primitives true) (CipherState.new (Concrete.key 5))
        [(.DataPayload, as_bytes "a"), (.Heartbeat, PING)] [Concrete.question "a", Concrete.ping]
        ⟨Concrete.key 5, 2⟩ ∧
      [Concrete.ping, Concrete.question "a"].Perm [Concrete.question "a", Concrete.ping] ∧
      ¬AnswersEach (Concrete.session.transport_loop (Concrete.primitives true)
        ([Concrete.ping, Concrete.question "a"].flatMap WireFrame.serialize)).log
        [Concrete.ping, Concrete.question "a"] [(.DataPayload, as_bytes "a"), (.Heartbeat, PING)] := by
  refine ⟨Concrete.encrypts_question_ping, .swap _ _ _, fun h => ?_⟩
  have hreceived := h.received
  rw [ServerSession.transport_loop_log, WireFrame.read_all_whole (by decide +kernel)] at hreceived
  have hnone : receivedPairs (feed (ServerSession.transport_frame (Concrete.primitives true)) Concrete.session
      [Concrete.ping, Concrete.question "a"]).log = [] := by
    decide +kernel
  rw [hnone] at hreceived
  exact absurd hreceived.length_eq (by decide)

end NoiseTunnel
