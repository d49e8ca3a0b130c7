import NoiseTunnel.Codec
import NoiseTunnel.Concrete
import NoiseTunnel.Server
/-!
# Which replies can be read

The server answers a message with the message behind a prefix, converted to
valid UTF-8. Only the readers check the size of a frame, so an answer that
grew past the limit is written and then refused.
-/
open Rust

namespace NoiseTunnel

/-- The readers accept every frame that `log` writes. -/
def Readable (log : Log) : Prop :=
  ∀ r ∈ frames log, WireFrame.is_valid_payload_size r.payload_len ∧
    ∀ rest, WireFrame.read_from (r.serialize ++ rest) = .ok (r, rest)

/-- A reader accepts a frame as soon as its size is legal. -/
theorem readable_iff {log : Log} :
    Readable log ↔ ∀ r ∈ frames log, WireFrame.is_valid_payload_size r.payload_len := by
  constructor
  · exact fun h r hr => (h r hr).1
  · exact fun h r hr => ⟨h r hr, fun rest => WireFrame.read_from_eq_ok.2 ⟨h r hr, rfl⟩⟩

/-- The tag still fits. -/
theorem encrypted_valid {P : Primitives} (hP : P.Correct) {k : Key} {n : Nonce} {pt aad ct : Bytes}
    (hlen : pt.length ≤ 65511) (he : P.aead_encrypt k n pt aad = some ct) :
    WireFrame.is_valid_payload_size ct.length := by
  rw [WireFrame.is_valid_payload_size_iff, hP.encrypt_length _ _ _ _ _ he, MAX_FRAME_SIZE, TAG_LEN]
  omega

namespace ServerSession

theorem answerTo_length (t : MessageType) (pt : Bytes) :
    (answerTo t pt).length = if t = .Heartbeat then 4 else 15 + (from_utf8_lossy pt).utf8ByteSize := by
  have hpong : PONG.length = 4 := by decide
  have hprefix : REPLY_PREFIX.utf8ByteSize = 15 := by decide
  cases t <;> simp [answerTo, hpong, hprefix]

/-- No answer is too long to encrypt: it is the reader of the request that keeps it short. -/
theorem answerTo_encryptable {P : Primitives} (hP : P.Correct) {f : WireFrame} {k : Key} {n : Nonce} {aad pt : Bytes}
    (hf : WireFrame.is_valid_payload_size f.payload_len) (hd : P.aead_decrypt k n f.payload aad = some pt) :
    (answerTo f.msg_type pt).length / 64 < 2 ^ 32 - 1 := by
  have hlen := hP.decrypt_length _ _ _ _ _ hd
  have hlossy := from_utf8_lossy_length pt
  rw [WireFrame.is_valid_payload_size_iff, WireFrame.payload_len, hlen, MAX_FRAME_SIZE] at hf
  rw [answerTo_length]
  split <;> omega

/-- The frame of an answer is legal unless the text behind the prefix is too long. -/
theorem answer_valid_iff {P : Primitives} (hP : P.Correct) {t : MessageType} {k : Key} {n : Nonce}
    {aad pt ct : Bytes} (he : P.aead_encrypt k n (answerTo t pt) aad = some ct) :
    WireFrame.is_valid_payload_size ct.length ↔ t = .Heartbeat ∨ (from_utf8_lossy pt).utf8ByteSize ≤ 65496 := by
  rw [WireFrame.is_valid_payload_size_iff, hP.encrypt_length _ _ _ _ _ he, answerTo_length, MAX_FRAME_SIZE, TAG_LEN]
  split
  · simp [*]
  · simp only [*, false_or]
    omega

end ServerSession

theorem frames_answered (c c' : CipherState) (f : WireFrame) (t : MessageType) (pt pt' aad ct : Bytes) :
    frames (openedLog c f aad pt ++ sealedLog c' t pt' aad ct) = [⟨t, c'.nonce, ct⟩] := rfl

open ServerSession in
/-- A frame that the server has read, accepted and decrypted gets an answer
that can be read exactly when it is a heartbeat, its text is at most 65496
bytes after lossy conversion, or the server has no nonce left to answer with. -/
theorem reply_readable_iff {P : Primitives} (hP : P.Correct) (s : ServerSession) {stream rest aad pt : Bytes}
    {f : WireFrame} {filter' : ReplayFilter} {rx' : CipherState} (hread : WireFrame.read_from stream = .ok (f, rest))
    (haad : Carries f.msg_type aad)
    (hv : s.replay_filter.validate_and_record P.overflow_checks f.nonce = .ok (filter', .ok ()))
    (hd : s.rx_cipher.decrypt P f.payload aad f.nonce = .ok (rx', .ok pt)) :
    Readable (s.transport_frame P f).log ↔
      f.msg_type = .Heartbeat ∨ (from_utf8_lossy pt).utf8ByteSize ≤ 65496 ∨ s.tx_cipher.nonce.toNat + 1 = 2 ^ 64 := by
  have hdec := (CipherState.decrypt_eq_ok.1 hd).2.1
  have hvalid := (WireFrame.read_from_eq_ok.1 hread).1
  have hlt := s.tx_cipher.nonce.toNat_lt
  rw [readable_iff]
  rcases transport_frame_taken P s haad hv hd with ⟨ct, tx', he, ht⟩ | ⟨e, ht, hfail⟩
  · -- the answer is written, so there was a nonce left
    obtain ⟨hct, hadd, -⟩ := CipherState.encrypt_eq_ok.1 he
    have hnext := checked_add_one hadd
    have hlt' := tx'.nonce.toNat_lt
    have hnonce : ¬s.tx_cipher.nonce.toNat + 1 = 2 ^ 64 := by omega
    rw [ht, frames_answered, List.forall_mem_singleton]
    have hiff := answer_valid_iff hP hct
    rw [WireFrame.payload_len, hiff, ← or_assoc, or_iff_left hnonce]
  · have hnonce : s.tx_cipher.nonce.toNat + 1 = 2 ^ 64 := by
      have := hfail hP (answerTo_encryptable hP hvalid hdec)
      omega
    rw [ht]
    exact ⟨fun _ => .inr (.inr hnonce), fun _ => List.forall_mem_nil _⟩

namespace Concrete

/-- A server right after the handshake, and the first frame a client sends it. -/
def session : ServerSession := .start (CipherState.new (key 5), CipherState.new (key 6))

def question (text : String) : WireFrame where
  msg_type := .DataPayload
  nonce := 0
  payload := as_bytes text ++ tag (key 5) (CipherState.build_nonce 0) (as_bytes text) TUNNEL_DATA

theorem read_question {text : String} (h : text.utf8ByteSize ≤ 65511) :
    WireFrame.read_from (question text).serialize = .ok (question text, []) := by
  refine WireFrame.read_from_eq_ok.2 ⟨?_, (List.append_nil _).symm⟩
  rw [WireFrame.is_valid_payload_size_iff, question, List.length_append, tag_length, as_bytes_length, MAX_FRAME_SIZE]
  omega

theorem accept_question (text : String) :
    ∃ filter', session.replay_filter.validate_and_record true (question text).nonce = .ok (filter', .ok ()) :=
  ⟨_, rfl⟩

theorem decrypt_question (text : String) :
    session.rx_cipher.decrypt (primitives true) (question text).payload TUNNEL_DATA (question text).nonce =
      .ok (⟨key 5, 1⟩, .ok (as_bytes text)) :=
  CipherState.decrypt_of (aead_decrypt_append _ _ _ _) (CipherState.new_nonce_lt _)

end Concrete

theorem reply_readable_hei :
    Readable (Concrete.session.transport_frame (Concrete.primitives true) (Concrete.question "hei")).log := by
  obtain ⟨filter', hv⟩ := Concrete.accept_question "hei"
  refine (reply_readable_iff (Concrete.correct true) Concrete.session (Concrete.read_question (by decide)) .data hv
    (Concrete.decrypt_question "hei")).2 (.inr (.inl ?_))
  rw [from_utf8_lossy_as_bytes]
  decide

/-- A legal frame of 65497 letters is accepted and decrypted, and its answer is not legal. -/
theorem reply_oversized :
    let f := Concrete.question (String.ofList (List.replicate 65497 'A'))
    WireFrame.read_from f.serialize = .ok (f, []) ∧
      (∃ filter', Concrete.session.replay_filter.validate_and_record true f.nonce = .ok (filter', .ok ())) ∧
      (∃ rx' pt, Concrete.session.rx_cipher.decrypt (Concrete.primitives true) f.payload TUNNEL_DATA f.nonce =
        .ok (rx', .ok pt)) ∧
      ¬Readable (Concrete.session.transport_frame (Concrete.primitives true) f).log := by
  intro f
  have hsize := utf8ByteSize_ofList_replicate 'A' 65497
  have hA : 'A'.utf8Size = 1 := by decide
  obtain ⟨filter', hv⟩ := Concrete.accept_question (String.ofList (List.replicate 65497 'A'))
  have hd := Concrete.decrypt_question (String.ofList (List.replicate 65497 'A'))
  refine ⟨Concrete.read_question (by rw [hsize, hA]; decide), ⟨filter', hv⟩, ⟨_, _, hd⟩, fun hr => ?_⟩
  rcases ServerSession.transport_frame_taken _ Concrete.session .data hv hd with ⟨ct, tx', he, ht⟩ | ⟨e, -, hfail⟩
  · have hvalid := readable_iff.1 hr ⟨_, _, ct⟩ (by rw [ht, frames_answered]; exact List.mem_singleton.2 rfl)
    have hiff := ServerSession.answer_valid_iff (Concrete.correct true) (CipherState.encrypt_eq_ok.1 he).1
    rcases hiff.1 hvalid with hheart | hshort
    · exact MessageType.noConfusion hheart
    · rw [from_utf8_lossy_as_bytes, hsize, hA] at hshort
      exact absurd hshort (by decide)
  · refine hfail (Concrete.correct true) ?_ (CipherState.new_nonce_lt _)
    rw [ServerSession.answerTo_length, from_utf8_lossy_as_bytes, hsize, hA]
    decide

end NoiseTunnel
