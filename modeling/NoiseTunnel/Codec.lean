import NoiseTunnel.Protocol
/-!
# The codec

Both decoders invert `serialize` on the frames of legal size and accept
nothing else: `from_bytes` on a whole buffer, `read_from` on a stream.
-/
open Rust

namespace NoiseTunnel.WireFrame

/-! ## The bytes of a frame -/

theorem serialize_into_eq (f : WireFrame) (buffer : Bytes) :
    f.serialize_into buffer =
      buffer ++ (u32_to_be_bytes (UInt32.ofNat (9 + f.payload.length)) ++ f.header_bytes.val ++ f.payload) := by
  simp [serialize_into, header_bytes]

theorem serialize_eq (f : WireFrame) :
    f.serialize = u32_to_be_bytes (UInt32.ofNat (9 + f.payload.length)) ++ f.header_bytes.val ++ f.payload := by
  rw [serialize, serialize_into_eq, List.nil_append]

theorem is_valid_payload_size_iff {n : Nat} : is_valid_payload_size n = true ↔ 9 + n ≤ MAX_FRAME_SIZE := by
  rw [is_valid_payload_size, decide_eq_true_iff, max_payload_size, MAX_FRAME_SIZE]
  omega

@[simp] theorem header_bytes_length (f : WireFrame) : f.header_bytes.val.length = 9 := f.header_bytes.property

/-- A written frame takes its payload and 13 bytes. -/
@[simp] theorem serialize_length (f : WireFrame) : f.serialize.length = f.payload_len + 13 := by
  simp only [serialize_eq, payload_len, List.length_append, u32_to_be_bytes_length, header_bytes_length]
  omega

/-- What follows the length field, taken apart as the decoders do. -/
theorem fields_iff {raw : Bytes} {t : MessageType} {n : U8Array 8} {p : Bytes} :
    raw[0]? = some t.as_u8 ∧ 9 ≤ raw.length ∧ (raw.take 9).drop 1 = n.val ∧ raw.drop 9 = p ↔
      raw = (WireFrame.mk t (u64_from_be_bytes n) p).header_bytes.val ++ p := by
  simp only [header_bytes, u64_to_from]
  constructor
  · rintro ⟨h0, h9, hn, rfl⟩
    obtain ⟨x, r, rfl⟩ := List.exists_cons_of_ne_nil (l := raw) (by rintro rfl; simp at h9)
    simp only [List.getElem?_cons_zero, Option.some.injEq] at h0
    simp only [List.take_succ_cons, List.drop_succ_cons, List.drop_zero] at hn
    simp only [List.drop_succ_cons, ← hn, h0, List.cons_append, List.take_append_drop]
  · rintro rfl
    have h8 := n.property
    refine ⟨rfl, by simp [h8], ?_, ?_⟩
    · simp [h8]
    · simp [h8]

theorem mk_u64 (f : WireFrame) : WireFrame.mk f.msg_type (u64_from_be_bytes ⟨u64_to_be_bytes f.nonce, by simp⟩)
    f.payload = f := by
  rw [u64_from_to]

theorem length_field_iff {a : U8Array 4} {n : Nat} (h : n ≤ MAX_FRAME_SIZE) :
    (u32_from_be_bytes a).toNat = n ↔ a.val = u32_to_be_bytes (UInt32.ofNat n) := by
  have hn : n < 2 ^ 32 := by rw [MAX_FRAME_SIZE] at h; omega
  constructor
  · rintro rfl
    rw [UInt32.ofNat_toNat, u32_to_from]
  · intro ha
    have e : a = ⟨u32_to_be_bytes (UInt32.ofNat n), by simp⟩ := Subtype.ext ha
    rw [e, u32_from_to, UInt32.toNat_ofNat_of_lt' hn]

/-! ## Decoding -/

theorem read_exact_eq_ok {n : Nat} {s b rest : Bytes} :
    read_exact n s = .ok (b, rest) ↔ b.length = n ∧ s = b ++ rest := by
  unfold read_exact
  split
  · simp only [Except.ok.injEq, Prod.mk.injEq]
    constructor
    · rintro ⟨rfl, rfl⟩
      simp [*]
    · rintro ⟨rfl, rfl⟩
      simp
  · simp only [reduceCtorEq, false_iff]
    rintro ⟨rfl, rfl⟩
    simp at *

/-- `read_from` takes exactly one legal frame off the stream. -/
theorem read_from_eq_ok {s rest : Bytes} {f : WireFrame} :
    read_from s = .ok (f, rest) ↔ is_valid_payload_size f.payload.length ∧ s = f.serialize ++ rest := by
  unfold read_from
  simp only [bind_eq_ok, throw_eq_error, pure_eq_ok, guard_eq_ok, error_bind, Prod.exists, read_exact_eq_ok,
    try_into_eq_ok, index_eq_ok, MessageType.try_from_eq_ok, slice_eq_ok, slice_from_eq_ok, Except.ok.injEq,
    Prod.mk.injEq, is_valid_payload_size_iff]
  constructor
  · rintro ⟨_, _, ⟨-, rfl⟩, a, rfl, h9, hmax, raw, _, ⟨hraw, rfl⟩, _, h0, t, rfl, _, ⟨⟨-, hlen⟩, hn⟩, n, rfl, p,
      ⟨-, hp⟩, rfl, rfl⟩
    have hr := fields_iff.1 ⟨h0, hlen, hn, hp⟩
    have hl : 9 + p.length = raw.length := by rw [← hp, List.length_drop]; omega
    simp only at hl ⊢
    refine ⟨by omega, ?_⟩
    rw [serialize_eq, ← (length_field_iff (by omega)).1 (hraw.symm.trans hl.symm)]
    simp only [List.append_assoc, hr]
  · rintro ⟨hv, rfl⟩
    let len : U8Array 4 := ⟨u32_to_be_bytes (UInt32.ofNat (9 + f.payload.length)), u32_to_be_bytes_length _⟩
    have hn : (u32_from_be_bytes len).toNat = 9 + f.payload.length := (length_field_iff hv).2 rfl
    obtain ⟨h0, h9, hh, hp⟩ := fields_iff.2 (congrArg (fun g => g.header_bytes.val ++ f.payload) (mk_u64 f).symm)
    refine ⟨len.val, f.header_bytes.val ++ f.payload ++ rest, ⟨len.property, ?_⟩, len, rfl, by omega, by omega,
      f.header_bytes.val ++ f.payload, rest, ⟨?_, rfl⟩, _, h0, _, rfl, _, ⟨⟨by omega, h9⟩, hh⟩, _, rfl, _, ⟨h9, hp⟩,
      mk_u64 f, rfl⟩
    · rw [serialize_eq, List.append_assoc, List.append_assoc, List.append_assoc]
    · rw [List.length_append, header_bytes_length, hn]

theorem read_from_length_lt {s rest : Bytes} {f : WireFrame} (h : read_from s = .ok (f, rest)) :
    rest.length < s.length := by
  obtain ⟨-, rfl⟩ := read_from_eq_ok.1 h
  rw [List.length_append, serialize_length]
  omega

/-- The offsets of `from_bytes` are those of `read_from`, past the length field. -/
theorem offsets (l : U8Array 4) (raw : Bytes) :
    (l.val ++ raw)[4]? = raw[0]? ∧ ((l.val ++ raw).take 4).drop 0 = l.val ∧
      ((l.val ++ raw).take 13).drop 5 = (raw.take 9).drop 1 ∧ (l.val ++ raw).drop 13 = raw.drop 9 := by
  have hl := l.property
  simp [List.getElem?_append_right, List.take_append, List.drop_append, hl, List.take_of_length_le,
    List.drop_eq_nil_of_le]

theorem from_bytes_eq_ok {b : Bytes} {f : WireFrame} :
    from_bytes b = .ok f ↔ is_valid_payload_size f.payload.length ∧ b = f.serialize := by
  unfold from_bytes
  simp only [bind_eq_ok, throw_eq_error, pure_eq_ok, guard_eq_ok, error_bind, try_into_eq_ok, index_eq_ok,
    MessageType.try_from_eq_ok, slice_eq_ok, slice_from_eq_ok, Except.ok.injEq, is_valid_payload_size_iff]
  constructor
  · rintro ⟨h13, _, ⟨-, hl⟩, a, rfl, hlen, -, hmax, _, h0, t, rfl, _, ⟨-, hn⟩, n, rfl, p, ⟨-, hp⟩, rfl⟩
    obtain ⟨raw, rfl⟩ : ∃ raw, b = a.val ++ raw := ⟨b.drop 4, by rw [← hl]; simp⟩
    obtain ⟨e0, -, en, ep⟩ := offsets a raw
    have ha := a.property
    rw [List.length_append] at h13 hlen
    have hr := fields_iff.1 ⟨e0.symm.trans h0, by omega, en.symm.trans hn, ep.symm.trans hp⟩
    have hraw : 9 + p.length = raw.length := by rw [← hp, ep, List.length_drop]; omega
    refine ⟨by simp only; omega, ?_⟩
    rw [serialize_eq, ← (length_field_iff (by simp only; omega)).1 (by simp only; omega : (u32_from_be_bytes a).toNat = _)]
    rw [List.append_assoc, ← hr]
  · rintro ⟨hv, rfl⟩
    let len : U8Array 4 := ⟨u32_to_be_bytes (UInt32.ofNat (9 + f.payload.length)), u32_to_be_bytes_length _⟩
    have hn : (u32_from_be_bytes len).toNat = 9 + f.payload.length := (length_field_iff hv).2 rfl
    obtain ⟨h0, h9, hh, hp⟩ := fields_iff.2 (congrArg (fun g => g.header_bytes.val ++ f.payload) (mk_u64 f).symm)
    obtain ⟨e0, el, en, ep⟩ := offsets len (f.header_bytes.val ++ f.payload)
    have hs : f.serialize = len.val ++ (f.header_bytes.val ++ f.payload) := by rw [serialize_eq, List.append_assoc]
    have hlen := serialize_length f
    rw [payload_len] at hlen
    refine ⟨by omega, len.val, ⟨by omega, by rw [hs, el]⟩, len, rfl, by omega, by omega, by omega,
      _, by rw [hs, e0, h0], _, rfl, _, ⟨by omega, by rw [hs, en, hh]⟩, _, rfl, _, ⟨by omega, by rw [hs, ep, hp]⟩, mk_u64 f⟩

/-- No index, slice or copy was out of range, no counter overflowed, and no
conversion to a fixed size failed. -/
def InRange : Stop Error → Prop
  | .err e => e ≠ .try_from_slice
  | .panic _ => False

theorem in_range_err {e : Error} (h : e ≠ .try_from_slice) : InRange (.err e) := h

theorem try_from_in_range (val : UInt8) : Stops InRange (MessageType.try_from val) := by
  unfold MessageType.try_from
  split_ifs <;> first | exact stops_ok _ | exact stops_error (in_range_err Error.noConfusion)

theorem read_exact_in_range (n : Nat) (s : Bytes) : Stops InRange (read_exact n s) := by
  unfold read_exact
  split
  · exact stops_ok _
  · exact stops_error (in_range_err Error.noConfusion)

/-- Whatever the stream, a reader stops on an error of its own. -/
theorem read_from_in_range (s : Bytes) : Stops InRange (read_from s) := by
  refine (read_exact_in_range 4 s).bind fun ⟨len, s₁⟩ hlen =>
    (stops_try_into (read_exact_eq_ok.1 hlen).1).bind fun a _ => ?_
  dsimp only
  by_cases h9 : (u32_from_be_bytes a).toNat < 9
  · rw [if_pos h9]
    exact stops_error (in_range_err Error.noConfusion)
  by_cases hmax : (u32_from_be_bytes a).toNat > MAX_FRAME_SIZE
  · rw [if_neg h9, if_pos hmax]
    exact stops_error (in_range_err Error.noConfusion)
  rw [if_neg h9, if_neg hmax]
  refine (read_exact_in_range _ s₁).bind fun ⟨raw, s₂⟩ hraw => ?_
  have hlen : 9 ≤ raw.length := by
    have := (read_exact_eq_ok.1 hraw).1
    omega
  dsimp only
  refine (stops_index (by omega)).bind fun x _ => (try_from_in_range x).bind fun t _ => ?_
  refine (stops_slice (by omega)).bind fun n hn => ?_
  have hn8 : n.length = 8 := by
    rw [← (slice_eq_ok.1 hn).2, List.length_drop, List.length_take]
    omega
  exact (stops_try_into hn8).bind fun n' _ => (stops_slice_from hlen).bind fun p _ => stops_ok _

theorem safe_read_from (s : Bytes) : Safe (read_from s) := (read_from_in_range s).safe fun _ h => h

@[simp] theorem read_from_nil : read_from [] = .error (.err .eof) := rfl

/-! ## Streams that go on -/

theorem read_exact_append {n : Nat} {s b rest : Bytes} (z : Bytes) (h : read_exact n s = .ok (b, rest)) :
    read_exact n (s ++ z) = .ok (b, rest ++ z) := by
  obtain ⟨hb, rfl⟩ := read_exact_eq_ok.1 h
  exact read_exact_eq_ok.2 ⟨hb, List.append_assoc _ _ _⟩

theorem read_exact_error {n : Nat} {s : Bytes} {e : Stop Error} (h : read_exact n s = .error e) : e = .err .eof := by
  unfold read_exact at h
  split at h
  · cases h
  · cases h
    rfl

/-- A read that fails for what the bytes are fails also when more of them come. -/
theorem read_from_error_append {s z : Bytes} {e : Stop Error} (h : read_from s = .error e) (he : e ≠ .err .eof) :
    read_from (s ++ z) = .error e := by
  unfold read_from at h ⊢
  cases hlen : read_exact 4 s with
  | error e' =>
    rw [hlen, error_bind] at h
    cases h
    exact absurd (read_exact_error hlen) he
  | ok y =>
    obtain ⟨len, s₁⟩ := y
    rw [hlen] at h
    rw [read_exact_append z hlen]
    simp only [ok_bind] at h ⊢
    cases htry : (try_into 4 Error.try_from_slice len : Result (U8Array 4)) with
    | error e' =>
      rw [htry] at h
      exact h
    | ok a =>
      rw [htry] at h
      by_cases h9 : (u32_from_be_bytes a).toNat < 9
      · simp only [ok_bind, h9, if_true] at h ⊢
        exact h
      by_cases hmax : (u32_from_be_bytes a).toNat > MAX_FRAME_SIZE
      · simp only [ok_bind, h9, hmax, if_true, if_false] at h ⊢
        exact h
      simp only [ok_bind, h9, hmax, if_false, pure_eq_ok] at h ⊢
      cases hraw : read_exact (u32_from_be_bytes a).toNat s₁ with
      | error e' =>
        rw [hraw, error_bind] at h
        cases h
        exact absurd (read_exact_error hraw) he
      | ok y =>
        obtain ⟨raw, s₂⟩ := y
        rw [hraw] at h
        rw [read_exact_append z hraw]
        -- only what is left of the stream differs from here on
        simp only [ok_bind, bind_eq_error, reduceCtorEq] at h ⊢
        exact h

/-! ## Frames that are too large -/

/-- A stream that starts with the length field `len`, too small or too large. -/
theorem read_from_bad_length (len : U8Array 4) {s : Bytes}
    (h : (u32_from_be_bytes len).toNat < 9 ∨ MAX_FRAME_SIZE < (u32_from_be_bytes len).toNat) :
    ∃ e, read_from (len.val ++ s) = .error (.err e) ∧ e ≠ .eof := by
  have hlen : read_exact 4 (len.val ++ s) = .ok (len.val, s) := read_exact_eq_ok.2 ⟨len.property, rfl⟩
  have htry : (try_into 4 Error.try_from_slice len.val : Result (U8Array 4)) = .ok len := try_into_eq_ok.2 rfl
  unfold read_from
  by_cases h9 : (u32_from_be_bytes len).toNat < 9
  · refine ⟨.short_frame (u32_from_be_bytes len).toNat, ?_, Error.noConfusion⟩
    simp only [hlen, htry, ok_bind, h9, if_true, throw_eq_error, error_bind]
  · refine ⟨.oversized_frame (u32_from_be_bytes len).toNat, ?_, Error.noConfusion⟩
    simp only [hlen, htry, ok_bind, h9, if_false, h.resolve_left h9, gt_iff_lt, if_true, throw_eq_error, error_bind,
      pure_eq_ok]

/-- The length field has wrapped around to the length of a legal frame. -/
def Wraps (f : WireFrame) : Prop :=
  2 ^ 32 ≤ 9 + f.payload.length ∧ 9 ≤ (9 + f.payload.length) % 2 ^ 32 ∧
    (9 + f.payload.length) % 2 ^ 32 ≤ MAX_FRAME_SIZE

theorem length_field_toNat (f : WireFrame) :
    (u32_from_be_bytes ⟨u32_to_be_bytes (UInt32.ofNat (9 + f.payload.length)), u32_to_be_bytes_length _⟩).toNat =
      (9 + f.payload.length) % 2 ^ 32 := by
  rw [u32_from_to, UInt32.toNat_ofNat']

/-- Any other frame of illegal size is refused at its length field, whatever follows it. -/
theorem read_from_refused {f : WireFrame} (h : ¬is_valid_payload_size f.payload.length) (hw : ¬f.Wraps) (z : Bytes) :
    ∃ e, read_from (f.serialize ++ z) = .error (.err e) ∧ e ≠ .eof := by
  rw [is_valid_payload_size_iff] at h
  rw [Wraps] at hw
  rw [serialize_eq, List.append_assoc, List.append_assoc]
  refine read_from_bad_length ⟨u32_to_be_bytes (UInt32.ofNat (9 + f.payload.length)), u32_to_be_bytes_length _⟩ ?_
  rw [length_field_toNat]
  rw [MAX_FRAME_SIZE] at h hw ⊢
  omega

/-- A frame whose length field wraps is read as a shorter one of the same type and nonce. -/
theorem read_from_wrapped {f : WireFrame} (hw : f.Wraps) (z : Bytes) :
    ∃ g rest, read_from (f.serialize ++ z) = .ok (g, rest) ∧ g.msg_type = f.msg_type ∧ g.nonce = f.nonce ∧
      g.payload.length < f.payload.length := by
  obtain ⟨hwrap, h9, hmax⟩ := hw
  have hg : (f.payload.take ((9 + f.payload.length) % 2 ^ 32 - 9)).length = (9 + f.payload.length) % 2 ^ 32 - 9 := by
    rw [List.length_take]
    omega
  refine ⟨⟨f.msg_type, f.nonce, f.payload.take ((9 + f.payload.length) % 2 ^ 32 - 9)⟩,
    f.payload.drop ((9 + f.payload.length) % 2 ^ 32 - 9) ++ z, ?_, rfl, rfl, by simp only [hg]; omega⟩
  refine read_from_eq_ok.2 ⟨by rw [is_valid_payload_size_iff, hg]; omega, ?_⟩
  have hfield : UInt32.ofNat (9 + ((9 + f.payload.length) % 2 ^ 32 - 9)) = UInt32.ofNat (9 + f.payload.length) := by
    apply UInt32.toNat_inj.1
    rw [UInt32.toNat_ofNat', UInt32.toNat_ofNat']
    omega
  rw [serialize_eq, serialize_eq, hg, hfield, ← List.append_assoc, List.append_assoc _ _ (List.drop _ _),
    List.take_append_drop]
  rfl

/-- A frame of illegal size is refused, or its length field has wrapped around
and a shorter frame is read. The reader never waits for more. -/
theorem read_from_illegal {f : WireFrame} (h : ¬is_valid_payload_size f.payload.length) :
    (∃ e, read_from f.serialize = .error (.err e) ∧ e ≠ .eof) ∨
    (2 ^ 32 ≤ 9 + f.payload.length ∧ ∃ g rest, read_from f.serialize = .ok (g, rest) ∧ g.msg_type = f.msg_type ∧
      g.nonce = f.nonce ∧ g.payload.length < f.payload.length) := by
  rw [← List.append_nil f.serialize]
  by_cases hw : f.Wraps
  · exact .inr ⟨hw.1, read_from_wrapped hw []⟩
  · exact .inl (read_from_refused h hw [])

/-! ## The two directions -/

theorem serialize_inj {f g : WireFrame} (hf : is_valid_payload_size f.payload.length)
    (hg : is_valid_payload_size g.payload.length) (h : f.serialize = g.serialize) : f = g := by
  have ef := from_bytes_eq_ok.2 ⟨hf, rfl⟩
  rw [h, from_bytes_eq_ok.2 ⟨hg, rfl⟩] at ef
  exact (Except.ok.inj ef).symm

/-- A frame too large for the readers is refused, also where its length field
wraps around. -/
theorem serialize_oversized {f : WireFrame} (hf : ¬is_valid_payload_size f.payload.length) (g : WireFrame) :
    from_bytes f.serialize ≠ .ok g := by
  intro h
  obtain ⟨hg, he⟩ := from_bytes_eq_ok.1 h
  have hl := congrArg List.length he
  rw [serialize_length, serialize_length, payload_len, payload_len] at hl
  rw [Nat.add_right_cancel hl] at hf
  exact hf hg

/-- `from_bytes` takes a buffer as a frame exactly if `read_from` takes all of
it as that frame, and `read_from` a stream exactly if `from_bytes` takes the
bytes that it consumes. -/
theorem decoders_agree :
    (∀ (b : Bytes) (f : WireFrame), from_bytes b = .ok f ↔ read_from b = .ok (f, [])) ∧
    ∀ (stream rest : Bytes) (f : WireFrame), read_from stream = .ok (f, rest) ↔
      ∃ k ≤ stream.length, rest = stream.drop k ∧ from_bytes (stream.take k) = .ok f := by
  constructor
  · intro b f
    rw [from_bytes_eq_ok, read_from_eq_ok, List.append_nil]
  · intro stream rest f
    simp only [from_bytes_eq_ok, read_from_eq_ok]
    constructor
    · rintro ⟨hf, rfl⟩
      exact ⟨f.serialize.length, by simp, (List.drop_left' rfl).symm, hf, List.take_left' rfl⟩
    · rintro ⟨k, -, rfl, hf, hk⟩
      exact ⟨hf, by rw [← hk, List.take_append_drop]⟩

/-- `from_bytes` and `serialize` are inverse on the legal frames, and these
are all that `from_bytes` accepts. -/
theorem codec_inverse :
    (∀ f : WireFrame, f.serialize =
      u32_to_be_bytes (UInt32.ofNat (9 + f.payload_len)) ++ f.header_bytes.val ++ f.payload) ∧
    (∀ (b : Bytes) (f : WireFrame), from_bytes b = .ok f ↔ is_valid_payload_size f.payload_len ∧ b = f.serialize) ∧
    (∀ f : WireFrame, is_valid_payload_size f.payload_len → from_bytes f.serialize = .ok f) ∧
    (∀ (b : Bytes) (f : WireFrame), from_bytes b = .ok f →
      f.serialize = b ∧ ∀ g : WireFrame, is_valid_payload_size g.payload_len → g.serialize = b → g = f) ∧
    (∀ f : WireFrame, ¬is_valid_payload_size f.payload_len → ∀ g, from_bytes f.serialize ≠ .ok g) := by
  refine ⟨serialize_eq, fun _ _ => from_bytes_eq_ok, fun f hf => from_bytes_eq_ok.2 ⟨hf, rfl⟩, fun b f h => ?_,
    fun f => serialize_oversized⟩
  obtain ⟨hf, rfl⟩ := from_bytes_eq_ok.1 h
  exact ⟨rfl, fun g hg e => serialize_inj hg hf e⟩

end NoiseTunnel.WireFrame
