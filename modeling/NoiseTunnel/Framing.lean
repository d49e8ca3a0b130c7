import NoiseTunnel.Codec
/-!
# Frames on a stream

Frames that are written one after another are read one after another, as far
as the stream goes. Only a frame of 4 GiB is read as a different one: its
length does not fit the length field.
-/
open Rust

namespace NoiseTunnel.WireFrame

/-- `serialize_into`, one frame after another. -/
def serialize_all_into (fs : List WireFrame) (buffer : Bytes) : Bytes :=
  fs.foldl (fun buffer f => f.serialize_into buffer) buffer

/-- The frames `read_from` gets off a stream, and the error it then gets. -/
def read_all (stream : Bytes) : List WireFrame × Stop Error :=
  match _h : read_from stream with
  | .ok (f, rest) => (f :: (read_all rest).1, (read_all rest).2)
  | .error e => ([], e)
termination_by stream.length
decreasing_by
  all_goals
    obtain ⟨-, rfl⟩ := read_from_eq_ok.1 _h
    simp

variable {f : WireFrame} {fs : List WireFrame} {s rest : Bytes}

theorem serialize_into_append (f : WireFrame) (buffer : Bytes) : f.serialize_into buffer = buffer ++ f.serialize := by
  rw [serialize_into_eq, serialize_eq]

theorem serialize_all_into_eq (fs : List WireFrame) (buffer : Bytes) :
    serialize_all_into fs buffer = buffer ++ fs.flatMap serialize := by
  induction fs generalizing buffer with
  | nil => exact (List.append_nil buffer).symm
  | cons f fs ih =>
    show serialize_all_into fs (f.serialize_into buffer) = _
    rw [ih, serialize_into_append, List.append_assoc, List.flatMap_cons]

theorem flatMap_serialize_length (fs : List WireFrame) : 13 * fs.length ≤ (fs.flatMap serialize).length := by
  induction fs with
  | nil => exact Nat.le_refl _
  | cons f fs ih =>
    rw [List.flatMap_cons, List.length_append, List.length_cons, serialize_length]
    omega

theorem read_all_ok (h : read_from s = .ok (f, rest)) : read_all s = (f :: (read_all rest).1, (read_all rest).2) := by
  rw [read_all]
  split
  · rename_i h'
    rw [h] at h'
    cases h'
    rfl
  · rename_i h'
    rw [h] at h'
    cases h'

theorem read_all_error {e : Stop Error} (h : read_from s = .error e) : read_all s = ([], e) := by
  rw [read_all]
  split
  · rename_i h'
    rw [h] at h'
    cases h'
  · rename_i h'
    rw [h] at h'
    cases h'
    rfl

/-- Reading stops with an error, never with a panic. -/
theorem read_all_err (s : Bytes) : ∃ e, (read_all s).2 = .err e := by
  induction h : s.length using Nat.strongRecOn generalizing s with
  | _ n ih =>
    cases hr : read_from s with
    | ok y => exact read_all_ok hr ▸ ih _ (h ▸ read_from_length_lt hr) y.2 rfl
    | error e =>
      rw [read_all_error hr]
      cases e with
      | err e => exact ⟨e, rfl⟩
      | panic p => exact absurd hr (safe_read_from s p)

/-! ## Cut streams -/

/-- A part of a frame is read as the end of the stream. -/
theorem read_from_cut (hf : is_valid_payload_size f.payload.length) {n : Nat} (hn : n < f.serialize.length) :
    read_from (f.serialize.take n) = .error (.err .eof) := by
  have hwhole : read_from (f.serialize.take n ++ f.serialize.drop n) = .ok (f, []) := by
    rw [List.take_append_drop]
    exact read_from_eq_ok.2 ⟨hf, (List.append_nil _).symm⟩
  cases h : read_from (f.serialize.take n) with
  | ok y =>
    -- the whole frame would then be read with something left over
    obtain ⟨g, rest⟩ := y
    obtain ⟨hg, hcut⟩ := read_from_eq_ok.1 h
    have hread : read_from (f.serialize.take n ++ f.serialize.drop n) = .ok (g, rest ++ f.serialize.drop n) :=
      read_from_eq_ok.2 ⟨hg, by rw [hcut, List.append_assoc]⟩
    rw [hwhole] at hread
    have hdrop : f.serialize.drop n = [] := (List.append_eq_nil_iff.1 (Prod.mk.inj (Except.ok.inj hread)).2.symm).2
    exact absurd (List.drop_eq_nil_iff.1 hdrop) (Nat.not_le.2 hn)
  | error e =>
    by_cases he : e = .err .eof
    · rw [he]
    · rw [read_from_error_append h he] at hwhole
      cases hwhole

/-- Of a cut stream the frames before the cut are read, and then its end. -/
theorem read_all_cut (h : ∀ f ∈ fs, is_valid_payload_size f.payload.length) (n : Nat) :
    ∃ k, read_all ((fs.flatMap serialize).take n) = (fs.take k, .err .eof) ∧ k ≤ fs.length ∧
      ((fs.take k).flatMap serialize).length ≤ n ∧
      ∀ j, k < j → j ≤ fs.length → n < ((fs.take j).flatMap serialize).length := by
  induction fs generalizing n with
  | nil =>
    refine ⟨0, ?_, Nat.le_refl _, Nat.zero_le _, fun j hj hle => absurd hj (Nat.not_lt.2 hle)⟩
    rw [List.flatMap_nil, List.take_nil]
    exact read_all_error rfl
  | cons f fs ih =>
    obtain ⟨hf, hfs⟩ := List.forall_mem_cons.1 h
    rw [List.flatMap_cons]
    by_cases hn : f.serialize.length ≤ n
    · obtain ⟨k, hr, hk, hin, hout⟩ := ih hfs (n - f.serialize.length)
      have hread : read_from ((f.serialize ++ fs.flatMap serialize).take n) =
          .ok (f, (fs.flatMap serialize).take (n - f.serialize.length)) := by
        rw [List.take_append, List.take_of_length_le hn]
        exact read_from_eq_ok.2 ⟨hf, rfl⟩
      refine ⟨k + 1, by rw [read_all_ok hread, hr]; rfl, Nat.succ_le_succ hk, ?_, fun j hj hle => ?_⟩
      · rw [List.take_succ_cons, List.flatMap_cons, List.length_append]
        omega
      · obtain ⟨j, rfl⟩ : ∃ j', j = j' + 1 := ⟨j - 1, by omega⟩
        have := hout j (by omega) (Nat.le_of_succ_le_succ hle)
        rw [List.take_succ_cons, List.flatMap_cons, List.length_append]
        omega
    · have hread : read_from ((f.serialize ++ fs.flatMap serialize).take n) = .error (.err .eof) := by
        rw [List.take_append_of_le_length (by omega)]
        exact read_from_cut hf (Nat.not_le.1 hn)
      refine ⟨0, read_all_error hread, Nat.zero_le _, Nat.zero_le _, fun j hj _ => ?_⟩
      obtain ⟨j, rfl⟩ : ∃ j', j = j' + 1 := ⟨j - 1, by omega⟩
      rw [List.take_succ_cons, List.flatMap_cons, List.length_append]
      omega

/-- Legal frames are read as they were written. -/
theorem read_all_whole (h : ∀ f ∈ fs, is_valid_payload_size f.payload.length) :
    read_all (fs.flatMap serialize) = (fs, .err .eof) := by
  obtain ⟨k, hr, hk, -, hout⟩ := read_all_cut h (fs.flatMap serialize).length
  rw [List.take_of_length_le (Nat.le_refl _)] at hr
  -- a shorter list would end before the stream does
  have hall : k = fs.length := by
    by_contra hne
    have := hout fs.length (by omega) (Nat.le_refl _)
    rw [List.take_of_length_le (Nat.le_refl _)] at this
    exact Nat.lt_irrefl _ this
  rw [hr, hall, List.take_of_length_le (Nat.le_refl _)]

/-- Legal frames, written one after another and cut anywhere: exactly those
that lie whole before the cut are read, in order, and then the stream ends. -/
theorem stream_framing (fs : List WireFrame) (h : ∀ f ∈ fs, is_valid_payload_size f.payload_len) :
    (∀ n, ∃ k, read_all ((serialize_all_into fs []).take n) = (fs.take k, .err .eof) ∧ k ≤ fs.length ∧
      (serialize_all_into (fs.take k) []).length ≤ n ∧
      ∀ j, k < j → j ≤ fs.length → n < (serialize_all_into (fs.take j) []).length) ∧
    read_all (serialize_all_into fs []) = (fs, .err .eof) ∧
    (∀ f buffer, serialize_into f buffer = buffer ++ f.serialize) ∧
    (∀ buffer, serialize_all_into fs buffer = buffer ++ serialize_all_into fs []) ∧
    ∀ f ∈ fs, ∀ n, n < f.serialize.length → ∀ g rest, read_from (f.serialize.take n) ≠ .ok (g, rest) := by
  simp only [serialize_all_into_eq, List.nil_append]
  refine ⟨read_all_cut h, read_all_whole h, serialize_into_append, fun _ => trivial, fun f hf n hn g rest hr => ?_⟩
  rw [read_from_cut (h f hf) hn] at hr
  cases hr

/-- Two frames, cut inside the second. -/
theorem stream_framing_cut :
    read_all ((serialize_all_into [⟨.Heartbeat, 0, [1, 2]⟩, ⟨.DataPayload, 1, [3]⟩] []).take 20) =
      ([⟨.Heartbeat, 0, [1, 2]⟩], .err .eof) := by
  obtain ⟨k, hr, hk, hin, hout⟩ := (stream_framing [⟨.Heartbeat, 0, [1, 2]⟩, ⟨.DataPayload, 1, [3]⟩] (by decide)).1 20
  obtain rfl : k = 1 := by
    rcases Nat.lt_trichotomy k 1 with hlt | heq | hgt
    · exact absurd (hout 1 hlt (by decide)) (by decide)
    · exact heq
    · obtain rfl : k = 2 := Nat.le_antisymm hk hgt
      exact absurd hin (by decide)
  exact hr

/-! ## Frames of any size -/

/-- What the length field says of the bytes behind it. -/
def frame_len_field (f : WireFrame) : Nat :=
  (u32_from_be_bytes ⟨f.serialize.take 4, by rw [List.length_take, serialize_length]; omega⟩).toNat

theorem frame_len_field_eq (f : WireFrame) : f.frame_len_field = (9 + f.payload.length) % 2 ^ 32 := by
  rw [← length_field_toNat]
  have htake : f.serialize.take 4 = u32_to_be_bytes (UInt32.ofNat (9 + f.payload.length)) := by
    rw [serialize_eq, List.append_assoc]
    exact List.take_left' (u32_to_be_bytes_length _)
  simp only [frame_len_field, htake]

/-- Exactly the frames whose length field does not wrap around to a legal
length are never read as another frame: they are read as they are or refused,
and their length field is right or they are refused. -/
theorem never_different_iff (f : WireFrame) :
    ((∀ z g rest, read_from (f.serialize ++ z) = .ok (g, rest) → g = f ∧ rest = z) ↔ ¬f.Wraps) ∧
    ((f.frame_len_field = f.serialize.length - 4 ∨ ∀ z, ∃ e, read_from (f.serialize ++ z) = .error (.err e)) ↔
      ¬f.Wraps) := by
  by_cases hw : f.Wraps
  · obtain ⟨g, rest, hr, -, -, hlt⟩ := read_from_wrapped hw []
    refine ⟨iff_of_false (fun h => ?_) (not_not.2 hw), iff_of_false ?_ (not_not.2 hw)⟩
    · obtain ⟨rfl, -⟩ := h [] g rest hr
      exact Nat.lt_irrefl _ hlt
    · rintro (hlen | hrefused)
      · rw [frame_len_field_eq, serialize_length, payload_len] at hlen
        have := hw.1
        omega
      · obtain ⟨e, he⟩ := hrefused []
        rw [hr] at he
        cases he
  · refine ⟨iff_of_true (fun z g rest hr => ?_) hw, iff_of_true ?_ hw⟩
    · by_cases hf : is_valid_payload_size f.payload.length
      · rw [read_from_eq_ok.2 ⟨hf, rfl⟩] at hr
        cases hr
        exact ⟨rfl, rfl⟩
      · obtain ⟨e, he, -⟩ := read_from_refused hf hw z
        rw [he] at hr
        cases hr
    · by_cases hf : is_valid_payload_size f.payload.length
      · left
        rw [is_valid_payload_size_iff, MAX_FRAME_SIZE] at hf
        rw [frame_len_field_eq, serialize_length, payload_len]
        omega
      · exact .inr fun z => (read_from_refused hf hw z).imp fun _ he => he.1

/-- A payload of 2^32 bytes: the length field says 9, and an empty frame is read. -/
theorem length_wraps :
    let f : WireFrame := ⟨.DataPayload, 0, List.replicate (2 ^ 32) 0⟩
    f.frame_len_field = 9 ∧ ∃ g rest, read_from f.serialize = .ok (g, rest) ∧ g ≠ f := by
  intro f
  have hlen : f.payload.length = 2 ^ 32 := List.length_replicate
  have hw : f.Wraps := by
    rw [Wraps, hlen, MAX_FRAME_SIZE]
    omega
  obtain ⟨g, rest, hr, -, -, hlt⟩ := read_from_wrapped hw []
  rw [List.append_nil] at hr
  have hmod : (9 + 2 ^ 32) % 2 ^ 32 = 9 := by omega
  refine ⟨by rw [frame_len_field_eq, hlen, hmod], g, rest, hr, ?_⟩
  rintro rfl
  exact Nat.lt_irrefl _ hlt

end NoiseTunnel.WireFrame
