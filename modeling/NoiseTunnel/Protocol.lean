import NoiseTunnel.Error
/-!
# Wire frames

`WireFrame` and its two decoders: `from_bytes` on one whole buffer and
`read_from` on a stream. A stream is the list of the bytes that still arrive
on it before it ends; reading returns what is left of it.
-/
open Rust

namespace NoiseTunnel

/-- 64 KB, against memory exhaustion. -/
def MAX_FRAME_SIZE : Nat := 65536

namespace MessageType

def as_u8 : MessageType → UInt8
  | HandshakeInit => 0x01
  | HandshakeResp => 0x02
  | DataPayload => 0x03
  | Heartbeat => 0x04
  | Close => 0x05

def try_from (val : UInt8) : Result MessageType :=
  if val = 0x01 then .ok HandshakeInit
  else if val = 0x02 then .ok HandshakeResp
  else if val = 0x03 then .ok DataPayload
  else if val = 0x04 then .ok Heartbeat
  else if val = 0x05 then .ok Close
  else .error (.err (.unknown_type val))

def is_handshake (self : MessageType) : Bool :=
  match self with
  | HandshakeInit | HandshakeResp => true
  | _ => false

def is_close (self : MessageType) : Bool := self = Close

theorem try_from_eq_ok {val : UInt8} {t : MessageType} : try_from val = .ok t ↔ val = t.as_u8 := by
  constructor
  · intro h
    unfold try_from at h
    split_ifs at h <;> cases h <;> assumption
  · rintro rfl
    cases t <;> rfl

end MessageType

structure WireFrame where
  msg_type : MessageType
  nonce : UInt64
  payload : Bytes
  deriving DecidableEq, Repr

namespace WireFrame

def heartbeat (nonce : UInt64) (payload : Bytes) : WireFrame := ⟨.Heartbeat, nonce, payload⟩

def close (nonce : UInt64) : WireFrame := ⟨.Close, nonce, []⟩

def is_handshake (self : WireFrame) : Bool := self.msg_type.is_handshake

def is_close (self : WireFrame) : Bool := self.msg_type.is_close

def payload_len (self : WireFrame) : Nat := self.payload.length

/-- The largest payload, header excluded. -/
def max_payload_size : Nat := MAX_FRAME_SIZE - 9

def is_valid_payload_size (len : Nat) : Bool := len ≤ max_payload_size

/-- Type and nonce. -/
def header_bytes (self : WireFrame) : U8Array 9 :=
  ⟨self.msg_type.as_u8 :: u64_to_be_bytes self.nonce, by simp⟩

/-- Append the frame to `buffer`; the length field is the low 32 bits. -/
def serialize_into (self : WireFrame) (buffer : Bytes) : Bytes :=
  let payload_len := self.payload.length
  let total_frame_len := 1 + 8 + payload_len
  let buffer := buffer ++ u32_to_be_bytes (UInt32.ofNat total_frame_len)
  let buffer := buffer ++ [self.msg_type.as_u8]
  let buffer := buffer ++ u64_to_be_bytes self.nonce
  buffer ++ self.payload

def serialize (self : WireFrame) : Bytes := self.serialize_into []

/-- Decode a buffer that holds one whole frame. -/
def from_bytes (bytes : Bytes) : Result WireFrame := do
  if bytes.length < 13 then
    throw (.err (.short_buffer bytes.length))
  let frame_len := (u32_from_be_bytes (← try_into 4 (.try_from_slice) (← slice bytes 0 4))).toNat
  if frame_len ≠ bytes.length - 4 then
    throw (.err (.length_mismatch frame_len (bytes.length - 4)))
  if frame_len < 9 then
    throw (.err (.short_frame frame_len))
  if frame_len > MAX_FRAME_SIZE then
    throw (.err (.oversized_frame frame_len))
  let msg_type ← MessageType.try_from (← index bytes 4)
  let nonce := u64_from_be_bytes (← try_into 8 (.try_from_slice) (← slice bytes 5 13))
  let payload ← slice_from bytes 13
  return { msg_type, nonce, payload }

/-- `read_exact` into a buffer of `n` bytes. -/
def read_exact (n : Nat) (stream : Bytes) : Result (Bytes × Bytes) :=
  if n ≤ stream.length then .ok (stream.take n, stream.drop n) else .error (.err .eof)

/-- Read one frame off the stream. -/
def read_from (stream : Bytes) : Result (WireFrame × Bytes) := do
  let (len_buf, stream) ← read_exact 4 stream
  let frame_len := (u32_from_be_bytes (← try_into 4 (.try_from_slice) len_buf)).toNat
  if frame_len < 9 then
    throw (.err (.short_frame frame_len))
  if frame_len > MAX_FRAME_SIZE then
    throw (.err (.oversized_frame frame_len))
  let (raw_data, stream) ← read_exact frame_len stream
  let msg_type ← MessageType.try_from (← index raw_data 0)
  let nonce := u64_from_be_bytes (← try_into 8 (.try_from_slice) (← slice raw_data 1 9))
  let payload ← slice_from raw_data 9
  return ({ msg_type, nonce, payload }, stream)

end WireFrame

end NoiseTunnel
