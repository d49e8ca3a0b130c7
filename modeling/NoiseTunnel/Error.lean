import NoiseTunnel.Lib.Rust
/-!
# Errors

The errors the program hands up with `?`, and the texts it gives them.
-/
open Rust

namespace NoiseTunnel

/-- The tag byte and meaning of a frame. -/
inductive MessageType where
  | HandshakeInit
  | HandshakeResp
  | DataPayload
  | Heartbeat
  | Close
  deriving DecidableEq, Repr

inductive Error where
  -- standard library
  | eof
  | broken_pipe
  | try_from_slice
  | from_utf8
  -- protocol
  | unknown_type (val : UInt8)
  | short_buffer (len : Nat)
  | length_mismatch (frame_len actual : Nat)
  | short_frame (frame_len : Nat)
  | oversized_frame (frame_len : Nat)
  | replay_too_old (seq window_size : UInt64)
  | replay_seen (seq : UInt64)
  -- crypto
  | aead_encrypt
  | nonce_overflow
  | nonce_order (expected received : UInt64)
  | aead_decrypt
  | expand_client_key
  | expand_server_key
  -- sessions
  | expected_init (msg_type : MessageType)
  | init_size
  | expected_resp (msg_type : MessageType)
  | resp_size
  | bad_ack
  | expected_reply (msg_type : MessageType)
  deriving DecidableEq, Repr

abbrev Result (α : Type) := Except (Stop Error) α

/-- The name `{}` and `{:?}` print. -/
def MessageType.name : MessageType → String
  | .HandshakeInit => "HandshakeInit"
  | .HandshakeResp => "HandshakeResp"
  | .DataPayload => "DataPayload"
  | .Heartbeat => "Heartbeat"
  | .Close => "Close"

def hexDigit (n : Nat) : Char := if n < 10 then Char.ofNat (48 + n) else Char.ofNat (87 + n)

/-- `{:02x}`. -/
def hex02 (x : UInt8) : String := String.ofList [hexDigit (x.toNat / 16), hexDigit (x.toNat % 16)]

/-- The text of an error the program words itself; `none` for the standard
library's own errors. -/
def Error.text : Error → Option String
  | .eof | .broken_pipe | .try_from_slice | .from_utf8 => none
  | .unknown_type val => some ("Ukjent meldingstype mottatt over wire: 0x" ++ hex02 val)
  | .short_buffer len =>
    some ("Mottok for kort buffer for WireFrame: " ++ toString len ++ " bytes (krever minst 13 bytes)")
  | .length_mismatch frame_len actual =>
    some ("Uoverensstemmelse i rammelengde: spesifisert " ++ toString frame_len ++
      ", faktisk bufferlengde " ++ toString actual)
  | .short_frame frame_len => some ("Mottok for kort wire-ramme: " ++ toString frame_len ++ " bytes")
  | .oversized_frame frame_len =>
    some ("Mottok overdimensjonert pakke (" ++ toString frame_len ++ "), avviser for å forhindre DoS")
  | .replay_too_old seq window_size =>
    some ("REPLAY DETECTED! Sekvensnummer " ++ toString seq ++ " er for gammelt (utenfor vinduet på " ++
      toString window_size ++ ")")
  | .replay_seen seq =>
    some ("REPLAY DETECTED! Sekvensnummer " ++ toString seq ++ " har allerede blitt prosessert!")
  | .aead_encrypt => some "Krypteringsfeil (AEAD): Error"
  | .nonce_overflow => some "Nonce overflow! Sesjonen må reforhandles."
  | .nonce_order expected received =>
    some ("Ugyldig nonce rekkefølge! Forventet " ++ toString expected ++ ", mottok " ++ toString received)
  | .aead_decrypt => some "AEAD-dekryptering feilet: Ugyldig MAC-tag eller manipulert pakke!"
  | .expand_client_key => some "HKDF expand for client key feilet: InvalidLength"
  | .expand_server_key => some "HKDF expand for server key feilet: InvalidLength"
  | .expected_init msg_type => some ("Forventet HandshakeInit, mottok " ++ msg_type.name)
  | .init_size => some "Ugyldig HandshakeInit payload-størrelse"
  | .expected_resp msg_type => some ("Forventet HandshakeResp, mottok " ++ msg_type.name)
  | .resp_size => some "Ugyldig HandshakeResp payload-størrelse fra server"
  | .bad_ack => some "Ugyldig bekreftelse fra server under handshake!"
  | .expected_reply msg_type => some ("Forventet kryptert svarmelding, mottok " ++ msg_type.name)

end NoiseTunnel
