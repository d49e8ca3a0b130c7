import NoiseTunnel.Effect
/-!
# The handshake

Both sides of the handshake, each cut where it waits for a frame: what comes
before a read and what comes after it are two functions. The random secret of
an ephemeral key is an argument.
-/
open Rust

namespace NoiseTunnel

def HANDSHAKE_INIT_CLIENT : Bytes := as_bytes "HANDSHAKE_INIT_CLIENT"
def HANDSHAKE_COMPLETE_ACK : Bytes := as_bytes "HANDSHAKE_COMPLETE_ACK"

/-- An ephemeral key and a ciphertext: how both sides take a payload apart. -/
def split_payload (payload : Bytes) : Result (Key × Bytes) := do
  let ephemeral ← copy_from_slice KEY_LEN (← slice_to payload KEY_LEN)
  let ciphertext ← slice_from payload KEY_LEN
  return (ephemeral, ciphertext)

/-! ## Client -/

structure TunnelClient where
  server_pubkey : Key
  target_addr : String
  prologue : Bytes

namespace TunnelClient

def new (server_pubkey : Key) (target_addr : String) : TunnelClient := ⟨server_pubkey, target_addr, PROTOCOL_NAME⟩

def with_prologue (self : TunnelClient) (prologue : Bytes) : TunnelClient := { self with prologue }

variable (P : Primitives)

/-- What the client keeps while it waits for the answer. -/
structure Started where
  client_ephemeral : EphemeralKeyPair P
  dh_static : Key

/-- `perform_handshake`, up to its read. -/
def start_handshake (self : TunnelClient) (secret : Key) : Exec (Started P) := do
  -- 1. the client's ephemeral key e_c
  let client_ephemeral ← Exec.generate P secret
  let client_ephem_pub := client_ephemeral.public_key
  -- 2. DH(e_c, s_s)
  let dh_static := client_ephemeral.diffie_hellman self.server_pubkey
  let h1 ← Exec.hash_handshake_state P self.prologue client_ephem_pub self.server_pubkey none
  let (k_init_c, _) ← Exec.derive_session_keys P dh_static.val h1.val
  let init_cipher := CipherState.new k_init_c
  let (init_ciphertext, _) ← Exec.encrypt P init_cipher HANDSHAKE_INIT_CLIENT h1.val
  let init_payload := client_ephem_pub.val ++ init_ciphertext
  Exec.write_to ⟨.HandshakeInit, 0, init_payload⟩
  return { client_ephemeral, dh_static }

/-- `perform_handshake`, from the frame it reads: the sending and the receiving cipher. -/
def finish_handshake (self : TunnelClient) (started : Started P) (resp_frame : WireFrame) :
    Exec (CipherState × CipherState) := do
  let { client_ephemeral, dh_static } := started
  let client_ephem_pub := client_ephemeral.public_key
  -- 3. the server's answer
  Exec.bail_if (resp_frame.msg_type ≠ .HandshakeResp) (.expected_resp resp_frame.msg_type)
  Exec.bail_if (resp_frame.payload.length < KEY_LEN + 16) .resp_size
  let (server_ephemeral_pub, resp_ciphertext) ← split_payload resp_frame.payload
  -- 4. DH(e_c, e_s)
  let dh_ephem := client_ephemeral.diffie_hellman server_ephemeral_pub
  let h2 ← Exec.hash_handshake_state P self.prologue client_ephem_pub self.server_pubkey (some server_ephemeral_pub)
  let (_, k_resp_s) ← Exec.derive_session_keys P dh_ephem.val h2.val
  let resp_cipher := CipherState.new k_resp_s
  let (resp_ack, _) ← Exec.decrypt P resp_cipher resp_ciphertext h2.val 0
  Exec.bail_if (resp_ack ≠ HANDSHAKE_COMPLETE_ACK) .bad_ack
  -- 5. the transport keys
  let combined_secret := dh_static.val ++ dh_ephem.val
  let (client_write_key, server_write_key) ← Exec.derive_session_keys P combined_secret h2.val
  return (CipherState.new client_write_key, CipherState.new server_write_key)

/-- The whole handshake on a stream; the rest of the stream is returned. -/
def perform_handshake (self : TunnelClient) (secret : Key) (stream : Bytes) :
    Exec ((CipherState × CipherState) × Bytes) := do
  let started ← self.start_handshake P secret
  let (resp_frame, stream) ← WireFrame.read_from stream
  let ciphers ← self.finish_handshake P started resp_frame
  return (ciphers, stream)

end TunnelClient

/-! ## Server -/

namespace TunnelServer

variable (P : Primitives)

/-- `handle_client_with_prologue`, from its first frame up to the transport
state: the receiving and the sending cipher. -/
def accept_handshake (server_keys : KeyPair) (prologue : Bytes) (secret : Key) (init_frame : WireFrame) :
    Exec (CipherState × CipherState) := do
  -- 1. the client's first message
  Exec.bail_if (init_frame.msg_type ≠ .HandshakeInit) (.expected_init init_frame.msg_type)
  Exec.bail_if (init_frame.payload.length < KEY_LEN + 16) .init_size
  let (client_ephemeral, init_ciphertext) ← split_payload init_frame.payload
  -- 2. DH(e_c, s_s)
  let dh_static := diffie_hellman P server_keys.private_key client_ephemeral
  let h1 ← Exec.hash_handshake_state P prologue client_ephemeral server_keys.public_key none
  let (k_init_c, _) ← Exec.derive_session_keys P dh_static.val h1.val
  let init_cipher := CipherState.new k_init_c
  let _ ← Exec.decrypt P init_cipher init_ciphertext h1.val 0
  -- 3. the server's ephemeral key e_s, DH(e_c, e_s)
  let server_ephemeral ← Exec.generate P secret
  let server_ephem_pub := server_ephemeral.public_key
  let dh_ephem := server_ephemeral.diffie_hellman client_ephemeral
  -- 4. the transport keys
  let combined_secret := dh_static.val ++ dh_ephem.val
  let h2 ← Exec.hash_handshake_state P prologue client_ephemeral server_keys.public_key (some server_ephem_pub)
  let (client_write_key, server_write_key) ← Exec.derive_session_keys P combined_secret h2.val
  -- 5. the answer
  let (_, k_resp_s) ← Exec.derive_session_keys P dh_ephem.val h2.val
  let resp_cipher := CipherState.new k_resp_s
  let (resp_ciphertext, _) ← Exec.encrypt P resp_cipher HANDSHAKE_COMPLETE_ACK h2.val
  let resp_payload := server_ephem_pub.val ++ resp_ciphertext
  Exec.write_to ⟨.HandshakeResp, 0, resp_payload⟩
  -- 6. transport
  return (CipherState.new client_write_key, CipherState.new server_write_key)

/-- The whole handshake on a stream; the rest of the stream is returned. -/
def receive_handshake (server_keys : KeyPair) (prologue : Bytes) (secret : Key) (stream : Bytes) :
    Exec ((CipherState × CipherState) × Bytes) := do
  let (init_frame, stream) ← WireFrame.read_from stream
  let ciphers ← accept_handshake P server_keys prologue secret init_frame
  return (ciphers, stream)

end TunnelServer

end NoiseTunnel
