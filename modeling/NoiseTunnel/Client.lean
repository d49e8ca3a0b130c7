import NoiseTunnel.Handshake
/-!
# The client's sessions

`send_secure_message` sends one message and returns the answer;
`start_interactive_session` reads lines and waits for an answer to each
request. Both are cut where they wait.
-/
open Rust

namespace NoiseTunnel

def PING : Bytes := as_bytes "PING"

namespace TunnelClient

variable (P : Primitives)

/-! ## One message -/

/-- `send_secure_message`, from the end of the handshake to its second read. -/
def send_message (tx_cipher : CipherState) (message : String) : Exec CipherState := do
  let tx_nonce := tx_cipher.current_nonce
  let (encrypted_data, tx_cipher) ← Exec.encrypt P tx_cipher (as_bytes message) TUNNEL_DATA
  Act.emit (.sent .DataPayload (as_bytes message))
  Exec.write_to ⟨.DataPayload, tx_nonce, encrypted_data⟩
  return tx_cipher

/-- `send_secure_message`, from the reply frame on. -/
def read_reply (tx_cipher rx_cipher : CipherState) (reply_frame : WireFrame) : Exec String := do
  Exec.bail_if (reply_frame.msg_type ≠ .DataPayload) (.expected_reply reply_frame.msg_type)
  let (decrypted_reply, _) ← Exec.decrypt P rx_cipher reply_frame.payload TUNNEL_DATA reply_frame.nonce
  Act.emit (.received reply_frame.msg_type decrypted_reply)
  match from_utf8 decrypted_reply with
  | none => throw (.err .from_utf8)
  | some reply_text =>
    Exec.write_to ⟨.Close, tx_cipher.current_nonce, []⟩
    return reply_text

/-- Without a timeout. -/
def send_secure_message (self : TunnelClient) (secret : Key) (message : String) (stream : Bytes) : Exec String := do
  let ((tx_cipher, rx_cipher), stream) ← self.perform_handshake P secret stream
  let tx_cipher ← send_message P tx_cipher message
  let (reply_frame, _) ← WireFrame.read_from stream
  read_reply P tx_cipher rx_cipher reply_frame

end TunnelClient

/-! ## Interactive -/

structure ClientSession where
  tx_cipher : CipherState
  rx_cipher : CipherState
  session_metrics : SessionMetrics

/-- What the frame that the loop reads next should answer: a `/ping` or a message. -/
inductive Awaited where
  | pong
  | reply
  deriving DecidableEq, Repr

/-- What the loop waits for: a line or a frame. While it waits for a line it
reads no frame: what comes stays on the stream. -/
inductive Waiting where
  | line
  | frame (awaited : Awaited)
  deriving DecidableEq, Repr

/-- The frames that the loop does not skip. -/
def Awaited.expects : Awaited → MessageType → Bool
  | .pong, t => t = .Heartbeat
  | .reply, t => t = .DataPayload ∨ t = .Close

/-- `char::is_whitespace`. -/
def is_whitespace (c : Char) : Bool :=
  (0x09 ≤ c.toNat && c.toNat ≤ 0x0D) || c.toNat == 0x20 || c.toNat == 0x85 || c.toNat == 0xA0 || c.toNat == 0x1680 ||
  (0x2000 ≤ c.toNat && c.toNat ≤ 0x200A) || c.toNat == 0x2028 || c.toNat == 0x2029 || c.toNat == 0x202F ||
  c.toNat == 0x205F || c.toNat == 0x3000

/-- `str::trim`. -/
def trim (s : String) : String :=
  String.ofList (((s.toList.dropWhile is_whitespace).reverse.dropWhile is_whitespace).reverse)

theorem trim_utf8ByteSize_le (s : String) : (trim s).utf8ByteSize ≤ s.utf8ByteSize := by
  have hend := (List.dropWhile_sublist is_whitespace (l := (s.toList.dropWhile is_whitespace).reverse)).reverse
  rw [List.reverse_reverse] at hend
  have hle := utf8ByteSize_ofList_le (hend.trans (List.dropWhile_sublist is_whitespace))
  rwa [String.ofList_toList] at hle

def commands : List String :=
  ["  /help       - Vis denne hjelpemenyen",
   "  /info       - Vis sesjonsinformasjon og teller",
   "  /stats      - Vis sanntids trafikkstatistikk for sesjonen",
   "  /ping       - Send kryptert heartbeat",
   "  /quit, exit - Lukk sesjonen trygt"]

def banner : List String :=
  ["\n========================================================",
   "  INTERAKTIV E2EE NOISE-TUNNEL SESJON ETABLERT         ",
   "========================================================",
   "Kommandoer:"] ++ commands ++ ["--------------------------------------------------------"]

namespace ClientSession

variable (P : Primitives)

/-- The session after the handshake. -/
def start (ciphers : CipherState × CipherState) : ClientSession where
  tx_cipher := ciphers.1
  rx_cipher := ciphers.2
  session_metrics := .new

/-- Encrypt a request under the next nonce and write it. -/
def request (self : ClientSession) (msg_type : MessageType) (plaintext associated_data : Bytes) :
    Exec ClientSession := do
  let tx_nonce := self.tx_cipher.current_nonce
  let (encrypted_data, tx_cipher) ← Exec.encrypt P self.tx_cipher plaintext associated_data
  Act.emit (.sent msg_type plaintext)
  let frame : WireFrame := ⟨msg_type, tx_nonce, encrypted_data⟩
  let session_metrics := self.session_metrics.record_tx (frame.payload_len + 13)
  Exec.write_to frame
  return { self with tx_cipher, session_metrics }

/-- Decrypt an answer and print it behind `label`. -/
def answer (self : ClientSession) (reply : WireFrame) (associated_data : Bytes) (label : String) :
    Exec ClientSession := do
  let (decrypted, rx_cipher) ← Exec.decrypt P self.rx_cipher reply.payload associated_data reply.nonce
  Act.emit (.received reply.msg_type decrypted)
  Exec.println [label ++ from_utf8_lossy decrypted]
  return { self with rx_cipher }

/-- A turn of the loop, from the line it reads, `none` at the end of input. -/
def repl_line (client : TunnelClient) (self : ClientSession) (line : Option String) :
    Exec (ControlFlow (ClientSession × Waiting)) := do
  match line with
  | none => return .done (self, .line)
  | some l =>
    let line := trim l
    if line = "" then
      return .cont (self, .line)
    if line = "/help" then
      Exec.println ("Tilgjengelige kommandoer:" :: commands)
      return .cont (self, .line)
    if line = "/info" then
      Exec.println ["Sesjonsinformasjon:", "  Server: " ++ client.target_addr,
        "  Prolog: " ++ from_utf8_lossy client.prologue, "  TX Nonce: " ++ toString self.tx_cipher.current_nonce]
      return .cont (self, .line)
    if line = "/stats" then
      Exec.println ["Sesjonsstatistikk:"]
      Act.emit (.printed_stats self.session_metrics)
      return .cont (self, .line)
    if line = "/quit" ∨ line = "exit" then
      Exec.println ["Avslutter tunnel-sesjon..."]
      let close_frame : WireFrame := ⟨.Close, self.tx_cipher.current_nonce, []⟩
      let self := { self with session_metrics := self.session_metrics.record_tx (close_frame.payload_len + 13) }
      Exec.write_to close_frame
      return .done (self, .line)
    if line = "/ping" then
      return .cont (← self.request P .Heartbeat PING HEARTBEAT, .frame .pong)
    return .cont (← self.request P .DataPayload (as_bytes line) TUNNEL_DATA, .frame .reply)

/-- The rest of a turn after `/ping`, from the frame it reads. -/
def repl_pong (self : ClientSession) (reply : WireFrame) : Exec (ControlFlow (ClientSession × Waiting)) := do
  let self := { self with session_metrics := self.session_metrics.record_rx (reply.payload_len + 13) }
  if reply.msg_type = .Heartbeat then
    return .cont (← self.answer P reply HEARTBEAT "< [Heartbeat Response]: ", .line)
  return .cont (self, .line)

/-- The rest of a turn after a message, from the frame it reads. -/
def repl_reply (self : ClientSession) (reply_frame : WireFrame) : Exec (ControlFlow (ClientSession × Waiting)) := do
  let self := { self with session_metrics := self.session_metrics.record_rx (reply_frame.payload_len + 13) }
  if reply_frame.msg_type = .DataPayload then
    return .cont (← self.answer P reply_frame TUNNEL_DATA "< [Server Svar]: ", .line)
  if reply_frame.msg_type = .Close then
    Exec.println ["Server lukket forbindelsen."]
    return .done (self, .line)
  return .cont (self, .line)

/-- A turn of the loop from the frame it waits for. -/
def repl_frame (self : ClientSession) (awaited : Awaited) (frame : WireFrame) :
    Exec (ControlFlow (ClientSession × Waiting)) :=
  match awaited with
  | .pong => self.repl_pong P frame
  | .reply => self.repl_reply P frame

/-- The loop, on the lines of the terminal up to its end and on a stream that has ended. -/
def repl_loop (client : TunnelClient) : ClientSession → List String → Bytes → Exec ClientSession
  | self, [], _ => return self
  | self, line :: lines, stream => do
    match ← self.repl_line P client (some line) with
    | .done (self, _) => return self
    | .cont (self, .line) => repl_loop client self lines stream
    | .cont (self, .frame awaited) =>
      let (frame, stream) ← WireFrame.read_from stream
      match ← self.repl_frame P awaited frame with
      | .done (self, _) => return self
      | .cont (self, _) => repl_loop client self lines stream

end ClientSession

def TunnelClient.start_interactive_session (P : Primitives) (self : TunnelClient) (secret : Key) (lines : List String)
    (stream : Bytes) : Exec ClientSession := do
  Exec.println ["Kobler til server på " ++ self.target_addr ++ " for interaktiv sesjon..."]
  let (ciphers, stream) ← self.perform_handshake P secret stream
  Exec.println banner
  ClientSession.repl_loop P self (.start ciphers) lines stream

/-! ## How a segment ends -/

namespace TunnelClient

variable (P : Primitives)

theorem send_message_cases (tx : CipherState) (message : String) :
    (∃ ct tx', tx.encrypt P (as_bytes message) TUNNEL_DATA = (tx', .ok ct) ∧
      send_message P tx message = ⟨sealedLog tx .DataPayload (as_bytes message) TUNNEL_DATA ct, .ok tx'⟩) ∨
    (∃ e, send_message P tx message = ⟨[], .error (.err e)⟩ ∧
      (P.Correct → message.utf8ByteSize / 64 < 2 ^ 32 - 1 → ¬tx.nonce.toNat + 1 < 2 ^ 64)) := by
  unfold send_message
  rcases Exec.encrypt_cases P tx (as_bytes message) TUNNEL_DATA with ⟨ct, tx', h, he⟩ | ⟨e, he, hfail⟩
  · left
    refine ⟨ct, tx', h, ?_⟩
    simp only [he, Act.mk_ok_bind]
    rfl
  · right
    exact ⟨e, by simp only [he, Act.mk_error_bind], fun hP hl => hfail hP (by rw [as_bytes_length]; exact hl)⟩

/-- An answer is decrypted as data or the call fails; nothing more is encrypted. -/
theorem read_reply_cases (tx rx : CipherState) (f : WireFrame) :
    (∃ s, read_reply P tx rx f = ⟨[], .error s⟩) ∨
    ∃ pt rx', f.msg_type = .DataPayload ∧ rx.decrypt P f.payload TUNNEL_DATA f.nonce = .ok (rx', .ok pt) ∧
      ((from_utf8 pt = none ∧ read_reply P tx rx f = ⟨openedLog rx f TUNNEL_DATA pt, .error (.err .from_utf8)⟩) ∨
        ∃ text, from_utf8 pt = some text ∧
          read_reply P tx rx f = ⟨openedLog rx f TUNNEL_DATA pt ++ [.wrote ⟨.Close, tx.nonce, []⟩], .ok text⟩) := by
  unfold read_reply
  by_cases hf : f.msg_type = .DataPayload
  swap
  · left
    exact ⟨.err (.expected_reply f.msg_type), by simp only [Exec.bail_if_pos hf, Act.mk_error_bind]⟩
  simp only [Exec.bail_if_neg (not_not.2 hf), Act.mk_ok_bind]
  rcases Exec.decrypt_cases P rx f.payload TUNNEL_DATA f.nonce with ⟨pt, rx', hd, hde⟩ | ⟨s, hde, -⟩
  · right
    refine ⟨pt, rx', hf, hd, ?_⟩
    cases ht : from_utf8 pt with
    | none =>
      left
      refine ⟨rfl, ?_⟩
      simp only [hde, Act.mk_ok_bind, ht]
      rfl
    | some text =>
      right
      refine ⟨text, rfl, ?_⟩
      simp only [hde, Act.mk_ok_bind, ht]
      rfl
  · left
    exact ⟨s, by simp only [hde, Act.mk_error_bind, List.append_nil]⟩

theorem read_reply_of {tx rx rx' : CipherState} {f : WireFrame} {pt : Bytes} {text : String}
    (hf : f.msg_type = .DataPayload) (hd : rx.decrypt P f.payload TUNNEL_DATA f.nonce = .ok (rx', .ok pt))
    (ht : from_utf8 pt = some text) :
    read_reply P tx rx f = ⟨openedLog rx f TUNNEL_DATA pt ++ [.wrote ⟨.Close, tx.nonce, []⟩], .ok text⟩ := by
  unfold read_reply
  simp only [Exec.bail_if_neg (not_not.2 hf), Act.mk_ok_bind, Exec.decrypt_ok hd, ht]
  rfl

end TunnelClient

namespace ClientSession

variable (P : Primitives) (s : ClientSession)

def counted (f : WireFrame) : ClientSession :=
  { s with session_metrics := s.session_metrics.record_rx (f.payload_len + 13) }

def sentFrame (tx_cipher : CipherState) (f : WireFrame) : ClientSession :=
  { s with tx_cipher, session_metrics := s.session_metrics.record_tx (f.payload_len + 13) }

theorem request_of {t : MessageType} {pt aad ct : Bytes} {tx' : CipherState}
    (h : s.tx_cipher.encrypt P pt aad = (tx', .ok ct)) :
    s.request P t pt aad =
      ⟨sealedLog s.tx_cipher t pt aad ct, .ok (s.sentFrame tx' ⟨t, s.tx_cipher.nonce, ct⟩)⟩ := by
  simp only [request, Exec.encrypt_ok h, Act.mk_ok_bind]
  rfl

theorem request_cases (t : MessageType) (pt aad : Bytes) :
    (∃ ct tx', s.tx_cipher.encrypt P pt aad = (tx', .ok ct) ∧
      s.request P t pt aad =
        ⟨sealedLog s.tx_cipher t pt aad ct, .ok (s.sentFrame tx' ⟨t, s.tx_cipher.nonce, ct⟩)⟩) ∨
    (∃ e, s.request P t pt aad = ⟨[], .error (.err e)⟩) := by
  rcases Exec.encrypt_cases P s.tx_cipher pt aad with ⟨ct, tx', h, -⟩ | ⟨e, he, -⟩
  · exact .inl ⟨ct, tx', h, request_of P s h⟩
  · exact .inr ⟨e, by simp only [request, he, Act.mk_error_bind]⟩

theorem answer_of {f : WireFrame} {aad pt : Bytes} {rx' : CipherState} (label : String)
    (h : s.rx_cipher.decrypt P f.payload aad f.nonce = .ok (rx', .ok pt)) :
    s.answer P f aad label = ⟨openedLog s.rx_cipher f aad pt ++ [.printed (label ++ from_utf8_lossy pt)],
      .ok { s with rx_cipher := rx' }⟩ := by
  simp only [answer, Exec.decrypt_ok h, Act.mk_ok_bind]
  rfl

theorem answer_cases (f : WireFrame) (aad : Bytes) (label : String) :
    (∃ pt rx', s.rx_cipher.decrypt P f.payload aad f.nonce = .ok (rx', .ok pt) ∧
      s.answer P f aad label = ⟨openedLog s.rx_cipher f aad pt ++ [.printed (label ++ from_utf8_lossy pt)],
        .ok { s with rx_cipher := rx' }⟩) ∨
    (∃ e, s.answer P f aad label = ⟨[], .error e⟩) := by
  rcases Exec.decrypt_cases P s.rx_cipher f.payload aad f.nonce with ⟨pt, rx', h, -⟩ | ⟨e, he, -⟩
  · exact .inl ⟨pt, rx', h, answer_of P s label h⟩
  · exact .inr ⟨e, by simp only [answer, he, Act.mk_error_bind]⟩

/-- The request a line makes: its frame type, plaintext and associated data,
and what the loop then waits for. -/
inductive Requests : MessageType → Bytes → Bytes → Awaited → Prop
  | ping : Requests .Heartbeat PING HEARTBEAT .pong
  | data (line : String) : Requests .DataPayload (as_bytes line) TUNNEL_DATA .reply

theorem Requests.carries {t : MessageType} {pt aad : Bytes} {a : Awaited} (h : Requests t pt aad a) :
    Carries t aad := by
  cases h
  · exact .heartbeat
  · exact .data

/-- What a line does: it is dealt with on the spot, it ends the loop with a
`Close` frame, or it makes a request. -/
theorem repl_line_some (client : TunnelClient) (l : String) :
    (trim l ≠ "/quit" ∧ ∃ log, Quiet log ∧ frames log = [] ∧
      s.repl_line P client (some l) = ⟨log, .ok (.cont (s, .line))⟩) ∨
    (∃ log, Quiet log ∧ frames log = [⟨.Close, s.tx_cipher.nonce, []⟩] ∧
      s.repl_line P client (some l) =
        ⟨log, .ok (.done (s.sentFrame s.tx_cipher ⟨.Close, s.tx_cipher.nonce, []⟩, .line))⟩) ∨
    ∃ t pt aad a, Requests t pt aad a ∧ trim l ≠ "/quit" ∧ pt.length ≤ max 4 l.utf8ByteSize ∧
      s.repl_line P client (some l) = (do return .cont (← s.request P t pt aad, .frame a)) := by
  have hlen := trim_utf8ByteSize_le l
  unfold repl_line
  dsimp only
  generalize trim l = line at hlen ⊢
  by_cases hempty : line = ""
  · rw [if_pos hempty]
    exact .inl ⟨by rw [hempty]; decide, _, .nil, rfl, rfl⟩
  rw [if_neg hempty]
  by_cases hhelp : line = "/help"
  · rw [if_pos hhelp]
    exact .inl ⟨by rw [hhelp]; decide, _, (quiet_println _).append .nil, rfl, rfl⟩
  rw [if_neg hhelp]
  by_cases hinfo : line = "/info"
  · rw [if_pos hinfo]
    exact .inl ⟨by rw [hinfo]; decide, _, (quiet_println _).append .nil, rfl, rfl⟩
  rw [if_neg hinfo]
  by_cases hstats : line = "/stats"
  · rw [if_pos hstats]
    exact .inl ⟨by rw [hstats]; decide, _, (quiet_println _).append (quiet_stats _), rfl, rfl⟩
  rw [if_neg hstats]
  right
  by_cases hquit : line = "/quit" ∨ line = "exit"
  · rw [if_pos hquit]
    exact .inl ⟨_, (quiet_println _).append (quiet_wrote _), rfl, rfl⟩
  rw [if_neg hquit]
  right
  by_cases hping : line = "/ping"
  · rw [if_pos hping]
    exact ⟨_, _, _, _, .ping, fun he => hquit (.inl he), Nat.le_max_left 4 _, rfl⟩
  · rw [if_neg hping]
    refine ⟨_, _, _, _, .data line, fun he => hquit (.inl he), ?_, rfl⟩
    rw [as_bytes_length]
    exact Nat.le_trans hlen (Nat.le_max_right 4 _)

/-- A line either makes one request or encrypts nothing. -/
theorem repl_line_cases (client : TunnelClient) (line : Option String) :
    (Quiet (s.repl_line P client line).log ∧
      ((∃ m, (s.repl_line P client line).res = .ok (.cont ({ s with session_metrics := m }, .line))) ∨
        (∃ m, (s.repl_line P client line).res = .ok (.done ({ s with session_metrics := m }, .line))))) ∨
    ∃ t pt aad a, Requests t pt aad a ∧ ((∃ e, s.repl_line P client line = ⟨[], .error (.err e)⟩) ∨
      ∃ ct tx', s.tx_cipher.encrypt P pt aad = (tx', .ok ct) ∧
        s.repl_line P client line = ⟨sealedLog s.tx_cipher t pt aad ct,
          .ok (.cont (s.sentFrame tx' ⟨t, s.tx_cipher.nonce, ct⟩, .frame a))⟩) := by
  cases line with
  | none => exact .inl ⟨.nil, .inr ⟨s.session_metrics, rfl⟩⟩
  | some l =>
    rcases s.repl_line_some P client l with
      ⟨-, log, hq, -, he⟩ | ⟨log, hq, -, he⟩ | ⟨t, pt, aad, a, hreq, -, -, he⟩
    · rw [he]
      exact .inl ⟨hq, .inl ⟨s.session_metrics, rfl⟩⟩
    · rw [he]
      exact .inl ⟨hq, .inr ⟨_, rfl⟩⟩
    · rw [he]
      refine .inr ⟨t, pt, aad, a, hreq, ?_⟩
      rcases request_cases P s t pt aad with ⟨ct, tx', h, hr⟩ | ⟨e, hr⟩
      · exact .inr ⟨ct, tx', h, by simp only [hr, Act.mk_ok_bind]; rfl⟩
      · exact .inl ⟨e, by simp only [hr, Act.mk_error_bind]⟩

theorem repl_frame_pong {f : WireFrame} (hf : f.msg_type = .Heartbeat) :
    s.repl_frame P .pong f = (do
      return .cont (← (s.counted f).answer P f HEARTBEAT "< [Heartbeat Response]: ", .line)) := if_pos hf

theorem repl_frame_reply {f : WireFrame} (hf : f.msg_type = .DataPayload) :
    s.repl_frame P .reply f = (do
      return .cont (← (s.counted f).answer P f TUNNEL_DATA "< [Server Svar]: ", .line)) := if_pos hf

/-- The awaited answer, decrypted. -/
theorem repl_frame_expected {a : Awaited} {f : WireFrame} {aad pt : Bytes} {rx' : CipherState}
    (ha : a.expects f.msg_type = true) (hc : Carries f.msg_type aad)
    (hd : s.rx_cipher.decrypt P f.payload aad f.nonce = .ok (rx', .ok pt)) :
    ∃ text, s.repl_frame P a f = ⟨openedLog s.rx_cipher f aad pt ++ [.printed text],
      .ok (.cont ({ s.counted f with rx_cipher := rx' }, .line))⟩ := by
  cases a with
  | pong =>
    have hf : f.msg_type = .Heartbeat := of_decide_eq_true ha
    obtain rfl : aad = HEARTBEAT := Carries.inj_right (hf ▸ hc) .heartbeat
    refine ⟨"< [Heartbeat Response]: " ++ from_utf8_lossy pt, ?_⟩
    rw [repl_frame_pong P s hf, answer_of P (s.counted f) _ hd]
    rfl
  | reply =>
    have hf : f.msg_type = .DataPayload := by
      rcases of_decide_eq_true ha with hf | hf
      · exact hf
      · rw [hf] at hc
        cases hc
    obtain rfl : aad = TUNNEL_DATA := Carries.inj_right (hf ▸ hc) .data
    refine ⟨"< [Server Svar]: " ++ from_utf8_lossy pt, ?_⟩
    rw [repl_frame_reply P s hf, answer_of P (s.counted f) _ hd]
    rfl

/-- A frame is taken in as the answer or opens nothing. -/
theorem repl_frame_cases (a : Awaited) (f : WireFrame) :
    (Quiet (s.repl_frame P a f).log ∧ ((∃ e, (s.repl_frame P a f).res = .error e) ∨
      (a.expects f.msg_type = false ∧
        ∃ m, (s.repl_frame P a f).res = .ok (.cont ({ s with session_metrics := m }, .line))) ∨
      (a = .reply ∧ f.msg_type = .Close ∧
        (s.repl_frame P a f).res = .ok (.done (s.counted f, .line))))) ∨
    ∃ aad pt rx' label, Carries f.msg_type aad ∧ s.rx_cipher.decrypt P f.payload aad f.nonce = .ok (rx', .ok pt) ∧
      s.repl_frame P a f = ⟨openedLog s.rx_cipher f aad pt ++ [.printed (label ++ from_utf8_lossy pt)],
        .ok (.cont ({ s.counted f with rx_cipher := rx' }, .line))⟩ := by
  cases a with
  | pong =>
    by_cases hf : f.msg_type = .Heartbeat
    · rw [repl_frame_pong P s hf]
      rcases answer_cases P (s.counted f) f HEARTBEAT "< [Heartbeat Response]: " with ⟨pt, rx', hd, he⟩ | ⟨e, he⟩
      · exact .inr ⟨_, pt, rx', _, hf ▸ .heartbeat, hd, by simp only [he, Act.mk_ok_bind]; rfl⟩
      · exact .inl ⟨he ▸ Quiet.nil, .inl ⟨e, by simp only [he, Act.mk_error_bind]⟩⟩
    · have e₀ : s.repl_frame P .pong f = pure (.cont (s.counted f, .line)) := if_neg hf
      exact .inl ⟨e₀ ▸ Quiet.nil, .inr (.inl ⟨decide_eq_false hf, _, congrArg Act.res e₀⟩)⟩
  | reply =>
    by_cases hf : f.msg_type = .DataPayload
    · rw [repl_frame_reply P s hf]
      rcases answer_cases P (s.counted f) f TUNNEL_DATA "< [Server Svar]: " with ⟨pt, rx', hd, he⟩ | ⟨e, he⟩
      · exact .inr ⟨_, pt, rx', _, hf ▸ .data, hd, by simp only [he, Act.mk_ok_bind]; rfl⟩
      · exact .inl ⟨he ▸ Quiet.nil, .inl ⟨e, by simp only [he, Act.mk_error_bind]⟩⟩
    · by_cases hc : f.msg_type = .Close
      · have e₀ : s.repl_frame P .reply f = (do
            Exec.println ["Server lukket forbindelsen."]
            return .done (s.counted f, .line)) := (if_neg hf).trans (if_pos hc)
        exact .inl ⟨e₀ ▸ (quiet_println _).append .nil, .inr (.inr ⟨rfl, hc, by rw [e₀]; rfl⟩)⟩
      · have e₀ : s.repl_frame P .reply f = pure (.cont (s.counted f, .line)) := (if_neg hf).trans (if_neg hc)
        have hskip : Awaited.reply.expects f.msg_type = false := decide_eq_false (not_or.2 ⟨hf, hc⟩)
        exact .inl ⟨e₀ ▸ Quiet.nil, .inr (.inl ⟨hskip, _, congrArg Act.res e₀⟩)⟩

end ClientSession

end NoiseTunnel
