import Mathlib.Data.List.Nodup
import NoiseTunnel.Completed
/-!
# Key slots

Every key a session encrypts under belongs to one of four slots, told apart by
the label and the length of the secret, and its salt names the session's own
ephemeral key. A log is accounted for when each of its messages has a slot and
no slot repeats a nonce.
-/
open Rust

namespace NoiseTunnel

/-! ## Key slots -/

inductive Slot where
  | init
  | client_write
  | resp
  | server_write
  deriving DecidableEq

namespace Slot

def info : Slot → Bytes
  | init | client_write => client_key_info
  | resp | server_write => server_key_info

/-- How long the secret is that the key is derived from. -/
def secret_len : Slot → Nat
  | init | resp => KEY_LEN
  | client_write | server_write => KEY_LEN * 2

/-- The transcript that salts the key. -/
def text : Slot → View → Bytes
  | init, v => v.first
  | _, v => v.second

/-- The ephemeral key of the side that encrypts. -/
def own : Slot → View → Key
  | init, v | client_write, v => v.client_ephemeral
  | resp, v | server_write, v => v.server_ephemeral

theorem eq_of {s t : Slot} (hi : s.info = t.info) (hl : s.secret_len = t.secret_len) : s = t := by
  have hne := client_key_info_ne
  cases s <;> cases t <;> first | rfl | exact absurd hi hne | exact absurd hi.symm hne | exact absurd hl (by decide)

theorem own_eq_of_text {s : Slot} {v w : View} (h : s.text v = s.text w) : s.own v = s.own w := by
  cases s with
  | init => exact (View.first_inj h).2.1
  | client_write => exact congrArg View.client_ephemeral (View.second_inj h)
  | resp => exact congrArg View.server_ephemeral (View.second_inj h)
  | server_write => exact congrArg View.server_ephemeral (View.second_inj h)

end Slot

variable (P : Primitives)

/-- `k` was derived in `log` for slot `s` of a session with ephemeral key `e`. -/
def FromSlot (log : Log) (e : Key) (s : Slot) (k : Key) : Prop :=
  ∃ (v : View) (ikm : Bytes), s.own v = e ∧ s.text v ∈ hashes log ∧
    ⟨(P.sha256 (s.text v)).val, ikm, s.info⟩ ∈ expansions log ∧
    P.hkdf (P.sha256 (s.text v)).val ikm s.info = some k ∧ ikm.length = s.secret_len

variable {P} {log log' l : Log} {e e' k : Key} {s t : Slot}

theorem FromSlot.mono (h : FromSlot P log e s k) (hh : ∀ x ∈ hashes log, x ∈ hashes log')
    (he : ∀ x ∈ expansions log, x ∈ expansions log') : FromSlot P log' e s k := by
  obtain ⟨v, ikm, hv, ht, hx, hk, hl⟩ := h
  exact ⟨v, ikm, hv, hh _ ht, he _ hx, hk, hl⟩

theorem FromSlot.append (h : FromSlot P log e s k) : FromSlot P (log ++ l) e s k :=
  h.mono (fun x hx => by rw [hashes_append]; exact List.mem_append_left _ hx)
    (fun x hx => by rw [expansions_append]; exact List.mem_append_left _ hx)

theorem FromSlot.prepend (h : FromSlot P log e s k) : FromSlot P (l ++ log) e s k :=
  h.mono (fun x hx => by rw [hashes_append]; exact List.mem_append_right _ hx)
    (fun x hx => by rw [expansions_append]; exact List.mem_append_right _ hx)

/-- A key has one slot, in one session. -/
theorem FromSlot.unique (hcol : NoCollision P log) (hkdf : KdfInjective P log) (h : FromSlot P log e s k)
    (h' : FromSlot P log e' t k) : s = t ∧ e = e' := by
  obtain ⟨v, ikm, rfl, ht, hx, hk, hl⟩ := h
  obtain ⟨w, ikm', rfl, ht', hx', hk', hl'⟩ := h'
  have hexp := hkdf.eq hx hx' hk hk'
  have hinfo : s.info = t.info := congrArg Expansion.info hexp
  have hikm : ikm = ikm' := congrArg Expansion.ikm hexp
  obtain rfl := Slot.eq_of hinfo (by rw [← hl, ← hl', hikm])
  have htext := hcol.eq ht ht' (congrArg Expansion.salt hexp)
  exact ⟨rfl, Slot.own_eq_of_text htext⟩

/-! ## What one session has spent -/

/-- The session with ephemeral key `e` has encrypted at most one message in
slot `a`, and the others in slot `b`, each under its own nonce. -/
structure Spent (P : Primitives) (e : Key) (a b : Slot) (log : Log) (first rest : List Seal) : Prop where
  split : seals log = first ++ rest
  short : first.length ≤ 1
  first_slot : ∀ x ∈ first, FromSlot P log e a x.key
  rest_slot : ∀ x ∈ rest, FromSlot P log e b x.key
  nodup : (rest.map Seal.nonce).Nodup
  generated : seals log ≠ [] → e ∈ generated log

/-- A session that goes on encrypting under `tx`, past all nonces it has used. -/
structure Live (P : Primitives) (e : Key) (a b : Slot) (log : Log) (tx : CipherState) : Prop where
  spent : ∃ first rest, Spent P e a b log first rest ∧ ∀ x ∈ rest, x.nonce.toNat < tx.nonce.toNat
  slot : FromSlot P log e b tx.key
  generated : e ∈ NoiseTunnel.generated log

/-- A session that encrypts no more. -/
def Ended (P : Primitives) (e : Key) (a b : Slot) (log : Log) : Prop := ∃ first rest, Spent P e a b log first rest

variable {a b : Slot} {tx tx' : CipherState} {first rest : List Seal}

theorem Spent.append (h : Spent P e a b log first rest) (hl : seals l = []) : Spent P e a b (log ++ l) first rest where
  split := by rw [seals_append, hl, List.append_nil, h.split]
  short := h.short
  first_slot x hx := (h.first_slot x hx).append
  rest_slot x hx := (h.rest_slot x hx).append
  nodup := h.nodup
  generated hs := by
    rw [seals_append, hl, List.append_nil] at hs
    rw [generated_append]
    exact List.mem_append_left _ (h.generated hs)

theorem Ended.append (h : Ended P e a b log) (hl : seals l = []) : Ended P e a b (log ++ l) := by
  obtain ⟨first, rest, h⟩ := h
  exact ⟨first, rest, h.append hl⟩

theorem Live.ended (h : Live P e a b log tx) : Ended P e a b log := by
  obtain ⟨first, rest, hs, -⟩ := h.spent
  exact ⟨first, rest, hs⟩

theorem Live.append (h : Live P e a b log tx) (hl : seals l = []) : Live P e a b (log ++ l) tx where
  spent := by
    obtain ⟨first, rest, hs, hn⟩ := h.spent
    exact ⟨first, rest, hs.append hl, hn⟩
  slot := h.slot.append
  generated := by
    rw [generated_append]
    exact List.mem_append_left _ h.generated

/-- One more message leaves the session past its nonce. -/
theorem Live.seal (h : Live P e a b log tx) {msg aad ct : Bytes} (he : tx.encrypt P msg aad = (tx', .ok ct))
    (hl : seals l = [⟨tx.key, tx.nonce, aad, msg, ct⟩]) : Live P e a b (log ++ l) tx' := by
  obtain ⟨first, rest, hs, hn⟩ := h.spent
  obtain ⟨-, hadd, hkey⟩ := CipherState.encrypt_eq_ok.1 he
  have hnext := checked_add_one hadd
  have hgen : e ∈ NoiseTunnel.generated (log ++ l) := by
    rw [generated_append]
    exact List.mem_append_left _ h.generated
  constructor
  · refine ⟨first, rest ++ [⟨tx.key, tx.nonce, aad, msg, ct⟩], ⟨?_, hs.short, ?_, ?_, ?_, fun _ => hgen⟩, ?_⟩
    · rw [seals_append, hl, hs.split, List.append_assoc]
    · exact fun x hx => (hs.first_slot x hx).append
    · intro x hx
      rcases List.mem_append.1 hx with hx | hx
      · exact (hs.rest_slot x hx).append
      · rw [List.mem_singleton.1 hx]
        exact h.slot.append
    · rw [List.map_append, List.nodup_append']
      refine ⟨hs.nodup, List.nodup_singleton _, fun n hx hx' => ?_⟩
      obtain ⟨x, hxm, rfl⟩ := List.mem_map.1 hx
      have hlt := hn x hxm
      rw [List.mem_singleton.1 hx'] at hlt
      exact absurd hlt (Nat.lt_irrefl _)
    · intro x hx
      rcases List.mem_append.1 hx with hx | hx
      · have := hn x hx
        omega
      · rw [List.mem_singleton.1 hx, hnext]
        exact Nat.lt_succ_self _
  · rw [hkey]
    exact h.slot.append
  · exact hgen

theorem Ended.of_nil (h : seals log = []) : Ended P e a b log :=
  ⟨[], [], ⟨by rw [h]; rfl, Nat.zero_le _, List.forall_mem_nil _, List.forall_mem_nil _, List.nodup_nil,
    fun hs => absurd h hs⟩⟩

theorem Spent.prepend (h : Spent P e a b log first rest) (hl : seals l = []) :
    Spent P e a b (l ++ log) first rest where
  split := by rw [seals_append, hl, List.nil_append, h.split]
  short := h.short
  first_slot x hx := (h.first_slot x hx).prepend
  rest_slot x hx := (h.rest_slot x hx).prepend
  nodup := h.nodup
  generated hs := by
    rw [seals_append, hl, List.nil_append] at hs
    rw [generated_append]
    exact List.mem_append_right _ (h.generated hs)

end NoiseTunnel
