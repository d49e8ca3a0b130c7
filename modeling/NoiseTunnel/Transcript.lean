import NoiseTunnel.Crypto
/-!
# The transcript hash

`hash_handshake_state` hashes the prologue and the keys one after another,
without lengths. Of two transcripts with the same number of keys, equal bytes
still mean equal parts: only the prologue varies in length. Three keys behind a
prologue are also two keys behind a longer one.
-/
open Rust

namespace NoiseTunnel

/-- Names the protocol; the prologue unless another is configured. -/
def PROTOCOL_NAME : Bytes := as_bytes "Noise_NK_25519_ChaChaPoly_SHA256_v1"

/-- What the hasher is fed. -/
def transcript (prologue : Bytes) (client_ephemeral server_public : Key) (server_ephemeral : Option Key) : Bytes :=
  let hasher := prologue
  let hasher := hasher ++ client_ephemeral.val
  let hasher := hasher ++ server_public.val
  match server_ephemeral with
  | some se => hasher ++ se.val
  | none => hasher

def hash_handshake_state (P : Primitives) (prologue : Bytes) (client_ephemeral server_public : Key)
    (server_ephemeral : Option Key) : U8Array 32 :=
  P.sha256 (transcript prologue client_ephemeral server_public server_ephemeral)

/-- The last key of a byte string can be read off it. -/
theorem append_key_inj {b c : Bytes} {x y : Key} (h : b ++ x.val = c ++ y.val) : b = c ∧ x = y := by
  obtain ⟨hb, hx⟩ := List.append_inj' h (x.property.trans y.property.symm)
  exact ⟨hb, Subtype.ext hx⟩

theorem transcript_none_inj {p p' : Bytes} {e e' s s' : Key} (h : transcript p e s none = transcript p' e' s' none) :
    p = p' ∧ e = e' ∧ s = s' := by
  obtain ⟨h, hs⟩ := append_key_inj h
  obtain ⟨hp, he⟩ := append_key_inj h
  exact ⟨hp, he, hs⟩

theorem transcript_some_inj {p p' : Bytes} {e e' s s' r r' : Key}
    (h : transcript p e s (some r) = transcript p' e' s' (some r')) : p = p' ∧ e = e' ∧ s = s' ∧ r = r' := by
  obtain ⟨h, hr⟩ := append_key_inj h
  obtain ⟨hp, he, hs⟩ := transcript_none_inj h
  exact ⟨hp, he, hs, hr⟩

/-- The first transcript has the second one's client key at the end of its
prologue, and its other two keys as its own. -/
def Shifted (p : Bytes) (e s : Key) (r : Option Key) (p' : Bytes) (e' s' : Key) (r' : Option Key) : Prop :=
  r = none ∧ r' = some s ∧ p = p' ++ e'.val ∧ e = s'

theorem transcript_mixed_iff {p p' : Bytes} {e e' s s' r' : Key} :
    transcript p e s none = transcript p' e' s' (some r') ↔ p = p' ++ e'.val ∧ e = s' ∧ s = r' := by
  constructor
  · intro h
    obtain ⟨h, hs⟩ := append_key_inj h
    obtain ⟨hp, he⟩ := append_key_inj h
    exact ⟨hp, he, hs⟩
  · rintro ⟨rfl, rfl, rfl⟩
    rfl

theorem transcript_eq_iff {p p' : Bytes} {e e' s s' : Key} {r r' : Option Key} :
    transcript p e s r = transcript p' e' s' r' ↔
      (p = p' ∧ e = e' ∧ s = s' ∧ r = r') ∨ Shifted p e s r p' e' s' r' ∨ Shifted p' e' s' r' p e s r := by
  cases r with
  | none =>
    cases r' with
    | none =>
      refine ⟨fun h => .inl ?_, ?_⟩
      · obtain ⟨hp, he, hs⟩ := transcript_none_inj h
        exact ⟨hp, he, hs, rfl⟩
      · rintro (⟨rfl, rfl, rfl, -⟩ | ⟨-, hr, -⟩ | ⟨-, hr, -⟩)
        · rfl
        · cases hr
        · cases hr
    | some r' =>
      rw [transcript_mixed_iff]
      refine ⟨fun ⟨hp, he, hs⟩ => .inr (.inl ⟨rfl, by rw [hs], hp, he⟩), ?_⟩
      rintro (⟨-, -, -, hr⟩ | ⟨-, hr, hp, he⟩ | ⟨hr, -⟩)
      · cases hr
      · exact ⟨hp, he, (Option.some.inj hr).symm⟩
      · cases hr
  | some r =>
    cases r' with
    | none =>
      rw [eq_comm, transcript_mixed_iff]
      refine ⟨fun ⟨hp, he, hs⟩ => .inr (.inr ⟨rfl, by rw [hs], hp, he⟩), ?_⟩
      rintro (⟨-, -, -, hr⟩ | ⟨hr, -⟩ | ⟨-, hr, hp, he⟩)
      · cases hr
      · cases hr
      · exact ⟨hp, he, (Option.some.inj hr).symm⟩
    | some r' =>
      refine ⟨fun h => .inl ?_, ?_⟩
      · obtain ⟨hp, he, hs, rfl⟩ := transcript_some_inj h
        exact ⟨hp, he, hs, rfl⟩
      · rintro (⟨rfl, rfl, rfl, hr⟩ | ⟨hr, -⟩ | ⟨hr, -⟩)
        · rw [hr]
        · cases hr
        · cases hr

/-- What the transcript, and its hash where these two do not collide, says about
the arguments: all of them, or the same keys shifted by one place. -/
theorem transcript_unambiguous (p p' : Bytes) (e e' s s' : Key) (r r' : Option Key) :
    (transcript p e s r = transcript p' e' s' r' ↔
      (p = p' ∧ e = e' ∧ s = s' ∧ r = r') ∨ Shifted p e s r p' e' s' r' ∨ Shifted p' e' s' r' p e s r) ∧
    ∀ P : Primitives, (P.sha256 (transcript p e s r) = P.sha256 (transcript p' e' s' r') →
        transcript p e s r = transcript p' e' s' r') →
      (hash_handshake_state P p e s r = hash_handshake_state P p' e' s' r' ↔
        (p = p' ∧ e = e' ∧ s = s' ∧ r = r') ∨ Shifted p e s r p' e' s' r' ∨ Shifted p' e' s' r' p e s r) := by
  refine ⟨transcript_eq_iff, fun P hP => ?_⟩
  rw [← transcript_eq_iff]
  exact ⟨hP, congrArg P.sha256⟩

/-- The first transcript of one prologue is the second of a shorter one. -/
theorem transcript_ambiguous :
    transcript (PROTOCOL_NAME ++ (as_key [1]).val) (as_key [2]) (as_key [3]) none =
        transcript PROTOCOL_NAME (as_key [1]) (as_key [2]) (some (as_key [3])) ∧
      PROTOCOL_NAME ++ (as_key [1]).val ≠ PROTOCOL_NAME :=
  ⟨transcript_mixed_iff.2 ⟨rfl, rfl, rfl⟩, by decide⟩

end NoiseTunnel
