import NoiseTunnel.Standing
/-!
# Peers

A session that has decrypted a transport message has one peer among all the
sessions that run: a session of the other side that has seen the same
handshake. The answer to the client's handshake does not show this; the first
message of the transport does.
-/
open Rust Reactive

namespace NoiseTunnel

variable {P : Primitives} {log : Log} {x : Session} {H : Completed P}

/-! ## Transport keys -/

/-- `k` is a transport key that was derived in `log`. -/
def TransportKey (P : Primitives) (log : Log) (k : Key) : Prop :=
  ∃ x ∈ expansions log, x.ikm.length = KEY_LEN * 2 ∧ P.hkdf x.salt x.ikm x.info = some k

/-- Under the transport keys of session `k`, no session has opened what no session sealed. -/
def Unforgeable {κ : Type} [DecidableEq κ] (P : Primitives) (k : κ) (l : List (κ × Effect)) : Prop :=
  ∀ o ∈ opens (l.map Prod.snd), TransportKey P (proj k l) o.key →
    ∃ s ∈ seals (l.map Prod.snd), s.key = o.key ∧ s.aead_nonce = o.aead_nonce ∧ s.aad = o.aad ∧ s.ct = o.ct

instance (P : Primitives) (log : Log) (k : Key) : Decidable (TransportKey P log k) :=
  inferInstanceAs (Decidable (∃ x ∈ expansions log, _ ∧ _))

instance {κ : Type} [DecidableEq κ] (P : Primitives) (k : κ) (l : List (κ × Effect)) :
    Decidable (Unforgeable P k l) :=
  inferInstanceAs (Decidable (∀ o ∈ opens (l.map Prod.snd), _ → ∃ s ∈ seals (l.map Prod.snd), _ ∧ _ ∧ _ ∧ _))

/-- What `log` hashes and expands is hashed and expanded in `whole`. -/
structure Within (log whole : Log) : Prop where
  hashes : ∀ x ∈ hashes log, x ∈ hashes whole
  expansions : ∀ x ∈ expansions log, x ∈ expansions whole

variable {hs t whole : Log} {x' : Session} {H' : Completed P} {hs' t' : Log}

theorem Within.left (h : Within (hs ++ t) whole) : Within hs whole where
  hashes y hy := h.hashes y (by rw [hashes_append]; exact List.mem_append_left _ hy)
  expansions y hy := h.expansions y (by rw [expansions_append]; exact List.mem_append_left _ hy)

theorem within_proj {κ : Type} [DecidableEq κ] (k : κ) (l : List (κ × Effect)) :
    Within (proj k l) (l.map Prod.snd) where
  hashes _ hx := ((proj_sublist k l).filterMap _).subset hx
  expansions _ hx := ((proj_sublist k l).filterMap _).subset hx

theorem TransportKey.mono {k : Key} (h : TransportKey P log k) (hw : Within log whole) : TransportKey P whole k := by
  obtain ⟨x, hx, hl, hk⟩ := h
  exact ⟨x, hw.expansions x hx, hl, hk⟩

theorem Handshaken.client_key (h : Handshaken x H hs) : TransportKey P (hs ++ t) H.client_write_key := by
  refine ⟨H.client_expansion, ?_, H.ikm_length, H.client_eq⟩
  rw [expansions_append]
  exact List.mem_append_left _ h.client_derived

theorem Handshaken.server_key (h : Handshaken x H hs) : TransportKey P (hs ++ t) H.server_write_key := by
  refine ⟨H.server_expansion, ?_, H.ikm_length, H.server_eq⟩
  rw [expansions_append]
  exact List.mem_append_left _ h.server_derived

theorem Handshaken.read_key (h : Handshaken x H hs) : TransportKey P (hs ++ t) (x.read_key H) := by
  unfold Session.read_key
  split
  · exact h.server_key
  · exact h.client_key

/-- The keys of the handshake are derived from shorter secrets than those of the transport. -/
theorem not_transport_key {k e : Key} {a : Slot} (hkdf : KdfInjective P whole) (hw : Within log whole)
    (h : FromSlot P log e a k) (ha : a.secret_len = KEY_LEN) : ¬TransportKey P whole k := by
  rintro ⟨y, hy, hlen, hk⟩
  obtain ⟨v, ikm, -, -, hx, hk', hl⟩ := h
  have he := hkdf.eq (hw.expansions _ hx) hy hk' hk
  rw [← he] at hlen
  rw [ha, hlen] at hl
  exact absurd hl (by decide)

theorem Session.first_secret_len (x : Session) : x.slots.1.secret_len = KEY_LEN := by
  cases x <;> rfl

theorem Early.not_transport_key (h : Early P x log) (hkdf : KdfInjective P whole) (hw : Within log whole) {s : Seal}
    (hs : s ∈ seals log) : ¬TransportKey P whole s.key := by
  obtain ⟨⟨first, hfirst⟩, -⟩ := h
  rw [hfirst.split, List.append_nil] at hs
  exact NoiseTunnel.not_transport_key hkdf hw (hfirst.first_slot s hs) x.first_secret_len

/-- What is sealed under a transport key is sealed after the handshake. -/
theorem Handshaken.mem_transport (h : Handshaken x H hs) (hkdf : KdfInjective P whole) (hw : Within hs whole) {s : Seal}
    (hk : TransportKey P whole s.key) (hm : s ∈ seals (hs ++ t)) : s ∈ seals t := by
  rw [seals_append] at hm
  rcases List.mem_append.1 hm with hm | hm
  · obtain ⟨first, rest, hspent, hnonce⟩ := h.live.spent
    rw [hspent.split] at hm
    rcases List.mem_append.1 hm with hm | hm
    · exact absurd hk (NoiseTunnel.not_transport_key hkdf hw (hspent.first_slot s hm) x.first_secret_len)
    · exact absurd (hnonce s hm) (Nat.not_lt_zero _)
  · exact hm

theorem Completed.keys_eq (hv : H'.view = H.view)
    (hi : H'.dh_static.val ++ H'.dh_ephem.val = H.dh_static.val ++ H.dh_ephem.val) :
    H'.client_write_key = H.client_write_key ∧ H'.server_write_key = H.server_write_key := by
  have hc := H'.client_eq
  have hs := H'.server_eq
  rw [hv, hi] at hc hs
  exact ⟨Option.some.inj (hc.symm.trans H.client_eq), Option.some.inj (hs.symm.trans H.server_eq)⟩

/-- Who writes under the key that `x` reads under has the other side of the handshake of `x`. -/
theorem Handshaken.agree (hcol : NoCollision P whole) (hkdf : KdfInjective P whole) (h : Handshaken x H hs)
    (h' : Handshaken x' H' hs') (hw : Within hs whole) (hw' : Within hs' whole)
    (he : x'.write_key H' = x.read_key H) :
    x'.side ≠ x.side ∧ H'.view = H.view ∧ H'.client_write_key = H.client_write_key ∧
      H'.server_write_key = H.server_write_key := by
  have hviews (hsalt : H'.view.h2 P = H.view.h2 P)
      (hikm : H'.dh_static.val ++ H'.dh_ephem.val = H.dh_static.val ++ H.dh_ephem.val) :
      H'.view = H.view ∧ H'.client_write_key = H.client_write_key ∧ H'.server_write_key = H.server_write_key := by
    have hv := View.second_inj (hcol.eq (hw'.hashes _ h'.hashed) (hw.hashes _ h.hashed) hsalt)
    exact ⟨hv, Completed.keys_eq hv hikm⟩
  have hc := hw.expansions _ h.client_derived
  have hs := hw.expansions _ h.server_derived
  have hc' := hw'.expansions _ h'.client_derived
  have hs' := hw'.expansions _ h'.server_derived
  unfold Session.write_key Session.read_key at he
  cases hx : x.side with
  | client =>
    cases hx' : x'.side with
    | client =>
      -- a client reads under a key with the other label
      simp only [hx, hx'] at he
      have hexp := hkdf.eq hc' hs H'.client_eq (he ▸ H.server_eq)
      exact absurd (congrArg Expansion.info hexp) client_key_info_ne
    | server =>
      simp only [hx, hx'] at he
      have hexp := hkdf.eq hs' hs H'.server_eq (he ▸ H.server_eq)
      exact ⟨Side.noConfusion, hviews (congrArg Expansion.salt hexp) (congrArg Expansion.ikm hexp)⟩
  | server =>
    cases hx' : x'.side with
    | client =>
      simp only [hx, hx'] at he
      have hexp := hkdf.eq hc' hc H'.client_eq (he ▸ H.client_eq)
      exact ⟨Side.noConfusion, hviews (congrArg Expansion.salt hexp) (congrArg Expansion.ikm hexp)⟩
    | server =>
      simp only [hx, hx'] at he
      have hexp := hkdf.eq hs' hc H'.server_eq (he ▸ H.client_eq)
      exact absurd (congrArg Expansion.info hexp).symm client_key_info_ne

/-! ## Any sessions, interleaved -/

/-- The log of a session that has come to its transport. -/
structure Connected (P : Primitives) (x : Session) (log : Log) (H : Completed P) (hs t : Log) : Prop where
  log_eq : log = hs ++ t
  handshaken : Handshaken x H hs
  transport : Transport P x H t

theorem Connected.completes (h : Connected P x log H hs t) : x.Completes P log H.view := by
  rw [h.log_eq]
  exact h.handshaken.completes

theorem Connected.received_eq (h : Connected P x log H hs t) : receivedPairs log = receivedPairs t := by
  rw [h.log_eq, receivedPairs_append, h.handshaken.silent.2, List.nil_append]

theorem Connected.sent_eq (h : Connected P x log H hs t) : sentPairs log = sentPairs t := by
  rw [h.log_eq, sentPairs_append, h.handshaken.silent.1, List.nil_append]

theorem Connected.opened_key (h : Connected P x log H hs t) {o : Seal} (ho : o ∈ opens t) : o.key = x.read_key H := by
  obtain ⟨i, hi⟩ := List.getElem?_of_mem ho
  obtain ⟨-, m, -, hkey, -⟩ := h.transport.1.received.record i o hi
  exact hkey

theorem Connected.sealed_key (h : Connected P x log H hs t) {s : Seal} (hm : s ∈ seals t) : s.key = x.write_key H := by
  obtain ⟨i, hi⟩ := List.getElem?_of_mem hm
  obtain ⟨-, m, -, hkey, -⟩ := h.transport.1.sent.record i s hi
  exact hkey

/-- A server has answered what it has taken in, in order. -/
theorem Session.answers (x : Session) (hx : x.side = .server) {s : (x.task P).State} (h : Runs (x.task P) s log) :
    sentPairs log <+: (receivedPairs log).map answered := by
  rcases x.stands h with ⟨-, hsilent⟩ | ⟨H, hs, t, rfl, hh, -, hanswers⟩
  · rw [hsilent.1]
    exact List.nil_prefix
  · rw [sentPairs_append, receivedPairs_append, hh.silent.1, hh.silent.2]
    exact hanswers hx

section
variable {κ : Type} [DecidableEq κ] {sessions : κ → Session} {w : (k : κ) → ((sessions k).task P).State}
  {l : List (κ × Effect)} {k k₁ k₂ : κ} {v : View}

/-- Sessions of one side that complete one handshake are one session. -/
theorem same_session (hgen : (generated (l.map Prod.snd)).Nodup) (h₁ : (sessions k₁).Completes P (proj k₁ l) v)
    (h₂ : (sessions k₂).Completes P (proj k₂ l) v) (hside : (sessions k₁).side = (sessions k₂).side) : k₁ = k₂ := by
  have hown : (sessions k₁).own v = (sessions k₂).own v := by rw [Session.own, Session.own, hside]
  have hg₁ := h₁.generated
  have hg₂ := h₂.generated
  rw [← h₁.sees.own, generated_eq] at hg₁
  rw [← h₂.sees.own, ← hown, generated_eq] at hg₂
  rw [generated_eq, List.filterMap_map] at hgen
  obtain ⟨g₁, hm₁, he₁⟩ := List.mem_filterMap.1 hg₁
  obtain ⟨g₂, hm₂, he₂⟩ := List.mem_filterMap.1 hg₂
  exact apart_of_nodup draws hgen (mem_proj.1 hm₁) (mem_proj.1 hm₂) he₁ he₂

theorem side_eq_of_ne {a b c : Side} (ha : a ≠ c) (hb : b ≠ c) : a = b := by
  cases a <;> cases b <;> cases c <;> first | rfl | exact absurd rfl ha | exact absurd rfl hb

/-- Who sealed what a connected session reads is its peer, and connected itself. -/
theorem sealed_by_peer (h : World (fun k => (sessions k).task P) w l) (hcol : NoCollision P (l.map Prod.snd))
    (hkdf : KdfInjective P (l.map Prod.snd)) (hc : Connected P (sessions k) (proj k l) H hs t) {s : Seal}
    (hm : s ∈ seals (l.map Prod.snd)) (hkey : s.key = (sessions k).read_key H) :
    ∃ k' H' hs' t', Connected P (sessions k') (proj k' l) H' hs' t' ∧ s ∈ seals (proj k' l) ∧
      (sessions k').side ≠ (sessions k).side ∧ H'.view = H.view ∧ H'.client_write_key = H.client_write_key ∧
      H'.server_write_key = H.server_write_key := by
  obtain ⟨e, he, hse⟩ := List.mem_filterMap.1 hm
  obtain ⟨⟨k', e'⟩, hme, rfl⟩ := List.mem_map.1 he
  have hm' : s ∈ seals (proj k' l) := List.mem_filterMap.2 ⟨_, mem_proj.2 hme, hse⟩
  have hw := within_proj k l
  have hw' := within_proj k' l
  have htransport : TransportKey P (l.map Prod.snd) s.key := by
    rw [hkey]
    refine TransportKey.mono ?_ hw
    rw [hc.log_eq]
    exact hc.handshaken.read_key
  rcases (sessions k').stands (h.runs k') with hearly | ⟨H', hs', t', hlog, hshaken, ht⟩
  · exact absurd htransport (hearly.not_transport_key hkdf hw' hm')
  · have hc' : Connected P (sessions k') (proj k' l) H' hs' t' := ⟨hlog, hshaken, ht⟩
    rw [hlog] at hw'
    rw [hc.log_eq] at hw
    have hst : s ∈ seals t' := by
      rw [hlog] at hm'
      exact hshaken.mem_transport hkdf hw'.left htransport hm'
    exact ⟨k', H', hs', t', hc', hm', hc.handshaken.agree hcol hkdf hshaken hw.left hw'.left
      ((hc'.sealed_key hst).symm.trans hkey)⟩

/-- What a connected session opens under the keys of `k`, its peer has sealed. -/
theorem unforged_of_peer (h : World (fun k => (sessions k).task P) w l) (hgen : (generated (l.map Prod.snd)).Nodup)
    (hcol : NoCollision P (l.map Prod.snd)) (hkdf : KdfInjective P (l.map Prod.snd)) (hu : Unforgeable P k l)
    (hc₁ : Connected P (sessions k₁) (proj k₁ l) H hs t) (hc₂ : Connected P (sessions k₂) (proj k₂ l) H' hs' t')
    (hside : (sessions k₂).side ≠ (sessions k₁).side) (hview : H'.view = H.view)
    (hkey : TransportKey P (proj k l) ((sessions k₁).read_key H)) : Unforged t t' := by
  intro o ho
  have hokey := hc₁.opened_key ho
  have hol : o ∈ opens (l.map Prod.snd) := by
    have hproj : o ∈ opens (proj k₁ l) := by
      rw [hc₁.log_eq, opens_append]
      exact List.mem_append_right _ ho
    exact ((proj_sublist k₁ l).filterMap _).subset hproj
  obtain ⟨s, hsl, hskey, hnonce, haad, hct⟩ := hu o hol (hokey ▸ hkey)
  obtain ⟨k₃, H₃, hs₃, t₃, hc₃, hs₃, hside₃, hview₃, -⟩ := sealed_by_peer h hcol hkdf hc₁ hsl (hskey.trans hokey)
  -- a second session of that side with the same view would have drawn the same key
  have hcompletes : (sessions k₃).Completes P (proj k₃ l) H'.view := by
    rw [hview, ← hview₃]
    exact hc₃.completes
  obtain rfl : k₂ = k₃ := same_session hgen hc₂.completes hcompletes (side_eq_of_ne hside hside₃)
  have hw := within_proj k₂ l
  rw [hc₂.log_eq] at hs₃ hw
  have htransport : TransportKey P (l.map Prod.snd) s.key := by
    rw [hskey, hokey]
    exact hkey.mono (within_proj k l)
  exact ⟨s, hc₂.handshaken.mem_transport hkdf hw.left htransport hs₃, hskey, hnonce, haad, hct⟩

/-- `k'` is the other end of session `k`: both have completed the handshake `v`, and each has
received a prefix of what the other sent. -/
structure PeerOf (P : Primitives) (sessions : κ → Session) (l : List (κ × Effect)) (v : View) (k k' : κ) : Prop where
  side : (sessions k').side ≠ (sessions k).side
  completes : (sessions k).Completes P (proj k l) v
  peer_completes : (sessions k').Completes P (proj k' l) v
  received : receivedPairs (proj k l) <+: sentPairs (proj k' l)
  peer_received : receivedPairs (proj k' l) <+: sentPairs (proj k l)

theorem peer_of_received (hP : P.Correct) (h : World (fun k => (sessions k).task P) w l)
    (hgen : (generated (l.map Prod.snd)).Nodup) (hcol : NoCollision P (l.map Prod.snd))
    (hkdf : KdfInjective P (l.map Prod.snd)) (hu : Unforgeable P k l) (hne : receivedPairs (proj k l) ≠ []) :
    ∃ v k', PeerOf P sessions l v k k' := by
  rcases (sessions k).stands (h.runs k) with ⟨-, hsilent⟩ | ⟨H, hs, t, hlog, hshaken, ht⟩
  · exact absurd hsilent.2 hne
  have hc : Connected P (sessions k) (proj k l) H hs t := ⟨hlog, hshaken, ht⟩
  have hclient : TransportKey P (proj k l) H.client_write_key := hlog ▸ hshaken.client_key
  have hserver : TransportKey P (proj k l) H.server_write_key := hlog ▸ hshaken.server_key
  have hread : TransportKey P (proj k l) ((sessions k).read_key H) := hlog ▸ hshaken.read_key
  -- one frame that the session has opened names its peer
  obtain ⟨o, ho⟩ : ∃ o, o ∈ opens t := by
    refine List.exists_mem_of_length_pos ?_
    rw [ht.1.received.length_eq, ← hc.received_eq]
    exact List.length_pos_iff.2 hne
  have hokey := hc.opened_key ho
  have hol : o ∈ opens (l.map Prod.snd) := by
    refine ((proj_sublist k l).filterMap _).subset ?_
    show o ∈ opens (proj k l)
    rw [hlog, opens_append]
    exact List.mem_append_right _ ho
  obtain ⟨s, hsl, hskey, -⟩ := hu o hol (hokey ▸ hread)
  obtain ⟨k', H', hs', t', hc', -, hside, hview, hcw, hsw⟩ := sealed_by_peer h hcol hkdf hc hsl (hskey.trans hokey)
  have hread' : TransportKey P (proj k l) ((sessions k').read_key H') := by
    unfold Session.read_key
    split
    · exact hsw ▸ hserver
    · exact hcw ▸ hclient
  have hkeys : (sessions k').write_key H' = (sessions k).read_key H ∧
      (sessions k').read_key H' = (sessions k).write_key H := by
    unfold Session.write_key Session.read_key
    rw [hcw, hsw]
    cases hx : (sessions k).side <;> cases hx' : (sessions k').side
    · exact absurd (hx'.trans hx.symm) hside
    · exact ⟨rfl, rfl⟩
    · exact ⟨rfl, rfl⟩
    · exact absurd (hx'.trans hx.symm) hside
  have hforth := unforged_of_peer h hgen hcol hkdf hu hc hc' hside hview hread
  have hback := unforged_of_peer h hgen hcol hkdf hu hc' hc hside.symm hview.symm hread'
  obtain ⟨hintact, -⟩ := ht
  obtain ⟨hintact', -⟩ := hc'.transport
  rw [hkeys.1, hkeys.2] at hintact'
  refine ⟨H.view, k', hside, hc.completes, hview ▸ hc'.completes, ?_, ?_⟩
  · rw [hc.received_eq, hc'.sent_eq]
    exact hintact'.received_of_sent hP hintact hforth
  · rw [hc'.received_eq, hc.sent_eq]
    exact hintact.received_of_sent hP hintact' hback

/-- A session that has received a transport message has a peer, and no third session has completed their handshake. -/
theorem peer_integrity (hP : P.Correct) (h : World (fun k => (sessions k).task P) w l)
    (hgen : (generated (l.map Prod.snd)).Nodup) (hcol : NoCollision P (l.map Prod.snd))
    (hkdf : KdfInjective P (l.map Prod.snd)) (hu : Unforgeable P k l) (hne : receivedPairs (proj k l) ≠ []) :
    ∃ v k', PeerOf P sessions l v k k' ∧
      ∀ k'', (sessions k'').Completes P (proj k'' l) v → k'' = k ∨ k'' = k' := by
  obtain ⟨v, k', hpeer⟩ := peer_of_received hP h hgen hcol hkdf hu hne
  refine ⟨v, k', hpeer, fun k'' hc => ?_⟩
  by_cases hside : (sessions k'').side = (sessions k).side
  · exact .inl (same_session hgen hc hpeer.completes hside)
  · exact .inr (same_session hgen hc hpeer.peer_completes (side_eq_of_ne hside hpeer.side))

end

theorem peer_integrity_conversation :
    ∃ v k', PeerOf (Concrete.primitives true) Concrete.pair Concrete.played v true k' ∧
      ∀ k'', (Concrete.pair k'').Completes (Concrete.primitives true) (proj k'' Concrete.played) v →
        k'' = true ∨ k'' = k' :=
  peer_integrity (Concrete.correct true) (World.play _ Concrete.conversation) (by decide +kernel) (by decide +kernel)
    (by decide +kernel) (by decide +kernel) (by decide +kernel)

/-! ## What a client is told -/

section
variable {κ : Type} [DecidableEq κ] {sessions : κ → Session} {w : (k : κ) → ((sessions k).task P).State}
  {l : List (κ × Effect)} {k k' : κ} {v : View}

theorem PeerOf.answers (h : World (fun k => (sessions k).task P) w l) (hp : PeerOf P sessions l v k k')
    (hside : (sessions k).side = .client) : receivedPairs (proj k l) <+: (sentPairs (proj k l)).map answered := by
  have hserver : (sessions k').side = .server := by
    cases hk : (sessions k').side with
    | client => exact absurd (hk.trans hside.symm) hp.side
    | server => rfl
  have hanswers := (sessions k').answers hserver (h.runs k')
  exact hp.received.trans (hanswers.trans (hp.peer_received.map answered))

/-- Under any attack that forges nothing under a client's transport keys, what the client decrypts are a server's
answers to its own messages, in order and without a gap. -/
theorem client_answers (hP : P.Correct) (h : World (fun k => (sessions k).task P) w l)
    (hgen : (generated (l.map Prod.snd)).Nodup) (hcol : NoCollision P (l.map Prod.snd))
    (hkdf : KdfInjective P (l.map Prod.snd)) (hu : Unforgeable P k l) (hside : (sessions k).side = .client) :
    receivedPairs (proj k l) <+: (sentPairs (proj k l)).map answered := by
  by_cases hne : receivedPairs (proj k l) = []
  · rw [hne]
    exact List.nil_prefix
  · obtain ⟨v, k', hpeer⟩ := peer_of_received hP h hgen hcol hkdf hu hne
    exact hpeer.answers h hside

/-- The text that `send_secure_message` has returned. -/
def Session.returned : (x : Session) → (x.task P).State → Option String
  | one_shot .., .done (.ok text) => some text
  | _, _ => none

theorem Session.returned_log (x : Session) {s : (x.task P).State} (h : Runs (x.task P) s log) {text : String}
    (hr : x.returned s = some text) :
    ∃ client secret message pt, x = .one_shot client secret message ∧
      sentPairs log = [(.DataPayload, as_bytes message)] ∧ receivedPairs log = [(.DataPayload, pt)] ∧
      from_utf8 pt = some text := by
  cases x with
  | one_shot client secret message =>
    have hstanding := h.inv (OneShot.Standing P client secret message) rfl fun _ _ i hs => OneShot.standing_step i hs
    cases s with
    | idle => cases hr
    | await_resp started => cases hr
    | await_reply tx rx => cases hr
    | done r =>
      cases r with
      | error e => cases hr
      | ok text' =>
        cases hr
        obtain ⟨H, hs, t, rfl, hh, tx, pt, l, hheard, rfl, hpt⟩ := hstanding
        obtain ⟨hsent, hreceived⟩ := hheard.sent
        refine ⟨client, secret, message, pt, rfl, ?_, ?_, hpt⟩
        · rw [sentPairs_append, sentPairs_append, hh.silent.1, hsent]
          rfl
        · rw [receivedPairs_append, receivedPairs_append, hh.silent.2, hreceived]
          rfl
  | interactive client secret => cases hr
  | server keys prologue secret => cases hr

/-- What `send_secure_message` returns is the server's answer to its message, whatever else was sent to the client. -/
theorem secure_message_reply (hP : P.Correct) (h : World (fun k => (sessions k).task P) w l)
    (hgen : (generated (l.map Prod.snd)).Nodup) (hcol : NoCollision P (l.map Prod.snd))
    (hkdf : KdfInjective P (l.map Prod.snd)) (hu : Unforgeable P k l) {text : String}
    (hr : (sessions k).returned (w k) = some text) :
    ∃ client secret message, sessions k = .one_shot client secret message ∧ text = REPLY_PREFIX ++ message := by
  obtain ⟨client, secret, message, pt, hx, hsent, hreceived, hpt⟩ := (sessions k).returned_log (h.runs k) hr
  refine ⟨client, secret, message, hx, ?_⟩
  obtain ⟨v, k', hpeer⟩ := peer_of_received hP h hgen hcol hkdf hu (by rw [hreceived]; exact List.cons_ne_nil _ _)
  have hanswers := hpeer.answers h (by rw [hx]; rfl)
  rw [hreceived, hsent] at hanswers
  have hpt' : pt = as_bytes (REPLY_PREFIX ++ message) := by
    have heq := List.Sublist.eq_of_length hanswers.sublist rfl
    have hmsg : pt = ServerSession.answerTo .DataPayload (as_bytes message) :=
      congrArg Prod.snd (List.singleton_inj.1 heq)
    rw [hmsg]
    exact congrArg (fun s => as_bytes (REPLY_PREFIX ++ s)) (from_utf8_lossy_as_bytes message)
  rw [hpt', from_utf8_as_bytes] at hpt
  exact (Option.some.inj hpt).symm

end

theorem client_answers_conversation :
    receivedPairs (proj true Concrete.played) <+: (sentPairs (proj true Concrete.played)).map answered := by
  have hworld : World (fun k => (Concrete.pair k).task (Concrete.primitives true)) _ Concrete.played :=
    World.play _ Concrete.conversation
  exact client_answers (Concrete.correct true) hworld (by decide +kernel) (by decide +kernel) (by decide +kernel)
    (by decide +kernel) rfl

/-- The client's call in this run returns the answer to its message. -/
theorem secure_message_reply_hei :
    let run := play (fun k => (Concrete.one_shot_pair k).task (Concrete.primitives true)) Concrete.one_message
    World (fun k => (Concrete.one_shot_pair k).task (Concrete.primitives true)) run.1 run.2 ∧
      (Concrete.one_shot_pair true).returned (run.1 true) = some "Server mottok: hei" ∧
      ∃ client secret message, Concrete.one_shot_pair true = .one_shot client secret message ∧
        "Server mottok: hei" = REPLY_PREFIX ++ message := by
  intro run
  have hworld : World (fun k => (Concrete.one_shot_pair k).task (Concrete.primitives true)) run.1 run.2 :=
    World.play _ Concrete.one_message
  have hreturned : (Concrete.one_shot_pair true).returned (run.1 true) = some "Server mottok: hei" := by decide +kernel
  exact ⟨hworld, hreturned, secure_message_reply (k := true) (Concrete.correct true) hworld (by decide +kernel)
    (by decide +kernel) (by decide +kernel) (by decide +kernel) hreturned⟩

end NoiseTunnel
