/-
Tunstile/Soundness.lean

What an accepted handshake message proves about the other party.

The parties' past is a list of `Call`s: every initiation, response and data
packet anyone sealed with the program's functions.  `Unforged` is the ideal
AEAD for one attempt to open a field: it succeeds only if some call sealed
that field under the same key, nonce and associated data.  Keys and
associated data end the two hash chains of a transcript, and a chain of
collision-free hashes can be run backwards (`constr_inj`, `h_inj`), so the
call that sealed the field had the same transcript.

Of the three kinds of calls, the one that sealed a field is told by the
field's length and its associated data: the static key takes 48 bytes, the
timestamp 28, the empty field 16, and data packets have no associated data.
-/
import Tunstile.Agreement

namespace Tunstile

variable {C : Crypto}

/-! ### Running the chains backwards -/

theorem toList_injective {n : ℕ} {a b : List.Vector UInt8 n} (h : a.toList = b.toList) : a = b :=
  List.Vector.eq a b h

namespace InitTranscript

variable (hC : C.CollisionFree) {t t' : InitTranscript C}
include hC

theorem constr₁_inj (h : t.constr₁ = t'.constr₁) : t.ephemeral = t'.ephemeral :=
  toList_injective (hC.kdf_inj (by decide) (by decide) h).2.1

theorem constr₂_inj {i : ℕ} (hi : i < 255)
    (h : C.kdf (C.asRef t.constr₁) t.es i = C.kdf (C.asRef t'.constr₁) t'.es i) :
    t.ephemeral = t'.ephemeral ∧ t.es = t'.es := by
  obtain ⟨hc, hes, -⟩ := hC.mixKey_inj hi hi h
  exact ⟨constr₁_inj hC hc, hes⟩

/-- Everything mixed into the chaining key can be read back from any of the
outputs of its last step. -/
theorem constr_inj {i : ℕ} (hi : i < 255)
    (h : C.kdf (C.asRef t.constr₂) t.ss i = C.kdf (C.asRef t'.constr₂) t'.ss i) :
    t.ephemeral = t'.ephemeral ∧ t.es = t'.es ∧ t.ss = t'.ss := by
  obtain ⟨hc, hss, -⟩ := hC.mixKey_inj hi hi h
  obtain ⟨he, hes⟩ := constr₂_inj hC (by decide) hc
  exact ⟨he, hes, hss⟩

theorem h₁_inj (h : t.h₁ = t'.h₁) : t.responder = t'.responder ∧ t.ephemeral = t'.ephemeral := by
  obtain ⟨hp, he⟩ := hC.mixHash_inj h
  have := hC.hash_inj hp
  simp only [List.flatten_cons, List.flatten_nil, List.append_nil] at this
  exact ⟨toList_injective (List.append_cancel_left this), toList_injective he⟩

theorem h₂_inj (h : t.h₂ = t'.h₂) :
    t.responder = t'.responder ∧ t.ephemeral = t'.ephemeral ∧ t.staticField = t'.staticField := by
  obtain ⟨h₁, hs⟩ := hC.mixHash_inj h
  obtain ⟨hp, he⟩ := h₁_inj hC h₁
  exact ⟨hp, he, hs⟩

/-- The hash stands for everything on the wire and the responder's key. -/
theorem h_inj (h : t.h = t'.h) : t.responder = t'.responder ∧ t.ephemeral = t'.ephemeral ∧
    t.staticField = t'.staticField ∧ t.timestampField = t'.timestampField := by
  obtain ⟨h₂, ht⟩ := hC.mixHash_inj h
  obtain ⟨hp, he, hs⟩ := h₂_inj hC h₂
  exact ⟨hp, he, hs, ht⟩

/-- Chaining key and hash together stand for the whole transcript. -/
theorem eq_of_constr_of_h (hconstr : t.constr = t'.constr) (hh : t.h = t'.h) : t = t' := by
  obtain ⟨-, hes, hss⟩ := constr_inj hC (i := 0) (by decide) hconstr
  obtain ⟨hp, he, hs, ht⟩ := h_inj hC hh
  cases t
  cases t'
  simp only [mk.injEq]
  exact ⟨hp, he, hes, hss, hs, ht⟩

/-- Timestamp key, its associated data and the timestamp field together stand
for the whole transcript. -/
theorem eq_of_timestampKey (hkey : t.timestampKey = t'.timestampKey) (hh : t.h₂ = t'.h₂)
    (hfield : t.timestampField = t'.timestampField) : t = t' := by
  obtain ⟨-, hes, hss⟩ := constr_inj hC (i := 1) (by decide) hkey
  obtain ⟨hp, he, hs⟩ := h₂_inj hC hh
  cases t
  cases t'
  simp only [mk.injEq]
  exact ⟨hp, he, hes, hss, hs, hfield⟩

end InitTranscript

namespace RespTranscript

variable (hC : C.CollisionFree) {t t' : RespTranscript C}
include hC

/-- Everything mixed into the chaining key can be read back from any of the
outputs of its last step. -/
theorem constr_inj {i : ℕ} (hi : i < 255)
    (h : C.kdf (C.asRef t.constr₃) t.psk.toList i = C.kdf (C.asRef t'.constr₃) t'.psk.toList i) :
    t.initConstr = t'.initConstr ∧ t.ephemeral = t'.ephemeral ∧ t.ee = t'.ee ∧ t.se = t'.se ∧
      t.psk = t'.psk := by
  obtain ⟨h₃, hpsk, -⟩ := hC.mixKey_inj hi hi h
  obtain ⟨h₂, hse, -⟩ := hC.mixKey_inj (by decide) (by decide) h₃
  obtain ⟨h₁, hee, -⟩ := hC.mixKey_inj (by decide) (by decide) h₂
  obtain ⟨h₀, he, -⟩ := hC.mixKey_inj (by decide) (by decide) h₁
  exact ⟨h₀, toList_injective he, hee, hse, toList_injective hpsk⟩

theorem h_inj (h : t.h = t'.h) : t.initH = t'.initH := by
  obtain ⟨h₁, -⟩ := hC.mixHash_inj h
  exact (hC.mixHash_inj h₁).1

/-- Tag key and hash together stand for the whole transcript. -/
theorem eq_of_tagKey_of_h (hkey : t.tagKey = t'.tagKey) (hh : t.h = t'.h) : t = t' := by
  obtain ⟨hc, he, hee, hse, hpsk⟩ := constr_inj hC (i := 2) (by decide) hkey
  have hi := h_inj hC hh
  cases t
  cases t'
  simp only [mk.injEq]
  exact ⟨hc, hi, he, hee, hse, hpsk⟩

end RespTranscript

/-! ### The past -/

/-- A sealed field. -/
structure Seal (C : Crypto) where
  key : C.Hash256
  counter : UInt64
  authText : Bytes
  plaintext : Bytes
  field : Bytes

/-- A successful call that sealed something. -/
inductive Call (C : Crypto) where
  | initiate (ourPrivate : C.Secret) (peerPublic : PublicKey) (ephemeralSecret : C.Secret)
      (timestamp : C.Tai64N)
  /-- A response to the initiation `packet`, received as `state`. -/
  | respond (ourPrivate : C.Secret) (packet : Bytes) (state : InitReceived C)
      (ephemeralSecret : C.Secret) (presharedKey : Option PresharedKey)
  | send (transport : Transport C) (payload : Bytes)

namespace Call

/-- What a call sealed. -/
def seals : Call C → List (Seal C)
  | .initiate ourPrivate peerPublic ephemeralSecret timestamp =>
      let t := InitTranscript.ofInitiator ourPrivate peerPublic ephemeralSecret timestamp
      [⟨t.staticKey, 0, C.asRef t.h₁, (C.publicKey ourPrivate).toList, t.staticField⟩,
        ⟨t.timestampKey, 0, C.asRef t.h₂, (C.toBytes timestamp).toList, t.timestampField⟩]
  | .respond _ _ state ephemeralSecret presharedKey =>
      let t := RespTranscript.ofResponder state ephemeralSecret presharedKey
      [⟨t.tagKey, 0, C.asRef t.h, [], C.sealed t.tagKey 0 (C.asRef t.h) []⟩]
  | .send t payload =>
      [⟨t.sendAead, t.sendCounter, [], payload, C.sealed t.sendAead t.sendCounter [] payload⟩]

/-- A response is made to an initiation its maker received. -/
def Valid : Call C → Prop
  | .respond ourPrivate packet state _ _ => Received ourPrivate packet state
  | _ => True

/-- The fresh key a response carries. -/
def responderEphemeral : Call C → Option PublicKey
  | .respond _ _ _ ephemeralSecret _ => some (C.publicKey ephemeralSecret)
  | _ => none

end Call

/-- Opening this field under this key, nonce and associated data succeeds
only if some past call sealed it so. -/
def Unforged (past : List (Call C)) (key : C.Hash256) (counter : UInt64)
    (authText field : Bytes) : Prop :=
  ∀ m, C.opened key counter authText field = some m →
    ∃ call ∈ past, Seal.mk key counter authText m field ∈ call.seals

/-- What was sealed opens without forgery. -/
theorem unforged_of_sealed (hseal : C.OpenSeal) {past : List (Call C)} {call : Call C}
    {key : C.Hash256} {counter : UInt64} {authText m : Bytes} (hcall : call ∈ past)
    (h : Seal.mk key counter authText m (C.sealed key counter authText m) ∈ call.seals) :
    Unforged past key counter authText (C.sealed key counter authText m) := by
  intro m' hop
  rw [hseal] at hop
  cases hop
  exact ⟨call, hcall, h⟩

/-! ### Who sealed a field -/

section Sealed

variable {call : Call C} {key : C.Hash256} {counter : UInt64} {authText m field : Bytes}

/-- A data packet was sealed by a send. -/
theorem Call.send_of_seal (hC : C.CollisionFree) (h : Seal.mk key counter [] m field ∈ call.seals) :
    ∃ t, call = .send t m ∧ key = t.sendAead ∧ counter = t.sendCounter := by
  cases call with
  | initiate ourPrivate peerPublic ephemeralSecret timestamp =>
      rcases List.mem_pair.mp h with h | h <;>
        exact absurd (Seal.mk.inj h).2.2.1.symm (hC.asRef_ne_nil _)
  | respond ourPrivate packet state ephemeralSecret presharedKey =>
      exact absurd (Seal.mk.inj (List.mem_singleton.mp h)).2.2.1.symm (hC.asRef_ne_nil _)
  | send t payload =>
      obtain ⟨rfl, rfl, -, rfl, -⟩ := Seal.mk.inj (List.mem_singleton.mp h)
      exact ⟨t, rfl, rfl, rfl⟩

/-- An empty field with associated data was sealed by a response. -/
theorem Call.respond_of_seal (hne : authText ≠ []) (hlen : field.length = aeadTagSize)
    (h : Seal.mk key counter authText m field ∈ call.seals) :
    ∃ r packet state e psk, call = .respond r packet state e psk ∧
      key = (RespTranscript.ofResponder state e psk).tagKey ∧
      authText = C.asRef (RespTranscript.ofResponder state e psk).h := by
  cases call with
  | initiate ourPrivate peerPublic ephemeralSecret timestamp =>
      -- both fields of an initiation are longer
      rcases List.mem_pair.mp h with h | h <;>
      · have := congrArg List.length (Seal.mk.inj h).2.2.2.2
        rw [hlen] at this
        exact absurd (this.trans (C.length_sealed _ _ _ _)) (by simp)
  | respond r packet state e psk =>
      obtain ⟨rfl, -, rfl, -, -⟩ := Seal.mk.inj (List.mem_singleton.mp h)
      exact ⟨r, packet, state, e, psk, rfl, rfl, rfl⟩
  | send t payload => exact absurd (Seal.mk.inj (List.mem_singleton.mp h)).2.2.1 hne

/-- A timestamp field with associated data was sealed by an initiation. -/
theorem Call.initiate_of_seal (hne : authText ≠ []) (hlen : field.length = 12 + aeadTagSize)
    (h : Seal.mk key counter authText m field ∈ call.seals) :
    ∃ i p e ts, call = .initiate i p e ts ∧
      key = (InitTranscript.ofInitiator i p e ts).timestampKey ∧
      authText = C.asRef (InitTranscript.ofInitiator i p e ts).h₂ ∧
      field = (InitTranscript.ofInitiator i p e ts).timestampField := by
  cases call with
  | initiate i p e ts =>
      rcases List.mem_pair.mp h with h | h
      · -- the static-key field is longer
        have := congrArg List.length (Seal.mk.inj h).2.2.2.2
        rw [hlen] at this
        exact absurd (this.trans (C.length_sealed _ _ _ _)) (by simp [List.Vector.toList_length])
      · obtain ⟨rfl, -, rfl, -, rfl⟩ := Seal.mk.inj h
        exact ⟨i, p, e, ts, rfl, rfl, rfl, rfl⟩
  | respond r packet state e psk =>
      have := congrArg List.length (Seal.mk.inj (List.mem_singleton.mp h)).2.2.2.2
      rw [hlen] at this
      exact absurd (this.trans (C.length_sealed _ _ _ _)) (by simp)
  | send t payload => exact absurd (Seal.mk.inj (List.mem_singleton.mp h)).2.2.1 hne

end Sealed

/-! ### What acceptance proves -/

section Acceptance

variable (hC : C.CollisionFree) {past : List (Call C)}
include hC

/-- An accepted initiation is one that somebody made, transcript for
transcript. -/
theorem Received.exists_initiate {r : C.Secret} {packet : Bytes} {st : InitReceived C}
    (h : Received r packet st)
    (hunf : Unforged past (InitTranscript.ofPacket r st.peerPublic packet).timestampKey 0
      (C.asRef (InitTranscript.ofPacket r st.peerPublic packet).h₂)
      (slice packet initEncryptedTimestamp)) :
    ∃ i p e ts, Call.initiate i p e ts ∈ past ∧
      InitTranscript.ofPacket r st.peerPublic packet = InitTranscript.ofInitiator i p e ts := by
  obtain ⟨m, hop, -⟩ := h.timestamp_opened
  obtain ⟨call, hcall, hseal⟩ := hunf m hop
  have hlen : (slice packet initEncryptedTimestamp).length = 12 + aeadTagSize :=
    length_slice (by rw [h.length_eq]; decide)
  obtain ⟨i, p, e, ts, rfl, hkey, hauth, hfield⟩ :=
    Call.initiate_of_seal (hC.asRef_ne_nil _) hlen hseal
  exact ⟨i, p, e, ts, hcall,
    InitTranscript.eq_of_timestampKey hC hkey (hC.asRef_inj hauth) hfield⟩

/-- An accepted response is one that somebody made, transcript for
transcript. -/
theorem Answered.exists_respond {sent : InitSent C} {k : C.Secret} {psk : Option PresharedKey}
    {packet : Bytes} {est : InitiatorEstablished C} (h : Answered sent k psk packet est)
    (hunf : Unforged past (RespTranscript.ofPacket sent k psk packet).tagKey 0
      (C.asRef (RespTranscript.ofPacket sent k psk packet).h)
      (slice packet respEncryptedEmptyTag)) :
    ∃ r packet' state e psk', Call.respond r packet' state e psk' ∈ past ∧
      RespTranscript.ofPacket sent k psk packet = RespTranscript.ofResponder state e psk' := by
  obtain ⟨m, hop⟩ := h.tag_opened
  obtain ⟨call, hcall, hseal⟩ := hunf m hop
  have hlen : (slice packet respEncryptedEmptyTag).length = aeadTagSize :=
    length_slice (by rw [h.length_eq]; decide)
  obtain ⟨r, packet', state, e, psk', rfl, hkey, hauth⟩ :=
    Call.respond_of_seal (hC.asRef_ne_nil _) hlen hseal
  exact ⟨r, packet', state, e, psk', hcall,
    RespTranscript.eq_of_tagKey_of_h hC hkey (hC.asRef_inj hauth)⟩

end Acceptance

/-- **Response soundness and pre-shared-key binding.**  A response that a
pending initiation accepts was made by the holder of the intended peer's
static key, on this initiation's transcript, with the ephemeral key in the
packet and the same effective pre-shared key, and both sides derive the same
chaining key.  Hence no response is accepted when every response by that
holder used another pre-shared key, and, responders' ephemeral keys being
fresh, none that was made to another initiation. -/
theorem response_sound (hC : C.CollisionFree) (past : List (Call C))
    (hvalid : ∀ call ∈ past, call.Valid) (i e : C.Secret) (peerPublic : PublicKey)
    (index : UInt32) (ts : C.Tai64N) (cookies cookies' : Generator C) (buf out : Bytes)
    (sent : InitSent C)
    (hsent : InitSent.initiate i peerPublic index e ts cookies buf = (.ok sent, cookies', out))
    (k : C.Secret) (psk : Option PresharedKey) (packet : Bytes)
    (hunf : Unforged past (RespTranscript.ofPacket sent k psk packet).tagKey 0
      (C.asRef (RespTranscript.ofPacket sent k psk packet).h)
      (slice packet respEncryptedEmptyTag)) :
    (∀ est, sent.responseReceived k psk packet = .ok est →
      ∃ r packet' state eᵣ psk', Call.respond r packet' state eᵣ psk' ∈ past ∧
        C.publicKey r = peerPublic ∧
        InitReceived.receive r packet' = .ok state ∧
        InitTranscript.ofPacket r state.peerPublic packet'
          = InitTranscript.ofInitiator i peerPublic e ts ∧
        C.publicKey eᵣ = toKey (slice packet respEphemeralPk) ∧
        effectivePsk psk' = effectivePsk psk ∧
        ∀ indexᵣ tsᵣ cookiesᵣ cookiesᵣ' bufᵣ outᵣ estᵣ,
          state.respond indexᵣ eᵣ psk' tsᵣ cookiesᵣ bufᵣ = (.ok estᵣ, cookiesᵣ', outᵣ) →
          estᵣ.constr = est.constr) ∧
    ((∀ r packet' state eᵣ psk', Call.respond r packet' state eᵣ psk' ∈ past →
        C.publicKey r = peerPublic → effectivePsk psk' ≠ effectivePsk psk) →
      ∀ est, sent.responseReceived k psk packet ≠ .ok est) ∧
    ((∀ a ∈ past, ∀ b ∈ past, a.responderEphemeral.isSome = true →
        a.responderEphemeral = b.responderEphemeral → a = b) →
      ∀ r packet' state eᵣ psk', Call.respond r packet' state eᵣ psk' ∈ past →
        C.publicKey eᵣ = toKey (slice packet respEphemeralPk) →
        InitTranscript.ofPacket r state.peerPublic packet'
          ≠ InitTranscript.ofInitiator i peerPublic e ts →
        ∀ est, sent.responseReceived k psk packet ≠ .ok est) := by
  -- the pending state is the end of the initiation's transcript
  have hstate : sent.constr = (InitTranscript.ofInitiator i peerPublic e ts).constr ∧
      sent.h = (InitTranscript.ofInitiator i peerPublic e ts).h := by
    obtain ⟨-, err, buf', h⟩ | ⟨-, -, mac1, msg, h, -⟩ :=
      InitSent.initiate_cases i peerPublic index e ts cookies buf
    · cases congrArg Prod.fst (hsent.symm.trans h)
    · cases congrArg Prod.fst (hsent.symm.trans h)
      exact ⟨rfl, rfl⟩
  have main : ∀ est, sent.responseReceived k psk packet = .ok est →
      ∃ r packet' state eᵣ psk', Call.respond r packet' state eᵣ psk' ∈ past ∧
        Received r packet' state ∧
        InitTranscript.ofPacket r state.peerPublic packet'
          = InitTranscript.ofInitiator i peerPublic e ts ∧
        RespTranscript.ofPacket sent k psk packet
          = RespTranscript.ofResponder state eᵣ psk' := by
    intro est hok
    obtain ⟨r, packet', state, eᵣ, psk', hmem, htr⟩ :=
      (InitSent.responseReceived_ok_iff.mp hok).exists_respond hC hunf
    have hrecv : Received r packet' state := hvalid _ hmem
    refine ⟨r, packet', state, eᵣ, psk', hmem, hrecv, ?_, htr⟩
    refine InitTranscript.eq_of_constr_of_h hC ?_ ?_
    · rw [← hrecv.constr_eq, ← hstate.1]
      exact (congrArg RespTranscript.initConstr htr).symm
    · rw [← hrecv.h_eq, ← hstate.2]
      exact (congrArg RespTranscript.initH htr).symm
  refine ⟨fun est hok => ?_, fun hpsk est hok => ?_, fun hfresh r₁ packet₁ state₁ e₁ psk₁ hmem₁
    heph₁ hne est hok => ?_⟩
  · obtain ⟨r, packet', state, eᵣ, psk', hmem, hrecv, hinit, htr⟩ := main est hok
    have hansw := InitSent.responseReceived_ok_iff.mp hok
    refine ⟨r, packet', state, eᵣ, psk', hmem, congrArg InitTranscript.responder hinit,
      InitReceived.receive_ok_iff.mpr hrecv, hinit, (congrArg RespTranscript.ephemeral htr).symm,
      (congrArg RespTranscript.psk htr).symm, fun indexᵣ tsᵣ cookiesᵣ cookiesᵣ' bufᵣ outᵣ estᵣ hr => ?_⟩
    obtain ⟨-, err, h⟩ | ⟨-, mac1, msg, h, -⟩ :=
      state.respond_cases indexᵣ eᵣ psk' tsᵣ cookiesᵣ bufᵣ
    · cases congrArg Prod.fst (hr.symm.trans h)
    · cases congrArg Prod.fst (hr.symm.trans h)
      rw [hansw.est_eq, htr]
  · obtain ⟨r, packet', state, eᵣ, psk', hmem, -, hinit, htr⟩ := main est hok
    exact hpsk r packet' state eᵣ psk' hmem (congrArg InitTranscript.responder hinit)
      (congrArg RespTranscript.psk htr).symm
  · obtain ⟨r, packet', state, eᵣ, psk', hmem, -, hinit, htr⟩ := main est hok
    -- a fresh ephemeral key belongs to one response
    have hsame := hfresh _ hmem₁ _ hmem rfl
      (congrArg some (heph₁.trans (congrArg RespTranscript.ephemeral htr)))
    cases hsame
    exact hne hinit

/-- The assumptions hold of an honest exchange over `symbolic`, whose
response is accepted. -/
theorem response_sound_symbolic :
    ∃ (past : List (Call Crypto.symbolic)) (sent : InitSent Crypto.symbolic) (packet : Bytes)
      (est : InitiatorEstablished Crypto.symbolic),
      sent.responseReceived (1 : UInt8) none packet = .ok est ∧
      ∃ r packet' state eᵣ psk', Call.respond r packet' state eᵣ psk' ∈ past ∧
        Crypto.symbolic.publicKey r = Crypto.symbolic.publicKey (2 : UInt8) ∧
        Crypto.symbolic.publicKey eᵣ = toKey (slice packet respEphemeralPk) := by
  have hC := Crypto.symbolic_correct
  obtain ⟨sent, cookies', msgᵢ, recv, hinit, -, hrecv, hsame, -⟩ :=
    honest_initiation hC (i := (1 : UInt8)) (r := (2 : UInt8)) (e := (3 : UInt8)) 100
      (0 : Fin (2 ^ 64)) (Generator.new _ (Crypto.symbolic.publicKey (2 : UInt8)))
      (List.replicate 148 0) rfl rfl (by rw [List.length_replicate]; decide)
  obtain ⟨-, msgᵣ, -, hmsgᵣ, hansw⟩ :=
    honest_response hC (e := (4 : UInt8)) none none 200 (0 : Fin (2 ^ 64))
      (Generator.new _ (Crypto.symbolic.publicKey (1 : UInt8)))
      (List.replicate 92 0) hsame rfl rfl (by rw [List.length_replicate]; decide)
  have hok := InitSent.responseReceived_ok_iff.mpr hansw
  have hunf : Unforged [Call.respond (2 : UInt8) msgᵢ recv (4 : UInt8) none]
      (RespTranscript.ofPacket sent (1 : UInt8) none msgᵣ).tagKey 0
      (Crypto.symbolic.asRef (RespTranscript.ofPacket sent (1 : UInt8) none msgᵣ).h)
      (slice msgᵣ respEncryptedEmptyTag) := by
    have htr : RespTranscript.ofPacket sent (1 : UInt8) none msgᵣ
        = RespTranscript.ofResponder recv (4 : UInt8) none :=
      RespTranscript.ofPacket_eq hC hsame rfl hmsgᵣ
    rw [htr, hmsgᵣ.tag_eq]
    exact unforged_of_sealed hC.opened_sealed List.mem_cons_self List.mem_cons_self
  have hvalid : ∀ call ∈ [Call.respond (C := Crypto.symbolic) (2 : UInt8) msgᵢ recv (4 : UInt8)
      none], call.Valid := by
    intro call hcall
    rw [List.mem_singleton.mp hcall]
    exact hrecv
  obtain ⟨r, packet', state, eᵣ, psk', hmem, hr, -, -, heph, -⟩ :=
    (response_sound Crypto.symbolic_collisionFree _ hvalid _ _ _ _ _ _ _ _ _ sent hinit
      (1 : UInt8) none msgᵣ hunf).1 _ hok
  exact ⟨_, sent, msgᵣ, _, hok, r, packet', state, eᵣ, psk', hmem, hr, heph⟩

end Tunstile
