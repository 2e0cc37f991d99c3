/-
Tunstile/Agreement.lean

Completeness of the handshake: two honest parties that exchange one
initiation and one response end with transports that carry data both ways.

The initiator and the responder compute their transcripts independently.
The two `ofPacket_eq` lemmas say that, read back from the wire, they are the
same transcript; the rest is reading off keys.
-/
import Tunstile.Transcript
import Tunstile.Ideal

namespace Tunstile

variable {C : Crypto}

/-! ### The two sides compute the same transcripts -/

section Agreement

variable (hC : C.Correct)
include hC

/-- The responder's transcript of an honest initiation is the initiator's. -/
theorem InitTranscript.ofPacket_eq {i r e : C.Secret} {ts : C.Tai64N} {sender : UInt32}
    {msg : Bytes} (h : IsInit sender (ofInitiator i (C.publicKey r) e ts) msg) :
    ofPacket r (C.publicKey i) msg = ofInitiator i (C.publicKey r) e ts := by
  have he : toKey (slice msg initEphemeralPk) = C.publicKey e := by
    rw [h.ephemeral_eq]
    exact toKey_toList _
  rw [ofPacket, he, h.static_eq, h.timestamp_eq, hC.diffieHellman_comm r e,
    hC.diffieHellman_comm r i]
  rfl

/-- An honest initiation is accepted. -/
theorem IsInit.received {i r e : C.Secret} {ts : C.Tai64N} {sender : UInt32} {msg : Bytes}
    (h : IsInit sender (InitTranscript.ofInitiator i (C.publicKey r) e ts) msg)
    (hes : C.wasContributory (C.diffieHellman e (C.publicKey r)) = true)
    (hss : C.wasContributory (C.diffieHellman i (C.publicKey r)) = true) :
    Received r msg
      { peerPublic := C.publicKey i
        ephemeralPublicInitiator := C.publicKey e
        indexInitiator := sender
        timestamp := ts
        constr := (InitTranscript.ofInitiator i (C.publicKey r) e ts).constr
        h := (InitTranscript.ofInitiator i (C.publicKey r) e ts).h } := by
  have ht := InitTranscript.ofPacket_eq hC h
  refine ⟨h.length_eq, h.hasType, ?_, ?_, ?_, ?_, ?_, ?_, ?_, ?_⟩ <;> dsimp only <;>
    try rw [ht]
  · exact hes
  · exact hss
  · exact hC.opened_sealed _ _ _ _
  · exact ⟨_, hC.opened_sealed _ _ _ _, hC.fromSlice_toBytes ts⟩
  · rw [h.ephemeral_eq]
    exact (toKey_toList _).symm
  · rw [h.sender_eq, u32FromLe_u32ToLe]

/-- The responder's state `recv` was read from the message that left the
initiator in state `sent`. -/
structure SameInitiation (i : C.Secret) (sent : InitSent C) (recv : InitReceived C) : Prop where
  peerPublic_eq : recv.peerPublic = C.publicKey i
  ephemeral_eq : recv.ephemeralPublicInitiator = C.publicKey sent.ephemeralSecretInitiator
  index_eq : recv.indexInitiator = sent.indexInitiator
  constr_eq : recv.constr = sent.constr
  h_eq : recv.h = sent.h

/-- The initiator's transcript of an honest response is the responder's. -/
theorem RespTranscript.ofPacket_eq {i e : C.Secret} {sent : InitSent C} {recv : InitReceived C}
    {pskᵢ pskᵣ : Option PresharedKey} {sender receiver : UInt32} {tagField msg : Bytes}
    (hsame : SameInitiation i sent recv) (hpsk : effectivePsk pskᵢ = effectivePsk pskᵣ)
    (h : IsResp sender receiver (C.publicKey e) tagField msg) :
    ofPacket sent i pskᵢ msg = ofResponder recv e pskᵣ := by
  have he : toKey (slice msg respEphemeralPk) = C.publicKey e := by
    rw [h.ephemeral_eq]
    exact toKey_toList _
  rw [ofPacket, ofResponder, he, hsame.peerPublic_eq, hsame.ephemeral_eq, hsame.constr_eq,
    hsame.h_eq, hpsk, hC.diffieHellman_comm e, hC.diffieHellman_comm e i]

/-- An honest response is accepted. -/
theorem IsResp.answered {i e : C.Secret} {sent : InitSent C} {recv : InitReceived C}
    {pskᵢ pskᵣ : Option PresharedKey} {sender : UInt32} {msg : Bytes}
    (hsame : SameInitiation i sent recv) (hpsk : effectivePsk pskᵢ = effectivePsk pskᵣ)
    (h : IsResp sender recv.indexInitiator (C.publicKey e)
      (C.sealed (RespTranscript.ofResponder recv e pskᵣ).tagKey 0
        (C.asRef (RespTranscript.ofResponder recv e pskᵣ).h) []) msg)
    (hee : C.wasContributory
      (C.diffieHellman sent.ephemeralSecretInitiator (C.publicKey e)) = true) :
    Answered sent i pskᵢ msg
      ⟨sent.indexInitiator, sender, (RespTranscript.ofResponder recv e pskᵣ).constr⟩ := by
  have ht := RespTranscript.ofPacket_eq hC hsame hpsk h
  refine ⟨h.length_eq, h.hasType, ?_, ?_, ⟨[], ?_⟩, ?_⟩
  · rw [h.receiver_eq, u32FromLe_u32ToLe, hsame.index_eq]
  · rw [ht]
    show C.wasContributory (C.diffieHellman e recv.ephemeralPublicInitiator) = true
    rw [hsame.ephemeral_eq, ← hC.diffieHellman_comm, hee]
  · rw [ht, h.tag_eq]
    exact hC.opened_sealed _ _ _ _
  · rw [ht, h.sender_eq, u32FromLe_u32ToLe]

end Agreement

/-! ### Matching transports -/

/-- Transports that hold each other's keys and indices. -/
structure CrossMatched (a b : Transport C) : Prop where
  send_eq : a.sendAead = b.recvAead
  recv_eq : a.recvAead = b.sendAead
  peerIndex_left : a.peerIndex = b.ourIndex
  peerIndex_right : b.peerIndex = a.ourIndex

theorem CrossMatched.symm {a b : Transport C} (h : CrossMatched a b) : CrossMatched b a :=
  ⟨h.recv_eq.symm, h.send_eq.symm, h.peerIndex_right, h.peerIndex_left⟩

/-- Whatever either has sent so far, a packet that `a` sends is decoded by
`b` to its counter and its payload. -/
def Delivers (a b : Transport C) : Prop :=
  ∀ (payload buf : Bytes) (n m : UInt64), n < rejectAfterMessages →
    packetLen payload.length ≤ buf.length →
    ∃ out opened,
      { a with sendCounter := n }.send payload buf
        = (.ok (packetLen payload.length), { a with sendCounter := n + 1 }, out) ∧
      { b with sendCounter := m }.receive (out.take (packetLen payload.length))
        = .ok (n, payload.length, opened) ∧
      opened.take payload.length = payload

theorem CrossMatched.delivers (hseal : C.OpenSeal) {a b : Transport C} (h : CrossMatched a b) :
    Delivers a b := by
  intro payload buf n m hn hbuf
  refine ⟨_, Crypto.relocated (dataWire a.peerIndex n (C.sealed a.sendAead n [] payload))
    dataPayloadOffset payload, Transport.send_ok _ hbuf hn, ?_, Transport.take_relocated⟩
  rw [List.take_left' (length_dataWire_sealed _ _ _ _), Transport.receive_ok_iff]
  have hauth := Transport.authentic_dataWire hseal (t := { b with sendCounter := m })
    h.peerIndex_left h.send_eq n payload
  exact ⟨payload, hauth, rfl, rfl⟩

/-! ### Completeness -/

section Honest

variable (hC : C.Correct) {i r : C.Secret}
include hC

/-- An initiation reaches the responder it was made for. -/
theorem honest_initiation {e : C.Secret} (index : UInt32) (ts : C.Tai64N) (cookies : Generator C)
    (buf : Bytes) (hes : C.wasContributory (C.diffieHellman e (C.publicKey r)) = true)
    (hss : C.wasContributory (C.diffieHellman i (C.publicKey r)) = true)
    (hbuf : initMsgLength ≤ buf.length) :
    ∃ sent cookies' msg recv,
      InitSent.initiate i (C.publicKey r) index e ts cookies buf
        = (.ok sent, cookies', msg ++ buf.drop initMsgLength) ∧
      IsInit index (InitTranscript.ofInitiator i (C.publicKey r) e ts) msg ∧ Received r msg recv ∧
      SameInitiation i sent recv ∧ sent.indexInitiator = index ∧
      sent.ephemeralSecretInitiator = e ∧ recv.timestamp = ts := by
  obtain ⟨hfail, -⟩ | ⟨-, -, mac1, msg, hinit, hmsg⟩ :=
    InitSent.initiate_cases i (C.publicKey r) index e ts cookies buf
  · rcases hfail with hshort | hnc
    · omega
    · rw [hes] at hnc
      cases hnc
  · exact ⟨_, _, msg, _, hinit, hmsg, hmsg.received hC hes hss,
      ⟨rfl, rfl, rfl, rfl, rfl⟩, rfl, rfl, rfl⟩

/-- A response reaches the initiator that asked for it. -/
theorem honest_response {e : C.Secret} {sent : InitSent C} {recv : InitReceived C}
    (pskᵢ pskᵣ : Option PresharedKey) (index : UInt32) (ts : C.Tai64N) (cookies : Generator C)
    (buf : Bytes) (hsame : SameInitiation i sent recv)
    (hee : C.wasContributory (C.diffieHellman sent.ephemeralSecretInitiator (C.publicKey e)) = true)
    (hpsk : effectivePsk pskᵢ = effectivePsk pskᵣ) (hbuf : respMsgLength ≤ buf.length) :
    ∃ cookies' msg,
      recv.respond index e pskᵣ ts cookies buf
        = (.ok ⟨index, sent.indexInitiator, (RespTranscript.ofResponder recv e pskᵣ).constr⟩,
          cookies', msg ++ buf.drop respMsgLength) ∧
      IsResp index recv.indexInitiator (C.publicKey e)
        (C.sealed (RespTranscript.ofResponder recv e pskᵣ).tagKey 0
          (C.asRef (RespTranscript.ofResponder recv e pskᵣ).h) []) msg ∧
      Answered sent i pskᵢ msg
        ⟨sent.indexInitiator, index, (RespTranscript.ofResponder recv e pskᵣ).constr⟩ := by
  obtain ⟨hfail, -⟩ | ⟨-, mac1, msg, hresp, hmsg⟩ := recv.respond_cases index e pskᵣ ts cookies buf
  · omega
  · exact ⟨_, msg, hsame.index_eq ▸ hresp, hmsg, hmsg.answered hC hsame hpsk hee⟩

end Honest

/-- **Handshake completeness and key agreement.**  The message written by
`initiate` is accepted and yields the initiator's key and timestamp, the
message written by `respond` is accepted, and the finished transports
deliver in both directions. -/
theorem handshake_agreement (hC : C.Correct) (i r eᵢ eᵣ : C.Secret) (indexᵢ indexᵣ : UInt32)
    (tsᵢ tsᵣ : C.Tai64N) (cookiesᵢ cookiesᵣ : Generator C) (pskᵢ pskᵣ : Option PresharedKey)
    (bufᵢ bufᵣ : Bytes)
    (hes : C.wasContributory (C.diffieHellman eᵢ (C.publicKey r)) = true)
    (hss : C.wasContributory (C.diffieHellman i (C.publicKey r)) = true)
    (hee : C.wasContributory (C.diffieHellman eᵢ (C.publicKey eᵣ)) = true)
    (hpsk : effectivePsk pskᵢ = effectivePsk pskᵣ)
    (hbufᵢ : initMsgLength ≤ bufᵢ.length) (hbufᵣ : respMsgLength ≤ bufᵣ.length) :
    ∃ sent cookiesᵢ' outᵢ recv estᵣ cookiesᵣ' outᵣ estᵢ,
      InitSent.initiate i (C.publicKey r) indexᵢ eᵢ tsᵢ cookiesᵢ bufᵢ
        = (.ok sent, cookiesᵢ', outᵢ) ∧
      InitReceived.receive r (outᵢ.take initMsgLength) = .ok recv ∧
      recv.peerPublic = C.publicKey i ∧ recv.timestamp = tsᵢ ∧
      recv.respond indexᵣ eᵣ pskᵣ tsᵣ cookiesᵣ bufᵣ = (.ok estᵣ, cookiesᵣ', outᵣ) ∧
      sent.responseReceived i pskᵢ (outᵣ.take respMsgLength) = .ok estᵢ ∧
      CrossMatched estᵢ.finish estᵣ.finish ∧
      Delivers estᵢ.finish estᵣ.finish ∧ Delivers estᵣ.finish estᵢ.finish := by
  obtain ⟨sent, cookiesᵢ', msgᵢ, recv, hinit, hmsgᵢ, hrecv, hsame, -, heph, hts⟩ :=
    honest_initiation hC indexᵢ tsᵢ cookiesᵢ bufᵢ hes hss hbufᵢ
  obtain ⟨cookiesᵣ', msgᵣ, hresp, hmsgᵣ, hansw⟩ :=
    honest_response hC pskᵢ pskᵣ indexᵣ tsᵣ cookiesᵣ bufᵣ hsame (heph ▸ hee) hpsk hbufᵣ
  have hmatch : ∀ c : C.Hash256,
      CrossMatched (InitiatorEstablished.finish ⟨sent.indexInitiator, indexᵣ, c⟩)
        (ReceiverEstablished.finish ⟨indexᵣ, sent.indexInitiator, c⟩) :=
    fun _ => ⟨rfl, rfl, rfl, rfl⟩
  refine ⟨sent, _, _, recv, _, _, _, _, hinit, ?_, hsame.peerPublic_eq, hts, hresp, ?_, hmatch _,
    (hmatch _).delivers hC.opened_sealed, (hmatch _).symm.delivers hC.opened_sealed⟩
  · rw [List.take_left' hmsgᵢ.length_eq, InitReceived.receive_ok_iff]
    exact hrecv
  · rw [List.take_left' hmsgᵣ.length_eq, InitSent.responseReceived_ok_iff]
    exact hansw

/-- The agreement is not empty: the primitives `symbolic` run it. -/
theorem handshake_agreement_symbolic :
    ∃ sent cookies out recv estᵢ estᵣ,
      InitSent.initiate (C := Crypto.symbolic) (1 : UInt8) (Crypto.symbolic.publicKey (2 : UInt8))
        100 (3 : UInt8) (0 : Fin (2 ^ 64)) (Generator.new _ (Crypto.symbolic.publicKey (2 : UInt8)))
        (List.replicate 150 0) = (.ok sent, cookies, out) ∧
      InitReceived.receive (C := Crypto.symbolic) (2 : UInt8) (out.take initMsgLength)
        = .ok recv ∧
      Delivers (C := Crypto.symbolic) estᵢ estᵣ := by
  obtain ⟨sent, cookies, out, recv, _, _, _, _, hinit, hrecv, -, -, -, -, -, hdel, -⟩ :=
    handshake_agreement Crypto.symbolic_correct (1 : UInt8) (2 : UInt8) (3 : UInt8) (4 : UInt8)
      100 200 (0 : Fin (2 ^ 64)) (0 : Fin (2 ^ 64))
      (Generator.new _ (Crypto.symbolic.publicKey (2 : UInt8)))
      (Generator.new _ (Crypto.symbolic.publicKey (1 : UInt8)))
      none (some PresharedKey.zero) (List.replicate 150 0) (List.replicate 92 0)
      rfl rfl rfl rfl (by rw [List.length_replicate]; decide)
      (by rw [List.length_replicate]; decide)
  exact ⟨sent, cookies, out, recv, _, _, hinit, hrecv, hdel⟩

end Tunstile
