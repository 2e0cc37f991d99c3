/-
Tunstile/Message.lean

The wire layout of the four message kinds and the header parser of
`protocol/src/lib.rs`.

Each layout is a chain of spans, every field starting where the previous one
stops, exactly as the range constants of `handshake.rs`, `cookies.rs` and
`transport.rs` chain.
-/
import Tunstile.Crypto

namespace Tunstile

/-! ### Layouts -/

-- handshake init: [type(1) | reserved(3) | sender(4) | ephemeral(32) | static+tag(48) |
-- timestamp+tag(28) | mac1(16) | mac2(16)]
def initSender : Span := ⟨4, 8⟩
def initEphemeralPk : Span := ⟨initSender.stop, initSender.stop + 32⟩
def initEncryptedStaticPk : Span :=
  ⟨initEphemeralPk.stop, initEphemeralPk.stop + 32 + aeadTagSize⟩
def initEncryptedTimestamp : Span :=
  ⟨initEncryptedStaticPk.stop, initEncryptedStaticPk.stop + 12 + aeadTagSize⟩
def initMac1 : Span := ⟨initEncryptedTimestamp.stop, initEncryptedTimestamp.stop + macSize⟩
def initMac2 : Span := ⟨initMac1.stop, initMac1.stop + macSize⟩

/-- Wire length of a handshake initiation message. -/
def initMsgLength : Nat := initMac2.stop

-- handshake resp: [type(1) | reserved(3) | sender(4) | receiver(4) | ephemeral(32) |
-- empty_tag(16) | mac1(16) | mac2(16)]
def respSender : Span := ⟨4, 8⟩
def respReceiver : Span := ⟨respSender.stop, respSender.stop + 4⟩
def respEphemeralPk : Span := ⟨respReceiver.stop, respReceiver.stop + 32⟩
def respEncryptedEmptyTag : Span := ⟨respEphemeralPk.stop, respEphemeralPk.stop + aeadTagSize⟩
def respMac1 : Span := ⟨respEncryptedEmptyTag.stop, respEncryptedEmptyTag.stop + macSize⟩
def respMac2 : Span := ⟨respMac1.stop, respMac1.stop + macSize⟩

/-- Wire length of a handshake response message. -/
def respMsgLength : Nat := respMac2.stop

def cookieSize : Nat := 16

-- cookie reply: [type(1) | reserved(3) | receiver(4) | nonce(24) | cookie+tag(32)]
def crReceiver : Span := ⟨4, 8⟩
def crNonce : Span := ⟨crReceiver.stop, crReceiver.stop + 24⟩
def crCookie : Span := ⟨crNonce.stop, crNonce.stop + cookieSize⟩
def crEncrypted : Span := ⟨crCookie.start, crCookie.stop + aeadTagSize⟩

/-- Wire length of a cookie reply message. -/
def cookieReplyLength : Nat := crEncrypted.stop

-- data: [type(1) | reserved(3) | receiver(4) | counter(8) | payload+tag(...)]
def dataReceiver : Span := ⟨4, 8⟩
def dataCounter : Span := ⟨dataReceiver.stop, dataReceiver.stop + 8⟩
def dataPayloadOffset : Nat := dataCounter.stop

/-- Bytes added to a plaintext payload by the transport header and AEAD tag. -/
def transportOverhead : Nat := dataPayloadOffset + aeadTagSize

/-- The wire length of a data message carrying `payloadSize` bytes. -/
def packetLen (payloadSize : Nat) : Nat := transportOverhead + payloadSize

/-! ### The header -/

inductive MessageType where
  | handshakeInit
  | handshakeResp
  | cookie
  | data
  deriving DecidableEq

inductive MessageHeaderParseError where
  | invalidLength
  | invalidHeader
  | invalidMessageType
  deriving DecidableEq

/-- The type byte. -/
def MessageType.toByte : MessageType → UInt8
  | .handshakeInit => 0x01
  | .handshakeResp => 0x02
  | .cookie => 0x03
  | .data => 0x04

def MessageType.tryFrom (value : UInt8) : Except MessageHeaderParseError MessageType :=
  if value = MessageType.handshakeInit.toByte then .ok .handshakeInit
  else if value = MessageType.handshakeResp.toByte then .ok .handshakeResp
  else if value = MessageType.cookie.toByte then .ok .cookie
  else if value = MessageType.data.toByte then .ok .data
  else .error .invalidMessageType

/-- The type and receiver index of a validated message. -/
inductive MessageHeader where
  | handshakeInit
  | handshakeResponse (receiver : UInt32)
  | cookieReply (receiver : UInt32)
  | data (receiver : UInt32)
  deriving DecidableEq

/-- The first byte of a message. -/
def typeByte (value : Bytes) : UInt8 := value.getD 0 0

/-- The three reserved bytes. -/
def reserved : Span := ⟨1, 4⟩

/-- The length each message type must have. -/
def MessageType.validLength (msgType : MessageType) (len : Nat) : Bool :=
  match msgType with
  | .handshakeInit => len == initMsgLength
  | .handshakeResp => len == respMsgLength
  | .cookie => len == cookieReplyLength
  | .data => decide (packetLen 0 ≤ len)

def MessageHeader.tryFrom (value : Bytes) : Except MessageHeaderParseError MessageHeader :=
  if value.length < 4 then .error .invalidLength
  else
    match MessageType.tryFrom (typeByte value) with
    | .error e => .error e
    | .ok msgType =>
        if slice value reserved ≠ [0, 0, 0] then .error .invalidHeader
        else if !msgType.validLength value.length then .error .invalidLength
        else
          let indexRange : Span :=
            match msgType with
            | .handshakeInit | .cookie | .data => ⟨4, 8⟩
            | .handshakeResp => ⟨8, 12⟩
          let index := u32FromLe (slice value indexRange)
          .ok (match msgType with
            | .handshakeInit => .handshakeInit
            | .cookie => .cookieReply index
            | .handshakeResp => .handshakeResponse index
            | .data => .data index)

@[simp] theorem MessageType.tryFrom_toByte (t : MessageType) :
    MessageType.tryFrom t.toByte = .ok t := by
  cases t <;> rfl

/-- A type byte parses to the one type it stands for. -/
theorem MessageType.tryFrom_eq_ok_iff {b : UInt8} {t : MessageType} :
    MessageType.tryFrom b = .ok t ↔ b = t.toByte := by
  constructor
  · intro h
    unfold MessageType.tryFrom at h
    split_ifs at h with h₁ h₂ h₃ h₄ <;> cases h <;> assumption
  · rintro rfl
    exact MessageType.tryFrom_toByte t

/-- What a message of type `t` looks like at the front. -/
structure HasType (t : MessageType) (msg : Bytes) : Prop where
  type_eq : typeByte msg = t.toByte
  reserved_eq : slice msg reserved = [0, 0, 0]

/-- Writing the four header bytes and the index that follows them in every
message. -/
theorem splice_header {room : Bytes} {ty : UInt8} {index : UInt32} {o : Nat} (ho : o = 4) :
    splice (splice (splice room 0 [ty]) reserved.start [0, 0, 0]) o (u32ToLe index)
      = [ty] ++ [0, 0, 0] ++ u32ToLe index ++ room.drop 8 := by
  subst ho
  rw [splice_zero, splice_append (o := reserved.start) rfl, splice_append (o := 4) rfl]
  simp [List.drop_drop]

/-- A message of the right type and length parses to that type's header. -/
theorem MessageHeader.tryFrom_of_hasType {t : MessageType} {msg : Bytes} (h : HasType t msg)
    (hlen : t.validLength msg.length = true) :
    MessageHeader.tryFrom msg = .ok (match t with
      | .handshakeInit => .handshakeInit
      | .cookie => .cookieReply (u32FromLe (slice msg ⟨4, 8⟩))
      | .handshakeResp => .handshakeResponse (u32FromLe (slice msg ⟨8, 12⟩))
      | .data => .data (u32FromLe (slice msg ⟨4, 8⟩))) := by
  have h4 : ¬ msg.length < 4 := by
    have hspan : (slice msg reserved).length = 3 := by rw [h.reserved_eq]; rfl
    simp only [slice, reserved, Span.length, List.length_take, List.length_drop] at hspan
    omega
  rw [tryFrom, if_neg h4, h.type_eq, MessageType.tryFrom_toByte]
  simp only [h.reserved_eq, hlen]
  cases t <;> rfl

/-- The type of message a header was read from. -/
def MessageHeader.messageType : MessageHeader → MessageType
  | .handshakeInit => .handshakeInit
  | .handshakeResponse _ => .handshakeResp
  | .cookieReply _ => .cookie
  | .data _ => .data

/-- Only a message of a header's type and length parses to it. -/
theorem MessageHeader.hasType_of_tryFrom {msg : Bytes} {header : MessageHeader}
    (h : MessageHeader.tryFrom msg = .ok header) :
    HasType header.messageType msg ∧ header.messageType.validLength msg.length = true := by
  by_cases h4 : msg.length < 4
  · rw [MessageHeader.tryFrom, if_pos h4] at h
    cases h
  rw [MessageHeader.tryFrom, if_neg h4] at h
  cases htype : MessageType.tryFrom (typeByte msg) with
  | error e =>
      rw [htype] at h
      cases h
  | ok t =>
      simp only [htype] at h
      split_ifs at h with hreserved hlen
      have hfront : HasType t msg :=
        ⟨MessageType.tryFrom_eq_ok_iff.mp htype, not_not.mp hreserved⟩
      have hvalid : t.validLength msg.length = true := by simpa using hlen
      cases t <;> cases h <;> exact ⟨hfront, hvalid⟩

end Tunstile
