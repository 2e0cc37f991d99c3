/-
Tunstile/Transcript.lean

The handshake as values.  The message functions of `Handshake.lean` weave
buffer writes, key derivations and hashes into one another; here the two
transcripts they compute are named, and each function is reduced to them:

* `initiate_cases`, `respond_cases` — a writer fails without touching the
  cookie generator, or writes a message whose fields are those of the
  transcript;
* `receive_ok_iff`, `responseReceived_ok_iff` — a reader accepts exactly the
  messages whose fields open under the keys of the transcript.

Everything later said about the handshake is said through these four.
-/
import Tunstile.Handshake

namespace Tunstile

variable {C : Crypto}

/-! ### The initiation's transcript -/

/-- What an initiation mixes into the chaining key and the hash. -/
structure InitTranscript (C : Crypto) where
  responder : PublicKey
  ephemeral : PublicKey
  /-- DH of the initiator's ephemeral and the responder's static key. -/
  es : Bytes
  /-- DH of the two static keys. -/
  ss : Bytes
  staticField : Bytes
  timestampField : Bytes

namespace InitTranscript

variable (t : InitTranscript C)

def constr₁ : C.Hash256 := C.kdf initialConstrHash t.ephemeral.toList 0
def constr₂ : C.Hash256 := C.kdf (C.asRef t.constr₁) t.es 0
def constr : C.Hash256 := C.kdf (C.asRef t.constr₂) t.ss 0

/-- The key of the static-key field. -/
def staticKey : C.Hash256 := C.kdf (C.asRef t.constr₁) t.es 1
/-- The key of the timestamp field. -/
def timestampKey : C.Hash256 := C.kdf (C.asRef t.constr₂) t.ss 1

def h₁ : C.Hash256 :=
  C.hash [C.asRef (C.hash [initialIdentifierHash, t.responder.toList]), t.ephemeral.toList]
def h₂ : C.Hash256 := C.hash [C.asRef t.h₁, t.staticField]
def h : C.Hash256 := C.hash [C.asRef t.h₂, t.timestampField]

/-- The transcript an initiator computes: the fields are sealed under the
keys of what precedes them. -/
def ofInitiator (ourPrivate : C.Secret) (peerPublic : PublicKey) (ephemeralSecret : C.Secret)
    (timestamp : C.Tai64N) : InitTranscript C :=
  let t : InitTranscript C :=
    { responder := peerPublic
      ephemeral := C.publicKey ephemeralSecret
      es := C.diffieHellman ephemeralSecret peerPublic
      ss := C.diffieHellman ourPrivate peerPublic
      staticField := []
      timestampField := [] }
  let t := { t with
    staticField := C.sealed t.staticKey 0 (C.asRef t.h₁) (C.publicKey ourPrivate).toList }
  { t with
    timestampField := C.sealed t.timestampKey 0 (C.asRef t.h₂) (C.toBytes timestamp).toList }

/-- The transcript a responder computes from a packet and the static key it
found in it. -/
def ofPacket (ourPrivate : C.Secret) (peerPublic : PublicKey) (packet : Bytes) :
    InitTranscript C where
  responder := C.publicKey ourPrivate
  ephemeral := toKey (slice packet initEphemeralPk)
  es := C.diffieHellman ourPrivate (toKey (slice packet initEphemeralPk))
  ss := C.diffieHellman ourPrivate peerPublic
  staticField := slice packet initEncryptedStaticPk
  timestampField := slice packet initEncryptedTimestamp

end InitTranscript

/-! ### The response's transcript -/

/-- What a response mixes into the transcript of the initiation. -/
structure RespTranscript (C : Crypto) where
  initConstr : C.Hash256
  initH : C.Hash256
  ephemeral : PublicKey
  /-- DH of the two ephemeral keys. -/
  ee : Bytes
  /-- DH of the responder's ephemeral and the initiator's static key. -/
  se : Bytes
  psk : PresharedKey

namespace RespTranscript

variable (t : RespTranscript C)

def constr₁ : C.Hash256 := C.kdf (C.asRef t.initConstr) t.ephemeral.toList 0
def constr₂ : C.Hash256 := C.kdf (C.asRef t.constr₁) t.ee 0
def constr₃ : C.Hash256 := C.kdf (C.asRef t.constr₂) t.se 0
/-- The chaining key the transport keys are derived from. -/
def constr : C.Hash256 := C.kdf (C.asRef t.constr₃) t.psk.toList 0

def temp : C.Hash256 := C.kdf (C.asRef t.constr₃) t.psk.toList 1
/-- The key of the empty field. -/
def tagKey : C.Hash256 := C.kdf (C.asRef t.constr₃) t.psk.toList 2

def h : C.Hash256 :=
  C.hash [C.asRef (C.hash [C.asRef t.initH, t.ephemeral.toList]), C.asRef t.temp]

/-- The transcript a responder computes. -/
def ofResponder (state : InitReceived C) (ephemeralSecret : C.Secret)
    (presharedKey : Option PresharedKey) : RespTranscript C where
  initConstr := state.constr
  initH := state.h
  ephemeral := C.publicKey ephemeralSecret
  ee := C.diffieHellman ephemeralSecret state.ephemeralPublicInitiator
  se := C.diffieHellman ephemeralSecret state.peerPublic
  psk := effectivePsk presharedKey

/-- The transcript an initiator computes from a packet. -/
def ofPacket (state : InitSent C) (ourPrivate : C.Secret) (presharedKey : Option PresharedKey)
    (packet : Bytes) : RespTranscript C where
  initConstr := state.constr
  initH := state.h
  ephemeral := toKey (slice packet respEphemeralPk)
  ee := C.diffieHellman state.ephemeralSecretInitiator (toKey (slice packet respEphemeralPk))
  se := C.diffieHellman ourPrivate (toKey (slice packet respEphemeralPk))
  psk := effectivePsk presharedKey

end RespTranscript

/-! ### Wire forms -/

/-- An initiation, up to its MACs. -/
def initWire (sender : UInt32) (ephemeral : PublicKey) (staticField timestampField : Bytes) :
    Bytes :=
  [MessageType.handshakeInit.toByte] ++ [0, 0, 0] ++ u32ToLe sender ++ ephemeral.toList
    ++ staticField ++ timestampField

/-- A response, up to its MACs. -/
def respWire (sender receiver : UInt32) (ephemeral : PublicKey) (tagField : Bytes) : Bytes :=
  [MessageType.handshakeResp.toByte] ++ [0, 0, 0] ++ u32ToLe sender ++ u32ToLe receiver
    ++ ephemeral.toList ++ tagField

/-- A message holding the fields of an initiation. -/
structure IsInit (sender : UInt32) (t : InitTranscript C) (msg : Bytes) : Prop where
  length_eq : msg.length = initMsgLength
  hasType : HasType .handshakeInit msg
  sender_eq : slice msg initSender = u32ToLe sender
  ephemeral_eq : slice msg initEphemeralPk = t.ephemeral.toList
  static_eq : slice msg initEncryptedStaticPk = t.staticField
  timestamp_eq : slice msg initEncryptedTimestamp = t.timestampField

/-- A message holding the fields of a response. -/
structure IsResp (sender receiver : UInt32) (ephemeral : PublicKey) (tagField msg : Bytes) :
    Prop where
  length_eq : msg.length = respMsgLength
  hasType : HasType .handshakeResp msg
  sender_eq : slice msg respSender = u32ToLe sender
  receiver_eq : slice msg respReceiver = u32ToLe receiver
  ephemeral_eq : slice msg respEphemeralPk = ephemeral.toList
  tag_eq : slice msg respEncryptedEmptyTag = tagField

section Wire

variable (sender receiver : UInt32) (ephemeral : PublicKey)

theorem length_initWire {staticField timestampField : Bytes} (hs : staticField.length = 48)
    (ht : timestampField.length = 28) :
    (initWire sender ephemeral staticField timestampField).length = 116 := by
  simp [initWire, hs, ht]

theorem length_respWire {tagField : Bytes} (ht : tagField.length = 16) :
    (respWire sender receiver ephemeral tagField).length = 60 := by
  simp [respWire, ht]

/-- The type byte is a field like any other. -/
theorem typeByte_eq_slice (msg : Bytes) : typeByte msg = (slice msg ⟨0, 1⟩).getD 0 0 := by
  cases msg <;> rfl

theorem HasType.of_agrees {ty : MessageType} {msg msg' : Bytes} (h : HasType ty msg)
    (ha : Generator.AgreesBeforeMacs msg msg') (hlen : 36 ≤ msg.length) : HasType ty msg' := by
  have hmac : macSize = 16 := rfl
  have hstop : reserved.stop = 4 := rfl
  refine ⟨?_, ?_⟩
  · rw [typeByte_eq_slice, ha.slice_eq _ (by dsimp only; omega), ← typeByte_eq_slice, h.type_eq]
  · rw [ha.slice_eq _ (by omega), h.reserved_eq]

/-- A message that agrees with the wire form before its MACs is an
initiation. -/
theorem IsInit.of_agrees {t : InitTranscript C} {macs msg : Bytes}
    (hs : t.staticField.length = 48) (ht : t.timestampField.length = 28) (hm : macs.length = 32)
    (ha : Generator.AgreesBeforeMacs
      (initWire sender t.ephemeral t.staticField t.timestampField ++ macs) msg) :
    IsInit sender t msg := by
  have hlen : (initWire sender t.ephemeral t.staticField t.timestampField ++ macs).length
      = 148 := by rw [List.length_append, length_initWire _ _ hs ht, hm]
  have hmac : 2 * macSize = 32 := rfl
  refine ⟨ha.length_eq.trans hlen, HasType.of_agrees ⟨rfl, rfl⟩ ha (by omega), ?_, ?_, ?_, ?_⟩
  all_goals
    rw [ha.slice_eq _ (by rw [hlen]; decide), slice_append_left
      (by rw [length_initWire _ _ hs ht]; decide), initWire]
  · rw [List.append_assoc, List.append_assoc]
    exact slice_append_field rfl (length_u32ToLe _)
  · rw [List.append_assoc]
    exact slice_append_field (by simp [initEphemeralPk, initSender]) (by simp; rfl)
  · exact slice_append_field (by simp [initEncryptedStaticPk, initEphemeralPk, initSender]) hs
  · rw [← List.append_nil (_ ++ t.timestampField)]
    exact slice_append_field (by simp [hs]; rfl) ht

/-- A message that agrees with the wire form before its MACs is a
response. -/
theorem IsResp.of_agrees {tagField macs msg : Bytes} (ht : tagField.length = 16)
    (hm : macs.length = 32)
    (ha : Generator.AgreesBeforeMacs (respWire sender receiver ephemeral tagField ++ macs) msg) :
    IsResp sender receiver ephemeral tagField msg := by
  have hlen : (respWire sender receiver ephemeral tagField ++ macs).length = 92 := by
    rw [List.length_append, length_respWire _ _ _ ht, hm]
  have hmac : 2 * macSize = 32 := rfl
  refine ⟨ha.length_eq.trans hlen, HasType.of_agrees ⟨rfl, rfl⟩ ha (by omega), ?_, ?_, ?_, ?_⟩
  all_goals
    rw [ha.slice_eq _ (by rw [hlen]; decide), slice_append_left
      (by rw [length_respWire _ _ _ ht]; decide), respWire]
  · rw [List.append_assoc, List.append_assoc]
    exact slice_append_field rfl (length_u32ToLe _)
  · rw [List.append_assoc]
    exact slice_append_field (by simp [respReceiver, respSender]) (length_u32ToLe _)
  · exact slice_append_field (by simp [respEphemeralPk, respReceiver, respSender]) (by simp; rfl)
  · rw [← List.append_nil (_ ++ tagField)]
    exact slice_append_field (by simp; rfl) ht

end Wire

/-! ### The writers -/

theorem contributory_eq_ok {secret s : Bytes} :
    contributory C secret = .ok s ↔ C.wasContributory secret = true ∧ s = secret := by
  unfold contributory
  split <;> rename_i h <;> simp [h, eq_comm]

/-- The MACs complete an initiation. -/
theorem addMacs_initWire (cookies : Generator C) (timestamp : C.Tai64N) (sender : UInt32)
    {t : InitTranscript C} (macs : Bytes) (hs : t.staticField.length = 48)
    (ht : t.timestampField.length = 28) (hm : macs.length = 32) :
    ∃ mac1 msg, cookies.addMacs timestamp
        (initWire sender t.ephemeral t.staticField t.timestampField ++ macs)
          = (.ok (), { cookies with lastSentMac1 := some mac1 }, msg) ∧ IsInit sender t msg := by
  have hlen : (initWire sender t.ephemeral t.staticField t.timestampField ++ macs).length
      = initMsgLength := by rw [List.length_append, length_initWire _ _ hs ht, hm]; rfl
  have htype : HasType .handshakeInit
      (initWire sender t.ephemeral t.staticField t.timestampField ++ macs) := ⟨rfl, rfl⟩
  have hhdr := MessageHeader.tryFrom_of_hasType htype (by rw [hlen]; rfl)
  obtain ⟨msg, hadd, hagree⟩ := cookies.addMacs_ok timestamp (Or.inl hhdr) (by rw [hlen]; decide)
  exact ⟨_, msg, hadd, IsInit.of_agrees _ hs ht hm hagree⟩

/-- The MACs complete a response. -/
theorem addMacs_respWire (cookies : Generator C) (timestamp : C.Tai64N) (sender receiver : UInt32)
    (ephemeral : PublicKey) {tagField : Bytes} (macs : Bytes) (ht : tagField.length = 16)
    (hm : macs.length = 32) :
    ∃ mac1 msg, cookies.addMacs timestamp (respWire sender receiver ephemeral tagField ++ macs)
        = (.ok (), { cookies with lastSentMac1 := some mac1 }, msg) ∧
      IsResp sender receiver ephemeral tagField msg := by
  have hlen : (respWire sender receiver ephemeral tagField ++ macs).length = respMsgLength := by
    rw [List.length_append, length_respWire _ _ _ ht, hm]; rfl
  have htype : HasType .handshakeResp (respWire sender receiver ephemeral tagField ++ macs) :=
    ⟨rfl, rfl⟩
  have hhdr := MessageHeader.tryFrom_of_hasType htype (by rw [hlen]; rfl)
  obtain ⟨msg, hadd, hagree⟩ :=
    cookies.addMacs_ok timestamp (Or.inr ⟨_, hhdr⟩) (by rw [hlen]; decide)
  exact ⟨_, msg, hadd, IsResp.of_agrees _ _ _ ht hm hagree⟩

/-- **What an initiate can do.**  It fails and leaves the generator alone, or
it writes the initiation of its transcript. -/
theorem InitSent.initiate_cases (ourPrivate : C.Secret) (peerPublic : PublicKey) (sender : UInt32)
    (ephemeralSecret : C.Secret) (timestamp : C.Tai64N) (cookies : Generator C) (buf : Bytes) :
    ((buf.length < initMsgLength ∨
          C.wasContributory (C.diffieHellman ephemeralSecret peerPublic) = false) ∧
        ∃ e buf', InitSent.initiate ourPrivate peerPublic sender ephemeralSecret timestamp cookies
          buf = (.error e, cookies, buf')) ∨
      (initMsgLength ≤ buf.length ∧
        C.wasContributory (C.diffieHellman ephemeralSecret peerPublic) = true ∧
        ∃ mac1 msg,
          InitSent.initiate ourPrivate peerPublic sender ephemeralSecret timestamp cookies buf
            = (.ok { indexInitiator := sender
                     ephemeralSecretInitiator := ephemeralSecret
                     constr := (InitTranscript.ofInitiator ourPrivate peerPublic ephemeralSecret
                       timestamp).constr
                     h := (InitTranscript.ofInitiator ourPrivate peerPublic ephemeralSecret
                       timestamp).h },
                { cookies with lastSentMac1 := some mac1 }, msg ++ buf.drop initMsgLength) ∧
          IsInit sender (InitTranscript.ofInitiator ourPrivate peerPublic ephemeralSecret timestamp)
            msg) := by
  by_cases hlen : buf.length < initMsgLength
  · exact Or.inl ⟨Or.inl hlen, _, _, by rw [initiate, if_pos hlen]⟩
  cases hdh : C.wasContributory (C.diffieHellman ephemeralSecret peerPublic) with
  | false =>
      refine Or.inl ⟨Or.inr rfl, ?_⟩
      simp only [initiate, if_neg hlen, contributory, hdh, Bool.false_eq_true, if_false]
      exact ⟨_, _, rfl⟩
  | true =>
      refine Or.inr ⟨not_lt.mp hlen, rfl, ?_⟩
      -- the buffer is written front to back; `room` is what is left of it
      obtain ⟨room, hroom, hbuf⟩ : ∃ room : Bytes, room.length = 148 ∧
          buf.take initMsgLength = room :=
        ⟨_, by rw [List.length_take]; exact Nat.min_eq_left (not_lt.mp hlen), rfl⟩
      rw [initiate, if_neg hlen]
      simp only [hbuf, contributory, hdh, if_true]
      rw [splice_header (o := initSender.start) rfl, splice_append (o := initEphemeralPk.start)
        (by simp [initEphemeralPk, initSender])]
      generalize hhd : ([MessageType.handshakeInit.toByte] ++ [0, 0, 0] ++ u32ToLe sender
            ++ (C.publicKey ephemeralSecret).toList : Bytes) = head
      have hhead : head.length = initEncryptedStaticPk.start := by
        rw [← hhd]; simp [initEncryptedStaticPk, initEphemeralPk, initSender]
      -- the static key is sealed behind the header, and its field hashed
      rw [splice_append hhead,
        C.splice_aeadSeal _ _ _ hhead (by simp; rfl) (by simp [hroom]; decide),
        slice_append_field (x := C.sealed _ _ _ _) hhead (by rw [C.length_sealed]; simp; rfl)]
      -- the timestamp is sealed behind that, and its field hashed
      have hhead' : ∀ k ad, (head ++ C.sealed k 0 ad (C.publicKey ourPrivate).toList).length
          = initEncryptedTimestamp.start := fun k ad => by
        rw [List.length_append, C.length_sealed, hhead]; simp; rfl
      rw [splice_append (hhead' _ _),
        C.splice_aeadSeal _ _ _ (hhead' _ _) (by simp; rfl) (by simp [hroom]; decide),
        slice_append_field (x := C.sealed _ _ _ _) (hhead' _ _)
          (by rw [C.length_sealed]; simp; rfl)]
      -- what is left of the buffer is room for the two MACs
      generalize hmacs : ((((((room.drop 8).drop (C.publicKey ephemeralSecret).toList.length).drop
        (C.publicKey ourPrivate).toList.length).drop aeadTagSize).drop
        (C.toBytes timestamp).toList.length).drop aeadTagSize) = macs
      obtain ⟨mac1, msg, hadd, hmsg⟩ := addMacs_initWire cookies timestamp sender
        (t := InitTranscript.ofInitiator ourPrivate peerPublic ephemeralSecret timestamp)
        macs ((C.length_sealed _ _ _ _).trans (by simp; rfl))
        ((C.length_sealed _ _ _ _).trans (by simp; rfl)) (by rw [← hmacs]; simp [hroom, aeadTagSize])
      refine ⟨mac1, msg, ?_, hmsg⟩
      rw [← hhd]
      split <;> rename_i heq <;> cases hadd.symm.trans heq
      rfl

/-- **What a respond can do.**  It fails and leaves the generator alone, or
it writes the response of its transcript. -/
theorem InitReceived.respond_cases (state : InitReceived C) (index : UInt32)
    (ephemeralSecret : C.Secret) (presharedKey : Option PresharedKey) (timestamp : C.Tai64N)
    (cookies : Generator C) (buf : Bytes) :
    (buf.length < respMsgLength ∧
        ∃ e, state.respond index ephemeralSecret presharedKey timestamp cookies buf
          = (.error e, cookies, buf)) ∨
      (respMsgLength ≤ buf.length ∧
        ∃ mac1 msg, state.respond index ephemeralSecret presharedKey timestamp cookies buf
            = (.ok { ourIndex := index
                     peerIndex := state.indexInitiator
                     constr :=
                       (RespTranscript.ofResponder state ephemeralSecret presharedKey).constr },
                { cookies with lastSentMac1 := some mac1 }, msg ++ buf.drop respMsgLength) ∧
          IsResp index state.indexInitiator (C.publicKey ephemeralSecret)
            (C.sealed (RespTranscript.ofResponder state ephemeralSecret presharedKey).tagKey 0
              (C.asRef (RespTranscript.ofResponder state ephemeralSecret presharedKey).h) []) msg) := by
  by_cases hlen : buf.length < respMsgLength
  · exact Or.inl ⟨hlen, _, by rw [respond, if_pos hlen]⟩
  refine Or.inr ⟨not_lt.mp hlen, ?_⟩
  obtain ⟨room, hroom, hbuf⟩ : ∃ room : Bytes, room.length = 92 ∧
      buf.take respMsgLength = room :=
    ⟨_, by rw [List.length_take]; exact Nat.min_eq_left (not_lt.mp hlen), rfl⟩
  rw [respond, if_neg hlen]
  simp only [hbuf]
  rw [splice_header (o := respSender.start) rfl,
    splice_append (o := respReceiver.start) (by simp [respReceiver, respSender]),
    splice_append (o := respEphemeralPk.start)
      (by simp [respEphemeralPk, respReceiver, respSender])]
  generalize hhd : ([MessageType.handshakeResp.toByte] ++ [0, 0, 0] ++ u32ToLe index
    ++ u32ToLe state.indexInitiator ++ (C.publicKey ephemeralSecret).toList : Bytes) = head
  have hhead : head.length = respEncryptedEmptyTag.start := by
    rw [← hhd]; simp [respEncryptedEmptyTag, respEphemeralPk, respReceiver, respSender]
  -- the plaintext is empty: only its tag is written
  rw [← List.append_nil head, C.splice_aeadSeal _ _ _ hhead rfl (by simp [hroom]; decide)]
  generalize hmacs : (((room.drop 8).drop (u32ToLe state.indexInitiator).length).drop
    (C.publicKey ephemeralSecret).toList.length).drop aeadTagSize = macs
  have htag := C.length_sealed (RespTranscript.ofResponder state ephemeralSecret presharedKey).tagKey
    0 (C.asRef (RespTranscript.ofResponder state ephemeralSecret presharedKey).h) []
  obtain ⟨mac1, msg, hadd, hmsg⟩ := addMacs_respWire cookies timestamp index state.indexInitiator
    (C.publicKey ephemeralSecret) macs htag (by rw [← hmacs]; simp [hroom, aeadTagSize])
  refine ⟨mac1, msg, ?_, hmsg⟩
  rw [← hhd]
  split <;> rename_i heq <;> cases hadd.symm.trans heq
  rfl

/-! ### The readers -/

@[simp] theorem toKey_toList (k : PublicKey) : toKey k.toList = k := by
  apply List.Vector.ext
  intro i
  rw [toKey, List.Vector.get_ofFn, List.Vector.get_eq_get_toList]
  simp [List.getD_eq_getElem?_getD]

theorem toList_toKey {b : Bytes} (h : b.length = 32) : (toKey b).toList = b := by
  obtain ⟨k, rfl⟩ : ∃ k : PublicKey, k.toList = b := ⟨⟨b, h⟩, rfl⟩
  rw [toKey_toList]

/-- An initiation that `ourPrivate` accepts as `st`: both sealed fields open
under the keys of the transcript. -/
structure Received (ourPrivate : C.Secret) (packet : Bytes) (st : InitReceived C) : Prop where
  length_eq : packet.length = initMsgLength
  hasType : HasType .handshakeInit packet
  es_contributory :
    C.wasContributory (InitTranscript.ofPacket ourPrivate st.peerPublic packet).es = true
  ss_contributory :
    C.wasContributory (InitTranscript.ofPacket ourPrivate st.peerPublic packet).ss = true
  static_opened :
    C.opened (InitTranscript.ofPacket ourPrivate st.peerPublic packet).staticKey 0
      (C.asRef (InitTranscript.ofPacket ourPrivate st.peerPublic packet).h₁)
      (InitTranscript.ofPacket ourPrivate st.peerPublic packet).staticField
      = some st.peerPublic.toList
  timestamp_opened : ∃ ts,
    C.opened (InitTranscript.ofPacket ourPrivate st.peerPublic packet).timestampKey 0
      (C.asRef (InitTranscript.ofPacket ourPrivate st.peerPublic packet).h₂)
      (InitTranscript.ofPacket ourPrivate st.peerPublic packet).timestampField = some ts ∧
    C.fromSlice ts = some st.timestamp
  ephemeral_eq : st.ephemeralPublicInitiator = toKey (slice packet initEphemeralPk)
  index_eq : st.indexInitiator = u32FromLe (slice packet initSender)
  constr_eq : st.constr = (InitTranscript.ofPacket ourPrivate st.peerPublic packet).constr
  h_eq : st.h = (InitTranscript.ofPacket ourPrivate st.peerPublic packet).h

/-- The plaintext of an opened field, and the room its tag leaves. -/
theorem take_opened {key : C.Hash256} {counter : UInt64} {ad field m : Bytes} {n : Nat}
    (h : C.opened key counter ad field = some m) (hn : field.length = n + aeadTagSize) :
    (m ++ field.drop m.length).take n = m := by
  have := C.length_of_opened h
  exact List.take_left' (by omega)

/-- Opening a field in place leaves its plaintext and room for the tag. -/
theorem length_opened_sub {m field : Bytes} {n : Nat} (hm : m.length = n)
    (hfield : field.length = n + aeadTagSize) :
    (m ++ field.drop m.length).length - aeadTagSize = n := by
  rw [List.length_append, List.length_drop, hm, hfield]
  omega

/-- Opening the static key in place does not disturb the timestamp. -/
theorem slice_timestamp_of_opened {packet m : Bytes} (hlen : packet.length = initMsgLength)
    (hm : m.length = 32) :
    slice (splice packet initEncryptedStaticPk.start
        (m ++ (slice packet initEncryptedStaticPk).drop m.length)) initEncryptedTimestamp
      = slice packet initEncryptedTimestamp := by
  have hfield : (slice packet initEncryptedStaticPk).length = 48 :=
    length_slice (by rw [hlen]; decide)
  have hx : (m ++ (slice packet initEncryptedStaticPk).drop m.length).length = 48 := by
    rw [List.length_append, List.length_drop, hm, hfield]
  exact slice_splice_of_disjoint (Or.inr (by rw [hx]; decide)) (by rw [hx, hlen]; decide)

/-- **What a receive accepts.** -/
theorem InitReceived.receive_ok_iff {ourPrivate : C.Secret} {packet : Bytes}
    {st : InitReceived C} :
    InitReceived.receive ourPrivate packet = .ok st ↔ Received ourPrivate packet st := by
  by_cases hbad : packet.length ≠ initMsgLength ∨
      MessageType.tryFrom (typeByte packet) ≠ .ok .handshakeInit ∨
      slice packet reserved ≠ [0, 0, 0]
  · rw [receive, if_pos hbad]
    refine ⟨nofun, fun h => ?_⟩
    simp [h.length_eq, h.hasType.type_eq, h.hasType.reserved_eq] at hbad
  have hgood := hbad
  simp only [not_or, not_not] at hgood
  obtain ⟨hlen, hty, hres⟩ := hgood
  have hstaticLen : (slice packet initEncryptedStaticPk).length = 32 + aeadTagSize :=
    length_slice (by rw [hlen]; decide)
  have htsLen : (slice packet initEncryptedTimestamp).length = 12 + aeadTagSize :=
    length_slice (by rw [hlen]; decide)
  simp only [receive, if_neg hbad, C.aeadOpen_eq]
  constructor
  · intro h
    cases hc₁ : contributory C
        (C.diffieHellman ourPrivate (toKey (slice packet initEphemeralPk))) with
    | error e => rw [hc₁] at h; cases h
    | ok s₁ =>
    rw [hc₁] at h
    obtain ⟨hes, rfl⟩ := contributory_eq_ok.mp hc₁
    dsimp only at h
    split at h
    · cases h
    rename_i hmap₁
    obtain ⟨m, hop₁, rfl⟩ := Option.map_eq_some_iff.mp hmap₁
    have hm : m.length = 32 := by have := C.length_of_opened hop₁; omega
    rw [take_opened hop₁ hstaticLen, slice_timestamp_of_opened hlen hm] at h
    cases hc₂ : contributory C (C.diffieHellman ourPrivate (toKey m)) with
    | error e => rw [hc₂] at h; cases h
    | ok s₂ =>
    rw [hc₂] at h
    obtain ⟨hss, rfl⟩ := contributory_eq_ok.mp hc₂
    dsimp only at h
    split at h
    · cases h
    rename_i hmap₂
    obtain ⟨ts, hop₂, rfl⟩ := Option.map_eq_some_iff.mp hmap₂
    have hts : ts.length = 12 := by have := C.length_of_opened hop₂; omega
    rw [length_opened_sub hts htsLen, take_opened hop₂ htsLen] at h
    split at h
    · cases h
    rename_i hparse
    cases h
    exact ⟨hlen, ⟨MessageType.tryFrom_eq_ok_iff.mp hty, hres⟩, hes, hss,
      hop₁.trans (by rw [toList_toKey hm]), ⟨ts, hop₂, hparse⟩, rfl, rfl, rfl, rfl⟩
  · rintro ⟨-, -, hes, hss, hstatic, ⟨ts, hts, hparse⟩, heph, hidx, hconstr, hh⟩
    have hc₁ := contributory_eq_ok.mpr ⟨hes, rfl⟩
    have hc₂ := contributory_eq_ok.mpr ⟨hss, rfl⟩
    have htsLen' : ts.length = 12 := by
      have := C.length_of_opened hts
      have : (slice packet initEncryptedTimestamp).length = ts.length + aeadTagSize := this
      omega
    simp only [InitTranscript.ofPacket, InitTranscript.staticKey, InitTranscript.constr₁,
      InitTranscript.h₁] at hc₁ hc₂ hstatic
    simp only [InitTranscript.ofPacket, InitTranscript.timestampKey, InitTranscript.constr₂,
      InitTranscript.constr₁, InitTranscript.h₂, InitTranscript.h₁] at hts
    simp only [hc₁, hstatic, Option.map_some, take_opened hstatic hstaticLen, toKey_toList, hc₂,
      slice_timestamp_of_opened hlen st.peerPublic.toList_length, hts]
    rw [length_opened_sub htsLen' htsLen, take_opened hts htsLen, hparse]
    obtain ⟨peerPublic, ephemeral, index, timestamp, constr, hash⟩ := st
    simp only at heph hidx hconstr hh
    subst heph hidx hconstr hh
    rfl

/-- A response that the pending initiation `state` accepts as `est`. -/
structure Answered (state : InitSent C) (ourPrivate : C.Secret)
    (presharedKey : Option PresharedKey) (packet : Bytes) (est : InitiatorEstablished C) :
    Prop where
  length_eq : packet.length = respMsgLength
  hasType : HasType .handshakeResp packet
  receiver_eq : u32FromLe (slice packet respReceiver) = state.indexInitiator
  ee_contributory :
    C.wasContributory (RespTranscript.ofPacket state ourPrivate presharedKey packet).ee = true
  tag_opened : ∃ m,
    C.opened (RespTranscript.ofPacket state ourPrivate presharedKey packet).tagKey 0
      (C.asRef (RespTranscript.ofPacket state ourPrivate presharedKey packet).h)
      (slice packet respEncryptedEmptyTag) = some m
  est_eq : est =
    { ourIndex := state.indexInitiator
      peerIndex := u32FromLe (slice packet respSender)
      constr := (RespTranscript.ofPacket state ourPrivate presharedKey packet).constr }

/-- **What a response must be to be accepted.** -/
theorem InitSent.responseReceived_ok_iff {state : InitSent C} {ourPrivate : C.Secret}
    {presharedKey : Option PresharedKey} {packet : Bytes} {est : InitiatorEstablished C} :
    state.responseReceived ourPrivate presharedKey packet = .ok est ↔
      Answered state ourPrivate presharedKey packet est := by
  simp only [responseReceived, C.aeadOpen_eq]
  constructor
  · intro h
    split_ifs at h with hbad hidx
    simp only [not_or, not_not] at hbad hidx
    obtain ⟨hlen, hty, hres⟩ := hbad
    cases hc : contributory C (C.diffieHellman state.ephemeralSecretInitiator
        (toKey (slice packet respEphemeralPk))) with
    | error e => rw [hc] at h; cases h
    | ok s =>
        rw [hc] at h
        obtain ⟨hee, rfl⟩ := contributory_eq_ok.mp hc
        dsimp only at h
        split at h
        · cases h
        rename_i hmap
        obtain ⟨m, hop, -⟩ := Option.map_eq_some_iff.mp hmap
        cases h
        exact ⟨hlen, ⟨MessageType.tryFrom_eq_ok_iff.mp hty, hres⟩, hidx, hee, ⟨m, hop⟩, rfl⟩
  · rintro ⟨hlen, ⟨hty, hres⟩, hidx, hee, ⟨m, hop⟩, rfl⟩
    have hty' := MessageType.tryFrom_eq_ok_iff.mpr hty
    have hc := contributory_eq_ok.mpr ⟨hee, rfl⟩
    simp only [RespTranscript.ofPacket, RespTranscript.tagKey, RespTranscript.constr₃,
      RespTranscript.constr₂, RespTranscript.constr₁, RespTranscript.h, RespTranscript.temp]
      at hc hop
    rw [if_neg (by simp only [not_or, not_not]; exact ⟨hlen, hty', hres⟩),
      if_neg (not_not.mpr hidx)]
    simp only [hc, hop, Option.map_some]
    rfl

end Tunstile
