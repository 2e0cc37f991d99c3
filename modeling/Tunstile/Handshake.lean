/-
Tunstile/Handshake.lean

The Noise IKpsk2 handshake (`protocol/src/handshake.rs`), from initiation
through transport-key derivation.

The four message functions are written as the source has them: fields are
copied into the output buffer at their spans, sealed in place, and hashed as
they appear on the wire; received fields are opened in place.  Each function
threads the cookie generator and the buffer it is given.
-/
import Tunstile.Cookies
import Tunstile.Transport

namespace Tunstile

variable {C : Crypto}

/-- C := HASH(Noise_IKpsk2_25519_ChaChaPoly_BLAKE2s) -/
def initialConstrHash : Bytes :=
  [96, 226, 109, 174, 243, 39, 239, 192, 46, 195, 53, 226, 160, 37, 210, 208, 22, 235, 66, 6, 248,
    114, 119, 245, 45, 56, 209, 152, 139, 120, 205, 54]

/-- H := HASH(C || WireGuard v1 zx2c4 Jason@zx2c4.com) -/
def initialIdentifierHash : Bytes :=
  [34, 17, 179, 97, 8, 26, 197, 102, 105, 18, 67, 219, 69, 138, 213, 50, 45, 156, 108, 102, 34,
    147, 232, 183, 14, 225, 156, 101, 186, 7, 158, 243]

inductive HandshakeError where
  | failed
  | bufferTooSmall (required : Nat)
  deriving DecidableEq

/-- The 32-byte key held by a 32-byte slice. -/
def toKey (b : Bytes) : PublicKey := List.Vector.ofFn fun i => b.getD i 0

/-- `PresharedKey::default`: all zero. -/
def PresharedKey.zero : PresharedKey := List.Vector.replicate 32 0

/-- The key a pre-shared-key option stands for. -/
def effectivePsk (presharedKey : Option PresharedKey) : PresharedKey :=
  presharedKey.getD PresharedKey.zero

def contributory (C : Crypto) (secret : Bytes) : Except HandshakeError Bytes :=
  if C.wasContributory secret then .ok secret else .error .failed

/-! ### Handshake states -/

/-- Initiator state: an initiation was sent; awaiting the peer's response. -/
structure InitSent (C : Crypto) where
  indexInitiator : UInt32
  ephemeralSecretInitiator : C.Secret
  constr : C.Hash256
  h : C.Hash256

/-- Responder state: a valid initiation was received and can be responded to. -/
structure InitReceived (C : Crypto) where
  peerPublic : PublicKey
  ephemeralPublicInitiator : PublicKey
  indexInitiator : UInt32
  timestamp : C.Tai64N
  constr : C.Hash256
  h : C.Hash256

/-- Responder state: the response was sent; transport keys can be derived. -/
structure ReceiverEstablished (C : Crypto) where
  ourIndex : UInt32
  peerIndex : UInt32
  constr : C.Hash256

/-- Initiator state: a valid response was received; transport keys can be
derived. -/
structure InitiatorEstablished (C : Crypto) where
  ourIndex : UInt32
  peerIndex : UInt32
  constr : C.Hash256

/-! ### Initiation -/

/-- Initiates a handshake with the peer, writing the initiation message to
the first `initMsgLength` bytes of `buf`. -/
def InitSent.initiate (ourPrivate : C.Secret) (peerPublic : PublicKey) (sender : UInt32)
    (ephemeralSecret : C.Secret) (timestamp : C.Tai64N) (cookies : Generator C) (buf : Bytes) :
    Except HandshakeError (InitSent C) × Generator C × Bytes :=
  if buf.length < initMsgLength then (.error (.bufferTooSmall initMsgLength), cookies, buf)
  else
    let rest := buf.drop initMsgLength
    let buf := buf.take initMsgLength
    let buf := splice buf 0 [MessageType.handshakeInit.toByte]
    let buf := splice buf reserved.start [0, 0, 0]
    let buf := splice buf initSender.start (u32ToLe sender)
    let constr := initialConstrHash
    let h := C.hash [initialIdentifierHash, peerPublic.toList]
    let ephemeralPublicKey := C.publicKey ephemeralSecret
    let buf := splice buf initEphemeralPk.start ephemeralPublicKey.toList
    let constr := C.kdf constr ephemeralPublicKey.toList 0
    let h := C.hash [C.asRef h, ephemeralPublicKey.toList]
    match contributory C (C.diffieHellman ephemeralSecret peerPublic) with
    | .error e => (.error e, cookies, buf ++ rest)
    | .ok sharedSecret =>
        let key := C.kdf (C.asRef constr) sharedSecret 1
        let constr := C.kdf (C.asRef constr) sharedSecret 0
        let ourPublic := C.publicKey ourPrivate
        let buf := splice buf initEncryptedStaticPk.start ourPublic.toList
        let buf := splice buf initEncryptedStaticPk.start
          (C.aeadSeal key 0 (C.asRef h) (slice buf initEncryptedStaticPk))
        let h := C.hash [C.asRef h, slice buf initEncryptedStaticPk]
        let sharedSecret := C.diffieHellman ourPrivate peerPublic
        let key := C.kdf (C.asRef constr) sharedSecret 1
        let constr := C.kdf (C.asRef constr) sharedSecret 0
        let buf := splice buf initEncryptedTimestamp.start (C.toBytes timestamp).toList
        let buf := splice buf initEncryptedTimestamp.start
          (C.aeadSeal key 0 (C.asRef h) (slice buf initEncryptedTimestamp))
        let h := C.hash [C.asRef h, slice buf initEncryptedTimestamp]
        match cookies.addMacs timestamp buf with
        | (.error _, cookies, buf) => (.error .failed, cookies, buf ++ rest)
        | (.ok (), cookies, buf) =>
            (.ok { indexInitiator := sender, ephemeralSecretInitiator := ephemeralSecret,
                   constr := constr, h := h }, cookies, buf ++ rest)

/-- Parses and validates a received handshake initiation. -/
def InitReceived.receive (ourPrivate : C.Secret) (packet : Bytes) :
    Except HandshakeError (InitReceived C) :=
  if packet.length ≠ initMsgLength ∨
      MessageType.tryFrom (typeByte packet) ≠ .ok .handshakeInit ∨
      slice packet reserved ≠ [0, 0, 0] then
    .error .failed
  else
    let sender := u32FromLe (slice packet initSender)
    let ephemeralPublicKey := toKey (slice packet initEphemeralPk)
    let constr := initialConstrHash
    let ourPublic := C.publicKey ourPrivate
    let h := C.hash [initialIdentifierHash, ourPublic.toList]
    let constr := C.kdf constr ephemeralPublicKey.toList 0
    let h := C.hash [C.asRef h, ephemeralPublicKey.toList]
    match contributory C (C.diffieHellman ourPrivate ephemeralPublicKey) with
    | .error e => .error e
    | .ok sharedSecret =>
        let key := C.kdf (C.asRef constr) sharedSecret 1
        let constr := C.kdf (C.asRef constr) sharedSecret 0
        -- the hash is computed based on the encrypted bytes
        let hTemp := C.hash [C.asRef h, slice packet initEncryptedStaticPk]
        match C.aeadOpen key 0 (C.asRef h) (slice packet initEncryptedStaticPk) with
        | none => .error .failed
        | some staticPkBuf =>
            let packet := splice packet initEncryptedStaticPk.start staticPkBuf
            let peerPublic := toKey (staticPkBuf.take 32)
            let h := hTemp
            match contributory C (C.diffieHellman ourPrivate peerPublic) with
            | .error e => .error e
            | .ok sharedSecret =>
                let key := C.kdf (C.asRef constr) sharedSecret 1
                let constr := C.kdf (C.asRef constr) sharedSecret 0
                let hTemp := C.hash [C.asRef h, slice packet initEncryptedTimestamp]
                match C.aeadOpen key 0 (C.asRef h) (slice packet initEncryptedTimestamp) with
                | none => .error .failed
                | some timestampBuf =>
                    match C.fromSlice (timestampBuf.take (timestampBuf.length - aeadTagSize)) with
                    | none => .error .failed
                    | some timestamp =>
                        .ok { peerPublic := peerPublic
                              ephemeralPublicInitiator := ephemeralPublicKey
                              indexInitiator := sender
                              timestamp := timestamp
                              constr := constr
                              h := hTemp }

/-! ### Response -/

/-- Responds to the received initiation, writing the response message to the
first `respMsgLength` bytes of `buf`. -/
def InitReceived.respond (state : InitReceived C) (index : UInt32) (ephemeralSecret : C.Secret)
    (presharedKey : Option PresharedKey) (timestamp : C.Tai64N) (cookies : Generator C)
    (buf : Bytes) : Except HandshakeError (ReceiverEstablished C) × Generator C × Bytes :=
  if buf.length < respMsgLength then (.error (.bufferTooSmall respMsgLength), cookies, buf)
  else
    let rest := buf.drop respMsgLength
    let buf := buf.take respMsgLength
    let buf := splice buf 0 [MessageType.handshakeResp.toByte]
    let buf := splice buf reserved.start [0, 0, 0]
    let buf := splice buf respSender.start (u32ToLe index)
    let buf := splice buf respReceiver.start (u32ToLe state.indexInitiator)
    let ephemeralPublic := C.publicKey ephemeralSecret
    let buf := splice buf respEphemeralPk.start ephemeralPublic.toList
    let constr := C.kdf (C.asRef state.constr) ephemeralPublic.toList 0
    let h := C.hash [C.asRef state.h, ephemeralPublic.toList]
    let sharedSecret := C.diffieHellman ephemeralSecret state.ephemeralPublicInitiator
    let constr := C.kdf (C.asRef constr) sharedSecret 0
    let sharedSecret := C.diffieHellman ephemeralSecret state.peerPublic
    let constr := C.kdf (C.asRef constr) sharedSecret 0
    let presharedKey := effectivePsk presharedKey
    let temp := C.kdf (C.asRef constr) presharedKey.toList 1
    let key := C.kdf (C.asRef constr) presharedKey.toList 2
    let constr := C.kdf (C.asRef constr) presharedKey.toList 0
    let h := C.hash [C.asRef h, C.asRef temp]
    let buf := splice buf respEncryptedEmptyTag.start
      (C.aeadSeal key 0 (C.asRef h) (slice buf respEncryptedEmptyTag))
    match cookies.addMacs timestamp buf with
    | (.error _, cookies, buf) => (.error .failed, cookies, buf ++ rest)
    | (.ok (), cookies, buf) =>
        (.ok { ourIndex := index, peerIndex := state.indexInitiator, constr := constr },
          cookies, buf ++ rest)

/-- Processes a received handshake response to our initiation. -/
def InitSent.responseReceived (state : InitSent C) (ourPrivate : C.Secret)
    (presharedKey : Option PresharedKey) (packet : Bytes) :
    Except HandshakeError (InitiatorEstablished C) :=
  if packet.length ≠ respMsgLength ∨
      MessageType.tryFrom (typeByte packet) ≠ .ok .handshakeResp ∨
      slice packet reserved ≠ [0, 0, 0] then
    .error .failed
  else
    let sender := u32FromLe (slice packet respSender)
    let receiver := u32FromLe (slice packet respReceiver)
    let ephemeralPublicKey := toKey (slice packet respEphemeralPk)
    if receiver ≠ state.indexInitiator then .error .failed
    else
      let constr := C.kdf (C.asRef state.constr) ephemeralPublicKey.toList 0
      let h := C.hash [C.asRef state.h, ephemeralPublicKey.toList]
      match contributory C
          (C.diffieHellman state.ephemeralSecretInitiator ephemeralPublicKey) with
      | .error e => .error e
      | .ok sharedSecret =>
          let constr := C.kdf (C.asRef constr) sharedSecret 0
          let sharedSecret := C.diffieHellman ourPrivate ephemeralPublicKey
          let constr := C.kdf (C.asRef constr) sharedSecret 0
          let presharedKey := effectivePsk presharedKey
          let temp := C.kdf (C.asRef constr) presharedKey.toList 1
          let key := C.kdf (C.asRef constr) presharedKey.toList 2
          let constr := C.kdf (C.asRef constr) presharedKey.toList 0
          let h := C.hash [C.asRef h, C.asRef temp]
          match C.aeadOpen key 0 (C.asRef h) (slice packet respEncryptedEmptyTag) with
          | none => .error .failed
          | some _ =>
              .ok { ourIndex := state.indexInitiator, peerIndex := sender, constr := constr }

/-! ### Transport keys -/

/-- Finishes the handshake deriving the transport data keys. -/
def ReceiverEstablished.finish (state : ReceiverEstablished C) : Transport C :=
  let dataRecv := C.kdf (C.asRef state.constr) [] 0
  let dataSend := C.kdf (C.asRef state.constr) [] 1
  Transport.new state.ourIndex state.peerIndex dataRecv dataSend

/-- Finishes the handshake deriving the transport data keys. -/
def InitiatorEstablished.finish (state : InitiatorEstablished C) : Transport C :=
  let dataSend := C.kdf (C.asRef state.constr) [] 0
  let dataRecv := C.kdf (C.asRef state.constr) [] 1
  Transport.new state.ourIndex state.peerIndex dataRecv dataSend

@[simp] theorem ReceiverEstablished.ourIndex_finish (state : ReceiverEstablished C) :
    state.finish.ourIndex = state.ourIndex := rfl

@[simp] theorem InitiatorEstablished.ourIndex_finish (state : InitiatorEstablished C) :
    state.finish.ourIndex = state.ourIndex := rfl

end Tunstile
