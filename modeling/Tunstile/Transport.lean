/-
Tunstile/Transport.lean

Transport data messages (`protocol/src/transport.rs`) and the session that
pairs a transport with its replay window (`protocol/src/peer/session.rs`).

`send` and `receive` work on buffers in place; their results are stated on
the wire form `dataWire` of a packet:

* `send_cases` — a failed send changes nothing, a successful one writes the
  wire form of the sealed payload under the current counter and moves the
  counter by one;
* `receive_ok_iff` — a packet is accepted exactly when it is addressed to
  this session and its payload field opens under the receive key.
-/
import Tunstile.Replay
import Tunstile.Message

namespace Tunstile

variable {C : Crypto}

inductive TransportError where
  | invalidPacket
  | bufferTooSmall (required : Nat)
  | counterExhausted
  deriving DecidableEq

/-- The keys for one established session. -/
structure Transport (C : Crypto) where
  ourIndex : UInt32
  peerIndex : UInt32
  recvAead : C.Hash256
  sendAead : C.Hash256
  sendCounter : UInt64

namespace Transport

def new (ourIndex peerIndex : UInt32) (recvAead sendAead : C.Hash256) : Transport C :=
  ⟨ourIndex, peerIndex, recvAead, sendAead, 0⟩

def rekeyDue (t : Transport C) : Bool := decide (rekeyAfterMessages ≤ t.sendCounter)

/-- Writes an encrypted transport data message to the given buffer. -/
def send (t : Transport C) (payload buf : Bytes) :
    Except TransportError Nat × Transport C × Bytes :=
  let len := packetLen payload.length
  if buf.length < len then (.error (.bufferTooSmall len), t, buf)
  else if rejectAfterMessages ≤ t.sendCounter then (.error .counterExhausted, t, buf)
  else
    let rest := buf.drop len
    let buf := buf.take len
    let counter := t.sendCounter
    let t' := { t with sendCounter := t.sendCounter + 1 }
    let buf := splice buf 0 [MessageType.data.toByte]
    let buf := splice buf reserved.start [0, 0, 0]
    let buf := splice buf dataReceiver.start (u32ToLe t.peerIndex)
    let buf := splice buf dataCounter.start (u64ToLe counter)
    let buf := splice buf dataPayloadOffset payload
    let buf := splice buf dataPayloadOffset
      (C.aeadSeal t.sendAead counter [] (buf.drop dataPayloadOffset))
    (.ok len, t', buf ++ rest)

/-- Decrypts a received data message in place, returning its counter, the
length of the plaintext now at the beginning of the packet, and the packet. -/
def receive (t : Transport C) (packet : Bytes) : Except TransportError (UInt64 × Nat × Bytes) :=
  if packet.length < packetLen 0 ∨ MessageType.tryFrom (typeByte packet) ≠ .ok .data ∨
      slice packet reserved ≠ [0, 0, 0] then
    .error .invalidPacket
  else if u32FromLe (slice packet dataReceiver) ≠ t.ourIndex then .error .invalidPacket
  else
    let counter := u64FromLe (slice packet dataCounter)
    match C.aeadOpenWithin t.recvAead counter [] packet dataPayloadOffset with
    | none => .error .invalidPacket
    | some opened => .ok (counter, packet.length - dataPayloadOffset - aeadTagSize, opened)

end Transport

/-! ### The wire form of a data message -/

/-- A data message addressed to `receiver`. -/
def dataWire (receiver : UInt32) (counter : UInt64) (field : Bytes) : Bytes :=
  [MessageType.data.toByte] ++ [0, 0, 0] ++ u32ToLe receiver ++ u64ToLe counter ++ field

section Wire

variable (receiver : UInt32) (counter : UInt64) (field : Bytes)

@[simp] theorem length_dataWire :
    (dataWire receiver counter field).length = dataPayloadOffset + field.length := by
  simp [dataWire, dataPayloadOffset, dataCounter, dataReceiver]
  omega

theorem hasType_dataWire : HasType .data (dataWire receiver counter field) :=
  ⟨rfl, rfl⟩

@[simp] theorem dataWire_receiver :
    slice (dataWire receiver counter field) dataReceiver = u32ToLe receiver := by
  rw [dataWire, List.append_assoc]
  exact slice_append_field rfl (length_u32ToLe receiver)

@[simp] theorem dataWire_counter :
    slice (dataWire receiver counter field) dataCounter = u64ToLe counter := by
  rw [dataWire]
  exact slice_append_field (by simp [dataCounter, dataReceiver]) (length_u64ToLe counter)

@[simp] theorem dataWire_field :
    (dataWire receiver counter field).drop dataPayloadOffset = field := by
  rw [dataWire]
  refine List.drop_left' ?_
  simp [dataPayloadOffset, dataCounter, dataReceiver]

theorem length_dataWire_sealed (key : C.Hash256) (payload : Bytes) :
    (dataWire receiver counter (C.sealed key counter [] payload)).length
      = packetLen payload.length := by
  rw [length_dataWire, C.length_sealed, packetLen, transportOverhead]
  omega

end Wire

namespace Transport

/-- With room for the packet and a counter left, a send writes the wire form
of the payload sealed under the current counter, which it then moves past. -/
theorem send_ok (t : Transport C) {payload buf : Bytes}
    (hlen : packetLen payload.length ≤ buf.length) (hctr : t.sendCounter < rejectAfterMessages) :
    t.send payload buf = (.ok (packetLen payload.length),
      { t with sendCounter := t.sendCounter + 1 },
      dataWire t.peerIndex t.sendCounter (C.sealed t.sendAead t.sendCounter [] payload)
        ++ buf.drop (packetLen payload.length)) := by
  rw [send, if_neg (not_lt.mpr hlen), if_neg (UInt64.not_le.mpr hctr)]
  -- the buffer is written front to back; `room` is what is left of it
  obtain ⟨room, hroom, hbuf⟩ : ∃ room : Bytes, room.length = packetLen payload.length ∧
      buf.take (packetLen payload.length) = room := ⟨_, by simp; omega, rfl⟩
  have hsize : packetLen payload.length = 32 + payload.length := rfl
  simp only [hbuf]
  rw [splice_header (o := dataReceiver.start) rfl,
    splice_append (o := dataCounter.start) (by simp [dataCounter, dataReceiver]),
    splice_append (o := dataPayloadOffset) (by simp [dataPayloadOffset, dataCounter, dataReceiver])]
  -- behind the header: the payload, then exactly the room its tag needs
  have hhdr : ([MessageType.data.toByte] ++ [0, 0, 0] ++ u32ToLe t.peerIndex
      ++ u64ToLe t.sendCounter : Bytes).length = dataPayloadOffset := by
    simp [dataPayloadOffset, dataCounter, dataReceiver]
  have htag : (room.drop (8 + (8 + payload.length))).length = aeadTagSize := by
    rw [List.length_drop, hroom, hsize, aeadTagSize]
    omega
  rw [List.drop_drop, List.drop_drop, length_u64ToLe,
    List.append_assoc _ payload, List.drop_left' hhdr, C.aeadSeal_append _ _ _ _ _ htag,
    splice_append hhdr]
  have hnil : (payload ++ room.drop (8 + (8 + payload.length))).drop
      (C.sealed t.sendAead t.sendCounter [] payload).length = [] := by
    refine List.drop_eq_nil_of_le ?_
    rw [List.length_append, htag, C.length_sealed]
  rw [hnil, List.append_nil, dataWire]

/-- **What a send can do.**  It fails and changes nothing, or it writes a
packet. -/
theorem send_cases (t : Transport C) (payload buf : Bytes) :
    (∃ e, t.send payload buf = (.error e, t, buf)) ∨
      (packetLen payload.length ≤ buf.length ∧ t.sendCounter < rejectAfterMessages ∧
        t.send payload buf = (.ok (packetLen payload.length),
          { t with sendCounter := t.sendCounter + 1 },
          dataWire t.peerIndex t.sendCounter (C.sealed t.sendAead t.sendCounter [] payload)
            ++ buf.drop (packetLen payload.length))) := by
  by_cases hlen : buf.length < packetLen payload.length
  · exact Or.inl ⟨_, by rw [send, if_pos hlen]⟩
  by_cases hctr : rejectAfterMessages ≤ t.sendCounter
  · exact Or.inl ⟨_, by rw [send, if_neg hlen, if_pos hctr]⟩
  have hlen' := not_lt.mp hlen
  have hctr' := UInt64.not_le.mp hctr
  exact Or.inr ⟨hlen', hctr', t.send_ok hlen' hctr'⟩

/-- A packet addressed to this session whose payload field opens under the
receive key. -/
structure Authentic (t : Transport C) (packet : Bytes) (counter : UInt64) (payload : Bytes) :
    Prop where
  hasType : HasType .data packet
  receiver_eq : u32FromLe (slice packet dataReceiver) = t.ourIndex
  counter_eq : counter = u64FromLe (slice packet dataCounter)
  opened_eq : C.opened t.recvAead counter [] (packet.drop dataPayloadOffset) = some payload

/-- What is sealed under the receive key and addressed to the session is
authentic. -/
theorem authentic_dataWire (hseal : C.OpenSeal) {t : Transport C} {receiver : UInt32}
    {key : C.Hash256} (hreceiver : receiver = t.ourIndex) (hkey : key = t.recvAead)
    (counter : UInt64) (payload : Bytes) :
    t.Authentic (dataWire receiver counter (C.sealed key counter [] payload)) counter payload where
  hasType := hasType_dataWire _ _ _
  receiver_eq := by rw [dataWire_receiver, u32FromLe_u32ToLe, hreceiver]
  counter_eq := by rw [dataWire_counter, u64FromLe_u64ToLe]
  opened_eq := by
    rw [dataWire_field, ← hkey]
    exact hseal _ _ _ _

/-- **What a receive accepts.** -/
theorem receive_ok_iff {t : Transport C} {packet opened : Bytes} {counter : UInt64} {n : Nat} :
    t.receive packet = .ok (counter, n, opened) ↔
      ∃ payload, t.Authentic packet counter payload ∧ n = payload.length ∧
        opened = Crypto.relocated packet dataPayloadOffset payload := by
  simp only [receive, C.aeadOpenWithin_eq]
  constructor
  · intro h
    split_ifs at h with hbad hidx
    simp only [not_or, not_not, not_lt] at hbad hidx
    cases hop : C.opened t.recvAead (u64FromLe (slice packet dataCounter)) []
        (packet.drop dataPayloadOffset) with
    | none => rw [hop] at h; cases h
    | some payload =>
        rw [hop] at h
        simp only [Option.map_some, Except.ok.injEq, Prod.mk.injEq] at h
        obtain ⟨rfl, rfl, rfl⟩ := h
        have hty := MessageType.tryFrom_eq_ok_iff.mp hbad.2.1
        refine ⟨payload, ⟨⟨hty, hbad.2.2⟩, hidx, rfl, hop⟩, ?_, rfl⟩
        have := C.length_of_opened hop
        rw [List.length_drop] at this
        omega
  · rintro ⟨payload, ⟨⟨hty, hres⟩, hidx, rfl, hop⟩, rfl, rfl⟩
    have hlen := C.length_of_opened hop
    rw [List.length_drop] at hlen
    have hsize : packetLen 0 = dataPayloadOffset + aeadTagSize := rfl
    have htag : aeadTagSize = 16 := rfl
    have hty' := MessageType.tryFrom_eq_ok_iff.mpr hty
    rw [if_neg (by simp only [not_or, not_not, not_lt]; exact ⟨by omega, hty', hres⟩),
      if_neg (not_not.mpr hidx), hop]
    simp only [Option.map_some, Except.ok.injEq, Prod.mk.injEq, true_and, and_true]
    omega

/-- The plaintext sits at the front of the opened packet. -/
theorem take_relocated {packet payload : Bytes} :
    (Crypto.relocated packet dataPayloadOffset payload).take payload.length = payload := by
  rw [Crypto.relocated, if_pos (by decide), splice_zero, List.take_left]

end Transport

/-! ### Sessions -/

/-- Handshake retransmission interval. -/
def rekeyTimeout : Duration := Duration.fromSecs 5
/-- Exclusive upper bound for random milliseconds added to rekey timers. -/
def rekeyTimeoutJitterMax : Duration := Duration.fromMillis 334
/-- Give up retransmitting a handshake after this long. -/
def rekeyAttemptTime : Duration := Duration.fromSecs 90
/-- An initiator rekeys when sending on a session older than this. -/
def rekeyAfterTime : Duration := Duration.fromSecs 120
/-- A session refuses to encrypt or decrypt once older than this. -/
def rejectAfterTime : Duration := Duration.fromSecs 180
/-- Received data must be answered within this window. -/
def keepaliveTimeout : Duration := Duration.fromSecs 10
/-- An initiator rekeys when receiving on a session this close to expiry. -/
def rekeyAfterTimeReceiving : Duration := Duration.fromSecs (180 - 10 - 5)

inductive SessionReceiveError where
  | invalid
  | replay
  deriving DecidableEq

structure Session (C : Crypto) where
  transport : Transport C
  established : Instant
  replay : ReplayFilter

namespace Session

def new (transport : Transport C) (now : Instant) : Session C :=
  ⟨transport, now, ReplayFilter.new⟩

def ourIndex (s : Session C) : UInt32 := s.transport.ourIndex

@[simp] theorem ourIndex_new (transport : Transport C) (now : Instant) :
    (new transport now).ourIndex = transport.ourIndex := rfl

def expired (s : Session C) (now : Instant) : Bool :=
  decide (rejectAfterTime ≤ now.durationSince s.established)

def rekeyDueToMessages (s : Session C) : Bool := s.transport.rekeyDue

def send (s : Session C) (payload out : Bytes) :
    Except TransportError Nat × Session C × Bytes :=
  match s.transport.send payload out with
  | (r, transport, out) => (r, { s with transport := transport }, out)

def receive (s : Session C) (packet : Bytes) :
    Except SessionReceiveError (Nat × Bytes) × Session C :=
  match s.transport.receive packet with
  | .error _ => (.error .invalid, s)
  | .ok (counter, payloadLen, packet) =>
      match s.replay.validate counter with
      | (false, replay) => (.error .replay, { s with replay := replay })
      | (true, replay) => (.ok (payloadLen, packet), { s with replay := replay })

/-- **What a receive can do.**  While the window is the one of some accepted
counters, a refused packet leaves the session as it was, and an accepted one
is authentic, fresh, and only moves the window. -/
theorem receive_cases (s : Session C) {acc : List UInt64} (hacc : s.replay.Accepted acc)
    (packet : Bytes) :
    (∃ e, s.receive packet = (.error e, s)) ∨
      ∃ counter payload replay, s.transport.Authentic packet counter payload ∧
        s.replay.validate counter = (true, replay) ∧
        s.receive packet = (.ok (payload.length,
          Crypto.relocated packet dataPayloadOffset payload), { s with replay := replay }) := by
  cases hrecv : s.transport.receive packet with
  | error e => exact Or.inl ⟨.invalid, by rw [receive, hrecv]⟩
  | ok r =>
      obtain ⟨counter, n, opened⟩ := r
      obtain ⟨payload, hauth, rfl, rfl⟩ := Transport.receive_ok_iff.mp hrecv
      by_cases hfresh : Fresh acc counter
      · obtain ⟨replay, hval, -⟩ := (s.replay.validate_spec hacc counter).1 hfresh
        exact Or.inr ⟨counter, payload, replay, hauth, hval, by rw [receive, hrecv]; simp only [hval]⟩
      · have hval := (s.replay.validate_spec hacc counter).2 hfresh
        exact Or.inl ⟨.replay, by rw [receive, hrecv]; simp only [hval]⟩

theorem expired_new (transport : Transport C) (now : Instant) :
    (new transport now).expired now = false := by
  refine decide_eq_false fun h => ?_
  have hpos : 0 < rejectAfterTime.nanos := by decide
  have hle : rejectAfterTime.nanos ≤ (now.durationSince now).nanos := Duration.le_iff.mp h
  rw [Instant.nanos_durationSince, Nat.sub_self] at hle
  omega

/-- An expired session stays expired. -/
theorem expired_mono {s : Session C} {now later : Instant} (h : now ≤ later)
    (he : s.expired now = true) : s.expired later = true := by
  simp only [expired, decide_eq_true_eq] at *
  exact he.trans (Instant.durationSince_mono h _)

end Session

end Tunstile
