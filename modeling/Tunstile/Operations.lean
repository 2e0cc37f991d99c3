/-
Tunstile/Operations.lean

What the longer operations of an actor do, each in one lemma.

`send_handshake` has three outcomes: without an endpoint nothing happens;
with one the attempt is noted, and then the machine refuses to write an
initiation, or it writes one and the actor hands it to the socket.  A
keepalive, and a data message that arrives, are parted into what they do
themselves and the handshake they may begin.  The actor that each leaves is
written out, so that what stays the same need not be proved again.
-/
import Tunstile.Staging

namespace Tunstile

variable {C : Crypto}

theorem Peer.length_encrypt (p : Peer C) (now : Instant) (payload out : Bytes) :
    (p.encrypt now payload out).2.2.length = out.length := by
  unfold Peer.encrypt
  split
  · rfl
  split
  · rfl
  rename_i session hcurrent
  split
  · rfl
  obtain ⟨e, h⟩ | ⟨hlen, -, h⟩ := session.transport.send_cases payload out
  · simp only [Session.send, h]
  · simp only [Session.send, h]
    rw [List.length_append, length_dataWire, List.length_drop, C.length_sealed]
    have hsize : packetLen payload.length = dataPayloadOffset + aeadTagSize + payload.length := rfl
    omega

/-- Encrypting needs an endpoint, writes a data message and changes the send
session only. -/
theorem Peer.encrypt_frame {p p' : Peer C} {now : Instant} {payload out buf : Bytes}
    {r : Except PeerError ℕ} (h : p.encrypt now payload out = (r, p', buf)) :
    (∃ current, p' = { p with current := current }) ∧
      ∀ n, r = .ok n → p.endpoint.isSome = true ∧ n = packetLen payload.length ∧
        typeByte buf = MessageType.data.toByte := by
  have heff := p.encrypt_effect now payload out
  rw [step, h] at heff
  cases r with
  | error e =>
      cases heff
      exact ⟨⟨_, rfl⟩, fun _ h => by cases h⟩
  | ok n =>
      cases heff with
      | encrypted session hendpoint =>
          exact ⟨⟨_, rfl⟩, fun _ h => ⟨hendpoint, (Except.ok.inj h).symm, rfl⟩⟩

/-- What a machine keeps of the initiation it wrote with `values`. -/
def Peer.pendingFor (p : Peer C) (ourKey : C.Secret) (values : HandshakeValues C) :
    PendingHandshake C where
  state :=
    { indexInitiator := values.index
      ephemeralSecretInitiator := values.ephemeralSecret
      constr := (InitTranscript.ofInitiator ourKey p.peerKey values.ephemeralSecret
        values.timestamp).constr
      h := (InitTranscript.ofInitiator ourKey p.peerKey values.ephemeralSecret
        values.timestamp).h }
  ourIndex := values.index

/-- Writing an initiation into a buffer of its size fails and changes
nothing, or gives the machine a pending handshake. -/
theorem Peer.initiate_cases (p : Peer C) (ourKey : C.Secret) (values : HandshakeValues C) :
    (∃ e out, p.initiate ourKey values (List.replicate initMsgLength 0) = (.error e, p, out)) ∨
      ∃ mac1 msg, HasType .handshakeInit msg ∧
        p.initiate ourKey values (List.replicate initMsgLength 0)
          = (.ok (p.pending.map PendingHandshake.ourIndex),
            { p with
              cookieGenerator := { p.cookieGenerator with lastSentMac1 := some mac1 }
              pending := some (p.pendingFor ourKey values) }, msg) := by
  have hlen : ¬ (List.replicate initMsgLength (0 : UInt8)).length < initMsgLength := by
    rw [List.length_replicate]
    exact lt_irrefl _
  simp only [initiate, if_neg hlen]
  obtain ⟨-, e, out, h⟩ | ⟨-, -, mac1, msg, h, hmsg⟩ := InitSent.initiate_cases ourKey p.peerKey
    values.index values.ephemeralSecret values.timestamp p.cookieGenerator
    (List.replicate initMsgLength 0)
  · exact Or.inl ⟨_, _, by rw [h]⟩
  · refine Or.inr ⟨mac1, msg, hmsg.hasType, ?_⟩
    have hdrop : (List.replicate initMsgLength (0 : UInt8)).drop initMsgLength = [] :=
      List.drop_eq_nil_of_le List.length_replicate.le
    rw [h, hdrop, List.append_nil]
    rfl

/-- An initiation that a machine wrote, and what the machine keeps of it. -/
structure Initiation (C : Crypto) where
  message : Bytes
  pending : PendingHandshake C

namespace Actor

/-- The initiation that the machine writes next, unless it refuses. -/
@[irreducible] def initiation (a : Actor C) : Option (Initiation C) :=
  match a.machine.initiate a.ourKey a.values (List.replicate initMsgLength 0) with
  | (.ok _, machine, msg) => machine.pending.map fun pending => ⟨msg, pending⟩
  | (.error _, _, _) => none

/-- The attempt noted by an initiation sent now. -/
def attempt (a : Actor C) (firstSent : Instant) : HandshakeAttempt :=
  .new firstSent a.now a.rekeyJitter

/-- The actor when the machine did not write an initiation. -/
def unwritten (a : Actor C) (firstSent : Instant) : Actor C :=
  { a with
    handshake := some (a.attempt firstSent)
    env := { a.env with
      clock := a.env.clock.tail
      rekeyJitter := a.env.rekeyJitter.tail
      values := a.env.values.tail } }

/-- The actor when the machine wrote an initiation, which was sent to
`endpoint`. -/
structure Initiated (a : Actor C) (firstSent : Instant) (endpoint : SocketAddr)
    (i : Initiation C) (a' : Actor C) : Prop where
  hasType : HasType .handshakeInit i.message
  lastSend : a'.lastSend = a.lastSend ∨ a'.lastSend = a.now
  rest : ∃ mac1 control lastSend txBytes, a' = { a.unwritten firstSent with
    machine := { a.machine with
      cookieGenerator := { a.machine.cookieGenerator with lastSentMac1 := some mac1 }
      pending := some i.pending }
    lastSend := lastSend
    control := control
    datagrams := a.datagrams ++ [⟨endpoint, i.message, i.message.length, a.env.socketTakes.head⟩]
    status := { a.status with txBytes := txBytes }
    env := { (a.unwritten firstSent).env with socketTakes := a.env.socketTakes.tail } }

/-- **What `send_handshake` does.** -/
theorem sendHandshake_cases (a : Actor C) (firstSent : Instant) :
    a.machine.endpoint = none ∧ a.sendHandshake firstSent = a ∨
      ∃ endpoint, a.machine.endpoint = some endpoint ∧
        (a.initiation = none ∧ a.sendHandshake firstSent = a.unwritten firstSent ∨
          ∃ i, a.initiation = some i ∧
            Initiated a firstSent endpoint i (a.sendHandshake firstSent)) := by
  unfold sendHandshake
  cases hendpoint : a.machine.endpoint with
  | none => exact Or.inl ⟨rfl, rfl⟩
  | some endpoint =>
      refine Or.inr ⟨endpoint, rfl, ?_⟩
      have hinit := a.machine.initiate_cases a.ourKey a.values
      dsimp only
      split
      · rename_i e machine out heq
        have heq' : a.machine.initiate a.ourKey a.values _ = (.error e, machine, out) := heq
        rcases hinit with ⟨e', out', h⟩ | ⟨mac1, msg, -, h⟩
        · cases heq'.symm.trans h
          exact Or.inl ⟨by unfold initiation; rw [h], rfl⟩
        · cases heq'.symm.trans h
      · rename_i replaced machine out heq
        have heq' : a.machine.initiate a.ourKey a.values _ = (.ok replaced, machine, out) := heq
        rcases hinit with ⟨e', out', h⟩ | ⟨mac1, msg, hmsg, h⟩
        · cases heq'.symm.trans h
        · cases heq'.symm.trans h
          simp only [send, sendSegments]
          -- the index of a replaced handshake is retired first
          generalize a.machine.pending.map PendingHandshake.ourIndex = replaced
          refine Or.inr ⟨⟨out, a.machine.pendingFor a.ourKey a.values⟩,
            by unfold initiation; rw [h]; rfl, hmsg, ?_, ?_⟩
          · cases replaced <;> dsimp only [retireIndex, bindIndex, drawn, jittered, tick] <;>
              cases a.env.socketTakes.head
            all_goals first | exact Or.inl rfl | exact Or.inr rfl
          · cases replaced <;> dsimp only [retireIndex, bindIndex, drawn, jittered, tick] <;>
              cases a.env.socketTakes.head <;> exact ⟨_, _, _, _, rfl⟩

/-- What an initiation leaves alone. -/
structure Untouched (a a' : Actor C) : Prop where
  ourKey : a'.ourKey = a.ourKey
  endpoint : a'.machine.endpoint = a.machine.endpoint
  current : a'.machine.current = a.machine.current
  persistentKeepalive : a'.persistentKeepalive = a.persistentKeepalive
  next : a'.machine.next = a.machine.next
  previous : a'.machine.previous = a.machine.previous
  session : a'.session = a.session
  staged : a'.staged = a.staged
  sealed : a'.sealed = a.sealed
  published : a'.status.endpoint = a.status.endpoint

theorem Untouched.refl (a : Actor C) : Untouched a a :=
  ⟨rfl, rfl, rfl, rfl, rfl, rfl, rfl, rfl, rfl, rfl⟩

theorem sendHandshake_untouched (a : Actor C) (firstSent : Instant) :
    Untouched a (a.sendHandshake firstSent) := by
  rcases a.sendHandshake_cases firstSent with
    ⟨-, h⟩ | ⟨endpoint, -, ⟨-, h⟩ | ⟨i, -, -, -, mac1, control, lastSend, txBytes, h⟩⟩ <;>
    rw [h] <;> exact ⟨rfl, rfl, rfl, rfl, rfl, rfl, rfl, rfl, rfl, rfl⟩

/-- The time of the last message stays, or moves to the clock. -/
theorem lastSend_sendHandshake (a : Actor C) (firstSent : Instant) :
    (a.sendHandshake firstSent).lastSend = a.lastSend ∨
      (a.sendHandshake firstSent).lastSend = a.now := by
  rcases a.sendHandshake_cases firstSent with ⟨-, h⟩ | ⟨endpoint, -, ⟨-, h⟩ | ⟨i, -, hi⟩⟩
  · exact Or.inl (congrArg Actor.lastSend h)
  · rw [h]
    exact Or.inl rfl
  · exact hi.lastSend

/-- Nothing but initiations is sent. -/
theorem sendHandshake_datagrams (a : Actor C) (firstSent : Instant) :
    ∃ new, (a.sendHandshake firstSent).datagrams = a.datagrams ++ new ∧
      ∀ d ∈ new, HasType .handshakeInit d.bytes := by
  rcases a.sendHandshake_cases firstSent with
    ⟨-, h⟩ | ⟨endpoint, -, ⟨-, h⟩ | ⟨i, -, hmsg, -, mac1, control, lastSend, txBytes, h⟩⟩ <;> rw [h]
  · exact ⟨[], (List.append_nil _).symm, fun _ hd => by cases hd⟩
  · exact ⟨[], (List.append_nil _).symm, fun _ hd => by cases hd⟩
  · exact ⟨_, rfl, fun d hd => List.mem_singleton.mp hd ▸ hmsg⟩

/-- With an endpoint an attempt is noted, whether an initiation was written
or not. -/
theorem handshake_sendHandshake (a : Actor C) (firstSent : Instant) :
    (a.sendHandshake firstSent).handshake
      = if a.machine.endpoint.isSome then some (a.attempt firstSent) else a.handshake := by
  rcases a.sendHandshake_cases firstSent with
    ⟨hend, h⟩ | ⟨endpoint, hend, ⟨-, h⟩ | ⟨i, -, -, -, mac1, control, lastSend, txBytes, h⟩⟩ <;>
    rw [h, hend] <;> rfl

theorem sendHandshake_of_no_endpoint {a : Actor C} (hend : a.machine.endpoint.isSome = false)
    (firstSent : Instant) : a.sendHandshake firstSent = a := by
  rcases a.sendHandshake_cases firstSent with ⟨-, h⟩ | ⟨endpoint, hsome, -⟩
  · exact h
  · rw [hsome] at hend
    cases hend

/-- With an endpoint the clock is read once, and what is written becomes the
pending handshake and is handed to the socket. -/
theorem sendHandshake_of_endpoint {a : Actor C} (hend : a.machine.endpoint.isSome = true)
    (firstSent : Instant) :
    (a.sendHandshake firstSent).env.clock = a.env.clock.tail ∧
      (a.sendHandshake firstSent).machine.pending
        = (a.initiation.map Initiation.pending).or a.machine.pending ∧
      ∃ new, (a.sendHandshake firstSent).datagrams = a.datagrams ++ new ∧
        new.map Datagrams.bytes = (a.initiation.map Initiation.message).toList ∧
        ∀ d ∈ new, HasType .handshakeInit d.bytes := by
  rcases a.sendHandshake_cases firstSent with
    ⟨hnone, -⟩ | ⟨endpoint, -, ⟨hi, h⟩ | ⟨i, hi, hmsg, -, mac1, control, lastSend, txBytes, h⟩⟩
  · rw [hnone] at hend
    cases hend
  · rw [h, hi]
    exact ⟨rfl, rfl, [], (List.append_nil _).symm, rfl, fun _ hd => by cases hd⟩
  · rw [h, hi]
    exact ⟨rfl, rfl, _, rfl, rfl, fun d hd => List.mem_singleton.mp hd ▸ hmsg⟩

theorem isSome_handshake_ensureHandshake (a : Actor C) :
    a.ensureHandshake.handshake.isSome = (a.handshake.isSome || a.machine.endpoint.isSome) := by
  unfold ensureHandshake
  cases hh : a.handshake with
  | none =>
      rw [if_pos Option.isNone_none, handshake_sendHandshake]
      show (if a.machine.endpoint.isSome then _ else a.handshake).isSome = _
      rw [hh]
      cases a.machine.endpoint.isSome <;> rfl
  | some h =>
      rw [if_neg (by exact Bool.false_ne_true), hh]
      rfl

theorem ensureHandshake_untouched (a : Actor C) : Untouched a a.ensureHandshake := by
  unfold ensureHandshake
  split
  · have h := a.tick.sendHandshake_untouched a.now
    exact ⟨h.ourKey, h.endpoint, h.current, h.persistentKeepalive, h.next, h.previous, h.session,
      h.staged, h.sealed, h.published⟩
  · exact .refl a

/-- Connecting begins an attempt. -/
theorem handleMessage_connect {a : Actor C} (hnone : a.handshake = none) (endpoint : SocketAddr) :
    a.handleMessage (.connect endpoint)
      = (a.tick.setEndpoint endpoint).tick.sendHandshake (a.tick.setEndpoint endpoint).now := by
  have hisNone : (a.tick.setEndpoint endpoint).handshake.isNone = true := by
    show a.handshake.isNone = true
    rw [hnone]
    rfl
  show (a.tick.setEndpoint endpoint).ensureHandshake = _
  rw [ensureHandshake, if_pos hisNone]

theorem ensureHandshake_datagrams (a : Actor C) :
    ∃ new, a.ensureHandshake.datagrams = a.datagrams ++ new ∧
      ∀ d ∈ new, HasType .handshakeInit d.bytes := by
  unfold ensureHandshake
  split
  · exact a.tick.sendHandshake_datagrams a.now
  · exact ⟨[], (List.append_nil _).symm, fun _ hd => by cases hd⟩

/-! ### Keepalives -/

/-- The actor when `msg` was sent as a keepalive. -/
def keepaliveDone (a : Actor C) (machine : Peer C) (endpoint : SocketAddr) (msg : Bytes) :
    Actor C :=
  { a with
    machine := machine
    lastSend := if a.env.socketTakes.head then a.now else a.lastSend
    session := a.session.map DriverSession.keepaliveSent
    status := if a.env.socketTakes.head then
      { a.status with txBytes := a.status.txBytes + UInt64.ofNat (packetLen 0) } else a.status
    datagrams := a.datagrams ++ [⟨endpoint, msg, msg.length, a.env.socketTakes.head⟩]
    env := { a.env with clock := a.env.clock.tail, socketTakes := a.env.socketTakes.tail }
    sealed := a.sealed ++ [.keepalive] }

/-- Whether `send_keepalive` then finds a new handshake due. -/
def keepaliveRekeys (a : Actor C) (machine : Peer C) : Bool :=
  machine.rekeyDueToMessages ||
    a.env.socketTakes.head && a.session.any fun session => session.rekeyAfterSend a.now

/-- **What `send_keepalive` does.**  The session is given up, or a keepalive
is sent. -/
theorem sendKeepalive_cases (a : Actor C) :
    (∃ e machine out, a.machine.encrypt a.now [] (List.replicate (packetLen 0) 0)
        = (.error e, machine, out) ∧
      a.sendKeepalive = { a.tick with machine := machine, session := none }) ∨
      ∃ endpoint machine msg, a.machine.endpoint = some endpoint ∧
        a.machine.encrypt a.now [] (List.replicate (packetLen 0) 0)
          = (.ok (packetLen 0), machine, msg) ∧
        a.sendKeepalive = if a.keepaliveRekeys machine then
          (a.keepaliveDone machine endpoint msg).ensureHandshake
          else a.keepaliveDone machine endpoint msg := by
  unfold sendKeepalive
  dsimp only
  split
  · rename_i e machine out heq
    exact Or.inl ⟨e, machine, out, heq, rfl⟩
  · rename_i len machine msg heq
    have heq' : a.machine.encrypt a.now [] (List.replicate (packetLen 0) 0)
      = (.ok len, machine, msg) := heq
    obtain ⟨⟨current, rfl⟩, hok⟩ := Peer.encrypt_frame heq'
    obtain ⟨hendpoint, hlen, -⟩ := hok len rfl
    obtain ⟨endpoint, hsome⟩ := Option.isSome_iff_exists.mp hendpoint
    have hmsg : msg.take len = msg := by
      have hlength := a.machine.length_encrypt a.now [] (List.replicate (packetLen 0) 0)
      rw [heq', List.length_replicate] at hlength
      exact List.take_of_length_le (hlength.trans hlen.symm).le
    subst hlen
    refine Or.inr ⟨endpoint, _, msg, hsome, heq', ?_⟩
    rw [hmsg]
    simp only [hsome, send, sendSegments]
    unfold keepaliveRekeys keepaliveDone
    have hsession : (a.session.map DriverSession.keepaliveSent).any
        (fun session => session.rekeyAfterSend a.now)
        = a.session.any fun session => session.rekeyAfterSend a.now := by
      cases a.session <;> rfl
    have htakes : a.tick.env.socketTakes.head = a.env.socketTakes.head := rfl
    cases htaken : a.env.socketTakes.head with
    | false =>
        rw [htaken] at htakes
        simp only [htakes, Bool.false_and, Bool.or_false, Bool.false_eq_true, if_false]
        rfl
    | true =>
        rw [htaken] at htakes
        rw [← hsession]
        simp only [htakes, Bool.true_and, if_true]
        rfl

/-! ### Data messages that arrive -/

/-- The actor once a data message that authenticated is noted and delivered. -/
def recvDataNoted (a : Actor C) (now : Instant) (endpoint : SocketAddr) (rxBytes : ℕ) (recv : Recv)
    (data : Bytes) : Actor C :=
  let payload := if 0 < recv.payloadLen then some (data.take recv.payloadLen) else none
  let a := (a.retireIndex recv.unmapped).receivedBytes endpoint rxBytes
  let a : Actor C := if recv.confirmed then { a with session := some (.new false now) } else a
  let a : Actor C :=
    { a with session := a.session.map fun s => s.packetReceived now payload.isSome }
  match payload with
  | none => a
  | some payload => a.deliver payload

/-- The actor that has accepted a response, before it sends. -/
def responseNoted (a : Actor C) (now : Instant) (resp : Bytes) (endpoint : SocketAddr)
    (retired : Option UInt32) (machine : Peer C) : Actor C :=
  { { a with machine := machine }.retireIndex retired with
    handshake := none
    session := some (.new true now) }.receivedBytes endpoint resp.length

/-- **What a data message that authenticated does.** -/
theorem recvDataOk_eq (a : Actor C) (now : Instant) (endpoint : SocketAddr) (rxBytes : ℕ)
    (recv : Recv) (data : Bytes) :
    let b := a.recvDataNoted now endpoint rxBytes recv data
    let c := if recv.confirmed then b.sessionEstablished false else b
    a.recvDataOk now endpoint rxBytes recv data =
      if b.session.any fun s => s.rekeyAfterReceive now then c.ensureHandshake else c := by
  unfold recvDataOk recvDataNoted
  dsimp only
  split <;> rfl

/-- Noting a data message leaves machine, attempt and queue alone. -/
theorem recvDataNoted_frame (a : Actor C) (now : Instant) (endpoint : SocketAddr) (rxBytes : ℕ)
    (recv : Recv) (data : Bytes) :
    ∃ control inbound inboundTakes rxBytes' session,
      a.recvDataNoted now endpoint rxBytes recv data = { a with
        session := session
        status := { a.status with endpoint := some endpoint, rxBytes := rxBytes' }
        control := control
        inbound := inbound
        env := { a.env with inboundTakes := inboundTakes } } := by
  unfold recvDataNoted
  dsimp only
  cases recv.unmapped <;> cases recv.confirmed <;> split <;> exact ⟨_, _, _, _, _, rfl⟩

/-- In particular, of what the clock and the timers say. -/
theorem upheld_recvDataNoted (a : Actor C) (now : Instant) (endpoint : SocketAddr)
    (rxBytes : ℕ) (recv : Recv) (data : Bytes) :
    let b := a.recvDataNoted now endpoint rxBytes recv data
    b.machine = a.machine ∧ b.env.clock = a.env.clock ∧ b.handshake = a.handshake := by
  obtain ⟨_, _, _, _, _, hnoted⟩ := a.recvDataNoted_frame now endpoint rxBytes recv data
  rw [hnoted]
  exact ⟨rfl, rfl, rfl⟩

theorem control_recvDataNoted (a : Actor C) (now : Instant) (endpoint : SocketAddr) (rxBytes : ℕ)
    (recv : Recv) (data : Bytes) :
    (a.recvDataNoted now endpoint rxBytes recv data).control
      = a.control ++ recv.unmapped.toList.map (.retire a.machine.peerKey ·) := by
  rw [← control_retireIndex]
  unfold recvDataNoted
  dsimp only
  cases recv.confirmed <;> split <;> rfl

theorem status_recvDataNoted (a : Actor C) (now : Instant) (endpoint : SocketAddr) (rxBytes : ℕ)
    (recv : Recv) (data : Bytes) :
    (a.recvDataNoted now endpoint rxBytes recv data).status
      = ⟨some endpoint, a.status.txBytes, a.status.rxBytes + UInt64.ofNat rxBytes⟩ := by
  unfold recvDataNoted
  dsimp only
  cases recv.unmapped <;> cases recv.confirmed <;> split <;> rfl

/-- A payload is delivered if there is one and the queue takes it. -/
theorem inbound_recvDataNoted (a : Actor C) (now : Instant) (endpoint : SocketAddr) (rxBytes : ℕ)
    (recv : Recv) (data : Bytes) :
    (a.recvDataNoted now endpoint rxBytes recv data).inbound
      = a.inbound ++ if 0 < recv.payloadLen ∧ a.env.inboundTakes.head = true
          then [data.take recv.payloadLen] else [] := by
  unfold recvDataNoted
  dsimp only
  by_cases hlen : 0 < recv.payloadLen
  · cases recv.unmapped <;> cases recv.confirmed <;> cases htakes : a.env.inboundTakes.head <;>
      simp [deliver, receivedBytes, retireIndex, hlen, htakes]
  · cases recv.unmapped <;> cases recv.confirmed <;> simp [receivedBytes, retireIndex, hlen]

/-- The session a data message is counted for. -/
theorem session_recvDataNoted (a : Actor C) (now : Instant) (endpoint : SocketAddr) (rxBytes : ℕ)
    (recv : Recv) (data : Bytes) :
    (a.recvDataNoted now endpoint rxBytes recv data).session =
      (if recv.confirmed then some (.new false now) else a.session).map fun s =>
        s.packetReceived now (decide (0 < recv.payloadLen)) := by
  unfold recvDataNoted
  dsimp only
  cases recv.unmapped <;> cases recv.confirmed <;> by_cases hlen : 0 < recv.payloadLen <;>
    simp only [hlen, if_true, if_false, decide_true, decide_false] <;> rfl

end Actor

end Tunstile
