/-
Tunstile/Actor.lean

The per-peer driver (`tunnel/src/actor.rs`): it owns the state machine, its
liveness schedule, and the queue of staged sends.

Everything the driver reads from outside (clock, random values, jitter,
socket outcomes) is a stream in `Env`, of which each read takes the next
value; everything it writes (control messages, datagrams, received packets)
is a list of the actor.  A task runs to completion between two events, so an
`async` function is a function of the actor.  Two lists are proof-only:
`sealed` keeps every successful `encrypt` in order, and `ledger` what became
of each accepted payload.

Left out: the wall-clock fields of `PeerStatus` and the log messages, which
nothing reads.
-/
import Tunstile.Peer
import Tunstile.Router
import Mathlib.Data.Stream.Defs

namespace Tunstile

variable {C : Crypto}

def maxStagedPackets : ℕ := 128

/-- Largest UDP message the tunnel handles. -/
def maxMessageSize : ℕ := 65535

/-! ### The clock -/

/-- The end of the system's clock in nanoseconds: it counts seconds in a
signed 64-bit number. -/
def clockEnd : ℕ := 2 ^ 63 * 10 ^ 9

/-- `Clock`: the point of the system's clock from which the actor counts. -/
structure Clock where
  epoch : ℕ
  lt_end : epoch < clockEnd

/-- `Clock::sleep_until`: the time of the system's clock to sleep until, or
`none` where computing it panics.  Without a deadline it is the epoch. -/
def Clock.sleepUntil (clock : Clock) (deadline : Option Instant) : Option ℕ :=
  let sum := clock.epoch + (deadline.getD default).sinceEpoch.nanos
  if sum < clockEnd then some sum else none

theorem clockEnd_pos : 0 < clockEnd := by decide

/-- The clock of an actor that starts with the system's. -/
instance : Inhabited Clock := ⟨⟨0, clockEnd_pos⟩⟩

/-! ### The liveness schedule -/

structure HandshakeAttempt where
  firstSent : Instant
  retryAt : Instant
  deriving DecidableEq

def HandshakeAttempt.new (firstSent now : Instant) (rekeyJitter : Duration) : HandshakeAttempt where
  firstSent := firstSent
  retryAt := now + rekeyTimeout + rekeyJitter

/-- The driver's view of the send session: who started it, and its timers.
This is `Session` in `actor.rs`. -/
structure DriverSession where
  initiator : Bool
  established : Instant
  /-- A received payload awaits acknowledgement (passive keepalive). -/
  keepaliveAt : Option Instant
  /-- Sent data went unanswered; assume the session died. -/
  newHandshakeAt : Option Instant
  deriving DecidableEq

namespace DriverSession

def new (initiator : Bool) (now : Instant) : DriverSession := ⟨initiator, now, none, none⟩

def expiresAt (s : DriverSession) : Instant := s.established + rejectAfterTime

def dataSent (s : DriverSession) (now : Instant) (rekeyJitter : Duration) : DriverSession :=
  { s with
    keepaliveAt := none
    newHandshakeAt :=
      some (s.newHandshakeAt.getD (now + keepaliveTimeout + rekeyTimeout + rekeyJitter)) }

def keepaliveSent (s : DriverSession) : DriverSession := { s with keepaliveAt := none }

def packetReceived (s : DriverSession) (now : Instant) (carriedPayload : Bool) : DriverSession :=
  let s := { s with newHandshakeAt := none }
  if carriedPayload then { s with keepaliveAt := some (s.keepaliveAt.getD (now + keepaliveTimeout)) }
  else s

def usable (s : DriverSession) (now : Instant) : Bool := decide (now < s.expiresAt)

def rekeyAfterSend (s : DriverSession) (now : Instant) : Bool :=
  s.initiator && decide (rekeyAfterTime ≤ now.durationSince s.established)

def rekeyAfterReceive (s : DriverSession) (now : Instant) : Bool :=
  s.initiator && decide (rekeyAfterTimeReceiving ≤ now.durationSince s.established)

end DriverSession

/-! ### Actions -/

/-- An explicit change to one optional peer setting. -/
inductive Update (α : Type) where
  | keep
  | clear
  | set (a : α)

structure PeerUpdate where
  endpoint : Option SocketAddr
  presharedKey : Update PresharedKey
  persistentKeepalive : Update Duration

inductive PeerAction (C : Crypto) where
  | connect (endpoint : SocketAddr)
  | update (update : PeerUpdate)
  | sendData (payload : Bytes)
  | recvData (data : Bytes) (receiver : UInt32) (endpoint : SocketAddr)
  | recvHandshakeInit (handshake : InitReceived C) (endpoint : SocketAddr)
  | recvHandshakeResp (resp : Bytes) (endpoint : SocketAddr)
  | recvCookieReply (reply : Bytes)

structure PeerStatus where
  endpoint : Option SocketAddr
  txBytes : UInt64
  rxBytes : UInt64

/-- What was handed to the socket in one call, and whether it was taken. -/
structure Datagrams where
  endpoint : SocketAddr
  bytes : Bytes
  segmentSize : ℕ
  taken : Bool

/-! ### Outside and proof-only state -/

/-- What the actor reads from outside.  Each read takes the next value. -/
structure Env (C : Crypto) where
  clock : Stream' Instant
  /-- Where that clock starts.  It is read, but does not change. -/
  origin : Clock
  /-- Random index and ephemeral secret, and the wall clock for them. -/
  values : Stream' (HandshakeValues C)
  /-- The wall clock at a cookie reply. -/
  wall : Stream' C.Tai64N
  rekeyJitter : Stream' Duration
  maxGsoSegments : Stream' ℕ
  socketTakes : Stream' Bool
  inboundTakes : Stream' Bool

/-- The plaintext of a successful `encrypt`. -/
inductive Sealed where
  | payload (payload : Bytes)
  /-- The empty plaintext of `send_keepalive`. -/
  | keepalive
  deriving DecidableEq

/-- What became of an accepted payload. -/
inductive Fate where
  | encrypted
  /-- It was dropped from the front of this full queue. -/
  | overflowed (queue : List Bytes)
  /-- This handshake attempt was given up. -/
  | abandoned (attempt : HandshakeAttempt) (now : Instant)
  deriving DecidableEq

structure Actor (C : Crypto) where
  ourKey : C.Secret
  machine : Peer C
  persistentKeepalive : Option Duration
  lastSend : Instant
  handshake : Option HandshakeAttempt
  session : Option DriverSession
  /-- What the session watch reports. -/
  sessionReady : Bool
  staged : List Bytes
  status : PeerStatus
  control : List Control
  datagrams : List Datagrams
  inbound : List Bytes
  env : Env C
  sealed : List Sealed
  ledger : List (Bytes × Fate)

namespace Actor

/-- `spawn`: the actor of a newly registered peer. -/
def spawn (ourKey : C.Secret) (publicKey : PublicKey) (presharedKey : Option PresharedKey)
    (persistentKeepalive : Option Duration) (env : Env C) : Actor C where
  ourKey := ourKey
  machine := (Peer.new C publicKey).setPresharedKey presharedKey
  persistentKeepalive := persistentKeepalive
  lastSend := default
  handshake := none
  session := none
  sessionReady := false
  staged := []
  status := ⟨none, 0, 0⟩
  control := []
  datagrams := []
  inbound := []
  env := env
  sealed := []
  ledger := []

/-! ### Reading and writing outside -/

/-- `clock.now()` -/
def now (a : Actor C) : Instant := a.env.clock.head

/-- The actor after a read of the clock. -/
def tick (a : Actor C) : Actor C := { a with env := { a.env with clock := a.env.clock.tail } }

/-- `rekey_jitter()` -/
def rekeyJitter (a : Actor C) : Duration := a.env.rekeyJitter.head

def jittered (a : Actor C) : Actor C :=
  { a with env := { a.env with rekeyJitter := a.env.rekeyJitter.tail } }

/-- Random index and ephemeral secret for a handshake message. -/
def values (a : Actor C) : HandshakeValues C := a.env.values.head

def drawn (a : Actor C) : Actor C := { a with env := { a.env with values := a.env.values.tail } }

def retireIndex (a : Actor C) (index : Option UInt32) : Actor C :=
  match index with
  | none => a
  | some index => { a with control := a.control ++ [.retire a.machine.peerKey index] }

def bindIndex (a : Actor C) (index : UInt32) : Actor C :=
  { a with control := a.control ++ [.bind a.machine.peerKey index] }

/-- `socket.send_segments`, whose outcome is the next one of the socket. -/
def sendSegments (a : Actor C) (endpoint : SocketAddr) (bytes : Bytes) (segmentSize : ℕ) :
    Bool × Actor C :=
  (a.env.socketTakes.head,
    { a with
      env := { a.env with socketTakes := a.env.socketTakes.tail }
      datagrams := a.datagrams ++ [⟨endpoint, bytes, segmentSize, a.env.socketTakes.head⟩] })

/-- `socket.send`: one datagram. -/
def send (a : Actor C) (endpoint : SocketAddr) (bytes : Bytes) : Bool × Actor C :=
  a.sendSegments endpoint bytes bytes.length

/-- `inbound_tx.try_send`: dropped when the queue is full. -/
def deliver (a : Actor C) (payload : Bytes) : Actor C :=
  { a with
    env := { a.env with inboundTakes := a.env.inboundTakes.tail }
    inbound := if a.env.inboundTakes.head then a.inbound ++ [payload] else a.inbound }

def sentBytes (a : Actor C) (n : ℕ) : Actor C :=
  { a with status := { a.status with txBytes := a.status.txBytes + UInt64.ofNat n } }

def receivedBytes (a : Actor C) (endpoint : SocketAddr) (n : ℕ) : Actor C :=
  { a with
    status := { a.status with
      endpoint := some endpoint
      rxBytes := a.status.rxBytes + UInt64.ofNat n } }

/-! ### Handshakes -/

/-- Sends a fresh handshake initiation.  Retransmits pass the original
`firstSent` so the abandonment window stays anchored. -/
def sendHandshake (a : Actor C) (firstSent : Instant) : Actor C :=
  match a.machine.endpoint with
  | none => a
  | some endpoint =>
      let now := a.now
      let a := a.tick
      let a := { a with handshake := some (.new firstSent now a.rekeyJitter) }
      let a := a.jittered
      let values := a.values
      let a := a.drawn
      match a.machine.initiate a.ourKey values (List.replicate initMsgLength 0) with
      | (.error _, machine, _) => { a with machine := machine }
      | (.ok replaced, machine, msg) =>
          let a := { a with machine := machine }
          let a := (a.retireIndex replaced).bindIndex values.index
          match a.send endpoint msg with
          | (false, a) => a
          | (true, a) => { a with lastSend := now }.sentBytes msg.length

def ensureHandshake (a : Actor C) : Actor C :=
  if a.handshake.isNone then a.tick.sendHandshake a.now else a

def setEndpoint (a : Actor C) (endpoint : SocketAddr) : Actor C :=
  { a with
    machine := a.machine.setEndpoint endpoint
    status := { a.status with endpoint := some endpoint } }

def applyUpdate (a : Actor C) (update : PeerUpdate) : Actor C :=
  let a := match update.presharedKey with
    | .keep => a
    | .clear => { a with machine := a.machine.setPresharedKey none }
    | .set presharedKey => { a with machine := a.machine.setPresharedKey (some presharedKey) }
  let a := match update.persistentKeepalive with
    | .keep => a
    | .clear => { a with persistentKeepalive := none }
    | .set interval => { a with persistentKeepalive := some interval }
  match update.endpoint with
  | none => a
  | some endpoint => (a.setEndpoint endpoint).ensureHandshake

/-! ### Sending data -/

/-- Queues one payload, dropping the oldest when the queue is full. -/
def stageOne (a : Actor C) (payload : Bytes) : Actor C :=
  let a :=
    if a.staged.length = maxStagedPackets then
      { a with
        staged := a.staged.tail
        ledger := a.ledger ++ (a.staged.take 1).map fun oldest => (oldest, .overflowed a.staged) }
    else a
  { a with staged := a.staged ++ [payload] }

def stage (a : Actor C) (payloads : List Bytes) : Actor C := payloads.foldl stageOne a

/-- How many segments of one size one send may carry. -/
def maxBatchSegments (gsoSegments segmentSize : ℕ) : ℕ :=
  max (min gsoSegments (maxMessageSize / segmentSize)) 1

/-- The loop that extends a batch of `n` payloads by those that follow while
they have the same size. -/
def batchLen (maxSegments segmentSize : ℕ) : ℕ → List Bytes → ℕ
  | n, [] => n
  | n, payload :: rest =>
      if n < maxSegments ∧ packetLen payload.length = segmentSize then
        batchLen maxSegments segmentSize (n + 1) rest
      else n

/-- What the encryption loop over one batch leaves. -/
structure Batch (C : Crypto) where
  actor : Actor C
  encrypted : ℕ
  bytes : Bytes
  stalled : Bool

/-- The encryption loop: stops at the first payload that fails. -/
def encryptBatch (now : Instant) (segmentSize : ℕ) : Actor C → List Bytes → Batch C
  | a, [] => ⟨a, 0, [], false⟩
  | a, payload :: rest =>
      match a.machine.encrypt now payload (List.replicate segmentSize 0) with
      | (.error _, machine, _) => ⟨{ a with machine := machine }, 0, [], true⟩
      | (.ok _, machine, buf) =>
          let b := encryptBatch now segmentSize
            { a with
              machine := machine
              sealed := a.sealed ++ [.payload payload]
              ledger := a.ledger ++ [(payload, .encrypted)] } rest
          { b with encrypted := b.encrypted + 1, bytes := buf ++ b.bytes }

theorem encryptBatch_encrypted {now : Instant} {segmentSize : ℕ} {a : Actor C}
    {payloads : List Bytes} (h : (encryptBatch now segmentSize a payloads).stalled = false) :
    (encryptBatch now segmentSize a payloads).encrypted = payloads.length := by
  induction payloads generalizing a with
  | nil => rfl
  | cons payload rest ih =>
      rw [encryptBatch] at h ⊢
      split at h
      · cases h
      · simp only at h ⊢
        rw [ih h, List.length_cons]

theorem le_batchLen (maxSegments segmentSize n : ℕ) (payloads : List Bytes) :
    n ≤ batchLen maxSegments segmentSize n payloads := by
  induction payloads generalizing n with
  | nil => exact le_rfl
  | cons payload rest ih =>
      rw [batchLen]
      split
      · exact (Nat.le_succ n).trans (ih (n + 1))
      · exact le_rfl

/-- What the sending loop leaves: the payloads it did not get to, whether
the socket took something, and whether anything was encrypted. -/
structure Progress (C : Crypto) where
  actor : Actor C
  rest : List Bytes
  sent : Bool
  encryptedAny : Bool

/-- Sends what was encrypted, if anything; reports whether the socket took
it. -/
def Batch.send (b : Batch C) (segmentSize : ℕ) : Bool × Actor C :=
  if 0 < b.encrypted then
    -- `encrypt` just succeeded, so the endpoint is known
    match b.actor.machine.endpoint with
    | none => (false, b.actor)
    | some endpoint =>
        match b.actor.sendSegments endpoint b.bytes segmentSize with
        | (false, a) => (false, a)
        | (true, a) => (true, a.sentBytes b.bytes.length)
  else (false, b.actor)

/-- The sending loop, batch by batch until a payload stalls. -/
def sendBatches (now : Instant) (gsoSegments : ℕ) (a : Actor C) (payloads : List Bytes)
    (sent encryptedAny : Bool) : Progress C :=
  match payloads with
  | [] => ⟨a, [], sent, encryptedAny⟩
  | payload :: rest =>
      let segmentSize := packetLen payload.length
      let maxSegments := maxBatchSegments gsoSegments segmentSize
      let n := batchLen maxSegments segmentSize 1 rest
      let batch := encryptBatch now segmentSize a ((payload :: rest).take n)
      let left := (payload :: rest).drop batch.encrypted
      let sent := sent || (batch.send segmentSize).1
      let encryptedAny := encryptedAny || decide (0 < batch.encrypted)
      if _h : batch.stalled = true then ⟨(batch.send segmentSize).2, left, sent, encryptedAny⟩
      else sendBatches now gsoSegments (batch.send segmentSize).2 left sent encryptedAny
termination_by payloads.length
decreasing_by
  have hlen := encryptBatch_encrypted (Bool.eq_false_iff.mpr _h)
  have hn := le_batchLen maxSegments segmentSize 1 rest
  rw [List.length_drop, hlen, List.length_take, List.length_cons]
  omega

/-- Encrypts and sends `payloads`; from the first one that fails on, they
are staged. -/
def flushSends (a : Actor C) (payloads : List Bytes) : Actor C :=
  if payloads = [] then a
  else
    let now := a.now
    let a := a.tick
    let gsoSegments := a.env.maxGsoSegments.head
    let a := { a with env := { a.env with maxGsoSegments := a.env.maxGsoSegments.tail } }
    let p := a.sendBatches now gsoSegments payloads false false
    let a := p.actor
    if p.rest ≠ [] then ({ a with session := none }.stage p.rest).ensureHandshake
    else
      let rekey := p.encryptedAny && a.machine.rekeyDueToMessages
      if p.sent then
        let a := { a with lastSend := now }
        match a.session with
        | none => if rekey && a.handshake.isNone then a.sendHandshake now else a
        | some session =>
            let session := session.dataSent now a.rekeyJitter
            let a := { a with session := some session }.jittered
            let rekey := rekey || session.rekeyAfterSend now
            if rekey && a.handshake.isNone then a.sendHandshake now else a
      else if rekey && a.handshake.isNone then a.sendHandshake now
      else a

def flushStaged (a : Actor C) : Actor C :=
  if a.staged = [] then a else { a with staged := [] }.flushSends a.staged

def sendKeepalive (a : Actor C) : Actor C :=
  let now := a.now
  let a := a.tick
  match a.machine.encrypt now [] (List.replicate (packetLen 0) 0) with
  -- keepalives don't revive an expired session
  | (.error _, machine, _) => { a with machine := machine, session := none }
  | (.ok len, machine, msg) =>
      let a : Actor C := { a with machine := machine, sealed := a.sealed ++ [.keepalive] }
      let messageRekey := a.machine.rekeyDueToMessages
      -- `encrypt` just succeeded, so the endpoint is known
      match a.machine.endpoint with
      | none => a
      | some endpoint =>
          let a := { a with session := a.session.map DriverSession.keepaliveSent }
          match a.send endpoint (msg.take len) with
          | (false, a) => if messageRekey then a.ensureHandshake else a
          | (true, a) =>
              let a := { a with lastSend := now }.sentBytes len
              let timeRekey := a.session.any fun session => session.rekeyAfterSend now
              if messageRekey || timeRekey then a.ensureHandshake else a

/-- The session became usable: flush staged sends, and as the initiator with
nothing staged, confirm the session to the responder. -/
def sessionEstablished (a : Actor C) (initiator : Bool) : Actor C :=
  let hadStaged := !a.staged.isEmpty
  let a := a.flushStaged
  let a := if initiator && !hadStaged then a.sendKeepalive else a
  { a with sessionReady := true }

/-! ### Handling actions -/

/-- A data message that authenticated. -/
def recvDataOk (a : Actor C) (now : Instant) (endpoint : SocketAddr) (rxBytes : ℕ) (recv : Recv)
    (data : Bytes) : Actor C :=
  let payload := if 0 < recv.payloadLen then some (data.take recv.payloadLen) else none
  let a := (a.retireIndex recv.unmapped).receivedBytes endpoint rxBytes
  let a : Actor C := if recv.confirmed then { a with session := some (.new false now) } else a
  let a : Actor C :=
    { a with session := a.session.map fun s => s.packetReceived now payload.isSome }
  let rekey := a.session.any fun s => s.rekeyAfterReceive now
  let a := match payload with
    | none => a
    | some payload => a.deliver payload
  let a := if recv.confirmed then a.sessionEstablished false else a
  if rekey then a.ensureHandshake else a

def recvData (a : Actor C) (now : Instant) (data : Bytes) (receiver : UInt32)
    (endpoint : SocketAddr) : Actor C :=
  match a.machine.decrypt now receiver data endpoint with
  | (.error _, machine) => { a with machine := machine }
  | (.ok (recv, opened), machine) =>
      { a with machine := machine }.recvDataOk now endpoint data.length recv opened

def recvHandshakeInit (a : Actor C) (now : Instant) (handshake : InitReceived C)
    (endpoint : SocketAddr) : Actor C :=
  let values := a.values
  let a := a.drawn
  match a.machine.respond now handshake values endpoint (List.replicate respMsgLength 0) with
  | (.error _, machine, _) => { a with machine := machine }
  | (.ok displaced, machine, msg) =>
      let a := { a with machine := machine }
      let a := (a.retireIndex displaced).bindIndex values.index
      match a.send endpoint msg with
      | (false, a) => a
      | (true, a) =>
          ({ a with lastSend := now }.receivedBytes endpoint initMsgLength).sentBytes msg.length

def recvHandshakeResp (a : Actor C) (now : Instant) (resp : Bytes) (endpoint : SocketAddr) :
    Actor C :=
  match a.machine.handshakeResponse a.ourKey now resp endpoint with
  -- an invalid response is dropped; the pending handshake keeps its schedule
  | (.error _, machine) => { a with machine := machine }
  | (.ok retired, machine) =>
      let a := { a with machine := machine }
      let a := a.retireIndex retired
      let a := { a with handshake := none, session := some (.new true now) }
      (a.receivedBytes endpoint resp.length).sessionEstablished true

def recvCookieReply (a : Actor C) (reply : Bytes) : Actor C :=
  let timestamp := a.env.wall.head
  let a := { a with env := { a.env with wall := a.env.wall.tail } }
  { a with machine := (a.machine.cookieReply reply timestamp).2 }

def handleMessage (a : Actor C) (action : PeerAction C) : Actor C :=
  let now := a.now
  let a := a.tick
  match action with
  | .connect endpoint => (a.setEndpoint endpoint).ensureHandshake
  | .update update => a.applyUpdate update
  | .sendData payload => a.flushSends [payload]
  | .recvData data receiver endpoint => a.recvData now data receiver endpoint
  | .recvHandshakeInit handshake endpoint => a.recvHandshakeInit now handshake endpoint
  | .recvHandshakeResp resp endpoint => a.recvHandshakeResp now resp endpoint
  | .recvCookieReply reply => a.recvCookieReply reply

/-! ### Timers and the event loop -/

inductive Timer where
  | handshake
  | expiry
  | keepalive
  | newHandshake
  | persistentKeepalive
  deriving DecidableEq

def persistentKeepaliveAt (a : Actor C) : Option Instant :=
  (a.persistentKeepalive.filter fun _ => a.machine.endpoint.isSome).map fun interval =>
    a.lastSend + interval

/-- When each timer is due; a timer that is not armed never fires. -/
def deadline (a : Actor C) : Timer → Option Instant
  | .handshake => a.handshake.map HandshakeAttempt.retryAt
  | .expiry => a.session.map DriverSession.expiresAt
  | .keepalive => a.session.bind DriverSession.keepaliveAt
  | .newHandshake => a.session.bind DriverSession.newHandshakeAt
  | .persistentKeepalive => a.persistentKeepaliveAt

/-- Whether the arms of the event loop can be evaluated.  All five deadlines
are computed on every turn, before the guards of the arms. -/
def sleeps (a : Actor C) : Bool :=
  [.handshake, .expiry, .keepalive, .newHandshake, .persistentKeepalive].all fun timer : Timer =>
    (a.env.origin.sleepUntil (a.deadline timer)).isSome

def handshakeDue (a : Actor C) : Actor C :=
  match a.handshake with
  | none => a
  | some handshake =>
      let now := a.now
      let a := a.tick
      if rekeyAttemptTime ≤ now.durationSince handshake.firstSent then
        let a : Actor C := { a with
          handshake := none
          staged := []
          ledger := a.ledger ++ a.staged.map fun payload => (payload, .abandoned handshake now) }
        { a with machine := a.machine.abandonHandshake.2 }.retireIndex a.machine.abandonHandshake.1
      else a.sendHandshake handshake.firstSent

/-- The machine already refuses expired sessions; drop the timers. -/
def sessionExpired (a : Actor C) : Actor C := { a with session := none }

def newHandshakeDue (a : Actor C) : Actor C :=
  let session := a.session.map fun s => { s with newHandshakeAt := none }
  { a with session := session }.ensureHandshake

def persistentKeepaliveDue (a : Actor C) : Actor C :=
  let now := a.now
  let a := { a.tick with lastSend := now }
  if a.session.any fun s => s.usable now then a.sendKeepalive else a.ensureHandshake

def fire (a : Actor C) : Timer → Actor C
  | .handshake => a.handshakeDue
  | .expiry => a.sessionExpired
  | .keepalive => a.sendKeepalive
  | .newHandshake => a.newHandshakeDue
  | .persistentKeepalive => a.persistentKeepaliveDue

/-- The loop over a received batch of actions: consecutive payloads are
collected in `payloads` and flushed before any other action. -/
def handleActions (a : Actor C) (payloads : List Bytes) : List (PeerAction C) → Actor C
  | [] => a.flushSends payloads
  | .sendData payload :: rest => a.handleActions (payloads ++ [payload]) rest
  | action :: rest => ((a.flushSends payloads).handleMessage action).handleActions [] rest

/-- What wakes the event loop: a batch of actions, or a timer. -/
inductive Event (C : Crypto) where
  | actions (batch : List (PeerAction C))
  | timer (timer : Timer)

/-- One turn of the event loop.  Only an armed timer fires. -/
def turn (a : Actor C) : Event C → Actor C
  | .actions batch => a.handleActions [] batch
  | .timer timer => if (a.deadline timer).isSome then a.fire timer else a

def run (a : Actor C) (events : List (Event C)) : Actor C := events.foldl turn a

end Actor

end Tunstile
