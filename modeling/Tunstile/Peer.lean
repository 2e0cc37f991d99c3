/-
Tunstile/Peer.lean

The per-peer state machine (`protocol/src/peer.rs`): a pending handshake and
three session slots, rotated by the handshake messages and by the first
authenticated packet of a session.

Every operation returns the peer it leaves behind, on failure too, so that
what a failed call does to the state is a fact about the model and not a
convention of it.  `Op` collects the operations; `Effect` lists what one of
them can do, and `step_effect` proves the list complete.  The invariants of
the machine are read off `Effect`.
-/
import Tunstile.Transcript
import Tunstile.Ideal

namespace Tunstile

variable {C : Crypto}

inductive PeerError where
  | unexpected
  | handshake
  | invalid
  | replay
  | expired
  | noEndpoint
  | noSession
  | counterExhausted
  | bufferTooSmall (required : Nat)
  | staleTimestamp
  | cookie
  deriving DecidableEq

/-- Driver-supplied inputs for creating a handshake message. -/
structure HandshakeValues (C : Crypto) where
  index : UInt32
  ephemeralSecret : C.Secret
  timestamp : C.Tai64N

/-- A decrypted transport message. -/
structure Recv where
  payloadLen : Nat
  /-- This packet confirmed a responder session. -/
  confirmed : Bool
  /-- A receiver index that no longer routes to this peer. -/
  unmapped : Option UInt32
  deriving DecidableEq

structure PendingHandshake (C : Crypto) where
  state : InitSent C
  ourIndex : UInt32

/-- The per-peer protocol state. -/
structure Peer (C : Crypto) where
  peerKey : PublicKey
  endpoint : Option SocketAddr
  cookieGenerator : Generator C
  presharedKey : Option PresharedKey
  lastHandshakeTimestamp : Option C.Tai64N
  pending : Option (PendingHandshake C)
  /-- Send session; initiator-established sessions land here directly. -/
  current : Option (Session C)
  /-- Responder-established session awaiting its first authenticated packet. -/
  next : Option (Session C)
  /-- Receive-only grace for packets in flight across a rekey. -/
  previous : Option (Session C)

namespace Peer

/-- A peer with no endpoint. -/
def new (C : Crypto) (peerKey : PublicKey) : Peer C where
  peerKey := peerKey
  endpoint := none
  cookieGenerator := Generator.new C peerKey
  presharedKey := none
  lastHandshakeTimestamp := none
  pending := none
  current := none
  next := none
  previous := none

def setPresharedKey (p : Peer C) (presharedKey : Option PresharedKey) : Peer C :=
  { p with presharedKey := presharedKey }

def setEndpoint (p : Peer C) (endpoint : SocketAddr) : Peer C :=
  { p with endpoint := some endpoint }

/-- Writes a handshake initiation into `out` and replaces any pending
handshake, whose index is returned. -/
def initiate (p : Peer C) (ourKey : C.Secret) (values : HandshakeValues C) (out : Bytes) :
    Except PeerError (Option UInt32) × Peer C × Bytes :=
  if out.length < initMsgLength then (.error (.bufferTooSmall initMsgLength), p, out)
  else
    match InitSent.initiate ourKey p.peerKey values.index values.ephemeralSecret values.timestamp
        p.cookieGenerator out with
    | (.error _, cookieGenerator, out) =>
        (.error .handshake, { p with cookieGenerator := cookieGenerator }, out)
    | (.ok state, cookieGenerator, out) =>
        (.ok (p.pending.map PendingHandshake.ourIndex),
          { p with
            cookieGenerator := cookieGenerator
            pending := some { state := state, ourIndex := values.index } }, out)

/-- Drops the pending handshake, returning its index. -/
def abandonHandshake (p : Peer C) : Option UInt32 × Peer C :=
  (p.pending.map PendingHandshake.ourIndex, { p with pending := none })

/-- Responds to a parsed initiation: writes the response, installs the
responder session and adopts `source`.  Returns the index of a displaced
unconfirmed session. -/
def respond (p : Peer C) (now : Instant) (handshake : InitReceived C)
    (values : HandshakeValues C) (source : SocketAddr) (out : Bytes) :
    Except PeerError (Option UInt32) × Peer C × Bytes :=
  let receivedTimestamp := handshake.timestamp
  if p.lastHandshakeTimestamp.any (fun last => decide (receivedTimestamp ≤ last)) then
    (.error .staleTimestamp, p, out)
  else if out.length < respMsgLength then (.error (.bufferTooSmall respMsgLength), p, out)
  else
    match handshake.respond values.index values.ephemeralSecret p.presharedKey values.timestamp
        p.cookieGenerator out with
    | (.error _, cookieGenerator, out) =>
        (.error .handshake, { p with cookieGenerator := cookieGenerator }, out)
    | (.ok established, cookieGenerator, out) =>
        (.ok (p.next.map Session.ourIndex),
          { p with
            cookieGenerator := cookieGenerator
            lastHandshakeTimestamp := some receivedTimestamp
            endpoint := some source
            next := some (Session.new established.finish now) }, out)

/-- Makes `session` the send session; returns the index retired by the
rotation. -/
def adoptCurrent (p : Peer C) (session : Session C) (endpoint : SocketAddr) :
    Option UInt32 × Peer C :=
  (p.previous.map Session.ourIndex,
    { p with previous := p.current, current := some session, endpoint := some endpoint })

/-- Handles a response to our pending initiation. -/
def handshakeResponse (p : Peer C) (ourKey : C.Secret) (now : Instant) (packet : Bytes)
    (source : SocketAddr) : Except PeerError (Option UInt32) × Peer C :=
  match p.pending with
  | none => (.error .unexpected, p)
  | some pending =>
      match pending.state.responseReceived ourKey p.presharedKey packet with
      | .error _ => (.error .handshake, p)
      | .ok established =>
          let (retired, p) :=
            { p with pending := none }.adoptCurrent (Session.new established.finish now) source
          (.ok retired, p)

/-- Handles a cookie reply to the most recently sent handshake. -/
def cookieReply (p : Peer C) (reply : Bytes) (timestamp : C.Tai64N) :
    Except PeerError Unit × Peer C :=
  match p.cookieGenerator.processCookieReply reply timestamp with
  | (.error _, cookieGenerator) =>
      (.error .cookie, { p with cookieGenerator := cookieGenerator })
  | (.ok (), cookieGenerator) => (.ok (), { p with cookieGenerator := cookieGenerator })

def sendError : TransportError → PeerError
  | .counterExhausted => .counterExhausted
  | .bufferTooSmall required => .bufferTooSmall required
  | .invalidPacket => .invalid

/-- Encrypts `payload` as a transport data message into `out`. -/
def encrypt (p : Peer C) (now : Instant) (payload out : Bytes) :
    Except PeerError Nat × Peer C × Bytes :=
  if p.endpoint.isNone then (.error .noEndpoint, p, out)
  else
    match p.current with
    | none => (.error .noSession, p, out)
    | some session =>
        if session.expired now then (.error .expired, p, out)
        else
          match session.send payload out with
          | (.error e, session, out) => (.error (sendError e), { p with current := some session }, out)
          | (.ok len, session, out) => (.ok len, { p with current := some session }, out)

/-- Whether the current send session reached Rekey-After-Messages. -/
def rekeyDueToMessages (p : Peer C) : Bool := p.current.any Session.rekeyDueToMessages

/-- The session slots, in the order `decrypt` looks through them. -/
inductive Slot where
  | next
  | current
  | previous
  deriving DecidableEq

def slot (p : Peer C) : Slot → Option (Session C)
  | .next => p.next
  | .current => p.current
  | .previous => p.previous

def setSlot (p : Peer C) (session : Session C) : Slot → Peer C
  | .next => { p with next := some session }
  | .current => { p with current := some session }
  | .previous => { p with previous := some session }

/-- The session a packet for `receiver` belongs to, and its slot. -/
def matching (p : Peer C) (receiver : UInt32) : Option (Slot × Session C) :=
  let held (k : Slot) : Option (Slot × Session C) :=
    ((p.slot k).filter fun session => session.ourIndex = receiver).map fun session => (k, session)
  (held .next).or ((held .current).or (held .previous))

def receiveError : SessionReceiveError → PeerError
  | .invalid => .invalid
  | .replay => .replay

/-- Decrypts a transport data message addressed to `receiver`.  The first
authenticated packet on a responder session confirms it. -/
def decrypt (p : Peer C) (now : Instant) (receiver : UInt32) (packet : Bytes)
    (source : SocketAddr) : Except PeerError (Recv × Bytes) × Peer C :=
  match p.matching receiver with
  | none => (.error .unexpected, p)
  | some (k, session) =>
      if session.expired now then (.error .expired, p)
      else
        match session.receive packet with
        | (.error e, session) => (.error (receiveError e), p.setSlot session k)
        | (.ok (payloadLen, packet), session) =>
            let p := { p.setSlot session k with endpoint := some source }
            match k with
            | .next =>
                let (unmapped, p) := { p with next := none }.adoptCurrent session source
                (.ok ({ payloadLen := payloadLen, confirmed := true, unmapped := unmapped },
                  packet), p)
            | _ =>
                (.ok ({ payloadLen := payloadLen, confirmed := false, unmapped := none },
                  packet), p)

/-! ### Operations -/

/-- The operations of a peer, with arbitrary arguments. -/
inductive Op (C : Crypto) where
  | initiate (ourKey : C.Secret) (values : HandshakeValues C) (out : Bytes)
  | abandonHandshake
  | respond (now : Instant) (handshake : InitReceived C) (values : HandshakeValues C)
      (source : SocketAddr) (out : Bytes)
  | handshakeResponse (ourKey : C.Secret) (now : Instant) (packet : Bytes) (source : SocketAddr)
  | cookieReply (reply : Bytes) (timestamp : C.Tai64N)
  | setEndpoint (endpoint : SocketAddr)
  | setPresharedKey (presharedKey : Option PresharedKey)
  | encrypt (now : Instant) (payload out : Bytes)
  | decrypt (now : Instant) (receiver : UInt32) (packet : Bytes) (source : SocketAddr)

/-- What a call returns, with the buffer it leaves. -/
inductive Outcome where
  | error (e : PeerError)
  /-- `initiate`, `respond`: the index that stopped routing, and the message. -/
  | written (retired : Option UInt32) (out : Bytes)
  /-- `abandon_handshake`, `handshake_response`: the index that stopped routing. -/
  | rotated (retired : Option UInt32)
  | done
  | encrypted (len : Nat) (out : Bytes)
  | decrypted (recv : Recv) (packet : Bytes)

/-- One call. -/
def step (p : Peer C) : Op C → Outcome × Peer C
  | .initiate ourKey values out =>
      match p.initiate ourKey values out with
      | (.error e, p, _) => (.error e, p)
      | (.ok retired, p, out) => (.written retired out, p)
  | .abandonHandshake =>
      match p.abandonHandshake with
      | (retired, p) => (.rotated retired, p)
  | .respond now handshake values source out =>
      match p.respond now handshake values source out with
      | (.error e, p, _) => (.error e, p)
      | (.ok retired, p, out) => (.written retired out, p)
  | .handshakeResponse ourKey now packet source =>
      match p.handshakeResponse ourKey now packet source with
      | (.error e, p) => (.error e, p)
      | (.ok retired, p) => (.rotated retired, p)
  | .cookieReply reply timestamp =>
      match p.cookieReply reply timestamp with
      | (.error e, p) => (.error e, p)
      | (.ok (), p) => (.done, p)
  | .setEndpoint endpoint => (.done, p.setEndpoint endpoint)
  | .setPresharedKey presharedKey => (.done, p.setPresharedKey presharedKey)
  | .encrypt now payload out =>
      match p.encrypt now payload out with
      | (.error e, p, _) => (.error e, p)
      | (.ok len, p, out) => (.encrypted len out, p)
  | .decrypt now receiver packet source =>
      match p.decrypt now receiver packet source with
      | (.error e, p) => (.error e, p)
      | (.ok (recv, packet), p) => (.decrypted recv packet, p)

/-- The peer a sequence of calls leaves. -/
def run (p : Peer C) (ops : List (Op C)) : Peer C := ops.foldl (fun p op => (p.step op).2) p

@[simp] theorem run_nil (p : Peer C) : p.run [] = p := rfl

@[simp] theorem run_cons (p : Peer C) (op : Op C) (ops : List (Op C)) :
    p.run (op :: ops) = (p.step op).2.run ops := rfl

theorem run_append (p : Peer C) (ops ops' : List (Op C)) :
    p.run (ops ++ ops') = (p.run ops).run ops' := List.foldl_append

/-! ### What an operation can do -/

/-- What one call can do, guards included.  Every case but the first
returned successfully. -/
inductive Effect (p : Peer C) : Op C → Outcome → Peer C → Prop where
  | failed {op : Op C} (e : PeerError) : Effect p op (.error e) p
  | initiated {ourKey : C.Secret} {values : HandshakeValues C} {out : Bytes} (mac1 msg : Bytes)
      (hmsg : IsInit values.index (InitTranscript.ofInitiator ourKey p.peerKey
        values.ephemeralSecret values.timestamp) msg) :
      Effect p (.initiate ourKey values out)
        (.written (p.pending.map PendingHandshake.ourIndex) (msg ++ out.drop initMsgLength))
        { p with
          cookieGenerator := { p.cookieGenerator with lastSentMac1 := some mac1 }
          pending := some
            { state :=
                { indexInitiator := values.index
                  ephemeralSecretInitiator := values.ephemeralSecret
                  constr := (InitTranscript.ofInitiator ourKey p.peerKey values.ephemeralSecret
                    values.timestamp).constr
                  h := (InitTranscript.ofInitiator ourKey p.peerKey values.ephemeralSecret
                    values.timestamp).h }
              ourIndex := values.index } }
  | abandoned :
      Effect p .abandonHandshake (.rotated (p.pending.map PendingHandshake.ourIndex))
        { p with pending := none }
  | responded {now : Instant} {handshake : InitReceived C} {values : HandshakeValues C}
      {source : SocketAddr} {out : Bytes} (mac1 msg : Bytes)
      (hts : ∀ last ∈ p.lastHandshakeTimestamp, last < handshake.timestamp)
      (hmsg : IsResp values.index handshake.indexInitiator (C.publicKey values.ephemeralSecret)
        (C.sealed (RespTranscript.ofResponder handshake values.ephemeralSecret
            p.presharedKey).tagKey 0
          (C.asRef (RespTranscript.ofResponder handshake values.ephemeralSecret
            p.presharedKey).h) []) msg) :
      Effect p (.respond now handshake values source out)
        (.written (p.next.map Session.ourIndex) (msg ++ out.drop respMsgLength))
        { p with
          cookieGenerator := { p.cookieGenerator with lastSentMac1 := some mac1 }
          lastHandshakeTimestamp := some handshake.timestamp
          endpoint := some source
          next := some (Session.new (ReceiverEstablished.finish
            { ourIndex := values.index
              peerIndex := handshake.indexInitiator
              constr := (RespTranscript.ofResponder handshake values.ephemeralSecret
                p.presharedKey).constr }) now) }
  | answered {ourKey : C.Secret} {now : Instant} {packet : Bytes} {source : SocketAddr}
      (pending : PendingHandshake C) (est : InitiatorEstablished C)
      (hpending : p.pending = some pending)
      (hansw : Answered pending.state ourKey p.presharedKey packet est) :
      Effect p (.handshakeResponse ourKey now packet source)
        (.rotated (p.previous.map Session.ourIndex))
        { p with
          pending := none
          previous := p.current
          current := some (Session.new est.finish now)
          endpoint := some source }
  | cookieStored {reply : Bytes} {timestamp : C.Tai64N} (cookie : Bytes) :
      Effect p (.cookieReply reply timestamp) .done
        { p with cookieGenerator :=
            { p.cookieGenerator with lastCookie := some ⟨timestamp, cookie⟩ } }
  | endpointSet (endpoint : SocketAddr) :
      Effect p (.setEndpoint endpoint) .done { p with endpoint := some endpoint }
  | presharedKeySet (presharedKey : Option PresharedKey) :
      Effect p (.setPresharedKey presharedKey) .done { p with presharedKey := presharedKey }
  | encrypted {now : Instant} {payload out : Bytes} (session : Session C)
      (hendpoint : p.endpoint.isSome = true)
      (hcurrent : p.current = some session) (hlive : session.expired now = false)
      (hlen : packetLen payload.length ≤ out.length)
      (hctr : session.transport.sendCounter < rejectAfterMessages) :
      Effect p (.encrypt now payload out)
        (.encrypted (packetLen payload.length)
          (dataWire session.transport.peerIndex session.transport.sendCounter
              (C.sealed session.transport.sendAead session.transport.sendCounter [] payload)
            ++ out.drop (packetLen payload.length)))
        { p with current := some { session with transport :=
            { session.transport with sendCounter := session.transport.sendCounter + 1 } } }
  | confirmed {now : Instant} {packet : Bytes} {source : SocketAddr}
      (session : Session C) (counter : UInt64) (payload : Bytes) (replay : ReplayFilter)
      (hnext : p.next = some session) (hlive : session.expired now = false)
      (hauth : session.transport.Authentic packet counter payload)
      (hreplay : session.replay.validate counter = (true, replay))
      (hmatch : p.matching session.ourIndex = some (.next, session)) :
      Effect p (.decrypt now session.ourIndex packet source)
        (.decrypted ⟨payload.length, true, p.previous.map Session.ourIndex⟩
          (Crypto.relocated packet dataPayloadOffset payload))
        { p with
          endpoint := some source
          next := none
          previous := p.current
          current := some { session with replay := replay } }
  | received {now : Instant} {packet : Bytes} {source : SocketAddr} (k : Slot)
      (session : Session C) (counter : UInt64) (payload : Bytes) (replay : ReplayFilter)
      (hk : k ≠ .next) (hslot : p.slot k = some session) (hlive : session.expired now = false)
      (hauth : session.transport.Authentic packet counter payload)
      (hreplay : session.replay.validate counter = (true, replay))
      (hmatch : p.matching session.ourIndex = some (k, session)) :
      Effect p (.decrypt now session.ourIndex packet source)
        (.decrypted ⟨payload.length, false, none⟩
          (Crypto.relocated packet dataPayloadOffset payload))
        { p.setSlot { session with replay := replay } k with endpoint := some source }

/-- Every replay window stands for some accepted counters, and a pending
handshake is known under the index its message carries. -/
structure WellFormed (p : Peer C) : Prop where
  replay : ∀ k s, p.slot k = some s → ∃ acc, s.replay.Accepted acc
  pending : ∀ q, p.pending = some q → q.state.indexInitiator = q.ourIndex

theorem matching_eq_some {p : Peer C} {receiver : UInt32} {k : Slot} {session : Session C}
    (h : p.matching receiver = some (k, session)) :
    p.slot k = some session ∧ session.ourIndex = receiver := by
  have held : ∀ k', ((p.slot k').filter fun session => session.ourIndex = receiver).map
      (fun session => (k', session)) = some (k, session) →
      p.slot k = some session ∧ session.ourIndex = receiver := by
    intro k' h'
    obtain ⟨s, hs, he⟩ := Option.map_eq_some_iff.mp h'
    cases he
    obtain ⟨hslot, hidx⟩ := Option.filter_eq_some_iff.mp hs
    exact ⟨hslot, by simpa using hidx⟩
  simp only [matching, Option.or_eq_some_iff] at h
  rcases h with h | ⟨-, h | ⟨-, h⟩⟩ <;> exact held _ h

@[simp] theorem setSlot_self {p : Peer C} {k : Slot} {session : Session C}
    (h : p.slot k = some session) : p.setSlot session k = p := by
  cases k <;> simp only [slot] at h <;> rw [setSlot, ← h]

section Effects

variable (p : Peer C)

theorem initiate_effect (ourKey : C.Secret) (values : HandshakeValues C) (out : Bytes) :
    Effect p (.initiate ourKey values out) (p.step (.initiate ourKey values out)).1
      (p.step (.initiate ourKey values out)).2 := by
  simp only [step, initiate]
  by_cases hlen : out.length < initMsgLength
  · simp only [if_pos hlen]
    exact .failed _
  simp only [if_neg hlen]
  obtain ⟨-, e, out', h⟩ | ⟨-, -, mac1, msg, h, hmsg⟩ := InitSent.initiate_cases ourKey p.peerKey
    values.index values.ephemeralSecret values.timestamp p.cookieGenerator out
  · simp only [h]
    exact .failed _
  · simp only [h]
    exact .initiated mac1 msg hmsg

theorem respond_effect (now : Instant) (handshake : InitReceived C) (values : HandshakeValues C)
    (source : SocketAddr) (out : Bytes) :
    Effect p (.respond now handshake values source out)
      (p.step (.respond now handshake values source out)).1
      (p.step (.respond now handshake values source out)).2 := by
  simp only [step, respond]
  by_cases hts : p.lastHandshakeTimestamp.any (fun last => decide (handshake.timestamp ≤ last)) = true
  · simp only [if_pos hts]
    exact .failed _
  by_cases hlen : out.length < respMsgLength
  · simp only [if_neg hts, if_pos hlen]
    exact .failed _
  simp only [if_neg hts, if_neg hlen]
  obtain ⟨hshort, -⟩ | ⟨-, mac1, msg, h, hmsg⟩ := handshake.respond_cases values.index
    values.ephemeralSecret p.presharedKey values.timestamp p.cookieGenerator out
  · exact absurd hshort hlen
  · simp only [h]
    refine .responded mac1 msg (fun last hlast => ?_) hmsg
    rw [Option.mem_def] at hlast
    simpa [hlast] using hts

theorem handshakeResponse_effect (ourKey : C.Secret) (now : Instant) (packet : Bytes)
    (source : SocketAddr) :
    Effect p (.handshakeResponse ourKey now packet source)
      (p.step (.handshakeResponse ourKey now packet source)).1
      (p.step (.handshakeResponse ourKey now packet source)).2 := by
  simp only [step, handshakeResponse]
  cases hpending : p.pending with
  | none => exact .failed _
  | some pending =>
      cases hresp : pending.state.responseReceived ourKey p.presharedKey packet with
      | error e =>
          simp only [hresp]
          exact .failed _
      | ok est =>
          simp only [hresp]
          exact .answered pending est hpending (InitSent.responseReceived_ok_iff.mp hresp)

theorem cookieReply_effect (reply : Bytes) (timestamp : C.Tai64N) :
    Effect p (.cookieReply reply timestamp) (p.step (.cookieReply reply timestamp)).1
      (p.step (.cookieReply reply timestamp)).2 := by
  obtain ⟨e, h⟩ | ⟨cookie, h⟩ :=
    p.cookieGenerator.processCookieReply_cases reply timestamp
  · simp only [step, cookieReply, h]
    exact .failed _
  · simp only [step, cookieReply, h]
    exact .cookieStored cookie

theorem encrypt_effect (now : Instant) (payload out : Bytes) :
    Effect p (.encrypt now payload out) (p.step (.encrypt now payload out)).1
      (p.step (.encrypt now payload out)).2 := by
  simp only [step, encrypt]
  by_cases hend : p.endpoint.isNone = true
  · simp only [if_pos hend]
    exact .failed _
  simp only [if_neg hend]
  cases hcur : p.current with
  | none => exact .failed _
  | some session =>
      cases hexp : session.expired now with
      | true => simpa [hexp] using Effect.failed PeerError.expired
      | false =>
          obtain ⟨e, h⟩ | ⟨hlen, hctr, h⟩ := session.transport.send_cases payload out
          · simp only [Session.send, h, hexp, Bool.false_eq_true, if_false]
            have hsame : ({ p with current := some session } : Peer C) = p := by rw [← hcur]
            exact hsame.symm ▸ Effect.failed (sendError e)
          · simp only [Session.send, h, hexp, Bool.false_eq_true, if_false]
            exact .encrypted session (by simpa [Option.isSome_iff_ne_none] using hend) hcur hexp
              hlen hctr

theorem decrypt_effect (hp : p.WellFormed) (now : Instant) (receiver : UInt32) (packet : Bytes)
    (source : SocketAddr) :
    Effect p (.decrypt now receiver packet source) (p.step (.decrypt now receiver packet source)).1
      (p.step (.decrypt now receiver packet source)).2 := by
  simp only [step, decrypt]
  cases hmatch : p.matching receiver with
  | none => exact .failed _
  | some found =>
      obtain ⟨k, session⟩ := found
      obtain ⟨hslot, rfl⟩ := matching_eq_some hmatch
      cases hexp : session.expired now with
      | true => simpa [hexp] using Effect.failed PeerError.expired
      | false =>
          obtain ⟨acc, hacc⟩ := hp.replay k session hslot
          obtain ⟨e, h⟩ | ⟨counter, payload, replay, hauth, hval, h⟩ :=
            session.receive_cases hacc packet
          · -- a refused packet leaves its session, and so its slot, as it was
            simp only [hexp, h, Bool.false_eq_true, if_false, setSlot_self hslot]
            exact .failed _
          · simp only [hexp, h, Bool.false_eq_true, if_false]
            cases k with
            | next => exact .confirmed session counter payload replay hslot hexp hauth hval hmatch
            | current =>
                exact .received .current session counter payload replay nofun hslot hexp hauth hval
                  hmatch
            | previous =>
                exact .received .previous session counter payload replay nofun hslot hexp hauth hval
                  hmatch

/-- **What a call can do.** -/
theorem step_effect (hp : p.WellFormed) (op : Op C) : Effect p op (p.step op).1 (p.step op).2 := by
  cases op with
  | initiate ourKey values out => exact p.initiate_effect ourKey values out
  | abandonHandshake => exact .abandoned
  | respond now handshake values source out =>
      exact p.respond_effect now handshake values source out
  | handshakeResponse ourKey now packet source =>
      exact p.handshakeResponse_effect ourKey now packet source
  | cookieReply reply timestamp => exact p.cookieReply_effect reply timestamp
  | setEndpoint endpoint => exact .endpointSet endpoint
  | setPresharedKey presharedKey => exact .presharedKeySet presharedKey
  | encrypt now payload out => exact p.encrypt_effect now payload out
  | decrypt now receiver packet source => exact p.decrypt_effect hp now receiver packet source

end Effects

/-! ### Well-formed runs -/

theorem wellFormed_new (key : PublicKey) : (new C key).WellFormed where
  replay := fun k s h => by cases k <;> cases h
  pending := nofun

theorem accepted_of_validate {f f' : ReplayFilter} {c : UInt64}
    (hf : ∃ acc, f.Accepted acc) (h : f.validate c = (true, f')) : ∃ acc, f'.Accepted acc := by
  obtain ⟨acc, hacc⟩ := hf
  exact ⟨c :: acc, (ReplayFilter.validate_true hacc h).2⟩

/-- One call keeps the peer well formed. -/
theorem Effect.wellFormed {p p' : Peer C} {op : Op C} {o : Outcome} (hp : p.WellFormed)
    (h : Effect p op o p') : p'.WellFormed := by
  have hnew : ∀ {t : Transport C} {now : Instant},
      ∃ acc, (Session.new t now).replay.Accepted acc := ⟨[], ReplayFilter.accepted_new⟩
  cases h with
  | failed e => exact hp
  | initiated mac1 msg hmsg => exact ⟨fun k s h => hp.replay k s (by cases k <;> exact h), by
      rintro q ⟨⟩
      rfl⟩
  | abandoned => exact ⟨fun k s h => hp.replay k s (by cases k <;> exact h), nofun⟩
  | responded mac1 msg hts hmsg =>
      refine ⟨fun k s h => ?_, hp.pending⟩
      cases k with
      | next => cases h; exact hnew
      | current => exact hp.replay .current s h
      | previous => exact hp.replay .previous s h
  | answered pending est hpending hansw =>
      refine ⟨fun k s h => ?_, nofun⟩
      cases k with
      | next => exact hp.replay .next s h
      | current => cases h; exact hnew
      | previous => exact hp.replay .current s h
  | cookieStored cookie => exact ⟨fun k s h => hp.replay k s (by cases k <;> exact h), hp.pending⟩
  | endpointSet e => exact ⟨fun k s h => hp.replay k s (by cases k <;> exact h), hp.pending⟩
  | presharedKeySet k => exact ⟨fun k s h => hp.replay k s (by cases k <;> exact h), hp.pending⟩
  | encrypted session hend hcur hlive hlen hctr =>
      refine ⟨fun k s h => ?_, hp.pending⟩
      cases k with
      | next => exact hp.replay .next s h
      | current => cases h; exact hp.replay .current session hcur
      | previous => exact hp.replay .previous s h
  | confirmed session counter payload replay hnext hlive hauth hreplay =>
      refine ⟨fun k s h => ?_, hp.pending⟩
      cases k with
      | next => cases h
      | current => cases h; exact accepted_of_validate (hp.replay .next session hnext) hreplay
      | previous => exact hp.replay .current s h
  | received j session counter payload replay hj hslot hlive hauth hreplay =>
      have hmoved := accepted_of_validate (hp.replay j session hslot) hreplay
      refine ⟨fun k s h => ?_, by cases j <;> exact hp.pending⟩
      cases j <;> cases k <;> first
        | exact hp.replay .next s h
        | exact hp.replay .current s h
        | exact hp.replay .previous s h
        | (cases h; exact hmoved)

/-- The peer's key never changes. -/
theorem Effect.peerKey_eq {p p' : Peer C} {op : Op C} {o : Outcome} (h : Effect p op o p') :
    p'.peerKey = p.peerKey := by
  cases h with
  | received k => cases k <;> rfl
  | _ => rfl

theorem wellFormed_step {p : Peer C} (hp : p.WellFormed) (op : Op C) :
    (p.step op).2.WellFormed := (p.step_effect hp op).wellFormed hp

/-- Every run keeps the peer well formed. -/
theorem wellFormed_run {p : Peer C} (hp : p.WellFormed) (ops : List (Op C)) :
    (p.run ops).WellFormed := by
  induction ops generalizing p with
  | nil => exact hp
  | cons op ops ih => exact ih (wellFormed_step hp op)

end Peer

end Tunstile
