/-
Tunstile/Tunnel.lean

The tunnel (`tunnel/src/lib.rs`, `router.rs`, `peer.rs`): the peers that its
owner adds and removes, the handles through which payloads are sent, the read
loop that hands network input to the peers' actors, the actors themselves,
and the queue from which received packets are taken.

An `Action` is one step of one task, as in `Routing.lean`, so that a list of
actions is an interleaving.  A turn of an actor is one step, since nothing in
it depends on the other tasks; its control messages and its received packets
reach the shared queues one by one afterwards, and the next turn waits for
that.  A call that awaits room in a queue is two steps: it takes a reference
to the peer's entry, and later it finds room, or is given up.  A task that
only looks at an entry holds a reference no longer than such a call.

An actor ends when no sender of its channel is left, or by a panic, where its
deadlines cannot be computed (`Actor.sleeps`); what is queued then is lost.
Dropping the tunnel only asks the read loop to end.  It ends later, and the
registry goes when nobody holds it any more.

What a queue holds is bounded as in the source, and what does not fit is
dropped, refused or waits.  How many actions an actor takes at a time is left
open.  Proof-only: what each actor was spawned with, what its channel
accepted, what it was given in each turn, what it lost, which payloads were
sent and delivered on which channel, and what the owner received.
-/
import Tunstile.Device
import Tunstile.ReadLoop

namespace Tunstile

variable {C : Crypto}

def peerActionQueueCapacity : ℕ := 1024

def inboundQueueCapacity : ℕ := 2048

/-- A call that waits for room in the queue of a peer's actor. -/
inductive Request where
  | send (payload : Bytes)
  | connect (endpoint : SocketAddr)
  | update (change : PeerUpdate)

namespace Request

def action : Request → PeerAction C
  | .send payload => .sendData payload
  | .connect endpoint => .connect endpoint
  | .update change => .update change

def payload? : Request → Option Bytes
  | .send payload => some payload
  | _ => none

end Request

/-! ### The task of an actor -/

/-- An actor with its end of the action channel. -/
structure Task (C : Crypto) where
  publicKey : PublicKey
  config : PeerConfig
  env : Env C
  actor : Actor C
  queue : List (PeerAction C)
  /-- Whether the task runs, that is, whether its channel has a receiver. -/
  running : Bool
  /-- How many of its control messages it has sent. -/
  reported : ℕ
  /-- How many of its received packets it has passed on. -/
  passed : ℕ
  accepted : List (PeerAction C)
  events : List (Actor.Event C)
  /-- What was queued when the task panicked. -/
  lost : Option (List (PeerAction C))

namespace Task

/-- The actor that a peer is given.  Whether there is room in the inbound
queue is decided when a packet is passed on. -/
def start (ourKey : C.Secret) (publicKey : PublicKey) (config : PeerConfig) (env : Env C) :
    Actor C :=
  .spawn ourKey publicKey config.presharedKey config.persistentKeepalive
    { env with inboundTakes := Stream'.const true }

def spawn (ourKey : C.Secret) (publicKey : PublicKey) (config : PeerConfig) (env : Env C) :
    Task C where
  publicKey := publicKey
  config := config
  env := env
  actor := start ourKey publicKey config env
  queue := []
  running := true
  reported := 0
  passed := 0
  accepted := []
  events := []
  lost := none

/-- The task is done with its last turn. -/
def ready (task : Task C) : Bool :=
  task.running && task.reported == task.actor.control.length &&
    task.passed == task.actor.inbound.length

/-- The task waits in its `select!`. -/
def waits (task : Task C) : Bool := task.ready && task.actor.sleeps

/-- One turn. -/
def turn (task : Task C) (event : Actor.Event C) : Task C :=
  { task with actor := task.actor.turn event, events := task.events ++ [event] }

def accept (task : Task C) (action : PeerAction C) : Task C :=
  { task with queue := task.queue ++ [action], accepted := task.accepted ++ [action] }

/-- The task dies, and its end of the channel with it. -/
def die (task : Task C) : Task C :=
  { task with running := false, queue := [], lost := some task.queue }

end Task

/-! ### The tunnel -/

structure Tunnel (C : Crypto) where
  ourKey : C.Secret
  /-- The tunnel was dropped. -/
  closed : Bool
  /-- The read loop has ended. -/
  aborted : Bool
  /-- The registry is gone. -/
  freed : Bool
  table : RoutingTable
  tasks : Channel → Option (Task C)
  /-- The next new channel. -/
  spawned : Channel
  /-- Peers taken out of the registry whose purge is not sent yet. -/
  leaving : List Channel
  control : List Control
  /-- The registry as the lookup for the first control message saw it. -/
  looked : Option RoutingTable
  router : IndexRouter
  loop : ReadLoop C
  /-- The cookie replies the read loop sent. -/
  replies : List (SocketAddr × Bytes)
  /-- Calls that wait for room, each with a reference to its peer's entry. -/
  waiting : List (Channel × Request)
  inbound : List Packet
  sent : List (Channel × Bytes)
  delivered : List (Channel × Bytes)
  received : List Packet

namespace Tunnel

/-- `Tunnel::start_with_guard` -/
def start (ourKey : C.Secret) (guard : LoadGuard C) (now : Instant) : Tunnel C where
  ourKey := ourKey
  closed := false
  aborted := false
  freed := false
  table := .new
  tasks := fun _ => none
  spawned := 0
  leaving := []
  control := []
  looked := none
  router := .new
  loop := ⟨guard, now⟩
  replies := []
  waiting := []
  inbound := []
  sent := []
  delivered := []
  received := []

def setTask (t : Tunnel C) (c : Channel) (task : Task C) : Tunnel C :=
  { t with tasks := Function.update t.tasks c (some task) }

/-- `try_send` on the sending half of an action channel. -/
def push (t : Tunnel C) (c : Channel) (action : PeerAction C) : Except SendError (Tunnel C) :=
  match t.tasks c with
  | none => .error .peerRemoved
  | some task =>
      if task.running then
        if task.queue.length < peerActionQueueCapacity then .ok (t.setTask c (task.accept action))
        else .error .full
      else .error .peerRemoved

/-- A `try_send` whose result is ignored. -/
def offer (t : Tunnel C) (c : Channel) (action : PeerAction C) : Tunnel C :=
  match t.push c action with
  | .ok t => t
  | .error _ => t

/-- What is queued for the read loop when a message is sent to it.  Nobody
receives a message once the loop has ended. -/
def controlWith (t : Tunnel C) (control : Control) : List Control :=
  if t.aborted then t.control else t.control ++ [control]

/-! ### Who can reach an actor -/

/-- The entry that the lookup for the first control message holds. -/
def lookedEntry (t : Tunnel C) : Option Channel :=
  match t.control, t.looked with
  | .bind peerKey _ :: _, some table => table.entry peerKey
  | .retire peerKey _ :: _, some table => table.entry peerKey
  | _, _ => none

/-- A call, a removal or the lookup of the read loop holds on to the entry. -/
def Held (t : Tunnel C) (c : Channel) : Prop :=
  c ∈ t.waiting.map Prod.fst ∨ c ∈ t.leaving ∨ t.lookedEntry = some c

/-- A route leads to the channel. -/
def Routed (t : Tunnel C) (c : Channel) : Prop := ∃ index, t.router.indices index = some c

instance (t : Tunnel C) (c : Channel) : Decidable (t.Held c) :=
  inferInstanceAs (Decidable (_ ∨ _ ∨ _))

instance (t : Tunnel C) (c : Channel) : Decidable (t.Routed c) :=
  decidable_of_iff (∃ i : Fin UInt32.size, t.router.indices (.ofFin i) = some c)
    ⟨fun ⟨i, h⟩ => ⟨.ofFin i, h⟩, fun ⟨index, h⟩ => ⟨index.toFin, h⟩⟩

/-! ### Calls of the owner -/

/-- `Tunnel::add_peer`.  A configured endpoint makes the new handle connect. -/
def addPeer (t : Tunnel C) (publicKey : PublicKey) (config : PeerConfig) (env : Env C) :
    Except RegisterError PeerHandle × Tunnel C :=
  match t.table.registerPeer publicKey t.spawned with
  | none => (.error .alreadyRegistered, t)
  | some table =>
      (.ok ⟨⟨publicKey, t.spawned⟩⟩,
        { t with
          table := table
          tasks := Function.update t.tasks t.spawned
            (some (.spawn t.ourKey publicKey config env))
          spawned := t.spawned + 1
          waiting := t.waiting ++
            config.endpoint.toList.map fun endpoint => (t.spawned, .connect endpoint) })

/-- `Peer::drop`, first half: the registry. -/
def removePeer (t : Tunnel C) (publicKey : PublicKey) : Tunnel C :=
  match t.table.removePeer publicKey with
  | (some (.purge actions), table) => { t with table := table, leaving := actions :: t.leaving }
  | _ => t

/-- `Peer::drop`, second half: the purge. -/
def sendPurge (t : Tunnel C) (actions : Channel) : Tunnel C :=
  if actions ∈ t.leaving then
    { t with leaving := t.leaving.erase actions, control := t.controlWith (.purge actions) }
  else t

/-- `PeerSender::entry`.  The entry lives while it is registered, and while a
task holds on to it. -/
def entry (t : Tunnel C) (sender : PeerSender) : Except SendError Channel :=
  if t.table.entry sender.publicKey = some sender.entry ∨ t.Held sender.entry then
    .ok sender.entry
  else if t.freed then .error .tunnelClosed
  else .error .peerRemoved

/-- `PeerSender::try_send` -/
def trySend (t : Tunnel C) (sender : PeerSender) (payload : Bytes) :
    Except SendError Unit × Tunnel C :=
  match t.entry sender with
  | .error e => (.error e, t)
  | .ok c =>
      match t.push c (.sendData payload) with
      | .error e => (.error e, t)
      | .ok t => (.ok (), { t with sent := t.sent ++ [(c, payload)] })

/-- `PeerSender::send` and `PeerSender::connect`, up to where they wait. -/
def call (t : Tunnel C) (sender : PeerSender) (request : Request) :
    Except SendError Unit × Tunnel C :=
  match t.entry sender with
  | .error e => (.error e, t)
  | .ok c => (.ok (), { t with waiting := t.waiting ++ [(c, request)] })

/-- `RoutingTable::set_peer`, up to where it waits. -/
def setPeer (t : Tunnel C) (publicKey : PublicKey) (update : PeerUpdate) :
    Except SendError Unit × Tunnel C :=
  match t.table.entry publicKey with
  | none => (.error .peerRemoved, t)
  | some c => (.ok (), { t with waiting := t.waiting ++ [(c, .update update)] })

/-- The waiting call number `n` goes on: there is room, or the receiver is
gone. -/
def complete (t : Tunnel C) (n : ℕ) : Tunnel C :=
  match t.waiting[n]? with
  | none => t
  | some (c, request) =>
      match t.push c request.action with
      | .ok t =>
          { t with
            waiting := t.waiting.eraseIdx n
            sent := t.sent ++ request.payload?.toList.map (c, ·) }
      | .error .full => t
      | .error _ => { t with waiting := t.waiting.eraseIdx n }

/-- The waiting call number `n` is given up. -/
def cancel (t : Tunnel C) (n : ℕ) : Tunnel C := { t with waiting := t.waiting.eraseIdx n }

/-- `Tunnel::recv` -/
def recv (t : Tunnel C) : Option Packet × Tunnel C :=
  match t.inbound with
  | [] => (none, t)
  | packet :: rest => (some packet, { t with inbound := rest, received := t.received ++ [packet] })

/-- `Tunnel::drop`: the read loop is told to end, and the inbound queue goes. -/
def close (t : Tunnel C) : Tunnel C := { t with closed := true, inbound := [] }

/-- The read loop of a tunnel that was dropped ends, where it next waits.  Its
routes go, and the messages to it. -/
def abort (t : Tunnel C) : Tunnel C :=
  if t.closed ∧ t.looked = none then { t with aborted := true, router := .new, control := [] }
  else t

/-- The registry goes with the last reference to it, and with it its entries.
The tunnel, the read loop and a removal hold one each. -/
def free (t : Tunnel C) : Tunnel C :=
  if t.aborted ∧ t.leaving = [] then { t with freed := true, table := .new } else t

/-! ### The read loop -/

/-- `IndexRouter::try_send_to_index` -/
def trySendToIndex (t : Tunnel C) (index : UInt32) (action : PeerAction C) : Tunnel C :=
  match t.router.indices index with
  | none => t
  | some c => t.offer c action

/-- `RoutingTable::recv_handshake_init` -/
def recvHandshakeInit (t : Tunnel C) (endpoint : SocketAddr) (handshake : InitReceived C) :
    Tunnel C :=
  match t.table.entry handshake.peerPublic with
  | none => t
  | some c => t.offer c (.recvHandshakeInit handshake endpoint)

/-- Hands on what the read loop made of a segment. -/
def hand (t : Tunnel C) : Handed C → Tunnel C
  | .handshakeInit addr handshake => t.recvHandshakeInit addr handshake
  | .handshakeResp addr receiver packet => t.trySendToIndex receiver (.recvHandshakeResp packet addr)
  | .data addr receiver packet => t.trySendToIndex receiver (.recvData packet receiver addr)
  | .cookieReply receiver packet => t.trySendToIndex receiver (.recvCookieReply packet)
  | .challenged addr reply => { t with replies := t.replies ++ [(addr, reply)] }
  | .invalid | .dropped | .invalidInit => t

/-- A segment arrives.  The loop does one thing at a time. -/
def arrive (X : CookieSeal C) (t : Tunnel C) (a : Arrival) : Tunnel C :=
  if t.aborted || t.looked.isSome then t
  else
    let (handed, loop) := t.loop.handle t.ourKey X a
    { t with loop := loop }.hand handed

/-- The loop looks up the registry for the first control message. -/
def lookup (t : Tunnel C) : Tunnel C :=
  match t.aborted, t.control, t.looked with
  | false, _ :: _, none => { t with looked := some t.table }
  | _, _, _ => t

/-- The loop changes the routes. -/
def route (t : Tunnel C) : Tunnel C :=
  match t.aborted, t.control, t.looked with
  | false, control :: rest, some table =>
      { t with router := t.router.apply control table, control := rest, looked := none }
  | _, _, _ => t

/-! ### The actors -/

/-- An actor takes the first `n` actions of its queue. -/
def handle (t : Tunnel C) (c : Channel) (n : ℕ) : Tunnel C :=
  match t.tasks c with
  | none => t
  | some task =>
      if task.waits ∧ task.queue.take n ≠ [] then
        t.setTask c
          { task.turn (.actions (task.queue.take n)) with queue := task.queue.drop n }
      else t

/-- A timer of an actor fires. -/
def fire (t : Tunnel C) (c : Channel) (timer : Actor.Timer) : Tunnel C :=
  match t.tasks c with
  | none => t
  | some task => if task.waits then t.setTask c (task.turn (.timer timer)) else t

/-- An actor's next control message reaches the read loop. -/
def report (t : Tunnel C) (c : Channel) : Tunnel C :=
  match t.tasks c with
  | none => t
  | some task =>
      match task.actor.control[task.reported]? with
      | none => t
      | some control =>
          { t.setTask c { task with reported := task.reported + 1 } with
            control := t.controlWith control }

/-- An actor's next received packet reaches the inbound queue, if there is
room. -/
def pass (t : Tunnel C) (c : Channel) : Tunnel C :=
  match t.tasks c with
  | none => t
  | some task =>
      match task.actor.inbound[task.passed]? with
      | none => t
      | some payload =>
          let passed := t.setTask c { task with passed := task.passed + 1 }
          if t.closed = false ∧ t.inbound.length < inboundQueueCapacity then
            { passed with
              inbound := t.inbound ++ [⟨task.publicKey, payload⟩]
              delivered := t.delivered ++ [(c, payload)] }
          else passed

/-- An actor ends when nothing is queued and no sender of its channel is left:
in an entry, in a route or in a purge that is queued. -/
def stop (t : Tunnel C) (c : Channel) : Tunnel C :=
  match t.tasks c with
  | none => t
  | some task =>
      if task.waits ∧ task.queue = [] ∧ t.table.entry task.publicKey ≠ some c ∧ ¬ t.Held c ∧
          ¬ t.Routed c ∧ .purge c ∉ t.control then
        t.setTask c { task with running := false }
      else t

/-- An actor panics where it cannot compute one of its deadlines. -/
def panic (t : Tunnel C) (c : Channel) : Tunnel C :=
  match t.tasks c with
  | none => t
  | some task => if task.ready ∧ task.actor.sleeps = false then t.setTask c task.die else t

/-! ### Runs -/

inductive Action (C : Crypto) where
  | addPeer (publicKey : PublicKey) (config : PeerConfig) (env : Env C)
  | removePeer (publicKey : PublicKey)
  | sendPurge (actions : Channel)
  | trySend (sender : PeerSender) (payload : Bytes)
  | call (sender : PeerSender) (request : Request)
  | setPeer (publicKey : PublicKey) (update : PeerUpdate)
  | complete (n : ℕ)
  | cancel (n : ℕ)
  | recv
  | close
  | abort
  | free
  | arrive (a : Arrival)
  | lookup
  | route
  | handle (c : Channel) (n : ℕ)
  | fire (c : Channel) (timer : Actor.Timer)
  | report (c : Channel)
  | pass (c : Channel)
  | stop (c : Channel)
  | panic (c : Channel)

def step (X : CookieSeal C) (t : Tunnel C) : Action C → Tunnel C
  | .addPeer publicKey config env =>
      -- a tunnel that was dropped has no caller any more
      if t.closed then t else (t.addPeer publicKey config env).2
  | .removePeer publicKey => t.removePeer publicKey
  | .sendPurge actions => t.sendPurge actions
  | .trySend sender payload => (t.trySend sender payload).2
  | .call sender request => (t.call sender request).2
  | .setPeer publicKey update => if t.closed then t else (t.setPeer publicKey update).2
  | .complete n => t.complete n
  | .cancel n => t.cancel n
  | .recv => t.recv.2
  | .close => t.close
  | .abort => t.abort
  | .free => t.free
  | .arrive a => t.arrive X a
  | .lookup => t.lookup
  | .route => t.route
  | .handle c n => t.handle c n
  | .fire c timer => t.fire c timer
  | .report c => t.report c
  | .pass c => t.pass c
  | .stop c => t.stop c
  | .panic c => t.panic c

def run (X : CookieSeal C) (t : Tunnel C) (actions : List (Action C)) : Tunnel C :=
  actions.foldl (step X) t

end Tunnel

end Tunstile
