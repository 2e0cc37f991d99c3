/-
Tunstile/Lossless.lean

What two drivers do for each other when the network loses nothing.

The network carries what one side's socket took to the other side, in order,
and hands it on as the read loop does.  Side `a` connects; payloads queued on
either side before there is a session wait for it.  Two messages later the
session is established and both queues are delivered, and from then on every
payload arrives, in order and once (`everything_arrives`).

All of it happens within Rekey-After-Time, so that no rekey interferes.
-/
import Tunstile.Opening
import Tunstile.WireFormat

namespace Tunstile

variable {C : Crypto}

/-! ### The network -/

/-- What becomes of a segment at the driver of the only peer of a tunnel, if
the load guard lets it pass. -/
def handedOn (ourKey : C.Secret) (addr : SocketAddr) (segment : Bytes) : Option (PeerAction C) :=
  match MessageHeader.tryFrom segment with
  | .error _ => none
  | .ok .handshakeInit =>
      match InitReceived.receive ourKey segment with
      | .error _ => none
      | .ok handshake => some (.recvHandshakeInit handshake addr)
  | .ok (.handshakeResponse _) => some (.recvHandshakeResp segment addr)
  | .ok (.data receiver) => some (.recvData segment receiver addr)
  | .ok (.cookieReply _) => some (.recvCookieReply segment)

/-- The action for which a segment is handed on. -/
def Handed.action : Handed C → Option (PeerAction C)
  | .handshakeInit addr handshake => some (.recvHandshakeInit handshake addr)
  | .handshakeResp addr _ packet => some (.recvHandshakeResp packet addr)
  | .data addr receiver packet => some (.recvData packet receiver addr)
  | .cookieReply _ packet => some (.recvCookieReply packet)
  | .invalid | .dropped | .challenged _ _ | .invalidInit => none

/-- The read loop hands a segment on unless the guard stops it. -/
theorem action_handle (ourKey : C.Secret) (X : CookieSeal C) (s : ReadLoop C) (a : Arrival) :
    (s.handle ourKey X a).1.action = handedOn ourKey a.addr a.segment ∨
      isHandshake a.segment = true ∧
        ((s.rotate a.now a.secret).guard.check X a.now a.segment a.addr a.nonce).1 ≠ .process := by
  have hdispatch : ∀ header, MessageHeader.tryFrom a.segment = .ok header →
      (ReadLoop.dispatch ourKey a header).action = handedOn ourKey a.addr a.segment := by
    intro header hheader
    rw [handedOn, hheader]
    cases header with
    | handshakeInit =>
        rw [ReadLoop.dispatch]
        cases InitReceived.receive ourKey a.segment <;> rfl
    | _ => rfl
  unfold ReadLoop.handle
  cases hheader : MessageHeader.tryFrom a.segment with
  | error e =>
      refine Or.inl ?_
      rw [handedOn, hheader]
      rfl
  | ok header =>
      dsimp only
      by_cases hs : isHandshake a.segment = true
      · rw [if_pos hs]
        rcases hcheck : (s.rotate a.now a.secret).guard.check X a.now a.segment a.addr a.nonce with
          ⟨decision, guard⟩
        cases decision with
        | process => exact Or.inl (hdispatch header hheader)
        | drop => exact Or.inr ⟨hs, fun h => by cases h⟩
        | cookie reply => exact Or.inr ⟨hs, fun h => by cases h⟩
      · rw [if_neg hs]
        exact Or.inl (hdispatch header hheader)

/-- The session `y` receives what `x` sends, and all that `x` will send is new
to it. -/
structure Session.Feeds (x y : Session C) : Prop where
  index : x.transport.peerIndex = y.ourIndex
  keys : x.transport.sendAead = y.transport.recvAead
  window : ∃ acc, y.replay.Accepted acc ∧ ∀ c ∈ acc, c < x.transport.sendCounter

/-- Two drivers, and how much of what each sent the network has carried. -/
structure Network (C : Crypto) where
  link : Link C
  carried : Side → ℕ

namespace Network

/-- What the network has still to carry from a side to the address of the
other one. -/
def pending (addr : Side → SocketAddr) (w : Network C) (s : Side) : List Datagrams :=
  ((w.link.actor s).datagrams.drop (w.carried s)).filter
    fun d => d.taken ∧ d.endpoint = addr s.other

/-- The network carries it there. -/
def carry (key : Side → C.Secret) (addr : Side → SocketAddr) (w : Network C) (s : Side) :
    Network C where
  link := w.link.turn s.other (.actions (((w.pending addr s).flatMap Datagrams.segments).filterMap
    (handedOn (key s.other) (addr s))))
  carried := Function.update w.carried s (w.link.actor s).datagrams.length

/-- Payloads are queued on a side. -/
def queue (w : Network C) (s : Side) (payloads : List Bytes) : Network C :=
  { w with link := w.link.turn s (.actions (payloads.map .sendData)) }

theorem actor_queue_self (w : Network C) (s : Side) (payloads : List Bytes) :
    (w.queue s payloads).link.actor s = (w.link.actor s).flushSends payloads := by
  show (w.link.turn s (.actions (payloads.map .sendData))).actor s = _
  rw [Link.turn_self]
  exact (w.link.actor s).handleActions_sendData [] payloads

theorem actor_queue_of_ne (w : Network C) {s r : Side} (h : r ≠ s) (payloads : List Bytes) :
    (w.queue s payloads).link.actor r = w.link.actor r := Link.turn_of_ne w.link h _

/-- Payloads are queued on a side, and what comes of them is carried. -/
def exchange (key : Side → C.Secret) (addr : Side → SocketAddr) (w : Network C) (s : Side)
    (payloads : List Bytes) : Network C :=
  (w.queue s payloads).carry key addr s

/-! ### Once there is a session -/

/-- Both drivers can send, each has the session of the other, and nothing is
on the way. -/
structure Connected (t : Side → Instant) (addr : Side → SocketAddr) (session : Side → Session C)
    (w : Network C) : Prop where
  up : ∀ s, Actor.Up (t s) (addr s.other) (session s) (w.link.actor s)
  feeds : ∀ s, (session s).Feeds (session s.other)
  carried : ∀ s, w.carried s = (w.link.actor s).datagrams.length

/-- A data message goes to the session with its index. -/
theorem handedOn_dataPacket (ourKey : C.Secret) (addr : SocketAddr) (index : UInt32)
    (key : C.Hash256) (z : UInt64 × Bytes) : handedOn ourKey addr (dataPacket C index key z)
      = some (.recvData (dataPacket C index key z) index addr) := by
  have hfield : aeadTagSize ≤ (C.sealed key z.1 [] z.2).length := by
    rw [C.length_sealed]
    exact Nat.le_add_left _ _
  have hparse : MessageHeader.tryFrom (dataPacket C index key z) = .ok (.data index) :=
    tryFrom_dataWire _ _ hfield
  rw [handedOn, hparse]

/-- The packets of a session are handed on to the session of the other side. -/
theorem handedOn_packets (ourKey : C.Secret) (addr : SocketAddr) {x y : Session C}
    (hindex : x.transport.peerIndex = y.ourIndex)
    (hkeys : x.transport.sendAead = y.transport.recvAead) (payloads : List Bytes) :
    (x.packets payloads).filterMap (handedOn ourKey addr)
      = Actor.arriving y addr (numbered x.transport.sendCounter payloads) := by
  rw [Session.packets, List.filterMap_map, Actor.arriving, ← List.filterMap_eq_map, hindex, hkeys]
  exact List.filterMap_congr fun z _ => handedOn_dataPacket ourKey addr _ _ z

/-- What the network carries is what was sent since. -/
theorem pending_eq {addr : Side → SocketAddr} {w : Network C} {s : Side}
    {before new : List Datagrams}
    (hdatagrams : (w.link.actor s).datagrams = before ++ new)
    (hcarried : w.carried s = before.length)
    (hto : ∀ d ∈ new, d.endpoint = addr s.other ∧ d.taken = true) : w.pending addr s = new := by
  rw [pending, hdatagrams, hcarried, List.drop_left]
  refine List.filter_eq_self.mpr fun d hd => ?_
  exact decide_eq_true ⟨(hto d hd).2, (hto d hd).1⟩

theorem link_carry {key : Side → C.Secret} {addr : Side → SocketAddr} {w : Network C} {s : Side}
    {new : List Datagrams} {x y : Session C} {payloads : List Bytes}
    (hpending : w.pending addr s = new) (hindex : x.transport.peerIndex = y.ourIndex)
    (hkeys : x.transport.sendAead = y.transport.recvAead)
    (hsegments : new.flatMap Datagrams.segments = x.packets payloads) :
    (w.carry key addr s).link = w.link.turn s.other
      (.actions (Actor.arriving y (addr s) (numbered x.transport.sendCounter payloads))) := by
  rw [carry, hpending, hsegments, handedOn_packets (key s.other) (addr s) hindex hkeys]

/-- The sessions of both sides, as seen from one. -/
def sessions (s : Side) (x y : Session C) (r : Side) : Session C := if r = s then x else y

theorem sessions_self (s : Side) (x y : Session C) : sessions s x y s = x := if_pos rfl

theorem sessions_other (s : Side) (x y : Session C) : sessions s x y s.other = y :=
  if_neg s.other_ne

theorem Connected.of_sides {t : Side → Instant} {addr : Side → SocketAddr} {w : Network C}
    {s : Side} {x y : Session C} (hup : Actor.Up (t s) (addr s.other) x (w.link.actor s))
    (hup' : Actor.Up (t s.other) (addr s) y (w.link.actor s.other)) (hfeeds : x.Feeds y)
    (hfeeds' : y.Feeds x) (hcarried : w.carried s = (w.link.actor s).datagrams.length)
    (hcarried' : w.carried s.other = (w.link.actor s.other).datagrams.length) :
    Connected t addr (sessions s x y) w := by
  have hboth : ∀ {p : Side → Prop}, p s → p s.other → ∀ r, p r := by
    intro p h h' r
    cases s <;> cases r <;> assumption
  refine ⟨hboth ?_ ?_, hboth ?_ ?_, hboth hcarried hcarried'⟩
  · rwa [sessions_self]
  · rwa [sessions_other, Side.other_other]
  · rwa [sessions_self, sessions_other]
  · rwa [sessions_other, Side.other_other, sessions_self]

theorem delivery_numbered (n : UInt64) (payloads : List Bytes) :
    delivery (numbered n payloads) = payloads.filter (· ≠ []) := by
  have hsnd : (numbered n payloads).map Prod.snd = payloads := by
    induction payloads generalizing n with
    | nil => rfl
    | cons payload rest ih => rw [numbered, List.map_cons, ih]
  rw [delivery, hsnd]

/-- **Payloads of a connected driver arrive.** -/
theorem Connected.exchange (hseal : C.OpenSeal) (key : Side → C.Secret) {t : Side → Instant}
    {addr : Side → SocketAddr} {session : Side → Session C} {w : Network C}
    (h : Connected t addr session w) (s : Side) (payloads : List Bytes)
    (hctr : (session s).transport.sendCounter.toNat + payloads.length < rekeyAfterMessages.toNat) :
    let w' := w.exchange key addr s payloads
    ∃ session', Connected t addr session' w' ∧
      (session' s).transport.sendCounter.toNat
        = (session s).transport.sendCounter.toNat + payloads.length ∧
      (session' s.other).transport.sendCounter = (session s.other).transport.sendCounter ∧
      (w'.link.actor s).inbound = (w.link.actor s).inbound ∧
      (w'.link.actor s.other).inbound
        = (w.link.actor s.other).inbound ++ payloads.filter (· ≠ []) := by
  intro w'
  have hother := h.up s.other
  rw [Side.other_other] at hother
  -- the side that sends
  obtain ⟨hsent, hinbound, new, hnew, hto, hsegments⟩ := (h.up s).flushSends hctr
  have hqueue := w.actor_queue_self s payloads
  have hqueue' := w.actor_queue_of_ne s.other_ne payloads
  have hpending : (w.queue s payloads).pending addr s = new :=
    pending_eq ((congrArg Actor.datagrams hqueue).trans hnew) (h.carried s) hto
  -- the side that receives
  obtain ⟨acc, hacc, hbelow⟩ := (h.feeds s).window
  obtain ⟨hfresh, hbelow'⟩ := freshOnes_numbered acc hbelow (hctr.le.trans (by decide))
  obtain ⟨replay, hreceived, hsame, haccepted, hdelivered⟩ := hother.receives hseal hacc
    (numbered (session s).transport.sendCounter payloads)
  rw [hfresh] at haccepted hdelivered
  have hlink : w'.link = (w.queue s payloads).link.turn s.other (.actions
      (Actor.arriving (session s.other) (addr s) (numbered (session s).transport.sendCounter
        payloads))) := link_carry hpending (h.feeds s).index (h.feeds s).keys hsegments
  have hactor : w'.link.actor s = (w.link.actor s).flushSends payloads := by
    rw [hlink, Link.turn_of_ne _ s.other_ne.symm, hqueue]
  have hactor' : w'.link.actor s.other = (w.link.actor s.other).handleActions []
      (Actor.arriving (session s.other) (addr s) (numbered (session s).transport.sendCounter
        payloads)) := by
    rw [hlink, Link.turn_self, hqueue']
    rfl
  have hback := h.feeds s.other
  rw [Side.other_other] at hback
  refine ⟨sessions s ((session s).after payloads.length) { session s.other with replay := replay },
    .of_sides ?_ ?_ ?_ ?_ ?_ ?_, ?_, ?_, ?_, ?_⟩
  · rwa [hactor]
  · rwa [hactor']
  · exact ⟨(h.feeds s).index, (h.feeds s).keys, _, haccepted, hbelow'⟩
  · exact ⟨hback.index, hback.keys, hback.window⟩
  · rw [hactor, ← hqueue]
    exact Function.update_self ..
  · rw [hactor', hsame, ← h.carried s.other]
    exact Function.update_of_ne s.other_ne ..
  · rw [sessions_self]
    exact Session.toNat_after hctr
  · rw [sessions_other]
  · rw [hactor]
    exact hinbound
  · rw [hactor', hdelivered, delivery_numbered]

/-- Payloads queued and carried, side by side. -/
def exchanges (key : Side → C.Secret) (addr : Side → SocketAddr) (w : Network C)
    (traffic : List (Side × List Bytes)) : Network C :=
  traffic.foldl (fun w x => w.exchange key addr x.1 x.2) w

/-- The payloads of a side. -/
def payloadsOn (s : Side) (traffic : List (Side × List Bytes)) : List Bytes :=
  traffic.flatMap fun x => if x.1 = s then x.2 else []

/-- **All payloads of connected drivers arrive**, and the drivers stay
connected. -/
theorem Connected.exchanges (hseal : C.OpenSeal) {key : Side → C.Secret} {t : Side → Instant}
    {addr : Side → SocketAddr} {session : Side → Session C} {w : Network C}
    (h : Connected t addr session w) {traffic : List (Side × List Bytes)}
    (hctr : ∀ s, (session s).transport.sendCounter.toNat + (payloadsOn s traffic).length
      < rekeyAfterMessages.toNat) :
    ∃ session', Connected t addr session' (w.exchanges key addr traffic) ∧ ∀ s,
      (session' s).transport.sendCounter.toNat
        = (session s).transport.sendCounter.toNat + (payloadsOn s traffic).length ∧
      ((w.exchanges key addr traffic).link.actor s).inbound
        = (w.link.actor s).inbound ++ (payloadsOn s.other traffic).filter (· ≠ []) := by
  induction traffic generalizing w session with
  | nil => exact ⟨session, h, fun _ => ⟨rfl, (List.append_nil _).symm⟩⟩
  | cons x traffic ih =>
      obtain ⟨r, payloads⟩ := x
      have hself : ∀ q, payloadsOn q ((r, payloads) :: traffic)
          = (if r = q then payloads else []) ++ payloadsOn q traffic := fun _ => rfl
      have hboth : ∀ {p : Side → Prop}, p r → p r.other → ∀ q, p q := by
        intro p h h' q
        cases r <;> cases q <;> assumption
      have hr := hctr r
      rw [hself, if_pos rfl, List.length_append] at hr
      obtain ⟨session₁, hconnected, hcount, hcount', hin, hin'⟩ :=
        h.exchange hseal key r payloads (by omega)
      -- what the first exchange does to either side
      have hcounts : ∀ q, (session₁ q).transport.sendCounter.toNat
          = (session q).transport.sendCounter.toNat + (if r = q then payloads else []).length := by
        refine hboth ?_ ?_
        · rwa [if_pos rfl]
        · rw [if_neg r.other_ne.symm, hcount']
          rfl
      have hinbound : ∀ q, ((w.exchange key addr r payloads).link.actor q).inbound
          = (w.link.actor q).inbound ++ (if r = q.other then payloads else []).filter (· ≠ []) := by
        refine hboth ?_ ?_
        · rw [if_neg r.other_ne.symm, hin]
          exact (List.append_nil _).symm
        · rw [Side.other_other, if_pos rfl]
          exact hin'
      obtain ⟨session₂, hconnected₂, hlast⟩ := ih hconnected fun q => by
        have hq := hctr q
        rw [hself, List.length_append] at hq
        rw [hcounts q]
        omega
      refine ⟨session₂, hconnected₂, fun q => ⟨?_, ?_⟩⟩
      · rw [(hlast q).1, hcounts q, hself, List.length_append, Nat.add_assoc]
      · rw [hself, List.filter_append, ← List.append_assoc, ← hinbound q]
        exact (hlast q).2

/-! ### The first messages -/

section

variable {key : Side → C.Secret} {addr : Side → SocketAddr} {w : Network C}

theorem actor_carry_self (s : Side) : (w.carry key addr s).link.actor s = w.link.actor s :=
  Link.turn_of_ne w.link s.other_ne.symm _

theorem carried_self (s : Side) :
    (w.carry key addr s).carried s = (w.link.actor s).datagrams.length := Function.update_self ..

theorem carried_other (s : Side) : (w.carry key addr s).carried s.other = w.carried s.other :=
  Function.update_of_ne s.other_ne ..

/-- A single message is carried. -/
theorem actor_carry_message {s : Side} {before : List Datagrams} {msg : Bytes}
    {action : PeerAction C}
    (hdatagrams : (w.link.actor s).datagrams
      = before ++ [⟨addr s.other, msg, msg.length, true⟩])
    (hcarried : w.carried s = before.length) (hmsg : 0 < msg.length)
    (haction : handedOn (key s.other) (addr s) msg = some action)
    (hdata : ∀ payload, action ≠ .sendData payload) :
    (w.carry key addr s).link.actor s.other = (w.link.actor s.other).handleMessage action := by
  have hpending : w.pending addr s = [⟨addr s.other, msg, msg.length, true⟩] :=
    pending_eq hdatagrams hcarried fun d hd => by
      rw [List.mem_singleton.mp hd]
      exact ⟨rfl, rfl⟩
  have hcut := slices_segments hmsg
    (fun packet hpacket => by rw [List.mem_singleton.mp hpacket])
  rw [List.flatten_singleton] at hcut
  have hsegments : (w.pending addr s).flatMap Datagrams.segments = [msg] := by
    rw [hpending, List.flatMap_singleton]
    exact hcut
  rw [carry, hsegments, List.filterMap_cons_some haction, List.filterMap_nil, Link.turn_self]
  exact Actor.turn_action _ hdata

end

/-- Two drivers, newly spawned for each other. -/
def start (key : Side → C.Secret) (presharedKey : Side → Option PresharedKey)
    (persistentKeepalive : Side → Option Duration) (env : Side → Env C) : Network C where
  link := .start key presharedKey persistentKeepalive env
  carried := fun _ => 0

/-- Side `a` connects. -/
def connect (addr : Side → SocketAddr) (w : Network C) : Network C :=
  { w with link := w.link.turn .a (.actions [.connect (addr .b)]) }

/-- Side `a` connects, payloads are queued on both sides, and the network
carries what there is to carry, first from `a` and then back, twice. -/
def opening (key : Side → C.Secret) (addr : Side → SocketAddr) (w : Network C)
    (waiting : Side → List Bytes) : Network C :=
  let w := ((w.connect addr).queue .a (waiting .a)).queue .b (waiting .b)
  (((w.carry key addr .a).carry key addr .b).carry key addr .a).carry key addr .b

/-- Side `a` has a session, on which it sent its first packets, and side `b`
waits for them. -/
structure Confirming (t : Side → Instant) (addr : Side → SocketAddr) (waiting : Side → List Bytes)
    (x y : Session C) (w : Network C) : Prop where
  up : Actor.Up (t .a) (addr .b) (x.after (Actor.firstPayloads (waiting .a)).length)
    (w.link.actor .a)
  sent : ∃ before new, (w.link.actor .a).datagrams = before ++ new ∧
    w.carried .a = before.length ∧ (∀ d ∈ new, d.endpoint = addr .b ∧ d.taken = true) ∧
    new.flatMap Datagrams.segments = x.packets (Actor.firstPayloads (waiting .a))
  fair : (w.link.actor .b).env.Fair (t .b)
  next : (w.link.actor .b).machine.next = some y
  staged : (w.link.actor .b).staged = waiting .b
  carried : w.carried .b = (w.link.actor .b).datagrams.length
  inbound : ∀ s, (w.link.actor s).inbound = []
  young : t .b ≤ y.established
  matched : CrossMatched x.transport y.transport
  fresh : x.replay = .new ∧ y.replay = .new
  unused : x.transport.sendCounter = 0 ∧ y.transport.sendCounter = 0

/-- The first message of a driver is carried. -/
theorem carry_first {key : Side → C.Secret} {addr : Side → SocketAddr} {w : Network C} {s : Side}
    {msg : Bytes} {action : PeerAction C}
    (hdatagrams : (w.link.actor s).datagrams = [⟨addr s.other, msg, msg.length, true⟩])
    (hcarried : w.carried s = 0) (hmsg : 0 < msg.length)
    (haction : handedOn (key s.other) (addr s) msg = some action)
    (hdata : ∀ payload, action ≠ .sendData payload) :
    (w.carry key addr s).link.actor s.other = (w.link.actor s.other).handleMessage action ∧
      (w.carry key addr s).link.actor s = w.link.actor s ∧ (w.carry key addr s).carried s = 1 := by
  have hfirst : (w.link.actor s).datagrams = [] ++ [⟨addr s.other, msg, msg.length, true⟩] :=
    hdatagrams
  refine ⟨actor_carry_message hfirst hcarried hmsg haction hdata, actor_carry_self s, ?_⟩
  rw [carried_self, hdatagrams]
  rfl

/-- A network on which side `a` has connected and payloads wait on either
side. -/
def asked (key : Side → C.Secret) (presharedKey : Side → Option PresharedKey)
    (persistentKeepalive : Side → Option Duration) (env : Side → Env C) (addr : Side → SocketAddr)
    (waiting : Side → List Bytes) : Network C :=
  (((start key presharedKey persistentKeepalive env).connect addr).queue .a (waiting .a)).queue .b
    (waiting .b)

theorem asked_actors (key : Side → C.Secret) (presharedKey : Side → Option PresharedKey)
    (persistentKeepalive : Side → Option Duration) (env : Side → Env C) (addr : Side → SocketAddr)
    (waiting : Side → List Bytes) :
    let w := asked key presharedKey persistentKeepalive env addr waiting
    w.link.actor .a = ((Actor.spawn (key .a) (C.publicKey (key .b)) (presharedKey .a)
        (persistentKeepalive .a) (env .a)).handleMessage (.connect (addr .b))).flushSends
          (waiting .a) ∧
      w.link.actor .b = (Actor.spawn (key .b) (C.publicKey (key .a)) (presharedKey .b)
        (persistentKeepalive .b) (env .b)).flushSends (waiting .b) := by
  intro w
  constructor
  · show (Network.queue _ _ _).link.actor .a = _
    rw [actor_queue_of_ne _ (fun h => by cases h), actor_queue_self, connect, Link.turn_self,
      Actor.turn_action _ (fun _ h => by cases h)]
    rfl
  · show (Network.queue _ _ _).link.actor .b = _
    rw [actor_queue_self, actor_queue_of_ne _ (fun h => by cases h), connect,
      Link.turn_of_ne _ (fun h => by cases h)]
    rfl

section

variable {key : Side → C.Secret} {addr : Side → SocketAddr} {t : Side → Instant}
  {waiting : Side → List Bytes} {w : Network C}

/-- The initiation is carried. -/
theorem carry_initiation {psk : Option PresharedKey} {pending : PendingHandshake C}
    {msg : Bytes} {recv : InitReceived C}
    (h : Actor.Asks (t .a) (addr .b) (waiting .a) (key .a) psk pending msg (w.link.actor .a))
    (hcarried : w.carried .a = 0) (hrecv : Received (key .b) msg recv) :
    (w.carry key addr .a).link.actor .b
        = (w.link.actor .b).handleMessage (.recvHandshakeInit recv (addr .a)) ∧
      (w.carry key addr .a).link.actor .a = w.link.actor .a ∧ (w.carry key addr .a).carried .a = 1 := by
  refine carry_first h.datagrams hcarried (by rw [hrecv.length_eq]; decide) ?_
    (fun _ h => by cases h)
  show handedOn (key .b) (addr .a) msg = _
  rw [handedOn, MessageHeader.tryFrom_of_hasType hrecv.hasType (by rw [hrecv.length_eq]; rfl)]
  dsimp only
  rw [InitReceived.receive_ok_iff.mpr hrecv]

/-- The response is carried back, and accepted. -/
theorem carry_response {psk : Option PresharedKey} {pending : PendingHandshake C} {y : Session C}
    {msg resp : Bytes} {established : InitiatorEstablished C} {sender receiver : UInt32}
    {ephemeral : PublicKey} {tagField : Bytes}
    (hasks : Actor.Asks (t .a) (addr .b) (waiting .a) (key .a) psk pending msg (w.link.actor .a))
    (hanswers : Actor.Answers (t .b) (addr .a) (waiting .b) y resp (w.link.actor .b))
    (hcarried : w.carried .a = 1) (hcarried' : w.carried .b = 0)
    (hresp : IsResp sender receiver ephemeral tagField resp)
    (haccepted : pending.state.responseReceived (key .a) psk resp = .ok established)
    (hroom : (waiting .a).length ≤ maxStagedPackets)
    (hmatched : ∀ now, CrossMatched (Session.new established.finish now).transport y.transport)
    (hreplay : y.replay = .new) (hunused : y.transport.sendCounter = 0) :
    ∃ x, Confirming t addr waiting x y (w.carry key addr .b) := by
  have hto : handedOn (key .a) (addr .b) resp = some (.recvHandshakeResp resp (addr .b)) := by
    rw [handedOn, hresp.tryFrom]
  obtain ⟨hactor, hself, hone⟩ : (w.carry key addr .b).link.actor .a
      = (w.link.actor .a).handleMessage (.recvHandshakeResp resp (addr .b)) ∧
      (w.carry key addr .b).link.actor .b = w.link.actor .b ∧ (w.carry key addr .b).carried .b = 1 :=
    carry_first hanswers.datagrams hcarried' (by rw [hresp.length_eq]; decide) hto
      (fun _ h => by cases h)
  obtain ⟨hup, hinbound, new, hnew, hnewto, hsegments⟩ := Actor.answered_sends hasks.fair
    _ hasks.pending (by rw [hasks.ourKey, hasks.presharedKey]; exact haccepted) hasks.next
    (by rw [hasks.staged]; exact hroom)
  rw [hasks.staged] at hup hsegments
  rw [hasks.datagrams] at hnew
  rw [← hactor] at hup hinbound hnew
  refine ⟨_, hup, ⟨_, new, hnew, ?_, hnewto, hsegments⟩, ?_, ?_, ?_, ?_, ?_, hanswers.young,
    hmatched _, ⟨rfl, hreplay⟩, rfl, hunused⟩
  · exact (carried_other .b).trans hcarried
  · rw [hself]
    exact hanswers.fair
  · rw [hself]
    exact hanswers.next
  · rw [hself]
    exact hanswers.staged
  · rw [hself, hone, hanswers.datagrams]
    rfl
  · intro s
    cases s
    · exact hinbound.trans hasks.inbound
    · rw [hself]
      exact hanswers.inbound

end

/-- **The handshake.**  An initiation and a response are carried. -/
theorem exists_confirming (hC : C.Correct) {key : Side → C.Secret}
    {presharedKey : Side → Option PresharedKey} (persistentKeepalive : Side → Option Duration)
    {env : Side → Env C} (addr : Side → SocketAddr) {t : Side → Instant}
    (hfair : ∀ s, (env s).Fair (t s))
    (hpsk : effectivePsk (presharedKey .a) = effectivePsk (presharedKey .b))
    (hes : C.wasContributory (C.diffieHellman (env .a).values.head.ephemeralSecret
      (C.publicKey (key .b))) = true)
    (hss : C.wasContributory (C.diffieHellman (key .a) (C.publicKey (key .b))) = true)
    (hee : C.wasContributory (C.diffieHellman (env .a).values.head.ephemeralSecret
      (C.publicKey (env .b).values.head.ephemeralSecret)) = true)
    {waiting : Side → List Bytes} (hroom : ∀ s, (waiting s).length ≤ maxStagedPackets) :
    ∃ x y, Confirming t addr waiting x y (((asked key presharedKey persistentKeepalive env addr
      waiting).carry key addr .a).carry key addr .b) := by
  -- the two messages
  obtain ⟨sent, cookies, msg, recv, hinit, -, hreceived, hsame, hindex, hsecret, -⟩ :=
    honest_initiation hC (i := key .a) (r := key .b) (e := (env .a).values.head.ephemeralSecret)
      (env .a).values.head.index (env .a).values.head.timestamp
      (Generator.new C (C.publicKey (key .b))) (List.replicate initMsgLength 0) hes hss
      List.length_replicate.ge
  obtain ⟨cookies', resp, hrespond, hisResp, hanswered⟩ := honest_response hC
    (e := (env .b).values.head.ephemeralSecret) (presharedKey .a) (presharedKey .b)
    (env .b).values.head.index (env .b).values.head.timestamp
    (Generator.new C (C.publicKey (key .a))) (List.replicate respMsgLength 0) hsame
    (by rw [hsecret]; exact hee) hpsk List.length_replicate.ge
  rw [List.drop_eq_nil_of_le List.length_replicate.le, List.append_nil] at hinit hrespond
  -- side `a` connects, and side `b` answers
  obtain ⟨ha, hb⟩ := asked_actors key presharedKey persistentKeepalive env addr waiting
  obtain ⟨hasks, -, -⟩ := Actor.spawn_asks (presharedKey .a) (persistentKeepalive .a)
    (hfair .a) hinit (addr .b) (waiting .a) (hroom .a)
  obtain ⟨hanswers, -, -⟩ := Actor.spawn_answers (key .b) (persistentKeepalive .b)
    (hfair .b) hrespond (addr .a) (waiting .b) (hroom .b)
  rw [← ha] at hasks
  obtain ⟨hcarry, hself, hone⟩ := carry_initiation hasks rfl hreceived
  rw [← hb, ← hcarry] at hanswers
  rw [← hself] at hasks
  obtain ⟨x, hconfirming⟩ := carry_response hasks hanswers hone ((carried_other .a).trans rfl)
    hisResp (InitSent.responseReceived_ok_iff.mpr hanswered) (hroom .a)
    (fun now => ⟨rfl, rfl, rfl, rfl⟩) rfl rfl
  exact ⟨x, _, hconfirming⟩

/-- What side `b` makes of the first packets. -/
theorem Confirming.confirms (hseal : C.OpenSeal) {t : Side → Instant} {addr : Side → SocketAddr}
    {waiting : Side → List Bytes} {x y : Session C} {w : Network C}
    (h : Confirming t addr waiting x y w) (hroom : ∀ s, (waiting s).length ≤ maxStagedPackets) :
    let b := (w.link.actor .b).handleActions [] (Actor.arriving y (addr .a)
      (numbered x.transport.sendCounter (Actor.firstPayloads (waiting .a))))
    ∃ replay, Actor.Up (t .b) (addr .a) ({ y with replay := replay }.after (waiting .b).length) b ∧
      (x.after (Actor.firstPayloads (waiting .a)).length).Feeds
        ({ y with replay := replay }.after (waiting .b).length) ∧
      b.inbound = (waiting .a).filter (· ≠ []) ∧
      ∃ new, b.datagrams = (w.link.actor .b).datagrams ++ new ∧
        (∀ d ∈ new, d.endpoint = addr .a ∧ d.taken = true) ∧
        new.flatMap Datagrams.segments = y.packets (waiting .b) := by
  intro b
  have hlimit : maxStagedPackets + 1 < rekeyAfterMessages.toNat := by decide
  have hroomₐ := hroom .a
  have hroomᵣ := hroom .b
  obtain ⟨payload, rest, hfirst⟩ : ∃ payload rest,
      Actor.firstPayloads (waiting .a) = payload :: rest := by
    refine List.exists_cons_of_ne_nil ?_
    unfold Actor.firstPayloads
    split
    · exact List.cons_ne_nil _ _
    · assumption
  have hlen := Actor.length_firstPayloads (waiting .a)
  have hdelivery : delivery (numbered x.transport.sendCounter (Actor.firstPayloads (waiting .a)))
      = (waiting .a).filter (· ≠ []) := by
    rw [delivery_numbered, Actor.firstPayloads]
    split
    · rename_i hnil
      rw [hnil]
      rfl
    · rfl
  -- all counters are new, the first among them
  have hcounters : x.transport.sendCounter.toNat + (Actor.firstPayloads (waiting .a)).length
      ≤ rejectAfterMessages.toNat := by
    have hle : maxStagedPackets + 1 ≤ rejectAfterMessages.toNat := by decide
    rw [h.unused.1]
    show 0 + _ ≤ _
    omega
  have hfirstFresh : Fresh [] x.transport.sendCounter := by
    rw [h.unused.1]
    exact ⟨by decide, List.not_mem_nil, Nat.zero_le _⟩
  obtain ⟨hfresh, hlast⟩ := freshOnes_numbered [] (fun _ hc => by cases hc) hcounters
  rw [hfirst, numbered, freshOnes, if_pos hfirstFresh] at hfresh
  have hrestFresh := List.tail_eq_of_cons_eq hfresh
  -- the first packet confirms the session, the others come in on it
  obtain ⟨replay, haccepted, hup, hinbound, new, hdatagrams, hto, hsegments⟩ :=
    Actor.confirming_sends (z := (x.transport.sendCounter, payload)) hseal
      h.fair _ h.next h.young (by rw [h.fresh.2]; exact ReplayFilter.accepted_new) hfirstFresh
      (by rw [h.unused.2, h.staged]; show 0 + _ < _; omega)
  rw [h.staged] at hup hsegments
  obtain ⟨replay', hup', hsame, haccepted', hinbound'⟩ := hup.receives hseal haccepted
    (numbered (x.transport.sendCounter + 1) rest)
  rw [hrestFresh] at haccepted' hinbound'
  have hb : b = ((w.link.actor .b).handleMessage (.recvData (dataPacket C y.ourIndex
      y.transport.recvAead (x.transport.sendCounter, payload)) y.ourIndex (addr .a))).handleActions
        [] (Actor.arriving y (addr .a) (numbered (x.transport.sendCounter + 1) rest)) := by
    show Actor.handleActions _ _ _ = _
    rw [hfirst, numbered, Actor.handleActions_arriving]
  refine ⟨replay', ?_, ⟨?_, ?_, _, haccepted', ?_⟩, ?_, new, ?_, hto, hsegments⟩
  · rw [hb]
    exact hup'
  · exact h.matched.peerIndex_left
  · exact h.matched.send_eq
  · intro c hc
    refine hlast c ?_
    rw [hfirst, numbered, List.map_cons, List.reverse_cons, List.append_assoc]
    exact hc
  · rw [hb]
    refine hinbound'.trans ?_
    rw [hinbound, h.inbound, ← hdelivery, List.nil_append, hfirst, numbered]
    exact (delivery_append [_] _).symm
  · rw [hb]
    exact hsame.trans hdatagrams

/-- **The first packets.**  They are carried, and both sides are connected. -/
theorem Confirming.opens (hseal : C.OpenSeal) {key : Side → C.Secret} {t : Side → Instant}
    {addr : Side → SocketAddr} {waiting : Side → List Bytes} {x y : Session C} {w : Network C}
    (h : Confirming t addr waiting x y w) (hroom : ∀ s, (waiting s).length ≤ maxStagedPackets) :
    let w' := (w.carry key addr .a).carry key addr .b
    ∃ session, Connected t addr session w' ∧
      (∀ s, (session s).transport.sendCounter.toNat ≤ maxStagedPackets + 1) ∧
      ∀ s, (w'.link.actor s).inbound = (waiting s.other).filter (· ≠ []) := by
  intro w'
  have hlimit : maxStagedPackets + 1 < rekeyAfterMessages.toNat := by decide
  have hroomₐ := hroom .a
  have hroomᵣ := hroom .b
  have hlen := Actor.length_firstPayloads (waiting .a)
  obtain ⟨replay, hup, hfeeds, hinbound, new, hdatagrams, hto, hsegments⟩ := h.confirms hseal hroom
  obtain ⟨before, new', hdatagrams', hcarried', hto', hsegments'⟩ := h.sent
  -- from `a` to `b`
  have hthere : (w.carry key addr .a).link = w.link.turn .b (.actions (Actor.arriving y (addr .a)
      (numbered x.transport.sendCounter (Actor.firstPayloads (waiting .a))))) :=
    link_carry (pending_eq hdatagrams' hcarried' hto') h.matched.peerIndex_left h.matched.send_eq
      hsegments'
  have hactor : (w.carry key addr .a).link.actor .b = (w.link.actor .b).handleActions []
      (Actor.arriving y (addr .a)
        (numbered x.transport.sendCounter (Actor.firstPayloads (waiting .a)))) := by
    rw [hthere, Link.turn_self]
    rfl
  rw [← hactor] at hup hinbound hdatagrams
  -- and back
  have hcarried : (w.carry key addr .a).carried .b = (w.link.actor .b).datagrams.length :=
    (carried_other .a).trans h.carried
  have hback : w'.link = (w.carry key addr .a).link.turn .a (.actions (Actor.arriving
      (x.after (Actor.firstPayloads (waiting .a)).length) (addr .b)
        (numbered y.transport.sendCounter (waiting .b)))) :=
    link_carry (pending_eq hdatagrams hcarried hto) h.matched.peerIndex_right
      h.matched.recv_eq.symm hsegments
  have hkeep : (w.carry key addr .a).link.actor .a = w.link.actor .a := actor_carry_self .a
  have hkeep' : w'.link.actor .b = (w.carry key addr .a).link.actor .b := actor_carry_self .b
  have hcounters : y.transport.sendCounter.toNat + (waiting .b).length
      ≤ rejectAfterMessages.toNat := by
    have hle : maxStagedPackets ≤ rejectAfterMessages.toNat := by decide
    rw [h.unused.2]
    show 0 + _ ≤ _
    omega
  obtain ⟨hfresh, hlast⟩ := freshOnes_numbered [] (fun _ hc => by cases hc) hcounters
  obtain ⟨replay', hup', hsame, haccepted, hinbound'⟩ := h.up.receives hseal
    (by rw [show (x.after _).replay = x.replay from rfl, h.fresh.1]
        exact ReplayFilter.accepted_new) (numbered y.transport.sendCounter (waiting .b))
  rw [hfresh] at haccepted hinbound'
  have hactor' : w'.link.actor .a = (w.link.actor .a).handleActions [] (Actor.arriving
      (x.after (Actor.firstPayloads (waiting .a)).length) (addr .b)
        (numbered y.transport.sendCounter (waiting .b))) := by
    rw [hback, Link.turn_self, hkeep]
    rfl
  rw [← hactor'] at hup' hsame hinbound'
  rw [← hkeep'] at hup hinbound
  refine ⟨_, Connected.of_sides (s := .a) hup' hup ?_ ⟨?_, ?_, _, haccepted, hlast⟩ ?_ ?_, ?_, ?_⟩
  · exact ⟨hfeeds.index, hfeeds.keys, hfeeds.window⟩
  · exact h.matched.peerIndex_right
  · exact h.matched.recv_eq.symm
  · have hself : (w.carry key addr .a).carried .a = (w.link.actor .a).datagrams.length :=
      carried_self .a
    rw [hsame]
    exact hself
  · exact (carried_self .b).trans (congrArg (·.datagrams.length) hkeep').symm
  · intro s
    cases s
    · have hcount := Session.toNat_after (x := x) (n := (Actor.firstPayloads (waiting .a)).length)
        (by rw [h.unused.1]; show 0 + _ < _; omega)
      rw [h.unused.1] at hcount
      refine le_of_eq_of_le hcount ?_
      show 0 + _ ≤ _
      omega
    · have hcount := Session.toNat_after (x := y) (n := (waiting .b).length)
        (by rw [h.unused.2]; show 0 + _ < _; omega)
      rw [h.unused.2] at hcount
      refine le_of_eq_of_le hcount ?_
      show 0 + _ ≤ _
      omega
  · intro s
    cases s
    · rw [hinbound', h.inbound, delivery_numbered]
      rfl
    · exact hinbound

/-- Two messages later, there is a session, and what waited has arrived. -/
theorem exists_session (hC : C.Correct) (key : Side → C.Secret)
    (presharedKey : Side → Option PresharedKey) (persistentKeepalive : Side → Option Duration)
    (env : Side → Env C) (addr : Side → SocketAddr) (t : Side → Instant)
    (hfair : ∀ s, (env s).Fair (t s))
    (hpsk : effectivePsk (presharedKey .a) = effectivePsk (presharedKey .b))
    (hes : C.wasContributory (C.diffieHellman (env .a).values.head.ephemeralSecret
      (C.publicKey (key .b))) = true)
    (hss : C.wasContributory (C.diffieHellman (key .a) (C.publicKey (key .b))) = true)
    (hee : C.wasContributory (C.diffieHellman (env .a).values.head.ephemeralSecret
      (C.publicKey (env .b).values.head.ephemeralSecret)) = true)
    (waiting : Side → List Bytes) (hroom : ∀ s, (waiting s).length ≤ maxStagedPackets) :
    let w := (start key presharedKey persistentKeepalive env).opening key addr waiting
    ∃ session, Connected t addr session w ∧
      (∀ s, (session s).transport.sendCounter.toNat ≤ maxStagedPackets + 1) ∧
      ∀ s, (w.link.actor s).inbound = (waiting s.other).filter (· ≠ []) := by
  intro w
  obtain ⟨x, y, hconfirming⟩ :=
    exists_confirming hC persistentKeepalive addr hfair hpsk hes hss hee hroom
  exact hconfirming.opens hC.opened_sealed hroom

/-- Payloads that wait on either side. -/
def symbolicWaiting : Side → List Bytes
  | .a => [[1], [2]]
  | .b => [[3]]

end Network

end Tunstile
