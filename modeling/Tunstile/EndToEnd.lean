/-
Tunstile/EndToEnd.lean

From one host's interface to the other's.

Two tunnels run side by side, each with any number of peers, and each has
registered the other's public key.  Every step of either is a step of one of
its tasks, and the network between them is as in `World.lean`.  The turns of
the two actors that face each other are a run of a `Link` (`link_run`); what
arrives at them is what the read loops let through.  Hence what one tunnel
delivers on its channel is, packet by packet, what the other was given to send
on its own (`deliveredBy_subperm`).

On top, a host pads and routes what it reads from its interface, and cuts and
filters what it writes to it.  None of it gets in the way: what one host
writes to its interface was read from the other's (`written_was_queued`).
-/
import Tunstile.HostRuns
import Tunstile.Meeting

namespace Tunstile

variable {C : Crypto}

/-- The tunnel on each side. -/
structure Tunnels (C : Crypto) where
  tunnel : Side → Tunnel C

namespace Tunnels

def start (key : Side → C.Secret) (guard : Side → LoadGuard C) (now : Side → Instant) :
    Tunnels C where
  tunnel s := .start (key s) (guard s) (now s)

/-- One side takes a step. -/
def step (X : CookieSeal C) (p : Tunnels C) (s : Side) (action : Tunnel.Action C) : Tunnels C :=
  ⟨Function.update p.tunnel s ((p.tunnel s).step X action)⟩

def run (X : CookieSeal C) (p : Tunnels C) (actions : List (Side × Tunnel.Action C)) :
    Tunnels C :=
  actions.foldl (fun p x => p.step X x.1 x.2) p

variable {X : CookieSeal C}

theorem step_self (p : Tunnels C) (s : Side) (action : Tunnel.Action C) :
    (p.step X s action).tunnel s = (p.tunnel s).step X action := Function.update_self ..

theorem step_of_ne (p : Tunnels C) {s t : Side} (h : t ≠ s) (action : Tunnel.Action C) :
    (p.step X s action).tunnel t = p.tunnel t := Function.update_of_ne h ..

/-- The turns of the actors on the given channels, in the order in which they
are taken. -/
def turns (X : CookieSeal C) (channel : Side → Channel) :
    Tunnels C → List (Side × Tunnel.Action C) → List (Side × Actor.Event C)
  | _, [] => []
  | p, (s, action) :: rest =>
      (((p.tunnel s).turnOf action).toList.filterMap fun x =>
        if x.1 = channel s then some (s, x.2) else none) ++ turns X channel (p.step X s action) rest

/-- The tunnels of a run are sound. -/
theorem sound_run {key : Side → C.Secret} {p : Tunnels C} (h : ∀ s, (p.tunnel s).Sound (key s))
    (actions : List (Side × Tunnel.Action C)) (s : Side) :
    ((p.run X actions).tunnel s).Sound (key s) := by
  induction actions generalizing p with
  | nil => exact h s
  | cons x actions ih =>
      refine ih fun t => ?_
      by_cases ht : t = x.1
      · subst ht
        rw [step_self]
        exact (h _).step x.2
      · rw [step_of_ne p ht]
        exact h t

/-- Each actor has taken the turns of its side. -/
theorem eventsOf_turns {key : Side → C.Secret} {p : Tunnels C}
    (h : ∀ s, (p.tunnel s).Sound (key s)) (channel : Side → Channel)
    (actions : List (Side × Tunnel.Action C)) (s : Side) :
    ((p.run X actions).tunnel s).eventsOn (channel s)
      = (p.tunnel s).eventsOn (channel s) ++ Link.eventsOf s (turns X channel p actions) := by
  induction actions generalizing p with
  | nil => exact (List.append_nil _).symm
  | cons x actions ih =>
      obtain ⟨t, action⟩ := x
      have hnext : ∀ s, ((p.step X t action).tunnel s).Sound (key s) := sound_run h [(t, action)]
      have hturns : Link.eventsOf s (turns X channel p ((t, action) :: actions))
          = (((p.tunnel t).turnOf action).toList.filterMap fun x =>
              if x.1 = channel t ∧ t = s then some x.2 else none)
            ++ Link.eventsOf s (turns X channel (p.step X t action) actions) := by
        rw [turns, Link.eventsOf, List.filterMap_append, List.filterMap_filterMap]
        congr 2
        funext x
        by_cases hx : x.1 = channel t
        · rw [if_pos hx]
          by_cases hs : t = s
          · rw [if_pos ⟨hx, hs⟩]
            exact if_pos hs
          · rw [if_neg fun h => hs h.2]
            exact if_neg hs
        · rw [if_neg hx, if_neg fun h => hx h.1]
          rfl
      show (((p.step X t action).run X actions).tunnel s).eventsOn (channel s) = _
      rw [ih hnext, hturns, ← List.append_assoc]
      congr 1
      by_cases hts : t = s
      · subst hts
        rw [step_self, Tunnel.eventsOn_step (h t)]
        simp only [and_true]
      · rw [step_of_ne p (Ne.symm hts)]
        simp only [hts, and_false, if_false]
        rw [List.filterMap_none, List.append_nil]

/-! ### What one tunnel delivers -/

theorem payloadsOf_received (events : List (Actor.Event C)) :
    Actor.payloadsOf (Actor.received events) = Actor.arrivals events := by
  unfold Actor.payloadsOf Actor.received Actor.arrivals
  rw [List.filterMap_flatMap]
  congr 1
  funext event
  cases event <;> rfl

section

variable {key : Side → C.Secret} {guard : Side → LoadGuard C} {now : Side → Instant}
  {actions : List (Side × Tunnel.Action C)} {channel : Side → Channel} {task : Side → Task C}

/-- The actors that face each other: side `s` has one on `channel s`, spawned
for the key of the other side. -/
structure Facing (key : Side → C.Secret) (p : Tunnels C) (channel : Side → Channel)
    (task : Side → Task C) : Prop where
  tasks_eq : ∀ s, (p.tunnel s).tasks (channel s) = some (task s)
  publicKey : ∀ s, (task s).publicKey = C.publicKey (key s.other)
  clock : ∀ s, Actor.Monotonic (task s).env.clock

/-- The link of the two actors, as they were spawned. -/
def link (key : Side → C.Secret) (task : Side → Task C) : Link C :=
  .start key (fun s => (task s).config.presharedKey) (fun s => (task s).config.persistentKeepalive)
    fun s => { (task s).env with inboundTakes := Stream'.const true }

/-- What two tunnels have in common with the link of two of their actors. -/
theorem link_run (h : Facing key ((start key guard now).run X actions) channel task) (s : Side) :
    let p := (start key guard now).run X actions
    let events := turns X channel (start key guard now) actions
    (task s).actor = ((link key task).run events).actor s ∧
      (Actor.received (Link.eventsOf s events) ++ ((task s).queue ++ (task s).lost.getD [])
        = (task s).accepted) ∧
      Actor.payloadsOf (task s).accepted = (p.tunnel s).sentTo (channel s) ∧
      ((p.tunnel s).deliveredBy (channel s)).Sublist (task s).actor.inbound ∧
      ∀ action ∈ (task s).accepted, Tunnel.Legit (key s) (C.publicKey (key s.other)) action := by
  intro p events
  have hstart : ∀ s, ((start key guard now).tunnel s).Sound (key s) :=
    fun s => Tunnel.sound_start (key s) (guard s) (now s)
  have hsound : (p.tunnel s).Sound (key s) := sound_run hstart actions s
  have htask := hsound.task _ _ (h.tasks_eq s)
  rw [hsound.ourKey_eq] at htask
  have hevents : (task s).events = Link.eventsOf s events := by
    have hon : (p.tunnel s).eventsOn (channel s) = (task s).events := by
      rw [Tunnel.eventsOn, h.tasks_eq s]
      rfl
    rw [← hon]
    exact eventsOf_turns hstart channel actions s
  refine ⟨?_, ?_, hsound.sent _ _ (h.tasks_eq s), ?_, ?_⟩
  · rw [htask.actor, Link.run_apply, hevents, h.publicKey s]
    rfl
  · rw [← hevents]
    exact htask.accepted
  · exact (hsound.delivered _ _ (h.tasks_eq s)).trans (List.take_sublist _ _)
  · rw [← h.publicKey s]
    exact htask.legit

/-- `wire` gives, for each initiation that can be received, a packet in which
it can have come: the read loop keeps the initiation only. -/
def Inverts (key : Side → C.Secret) (wire : Side → InitReceived C → Bytes) : Prop :=
  ∀ s packet handshake, InitReceived.receive (key s) packet = .ok handshake →
    InitReceived.receive (key s) (wire s handshake) = .ok handshake

/-- Such packets can be chosen, and for one initiation also the packet. -/
theorem exists_inverts {s : Side} {packet : Bytes} {handshake : InitReceived C}
    (h : InitReceived.receive (key s) packet = .ok handshake) :
    ∃ wire, Inverts key wire ∧ wire s handshake = packet := by
  classical
  choose! wire hwire using fun (s : Side) (handshake : InitReceived C)
    (h : ∃ packet, InitReceived.receive (key s) packet = .ok handshake) => h
  refine ⟨fun s' handshake' => if s' = s ∧ handshake' = handshake then packet
    else wire s' handshake', fun s' packet' handshake' h' => ?_, if_pos ⟨rfl, rfl⟩⟩
  dsimp only
  split
  · rename_i heq
    obtain ⟨rfl, rfl⟩ := heq
    exact h
  · exact hwire s' handshake' ⟨packet', h'⟩

/-- What is delivered on one side was sent on the other, counting
repetitions. -/
theorem deliveredBy_subperm (hC : C.CollisionFree)
    (hkey : C.publicKey (key .a) ≠ C.publicKey (key .b))
    (h : Facing key ((start key guard now).run X actions) channel task)
    {wire : Side → InitReceived C → Bytes} (hwire : Inverts key wire) {log : List (Side × Deed C)}
    (hlog : Link.Deeds (link key task) (turns X channel (start key guard now) actions) log)
    (hideal : (World.start key).IdealRun key
      (Link.setUp (fun s => (task s).config.presharedKey) ++ Link.calls wire log)) (s : Side) :
    let p := (start key guard now).run X actions
    ((p.tunnel s).deliveredBy (channel s)).Subperm
      ((p.tunnel s.other).sentTo (channel s.other)) := by
  intro p
  have hall : Link.AllReceived key wire (turns X channel (start key guard now) actions) := by
    intro s handshake endpoint hmem
    obtain ⟨-, haccepted, -, -, hlegit⟩ := link_run h s
    have hmem' : .recvHandshakeInit handshake endpoint ∈ (task s).accepted := by
      rw [← haccepted]
      exact List.mem_append_left _ hmem
    obtain ⟨⟨packet, hpacket⟩, hpublic⟩ := hlegit _ hmem'
    exact ⟨hwire s packet handshake hpacket, hpublic⟩
  have hinbound := Link.inbound_subperm hC hkey hall hlog hideal s
  have hsent : (((link key task).run (turns X channel (start key guard now) actions)).actor
      s.other).encryptedPayloads.Sublist (Actor.arrivals (Link.eventsOf s.other
        (turns X channel (start key guard now) actions))) := by
    refine Link.encryptedPayloads_sublist ?_ s.other
    exact h.clock
  obtain ⟨hactor, -, -, hdelivered, -⟩ := link_run h s
  obtain ⟨-, haccepted, hpayloads, -, -⟩ := link_run h s.other
  have harrivals : (Actor.arrivals (Link.eventsOf s.other
      (turns X channel (start key guard now) actions))).Sublist
        ((p.tunnel s.other).sentTo (channel s.other)) := by
    rw [← hpayloads, ← haccepted, ← payloadsOf_received]
    exact (List.sublist_append_left _ _).filterMap _
  rw [hactor] at hdelivered
  exact hdelivered.subperm.trans (hinbound.trans (hsent.trans harrivals).subperm)

end

end Tunnels

/-! ### What an owner receives from a peer -/

/-- Received packets come from the one channel that the peer has had. -/
theorem Tunnel.Sound.payloadsFrom_received {ourKey : C.Secret} {t : Tunnel C}
    (h : t.Sound ourKey) {publicKey : PublicKey} {c : Channel}
    (honly : ∀ c' task, t.tasks c' = some task → task.publicKey = publicKey → c' = c) :
    (payloadsFrom publicKey t.received).Sublist (t.deliveredBy c) := by
  have hreceived : t.received.Sublist (t.delivered.filterMap t.packetOf) :=
    (List.sublist_append_left _ _).trans h.received
  refine ((hreceived.filter (·.publicKey = publicKey)).map Packet.payload).trans ?_
  rw [List.filter_filterMap, List.map_filterMap]
  refine filterMap_sublist_of_le (fun x payload hx => ?_) t.delivered
  obtain ⟨packet, hpacket, rfl⟩ := Option.map_eq_some_iff.mp hx
  obtain ⟨hof, hkey⟩ := Option.filter_eq_some_iff.mp hpacket
  obtain ⟨task, htask, rfl⟩ := Option.map_eq_some_iff.mp hof
  exact if_pos (honly x.1 task htask (of_decide_eq_true hkey))

/-! ### Two hosts -/

/-- The program on each side. -/
structure Hosts (C : Crypto) where
  host : Side → Host C

namespace Hosts

def start (key : Side → C.Secret) (guard : Side → LoadGuard C) (now : Side → Instant)
    (maxPacketSize : Side → ℕ) : Hosts C where
  host s := .start (key s) (guard s) (now s) (maxPacketSize s)

/-- One side takes a step. -/
def step (X : CookieSeal C) (p : Hosts C) (s : Side) (action : Host.Action C) : Hosts C :=
  ⟨Function.update p.host s ((p.host s).step X action)⟩

def run (X : CookieSeal C) (p : Hosts C) (actions : List (Side × Host.Action C)) : Hosts C :=
  actions.foldl (fun p x => p.step X x.1 x.2) p

def tunnels (p : Hosts C) : Tunnels C := ⟨fun s => (p.host s).tunnel⟩

/-- What a run does in the tunnels. -/
def tunnelActions (X : CookieSeal C) :
    Hosts C → List (Side × Host.Action C) → List (Side × Tunnel.Action C)
  | _, [] => []
  | p, (s, action) :: rest =>
      ((p.host s).tunnelActions action).map (s, ·) ++ tunnelActions X (p.step X s action) rest

variable {X : CookieSeal C}

/-- What holds of a host when it starts, and is kept by its steps, holds of
both hosts. -/
theorem invariant_run {I : Host C → Prop} (hstep : ∀ h action, I h → I (h.step X action))
    {p : Hosts C} (h : ∀ s, I (p.host s)) (actions : List (Side × Host.Action C)) (s : Side) :
    I ((p.run X actions).host s) := by
  induction actions generalizing p with
  | nil => exact h s
  | cons x rest ih =>
      refine ih fun t => ?_
      show I (Function.update p.host x.1 ((p.host x.1).step X x.2) t)
      by_cases ht : t = x.1
      · subst ht
        rw [Function.update_self]
        exact hstep _ _ (h x.1)
      · rw [Function.update_of_ne ht]
        exact h t

/-- The steps of one tunnel. -/
theorem tunnels_run (p : Tunnels C) (s : Side) (actions : List (Tunnel.Action C)) :
    p.run X (actions.map (s, ·)) = ⟨Function.update p.tunnel s ((p.tunnel s).run X actions)⟩ := by
  induction actions generalizing p with
  | nil => exact congrArg Tunnels.mk (Function.update_eq_self s p.tunnel).symm
  | cons action rest ih =>
      show (p.step X s action).run X (rest.map (s, ·)) = _
      rw [ih, Tunnels.step_self]
      exact congrArg Tunnels.mk (Function.update_idem ..)

theorem tunnels_step {p : Hosts C} {s : Side} (h : (p.host s).Steady) (action : Host.Action C) :
    (p.step X s action).tunnels
      = p.tunnels.run X (((p.host s).tunnelActions action).map (s, ·)) := by
  rw [tunnels_run]
  refine congrArg Tunnels.mk (funext fun t => ?_)
  show (Function.update p.host s ((p.host s).step X action) t).tunnel = _
  by_cases ht : t = s
  · subst ht
    rw [Function.update_self, Function.update_self]
    exact Host.tunnel_step h.isOpen X action
  · rw [Function.update_of_ne ht, Function.update_of_ne ht]
    rfl

/-- The tunnels of two hosts run as two tunnels do. -/
theorem tunnels_run_eq {p : Hosts C} (h : ∀ s, (p.host s).Steady)
    (actions : List (Side × Host.Action C)) :
    (p.run X actions).tunnels = p.tunnels.run X (tunnelActions X p actions) := by
  induction actions generalizing p with
  | nil => rfl
  | cons x rest ih =>
      obtain ⟨s, action⟩ := x
      have hnext : ∀ t, ((p.step X s action).host t).Steady :=
        invariant_run (fun _ action hs => hs.step X action) h [(s, action)]
      refine (ih hnext).trans ?_
      rw [tunnels_step (h s) action]
      exact List.foldl_append.symm

end Hosts

/-- **What one host writes to its interface went into the other's.**  Two
hosts with different keys, each with any number of peers, have registered each
other once.  Both may be reconfigured at any time, and the network may do
anything it likes, but the cryptography is ideal in what the two actors do.
The packets from the other that one of them writes to its interface are among
the packets that the other read from its own interface and queued, each no
more often than it was queued, cut to the length that its header declares. -/
theorem written_was_queued (hC : C.CollisionFree) (X : CookieSeal C) (key : Side → C.Secret)
    (hkey : C.publicKey (key .a) ≠ C.publicKey (key .b)) (guard : Side → LoadGuard C)
    (now : Side → Instant) (maxPacketSize : Side → ℕ) (actions : List (Side × Host.Action C))
    (channel : Side → Channel) (task : Side → Task C)
    (hfacing : Tunnels.Facing key
      ((Hosts.start key guard now maxPacketSize).run X actions).tunnels channel task)
    (wire : Side → InitReceived C → Bytes) (hwire : Tunnels.Inverts key wire)
    (log : List (Side × Deed C))
    (hlog : Link.Deeds (Tunnels.link key task)
      (Tunnels.turns X channel (Tunnels.start key guard now)
        (Hosts.tunnelActions X (Hosts.start key guard now maxPacketSize) actions)) log)
    (hideal : (World.start key).IdealRun key
      (Link.setUp (fun s => (task s).config.presharedKey) ++ Link.calls wire log))
    (s : Side)
    (honly : ∀ c task',
      (((Hosts.start key guard now maxPacketSize).run X actions).host s).tunnel.tasks c
        = some task' → task'.publicKey = C.publicKey (key s.other) → c = channel s) :
    let p := (Hosts.start key guard now maxPacketSize).run X actions
    ((p.host s).writtenFrom (C.publicKey (key s.other))).Subperm
      (((p.host s.other).queuedOn (channel s.other)).filterMap Device.declared) := by
  intro p
  have hsteady : ∀ s, ((Hosts.start key guard now maxPacketSize).host s).Steady :=
    fun s => Host.steady_start (key s) (guard s) (now s) (maxPacketSize s)
  have hbooks : ∀ s, (p.host s).Books :=
    Hosts.invariant_run (fun _ action hb => hb.step X action)
      (fun s => Host.books_start (key s) (guard s) (now s) (maxPacketSize s)) actions
  have htunnels : p.tunnels = (Tunnels.start key guard now).run X
      (Hosts.tunnelActions X (Hosts.start key guard now maxPacketSize) actions) :=
    Hosts.tunnels_run_eq hsteady actions
  have hsound : (p.tunnels.tunnel s).Sound (key s) := by
    rw [htunnels]
    exact Tunnels.sound_run (fun s => Tunnel.sound_start (key s) (guard s) (now s)) _ s
  -- what the tunnels deliver was sent through them
  have hdelivered : (p.tunnels.tunnel s).deliveredBy (channel s) |>.Subperm
      ((p.tunnels.tunnel s.other).sentTo (channel s.other)) := by
    have hfacing' := hfacing
    change Tunnels.Facing key p.tunnels channel task at hfacing'
    rw [htunnels] at hfacing' ⊢
    exact Tunnels.deliveredBy_subperm hC hkey hfacing' hwire hlog hideal s
  have hfrom : (payloadsFrom (C.publicKey (key s.other)) ((p.host s).written.map Prod.fst)).Subperm
      ((p.host s.other).tunnel.sentTo (channel s.other)) := by
    refine List.Subperm.trans ?_ hdelivered
    exact ((((hbooks s).received.filter _).map _).trans
      (hsound.payloadsFrom_received honly)).subperm
  rw [(hbooks s).writtenFrom_declared, (hbooks s.other).queuedOn_declared]
  exact subperm_filterMap hfrom Device.declared

/-- An IPv4 header without a payload. -/
def bareHeader : Bytes := [0x45, 0, 0, 20, 0, 0, 0, 0, 64, 17, 0, 0, 10, 0, 0, 1, 10, 0, 0, 2]

/-- The packet as it is sent. -/
def paddedHeader : Bytes := bareHeader ++ List.replicate 12 0

/-- The messages of two hosts of `symbolic` that meet.  A key is one byte
repeated, and tags and macs are zero. -/
def meetingInit : Bytes :=
  [1, 0, 0, 0, 7, 0, 0, 0] ++ List.replicate 32 3 ++ List.replicate 32 1 ++ List.replicate 76 0

def meetingResp : Bytes :=
  [2, 0, 0, 0, 8, 0, 0, 0, 7, 0, 0, 0] ++ List.replicate 32 4 ++ List.replicate 48 0

def meetingData : Bytes :=
  [4, 0, 0, 0, 8, 0, 0, 0, 0, 0, 0, 0, 0, 0, 0, 0] ++ paddedHeader ++ List.replicate 16 0

/-- A segment that arrives from the other side. -/
def meetingArrival (s : Side) (segment : Bytes) : Side × Host.Action Crypto.symbolic :=
  (s, .task (.arrive ⟨segment, World.symbolicAddr s.other, default, List.Vector.replicate 32 0,
    List.Vector.replicate 24 0⟩) rfl)

/-- An actor takes what is queued. -/
def meetingTurn (s : Side) : Side × Host.Action Crypto.symbolic := (s, .task (.handle 0 1) rfl)

/-- The index that an actor reports is routed to it. -/
def meetingRoute (s : Side) : List (Side × Host.Action Crypto.symbolic) :=
  [(s, .task (.report 0) rfl), (s, .task .lookup rfl), (s, .task .route rfl)]

/-- Two hosts add each other.  One of them connects and reads a packet for the
other from its interface, and the network carries their messages. -/
def meetingHosts : List (Side × Host.Action Crypto.symbolic) :=
  [(.a, .addPeer (Crypto.symbolic.publicKey (World.symbolicKey .b))
      ⟨some (World.symbolicAddr .b), none, none, [.v4 ⟨0x0a000002#32, Fin.last 32⟩]⟩
      (Link.symbolicEnv .a)),
    (.b, .addPeer (Crypto.symbolic.publicKey (World.symbolicKey .a))
      ⟨none, none, none, [.v4 ⟨0x0a000001#32, Fin.last 32⟩]⟩ (Link.symbolicEnv .b)),
    (.a, .task (.complete 0) rfl), meetingTurn .a] ++ meetingRoute .a ++
  [(.a, .packet bareHeader), meetingTurn .a, meetingArrival .b meetingInit, meetingTurn .b] ++
    meetingRoute .b ++
  [meetingArrival .a meetingResp, meetingTurn .a, meetingArrival .b meetingData, meetingTurn .b,
    (.b, .task (.pass 0) rfl), (.b, .recv)]

/-- The guard of each side. -/
def meetingGuard (s : Side) : LoadGuard Crypto.symbolic :=
  .new _ (Crypto.symbolic.publicKey (World.symbolicKey s)) (List.Vector.replicate 32 42)

def unmetHosts : Hosts Crypto.symbolic :=
  .start World.symbolicKey meetingGuard (fun _ => default) fun _ => 1420

def metHosts : Hosts Crypto.symbolic := unmetHosts.run Tunnel.symbolicSeal meetingHosts

/-- The task that faces the other side. -/
def meetingTask (s : Side) : Task Crypto.symbolic :=
  ((metHosts.host s).tunnel.tasks 0).get (by cases s <;> decide +kernel)

set_option maxRecDepth 100000 in
theorem env_meetingTask (s : Side) : (meetingTask s).env = Link.symbolicEnv s := by
  cases s <;> with_unfolding_all rfl

theorem facing_met :
    Tunnels.Facing World.symbolicKey metHosts.tunnels (fun _ => 0) meetingTask where
  tasks_eq s := (Option.some_get _).symm
  publicKey s := by cases s <;> decide +kernel
  clock s := by
    rw [env_meetingTask]
    cases s <;> exact fun _ => le_rfl

theorem presharedKey_meetingTask :
    (fun s => (meetingTask s).config.presharedKey) = fun _ => none := by
  funext s
  cases s <;> decide +kernel

/-- The actors of the two hosts were spawned as two drivers are. -/
theorem link_met : Tunnels.link World.symbolicKey meetingTask
    = Link.start World.symbolicKey (fun _ => none) (fun _ => none) Link.symbolicEnv := by
  have hkeepalive : (fun s => (meetingTask s).config.persistentKeepalive) = fun _ => none := by
    funext s
    cases s <;> decide +kernel
  have henv : (fun s => { (meetingTask s).env with inboundTakes := Stream'.const true })
      = Link.symbolicEnv := by
    funext s
    rw [env_meetingTask]
    cases s <;> rfl
  rw [Tunnels.link, presharedKey_meetingTask, hkeepalive, henv]

set_option maxRecDepth 100000 in
/-- The turns of their actors, for the initiation that side `b` receives. -/
theorem turns_met :
    some (Tunnels.turns Tunnel.symbolicSeal (fun _ => 0)
      (Tunnels.start World.symbolicKey meetingGuard fun _ => default)
      (Hosts.tunnelActions Tunnel.symbolicSeal unmetHosts meetingHosts))
    = (InitReceived.receive (World.symbolicKey .b) meetingInit).toOption.map fun recv =>
        Link.asking World.symbolicAddr paddedHeader recv ++
          Link.delivering World.symbolicAddr meetingResp meetingData 8 := by
  with_unfolding_all rfl

/-- The hosts exchange the messages that two drivers exchange. -/
theorem events_met (h : Link.Asked World.symbolicKey (fun _ => none) (fun _ => none)
    Link.symbolicEnv World.symbolicAddr (fun _ => default) paddedHeader) :
    Tunnels.turns Tunnel.symbolicSeal (fun _ => 0)
      (Tunnels.start World.symbolicKey meetingGuard fun _ => default)
      (Hosts.tunnelActions Tunnel.symbolicSeal unmetHosts meetingHosts) = h.events := by
  obtain ⟨hactor, hactor'⟩ := Link.actor_asking World.symbolicKey (fun _ => none)
    (fun _ => none) Link.symbolicEnv World.symbolicAddr paddedHeader h.recv
  have hmsg : [h.msg] = [meetingInit] := by
    have hmap := congrArg (List.map Datagrams.bytes) h.asks.datagrams
    rw [hactor] at hmap
    refine hmap.symm.trans ?_
    decide +kernel
  have hreceived := h.received
  rw [List.singleton_inj.mp hmsg] at hreceived
  have hresp : [h.resp] = [meetingResp] := by
    have hmap := congrArg (List.map Datagrams.bytes) h.answers.datagrams
    rw [hactor'] at hmap
    have hsent : ((InitReceived.receive (World.symbolicKey .b) meetingInit).toOption.map fun recv =>
        ((Actor.spawn (World.symbolicKey .b) (Crypto.symbolic.publicKey (World.symbolicKey .a)) none
          none (Link.symbolicEnv .b)).handleMessage (.recvHandshakeInit recv
            (World.symbolicAddr .a))).datagrams.map Datagrams.bytes) = some [meetingResp] := by
      decide +kernel
    rw [hreceived] at hsent
    exact hmap.symm.trans (Option.some.inj hsent)
  have hindex : h.session.ourIndex = 8 := by
    rw [Session.ourIndex, h.transport_eq]
    rfl
  have hdata : h.data = meetingData := by
    rw [Link.Asked.data, hindex]
    rfl
  have hturns := turns_met
  rw [hreceived] at hturns
  rw [Link.Asked.events, hdata, hindex, List.singleton_inj.mp hresp]
  exact Option.some.inj hturns

theorem written_was_queued_meeting :
    (metHosts.host .b).writtenFrom (Crypto.symbolic.publicKey (World.symbolicKey .a))
      = [bareHeader] ∧
    ((metHosts.host .b).writtenFrom (Crypto.symbolic.publicKey (World.symbolicKey .a))).Subperm
      (((metHosts.host .a).queuedOn 0).filterMap Device.declared) := by
  refine ⟨by decide +kernel, ?_⟩
  obtain ⟨h⟩ := Link.exists_asked (fun _ => none) (fun _ => none) World.symbolicAddr paddedHeader
    Crypto.symbolic_correct Link.symbolicEnv_fair rfl rfl (by decide)
  obtain ⟨-, log, hdeeds, hideal⟩ := h.delivered Crypto.symbolic_correct rfl rfl
  obtain ⟨wire, hwire, hrecv⟩ := Tunnels.exists_inverts h.received
  have hsteady : (metHosts.host .b).Steady :=
    Hosts.invariant_run (I := Host.Steady) (fun _ action hs => hs.step Tunnel.symbolicSeal action)
      (fun s => Host.steady_start (World.symbolicKey s) (meetingGuard s) default 1420)
      meetingHosts .b
  have hspawned : (metHosts.host .b).tunnel.spawned = 1 := by decide +kernel
  refine written_was_queued Crypto.symbolic_collisionFree Tunnel.symbolicSeal World.symbolicKey
    (by decide) meetingGuard (fun _ => default) (fun _ => 1420) meetingHosts
    (fun _ => 0) meetingTask facing_met wire hwire log ?_ ?_ .b fun c task' htask _ => ?_
  · rw [link_met]
    exact events_met h ▸ hdeeds
  · rw [presharedKey_meetingTask]
    exact hideal wire hrecv
  · by_contra hc
    have hnone := hsteady.manned.fresh c (hspawned ▸ Nat.one_le_iff_ne_zero.mpr hc)
    rw [metHosts, unmetHosts] at hnone
    rw [hnone] at htask
    cases htask

end Tunstile
