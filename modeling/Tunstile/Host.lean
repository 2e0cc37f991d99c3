/-
Tunstile/Host.lean

The program (`tunstile/src/lib.rs`, `bin/tunstile.rs`): a device over the
tunnel, and the loop that moves packets between the two.

`Device.lean` has the device over the abstract routing system; here it stands
over the whole tunnel, with its actors, its read loop and its queues.  A call
of the device has the device to itself until it returns, while the tasks of
the tunnel go on.  So a call is one step, made when it can go through, and a
step of a task may come between any two calls.  `recv_packet` is one step for
each packet that it takes from the tunnel.

The host refines the device (`refines_device`), so that what is known of the
device's tables holds in the program.

Proof-only: the packets that were queued, each with the channel and the form
in which it was sent, and the packets that were written to the interface,
each with the packet of the tunnel it came in.
-/
import Tunstile.TunnelRoutes

namespace Tunstile

variable {C : Crypto}

/-- A packet of the interface that was queued for the actor of `channel`. -/
structure Queued where
  channel : Channel
  packet : Bytes
  payload : Bytes

structure Host (C : Crypto) where
  tunnel : Tunnel C
  maxPacketSize : ℕ
  peers : PublicKey → Option PeerHandle
  allowedIps : AllowedIps PeerSender
  /-- The error with which the packet loop ended. -/
  ended : Option SendError
  queued : List Queued
  written : List (Packet × Bytes)

/-- `Peer::drop`: `RoutingTable::remove_peer` for the handle's key, and the
purge. -/
def PeerHandle.leave (handle : PeerHandle) (t : Tunnel C) : Tunnel C :=
  match t.table.entry handle.sender.publicKey with
  | none => t
  | some actions => (t.removePeer handle.sender.publicKey).sendPurge actions

namespace Host

/-- The device's own tables, over a routing system. -/
def device (h : Host C) (n : Net C) : Device C := ⟨n, h.maxPacketSize, h.peers, h.allowedIps⟩

/-- `Device::start` -/
def start (ourKey : C.Secret) (guard : LoadGuard C) (now : Instant) (maxPacketSize : ℕ) :
    Host C where
  tunnel := .start ourKey guard now
  maxPacketSize := min maxPacketSize Device.maxPlaintextSize
  peers := fun _ => none
  allowedIps := .new
  ended := none
  queued := []
  written := []

def addPeer (h : Host C) (publicKey : PublicKey) (config : Device.PeerConfig) (env : Env C) :
    Except DeviceError Unit × Host C :=
  if (h.peers publicKey).isSome then (.error .alreadyRegistered, h)
  else
    let (tunnelConfig, peerAllowedIps) := config.takeTunnel
    match h.tunnel.addPeer publicKey tunnelConfig env with
    | (.error .alreadyRegistered, _) => (.error .alreadyRegistered, h)
    | (.ok peer, tunnel) =>
        (.ok (),
          { h with
            tunnel := tunnel
            allowedIps := h.allowedIps.insertAll peerAllowedIps peer.sender
            peers := Function.update h.peers publicKey (some peer) })

/-- Drops the prefixes of a peer. -/
def withoutPrefixes (h : Host C) (publicKey : PublicKey) : AllowedIps PeerSender :=
  h.allowedIps.retain fun owner => owner.publicKey != publicKey

/-- `Device::set_peer`; `none` while the queue of the peer's actor is full and
the call waits. -/
def setPeer (h : Host C) (publicKey : PublicKey) (update : Device.PeerUpdate) :
    Option (Except DeviceError Unit) × Host C :=
  match h.peers publicKey with
  | none => (some (.error (.unknownPeer publicKey)), h)
  | some peer =>
      let (tunnelUpdate, allowedIps) := update.takeTunnel
      match h.tunnel.table.entry publicKey with
      | none => (some (.error (.send .peerRemoved)), h)
      | some c =>
          match h.tunnel.push c (.update tunnelUpdate) with
          | .error .full => (none, h)
          | .error _ => (some (.error (.send .peerRemoved)), h)
          | .ok tunnel =>
              (some (.ok ()),
                { h with
                  tunnel := tunnel
                  allowedIps := match allowedIps with
                    | .keep => h.allowedIps
                    | .clear => h.withoutPrefixes publicKey
                    | .set nets => (h.withoutPrefixes publicKey).insertAll nets peer.sender })

def removePeer (h : Host C) (publicKey : PublicKey) : Bool × Host C :=
  match h.peers publicKey with
  | none => (false, h)
  | some peer =>
      (true,
        { h with
          tunnel := peer.leave h.tunnel
          peers := Function.update h.peers publicKey none
          allowedIps := h.withoutPrefixes publicKey })

/-- `Device::connect_peer`; `none` while it waits. -/
def connectPeer (h : Host C) (publicKey : PublicKey) (endpoint : SocketAddr) :
    Option (Except DeviceError Unit) × Host C :=
  match h.peers publicKey with
  | none => (some (.error (.unknownPeer publicKey)), h)
  | some peer =>
      match h.tunnel.entry peer.sender with
      | .error error => (some (.error (.send error)), h)
      | .ok c =>
          match h.tunnel.push c (.connect endpoint) with
          | .error .full => (none, h)
          | .error _ => (some (.error (.send .peerRemoved)), h)
          | .ok tunnel => (some (.ok ()), { h with tunnel := tunnel })

/-- `Device::send_packet`; `none` while it waits. -/
def sendPacket (h : Host C) (packet : Bytes) : Option (Except SendError Unit) × Host C :=
  match (h.device (.start C)).sendPacket packet with
  | none => (some (.ok ()), h)
  | some (sender, payload) =>
      match h.tunnel.trySend sender payload with
      | (.error .full, _) => (none, h)
      | (.error error, _) => (some (.error error), h)
      | (.ok (), tunnel) =>
          (some (.ok ()),
            { h with tunnel := tunnel, queued := h.queued ++ [⟨sender.entry, packet, payload⟩] })

/-- `Device::try_send_packet` -/
def trySendPacket (h : Host C) (packet : Bytes) : Except SendError Unit × Host C :=
  match (h.device (.start C)).sendPacket packet with
  | none => (.ok (), h)
  | some (sender, payload) =>
      match h.tunnel.trySend sender payload with
      | (.error .full, _) => (.ok (), h)
      | (.error error, _) => (.error error, h)
      | (.ok (), tunnel) =>
          (.ok (),
            { h with tunnel := tunnel, queued := h.queued ++ [⟨sender.entry, packet, payload⟩] })

/-- One round of the loop of `Device::recv_packet`. -/
def recvPacket (h : Host C) : Option Bytes × Host C :=
  match h.tunnel.recv with
  | (none, _) => (none, h)
  | (some packet, tunnel) =>
      match (h.device (.start C)).accept packet with
      | none => (none, { h with tunnel := tunnel })
      | some payload =>
          (some payload,
            { h with tunnel := tunnel, written := h.written ++ [(packet, payload)] })

/-- `run_packets`, when the interface has a packet: an error ends the loop. -/
def packet (h : Host C) (packet : Bytes) : Host C :=
  match h.ended with
  | some _ => h
  | none =>
      match h.trySendPacket packet with
      | (.ok (), h) => h
      | (.error error, h) => { h with ended := some error }

/-- `run_packets`, when the tunnel has a packet. -/
def recv (h : Host C) : Host C :=
  match h.ended with
  | some _ => h
  | none => h.recvPacket.2

end Host

/-- A step of one of the tunnel's tasks, or of a call that waits. -/
def Tunnel.Action.isTask : Tunnel.Action C → Bool
  | .complete _ | .cancel _ | .arrive _ | .lookup | .route | .handle _ _ | .fire _ _ | .report _
  | .pass _ | .stop _ | .panic _ => true
  | _ => false

namespace Host

inductive Action (C : Crypto) where
  | addPeer (publicKey : PublicKey) (config : Device.PeerConfig) (env : Env C)
  | setPeer (publicKey : PublicKey) (update : Device.PeerUpdate)
  | connectPeer (publicKey : PublicKey) (endpoint : SocketAddr)
  | removePeer (publicKey : PublicKey)
  | sendPacket (packet : Bytes)
  | packet (packet : Bytes)
  | recv
  | task (action : Tunnel.Action C) (isTask : action.isTask = true)

def step (X : CookieSeal C) (h : Host C) : Action C → Host C
  | .addPeer publicKey config env => (h.addPeer publicKey config env).2
  | .setPeer publicKey update => (h.setPeer publicKey update).2
  | .connectPeer publicKey endpoint => (h.connectPeer publicKey endpoint).2
  | .removePeer publicKey => (h.removePeer publicKey).2
  | .sendPacket packet => (h.sendPacket packet).2
  | .packet packet => h.packet packet
  | .recv => h.recv
  | .task action _ => { h with tunnel := h.tunnel.step X action }

def run (X : CookieSeal C) (h : Host C) (actions : List (Action C)) : Host C :=
  actions.foldl (step X) h

end Host

/-! ### Tasks -/

namespace Tunnel

/-- The registry is as it was, and so is whether the tunnel is closed. -/
structure SameRegistry (t t' : Tunnel C) : Prop where
  table : t'.table = t.table
  closed : t'.closed = t.closed

theorem SameRegistry.trySend (t : Tunnel C) (sender : PeerSender) (payload : Bytes) :
    SameRegistry t (t.trySend sender payload).2 := by
  unfold Tunnel.trySend
  split
  · exact ⟨rfl, rfl⟩
  · split
    · exact ⟨rfl, rfl⟩
    · rename_i t' hpush
      obtain ⟨task, -, -, -, rfl⟩ := push_ok hpush
      exact ⟨rfl, rfl⟩

theorem SameRegistry.recv (t : Tunnel C) : SameRegistry t t.recv.2 := by
  unfold Tunnel.recv
  split <;> exact ⟨rfl, rfl⟩

/-- What a task leaves alone: also what the owner sent and received, unless a
call to send a payload was waiting. -/
structure Aside (t t' : Tunnel C) : Prop extends SameRegistry t t' where
  received : t'.received = t.received
  waiting : t'.waiting.Sublist t.waiting
  sent : (∀ x ∈ t.waiting, x.2.payload? = none) → t'.sent = t.sent

namespace Aside

theorem of_eq {t t' : Tunnel C} (htable : t'.table = t.table) (hclosed : t'.closed = t.closed)
    (hreceived : t'.received = t.received) (hwaiting : t'.waiting = t.waiting)
    (hsent : t'.sent = t.sent) : Aside t t' :=
  ⟨⟨htable, hclosed⟩, hreceived, hwaiting ▸ List.Sublist.refl _, fun _ => hsent⟩

theorem push {t t' : Tunnel C} {c : Channel} {action : PeerAction C}
    (h : t.push c action = .ok t') : Aside t t' := by
  obtain ⟨task, -, -, -, rfl⟩ := push_ok h
  exact of_eq rfl rfl rfl rfl rfl

theorem offer (t : Tunnel C) (c : Channel) (action : PeerAction C) :
    Aside t (t.offer c action) := by
  unfold Tunnel.offer
  split
  · rename_i t' hpush
    exact push hpush
  · exact of_eq rfl rfl rfl rfl rfl

theorem trySendToIndex (t : Tunnel C) (index : UInt32) (action : PeerAction C) :
    Aside t (t.trySendToIndex index action) := by
  unfold Tunnel.trySendToIndex
  split
  · exact of_eq rfl rfl rfl rfl rfl
  · exact offer t _ action

theorem hand (t : Tunnel C) (handed : Handed C) : Aside t (t.hand handed) := by
  cases handed with
  | handshakeInit addr handshake =>
      show Aside t (t.recvHandshakeInit addr handshake)
      unfold Tunnel.recvHandshakeInit
      split
      · exact of_eq rfl rfl rfl rfl rfl
      · exact offer t _ _
  | handshakeResp addr receiver packet => exact trySendToIndex t _ _
  | data addr receiver packet => exact trySendToIndex t _ _
  | cookieReply receiver packet => exact trySendToIndex t _ _
  | _ => exact of_eq rfl rfl rfl rfl rfl

theorem cancel (t : Tunnel C) (n : ℕ) : Aside t (t.cancel n) :=
  ⟨⟨rfl, rfl⟩, rfl, t.waiting.eraseIdx_sublist n, fun _ => rfl⟩

theorem complete (t : Tunnel C) (n : ℕ) : Aside t (t.complete n) := by
  unfold Tunnel.complete
  split
  · exact of_eq rfl rfl rfl rfl rfl
  · rename_i c request hn
    split
    · rename_i t' hpush
      obtain ⟨task, -, -, -, rfl⟩ := push_ok hpush
      refine ⟨⟨rfl, rfl⟩, rfl, t.waiting.eraseIdx_sublist n, fun hnone => ?_⟩
      -- the call was not to send a payload
      have hpayload : request.payload? = none := hnone _ (List.mem_of_getElem? hn)
      show t.sent ++ request.payload?.toList.map (c, ·) = t.sent
      rw [hpayload]
      exact List.append_nil _
    · exact of_eq rfl rfl rfl rfl rfl
    · exact cancel t n

/-- No task registers or removes a peer, closes the tunnel, or sends or
receives for the owner. -/
theorem step (X : CookieSeal C) (t : Tunnel C) {action : Action C}
    (h : action.isTask = true) : Aside t (t.step X action) := by
  cases action with
  | complete n => exact complete t n
  | cancel n => exact cancel t n
  | arrive a =>
      show Aside t (t.arrive X a)
      unfold Tunnel.arrive
      split
      · exact of_eq rfl rfl rfl rfl rfl
      · have haside := hand { t with loop := (t.loop.handle t.ourKey X a).2 }
          (t.loop.handle t.ourKey X a).1
        exact ⟨⟨haside.table, haside.closed⟩, haside.received, haside.waiting, haside.sent⟩
  | lookup =>
      show Aside t t.lookup
      unfold Tunnel.lookup
      split <;> exact of_eq rfl rfl rfl rfl rfl
  | route =>
      show Aside t t.route
      unfold Tunnel.route
      split <;> exact of_eq rfl rfl rfl rfl rfl
  | handle c n =>
      show Aside t (t.handle c n)
      unfold Tunnel.handle
      split
      · exact of_eq rfl rfl rfl rfl rfl
      · split <;> exact of_eq rfl rfl rfl rfl rfl
  | fire c timer =>
      show Aside t (t.fire c timer)
      unfold Tunnel.fire
      split
      · exact of_eq rfl rfl rfl rfl rfl
      · split <;> exact of_eq rfl rfl rfl rfl rfl
  | report c =>
      show Aside t (t.report c)
      unfold Tunnel.report
      split
      · exact of_eq rfl rfl rfl rfl rfl
      · split <;> exact of_eq rfl rfl rfl rfl rfl
  | pass c =>
      show Aside t (t.pass c)
      unfold Tunnel.pass
      split
      · exact of_eq rfl rfl rfl rfl rfl
      · split
        · exact of_eq rfl rfl rfl rfl rfl
        · dsimp only
          split <;> exact of_eq rfl rfl rfl rfl rfl
  | stop c =>
      show Aside t (t.stop c)
      unfold Tunnel.stop
      split
      · exact of_eq rfl rfl rfl rfl rfl
      · split <;> exact of_eq rfl rfl rfl rfl rfl
  | panic c =>
      show Aside t (t.panic c)
      unfold Tunnel.panic
      split
      · exact of_eq rfl rfl rfl rfl rfl
      · split <;> exact of_eq rfl rfl rfl rfl rfl
  | _ => cases h

end Aside

end Tunnel

/-! ### The host refines the device -/

namespace Device

/-- Tasks of the routing system, as steps of the device. -/
theorem run_tasks (d : Device C) {actions : List (Net.Action C)}
    (h : ∀ action ∈ actions, action.keepsPeers = true) :
    d.run (actions.pmap Action.task h) = { d with net := d.net.run actions } := by
  induction actions generalizing d with
  | nil => rfl
  | cons action rest ih => exact ih { d with net := d.net.step action } _

end Device

namespace Host

/-- The device has the host's tables, over a routing system that stands where
the host's tunnel stands. -/
structure Refines (h : Host C) (d : Device C) : Prop where
  sim : Tunnel.Simulates d.net h.tunnel
  maxPacketSize : d.maxPacketSize = h.maxPacketSize
  peers : d.peers = h.peers
  allowedIps : d.allowedIps = h.allowedIps

theorem refines_start (ourKey : C.Secret) (guard : LoadGuard C) (now : Instant)
    (maxPacketSize : ℕ) :
    (start ourKey guard now maxPacketSize).Refines (Device.start C maxPacketSize) :=
  ⟨Tunnel.simulates_start ourKey guard now, rfl, rfl, rfl⟩

namespace Refines

variable {h h' : Host C} {d : Device C}

/-- What changes the tunnel, but not its registry, changes nothing in the
device's tables. -/
theorem tasks (hr : h.Refines d) (hchange : Tunnel.Change h.tunnel h'.tunnel)
    (hsame : Tunnel.SameRegistry h.tunnel h'.tunnel) (hmax : h'.maxPacketSize = h.maxPacketSize)
    (hpeers : h'.peers = h.peers) (hallowed : h'.allowedIps = h.allowedIps) :
    ∃ actions, h'.Refines (d.run actions) := by
  obtain ⟨actions, hkeeps, hsim⟩ :=
    hr.sim.keeps hchange (hsame.closed.trans hr.sim.isOpen) hsame.table
  refine ⟨actions.pmap Device.Action.task hkeeps, ?_⟩
  rw [Device.run_tasks]
  exact ⟨hsim, hr.maxPacketSize.trans hmax.symm, hr.peers.trans hpeers.symm,
    hr.allowedIps.trans hallowed.symm⟩

theorem addPeer (hr : h.Refines d) (publicKey : PublicKey) (config : Device.PeerConfig)
    (env : Env C) : ((h.addPeer publicKey config env).2).Refines (d.addPeer publicKey config).2 := by
  unfold Host.addPeer Device.addPeer
  rw [hr.peers]
  split
  · exact hr
  · simp only [Tunnel.addPeer, Net.addTunnelPeer, RoutingTable.registerPeer, hr.sim.table]
    cases hentry : h.tunnel.table.peers publicKey with
    | some c => exact hr
    | none =>
        have hadded := hr.sim.added publicKey config.takeTunnel.1 env (h.tunnel.waiting ++
          config.takeTunnel.1.endpoint.toList.map fun endpoint =>
            (h.tunnel.spawned, .connect endpoint)) hentry
        refine ⟨hadded, hr.maxPacketSize, ?_, ?_⟩
        · show Function.update h.peers publicKey (some ⟨⟨publicKey, d.net.spawned⟩⟩) = _
          rw [hr.sim.spawned]
          rfl
        · show d.allowedIps.insertAll _ ⟨publicKey, d.net.spawned⟩ = _
          rw [hr.allowedIps, hr.sim.spawned]
          rfl

/-- Dropping a handle. -/
theorem leave {n : Net C} {t : Tunnel C} (hsim : Tunnel.Simulates n t) (handle : PeerHandle) :
    Tunnel.Simulates (handle.drop n) (handle.leave t) := by
  unfold PeerHandle.drop PeerHandle.leave
  rw [hsim.table]
  cases hentry : t.table.entry handle.sender.publicKey with
  | none => exact hsim
  | some actions =>
      have hremoved := hsim.removed handle.sender.publicKey hentry
      have heq : t.removePeer handle.sender.publicKey = { t with
          table := ⟨Function.update t.table.peers handle.sender.publicKey none⟩
          leaving := actions :: t.leaving } := by
        have hpeers : t.table.peers handle.sender.publicKey = some actions := hentry
        simp only [Tunnel.removePeer, RoutingTable.removePeer, hpeers]
      rw [← heq] at hremoved
      have hmem : actions ∈ (t.removePeer handle.sender.publicKey).leaving := by
        rw [heq]
        exact List.mem_cons_self
      have hpurged := hremoved.purged hmem
      have hsent : (t.removePeer handle.sender.publicKey).sendPurge actions = _ := if_pos hmem
      show Tunnel.Simulates ((n.step (.removePeer _)).step (.sendPurge actions))
        ((t.removePeer handle.sender.publicKey).sendPurge actions)
      rw [hsent]
      exact hpurged

theorem removePeer (hr : h.Refines d) (publicKey : PublicKey) :
    ((h.removePeer publicKey).2).Refines (d.removePeer publicKey).2 := by
  unfold Host.removePeer Device.removePeer
  rw [hr.peers]
  cases hpeer : h.peers publicKey with
  | none => exact hr
  | some peer =>
      refine ⟨leave hr.sim peer, hr.maxPacketSize, rfl, ?_⟩
      show d.withoutPrefixes publicKey = h.withoutPrefixes publicKey
      rw [Device.withoutPrefixes, hr.allowedIps]
      rfl

/-- An update that the actor's queue has room for. -/
theorem setPeer (hr : h.Refines d) (publicKey : PublicKey) (update : Device.PeerUpdate) :
    ∃ actions, ((h.setPeer publicKey update).2).Refines (d.run actions) := by
  unfold Host.setPeer
  cases hpeer : h.peers publicKey with
  | none => exact ⟨[], hr⟩
  | some peer =>
      dsimp only
      cases hentry : h.tunnel.table.entry publicKey with
      | none => exact ⟨[], hr⟩
      | some c =>
          dsimp only
          cases hpush : h.tunnel.push c (.update update.takeTunnel.1) with
          | error e => cases e <;> exact ⟨[], hr⟩
          | ok t =>
              -- the tunnel takes the update, and the device changes the prefixes
              have hpushed : Tunnel.Change h.tunnel t := by
                obtain ⟨task, htask, -, -, rfl⟩ := Tunnel.push_ok hpush
                exact .task htask (.accepts _ (Or.inl ⟨publicKey, hentry⟩))
                  ⟨rfl, rfl, rfl, rfl, rfl, rfl, rfl, rfl, rfl⟩ rfl fun _ => id
              have hsame := (Tunnel.Aside.push hpush).toSameRegistry
              have htasks : ∃ actions, { h with tunnel := t }.Refines (d.run actions) :=
                hr.tasks hpushed hsame rfl rfl rfl
              obtain ⟨actions, hr'⟩ := htasks
              have hentry' : (d.run actions).net.table.entry publicKey = some c := by
                rw [hr'.sim.table]
                exact (congrArg (·.entry publicKey) hsame.table).trans hentry
              have hpeer' : (d.run actions).peers publicKey = some peer := by
                rw [hr'.peers]
                exact hpeer
              refine ⟨actions ++ [.setPeer publicKey update true], ?_⟩
              have hrun : d.run (actions ++ [.setPeer publicKey update true])
                  = ((d.run actions).setPeer publicKey update true).2 := List.foldl_append ..
              have hwithout : (d.run actions).withoutPrefixes publicKey
                  = h.withoutPrefixes publicKey := by
                rw [Device.withoutPrefixes, hr'.allowedIps]
                rfl
              rw [hrun]
              simp only [Device.setPeer, Net.setTunnelPeer, hpeer', hentry', if_true]
              cases hupdate : update.takeTunnel.2 with
              | keep => exact ⟨hr'.sim, hr'.maxPacketSize, hr'.peers, hr'.allowedIps⟩
              | clear => exact ⟨hr'.sim, hr'.maxPacketSize, hr'.peers, hwithout⟩
              | set nets =>
                  exact ⟨hr'.sim, hr'.maxPacketSize, hr'.peers,
                    congrArg (·.insertAll nets peer.sender) hwithout⟩

theorem connectPeer (hr : h.Refines d) (publicKey : PublicKey) (endpoint : SocketAddr) :
    ∃ actions, ((h.connectPeer publicKey endpoint).2).Refines (d.run actions) := by
  unfold Host.connectPeer
  split
  · exact ⟨[], hr⟩
  · split
    · exact ⟨[], hr⟩
    · rename_i c hentry
      split
      · exact ⟨[], hr⟩
      · exact ⟨[], hr⟩
      · rename_i t hpush
        have hpushed : Tunnel.Change h.tunnel t := by
          obtain ⟨task, htask, -, -, rfl⟩ := Tunnel.push_ok hpush
          exact .task htask (.accepts _ ((Tunnel.Change.of_entry hentry).imp_right Or.inl))
            ⟨rfl, rfl, rfl, rfl, rfl, rfl, rfl, rfl, rfl⟩ rfl fun _ => id
        exact hr.tasks hpushed (Tunnel.Aside.push hpush).toSameRegistry rfl rfl rfl

end Refines

/-! ### Calls -/

/-- What `set_peer` does: nothing, or the actor's queue takes the update, and
the prefixes change. -/
theorem setPeer_cases (h : Host C) (publicKey : PublicKey) (update : Device.PeerUpdate) :
    (h.setPeer publicKey update).2 = h ∨
      ∃ c t allowedIps, h.tunnel.push c (.update update.takeTunnel.1) = .ok t ∧
        (h.setPeer publicKey update).2 = { h with tunnel := t, allowedIps := allowedIps } := by
  unfold setPeer
  split
  · exact Or.inl rfl
  · dsimp only
    split
    · exact Or.inl rfl
    · rename_i c _
      split
      · exact Or.inl rfl
      · exact Or.inl rfl
      · rename_i t hpush
        exact Or.inr ⟨c, t, _, hpush, rfl⟩

/-- What `connect_peer` does. -/
theorem connectPeer_cases (h : Host C) (publicKey : PublicKey) (endpoint : SocketAddr) :
    (h.connectPeer publicKey endpoint).2 = h ∨
      ∃ c t, h.tunnel.push c (.connect endpoint) = .ok t ∧
        (h.connectPeer publicKey endpoint).2 = { h with tunnel := t } := by
  unfold connectPeer
  split
  · exact Or.inl rfl
  · split
    · exact Or.inl rfl
    · rename_i c _
      split
      · exact Or.inl rfl
      · exact Or.inl rfl
      · rename_i t hpush
        exact Or.inr ⟨c, t, hpush, rfl⟩

/-- What `send_packet` does: nothing, or what the tunnel does with the packet
as it is sent. -/
theorem sendPacket_cases (h : Host C) (packet : Bytes) :
    (h.sendPacket packet).2 = h ∨
      ∃ sender payload, (h.device (.start C)).sendPacket packet = some (sender, payload) ∧
        (h.tunnel.trySend sender payload).1 = .ok () ∧
        (h.sendPacket packet).2 = { h with
          tunnel := (h.tunnel.trySend sender payload).2
          queued := h.queued ++ [⟨sender.entry, packet, payload⟩] } := by
  unfold sendPacket
  cases hsend : (h.device (.start C)).sendPacket packet with
  | none => exact Or.inl rfl
  | some x =>
      obtain ⟨sender, payload⟩ := x
      dsimp only
      rcases htry : h.tunnel.trySend sender payload with ⟨error | ⟨⟨⟩⟩, t⟩
      · cases error <;> exact Or.inl rfl
      · exact Or.inr ⟨sender, payload, rfl, by rw [htry], by rw [htry]⟩

/-- `try_send_packet` and `send_packet` differ in what they return. -/
theorem trySendPacket_eq (h : Host C) (packet : Bytes) :
    h.trySendPacket packet = (((h.sendPacket packet).1).getD (.ok ()), (h.sendPacket packet).2) := by
  unfold trySendPacket sendPacket
  cases (h.device (.start C)).sendPacket packet with
  | none => rfl
  | some x =>
      dsimp only
      rcases h.tunnel.trySend x.1 x.2 with ⟨error | ⟨⟨⟩⟩, t⟩
      · cases error <;> rfl
      · rfl

/-- What the packet loop does with a packet of the interface. -/
theorem packet_cases (h : Host C) (packet : Bytes) :
    (∃ ended, h.packet packet = { h with ended := ended }) ∨
      ∃ sender payload, (h.device (.start C)).sendPacket packet = some (sender, payload) ∧
        (h.tunnel.trySend sender payload).1 = .ok () ∧
        ∃ ended, h.packet packet = { h with
          tunnel := (h.tunnel.trySend sender payload).2
          queued := h.queued ++ [⟨sender.entry, packet, payload⟩]
          ended := ended } := by
  unfold Host.packet
  cases hended : h.ended with
  | some e => exact Or.inl ⟨h.ended, rfl⟩
  | none =>
      have hcases := h.sendPacket_cases packet
      rw [trySendPacket_eq]
      rcases hresult : ((h.sendPacket packet).1).getD (.ok ()) with error | ⟨⟨⟩⟩ <;>
        rcases hcases with heq | ⟨sender, payload, hsend, hok, heq⟩
      · exact Or.inl ⟨some error, by rw [heq]⟩
      · exact Or.inr ⟨sender, payload, hsend, hok, some error, by rw [heq]⟩
      · exact Or.inl ⟨h.ended, heq⟩
      · exact Or.inr ⟨sender, payload, hsend, hok, h.ended, heq⟩

/-- What the packet loop does with the next packet of the tunnel. -/
theorem recv_cases (h : Host C) :
    h.recv = h ∨ h.recv = { h with tunnel := h.tunnel.recv.2 } ∨
      ∃ packet payload, h.tunnel.recv.1 = some packet ∧
        (h.device (.start C)).accept packet = some payload ∧
        h.recv = { h with
          tunnel := h.tunnel.recv.2
          written := h.written ++ [(packet, payload)] } := by
  unfold recv
  split
  · exact Or.inl rfl
  · unfold recvPacket
    rcases hrecv : h.tunnel.recv with ⟨_ | packet, t⟩
    · exact Or.inl rfl
    · dsimp only
      cases haccept : (h.device (.start C)).accept packet with
      | none => exact Or.inr (Or.inl rfl)
      | some payload => exact Or.inr (Or.inr ⟨packet, payload, rfl, haccept, rfl⟩)

/-! ### Runs -/

/-- **Every step of the host is some steps of the device.** -/
theorem Refines.step {h : Host C} {d : Device C} (hr : h.Refines d) (X : CookieSeal C)
    (action : Action C) : ∃ actions, (h.step X action).Refines (d.run actions) := by
  cases action with
  | addPeer publicKey config env =>
      exact ⟨[.addPeer publicKey config], hr.addPeer publicKey config env⟩
  | setPeer publicKey update => exact hr.setPeer publicKey update
  | connectPeer publicKey endpoint => exact hr.connectPeer publicKey endpoint
  | removePeer publicKey => exact ⟨[.removePeer publicKey], hr.removePeer publicKey⟩
  | sendPacket packet =>
      show ∃ actions, ((h.sendPacket packet).2).Refines (d.run actions)
      rcases h.sendPacket_cases packet with heq | ⟨sender, payload, -, -, heq⟩
      · rw [heq]
        exact ⟨[], hr⟩
      · rw [heq]
        exact hr.tasks (.trySend h.tunnel sender payload) (.trySend h.tunnel sender payload) rfl rfl
          rfl
  | packet packet =>
      show ∃ actions, (h.packet packet).Refines (d.run actions)
      rcases h.packet_cases packet with ⟨ended, heq⟩ | ⟨sender, payload, -, -, ended, heq⟩
      · rw [heq]
        exact ⟨[], hr.sim, hr.maxPacketSize, hr.peers, hr.allowedIps⟩
      · rw [heq]
        exact hr.tasks (.trySend h.tunnel sender payload) (.trySend h.tunnel sender payload) rfl rfl
          rfl
  | recv =>
      show ∃ actions, h.recv.Refines (d.run actions)
      rcases h.recv_cases with heq | heq | ⟨packet, payload, -, -, heq⟩
      · rw [heq]
        exact ⟨[], hr⟩
      · rw [heq]
        exact hr.tasks (.recv h.tunnel) (.recv h.tunnel) rfl rfl rfl
      · rw [heq]
        exact hr.tasks (.recv h.tunnel) (.recv h.tunnel) rfl rfl rfl
  | task action htask =>
      exact hr.tasks (.step X h.tunnel action) (Tunnel.Aside.step X h.tunnel htask).toSameRegistry
        rfl rfl rfl

theorem Refines.run {h : Host C} {d : Device C} (hr : h.Refines d) (X : CookieSeal C)
    (actions : List (Action C)) : ∃ calls, (h.run X actions).Refines (d.run calls) := by
  induction actions generalizing h d with
  | nil => exact ⟨[], hr⟩
  | cons action rest ih =>
      obtain ⟨first, hfirst⟩ := hr.step X action
      obtain ⟨later, hlater⟩ := ih hfirst
      refine ⟨first ++ later, ?_⟩
      have happend : d.run (first ++ later) = (d.run first).run later := List.foldl_append ..
      rw [happend]
      exact hlater

/-- **The program is the device over the routing system.**  Whatever the
owner calls, the network sends and the tasks do, in whatever order, the host
is where some run of `Device` and its routing system is: the same peers, the
same AllowedIPs, the same registry, and routes that lag behind no further. -/
theorem refines_device (X : CookieSeal C) (ourKey : C.Secret) (guard : LoadGuard C)
    (now : Instant) (maxPacketSize : ℕ) (actions : List (Action C)) :
    ∃ calls, ((start ourKey guard now maxPacketSize).run X actions).Refines
      ((Device.start C maxPacketSize).run calls) :=
  (refines_start ourKey guard now maxPacketSize).run X actions

end Host

end Tunstile
