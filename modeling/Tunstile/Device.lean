/-
Tunstile/Device.lean

The packet device (`tunstile/src/lib.rs`): peers, the prefixes routed to
them, and the tunnel below.

Three maps name the same peers: the device's own handles, the owners in the
AllowedIPs table, and the tunnel's registry.  `add_peer`, `set_peer` and
`remove_peer` change them one after the other and may return early;
`Consistent` is what holds between any two calls, with the tunnel's tasks
running in between.

A key that is removed and added again is another registration.  A
`PeerSender` therefore names its channel too, which tells a sender of the
current registration from one left over.

A call has the device to itself until it returns, so it is one step.  Left
out: calls that are cancelled half-way, `DeviceError::Io`, which no call
modelled here returns, and what `PeerSender::send` does with a packet that
was routed to it.
-/
import Tunstile.AllowedIps
import Tunstile.Actor
import Tunstile.Routing

namespace Tunstile

variable {C : Crypto}

/-! ### Peers of the tunnel -/

inductive SendError where
  | tunnelClosed
  | peerRemoved
  | full
  deriving DecidableEq

inductive RegisterError where
  | alreadyRegistered
  deriving DecidableEq

/-- `PeerConfig` of the tunnel. -/
structure PeerConfig where
  endpoint : Option SocketAddr
  presharedKey : Option PresharedKey
  persistentKeepalive : Option Duration

/-- A decrypted payload and the peer that sent it. -/
structure Packet where
  publicKey : PublicKey
  payload : Bytes

/-- A cloneable handle for sending to a peer.  `entry` is a weak reference
to what the registry held when the peer was added. -/
structure PeerSender where
  publicKey : PublicKey
  entry : Channel
  deriving DecidableEq

/-- The owning handle, `Peer` in `tunnel/src/peer.rs`.  It is the
registration: dropping it removes the peer from the tunnel. -/
structure PeerHandle where
  sender : PeerSender

/-- `Peer::drop`: `RoutingTable::remove_peer` for the handle's key. -/
def PeerHandle.drop (handle : PeerHandle) (n : Net C) : Net C :=
  match n.table.entry handle.sender.publicKey with
  | none => n
  | some actions => (n.removePeer handle.sender.publicKey).sendPurge actions

namespace Net

/-- `Tunnel::add_peer`.  The actor's settings are of no concern here, nor is
the `Connect` action that a configured endpoint gives it. -/
def addTunnelPeer (n : Net C) (publicKey : PublicKey) (config : PeerConfig) :
    Except RegisterError (PeerHandle × Net C) :=
  match n.table.registerPeer publicKey n.spawned with
  | none => .error .alreadyRegistered
  | some _ => .ok (⟨⟨publicKey, n.spawned⟩⟩, n.addPeer publicKey config.presharedKey)

/-- `RoutingTable::set_peer`.  The update is one more action for the actor;
`received` is false if the actor takes no more of them. -/
def setTunnelPeer (n : Net C) (publicKey : PublicKey) (received : Bool) : Except SendError Unit :=
  match n.table.entry publicKey with
  | none => .error .peerRemoved
  | some _ => if received then .ok () else .error .peerRemoved

/-- An action that neither registers nor removes a peer. -/
def Action.keepsPeers : Action C → Bool
  | .addPeer _ _ => false
  | .removePeer _ => false
  | _ => true

end Net

/-! ### The device -/

inductive DeviceError where
  | alreadyRegistered
  | unknownPeer (publicKey : PublicKey)
  | send (error : SendError)
  deriving DecidableEq

structure Device (C : Crypto) where
  net : Net C
  maxPacketSize : ℕ
  peers : PublicKey → Option PeerHandle
  allowedIps : AllowedIps PeerSender

namespace Device

/-- `PeerConfig` of the device. -/
structure PeerConfig where
  endpoint : Option SocketAddr
  presharedKey : Option PresharedKey
  persistentKeepalive : Option Duration
  allowedIps : List IpNet

def PeerConfig.takeTunnel (config : PeerConfig) : Tunstile.PeerConfig × List IpNet :=
  (⟨config.endpoint, config.presharedKey, config.persistentKeepalive⟩, config.allowedIps)

/-- `PeerUpdate` of the device. -/
structure PeerUpdate where
  endpoint : Option SocketAddr
  presharedKey : Update PresharedKey
  persistentKeepalive : Update Duration
  allowedIps : Update (List IpNet)

def PeerUpdate.takeTunnel (update : PeerUpdate) : Tunstile.PeerUpdate × Update (List IpNet) :=
  (⟨update.endpoint, update.presharedKey, update.persistentKeepalive⟩, update.allowedIps)

/-- `MAX_IPV4_UDP_PAYLOAD_SIZE`. -/
def maxIpv4UdpPayloadSize : ℕ := 65507

/-- `MAX_PLAINTEXT_SIZE`. -/
def maxPlaintextSize : ℕ :=
  (maxIpv4UdpPayloadSize - transportOverhead) / transportPaddingMultiple * transportPaddingMultiple

def start (C : Crypto) (maxPacketSize : ℕ) : Device C where
  net := .start C
  maxPacketSize := min maxPacketSize maxPlaintextSize
  peers := fun _ => none
  allowedIps := .new

def addPeer (d : Device C) (publicKey : PublicKey) (config : PeerConfig) :
    Except DeviceError Unit × Device C :=
  if (d.peers publicKey).isSome then (.error .alreadyRegistered, d)
  else
    let (tunnelConfig, peerAllowedIps) := config.takeTunnel
    match d.net.addTunnelPeer publicKey tunnelConfig with
    | .error .alreadyRegistered => (.error .alreadyRegistered, d)
    | .ok (peer, net) =>
        (.ok (),
          { d with
            net := net
            allowedIps := d.allowedIps.insertAll peerAllowedIps peer.sender
            peers := Function.update d.peers publicKey (some peer) })

/-- Drops the prefixes of a peer. -/
def withoutPrefixes (d : Device C) (publicKey : PublicKey) : AllowedIps PeerSender :=
  d.allowedIps.retain fun owner => owner.publicKey != publicKey

def setPeer (d : Device C) (publicKey : PublicKey) (update : PeerUpdate) (received : Bool) :
    Except DeviceError Unit × Device C :=
  match d.peers publicKey with
  | none => (.error (.unknownPeer publicKey), d)
  | some peer =>
      let (_, allowedIps) := update.takeTunnel
      match d.net.setTunnelPeer publicKey received with
      | .error error => (.error (.send error), d)
      | .ok () =>
          match allowedIps with
          | .keep => (.ok (), d)
          | .clear => (.ok (), { d with allowedIps := d.withoutPrefixes publicKey })
          | .set nets =>
              (.ok (),
                { d with allowedIps := (d.withoutPrefixes publicKey).insertAll nets peer.sender })

def removePeer (d : Device C) (publicKey : PublicKey) : Bool × Device C :=
  match d.peers publicKey with
  | none => (false, d)
  | some peer =>
      (true,
        { d with
          net := peer.drop d.net
          peers := Function.update d.peers publicKey none
          allowedIps := d.withoutPrefixes publicKey })

/-! ### Packets -/

/-- The destination of a packet, and the packet padded for the tunnel. -/
def prepareOutboundPacket (d : Device C) (packet : Bytes) : Option (IpAddr × Bytes) :=
  match packetInfo packet with
  | none => none
  | some info =>
      match padPacket (packet.take info.len) d.maxPacketSize with
      | none => none
      | some padded => some (info.destination, padded)

def peerForDestination (d : Device C) (destination : IpAddr) : Option PeerSender :=
  d.allowedIps.longestMatch destination

/-- The sender that `send_packet` and `try_send_packet` hand the packet to,
and the packet as sent; `none` if it is dropped. -/
def sendPacket (d : Device C) (packet : Bytes) : Option (PeerSender × Bytes) :=
  match d.prepareOutboundPacket packet with
  | none => none
  | some (destination, padded) =>
      match d.peerForDestination destination with
      | none => none
      | some sender => some (sender, padded)

/-- The packet cut to its declared length, if its source address routes back
to the peer that delivered it. -/
def accept (d : Device C) (packet : Packet) : Option Bytes :=
  match packetInfo packet.payload with
  | none => none
  | some info =>
      if (d.allowedIps.longestMatch info.source).any
          fun sender => sender.publicKey == packet.publicKey then
        some (packet.payload.take info.len)
      else none

/-- The next valid packet of those the tunnel delivers, and the packets
behind it; `none` if it waits for more. -/
def recvPacket (d : Device C) : List Packet → Option (Bytes × List Packet)
  | [] => none
  | packet :: rest =>
      match d.accept packet with
      | none => d.recvPacket rest
      | some payload => some (payload, rest)

/-! ### Runs -/

/-- A call of the device's owner, or a step of one of the tunnel's tasks. -/
inductive Action (C : Crypto) where
  | addPeer (publicKey : PublicKey) (config : PeerConfig)
  | setPeer (publicKey : PublicKey) (update : PeerUpdate) (received : Bool)
  | removePeer (publicKey : PublicKey)
  | task (action : Net.Action C) (keepsPeers : action.keepsPeers = true)

def step (d : Device C) : Action C → Device C
  | .addPeer publicKey config => (d.addPeer publicKey config).2
  | .setPeer publicKey update received => (d.setPeer publicKey update received).2
  | .removePeer publicKey => (d.removePeer publicKey).2
  | .task action _ => { d with net := d.net.step action }

def run (d : Device C) (actions : List (Action C)) : Device C := actions.foldl step d

end Device

/-! ### The registry -/

namespace Net

theorem table_addPeer {n : Net C} {publicKey : PublicKey} (presharedKey : Option PresharedKey)
    (hfree : n.table.entry publicKey = none) :
    (n.addPeer publicKey presharedKey).table.entry
      = Function.update n.table.entry publicKey (some n.spawned) := by
  have hnone : n.table.peers publicKey = none := hfree
  simp only [addPeer, RoutingTable.registerPeer, hnone]
  rfl

theorem table_removePeer (n : Net C) (publicKey : PublicKey) :
    (n.removePeer publicKey).table.entry = Function.update n.table.entry publicKey none := by
  simp only [removePeer, RoutingTable.removePeer]
  cases hentry : n.table.peers publicKey with
  | none =>
      funext key
      by_cases hkey : key = publicKey
      · subst hkey
        rw [Function.update_self]
        exact hentry
      · rw [Function.update_of_ne hkey]
  | some actions => rfl

theorem table_sendPurge (n : Net C) (actions : Channel) :
    (n.sendPurge actions).table = n.table := by
  unfold sendPurge
  split <;> rfl

/-- Only adding and removing a peer change the registry. -/
theorem table_step_of_keepsPeers (n : Net C) {action : Action C}
    (h : action.keepsPeers = true) : (n.step action).table = n.table := by
  have hchange := n.step_change action
  generalize n.step action = n' at hchange
  cases hchange with
  | added => cases h
  | removed => cases h
  | _ => rfl

end Net

theorem PeerHandle.table_drop (handle : PeerHandle) (n : Net C) :
    (handle.drop n).table.entry
      = Function.update n.table.entry handle.sender.publicKey none := by
  unfold drop
  cases hentry : n.table.entry handle.sender.publicKey with
  | none =>
      have hself := Function.update_eq_self handle.sender.publicKey n.table.entry
      rw [hentry] at hself
      exact hself.symm
  | some actions => rw [Net.table_sendPurge, Net.table_removePeer]

namespace Device

/-! ### Consistency -/

/-- The three maps agree on which peers there are. -/
structure Consistent (d : Device C) : Prop where
  /-- A handle is the current registration of its key. -/
  registered : ∀ publicKey handle, d.peers publicKey = some handle →
    handle.sender.publicKey = publicKey ∧
      d.net.table.entry publicKey = some handle.sender.entry
  unregistered : ∀ publicKey, d.peers publicKey = none → d.net.table.entry publicKey = none
  /-- A prefix is owned by the sender of a handle. -/
  owned : ∀ net sender, d.allowedIps.owner net = some sender →
    ∃ handle, d.peers sender.publicKey = some handle ∧ handle.sender = sender

theorem consistent_start (maxPacketSize : ℕ) : (start C maxPacketSize).Consistent where
  registered := fun _ handle h => absurd h (Option.some_ne_none handle).symm
  unregistered := fun _ _ => rfl
  owned := fun _ sender h => absurd h (Option.some_ne_none sender).symm

theorem owner_withoutPrefixes {d : Device C} {publicKey : PublicKey} {net : IpNet}
    {sender : PeerSender} :
    (d.withoutPrefixes publicKey).owner net = some sender ↔
      d.allowedIps.owner net = some sender ∧ sender.publicKey ≠ publicKey := by
  unfold withoutPrefixes
  rw [AllowedIps.owner_retain, Option.filter_eq_some_iff, bne_iff_ne]

/-- What `add_peer` does. -/
theorem addPeer_cases (d : Device C) (publicKey : PublicKey) (config : PeerConfig) :
    d.addPeer publicKey config = (.error .alreadyRegistered, d) ∨
      d.peers publicKey = none ∧ d.net.table.entry publicKey = none ∧
        d.addPeer publicKey config = (.ok (),
          { d with
            net := d.net.addPeer publicKey config.presharedKey
            allowedIps := d.allowedIps.insertAll config.allowedIps ⟨publicKey, d.net.spawned⟩
            peers := Function.update d.peers publicKey (some ⟨⟨publicKey, d.net.spawned⟩⟩) }) := by
  unfold addPeer
  cases hpeer : d.peers publicKey with
  | some peer => exact Or.inl rfl
  | none =>
      simp only [Net.addTunnelPeer, RoutingTable.registerPeer]
      cases hentry : d.net.table.peers publicKey with
      | some actions => exact Or.inl rfl
      | none => exact Or.inr ⟨trivial, hentry, rfl⟩

/-- What `set_peer` does: it fails, or changes the prefixes alone. -/
theorem setPeer_cases (d : Device C) (publicKey : PublicKey) (update : PeerUpdate)
    (received : Bool) :
    (∃ error, d.setPeer publicKey update received = (.error error, d)) ∨
      ∃ peer, d.peers publicKey = some peer ∧
        d.setPeer publicKey update received = (.ok (), { d with
          allowedIps := match update.allowedIps with
            | .keep => d.allowedIps
            | .clear => d.withoutPrefixes publicKey
            | .set nets => (d.withoutPrefixes publicKey).insertAll nets peer.sender }) := by
  simp only [setPeer, PeerUpdate.takeTunnel]
  cases hpeer : d.peers publicKey with
  | none => exact Or.inl ⟨_, rfl⟩
  | some peer =>
      cases d.net.setTunnelPeer publicKey received with
      | error error => exact Or.inl ⟨_, rfl⟩
      | ok =>
          refine Or.inr ⟨peer, rfl, ?_⟩
          cases update.allowedIps <;> rfl

/-- New prefixes are owned by a handle if their new owner is one's sender. -/
theorem Consistent.owned_insertAll {d : Device C} {t : AllowedIps PeerSender} {nets : List IpNet}
    {sender : PeerSender}
    (ht : ∀ net owner, t.owner net = some owner →
      ∃ handle, d.peers owner.publicKey = some handle ∧ handle.sender = owner)
    (hsender : ∃ handle, d.peers sender.publicKey = some handle ∧ handle.sender = sender)
    (net : IpNet) (owner : PeerSender) (h : (t.insertAll nets sender).owner net = some owner) :
    ∃ handle, d.peers owner.publicKey = some handle ∧ handle.sender = owner := by
  rw [AllowedIps.owner_insertAll] at h
  split at h
  · cases h
    exact hsender
  · exact ht net owner h

theorem Consistent.addPeer {d : Device C} (h : d.Consistent) (publicKey : PublicKey)
    (config : PeerConfig) : (d.addPeer publicKey config).2.Consistent := by
  rcases d.addPeer_cases publicKey config with heq | ⟨hpeer, hentry, heq⟩
  · rw [heq]
    exact h
  rw [heq]
  refine ⟨fun key handle hhandle => ?_, fun key hkey => ?_, ?_⟩
  · rw [Net.table_addPeer _ hentry]
    rcases update_cases hhandle with ⟨rfl, ⟨⟩⟩ | ⟨hne, hhandle⟩
    · exact ⟨rfl, Function.update_self key _ _⟩
    · rw [Function.update_of_ne hne]
      exact h.registered key handle hhandle
  · rw [Net.table_addPeer _ hentry]
    have hne : key ≠ publicKey := by
      rintro rfl
      cases (Function.update_self key _ d.peers).symm.trans hkey
    rw [Function.update_of_ne hne]
    exact h.unregistered key ((Function.update_of_ne hne _ d.peers).symm.trans hkey)
  · -- the old owners keep their handles: the new key was not among theirs
    refine Consistent.owned_insertAll (fun net owner howner => ?_)
      ⟨_, Function.update_self publicKey _ d.peers, rfl⟩
    obtain ⟨handle, hhandle, hsender⟩ := h.owned net owner howner
    have hne : owner.publicKey ≠ publicKey := by
      intro heq
      rw [heq, hpeer] at hhandle
      cases hhandle
    exact ⟨handle, (Function.update_of_ne hne _ d.peers).trans hhandle, hsender⟩

theorem Consistent.setPeer {d : Device C} (h : d.Consistent) (publicKey : PublicKey)
    (update : PeerUpdate) (received : Bool) :
    (d.setPeer publicKey update received).2.Consistent := by
  rcases d.setPeer_cases publicKey update received with ⟨error, heq⟩ | ⟨peer, hpeer, heq⟩
  · rw [heq]
    exact h
  rw [heq]
  refine ⟨h.registered, h.unregistered, ?_⟩
  have hkept (net : IpNet) (owner : PeerSender)
      (howner : (d.withoutPrefixes publicKey).owner net = some owner) :=
    h.owned net owner (owner_withoutPrefixes.mp howner).1
  cases update.allowedIps with
  | keep => exact h.owned
  | clear => exact hkept
  | set nets =>
      obtain ⟨hkey, -⟩ := h.registered publicKey peer hpeer
      exact Consistent.owned_insertAll hkept ⟨peer, hkey.symm ▸ hpeer, rfl⟩

theorem Consistent.removePeer {d : Device C} (h : d.Consistent) (publicKey : PublicKey) :
    (d.removePeer publicKey).2.Consistent := by
  unfold Device.removePeer
  cases hpeer : d.peers publicKey with
  | none => exact h
  | some peer =>
      obtain ⟨hsender, -⟩ := h.registered publicKey peer hpeer
      refine ⟨fun key handle hhandle => ?_, fun key hkey => ?_, fun net owner howner => ?_⟩
      · obtain ⟨hne, hhandle⟩ := of_update_none hhandle
        rw [PeerHandle.table_drop, hsender, Function.update_of_ne hne]
        exact h.registered key handle hhandle
      · rw [PeerHandle.table_drop, hsender]
        by_cases heq : key = publicKey
        · subst heq
          exact Function.update_self key _ _
        · rw [Function.update_of_ne heq]
          exact h.unregistered key ((Function.update_of_ne heq _ d.peers).symm.trans hkey)
      · obtain ⟨howner, hne⟩ := owner_withoutPrefixes.mp howner
        obtain ⟨handle, hhandle, heq⟩ := h.owned net owner howner
        exact ⟨handle, (Function.update_of_ne hne _ d.peers).trans hhandle, heq⟩

theorem consistent_step {d : Device C} (h : d.Consistent) (action : Action C) :
    (d.step action).Consistent := by
  cases action with
  | addPeer publicKey config => exact h.addPeer publicKey config
  | setPeer publicKey update received => exact h.setPeer publicKey update received
  | removePeer publicKey => exact h.removePeer publicKey
  | task action hkeeps =>
      have htable := d.net.table_step_of_keepsPeers hkeeps
      refine ⟨fun key handle hhandle => ?_, fun key hkey => ?_, h.owned⟩
      · show _ ∧ (d.net.step action).table.entry key = _
        rw [htable]
        exact h.registered key handle hhandle
      · show (d.net.step action).table.entry key = none
        rw [htable]
        exact h.unregistered key hkey

theorem consistent_run {d : Device C} (h : d.Consistent) (actions : List (Action C)) :
    (d.run actions).Consistent := by
  induction actions generalizing d with
  | nil => exact h
  | cons action actions ih => exact ih (consistent_step h action)

/-! ### Calls -/

/-- A call that fails leaves the whole device as it was. -/
theorem setPeer_error {d : Device C} {publicKey : PublicKey} {update : PeerUpdate}
    {received : Bool} {error : DeviceError}
    (h : (d.setPeer publicKey update received).1 = .error error) :
    (d.setPeer publicKey update received).2 = d := by
  rcases d.setPeer_cases publicKey update received with ⟨_, heq⟩ | ⟨peer, -, heq⟩
  · rw [heq]
  · rw [heq] at h
    cases h

theorem addPeer_error {d : Device C} {publicKey : PublicKey} {config : PeerConfig}
    {error : DeviceError} (h : (d.addPeer publicKey config).1 = .error error) :
    (d.addPeer publicKey config).2 = d := by
  rcases d.addPeer_cases publicKey config with heq | ⟨-, -, heq⟩
  · rw [heq]
  · rw [heq] at h
    cases h

/-- After `Update::Set` the listed prefixes are the peer's; the others have
the owner they had, unless that was the peer. -/
theorem owner_setPeer {d : Device C} {publicKey : PublicKey} {update : PeerUpdate}
    {received : Bool} {nets : List IpNet} (hset : update.allowedIps = .set nets)
    (h : (d.setPeer publicKey update received).1 = .ok ()) :
    ∃ peer, d.peers publicKey = some peer ∧ ∀ net,
      (d.setPeer publicKey update received).2.allowedIps.owner net =
        if net ∈ nets.map IpNet.trunc then some peer.sender
        else (d.allowedIps.owner net).filter fun owner => owner.publicKey != publicKey := by
  rcases d.setPeer_cases publicKey update received with ⟨_, heq⟩ | ⟨peer, hpeer, heq⟩
  · rw [heq] at h
    cases h
  · refine ⟨peer, hpeer, fun net => ?_⟩
    rw [heq]
    simp only [hset]
    rw [AllowedIps.owner_insertAll, withoutPrefixes, AllowedIps.owner_retain]

/-! ### Packets -/

/-- What a packet that was let in says about the table. -/
theorem accept_eq_some {d : Device C} {packet : Packet} {payload : Bytes}
    (h : d.accept packet = some payload) :
    ∃ info sender, packetInfo payload = some info ∧ payload = packet.payload.take info.len ∧
      d.peerForDestination info.source = some sender ∧ sender.publicKey = packet.publicKey := by
  unfold accept at h
  split at h
  · cases h
  · rename_i info hinfo
    split at h
    · rename_i hany
      cases h
      obtain ⟨sender, hsender, hkey⟩ := (Option.any_eq_true _ _).mp hany
      exact ⟨info, sender, packetInfo_of_take_eq hinfo (by rw [List.take_take, min_self]), rfl,
        hsender, eq_of_beq hkey⟩
    · cases h

theorem recvPacket_eq_some {d : Device C} {packets rest : List Packet} {payload : Bytes}
    (h : d.recvPacket packets = some (payload, rest)) :
    ∃ dropped packet, packets = dropped ++ packet :: rest ∧ d.accept packet = some payload := by
  induction packets with
  | nil => cases h
  | cons packet packets ih =>
      rw [recvPacket] at h
      split at h
      · obtain ⟨dropped, found, heq, hfound⟩ := ih h
        exact ⟨packet :: dropped, found, by rw [heq, List.cons_append], hfound⟩
      · rename_i accepted haccept
        cases h
        exact ⟨[], packet, rfl, haccept⟩

theorem sendPacket_eq_some {d : Device C} {packet padded : Bytes} {destination : IpAddr}
    {sender : PeerSender} (hprepared : d.prepareOutboundPacket packet = some (destination, padded))
    (hsender : d.peerForDestination destination = some sender) :
    d.sendPacket packet = some (sender, padded) := by
  simp only [sendPacket, hprepared, hsender]

/-- The peer of `publicKey` is registered, and `sender` is its sender. -/
structure Live (d : Device C) (publicKey : PublicKey) (sender : PeerSender) : Prop where
  handle : d.peers publicKey = some ⟨sender⟩
  key : sender.publicKey = publicKey
  entry : d.net.table.entry publicKey = some sender.entry

theorem Consistent.live {d : Device C} (h : d.Consistent) {net : IpNet} {sender : PeerSender}
    (howner : (net, sender) ∈ d.allowedIps.entries) : d.Live sender.publicKey sender := by
  obtain ⟨⟨_⟩, hhandle, rfl⟩ := h.owned net sender (d.allowedIps.mem_entries_iff.mp howner)
  exact ⟨hhandle, rfl, (h.registered _ _ hhandle).2⟩

/-- **The device's peers, its routes and the tunnel's registry agree.**  After
any calls, failed ones among them, and with the tunnel's tasks in between:
the keys are the registered ones; every prefix is truncated and has one owner,
which is a sender of its key's current registration; a call that fails
changes nothing; `Update::Set` gives the peer exactly the listed prefixes and
leaves the others; and a packet is let in only from a peer to which packets
for its source address would be sent. -/
theorem routes_consistent (maxPacketSize : ℕ) (actions : List (Action C)) :
    let d := (start C maxPacketSize).run actions
    (∀ publicKey, (d.peers publicKey).isSome = (d.net.table.entry publicKey).isSome) ∧
    (∀ net sender, (net, sender) ∈ d.allowedIps.entries → d.Live sender.publicKey sender) ∧
    (∀ net sender sender', (net, sender) ∈ d.allowedIps.entries →
      (net, sender') ∈ d.allowedIps.entries → net.trunc = net ∧ sender = sender') ∧
    (∀ publicKey config error, (d.addPeer publicKey config).1 = .error error →
      (d.addPeer publicKey config).2 = d) ∧
    (∀ publicKey update received error, (d.setPeer publicKey update received).1 = .error error →
      (d.setPeer publicKey update received).2 = d) ∧
    (∀ publicKey update received nets, update.allowedIps = .set nets →
      (d.setPeer publicKey update received).1 = .ok () →
      ∃ sender, d.Live publicKey sender ∧ ∀ net,
        (d.setPeer publicKey update received).2.allowedIps.owner net =
          if net ∈ nets.map IpNet.trunc then some sender
          else (d.allowedIps.owner net).filter fun owner => owner.publicKey != publicKey) ∧
    ∀ packets payload rest, d.recvPacket packets = some (payload, rest) →
      ∃ dropped packet info sender, packets = dropped ++ packet :: rest ∧
        payload = packet.payload.take info.len ∧ packetInfo payload = some info ∧
        d.Live packet.publicKey sender ∧
        ∀ outbound padded, d.prepareOutboundPacket outbound = some (info.source, padded) →
          d.sendPacket outbound = some (sender, padded) := by
  intro d
  have h : d.Consistent := consistent_run (consistent_start maxPacketSize) actions
  refine ⟨fun publicKey => ?_, fun net sender => h.live, ?_, fun _ _ _ => addPeer_error,
    fun _ _ _ _ => setPeer_error, ?_, ?_⟩
  · cases hpeer : d.peers publicKey with
    | none =>
        rw [h.unregistered publicKey hpeer]
        rfl
    | some handle =>
        rw [(h.registered publicKey handle hpeer).2]
        rfl
  · intro net sender sender' hmem hmem'
    rw [d.allowedIps.mem_entries_iff] at hmem'
    have howner := d.allowedIps.mem_entries_iff.mp hmem
    exact ⟨d.allowedIps.truncated _ hmem, Option.some.inj (howner.symm.trans hmem')⟩
  · intro publicKey update received nets hset hok
    obtain ⟨⟨sender⟩, hpeer, howner⟩ := owner_setPeer hset hok
    obtain ⟨hkey, hentry⟩ := h.registered publicKey ⟨sender⟩ hpeer
    exact ⟨sender, ⟨hpeer, hkey, hentry⟩, howner⟩
  · intro packets payload rest hrecv
    obtain ⟨dropped, packet, hpackets, haccept⟩ := recvPacket_eq_some hrecv
    obtain ⟨info, sender, hinfo, hcut, hsender, hkey⟩ := accept_eq_some haccept
    obtain ⟨net, hmem⟩ := AllowedIps.longestMatch_mem hsender
    refine ⟨dropped, packet, info, sender, hpackets, hcut, hinfo, hkey ▸ h.live hmem, ?_⟩
    intro outbound padded hprepared
    exact sendPacket_eq_some hprepared hsender

end Device

end Tunstile
