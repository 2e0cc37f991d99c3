/-
Tunstile/HostRuns.lean

Runs of the program.

Every step of the host is some steps of its tunnel (`tunnel_step`), so that
what is known of the tunnel holds in the host.  Together with the refinement
of the device it follows that no packet from the interface can end the packet
loop, as long as no actor panics: an owner in the AllowedIPs table is the
sender of a registered peer, whose actor runs, so that sending fails with a
full queue at most, which is no error (`fails_only_by_panic`).
-/
import Tunstile.Host
import Tunstile.Padding

namespace Tunstile

variable {C : Crypto}

/-! ### Actors of registered peers -/

namespace Tunnel

/-- The task has died in a panic. -/
def Died (task : Task C) : Prop := task.lost ≠ none

/-- The actor of a registered peer has died. -/
def Panicked (t : Tunnel C) (publicKey : PublicKey) : Prop :=
  ∃ c task, t.table.entry publicKey = some c ∧ t.tasks c = some task ∧ Died task

/-- The actor of a registered peer runs, unless it has died. -/
structure Manned (t : Tunnel C) : Prop where
  registered : ∀ publicKey c, t.table.entry publicKey = some c →
    ∃ task, t.tasks c = some task ∧ task.publicKey = publicKey ∧ (task.running = true ∨ Died task)
  fresh : ∀ c, t.spawned ≤ c → t.tasks c = none

theorem manned_start (ourKey : C.Secret) (guard : LoadGuard C) (now : Instant) :
    (start ourKey guard now).Manned := ⟨nofun, fun _ _ => rfl⟩

/-- A task that changes, but does not end while it is registered. -/
theorem Manned.set_task {t t' : Tunnel C} (h : t.Manned) {c : Channel} {task task' : Task C}
    (htask : t.tasks c = some task) (htable : t'.table = t.table)
    (hspawned : t'.spawned = t.spawned) (htasks : t'.tasks = Function.update t.tasks c (some task'))
    (hkey : task'.publicKey = task.publicKey)
    (hrunning : t.table.entry task.publicKey = some c → task.running = true ∨ Died task →
      task'.running = true ∨ Died task') : t'.Manned := by
  refine ⟨fun publicKey c' hentry => ?_, fun c' hle => ?_⟩
  · rw [htable] at hentry
    obtain ⟨x, hx, rfl, hx'⟩ := h.registered publicKey c' hentry
    rw [htasks]
    by_cases hc : c' = c
    · subst hc
      cases htask.symm.trans hx
      exact ⟨task', Function.update_self .., hkey, hrunning hentry hx'⟩
    · exact ⟨x, (Function.update_of_ne hc _ _).trans hx, rfl, hx'⟩
  · have hnone := h.fresh c' (hspawned ▸ hle)
    have hc : c' ≠ c := by
      rintro rfl
      cases htask.symm.trans hnone
    rw [htasks, Function.update_of_ne hc]
    exact hnone

/-- Nothing but its end keeps a task from running, and while it is registered
it ends in a panic only. -/
theorem Manned.change {t t' : Tunnel C} (h : t.Manned) (hchange : Change t t') : t'.Manned := by
  cases hchange with
  | aside hroutes htasks hwaiting =>
      refine ⟨?_, ?_⟩
      · rw [hroutes.table, htasks]
        exact h.registered
      · rw [hroutes.spawned, htasks]
        exact h.fresh
  | task htask hmove hroutes htasks hwaiting =>
      cases hmove with
      | stops hready hother =>
          exact h.set_task htask hroutes.table hroutes.spawned htasks rfl fun hentry =>
            absurd hentry hother
      | dies hready =>
          exact h.set_task htask hroutes.table hroutes.spawned htasks rfl fun _ _ =>
            Or.inr (Option.some_ne_none _)
      | _ => exact h.set_task htask hroutes.table hroutes.spawned htasks rfl fun _ => id
  | added publicKey config env waiting hopen hfree hwaiting =>
      refine ⟨fun key c hentry => ?_, fun c hle => ?_⟩
      · rcases update_cases hentry with ⟨rfl, hnew⟩ | ⟨-, hold⟩
        · cases hnew
          exact ⟨_, Function.update_self .., rfl, Or.inl rfl⟩
        · obtain ⟨task, htask, hkey, hrunning⟩ := h.registered key c hold
          have hc : c ≠ t.spawned := by
            rintro rfl
            cases htask.symm.trans (h.fresh _ le_rfl)
          exact ⟨task, (Function.update_of_ne hc _ _).trans htask, hkey, hrunning⟩
      · have hlt : t.spawned < c := hle
        exact (Function.update_of_ne hlt.ne' _ _).trans (h.fresh c hlt.le)
  | removed publicKey actions hentry =>
      exact ⟨fun key c hkey => h.registered key c (of_update_none hkey).2, h.fresh⟩
  | purged actions hmem => exact ⟨h.registered, h.fresh⟩
  | closed => exact ⟨h.registered, h.fresh⟩
  | aborted hclosed hidle => exact ⟨h.registered, h.fresh⟩
  | freed haborted hleaving => exact ⟨nofun, h.fresh⟩
  | looked control rest hcontrol hfree => exact ⟨h.registered, h.fresh⟩
  | routed control rest table hcontrol hlooked => exact ⟨h.registered, h.fresh⟩
  | reported c task control htask hcontrol => exact h.set_task htask rfl rfl rfl rfl fun _ => id

theorem Manned.run {X : CookieSeal C} {t : Tunnel C} (h : t.Manned) (actions : List (Action C)) :
    (t.run X actions).Manned := by
  induction actions generalizing t with
  | nil => exact h
  | cons action rest ih => exact ih (h.change (Change.step X t action))

/-- Some actor has died. -/
def Hurt (t : Tunnel C) : Prop := ∃ c task, t.tasks c = some task ∧ Died task

/-- What has died stays dead. -/
theorem Hurt.change {t t' : Tunnel C} (h : t.Hurt) (hm : t.Manned) (hchange : Change t t') :
    t'.Hurt := by
  obtain ⟨c, task, htask, hdied⟩ := h
  -- a task that changes keeps what it lost
  have hset {c' : Channel} {old new : Task C} (hold : t.tasks c' = some old)
      (hnew : Died old → Died new) :
      ∃ c task, Function.update t.tasks c' (some new) c = some task ∧ Died task := by
    by_cases hc : c = c'
    · subst hc
      cases htask.symm.trans hold
      exact ⟨c, new, Function.update_self .., hnew hdied⟩
    · exact ⟨c, task, (Function.update_of_ne hc _ _).trans htask, hdied⟩
  cases hchange with
  | aside hroutes htasks hwaiting => exact ⟨c, task, by rw [htasks, htask], hdied⟩
  | task hold hmove hroutes htasks hwaiting =>
      rw [Hurt, htasks]
      cases hmove with
      | dies hready => exact hset hold fun _ => Option.some_ne_none _
      | _ => exact hset hold id
  | added publicKey config env waiting hopen hfree hwaiting =>
      have hc : c ≠ t.spawned := by
        rintro rfl
        cases htask.symm.trans (hm.fresh _ le_rfl)
      exact ⟨c, task, (Function.update_of_ne hc _ _).trans htask, hdied⟩
  | reported c' old control hold hcontrol => exact hset hold id
  | _ => exact ⟨c, task, htask, hdied⟩

theorem Hurt.run {X : CookieSeal C} {t : Tunnel C} (h : t.Hurt) (hm : t.Manned)
    (actions : List (Action C)) : (t.run X actions).Hurt := by
  induction actions generalizing t with
  | nil => exact h
  | cons action rest ih =>
      have hchange := Change.step X t action
      exact ih (h.change hm hchange) (hm.change hchange)

end Tunnel

namespace Host

/-! ### The run of the tunnel -/

/-- What a step of the host does in the tunnel. -/
def tunnelActions (h : Host C) : Action C → List (Tunnel.Action C)
  | .addPeer publicKey config env =>
      if (h.peers publicKey).isSome then [] else [.addPeer publicKey config.takeTunnel.1 env]
  | .setPeer publicKey update =>
      match (h.setPeer publicKey update).1 with
      | some (.ok ()) =>
          [.setPeer publicKey update.takeTunnel.1, .complete h.tunnel.waiting.length]
      | _ => []
  | .connectPeer publicKey endpoint =>
      match h.peers publicKey, (h.connectPeer publicKey endpoint).1 with
      | some peer, some (.ok ()) =>
          [.call peer.sender (.connect endpoint), .complete h.tunnel.waiting.length]
      | _, _ => []
  | .removePeer publicKey =>
      match h.peers publicKey with
      | none => []
      | some peer =>
          .removePeer peer.sender.publicKey ::
            (h.tunnel.table.entry peer.sender.publicKey).toList.map .sendPurge
  | .sendPacket packet =>
      ((h.device (.start C)).sendPacket packet).toList.map fun x => .trySend x.1 x.2
  | .packet packet =>
      if h.ended.isNone then
        ((h.device (.start C)).sendPacket packet).toList.map fun x => .trySend x.1 x.2
      else []
  | .recv => if h.ended.isNone then [.recv] else []
  | .task action _ => [action]

/-- A `try_send` that fails changes nothing. -/
theorem trySend_error {t t' : Tunnel C} {sender : PeerSender} {payload : Bytes} {e : SendError}
    (h : t.trySend sender payload = (.error e, t')) : t' = t := by
  unfold Tunnel.trySend at h
  split at h
  · cases h
    rfl
  · split at h
    · cases h
      rfl
    · cases h

/-- Who else waits makes no difference to a `try_send`. -/
theorem push_waiting {t t' : Tunnel C} {c : Channel} {action : PeerAction C}
    (h : t.push c action = .ok t') (waiting : List (Channel × Request)) :
    Tunnel.push { t with waiting := waiting } c action = .ok { t' with waiting := waiting } := by
  unfold Tunnel.push at h ⊢
  cases htask : t.tasks c with
  | none =>
      rw [htask] at h
      cases h
  | some task =>
      rw [htask] at h
      dsimp only at h ⊢
      split at h
      · rename_i hrunning
        rw [if_pos hrunning]
        split at h
        · rename_i hroom
          rw [if_pos hroom]
          cases h
          rfl
        · cases h
      · cases h

/-- A request for which there is room does not wait. -/
theorem complete_now {t t' : Tunnel C} {c : Channel} {request : Request}
    (hpush : t.push c request.action = .ok t') (hpayload : request.payload? = none) :
    Tunnel.complete { t with waiting := t.waiting ++ [(c, request)] } t.waiting.length = t' := by
  have hlast : (t.waiting ++ [(c, request)])[t.waiting.length]? = some (c, request) :=
    List.getElem?_concat_length
  have hwaiting : t'.waiting = t.waiting := by
    obtain ⟨task, -, -, -, rfl⟩ := Tunnel.push_ok hpush
    rfl
  have hrest : (t.waiting ++ [(c, request)]).eraseIdx t.waiting.length = t'.waiting := by
    rw [hwaiting, List.eraseIdx_append_of_length_le le_rfl, Nat.sub_self]
    exact List.append_nil _
  unfold Tunnel.complete
  dsimp only
  rw [hlast]
  dsimp only
  rw [push_waiting hpush]
  dsimp only
  rw [hrest, hpayload]
  simp only [Option.toList_none, List.map_nil, List.append_nil]

theorem tunnel_sendPacket (h : Host C) (X : CookieSeal C) (packet : Bytes) :
    (h.sendPacket packet).2.tunnel = h.tunnel.run X
      (((h.device (.start C)).sendPacket packet).toList.map fun x => .trySend x.1 x.2) := by
  unfold sendPacket
  cases hsend : (h.device (.start C)).sendPacket packet with
  | none => rfl
  | some x =>
      show _ = (h.tunnel.trySend x.1 x.2).2
      dsimp only
      rcases htry : h.tunnel.trySend x.1 x.2 with ⟨error | ⟨⟨⟩⟩, t⟩
      · cases trySend_error htry
        cases error <;> rfl
      · rfl

section

variable (h : Host C) (X : CookieSeal C)

theorem tunnel_addPeer (hopen : h.tunnel.closed = false) (publicKey : PublicKey)
    (config : Device.PeerConfig) (env : Env C) :
    (h.addPeer publicKey config env).2.tunnel
      = h.tunnel.run X (h.tunnelActions (.addPeer publicKey config env)) := by
  unfold addPeer tunnelActions
  dsimp only
  by_cases hknown : (h.peers publicKey).isSome = true
  · rw [if_pos hknown, if_pos hknown]
    rfl
  · rw [if_neg hknown, if_neg hknown]
    show _ = if h.tunnel.closed = true then h.tunnel else
      (h.tunnel.addPeer publicKey config.takeTunnel.1 env).2
    rw [hopen]
    rcases hadd : h.tunnel.addPeer publicKey config.takeTunnel.1 env with ⟨⟨⟩ | peer, t⟩
    · unfold Tunnel.addPeer at hadd
      split at hadd
      · cases hadd
        rfl
      · cases hadd
    · rfl

theorem tunnel_setPeer (hopen : h.tunnel.closed = false) (publicKey : PublicKey)
    (update : Device.PeerUpdate) :
    (h.setPeer publicKey update).2.tunnel
      = h.tunnel.run X (h.tunnelActions (.setPeer publicKey update)) := by
  unfold tunnelActions setPeer
  dsimp only
  cases hpeer : h.peers publicKey with
  | none => rfl
  | some peer =>
      dsimp only
      cases hentry : h.tunnel.table.entry publicKey with
      | none => rfl
      | some c =>
          dsimp only
          cases hpush : h.tunnel.push c (.update update.takeTunnel.1) with
          | error e => cases e <;> rfl
          | ok t =>
              show t = (if h.tunnel.closed = true then h.tunnel else
                (h.tunnel.setPeer publicKey update.takeTunnel.1).2).complete _
              rw [hopen, if_neg Bool.false_ne_true, Tunnel.setPeer, hentry]
              exact (complete_now hpush rfl).symm

theorem tunnel_connectPeer (publicKey : PublicKey) (endpoint : SocketAddr) :
    (h.connectPeer publicKey endpoint).2.tunnel
      = h.tunnel.run X (h.tunnelActions (.connectPeer publicKey endpoint)) := by
  unfold tunnelActions connectPeer
  dsimp only
  cases hpeer : h.peers publicKey with
  | none => rfl
  | some peer =>
      dsimp only
      cases hentry : h.tunnel.entry peer.sender with
      | error e => rfl
      | ok c =>
          dsimp only
          cases hpush : h.tunnel.push c (.connect endpoint) with
          | error e => cases e <;> rfl
          | ok t =>
              show t = (h.tunnel.call peer.sender (.connect endpoint)).2.complete _
              rw [Tunnel.call, hentry]
              exact (complete_now hpush rfl).symm

theorem tunnel_removePeer (publicKey : PublicKey) :
    (h.removePeer publicKey).2.tunnel
      = h.tunnel.run X (h.tunnelActions (.removePeer publicKey)) := by
  unfold tunnelActions removePeer
  dsimp only
  cases hpeer : h.peers publicKey with
  | none => rfl
  | some peer =>
      show peer.leave h.tunnel = _
      unfold PeerHandle.leave
      dsimp only
      cases hentry : h.tunnel.table.entry peer.sender.publicKey with
      | none =>
          have hnone : h.tunnel.table.peers peer.sender.publicKey = none := hentry
          show h.tunnel = h.tunnel.removePeer peer.sender.publicKey
          simp only [Tunnel.removePeer, RoutingTable.removePeer, hnone]
      | some c => rfl

theorem tunnel_packet (packet : Bytes) :
    (h.packet packet).tunnel = h.tunnel.run X (h.tunnelActions (.packet packet)) := by
  unfold tunnelActions Host.packet
  dsimp only
  cases hended : h.ended with
  | some e => rfl
  | none =>
      rw [trySendPacket_eq]
      refine Eq.trans ?_ (h.tunnel_sendPacket X packet)
      dsimp only
      rcases ((h.sendPacket packet).1).getD (.ok ()) with error | ⟨⟨⟩⟩ <;> rfl

theorem tunnel_recv :
    h.recv.tunnel = h.tunnel.run X (h.tunnelActions .recv) := by
  unfold tunnelActions Host.recv
  dsimp only
  cases hended : h.ended with
  | some e => rfl
  | none =>
      show h.recvPacket.2.tunnel = h.tunnel.recv.2
      unfold recvPacket
      rcases hrecv : h.tunnel.recv with ⟨_ | packet, t⟩
      · unfold Tunnel.recv at hrecv
        split at hrecv
        · cases hrecv
          rfl
        · cases hrecv
      · dsimp only
        split <;> rfl

end

/-- **Every step of the host is some steps of its tunnel.** -/
theorem tunnel_step {h : Host C} (hopen : h.tunnel.closed = false) (X : CookieSeal C)
    (action : Action C) : (h.step X action).tunnel = h.tunnel.run X (h.tunnelActions action) := by
  cases action with
  | addPeer publicKey config env => exact h.tunnel_addPeer X hopen publicKey config env
  | setPeer publicKey update => exact h.tunnel_setPeer X hopen publicKey update
  | connectPeer publicKey endpoint => exact h.tunnel_connectPeer X publicKey endpoint
  | removePeer publicKey => exact h.tunnel_removePeer X publicKey
  | sendPacket packet => exact h.tunnel_sendPacket X packet
  | packet packet => exact h.tunnel_packet X packet
  | recv => exact h.tunnel_recv X
  | task action htask => rfl

/-! ### What holds of every host -/

/-- The device's tables agree with the tunnel's registry, whose actors run
unless they have died, and the packet loop goes on until one has. -/
structure Steady (h : Host C) : Prop where
  refines : ∃ d, h.Refines d ∧ d.Consistent
  manned : h.tunnel.Manned
  goesOn : h.ended ≠ none → h.tunnel.Hurt

namespace Steady

variable {h : Host C}

/-- A registered peer's actor takes what there is room for, unless it has
died. -/
theorem push (hs : h.Steady) {publicKey : PublicKey} {c : Channel}
    (hentry : h.tunnel.table.entry publicKey = some c) (action : PeerAction C) :
    (∃ t, h.tunnel.push c action = .ok t) ∨ h.tunnel.push c action = .error .full ∨
      (h.tunnel.push c action = .error .peerRemoved ∧ h.tunnel.Panicked publicKey) := by
  obtain ⟨task, htask, -, hrunning⟩ := hs.manned.registered publicKey c hentry
  unfold Tunnel.push
  rw [htask]
  dsimp only
  split
  · split
    · exact Or.inl ⟨_, rfl⟩
    · exact Or.inr (Or.inl rfl)
  · rename_i hended
    exact Or.inr (Or.inr ⟨rfl, c, task, hentry, htask, hrunning.resolve_left hended⟩)

/-- A peer of the device is registered in the tunnel. -/
theorem entry_of_peer (hs : h.Steady) {publicKey : PublicKey} {peer : PeerHandle}
    (hpeer : h.peers publicKey = some peer) :
    peer.sender.publicKey = publicKey ∧
      h.tunnel.table.entry publicKey = some peer.sender.entry := by
  obtain ⟨d, hr, hd⟩ := hs.refines
  rw [← hr.peers] at hpeer
  rw [← hr.sim.table]
  exact hd.registered publicKey peer hpeer

/-- An owner of a prefix is registered in the tunnel. -/
theorem entry_of_owner (hs : h.Steady) {destination : IpAddr} {sender : PeerSender}
    (hsender : h.allowedIps.longestMatch destination = some sender) :
    h.tunnel.table.entry sender.publicKey = some sender.entry := by
  obtain ⟨d, hr, hd⟩ := hs.refines
  rw [← hr.allowedIps] at hsender
  obtain ⟨net, hmem⟩ := AllowedIps.longestMatch_mem hsender
  rw [← hr.sim.table]
  exact (hd.live hmem).entry

/-- A packet is queued, dropped, or waits, unless the actor has died. -/
theorem sendPacket (hs : h.Steady) {packet : Bytes} {error : SendError}
    (herror : (h.sendPacket packet).1 = some (.error error)) :
    error = .peerRemoved ∧ ∃ publicKey, h.tunnel.Panicked publicKey := by
  unfold Host.sendPacket at herror
  cases hsend : (h.device (.start C)).sendPacket packet with
  | none =>
      rw [hsend] at herror
      cases herror
  | some x =>
      obtain ⟨sender, payload⟩ := x
      have hentry : h.tunnel.table.entry sender.publicKey = some sender.entry := by
        unfold Device.sendPacket at hsend
        split at hsend
        · cases hsend
        · split at hsend
          · cases hsend
          · rename_i sender' hsender
            cases hsend
            exact hs.entry_of_owner hsender
      have hfound : h.tunnel.entry sender = .ok sender.entry := if_pos (Or.inl hentry)
      rw [hsend] at herror
      dsimp only at herror
      unfold Tunnel.trySend at herror
      rw [hfound] at herror
      dsimp only at herror
      rcases hs.push hentry (.sendData payload) with ⟨t, hpush⟩ | hpush | ⟨hpush, hpanicked⟩ <;>
        rw [hpush] at herror <;> cases herror
      exact ⟨rfl, _, hpanicked⟩

theorem trySendPacket (hs : h.Steady) {packet : Bytes} {error : SendError}
    (herror : (h.trySendPacket packet).1 = .error error) :
    error = .peerRemoved ∧ ∃ publicKey, h.tunnel.Panicked publicKey := by
  rw [trySendPacket_eq] at herror
  have hsend : (h.sendPacket packet).1 = some (.error error) → error = .peerRemoved ∧
      ∃ publicKey, h.tunnel.Panicked publicKey := hs.sendPacket
  refine hsend ?_
  rcases hresult : (h.sendPacket packet).1 with _ | result
  · rw [hresult] at herror
    cases herror
  · rw [hresult] at herror
    exact congrArg some herror

/-- No call of the owner, and no packet, ends the loop, unless an actor has
died. -/
theorem ended_step (hs : h.Steady) (X : CookieSeal C) (action : Action C)
    (hended : (h.step X action).ended ≠ none) : h.tunnel.Hurt := by
  -- only a packet of the interface can end the loop
  have hsame (heq : (h.step X action).ended = h.ended) : h.tunnel.Hurt := hs.goesOn (heq ▸ hended)
  cases action with
  | addPeer publicKey config env =>
      refine hsame ?_
      show (h.addPeer publicKey config env).2.ended = h.ended
      unfold addPeer
      split
      · rfl
      · dsimp only
        split <;> rfl
  | setPeer publicKey update =>
      refine hsame ?_
      show (h.setPeer publicKey update).2.ended = h.ended
      rcases h.setPeer_cases publicKey update with heq | ⟨c, t, allowedIps, -, heq⟩ <;> rw [heq]
  | connectPeer publicKey endpoint =>
      refine hsame ?_
      show (h.connectPeer publicKey endpoint).2.ended = h.ended
      rcases h.connectPeer_cases publicKey endpoint with heq | ⟨c, t, -, heq⟩ <;> rw [heq]
  | removePeer publicKey =>
      refine hsame ?_
      show (h.removePeer publicKey).2.ended = h.ended
      unfold removePeer
      split <;> rfl
  | sendPacket packet =>
      refine hsame ?_
      show (h.sendPacket packet).2.ended = h.ended
      rcases h.sendPacket_cases packet with heq | ⟨sender, payload, -, -, heq⟩ <;> rw [heq]
  | packet packet =>
      by_cases hbefore : h.ended = none
      · rcases htry : h.trySendPacket packet with ⟨error | ⟨⟨⟩⟩, h'⟩
        · have herror : (h.trySendPacket packet).1 = .error error := congrArg Prod.fst htry
          obtain ⟨-, publicKey, c, task, -, htask, hdied⟩ := hs.trySendPacket herror
          exact ⟨c, task, htask, hdied⟩
        · refine hsame ?_
          show (h.packet packet).ended = h.ended
          have hkept : h'.ended = h.ended := by
            have heq : (h.trySendPacket packet).2 = h' := congrArg Prod.snd htry
            rw [← heq, trySendPacket_eq]
            rcases h.sendPacket_cases packet with heq | ⟨sender, payload, -, -, heq⟩ <;>
              dsimp only <;> rw [heq]
          unfold Host.packet
          rw [hbefore, htry]
          exact hkept.trans hbefore
      · exact hs.goesOn hbefore
  | recv =>
      refine hsame ?_
      show h.recv.ended = h.ended
      rcases h.recv_cases with heq | heq | ⟨packet, payload, -, -, heq⟩ <;> rw [heq]
  | task action htask => exact hsame rfl

theorem isOpen (hs : h.Steady) : h.tunnel.closed = false := by
  obtain ⟨d, hr, -⟩ := hs.refines
  exact hr.sim.isOpen

theorem step (hs : h.Steady) (X : CookieSeal C) (action : Action C) :
    (h.step X action).Steady where
  refines := by
    obtain ⟨d, hr, hd⟩ := hs.refines
    obtain ⟨calls, hcalls⟩ := hr.step X action
    exact ⟨d.run calls, hcalls, Device.consistent_run hd calls⟩
  manned := by
    rw [tunnel_step hs.isOpen]
    exact hs.manned.run _
  goesOn hended := by
    rw [tunnel_step hs.isOpen]
    exact (hs.ended_step X action hended).run hs.manned _

theorem run (hs : h.Steady) (X : CookieSeal C) (actions : List (Action C)) :
    (h.run X actions).Steady := by
  induction actions generalizing h with
  | nil => exact hs
  | cons action rest ih => exact ih (hs.step X action)

end Steady

theorem steady_start (ourKey : C.Secret) (guard : LoadGuard C) (now : Instant)
    (maxPacketSize : ℕ) : (start ourKey guard now maxPacketSize).Steady where
  refines := ⟨_, refines_start ourKey guard now maxPacketSize, Device.consistent_start _⟩
  manned := Tunnel.manned_start ourKey guard now
  goesOn hended := absurd rfl hended

/-- **Sending fails only where an actor has panicked.**  In every state of the
host, a packet of the interface is queued, or dropped, or waits for room, and
the packet loop goes on, unless the actor of a registered peer has died in a
panic.  A call for a peer fails when the device has no such peer or its actor
has died, and for no other reason. -/
theorem fails_only_by_panic (X : CookieSeal C) (ourKey : C.Secret) (guard : LoadGuard C)
    (now : Instant) (maxPacketSize : ℕ) (actions : List (Action C)) :
    let h := (start ourKey guard now maxPacketSize).run X actions
    (h.ended ≠ none → h.tunnel.Hurt) ∧
    (∀ packet error, (h.trySendPacket packet).1 = .error error →
      error = .peerRemoved ∧ ∃ publicKey, h.tunnel.Panicked publicKey) ∧
    (∀ packet error, (h.sendPacket packet).1 = some (.error error) →
      error = .peerRemoved ∧ ∃ publicKey, h.tunnel.Panicked publicKey) ∧
    (∀ publicKey update error, (h.setPeer publicKey update).1 = some (.error error) →
      (h.peers publicKey = none ∧ error = .unknownPeer publicKey) ∨
        (h.tunnel.Panicked publicKey ∧ error = .send .peerRemoved)) ∧
    ∀ publicKey endpoint error, (h.connectPeer publicKey endpoint).1 = some (.error error) →
      (h.peers publicKey = none ∧ error = .unknownPeer publicKey) ∨
        (h.tunnel.Panicked publicKey ∧ error = .send .peerRemoved) := by
  intro h
  have hs : h.Steady := (steady_start ourKey guard now maxPacketSize).run X actions
  refine ⟨hs.goesOn, fun _ _ => hs.trySendPacket, fun _ _ => hs.sendPacket, ?_, ?_⟩
  · intro publicKey update error herror
    unfold setPeer at herror
    cases hpeer : h.peers publicKey with
    | none =>
        rw [hpeer] at herror
        cases herror
        exact Or.inl ⟨rfl, rfl⟩
    | some peer =>
        -- a registered peer's actor takes the update, lets it wait, or has died
        have hentry := (hs.entry_of_peer hpeer).2
        rw [hpeer] at herror
        dsimp only at herror
        rw [hentry] at herror
        dsimp only at herror
        rcases hs.push hentry (.update update.takeTunnel.1) with
          ⟨t, hpush⟩ | hpush | ⟨hpush, hpanicked⟩ <;> rw [hpush] at herror <;> cases herror
        exact Or.inr ⟨hpanicked, rfl⟩
  · intro publicKey endpoint error herror
    unfold connectPeer at herror
    cases hpeer : h.peers publicKey with
    | none =>
        rw [hpeer] at herror
        cases herror
        exact Or.inl ⟨rfl, rfl⟩
    | some peer =>
        obtain ⟨hkey, hentry⟩ := hs.entry_of_peer hpeer
        have hfound : h.tunnel.entry peer.sender = .ok peer.sender.entry :=
          if_pos (Or.inl (hkey ▸ hentry))
        rw [hpeer] at herror
        dsimp only at herror
        rw [hfound] at herror
        dsimp only at herror
        rcases hs.push hentry (.connect endpoint) with
          ⟨t, hpush⟩ | hpush | ⟨hpush, hpanicked⟩ <;> rw [hpush] at herror <;> cases herror
        exact Or.inr ⟨hpanicked, rfl⟩

end Host

/-- The payloads among some packets that came from a peer, in order. -/
def payloadsFrom (publicKey : PublicKey) (packets : List Packet) : List Bytes :=
  (packets.filter (·.publicKey = publicKey)).map Packet.payload

namespace Device

/-- What the header of a packet declares. -/
def declared (packet : Bytes) : Option Bytes :=
  (packetInfo packet).map fun info => packet.take info.len

theorem declared_of_sendPacket {d : Device C} {packet payload : Bytes} {sender : PeerSender}
    (h : d.sendPacket packet = some (sender, payload)) : declared payload = declared packet := by
  unfold sendPacket at h
  split at h
  · cases h
  · rename_i destination padded hprepared
    split at h
    · cases h
    · cases h
      obtain ⟨info, hinfo, -, hprep⟩ := prepared_of_eq_some hprepared
      rw [declared, declared, hinfo, hprep.declares]
      exact congrArg some hprep.cut

theorem declared_of_accept {d : Device C} {packet : Packet} {payload : Bytes}
    (h : d.accept packet = some payload) : declared packet.payload = some payload := by
  unfold accept at h
  split at h
  · cases h
  · rename_i info hinfo
    split at h
    · rw [declared, hinfo]
      exact h
    · cases h

end Device

/-! ### What a host queues and writes -/

namespace Host

/-- The packets that were queued for the actor of a channel. -/
def queuedOn (h : Host C) (c : Channel) : List Bytes :=
  (h.queued.filter (·.channel = c)).map Queued.packet

/-- The packets from a peer that were written to the interface. -/
def writtenFrom (h : Host C) (publicKey : PublicKey) : List Bytes :=
  (h.written.filter (·.1.publicKey = publicKey)).map Prod.snd

/-- The host's records agree with the tunnel's. -/
structure Books (h : Host C) : Prop where
  waiting : ∀ x ∈ h.tunnel.waiting, x.2.payload? = none
  sent : h.tunnel.sent = h.queued.map fun x => (x.channel, x.payload)
  queued : ∀ x ∈ h.queued, Device.declared x.payload = Device.declared x.packet
  received : (h.written.map Prod.fst).Sublist h.tunnel.received
  written : ∀ x ∈ h.written, Device.declared x.1.payload = some x.2

theorem books_start (ourKey : C.Secret) (guard : LoadGuard C) (now : Instant)
    (maxPacketSize : ℕ) : (start ourKey guard now maxPacketSize).Books :=
  ⟨nofun, rfl, nofun, List.Sublist.refl _, nofun⟩

namespace Books

variable {h h' : Host C}

/-- What leaves the traffic alone. -/
theorem frame (hb : h.Books) (hsent : h'.tunnel.sent = h.tunnel.sent)
    (hreceived : h'.tunnel.received = h.tunnel.received) (hqueued : h'.queued = h.queued)
    (hwritten : h'.written = h.written)
    (hwaiting : ∀ x ∈ h'.tunnel.waiting, x ∈ h.tunnel.waiting ∨ x.2.payload? = none) :
    h'.Books where
  waiting x hx := (hwaiting x hx).elim (hb.waiting x) id
  sent := by rw [hsent, hqueued, hb.sent]
  queued := hqueued ▸ hb.queued
  received := by
    rw [hwritten, hreceived]
    exact hb.received
  written := hwritten ▸ hb.written

theorem aside (hb : h.Books) (haside : Tunnel.Aside h.tunnel h'.tunnel)
    (hqueued : h'.queued = h.queued) (hwritten : h'.written = h.written) : h'.Books :=
  hb.frame (haside.sent hb.waiting) haside.received hqueued hwritten fun _ hx =>
    Or.inl (haside.waiting.subset hx)

theorem addPeer (hb : h.Books) (publicKey : PublicKey) (config : Device.PeerConfig)
    (env : Env C) : (h.addPeer publicKey config env).2.Books := by
  unfold Host.addPeer Tunnel.addPeer
  split
  · exact hb
  · dsimp only
    cases h.tunnel.table.registerPeer publicKey h.tunnel.spawned with
    | none => exact hb
    | some table =>
        refine hb.frame rfl rfl rfl rfl fun x hx => ?_
        refine (List.mem_append.mp hx).imp_right fun hnew => ?_
        obtain ⟨endpoint, -, rfl⟩ := List.mem_map.mp hnew
        rfl

theorem leave (t : Tunnel C) (handle : PeerHandle) :
    (handle.leave t).sent = t.sent ∧ (handle.leave t).received = t.received ∧
      (handle.leave t).waiting = t.waiting := by
  have hremoved : (t.removePeer handle.sender.publicKey).sent = t.sent ∧
      (t.removePeer handle.sender.publicKey).received = t.received ∧
      (t.removePeer handle.sender.publicKey).waiting = t.waiting := by
    unfold Tunnel.removePeer
    split <;> exact ⟨rfl, rfl, rfl⟩
  unfold PeerHandle.leave
  split
  · exact ⟨rfl, rfl, rfl⟩
  · unfold Tunnel.sendPurge
    split <;> exact hremoved

/-- A payload that the tunnel takes. -/
theorem trySend (hb : h.Books) {packet payload : Bytes} {sender : PeerSender}
    (hsend : (h.device (.start C)).sendPacket packet = some (sender, payload))
    (hok : (h.tunnel.trySend sender payload).1 = .ok ()) (ended : Option SendError) :
    Books { h with
      tunnel := (h.tunnel.trySend sender payload).2
      queued := h.queued ++ [⟨sender.entry, packet, payload⟩]
      ended := ended } := by
  unfold Tunnel.trySend at hok ⊢
  cases hentry : h.tunnel.entry sender with
  | error e =>
      rw [hentry] at hok
      cases hok
  | ok c =>
      have hc : c = sender.entry := by
        unfold Tunnel.entry at hentry
        split at hentry
        · cases hentry
          rfl
        · split at hentry <;> cases hentry
      rw [hentry] at hok
      dsimp only at hok ⊢
      cases hpush : h.tunnel.push c (.sendData payload) with
      | error e =>
          rw [hpush] at hok
          cases hok
      | ok t =>
          have haside := Tunnel.Aside.push hpush
          refine ⟨fun x hx => hb.waiting x (haside.waiting.subset hx), ?_, fun x hx => ?_, ?_,
            hb.written⟩
          · show t.sent ++ [(c, payload)] = _
            rw [haside.sent hb.waiting, hb.sent, List.map_append, hc]
            rfl
          · rcases List.mem_append.mp hx with hx | hx
            · exact hb.queued x hx
            · cases List.mem_singleton.mp hx
              exact Device.declared_of_sendPacket hsend
          · show (h.written.map Prod.fst).Sublist t.received
            rw [haside.received]
            exact hb.received

theorem recv (hb : h.Books) : h.recv.Books := by
  -- the tunnel's records, whether the packet is let in or not
  have hrecv : h.tunnel.recv.2.sent = h.tunnel.sent ∧
      h.tunnel.recv.2.waiting = h.tunnel.waiting ∧
      h.tunnel.recv.2.received = h.tunnel.received ++ h.tunnel.recv.1.toList := by
    unfold Tunnel.recv
    split
    · exact ⟨rfl, rfl, (List.append_nil _).symm⟩
    · exact ⟨rfl, rfl, rfl⟩
  obtain ⟨hsent, hwaiting, hreceived⟩ := hrecv
  rcases h.recv_cases with heq | heq | ⟨packet, payload, hpacket, haccept, heq⟩
  · rw [heq]
    exact hb
  · rw [heq]
    refine ⟨hwaiting ▸ hb.waiting, hsent.trans hb.sent, hb.queued, ?_, hb.written⟩
    show (h.written.map Prod.fst).Sublist h.tunnel.recv.2.received
    rw [hreceived]
    exact hb.received.trans (List.sublist_append_left _ _)
  · rw [heq]
    refine ⟨hwaiting ▸ hb.waiting, hsent.trans hb.sent, hb.queued, ?_, fun x hx => ?_⟩
    · show ((h.written ++ [(packet, payload)]).map Prod.fst).Sublist h.tunnel.recv.2.received
      rw [hreceived, hpacket, List.map_append]
      exact hb.received.append (List.Sublist.refl _)
    · rcases List.mem_append.mp hx with hx | hx
      · exact hb.written x hx
      · cases List.mem_singleton.mp hx
        exact Device.declared_of_accept haccept

theorem step (hb : h.Books) (X : CookieSeal C) (action : Action C) : (h.step X action).Books := by
  cases action with
  | addPeer publicKey config env => exact hb.addPeer publicKey config env
  | setPeer publicKey update =>
      show (h.setPeer publicKey update).2.Books
      rcases h.setPeer_cases publicKey update with heq | ⟨c, t, allowedIps, hpush, heq⟩
      · rw [heq]
        exact hb
      · rw [heq]
        exact hb.aside (.push hpush) rfl rfl
  | connectPeer publicKey endpoint =>
      show (h.connectPeer publicKey endpoint).2.Books
      rcases h.connectPeer_cases publicKey endpoint with heq | ⟨c, t, hpush, heq⟩
      · rw [heq]
        exact hb
      · rw [heq]
        exact hb.aside (.push hpush) rfl rfl
  | removePeer publicKey =>
      show (h.removePeer publicKey).2.Books
      unfold removePeer
      split
      · exact hb
      · rename_i peer hpeer
        obtain ⟨hsent, hreceived, hwaiting⟩ := leave h.tunnel peer
        exact hb.frame hsent hreceived rfl rfl fun x hx => Or.inl (hwaiting ▸ hx)
  | sendPacket packet =>
      show (h.sendPacket packet).2.Books
      rcases h.sendPacket_cases packet with heq | ⟨sender, payload, hsend, hok, heq⟩
      · rw [heq]
        exact hb
      · rw [heq]
        exact hb.trySend hsend hok h.ended
  | packet packet =>
      show (h.packet packet).Books
      rcases h.packet_cases packet with ⟨ended, heq⟩ | ⟨sender, payload, hsend, hok, ended, heq⟩
      · rw [heq]
        exact hb.frame rfl rfl rfl rfl fun _ => Or.inl
      · rw [heq]
        exact hb.trySend hsend hok ended
  | recv => exact hb.recv
  | task action htask => exact hb.aside (.step X h.tunnel htask) rfl rfl

/-- What was queued on a channel, as the tunnel has it. -/
theorem queuedOn_declared (hb : h.Books) (c : Channel) :
    (h.queuedOn c).filterMap Device.declared = (h.tunnel.sentTo c).filterMap Device.declared := by
  have hqueued := hb.queued
  unfold queuedOn Tunnel.sentTo
  rw [hb.sent]
  generalize h.queued = queued at hqueued
  induction queued with
  | nil => rfl
  | cons x rest ih =>
      have hrest := ih fun y hy => hqueued y (List.mem_cons_of_mem x hy)
      have hx := hqueued x List.mem_cons_self
      by_cases hc : x.channel = c
      · simp only [List.filter_cons, List.map_cons, List.filterMap_cons, hc, decide_true, if_true,
          hx, hrest]
      · simp only [List.filter_cons, List.map_cons, List.filterMap_cons, hc, decide_false,
          Bool.false_eq_true, if_false, hrest]

/-- What was written, as the tunnel has it. -/
theorem writtenFrom_declared (hb : h.Books) (publicKey : PublicKey) :
    h.writtenFrom publicKey
      = (payloadsFrom publicKey (h.written.map Prod.fst)).filterMap Device.declared := by
  have hwritten : ∀ x ∈ h.written.filter (·.1.publicKey = publicKey),
      Device.declared x.1.payload = some x.2 :=
    fun x hx => hb.written x (List.mem_of_mem_filter hx)
  rw [writtenFrom, payloadsFrom, List.filter_map, List.map_map, List.filterMap_map]
  show _ = (h.written.filter (·.1.publicKey = publicKey)).filterMap
    fun x => Device.declared x.1.payload
  rw [List.filterMap_congr hwritten]
  exact (congrFun List.filterMap_eq_map _).symm

end Books

end Host

end Tunstile
