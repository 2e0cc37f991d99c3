/-
Tunstile/TunnelRuns.lean

Whole runs of a tunnel.

Each task of the tunnel is a run of its actor, on what its channel accepted
and in that order (`Task.Sound`).  What the owner receives comes from these
runs, under the right key and in order (`Tunnel.Sound`).  Both are kept by
every step, so they hold of every interleaving (`queues_fifo`).  The turns
that a run takes on one channel are read off its steps (`eventsOn_step`).
-/
import Tunstile.Tunnel
import Tunstile.Acts
import Tunstile.Fifo
import Tunstile.History

namespace Tunstile

variable {C : Crypto}

namespace Tunnel

/-! ### What holds of every task -/

/-- The packets that an action may bring to the actor of `publicKey`: an
initiation was received by us and carries that key. -/
def Legit (ourKey : C.Secret) (publicKey : PublicKey) : PeerAction C → Prop
  | .recvHandshakeInit handshake _ =>
      (∃ packet, InitReceived.receive ourKey packet = .ok handshake) ∧
        handshake.peerPublic = publicKey
  | _ => True

end Tunnel

/-- A task is a run of its actor on what its channel accepted, in order.  The
rest is queued, or was lost in a panic. -/
structure Task.Sound (ourKey : C.Secret) (task : Task C) : Prop where
  actor : task.actor = (start ourKey task.publicKey task.config task.env).run task.events
  accepted : Actor.received task.events ++ (task.queue ++ task.lost.getD []) = task.accepted
  lost : task.running = true → task.lost = none
  ended : task.running = false → task.queue = []
  bounded : task.queue.length ≤ peerActionQueueCapacity
  legit : ∀ action ∈ task.accepted, Tunnel.Legit ourKey task.publicKey action

namespace Task.Sound

variable {ourKey : C.Secret} {task : Task C}

theorem spawn (publicKey : PublicKey) (config : PeerConfig) (env : Env C) :
    (Task.spawn ourKey publicKey config env).Sound ourKey :=
  ⟨rfl, rfl, fun _ => rfl, fun _ => rfl, Nat.zero_le _, fun _ h => by cases h⟩

/-- Nothing was lost while the task runs. -/
theorem accepted_of_running (h : task.Sound ourKey) (hrunning : task.running = true) :
    Actor.received task.events ++ task.queue = task.accepted := by
  have haccepted := h.accepted
  rw [h.lost hrunning] at haccepted
  simpa only [Option.getD_none, List.append_nil] using haccepted

theorem accept (h : task.Sound ourKey) {action : PeerAction C} (hrunning : task.running = true)
    (hroom : task.queue.length < peerActionQueueCapacity)
    (hlegit : Tunnel.Legit ourKey task.publicKey action) : (task.accept action).Sound ourKey where
  actor := h.actor
  accepted := by
    show Actor.received task.events ++ ((task.queue ++ [action]) ++ task.lost.getD [])
      = task.accepted ++ [action]
    rw [h.lost hrunning, ← h.accepted_of_running hrunning]
    simp only [Option.getD_none, List.append_nil, List.append_assoc]
  lost := h.lost
  ended hended := by cases hrunning.symm.trans hended
  bounded := by
    show (task.queue ++ [action]).length ≤ _
    rw [List.length_append, List.length_singleton]
    exact hroom
  legit := by
    intro x hx
    rcases List.mem_append.mp hx with hx | hx
    · exact h.legit x hx
    · exact List.mem_singleton.mp hx ▸ hlegit

/-- A turn on the first `n` actions of the queue, or on none of them. -/
theorem turn (h : task.Sound ourKey) (hrunning : task.running = true) {event : Actor.Event C}
    {n : ℕ} (hevent : event.batch = task.queue.take n) :
    { task.turn event with queue := task.queue.drop n }.Sound ourKey where
  actor := by
    show task.actor.turn event = _
    rw [h.actor]
    exact (List.foldl_concat ..).symm
  accepted := by
    show Actor.received (task.events ++ [event]) ++ (task.queue.drop n ++ task.lost.getD [])
      = task.accepted
    rw [Actor.received, List.flatMap_append, List.flatMap_singleton, hevent, List.append_assoc,
      ← List.append_assoc (task.queue.take n), List.take_append_drop]
    exact h.accepted
  lost := h.lost
  ended hended := by cases hrunning.symm.trans hended
  bounded := (List.drop_sublist n task.queue).length_le.trans h.bounded
  legit := h.legit

/-- What a task has left to publish does not matter here. -/
theorem publish (h : task.Sound ourKey) (reported passed : ℕ) :
    { task with reported := reported, passed := passed }.Sound ourKey :=
  ⟨h.actor, h.accepted, h.lost, h.ended, h.bounded, h.legit⟩

/-- A task ends when nothing is queued. -/
theorem stop (h : task.Sound ourKey) (hqueue : task.queue = []) :
    { task with running := false }.Sound ourKey :=
  ⟨h.actor, h.accepted, nofun, fun _ => hqueue, h.bounded, h.legit⟩

/-- What is queued when a task dies is lost. -/
theorem die (h : task.Sound ourKey) (hrunning : task.running = true) :
    task.die.Sound ourKey :=
  ⟨h.actor, h.accepted_of_running hrunning, nofun, fun _ => rfl, Nat.zero_le _, h.legit⟩

end Task.Sound

namespace Tunnel

/-! ### What holds of every tunnel -/

/-- The payloads sent on a channel, in order. -/
def sentTo (t : Tunnel C) (c : Channel) : List Bytes :=
  t.sent.filterMap fun x => if x.1 = c then some x.2 else none

/-- The payloads that a channel's actor put in the inbound queue, in order. -/
def deliveredBy (t : Tunnel C) (c : Channel) : List Bytes :=
  t.delivered.filterMap fun x => if x.1 = c then some x.2 else none

/-- A delivered payload as the packet of its peer. -/
def packetOf (t : Tunnel C) (x : Channel × Bytes) : Option Packet :=
  (t.tasks x.1).map fun task => ⟨task.publicKey, x.2⟩

structure Sound (ourKey : C.Secret) (t : Tunnel C) : Prop where
  ourKey_eq : t.ourKey = ourKey
  task : ∀ c task, t.tasks c = some task → task.Sound t.ourKey
  fresh : ∀ c, t.spawned ≤ c → t.tasks c = none ∧ t.sentTo c = [] ∧ t.deliveredBy c = []
  registered : ∀ publicKey c, t.table.entry publicKey = some c →
    ∃ task, t.tasks c = some task ∧ task.publicKey = publicKey
  sent : ∀ c task, t.tasks c = some task → Actor.payloadsOf task.accepted = t.sentTo c
  delivered : ∀ c task, t.tasks c = some task →
    (t.deliveredBy c).Sublist (task.actor.inbound.take task.passed)
  received : (t.received ++ t.inbound).Sublist (t.delivered.filterMap t.packetOf)
  bounded : t.inbound.length ≤ inboundQueueCapacity

theorem sound_start (ourKey : C.Secret) (guard : LoadGuard C) (now : Instant) :
    (start ourKey guard now).Sound ourKey where
  ourKey_eq := rfl
  task := fun _ _ h => by cases h
  fresh := fun _ _ => ⟨rfl, rfl, rfl⟩
  registered := fun _ _ h => by cases h
  sent := fun _ _ h => by cases h
  delivered := fun _ _ h => by cases h
  received := List.Sublist.refl _
  bounded := Nat.zero_le _

namespace Sound

variable {ourKey : C.Secret} {t t' : Tunnel C}

/-- A step that changes no task, sends nothing and delivers nothing. -/
theorem frame (h : t.Sound ourKey) (hour : t'.ourKey = t.ourKey) (htasks : t'.tasks = t.tasks)
    (hspawned : t'.spawned = t.spawned)
    (htable : ∀ publicKey c, t'.table.entry publicKey = some c → t.table.entry publicKey = some c)
    (hsent : t'.sent = t.sent) (hdelivered : t'.delivered = t.delivered)
    (hreceived : (t'.received ++ t'.inbound).Sublist (t.received ++ t.inbound))
    (hbounded : t'.inbound.length ≤ t.inbound.length) : t'.Sound ourKey where
  ourKey_eq := hour.trans h.ourKey_eq
  task := by
    rw [htasks, hour]
    exact h.task
  fresh := by
    rw [hspawned, htasks]
    unfold sentTo deliveredBy
    rw [hsent, hdelivered]
    exact h.fresh
  registered := by
    rw [htasks]
    exact fun publicKey c hentry => h.registered publicKey c (htable publicKey c hentry)
  sent := by
    rw [htasks]
    unfold sentTo
    rw [hsent]
    exact h.sent
  delivered := by
    rw [htasks]
    unfold deliveredBy
    rw [hdelivered]
    exact h.delivered
  received := by
    unfold packetOf
    rw [htasks, hdelivered]
    exact hreceived.trans h.received
  bounded := hbounded.trans h.bounded

/-- What a list of tagged payloads has under a tag, when payloads of one
channel are appended. -/
theorem tagged_append (l : List (Channel × Bytes)) (c c' : Channel) (new : List Bytes) :
    (l ++ new.map (c, ·)).filterMap (fun x => if x.1 = c' then some x.2 else none)
      = l.filterMap (fun x => if x.1 = c' then some x.2 else none)
        ++ if c = c' then new else [] := by
  rw [List.filterMap_append, List.filterMap_map]
  congr 1
  split
  · rename_i heq
    subst heq
    rw [show (fun x : Channel × Bytes => if x.1 = c then some x.2 else none) ∘ (c, ·) = some from
      funext fun _ => if_pos rfl, List.filterMap_some]
  · rename_i hne
    rw [show (fun x : Channel × Bytes => if x.1 = c' then some x.2 else none) ∘ (c, ·)
      = fun _ => none from funext fun _ => if_neg hne, List.filterMap_none]

/-- **A step of one task.**  It may send and deliver on its own channel. -/
theorem step_task (h : t.Sound ourKey) (sent delivered : List Bytes) (inbound : List Packet)
    {c : Channel} {task task' : Task C} (htask : t.tasks c = some task)
    (hsound : task'.Sound t.ourKey) (hkey : task'.publicKey = task.publicKey)
    (hsent : Actor.payloadsOf task'.accepted = Actor.payloadsOf task.accepted ++ sent)
    (hdelivered : (task.actor.inbound.take task.passed ++ delivered).Sublist
      (task'.actor.inbound.take task'.passed))
    (hinbound : inbound = delivered.map (⟨task.publicKey, ·⟩))
    (hbounded : (t.inbound ++ inbound).length ≤ inboundQueueCapacity)
    (hour : t'.ourKey = t.ourKey) (htasks : t'.tasks = Function.update t.tasks c (some task'))
    (hspawned : t'.spawned = t.spawned) (htable : t'.table = t.table)
    (hsent' : t'.sent = t.sent ++ sent.map (c, ·))
    (hdelivered' : t'.delivered = t.delivered ++ delivered.map (c, ·))
    (hreceived : t'.received = t.received) (hinbound' : t'.inbound = t.inbound ++ inbound) :
    t'.Sound ourKey := by
  have hlt : ∀ c', t.spawned ≤ c' → c ≠ c' := by
    rintro c' hle rfl
    rw [(h.fresh c hle).1] at htask
    cases htask
  have hsentTo : ∀ c', t'.sentTo c' = t.sentTo c' ++ if c = c' then sent else [] := by
    intro c'
    rw [sentTo, hsent', tagged_append]
    rfl
  have hdeliveredBy : ∀ c', t'.deliveredBy c'
      = t.deliveredBy c' ++ if c = c' then delivered else [] := by
    intro c'
    rw [deliveredBy, hdelivered', tagged_append]
    rfl
  have hpacketOf : t'.packetOf = t.packetOf := by
    funext x
    unfold packetOf
    rw [htasks]
    by_cases hx : x.1 = c
    · rw [hx, Function.update_self, htask, Option.map_some, Option.map_some, hkey]
    · rw [Function.update_of_ne hx]
  refine ⟨hour.trans h.ourKey_eq, ?_, ?_, ?_, ?_, ?_, ?_, ?_⟩
  · intro c' x hx
    rw [htasks] at hx
    rw [hour]
    rcases update_cases hx with ⟨-, hnew⟩ | ⟨-, hold⟩
    · cases hnew
      exact hsound
    · exact h.task c' x hold
  · intro c' hle
    rw [hspawned] at hle
    have hne := hlt c' hle
    obtain ⟨hnone, hs, hd⟩ := h.fresh c' hle
    rw [htasks, Function.update_of_ne hne.symm, hsentTo, hdeliveredBy, if_neg hne, if_neg hne,
      List.append_nil, List.append_nil]
    exact ⟨hnone, hs, hd⟩
  · intro publicKey c' hentry
    rw [htable] at hentry
    obtain ⟨x, hx, hpublic⟩ := h.registered publicKey c' hentry
    by_cases hc : c' = c
    · subst hc
      cases htask.symm.trans hx
      exact ⟨task', by rw [htasks, Function.update_self], hkey.trans hpublic⟩
    · exact ⟨x, by rw [htasks, Function.update_of_ne hc, hx], hpublic⟩
  · intro c' x hx
    rw [htasks] at hx
    rw [hsentTo]
    rcases update_cases hx with ⟨rfl, hnew⟩ | ⟨hne, hold⟩
    · cases hnew
      rw [if_pos rfl, hsent, h.sent c' task htask]
    · rw [if_neg (Ne.symm hne), List.append_nil]
      exact h.sent c' x hold
  · intro c' x hx
    rw [htasks] at hx
    rw [hdeliveredBy]
    rcases update_cases hx with ⟨rfl, hnew⟩ | ⟨hne, hold⟩
    · cases hnew
      rw [if_pos rfl]
      exact ((h.delivered c' task htask).append (List.Sublist.refl _)).trans hdelivered
    · rw [if_neg (Ne.symm hne), List.append_nil]
      exact h.delivered c' x hold
  · rw [hreceived, hinbound', hpacketOf, hdelivered', List.filterMap_append, ← List.append_assoc]
    refine h.received.append ?_
    rw [hinbound, List.filterMap_map]
    have hpacket : t.packetOf ∘ (c, ·) = fun payload => some ⟨task.publicKey, payload⟩ := by
      funext payload
      show (t.tasks c).map _ = _
      rw [htask]
      rfl
    rw [hpacket, List.filterMap_eq_map']
  · rw [hinbound']
    exact hbounded

end Sound

theorem push_ok {t t' : Tunnel C} {c : Channel} {action : PeerAction C}
    (h : t.push c action = .ok t') :
    ∃ task, t.tasks c = some task ∧ task.running = true ∧
      task.queue.length < peerActionQueueCapacity ∧ t' = t.setTask c (task.accept action) := by
  unfold push at h
  split at h
  · cases h
  · rename_i task htask
    split at h
    · rename_i hrunning
      split at h
      · rename_i hroom
        cases h
        exact ⟨task, htask, hrunning, hroom, rfl⟩
      · cases h
    · cases h

theorem ready_of_waits {task : Task C} (h : task.waits = true) : task.ready = true :=
  (Bool.and_eq_true_iff.mp h).1

theorem running_of_ready {task : Task C} (h : task.ready = true) : task.running = true := by
  simp only [Task.ready, Bool.and_eq_true] at h
  exact h.1.1

namespace Sound

variable {ourKey : C.Secret} {t : Tunnel C} {X : CookieSeal C}

/-- An action that is accepted; a payload counts as sent. -/
theorem push (h : t.Sound ourKey) {c : Channel} {action : PeerAction C} {t' : Tunnel C}
    (hpush : t.push c action = .ok t')
    (hlegit : ∀ task, t.tasks c = some task → Legit t.ourKey task.publicKey action)
    (waiting : List (Channel × Request)) :
    { t' with
      waiting := waiting
      sent := t'.sent ++ (Actor.payloadsOf [action]).map (c, ·) }.Sound ourKey := by
  obtain ⟨task, htask, hrunning, hroom, rfl⟩ := push_ok hpush
  refine h.step_task (Actor.payloadsOf [action]) [] [] htask
    ((h.task c task htask).accept hrunning hroom (hlegit task htask)) rfl ?_ ?_ rfl ?_ rfl rfl rfl rfl rfl
    (List.append_nil _).symm rfl (List.append_nil _).symm
  · exact List.filterMap_append
  · exact (List.append_nil _).symm ▸ List.Sublist.refl _
  · rw [List.append_nil]
    exact h.bounded

/-- An action from the network, which is no payload. -/
theorem offer (h : t.Sound ourKey) {c : Channel} {action : PeerAction C}
    (hpayload : Actor.payloadsOf [action] = [])
    (hlegit : ∀ task, t.tasks c = some task → Legit t.ourKey task.publicKey action) :
    (t.offer c action).Sound ourKey := by
  unfold Tunnel.offer
  split
  · rename_i t' hpush
    have hsound := h.push hpush hlegit t'.waiting
    rwa [hpayload, List.map_nil, List.append_nil] at hsound
  · exact h

theorem addPeer (h : t.Sound ourKey) (publicKey : PublicKey) (config : PeerConfig) (env : Env C) :
    (t.addPeer publicKey config env).2.Sound ourKey := by
  unfold Tunnel.addPeer RoutingTable.registerPeer
  split
  · exact h
  · rename_i table htable
    split at htable
    · cases htable
    cases htable
    have hold : ∀ c, t.tasks c ≠ none → c ≠ t.spawned := by
      rintro c hne rfl
      exact hne (h.fresh _ le_rfl).1
    have hpacket : ∀ x p, t.packetOf x = some p →
        ((Function.update t.tasks t.spawned (some (Task.spawn t.ourKey publicKey config env))) x.1).map
          (fun task => (⟨task.publicKey, x.2⟩ : Packet)) = some p := by
      intro x p hx
      have hne : x.1 ≠ t.spawned := by
        refine hold x.1 fun hnone => ?_
        rw [packetOf, hnone] at hx
        cases hx
      rw [Function.update_of_ne hne]
      exact hx
    refine ⟨h.ourKey_eq, ?_, ?_, ?_, ?_, ?_, ?_, h.bounded⟩
    · intro c task htask
      rcases update_cases htask with ⟨-, hnew⟩ | ⟨-, hold⟩
      · cases hnew
        exact Task.Sound.spawn publicKey config env
      · exact h.task c task hold
    · intro c hle
      have hlt : t.spawned < c := hle
      exact ⟨(Function.update_of_ne hlt.ne' _ _).trans (h.fresh c hlt.le).1, (h.fresh c hlt.le).2⟩
    · intro key c hentry
      rcases update_cases hentry with ⟨rfl, hnew⟩ | ⟨-, hold'⟩
      · cases hnew
        exact ⟨_, Function.update_self .., rfl⟩
      · obtain ⟨task, htask, hkey⟩ := h.registered key c hold'
        have hne := hold c (by rw [htask]; exact Option.some_ne_none task)
        exact ⟨task, (Function.update_of_ne hne ..).trans htask, hkey⟩
    · intro c task htask
      rcases update_cases htask with ⟨rfl, hnew⟩ | ⟨-, hold⟩
      · cases hnew
        exact (h.fresh _ le_rfl).2.1.symm
      · exact h.sent c task hold
    · intro c task htask
      rcases update_cases htask with ⟨rfl, hnew⟩ | ⟨-, hold⟩
      · cases hnew
        show (t.deliveredBy t.spawned).Sublist _
        rw [(h.fresh _ le_rfl).2.2]
        exact List.nil_sublist _
      · exact h.delivered c task hold
    · refine h.received.trans ?_
      exact filterMap_sublist_of_le hpacket t.delivered

theorem removePeer (h : t.Sound ourKey) (publicKey : PublicKey) :
    (t.removePeer publicKey).Sound ourKey := by
  unfold Tunnel.removePeer RoutingTable.removePeer
  split
  · rename_i actions table hremove
    split at hremove
    · cases hremove
    · cases hremove
      exact h.frame rfl rfl rfl (fun _ _ hentry => (of_update_none hentry).2) rfl rfl
        (List.Sublist.refl _) le_rfl
  · exact h

theorem trySend (h : t.Sound ourKey) (sender : PeerSender) (payload : Bytes) :
    (t.trySend sender payload).2.Sound ourKey := by
  unfold Tunnel.trySend
  split
  · exact h
  · split
    · exact h
    · rename_i t' hpush
      exact h.push hpush (fun _ _ => trivial) t'.waiting

theorem complete (h : t.Sound ourKey) (n : ℕ) : (t.complete n).Sound ourKey := by
  unfold Tunnel.complete
  split
  · exact h
  · rename_i c request hrequest
    split
    · rename_i t' hpush
      have hpayload : Actor.payloadsOf [(request.action : PeerAction C)]
          = request.payload?.toList := by cases request <;> rfl
      have hsound := h.push hpush (fun _ _ => by cases request <;> trivial) (t'.waiting.eraseIdx n)
      rwa [hpayload] at hsound
    · exact h
    · exact h.frame rfl rfl rfl (fun _ _ => id) rfl rfl (List.Sublist.refl _) le_rfl

theorem recv (h : t.Sound ourKey) : t.recv.2.Sound ourKey := by
  unfold Tunnel.recv
  split
  · exact h
  · rename_i packet rest hinbound
    refine h.frame rfl rfl rfl (fun _ _ => id) rfl rfl ?_ ?_
    · show (t.received ++ [packet] ++ rest).Sublist _
      rw [List.append_assoc, List.singleton_append, ← hinbound]
    · rw [hinbound]
      exact Nat.le_succ _

theorem close (h : t.Sound ourKey) : t.close.Sound ourKey :=
  h.frame rfl rfl rfl (fun _ _ => id) rfl rfl
    ((List.Sublist.refl _).append (List.nil_sublist _)) (Nat.zero_le _)

theorem free (h : t.Sound ourKey) : t.free.Sound ourKey := by
  unfold Tunnel.free
  split
  · exact h.frame rfl rfl rfl (fun _ _ hentry => by cases hentry) rfl rfl (List.Sublist.refl _)
      le_rfl
  · exact h

theorem trySendToIndex (h : t.Sound ourKey) (index : UInt32) {action : PeerAction C}
    (hpayload : Actor.payloadsOf [action] = [])
    (hlegit : ∀ publicKey, Legit t.ourKey publicKey action) :
    (t.trySendToIndex index action).Sound ourKey := by
  unfold Tunnel.trySendToIndex
  split
  · exact h
  · exact h.offer hpayload fun task _ => hlegit task.publicKey

/-- An initiation goes to the peer whose key it carries. -/
theorem recvHandshakeInit (h : t.Sound ourKey) (endpoint : SocketAddr) {handshake : InitReceived C}
    (hreceived : ∃ packet, InitReceived.receive t.ourKey packet = .ok handshake) :
    (t.recvHandshakeInit endpoint handshake).Sound ourKey := by
  unfold Tunnel.recvHandshakeInit
  split
  · exact h
  · rename_i c hentry
    refine h.offer rfl fun task htask => ⟨hreceived, ?_⟩
    obtain ⟨task', htask', hkey⟩ := h.registered _ c hentry
    cases htask.symm.trans htask'
    exact hkey.symm

theorem arrive (h : t.Sound ourKey) (a : Arrival) : (t.arrive X a).Sound ourKey := by
  have hinit : ∀ addr handshake, (t.loop.handle t.ourKey X a).1 = .handshakeInit addr handshake →
      ∃ packet, InitReceived.receive t.ourKey packet = .ok handshake :=
    fun addr handshake hhanded => ⟨a.segment, ReadLoop.receive_of_handle _ _ hhanded⟩
  unfold Tunnel.arrive
  split
  · exact h
  · have hloop : { t with loop := (t.loop.handle t.ourKey X a).2 }.Sound ourKey :=
      h.frame rfl rfl rfl (fun _ _ => id) rfl rfl (List.Sublist.refl _) le_rfl
    show (hand { t with loop := (t.loop.handle t.ourKey X a).2 } _).Sound ourKey
    unfold hand
    split
    · rename_i addr handshake hhanded
      exact hloop.recvHandshakeInit addr (hinit addr handshake hhanded)
    · exact hloop.trySendToIndex _ rfl fun _ => trivial
    · exact hloop.trySendToIndex _ rfl fun _ => trivial
    · exact hloop.trySendToIndex _ rfl fun _ => trivial
    · exact hloop.frame rfl rfl rfl (fun _ _ => id) rfl rfl (List.Sublist.refl _) le_rfl
    all_goals exact hloop

/-- A turn of an actor. -/
theorem turn (h : t.Sound ourKey) {c : Channel} {task : Task C} (htask : t.tasks c = some task)
    (hwaits : task.waits = true) (event : Actor.Event C) {n : ℕ}
    (hevent : event.batch = task.queue.take n) :
    (t.setTask c { task.turn event with queue := task.queue.drop n }).Sound ourKey := by
  have hrunning := running_of_ready (ready_of_waits hwaits)
  refine h.step_task [] [] [] htask ((h.task c task htask).turn hrunning hevent) rfl
    (List.append_nil _).symm ?_ rfl ?_ rfl rfl rfl rfl
    (List.append_nil _).symm (List.append_nil _).symm rfl (List.append_nil _).symm
  · have hp : task.actor.machine.Healthy := by
      rw [(h.task c task htask).actor]
      exact Actor.healthy_run (Peer.healthy_new _ _) _
    obtain ⟨new, hinbound⟩ := Actor.inbound_turn hp event
    show (_ ++ []).Sublist ((task.actor.turn event).inbound.take task.passed)
    rw [List.append_nil, hinbound, List.take_append]
    exact List.sublist_append_left _ _
  · rw [List.append_nil]
    exact h.bounded

theorem handle (h : t.Sound ourKey) (c : Channel) (n : ℕ) : (t.handle c n).Sound ourKey := by
  unfold Tunnel.handle
  split
  · exact h
  · rename_i task htask
    split
    · rename_i hwaits
      exact h.turn htask hwaits.1 _ rfl
    · exact h

theorem fire (h : t.Sound ourKey) (c : Channel) (timer : Actor.Timer) :
    (t.fire c timer).Sound ourKey := by
  unfold Tunnel.fire
  split
  · exact h
  · rename_i task htask
    split
    · rename_i hwaits
      exact h.turn htask hwaits (.timer timer) (n := 0) List.take_zero.symm
    · exact h

/-- A task that reports, or ends in one way or the other. -/
theorem set_task (h : t.Sound ourKey) {c : Channel} {task task' : Task C}
    (htask : t.tasks c = some task) (hsound : task'.Sound t.ourKey)
    (hkey : task'.publicKey = task.publicKey) (haccepted : task'.accepted = task.accepted)
    (hactor : task'.actor = task.actor) (hpassed : task'.passed = task.passed)
    (control : List Control) : { t.setTask c task' with control := control }.Sound ourKey := by
  refine h.step_task [] [] [] htask hsound hkey ?_ ?_ rfl ?_
    rfl rfl rfl rfl (List.append_nil _).symm (List.append_nil _).symm rfl (List.append_nil _).symm
  · rw [haccepted, List.append_nil]
  · rw [hactor, hpassed, List.append_nil]
  · rw [List.append_nil]
    exact h.bounded

theorem report (h : t.Sound ourKey) (c : Channel) : (t.report c).Sound ourKey := by
  unfold Tunnel.report
  split
  · exact h
  · rename_i task htask
    split
    · exact h
    · exact h.set_task htask ((h.task c task htask).publish (task.reported + 1) task.passed)
        rfl rfl rfl rfl _

theorem stop (h : t.Sound ourKey) (c : Channel) : (t.stop c).Sound ourKey := by
  unfold Tunnel.stop
  split
  · exact h
  · rename_i task htask
    split
    · rename_i hstop
      exact h.set_task htask ((h.task c task htask).stop hstop.2.1) rfl rfl rfl rfl t.control
    · exact h

theorem panic (h : t.Sound ourKey) (c : Channel) : (t.panic c).Sound ourKey := by
  unfold Tunnel.panic
  split
  · exact h
  · rename_i task htask
    split
    · rename_i hpanic
      exact h.set_task htask ((h.task c task htask).die (running_of_ready hpanic.1)) rfl rfl rfl rfl
        t.control
    · exact h

theorem pass (h : t.Sound ourKey) (c : Channel) : (t.pass c).Sound ourKey := by
  unfold Tunnel.pass
  split
  · exact h
  · rename_i task htask
    split
    · exact h
    · rename_i payload hpayload
      have htake : task.actor.inbound.take (task.passed + 1)
          = task.actor.inbound.take task.passed ++ [payload] := by
        rw [List.take_add_one, hpayload]
        rfl
      have hsound := (h.task c task htask).publish task.reported (task.passed + 1)
      dsimp only
      split
      · rename_i hroom
        refine h.step_task [] [payload] [⟨task.publicKey, payload⟩] htask hsound rfl
          (List.append_nil _).symm ?_ rfl ?_ rfl rfl rfl rfl (List.append_nil _).symm rfl rfl rfl
        · show List.Sublist _ (task.actor.inbound.take (task.passed + 1))
          rw [htake]
        · rw [List.length_append]
          exact hroom.2
      · refine h.step_task [] [] [] htask hsound rfl (List.append_nil _).symm ?_ rfl ?_ rfl rfl rfl
          rfl (List.append_nil _).symm (List.append_nil _).symm rfl (List.append_nil _).symm
        · rw [List.append_nil]
          show List.Sublist _ (task.actor.inbound.take (task.passed + 1))
          rw [htake]
          exact List.sublist_append_left _ _
        · rw [List.append_nil]
          exact h.bounded

/-- Every step keeps the tunnel sound. -/
theorem step (h : t.Sound ourKey) (action : Action C) : (t.step X action).Sound ourKey := by
  have hframe : ∀ {t' : Tunnel C}, t'.ourKey = t.ourKey → t'.tasks = t.tasks →
      t'.spawned = t.spawned → t'.table = t.table → t'.sent = t.sent →
      t'.delivered = t.delivered → t'.received = t.received → t'.inbound = t.inbound →
      t'.Sound ourKey := by
    intro t' hour htasks hspawned htable hsent hdelivered hreceived hinbound
    refine h.frame hour htasks hspawned ?_ hsent hdelivered ?_ ?_
    · rw [htable]
      exact fun _ _ => id
    · rw [hreceived, hinbound]
    · rw [hinbound]
  cases action with
  | addPeer publicKey config env =>
      show (if t.closed then t else _).Sound ourKey
      split
      · exact h
      · exact h.addPeer publicKey config env
  | removePeer publicKey => exact h.removePeer publicKey
  | sendPurge actions =>
      show (Tunnel.sendPurge t actions).Sound ourKey
      unfold Tunnel.sendPurge
      split
      · exact hframe rfl rfl rfl rfl rfl rfl rfl rfl
      · exact h
  | trySend sender payload => exact h.trySend sender payload
  | call sender request =>
      show (Tunnel.call t sender request).2.Sound ourKey
      unfold Tunnel.call
      split
      · exact h
      · exact hframe rfl rfl rfl rfl rfl rfl rfl rfl
  | setPeer publicKey update =>
      show (if t.closed then t else (Tunnel.setPeer t publicKey update).2).Sound ourKey
      split
      · exact h
      unfold Tunnel.setPeer
      split
      · exact h
      · exact hframe rfl rfl rfl rfl rfl rfl rfl rfl
  | complete n => exact h.complete n
  | cancel n => exact hframe rfl rfl rfl rfl rfl rfl rfl rfl
  | recv => exact h.recv
  | close => exact h.close
  | abort =>
      show (Tunnel.abort t).Sound ourKey
      unfold Tunnel.abort
      split
      · exact hframe rfl rfl rfl rfl rfl rfl rfl rfl
      · exact h
  | free => exact h.free
  | arrive a => exact h.arrive a
  | lookup =>
      show (Tunnel.lookup t).Sound ourKey
      unfold Tunnel.lookup
      split
      · exact hframe rfl rfl rfl rfl rfl rfl rfl rfl
      · exact h
  | route =>
      show (Tunnel.route t).Sound ourKey
      unfold Tunnel.route
      split
      · exact hframe rfl rfl rfl rfl rfl rfl rfl rfl
      · exact h
  | handle c n => exact h.handle c n
  | fire c timer => exact h.fire c timer
  | report c => exact h.report c
  | pass c => exact h.pass c
  | stop c => exact h.stop c
  | panic c => exact h.panic c

theorem run (h : t.Sound ourKey) (actions : List (Action C)) : (t.run X actions).Sound ourKey := by
  induction actions generalizing t with
  | nil => exact h
  | cons action rest ih => exact ih (h.step action)

end Sound

/-- The events of a channel's actor so far. -/
def eventsOn (t : Tunnel C) (c : Channel) : List (Actor.Event C) :=
  (t.tasks c).elim [] Task.events

/-- The turn that a step takes, if it takes one. -/
def turnOf (t : Tunnel C) : Action C → Option (Channel × Actor.Event C)
  | .handle c n =>
      match t.tasks c with
      | none => none
      | some task =>
          if task.waits ∧ task.queue.take n ≠ [] then some (c, .actions (task.queue.take n))
          else none
  | .fire c timer =>
      match t.tasks c with
      | none => none
      | some task => if task.waits then some (c, .timer timer) else none
  | _ => none

theorem eventsOn_setTask (t : Tunnel C) {c : Channel} {task task' : Task C}
    (htask : t.tasks c = some task) {new : List (Actor.Event C)}
    (hevents : task'.events = task.events ++ new) (c' : Channel) :
    (t.setTask c task').eventsOn c' = t.eventsOn c' ++ if c = c' then new else [] := by
  unfold eventsOn setTask
  by_cases hc : c = c'
  · subst hc
    rw [if_pos rfl, htask]
    show (Function.update t.tasks c (some task') c).elim [] Task.events = _
    rw [Function.update_self]
    exact hevents
  · rw [if_neg hc, List.append_nil]
    show (Function.update t.tasks c (some task') c').elim [] Task.events = _
    rw [Function.update_of_ne (Ne.symm hc)]

/-- A change of a task that is no turn. -/
theorem eventsOn_setTask_same (t : Tunnel C) {c : Channel} {task task' : Task C}
    (htask : t.tasks c = some task) (hevents : task'.events = task.events) (c' : Channel) :
    (t.setTask c task').eventsOn c' = t.eventsOn c' := by
  have h := t.eventsOn_setTask htask (hevents.trans (List.append_nil _).symm) c'
  rwa [ite_self, List.append_nil] at h

theorem eventsOn_push {t t' : Tunnel C} {c : Channel} {action : PeerAction C}
    (h : t.push c action = .ok t') (c' : Channel) : t'.eventsOn c' = t.eventsOn c' := by
  obtain ⟨task, htask, -, -, rfl⟩ := push_ok h
  exact t.eventsOn_setTask_same htask (by rfl) c'

theorem eventsOn_offer (t : Tunnel C) (c : Channel) (action : PeerAction C) (c' : Channel) :
    (t.offer c action).eventsOn c' = t.eventsOn c' := by
  unfold offer
  split
  · rename_i t' hpush
    exact eventsOn_push hpush c'
  · rfl

theorem eventsOn_hand (t : Tunnel C) (handed : Handed C) (c : Channel) :
    (t.hand handed).eventsOn c = t.eventsOn c := by
  have hindex : ∀ index (action : PeerAction C),
      (t.trySendToIndex index action).eventsOn c = t.eventsOn c := by
    intro index action
    unfold trySendToIndex
    split
    · rfl
    · exact t.eventsOn_offer _ _ c
  unfold hand
  split
  · unfold recvHandshakeInit
    split
    · rfl
    · exact t.eventsOn_offer _ _ c
  all_goals first | exact hindex _ _ | rfl

theorem eventsOn_addPeer {ourKey : C.Secret} {t : Tunnel C} (h : t.Sound ourKey)
    (publicKey : PublicKey) (config : PeerConfig) (env : Env C) (c : Channel) :
    (t.addPeer publicKey config env).2.eventsOn c = t.eventsOn c := by
  unfold addPeer
  split
  · rfl
  · unfold eventsOn
    by_cases hc : c = t.spawned
    · subst hc
      rw [(h.fresh _ le_rfl).1]
      show (Function.update t.tasks t.spawned _ t.spawned).elim [] Task.events = _
      rw [Function.update_self]
      rfl
    · show (Function.update t.tasks t.spawned _ c).elim [] Task.events = _
      rw [Function.update_of_ne hc]

theorem eventsOn_trySend (t : Tunnel C) (sender : PeerSender) (payload : Bytes) (c : Channel) :
    (t.trySend sender payload).2.eventsOn c = t.eventsOn c := by
  unfold trySend
  split
  · rfl
  · split
    · rfl
    · rename_i t' hpush
      exact eventsOn_push hpush c

theorem eventsOn_complete (t : Tunnel C) (n : ℕ) (c : Channel) :
    (t.complete n).eventsOn c = t.eventsOn c := by
  unfold complete
  split
  · rfl
  · split
    · rename_i t' hpush
      exact eventsOn_push hpush c
    · rfl
    · rfl

theorem eventsOn_report (t : Tunnel C) (c c' : Channel) :
    (t.report c).eventsOn c' = t.eventsOn c' := by
  unfold report
  split
  · rfl
  · rename_i task htask
    split
    · rfl
    · show (t.setTask c { task with reported := task.reported + 1 }).eventsOn c' = _
      exact t.eventsOn_setTask_same htask (by rfl) c'

theorem eventsOn_pass (t : Tunnel C) (c c' : Channel) :
    (t.pass c).eventsOn c' = t.eventsOn c' := by
  unfold pass
  split
  · rfl
  · rename_i task htask
    split
    · rfl
    · have hpassed : (t.setTask c { task with passed := task.passed + 1 }).eventsOn c'
        = t.eventsOn c' := t.eventsOn_setTask_same htask (by rfl) c'
      dsimp only
      split <;> exact hpassed

theorem eventsOn_stop (t : Tunnel C) (c c' : Channel) :
    (t.stop c).eventsOn c' = t.eventsOn c' := by
  unfold stop
  split
  · rfl
  · rename_i task htask
    split
    · exact t.eventsOn_setTask_same htask (by rfl) c'
    · rfl

theorem eventsOn_panic (t : Tunnel C) (c c' : Channel) :
    (t.panic c).eventsOn c' = t.eventsOn c' := by
  unfold panic
  split
  · rfl
  · rename_i task htask
    split
    · exact t.eventsOn_setTask_same htask (by rfl) c'
    · rfl

/-- The one turn of a step, seen from a channel. -/
theorem filterMap_turn (c c' : Channel) (event : Actor.Event C) :
    ((some (c', event)).toList.filterMap fun x => if x.1 = c then some x.2 else none)
      = if c' = c then [event] else [] := by
  show List.filterMap _ [(c', event)] = _
  rw [List.filterMap_cons, List.filterMap_nil]
  by_cases hc : c' = c
  · rw [if_pos hc, if_pos hc]
  · rw [if_neg hc, if_neg hc]

theorem eventsOn_handle (t : Tunnel C) (c' : Channel) (n : ℕ) (c : Channel) :
    (t.handle c' n).eventsOn c = t.eventsOn c ++ ((t.turnOf (.handle c' n)).toList.filterMap
      fun x => if x.1 = c then some x.2 else none) := by
  simp only [handle, turnOf]
  cases htask : t.tasks c' with
  | none => exact (List.append_nil _).symm
  | some task =>
      dsimp only
      by_cases hwaits : task.waits ∧ task.queue.take n ≠ []
      · rw [if_pos hwaits, if_pos hwaits, filterMap_turn]
        exact t.eventsOn_setTask htask rfl c
      · rw [if_neg hwaits, if_neg hwaits]
        exact (List.append_nil _).symm

theorem eventsOn_fire (t : Tunnel C) (c' : Channel) (timer : Actor.Timer) (c : Channel) :
    (t.fire c' timer).eventsOn c = t.eventsOn c ++ ((t.turnOf (.fire c' timer)).toList.filterMap
      fun x => if x.1 = c then some x.2 else none) := by
  simp only [fire, turnOf]
  cases htask : t.tasks c' with
  | none => exact (List.append_nil _).symm
  | some task =>
      dsimp only
      by_cases hwaits : task.waits = true
      · rw [if_pos hwaits, if_pos hwaits, filterMap_turn]
        exact t.eventsOn_setTask htask rfl c
      · rw [if_neg hwaits, if_neg hwaits]
        exact (List.append_nil _).symm

/-- **Only turns make events.** -/
theorem eventsOn_step {X : CookieSeal C} {ourKey : C.Secret} {t : Tunnel C} (h : t.Sound ourKey)
    (action : Action C) (c : Channel) :
    (t.step X action).eventsOn c = t.eventsOn c ++
      ((t.turnOf action).toList.filterMap fun x => if x.1 = c then some x.2 else none) := by
  -- the steps that take no turn
  have hnone (hsame : (t.step X action).eventsOn c = t.eventsOn c) (hno : t.turnOf action = none) :
      (t.step X action).eventsOn c = t.eventsOn c ++
        ((t.turnOf action).toList.filterMap fun x => if x.1 = c then some x.2 else none) := by
    rw [hno]
    exact hsame.trans (List.append_nil _).symm
  cases action with
  | handle c' n => exact t.eventsOn_handle c' n c
  | fire c' timer => exact t.eventsOn_fire c' timer c
  | addPeer publicKey config env =>
      refine hnone ?_ rfl
      show (if t.closed then t else (t.addPeer publicKey config env).2).eventsOn c = _
      split
      · rfl
      · exact eventsOn_addPeer h publicKey config env c
  | trySend sender payload => exact hnone (t.eventsOn_trySend sender payload c) rfl
  | complete n => exact hnone (t.eventsOn_complete n c) rfl
  | report c' => exact hnone (t.eventsOn_report c' c) rfl
  | pass c' => exact hnone (t.eventsOn_pass c' c) rfl
  | stop c' => exact hnone (t.eventsOn_stop c' c) rfl
  | panic c' => exact hnone (t.eventsOn_panic c' c) rfl
  | arrive a =>
      refine hnone ?_ rfl
      simp only [step, arrive]
      split
      · rfl
      · exact eventsOn_hand _ _ c
  | removePeer publicKey =>
      refine hnone ?_ rfl
      simp only [step, removePeer]
      split <;> rfl
  | sendPurge actions =>
      refine hnone ?_ rfl
      simp only [step, sendPurge]
      split <;> rfl
  | call sender request =>
      refine hnone ?_ rfl
      simp only [step, call]
      split <;> rfl
  | setPeer publicKey update =>
      refine hnone ?_ rfl
      simp only [step, setPeer]
      split
      · rfl
      · split <;> rfl
  | recv =>
      refine hnone ?_ rfl
      simp only [step, recv]
      split <;> rfl
  | cancel n => exact hnone rfl rfl
  | close => exact hnone rfl rfl
  | abort =>
      refine hnone ?_ rfl
      simp only [step, abort]
      split <;> rfl
  | free =>
      refine hnone ?_ rfl
      simp only [step, free]
      split <;> rfl
  | lookup =>
      refine hnone ?_ rfl
      simp only [step, lookup]
      split <;> rfl
  | route =>
      refine hnone ?_ rfl
      simp only [step, route]
      split <;> rfl

end Tunnel

end Tunstile
