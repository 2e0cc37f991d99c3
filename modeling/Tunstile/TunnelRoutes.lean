/-
Tunstile/TunnelRoutes.lean

The tunnel refines the routing system.

`Net` is the abstract system of `Routing.lean`: machines that are operated
one call at a time, and their reports.  In the tunnel an actor makes all the
calls of a turn in one step, and its control messages follow one by one.  So
the abstract driver lags behind (`Lags`): it has made the calls whose reports
are sent, and the others are still to be made.  Every run of a tunnel that is
not closed is matched by a run of the abstract system (`refines_net`), and
what is proved of routes there holds of the tunnel.

One consequence is about peers that are removed.  Once the purge of a removed
peer is done and no call waits for its actor, nothing can reach that actor any
more, whatever comes later (`removed_gets_nothing`).
-/
import Tunstile.StaleRoutes
import Tunstile.TunnelRuns

namespace Tunstile

variable {C : Crypto}

namespace Tunnel

/-! ### What one step can do -/

/-- The channel of a registered peer's actor. -/
def Registered (t : Tunnel C) (c : Channel) : Prop := ∃ publicKey, t.table.entry publicKey = some c

def Awaited (t : Tunnel C) (c : Channel) : Prop := c ∈ t.waiting.map Prod.fst

/-- Everything that routes depend on is as it was. -/
structure SameRoutes (t t' : Tunnel C) : Prop where
  closed : t'.closed = t.closed
  aborted : t'.aborted = t.aborted
  freed : t'.freed = t.freed
  table : t'.table = t.table
  spawned : t'.spawned = t.spawned
  leaving : t'.leaving = t.leaving
  control : t'.control = t.control
  looked : t'.looked = t.looked
  router : t'.router = t.router

/-- What a step does to a task without the others noticing. -/
inductive TaskMove (t : Tunnel C) (c : Channel) (task : Task C) : Task C → Prop where
  | accepts (action : PeerAction C)
      (hreach : t.Registered c ∨ t.Held c ∨ t.Routed c) : TaskMove t c task (task.accept action)
  | turns (event : Actor.Event C) (queue : List (PeerAction C)) (hready : task.ready = true) :
      TaskMove t c task { task.turn event with queue := queue }
  | passes (hleft : task.passed < task.actor.inbound.length) :
      TaskMove t c task { task with passed := task.passed + 1 }
  | stops (hready : task.ready = true) (hentry : t.table.entry task.publicKey ≠ some c) :
      TaskMove t c task { task with running := false }
  | dies (hready : task.ready = true) : TaskMove t c task task.die

/-- What one step does. -/
inductive Change (t : Tunnel C) : Tunnel C → Prop where
  | aside {t' : Tunnel C} (hroutes : SameRoutes t t') (htasks : t'.tasks = t.tasks)
      (hwaiting : ∀ c, t'.Awaited c → t.Registered c ∨ t.Held c) : Change t t'
  | task {t' : Tunnel C} {c : Channel} {task task' : Task C} (htask : t.tasks c = some task)
      (hmove : TaskMove t c task task') (hroutes : SameRoutes t t')
      (htasks : t'.tasks = Function.update t.tasks c (some task'))
      (hwaiting : ∀ c, t'.Awaited c → t.Awaited c) : Change t t'
  | added (publicKey : PublicKey) (config : PeerConfig) (env : Env C)
      (waiting : List (Channel × Request)) (hopen : t.closed = false)
      (hfree : t.table.peers publicKey = none)
      (hwaiting : ∀ c ∈ waiting.map Prod.fst, t.Awaited c ∨ c = t.spawned) :
      Change t
        { t with
          table := ⟨Function.update t.table.peers publicKey (some t.spawned)⟩
          tasks := Function.update t.tasks t.spawned
            (some (.spawn t.ourKey publicKey config env))
          spawned := t.spawned + 1
          waiting := waiting }
  | removed (publicKey : PublicKey) (actions : Channel)
      (hentry : t.table.peers publicKey = some actions) :
      Change t
        { t with
          table := ⟨Function.update t.table.peers publicKey none⟩
          leaving := actions :: t.leaving }
  | purged (actions : Channel) (hmem : actions ∈ t.leaving) :
      Change t
        { t with leaving := t.leaving.erase actions, control := t.controlWith (.purge actions) }
  | closed : Change t t.close
  | aborted (hclosed : t.closed = true) (hidle : t.looked = none) :
      Change t { t with aborted := true, router := .new, control := [] }
  | freed (haborted : t.aborted = true) (hleaving : t.leaving = []) :
      Change t { t with freed := true, table := .new }
  | looked (control : Control) (rest : List Control) (hcontrol : t.control = control :: rest)
      (hfree : t.looked = none) : Change t { t with looked := some t.table }
  | routed (control : Control) (rest : List Control) (table : RoutingTable)
      (hcontrol : t.control = control :: rest) (hlooked : t.looked = some table) :
      Change t { t with router := t.router.apply control table, control := rest, looked := none }
  | reported (c : Channel) (task : Task C) (control : Control) (htask : t.tasks c = some task)
      (hcontrol : task.actor.control[task.reported]? = some control) :
      Change t
        { t.setTask c { task with reported := task.reported + 1 } with
          control := t.controlWith control }

/-- A waiting call holds on to its entry. -/
theorem held_of_awaited {t : Tunnel C} {c : Channel} (h : t.Awaited c) : t.Held c := Or.inl h

namespace Change

variable {t : Tunnel C}

/-- A change outside of the routes, the tasks and the waiting calls. -/
theorem outside {t' : Tunnel C} (hroutes : SameRoutes t t') (htasks : t'.tasks = t.tasks)
    (hwaiting : t'.waiting = t.waiting) : Change t t' := by
  refine .aside hroutes htasks fun c h => Or.inr (held_of_awaited ?_)
  rwa [Awaited, hwaiting] at h

theorem idle (t : Tunnel C) : Change t t := outside ⟨rfl, rfl, rfl, rfl, rfl, rfl, rfl, rfl, rfl⟩ rfl rfl

/-- An action that a channel accepts, if it accepts it. -/
theorem push {c : Channel} {action : PeerAction C} {t' : Tunnel C} (h : t.push c action = .ok t')
    (hreach : t.Registered c ∨ t.Held c ∨ t.Routed c)
    {waiting : List (Channel × Request)} (sent : List (Channel × Bytes))
    (hwaiting : ∀ c ∈ waiting.map Prod.fst, t.Awaited c) :
    Change t { t' with waiting := waiting, sent := sent } := by
  obtain ⟨task, htask, -, -, rfl⟩ := push_ok h
  exact .task htask (.accepts action hreach) ⟨rfl, rfl, rfl, rfl, rfl, rfl, rfl, rfl, rfl⟩ rfl
    hwaiting

theorem offer (loop : ReadLoop C) {c : Channel} (action : PeerAction C)
    (hreach : t.Registered c ∨ t.Held c ∨ t.Routed c) :
    Change t ({ t with loop := loop }.offer c action) := by
  unfold Tunnel.offer
  split
  · rename_i t' hpush
    obtain ⟨task, htask, -, -, rfl⟩ := push_ok hpush
    exact .task htask (.accepts action hreach) ⟨rfl, rfl, rfl, rfl, rfl, rfl, rfl, rfl, rfl⟩ rfl
      fun _ => id
  · exact outside ⟨rfl, rfl, rfl, rfl, rfl, rfl, rfl, rfl, rfl⟩ rfl rfl

theorem trySendToIndex (loop : ReadLoop C) (index : UInt32) (action : PeerAction C) :
    Change t ({ t with loop := loop }.trySendToIndex index action) := by
  unfold Tunnel.trySendToIndex
  split
  · exact outside ⟨rfl, rfl, rfl, rfl, rfl, rfl, rfl, rfl, rfl⟩ rfl rfl
  · rename_i c hroute
    exact offer loop action (Or.inr (Or.inr ⟨index, hroute⟩))

theorem arrive (X : CookieSeal C) (t : Tunnel C) (a : Arrival) : Change t (t.arrive X a) := by
  unfold Tunnel.arrive
  split
  · exact idle t
  show Change t (hand { t with loop := (t.loop.handle t.ourKey X a).2 } _)
  unfold hand Tunnel.recvHandshakeInit
  split
  · split
    · exact outside ⟨rfl, rfl, rfl, rfl, rfl, rfl, rfl, rfl, rfl⟩ rfl rfl
    · rename_i c hentry
      exact offer _ _ (Or.inl ⟨_, hentry⟩)
  · exact trySendToIndex _ _ _
  · exact trySendToIndex _ _ _
  · exact trySendToIndex _ _ _
  all_goals exact outside ⟨rfl, rfl, rfl, rfl, rfl, rfl, rfl, rfl, rfl⟩ rfl rfl

theorem addPeer (hopen : t.closed = false) (publicKey : PublicKey) (config : PeerConfig)
    (env : Env C) : Change t (t.addPeer publicKey config env).2 := by
  unfold Tunnel.addPeer RoutingTable.registerPeer
  cases hentry : t.table.peers publicKey with
  | some c => exact idle t
  | none =>
      refine .added publicKey config env _ hopen hentry fun c hc => ?_
      rw [List.map_append, List.mem_append, List.map_map] at hc
      refine hc.imp_right fun hnew => ?_
      obtain ⟨endpoint, -, heq⟩ := List.mem_map.mp hnew
      exact heq.symm

/-- The entry that a handle leads to. -/
theorem of_entry {sender : PeerSender} {c : Channel} (h : t.entry sender = .ok c) :
    t.Registered c ∨ t.Held c := by
  unfold Tunnel.entry at h
  split at h
  · rename_i hentry
    cases h
    exact hentry.imp_left fun h => ⟨_, h⟩
  · split at h <;> cases h

theorem trySend (t : Tunnel C) (sender : PeerSender) (payload : Bytes) :
    Change t (t.trySend sender payload).2 := by
  unfold Tunnel.trySend
  split
  · exact idle t
  · rename_i c hentry
    split
    · exact idle t
    · rename_i t' hpush
      have hchange := push hpush ((of_entry hentry).imp_right Or.inl)
        (t'.sent ++ [(c, payload)]) fun _ => id
      obtain ⟨task, -, -, -, rfl⟩ := push_ok hpush
      exact hchange

/-- A call that begins to wait. -/
theorem wait {c : Channel} (request : Request) (h : t.Registered c ∨ t.Held c) :
    Change t { t with waiting := t.waiting ++ [(c, request)] } := by
  refine .aside ⟨rfl, rfl, rfl, rfl, rfl, rfl, rfl, rfl, rfl⟩ rfl fun c' hc' => ?_
  rw [Awaited, List.map_append, List.mem_append] at hc'
  rcases hc' with hc' | hc'
  · exact Or.inr (held_of_awaited hc')
  · cases List.mem_singleton.mp hc'
    exact h

theorem awaited_of_eraseIdx {n : ℕ} {c : Channel}
    (h : c ∈ (t.waiting.eraseIdx n).map Prod.fst) : t.Awaited c :=
  ((t.waiting.eraseIdx_sublist n).map Prod.fst).subset h

theorem cancel (t : Tunnel C) (n : ℕ) : Change t (t.cancel n) :=
  .aside ⟨rfl, rfl, rfl, rfl, rfl, rfl, rfl, rfl, rfl⟩ rfl fun _ h =>
    Or.inr (held_of_awaited (awaited_of_eraseIdx h))

theorem complete (t : Tunnel C) (n : ℕ) : Change t (t.complete n) := by
  unfold Tunnel.complete
  split
  · exact idle t
  · rename_i c request hn
    have hawaited : t.Awaited c := List.mem_map.mpr ⟨_, List.mem_of_getElem? hn, rfl⟩
    split
    · rename_i t' hpush
      have hchange := push hpush (Or.inr (Or.inl (held_of_awaited hawaited)))
        (t'.sent ++ request.payload?.toList.map (c, ·)) fun _ => awaited_of_eraseIdx (n := n)
      obtain ⟨task, -, -, -, rfl⟩ := push_ok hpush
      exact hchange
    · exact idle t
    · exact cancel t n

theorem removePeer (t : Tunnel C) (publicKey : PublicKey) : Change t (t.removePeer publicKey) := by
  unfold Tunnel.removePeer RoutingTable.removePeer
  cases hentry : t.table.peers publicKey with
  | none => exact idle t
  | some actions => exact .removed publicKey actions hentry

theorem sendPurge (t : Tunnel C) (actions : Channel) : Change t (t.sendPurge actions) := by
  unfold Tunnel.sendPurge
  split
  · rename_i hmem
    exact .purged actions hmem
  · exact idle t

theorem call (t : Tunnel C) (sender : PeerSender) (request : Request) :
    Change t (t.call sender request).2 := by
  unfold Tunnel.call
  split
  · exact idle t
  · rename_i c hentry
    exact wait request (of_entry hentry)

theorem setPeer (t : Tunnel C) (publicKey : PublicKey) (update : PeerUpdate) :
    Change t (t.setPeer publicKey update).2 := by
  unfold Tunnel.setPeer
  split
  · exact idle t
  · rename_i c hentry
    exact wait (.update update) (Or.inl ⟨publicKey, hentry⟩)

theorem recv (t : Tunnel C) : Change t t.recv.2 := by
  unfold Tunnel.recv
  split
  · exact idle t
  · exact outside ⟨rfl, rfl, rfl, rfl, rfl, rfl, rfl, rfl, rfl⟩ rfl rfl

theorem lookup (t : Tunnel C) : Change t t.lookup := by
  unfold Tunnel.lookup
  split
  · rename_i control rest haborted hcontrol hlooked
    exact .looked control rest hcontrol hlooked
  · exact idle t

theorem route (t : Tunnel C) : Change t t.route := by
  unfold Tunnel.route
  split
  · rename_i control rest table haborted hcontrol hlooked
    exact .routed control rest table hcontrol hlooked
  · exact idle t

theorem handle (t : Tunnel C) (c : Channel) (n : ℕ) : Change t (t.handle c n) := by
  unfold Tunnel.handle
  split
  · exact idle t
  · rename_i task htask
    split
    · rename_i hwaits
      exact .task htask (.turns _ _ (ready_of_waits hwaits.1))
        ⟨rfl, rfl, rfl, rfl, rfl, rfl, rfl, rfl, rfl⟩ rfl fun _ => id
    · exact idle t

theorem fire (t : Tunnel C) (c : Channel) (timer : Actor.Timer) : Change t (t.fire c timer) := by
  unfold Tunnel.fire
  split
  · exact idle t
  · rename_i task htask
    split
    · rename_i hwaits
      exact .task htask (.turns (.timer timer) task.queue (ready_of_waits hwaits))
        ⟨rfl, rfl, rfl, rfl, rfl, rfl, rfl, rfl, rfl⟩ rfl fun _ => id
    · exact idle t

theorem report (t : Tunnel C) (c : Channel) : Change t (t.report c) := by
  unfold Tunnel.report
  split
  · exact idle t
  · rename_i task htask
    split
    · exact idle t
    · rename_i control hcontrol
      exact .reported c task control htask hcontrol

theorem pass (t : Tunnel C) (c : Channel) : Change t (t.pass c) := by
  unfold Tunnel.pass
  split
  · exact idle t
  · rename_i task htask
    split
    · exact idle t
    · rename_i payload hpayload
      have hleft : task.passed < task.actor.inbound.length :=
        (List.getElem?_eq_some_iff.mp hpayload).1
      dsimp only
      split <;>
        exact .task htask (.passes hleft) ⟨rfl, rfl, rfl, rfl, rfl, rfl, rfl, rfl, rfl⟩ rfl fun _ => id

theorem stop (t : Tunnel C) (c : Channel) : Change t (t.stop c) := by
  unfold Tunnel.stop
  split
  · exact idle t
  · rename_i task htask
    split
    · rename_i hstop
      exact .task htask (.stops (ready_of_waits hstop.1) hstop.2.2.1)
        ⟨rfl, rfl, rfl, rfl, rfl, rfl, rfl, rfl, rfl⟩ rfl fun _ => id
    · exact idle t

theorem panic (t : Tunnel C) (c : Channel) : Change t (t.panic c) := by
  unfold Tunnel.panic
  split
  · exact idle t
  · rename_i task htask
    split
    · rename_i hpanic
      exact .task htask (.dies hpanic.1) ⟨rfl, rfl, rfl, rfl, rfl, rfl, rfl, rfl, rfl⟩ rfl
        fun _ => id
    · exact idle t

theorem abort (t : Tunnel C) : Change t t.abort := by
  unfold Tunnel.abort
  split
  · rename_i habort
    exact .aborted habort.1 habort.2
  · exact idle t

theorem free (t : Tunnel C) : Change t t.free := by
  unfold Tunnel.free
  split
  · rename_i hfree
    exact .freed hfree.1 hfree.2
  · exact idle t

/-- **Every step is one of these changes.** -/
theorem step (X : CookieSeal C) (t : Tunnel C) (action : Action C) :
    Change t (t.step X action) := by
  cases action with
  | addPeer publicKey config env =>
      show Change t (if _ then _ else _)
      split
      · exact idle t
      · rename_i hopen
        exact addPeer (Bool.eq_false_iff.mpr hopen) publicKey config env
  | removePeer publicKey => exact removePeer t publicKey
  | sendPurge actions => exact sendPurge t actions
  | trySend sender payload => exact trySend t sender payload
  | call sender request => exact call t sender request
  | setPeer publicKey update =>
      show Change t (if _ then _ else _)
      split
      · exact idle t
      · exact setPeer t publicKey update
  | complete n => exact complete t n
  | cancel n => exact cancel t n
  | recv => exact recv t
  | close => exact .closed
  | abort => exact abort t
  | free => exact free t
  | arrive a => exact arrive X t a
  | lookup => exact lookup t
  | route => exact route t
  | handle c n => exact handle t c n
  | fire c timer => exact fire t c timer
  | report c => exact report t c
  | pass c => exact pass t c
  | stop c => exact stop t c
  | panic c => exact panic t c

end Change

/-! ### Drivers that lag behind -/

/-- The driver `d` has yet to make some of the calls that the actor of `task`
has made; their reports are those that the task has yet to send. -/
structure Lags (task : Task C) (d : Driver C) : Prop where
  key : d.machine.peerKey = task.publicKey
  healthy : d.machine.Healthy
  behind : ∃ ops, task.actor.machine = d.machine.run ops ∧
    task.actor.control.drop task.reported = d.outbox ++ d.machine.reportsOf ops

theorem Lags.spawn (ourKey : C.Secret) (publicKey : PublicKey) (config : PeerConfig) (env : Env C) :
    Lags (Task.spawn ourKey publicKey config env)
      ⟨(Peer.new C publicKey).setPresharedKey config.presharedKey, []⟩ where
  key := rfl
  healthy := Peer.healthy_new publicKey config.presharedKey
  behind := ⟨[], rfl, rfl⟩

/-- Nothing is left to report when a task is ready. -/
theorem drop_of_ready {task : Task C} (h : task.ready = true) :
    task.actor.control.drop task.reported = [] := by
  simp only [Task.ready, Bool.and_eq_true, beq_iff_eq] at h
  rw [h.1.2, List.drop_length]

/-- A turn adds calls and reports. -/
theorem Lags.turn {task : Task C} {d : Driver C} (h : Lags task d) (hready : task.ready = true)
    (event : Actor.Event C) (queue : List (PeerAction C)) :
    Lags { task.turn event with queue := queue } d := by
  obtain ⟨ops, hmachine, hreports⟩ := h.behind
  have hp : task.actor.machine.Healthy := hmachine ▸ Peer.healthy_run h.healthy ops
  obtain ⟨ops', hmachine', hcontrol⟩ := Actor.follows_turn hp event hp.wellFormed
  refine ⟨h.key, h.healthy, ops ++ ops', ?_, ?_⟩
  · show (task.actor.turn event).machine = _
    rw [hmachine', hmachine, Peer.run_append]
  · show (task.actor.turn event).control.drop task.reported = _
    have hle : task.reported ≤ task.actor.control.length := by
      simp only [Task.ready, Bool.and_eq_true, beq_iff_eq] at hready
      exact hready.1.2.le
    rw [hcontrol, List.drop_append_of_le_length hle, hreports, Peer.reportsOf_append, hmachine,
      List.append_assoc]

/-- What a task does beside its actor does not matter. -/
theorem Lags.of_eq {task task' : Task C} {d : Driver C} (h : Lags task d)
    (hkey : task'.publicKey = task.publicKey) (hactor : task'.actor = task.actor)
    (hreported : task'.reported = task.reported) : Lags task' d := by
  refine ⟨h.key.trans hkey.symm, h.healthy, ?_⟩
  rw [hactor, hreported]
  exact h.behind

/-- How a task and a driver stand to each other. -/
inductive Stands : Option (Task C) → Option (Driver C) → Prop where
  | absent : Stands none none
  | runs {task : Task C} {d : Driver C} (h : Lags task d) : Stands (some task) (some d)
  | ended {task : Task C} (hrunning : task.running = false)
      (hsent : task.actor.control.length ≤ task.reported) : Stands (some task) none

namespace Stands

variable {task task' : Task C} {driver : Option (Driver C)}

/-- What a task does beside its actor does not matter. -/
theorem of_eq (h : Stands (some task) driver) (hkey : task'.publicKey = task.publicKey)
    (hactor : task'.actor = task.actor) (hreported : task'.reported = task.reported)
    (hrunning : task'.running = task.running) : Stands (some task') driver := by
  cases h with
  | runs hlags => exact .runs (hlags.of_eq hkey hactor hreported)
  | ended hended hsent =>
      refine .ended (hrunning.trans hended) ?_
      rw [hactor, hreported]
      exact hsent

/-- A task that runs has a driver. -/
theorem exists_driver (h : Stands (some task) driver) (hready : task.ready = true) :
    ∃ d, driver = some d ∧ Lags task d := by
  cases h with
  | runs hlags => exact ⟨_, rfl, hlags⟩
  | ended hended hsent =>
      simp only [Task.ready, hended, Bool.false_and] at hready
      cases hready

/-- A task and its driver change together. -/
theorem update {tasks : Channel → Option (Task C)} {drivers : Channel → Option (Driver C)}
    (h : ∀ c, Stands (tasks c) (drivers c)) {c : Channel} {new : Option (Task C)}
    (hnew : Stands new driver) (c' : Channel) :
    Stands (Function.update tasks c new c') (Function.update drivers c driver c') := by
  by_cases hc : c' = c
  · subst hc
    rw [Function.update_self, Function.update_self]
    exact hnew
  · rw [Function.update_of_ne hc, Function.update_of_ne hc]
    exact h c'

end Stands

/-- The routing system stands where the tunnel stands, but for its drivers,
which lag behind. -/
structure Simulates (n : Net C) (t : Tunnel C) : Prop where
  isOpen : t.closed = false
  listens : t.aborted = false
  table : n.table = t.table
  spawned : n.spawned = t.spawned
  leaving : n.leaving = t.leaving
  queue : n.queue = t.control
  looked : n.looked = t.looked
  router : n.router = t.router
  drivers : ∀ c, Stands (t.tasks c) (n.drivers c)

theorem simulates_start (ourKey : C.Secret) (guard : LoadGuard C) (now : Instant) :
    Simulates (Net.start C) (start ourKey guard now) :=
  ⟨rfl, rfl, rfl, rfl, rfl, rfl, rfl, rfl, fun _ => .absent⟩

theorem keepsPeers_singleton {action : Net.Action C} (h : action.keepsPeers = true) :
    ∀ a ∈ [action], a.keepsPeers = true := fun _ ha => List.mem_singleton.mp ha ▸ h

/-- Before a report is sent, the driver makes the calls up to it. -/
theorem Lags.exists_report {n : Net C} {c : Channel} {d : Driver C} {ops : List (Peer.Op C)}
    {control : Control} {rest : List Control} (hd : n.drivers c = some d)
    (hp : d.machine.Healthy) (h : control :: rest = d.outbox ++ d.machine.reportsOf ops) :
    ∃ actions d', (∀ action ∈ actions, action.keepsPeers = true) ∧
      n.run actions = { n with
        drivers := Function.update n.drivers c (some d'), queue := n.queue ++ [control] } ∧
      d'.machine.peerKey = d.machine.peerKey ∧ d'.machine.Healthy ∧
      ∃ ops', d.machine.run ops = d'.machine.run ops' ∧
        rest = d'.outbox ++ d'.machine.reportsOf ops' := by
  -- by induction on the calls that are still to be made
  induction ops generalizing n d with
  | nil =>
      obtain ⟨machine, outbox⟩ := d
      have hout : outbox = control :: rest := by
        rw [h]
        exact (List.append_nil _).symm
      subst hout
      refine ⟨[.report c], ⟨machine, rest⟩, keepsPeers_singleton rfl, ?_, rfl, hp, [], rfl,
        (List.append_nil _).symm⟩
      show n.report c = _
      rw [Net.report, hd]
  | cons op ops ih =>
      obtain ⟨machine, outbox⟩ := d
      cases outbox with
      | cons first outbox =>
          obtain ⟨rfl, hrest⟩ := List.cons_eq_cons.mp h
          refine ⟨[.report c], ⟨machine, outbox⟩, keepsPeers_singleton rfl, ?_, rfl, hp, op :: ops,
            rfl, hrest⟩
          show n.report c = _
          rw [Net.report, hd]
      | nil =>
          have hstep : n.step (.operate c op) = { n with
              drivers := Function.update n.drivers c
                (some ⟨(machine.step op).2, machine.reports op⟩) } := by
            simp only [Net.step, Net.operate, hd]
          have heff := machine.step_effect hp.wellFormed op
          obtain ⟨actions, d', hkeeps, hrun, hkey, hp', ops', hmachine, hrest⟩ :=
            ih (n := n.step (.operate c op)) (d := ⟨(machine.step op).2, machine.reports op⟩)
              (by rw [hstep]; exact Function.update_self ..) (heff.healthy hp) h
          refine ⟨.operate c op :: actions, d', ?_, ?_, hkey.trans heff.peerKey_eq, hp', ops',
            hmachine, hrest⟩
          · rintro action (_ | ⟨_, hmem⟩)
            · rfl
            · exact hkeeps action hmem
          show (n.step (.operate c op)).run actions = _
          rw [hrun, hstep]
          simp only [Function.update_idem]

namespace Simulates

variable {n : Net C} {t t' : Tunnel C}

/-- The read loop of an open tunnel receives what is sent to it. -/
theorem controlWith (h : Simulates n t) (control : Control) :
    t.controlWith control = t.control ++ [control] := by
  rw [Tunnel.controlWith, h.listens]
  rfl

/-- A change of tasks and drivers. -/
theorem set_tasks (h : Simulates n t) (hroutes : SameRoutes t t')
    {drivers : Channel → Option (Driver C)} (hdrivers : ∀ c, Stands (t'.tasks c) (drivers c)) :
    Simulates { n with drivers := drivers } t' where
  isOpen := hroutes.closed.trans h.isOpen
  listens := hroutes.aborted.trans h.listens
  table := h.table.trans hroutes.table.symm
  spawned := h.spawned.trans hroutes.spawned.symm
  leaving := h.leaving.trans hroutes.leaving.symm
  queue := h.queue.trans hroutes.control.symm
  looked := h.looked.trans hroutes.looked.symm
  router := h.router.trans hroutes.router.symm
  drivers := hdrivers

/-- A change of one task that its driver need not follow. -/
theorem set_task (h : Simulates n t) (hroutes : SameRoutes t t') {c : Channel} {task' : Task C}
    (htasks : t'.tasks = Function.update t.tasks c (some task'))
    (hstands : Stands (some task') (n.drivers c)) : Simulates n t' := by
  refine h.set_tasks hroutes fun c' => ?_
  have hupdate := Stands.update h.drivers (c := c) hstands c'
  rwa [Function.update_eq_self, ← htasks] at hupdate

/-- What one task does beside the others. -/
theorem task (h : Simulates n t) (hroutes : SameRoutes t t') {c : Channel} {task task' : Task C}
    (htask : t.tasks c = some task) (hmove : TaskMove t c task task')
    (htasks : t'.tasks = Function.update t.tasks c (some task')) :
    ∃ actions, (∀ action ∈ actions, action.keepsPeers = true) ∧ Simulates (n.run actions) t' := by
  have hstands := h.drivers c
  rw [htask] at hstands
  cases hmove with
  | accepts action hreach =>
      exact ⟨[], nofun, h.set_task hroutes htasks (hstands.of_eq rfl rfl rfl rfl)⟩
  | passes hleft => exact ⟨[], nofun, h.set_task hroutes htasks (hstands.of_eq rfl rfl rfl rfl)⟩
  | turns event queue hready =>
      obtain ⟨d, hd, hlags⟩ := hstands.exists_driver hready
      refine ⟨[], nofun, h.set_task hroutes htasks ?_⟩
      rw [hd]
      exact .runs (hlags.turn hready event queue)
  | dies hready =>
      -- the driver of a task that died stays where it is
      obtain ⟨d, hd, hlags⟩ := hstands.exists_driver hready
      refine ⟨[], nofun, h.set_task hroutes htasks ?_⟩
      rw [hd]
      exact .runs (hlags.of_eq rfl rfl rfl)
  | stops hready hentry =>
      obtain ⟨⟨machine, outbox⟩, hd, hlags⟩ := hstands.exists_driver hready
      obtain ⟨ops, -, hreports⟩ := hlags.behind
      have hsent := drop_of_ready hready
      rw [hsent] at hreports
      obtain ⟨rfl, -⟩ := List.append_eq_nil_iff.mp hreports.symm
      have hother : n.table.entry machine.peerKey ≠ some c := by
        rw [h.table, hlags.key]
        exact hentry
      -- the calls that are left have nothing to report, so the driver may stop before them
      have hstop : n.step (.stop c)
          = { n with drivers := Function.update n.drivers c none } := by
        simp only [Net.step, Net.stop, hd, if_neg hother]
      refine ⟨[.stop c], keepsPeers_singleton rfl, ?_⟩
      show Simulates (n.step (.stop c)) t'
      rw [hstop]
      have hended : Stands (some { task with running := false }) (none : Option (Driver C)) :=
        .ended rfl (List.drop_eq_nil_iff.mp hsent)
      refine h.set_tasks hroutes fun c' => ?_
      rw [htasks]
      exact .update h.drivers hended c'

theorem added (h : Simulates n t) (publicKey : PublicKey) (config : PeerConfig) (env : Env C)
    (waiting : List (Channel × Request)) (hfree : t.table.peers publicKey = none) :
    Simulates (n.step (.addPeer publicKey config.presharedKey))
      { t with
        table := ⟨Function.update t.table.peers publicKey (some t.spawned)⟩
        tasks := Function.update t.tasks t.spawned (some (.spawn t.ourKey publicKey config env))
        spawned := t.spawned + 1
        waiting := waiting } := by
  have hstep : n.step (.addPeer publicKey config.presharedKey) = { n with
      table := ⟨Function.update n.table.peers publicKey (some n.spawned)⟩
      drivers := Function.update n.drivers n.spawned
        (some ⟨(Peer.new C publicKey).setPresharedKey config.presharedKey, []⟩)
      spawned := n.spawned + 1 } := by
    simp only [Net.step, Net.addPeer, RoutingTable.registerPeer, h.table, hfree,
      Option.isSome_none, Bool.false_eq_true, if_false]
  rw [hstep, h.table, h.spawned]
  exact ⟨h.isOpen, h.listens, rfl, rfl, h.leaving, h.queue, h.looked, h.router,
    Stands.update h.drivers (.runs (Lags.spawn t.ourKey publicKey config env))⟩

theorem removed (h : Simulates n t) (publicKey : PublicKey) {actions : Channel}
    (hentry : t.table.peers publicKey = some actions) :
    Simulates (n.step (.removePeer publicKey))
      { t with
        table := ⟨Function.update t.table.peers publicKey none⟩
        leaving := actions :: t.leaving } := by
  simp only [Net.step, Net.removePeer, RoutingTable.removePeer, h.table, hentry]
  exact ⟨h.isOpen, h.listens, rfl, h.spawned, congrArg _ h.leaving, h.queue, h.looked, h.router, h.drivers⟩

theorem purged (h : Simulates n t) {actions : Channel} (hmem : actions ∈ t.leaving) :
    Simulates (n.step (.sendPurge actions))
      { t with leaving := t.leaving.erase actions, control := t.controlWith (.purge actions) } := by
  rw [h.controlWith]
  simp only [Net.step, Net.sendPurge, h.leaving, if_pos hmem, h.queue]
  exact ⟨h.isOpen, h.listens, h.table, h.spawned, rfl, rfl, h.looked, h.router, h.drivers⟩

theorem looked_up (h : Simulates n t) {control : Control} {rest : List Control}
    (hcontrol : t.control = control :: rest) (hfree : t.looked = none) :
    Simulates (n.step .lookup) { t with looked := some t.table } := by
  have hstep : n.step .lookup = { n with looked := some n.table } := by
    simp only [Net.step, Net.lookup, h.queue, hcontrol, h.looked, hfree]
  rw [hstep]
  exact ⟨h.isOpen, h.listens, h.table, h.spawned, h.leaving, h.queue, congrArg some h.table, h.router,
    h.drivers⟩

theorem routed (h : Simulates n t) {control : Control} {rest : List Control} {table : RoutingTable}
    (hcontrol : t.control = control :: rest) (hlooked : t.looked = some table) :
    Simulates (n.step .route)
      { t with router := t.router.apply control table, control := rest, looked := none } := by
  simp only [Net.step, Net.route, h.queue, hcontrol, h.looked, hlooked, h.router]
  exact ⟨h.isOpen, h.listens, h.table, h.spawned, h.leaving, rfl, rfl, rfl, h.drivers⟩

theorem reported (h : Simulates n t) {c : Channel} {task : Task C} {control : Control}
    (htask : t.tasks c = some task)
    (hcontrol : task.actor.control[task.reported]? = some control) :
    ∃ actions, (∀ action ∈ actions, action.keepsPeers = true) ∧ Simulates (n.run actions)
      { t.setTask c { task with reported := task.reported + 1 } with
        control := t.controlWith control } := by
  rw [h.controlWith]
  have hstands := h.drivers c
  rw [htask] at hstands
  have hlt : task.reported < task.actor.control.length := (List.getElem?_eq_some_iff.mp hcontrol).1
  cases hd : n.drivers c with
  | none =>
      -- a task that has ended has sent all its reports
      rw [hd] at hstands
      cases hstands with
      | ended hended hsent => exact absurd hlt (Nat.not_lt.mpr hsent)
  | some d =>
      rw [hd] at hstands
      cases hstands with
      | runs hlags =>
          obtain ⟨ops, hmachine, hreports⟩ := hlags.behind
          have hdrop : control :: task.actor.control.drop (task.reported + 1)
              = d.outbox ++ d.machine.reportsOf ops := by
            obtain ⟨-, rfl⟩ := List.getElem?_eq_some_iff.mp hcontrol
            rw [← hreports, List.getElem_cons_drop]
          obtain ⟨actions, d', hkeeps, hrun, hkey, hp, ops', hmachine', hrest⟩ :=
            Lags.exists_report hd hlags.healthy hdrop
          refine ⟨actions, hkeeps, ?_⟩
          rw [hrun, h.queue]
          refine ⟨h.isOpen, h.listens, h.table, h.spawned, h.leaving, rfl, h.looked, h.router, ?_⟩
          exact Stands.update h.drivers
            (.runs ⟨hkey.trans hlags.key, hp, ops', hmachine.trans hmachine', hrest⟩)

/-- A step that leaves the registry alone. -/
theorem keeps (h : Simulates n t) (hchange : Change t t') (hopen : t'.closed = false)
    (htable : t'.table = t.table) :
    ∃ actions, (∀ action ∈ actions, action.keepsPeers = true) ∧ Simulates (n.run actions) t' := by
  cases hchange with
  | aside hroutes htasks hwaiting =>
      refine ⟨[], nofun, h.set_tasks hroutes fun c => ?_⟩
      rw [htasks]
      exact h.drivers c
  | task htask hmove hroutes htasks hwaiting => exact h.task hroutes htask hmove htasks
  | added publicKey config env waiting _ hfree hwaiting =>
      have hsame := congrFun (congrArg RoutingTable.peers htable) publicKey
      rw [hfree] at hsame
      cases (Function.update_self publicKey _ _).symm.trans hsame
  | removed publicKey actions hentry =>
      have hsame := congrFun (congrArg RoutingTable.peers htable) publicKey
      rw [hentry] at hsame
      cases (Function.update_self publicKey _ _).symm.trans hsame
  | purged actions hmem => exact ⟨[.sendPurge actions], keepsPeers_singleton rfl, h.purged hmem⟩
  | closed => cases hopen
  | aborted hclosed hidle => cases h.isOpen.symm.trans hclosed
  | freed haborted hleaving => cases h.listens.symm.trans haborted
  | looked control rest hcontrol hfree =>
      exact ⟨[.lookup], keepsPeers_singleton rfl, h.looked_up hcontrol hfree⟩
  | routed control rest table hcontrol hlooked =>
      exact ⟨[.route], keepsPeers_singleton rfl, h.routed hcontrol hlooked⟩
  | reported c task control htask hcontrol => exact h.reported htask hcontrol

/-- **Every step of the tunnel is some steps of the routing system**, unless
it closes the tunnel. -/
theorem change (h : Simulates n t) (hchange : Change t t') (hopen : t'.closed = false) :
    ∃ actions, Simulates (n.run actions) t' := by
  by_cases htable : t'.table = t.table
  · obtain ⟨actions, -, hsim⟩ := h.keeps hchange hopen htable
    exact ⟨actions, hsim⟩
  cases hchange with
  | added publicKey config env waiting _ hfree hwaiting =>
      exact ⟨[.addPeer publicKey config.presharedKey], h.added publicKey config env waiting hfree⟩
  | removed publicKey actions hentry => exact ⟨[.removePeer publicKey], h.removed publicKey hentry⟩
  | closed => cases hopen
  | freed haborted hleaving => cases h.listens.symm.trans haborted
  | aside hroutes => exact absurd hroutes.table htable
  | task htask hmove hroutes => exact absurd hroutes.table htable
  | _ => exact absurd rfl htable

end Simulates

/-- A tunnel that is open was open before. -/
theorem isOpen_of_change {t t' : Tunnel C} (h : Change t t') (hopen : t'.closed = false) :
    t.closed = false := by
  cases h with
  | aside hroutes => exact hroutes.closed.symm.trans hopen
  | task htask hmove hroutes => exact hroutes.closed.symm.trans hopen
  | closed => cases hopen
  | _ => exact hopen

theorem isOpen_of_run {X : CookieSeal C} {t : Tunnel C} {actions : List (Action C)}
    (hopen : (t.run X actions).closed = false) : t.closed = false := by
  induction actions generalizing t with
  | nil => exact hopen
  | cons action rest ih => exact isOpen_of_change (Change.step X t action) (ih hopen)

theorem exists_net_run {X : CookieSeal C} {t : Tunnel C} {n : Net C} (h : Simulates n t)
    {actions : List (Action C)} (hopen : (t.run X actions).closed = false) :
    ∃ abstract, Simulates (n.run abstract) (t.run X actions) := by
  induction actions generalizing t n with
  | nil => exact ⟨[], h⟩
  | cons action rest ih =>
      obtain ⟨first, hfirst⟩ := h.change (Change.step X t action) (isOpen_of_run hopen)
      obtain ⟨later, hlater⟩ := ih hfirst hopen
      exact ⟨first ++ later, by rw [Net.run_append]; exact hlater⟩

/-- **The tunnel refines the routing system.**  Whatever the tasks of an open
tunnel have done, in whatever order, the routing system can do so that
registry, routes and queued control messages agree, and the machine of every
actor is where its driver gets by calls whose reports are still to be sent. -/
theorem refines_net (X : CookieSeal C) (ourKey : C.Secret) (guard : LoadGuard C) (now : Instant)
    (actions : List (Action C))
    (hopen : ((start ourKey guard now).run X actions).closed = false) :
    ∃ abstract, Simulates ((Net.start C).run abstract) ((start ourKey guard now).run X actions) :=
  exists_net_run (simulates_start ourKey guard now) hopen

/-- Sealing for `symbolic`: the text stays as it is. -/
def symbolicSeal : CookieSeal Crypto.symbolic where
  xEncryptDetached := fun _ _ _ m => (m, List.replicate aeadTagSize 0)
  length_encrypt := fun _ _ _ _ => rfl
  length_tag := fun _ _ _ _ => List.length_replicate

def symbolicGuard : LoadGuard Crypto.symbolic :=
  .new _ (Crypto.symbolic.publicKey (1 : UInt8)) (List.Vector.replicate 32 42)

/-- A peer is added, a payload is sent to it, and it is removed. -/
def leavingPeer : List (Action Crypto.symbolic) :=
  [.addPeer Net.symbolicPeer ⟨none, none, none⟩ Actor.symbolicEnv,
    .trySend ⟨Net.symbolicPeer, 0⟩ [1], .removePeer Net.symbolicPeer, .sendPurge 0, .lookup, .route]

theorem refines_net_leaving : ∃ abstract, Simulates ((Net.start Crypto.symbolic).run abstract)
    ((start (1 : UInt8) symbolicGuard default).run symbolicSeal leavingPeer) :=
  refines_net symbolicSeal (1 : UInt8) symbolicGuard default leavingPeer rfl

/-! ### Peers that are gone -/

/-- What holds of the channel of a removed peer for good. -/
structure Gone (c : Channel) (t : Tunnel C) : Prop where
  old : c < t.spawned
  unregistered : ¬ t.Registered c
  unawaited : ¬ t.Awaited c
  unleaving : c ∉ t.leaving
  unrouted : ∀ i, t.router.indices i ≠ some c
  unseen : ∀ table, t.looked = some table → ∀ publicKey, table.entry publicKey ≠ some c

theorem Gone.of_routes {c : Channel} {t t' : Tunnel C} (h : Gone c t) (hroutes : SameRoutes t t')
    (hawaited : ¬ t'.Awaited c) : Gone c t' where
  old := hroutes.spawned.symm ▸ h.old
  unregistered := by
    rw [Registered, hroutes.table]
    exact h.unregistered
  unawaited := hawaited
  unleaving := hroutes.leaving.symm ▸ h.unleaving
  unrouted := hroutes.router.symm ▸ h.unrouted
  unseen := hroutes.looked.symm ▸ h.unseen

/-- Nobody holds on to the entry of a peer that is gone. -/
theorem Gone.unheld {c : Channel} {t : Tunnel C} (h : Gone c t) : ¬ t.Held c := by
  rintro (hawaited | hleaving | hlooked)
  · exact h.unawaited hawaited
  · exact h.unleaving hleaving
  · unfold lookedEntry at hlooked
    split at hlooked
    · rename_i table _ htable
      exact h.unseen table htable _ hlooked
    · rename_i table _ htable
      exact h.unseen table htable _ hlooked
    · cases hlooked

/-- What is reached is not gone. -/
theorem Gone.accepted_eq {c c' : Channel} {t : Tunnel C} (h : Gone c t) {task task' : Task C}
    (htask : t.tasks c' = some task) (hmove : TaskMove t c' task task') :
    (Function.update t.tasks c' (some task') c).map Task.accepted
      = (t.tasks c).map Task.accepted := by
  by_cases hc : c = c'
  · subst hc
    rw [Function.update_self, htask]
    cases hmove with
    | accepts action hreach =>
        rcases hreach with hregistered | hheld | ⟨i, hroute⟩
        · exact absurd hregistered h.unregistered
        · exact absurd hheld h.unheld
        · exact absurd hroute (h.unrouted i)
    | _ => rfl
  · rw [Function.update_of_ne hc]

/-- No step reaches the actor of a peer that is gone. -/
theorem Gone.change {c : Channel} {t t' : Tunnel C} (h : Gone c t) (hchange : Change t t') :
    Gone c t' ∧ (t'.tasks c).map Task.accepted = (t.tasks c).map Task.accepted := by
  cases hchange with
  | aside hroutes htasks hwaiting =>
      exact ⟨h.of_routes hroutes fun hc => (hwaiting c hc).elim h.unregistered h.unheld,
        by rw [htasks]⟩
  | task htask hmove hroutes htasks hwaiting =>
      exact ⟨h.of_routes hroutes fun hc => h.unawaited (hwaiting c hc),
        htasks ▸ h.accepted_eq htask hmove⟩
  | added publicKey config env waiting hopen hfree hwaiting =>
      -- the new actor has a channel of its own
      have hne : c ≠ t.spawned := h.old.ne
      refine ⟨⟨Nat.lt_succ_of_lt h.old, ?_, fun hc => (hwaiting c hc).elim h.unawaited hne,
        h.unleaving, h.unrouted, h.unseen⟩, congrArg _ (Function.update_of_ne hne _ _)⟩
      rintro ⟨key, hkey⟩
      rcases update_cases hkey with ⟨-, hnew⟩ | ⟨-, hold⟩
      · cases hnew
        exact hne rfl
      · exact h.unregistered ⟨key, hold⟩
  | removed publicKey actions hentry =>
      refine ⟨⟨h.old, ?_, h.unawaited, ?_, h.unrouted, h.unseen⟩, rfl⟩
      · rintro ⟨key, hkey⟩
        exact h.unregistered ⟨key, (of_update_none hkey).2⟩
      · rintro (_ | ⟨_, hmem⟩)
        · exact h.unregistered ⟨publicKey, hentry⟩
        · exact h.unleaving hmem
  | purged actions hmem =>
      exact ⟨⟨h.old, h.unregistered, h.unawaited, fun hc => h.unleaving (List.mem_of_mem_erase hc),
        h.unrouted, h.unseen⟩, rfl⟩
  | closed => exact ⟨⟨h.old, h.unregistered, h.unawaited, h.unleaving, h.unrouted, h.unseen⟩, rfl⟩
  | aborted hclosed hidle =>
      exact ⟨⟨h.old, h.unregistered, h.unawaited, h.unleaving, nofun, h.unseen⟩, rfl⟩
  | freed haborted hleaving =>
      refine ⟨⟨h.old, ?_, h.unawaited, h.unleaving, h.unrouted, h.unseen⟩, rfl⟩
      rintro ⟨key, hkey⟩
      cases hkey
  | looked control rest hcontrol hfree =>
      refine ⟨⟨h.old, h.unregistered, h.unawaited, h.unleaving, h.unrouted, ?_⟩, rfl⟩
      rintro table ⟨⟩ key hkey
      exact h.unregistered ⟨key, hkey⟩
  | routed control rest table hcontrol hlooked =>
      refine ⟨⟨h.old, h.unregistered, h.unawaited, h.unleaving, fun i hroute => ?_, nofun⟩, rfl⟩
      rcases IndexRouter.indices_apply_cases hroute with ⟨hold, -⟩ | ⟨key, -, hkey⟩
      · exact h.unrouted i hold
      · exact h.unseen table hlooked key hkey
  | reported c' task control htask hcontrol =>
      refine ⟨⟨h.old, h.unregistered, h.unawaited, h.unleaving, h.unrouted, h.unseen⟩, ?_⟩
      show (Function.update t.tasks c' _ c).map Task.accepted = _
      by_cases hc : c = c'
      · subst hc
        rw [Function.update_self, htask]
        rfl
      · rw [Function.update_of_ne hc]

theorem Gone.run {X : CookieSeal C} {c : Channel} {t : Tunnel C} (h : Gone c t)
    (actions : List (Action C)) :
    ((t.run X actions).tasks c).map Task.accepted = (t.tasks c).map Task.accepted := by
  induction actions generalizing t with
  | nil => rfl
  | cons action rest ih =>
      obtain ⟨hgone, hsame⟩ := h.change (Change.step X t action)
      exact (ih hgone).trans hsame

/-- **A removed peer is out of reach for good.**  Take an open tunnel after
any run, and a channel whose peer was removed and for whose actor no call
waits.  Once every control message is dealt with, nothing that happens later,
on the network or in the program, puts anything on that channel. -/
theorem removed_gets_nothing (X : CookieSeal C) (ourKey : C.Secret) (guard : LoadGuard C)
    (now : Instant) (actions later : List (Action C)) (c : Channel) :
    let t := (start ourKey guard now).run X actions
    t.closed = false → t.control = [] → t.leaving = [] → c < t.spawned → ¬ t.Registered c →
      ¬ t.Awaited c →
        ((t.run X later).tasks c).map Task.accepted = (t.tasks c).map Task.accepted := by
  intro t hopen hcontrol hleaving hold hregistered hawaited
  obtain ⟨abstract, hsim⟩ := exists_net_run (simulates_start ourKey guard now) hopen
  have haccounted := Net.accounted_run Net.accounted_start abstract
  refine Gone.run ⟨hold, hregistered, hawaited, hleaving ▸ List.not_mem_nil, fun i hroute => ?_,
    fun table hlooked => ?_⟩ later
  · rw [← hsim.router] at hroute
    rcases haccounted.routes i c hroute with ⟨key, hkey⟩ | hpurge | hleave
    · rw [hsim.table] at hkey
      exact hregistered ⟨key, hkey⟩
    · rw [hsim.queue] at hpurge
      exact List.not_mem_nil (hcontrol ▸ hpurge)
    · rw [hsim.leaving] at hleave
      exact List.not_mem_nil (hleaving ▸ hleave)
  · -- a lookup is under way only for a message that is still queued
    have hbusy := haccounted.busy (by rw [hsim.looked, hlooked]; rfl)
    exact absurd (hsim.queue.trans hcontrol) hbusy

/-- The actor keeps the payload that was sent before, and gets no other. -/
theorem removed_gets_nothing_leaving :
    let t := (start (1 : UInt8) symbolicGuard default).run symbolicSeal leavingPeer
    (t.tasks 0).map Task.accepted = some [.sendData [1]] ∧
      ((t.run symbolicSeal [.trySend ⟨Net.symbolicPeer, 0⟩ [2], .handle 0 1]).tasks 0).map
        Task.accepted = (t.tasks 0).map Task.accepted := by
  refine ⟨rfl, removed_gets_nothing symbolicSeal (1 : UInt8) symbolicGuard default leavingPeer _ 0
    rfl rfl rfl Nat.zero_lt_one ?_ List.not_mem_nil⟩
  rintro ⟨key, hkey⟩
  obtain ⟨hne, hold⟩ := of_update_none hkey
  cases (Function.update_of_ne hne _ _).symm.trans hold

end Tunnel

end Tunstile
