/-
Tunstile/Closing.lean

What becomes of the actors when the tunnel is dropped.

The program's tests wait for the actors to shut down after the tunnel is
dropped.  Dropping it only tells the read loop to end; the registry lives
until the loop has ended and no removal is under way (`Winding`).  With the
registry gone and no call left that holds on to an entry, nothing reaches an
actor any more (`Dropped.change`); and an actor that is left to itself sends
what it has, handles what is queued and ends (`exists_ended`), so that all of
them can end (`drop_ends_actors`).
-/
import Tunstile.TunnelRoutes

namespace Tunstile

variable {C : Crypto}

namespace Tunnel

/-! ### What is left to do -/

/-- No task has sent more than its actor gave it. -/
def InArrears (t : Tunnel C) : Prop :=
  ∀ c task, t.tasks c = some task →
    task.reported ≤ task.actor.control.length ∧ task.passed ≤ task.actor.inbound.length

/-- A turn adds to both. -/
theorem arrears_turn {task : Task C} (hp : task.actor.machine.Healthy) (event : Actor.Event C)
    (h : task.reported ≤ task.actor.control.length ∧ task.passed ≤ task.actor.inbound.length) :
    task.reported ≤ (task.actor.turn event).control.length ∧
      task.passed ≤ (task.actor.turn event).inbound.length := by
  obtain ⟨ops, -, hcontrol⟩ := Actor.follows_turn hp event hp.wellFormed
  obtain ⟨new, hinbound⟩ := Actor.inbound_turn hp event
  rw [hcontrol, hinbound, List.length_append, List.length_append]
  omega

theorem Sound.healthy {ourKey : C.Secret} {t : Tunnel C} (h : t.Sound ourKey) {c : Channel}
    {task : Task C} (htask : t.tasks c = some task) : task.actor.machine.Healthy := by
  rw [(h.task c task htask).actor]
  exact Actor.healthy_run (Peer.healthy_new _ _) _

theorem InArrears.set_task {t t' : Tunnel C} (h : t.InArrears) {c : Channel} {task' : Task C}
    (htasks : t'.tasks = Function.update t.tasks c (some task'))
    (hnew : task'.reported ≤ task'.actor.control.length ∧
      task'.passed ≤ task'.actor.inbound.length) : t'.InArrears := by
  intro c' x hx
  rw [htasks] at hx
  rcases update_cases hx with ⟨-, heq⟩ | ⟨-, hold⟩
  · cases heq
    exact hnew
  · exact h c' x hold

theorem InArrears.change {ourKey : C.Secret} {t t' : Tunnel C} (hsound : t.Sound ourKey)
    (h : t.InArrears) (hchange : Change t t') : t'.InArrears := by
  cases hchange with
  | aside hroutes htasks hwaiting =>
      intro c task htask
      exact h c task (htasks ▸ htask)
  | task htask hmove hroutes htasks hwaiting =>
      refine h.set_task htasks ?_
      have hold := h _ _ htask
      cases hmove with
      | accepts action hreach => exact hold
      | turns event queue hready => exact arrears_turn (hsound.healthy htask) event hold
      | passes hleft => exact ⟨hold.1, hleft⟩
      | stops hready hentry => exact hold
      | dies hready => exact hold
  | added publicKey config env waiting hopen hfree hwaiting =>
      exact h.set_task rfl ⟨Nat.zero_le _, Nat.zero_le _⟩
  | reported c task control htask hcontrol =>
      exact h.set_task rfl ⟨(List.getElem?_eq_some_iff.mp hcontrol).1, (h c task htask).2⟩
  | _ => exact h

theorem InArrears.run {X : CookieSeal C} {ourKey : C.Secret} {t : Tunnel C}
    (hsound : t.Sound ourKey) (h : t.InArrears) (actions : List (Action C)) :
    (t.run X actions).InArrears := by
  induction actions generalizing t with
  | nil => exact h
  | cons action rest ih =>
      exact ih (hsound.step action) (h.change hsound (Change.step X t action))

/-! ### How a tunnel goes -/

/-- The read loop ends after the tunnel was dropped and takes its routes with
it; the registry goes last.  A lookup is for a message that is queued. -/
structure Winding (t : Tunnel C) : Prop where
  aborted : t.aborted = true →
    t.closed = true ∧ t.router = .new ∧ t.control = [] ∧ t.looked = none
  freed : t.freed = true → t.aborted = true ∧ t.table = .new ∧ t.leaving = []
  busy : t.looked ≠ none → t.control ≠ []

theorem winding_start (ourKey : C.Secret) (guard : LoadGuard C) (now : Instant) :
    (start ourKey guard now).Winding :=
  ⟨nofun, nofun, fun h => absurd rfl h⟩

namespace Winding

variable {t t' : Tunnel C}

/-- Messages to a read loop that has ended are not queued. -/
theorem controlWith_of_aborted (h : t.Winding) (haborted : t.aborted = true) (control : Control) :
    t.controlWith control = [] := by
  rw [Tunnel.controlWith, if_pos haborted]
  exact (h.aborted haborted).2.2.1

theorem controlWith_of_busy (h : t.Winding) (hlooked : t.looked ≠ none) (control : Control) :
    t.controlWith control ≠ [] := by
  unfold Tunnel.controlWith
  split
  · exact h.busy hlooked
  · exact List.append_ne_nil_of_right_ne_nil _ (List.cons_ne_nil _ _)

theorem of_routes (h : t.Winding) (hroutes : SameRoutes t t') : t'.Winding where
  aborted := by
    rw [hroutes.aborted, hroutes.closed, hroutes.router, hroutes.control, hroutes.looked]
    exact h.aborted
  freed := by
    rw [hroutes.freed, hroutes.aborted, hroutes.table, hroutes.leaving]
    exact h.freed
  busy := by
    rw [hroutes.looked, hroutes.control]
    exact h.busy

theorem change (h : t.Winding) (hchange : Change t t') : t'.Winding := by
  cases hchange with
  | aside hroutes htasks hwaiting => exact h.of_routes hroutes
  | task htask hmove hroutes htasks hwaiting => exact h.of_routes hroutes
  | added publicKey config env waiting hopen hfree hwaiting =>
      have hlive : t.aborted ≠ true := fun haborted => by
        cases hopen.symm.trans (h.aborted haborted).1
      exact ⟨fun haborted => absurd haborted hlive,
        fun hfreed => absurd (h.freed hfreed).1 hlive, h.busy⟩
  | removed publicKey actions hentry =>
      refine ⟨h.aborted, fun hfreed => ?_, h.busy⟩
      rw [(h.freed hfreed).2.1] at hentry
      cases hentry
  | purged actions hmem =>
      refine ⟨fun haborted => ?_, fun hfreed => ?_, fun hlooked => h.controlWith_of_busy hlooked _⟩
      · obtain ⟨hclosed, hrouter, -, hlooked⟩ := h.aborted haborted
        exact ⟨hclosed, hrouter, h.controlWith_of_aborted haborted _, hlooked⟩
      · rw [(h.freed hfreed).2.2] at hmem
        cases hmem
  | closed => exact ⟨fun haborted => ⟨rfl, (h.aborted haborted).2⟩, h.freed, h.busy⟩
  | aborted hclosed hidle =>
      exact ⟨fun _ => ⟨hclosed, rfl, rfl, hidle⟩, fun hfreed => ⟨rfl, (h.freed hfreed).2⟩,
        fun hlooked => absurd hidle hlooked⟩
  | freed haborted hleaving => exact ⟨h.aborted, fun _ => ⟨haborted, rfl, hleaving⟩, h.busy⟩
  | looked control rest hcontrol hfree =>
      refine ⟨fun haborted => ?_, h.freed, fun _ => ?_⟩
      · cases hcontrol.symm.trans (h.aborted haborted).2.2.1
      · rw [hcontrol]
        exact List.cons_ne_nil _ _
  | routed control rest table hcontrol hlooked =>
      refine ⟨fun haborted => ?_, h.freed, fun hbusy => absurd rfl hbusy⟩
      cases hcontrol.symm.trans (h.aborted haborted).2.2.1
  | reported c task control htask hcontrol =>
      refine ⟨fun haborted => ?_, h.freed, fun hlooked => h.controlWith_of_busy hlooked _⟩
      obtain ⟨hclosed, hrouter, -, hlooked⟩ := h.aborted haborted
      exact ⟨hclosed, hrouter, h.controlWith_of_aborted haborted _, hlooked⟩

theorem run {X : CookieSeal C} (h : t.Winding) (actions : List (Action C)) :
    (t.run X actions).Winding := by
  induction actions generalizing t with
  | nil => exact h
  | cons action rest ih => exact ih (h.change (Change.step X t action))

end Winding

/-! ### Nothing arrives any more -/

/-- The registry is gone, and no call holds on to an entry. -/
structure Dropped (t : Tunnel C) : Prop where
  winding : t.Winding
  freed : t.freed = true
  waiting : t.waiting = []

namespace Dropped

variable {t t' : Tunnel C}

theorem closed (h : t.Dropped) : t.closed = true :=
  (h.winding.aborted (h.winding.freed h.freed).1).1

theorem table (h : t.Dropped) : t.table = .new := (h.winding.freed h.freed).2.1

theorem unregistered (h : t.Dropped) (c : Channel) : ¬ t.Registered c := by
  rintro ⟨publicKey, hentry⟩
  rw [h.table] at hentry
  cases hentry

theorem unheld (h : t.Dropped) (c : Channel) : ¬ t.Held c := by
  obtain ⟨haborted, -, hleaving⟩ := h.winding.freed h.freed
  obtain ⟨-, -, hcontrol, -⟩ := h.winding.aborted haborted
  rintro (hawaited | hmem | hlooked)
  · rw [h.waiting] at hawaited
    cases hawaited
  · rw [hleaving] at hmem
    cases hmem
  · rw [lookedEntry, hcontrol] at hlooked
    cases hlooked

theorem unrouted (h : t.Dropped) (c : Channel) : ¬ t.Routed c := by
  rintro ⟨index, hroute⟩
  rw [(h.winding.aborted (h.winding.freed h.freed).1).2.1] at hroute
  cases hroute

/-- A call that waits is one of those that waited. -/
theorem waiting_eq {waiting : List (Channel × Request)} (h : ∀ c, c ∉ waiting.map Prod.fst) :
    waiting = [] :=
  List.map_eq_nil_iff.mp (List.eq_nil_iff_forall_not_mem.mpr h)

/-- **Nothing reaches an actor of a tunnel that is gone.** -/
theorem change (h : t.Dropped) (hchange : Change t t') :
    t'.Dropped ∧ ∀ c, (t'.tasks c).map Task.accepted = (t.tasks c).map Task.accepted := by
  have hwinding := h.winding.change hchange
  obtain ⟨haborted, htable, hleaving⟩ := h.winding.freed h.freed
  obtain ⟨hclosed, -, hcontrol, hlooked⟩ := h.winding.aborted haborted
  -- a task that changes, but accepts nothing
  have hset {c : Channel} {task task' : Task C} (htask : t.tasks c = some task)
      (haccepted : task'.accepted = task.accepted) (c' : Channel) :
      (Function.update t.tasks c (some task') c').map Task.accepted
        = (t.tasks c').map Task.accepted := by
    by_cases hc : c' = c
    · subst hc
      rw [Function.update_self, htask]
      exact congrArg some haccepted
    · rw [Function.update_of_ne hc]
  cases hchange with
  | aside hroutes htasks hwaiting =>
      refine ⟨⟨hwinding, hroutes.freed.trans h.freed, waiting_eq fun c hc => ?_⟩, fun c => by
        rw [htasks]⟩
      exact (hwaiting c hc).elim (h.unregistered c) (h.unheld c)
  | task htask hmove hroutes htasks hwaiting =>
      refine ⟨⟨hwinding, hroutes.freed.trans h.freed, waiting_eq fun c hc => ?_⟩, fun c => ?_⟩
      · exact h.unheld c (held_of_awaited (hwaiting c hc))
      · rw [htasks]
        cases hmove with
        | accepts action hreach =>
            rcases hreach with hregistered | hheld | hrouted
            · exact absurd hregistered (h.unregistered _)
            · exact absurd hheld (h.unheld _)
            · exact absurd hrouted (h.unrouted _)
        | _ => exact hset htask (by rfl) c
  | added publicKey config env waiting hopen hfree hwaiting => cases hopen.symm.trans hclosed
  | removed publicKey actions hentry =>
      rw [htable] at hentry
      cases hentry
  | purged actions hmem =>
      rw [hleaving] at hmem
      cases hmem
  | looked control rest hbusy hfree => cases hbusy.symm.trans hcontrol
  | routed control rest table hbusy hsome => cases hbusy.symm.trans hcontrol
  | reported c task control htask hreport =>
      exact ⟨⟨hwinding, h.freed, h.waiting⟩, hset htask rfl⟩
  | freed _ _ => exact ⟨⟨hwinding, rfl, h.waiting⟩, fun _ => rfl⟩
  | _ => exact ⟨⟨hwinding, h.freed, h.waiting⟩, fun _ => rfl⟩

theorem run (h : t.Dropped) (X : CookieSeal C) (actions : List (Action C)) :
    (t.run X actions).Dropped ∧
      ∀ c, ((t.run X actions).tasks c).map Task.accepted = (t.tasks c).map Task.accepted := by
  induction actions generalizing t with
  | nil => exact ⟨h, fun _ => rfl⟩
  | cons action rest ih =>
      obtain ⟨hstep, hsame⟩ := h.change (Change.step X t action)
      obtain ⟨hrun, hsame'⟩ := ih hstep
      exact ⟨hrun, fun c => (hsame' c).trans (hsame c)⟩

end Dropped

/-! ### The tunnel goes -/

/-- A run that leaves the tasks alone. -/
def Idles (X : CookieSeal C) (t t' : Tunnel C) : Prop :=
  ∃ later, t' = t.run X later ∧ t'.tasks = t.tasks

namespace Idles

variable {X : CookieSeal C} {t t' t'' : Tunnel C}

theorem refl (t : Tunnel C) : Idles X t t := ⟨[], rfl, rfl⟩

theorem trans (h : Idles X t t') (h' : Idles X t' t'') : Idles X t t'' := by
  obtain ⟨later, rfl, htasks⟩ := h
  obtain ⟨later', rfl, htasks'⟩ := h'
  exact ⟨later ++ later', List.foldl_append.symm, htasks'.trans htasks⟩

theorem step (action : Action C) (h : (t.step X action).tasks = t.tasks) :
    Idles X t (t.step X action) := ⟨[action], rfl, h⟩

theorem winding (h : Idles X t t') (hwinding : t.Winding) : t'.Winding := by
  obtain ⟨later, rfl, -⟩ := h
  exact hwinding.run later

/-- The read loop of a tunnel that was dropped finishes what it does and ends. -/
theorem exists_aborted (hwinding : t.Winding) (hclosed : t.closed = true) :
    ∃ t', Idles X t t' ∧ t'.aborted = true := by
  by_cases haborted : t.aborted = true
  · exact ⟨t, refl t, haborted⟩
  rw [Bool.not_eq_true] at haborted
  cases hlooked : t.looked with
  | none =>
      have hstep : t.step X .abort = { t with aborted := true, router := .new, control := [] } :=
        if_pos ⟨hclosed, hlooked⟩
      exact ⟨_, step .abort (by rw [hstep]), by rw [hstep]⟩
  | some table =>
      obtain ⟨control, rest, hcontrol⟩ := List.exists_cons_of_ne_nil
        (hwinding.busy (by rw [hlooked]; exact Option.some_ne_none table))
      have hroute : t.step X .route = { t with
          router := t.router.apply control table, control := rest, looked := none } := by
        simp only [Tunnel.step, route, haborted, hcontrol, hlooked]
      have habort : (t.step X .route).step X .abort = { t.step X .route with
          aborted := true, router := .new, control := [] } := by
        rw [hroute]
        exact if_pos ⟨hclosed, rfl⟩
      refine ⟨_, (step .route (by rw [hroute])).trans (step .abort (by rw [habort])), ?_⟩
      rw [habort]

/-- The removals that are under way finish. -/
theorem exists_left (X : CookieSeal C) (t : Tunnel C) :
    ∃ t', Idles X t t' ∧ t'.aborted = t.aborted ∧ t'.leaving = [] := by
  generalize hn : t.leaving.length = n
  induction n generalizing t with
  | zero => exact ⟨t, refl t, rfl, List.length_eq_zero_iff.mp hn⟩
  | succ n ih =>
      obtain ⟨actions, rest, hleaving⟩ := List.exists_cons_of_length_eq_add_one hn
      have hmem : actions ∈ t.leaving := hleaving ▸ List.mem_cons_self
      have hstep : t.step X (.sendPurge actions) = { t with
          leaving := t.leaving.erase actions, control := t.controlWith (.purge actions) } :=
        if_pos hmem
      obtain ⟨t', hidles, haborted, hleft⟩ := ih (t.step X (.sendPurge actions)) (by
        rw [hstep]
        show (t.leaving.erase actions).length = n
        rw [List.length_erase_of_mem hmem, hn]
        rfl)
      refine ⟨t', (step _ (by rw [hstep])).trans hidles, haborted.trans ?_, hleft⟩
      rw [hstep]

/-- The calls that wait are given up. -/
theorem exists_unawaited (X : CookieSeal C) (t : Tunnel C) :
    ∃ t', Idles X t t' ∧ t'.freed = t.freed ∧ t'.waiting = [] := by
  generalize hn : t.waiting.length = n
  induction n generalizing t with
  | zero => exact ⟨t, refl t, rfl, List.length_eq_zero_iff.mp hn⟩
  | succ n ih =>
      have hlength : (t.waiting.eraseIdx 0).length = n := by
        rw [List.length_eraseIdx_of_lt (by omega), hn]
        rfl
      obtain ⟨t', hidles, hfreed, hnone⟩ := ih (t.step X (.cancel 0)) hlength
      exact ⟨t', (step (.cancel 0) rfl).trans hidles, hfreed, hnone⟩

/-- Once it is dropped, a tunnel can go. -/
theorem exists_dropped (hwinding : t.Winding) (hclosed : t.closed = true) :
    ∃ t', Idles X t t' ∧ t'.Dropped := by
  obtain ⟨t₁, hidles₁, haborted₁⟩ := exists_aborted (X := X) hwinding hclosed
  obtain ⟨t₂, hidles₂, haborted₂, hleaving₂⟩ := exists_left X t₁
  have hfree : t₂.step X .free = { t₂ with freed := true, table := .new } :=
    if_pos ⟨haborted₂.trans haborted₁, hleaving₂⟩
  obtain ⟨t₃, hidles₃, hfreed₃, hwaiting₃⟩ := exists_unawaited X (t₂.step X .free)
  have hidles : Idles X t t₃ :=
    hidles₁.trans (hidles₂.trans ((step .free (by rw [hfree])).trans hidles₃))
  refine ⟨t₃, hidles, hidles.winding hwinding, hfreed₃.trans ?_, hwaiting₃⟩
  rw [hfree]

end Idles

/-! ### An actor that is left to itself -/

/-- A run in which nothing happens but on channel `c`. -/
def Alone (X : CookieSeal C) (c : Channel) (t t' : Tunnel C) : Prop :=
  ∃ later, t' = t.run X later ∧ ∀ c', c' ≠ c → t'.tasks c' = t.tasks c'

namespace Alone

variable {X : CookieSeal C} {c : Channel} {t t' t'' : Tunnel C}

theorem refl (t : Tunnel C) : Alone X c t t := ⟨[], rfl, fun _ _ => rfl⟩

theorem trans (h : Alone X c t t') (h' : Alone X c t' t'') : Alone X c t t'' := by
  obtain ⟨later, rfl, hothers⟩ := h
  obtain ⟨later', rfl, hothers'⟩ := h'
  exact ⟨later ++ later', List.foldl_append.symm, fun c' hc =>
    (hothers' c' hc).trans (hothers c' hc)⟩

theorem step {action : Action C} {task : Option (Task C)}
    (h : (t.step X action).tasks = Function.update t.tasks c task) :
    Alone X c t (t.step X action) :=
  ⟨[action], rfl, fun c' hc => by rw [h, Function.update_of_ne hc]⟩

theorem dropped (h : Alone X c t t') (hdropped : t.Dropped) : t'.Dropped := by
  obtain ⟨later, rfl, -⟩ := h
  exact (hdropped.run X later).1

end Alone

/-- A task that has sent all that its actor gave it. -/
def settled (task : Task C) : Task C :=
  { task with
    reported := task.actor.control.length
    passed := task.actor.inbound.length }

theorem settled_ready {task : Task C} (h : task.running = true) :
    (settled task).ready = true := by
  rw [Task.ready, settled, h, beq_self_eq_true, beq_self_eq_true]
  rfl

/-- A task can send what its actor gave it. -/
theorem exists_settled (X : CookieSeal C) {c : Channel} {t : Tunnel C} {task : Task C}
    (htask : t.tasks c = some task) (harrears : task.reported ≤ task.actor.control.length ∧
      task.passed ≤ task.actor.inbound.length) :
    ∃ t', Alone X c t t' ∧ t'.tasks c = some (settled task) := by
  -- by induction on the number of messages that are left to send
  obtain ⟨n, hn⟩ := Nat.exists_eq_add_of_le (Nat.add_le_add harrears.1 harrears.2)
  induction n generalizing t task with
  | zero =>
      have hr : task.actor.control.length = task.reported := by omega
      have hp : task.actor.inbound.length = task.passed := by omega
      refine ⟨t, .refl t, ?_⟩
      rw [settled, hr, hp]
      exact htask
  | succ n ih =>
      by_cases hlt : task.reported < task.actor.control.length
      · have hstep : (t.step X (.report c)).tasks
            = Function.update t.tasks c (some { task with reported := task.reported + 1 }) := by
          simp only [Tunnel.step, report, htask, List.getElem?_eq_getElem hlt]
          rfl
        have hnext : (t.step X (.report c)).tasks c
            = some { task with reported := task.reported + 1 } := by
          rw [hstep, Function.update_self]
        have hleft : task.actor.control.length + task.actor.inbound.length
            = task.reported + 1 + task.passed + n := by omega
        obtain ⟨t', halone, htask'⟩ := ih hnext ⟨hlt, harrears.2⟩ hleft
        exact ⟨t', (Alone.step hstep).trans halone, htask'⟩
      · have hlt' : task.passed < task.actor.inbound.length := by omega
        have hstep : (t.step X (.pass c)).tasks
            = Function.update t.tasks c (some { task with passed := task.passed + 1 }) := by
          simp only [Tunnel.step, pass, htask, List.getElem?_eq_getElem hlt']
          split <;> rfl
        have hnext : (t.step X (.pass c)).tasks c
            = some { task with passed := task.passed + 1 } := by
          rw [hstep, Function.update_self]
        have hleft : task.actor.control.length + task.actor.inbound.length
            = task.reported + (task.passed + 1) + n := by omega
        obtain ⟨t', halone, htask'⟩ := ih hnext ⟨harrears.1, hlt'⟩ hleft
        exact ⟨t', (Alone.step hstep).trans halone, htask'⟩

/-- With nothing queued the actor ends, and so it does where it panics. -/
theorem exists_stopped (X : CookieSeal C) {c : Channel} {t : Tunnel C} (h : t.Dropped)
    {task : Task C} (htask : t.tasks c = some task) (hrunning : task.running = true)
    (hdone : task.queue = [] ∨ task.actor.sleeps = false)
    (harrears : task.reported ≤ task.actor.control.length ∧
      task.passed ≤ task.actor.inbound.length) :
    ∃ t' task', Alone X c t t' ∧ t'.tasks c = some task' ∧ task'.running = false := by
  obtain ⟨t', halone, htask'⟩ := exists_settled X htask harrears
  have hdropped := halone.dropped h
  have hready := settled_ready hrunning
  by_cases hsleeps : task.actor.sleeps = true
  · have hqueue : (settled task).queue = [] :=
      hdone.resolve_right fun hpanics => by cases hsleeps.symm.trans hpanics
    have hwaits : (settled task).waits = true := Bool.and_eq_true_iff.mpr ⟨hready, hsleeps⟩
    have hcontrol : t'.control = [] :=
      (hdropped.winding.aborted (hdropped.winding.freed hdropped.freed).1).2.2.1
    have hstop : (t'.step X (.stop c)).tasks
        = Function.update t'.tasks c (some { settled task with running := false }) := by
      simp only [Tunnel.step, stop, htask']
      rw [if_pos ⟨hwaits, hqueue, fun hentry => hdropped.unregistered c ⟨_, hentry⟩,
        hdropped.unheld c, hdropped.unrouted c, hcontrol ▸ List.not_mem_nil⟩]
      rfl
    exact ⟨_, _, halone.trans (Alone.step hstop), by rw [hstop, Function.update_self], rfl⟩
  · have hpanic : (t'.step X (.panic c)).tasks
        = Function.update t'.tasks c (some (settled task).die) := by
      simp only [Tunnel.step, panic, htask']
      rw [if_pos ⟨hready, Bool.eq_false_iff.mpr hsleeps⟩]
      rfl
    exact ⟨_, _, halone.trans (Alone.step hpanic), by rw [hpanic, Function.update_self], rfl⟩

/-- **An actor that is left to itself ends.**  It sends what it has, handles
what is queued, sends what comes of that, and ends; or it panics on the way. -/
theorem exists_ended (X : CookieSeal C) {c : Channel} {t : Tunnel C} (h : t.Dropped)
    {task : Task C} (htask : t.tasks c = some task) (hp : task.actor.machine.Healthy)
    (harrears : task.reported ≤ task.actor.control.length ∧
      task.passed ≤ task.actor.inbound.length) :
    ∃ t' task', Alone X c t t' ∧ t'.tasks c = some task' ∧ task'.running = false := by
  by_cases hrunning : task.running = true
  · by_cases hdone : task.queue = [] ∨ task.actor.sleeps = false
    · exact exists_stopped X h htask hrunning hdone harrears
    · obtain ⟨hqueue, hsleeps⟩ := not_or.mp hdone
      obtain ⟨t₁, halone, htask₁⟩ := exists_settled X htask harrears
      have hwaits : (settled task).waits = true :=
        Bool.and_eq_true_iff.mpr ⟨settled_ready hrunning, Bool.not_eq_false _ ▸ hsleeps⟩
      -- the whole queue is one batch
      have hhandle : (t₁.step X (.handle c task.queue.length)).tasks = Function.update t₁.tasks c
          (some { (settled task).turn (.actions task.queue) with queue := [] }) := by
        have hqueue' : (settled task).queue = task.queue := rfl
        simp only [Tunnel.step, handle, htask₁, hqueue', List.take_length, List.drop_length]
        rw [if_pos ⟨hwaits, hqueue⟩]
        rfl
      have hhandled := halone.trans (Alone.step hhandle)
      have hnext : (t₁.step X (.handle c task.queue.length)).tasks c
          = some { (settled task).turn (.actions task.queue) with queue := [] } := by
        rw [hhandle, Function.update_self]
      have hp' : (settled task).actor.machine.Healthy := hp
      obtain ⟨t₂, task₂, halone₂, htask₂, hended⟩ := exists_stopped X (hhandled.dropped h) hnext
        hrunning (Or.inl rfl) (arrears_turn hp' (.actions task.queue) ⟨le_rfl, le_rfl⟩)
      exact ⟨t₂, task₂, hhandled.trans halone₂, htask₂, hended⟩
  · exact ⟨t, task, .refl t, htask, Bool.eq_false_iff.mpr hrunning⟩

/-- The actors end one after the other. -/
theorem exists_all_ended (X : CookieSeal C) {ourKey : C.Secret} {t : Tunnel C} (h : t.Dropped)
    (hsound : t.Sound ourKey) (harrears : t.InArrears) (n : ℕ) :
    ∃ later, (∀ c < n, ∀ task, (t.run X later).tasks c = some task → task.running = false) ∧
      ∀ c, n ≤ c → (t.run X later).tasks c = t.tasks c := by
  induction n with
  | zero => exact ⟨[], fun _ hc => absurd hc (Nat.not_lt_zero _), fun _ _ => rfl⟩
  | succ n ih =>
      obtain ⟨later, hended, hrest⟩ := ih
      cases htask : t.tasks n with
      | none =>
          refine ⟨later, fun c hc task hrun => ?_, fun c hc => hrest c (Nat.le_of_succ_le hc)⟩
          rcases Nat.lt_succ_iff_lt_or_eq.mp hc with hlt | rfl
          · exact hended c hlt task hrun
          · cases ((hrest c le_rfl).trans htask).symm.trans hrun
      | some task =>
          obtain ⟨t', task', ⟨more, rfl, hothers⟩, htask', hfalse⟩ :=
            exists_ended X (h.run X later).1 ((hrest n le_rfl).trans htask)
              (hsound.healthy htask) (harrears n task htask)
          have happend : t.run X (later ++ more) = (t.run X later).run X more :=
            List.foldl_append
          refine ⟨later ++ more, fun c hc x hx => ?_, fun c hc => ?_⟩
          · rw [happend] at hx
            rcases Nat.lt_succ_iff_lt_or_eq.mp hc with hlt | rfl
            · rw [hothers c hlt.ne] at hx
              exact hended c hlt x hx
            · cases htask'.symm.trans hx
              exact hfalse
          · have hne : c ≠ n := by omega
            rw [happend, hothers c hne]
            exact hrest c (Nat.le_of_succ_le hc)

/-- **Dropping the tunnel ends its actors.**  Take a tunnel after any run.
Once it was dropped, its registry is gone and no call waits, no actor is given
anything more to do, whatever happens.  And from any state the tunnel can be
dropped so that it comes to this and every actor ends, with everything handled
that its channel accepted, unless it panicked. -/
theorem drop_ends_actors (X : CookieSeal C) (ourKey : C.Secret) (guard : LoadGuard C)
    (now : Instant) (actions : List (Action C)) :
    let t := (start ourKey guard now).run X actions
    (t.freed = true → t.waiting = [] → ∀ later c,
      ((t.run X later).tasks c).map Task.accepted = (t.tasks c).map Task.accepted) ∧
    ∃ later, (t.run X (.close :: later)).freed = true ∧ (t.run X (.close :: later)).waiting = [] ∧
      ∀ c task, (t.run X (.close :: later)).tasks c = some task →
        task.running = false ∧ (task.lost = none → Actor.received task.events = task.accepted) := by
  intro t
  have hstart := sound_start ourKey guard now
  have hsound : t.Sound ourKey := hstart.run actions
  have hwinding : t.Winding := (winding_start ourKey guard now).run actions
  have harrears : t.InArrears := InArrears.run hstart (fun _ _ h => by cases h) actions
  refine ⟨fun hfreed hwaiting later => ((⟨hwinding, hfreed, hwaiting⟩ : t.Dropped).run X later).2, ?_⟩
  -- the tunnel goes, and then its actors one after the other
  obtain ⟨t', ⟨gone, rfl, htasks⟩, hdropped⟩ :=
    Idles.exists_dropped (X := X) (hwinding.change .closed) rfl
  have hsound' : (t.close.run X gone).Sound ourKey := hsound.close.run gone
  have harrears' : (t.close.run X gone).InArrears := fun c task htask =>
    harrears c task (htasks ▸ htask)
  obtain ⟨later, hended, hrest⟩ :=
    exists_all_ended X hdropped hsound' harrears' (t.close.run X gone).spawned
  have hrun : t.run X (.close :: (gone ++ later)) = (t.close.run X gone).run X later :=
    List.foldl_append
  obtain ⟨hdropped', -⟩ := hdropped.run X later
  refine ⟨gone ++ later, ?_, ?_, fun c task htask => ?_⟩
  · rw [hrun]
    exact hdropped'.freed
  · rw [hrun]
    exact hdropped'.waiting
  rw [hrun] at htask
  have hrunning : task.running = false := by
    by_cases hc : c < (t.close.run X gone).spawned
    · exact hended c hc task htask
    · rw [hrest c (Nat.le_of_not_lt hc), (hsound'.fresh c (Nat.le_of_not_lt hc)).1] at htask
      cases htask
  have htask' := (hsound'.run later).task c task htask
  refine ⟨hrunning, fun hlost => ?_⟩
  have haccepted := htask'.accepted
  rw [htask'.ended hrunning, hlost] at haccepted
  exact (List.append_nil _).symm.trans haccepted

/-- A peer is added and a payload is queued for it. -/
def busyPeer : List (Action Crypto.symbolic) :=
  [.addPeer Net.symbolicPeer ⟨none, none, none⟩ Actor.symbolicEnv,
    .trySend ⟨Net.symbolicPeer, 0⟩ [1]]

/-- The actor takes the payload before it ends. -/
theorem drop_ends_actors_busy :
    let t := (start (1 : UInt8) symbolicGuard default).run symbolicSeal busyPeer
    (t.tasks 0).map Task.queue = some [.sendData [1]] ∧
    ∃ later, ∀ c task, (t.run symbolicSeal (.close :: later)).tasks c = some task →
      task.running = false ∧ (task.lost = none → Actor.received task.events = task.accepted) := by
  obtain ⟨later, -, -, hended⟩ :=
    (drop_ends_actors symbolicSeal (1 : UInt8) symbolicGuard default busyPeer).2
  exact ⟨rfl, later, hended⟩

end Tunnel

end Tunstile
