/-
Tunstile/Routing.lean

Peers that come and go, their actors, and the read loop that routes to them.

Three kinds of tasks run side by side: the owner of the tunnel adds and
removes peers, each actor runs its machine and reports indices, and the read
loop applies the reports.  An `Action` is one step of one task, so that a
list of actions is an interleaving.  Where the source does two things
without a common lock, they are two actions: a machine operation and each of
its reports, the removal of a peer and its purge, the registry lookup for a
message and the change of the routes.

A message counts as queued until the read loop is done with it.  An actor
that was removed runs on until it stops; its reports name the peer by key.
-/
import Tunstile.Lifecycle
import Tunstile.Router

namespace Tunstile

variable {C : Crypto}

namespace Peer

/-- The random index a call is given. -/
def Op.drawnIndex : Op C → Option UInt32
  | .initiate _ values _ => some values.index
  | .respond _ _ values _ _ => some values.index
  | _ => none

/-- What the actor reports after a call: the index that stopped routing,
then the one that was installed. -/
def reports (p : Peer C) (op : Op C) : List Control :=
  (p.step op).1.returned.toList.map (.retire p.peerKey ·) ++
    (op.installed (p.step op).1).toList.map (.bind p.peerKey ·)

/-- An installed index is the one that was drawn. -/
theorem Op.drawnIndex_of_installed {op : Op C} {o : Outcome} {i : UInt32}
    (h : op.installed o = some i) : op.drawnIndex = some i := by
  cases op <;> cases o <;> first | exact h | cases h

/-- A reported index was live. -/
theorem Effect.returned_mem_live {p p' : Peer C} {op : Op C} {o : Outcome} (h : Effect p op o p')
    {i : UInt32} (hi : o.returned = some i) : i ∈ p.live := by
  cases h <;> first | cases hi | simp_all [Outcome.returned, live]

/-- What was live or is installed is live afterwards or reported. -/
theorem mem_live_step {p : Peer C} (hp : p.WellFormed) (op : Op C) (i : UInt32) :
    (i ∈ (p.step op).2.live ∨ (p.step op).1.returned = some i) ↔
      (i ∈ p.live ∨ op.installed (p.step op).1 = some i) := by
  have hmem (s : Multiset UInt32) (o : Option UInt32) : i ∈ s + ↑o.toList ↔ i ∈ s ∨ o = some i := by
    rw [Multiset.mem_add, Multiset.mem_coe, Option.mem_toList]
  rw [← hmem, ← hmem, live_step hp op]

/-- What a call leaves live when its index is new: nothing it reported, and
beside what was live only what it installed. -/
theorem live_step_of_new {p : Peer C} (hp : p.WellFormed) (op : Op C) (hnodup : p.live.Nodup)
    (hnew : ∀ i, op.drawnIndex = some i → i ∉ p.live) :
    (p.step op).2.live.Nodup ∧
      ∀ i ∈ (p.step op).2.live, (p.step op).1.returned ≠ some i ∧
        (i ∈ p.live ∨ op.installed (p.step op).1 = some i) := by
  have hall : (p.live + ↑(op.installed (p.step op).1).toList).Nodup := by
    refine Multiset.nodup_add.mpr ⟨hnodup, ?_, ?_⟩
    · cases op.installed (p.step op).1 <;> simp
    · refine Multiset.disjoint_left.mpr ?_
      intro i hi hinst
      rw [Multiset.mem_coe, Option.mem_toList] at hinst
      exact hnew i (Op.drawnIndex_of_installed hinst) hi
  rw [← live_step hp op] at hall
  obtain ⟨hlive, -, hdisj⟩ := Multiset.nodup_add.mp hall
  refine ⟨hlive, fun i hi => ⟨fun hret => ?_, (mem_live_step hp op i).mp (Or.inl hi)⟩⟩
  refine Multiset.disjoint_left.mp hdisj hi ?_
  rw [hret]
  exact List.mem_singleton_self i

theorem mem_reports {p : Peer C} {op : Op C} {control : Control} (h : control ∈ p.reports op) :
    (∃ i, (p.step op).1.returned = some i ∧ control = .retire p.peerKey i) ∨
      ∃ i, op.installed (p.step op).1 = some i ∧ control = .bind p.peerKey i := by
  rcases List.mem_append.mp h with hret | hinst
  · obtain ⟨i, hi, rfl⟩ := List.mem_map.mp hret
    exact Or.inl ⟨i, Option.mem_toList.mp hi, rfl⟩
  · obtain ⟨i, hi, rfl⟩ := List.mem_map.mp hinst
    exact Or.inr ⟨i, Option.mem_toList.mp hi, rfl⟩

/-- An initiation to a usable key succeeds; its index becomes the pending one. -/
theorem exists_initiated (p : Peer C) (ourKey : C.Secret) (values : HandshakeValues C)
    (out : Bytes) (hlen : initMsgLength ≤ out.length)
    (hes : C.wasContributory (C.diffieHellman values.ephemeralSecret p.peerKey) = true) :
    ∃ msg p', p.step (.initiate ourKey values out)
        = (.written (p.pending.map PendingHandshake.ourIndex) msg, p') ∧
      p'.peerKey = p.peerKey ∧ p'.pending.map PendingHandshake.ourIndex = some values.index ∧
      p'.next = p.next ∧ p'.current = p.current ∧ p'.previous = p.previous := by
  obtain ⟨hfail, -⟩ | ⟨-, -, mac1, msg, h, -⟩ := InitSent.initiate_cases ourKey p.peerKey
    values.index values.ephemeralSecret values.timestamp p.cookieGenerator out
  · rcases hfail with hshort | hnc
    · exact absurd hlen (Nat.not_le.mpr hshort)
    · cases hes.symm.trans hnc
  · simp only [step, initiate, if_neg (Nat.not_lt.mpr hlen), h]
    exact ⟨_, _, rfl, rfl, rfl, rfl, rfl, rfl⟩

/-- The live indices of a new machine with one initiation pending. -/
theorem live_of_pending {p : Peer C} {i : UInt32}
    (hpending : p.pending.map PendingHandshake.ourIndex = some i) (hnext : p.next = none)
    (hcurrent : p.current = none) (hprevious : p.previous = none) : p.live = {i} := by
  simp only [live, hpending, hnext, hcurrent, hprevious]
  rfl

end Peer

/-! ### The system -/

/-- What matters of an actor here: its machine, and the reports of the last
operation that it has yet to send. -/
structure Driver (C : Crypto) where
  machine : Peer C
  outbox : List Control

structure Net (C : Crypto) where
  table : RoutingTable
  /-- The running actors, by channel. -/
  drivers : Channel → Option (Driver C)
  /-- The next new channel. -/
  spawned : Channel
  /-- Peers taken out of the registry whose purge is not sent yet. -/
  leaving : List Channel
  queue : List Control
  /-- The registry as the lookup for the first queued message saw it. -/
  looked : Option RoutingTable
  router : IndexRouter

inductive Net.Action (C : Crypto) where
  /-- `add_peer`: registers the key and spawns its actor. -/
  | addPeer (peerKey : PublicKey) (presharedKey : Option PresharedKey)
  /-- `remove_peer`, first half: the registry. -/
  | removePeer (peerKey : PublicKey)
  /-- `remove_peer`, second half: the purge. -/
  | sendPurge (actions : Channel)
  /-- An actor's machine operation. -/
  | operate (actions : Channel) (op : Peer.Op C)
  /-- An actor's next report. -/
  | report (actions : Channel)
  /-- The read loop looks up the registry for the first message. -/
  | lookup
  /-- The read loop changes the routes. -/
  | route
  /-- An actor without a handle ends. -/
  | stop (actions : Channel)

namespace Net

def start (C : Crypto) : Net C where
  table := .new
  drivers := fun _ => none
  spawned := 0
  leaving := []
  queue := []
  looked := none
  router := .new

def addPeer (n : Net C) (peerKey : PublicKey) (presharedKey : Option PresharedKey) : Net C :=
  match n.table.registerPeer peerKey n.spawned with
  | none => n
  | some table =>
      { n with
        table := table
        drivers := Function.update n.drivers n.spawned
          (some ⟨(Peer.new C peerKey).setPresharedKey presharedKey, []⟩)
        spawned := n.spawned + 1 }

def removePeer (n : Net C) (peerKey : PublicKey) : Net C :=
  match n.table.removePeer peerKey with
  | (some (.purge actions), table) => { n with table := table, leaving := actions :: n.leaving }
  | _ => n

def sendPurge (n : Net C) (actions : Channel) : Net C :=
  if actions ∈ n.leaving then
    { n with leaving := n.leaving.erase actions, queue := n.queue ++ [.purge actions] }
  else n

/-- An actor starts an operation only after the reports of the last one. -/
def operate (n : Net C) (actions : Channel) (op : Peer.Op C) : Net C :=
  match n.drivers actions with
  | some ⟨machine, []⟩ =>
      { n with
        drivers := Function.update n.drivers actions
          (some ⟨(machine.step op).2, machine.reports op⟩) }
  | _ => n

def report (n : Net C) (actions : Channel) : Net C :=
  match n.drivers actions with
  | some ⟨machine, control :: outbox⟩ =>
      { n with
        drivers := Function.update n.drivers actions (some ⟨machine, outbox⟩)
        queue := n.queue ++ [control] }
  | _ => n

def lookup (n : Net C) : Net C :=
  match n.queue, n.looked with
  | _ :: _, none => { n with looked := some n.table }
  | _, _ => n

def route (n : Net C) : Net C :=
  match n.queue, n.looked with
  | control :: queue, some table =>
      { n with router := n.router.apply control table, queue := queue, looked := none }
  | _, _ => n

def stop (n : Net C) (actions : Channel) : Net C :=
  match n.drivers actions with
  | some ⟨machine, []⟩ =>
      -- the registry holds a sender of every registered actor
      if n.table.entry machine.peerKey = some actions then n
      else { n with drivers := Function.update n.drivers actions none }
  | _ => n

def step (n : Net C) : Action C → Net C
  | .addPeer peerKey presharedKey => n.addPeer peerKey presharedKey
  | .removePeer peerKey => n.removePeer peerKey
  | .sendPurge actions => n.sendPurge actions
  | .operate actions op => n.operate actions op
  | .report actions => n.report actions
  | .lookup => n.lookup
  | .route => n.route
  | .stop actions => n.stop actions

def run (n : Net C) (actions : List (Action C)) : Net C := actions.foldl step n

/-! ### Random indices -/

/-- No machine holds `index`, it is not routed, and no queued message is
about it. -/
structure Unused (n : Net C) (index : UInt32) : Prop where
  live : ∀ c d, n.drivers c = some d → index ∉ d.machine.live
  route : n.router.indices index = none
  queue : ∀ control ∈ n.queue, control.index ≠ some index

/-- Nor is a message about it that an actor has yet to send. -/
structure Unclaimed (n : Net C) (index : UInt32) : Prop extends Unused n index where
  outbox : ∀ c d, n.drivers c = some d → ∀ control ∈ d.outbox, control.index ≠ some index

/-- The index drawn for an action. -/
def Action.drawnIndex : Action C → Option UInt32
  | .operate _ op => op.drawnIndex
  | _ => none

/-- Every index drawn along a run satisfies `ok` when it is drawn. -/
def Draws (ok : Net C → UInt32 → Prop) : Net C → List (Action C) → Prop
  | _, [] => True
  | n, action :: rest =>
      (∀ index, action.drawnIndex = some index → ok n index) ∧ Draws ok (n.step action) rest

theorem run_append (n : Net C) (as bs : List (Action C)) :
    n.run (as ++ bs) = (n.run as).run bs := List.foldl_append

theorem draws_append {ok : Net C → UInt32 → Prop} {n : Net C} {as bs : List (Action C)} :
    n.Draws ok (as ++ bs) ↔ n.Draws ok as ∧ (n.run as).Draws ok bs := by
  induction as generalizing n with
  | nil => exact (iff_of_eq (true_and _)).symm
  | cons a as ih => exact (and_congr_right fun _ => ih).trans and_assoc.symm

theorem draws_cons_of_none {ok : Net C → UInt32 → Prop} {n : Net C} {a : Action C}
    {as : List (Action C)} (h : a.drawnIndex = none) (hrest : (n.step a).Draws ok as) :
    n.Draws ok (a :: as) := by
  refine ⟨fun i hi => ?_, hrest⟩
  cases h.symm.trans hi

theorem draws_of_none {ok : Net C → UInt32 → Prop} {n : Net C} {as : List (Action C)}
    (h : ∀ a ∈ as, a.drawnIndex = none) : n.Draws ok as := by
  induction as generalizing n with
  | nil => trivial
  | cons a as ih =>
      exact draws_cons_of_none (h a List.mem_cons_self)
        (ih fun b hb => h b (List.mem_cons_of_mem a hb))

/-- The queue is empty and no actor has a report to send. -/
structure Quiet (n : Net C) : Prop where
  queue : n.queue = []
  outbox : ∀ c d, n.drivers c = some d → d.outbox = []

/-! ### What one action does -/

inductive Change (n : Net C) : Action C → Net C → Prop where
  | idle {action : Action C} : Change n action n
  | added (peerKey : PublicKey) (presharedKey : Option PresharedKey)
      (hfree : n.table.peers peerKey = none) :
      Change n (.addPeer peerKey presharedKey)
        { n with
          table := ⟨Function.update n.table.peers peerKey (some n.spawned)⟩
          drivers := Function.update n.drivers n.spawned
            (some ⟨(Peer.new C peerKey).setPresharedKey presharedKey, []⟩)
          spawned := n.spawned + 1 }
  | removed (peerKey : PublicKey) (actions : Channel)
      (hentry : n.table.peers peerKey = some actions) :
      Change n (.removePeer peerKey)
        { n with
          table := ⟨Function.update n.table.peers peerKey none⟩
          leaving := actions :: n.leaving }
  | purged (actions : Channel) (hmem : actions ∈ n.leaving) :
      Change n (.sendPurge actions)
        { n with leaving := n.leaving.erase actions, queue := n.queue ++ [.purge actions] }
  | operated (actions : Channel) (op : Peer.Op C) (machine : Peer C)
      (hd : n.drivers actions = some ⟨machine, []⟩) :
      Change n (.operate actions op)
        { n with
          drivers := Function.update n.drivers actions
            (some ⟨(machine.step op).2, machine.reports op⟩) }
  | reported (actions : Channel) (machine : Peer C) (control : Control) (outbox : List Control)
      (hd : n.drivers actions = some ⟨machine, control :: outbox⟩) :
      Change n (.report actions)
        { n with
          drivers := Function.update n.drivers actions (some ⟨machine, outbox⟩)
          queue := n.queue ++ [control] }
  | looked (hne : n.queue ≠ []) (hfree : n.looked = none) :
      Change n .lookup { n with looked := some n.table }
  | routed (control : Control) (queue : List Control) (table : RoutingTable)
      (hq : n.queue = control :: queue) (hlooked : n.looked = some table) :
      Change n .route
        { n with router := n.router.apply control table, queue := queue, looked := none }
  | stopped (actions : Channel) (machine : Peer C)
      (hd : n.drivers actions = some ⟨machine, []⟩)
      (hentry : n.table.peers machine.peerKey ≠ some actions) :
      Change n (.stop actions) { n with drivers := Function.update n.drivers actions none }

theorem step_change (n : Net C) (action : Action C) : Change n action (n.step action) := by
  cases action with
  | addPeer peerKey presharedKey =>
      simp only [step, addPeer, RoutingTable.registerPeer]
      cases hentry : n.table.peers peerKey with
      | none => exact .added peerKey presharedKey hentry
      | some actions => exact .idle
  | removePeer peerKey =>
      simp only [step, removePeer, RoutingTable.removePeer]
      cases hentry : n.table.peers peerKey with
      | none => exact .idle
      | some actions => exact .removed peerKey actions hentry
  | sendPurge actions =>
      simp only [step, sendPurge]
      split
      · rename_i hmem
        exact .purged actions hmem
      · exact .idle
  | operate actions op =>
      simp only [step, operate]
      split
      · rename_i machine hd
        exact .operated actions op machine hd
      · exact .idle
  | report actions =>
      simp only [step, report]
      split
      · rename_i machine control outbox hd
        exact .reported actions machine control outbox hd
      · exact .idle
  | lookup =>
      simp only [step, lookup]
      split
      · rename_i hq hfree
        exact .looked (hq ▸ List.cons_ne_nil _ _) hfree
      · exact .idle
  | route =>
      simp only [step, route]
      split
      · rename_i control queue table hq hlooked
        exact .routed control queue table hq hlooked
      · exact .idle
  | stop actions =>
      simp only [step, stop]
      split
      · rename_i machine hd
        split
        · exact .idle
        · rename_i hentry
          exact .stopped actions machine hd hentry
      · exact .idle

end Net

end Tunstile
