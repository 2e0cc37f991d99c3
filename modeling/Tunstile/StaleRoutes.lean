/-
Tunstile/StaleRoutes.lean

Which routes are left when a peer is removed, or an index is retired.

A route never outlives its channel's registration unobserved: the channel is
registered, or its purge is on its way (`Accounted`).  This needs nothing of
the indices, and it holds in the middle of a removal and of a lookup.

That the index of a route is live in the machine of the channel's actor is
another matter, because a bind names its peer by key.  `Traced` follows each
drawn index to the actor that drew it.  An actor's own binds are followed by
its own retires, so they leave no stale route; a bind that was sent by an
earlier actor of the key may, since the read loop finds the new actor's
channel under the key (`stale_route_by_late_bind`).
-/
import Tunstile.LiveRoutes

namespace Tunstile

variable {C : Crypto}

namespace Net

/-! ### Channels of routes -/

/-- The channel of a registered peer's actor. -/
def Registered (n : Net C) (c : Channel) : Prop := ∃ peerKey, n.table.entry peerKey = some c

/-- Every channel that a route holds, or that a lookup under way found, is
registered or about to be purged. -/
structure Accounted (n : Net C) : Prop where
  routes : ∀ i c, n.router.indices i = some c →
    n.Registered c ∨ .purge c ∈ n.queue ∨ c ∈ n.leaving
  looked : ∀ table, n.looked = some table → ∀ peerKey c, table.entry peerKey = some c →
    n.Registered c ∨ .purge c ∈ n.queue.tail ∨ c ∈ n.leaving
  busy : n.looked.isSome = true → n.queue ≠ []

theorem accounted_start : (start C).Accounted where
  routes := fun _ c h => absurd h (Option.some_ne_none c).symm
  looked := fun table h => absurd h (Option.some_ne_none table).symm
  busy := fun h => Bool.noConfusion h

/-- The registry changes only by additions, and by removals that are noted. -/
theorem Accounted.of_table {n n' : Net C} (h : n.Accounted) (hqueue : n'.queue = n.queue)
    (hlooked : n'.looked = n.looked) (hrouter : n'.router = n.router)
    (hmove : ∀ c, n.Registered c → n'.Registered c ∨ c ∈ n'.leaving)
    (hleaving : ∀ c ∈ n.leaving, c ∈ n'.leaving) : n'.Accounted := by
  have hcase (c : Channel) (messages : List Control)
      (hc : n.Registered c ∨ .purge c ∈ messages ∨ c ∈ n.leaving) :
      n'.Registered c ∨ .purge c ∈ messages ∨ c ∈ n'.leaving := by
    rcases hc with hc | hc | hc
    · exact (hmove c hc).imp_right Or.inr
    · exact Or.inr (Or.inl hc)
    · exact Or.inr (Or.inr (hleaving c hc))
  refine ⟨fun i c hroute => ?_, fun table htable k c hk => ?_, ?_⟩
  · rw [hqueue]
    rw [hrouter] at hroute
    exact hcase c _ (h.routes i c hroute)
  · rw [hqueue]
    rw [hlooked] at htable
    exact hcase c _ (h.looked table htable k c hk)
  · rw [hlooked, hqueue]
    exact h.busy

/-- A queued message changes nothing, nor does a purge that moves there. -/
theorem Accounted.enqueue {n n' : Net C} (h : n.Accounted) {control : Control}
    (htable : n'.table = n.table) (hlooked : n'.looked = n.looked) (hrouter : n'.router = n.router)
    (hqueue : n'.queue = n.queue ++ [control])
    (hleaving : ∀ c ∈ n.leaving, c ∈ n'.leaving ∨ control = .purge c) : n'.Accounted := by
  have hcase (c : Channel) (messages : List Control)
      (hc : n.Registered c ∨ .purge c ∈ messages ∨ c ∈ n.leaving) :
      n'.Registered c ∨ .purge c ∈ messages ++ [control] ∨ c ∈ n'.leaving := by
    rcases hc with ⟨k, hk⟩ | hc | hc
    · exact Or.inl ⟨k, htable ▸ hk⟩
    · exact Or.inr (Or.inl (List.mem_append_left _ hc))
    · rcases hleaving c hc with hc | rfl
      · exact Or.inr (Or.inr hc)
      · exact Or.inr (Or.inl (List.mem_append_right _ (List.mem_singleton_self _)))
  refine ⟨fun i c hroute => ?_, fun table hlook k c hk => ?_, fun _ => ?_⟩
  · rw [hqueue]
    rw [hrouter] at hroute
    exact hcase c _ (h.routes i c hroute)
  · rw [hlooked] at hlook
    have hne : n.queue ≠ [] := h.busy (by rw [hlook]; rfl)
    rw [hqueue, List.tail_append_of_ne_nil hne]
    exact hcase c _ (h.looked table hlook k c hk)
  · rw [hqueue]
    exact List.append_ne_nil_of_right_ne_nil _ (List.cons_ne_nil _ _)

/-- Applying a message: a bind plants a channel that the lookup found, and a
purge takes the routes that waited for it. -/
theorem Accounted.routed {n : Net C} (h : n.Accounted) {control : Control} {queue : List Control}
    {table : RoutingTable} (hq : n.queue = control :: queue) (hlooked : n.looked = some table) :
    Accounted { n with
      router := n.router.apply control table, queue := queue, looked := none } := by
  refine ⟨fun i c hroute => ?_, fun t hnone => absurd hnone (Option.some_ne_none t).symm,
    fun hb => Bool.noConfusion hb⟩
  rcases IndexRouter.indices_apply_cases hroute with ⟨hold, hpurge, -⟩ | ⟨k, -, hk⟩
  · rcases h.routes i c hold with hc | hc | hc
    · exact Or.inl hc
    · rw [hq] at hc
      rcases List.mem_cons.mp hc with hc | hc
      · exact absurd hc.symm hpurge
      · exact Or.inr (Or.inl hc)
    · exact Or.inr (Or.inr hc)
  · have hfound := h.looked table hlooked k c hk
    rw [hq, List.tail_cons] at hfound
    exact hfound

theorem accounted_step {n : Net C} (h : n.Accounted) (action : Action C) :
    (n.step action).Accounted := by
  have hchange := n.step_change action
  generalize n.step action = n' at hchange
  cases hchange with
  | idle => exact h
  | added peerKey presharedKey hfree =>
      refine h.of_table rfl rfl rfl ?_ fun c hc => hc
      rintro c ⟨k, hk⟩
      have hne : k ≠ peerKey := by
        rintro rfl
        cases hfree.symm.trans hk
      exact Or.inl ⟨k, (Function.update_of_ne hne _ _).trans hk⟩
  | removed peerKey actions hentry =>
      refine h.of_table rfl rfl rfl ?_ fun c hc => List.mem_cons_of_mem _ hc
      rintro c ⟨k, hk⟩
      by_cases heq : k = peerKey
      · subst heq
        cases hentry.symm.trans hk
        exact Or.inr List.mem_cons_self
      · exact Or.inl ⟨k, (Function.update_of_ne heq _ _).trans hk⟩
  | purged actions hmem =>
      refine h.enqueue rfl rfl rfl rfl fun c hc => ?_
      by_cases heq : c = actions
      · exact Or.inr (congrArg Control.purge heq.symm)
      · exact Or.inl ((List.mem_erase_of_ne heq).mpr hc)
  | operated actions op machine hd => exact h.of_table rfl rfl rfl (fun c => Or.inl) fun c hc => hc
  | reported actions machine control outbox hd =>
      exact h.enqueue rfl rfl rfl rfl fun c hc => Or.inl hc
  | looked hne hfree =>
      refine ⟨h.routes, ?_, fun _ => hne⟩
      rintro table ⟨⟩ k c hk
      exact Or.inl ⟨k, hk⟩
  | routed control queue table hq hlooked => exact h.routed hq hlooked
  | stopped actions machine hd hentry => exact h.of_table rfl rfl rfl (fun c => Or.inl) fun c hc => hc

theorem accounted_run {n : Net C} (h : n.Accounted) (actions : List (Action C)) :
    (n.run actions).Accounted := by
  induction actions generalizing n with
  | nil => exact h
  | cons action rest ih => exact ih (accounted_step h action)

/-- **A removed actor becomes unreachable.**  Whatever the interleaving, a
route's channel is at every moment that of a registered peer, or its purge is
queued, or a removal that took it out of the registry has yet to send it.  So
once no purge is left, no route holds the channel of a removed peer. -/
theorem removed_unreachable (actions : List (Action C)) :
    (∀ i c, ((start C).run actions).router.indices i = some c →
      ((start C).run actions).Registered c ∨ .purge c ∈ ((start C).run actions).queue ∨
        c ∈ ((start C).run actions).leaving) ∧
    (((start C).run actions).queue = [] → ((start C).run actions).leaving = [] →
      ∀ c, ¬ ((start C).run actions).Registered c →
        ∀ i, ((start C).run actions).router.indices i ≠ some c) := by
  have h : ((start C).run actions).Accounted := accounted_run accounted_start actions
  refine ⟨h.routes, fun hqueue hleaving c hc i hroute => ?_⟩
  rcases h.routes i c hroute with hreg | hpurge | hleave
  · exact hc hreg
  · rw [hqueue] at hpurge
    exact List.not_mem_nil hpurge
  · rw [hleaving] at hleave
    exact List.not_mem_nil hleave

/-! ### Who drew an index -/

/-- An index drawn by an actor, and the peer it is an actor of. -/
structure Draw where
  actor : Channel
  peerKey : PublicKey
  index : UInt32

/-- What an action draws. -/
def drawnBy (n : Net C) : Action C → List Draw
  | .operate actions op =>
      match n.drivers actions with
      | some ⟨machine, []⟩ => op.drawnIndex.toList.map fun index => ⟨actions, machine.peerKey, index⟩
      | _ => []
  | _ => []

/-- What is drawn along a run, in order. -/
def drawn : Net C → List (Action C) → List Draw
  | _, [] => []
  | n, action :: rest => n.drawnBy action ++ (n.step action).drawn rest

/-- An operation happens and draws, or neither. -/
theorem operate_cases (n : Net C) (actions : Channel) (op : Peer.Op C) :
    (∃ machine, n.drivers actions = some ⟨machine, []⟩ ∧
      n.step (.operate actions op) = { n with
        drivers := Function.update n.drivers actions
          (some ⟨(machine.step op).2, machine.reports op⟩) } ∧
      n.drawnBy (.operate actions op)
        = op.drawnIndex.toList.map fun index => ⟨actions, machine.peerKey, index⟩) ∨
    (n.step (.operate actions op) = n ∧ n.drawnBy (.operate actions op) = []) := by
  simp only [step, operate, drawnBy]
  rcases hd : n.drivers actions with - | ⟨machine, - | ⟨control, outbox⟩⟩
  · exact Or.inr ⟨rfl, rfl⟩
  · exact Or.inl ⟨machine, rfl, rfl, rfl⟩
  · exact Or.inr ⟨rfl, rfl⟩

/-- The index is live in the actor's machine, or its retire is on the way:
the actor has yet to report it, or it is among `messages`. -/
def Current (d : Driver C) (index : UInt32) (messages : List Control) : Prop :=
  index ∈ d.machine.live ∨ .retire d.machine.peerKey index ∈ d.outbox ∨
    .retire d.machine.peerKey index ∈ messages

/-- A report moves from the actor to the end of the queue. -/
theorem Current.reported {d d' : Driver C} {i : UInt32} {ms : List Control} (h : Current d i ms)
    (hm : d'.machine = d.machine) {control : Control}
    (hout : ∀ m ∈ d.outbox, m ∈ d'.outbox ∨ m = control) : Current d' i (ms ++ [control]) := by
  rw [Current, hm]
  rcases h with hlive | hretire | hretire
  · exact Or.inl hlive
  · rcases hout _ hretire with hmem | heq
    · exact Or.inr (Or.inl hmem)
    · exact Or.inr (Or.inr (List.mem_append_right _ (List.mem_singleton.mpr heq)))
  · exact Or.inr (Or.inr (List.mem_append_left _ hretire))

/-- What an operation takes out of the live indices it reports. -/
theorem Current.operated {machine : Peer C} {i : UInt32} {ms : List Control}
    (h : Current ⟨machine, []⟩ i ms) (hp : machine.WellFormed) (op : Peer.Op C) :
    Current ⟨(machine.step op).2, machine.reports op⟩ i ms := by
  have hkey : (machine.step op).2.peerKey = machine.peerKey :=
    (machine.step_effect hp op).peerKey_eq
  rw [Current, hkey]
  rcases h with hlive | hout | hmem
  · rcases (Peer.mem_live_step hp op i).mpr (Or.inl hlive) with hlive | hret
    · exact Or.inl hlive
    · refine Or.inr (Or.inl (List.mem_append_left _ ?_))
      rw [hret]
      exact List.mem_singleton_self _
  · cases hout
  · exact Or.inr (Or.inr hmem)

/-- What every interleaving keeps, given what was drawn so far. -/
structure Traced (n : Net C) (log : List Draw) : Prop where
  wellFormed : ∀ c d, n.drivers c = some d → d.machine.WellFormed
  registered : ∀ k c, n.table.peers k = some c →
    ∃ d, n.drivers c = some d ∧ d.machine.peerKey = k
  spawned : ∀ c d, n.drivers c = some d → c < n.spawned
  /-- A registered actor is the last one of its key. -/
  latest : ∀ k c, n.table.peers k = some c →
    ∀ c' d', n.drivers c' = some d' → d'.machine.peerKey = k → c' ≤ c
  logged : ∀ x ∈ log, x.actor < n.spawned ∧
    ∀ c, n.table.peers x.peerKey = some c → x.actor ≤ c
  live : ∀ c d, n.drivers c = some d → ∀ i ∈ d.machine.live, ⟨c, d.machine.peerKey, i⟩ ∈ log
  binds : ∀ c d, n.drivers c = some d → ∀ k i, .bind k i ∈ d.outbox →
    k = d.machine.peerKey ∧ i ∈ d.machine.live
  retires : ∀ c d, n.drivers c = some d → ∀ k i, .retire k i ∈ d.outbox → ∃ x ∈ log, x.index = i
  /-- A bind comes before the retire of the same actor. -/
  queued : ∀ before k i after, n.queue = before ++ .bind k i :: after →
    ∃ c, ⟨c, k, i⟩ ∈ log ∧ ∀ d, n.drivers c = some d → Current d i after
  retired : ∀ k i, .retire k i ∈ n.queue → ∃ x ∈ log, x.index = i
  looked : ∀ table, n.looked = some table → ∀ k c, table.peers k = some c →
    c < n.spawned ∧ ∀ d, n.drivers c = some d → d.machine.peerKey = k
  /-- The lookup for a retire finds the actor that drew the index, if that is
  the registered one. -/
  resolved : ∀ table, n.looked = some table → ∀ k i rest, n.queue = .retire k i :: rest →
    ∀ x ∈ log, x.index = i → n.table.peers k = some x.actor → table.peers k = some x.actor
  busy : n.looked.isSome = true → n.queue ≠ []
  routes : ∀ i c, n.router.indices i = some c → c < n.spawned ∧
    ∃ x ∈ log, x.index = i ∧ ∀ d, n.drivers c = some d → d.machine.peerKey = x.peerKey ∧
      (x.actor = c → n.table.peers x.peerKey = some c → Current d i n.queue)

theorem traced_start : (start C).Traced [] := by
  have hdrivers (c : Channel) (d : Driver C) : (start C).drivers c ≠ some d :=
    (Option.some_ne_none d).symm
  have htable (k : PublicKey) (c : Channel) : (start C).table.peers k ≠ some c :=
    (Option.some_ne_none c).symm
  have hlooked (table : RoutingTable) : (start C).looked ≠ some table :=
    (Option.some_ne_none table).symm
  exact
    { wellFormed := fun c d hd => absurd hd (hdrivers c d)
      registered := fun k c hc => absurd hc (htable k c)
      spawned := fun c d hd => absurd hd (hdrivers c d)
      latest := fun k c hc => absurd hc (htable k c)
      logged := fun _ hx => absurd hx List.not_mem_nil
      live := fun c d hd => absurd hd (hdrivers c d)
      binds := fun c d hd => absurd hd (hdrivers c d)
      retires := fun c d hd => absurd hd (hdrivers c d)
      queued := fun before k i after h =>
        absurd h.symm (List.append_ne_nil_of_right_ne_nil before (List.cons_ne_nil _ _))
      retired := fun _ _ h => absurd h List.not_mem_nil
      looked := fun table h => absurd h (hlooked table)
      resolved := fun table h => absurd h (hlooked table)
      busy := fun h => Bool.noConfusion h
      routes := fun _ c h => absurd h (Option.some_ne_none c).symm }

/-! ### Every action keeps it -/

theorem Traced.added {n : Net C} {log : List Draw} (h : n.Traced log) (peerKey : PublicKey)
    (presharedKey : Option PresharedKey) :
    Traced { n with
      table := ⟨Function.update n.table.peers peerKey (some n.spawned)⟩
      drivers := Function.update n.drivers n.spawned
        (some ⟨(Peer.new C peerKey).setPresharedKey presharedKey, []⟩)
      spawned := n.spawned + 1 } log := by
  -- an actor of before is not the new one
  have hold {c : Channel} {d : Driver C} (hlt : c < n.spawned)
      (hd : Function.update n.drivers n.spawned
        (some ⟨(Peer.new C peerKey).setPresharedKey presharedKey, []⟩) c = some d) :
      n.drivers c = some d := (Function.update_of_ne hlt.ne _ _).symm.trans hd
  have hlt : n.spawned < n.spawned + 1 := Nat.lt_succ_self _
  refine
    { wellFormed := forall_update h.wellFormed ?_
      registered := ?_
      spawned := forall_update (fun c d hd => (h.spawned c d hd).trans hlt) fun _ _ => hlt
      latest := ?_
      logged := ?_
      live := forall_update h.live ?_
      binds := forall_update h.binds ?_
      retires := forall_update h.retires ?_
      queued := ?_
      retired := h.retired
      looked := ?_
      resolved := ?_
      busy := h.busy
      routes := ?_ }
  · rintro d ⟨⟩
    exact Peer.wellFormed_run (Peer.wellFormed_new peerKey) [.setPresharedKey presharedKey]
  · intro k c hc
    rcases update_cases hc with ⟨rfl, ⟨⟩⟩ | ⟨-, hc⟩
    · exact ⟨_, Function.update_self _ _ _, rfl⟩
    · obtain ⟨d, hd, hkey⟩ := h.registered k c hc
      exact ⟨d, (Function.update_of_ne (h.spawned c d hd).ne _ _).trans hd, hkey⟩
  · intro k c hc c' d' hd' hkey
    rcases update_cases hd' with ⟨rfl, hnew⟩ | ⟨-, hd'⟩
    · rcases update_cases hc with ⟨-, ⟨⟩⟩ | ⟨hne, -⟩
      · exact le_rfl
      · cases hnew
        exact absurd hkey.symm hne
    · rcases update_cases hc with ⟨-, ⟨⟩⟩ | ⟨-, hc⟩
      · exact (h.spawned c' d' hd').le
      · exact h.latest k c hc c' d' hd' hkey
  · intro x hx
    obtain ⟨hxlt, hle⟩ := h.logged x hx
    refine ⟨hxlt.trans hlt, fun c hc => ?_⟩
    rcases update_cases hc with ⟨-, ⟨⟩⟩ | ⟨-, hc⟩
    · exact hxlt.le
    · exact hle c hc
  · rintro d ⟨⟩ i hi
    cases hi
  · rintro d ⟨⟩ k i hi
    cases hi
  · rintro d ⟨⟩ k i hi
    cases hi
  · intro before k i after hq
    obtain ⟨c, hc, hcur⟩ := h.queued before k i after hq
    exact ⟨c, hc, fun d hd => hcur d (hold (h.logged _ hc).1 hd)⟩
  · intro table htable k c hc
    obtain ⟨hclt, hkey⟩ := h.looked table htable k c hc
    exact ⟨hclt.trans hlt, fun d hd => hkey d (hold hclt hd)⟩
  · intro table htable k i rest hq x hx hxi hk
    rcases update_cases hk with ⟨-, heq⟩ | ⟨-, hk⟩
    · exact absurd (Option.some.inj heq) (h.logged x hx).1.ne'
    · exact h.resolved table htable k i rest hq x hx hxi hk
  · intro i c hroute
    obtain ⟨hclt, x, hx, hxi, hown⟩ := h.routes i c hroute
    refine ⟨hclt.trans hlt, x, hx, hxi, fun d hd => ?_⟩
    obtain ⟨hkey, hcur⟩ := hown d (hold hclt hd)
    refine ⟨hkey, fun hxc hreg => ?_⟩
    rcases update_cases hreg with ⟨-, ⟨⟩⟩ | ⟨-, hreg⟩
    · exact absurd hclt (lt_irrefl _)
    · exact hcur hxc hreg

theorem Traced.removed {n : Net C} {log : List Draw} (h : n.Traced log) (peerKey : PublicKey)
    (leaving : List Channel) :
    Traced { n with
      table := ⟨Function.update n.table.peers peerKey none⟩
      leaving := leaving } log := by
  have hkept (k : PublicKey) (c : Channel)
      (hc : Function.update n.table.peers peerKey none k = some c) : n.table.peers k = some c :=
    (of_update_none hc).2
  refine { h with
    registered := fun k c hc => h.registered k c (hkept k c hc)
    latest := fun k c hc => h.latest k c (hkept k c hc)
    logged := fun x hx => ⟨(h.logged x hx).1, fun c hc => (h.logged x hx).2 c (hkept _ c hc)⟩
    resolved := fun table ht k i rest hq x hx hxi hk =>
      h.resolved table ht k i rest hq x hx hxi (hkept k _ hk)
    routes := ?_ }
  intro i c hroute
  obtain ⟨hclt, x, hx, hxi, hown⟩ := h.routes i c hroute
  refine ⟨hclt, x, hx, hxi, fun d hd => ?_⟩
  obtain ⟨hkey, hcur⟩ := hown d hd
  exact ⟨hkey, fun hxc hreg => hcur hxc (hkept _ c hreg)⟩

/-- A message is queued: a purge, or the next report of an actor. -/
theorem Traced.enqueue {n n' : Net C} {log : List Draw} (h : n.Traced log) {control : Control}
    (htable : n'.table = n.table) (hspawned : n'.spawned = n.spawned)
    (hlooked : n'.looked = n.looked) (hrouter : n'.router = n.router)
    (hqueue : n'.queue = n.queue ++ [control])
    (hdrivers : ∀ c d', n'.drivers c = some d' → ∃ d, n.drivers c = some d ∧
      d'.machine = d.machine ∧ (∀ m ∈ d'.outbox, m ∈ d.outbox) ∧
      ∀ m ∈ d.outbox, m ∈ d'.outbox ∨ m = control)
    (hrunning : ∀ c d, n.drivers c = some d → ∃ d', n'.drivers c = some d' ∧ d'.machine = d.machine)
    (hsender : control.index.isSome = true → ∃ c d, n.drivers c = some d ∧ control ∈ d.outbox) :
    n'.Traced log := by
  refine
    { wellFormed := ?_, registered := ?_, spawned := ?_, latest := ?_, logged := ?_, live := ?_
      binds := ?_, retires := ?_, queued := ?_, retired := ?_, looked := ?_, resolved := ?_
      busy := ?_, routes := ?_ }
  · intro c d' hd'
    obtain ⟨d, hd, hm, -⟩ := hdrivers c d' hd'
    exact hm ▸ h.wellFormed c d hd
  · intro k c hc
    rw [htable] at hc
    obtain ⟨d, hd, hkey⟩ := h.registered k c hc
    obtain ⟨d', hd', hm⟩ := hrunning c d hd
    exact ⟨d', hd', hm ▸ hkey⟩
  · intro c d' hd'
    obtain ⟨d, hd, -⟩ := hdrivers c d' hd'
    exact hspawned ▸ h.spawned c d hd
  · intro k c hc c' d' hd' hkey
    rw [htable] at hc
    obtain ⟨d, hd, hm, -⟩ := hdrivers c' d' hd'
    exact h.latest k c hc c' d hd (hm ▸ hkey)
  · rw [htable, hspawned]
    exact h.logged
  · intro c d' hd' i hi
    obtain ⟨d, hd, hm, -⟩ := hdrivers c d' hd'
    rw [hm] at hi ⊢
    exact h.live c d hd i hi
  · intro c d' hd' k i hmem
    obtain ⟨d, hd, hm, hsub, -⟩ := hdrivers c d' hd'
    rw [hm]
    exact h.binds c d hd k i (hsub _ hmem)
  · intro c d' hd' k i hmem
    obtain ⟨d, hd, hm, hsub, -⟩ := hdrivers c d' hd'
    exact h.retires c d hd k i (hsub _ hmem)
  · intro before k i after hq
    rw [hqueue] at hq
    rcases List.eq_nil_or_concat after with rfl | ⟨after, last, rfl⟩
    · -- the message itself, from an actor whose machine holds the index
      obtain ⟨-, hlast⟩ := List.append_inj' hq rfl
      cases hlast
      obtain ⟨c, d, hd, hmem⟩ := hsender rfl
      obtain ⟨rfl, hlive⟩ := h.binds c d hd k i hmem
      refine ⟨c, h.live c d hd i hlive, fun d' hd' => ?_⟩
      obtain ⟨d₁, hd₁, hm, -⟩ := hdrivers c d' hd'
      cases hd.symm.trans hd₁
      exact Or.inl (hm ▸ hlive)
    · rw [List.concat_eq_append, ← List.cons_append, ← List.append_assoc] at hq
      obtain ⟨hinit, hlast⟩ := List.append_inj' hq rfl
      cases hlast
      obtain ⟨c, hc, hcur⟩ := h.queued before k i after hinit
      refine ⟨c, hc, fun d' hd' => ?_⟩
      obtain ⟨d, hd, hm, -, hout⟩ := hdrivers c d' hd'
      rw [List.concat_eq_append]
      exact (hcur d hd).reported hm hout
  · intro k i hmem
    rw [hqueue] at hmem
    rcases List.mem_append.mp hmem with hmem | hlast
    · exact h.retired k i hmem
    · cases List.mem_singleton.mp hlast
      obtain ⟨c, d, hd, hout⟩ := hsender rfl
      exact h.retires c d hd k i hout
  · intro table ht k c hc
    rw [hlooked] at ht
    obtain ⟨hclt, hkey⟩ := h.looked table ht k c hc
    refine ⟨hspawned ▸ hclt, fun d' hd' => ?_⟩
    obtain ⟨d, hd, hm, -⟩ := hdrivers c d' hd'
    exact hm ▸ hkey d hd
  · intro table ht k i rest hq x hx hxi hk
    rw [hlooked] at ht
    rw [htable] at hk
    -- a lookup is under way, so the first message was there before
    cases hold : n.queue with
    | nil => exact absurd hold (h.busy (by rw [ht]; rfl))
    | cons first before =>
        rw [hqueue, hold, List.cons_append] at hq
        cases hq
        exact h.resolved table ht k i before hold x hx hxi hk
  · intro _
    rw [hqueue]
    exact List.append_ne_nil_of_right_ne_nil _ (List.cons_ne_nil _ _)
  · intro i c hroute
    rw [hrouter] at hroute
    obtain ⟨hclt, x, hx, hxi, hown⟩ := h.routes i c hroute
    refine ⟨hspawned ▸ hclt, x, hx, hxi, fun d' hd' => ?_⟩
    obtain ⟨d, hd, hm, -, hout⟩ := hdrivers c d' hd'
    obtain ⟨hkey, hcur⟩ := hown d hd
    refine ⟨hm ▸ hkey, fun hxc hreg => ?_⟩
    rw [htable] at hreg
    rw [hqueue]
    exact (hcur hxc hreg).reported hm hout

theorem Traced.looked_up {n : Net C} {log : List Draw} (h : n.Traced log) (hne : n.queue ≠ []) :
    Traced { n with looked := some n.table } log := by
  refine { h with looked := ?_, resolved := ?_, busy := fun _ => hne }
  · rintro table ⟨⟩ k c hc
    obtain ⟨d, hd, hkey⟩ := h.registered k c hc
    refine ⟨h.spawned c d hd, fun d' hd' => ?_⟩
    cases hd.symm.trans hd'
    exact hkey
  · rintro table ⟨⟩ k i rest - x - - hk
    exact hk

/-- A bind is followed by what its actor reports later; a retire of the
registered actor takes the route away. -/
theorem Traced.routed {n : Net C} {log : List Draw} (h : n.Traced log) {control : Control}
    {queue : List Control} {table : RoutingTable} (hq : n.queue = control :: queue)
    (hlooked : n.looked = some table) :
    Traced { n with
      router := n.router.apply control table, queue := queue, looked := none } log := by
  refine { h with
    queued := ?_
    retired := fun k i hmem => h.retired k i (hq ▸ List.mem_cons_of_mem _ hmem)
    looked := fun t ht => absurd ht (Option.some_ne_none t).symm
    resolved := fun t ht => absurd ht (Option.some_ne_none t).symm
    busy := fun hb => Bool.noConfusion hb
    routes := ?_ }
  · intro before k i after hrest
    refine h.queued (control :: before) k i after ?_
    rw [hq, List.cons_append]
    exact congrArg (control :: ·) hrest
  · intro i c hroute
    rcases IndexRouter.indices_apply_cases hroute with ⟨hold, -, hretire⟩ | ⟨k, rfl, hk⟩
    · obtain ⟨hclt, x, hx, hxi, hown⟩ := h.routes i c hold
      refine ⟨hclt, x, hx, hxi, fun d hd => ?_⟩
      obtain ⟨hkey, hcur⟩ := hown d hd
      refine ⟨hkey, fun hxc hreg => ?_⟩
      rcases hcur hxc hreg with hlive | hout | hmem
      · exact Or.inl hlive
      · exact Or.inr (Or.inl hout)
      rw [hq] at hmem
      rcases List.mem_cons.mp hmem with heq | hmem
      · -- its own retire found it registered
        subst heq
        subst hxc
        rw [hkey] at hq hretire
        have hfound := h.resolved table hlooked _ i queue hq x hx hxi hreg
        exact absurd hfound (hretire _ rfl)
      · exact Or.inr (Or.inr hmem)
    · obtain ⟨c', hc', hcur⟩ := h.queued [] k i queue hq
      obtain ⟨hclt, hkey⟩ := h.looked table hlooked k c hk
      refine ⟨hclt, ⟨c', k, i⟩, hc', rfl, fun d hd => ⟨hkey d hd, ?_⟩⟩
      rintro rfl -
      exact hcur d hd

/-- What is live after an operation was drawn, before it or by it. -/
theorem Traced.logged_of_live {n : Net C} {log : List Draw} (h : n.Traced log) {actions : Channel}
    {op : Peer.Op C} {machine : Peer C} (hd : n.drivers actions = some ⟨machine, []⟩) {i : UInt32}
    (hi : i ∈ (machine.step op).2.live) :
    ⟨actions, machine.peerKey, i⟩ ∈
      log ++ op.drawnIndex.toList.map fun index => (⟨actions, machine.peerKey, index⟩ : Draw) := by
  rcases (Peer.mem_live_step (h.wellFormed _ _ hd) op i).mp (Or.inl hi) with hold | hinst
  · exact List.mem_append_left _ (h.live _ _ hd i hold)
  · rw [Peer.Op.drawnIndex_of_installed hinst]
    exact List.mem_append_right _ (List.mem_singleton_self _)

/-- What an operation retires was drawn before. -/
theorem Traced.logged_of_retire {n : Net C} {log : List Draw} (h : n.Traced log)
    {actions : Channel} {op : Peer.Op C} {machine : Peer C}
    (hd : n.drivers actions = some ⟨machine, []⟩) {i : UInt32}
    (hi : (machine.step op).1.returned = some i) : ⟨actions, machine.peerKey, i⟩ ∈ log :=
  h.live _ _ hd i ((machine.step_effect (h.wellFormed _ _ hd) op).returned_mem_live hi)

/-- An operation: the index it draws is new, what stays live was live, and
what leaves is reported. -/
theorem Traced.operated {n : Net C} {log : List Draw} (h : n.Traced log) {actions : Channel}
    {op : Peer.Op C} {machine : Peer C} (hd : n.drivers actions = some ⟨machine, []⟩)
    (hnew : ∀ i, op.drawnIndex = some i → ∀ x ∈ log, x.index ≠ i) :
    Traced { n with
      drivers := Function.update n.drivers actions
        (some ⟨(machine.step op).2, machine.reports op⟩) }
      (log ++ op.drawnIndex.toList.map fun index => ⟨actions, machine.peerKey, index⟩) := by
  have hp := h.wellFormed _ _ hd
  have hkey : (machine.step op).2.peerKey = machine.peerKey :=
    (machine.step_effect hp op).peerKey_eq
  -- every actor was there, for the same peer, and what was current for it is
  have hfrom : ∀ c d', Function.update n.drivers actions
      (some ⟨(machine.step op).2, machine.reports op⟩) c = some d' →
      ∃ d, n.drivers c = some d ∧ d'.machine.peerKey = d.machine.peerKey ∧
        ∀ i ms, Current d i ms → Current d' i ms := by
    refine forall_update (fun c d hc => ⟨d, hc, rfl, fun _ _ hcur => hcur⟩) ?_
    rintro d ⟨⟩
    exact ⟨_, hd, hkey, fun i ms hcur => hcur.operated hp op⟩
  refine
    { wellFormed := forall_update h.wellFormed ?_
      registered := fun k c hc => exists_update hd _ hkey.trans (h.registered k c hc)
      spawned := forall_update h.spawned fun _ _ => h.spawned _ _ hd
      latest := ?_
      logged := ?_
      live := forall_update (fun c d hc i hi => List.mem_append_left _ (h.live c d hc i hi)) ?_
      binds := forall_update h.binds ?_
      retires := forall_update (fun c d hc k i hi => ?_) ?_
      queued := ?_
      retired := ?_
      looked := ?_
      resolved := ?_
      busy := h.busy
      routes := ?_ }
  · rintro d ⟨⟩
    exact Peer.wellFormed_step hp op
  · intro k c hc c' d' hd' hk
    obtain ⟨d, hdc, hsame, -⟩ := hfrom c' d' hd'
    exact h.latest k c hc c' d hdc (hsame.symm.trans hk)
  · intro x hx
    rcases List.mem_append.mp hx with hx | hx
    · exact h.logged x hx
    · obtain ⟨i, -, rfl⟩ := List.mem_map.mp hx
      exact ⟨h.spawned _ _ hd, fun c hc => h.latest _ c hc _ _ hd rfl⟩
  · rintro d ⟨⟩ i hi
    rw [hkey]
    exact h.logged_of_live hd hi
  · rintro d ⟨⟩ k i hmem
    rcases Peer.mem_reports hmem with ⟨j, -, hj⟩ | ⟨j, hj, hji⟩
    · cases hj
    · cases hji
      refine ⟨hkey.symm, ?_⟩
      rcases (Peer.mem_live_step hp op i).mpr (Or.inr hj) with hlive | hret
      · exact hlive
      · -- it would have been drawn twice
        have hold := h.logged_of_retire hd hret
        exact absurd rfl (hnew i (Peer.Op.drawnIndex_of_installed hj) _ hold)
  · obtain ⟨x, hx, hxi⟩ := h.retires c d hc k i hi
    exact ⟨x, List.mem_append_left _ hx, hxi⟩
  · rintro d ⟨⟩ k i hmem
    rcases Peer.mem_reports hmem with ⟨j, hj, hji⟩ | ⟨j, -, hj⟩
    · cases hji
      exact ⟨_, List.mem_append_left _ (h.logged_of_retire hd hj), rfl⟩
    · cases hj
  · intro before k i after hq
    obtain ⟨c, hc, hcur⟩ := h.queued before k i after hq
    refine ⟨c, List.mem_append_left _ hc, fun d' hd' => ?_⟩
    obtain ⟨d, hdc, -, hkept⟩ := hfrom c d' hd'
    exact hkept i after (hcur d hdc)
  · intro k i hmem
    obtain ⟨x, hx, hxi⟩ := h.retired k i hmem
    exact ⟨x, List.mem_append_left _ hx, hxi⟩
  · intro table ht k c hc
    obtain ⟨hclt, hk⟩ := h.looked table ht k c hc
    refine ⟨hclt, fun d' hd' => ?_⟩
    obtain ⟨d, hdc, hsame, -⟩ := hfrom c d' hd'
    exact hsame.trans (hk d hdc)
  · intro table ht k i rest hq x hx hxi hk
    rcases List.mem_append.mp hx with hx | hx
    · exact h.resolved table ht k i rest hq x hx hxi hk
    · -- the index of a queued message is not a new one
      obtain ⟨j, hj, rfl⟩ := List.mem_map.mp hx
      have hqueue : n.queue = .retire k i :: rest := hq
      obtain ⟨y, hy, hyi⟩ := h.retired k i (hqueue ▸ List.mem_cons_self)
      exact absurd (hyi.trans hxi.symm) (hnew j (Option.mem_toList.mp hj) y hy)
  · intro i c hroute
    obtain ⟨hclt, x, hx, hxi, hown⟩ := h.routes i c hroute
    refine ⟨hclt, x, List.mem_append_left _ hx, hxi, fun d' hd' => ?_⟩
    obtain ⟨d, hdc, hsame, hkept⟩ := hfrom c d' hd'
    obtain ⟨hk, hcur⟩ := hown d hdc
    exact ⟨hsame.trans hk, fun hxc hreg => hkept i n.queue (hcur hxc hreg)⟩

theorem Traced.stopped {n : Net C} {log : List Draw} (h : n.Traced log) {actions : Channel}
    {machine : Peer C} (hd : n.drivers actions = some ⟨machine, []⟩)
    (hentry : n.table.peers machine.peerKey ≠ some actions) :
    Traced { n with drivers := Function.update n.drivers actions none } log := by
  have hold (c : Channel) (d : Driver C) (hc : Function.update n.drivers actions none c = some d) :
      n.drivers c = some d := (of_update_none hc).2
  refine { h with
    wellFormed := fun c d hc => h.wellFormed c d (hold c d hc)
    registered := ?_
    spawned := fun c d hc => h.spawned c d (hold c d hc)
    latest := fun k c hc c' d' hd' => h.latest k c hc c' d' (hold c' d' hd')
    live := fun c d hc => h.live c d (hold c d hc)
    binds := fun c d hc => h.binds c d (hold c d hc)
    retires := fun c d hc => h.retires c d (hold c d hc)
    queued := ?_
    looked := ?_
    routes := ?_ }
  · intro k c hc
    obtain ⟨d, hdc, hk⟩ := h.registered k c hc
    have hne : c ≠ actions := by
      rintro rfl
      cases hd.symm.trans hdc
      exact hentry (hk ▸ hc)
    exact ⟨d, (Function.update_of_ne hne _ _).trans hdc, hk⟩
  · intro before k i after hq
    obtain ⟨c, hc, hcur⟩ := h.queued before k i after hq
    exact ⟨c, hc, fun d hdc => hcur d (hold c d hdc)⟩
  · intro table ht k c hc
    obtain ⟨hclt, hk⟩ := h.looked table ht k c hc
    exact ⟨hclt, fun d hdc => hk d (hold c d hdc)⟩
  · intro i c hroute
    obtain ⟨hclt, x, hx, hxi, hown⟩ := h.routes i c hroute
    exact ⟨hclt, x, hx, hxi, fun d hdc => hown d (hold c d hdc)⟩

/-- What an action that draws nothing keeps. -/
theorem Traced.undrawn {n n' : Net C} {log : List Draw} (h : n.Traced log) {action : Action C}
    (hchange : n.Change action n') (hop : ∀ actions op, action ≠ .operate actions op) :
    n'.Traced log := by
  cases hchange with
  | idle => exact h
  | added peerKey presharedKey hfree => exact h.added peerKey presharedKey
  | removed peerKey actions hentry => exact h.removed peerKey _
  | purged actions hmem =>
      exact h.enqueue rfl rfl rfl rfl rfl
        (fun c d hd => ⟨d, hd, rfl, fun _ hm => hm, fun _ hm => Or.inl hm⟩)
        (fun c d hd => ⟨d, hd, rfl⟩) fun hsome => Bool.noConfusion hsome
  | operated actions op => exact absurd rfl (hop actions op)
  | reported actions machine control outbox hd =>
      refine h.enqueue rfl rfl rfl rfl rfl ?_ ?_ fun _ => ⟨_, _, hd, List.mem_cons_self⟩
      · refine forall_update
          (fun c d hc => ⟨d, hc, rfl, fun _ hm => hm, fun _ hm => Or.inl hm⟩) ?_
        rintro d ⟨⟩
        exact ⟨_, hd, rfl, fun _ hm => List.mem_cons_of_mem _ hm,
          fun _ hm => (List.mem_cons.mp hm).symm⟩
      · intro c d hc
        exact exists_update hd ⟨machine, outbox⟩ id ⟨d, hc, rfl⟩
  | looked hne hfree => exact h.looked_up hne
  | routed control queue table hq hlooked => exact h.routed hq hlooked
  | stopped actions machine hd hentry => exact h.stopped hd hentry

theorem traced_step {n : Net C} {log : List Draw} (h : n.Traced log) (action : Action C)
    (hnew : ∀ y ∈ n.drawnBy action, ∀ x ∈ log, x.index ≠ y.index) :
    (n.step action).Traced (log ++ n.drawnBy action) := by
  by_cases hop : ∃ actions op, action = .operate actions op
  · obtain ⟨actions, op, rfl⟩ := hop
    rcases n.operate_cases actions op with ⟨machine, hd, hstep, hdrawn⟩ | ⟨hstep, hdrawn⟩
    · rw [hdrawn] at hnew
      rw [hstep, hdrawn]
      refine h.operated hd fun i hi x hx => ?_
      exact hnew ⟨actions, machine.peerKey, i⟩ (by rw [hi]; exact List.mem_singleton_self _) x hx
    · rw [hstep, hdrawn, List.append_nil]
      exact h
  · have hnot : ∀ actions op, action ≠ .operate actions op := fun actions op heq =>
      hop ⟨actions, op, heq⟩
    have hnone : n.drawnBy action = [] := by
      cases action with
      | operate actions op => exact absurd rfl (hnot actions op)
      | _ => rfl
    rw [hnone, List.append_nil]
    exact h.undrawn (n.step_change action) hnot

theorem traced_run {n : Net C} {log : List Draw} (h : n.Traced log) (actions : List (Action C))
    (hdistinct : ((log ++ n.drawn actions).map Draw.index).Nodup) :
    (n.run actions).Traced (log ++ n.drawn actions) := by
  induction actions generalizing n log with
  | nil =>
      rw [drawn, List.append_nil]
      exact h
  | cons action rest ih =>
      rw [drawn, ← List.append_assoc] at hdistinct ⊢
      refine ih (traced_step h action fun y hy x hx heq => ?_) hdistinct
      rw [List.map_append, List.map_append, List.append_assoc, List.nodup_append] at hdistinct
      exact hdistinct.2.2 _ (List.mem_map_of_mem hx) _
        (List.mem_append_left _ (List.mem_map_of_mem hy)) heq

/-- **Which routes are stale.**  Whatever the interleaving, if no index is
drawn twice, then in a quiet system the channel of a route is that of a
registered peer, or of one whose removal has yet to send its purge.  If the
peer is registered, the index is live in the machine of that very actor, or
an earlier actor of the same key drew it. -/
theorem route_live_or_late (actions : List (Action C))
    (hdistinct : (((start C).drawn actions).map Draw.index).Nodup)
    (hquiet : ((start C).run actions).Quiet) (i : UInt32) (c : Channel)
    (hroute : ((start C).run actions).router.indices i = some c) :
    c ∈ ((start C).run actions).leaving ∨
      ∃ k d, ((start C).run actions).table.entry k = some c ∧
        ((start C).run actions).drivers c = some d ∧ d.machine.peerKey = k ∧
        (i ∈ d.machine.live ∨
          ∃ x ∈ (start C).drawn actions, x.index = i ∧ x.peerKey = k ∧ x.actor < c) := by
  have h : ((start C).run actions).Traced ((start C).drawn actions) :=
    traced_run traced_start actions hdistinct
  rcases (accounted_run accounted_start actions).routes i c hroute with ⟨k, hk⟩ | hpurge | hleave
  · obtain ⟨d, hd, hkey⟩ := h.registered k c hk
    obtain ⟨-, x, hx, hxi, hown⟩ := h.routes i c hroute
    obtain ⟨hxk, hcur⟩ := hown d hd
    have hkx : x.peerKey = k := hxk.symm.trans hkey
    refine Or.inr ⟨k, d, hk, hd, hkey, ?_⟩
    by_cases hxc : x.actor = c
    · rcases hcur hxc (hkx ▸ hk) with hlive | hout | hmem
      · exact Or.inl hlive
      · rw [hquiet.outbox c d hd] at hout
        exact absurd hout List.not_mem_nil
      · rw [hquiet.queue] at hmem
        exact absurd hmem List.not_mem_nil
    · have hle : x.actor ≤ c := (h.logged x hx).2 c (hkx ▸ hk)
      exact Or.inr ⟨x, hx, hxi, hkx, lt_of_le_of_ne hle hxc⟩
  · rw [hquiet.queue] at hpurge
    exact absurd hpurge List.not_mem_nil
  · exact Or.inl hleave

/-- The state after `binding`: one peer, whose index 7 is live and routed. -/
theorem run_binding : ∃ p : Peer Crypto.symbolic, p.live = {7} ∧
    ((start Crypto.symbolic).run binding).drivers
      = Function.update (fun _ => none) 0 (some ⟨p, []⟩) ∧
    ((start Crypto.symbolic).run binding).queue = [] ∧
    ((start Crypto.symbolic).run binding).leaving = [] ∧
    ((start Crypto.symbolic).run binding).router.indices 7 = some 0 ∧
    ((start Crypto.symbolic).drawn binding).map Draw.index = [7] := by
  obtain ⟨p, hstep, hbind, hp, -, -⟩ := exists_symbolicInit
  refine ⟨p, hp, ?_⟩
  simp [run, binding, start, step, addPeer, operate, report, lookup, route, drawn, drawnBy,
    RoutingTable.registerPeer, RoutingTable.new, RoutingTable.entry, IndexRouter.apply,
    IndexRouter.new, hstep, hbind]
  rfl

/-- The route that a peer's own bind planted leads to the live index. -/
theorem route_live_or_late_binding : ∃ d : Driver Crypto.symbolic,
    ((start Crypto.symbolic).run binding).drivers 0 = some d ∧ (7 : UInt32) ∈ d.machine.live := by
  obtain ⟨p, hp, hdrivers, hqueue, hleaving, hroute, hdrawn⟩ := run_binding
  have hquiet : ((start Crypto.symbolic).run binding).Quiet := by
    refine ⟨hqueue, fun c d hd => ?_⟩
    rw [hdrivers, Function.update_apply] at hd
    split at hd <;> cases hd
    rfl
  have hdistinct : (((start Crypto.symbolic).drawn binding).map Draw.index).Nodup := by
    rw [hdrawn]
    exact List.nodup_singleton 7
  rcases route_live_or_late binding hdistinct hquiet 7 0 hroute with
    hleave | ⟨k, d, -, hd, -, hlive | ⟨x, -, -, -, hlt⟩⟩
  · rw [hleaving] at hleave
    exact absurd hleave List.not_mem_nil
  · exact ⟨d, hd, hlive⟩
  · exact absurd hlt (Nat.not_lt_zero _)

/-- An actor draws 7 and is removed before it reports; the key is registered
again, and then the old actor's bind comes. -/
def rebinding : List (Action Crypto.symbolic) :=
  [.addPeer symbolicPeer none, .operate 0 symbolicInit, .removePeer symbolicPeer, .sendPurge 0,
    .addPeer symbolicPeer none, .report 0, .lookup, .route, .lookup, .route]

/-- **A late bind plants a stale route.**  The one index drawn belongs to the
removed actor, yet it is routed to the new actor of the key, whose machine
does not hold it. -/
theorem stale_route_by_late_bind : ∃ actions : List (Action Crypto.symbolic),
    (((start Crypto.symbolic).drawn actions).map Draw.index).Nodup ∧
    ((start Crypto.symbolic).run actions).Quiet ∧
    ((start Crypto.symbolic).run actions).leaving = [] ∧
    ∃ i c, ((start Crypto.symbolic).run actions).router.indices i = some c ∧
      ∀ d, ((start Crypto.symbolic).run actions).drivers c = some d → i ∉ d.machine.live := by
  obtain ⟨p, hstep, hbind, -, -, -⟩ := exists_symbolicInit
  obtain ⟨hdrawn, hqueue, hleaving, hdrivers, hroute⟩ :
      ((start Crypto.symbolic).drawn rebinding).map Draw.index = [7] ∧
      ((start Crypto.symbolic).run rebinding).queue = [] ∧
      ((start Crypto.symbolic).run rebinding).leaving = [] ∧
      ((start Crypto.symbolic).run rebinding).drivers = Function.update (Function.update
        (Function.update (fun _ => none) 0 (some ⟨p, [.bind symbolicPeer 7]⟩)) 1
          (some ⟨(Peer.new Crypto.symbolic symbolicPeer).setPresharedKey none, []⟩))
        0 (some ⟨p, []⟩) ∧
      ((start Crypto.symbolic).run rebinding).router.indices 7 = some 1 := by
    simp [run, rebinding, start, step, addPeer, removePeer, sendPurge, operate, report, lookup,
      route, drawn, drawnBy, RoutingTable.registerPeer, RoutingTable.removePeer,
      RoutingTable.new, RoutingTable.entry, IndexRouter.apply, IndexRouter.new, hstep, hbind]
    rfl
  refine ⟨rebinding, ?_, ⟨hqueue, fun c d hd => ?_⟩, hleaving, 7, 1, hroute, fun d hd => ?_⟩
  · rw [hdrawn]
    exact List.nodup_singleton 7
  · rw [hdrivers] at hd
    by_cases hold : c = 0
    · subst hold
      cases hd
      rfl
    · by_cases hnew : c = 1
      · subst hnew
        cases hd
        rfl
      · simp [hold, hnew] at hd
  · rw [hdrivers] at hd
    cases hd
    exact Multiset.notMem_zero 7

end Net

end Tunstile
