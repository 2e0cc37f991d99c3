/-
Tunstile/LiveRoutes.lean

No live index of a registered peer is left unrouted.

From the moment an index is drawn until it is reported as retired, it has
one owner.  `Phase` says where it stands: its bind is still to be reported,
is queued, or was applied, and no other message is about it.  The read loop
finds the right channel for the bind, because an owner that is registered
now was so when it reported.

For this an index has to be drawn `Unclaimed`.  That it is not live, routed
or in a queued message is not enough: an actor may hold a report that it has
not sent yet (`live_unrouted_by_late_report`).
-/
import Tunstile.Routing

namespace Tunstile

variable {C : Crypto}

namespace Net

/-! ### Where a live index stands -/

/-- No message of the list is about `index`. -/
def Silent (index : UInt32) (messages : List Control) : Prop :=
  ∀ control ∈ messages, control.index ≠ some index

/-- No actor has a report about `index` to send. -/
def Unreported (n : Net C) (index : UInt32) : Prop :=
  ∀ c d, n.drivers c = some d → Silent index d.outbox

/-- A live index of the actor `c` of `peerKey` is routed to it, or its bind
is the one message about it on its way. -/
inductive Phase (n : Net C) (peerKey : PublicKey) (c : Channel) (index : UInt32) : Prop where
  | reporting (d : Driver C) (hd : n.drivers c = some d) (before : List Control)
      (hout : d.outbox = before ++ [.bind peerKey index]) (hbefore : Silent index before)
      (hothers : ∀ c' d', n.drivers c' = some d' → c' ≠ c → Silent index d'.outbox)
      (hqueue : Silent index n.queue) (hroute : n.router.indices index = none)
  | queued (before after : List Control)
      (hqueue : n.queue = before ++ .bind peerKey index :: after)
      (hbefore : Silent index before) (hafter : Silent index after) (hout : n.Unreported index)
      (hlooked : before = [] → ∀ table, n.looked = some table → table.peers peerKey = some c)
      (hroute : n.router.indices index = none)
  | routed (hqueue : Silent index n.queue) (hout : n.Unreported index)
      (hroute : n.router.indices index = some c)

/-- What every interleaving keeps. -/
structure Sound (n : Net C) : Prop where
  wellFormed : ∀ c d, n.drivers c = some d → d.machine.WellFormed
  registered : ∀ peerKey c, n.table.peers peerKey = some c →
    ∃ d, n.drivers c = some d ∧ d.machine.peerKey = peerKey
  unspawned : ∀ c, n.spawned ≤ c → n.drivers c = none
  nodup : ∀ c d, n.drivers c = some d → d.machine.live.Nodup
  disjoint : ∀ c c' d d' i, n.drivers c = some d → n.drivers c' = some d' →
    i ∈ d.machine.live → i ∈ d'.machine.live → c = c'
  gone : ∀ c, c ∈ n.leaving ∨ .purge c ∈ n.queue →
    c < n.spawned ∧ ∀ peerKey, n.table.peers peerKey ≠ some c
  unpurging : ∀ c d, n.drivers c = some d → ∀ x, .purge x ∉ d.outbox
  busy : n.looked.isSome = true → n.queue ≠ []
  phase : ∀ peerKey c d i, n.table.peers peerKey = some c → n.drivers c = some d →
    i ∈ d.machine.live → n.Phase peerKey c i

theorem sound_start : (start C).Sound := by
  have hdrivers (c : Channel) (d : Driver C) : (start C).drivers c ≠ some d :=
    (Option.some_ne_none d).symm
  have htable (peerKey : PublicKey) (c : Channel) : (start C).table.peers peerKey ≠ some c :=
    (Option.some_ne_none c).symm
  exact
    { wellFormed := fun c d hd => absurd hd (hdrivers c d)
      registered := fun peerKey c hc => absurd hc (htable peerKey c)
      unspawned := fun _ _ => rfl
      nodup := fun c d hd => absurd hd (hdrivers c d)
      disjoint := fun c _ d _ _ hd => absurd hd (hdrivers c d)
      gone := fun c hc => hc.elim (fun h => absurd h List.not_mem_nil)
        (fun h => absurd h List.not_mem_nil)
      unpurging := fun c d hd => absurd hd (hdrivers c d)
      busy := fun h => Bool.noConfusion h
      phase := fun peerKey c _ _ hc => absurd hc (htable peerKey c) }

/-- A registered channel belongs to a running actor, so it is not new. -/
theorem Sound.lt_spawned {n : Net C} (h : n.Sound) {c : Channel} {d : Driver C}
    (hd : n.drivers c = some d) : c < n.spawned := by
  by_contra hge
  cases (h.unspawned c (Nat.le_of_not_lt hge)).symm.trans hd

theorem silent_nil (index : UInt32) : Silent index [] := nofun

theorem silent_append {index : UInt32} {xs ys : List Control} :
    Silent index (xs ++ ys) ↔ Silent index xs ∧ Silent index ys := List.forall_mem_append

theorem silent_cons {index : UInt32} {x : Control} {xs : List Control} :
    Silent index (x :: xs) ↔ x.index ≠ some index ∧ Silent index xs := List.forall_mem_cons

/-- Neither the registry nor the purges to come matter to a phase. -/
theorem Phase.of_eq {n n' : Net C} {peerKey : PublicKey} {c : Channel} {i : UInt32}
    (h : n.Phase peerKey c i) (hdrivers : n'.drivers = n.drivers) (hqueue : n'.queue = n.queue)
    (hlooked : n'.looked = n.looked) (hrouter : n'.router = n.router) :
    n'.Phase peerKey c i := by
  obtain ⟨table, drivers, spawned, leaving, queue, looked, router⟩ := n
  obtain ⟨table', drivers', spawned', leaving', queue', looked', router'⟩ := n'
  cases hdrivers
  cases hqueue
  cases hlooked
  cases hrouter
  cases h with
  | reporting d hd before hout hbefore hothers hqueue hroute =>
      exact .reporting d hd before hout hbefore hothers hqueue hroute
  | queued before after hqueue hbefore hafter hout hlooked hroute =>
      exact .queued before after hqueue hbefore hafter hout hlooked hroute
  | routed hqueue hout hroute => exact .routed hqueue hout hroute

/-- A message about something else, added to the queue, changes no phase. -/
theorem Phase.enqueue {n : Net C} {peerKey : PublicKey} {c : Channel} {i : UInt32}
    (h : n.Phase peerKey c i) {control : Control} (hcontrol : control.index ≠ some i)
    (leaving : List Channel) :
    Phase { n with leaving := leaving, queue := n.queue ++ [control] } peerKey c i := by
  have hlast : Silent i [control] := silent_cons.mpr ⟨hcontrol, silent_nil i⟩
  cases h with
  | reporting d hd before hout hbefore hothers hqueue hroute =>
      exact .reporting d hd before hout hbefore hothers (silent_append.mpr ⟨hqueue, hlast⟩) hroute
  | queued before after hqueue hbefore hafter hout hlooked hroute =>
      refine .queued before (after ++ [control]) ?_ hbefore (silent_append.mpr ⟨hafter, hlast⟩)
        hout hlooked hroute
      show n.queue ++ [control] = _
      rw [hqueue, List.append_assoc, List.cons_append]
  | routed hqueue hout hroute =>
      exact .routed (silent_append.mpr ⟨hqueue, hlast⟩) hout hroute

/-! ### Every action keeps it -/

/-- What holds of every actor still does, if it does of the updated one. -/
theorem forall_update {n : Net C} {c : Channel} {new : Option (Driver C)}
    {P : Channel → Driver C → Prop} (hold : ∀ x d, n.drivers x = some d → P x d)
    (hnew : ∀ d, new = some d → P c d) (x : Channel) (d : Driver C)
    (h : Function.update n.drivers c new x = some d) : P x d := by
  rcases update_cases h with ⟨rfl, hd⟩ | ⟨-, hd⟩
  · exact hnew d hd
  · exact hold x d hd

/-- An actor that was there still is, with what its update keeps. -/
theorem exists_update {n : Net C} {c : Channel} {d : Driver C} {P : Driver C → Prop}
    (hd : n.drivers c = some d) (new : Driver C) (hnew : P d → P new) {x : Channel}
    (hx : ∃ e, n.drivers x = some e ∧ P e) :
    ∃ e, Function.update n.drivers c (some new) x = some e ∧ P e := by
  obtain ⟨e, he, hP⟩ := hx
  by_cases hc : x = c
  · subst hc
    cases hd.symm.trans he
    exact ⟨new, Function.update_self _ _ _, hnew hP⟩
  · exact ⟨e, (Function.update_of_ne hc _ _).trans he, hP⟩

/-- An actor's change keeps the phases of indices that it does not report. -/
theorem Phase.update {n : Net C} {peerKey : PublicKey} {c : Channel} {i : UInt32}
    (h : n.Phase peerKey c i) {c' : Channel} {new : Option (Driver C)}
    (hold : ∀ d, n.drivers c' = some d → d.outbox = [])
    (hnew : ∀ d, new = some d → Silent i d.outbox) :
    Phase { n with drivers := Function.update n.drivers c' new } peerKey c i := by
  have hall (P : Channel → Prop)
      (hsilent : ∀ x d, n.drivers x = some d → P x → Silent i d.outbox) (x : Channel)
      (d : Driver C) (hd : Function.update n.drivers c' new x = some d) (hx : P x) :
      Silent i d.outbox := by
    rcases update_cases hd with ⟨-, hd⟩ | ⟨-, hd⟩
    · exact hnew d hd
    · exact hsilent x d hd hx
  cases h with
  | reporting d hd before hout hbefore hothers hqueue hroute =>
      -- the actor that has the bind to report is another one
      have hne : c ≠ c' := by
        rintro rfl
        rw [hold d hd] at hout
        exact List.append_ne_nil_of_right_ne_nil before (List.cons_ne_nil _ _) hout.symm
      exact .reporting d ((Function.update_of_ne hne new n.drivers).trans hd) before hout hbefore
        (hall (· ≠ c) hothers) hqueue hroute
  | queued before after hqueue hbefore hafter hout hlooked hroute =>
      exact .queued before after hqueue hbefore hafter
        (fun x d hd => hall (fun _ => True) (fun x d hd _ => hout x d hd) x d hd trivial)
        hlooked hroute
  | routed hqueue hout hroute =>
      exact .routed hqueue
        (fun x d hd => hall (fun _ => True) (fun x d hd _ => hout x d hd) x d hd trivial) hroute

theorem Sound.added {n : Net C} (h : n.Sound) (peerKey : PublicKey)
    (presharedKey : Option PresharedKey) :
    Sound { n with
      table := ⟨Function.update n.table.peers peerKey (some n.spawned)⟩
      drivers := Function.update n.drivers n.spawned
        (some ⟨(Peer.new C peerKey).setPresharedKey presharedKey, []⟩)
      spawned := n.spawned + 1 } := by
  have hfresh : n.drivers n.spawned = none := h.unspawned n.spawned le_rfl
  refine { wellFormed := forall_update h.wellFormed ?_, registered := ?_, unspawned := ?_
           nodup := forall_update h.nodup ?_, disjoint := ?_, gone := ?_
           unpurging := forall_update h.unpurging ?_, busy := h.busy, phase := ?_ }
  · rintro d ⟨⟩
    exact Peer.wellFormed_run (Peer.wellFormed_new peerKey) [.setPresharedKey presharedKey]
  · intro k c hc
    rcases update_cases hc with ⟨rfl, ⟨⟩⟩ | ⟨-, hc⟩
    · exact ⟨_, Function.update_self _ _ _, rfl⟩
    · obtain ⟨d, hd, hkey⟩ := h.registered k c hc
      exact ⟨d, (Function.update_of_ne (h.lt_spawned hd).ne _ _).trans hd, hkey⟩
  · intro c hc
    have hne : c ≠ n.spawned := (Nat.lt_of_succ_le hc).ne'
    exact (Function.update_of_ne hne _ _).trans (h.unspawned c (Nat.le_of_succ_le hc))
  · rintro d ⟨⟩
    exact Multiset.nodup_zero
  · intro c c' d d' i hd hd' hi hi'
    rcases update_cases hd with ⟨-, hd⟩ | ⟨-, hd⟩
    · cases hd
      cases hi
    rcases update_cases hd' with ⟨-, hd'⟩ | ⟨-, hd'⟩
    · cases hd'
      cases hi'
    exact h.disjoint c c' d d' i hd hd' hi hi'
  · intro c hc
    obtain ⟨hlt, hnot⟩ := h.gone c hc
    refine ⟨hlt.trans (Nat.lt_succ_self _), fun k hk => ?_⟩
    rcases update_cases hk with ⟨-, ⟨⟩⟩ | ⟨-, hk⟩
    · exact lt_irrefl _ hlt
    · exact hnot k hk
  · rintro d ⟨⟩ x
    exact List.not_mem_nil
  · intro k c d i hc hd hi
    rcases update_cases hd with ⟨-, hd⟩ | ⟨hne, hd⟩
    · cases hd
      cases hi
    rcases update_cases hc with ⟨-, ⟨⟩⟩ | ⟨-, hc⟩
    · exact absurd rfl hne
    · refine ((h.phase k c d i hc hd hi).update (fun d hd => ?_) (fun d hd => ?_)).of_eq
        rfl rfl rfl rfl
      · cases hfresh.symm.trans hd
      · cases hd
        exact silent_nil i

theorem Sound.removed {n : Net C} (h : n.Sound) {peerKey : PublicKey} {actions : Channel}
    (hentry : n.table.peers peerKey = some actions) :
    Sound { n with
      table := ⟨Function.update n.table.peers peerKey none⟩
      leaving := actions :: n.leaving } := by
  obtain ⟨d, hd, hkey⟩ := h.registered peerKey actions hentry
  have hgone : ∀ c, c ∈ n.leaving ∨ .purge c ∈ n.queue → c < n.spawned ∧
      ∀ k, Function.update n.table.peers peerKey none k ≠ some c := by
    intro c hc
    obtain ⟨hlt, hnot⟩ := h.gone c hc
    exact ⟨hlt, fun k hk => hnot k (of_update_none hk).2⟩
  refine { h with
    registered := fun k c hc => h.registered k c (of_update_none hc).2
    gone := ?_
    phase := fun k c d i hc hd hi =>
      (h.phase k c d i (of_update_none hc).2 hd hi).of_eq rfl rfl rfl rfl }
  rintro c (hc | hc)
  · rcases List.mem_cons.mp hc with rfl | hc
    · -- a channel is registered under its actor's key alone
      refine ⟨h.lt_spawned hd, fun k hk => ?_⟩
      obtain ⟨hne, hk⟩ := of_update_none hk
      obtain ⟨d', hd', hkey'⟩ := h.registered k c hk
      cases hd.symm.trans hd'
      exact hne (hkey'.symm.trans hkey)
    · exact hgone c (Or.inl hc)
  · exact hgone c (Or.inr hc)

theorem Sound.purged {n : Net C} (h : n.Sound) {actions : Channel} (hmem : actions ∈ n.leaving) :
    Sound { n with leaving := n.leaving.erase actions, queue := n.queue ++ [.purge actions] } := by
  refine { h with
    gone := ?_
    busy := fun _ => List.append_ne_nil_of_right_ne_nil _ (List.cons_ne_nil _ _)
    phase := fun k c d i hc hd hi =>
      have hindex : (Control.purge actions).index ≠ some i := (Option.some_ne_none i).symm
      (h.phase k c d i hc hd hi).enqueue hindex _ }
  rintro c (hc | hc)
  · exact h.gone c (Or.inl (List.mem_of_mem_erase hc))
  · rcases List.mem_append.mp hc with hc | hc
    · exact h.gone c (Or.inr hc)
    · cases List.mem_singleton.mp hc
      exact h.gone actions (Or.inl hmem)

theorem Sound.looked {n : Net C} (h : n.Sound) (hne : n.queue ≠ []) :
    Sound { n with looked := some n.table } := by
  refine { h with busy := fun _ => hne, phase := ?_ }
  intro k c d i hc hd hi
  cases h.phase k c d i hc hd hi with
  | reporting d hd before hout hbefore hothers hqueue hroute =>
      exact .reporting d hd before hout hbefore hothers hqueue hroute
  | queued before after hqueue hbefore hafter hout _ hroute =>
      refine .queued before after hqueue hbefore hafter hout ?_ hroute
      rintro - table ⟨⟩
      exact hc
  | routed hqueue hout hroute => exact .routed hqueue hout hroute

/-- Applying the first message binds the index if it is its bind, and
otherwise leaves it alone: a purge is never of a registered channel. -/
theorem Sound.routed {n : Net C} (h : n.Sound) {control : Control} {queue : List Control}
    {table : RoutingTable} (hq : n.queue = control :: queue) (hlooked : n.looked = some table) :
    Sound { n with router := n.router.apply control table, queue := queue, looked := none } := by
  have hmem : ∀ m ∈ queue, m ∈ n.queue := fun m hm => hq ▸ List.mem_cons_of_mem _ hm
  refine { h with
    gone := fun c hc => h.gone c (hc.imp_right (hmem _))
    busy := fun hb => Bool.noConfusion hb
    phase := ?_ }
  intro k c d i hc hd hi
  have hnone (hindex : control.index ≠ some i) (hroute : n.router.indices i = none) :
      (n.router.apply control table).indices i = none := by
    refine (IndexRouter.indices_apply_of_ne hindex ?_).trans hroute
    intro c' _ hr
    cases hroute.symm.trans hr
  cases h.phase k c d i hc hd hi with
  | reporting d hd before hout hbefore hothers hqueue hroute =>
      rw [hq] at hqueue
      obtain ⟨hindex, hrest⟩ := silent_cons.mp hqueue
      exact .reporting d hd before hout hbefore hothers hrest (hnone hindex hroute)
  | queued before after hqueue hbefore hafter hout hlook hroute =>
      cases before with
      | nil =>
          rw [hq, List.nil_append] at hqueue
          cases hqueue
          refine .routed hafter hout ?_
          exact IndexRouter.indices_apply_bind (hlook rfl table hlooked) hroute
      | cons first before =>
          rw [hq, List.cons_append] at hqueue
          cases hqueue
          obtain ⟨hindex, hrest⟩ := silent_cons.mp hbefore
          exact .queued before after rfl hrest hafter hout nofun (hnone hindex hroute)
  | routed hqueue hout hroute =>
      rw [hq] at hqueue
      obtain ⟨hindex, hrest⟩ := silent_cons.mp hqueue
      refine .routed hrest hout ((IndexRouter.indices_apply_of_ne hindex ?_).trans hroute)
      rintro c' rfl hr
      cases hroute.symm.trans hr
      exact (h.gone c (Or.inr (hq ▸ List.mem_cons_self))).2 k hc

theorem Sound.unspawned_update {n : Net C} (h : n.Sound) {c : Channel} {d : Driver C}
    (hd : n.drivers c = some d) (new : Option (Driver C)) (x : Channel) (hx : n.spawned ≤ x) :
    Function.update n.drivers c new x = none := by
  have hne : x ≠ c := by
    rintro rfl
    cases (h.unspawned x hx).symm.trans hd
  exact (Function.update_of_ne hne _ _).trans (h.unspawned x hx)

/-- A report about something else leaves a phase as it is; the bind of the
index moves from the actor to the queue. -/
theorem Phase.reported {n : Net C} {peerKey : PublicKey} {c : Channel} {i : UInt32}
    (h : n.Phase peerKey c i) (hbusy : n.looked.isSome = true → n.queue ≠ []) {actions : Channel}
    {machine : Peer C} {control : Control} {outbox : List Control}
    (hd : n.drivers actions = some ⟨machine, control :: outbox⟩) :
    Phase { n with
      drivers := Function.update n.drivers actions (some ⟨machine, outbox⟩)
      queue := n.queue ++ [control] } peerKey c i := by
  have hall (hout : n.Unreported i) (x : Channel) (e : Driver C)
      (he : Function.update n.drivers actions (some ⟨machine, outbox⟩) x = some e) :
      Silent i e.outbox := by
    rcases update_cases he with ⟨-, he⟩ | ⟨-, he⟩
    · cases he
      exact (silent_cons.mp (hout actions _ hd)).2
    · exact hout x e he
  have hone {m : Control} (hm : m.index ≠ some i) : Silent i [m] :=
    silent_cons.mpr ⟨hm, silent_nil i⟩
  cases h with
  | reporting d hdc before hout hbefore hothers hqueue hroute =>
      by_cases hc : c = actions
      · subst hc
        cases hd.symm.trans hdc
        have hrest (x : Channel) (e : Driver C)
            (he : Function.update n.drivers c (some ⟨machine, outbox⟩) x = some e) (hx : x ≠ c) :
            Silent i e.outbox := by
          rcases update_cases he with ⟨rfl, -⟩ | ⟨-, he⟩
          · exact absurd rfl hx
          · exact hothers x e he hx
        cases before with
        | nil =>
            -- the bind itself; if a lookup is under way, it is for another message
            cases hout
            refine .queued n.queue [] rfl hqueue (silent_nil i) (fun x e he => ?_) ?_ hroute
            · rcases update_cases he with ⟨-, he⟩ | ⟨hx, he⟩
              · cases he
                exact silent_nil i
              · exact hothers x e he hx
            · intro hnil table hlooked
              have hlooked : n.looked = some table := hlooked
              exact absurd hnil (hbusy (by rw [hlooked]; rfl))
        | cons first before =>
            cases hout
            obtain ⟨hfirst, hbefore⟩ := silent_cons.mp hbefore
            exact .reporting _ (Function.update_self _ _ _) before rfl hbefore hrest
              (silent_append.mpr ⟨hqueue, hone hfirst⟩) hroute
      · have hcontrol := hothers actions _ hd (Ne.symm hc)
        obtain ⟨hindex, htail⟩ := silent_cons.mp hcontrol
        refine .reporting d ((Function.update_of_ne hc _ _).trans hdc) before hout hbefore
          (fun x e he hx => ?_) (silent_append.mpr ⟨hqueue, hone hindex⟩) hroute
        rcases update_cases he with ⟨-, he⟩ | ⟨-, he⟩
        · cases he
          exact htail
        · exact hothers x e he hx
  | queued before after hqueue hbefore hafter hout hlooked hroute =>
      have hindex := (silent_cons.mp (hout actions _ hd)).1
      refine .queued before (after ++ [control]) ?_ hbefore
        (silent_append.mpr ⟨hafter, hone hindex⟩) (hall hout) hlooked hroute
      show n.queue ++ [control] = _
      rw [hqueue, List.append_assoc, List.cons_append]
  | routed hqueue hout hroute =>
      have hindex := (silent_cons.mp (hout actions _ hd)).1
      exact .routed (silent_append.mpr ⟨hqueue, hone hindex⟩) (hall hout) hroute

theorem Sound.reported {n : Net C} (h : n.Sound) {actions : Channel} {machine : Peer C}
    {control : Control} {outbox : List Control}
    (hd : n.drivers actions = some ⟨machine, control :: outbox⟩) :
    Sound { n with
      drivers := Function.update n.drivers actions (some ⟨machine, outbox⟩)
      queue := n.queue ++ [control] } := by
  -- every actor has the machine it had
  have hold : ∀ c d, Function.update n.drivers actions (some ⟨machine, outbox⟩) c = some d →
      ∃ d', n.drivers c = some d' ∧ d'.machine = d.machine := by
    refine forall_update (fun c d hc => ⟨d, hc, rfl⟩) ?_
    rintro d ⟨⟩
    exact ⟨_, hd, rfl⟩
  refine { wellFormed := forall_update h.wellFormed ?_
           registered := fun k c hc => exists_update hd ⟨machine, outbox⟩ id (h.registered k c hc)
           unspawned := h.unspawned_update hd _, nodup := forall_update h.nodup ?_
           disjoint := ?_, gone := ?_, unpurging := forall_update h.unpurging ?_
           busy := fun _ => ?_, phase := ?_ }
  · rintro d ⟨⟩
    exact h.wellFormed actions ⟨machine, control :: outbox⟩ hd
  · rintro d ⟨⟩
    exact h.nodup actions ⟨machine, control :: outbox⟩ hd
  · intro c c' d d' i hc hc' hi hi'
    obtain ⟨e, he, hm⟩ := hold c d hc
    obtain ⟨e', he', hm'⟩ := hold c' d' hc'
    exact h.disjoint c c' e e' i he he' (hm ▸ hi) (hm' ▸ hi')
  · rintro c (hc | hc)
    · exact h.gone c (Or.inl hc)
    · rcases List.mem_append.mp hc with hc | hc
      · exact h.gone c (Or.inr hc)
      · cases List.mem_singleton.mp hc
        exact absurd List.mem_cons_self (h.unpurging actions _ hd c)
  · rintro d ⟨⟩ x hx
    exact h.unpurging actions _ hd x (List.mem_cons_of_mem _ hx)
  · exact List.append_ne_nil_of_right_ne_nil _ (List.cons_ne_nil _ _)
  · intro k c d i hc hcd hi
    obtain ⟨d', hd', hm⟩ := hold c d hcd
    exact (h.phase k c d' i hc hd' (hm ▸ hi)).reported h.busy hd

/-- The reports of an operation are about what it returned and what it
installed. -/
theorem silent_reports {machine : Peer C} {op : Peer.Op C} {i : UInt32}
    (hreturned : (machine.step op).1.returned ≠ some i)
    (hinstalled : op.installed (machine.step op).1 ≠ some i) : Silent i (machine.reports op) := by
  intro control hmem
  rcases Peer.mem_reports hmem with ⟨j, hj, rfl⟩ | ⟨j, hj, rfl⟩
  · exact fun hi => hreturned (hj.trans hi)
  · exact fun hi => hinstalled (hj.trans hi)

/-- A new index is about to be bound, and nothing else mentions it. -/
theorem Sound.phase_installed {n : Net C} (h : n.Sound) {actions : Channel} {op : Peer.Op C}
    {machine : Peer C} (hd : n.drivers actions = some ⟨machine, []⟩) {i : UInt32}
    (hi : op.installed (machine.step op).1 = some i) (hnew : n.Unclaimed i) :
    Phase { n with
      drivers := Function.update n.drivers actions
        (some ⟨(machine.step op).2, machine.reports op⟩) } machine.peerKey actions i := by
  refine .reporting _ (Function.update_self _ _ _)
    ((machine.step op).1.returned.toList.map (.retire machine.peerKey ·)) ?_ ?_ ?_
    hnew.queue hnew.route
  · show machine.reports op = _
    rw [Peer.reports, hi]
    rfl
  · intro control hmem
    obtain ⟨j, hj, rfl⟩ := List.mem_map.mp hmem
    have hlive := (machine.step_effect (h.wellFormed _ _ hd) op).returned_mem_live
      (Option.mem_toList.mp hj)
    rintro ⟨⟩
    exact hnew.live _ _ hd hlive
  · intro c d hc hne
    rcases update_cases hc with ⟨rfl, -⟩ | ⟨-, hc⟩
    · exact absurd rfl hne
    · exact hnew.outbox c d hc

theorem Sound.operated {n : Net C} (h : n.Sound) {actions : Channel} {op : Peer.Op C}
    {machine : Peer C} (hd : n.drivers actions = some ⟨machine, []⟩)
    (hnew : ∀ i, op.drawnIndex = some i → n.Unclaimed i) :
    Sound { n with
      drivers := Function.update n.drivers actions
        (some ⟨(machine.step op).2, machine.reports op⟩) } := by
  have hp := h.wellFormed _ _ hd
  have hkey : (machine.step op).2.peerKey = machine.peerKey :=
    (machine.step_effect hp op).peerKey_eq
  obtain ⟨hnodup, hlive⟩ := Peer.live_step_of_new hp op (h.nodup _ _ hd)
    fun i hi => (hnew i hi).live _ _ hd
  have hunclaimed {i : UInt32} (hi : op.installed (machine.step op).1 = some i) : n.Unclaimed i :=
    hnew i (Peer.Op.drawnIndex_of_installed hi)
  -- an index live elsewhere is neither reported nor drawn here
  have hother {c : Channel} {d : Driver C} {i : UInt32} (hc : n.drivers c = some d)
      (hne : c ≠ actions) (hi : i ∈ d.machine.live) :
      i ∉ (machine.step op).2.live ∧ Silent i (machine.reports op) := by
    have hnot : i ∉ machine.live := fun hm => hne (h.disjoint c actions d _ i hc hd hi hm)
    have hinst : op.installed (machine.step op).1 ≠ some i :=
      fun hinst => (hunclaimed hinst).live c d hc hi
    refine ⟨fun hm => (hlive i hm).2.elim hnot hinst, silent_reports (fun hret => hnot ?_) hinst⟩
    exact (machine.step_effect hp op).returned_mem_live hret
  refine { wellFormed := forall_update h.wellFormed ?_
           registered := fun k c hc => exists_update hd _ hkey.trans (h.registered k c hc)
           unspawned := h.unspawned_update hd _, nodup := forall_update h.nodup ?_
           disjoint := ?_, gone := h.gone, unpurging := forall_update h.unpurging ?_
           busy := h.busy, phase := ?_ }
  · rintro d ⟨⟩
    exact Peer.wellFormed_step hp op
  · rintro d ⟨⟩
    exact hnodup
  · intro c c' d d' i hc hc' hi hi'
    rcases update_cases hc with ⟨heq, hnow⟩ | ⟨hne, hnow⟩ <;>
      rcases update_cases hc' with ⟨heq', hnow'⟩ | ⟨hne', hnow'⟩
    · exact heq.trans heq'.symm
    · cases hnow
      exact absurd hi (hother hnow' hne' hi').1
    · cases hnow'
      exact absurd hi' (hother hnow hne hi).1
    · exact h.disjoint c c' d d' i hnow hnow' hi hi'
  · rintro d ⟨⟩ x hx
    rcases Peer.mem_reports hx with ⟨j, -, hj⟩ | ⟨j, -, hj⟩ <;> cases hj
  · have hsame : ∀ d, n.drivers actions = some d → d.outbox = [] := by
      intro d hd'
      cases hd.symm.trans hd'
      rfl
    intro k c d i hc hcd hi
    rcases update_cases hcd with ⟨rfl, hnow⟩ | ⟨hne, hnow⟩
    · cases hnow
      obtain ⟨hret, hold | hinst⟩ := hlive i hi
      · refine (h.phase k c _ i hc hd hold).update hsame ?_
        rintro d ⟨⟩
        refine silent_reports hret fun hinst => ?_
        exact (hunclaimed hinst).live _ _ hd hold
      · obtain ⟨d', hd', rfl⟩ := h.registered k c hc
        cases hd.symm.trans hd'
        exact h.phase_installed hd hinst (hunclaimed hinst)
    · refine (h.phase k c d i hc hnow hi).update hsame ?_
      rintro d' ⟨⟩
      exact (hother hnow hne hi).2

theorem Sound.stopped {n : Net C} (h : n.Sound) {actions : Channel} {machine : Peer C}
    (hd : n.drivers actions = some ⟨machine, []⟩)
    (hentry : n.table.peers machine.peerKey ≠ some actions) :
    Sound { n with drivers := Function.update n.drivers actions none } := by
  have hold (c : Channel) (d : Driver C) (hc : Function.update n.drivers actions none c = some d) :
      n.drivers c = some d := (of_update_none hc).2
  refine { wellFormed := fun c d hc => h.wellFormed c d (hold c d hc)
           registered := ?_, unspawned := h.unspawned_update hd none
           nodup := fun c d hc => h.nodup c d (hold c d hc)
           disjoint := fun c c' d d' i hc hc' =>
             h.disjoint c c' d d' i (hold c d hc) (hold c' d' hc')
           gone := h.gone, unpurging := fun c d hc => h.unpurging c d (hold c d hc)
           busy := h.busy, phase := ?_ }
  · intro k c hc
    obtain ⟨d, hd', hkey⟩ := h.registered k c hc
    have hne : c ≠ actions := by
      rintro rfl
      cases hd.symm.trans hd'
      exact hentry (hkey ▸ hc)
    exact ⟨d, (Function.update_of_ne hne _ _).trans hd', hkey⟩
  · intro k c d i hc hcd hi
    refine (h.phase k c d i hc (hold c d hcd) hi).update (fun d' hd' => ?_) (fun d' hd' => ?_)
    · cases hd.symm.trans hd'
      rfl
    · cases hd'

theorem sound_step {n : Net C} (h : n.Sound) (action : Action C)
    (hnew : ∀ i, action.drawnIndex = some i → n.Unclaimed i) : (n.step action).Sound := by
  have hchange := n.step_change action
  generalize n.step action = n' at hchange
  cases hchange with
  | idle => exact h
  | added peerKey presharedKey hfree => exact h.added peerKey presharedKey
  | removed peerKey actions hentry => exact h.removed hentry
  | purged actions hmem => exact h.purged hmem
  | operated actions op machine hd => exact h.operated hd hnew
  | reported actions machine control outbox hd => exact h.reported hd
  | looked hne hfree => exact h.looked hne
  | routed control queue table hq hlooked => exact h.routed hq hlooked
  | stopped actions machine hd hentry => exact h.stopped hd hentry

theorem sound_run {n : Net C} (h : n.Sound) (actions : List (Action C))
    (hnew : n.Draws Unclaimed actions) : (n.run actions).Sound := by
  induction actions generalizing n with
  | nil => exact h
  | cons action rest ih => exact ih (sound_step h action hnew.1) hnew.2

/-- **No live index is left unrouted.**  Whatever the interleaving, if every
index is drawn unclaimed, then in a quiet system every live index of every
registered peer is routed to the channel of that peer's actor. -/
theorem live_routed (actions : List (Action C)) (hnew : (start C).Draws Unclaimed actions)
    (hquiet : ((start C).run actions).Quiet) (peerKey : PublicKey) (c : Channel)
    (hentry : ((start C).run actions).table.entry peerKey = some c) :
    ∃ d, ((start C).run actions).drivers c = some d ∧ d.machine.peerKey = peerKey ∧
      ∀ i ∈ d.machine.live, ((start C).run actions).router.indices i = some c := by
  have h : ((start C).run actions).Sound := sound_run sound_start actions hnew
  obtain ⟨d, hd, hkey⟩ := h.registered peerKey c hentry
  refine ⟨d, hd, hkey, fun i hi => ?_⟩
  cases h.phase peerKey c d i hentry hd hi with
  | reporting d' hd' before hout _ _ _ _ =>
      rw [hquiet.outbox c d' hd'] at hout
      exact absurd hout.symm (List.append_ne_nil_of_right_ne_nil _ (List.cons_ne_nil _ _))
  | queued before after hqueue _ _ _ _ _ =>
      rw [hquiet.queue] at hqueue
      exact absurd hqueue.symm (List.append_ne_nil_of_right_ne_nil _ (List.cons_ne_nil _ _))
  | routed _ _ hroute => exact hroute

/-! ### Runs of one peer -/

/-- The peer key of the runs below, and an initiation to it under the index 7. -/
def symbolicPeer : PublicKey := Crypto.symbolic.publicKey (2 : UInt8)

def symbolicInit : Peer.Op Crypto.symbolic :=
  .initiate (1 : UInt8) ⟨7, (3 : UInt8), Crypto.symbolicTime⟩ (List.replicate initMsgLength 0)

theorem exists_symbolicInit : ∃ p : Peer Crypto.symbolic,
    (((Peer.new Crypto.symbolic symbolicPeer).setPresharedKey none).step symbolicInit).2 = p ∧
    ((Peer.new Crypto.symbolic symbolicPeer).setPresharedKey none).reports symbolicInit
      = [.bind symbolicPeer 7] ∧
    p.live = {7} ∧ p.reports .abandonHandshake = [.retire symbolicPeer 7] ∧
    (p.step .abandonHandshake).2.live = 0 := by
  obtain ⟨msg, p, h, hkey, hpending, hnext, hcurrent, hprevious⟩ :=
    ((Peer.new Crypto.symbolic symbolicPeer).setPresharedKey none).exists_initiated (1 : UInt8)
      ⟨7, (3 : UInt8), Crypto.symbolicTime⟩ (List.replicate initMsgLength 0)
      (List.length_replicate).ge rfl
  have hkey : p.peerKey = symbolicPeer := hkey
  have hlive := Peer.live_of_pending hpending hnext hcurrent hprevious
  refine ⟨p, congrArg Prod.snd h, ?_, hlive, ?_, ?_⟩
  · rw [Peer.reports, symbolicInit, h]
    rfl
  · simp only [Peer.reports, Peer.step, Peer.abandonHandshake, hpending, hkey]
    rfl
  · simp only [Peer.step, Peer.abandonHandshake, Peer.live, hnext, hcurrent, hprevious]
    rfl

/-- A peer whose initiation was reported and applied. -/
def binding : List (Action Crypto.symbolic) :=
  [.addPeer symbolicPeer none, .operate 0 symbolicInit, .report 0, .lookup, .route]

/-- With no machine in use, every index is unused. -/
theorem unused_of_idle {n : Net Crypto.symbolic} (hlive : ∀ c d, n.drivers c = some d →
    d.machine.live = 0) (hrouter : n.router = .new) (hqueue : n.queue = []) (i : UInt32) :
    n.Unused i where
  live c d hd := by
    rw [hlive c d hd]
    exact Multiset.notMem_zero i
  route := by
    rw [hrouter]
    rfl
  queue := by
    rw [hqueue]
    exact fun _ h => absurd h List.not_mem_nil

theorem live_added {c : Channel} {d : Driver Crypto.symbolic}
    (hd : ((start Crypto.symbolic).step (.addPeer symbolicPeer none)).drivers c = some d) :
    d.machine.live = 0 ∧ d.outbox = [] := by
  have hd : Function.update (start Crypto.symbolic).drivers _ _ c = some d := hd
  rcases update_cases hd with ⟨-, hd⟩ | ⟨-, hd⟩
  · cases hd
    exact ⟨rfl, rfl⟩
  · cases hd

/-- Once its bind is applied, the index of a new peer's initiation is routed
to its actor. -/
theorem live_routed_binding : ∃ d, ((start Crypto.symbolic).run binding).drivers 0 = some d ∧
    (7 : UInt32) ∈ d.machine.live ∧
    ((start Crypto.symbolic).run binding).router.indices 7 = some 0 := by
  obtain ⟨p, hstep, hbind, hp, -, -⟩ := exists_symbolicInit
  obtain ⟨hqueue, hdrivers, hentry⟩ : ((start Crypto.symbolic).run binding).queue = [] ∧
      ((start Crypto.symbolic).run binding).drivers
        = Function.update (fun _ => none) 0 (some ⟨p, []⟩) ∧
      ((start Crypto.symbolic).run binding).table.entry symbolicPeer = some 0 := by
    simp [run, binding, start, step, addPeer, operate, report, lookup, route,
      RoutingTable.registerPeer, RoutingTable.new, RoutingTable.entry, hstep, hbind]
  have hquiet : ((start Crypto.symbolic).run binding).Quiet := by
    refine ⟨hqueue, fun c d hd => ?_⟩
    rw [hdrivers, Function.update_apply] at hd
    split at hd <;> cases hd
    rfl
  have hdraws : (start Crypto.symbolic).Draws Unclaimed binding := by
    refine draws_cons_of_none rfl ⟨fun i _ => ?_, draws_of_none ?_⟩
    · refine ⟨unused_of_idle (fun c d hd => (live_added hd).1) rfl rfl i, fun c d hd => ?_⟩
      rw [(live_added hd).2]
      exact fun _ h => absurd h List.not_mem_nil
    · simp [Action.drawnIndex]
  obtain ⟨d, hd, -, hroute⟩ := live_routed binding hdraws hquiet symbolicPeer 0 hentry
  have hlive : (7 : UInt32) ∈ d.machine.live := by
    rw [hdrivers, Function.update_self] at hd
    cases hd
    exact hp ▸ Multiset.mem_singleton_self 7
  exact ⟨d, hd, hlive, hroute 7 hlive⟩

/-- An actor binds the index 7 and abandons its handshake; before it reports
that, its peer is removed and purged. -/
def departing : List (Action Crypto.symbolic) :=
  binding ++ [.operate 0 .abandonHandshake, .removePeer symbolicPeer, .sendPurge 0, .lookup, .route]

/-- The peer is added again and its new actor draws 7 as well; then the old
actor reports. -/
def returning : List (Action Crypto.symbolic) :=
  [.addPeer symbolicPeer none, .operate 1 symbolicInit, .report 1, .report 0, .lookup, .route,
    .lookup, .route]

/-- Between the two, only the old actor's report is left. -/
def vacated (machine : Peer Crypto.symbolic) : Net Crypto.symbolic where
  table := .new
  drivers := Function.update (fun _ => none) 0 (some ⟨machine, [.retire symbolicPeer 7]⟩)
  spawned := 1
  leaving := []
  queue := []
  looked := none
  router := .new

theorem run_departing : ∃ machine, (start Crypto.symbolic).run departing = vacated machine ∧
    machine.live = 0 := by
  obtain ⟨p, hstep, hbind, hlive, hretire, hgone⟩ := exists_symbolicInit
  refine ⟨_, ?_, hgone⟩
  have hrouter : ((IndexRouter.new.apply (.bind symbolicPeer 7)
      ⟨Function.update (fun _ => none) symbolicPeer (some 0)⟩).apply (.purge 0) .new)
      = IndexRouter.new := by
    refine congrArg IndexRouter.mk (funext fun i => ?_)
    by_cases hi : i = 7
    · subst hi
      simp [IndexRouter.apply, IndexRouter.new, RoutingTable.entry]
    · simp [IndexRouter.apply, IndexRouter.new, RoutingTable.entry, hi]
  simpa [run, departing, binding, vacated, start, step, addPeer, removePeer, sendPurge, operate,
    report, lookup, route, RoutingTable.registerPeer, RoutingTable.removePeer, RoutingTable.new,
    hstep, hbind, hretire] using hrouter

theorem draws_departing : (start Crypto.symbolic).Draws Unused departing := by
  refine draws_cons_of_none rfl ⟨fun i _ => ?_, draws_of_none ?_⟩
  · exact unused_of_idle (fun c d hd => (live_added hd).1) rfl rfl i
  · simp [Action.drawnIndex, Peer.Op.drawnIndex]

theorem draws_returning {machine : Peer Crypto.symbolic} (hlive : machine.live = 0) :
    (vacated machine).Draws Unused returning := by
  refine draws_cons_of_none rfl ⟨fun i _ => unused_of_idle ?_ rfl rfl i, draws_of_none ?_⟩
  · intro c d hd
    rcases update_cases hd with ⟨-, hd⟩ | ⟨-, hd⟩
    · cases hd
      rfl
    · have hd : Function.update (start Crypto.symbolic).drivers _ _ c = some d := hd
      rcases update_cases hd with ⟨-, hd⟩ | ⟨-, hd⟩
      · cases hd
        exact hlive
      · cases hd
  · simp [Action.drawnIndex]

/-- **A late report unroutes a live index.**  The new actor's index was not
live, routed or in a queued message when it was drawn, yet the system is
quiet and the index is live and has no route: the old actor's retire was
taken for the new one's. -/
theorem live_unrouted_by_late_report : ∃ actions : List (Action Crypto.symbolic),
    (start Crypto.symbolic).Draws Unused actions ∧ ((start Crypto.symbolic).run actions).Quiet ∧
    ∃ peerKey c d, ((start Crypto.symbolic).run actions).table.entry peerKey = some c ∧
      ((start Crypto.symbolic).run actions).drivers c = some d ∧
      ∃ i ∈ d.machine.live, ((start Crypto.symbolic).run actions).router.indices i ≠ some c := by
  obtain ⟨machine, hrun, hlive⟩ := run_departing
  obtain ⟨p, hstep, hbind, hp, -, -⟩ := exists_symbolicInit
  refine ⟨departing ++ returning, ?_, ?_⟩
  · rw [draws_append, hrun]
    exact ⟨draws_departing, draws_returning hlive⟩
  rw [run_append, hrun]
  obtain ⟨hqueue, hdrivers, hentry, hroute⟩ :
      ((vacated machine).run returning).queue = [] ∧
      ((vacated machine).run returning).drivers = Function.update
        (Function.update (vacated machine).drivers 1 (some ⟨p, []⟩)) 0 (some ⟨machine, []⟩) ∧
      ((vacated machine).run returning).table.entry symbolicPeer = some 1 ∧
      ((vacated machine).run returning).router.indices 7 = none := by
    simp [run, returning, vacated, step, addPeer, operate, report, lookup, route,
      RoutingTable.registerPeer, RoutingTable.new, hstep, hbind, IndexRouter.apply,
      IndexRouter.new, RoutingTable.entry]
  refine ⟨⟨hqueue, fun c d hd => ?_⟩, symbolicPeer, 1, ⟨p, []⟩, hentry, ?_, 7, ?_, ?_⟩
  · rw [hdrivers] at hd
    simp only [vacated, Function.update_apply] at hd
    split at hd
    · cases hd
      rfl
    · split at hd <;> cases hd
      rfl
  · rw [hdrivers]
    rfl
  · exact hp ▸ Multiset.mem_singleton_self 7
  · rw [hroute]
    exact (Option.some_ne_none 1).symm

end Net

end Tunstile
