/-
Tunstile/Mirror.lean

What the driver's own records owe to its machine.

The driver keeps a handshake attempt and a session of its own beside the
machine's pending handshake and send session.  Almost everything it does
`Keeps` the two in step: no send session is installed, and the driver drops
its own only when the machine cannot encrypt any more.  The calls of the
machine do, and hence all operations (`keeps_flows`).  The places where a
session is installed, and the expiry timer, are left to `Tracking`.
-/
import Tunstile.Staging

namespace Tunstile

variable {C : Crypto}

/-! ### What a call leaves alone -/

namespace Peer

/-- A call that gives no new send session leaves the old one its start. -/
theorem Effect.current_established {p p' : Peer C} {op : Op C} {o : Outcome} (h : Effect p op o p')
    (hold : o.establishes op = false) :
    p'.current.map Session.established = p.current.map Session.established := by
  cases h with
  | answered | confirmed => cases hold
  | encrypted x hend hcur => rw [hcur]; rfl
  | received k x counter payload replay hk hslot =>
      cases k with
      | next => exact absurd rfl hk
      | current =>
          have hcur : p.current = some x := hslot
          rw [hcur]
          rfl
      | previous => rfl
  | _ => rfl

theorem Effect.pending_isSome {p p' : Peer C} {op : Op C} {o : Outcome} (h : Effect p op o p')
    (hp' : p'.pending.isSome = true) : p.pending.isSome = true ∨ op.initiates = true := by
  cases h with
  | initiated => exact Or.inr rfl
  | abandoned | answered => cases hp'
  | received k => cases k <;> exact Or.inl hp'
  | _ => exact Or.inl hp'

/-- A session awaiting confirmation was there before, or starts now. -/
theorem Effect.next_eq_some {p p' : Peer C} {op : Op C} {o : Outcome} (h : Effect p op o p')
    {x : Session C} (hx : p'.next = some x) :
    p.next = some x ∨ op.respondsAt = some x.established := by
  cases h with
  | responded =>
      cases hx
      exact Or.inr rfl
  | confirmed => cases hx
  | received k x counter payload replay hk =>
      cases k with
      | next => exact absurd rfl hk
      | current | previous => exact Or.inl hx
  | _ => exact Or.inl hx

end Peer

namespace Actor

/-! ### Keeping both pictures -/

/-- What holds of every actor, whatever its sessions. -/
structure Sane (a : Actor C) : Prop where
  healthy : a.machine.Healthy
  clock : Monotonic a.env.clock
  pending : a.machine.pending.isSome = true → a.handshake.isSome = true
  next : ∀ s, a.machine.next = some s → s.established ≤ a.now

/-- `a'` comes after `a` with no send session installed in between. -/
structure Lasting (a a' : Actor C) : Prop where
  sane : a'.Sane
  now : a.now ≤ a'.now
  blocked : ∀ {t}, a.machine.Blocked t → a'.machine.Blocked t
  current : a'.machine.current.map Session.established = a.machine.current.map Session.established
  /-- The driver's session is still there, or the machine's is of no use. -/
  session : a'.session.map DriverSession.identity = a.session.map DriverSession.identity ∨
    a'.session = none ∧ a'.machine.Blocked a'.now

def Keeps (a a' : Actor C) : Prop := a.Sane → Lasting a a'

theorem Lasting.trans {a b c : Actor C} (h : Lasting a b) (h' : Lasting b c) : Lasting a c where
  sane := h'.sane
  now := h.now.trans h'.now
  blocked hb := h'.blocked (h.blocked hb)
  current := h'.current.trans h.current
  session := by
    rcases h'.session with hsame' | hlost
    · rcases h.session with hsame | ⟨hnone, hblocked⟩
      · exact Or.inl (hsame'.trans hsame)
      · rw [hnone] at hsame'
        exact Or.inr ⟨Option.map_eq_none_iff.mp hsame', (h'.blocked hblocked).mono h'.now⟩
    · exact Or.inr hlost

namespace Keeps

theorem trans {a b c : Actor C} (h : Keeps a b) (h' : Keeps b c) : Keeps a c := by
  intro ha
  have hb := h ha
  exact hb.trans (h' hb.sane)

/-- Anything but the machine and the clock; a handshake attempt may begin. -/
theorem frame {a a' : Actor C} (hm : a'.machine = a.machine) (hclock : a'.env.clock = a.env.clock)
    (hhandshake : a.handshake.isSome = true → a'.handshake.isSome = true)
    (hsession : a'.session.map DriverSession.identity = a.session.map DriverSession.identity) :
    Keeps a a' := by
  intro ha
  have hnow : a'.now = a.now := congrArg Stream'.head hclock
  refine ⟨⟨?_, ?_, ?_, ?_⟩, hnow.ge, fun hb => hm ▸ hb, by rw [hm], Or.inl hsession⟩
  · rw [hm]
    exact ha.healthy
  · rw [hclock]
    exact ha.clock
  · rw [hm]
    exact fun hp => hhandshake (ha.pending hp)
  · rw [hm, hnow]
    exact ha.next

theorem refl (a : Actor C) : Keeps a a := frame rfl rfl (fun h => h) rfl

theorem tick (a : Actor C) : Keeps a a.tick := by
  intro ha
  have hnow : a.now ≤ a.tick.now := ha.clock 0
  exact ⟨⟨ha.healthy, ha.clock.tail, ha.pending, fun s hs => (ha.next s hs).trans hnow⟩, hnow,
    fun hb => hb, rfl, Or.inl rfl⟩

/-- A machine operation that brings no new send session. -/
theorem call {a a' : Actor C} {op : Peer.Op C} {o : Peer.Outcome}
    (h : a.machine.step op = (o, a'.machine)) (hold : o.establishes op = false)
    (hclock : a'.env.clock = a.env.clock)
    (hhandshake : a.handshake.isSome = true → a'.handshake.isSome = true)
    (hsession : a'.session.map DriverSession.identity = a.session.map DriverSession.identity)
    (hinit : op.initiates = true → a.handshake.isSome = true)
    (hresp : ∀ t, op.respondsAt = some t → t ≤ a.now) : Keeps a a' := by
  intro ha
  have hnow : a'.now = a.now := congrArg Stream'.head hclock
  have heff := a.machine.step_effect ha.healthy.wellFormed op
  rw [h] at heff
  refine ⟨⟨heff.healthy ha.healthy, hclock ▸ ha.clock, fun hp => ?_, fun s hs => ?_⟩, hnow.ge,
    heff.blocked hold, heff.current_established hold, Or.inl hsession⟩
  · exact hhandshake ((heff.pending_isSome hp).elim ha.pending hinit)
  · rw [hnow]
    rcases heff.next_eq_some hs with hs | hs
    · exact ha.next s hs
    · exact hresp _ hs

/-- One that neither begins a handshake nor answers one. -/
theorem quiet {a a' : Actor C} (op : Peer.Op C) {o : Peer.Outcome}
    (h : a.machine.step op = (o, a'.machine)) (hold : o.establishes op = false)
    (hclock : a'.env.clock = a.env.clock) (hhandshake : a'.handshake = a.handshake)
    (hsession : a'.session = a.session) (hinit : op.initiates = false)
    (hresp : op.respondsAt = none) : Keeps a a' := by
  refine call h hold hclock (hhandshake ▸ id) (by rw [hsession]) (fun hi => ?_) (fun t ht => ?_)
  · cases hinit.symm.trans hi
  · cases hresp.symm.trans ht

theorem retireIndex (a : Actor C) (index : Option UInt32) : Keeps a (a.retireIndex index) := by
  cases index <;> exact frame rfl rfl (fun h => h) rfl

/-- The driver may drop its session once the machine cannot encrypt. -/
theorem lose {a b : Actor C} (h : Keeps a b)
    (hblocked : a.Sane → b.machine.Blocked b.now) : Keeps a { b with session := none } := by
  intro ha
  have hb := h ha
  exact ⟨⟨hb.sane.healthy, hb.sane.clock, hb.sane.pending, hb.sane.next⟩, hb.now, hb.blocked,
    hb.current, Or.inr ⟨rfl, hblocked ha⟩⟩

end Keeps

/-- **No operation that brings no session disturbs the two pictures.** -/
theorem keeps_flows : Flows (Keeps (C := C)) where
  trans := Keeps.trans
  tick := Keeps.tick
  frame hm _ hrest := .frame hm hrest.clock hrest.handshake hrest.session
  lose h hblocked := h.lose fun ha => hblocked ha.healthy ha.clock
  call h hold hinit hresp _ hrest :=
    .call h hold hrest.clock hrest.handshake hrest.session hinit hresp
  encrypted {a now payload out buf n machine} h := by
    have hstep : a.machine.step (.encrypt now payload out) = (.encrypted n buf, machine) := by
      rw [Peer.step, h]
    exact .quiet _ hstep rfl rfl rfl rfl rfl rfl
  stageOne a payload := by
    unfold stageOne
    split <;> exact .frame rfl rfl id rfl
  take _ := .frame rfl rfl id rfl

namespace Keeps

/-! ### Timers -/

/-- An attempt and the machine's pending handshake end together. -/
theorem abandon (a : Actor C) (staged : List Bytes) (ledger : List (Bytes × Fate)) :
    Keeps a { a with
      handshake := none
      staged := staged
      ledger := ledger
      machine := a.machine.abandonHandshake.2 } := by
  intro ha
  have hcall : Keeps a { a with machine := a.machine.abandonHandshake.2 } :=
    quiet .abandonHandshake rfl rfl rfl rfl rfl rfl rfl
  have h := hcall ha
  exact ⟨⟨h.sane.healthy, h.sane.clock, fun hp => Bool.noConfusion hp, h.sane.next⟩, h.now,
    h.blocked, h.current, h.session⟩

theorem handshakeDue (a : Actor C) : Keeps a a.handshakeDue := by
  unfold Actor.handshakeDue
  split
  · exact refl a
  · extract_lets now a₁ a₂
    split
    · exact (tick a).trans ((abandon a₁ a₂.staged a₂.ledger).trans (retireIndex _ _))
    · exact (tick a).trans (keeps_flows.sendHandshake a₁ _)

end Keeps

end Actor

end Tunstile
