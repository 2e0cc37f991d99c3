/-
Tunstile/Waiting.lean

Staged payloads are never stranded.

A payload is staged when it cannot be encrypted, and leaves the queue when a
handshake completes or is given up.  So while something is staged there must
be a reason to expect that: no endpoint is known yet, an attempt is in
progress, or a session waits to be confirmed.  Each move that ends one of
these takes what is staged, or begins an attempt (`Attended.move`).

One invariant of the machine is needed: it does not hold a session without
knowing an endpoint, so that data messages cannot bring the first endpoint.
-/
import Tunstile.Moves

namespace Tunstile

variable {C : Crypto}

/-- A peer with a session knows where to send. -/
structure Peer.Situated (p : Peer C) : Prop where
  next : p.next.isSome = true → p.endpoint.isSome = true
  previous : p.previous.isSome = true → p.endpoint.isSome = true

theorem Peer.situated_of_endpoint {p : Peer C} (h : p.endpoint.isSome = true) : p.Situated :=
  ⟨fun _ => h, fun _ => h⟩

theorem Peer.situated_congr {p q : Peer C} (he : q.endpoint = p.endpoint) (hn : q.next = p.next)
    (hv : q.previous = p.previous) (h : p.Situated) : q.Situated := by
  refine ⟨fun hs => ?_, fun hs => ?_⟩
  · rw [hn] at hs
    rw [he]
    exact h.next hs
  · rw [hv] at hs
    rw [he]
    exact h.previous hs

/-- A slot that is in use comes with an endpoint. -/
theorem Peer.Situated.endpoint_of_slot {p : Peer C} (h : p.Situated) (hp : p.Healthy) {k : Slot}
    {s : Session C} (hs : p.slot k = some s) : p.endpoint.isSome = true := by
  have hsome : (p.slot k).isSome = true := by
    rw [hs]
    rfl
  cases k with
  | next => exact h.next hsome
  | current => exact hp.endpoint hsome
  | previous => exact h.previous hsome

namespace Actor

/-- What staged payloads wait for. -/
inductive Reason where
  | endpoint
  | attempt
  | confirmation
  deriving DecidableEq

/-- Whether there is something to wait for. -/
def Awaits (a : Actor C) : Reason → Prop
  | .endpoint => a.machine.endpoint = none
  | .attempt => a.handshake.isSome = true
  | .confirmation => a.machine.next.isSome = true

/-- Staged payloads wait for something. -/
structure Attended (a : Actor C) : Prop where
  situated : a.machine.Situated
  awaits : a.staged ≠ [] → ∃ reason, a.Awaits reason

namespace Attended

theorem of_empty {a : Actor C} (hs : a.machine.Situated) (h : a.staged = []) : a.Attended :=
  ⟨hs, fun hne => absurd h hne⟩

/-- What changes none of the reasons. -/
theorem congr {a b : Actor C} (he : b.machine.endpoint = a.machine.endpoint)
    (hn : b.machine.next = a.machine.next) (hv : b.machine.previous = a.machine.previous)
    (hh : b.handshake = a.handshake) (hs : b.staged = a.staged) (h : a.Attended) :
    b.Attended := by
  refine ⟨Peer.situated_congr he hn hv h.situated, fun hne => ?_⟩
  obtain ⟨reason, hr⟩ := h.awaits (hs ▸ hne)
  refine ⟨reason, ?_⟩
  cases reason with
  | endpoint => exact he.trans hr
  | attempt => exact (congrArg Option.isSome hh).trans hr
  | confirmation => exact (congrArg Option.isSome hn).trans hr

/-- With a handshake ensured, staged payloads wait for it or for an
endpoint. -/
theorem ensureHandshake {a : Actor C} (hs : a.machine.Situated) : a.ensureHandshake.Attended := by
  have h := a.ensureHandshake_untouched
  refine ⟨Peer.situated_congr h.endpoint h.next h.previous hs, fun _ => ?_⟩
  cases hend : a.machine.endpoint with
  | none => exact ⟨.endpoint, h.endpoint.trans hend⟩
  | some endpoint =>
      refine ⟨.attempt, ?_⟩
      show a.ensureHandshake.handshake.isSome = true
      rw [isSome_handshake_ensureHandshake, hend]
      exact Bool.or_true _

/-- A packet of a session in use comes when an endpoint is known. -/
theorem received {a : Actor C} (ha : a.Attended) (hp : a.machine.Healthy) {now : Instant}
    {receiver : UInt32} {packet opened : Bytes} {source : SocketAddr} {recv : Recv}
    {machine : Peer C}
    (h : Peer.Effect a.machine (.decrypt now receiver packet source) (.decrypted recv opened)
      machine)
    (hrecv : recv.confirmed = false) :
    ({ a with machine := machine }.publish source).Attended := by
  cases h with
  | confirmed => cases hrecv
  | received k session counter payload replay hk hslot =>
      refine ⟨Peer.situated_of_endpoint rfl, fun hne => ?_⟩
      obtain ⟨reason, hr⟩ := ha.awaits hne
      cases reason with
      | endpoint =>
          have hsome := ha.situated.endpoint_of_slot hp hslot
          have hnone : a.machine.endpoint = none := hr
          rw [hnone] at hsome
          cases hsome
      | attempt => exact ⟨.attempt, hr⟩
      | confirmation =>
          refine ⟨.confirmation, ?_⟩
          cases k with
          | next => exact absurd rfl hk
          | current => exact hr
          | previous => exact hr

theorem quiet {a a' : Actor C} {log : List (Mark C)} (ha : a.Attended) (hp : a.machine.Healthy)
    (h : Quiet a log a') : a'.Attended := by
  cases h with
  | frame h =>
      obtain ⟨cookieGenerator, presharedKey, current, hm⟩ := h.machine
      exact ha.congr (by rw [hm]) (by rw [hm]) (by rw [hm]) h.handshake h.staged
  | tick => exact congr (a := a) rfl rfl rfl rfl rfl ha
  | received h hrecv => exact ha.received hp h hrecv
  | confirmed h =>
      refine of_empty (Peer.situated_of_endpoint ?_) rfl
      exact Option.isSome_of_eq_some h.endpoint_decrypted
  | responded h =>
      cases h with
      | responded => exact ⟨Peer.situated_of_endpoint rfl, fun _ => ⟨.confirmation, rfl⟩⟩
  | answered hpending h =>
      refine of_empty (Peer.situated_of_endpoint ?_) rfl
      exact Option.isSome_of_eq_some h.endpoint_answered
  | ensured => exact ensureHandshake ha.situated
  | connected endpoint => exact ensureHandshake (Peer.situated_of_endpoint rfl)
  | stalled payloads =>
      obtain ⟨staged, ledger, hstage⟩ := stage_frame { a with session := none } payloads
      refine ensureHandshake ?_
      rw [hstage]
      exact ha.situated

/-- **Every move leaves a reason to wait, or nothing staged.** -/
theorem move {a a' : Actor C} {log : List (Mark C)} (hp : a.machine.Healthy) (ha : a.Attended)
    (h : Move a log a') : a'.Attended := by
  cases h with
  | quiet h => exact ha.quiet hp h
  | due =>
      unfold handshakeDue
      cases hh : a.handshake with
      | none => exact ha
      | some handshake =>
          dsimp only
          split
          · -- the attempt is given up, and the queue with it
            generalize a.tick.machine.abandonHandshake.1 = index
            refine of_empty ?_ (by cases index <;> rfl)
            rw [machine_retireIndex]
            exact Peer.situated_congr (p := a.machine) rfl rfl rfl ha.situated
          · have h := a.tick.sendHandshake_untouched handshake.firstSent
            refine ⟨Peer.situated_congr h.endpoint h.next h.previous ha.situated, fun _ =>
              ⟨.attempt, ?_⟩⟩
            show (a.tick.sendHandshake handshake.firstSent).handshake.isSome = true
            rw [handshake_sendHandshake]
            show (if _ then _ else a.handshake).isSome = true
            rw [hh]
            split <;> rfl

end Attended

/-- **Staged payloads are never stranded.**  After any events, whatever the
socket and the machine did: if something is staged then no endpoint is known,
an attempt is in progress, or a session waits to be confirmed.  And when an
event ends one of these, another holds after it or nothing is staged. -/
theorem never_stranded (ourKey : C.Secret) (publicKey : PublicKey)
    (presharedKey : Option PresharedKey) (persistentKeepalive : Option Duration) (env : Env C)
    (events : List (Event C)) :
    let a := (spawn ourKey publicKey presharedKey persistentKeepalive env).run events
    (a.staged ≠ [] → ∃ reason, a.Awaits reason) ∧
      ∀ event reason, a.Awaits reason → ¬ (a.turn event).Awaits reason →
        (a.turn event).staged = [] ∨
          ∃ other, other ≠ reason ∧ (a.turn event).Awaits other := by
  intro a
  have hall (events : List (Event C)) :
      ((spawn ourKey publicKey presharedKey persistentKeepalive env).run events).Attended := by
    refine invariant_run (fun a log a' hp ha h => ha.move hp h) (healthy_spawn ..) ?_ events
    exact .of_empty ⟨fun h => (by cases h), fun h => (by cases h)⟩ rfl
  refine ⟨(hall events).awaits, fun event reason _ hended => ?_⟩
  have hturn : (a.turn event).Attended := by
    have h := hall (events ++ [event])
    rwa [run, List.foldl_append] at h
  rcases Classical.em ((a.turn event).staged = []) with hnil | hne
  · exact Or.inl hnil
  · obtain ⟨other, hother⟩ := hturn.awaits hne
    exact Or.inr ⟨other, fun heq => hended (heq ▸ hother), hother⟩

end Actor

end Tunstile
