/-
Tunstile/Timers.lean

No timer spins.

The event loop waits for the deadlines of five timers.  A handler that leaves
its own deadline in the past is called again at once, and keeps the loop
busy.  The handlers of a session's timers clear them; the handshake's moves
its deadline on or gives the attempt up.  To move it on an endpoint is
needed, which every attempt has (`Directed`).

The persistent keepalive is next due one interval after the last message.
The interval is the caller's, and nothing refuses one of zero: then the timer
is due again as soon as its handler has run (`zero_interval_spins`).  With
any other interval it is not (`no_timer_spins`).
-/
import Tunstile.Retransmission

namespace Tunstile

variable {C : Crypto}

namespace Actor

/-! ### Attempts have an endpoint -/

/-- An attempt is made to some endpoint. -/
def Directed (a : Actor C) : Prop :=
  a.handshake.isSome = true → a.machine.endpoint.isSome = true

namespace Directed

theorem of_endpoint {a : Actor C} (h : a.machine.endpoint.isSome = true) : a.Directed :=
  fun _ => h

theorem congr {a b : Actor C} (hh : b.handshake = a.handshake)
    (he : b.machine.endpoint = a.machine.endpoint) (h : a.Directed) : b.Directed := by
  intro hs
  rw [hh] at hs
  rw [he]
  exact h hs

theorem ensureHandshake {a : Actor C} (h : a.Directed) : a.ensureHandshake.Directed := by
  intro hs
  rw [isSome_handshake_ensureHandshake, Bool.or_eq_true] at hs
  rw [a.ensureHandshake_untouched.endpoint]
  exact hs.elim h id

theorem quiet {a a' : Actor C} {log : List (Mark C)} (ha : a.Directed) (h : Quiet a log a') :
    a'.Directed := by
  cases h with
  | frame h =>
      obtain ⟨cookieGenerator, presharedKey, current, hm⟩ := h.machine
      exact ha.congr h.handshake (by rw [hm])
  | tick => exact ha
  | received h => exact of_endpoint (Option.isSome_of_eq_some h.endpoint_decrypted)
  | confirmed h => exact of_endpoint (Option.isSome_of_eq_some h.endpoint_decrypted)
  | responded h => exact of_endpoint (Option.isSome_of_eq_some h.endpoint_responded)
  | answered hpending h => exact fun hs => Bool.noConfusion hs
  | ensured => exact ha.ensureHandshake
  | connected endpoint => exact ensureHandshake (of_endpoint rfl)
  | stalled payloads =>
      obtain ⟨staged, ledger, hstage⟩ := stage_frame { a with session := none } payloads
      refine ensureHandshake ?_
      rw [hstage]
      exact ha

theorem move {a a' : Actor C} {log : List (Mark C)} (ha : a.Directed) (h : Move a log a') :
    a'.Directed := by
  cases h with
  | quiet h => exact ha.quiet h
  | due =>
      unfold handshakeDue
      cases hh : a.handshake with
      | none => exact ha
      | some x =>
          dsimp only
          split
          · generalize a.tick.machine.abandonHandshake.1 = index
            cases index <;> exact fun hs => Bool.noConfusion hs
          · refine of_endpoint ?_
            rw [(a.tick.sendHandshake_untouched x.firstSent).endpoint]
            exact ha (by rw [hh]; rfl)

end Directed

/-! ### The time of the last message -/

theorem le_lastSend_ensureHandshake {a : Actor C} {t : Instant} (hclock : Monotonic a.env.clock)
    (hnow : t ≤ a.now) (ht : t ≤ a.lastSend) : t ≤ a.ensureHandshake.lastSend := by
  unfold ensureHandshake
  split
  · rcases a.tick.lastSend_sendHandshake a.now with h | h <;> rw [h]
    · exact ht
    · exact hnow.trans (hclock 0)
  · exact ht

theorem le_lastSend_sendKeepalive {a : Actor C} {t : Instant} (hclock : Monotonic a.env.clock)
    (hnow : t ≤ a.now) (ht : t ≤ a.lastSend) : t ≤ a.sendKeepalive.lastSend := by
  rcases a.sendKeepalive_cases with ⟨e, machine, out, -, h⟩ | ⟨endpoint, machine, msg, -, -, h⟩
  · rw [h]
    exact ht
  · have hdone : t ≤ (a.keepaliveDone machine endpoint msg).lastSend := by
      show t ≤ if a.env.socketTakes.head then a.now else a.lastSend
      split
      · exact hnow
      · exact ht
    rw [h]
    split
    · exact le_lastSend_ensureHandshake (a := a.keepaliveDone machine endpoint msg) hclock.tail
        (hnow.trans (hclock 0)) hdone
    · exact hdone

/-- A keepalive clears the passive timer, or the session with it. -/
theorem session_sendKeepalive (a : Actor C) :
    a.sendKeepalive.session = none ∨
      a.sendKeepalive.session = a.session.map DriverSession.keepaliveSent := by
  rcases a.sendKeepalive_cases with ⟨e, machine, out, -, h⟩ | ⟨endpoint, machine, msg, -, -, h⟩
  · rw [h]
    exact Or.inl rfl
  · rw [h]
    split
    · exact Or.inr (ensureHandshake_untouched _).session
    · exact Or.inr rfl

theorem persistentKeepalive_sendKeepalive (a : Actor C) :
    a.sendKeepalive.persistentKeepalive = a.persistentKeepalive := by
  rcases a.sendKeepalive_cases with ⟨e, machine, out, -, h⟩ | ⟨endpoint, machine, msg, -, -, h⟩
  · rw [h]
    rfl
  · rw [h]
    split
    · exact (ensureHandshake_untouched _).persistentKeepalive
    · rfl

/-! ### The next deadlines -/

/-- A positive distance, without saturation, is later. -/
theorem lt_add_of_pos {t s : Instant} {d : Duration} (hd : 0 < d.nanos) (hle : t ≤ s)
    (ht : t.sinceEpoch.nanos < maxNanos) : t < s + d := by
  rw [Instant.le_iff] at hle
  rw [Instant.lt_iff, Instant.nanos_add]
  exact lt_min (by omega) ht

/-- The handshake's timer moves on, or its attempt is given up. -/
theorem retryAt_handshakeDue {a : Actor C} (ha : a.Directed) (hclock : Monotonic a.env.clock)
    (hnow : a.now.sinceEpoch.nanos < maxNanos) {x : HandshakeAttempt}
    (hx : a.handshakeDue.handshake = some x) (hsome : a.handshake.isSome = true) :
    a.now < x.retryAt := by
  obtain ⟨attempt, hattempt⟩ := Option.isSome_iff_exists.mp hsome
  rw [handshakeDue, hattempt] at hx
  dsimp only at hx
  split at hx
  · generalize a.tick.machine.abandonHandshake.1 = index at hx
    cases index <;> cases hx
  · have hend : a.tick.machine.endpoint.isSome = true := ha hsome
    rw [handshake_sendHandshake, if_pos hend] at hx
    rw [← Option.some.inj hx]
    have htimeout : 0 < rekeyTimeout.nanos := by decide
    -- the jitter comes on top of the timeout
    exact (lt_add_of_pos htimeout (hclock 0) hnow).trans_le (Instant.le_add _ _)

/-- The persistent keepalive is due again one interval later at the
earliest. -/
theorem persistentKeepaliveAt_due {a : Actor C} (hclock : Monotonic a.env.clock)
    (hnow : a.now.sinceEpoch.nanos < maxNanos)
    (hinterval : ∀ interval, a.persistentKeepalive = some interval → 0 < interval.nanos)
    {next : Instant} (hnext : a.persistentKeepaliveDue.persistentKeepaliveAt = some next) :
    a.now < next := by
  obtain ⟨interval, hfilter, rfl⟩ := Option.map_eq_some_iff.mp hnext
  obtain ⟨hsome, -⟩ := Option.filter_eq_some_iff.mp hfilter
  have hkept : a.persistentKeepaliveDue.persistentKeepalive = a.persistentKeepalive := by
    unfold persistentKeepaliveDue
    dsimp only
    split
    · exact persistentKeepalive_sendKeepalive _
    · exact (ensureHandshake_untouched _).persistentKeepalive
  have hlast : a.now ≤ a.persistentKeepaliveDue.lastSend := by
    unfold persistentKeepaliveDue
    dsimp only
    split
    · exact le_lastSend_sendKeepalive (a := { a.tick with lastSend := a.now }) hclock.tail
        (hclock 0) le_rfl
    · exact le_lastSend_ensureHandshake (a := { a.tick with lastSend := a.now }) hclock.tail
        (hclock 0) le_rfl
  exact lt_add_of_pos (hinterval interval (hkept ▸ hsome)) hlast hnow

/-- After its handler has run, a timer is off or due later. -/
theorem lt_deadline_fire {a : Actor C} (ha : a.Directed) (hclock : Monotonic a.env.clock)
    (hnow : a.now.sinceEpoch.nanos < maxNanos) {timer : Timer}
    (harmed : (a.deadline timer).isSome = true)
    (hinterval : timer = .persistentKeepalive →
      ∀ interval, a.persistentKeepalive = some interval → 0 < interval.nanos)
    {next : Instant} (hnext : (a.fire timer).deadline timer = some next) : a.now < next := by
  cases timer with
  | handshake =>
      obtain ⟨x, hx, rfl⟩ := Option.map_eq_some_iff.mp hnext
      refine retryAt_handshakeDue ha hclock hnow hx ?_
      rwa [deadline, Option.isSome_map] at harmed
  | expiry => cases hnext
  | keepalive =>
      have hnone : (a.fire .keepalive).deadline .keepalive = none := by
        show a.sendKeepalive.session.bind DriverSession.keepaliveAt = none
        rcases a.session_sendKeepalive with h | h <;> rw [h]
        · rfl
        · cases a.session <;> rfl
      cases hnone.symm.trans hnext
  | newHandshake =>
      have hnone : (a.fire .newHandshake).deadline .newHandshake = none := by
        show a.newHandshakeDue.session.bind DriverSession.newHandshakeAt = none
        rw [newHandshakeDue, (ensureHandshake_untouched _).session]
        cases a.session <;> rfl
      cases hnone.symm.trans hnext
  | persistentKeepalive => exact persistentKeepaliveAt_due hclock hnow (hinterval rfl) hnext

/-! ### Main results -/

/-- The persistent keepalive with an interval of zero, when there is no
session and an attempt is in progress. -/
theorem persistentKeepalive_zero {a : Actor C} {interval : Duration} (hzero : interval.nanos = 0)
    (hinterval : a.persistentKeepalive = some interval) (hsession : a.session = none)
    (hhandshake : a.handshake.isNone = false) (hend : a.machine.endpoint.isSome = true) :
    (a.fire .persistentKeepalive).deadline .persistentKeepalive = some a.now := by
  have hdue : a.persistentKeepaliveDue = { a.tick with lastSend := a.now } := by
    unfold persistentKeepaliveDue
    dsimp only
    rw [if_neg (by rw [show a.tick.session = none from hsession]; exact Bool.false_ne_true),
      ensureHandshake, if_neg (by exact Bool.eq_false_iff.mp hhandshake)]
  have hsame : a.now + interval = a.now := by
    refine Instant.ext (Duration.ext ?_)
    rw [Instant.nanos_add, hzero, Nat.add_zero]
    exact min_eq_left a.now.sinceEpoch.le_max
  show a.persistentKeepaliveDue.persistentKeepaliveAt = some a.now
  rw [hdue]
  show ((a.persistentKeepalive.filter fun _ => a.machine.endpoint.isSome).map
    fun interval => a.now + interval) = some a.now
  rw [hinterval, Option.filter_some, hend, if_pos rfl, Option.map_some, hsame]

/-- The actor of `retrying` once it is connected. -/
theorem retrying_connected (persistentKeepalive : Option Duration) :
    let a := (retrying persistentKeepalive).run [.actions [.connect anyEndpoint]]
    a.persistentKeepalive = persistentKeepalive ∧ a.session = none ∧
      a.handshake.isNone = false ∧ a.machine.endpoint.isSome = true ∧ a.lastSend = seconds 0 ∧
      a.now = seconds 6 := by
  have hnow := now_retrying persistentKeepalive anyEndpoint
  have hhandshake := handshake_turn_connect (a := retrying persistentKeepalive) rfl anyEndpoint
  rw [run_singleton]
  refine ⟨?_, ?_, by rw [hhandshake]; rfl, ?_, ?_, hnow⟩ <;> rw [turn_connect rfl]
  · exact (sendHandshake_untouched _ _).persistentKeepalive
  · exact (sendHandshake_untouched _ _).session
  · rw [(sendHandshake_untouched _ _).endpoint]
    rfl
  · rcases lastSend_sendHandshake ((retrying persistentKeepalive).tick.setEndpoint anyEndpoint).tick
      ((retrying persistentKeepalive).tick.setEndpoint anyEndpoint).now with h | h <;>
      rw [h] <;> rfl

/-- When the persistent keepalive of that actor is due. -/
theorem deadline_retrying (interval : Duration) :
    ((retrying (some interval)).run [.actions [.connect anyEndpoint]]).deadline .persistentKeepalive
      = some (seconds 0 + interval) := by
  obtain ⟨hinterval, -, -, hend, hlast, -⟩ := retrying_connected (some interval)
  rw [deadline, persistentKeepaliveAt, hinterval, hlast, Option.filter_some, hend, if_pos rfl]
  rfl

/-- **An interval of zero spins.**  A peer is registered with a persistent
keepalive of zero and connected.  Six seconds later the timer fires; when its
handler has run, it is due at that very time. -/
theorem zero_interval_spins :
    let a := (retrying (some (.fromSecs 0))).run [.actions [.connect anyEndpoint]]
    a.deadline .persistentKeepalive = some (seconds 0) ∧ Due (seconds 0) a.now ∧
      (a.turn (.timer .persistentKeepalive)).deadline .persistentKeepalive = some a.now := by
  have hdeadline := deadline_retrying (.fromSecs 0)
  obtain ⟨hinterval, hsession, hhandshake, hend, -, hnow⟩ :=
    retrying_connected (some (.fromSecs 0))
  dsimp only
  generalize (retrying (some (.fromSecs 0))).run [.actions [.connect anyEndpoint]] = a at *
  have harmed : (a.deadline .persistentKeepalive).isSome = true := by
    rw [hdeadline]
    rfl
  refine ⟨hdeadline, ⟨?_, ?_⟩, ?_⟩
  · rw [hnow]
    decide
  · rw [hnow]
    decide
  · rw [turn_timer harmed]
    exact persistentKeepalive_zero rfl hinterval hsession hhandshake hend

/-- **No timer spins.**  After any events, with a monotonic clock: when a
timer that is due fires and its handler has run, that timer is off or due
strictly later.  The persistent keepalive needs an interval that is not
zero. -/
theorem no_timer_spins (ourKey : C.Secret) (publicKey : PublicKey)
    (presharedKey : Option PresharedKey) (persistentKeepalive : Option Duration) (env : Env C)
    (hclock : Monotonic env.clock) (events : List (Event C)) (timer : Timer) (deadline : Instant)
    (harmed : ((spawn ourKey publicKey presharedKey persistentKeepalive env).run events).deadline
      timer = some deadline)
    (hdue : Due deadline
      ((spawn ourKey publicKey presharedKey persistentKeepalive env).run events).now)
    (hinterval : timer = .persistentKeepalive → ∀ interval,
      ((spawn ourKey publicKey presharedKey persistentKeepalive env).run
        events).persistentKeepalive = some interval → 0 < interval.nanos) :
    let a := (spawn ourKey publicKey presharedKey persistentKeepalive env).run events
    ∀ next, (a.turn (.timer timer)).deadline timer = some next → a.now < next := by
  intro a next hnext
  have hdirected : a.Directed := by
    refine invariant_run (fun a log a' _ ha h => Directed.move ha h) (healthy_spawn ..) ?_ events
    exact fun hs => Bool.noConfusion hs
  have hmirrored := mirrored_spawn ourKey publicKey presharedKey persistentKeepalive hclock
  have hmonotonic : Monotonic a.env.clock := (hmirrored.run events).sane.clock
  have hsome : (a.deadline timer).isSome = true := by
    rw [harmed]
    rfl
  rw [turn_timer hsome] at hnext
  exact lt_deadline_fire hdirected hmonotonic hdue.2 hsome hinterval hnext

/-- With an interval of one second the timer moves on. -/
theorem no_timer_spins_second :
    let a := (retrying (some (.fromSecs 1))).run [.actions [.connect anyEndpoint]]
    Monotonic (retrying (some (.fromSecs 1))).env.clock ∧
      a.deadline .persistentKeepalive = some (seconds 0 + Duration.fromSecs 1) ∧
      Due (seconds 0 + Duration.fromSecs 1) a.now ∧
      ∀ next, (a.turn (.timer .persistentKeepalive)).deadline .persistentKeepalive = some next →
        a.now < next := by
  dsimp only
  have hclock := monotonic_retrying (some (.fromSecs 1))
  have hdeadline := deadline_retrying (.fromSecs 1)
  obtain ⟨hinterval, -, -, -, -, hnow⟩ := retrying_connected (some (.fromSecs 1))
  have hdue : Due (seconds 0 + Duration.fromSecs 1)
      ((retrying (some (.fromSecs 1))).run [.actions [.connect anyEndpoint]]).now := by
    rw [hnow]
    exact ⟨by decide, by decide⟩
  have hpositive : ∀ interval, ((retrying (some (.fromSecs 1))).run
      [.actions [.connect anyEndpoint]]).persistentKeepalive = some interval →
      0 < interval.nanos := by
    intro interval h
    rw [← Option.some.inj (hinterval.symm.trans h)]
    decide
  refine ⟨hclock, hdeadline, hdue, ?_⟩
  have hspawn : retrying (some (.fromSecs 1)) = spawn (1 : UInt8)
      (Crypto.symbolic.publicKey (2 : UInt8)) none (some (.fromSecs 1))
      (retrying (some (.fromSecs 1))).env := rfl
  rw [hspawn] at hdeadline hdue hpositive ⊢
  exact no_timer_spins _ _ _ _ _ hclock _ _ _ hdeadline hdue fun _ => hpositive

end Actor

end Tunstile
