/-
Tunstile/Silence.lean

A driver that is left alone falls silent.

Without a persistent keepalive, and with nothing to handle, only timers wake
a driver.  `owed` counts what they can still make it send: the initiations
that the attempt in progress has time for, an attempt that the timer for
unanswered data would begin, and a keepalive with the attempt that it may
begin.  Every turn pays for what it sends (`owed_turn`), and no state owes
more than 54 datagrams, so no more are sent however long the timers run
(`falls_silent`).
-/
import Tunstile.Timers

namespace Tunstile

variable {C : Crypto}

namespace HandshakeAttempt

/-- How many more initiations the attempt has time for. -/
def left (x : HandshakeAttempt) : ℕ :=
  ((x.firstSent + rekeyAttemptTime).sinceEpoch.nanos - x.retryAt.sinceEpoch.nanos
    + (rekeyTimeout.nanos - 1)) / rekeyTimeout.nanos

/-- After the first initiation there is time for 17 more. -/
theorem left_le {x : HandshakeAttempt} (h : x.firstSent + rekeyTimeout ≤ x.retryAt) :
    x.left ≤ 17 := by
  rw [Instant.le_iff, Instant.nanos_add, Attempt.nanos_rekeyTimeout] at h
  rw [left, Instant.nanos_add, Attempt.nanos_rekeyAttemptTime, Attempt.nanos_rekeyTimeout]
  omega

/-- An initiation takes one. -/
theorem left_repeated {x y : HandshakeAttempt} {now : Instant} (hfirst : y.firstSent = x.firstSent)
    (hdue : x.retryAt ≤ now) (hwindow : now < x.firstSent + rekeyAttemptTime)
    (hnext : now + rekeyTimeout ≤ y.retryAt) : y.left + 1 ≤ x.left := by
  rw [Instant.le_iff] at hdue hnext
  rw [Instant.lt_iff] at hwindow
  rw [Instant.nanos_add, Attempt.nanos_rekeyTimeout] at hnext
  rw [left, left, hfirst]
  generalize (x.firstSent + rekeyAttemptTime).sinceEpoch = limit at *
  have hmax := limit.le_max
  rw [Attempt.nanos_rekeyTimeout]
  omega

end HandshakeAttempt

namespace Actor

variable {a : Actor C}

/-! ### What timers can still send -/

def owedAttempt (a : Actor C) : ℕ := (a.handshake.map HandshakeAttempt.left).getD 0

def owedSession (s : DriverSession) : ℕ :=
  (if s.newHandshakeAt.isSome then 18 else 0) + (if s.keepaliveAt.isSome then 19 else 0)

/-- How many datagrams timers alone can still make the driver send. -/
def owed (a : Actor C) : ℕ := a.owedAttempt + (a.session.map owedSession).getD 0

/-- An initiation of an attempt is one datagram at most. -/
theorem length_sendHandshake (a : Actor C) (firstSent : Instant) :
    (a.sendHandshake firstSent).datagrams.length ≤ a.datagrams.length + 1 := by
  rcases a.sendHandshake_cases firstSent with
    ⟨-, h⟩ | ⟨endpoint, -, ⟨-, h⟩ | ⟨i, -, -, -, mac1, control, lastSend, txBytes, h⟩⟩ <;>
    rw [h]
  · exact Nat.le_succ _
  · exact Nat.le_succ _
  · show (a.datagrams ++ [_]).length ≤ _
    rw [List.length_append, List.length_singleton]

theorem firstSent_attempt (a : Actor C) (firstSent : Instant) :
    (a.attempt firstSent).firstSent = firstSent := rfl

/-- The next initiation waits for a timeout, and the jitter. -/
theorem add_timeout_le_retryAt {firstSent now : Instant} (h : now ≤ a.now) :
    now + rekeyTimeout ≤ (a.attempt firstSent).retryAt := by
  show now + rekeyTimeout ≤ a.now + rekeyTimeout + a.rekeyJitter
  refine le_trans ?_ (Instant.le_add _ _)
  rw [Instant.le_iff] at h ⊢
  rw [Instant.nanos_add, Instant.nanos_add]
  exact min_le_min_right _ (Nat.add_le_add_right h _)

/-- The beginning of an attempt: one initiation, and 17 that may follow. -/
theorem owed_ensureHandshake (hclock : Monotonic a.env.clock) :
    a.ensureHandshake.datagrams.length + a.ensureHandshake.owedAttempt
      ≤ a.datagrams.length + a.owedAttempt + 18 := by
  unfold ensureHandshake
  split
  · have hlen : (a.tick.sendHandshake a.now).datagrams.length ≤ a.datagrams.length + 1 :=
      length_sendHandshake a.tick a.now
    have hleft : (a.tick.sendHandshake a.now).owedAttempt ≤ a.owedAttempt + 17 := by
      rw [owedAttempt, handshake_sendHandshake]
      split
      · rw [Option.map_some, Option.getD_some]
        have hle := HandshakeAttempt.left_le (add_timeout_le_retryAt (a := a.tick) (hclock 0))
        exact hle.trans (Nat.le_add_left _ _)
      · exact Nat.le_add_right _ _
    omega
  · exact Nat.le_add_right _ _

/-! ### Timers -/

theorem owed_of_handshake {x : HandshakeAttempt} (hx : a.handshake = some x) :
    a.owed = x.left + (a.session.map owedSession).getD 0 := by
  rw [owed, owedAttempt, hx, Option.map_some, Option.getD_some]

/-- What is owed depends on the attempt and the session. -/
theorem owed_congr {b : Actor C} (hh : b.handshake = a.handshake) (hs : b.session = a.session) :
    b.owed = a.owed := by
  rw [owed, owed, owedAttempt, owedAttempt, hh, hs]

/-- An attempt that is given up sends nothing. -/
theorem given_up_handshakeDue {x : HandshakeAttempt} (hx : a.handshake = some x)
    (htime : rekeyAttemptTime ≤ a.now.durationSince x.firstSent) :
    a.handshakeDue.datagrams = a.datagrams ∧ a.handshakeDue.handshake = none ∧
      a.handshakeDue.session = a.session := by
  rw [handshakeDue, hx]
  dsimp only
  rw [if_pos htime]
  generalize a.tick.machine.abandonHandshake.1 = index
  cases index <;> exact ⟨rfl, rfl, rfl⟩

/-- A repeated initiation is paid for with the time since the last one. -/
theorem owed_repeated (hclock : Monotonic a.env.clock) {x : HandshakeAttempt}
    (hx : a.handshake = some x) (hdue : Due x.retryAt a.now)
    (hwindow : a.now < x.firstSent + rekeyAttemptTime) :
    (a.tick.sendHandshake x.firstSent).datagrams.length + (a.tick.sendHandshake x.firstSent).owed
      ≤ a.datagrams.length + a.owed := by
  have hlen : (a.tick.sendHandshake x.firstSent).datagrams.length ≤ a.datagrams.length + 1 :=
    length_sendHandshake a.tick x.firstSent
  have hsession : (a.tick.sendHandshake x.firstSent).session = a.session :=
    (a.tick.sendHandshake_untouched x.firstSent).session
  cases hend : a.machine.endpoint.isSome with
  | false =>
      have hd : a.tick.datagrams = a.datagrams := rfl
      rw [sendHandshake_of_no_endpoint (a := a.tick) hend, hd,
        owed_congr (a := a) (b := a.tick) rfl rfl]
  | true =>
      have hattempt : (a.tick.sendHandshake x.firstSent).handshake
          = some (a.tick.attempt x.firstSent) := by
        rw [handshake_sendHandshake]
        exact if_pos hend
      have hnext : a.now + rekeyTimeout ≤ (a.tick.attempt x.firstSent).retryAt :=
        add_timeout_le_retryAt (hclock 0)
      have hleft : (a.tick.attempt x.firstSent).left + 1 ≤ x.left :=
        HandshakeAttempt.left_repeated (firstSent_attempt _ _) hdue.1 hwindow hnext
      rw [owed_of_handshake hattempt, owed_of_handshake hx, hsession]
      omega

/-- The timer of the handshake pays for what it sends. -/
theorem owed_handshakeDue (hclock : Monotonic a.env.clock)
    (htime : ∀ x, a.handshake = some x → Due x.retryAt a.now) :
    a.handshakeDue.datagrams.length + a.handshakeDue.owed ≤ a.datagrams.length + a.owed := by
  cases hx : a.handshake with
  | none =>
      have heq : a.handshakeDue = a := by rw [handshakeDue, hx]
      rw [heq]
  | some x =>
      have hdue := htime x hx
      by_cases hup : rekeyAttemptTime ≤ a.now.durationSince x.firstSent
      · obtain ⟨hd, hh, hs⟩ := given_up_handshakeDue hx hup
        rw [hd, owed_of_handshake hx, owed, owedAttempt, hh, hs, Option.map_none,
          Option.getD_none]
        omega
      · have heq : a.handshakeDue = a.tick.sendHandshake x.firstSent := by
          rw [handshakeDue, hx]
          exact if_neg hup
        rw [heq]
        exact owed_repeated hclock hx hdue
          (Instant.lt_add_of_durationSince_lt (not_le.mp hup) hdue.2)

/-- A keepalive, and the attempt it may begin. -/
theorem owed_sendKeepalive (hclock : Monotonic a.env.clock) {s : DriverSession}
    (hs : a.session = some s) (harmed : s.keepaliveAt.isSome = true) :
    a.sendKeepalive.datagrams.length + a.sendKeepalive.owed ≤ a.datagrams.length + a.owed := by
  have howed : a.owed = a.owedAttempt + (owedSession s.keepaliveSent + 19) := by
    rw [owed, hs, Option.map_some, Option.getD_some, owedSession, owedSession, if_pos harmed]
    rfl
  rcases a.sendKeepalive_cases with ⟨e, machine, out, -, h⟩ | ⟨endpoint, machine, msg, -, -, h⟩
  · rw [h, howed]
    show a.datagrams.length + (a.owedAttempt + 0) ≤ _
    omega
  · have hdone : (a.keepaliveDone machine endpoint msg).datagrams.length
        = a.datagrams.length + 1 := by
      show (a.datagrams ++ [_]).length = _
      rw [List.length_append, List.length_singleton]
    have hsession : (a.keepaliveDone machine endpoint msg).session = some s.keepaliveSent := by
      show a.session.map DriverSession.keepaliveSent = _
      rw [hs, Option.map_some]
    have hattempt : (a.keepaliveDone machine endpoint msg).owedAttempt = a.owedAttempt := rfl
    rw [h, howed]
    split
    · have hensure := owed_ensureHandshake (a := a.keepaliveDone machine endpoint msg) hclock.tail
      rw [owed, (ensureHandshake_untouched _).session, hsession, Option.map_some,
        Option.getD_some]
      omega
    · rw [owed, hsession, Option.map_some, Option.getD_some]
      omega

/-- The attempt that begins when data went unanswered. -/
theorem owed_newHandshakeDue (hclock : Monotonic a.env.clock) {s : DriverSession}
    (hs : a.session = some s) (harmed : s.newHandshakeAt.isSome = true) :
    a.newHandshakeDue.datagrams.length + a.newHandshakeDue.owed
      ≤ a.datagrams.length + a.owed := by
  have howed : a.owed = a.owedAttempt + (18 + owedSession { s with newHandshakeAt := none }) := by
    rw [owed, hs, Option.map_some, Option.getD_some, owedSession, owedSession, if_pos harmed]
    show _ = a.owedAttempt + (18 + (0 + _))
    rw [Nat.zero_add]
  have hensure := owed_ensureHandshake
    (a := { a with session := some { s with newHandshakeAt := none } }) hclock
  have heq : a.newHandshakeDue
      = { a with session := some { s with newHandshakeAt := none } }.ensureHandshake := by
    rw [newHandshakeDue, hs, Option.map_some]
  rw [heq, howed, owed, (ensureHandshake_untouched _).session, Option.map_some, Option.getD_some]
  have hsame : { a with session := some { s with newHandshakeAt := none } }.owedAttempt
    = a.owedAttempt := rfl
  have hdatagrams : { a with session := some { s with newHandshakeAt := none } }.datagrams
    = a.datagrams := rfl
  rw [hsame, hdatagrams] at hensure
  omega

/-- **Every turn pays for what it sends.** -/
theorem owed_turn (hclock : Monotonic a.env.clock) (hoff : a.persistentKeepalive = none)
    (timer : Timer)
    (htime : timer = .handshake → ∀ x, a.handshake = some x → Due x.retryAt a.now) :
    (a.turn (.timer timer)).datagrams.length + (a.turn (.timer timer)).owed
      ≤ a.datagrams.length + a.owed := by
  cases harmed : (a.deadline timer).isSome with
  | false =>
      rw [turn, if_neg (Bool.eq_false_iff.mp harmed)]
  | true =>
      rw [turn_timer harmed]
      cases timer with
      | handshake => exact owed_handshakeDue hclock (htime rfl)
      | expiry =>
          show a.datagrams.length + (a.owedAttempt + 0) ≤ a.datagrams.length + (a.owedAttempt + _)
          omega
      | keepalive =>
          obtain ⟨at', hat⟩ := Option.isSome_iff_exists.mp harmed
          obtain ⟨s, hs, hkeep⟩ := Option.bind_eq_some_iff.mp hat
          exact owed_sendKeepalive hclock hs (Option.isSome_iff_exists.mpr ⟨at', hkeep⟩)
      | newHandshake =>
          obtain ⟨at', hat⟩ := Option.isSome_iff_exists.mp harmed
          obtain ⟨s, hs, hnew⟩ := Option.bind_eq_some_iff.mp hat
          exact owed_newHandshakeDue hclock hs (Option.isSome_iff_exists.mpr ⟨at', hnew⟩)
      | persistentKeepalive =>
          rw [deadline, persistentKeepaliveAt, hoff] at harmed
          cases harmed

/-- No timer turns the persistent keepalive on. -/
theorem persistentKeepalive_turn (timer : Timer) :
    (a.turn (.timer timer)).persistentKeepalive = a.persistentKeepalive := by
  have hensure (b : Actor C) : b.ensureHandshake.persistentKeepalive = b.persistentKeepalive :=
    b.ensureHandshake_untouched.persistentKeepalive
  cases harmed : (a.deadline timer).isSome with
  | false => rw [turn, if_neg (Bool.eq_false_iff.mp harmed)]
  | true =>
      rw [turn_timer harmed]
      cases timer with
      | handshake =>
          show a.handshakeDue.persistentKeepalive = _
          unfold handshakeDue
          split
          · rfl
          · dsimp only
            split
            · generalize a.tick.machine.abandonHandshake.1 = index
              cases index <;> rfl
            · exact (a.tick.sendHandshake_untouched _).persistentKeepalive
      | expiry => rfl
      | keepalive => exact persistentKeepalive_sendKeepalive a
      | newHandshake => exact hensure _
      | persistentKeepalive =>
          show (if _ then sendKeepalive _ else ensureHandshake _).persistentKeepalive = _
          split
          · exact persistentKeepalive_sendKeepalive _
          · exact hensure _

/-! ### Runs of timers -/

theorem RetriesOnTime.append {a : Actor C} {events later : List (Event C)}
    (h : a.RetriesOnTime (events ++ later)) :
    a.RetriesOnTime events ∧ (a.run events).RetriesOnTime later := by
  induction events generalizing a with
  | nil => exact ⟨trivial, h⟩
  | cons event rest ih =>
      obtain ⟨hrest, hlater⟩ := ih h.2
      exact ⟨⟨h.1, hrest⟩, hlater⟩

theorem owed_run {a : Actor C} {i : Option Installer} (ha : a.Mirrored i)
    (hoff : a.persistentKeepalive = none) {timers : List Timer}
    (htime : a.RetriesOnTime (timers.map .timer)) :
    (a.run (timers.map .timer)).datagrams.length + (a.run (timers.map .timer)).owed
      ≤ a.datagrams.length + a.owed := by
  induction timers generalizing a i with
  | nil => exact Nat.le_refl _
  | cons timer rest ih =>
      obtain ⟨hdue, hrest⟩ := htime
      have hturn := owed_turn ha.sane.clock hoff timer fun heq => hdue (by rw [heq])
      exact (ih (ha.turn (.timer timer)) (a.persistentKeepalive_turn timer ▸ hoff) hrest).trans hturn

/-- No state that is reached owes more than 54 datagrams. -/
theorem OnSchedule.owed_le {log : List (Mark C)} (h : OnSchedule a log) : a.owed ≤ 54 := by
  have hattempt : a.owedAttempt ≤ 17 := by
    rw [owedAttempt]
    cases hx : a.handshake with
    | none => exact Nat.zero_le _
    | some x =>
        obtain ⟨last, hlast, hfirst, hretry⟩ := h.attempt x hx
        obtain ⟨before, tries, -, htries⟩ := h.scheduled.attempts.2 last hlast
        rw [Option.map_some, Option.getD_some]
        refine HandshakeAttempt.left_le (le_trans ?_ hretry)
        have helapsed := htries.elapsed
        rw [hfirst, Instant.le_iff, Instant.nanos_add, Instant.nanos_add]
        exact min_le_min_right _ (Nat.add_le_add_right (by omega) _)
  have hsession : (a.session.map owedSession).getD 0 ≤ 37 := by
    cases a.session with
    | none => exact Nat.zero_le _
    | some s =>
        rw [Option.map_some, Option.getD_some, owedSession]
        split <;> split <;> decide
  rw [owed]
  omega

/-- **A driver that is left alone falls silent.**  Take any run with a
monotonic clock in which the timer of the handshake does not fire early.  If
the persistent keepalive is off at some point, then from there on timers
alone make the driver send at most 54 datagrams, however often they fire. -/
theorem falls_silent (ourKey : C.Secret) (publicKey : PublicKey)
    (presharedKey : Option PresharedKey) (persistentKeepalive : Option Duration) (env : Env C)
    (hclock : Monotonic env.clock) (events : List (Event C)) (timers : List Timer)
    (htime : (spawn ourKey publicKey presharedKey persistentKeepalive env).RetriesOnTime
      (events ++ timers.map .timer)) :
    let a := (spawn ourKey publicKey presharedKey persistentKeepalive env).run events
    a.persistentKeepalive = none →
      (a.run (timers.map .timer)).datagrams.length ≤ a.datagrams.length + 54 := by
  intro a hoff
  obtain ⟨hevents, htimers⟩ := htime.append
  have hmirrored := mirrored_spawn ourKey publicKey presharedKey persistentKeepalive hclock
  have hspawn : OnSchedule (spawn ourKey publicKey presharedKey persistentKeepalive env) [] :=
    ⟨.nil, hclock, fun _ => rfl, fun x hx => (by cases hx), rfl, rfl⟩
  obtain ⟨log, -, hkept⟩ := hspawn.run (healthy_spawn ..) events hevents
  have hpaid : (a.run (timers.map .timer)).datagrams.length
      + (a.run (timers.map .timer)).owed ≤ a.datagrams.length + a.owed :=
    owed_run (hmirrored.run events) hoff htimers
  have howed : a.owed ≤ 54 := hkept.owed_le
  omega

/-- The actor of `retrying` is connected and then left alone. -/
theorem falls_silent_retrying :
    let a := (retrying none).run [.actions [.connect anyEndpoint]]
    a.handshake.isSome = true ∧
      (a.run [.timer .handshake]).datagrams.length ≤ a.datagrams.length + 54 := by
  have hattempt := handshake_turn_connect (a := retrying none) rfl anyEndpoint
  have htime : (retrying none).RetriesOnTime
      ([.actions [.connect anyEndpoint]] ++ [Timer.handshake].map .timer) := by
    refine ⟨fun h => (by cases h), fun _ x hx => ?_, trivial⟩
    have hretry : x.retryAt = seconds 0 + rekeyTimeout + (default : Duration) := by
      rw [← Option.some.inj (hattempt.symm.trans hx)]
      rfl
    rw [hretry, now_retrying]
    exact ⟨by decide, by decide⟩
  refine ⟨by rw [run_singleton, hattempt, Option.isSome_some], ?_⟩
  exact falls_silent (C := Crypto.symbolic) (1 : UInt8) (Crypto.symbolic.publicKey (2 : UInt8))
    none none (retrying none).env (monotonic_retrying none) [.actions [.connect anyEndpoint]]
    [.handshake] htime (retrying_connected none).1

end Actor

end Tunstile
