/-
Tunstile/Deadlines.lean

The deadlines of the driver's session.

`keepalive_at` and `new_handshake_at` are each armed by one kind of traffic,
at the first event of that kind, and cleared by another.  So each is what
`firstSince` reads off the history (`deadlines_determined`), and as what
arms the one clears the other, they are never armed together.
-/
import Tunstile.Actor
import Tunstile.History

namespace Tunstile

/-- `rekey_jitter`: a number of milliseconds below the largest jitter. -/
structure RekeyJitter where
  millis : ℕ
  lt : millis < rekeyTimeoutJitterMax.nanos / 10 ^ 6

def RekeyJitter.duration (j : RekeyJitter) : Duration := .fromMillis j.millis

theorem RekeyJitter.duration_lt (j : RekeyJitter) : j.duration < rekeyTimeoutJitterMax := by
  have hmax : rekeyTimeoutJitterMax.nanos = 334 * 10 ^ 6 := by decide
  have hlt := j.lt
  have hle : j.duration.nanos ≤ j.millis * 10 ^ 6 := min_le_left _ _
  rw [hmax] at hlt
  rw [Duration.lt_iff, hmax]
  omega

namespace DriverSession

/-- What happens to a session of the driver. -/
inductive Traffic where
  | dataSent (now : Instant) (rekeyJitter : RekeyJitter)
  | keepaliveSent
  | packetReceived (now : Instant) (carriedPayload : Bool)
  /-- The timer for an answer fired. -/
  | newHandshakeDue

def apply (s : DriverSession) : Traffic → DriverSession
  | .dataSent now rekeyJitter => s.dataSent now rekeyJitter.duration
  | .keepaliveSent => s.keepaliveSent
  | .packetReceived now carriedPayload => s.packetReceived now carriedPayload
  | .newHandshakeDue => { s with newHandshakeAt := none }

def run (s : DriverSession) (history : List Traffic) : DriverSession := history.foldl apply s

namespace Traffic

/-- Data or a keepalive was sent. -/
def sends : Traffic → Bool
  | .dataSent _ _ | .keepaliveSent => true
  | _ => false

/-- A packet was received, or waiting for one was given up. -/
def settles : Traffic → Bool
  | .packetReceived _ _ | .newHandshakeDue => true
  | _ => false

/-- When a payload was received. -/
def payloadAt : Traffic → Option Instant
  | .packetReceived now true => some now
  | _ => none

/-- When data was sent, and the jitter drawn for it. -/
def dataAt : Traffic → Option (Instant × RekeyJitter)
  | .dataSent now rekeyJitter => some (now, rekeyJitter)
  | _ => none

end Traffic

/-- The first payload received since the last send. -/
def firstOwed (history : List Traffic) : Option Instant :=
  firstSince Traffic.sends Traffic.payloadAt history

/-- The first data sent since the last packet or the last time an answer was
given up. -/
def firstUnanswered (history : List Traffic) : Option (Instant × RekeyJitter) :=
  firstSince Traffic.settles Traffic.dataAt history

theorem run_concat (s : DriverSession) (history : List Traffic) (event : Traffic) :
    s.run (history ++ [event]) = (s.run history).apply event := by
  rw [run, List.foldl_append, run]
  rfl

theorem some_getD {α : Type} (x : Option α) (a : α) : some (x.getD a) = x.or (some a) := by
  cases x <;> rfl

theorem keepaliveAt_run (initiator : Bool) (start : Instant) (history : List Traffic) :
    ((new initiator start).run history).keepaliveAt
      = (firstOwed history).map fun t => t + keepaliveTimeout := by
  induction history using List.reverseRecOn with
  | nil => rfl
  | append_singleton history event ih =>
      rw [run_concat, firstOwed, firstSince_concat]
      cases event with
      | dataSent now rekeyJitter => rfl
      | keepaliveSent => rfl
      | newHandshakeDue =>
          show _ = Option.map _ ((firstOwed history).or none)
          rw [Option.or_none]
          exact ih
      | packetReceived now carriedPayload =>
          cases carriedPayload with
          | false =>
              show _ = Option.map _ ((firstOwed history).or none)
              rw [Option.or_none]
              exact ih
          | true =>
              show some (Option.getD _ _) = Option.map _ (Option.or (firstOwed history) (some now))
              rw [some_getD, ih]
              cases firstOwed history <;> rfl

theorem newHandshakeAt_run (initiator : Bool) (start : Instant) (history : List Traffic) :
    ((new initiator start).run history).newHandshakeAt
      = (firstUnanswered history).map fun t =>
        t.1 + keepaliveTimeout + rekeyTimeout + t.2.duration := by
  induction history using List.reverseRecOn with
  | nil => rfl
  | append_singleton history event ih =>
      rw [run_concat, firstUnanswered, firstSince_concat]
      cases event with
      | dataSent now rekeyJitter =>
          show some (Option.getD _ _)
            = Option.map _ (Option.or (firstUnanswered history) (some (now, rekeyJitter)))
          rw [some_getD, ih]
          cases firstUnanswered history <;> rfl
      | keepaliveSent =>
          show _ = Option.map _ ((firstUnanswered history).or none)
          rw [Option.or_none]
          exact ih
      | newHandshakeDue => rfl
      | packetReceived now carriedPayload => cases carriedPayload <;> rfl

/-- What arms one deadline clears the other. -/
theorem not_both_armed (initiator : Bool) (start : Instant) (history : List Traffic) :
    ((new initiator start).run history).keepaliveAt = none ∨
      ((new initiator start).run history).newHandshakeAt = none := by
  induction history using List.reverseRecOn with
  | nil => exact Or.inl rfl
  | append_singleton history event ih =>
      rw [run_concat]
      cases event with
      | dataSent now rekeyJitter => exact Or.inl rfl
      | keepaliveSent => exact Or.inl rfl
      | newHandshakeDue => exact Or.inr rfl
      | packetReceived now carriedPayload => exact Or.inr (by cases carriedPayload <;> rfl)

/-- **The deadlines are determined by the traffic.**  After any history of a
new session, a keepalive is owed exactly if a payload was received since the
last send, and is due one timeout after the first such; an answer is overdue
exactly if data was sent since the last packet or the last firing, and is
due one timeout, one retry and less than the largest jitter after the first
such.  They are never armed together. -/
theorem deadlines_determined (initiator : Bool) (start : Instant) (history : List Traffic) :
    let s := (new initiator start).run history
    s.keepaliveAt = (firstOwed history).map (fun t => t + keepaliveTimeout) ∧
    (s.newHandshakeAt.isSome = true ↔ (firstUnanswered history).isSome = true) ∧
    (∀ t rekeyJitter deadline, firstUnanswered history = some (t, rekeyJitter) →
      s.newHandshakeAt = some deadline →
      t + keepaliveTimeout + rekeyTimeout ≤ deadline ∧
      (deadline < t + keepaliveTimeout + rekeyTimeout + rekeyTimeoutJitterMax ∨
        -- the end of the interval is past the largest instant
        maxNanos < t.sinceEpoch.nanos + keepaliveTimeout.nanos + rekeyTimeout.nanos
          + rekeyTimeoutJitterMax.nanos)) ∧
    (s.keepaliveAt = none ∨ s.newHandshakeAt = none) := by
  intro s
  have hnew : s.newHandshakeAt = _ := newHandshakeAt_run initiator start history
  refine ⟨keepaliveAt_run initiator start history, ?_, ?_, not_both_armed initiator start history⟩
  · rw [hnew, Option.isSome_map]
  · intro t rekeyJitter deadline hfirst hdeadline
    rw [hfirst, Option.map_some] at hnew
    obtain rfl := Option.some.inj (hdeadline.symm.trans hnew)
    have hjitter := Duration.lt_iff.mp rekeyJitter.duration_lt
    have hmax := t.sinceEpoch.le_max
    simp only [Instant.le_iff, Instant.lt_iff, Instant.nanos_add]
    omega

end DriverSession

end Tunstile
