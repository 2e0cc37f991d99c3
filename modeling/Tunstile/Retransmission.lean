/-
Tunstile/Retransmission.lean

The schedule by which initiations are sent again.

The moves of an actor log the beginning, the repetitions and the end of each
attempt.  `Scheduled` says which logs keep the schedule: an attempt begins
only when none is in progress; it is repeated one timeout after its last
initiation at the earliest, and not any more when its time is up; a response
is accepted only to the initiation that was written last, and to none once
the attempt was given up.  Every move keeps the log scheduled
(`OnSchedule.quiet`, `OnSchedule.due`), given a monotonic clock and a timer that
does not fire early.

What an attempt sends follows from the log alone (`Attempt`).
-/
import Tunstile.Moves
import Tunstile.Tracking
import Mathlib.Data.List.Chain

namespace Tunstile

variable {C : Crypto}

/-! ### Logs that keep the schedule -/

/-- The last initiation of the attempt in progress. -/
def inProgress (log : List (Mark C)) : Option (Try C) := log.getLast?.bind Mark.tried

@[simp] theorem inProgress_concat (log : List (Mark C)) (m : Mark C) :
    inProgress (log ++ [m]) = m.tried := by
  rw [inProgress, List.getLast?_concat]
  rfl

def pendingStep (pending : Option (PendingHandshake C)) : Mark C → Option (PendingHandshake C)
  | .begun t => (t.initiation.map Initiation.pending).or pending
  | .repeated _ t => (t.initiation.map Initiation.pending).or pending
  | .answered _ => none
  | .abandoned _ => none

/-- The handshake that is pending after a log. -/
def pendingAfter (log : List (Mark C)) : Option (PendingHandshake C) := log.foldl pendingStep none

@[simp] theorem pendingAfter_concat (log : List (Mark C)) (m : Mark C) :
    pendingAfter (log ++ [m]) = pendingStep (pendingAfter log) m :=
  List.foldl_concat pendingStep none m log

/-- A log that keeps the schedule. -/
inductive Scheduled : List (Mark C) → Prop where
  | nil : Scheduled []
  | begun {log : List (Mark C)} {t : Try C} (h : Scheduled log) (hidle : inProgress log = none)
      (hstart : t.firstSent ≤ t.sent) : Scheduled (log ++ [.begun t])
  | repeated {log : List (Mark C)} {attempt : HandshakeAttempt} {last t : Try C}
      (h : Scheduled log) (hlast : inProgress log = some last)
      (hfirst : t.firstSent = last.firstSent)
      (hwait : rekeyTimeout ≤ t.decided.durationSince last.sent)
      (hwindow : t.decided < t.firstSent + rekeyAttemptTime) (hsent : t.decided ≤ t.sent) :
      Scheduled (log ++ [.repeated attempt t])
  | answered {log : List (Mark C)} {pending : PendingHandshake C} (h : Scheduled log)
      (hpending : pendingAfter log = some pending) : Scheduled (log ++ [.answered pending])
  | abandoned {log : List (Mark C)} {attempt : HandshakeAttempt} (h : Scheduled log) :
      Scheduled (log ++ [.abandoned attempt])

/-- What the last entry of a scheduled log says of those before it. -/
theorem Scheduled.concat {log : List (Mark C)} {m : Mark C} (h : Scheduled (log ++ [m])) :
    Scheduled log ∧ (∀ t, m = .begun t → inProgress log = none) ∧
      ∀ pending, m = .answered pending → pendingAfter log = some pending := by
  generalize hwhole : log ++ [m] = whole at h
  cases h with
  | nil => exact absurd hwhole (List.concat_ne_nil _ _)
  | begun h hidle =>
      obtain ⟨rfl, hm⟩ := List.append_inj' hwhole rfl
      cases hm
      exact ⟨h, fun _ _ => hidle, fun _ heq => by cases heq⟩
  | answered h hpending =>
      obtain ⟨rfl, hm⟩ := List.append_inj' hwhole rfl
      cases hm
      refine ⟨h, fun _ heq => (by cases heq), fun _ heq => ?_⟩
      cases heq
      exact hpending
  | repeated h =>
      obtain ⟨rfl, hm⟩ := List.append_inj' hwhole rfl
      cases hm
      exact ⟨h, fun _ heq => (by cases heq), fun _ heq => by cases heq⟩
  | abandoned h =>
      obtain ⟨rfl, hm⟩ := List.append_inj' hwhole rfl
      cases hm
      exact ⟨h, fun _ heq => (by cases heq), fun _ heq => by cases heq⟩

theorem Scheduled.of_append {log log' : List (Mark C)} (h : Scheduled (log ++ log')) :
    Scheduled log := by
  induction log' using List.reverseRecOn with
  | nil => rwa [List.append_nil] at h
  | append_singleton log' m ih =>
      rw [← List.append_assoc] at h
      exact ih h.concat.1

/-- An attempt begins only when none is in progress. -/
theorem Scheduled.begun_idle {log before after : List (Mark C)} {t : Try C} (h : Scheduled log)
    (hlog : log = before ++ .begun t :: after) : inProgress before = none := by
  have hprefix : Scheduled (before ++ [.begun t]) := by
    rw [hlog, List.append_cons] at h
    exact h.of_append
  exact hprefix.concat.2.1 t rfl

/-- A handshake is pending only if its initiation was written since. -/
theorem pending_of_foldl {log : List (Mark C)} {before : Option (PendingHandshake C)}
    {pending : PendingHandshake C} (h : log.foldl pendingStep before = some pending) :
    before = some pending ∨ ∃ m ∈ log, m.initiation.map Initiation.pending = some pending := by
  induction log using List.reverseRecOn with
  | nil => exact Or.inl h
  | append_singleton log m ih =>
      have hrest {m' : Mark C} (h : log.foldl pendingStep before = some pending) :
          before = some pending ∨
            ∃ x ∈ log ++ [m'], x.initiation.map Initiation.pending = some pending := by
        rcases ih h with h | ⟨x, hx, h⟩
        · exact Or.inl h
        · exact Or.inr ⟨x, List.mem_append_left _ hx, h⟩
      rw [List.foldl_concat] at h
      cases m with
      | begun t =>
          rcases Option.or_eq_some_iff.mp h with hnew | ⟨-, hold⟩
          · exact Or.inr ⟨.begun t, List.mem_concat_self, hnew⟩
          · exact hrest hold
      | repeated attempt t =>
          rcases Option.or_eq_some_iff.mp h with hnew | ⟨-, hold⟩
          · exact Or.inr ⟨.repeated attempt t, List.mem_concat_self, hnew⟩
          · exact hrest hold
      | answered => cases h
      | abandoned => cases h

/-- **No response to an abandoned attempt is accepted.**  A response that is
accepted later answers an initiation written later. -/
theorem Scheduled.fresh_answer {log : List (Mark C)} (h : Scheduled log)
    {before between after : List (Mark C)} {attempt : HandshakeAttempt}
    {pending : PendingHandshake C}
    (hlog : log = before ++ .abandoned attempt :: (between ++ .answered pending :: after)) :
    ∃ m ∈ between, m.initiation.map Initiation.pending = some pending := by
  have hsplit : log
      = (before ++ [.abandoned attempt] ++ between ++ [.answered pending]) ++ after := by
    rw [hlog]
    simp
  have hprefix : Scheduled (before ++ [.abandoned attempt] ++ between ++ [.answered pending]) :=
    Scheduled.of_append (hsplit ▸ h)
  have hpending : pendingAfter (before ++ [.abandoned attempt] ++ between) = some pending :=
    hprefix.concat.2.2 pending rfl
  have hfold : between.foldl pendingStep none = some pending := by
    rw [pendingAfter, List.foldl_append, List.foldl_concat] at hpending
    exact hpending
  rcases pending_of_foldl hfold with hnone | hsome
  · cases hnone
  · exact hsome

/-! ### Attempts -/

def attemptStep (attempts : List (List (Try C))) (m : Mark C) : List (List (Try C)) :=
  match m with
  | .begun t => attempts ++ [[t]]
  | .repeated _ t => attempts.dropLast ++ [attempts.getLastD [] ++ [t]]
  | .answered _ => attempts
  | .abandoned _ => attempts

/-- The initiations of a log, attempt by attempt. -/
def attempts (log : List (Mark C)) : List (List (Try C)) := log.foldl attemptStep []

/-- The initiations of one attempt, up to `last`. -/
inductive Attempt : List (Try C) → Try C → Prop where
  | first {t : Try C} (hstart : t.firstSent ≤ t.sent) : Attempt [t] t
  | again {tries : List (Try C)} {last t : Try C} (h : Attempt tries last)
      (hfirst : t.firstSent = last.firstSent)
      (hwait : rekeyTimeout ≤ t.decided.durationSince last.sent)
      (hwindow : t.decided < t.firstSent + rekeyAttemptTime) (hsent : t.decided ≤ t.sent) :
      Attempt (tries ++ [t]) t

namespace Attempt

theorem getLast? {tries : List (Try C)} {last : Try C} (h : Attempt tries last) :
    tries.getLast? = some last := by
  cases h with
  | first => rfl
  | again => exact List.getLast?_concat

theorem firstSent {tries : List (Try C)} {last : Try C} (h : Attempt tries last) :
    ∀ t ∈ tries, t.firstSent = last.firstSent := by
  induction h with
  | first =>
      intro t ht
      rw [List.mem_singleton.mp ht]
  | again _ hfirst _ _ _ ih =>
      intro t ht
      rcases List.mem_append.mp ht with ht | ht
      · exact (ih t ht).trans hfirst.symm
      · rw [List.mem_singleton.mp ht]

/-- The initiations of an attempt are one timeout apart. -/
theorem spaced {tries : List (Try C)} {last : Try C} (h : Attempt tries last) :
    tries.IsChain fun t t' => rekeyTimeout ≤ t'.sent.durationSince t.sent := by
  induction h with
  | first => exact .singleton _
  | again h _ hwait _ hsent ih =>
      refine ih.append (.singleton _) fun x hx y hy => ?_
      rw [h.getLast?] at hx
      cases hx
      cases hy
      exact hwait.trans (Instant.durationSince_mono hsent _)

theorem window {tries : List (Try C)} {last : Try C} (h : Attempt tries last) :
    ∀ t ∈ tries.tail, t.decided < t.firstSent + rekeyAttemptTime := by
  induction h with
  | first =>
      intro t ht
      cases ht
  | again h _ _ hwindow _ ih =>
      intro t ht
      rw [List.tail_append_of_ne_nil (by rintro rfl; cases h.getLast?)] at ht
      rcases List.mem_append.mp ht with ht | ht
      · exact ih t ht
      · rw [List.mem_singleton.mp ht]
        exact hwindow

theorem length_pos {tries : List (Try C)} {last : Try C} (h : Attempt tries last) :
    0 < tries.length := by
  refine List.length_pos_of_ne_nil ?_
  rintro rfl
  cases h.getLast?

theorem nanos_rekeyTimeout : rekeyTimeout.nanos = 5 * 10 ^ 9 := rfl

theorem nanos_rekeyAttemptTime : rekeyAttemptTime.nanos = 90 * 10 ^ 9 := rfl

/-- A wait of one timeout, without saturation. -/
theorem sent_add_timeout_le {t last : Try C}
    (hwait : rekeyTimeout ≤ t.decided.durationSince last.sent) :
    last.sent.sinceEpoch.nanos + 5 * 10 ^ 9 ≤ t.decided.sinceEpoch.nanos := by
  rw [Duration.le_iff, nanos_rekeyTimeout, Instant.nanos_durationSince] at hwait
  omega

/-- Each initiation but the first takes a timeout. -/
theorem elapsed {tries : List (Try C)} {last : Try C} (h : Attempt tries last) :
    last.firstSent.sinceEpoch.nanos + (tries.length - 1) * (5 * 10 ^ 9)
      ≤ last.sent.sinceEpoch.nanos := by
  induction h with
  | first hstart =>
      rw [List.length_singleton, Nat.sub_self, Nat.zero_mul]
      exact Instant.le_iff.mp hstart
  | @again tries last t h hfirst hwait _ hsent ih =>
      obtain ⟨n, hn⟩ := Nat.exists_eq_succ_of_ne_zero h.length_pos.ne'
      have hle := sent_add_timeout_le hwait
      rw [Instant.le_iff] at hsent
      rw [hn, Nat.succ_sub_one] at ih
      rw [List.length_append, List.length_singleton, hfirst, Nat.add_sub_cancel, hn, Nat.succ_mul]
      calc last.firstSent.sinceEpoch.nanos + (n * (5 * 10 ^ 9) + 5 * 10 ^ 9)
          = last.firstSent.sinceEpoch.nanos + n * (5 * 10 ^ 9) + 5 * 10 ^ 9 :=
            (Nat.add_assoc _ _ _).symm
        _ ≤ last.sent.sinceEpoch.nanos + 5 * 10 ^ 9 := Nat.add_le_add_right ih _
        _ ≤ t.decided.sinceEpoch.nanos := hle
        _ ≤ t.sent.sinceEpoch.nanos := hsent

/-- **At most 18 initiations.**  The nineteenth would be decided on when the
time is up. -/
theorem length_le {tries : List (Try C)} {last : Try C} (h : Attempt tries last) :
    tries.length ≤ 18 := by
  cases h with
  | first => exact Nat.le_of_ble_eq_true rfl
  | again h hfirst hwait hwindow =>
      -- the last one is decided on within 90 s of the first, and every wait takes 5 s of them
      have helapsed := h.elapsed
      have hle := sent_add_timeout_le hwait
      rw [Instant.lt_iff, Instant.nanos_add, nanos_rekeyAttemptTime, hfirst] at hwindow
      rw [List.length_append, List.length_singleton]
      omega

end Attempt

/-- Every attempt of a scheduled log, and the one in progress. -/
theorem Scheduled.attempts {log : List (Mark C)} (h : Scheduled log) :
    (∀ tries ∈ attempts log, ∃ last, Attempt tries last) ∧
      ∀ last, inProgress log = some last →
        ∃ before tries, Tunstile.attempts log = before ++ [tries] ∧ Attempt tries last := by
  have hconcat (log : List (Mark C)) (m : Mark C) :
      Tunstile.attempts (log ++ [m]) = attemptStep (Tunstile.attempts log) m :=
    List.foldl_concat attemptStep [] m log
  induction h with
  | nil => exact ⟨fun _ h => (by cases h), fun _ h => (by cases h)⟩
  | @begun log t h hidle hstart ih =>
      have hnew : Attempt [t] t := .first hstart
      rw [hconcat, inProgress_concat]
      refine ⟨fun tries htries => ?_, fun last hlast => ?_⟩
      · rcases List.mem_append.mp htries with htries | htries
        · exact ih.1 tries htries
        · exact ⟨t, List.mem_singleton.mp htries ▸ hnew⟩
      · cases hlast
        exact ⟨_, _, rfl, hnew⟩
  | @repeated log attempt last t h hlast hfirst hwait hwindow hsent ih =>
      obtain ⟨before, tries, hall, hattempt⟩ := ih.2 last hlast
      have hnew : Attempt (tries ++ [t]) t := hattempt.again hfirst hwait hwindow hsent
      have hstep : attemptStep (Tunstile.attempts log) (.repeated attempt t)
          = before ++ [tries ++ [t]] := by
        simp only [attemptStep, hall, List.dropLast_concat, List.getLastD_concat]
      rw [hconcat, inProgress_concat, hstep]
      refine ⟨fun tries' htries => ?_, fun last' hlast' => ?_⟩
      · rcases List.mem_append.mp htries with htries | htries
        · exact ih.1 tries' (hall ▸ List.mem_append_left _ htries)
        · exact ⟨t, List.mem_singleton.mp htries ▸ hnew⟩
      · cases hlast'
        exact ⟨_, _, rfl, hnew⟩
  | answered h hpending ih =>
      rw [hconcat, inProgress_concat]
      exact ⟨ih.1, fun _ hlast => by cases hlast⟩
  | abandoned h ih =>
      rw [hconcat, inProgress_concat]
      exact ⟨ih.1, fun _ hlast => by cases hlast⟩

/-! ### Logs of an actor -/

def Datagrams.isInitiation (d : Datagrams) : Bool :=
  decide (typeByte d.bytes = MessageType.handshakeInit.toByte)

namespace Actor

/-- The initiations handed to the socket. -/
def initiationsSent (a : Actor C) : List Bytes :=
  (a.datagrams.filter Datagrams.isInitiation).map Datagrams.bytes

theorem initiationsSent_append {a b : Actor C} {new : List Datagrams}
    (hd : b.datagrams = a.datagrams ++ new) (hnew : ∀ d ∈ new, d.isInitiation = false) :
    b.initiationsSent = a.initiationsSent := by
  have hnone : new.filter Datagrams.isInitiation = [] :=
    List.filter_eq_nil_iff.mpr fun d hd => by rw [hnew d hd]; exact Bool.false_ne_true
  rw [initiationsSent, hd, List.filter_append, hnone, List.append_nil]
  rfl

theorem isInitiation_of_type {d : Datagrams} {t : MessageType} (h : typeByte d.bytes = t.toByte)
    (ht : t ≠ .handshakeInit) : d.isInitiation = false := by
  refine decide_eq_false fun heq => ?_
  cases t with
  | handshakeInit => exact ht rfl
  | _ => cases h.symm.trans heq

/-- Attempt and pending handshake are as they were, and no initiation was
sent. -/
structure Undisturbed (a a' : Actor C) : Prop where
  handshake : a'.handshake = a.handshake
  pending : a'.machine.pending = a.machine.pending
  sent : a'.initiationsSent = a.initiationsSent

theorem Undisturbed.trans {a b c : Actor C} (h : Undisturbed a b) (h' : Undisturbed b c) :
    Undisturbed a c :=
  ⟨h'.handshake.trans h.handshake, h'.pending.trans h.pending, h'.sent.trans h.sent⟩

/-- **What a quiet move does to attempts.**  It leaves them alone, accepts a
response, or ensures that there is one. -/
theorem Quiet.attempt_cases {a a' : Actor C} {new : List (Mark C)} (h : Quiet a new a') :
    (new = [] ∧ Undisturbed a a' ∧
        (a'.env.clock = a.env.clock ∨ a'.env.clock = a.env.clock.tail)) ∨
      (∃ pending, new = [.answered pending] ∧ a.machine.pending = some pending ∧
        a'.handshake = none ∧ a'.machine.pending = none ∧
        a'.initiationsSent = a.initiationsSent ∧ a'.env.clock = a.env.clock) ∨
      ∃ b, Undisturbed a b ∧ b.env.clock = a.env.clock ∧ new = b.ensureLog ∧
        a' = b.ensureHandshake := by
  cases h with
  | frame hf hclock =>
      obtain ⟨cookieGenerator, presharedKey, current, hm⟩ := hf.machine
      obtain ⟨data, hd, hdata⟩ := hf.datagrams
      refine Or.inl ⟨rfl, ⟨hf.handshake, by rw [hm], initiationsSent_append hd fun d hmem => ?_⟩,
        Or.inl hclock⟩
      exact isInitiation_of_type (hdata d hmem) (by intro h; cases h)
  | tick => exact Or.inl ⟨rfl, ⟨rfl, rfl, rfl⟩, Or.inr rfl⟩
  | received heff hrecv =>
      cases heff with
      | confirmed => cases hrecv
      | received k =>
          refine Or.inl ⟨rfl, ⟨rfl, ?_, rfl⟩, Or.inl rfl⟩
          cases k <;> rfl
  | confirmed heff hrecv =>
      cases heff with
      | confirmed => exact Or.inl ⟨rfl, ⟨rfl, rfl, rfl⟩, Or.inl rfl⟩
      | received => cases hrecv
  | responded heff hmsg taken =>
      refine Or.inl ⟨rfl, ⟨rfl, ?_, initiationsSent_append rfl fun d hmem => ?_⟩, Or.inl rfl⟩
      · cases heff
        rfl
      · rw [List.mem_singleton.mp hmem]
        exact isInitiation_of_type (t := .handshakeResp) hmsg (by intro h; cases h)
  | answered hpending heff =>
      refine Or.inr (Or.inl ⟨_, rfl, hpending, rfl, ?_, rfl, rfl⟩)
      cases heff
      rfl
  | ensured => exact Or.inr (Or.inr ⟨a, ⟨rfl, rfl, rfl⟩, rfl, rfl, rfl⟩)
  | connected endpoint =>
      exact Or.inr (Or.inr ⟨a.setEndpoint endpoint, ⟨rfl, rfl, rfl⟩, rfl, rfl, rfl⟩)
  | stalled payloads =>
      obtain ⟨staged, ledger, hstage⟩ := stage_frame { a with session := none } payloads
      refine Or.inr (Or.inr ⟨_, ?_, ?_, rfl, rfl⟩) <;> rw [hstage]
      exact ⟨rfl, rfl, rfl⟩

/-- The actor and what was logged so far. -/
structure OnSchedule (a : Actor C) (log : List (Mark C)) : Prop where
  scheduled : Scheduled log
  clock : Monotonic a.env.clock
  idle : a.handshake = none → inProgress log = none
  attempt : ∀ h, a.handshake = some h → ∃ last, inProgress log = some last ∧
    h.firstSent = last.firstSent ∧ last.sent + rekeyTimeout ≤ h.retryAt
  pending : a.machine.pending = pendingAfter log
  wire : a.initiationsSent = log.filterMap fun m => m.initiation.map Initiation.message

namespace OnSchedule

theorem congr {a b : Actor C} {log : List (Mark C)} (h : OnSchedule a log) (hu : Undisturbed a b)
    (hclock : Monotonic b.env.clock) : OnSchedule b log where
  scheduled := h.scheduled
  clock := hclock
  idle hnone := h.idle (hu.handshake ▸ hnone)
  attempt x hx := h.attempt x (hu.handshake ▸ hx)
  pending := hu.pending.trans h.pending
  wire := hu.sent.trans h.wire

theorem tick {a : Actor C} {log : List (Mark C)} (h : OnSchedule a log) : OnSchedule a.tick log :=
  h.congr ⟨rfl, rfl, rfl⟩ h.clock.tail

/-- An initiation of the attempt that began at `firstSent`, logged as
`mark`. -/
theorem sendHandshake {a : Actor C} {log : List (Mark C)} (h : OnSchedule a log)
    {mark : Try C → Mark C} (hmark : ∀ t, (mark t).tried = some t)
    (hpending : ∀ before t, pendingStep before (mark t)
      = (t.initiation.map Initiation.pending).or before)
    {firstSent decided : Instant}
    (hscheduled : Scheduled (log ++ [mark ⟨firstSent, decided, a.now, a.initiation⟩])) :
    OnSchedule (a.sendHandshake firstSent) (log ++ (a.tries firstSent decided).map mark) := by
  cases hend : a.machine.endpoint.isSome with
  | false =>
      have hlog : a.tries firstSent decided = [] := if_neg (Bool.eq_false_iff.mp hend)
      rw [sendHandshake_of_no_endpoint hend, hlog, List.map_nil, List.append_nil]
      exact h
  | true =>
      obtain ⟨t, ht⟩ : ∃ t : Try C, t = ⟨firstSent, decided, a.now, a.initiation⟩ := ⟨_, rfl⟩
      have hlog : a.tries firstSent decided = [t] := ht ▸ if_pos hend
      have hinit : (mark t).initiation = a.initiation := by
        rw [Mark.initiation, hmark, ht]
        rfl
      have hattempt : (a.sendHandshake firstSent).handshake = some (a.attempt firstSent) := by
        rw [handshake_sendHandshake, if_pos hend]
      obtain ⟨hclock, hmachine, new, hd, hbytes, htype⟩ := sendHandshake_of_endpoint hend firstSent
      rw [hlog, List.map_singleton]
      refine ⟨ht ▸ hscheduled, ?_, fun hnone => ?_, fun x hx => ?_, ?_, ?_⟩
      · rw [hclock]
        exact h.clock.tail
      · rw [hattempt] at hnone
        cases hnone
      · cases hattempt.symm.trans hx
        refine ⟨t, (inProgress_concat log _).trans (hmark t), ?_, ?_⟩
        · rw [ht]
          rfl
        · rw [ht]
          exact Instant.le_add _ _
      · rw [hmachine, pendingAfter_concat, hpending, h.pending, ht]
      · have hall : new.filter Datagrams.isInitiation = new :=
          List.filter_eq_self.mpr fun d hd => decide_eq_true (htype d hd).type_eq
        rw [initiationsSent, hd, List.filter_append, hall, List.map_append, hbytes,
          List.filterMap_append, ← h.wire, initiationsSent]
        congr 1
        rw [List.filterMap_cons, hinit, List.filterMap_nil]
        cases a.initiation <;> rfl

/-- The first initiation of an attempt. -/
theorem ensureHandshake {a : Actor C} {log : List (Mark C)} (h : OnSchedule a log) :
    OnSchedule a.ensureHandshake (log ++ a.ensureLog) := by
  unfold Actor.ensureHandshake ensureLog
  split
  · rename_i hnone
    refine h.tick.sendHandshake (fun _ => rfl) (fun _ _ => rfl) ?_
    exact h.scheduled.begun (h.idle (Option.isNone_iff_eq_none.mp hnone)) (h.clock 0)
  · rwa [List.append_nil]

theorem quiet {a a' : Actor C} {log new : List (Mark C)} (h : OnSchedule a log)
    (hq : Quiet a new a') : OnSchedule a' (log ++ new) := by
  rcases hq.attempt_cases with ⟨rfl, hu, hclock⟩ | ⟨pending, rfl, hsome, hh, hp, hs, hclock⟩ |
    ⟨b, hu, hclock, rfl, rfl⟩
  · rw [List.append_nil]
    refine h.congr hu ?_
    rcases hclock with hclock | hclock <;> rw [hclock]
    · exact h.clock
    · exact h.clock.tail
  · -- the machine accepts a response to its pending handshake only
    refine ⟨h.scheduled.answered (h.pending.symm.trans hsome), hclock ▸ h.clock,
      fun _ => inProgress_concat _ _, fun x hx => ?_, ?_, ?_⟩
    · rw [hh] at hx
      cases hx
    · rw [hp, pendingAfter_concat]
      rfl
    · rw [hs, List.filterMap_append]
      exact h.wire.trans (List.append_nil _).symm
  · exact (h.congr hu (hclock ▸ h.clock)).ensureHandshake

/-- **The timer of the handshake.** -/
theorem due {a : Actor C} {log : List (Mark C)} (h : OnSchedule a log)
    (htime : ∀ x, a.handshake = some x → Due x.retryAt a.now) :
    OnSchedule a.handshakeDue (log ++ a.dueLog) := by
  unfold handshakeDue dueLog
  cases hh : a.handshake with
  | none => rwa [List.append_nil]
  | some x =>
      obtain ⟨last, hlast, hfirst, hretry⟩ := h.attempt x hh
      obtain ⟨hdue, hrange⟩ := htime x hh
      dsimp only
      split
      · have hgone : OnSchedule { a.tick with
            handshake := none
            staged := []
            ledger := a.ledger ++ a.staged.map fun payload => (payload, .abandoned x a.now)
            machine := a.machine.abandonHandshake.2 } (log ++ [.abandoned x]) := by
          refine ⟨h.scheduled.abandoned, h.clock.tail, fun _ => inProgress_concat _ _,
            fun x hx => (by cases hx), (pendingAfter_concat log (.abandoned x)).symm, ?_⟩
          rw [List.filterMap_append]
          exact h.wire.trans (List.append_nil _).symm
        -- the index of the pending handshake is retired, if there is one
        generalize a.tick.machine.abandonHandshake.1 = index
        cases index with
        | none => exact hgone
        | some index => exact hgone.congr ⟨rfl, rfl, rfl⟩ hgone.clock
      · rename_i hwindow
        refine h.tick.sendHandshake (fun _ => rfl) (fun _ _ => rfl) ?_
        -- `decided` is the time read by `handshake_due`, `sent` the one read by `send_handshake`
        refine h.scheduled.repeated hlast hfirst ?_ ?_ (h.clock 0)
        · exact Instant.le_durationSince_of_add_le (hretry.trans hdue) hrange
        · exact Instant.lt_add_of_durationSince_lt (not_le.mp hwindow) hrange

end OnSchedule

/-! ### Logs of a run -/

/-- The timer of the handshake does not fire before it is due. -/
def RetriesOnTime (a : Actor C) : List (Event C) → Prop
  | [] => True
  | event :: rest =>
      (event = .timer .handshake → ∀ x, a.handshake = some x → Due x.retryAt a.now) ∧
        (a.turn event).RetriesOnTime rest

/-- What the events of a run log, turn by turn. -/
inductive Logged : Actor C → List (Event C) → List (Mark C) → Prop where
  | nil (a : Actor C) : Logged a [] []
  | due {a : Actor C} {rest : List (Event C)} {log : List (Mark C)}
      (h : Logged a.handshakeDue rest log) : Logged a (.timer .handshake :: rest) (a.dueLog ++ log)
  | quiet {a : Actor C} {event : Event C} {rest : List (Event C)} {new log : List (Mark C)}
      (hevent : event ≠ .timer .handshake) (hturn : Trace Quiet a new (a.turn event))
      (h : Logged (a.turn event) rest log) : Logged a (event :: rest) (new ++ log)

theorem OnSchedule.run {a : Actor C} {before : List (Mark C)} (h : OnSchedule a before)
    (hp : a.machine.Healthy) (events : List (Event C)) (htime : a.RetriesOnTime events) :
    ∃ log, Logged a events log ∧ OnSchedule (a.run events) (before ++ log) := by
  induction events generalizing a before with
  | nil => exact ⟨[], .nil a, by rwa [List.append_nil]⟩
  | cons event rest ih =>
      obtain ⟨hdue, hrest⟩ := htime
      by_cases hevent : event = .timer .handshake
      · subst hevent
        rw [turn_handshake] at hrest
        obtain ⟨log, hlog, hkept⟩ := ih (h.due (hdue rfl)) ((Move.due a).healthy hp) hrest
        refine ⟨a.dueLog ++ log, .due hlog, ?_⟩
        rw [← List.append_assoc]
        show OnSchedule ((a.turn (.timer .handshake)).run rest) _
        rw [turn_handshake]
        exact hkept
      · obtain ⟨new, htrace, -⟩ := a.calm_turn hevent hp
        have hturn := htrace.keeps (I := OnSchedule) (fun _ _ _ _ hf hq => hf.quiet hq) h
        have hp' := htrace.keeps_state (fun _ _ _ hp hq => hq.healthy hp) hp
        obtain ⟨log, hlog, hkept⟩ := ih hturn hp' hrest
        refine ⟨new ++ log, .quiet hevent htrace hlog, ?_⟩
        rw [← List.append_assoc]
        exact hkept

/-- An attempt in progress is left alone until a response is accepted. -/
theorem undisturbed_of_trace {a a' : Actor C} {log : List (Mark C)} (h : Trace Quiet a log a')
    {x : HandshakeAttempt} (hx : a.handshake = some x) :
    (log = [] ∧ Undisturbed a a') ∨ ∃ pending rest, log = .answered pending :: rest := by
  induction h with
  | refl => exact Or.inl ⟨rfl, rfl, rfl, rfl⟩
  | tail _ hq ih =>
      rcases ih with ⟨rfl, hu⟩ | ⟨pending, rest, rfl⟩
      · rw [List.nil_append]
        rcases hq.attempt_cases with ⟨rfl, hu', -⟩ | ⟨pending, rfl, -⟩ | ⟨b, hu', -, rfl, rfl⟩
        · exact Or.inl ⟨rfl, hu.trans hu'⟩
        · exact Or.inr ⟨pending, [], rfl⟩
        · have hb : ¬ b.handshake.isNone = true := by
            rw [(hu.trans hu').handshake, hx]
            exact Bool.false_ne_true
          rw [Actor.ensureHandshake, ensureLog, if_neg hb, if_neg hb]
          exact Or.inl ⟨rfl, hu.trans hu'⟩
      · exact Or.inr ⟨pending, rest ++ _, rfl⟩

/-- An attempt whose time is up is given up, with everything staged for
it. -/
theorem handshakeDue_abandons {a : Actor C} {x : HandshakeAttempt} (hx : a.handshake = some x)
    (htime : rekeyAttemptTime ≤ a.now.durationSince x.firstSent) :
    a.handshakeDue.handshake = none ∧ a.handshakeDue.machine.pending = none ∧
      a.handshakeDue.staged = [] := by
  rw [handshakeDue, hx]
  dsimp only
  rw [if_pos htime]
  generalize a.tick.machine.abandonHandshake.1 = index
  cases index <;> exact ⟨rfl, rfl, rfl⟩

/-- The initiations of an attempt that keeps the schedule. -/
structure Timely (tries : List (Try C)) : Prop where
  firstSent : ∀ t ∈ tries, ∀ t' ∈ tries, t.firstSent = t'.firstSent
  spaced : tries.IsChain fun t t' => rekeyTimeout ≤ t'.sent.durationSince t.sent
  window : ∀ t ∈ tries.tail, t.decided < t.firstSent + rekeyAttemptTime
  count : tries.length ≤ 18

/-- **The retransmission schedule.**  For every run with a monotonic clock in
which the timer of the handshake does not fire early:

* the run has a log of its initiations, which are those that were handed to
  the socket, and each of its attempts keeps the schedule;
* an attempt whose time is up is given up, with the pending handshake and
  everything staged, and a response accepted later answers an initiation
  written later;
* any other event leaves an attempt in progress alone, unless it brings a
  response that is accepted first. -/
theorem handshake_schedule (ourKey : C.Secret) (publicKey : PublicKey)
    (presharedKey : Option PresharedKey) (persistentKeepalive : Option Duration) (env : Env C)
    (hclock : Monotonic env.clock) (events : List (Event C))
    (htime : (spawn ourKey publicKey presharedKey persistentKeepalive env).RetriesOnTime events) :
    let start := spawn ourKey publicKey presharedKey persistentKeepalive env
    let a := start.run events
    (∃ log, Logged start events log ∧
      a.initiationsSent = log.filterMap (fun m => m.initiation.map Initiation.message) ∧
      (∀ tries ∈ attempts log, Timely tries) ∧
      (∀ before t after, log = before ++ .begun t :: after → inProgress before = none) ∧
      ∀ before attempt between pending after,
        log = before ++ .abandoned attempt :: (between ++ .answered pending :: after) →
        ∃ m ∈ between, m.initiation.map Initiation.pending = some pending) ∧
    (∀ x, a.handshake = some x → rekeyAttemptTime ≤ a.now.durationSince x.firstSent →
      (a.turn (.timer .handshake)).handshake = none ∧
      (a.turn (.timer .handshake)).machine.pending = none ∧
      (a.turn (.timer .handshake)).staged = []) ∧
    ∀ event x, event ≠ .timer .handshake → a.handshake = some x →
      Undisturbed a (a.turn event) ∨
        (∃ action ∈ event.batch, action.isResponse = true) ∧
          ∃ pending new, Trace Quiet a (.answered pending :: new) (a.turn event) := by
  intro start a
  have hspawn : OnSchedule start [] :=
    ⟨.nil, hclock, fun _ => rfl, fun x hx => (by cases hx), rfl, rfl⟩
  have hhealthy : a.machine.Healthy :=
    invariant_run (fun a log a' _ hp h => h.healthy hp) (healthy_spawn ..) (healthy_spawn ..) events
  obtain ⟨log, hlog, hkept⟩ := hspawn.run (healthy_spawn ..) events htime
  refine ⟨⟨log, hlog, hkept.wire, fun tries htries => ?_, fun before t after heq => ?_,
    fun before attempt between pending after heq => hkept.scheduled.fresh_answer heq⟩,
    fun x hx hup => ?_, fun event x hevent hx => ?_⟩
  · obtain ⟨last, hattempt⟩ := hkept.scheduled.attempts.1 tries htries
    exact ⟨fun t ht t' ht' => (hattempt.firstSent t ht).trans (hattempt.firstSent t' ht').symm,
      hattempt.spaced, hattempt.window, hattempt.length_le⟩
  · exact hkept.scheduled.begun_idle heq
  · rw [turn_handshake]
    exact handshakeDue_abandons hx hup
  · obtain ⟨new, htrace, hresp⟩ := a.calm_turn hevent hhealthy
    rcases undisturbed_of_trace htrace hx with ⟨-, hu⟩ | ⟨pending, rest, rfl⟩
    · exact Or.inl hu
    · exact Or.inr ⟨hresp pending List.mem_cons_self, pending, rest, htrace⟩

theorem turn_connect {a : Actor C} (hnone : a.handshake = none) (endpoint : SocketAddr) :
    a.turn (.actions [.connect endpoint])
      = (a.tick.setEndpoint endpoint).tick.sendHandshake (a.tick.setEndpoint endpoint).now := by
  rw [turn_action a (fun _ h => by cases h), handleMessage_connect hnone]

theorem handshake_turn_connect {a : Actor C} (hnone : a.handshake = none)
    (endpoint : SocketAddr) : (a.turn (.actions [.connect endpoint])).handshake
      = some (a.tick.tick.attempt a.tick.now) := by
  rw [turn_connect hnone, handshake_sendHandshake, if_pos (by rfl)]
  rfl

/-- A new actor of `symbolic` whose clock reads zero three times, and six
seconds from then on. -/
def retrying (persistentKeepalive : Option Duration) : Actor Crypto.symbolic :=
  spawn (1 : UInt8) (Crypto.symbolic.publicKey (2 : UInt8)) none persistentKeepalive
    { twoReads (seconds 0) (seconds 0) with
      clock := Stream'.cons (seconds 0) (Stream'.cons (seconds 0) (Stream'.cons (seconds 0)
        (Stream'.const (seconds 6)))) }

theorem monotonic_retrying (persistentKeepalive : Option Duration) :
    Monotonic (retrying persistentKeepalive).env.clock := by
  intro n
  match n with
  | 0 => exact le_rfl
  | 1 => exact le_rfl
  | 2 => exact Instant.le_iff.mpr (Nat.zero_le _)
  | n + 3 => exact le_rfl

/-- After connecting, that actor's clock reads six seconds. -/
theorem now_retrying (persistentKeepalive : Option Duration) (endpoint : SocketAddr) :
    ((retrying persistentKeepalive).turn (.actions [.connect endpoint])).now = seconds 6 := by
  rw [turn_connect rfl, now, (sendHandshake_of_endpoint (by rfl) _).1]
  rfl

/-- The schedule of an attempt that is repeated after six seconds. -/
theorem handshake_schedule_retrying :
    let events : List (Event Crypto.symbolic) :=
      [.actions [.connect anyEndpoint], .timer .handshake]
    Monotonic (retrying none).env.clock ∧ (retrying none).RetriesOnTime events ∧
      ∃ log, Logged (retrying none) events log ∧ ∀ tries ∈ attempts log, Timely tries := by
  intro events
  have hclock := monotonic_retrying none
  have hattempt := handshake_turn_connect (a := retrying none) rfl anyEndpoint
  have htime : (retrying none).RetriesOnTime events := by
    refine ⟨fun h => (by cases h), fun _ x hx => ?_, trivial⟩
    have hretry : x.retryAt = seconds 0 + rekeyTimeout + (default : Duration) := by
      rw [← Option.some.inj (hattempt.symm.trans hx)]
      rfl
    rw [hretry, now_retrying]
    exact ⟨by decide, by decide⟩
  obtain ⟨⟨log, hlog, -, hattempts, -⟩, -⟩ := handshake_schedule (C := Crypto.symbolic)
    (1 : UInt8) (Crypto.symbolic.publicKey (2 : UInt8)) none none (retrying none).env hclock events
    htime
  exact ⟨hclock, htime, log, hlog, hattempts⟩

end Actor

end Tunstile
