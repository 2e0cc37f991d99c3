/-
Tunstile/SleepUntil.lean

Whether the event loop can wait for its deadlines.

A deadline is an instant of the protocol, whose additions saturate.  To wait
for it `Clock::sleep_until` adds it to the clock's epoch, and that addition
panics past the last time of the system's clock.  All five deadlines are
added on every turn, as the arms of the loop are evaluated before their
guards.

Four of them lie at most `REJECT_AFTER_TIME` ahead of the clock, whatever
happened before (`Dated`, which every part of a turn keeps).  The fifth, the
persistent keepalive, lies one interval after the last message, and the
interval is the caller's: the longest one cannot be waited for
(`longest_interval_panics`).  While the interval fits between the clock and
its end, every deadline can be added to the epoch (`sleeps_until_deadline`).
-/
import Tunstile.Timers
import Tunstile.Deadlines
import Tunstile.Parts

namespace Tunstile

variable {C : Crypto}

/-! ### Deadlines near the clock -/

theorem Clock.isSome_sleepUntil (clock : Clock) {deadline : Option Instant}
    (h : ∀ t, deadline = some t → clock.epoch + t.sinceEpoch.nanos < clockEnd) :
    (clock.sleepUntil deadline).isSome = true := by
  have hlt : clock.epoch + (deadline.getD default).sinceEpoch.nanos < clockEnd := by
    cases deadline with
    | none => exact clock.lt_end
    | some t => exact h t rfl
  unfold sleepUntil
  dsimp only
  rw [if_pos hlt]
  rfl

/-- `t` is at most `REJECT_AFTER_TIME` ahead of `now`. -/
def Soon (now t : Instant) : Prop :=
  t.sinceEpoch.nanos ≤ now.sinceEpoch.nanos + rejectAfterTime.nanos

theorem Soon.mono {now now' t : Instant} (h : Soon now t) (hle : now ≤ now') : Soon now' t :=
  le_trans h (Nat.add_le_add_right hle _)

theorem Instant.nanos_add_le (t : Instant) (d : Duration) :
    (t + d).sinceEpoch.nanos ≤ t.sinceEpoch.nanos + d.nanos := min_le_left _ _

theorem soon_add {now t : Instant} {d : Duration} (ht : t ≤ now) (hd : d ≤ rejectAfterTime) :
    Soon now (t + d) :=
  (t.nanos_add_le d).trans (Nat.add_le_add ht hd)

/-- A wait prolonged by a jitter is still short. -/
theorem soon_add_jitter {now t : Instant} {d : Duration} (j : RekeyJitter)
    (ht : t.sinceEpoch.nanos ≤ now.sinceEpoch.nanos + d.nanos)
    (hd : d.nanos + rekeyTimeoutJitterMax.nanos ≤ rejectAfterTime.nanos) :
    Soon now (t + j.duration) := by
  have hadd := t.nanos_add_le j.duration
  have hj := Duration.lt_iff.mp j.duration_lt
  unfold Soon
  omega

namespace DriverSession

/-- The timers of a session are near the clock. -/
structure Dated (now : Instant) (s : DriverSession) : Prop where
  established : s.established ≤ now
  keepaliveAt : ∀ t, s.keepaliveAt = some t → Soon now t
  newHandshakeAt : ∀ t, s.newHandshakeAt = some t → Soon now t

namespace Dated

variable {now now' : Instant} {s : DriverSession}

theorem mono (h : s.Dated now) (hle : now ≤ now') : s.Dated now' where
  established := h.established.trans hle
  keepaliveAt t ht := (h.keepaliveAt t ht).mono hle
  newHandshakeAt t ht := (h.newHandshakeAt t ht).mono hle

theorem new (initiator : Bool) (hle : now ≤ now') :
    (DriverSession.new initiator now).Dated now' where
  established := hle
  keepaliveAt _ ht := by cases ht
  newHandshakeAt _ ht := by cases ht

theorem keepaliveSent (h : s.Dated now) : s.keepaliveSent.Dated now where
  established := h.established
  keepaliveAt _ ht := by cases ht
  newHandshakeAt := h.newHandshakeAt

theorem dataSent (h : s.Dated now') (hle : now ≤ now') (j : RekeyJitter) :
    (s.dataSent now j.duration).Dated now' where
  established := h.established
  keepaliveAt _ ht := by cases ht
  newHandshakeAt t ht := by
    rw [← Option.some.inj ht]
    cases hold : s.newHandshakeAt with
    | some t => exact h.newHandshakeAt t hold
    | none =>
        -- the wait of a keepalive and of a handshake, and the jitter
        have hfirst := now.nanos_add_le keepaliveTimeout
        have hsecond := (now + keepaliveTimeout).nanos_add_le rekeyTimeout
        rw [Instant.le_iff] at hle
        refine soon_add_jitter (d := .ofNanos (keepaliveTimeout.nanos + rekeyTimeout.nanos)) j ?_
          (by decide)
        have hsum : (Duration.ofNanos (keepaliveTimeout.nanos + rekeyTimeout.nanos)).nanos
            = keepaliveTimeout.nanos + rekeyTimeout.nanos := by decide
        rw [hsum]
        omega

theorem packetReceived (h : s.Dated now') (hle : now ≤ now') (carriedPayload : Bool) :
    (s.packetReceived now carriedPayload).Dated now' := by
  cases carriedPayload with
  | false => exact ⟨h.established, h.keepaliveAt, fun _ ht => by cases ht⟩
  | true =>
      refine ⟨h.established, fun t ht => ?_, fun _ ht => by cases ht⟩
      have ht' : s.keepaliveAt.getD (now + keepaliveTimeout) = t := Option.some.inj ht
      rw [← ht']
      cases hold : s.keepaliveAt with
      | some t => exact h.keepaliveAt t hold
      | none => exact soon_add hle (by decide)

theorem newHandshakeDue (h : s.Dated now) : ({ s with newHandshakeAt := none }).Dated now where
  established := h.established
  keepaliveAt := h.keepaliveAt
  newHandshakeAt _ ht := by cases ht

end Dated

end DriverSession

namespace Actor

/-- No time that the actor keeps is far ahead of its clock, which is monotonic;
jitters are as `rekey_jitter` draws them. -/
structure Dated (a : Actor C) : Prop where
  clock : Monotonic a.env.clock
  jitter : ∀ n, ∃ j : RekeyJitter, a.env.rekeyJitter.get n = j.duration
  lastSend : a.lastSend ≤ a.now
  handshake : ∀ x, a.handshake = some x → Soon a.now x.retryAt
  session : ∀ s, a.session = some s → s.Dated a.now

namespace Dated

/-! ### What the operations keep -/

theorem now_le_tick {a : Actor C} (h : a.Dated) : a.now ≤ a.tick.now := h.clock 0

/-- A change outside of what is dated. -/
theorem of_eq {a b : Actor C} (h : a.Dated) (hc : b.env.clock = a.env.clock)
    (hj : b.env.rekeyJitter = a.env.rekeyJitter) (hl : b.lastSend = a.lastSend)
    (hh : b.handshake = a.handshake) (hs : b.session = a.session) : b.Dated := by
  have hnow : b.now = a.now := congrArg Stream'.head hc
  refine ⟨hc ▸ h.clock, hj ▸ h.jitter, ?_, ?_, ?_⟩
  · rw [hl, hnow]
    exact h.lastSend
  · rw [hh, hnow]
    exact h.handshake
  · rw [hs, hnow]
    exact h.session

theorem tick {a : Actor C} (h : a.Dated) : a.tick.Dated where
  clock := h.clock.tail
  jitter := h.jitter
  lastSend := h.lastSend.trans h.now_le_tick
  handshake x hx := (h.handshake x hx).mono h.now_le_tick
  session s hs := (h.session s hs).mono h.now_le_tick

/-- A message was sent at a time that has been read. -/
theorem sent {a : Actor C} (h : a.Dated) {t : Instant} (ht : t ≤ a.now) :
    ({ a with lastSend := t }).Dated :=
  ⟨h.clock, h.jitter, ht, h.handshake, h.session⟩

/-- The session was given up, or its timers changed. -/
theorem withSession {a : Actor C} (h : a.Dated) {session : Option DriverSession}
    (hs : ∀ s, session = some s → s.Dated a.now) : ({ a with session := session }).Dated :=
  ⟨h.clock, h.jitter, h.lastSend, h.handshake, hs⟩

theorem withoutSession {a : Actor C} (h : a.Dated) : ({ a with session := none }).Dated :=
  h.withSession fun _ hs => by cases hs

theorem mapSession {a : Actor C} (h : a.Dated) {f : DriverSession → DriverSession}
    (hf : ∀ s, s.Dated a.now → (f s).Dated a.now) :
    ({ a with session := a.session.map f }).Dated := by
  refine h.withSession fun s hs => ?_
  obtain ⟨s, hsome, rfl⟩ := Option.map_eq_some_iff.mp hs
  exact hf s (h.session s hsome)

theorem withoutHandshake {a : Actor C} (h : a.Dated) : ({ a with handshake := none }).Dated where
  clock := h.clock
  jitter := h.jitter
  lastSend := h.lastSend
  handshake _ hx := by cases hx
  session := h.session

theorem retireIndex {a : Actor C} (h : a.Dated) (index : Option UInt32) :
    (a.retireIndex index).Dated := by
  cases index <;> exact h.of_eq rfl rfl rfl rfl rfl

theorem unwritten {a : Actor C} (h : a.Dated) (firstSent : Instant) :
    (a.unwritten firstSent).Dated where
  clock := h.tick.clock
  jitter n := h.jitter (n + 1)
  lastSend := h.tick.lastSend
  handshake x hx := by
    obtain ⟨j, hj⟩ := h.jitter 0
    have hjitter : a.rekeyJitter = j.duration := hj
    rw [← Option.some.inj hx]
    show Soon _ (a.now + rekeyTimeout + a.rekeyJitter)
    rw [hjitter]
    exact (soon_add_jitter j (a.now.nanos_add_le _) (by decide)).mono h.now_le_tick
  session := h.tick.session

theorem sendHandshake {a : Actor C} (h : a.Dated) (firstSent : Instant) :
    (a.sendHandshake firstSent).Dated := by
  rcases a.sendHandshake_cases firstSent with ⟨-, hsame⟩ | ⟨endpoint, -, ⟨-, hsame⟩ | ⟨i, -, hi⟩⟩
  · rw [hsame]
    exact h
  · rw [hsame]
    exact h.unwritten firstSent
  · obtain ⟨-, hlast, mac1, control, lastSend, txBytes, hrest⟩ := hi
    have hle : lastSend ≤ a.tick.now := by
      rw [hrest] at hlast
      rcases hlast with hlast | hlast
      · exact hlast.le.trans h.tick.lastSend
      · exact hlast.le.trans h.now_le_tick
    rw [hrest]
    exact ((h.unwritten firstSent).sent hle).of_eq rfl rfl rfl rfl rfl

theorem ensureHandshake {a : Actor C} (h : a.Dated) : a.ensureHandshake.Dated := by
  unfold Actor.ensureHandshake
  split
  · exact h.tick.sendHandshake _
  · exact h

theorem setEndpoint {a : Actor C} (h : a.Dated) (endpoint : SocketAddr) :
    (a.setEndpoint endpoint).Dated :=
  h.of_eq rfl rfl rfl rfl rfl

theorem applyUpdate {a : Actor C} (h : a.Dated) (update : PeerUpdate) :
    (a.applyUpdate update).Dated := by
  obtain ⟨endpoint, presharedKey, persistentKeepalive⟩ := update
  have hsettings : (a.applyUpdate ⟨none, presharedKey, persistentKeepalive⟩).Dated := by
    cases presharedKey <;> cases persistentKeepalive <;> exact h.of_eq rfl rfl rfl rfl rfl
  cases endpoint with
  | none => exact hsettings
  | some endpoint => exact (hsettings.setEndpoint endpoint).ensureHandshake

theorem flushed {a : Actor C} (h : a.Dated) (payloads : List Bytes) :
    (a.flushed payloads).actor.Dated ∧ (a.flushed payloads).actor.now = a.tick.now := by
  obtain ⟨-, -, -, new, -, hsends, -⟩ := a.flushed_spec payloads
  obtain ⟨-, -, _, _, _, _, _, heq⟩ := hsends
  rw [heq]
  exact ⟨h.tick.of_eq rfl rfl rfl rfl rfl, rfl⟩

theorem flushDone {a : Actor C} (h : a.Dated) (payloads : List Bytes) :
    (a.flushDone payloads).Dated := by
  obtain ⟨hflushed, hnow⟩ := h.flushed payloads
  have hle : a.now ≤ (a.flushed payloads).actor.now := hnow ▸ h.now_le_tick
  unfold Actor.flushDone
  dsimp only
  split
  · split
    · exact hflushed.sent hle
    · rename_i session hsession
      obtain ⟨j, hj⟩ := hflushed.jitter 0
      have hsent := (hflushed.session session hsession).dataSent hle j
      rw [← hj] at hsent
      refine ⟨hflushed.clock, fun n => hflushed.jitter (n + 1), hle, hflushed.handshake, ?_⟩
      intro s hs
      rw [← Option.some.inj hs]
      exact hsent
  · exact hflushed

theorem flushSends {a : Actor C} (h : a.Dated) (payloads : List Bytes) :
    (a.flushSends payloads).Dated := by
  by_cases hp : payloads = []
  · rw [hp, flushSends_nil]
    exact h
  rw [flushSends_eq a hp]
  split
  · obtain ⟨staged, ledger, hstage⟩ :=
      stage_frame { (a.flushed payloads).actor with session := none } (a.flushed payloads).rest
    rw [hstage]
    exact ensureHandshake ((h.flushed payloads).1.withoutSession.of_eq rfl rfl rfl rfl rfl)
  · split
    · exact (h.flushDone payloads).sendHandshake _
    · exact h.flushDone payloads

theorem keepaliveDone {a : Actor C} (h : a.Dated) (machine : Peer C) (endpoint : SocketAddr)
    (msg : Bytes) : (a.keepaliveDone machine endpoint msg).Dated := by
  have hlast : (if a.env.socketTakes.head then a.now else a.lastSend) ≤ a.tick.now := by
    split
    · exact h.now_le_tick
    · exact h.tick.lastSend
  have hsession := h.tick.mapSession (f := DriverSession.keepaliveSent) fun _ hs =>
    hs.keepaliveSent
  exact (hsession.sent hlast).of_eq rfl rfl rfl rfl rfl

theorem sending : Sending fun a b : Actor C => a.Dated → b.Dated where
  refl _ := id
  trans hab hbc := hbc ∘ hab
  ensureHandshake _ := ensureHandshake
  flushSends _ payloads h := h.flushSends payloads
  keepaliveFailed _ h := h.tick.withoutSession.of_eq rfl rfl rfl rfl rfl
  keepaliveDone _ _ h := h.keepaliveDone _ _ _

theorem sessionEstablished {a : Actor C} (h : a.Dated) (initiator : Bool) :
    (a.sessionEstablished initiator).Dated := by
  obtain ⟨b, hb, heq⟩ := sending.sessionEstablished a initiator
  rw [heq]
  exact (hb (h.of_eq rfl rfl rfl rfl rfl)).of_eq rfl rfl rfl rfl rfl

theorem recvDataNoted {a : Actor C} (h : a.Dated) {now : Instant} (hnow : now ≤ a.now)
    (endpoint : SocketAddr) (dataLen : ℕ) (recv : Recv) (opened : Bytes) :
    (a.recvDataNoted now endpoint dataLen recv opened).Dated := by
  have hsession := session_recvDataNoted a now endpoint dataLen recv opened
  obtain ⟨control, inbound, inboundTakes, rxBytes, session, heq⟩ :=
    recvDataNoted_frame a now endpoint dataLen recv opened
  rw [heq] at hsession ⊢
  refine of_eq (h.withSession fun s (hs : session = some s) => ?_) rfl rfl rfl rfl rfl
  obtain ⟨s, hsome, rfl⟩ := Option.map_eq_some_iff.mp (hsession.symm.trans hs)
  refine DriverSession.Dated.packetReceived ?_ hnow _
  split at hsome
  · rw [← Option.some.inj hsome]
    exact .new false hnow
  · exact h.session s hsome

theorem recvHandshakeInit {a : Actor C} (h : a.Dated) {now : Instant} (hnow : now ≤ a.now)
    (handshake : InitReceived C) (endpoint : SocketAddr) :
    (a.recvHandshakeInit now handshake endpoint).Dated := by
  unfold Actor.recvHandshakeInit
  dsimp only
  rcases a.drawn.machine.respond now handshake a.values endpoint (List.replicate respMsgLength 0)
    with ⟨e | displaced, machine, msg⟩
  · exact h.of_eq rfl rfl rfl rfl rfl
  · simp only [send, sendSegments]
    cases displaced <;> dsimp only [Actor.retireIndex, bindIndex, drawn] <;>
      cases a.env.socketTakes.head
    all_goals first
      | exact h.of_eq rfl rfl rfl rfl rfl
      | exact (h.sent hnow).of_eq rfl rfl rfl rfl rfl

theorem responseNoted {a : Actor C} (h : a.Dated) {now : Instant} (hnow : now ≤ a.now)
    (resp : Bytes) (endpoint : SocketAddr) (retired : Option UInt32) (machine : Peer C) :
    (a.responseNoted now resp endpoint retired machine).Dated := by
  have hnew : ({ a with handshake := none, session := some (.new true now) }).Dated := by
    refine h.withoutHandshake.withSession fun s hs => ?_
    rw [← Option.some.inj hs]
    exact .new true hnow
  cases retired <;> exact hnew.of_eq rfl rfl rfl rfl rfl

theorem handshakeDue {a : Actor C} (h : a.Dated) : a.handshakeDue.Dated := by
  unfold Actor.handshakeDue
  split
  · exact h
  · dsimp only
    split
    · refine retireIndex ?_ _
      exact h.tick.withoutHandshake.of_eq rfl rfl rfl rfl rfl
    · exact h.tick.sendHandshake _

theorem part {a b : Actor C} {actions : List (PeerAction C)} (hpart : Part a actions b)
    (h : a.Dated) : b.Dated := by
  -- a call of the machine changes nothing that is dated
  have hmachine (machine : Peer C) : ({ a.tick with machine := machine }).Dated :=
    h.tick.of_eq rfl rfl rfl rfl rfl
  have hnoted (machine : Peer C) (endpoint : SocketAddr) (dataLen : ℕ) (recv : Recv)
      (opened : Bytes) : ({ a.tick with machine := machine }.recvDataNoted a.now endpoint dataLen
        recv opened).Dated := (hmachine machine).recvDataNoted h.now_le_tick _ _ _ _
  cases hpart with
  | tick => exact h.tick
  | ensured => exact h.ensureHandshake
  | collected => exact h
  | flushed payloads => exact h.flushSends payloads
  | connected endpoint => exact (h.setEndpoint endpoint).ensureHandshake
  | updated update => exact h.applyUpdate update
  | initiationReceived handshake endpoint =>
      exact h.tick.recvHandshakeInit h.now_le_tick handshake endpoint
  | cookieReceived reply => exact h.of_eq rfl rfl rfl rfl rfl
  | unanswered => exact hmachine _
  | answered => exact (h.tick.responseNoted h.now_le_tick _ _ _ _).sessionEstablished true
  | undecrypted => exact hmachine _
  | received => exact hnoted _ _ _ _ _
  | confirmed => exact (hnoted _ _ _ _ _).sessionEstablished false
  | keptAlive => exact sending.sendKeepalive a h
  | expired => exact h.withoutSession
  | disarmed => exact h.mapSession fun _ hs => hs.newHandshakeDue
  | touched => exact h.tick.sent h.now_le_tick

/-! ### Turns and runs -/

theorem turn {a : Actor C} (h : a.Dated) (event : Event C) : (a.turn event).Dated :=
  turn_of_parts (R := fun a _ b => a.Dated → b.Dated) (fun _ => id) (fun hab hbc => hbc ∘ hab)
    part (fun _ => handshakeDue) a event h

theorem run {a : Actor C} (h : a.Dated) (events : List (Event C)) : (a.run events).Dated := by
  induction events generalizing a with
  | nil => exact h
  | cons event rest ih => exact ih (h.turn event)

theorem spawn (ourKey : C.Secret) (publicKey : PublicKey) (presharedKey : Option PresharedKey)
    (persistentKeepalive : Option Duration) {env : Env C} (hclock : Monotonic env.clock)
    (hjitter : ∀ n, ∃ j : RekeyJitter, env.rekeyJitter.get n = j.duration) :
    (spawn ourKey publicKey presharedKey persistentKeepalive env).Dated where
  clock := hclock
  jitter := hjitter
  lastSend := Instant.le_iff.mpr (Nat.zero_le _)
  handshake _ hx := by cases hx
  session _ hs := by cases hs

/-- Every deadline but that of the persistent keepalive is near the clock. -/
theorem deadline_soon {a : Actor C} (h : a.Dated) {timer : Timer} {t : Instant}
    (ht : a.deadline timer = some t) (htimer : timer ≠ .persistentKeepalive) : Soon a.now t := by
  cases timer with
  | handshake =>
      obtain ⟨x, hx, rfl⟩ := Option.map_eq_some_iff.mp ht
      exact h.handshake x hx
  | expiry =>
      obtain ⟨s, hs, rfl⟩ := Option.map_eq_some_iff.mp ht
      exact soon_add (h.session s hs).established le_rfl
  | keepalive =>
      obtain ⟨s, hs, hsome⟩ := Option.bind_eq_some_iff.mp ht
      exact (h.session s hs).keepaliveAt t hsome
  | newHandshake =>
      obtain ⟨s, hs, hsome⟩ := Option.bind_eq_some_iff.mp ht
      exact (h.session s hs).newHandshakeAt t hsome
  | persistentKeepalive => exact absurd rfl htimer

/-- The persistent keepalive is due within one interval of the clock. -/
theorem persistentKeepaliveAt_le {a : Actor C} (h : a.Dated) {t : Instant}
    (ht : a.deadline .persistentKeepalive = some t) :
    ∃ interval, a.persistentKeepalive = some interval ∧
      t.sinceEpoch.nanos ≤ a.now.sinceEpoch.nanos + interval.nanos := by
  obtain ⟨interval, hfilter, rfl⟩ := Option.map_eq_some_iff.mp ht
  obtain ⟨hsome, -⟩ := Option.filter_eq_some_iff.mp hfilter
  exact ⟨interval, hsome, (a.lastSend.nanos_add_le interval).trans
    (Nat.add_le_add_right h.lastSend _)⟩

end Dated

/-! ### Main results -/

/-- **The longest interval panics.**  A peer is registered with the longest
duration as its persistent keepalive, and connected.  The next turn of the
event loop computes when it is due, and no clock can sleep until then. -/
theorem longest_interval_panics :
    let a := (retrying (some ⟨maxNanos, le_rfl⟩)).run [.actions [.connect anyEndpoint]]
    ∀ clock : Clock, clock.sleepUntil (a.deadline .persistentKeepalive) = none := by
  intro a clock
  have hdeadline : a.deadline .persistentKeepalive
      = some (seconds 0 + (⟨maxNanos, le_rfl⟩ : Duration)) := deadline_retrying _
  have hmax : ((seconds 0 + (⟨maxNanos, le_rfl⟩ : Duration) : Instant)).sinceEpoch.nanos
      = maxNanos := by decide
  have hend : clockEnd ≤ maxNanos := by decide
  rw [hdeadline]
  unfold Clock.sleepUntil
  dsimp only
  rw [Option.getD_some, hmax, if_neg]
  exact not_lt.mpr (hend.trans (Nat.le_add_left _ _))

/-- **Every deadline can be added to the epoch.**  After any events, with a
monotonic clock that is not in its last `REJECT_AFTER_TIME` and a persistent
keepalive whose interval, counted from now, ends before the clock does: the
addition overflows in no arm of the event loop.  (What the runtime computes
once it polls the sleep is not covered.) -/
theorem sleeps_until_deadline (ourKey : C.Secret) (publicKey : PublicKey)
    (presharedKey : Option PresharedKey) (persistentKeepalive : Option Duration) (env : Env C)
    (hclock : Monotonic env.clock)
    (hjitter : ∀ n, ∃ j : RekeyJitter, env.rekeyJitter.get n = j.duration)
    (events : List (Event C)) (clock : Clock)
    (hnow : clock.epoch + ((spawn ourKey publicKey presharedKey persistentKeepalive env).run
      events).now.sinceEpoch.nanos + rejectAfterTime.nanos < clockEnd)
    (hinterval : ∀ interval, ((spawn ourKey publicKey presharedKey persistentKeepalive env).run
      events).persistentKeepalive = some interval →
      clock.epoch + ((spawn ourKey publicKey presharedKey persistentKeepalive env).run
        events).now.sinceEpoch.nanos + interval.nanos < clockEnd) (timer : Timer) :
    let a := (spawn ourKey publicKey presharedKey persistentKeepalive env).run events
    (clock.sleepUntil (a.deadline timer)).isSome = true := by
  intro a
  have hdated : a.Dated :=
    Dated.run (.spawn ourKey publicKey presharedKey persistentKeepalive hclock hjitter) events
  refine clock.isSome_sleepUntil fun t ht => ?_
  by_cases htimer : timer = .persistentKeepalive
  · subst htimer
    obtain ⟨interval, hsome, hle⟩ := hdated.persistentKeepaliveAt_le ht
    have hlt : clock.epoch + a.now.sinceEpoch.nanos + interval.nanos < clockEnd :=
      hinterval interval hsome
    omega
  · have hsoon : t.sinceEpoch.nanos ≤ a.now.sinceEpoch.nanos + rejectAfterTime.nanos :=
      hdated.deadline_soon ht htimer
    have hlt : clock.epoch + a.now.sinceEpoch.nanos + rejectAfterTime.nanos < clockEnd := hnow
    omega

/-- With an interval of 25 seconds every arm can be evaluated. -/
theorem sleeps_until_deadline_retrying :
    let a := (retrying (some (.fromSecs 25))).run [.actions [.connect anyEndpoint]]
    let clock : Clock := ⟨0, by decide⟩
    a.deadline .persistentKeepalive = some (seconds 0 + Duration.fromSecs 25) ∧
      clock.epoch + a.now.sinceEpoch.nanos + rejectAfterTime.nanos < clockEnd ∧
      (∀ interval, a.persistentKeepalive = some interval →
        clock.epoch + a.now.sinceEpoch.nanos + interval.nanos < clockEnd) ∧
      ∀ timer, (clock.sleepUntil (a.deadline timer)).isSome = true := by
  intro a clock
  have hdeadline : a.deadline .persistentKeepalive = some (seconds 0 + Duration.fromSecs 25) :=
    deadline_retrying (.fromSecs 25)
  obtain ⟨hinterval, -, -, -, -, hnow⟩ := retrying_connected (some (.fromSecs 25))
  have hroom : clock.epoch + a.now.sinceEpoch.nanos + rejectAfterTime.nanos < clockEnd := by
    rw [show a.now = seconds 6 from hnow]
    decide
  have hfits : ∀ interval, a.persistentKeepalive = some interval →
      clock.epoch + a.now.sinceEpoch.nanos + interval.nanos < clockEnd := by
    intro interval h
    rw [← Option.some.inj (hinterval.symm.trans h), show a.now = seconds 6 from hnow]
    decide
  have hjitter : ∀ n, ∃ j : RekeyJitter,
      (retrying (some (.fromSecs 25))).env.rekeyJitter.get n = j.duration := by
    intro n
    refine ⟨⟨0, by decide⟩, ?_⟩
    show (default : Duration) = _
    decide
  refine ⟨hdeadline, hroom, hfits, ?_⟩
  have hspawn : retrying (some (.fromSecs 25)) = spawn (1 : UInt8)
      (Crypto.symbolic.publicKey (2 : UInt8)) none (some (.fromSecs 25))
      (retrying (some (.fromSecs 25))).env := rfl
  have hclock := monotonic_retrying (some (.fromSecs 25))
  simp only [a] at hroom hfits ⊢
  rw [hspawn] at hroom hfits ⊢
  exact sleeps_until_deadline _ _ _ _ _ hclock hjitter _ clock hroom hfits

end Actor

end Tunstile
