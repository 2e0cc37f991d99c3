/-
Tunstile/Tracking.lean

Driver and machine over whole runs.

A send session is installed by the response to an initiation, or by the
first packet of a session that was answered; `installer` follows which of
the two the machine's session came from.  The driver's session is made at
the same time, and from then on both are kept in step.

So the driver never loses a session that the machine could still use
(`never_loses_track`).  The other way round it may hold on for too long: a
session that it has as the responder starts for the machine with the
response, and for the driver with the first packet
(`usable_session_known`, `usable_after_expiry`).
-/
import Tunstile.Mirror
import Tunstile.Operations
import Tunstile.Exchange

namespace Tunstile

variable {C : Crypto}

/-- A peer that has answered no initiation yet answers the first. -/
theorem Peer.respond_first {p : Peer C} (now : Instant) (handshake : InitReceived C)
    (values : HandshakeValues C) (endpoint : SocketAddr)
    (hts : p.lastHandshakeTimestamp = none) (hnext : p.next = none) :
    ∃ mac1 msg, p.respond now handshake values endpoint (List.replicate respMsgLength 0)
      = (.ok none, { p with
          cookieGenerator := { p.cookieGenerator with lastSentMac1 := some mac1 }
          lastHandshakeTimestamp := some handshake.timestamp
          endpoint := some endpoint
          next := some (Session.new (ReceiverEstablished.finish (C := C)
            ⟨values.index, handshake.indexInitiator, (RespTranscript.ofResponder handshake
              values.ephemeralSecret p.presharedKey).constr⟩) now) }, msg) := by
  obtain ⟨hshort, -⟩ | ⟨-, mac1, msg, hresp, -⟩ := handshake.respond_cases values.index
    values.ephemeralSecret p.presharedKey values.timestamp p.cookieGenerator
    (List.replicate respMsgLength 0)
  · rw [List.length_replicate] at hshort
    exact absurd hshort (lt_irrefl _)
  refine ⟨mac1, msg ++ (List.replicate respMsgLength 0).drop respMsgLength, ?_⟩
  simp only [Peer.respond, hts, Option.any_none, Bool.false_eq_true, if_false,
    List.length_replicate, lt_irrefl, hresp, hnext, Option.map_none]

namespace Actor

/-! ### Installing a session -/

/-- The calls that install a send session. -/
inductive Installer where
  | response
  | confirmation
  deriving DecidableEq

/-- The call by which an action installs a send session, if it does. -/
def installs (a : Actor C) : PeerAction C → Option Installer
  | .recvHandshakeResp resp endpoint =>
      match a.machine.handshakeResponse a.ourKey a.now resp endpoint with
      | (.ok _, _) => some .response
      | (.error _, _) => none
  | .recvData data receiver endpoint =>
      match a.machine.decrypt a.now receiver data endpoint with
      | (.ok (recv, _), _) => if recv.confirmed then some .confirmation else none
      | (.error _, _) => none
  | _ => none

/-- How a session of the driver goes with the start of the machine's. -/
structure Twin (installer : Option Installer) (start : Instant) (d : Bool × Instant) : Prop where
  initiator : d.1 = true ↔ installer = some .response
  le : start ≤ d.2
  eq : d.1 = true → start = d.2
  alive : d.2.durationSince start < rejectAfterTime

/-- The driver's session goes with the machine's, which `installer` installed. -/
def Twinned (installer : Option Installer) (a : Actor C) : Prop :=
  ∀ d, a.session = some d → ∃ s, a.machine.current = some s ∧
    Twin installer s.established d.identity

/-- The driver has a session as long as the machine can encrypt. -/
def Watchful (a : Actor C) : Prop := a.session = none → a.machine.Blocked a.now

theorem Lasting.twinned {a a' : Actor C} (h : Lasting a a') {installer : Option Installer}
    (ha : a.Twinned installer) : a'.Twinned installer := by
  intro d' hd'
  rcases h.session with hsame | ⟨hnone, -⟩
  · rw [hd'] at hsame
    obtain ⟨d, hd, hid⟩ := Option.map_eq_some_iff.mp hsame.symm
    obtain ⟨s, hs, htwin⟩ := ha d hd
    have hcurrent := h.current
    rw [hs] at hcurrent
    obtain ⟨s', hs', hstart⟩ := Option.map_eq_some_iff.mp hcurrent
    exact ⟨s', hs', by rw [hstart, ← hid]; exact htwin⟩
  · cases hnone.symm.trans hd'

theorem Lasting.watchful {a a' : Actor C} (h : Lasting a a') (ha : a.Watchful) :
    a'.Watchful := by
  intro hnone'
  rcases h.session with hsame | ⟨-, hblocked⟩
  · rw [hnone'] at hsame
    exact (h.blocked (ha (Option.map_eq_none_iff.mp hsame.symm))).mono h.now
  · exact hblocked

/-- An actor that has just installed a session, on both sides. -/
structure Installed (installer : Installer) (a : Actor C) : Prop where
  sane : a.Sane
  twinned : a.Twinned (some installer)
  session : a.session.isSome = true

theorem Installed.watchful {installer : Installer} {a : Actor C} (h : Installed installer a) :
    a.Watchful := by
  intro hnone
  have := h.session
  rw [hnone] at this
  cases this

theorem installed_of_twin (installer : Installer) {a : Actor C} {s : Session C}
    {d : DriverSession} (hsane : a.Sane) (hcurrent : a.machine.current = some s)
    (hsession : a.session = some d) (htwin : Twin (some installer) s.established d.identity) :
    Installed installer a := by
  refine ⟨hsane, fun d' hd' => ?_, by rw [hsession]; rfl⟩
  cases hsession.symm.trans hd'
  exact ⟨s, hcurrent, htwin⟩

/-- An actor with another machine, in which nothing new awaits confirmation. -/
theorem Sane.of_machine {a b : Actor C} {machine : Peer C} (ha : a.Sane)
    (hhealthy : machine.Healthy) (hmachine : b.machine = machine)
    (hclock : b.env.clock = a.env.clock)
    (hpending : machine.pending.isSome = true → b.handshake.isSome = true)
    (hnext : ∀ s, machine.next = some s → a.machine.next = some s) : b.Sane := by
  subst hmachine
  have hnow : b.now = a.now := congrArg Stream'.head hclock
  refine ⟨hhealthy, hclock ▸ ha.clock, hpending, fun s hs => ?_⟩
  exact (ha.next s (hnext s hs)).trans hnow.ge

theorem durationSince_lt_of_not_expired {s : Session C} {now : Instant}
    (h : s.expired now = false) : now.durationSince s.established < rejectAfterTime :=
  not_le.mp (of_decide_eq_false h)

theorem recvHandshakeResp_cases {a : Actor C} (ha : a.Sane) (now : Instant) (resp : Bytes)
    (endpoint : SocketAddr) :
    (∃ e machine, a.machine.handshakeResponse a.ourKey now resp endpoint = (.error e, machine)) ∧
        Lasting a (a.recvHandshakeResp now resp endpoint) ∨
      (∃ retired machine,
          a.machine.handshakeResponse a.ourKey now resp endpoint = (.ok retired, machine)) ∧
        ∃ b, Installed .response b ∧ Lasting b (a.recvHandshakeResp now resp endpoint) := by
  have heff := a.machine.step_effect ha.healthy.wellFormed
    (.handshakeResponse a.ourKey now resp endpoint)
  rcases hresp : a.machine.handshakeResponse a.ourKey now resp endpoint with ⟨e | retired, machine⟩
  · have hstep : a.machine.step (.handshakeResponse a.ourKey now resp endpoint)
        = (.error e, machine) := by rw [Peer.step, hresp]
    have hkeeps : Keeps a { a with machine := machine } :=
      Keeps.quiet _ hstep rfl rfl rfl rfl rfl rfl
    exact Or.inl ⟨⟨e, machine, rfl⟩, by simp only [recvHandshakeResp, hresp]; exact hkeeps ha⟩
  · have hstep : a.machine.step (.handshakeResponse a.ourKey now resp endpoint)
        = (.rotated retired, machine) := by rw [Peer.step, hresp]
    rw [hstep] at heff
    refine Or.inr ⟨⟨retired, machine, rfl⟩, ?_⟩
    simp only [recvHandshakeResp, hresp]
    have hmachine := machine_retireIndex { a with machine := machine } retired
    have hclock := (upheld_retireIndex { a with machine := machine } retired).clock
    generalize ({ a with machine := machine } : Actor C).retireIndex retired = b at hmachine hclock
    have hhealthy := heff.healthy ha.healthy
    cases heff with
    | answered pending est hpending hansw =>
        have hsane : Sane
            (({ b with handshake := none, session := some (.new true now) } : Actor C).receivedBytes
              endpoint resp.length) :=
          ha.of_machine hhealthy hmachine hclock (fun hp => Bool.noConfusion hp) (fun _ hs => hs)
        have hb := installed_of_twin .response hsane
          (s := Session.new est.finish now) (by exact congrArg Peer.current hmachine) rfl
          ⟨iff_of_true rfl rfl, le_rfl, fun _ => rfl,
            durationSince_lt_of_not_expired (Session.expired_new est.finish now)⟩
        exact ⟨_, hb, keeps_flows.sessionEstablished _ true hb.sane⟩

theorem recvData_cases {a : Actor C} (ha : a.Sane) {now : Instant}
    (hnext : ∀ s, a.machine.next = some s → s.established ≤ now) (data : Bytes)
    (receiver : UInt32) (endpoint : SocketAddr) :
    (∀ recv opened machine,
        a.machine.decrypt now receiver data endpoint = (.ok (recv, opened), machine) →
        recv.confirmed = false) ∧ Lasting a (a.recvData now data receiver endpoint) ∨
      (∃ recv opened machine,
          a.machine.decrypt now receiver data endpoint = (.ok (recv, opened), machine) ∧
          recv.confirmed = true) ∧
        ∃ b, Installed .confirmation b ∧ Lasting b (a.recvData now data receiver endpoint) := by
  have heff := a.machine.step_effect ha.healthy.wellFormed (.decrypt now receiver data endpoint)
  rcases hdec : a.machine.decrypt now receiver data endpoint with ⟨e | ⟨recv, opened⟩, machine⟩
  · have hstep : a.machine.step (.decrypt now receiver data endpoint) = (.error e, machine) := by
      rw [Peer.step, hdec]
    have hkeeps : Keeps a { a with machine := machine } :=
      Keeps.quiet _ hstep rfl rfl rfl rfl rfl rfl
    refine Or.inl ⟨fun recv opened machine' h => ?_, ?_⟩
    · cases h
    · simp only [recvData, hdec]
      exact hkeeps ha
  have hstep : a.machine.step (.decrypt now receiver data endpoint)
      = (.decrypted recv opened, machine) := by rw [Peer.step, hdec]
  rw [hstep] at heff
  simp only [recvData, hdec]
  rw [recvDataOk_eq]
  have hsession := session_recvDataNoted { a with machine := machine } now endpoint data.length recv
    opened
  obtain ⟨hmachine, hclock, hhandshake⟩ := upheld_recvDataNoted { a with machine := machine }
    now endpoint data.length recv opened
  generalize ({ a with machine := machine } : Actor C).recvDataNoted now endpoint data.length recv
    opened = b at *
  dsimp only at hsession hmachine hclock hhandshake
  cases hconf : recv.confirmed with
  | false =>
      refine Or.inl ⟨?_, ?_⟩
      · rintro _ _ _ ⟨⟩
        exact hconf
      · rw [hconf, if_neg Bool.false_ne_true] at hsession
        rw [if_neg Bool.false_ne_true]
        refine Keeps.trans ?_ (keeps_flows.ensureHandshake_if _ _) ha
        rw [← hmachine] at hstep
        refine Keeps.call hstep hconf hclock (hhandshake ▸ id) ?_
          (fun h => by cases h) (fun _ h => by cases h)
        rw [hsession, Option.map_map]
        exact congrArg (Option.map · a.session)
          (funext fun d => d.identity_packetReceived now _)
  | true =>
      refine Or.inr ⟨⟨recv, opened, machine, rfl, hconf⟩, ?_⟩
      rw [hconf, if_pos rfl] at hsession
      rw [if_pos rfl]
      have hhealthy := heff.healthy ha.healthy
      cases heff with
      | received => cases hconf
      | confirmed x counter payload replay hslot hlive =>
          have hsane : b.Sane := ha.of_machine hhealthy hmachine hclock
            (fun hp => hhandshake ▸ ha.pending hp) (fun _ hs => by cases hs)
          have hb := installed_of_twin .confirmation hsane (s := { x with replay := replay })
            (by rw [hmachine]) hsession
            (by
              rw [DriverSession.identity_packetReceived]
              exact ⟨iff_of_false Bool.false_ne_true (fun h => by cases h), hnext x hslot,
                fun h => Bool.noConfusion h, durationSince_lt_of_not_expired hlive⟩)
          exact ⟨_, hb, Keeps.trans (keeps_flows.sessionEstablished _ false)
            (keeps_flows.ensureHandshake_if _ _) hb.sane⟩

/-- What an action does to the two pictures: it keeps them, or installs a
session and keeps the new ones. -/
theorem handleMessage_cases {a : Actor C} (ha : a.Sane) (action : PeerAction C) :
    a.installs action = none ∧ Lasting a (a.handleMessage action) ∨
      ∃ installer b, a.installs action = some installer ∧ Installed installer b ∧
        Lasting b (a.handleMessage action) := by
  have htick := Keeps.tick a ha
  have hkeeps (h : Keeps a.tick (a.handleMessage action)) :
      Lasting a (a.handleMessage action) := htick.trans (h htick.sane)
  cases action with
  | connect endpoint =>
      exact Or.inl ⟨rfl, hkeeps (keeps_flows.trans (keeps_flows.setEndpoint _ endpoint)
        (keeps_flows.ensureHandshake _))⟩
  | update update => exact Or.inl ⟨rfl, hkeeps (keeps_flows.applyUpdate _ update)⟩
  | sendData payload => exact Or.inl ⟨rfl, hkeeps (keeps_flows.flushSends _ [payload])⟩
  | recvHandshakeInit handshake endpoint =>
      exact Or.inl ⟨rfl, hkeeps (keeps_flows.recvHandshakeInit (ha.clock 0) handshake endpoint)⟩
  | recvCookieReply reply => exact Or.inl ⟨rfl, hkeeps (keeps_flows.recvCookieReply _ reply)⟩
  | recvHandshakeResp resp endpoint =>
      rcases recvHandshakeResp_cases htick.sane a.now resp endpoint with
        ⟨⟨e, machine, h⟩, hlast⟩ | ⟨⟨retired, machine, h⟩, b, hb, hlast⟩
      · refine Or.inl ⟨?_, htick.trans hlast⟩
        have h' : a.machine.handshakeResponse a.ourKey a.now resp endpoint = _ := h
        simp only [installs, h']
      · refine Or.inr ⟨.response, b, ?_, hb, hlast⟩
        have h' : a.machine.handshakeResponse a.ourKey a.now resp endpoint = _ := h
        simp only [installs, h']
  | recvData data receiver endpoint =>
      rcases recvData_cases htick.sane ha.next data receiver endpoint with
        ⟨h, hlast⟩ | ⟨⟨recv, opened, machine, h, hconf⟩, b, hb, hlast⟩
      · refine Or.inl ⟨?_, htick.trans hlast⟩
        rcases hdec : a.machine.decrypt a.now receiver data endpoint with
          ⟨e | ⟨recv, opened⟩, machine⟩
        · simp only [installs, hdec]
        · simp only [installs, hdec, h recv opened machine hdec]
          rfl
      · refine Or.inr ⟨.confirmation, b, ?_, hb, hlast⟩
        have h' : a.machine.decrypt a.now receiver data endpoint = _ := h
        simp only [installs, h', hconf]
        rfl

/-! ### Runs -/

/-- What installed the send session that the machine has after a batch of
actions, given what installed the one it had before. -/
def installerActions (installer : Option Installer) (a : Actor C) (payloads : List Bytes) :
    List (PeerAction C) → Option Installer
  | [] => installer
  | .sendData payload :: rest => installerActions installer a (payloads ++ [payload]) rest
  | action :: rest =>
      installerActions (((a.flushSends payloads).installs action).or installer)
        ((a.flushSends payloads).handleMessage action) [] rest

def installerTurn (installer : Option Installer) (a : Actor C) : Event C → Option Installer
  | .actions batch => installerActions installer a [] batch
  | .timer _ => installer

/-- The call that installed the send session which the machine has after
some events. -/
def installer (a : Actor C) : Option Installer → List (Event C) → Option Installer
  | i, [] => i
  | i, event :: rest => (a.turn event).installer (installerTurn i a event) rest

/-- What every run keeps of the driver's session. -/
structure Mirrored (installer : Option Installer) (a : Actor C) : Prop where
  sane : a.Sane
  twinned : a.Twinned installer

theorem Lasting.mirrored {a a' : Actor C} (h : Lasting a a') {installer : Option Installer}
    (ha : a.Mirrored installer) : a'.Mirrored installer := ⟨h.sane, h.twinned ha.twinned⟩

theorem Mirrored.handleMessage {a : Actor C} {installer : Option Installer}
    (h : a.Mirrored installer) (action : PeerAction C) :
    (a.handleMessage action).Mirrored ((a.installs action).or installer) ∧
      (a.Watchful → (a.handleMessage action).Watchful) := by
  rcases handleMessage_cases h.sane action with ⟨hnone, hlast⟩ | ⟨i, b, hsome, hb, hlast⟩
  · rw [hnone]
    exact ⟨hlast.mirrored h, hlast.watchful⟩
  · rw [hsome]
    exact ⟨hlast.mirrored ⟨hb.sane, hb.twinned⟩, fun _ => hlast.watchful hb.watchful⟩

theorem Mirrored.handleActions {a : Actor C} {installer : Option Installer}
    (h : a.Mirrored installer) (payloads : List Bytes) (actions : List (PeerAction C)) :
    (a.handleActions payloads actions).Mirrored (installerActions installer a payloads actions) ∧
      (a.Watchful → (a.handleActions payloads actions).Watchful) := by
  induction actions generalizing a installer payloads with
  | nil =>
      have hlast := keeps_flows.flushSends a payloads h.sane
      exact ⟨hlast.mirrored h, hlast.watchful⟩
  | cons action rest ih =>
      have hlast := keeps_flows.flushSends a payloads h.sane
      have hother := (hlast.mirrored h).handleMessage action
      have hrest := ih hother.1 []
      have hall := And.intro hrest.1 fun ha => hrest.2 (hother.2 (hlast.watchful ha))
      cases action with
      | sendData payload => exact ih h (payloads ++ [payload])
      | _ => exact hall

theorem Mirrored.turn {a : Actor C} {installer : Option Installer} (h : a.Mirrored installer)
    (event : Event C) : (a.turn event).Mirrored (installerTurn installer a event) := by
  cases event with
  | actions batch => exact (h.handleActions [] batch).1
  | timer timer =>
      show Mirrored installer (if (a.deadline timer).isSome then a.fire timer else a)
      split
      · cases timer with
        | handshake => exact (Keeps.handshakeDue a h.sane).mirrored h
        | expiry => exact ⟨⟨h.sane.healthy, h.sane.clock, h.sane.pending, h.sane.next⟩, nofun⟩
        | keepalive => exact (keeps_flows.sendKeepalive a h.sane).mirrored h
        | newHandshake => exact (keeps_flows.newHandshakeDue a h.sane).mirrored h
        | persistentKeepalive => exact (keeps_flows.persistentKeepaliveDue a h.sane).mirrored h
      · exact h

theorem Mirrored.run {a : Actor C} {i : Option Installer} (h : a.Mirrored i)
    (events : List (Event C)) : (a.run events).Mirrored (a.installer i events) := by
  induction events generalizing a i with
  | nil => exact h
  | cons event rest ih => exact ih (h.turn event)

theorem mirrored_spawn (ourKey : C.Secret) (publicKey : PublicKey)
    (presharedKey : Option PresharedKey) (persistentKeepalive : Option Duration) {env : Env C}
    (hclock : Monotonic env.clock) :
    (spawn ourKey publicKey presharedKey persistentKeepalive env).Mirrored none where
  sane := ⟨Peer.healthy_new publicKey presharedKey, hclock, fun hp => Bool.noConfusion hp, nofun⟩
  twinned := nofun

/-! ### Losing track -/

/-- A timer that is due at `deadline` may fire at `now`.  The largest instant,
where a deadline saturates, never comes. -/
def Due (deadline now : Instant) : Prop := deadline ≤ now ∧ now.sinceEpoch.nanos < maxNanos

/-- Each timer fires at or after its deadline, which is to say that the next
read of the clock is no earlier. -/
def OnTime (a : Actor C) : List (Event C) → Prop
  | [] => True
  | event :: rest =>
      (∀ timer deadline, event = .timer timer → a.deadline timer = some deadline →
        Due deadline a.now) ∧ (a.turn event).OnTime rest

/-- A session of the driver that has run out is of no use to the machine. -/
theorem Twinned.blocked_of_due {a : Actor C} {installer : Option Installer}
    (h : a.Twinned installer) {d : DriverSession} (hd : a.session = some d)
    (hdue : Due d.expiresAt a.now) : a.machine.Blocked a.now := by
  intro s hs
  obtain ⟨s', hs', htwin⟩ := h d hd
  cases hs'.symm.trans hs
  have hle : s.established.sinceEpoch.nanos ≤ d.established.sinceEpoch.nanos :=
    Instant.le_iff.mp htwin.le
  obtain ⟨hdue, hrange⟩ := hdue
  rw [Instant.le_iff, DriverSession.expiresAt, Instant.nanos_add] at hdue
  refine Or.inl (decide_eq_true ?_)
  rw [Duration.le_iff, Instant.nanos_durationSince]
  omega

theorem Mirrored.watchful_turn {a : Actor C} {installer : Option Installer}
    (h : a.Mirrored installer) (ha : a.Watchful) (event : Event C)
    (htime : ∀ timer deadline, event = .timer timer → a.deadline timer = some deadline →
      Due deadline a.now) : (a.turn event).Watchful := by
  cases event with
  | actions batch => exact (h.handleActions [] batch).2 ha
  | timer timer =>
      show Watchful (if (a.deadline timer).isSome then a.fire timer else a)
      split
      · rename_i harmed
        cases timer with
        | handshake => exact (Keeps.handshakeDue a h.sane).watchful ha
        | expiry =>
            obtain ⟨deadline, hdeadline⟩ := Option.isSome_iff_exists.mp harmed
            obtain ⟨d, hd, rfl⟩ := Option.map_eq_some_iff.mp hdeadline
            exact fun _ => h.twinned.blocked_of_due hd (htime .expiry _ rfl hdeadline)
        | keepalive => exact (keeps_flows.sendKeepalive a h.sane).watchful ha
        | newHandshake => exact (keeps_flows.newHandshakeDue a h.sane).watchful ha
        | persistentKeepalive => exact (keeps_flows.persistentKeepaliveDue a h.sane).watchful ha
      · exact ha

theorem Mirrored.watchful_run {a : Actor C} {i : Option Installer} (h : a.Mirrored i)
    (ha : a.Watchful) (events : List (Event C)) (htime : a.OnTime events) :
    (a.run events).Watchful := by
  induction events generalizing a i with
  | nil => exact ha
  | cons event rest ih => exact ih (h.turn event) (h.watchful_turn ha event htime.1) htime.2

/-! ### A responder's session -/

/-- A new actor answers the first initiation that arrives. -/
theorem exists_responded {a : Actor C} (handshake : InitReceived C) (endpoint : SocketAddr)
    (hts : a.machine.lastHandshakeTimestamp = none) (hnext : a.machine.next = none) :
    ∃ established, established.ourIndex = a.values.index ∧
      (a.turn (.actions [.recvHandshakeInit handshake endpoint])).machine.next
        = some (Session.new (ReceiverEstablished.finish (C := C) established) a.now) ∧
      (a.turn (.actions [.recvHandshakeInit handshake endpoint])).staged = a.staged ∧
      (a.turn (.actions [.recvHandshakeInit handshake endpoint])).env.clock = a.env.clock.tail := by
  obtain ⟨mac1, msg, h⟩ := Peer.respond_first a.now handshake a.values endpoint hts hnext
  have hrespond : a.tick.drawn.machine.respond a.now handshake a.tick.values endpoint
      (List.replicate respMsgLength 0) = _ := h
  refine ⟨⟨a.values.index, handshake.indexInitiator, (RespTranscript.ofResponder handshake
    a.values.ephemeralSecret a.machine.presharedKey).constr⟩, rfl, ?_⟩
  simp only [turn, handleActions, flushSends_nil, handleMessage, recvHandshakeInit, hrespond,
    retireIndex, bindIndex, send, sendSegments]
  cases a.tick.drawn.env.socketTakes.head <;> exact ⟨rfl, rfl, rfl⟩

/-- The first packet of a session confirms it. -/
theorem turn_confirming {a : Actor C} {x : Session C} {packet : Bytes} {counter : UInt64}
    {replay : ReplayFilter} (endpoint : SocketAddr) (hnext : a.machine.next = some x)
    (hlive : x.expired a.now = false) (hauth : x.transport.Authentic packet counter [])
    (hreplay : x.replay.validate counter = (true, replay)) (hstaged : a.staged = []) :
    (a.turn (.actions [.recvData packet x.ourIndex endpoint])).session
        = some (.new false a.now) ∧
      (a.turn (.actions [.recvData packet x.ourIndex endpoint])).machine.current
        = some { x with replay := replay } ∧
      (a.turn (.actions [.recvData packet x.ourIndex endpoint])).env.clock = a.env.clock.tail := by
  have hstep : a.machine.step (.decrypt a.now x.ourIndex packet endpoint) = _ :=
    Peer.step_decrypt_ok hnext hlive hauth hreplay
  rcases hdec : a.tick.machine.decrypt a.now x.ourIndex packet endpoint with
    ⟨e | ⟨recv, opened⟩, machine⟩
  · have hdec' : a.machine.decrypt a.now x.ourIndex packet endpoint = _ := hdec
    rw [Peer.step, hdec'] at hstep
    cases hstep
  · have hdec' : a.machine.decrypt a.now x.ourIndex packet endpoint = _ := hdec
    rw [Peer.step, hdec'] at hstep
    cases hstep
    simp only [turn, handleActions, flushSends_nil, handleMessage, recvData, hdec, recvDataOk]
    cases a.machine.previous <;>
      simp [sessionEstablished, flushStaged, hstaged, retireIndex, receivedBytes, tick,
        DriverSession.new, DriverSession.packetReceived, DriverSession.rekeyAfterReceive]

/-- An environment of `symbolic` whose clock reads `first` once, and `later`
from then on. -/
def twoReads (first later : Instant) : Env Crypto.symbolic where
  clock := Stream'.cons first (Stream'.const later)
  origin := default
  values := Stream'.const ⟨7, (3 : UInt8), Crypto.symbolicTime⟩
  wall := Stream'.const Crypto.symbolicTime
  rekeyJitter := Stream'.const default
  maxGsoSegments := Stream'.const 1
  socketTakes := Stream'.const true
  inboundTakes := Stream'.const true

/-- A new actor of `symbolic` in that environment. -/
def responder (first later : Instant) : Actor Crypto.symbolic :=
  spawn (1 : UInt8) (Crypto.symbolic.publicKey (2 : UInt8)) none none (twoReads first later)

/-- An initiation arrives, and then a packet on the session it started. -/
def confirming (handshake : InitReceived Crypto.symbolic) (packet : Bytes)
    (endpoint : SocketAddr) : List (Event Crypto.symbolic) :=
  [.actions [.recvHandshakeInit handshake endpoint], .actions [.recvData packet 7 endpoint]]

/-- An initiation for that actor. -/
theorem exists_initiation : ∃ initMsg handshake,
    InitReceived.receive (C := Crypto.symbolic) (1 : UInt8) initMsg = .ok handshake := by
  obtain ⟨sent, cookies, initMsg, handshake, -, -, hrecv, -, -, -, -⟩ :=
    honest_initiation Crypto.symbolic_correct (i := (2 : UInt8)) (r := (1 : UInt8))
      (e := (4 : UInt8)) 100 Crypto.symbolicTime
      (Generator.new _ (Crypto.symbolic.publicKey (1 : UInt8)))
      (List.replicate initMsgLength 0) rfl rfl (by rw [List.length_replicate])
  exact ⟨initMsg, handshake, InitReceived.receive_ok_iff.mpr hrecv⟩

/-- A keepalive sealed under the key of a new session. -/
theorem exists_first_packet (t : Transport Crypto.symbolic) (established : Instant) :
    ∃ packet replay, (Session.new t established).transport.Authentic packet 0 [] ∧
      (Session.new t established).replay.validate 0 = (true, replay) := by
  obtain ⟨replay, hreplay, -⟩ := (ReplayFilter.validate_spec ReplayFilter.accepted_new 0).1
    ⟨by decide, List.not_mem_nil, Nat.zero_le _⟩
  exact ⟨_, replay, Transport.authentic_dataWire Crypto.symbolic_correct.opened_sealed rfl rfl 0 [],
    hreplay⟩

/-- The responder's session starts for the machine with the first read of the
clock, and for the driver with the second. -/
theorem exists_confirming (first later : Instant) (endpoint : SocketAddr)
    (hlive : later.durationSince first < rejectAfterTime) :
    ∃ initMsg handshake packet s,
      InitReceived.receive (C := Crypto.symbolic) (1 : UInt8) initMsg = .ok handshake ∧
      ((responder first later).run (confirming handshake packet endpoint)).session
        = some (.new false later) ∧
      ((responder first later).run (confirming handshake packet endpoint)).machine.current
        = some s ∧
      s.established = first ∧ s.transport.sendCounter = 0 ∧
      ((responder first later).run (confirming handshake packet endpoint)).now = later := by
  obtain ⟨initMsg, handshake, hrecv⟩ := exists_initiation
  obtain ⟨established, hindex, hnext, hstaged, hclock⟩ :=
    exists_responded (a := responder first later) handshake endpoint rfl rfl
  have hnow : (Actor.turn (responder first later)
      (.actions [.recvHandshakeInit handshake endpoint])).now = later := by
    rw [now, hclock]
    rfl
  obtain ⟨packet, replay, hauth, hreplay⟩ := exists_first_packet established.finish
    (responder first later).now
  generalize hx : Session.new established.finish _ = x at hnext hauth hreplay
  have hour : x.ourIndex = 7 := by
    rw [← hx]
    exact hindex
  have hstart : x.established = first := by
    rw [← hx]
    rfl
  obtain ⟨hsession, hcurrent, hclock'⟩ := turn_confirming endpoint hnext
    (decide_eq_false (by rw [hnow, hstart]; exact not_le.mpr hlive)) hauth hreplay hstaged
  rw [hour] at hsession hcurrent hclock'
  have hrun : (responder first later).run (confirming handshake packet endpoint)
      = ((responder first later).turn (.actions [.recvHandshakeInit handshake endpoint])).turn
        (.actions [.recvData packet 7 endpoint]) := by
    rw [run, confirming, List.foldl_cons, List.foldl_cons, List.foldl_nil]
  refine ⟨initMsg, handshake, packet, { x with replay := replay }, hrecv, ?_, ?_, hstart, ?_, ?_⟩
  · rw [hrun, hsession, hnow]
  · rw [hrun, hcurrent]
  · rw [← hx]
    rfl
  · rw [hrun, now, hclock', hclock]
    rfl

/-- The clock at `n` seconds. -/
def seconds (n : ℕ) : Instant := ⟨Duration.fromSecs n⟩

theorem monotonic_twoReads {first later : Instant} (h : first ≤ later) :
    Monotonic (twoReads first later).clock := by
  intro n
  cases n with
  | zero => exact h
  | succ n => exact le_rfl

def anyEndpoint : SocketAddr := .v4 (List.Vector.replicate 4 0) 0

/-- Without timers nothing fires. -/
theorem onTime_of_actions {events : List (Event C)} (a : Actor C)
    (h : ∀ event ∈ events, ∃ batch, event = .actions batch) : a.OnTime events := by
  induction events generalizing a with
  | nil => trivial
  | cons event rest ih =>
      refine ⟨fun timer deadline htimer => ?_, ih _ fun e he => h e (List.mem_cons_of_mem _ he)⟩
      obtain ⟨batch, hbatch⟩ := h event List.mem_cons_self
      cases hbatch.symm.trans htimer

theorem onTime_confirming (a : Actor Crypto.symbolic) (handshake : InitReceived Crypto.symbolic)
    (packet : Bytes) (endpoint : SocketAddr) : a.OnTime (confirming handshake packet endpoint) := by
  refine onTime_of_actions a fun event hevent => ?_
  rcases List.mem_cons.mp hevent with rfl | hevent
  · exact ⟨_, rfl⟩
  · exact ⟨_, List.mem_singleton.mp hevent⟩

/-! ### Main results -/

/-- **Driver and machine never lose track of each other.**  After any events,
with a monotonic clock and timers that fire when they are due: a pending
handshake has an attempt with a retry timer, and a send session that could
still encrypt, now or later, has a session of the driver.  That session has
the right role, and starts with the machine's or, for a responder, after it. -/
theorem never_loses_track (ourKey : C.Secret) (publicKey : PublicKey)
    (presharedKey : Option PresharedKey) (persistentKeepalive : Option Duration) (env : Env C)
    (hclock : Monotonic env.clock) (events : List (Event C))
    (htime : (spawn ourKey publicKey presharedKey persistentKeepalive env).OnTime events) :
    let start := spawn ourKey publicKey presharedKey persistentKeepalive env
    let a := start.run events
    (a.machine.pending.isSome = true → a.handshake.isSome = true) ∧
    ∀ now s, a.now ≤ now → a.machine.current = some s → s.expired now = false →
      s.transport.sendCounter < rejectAfterMessages →
      ∃ d, a.session = some d ∧
        (d.initiator = true ↔ start.installer none events = some .response) ∧
        s.established ≤ d.established ∧ (d.initiator = true → s.established = d.established) := by
  intro start a
  have hstart : start.Mirrored none :=
    mirrored_spawn ourKey publicKey presharedKey persistentKeepalive hclock
  have h : a.Mirrored (start.installer none events) := hstart.run events
  have hwatchful : a.Watchful := by
    refine hstart.watchful_run (fun _ s hs => ?_) events htime
    cases hs
  refine ⟨h.sane.pending, fun now s hnow hs hlive hroom => ?_⟩
  cases hd : a.session with
  | none =>
      -- a machine that is blocked cannot encrypt
      rcases (hwatchful hd).mono hnow s hs with hexpired | hfull
      · cases hlive.symm.trans hexpired
      · exact absurd hroom (UInt64.not_lt.mpr hfull)
  | some d =>
      obtain ⟨s', hs', htwin⟩ := h.twinned d hd
      cases hs'.symm.trans hs
      exact ⟨d, rfl, htwin.initiator, htwin.le, htwin.eq⟩

theorem never_loses_track_confirming : ∃ handshake packet d,
    ((responder (seconds 0) (seconds 100)).run
        (confirming handshake packet anyEndpoint)).session = some d ∧
      seconds 0 ≤ d.established := by
  obtain ⟨initMsg, handshake, packet, s, -, -, hcurrent, hstart, hcounter, hnow⟩ :=
    exists_confirming (seconds 0) (seconds 100) anyEndpoint (by decide)
  unfold responder at hcurrent hnow ⊢
  obtain ⟨d, hd, -, hle, -⟩ := (never_loses_track (C := Crypto.symbolic) (1 : UInt8)
    (Crypto.symbolic.publicKey (2 : UInt8)) none none (twoReads (seconds 0) (seconds 100))
    (monotonic_twoReads (by decide)) (confirming handshake packet anyEndpoint)
    (onTime_confirming _ handshake packet anyEndpoint)).2 (seconds 100) s hnow.le hcurrent
    (decide_eq_false (by rw [hstart]; decide)) (by rw [hcounter]; decide)
  exact ⟨handshake, packet, d, hd, hstart ▸ hle⟩

/-- **What the driver believes in.**  A session that the driver takes to be
usable is the machine's send session.  As the initiator's it has not expired.
As the responder's it may have: its start is for the driver the first packet
and for the machine the response, which are less than Reject-After-Time
apart. -/
theorem usable_session_known (ourKey : C.Secret) (publicKey : PublicKey)
    (presharedKey : Option PresharedKey) (persistentKeepalive : Option Duration) (env : Env C)
    (hclock : Monotonic env.clock) (events : List (Event C)) (d : DriverSession) (now : Instant)
    (hsession : ((spawn ourKey publicKey presharedKey persistentKeepalive env).run events).session
      = some d) (husable : d.usable now = true) :
    ∃ s, ((spawn ourKey publicKey presharedKey persistentKeepalive env).run
        events).machine.current = some s ∧
      (d.initiator = true → s.expired now = false ∧
        d.expiresAt = s.established + rejectAfterTime) ∧
      (d.initiator = false → s.established ≤ d.established ∧
        d.established.durationSince s.established < rejectAfterTime) := by
  have h := (mirrored_spawn ourKey publicKey presharedKey persistentKeepalive hclock).run events
  obtain ⟨s, hs, htwin⟩ := h.twinned d hsession
  refine ⟨s, hs, fun hinit => ?_, fun _ => ⟨htwin.le, htwin.alive⟩⟩
  have hstart : s.established = d.established := htwin.eq hinit
  refine ⟨decide_eq_false ?_, by rw [hstart]; rfl⟩
  have hpos : 0 < rejectAfterTime.nanos := by decide
  have hlt := Instant.lt_iff.mp (of_decide_eq_true husable)
  rw [DriverSession.expiresAt, Instant.nanos_add] at hlt
  rw [hstart, Duration.le_iff, Instant.nanos_durationSince]
  omega

theorem usable_session_known_confirming : ∃ handshake packet s,
    ((responder (seconds 0) (seconds 100)).run
        (confirming handshake packet anyEndpoint)).machine.current = some s ∧
      (seconds 100).durationSince s.established < rejectAfterTime := by
  obtain ⟨initMsg, handshake, packet, -, -, hsession, -⟩ :=
    exists_confirming (seconds 0) (seconds 100) anyEndpoint (by decide)
  unfold responder at hsession ⊢
  obtain ⟨s, hs, -, hresp⟩ := usable_session_known (C := Crypto.symbolic) (1 : UInt8)
    (Crypto.symbolic.publicKey (2 : UInt8)) none none (twoReads (seconds 0) (seconds 100))
    (monotonic_twoReads (by decide)) (confirming handshake packet anyEndpoint)
    (.new false (seconds 100)) (seconds 150) hsession (by decide)
  exact ⟨handshake, packet, s, hs, (hresp rfl).2⟩

/-- The first packet arrives 100 s after the response.  At 200 s the driver
takes the session to be usable, which the machine has rejected for 20 s. -/
theorem usable_after_expiry : ∃ initMsg handshake packet d s,
    InitReceived.receive (C := Crypto.symbolic) (1 : UInt8) initMsg = .ok handshake ∧
    Monotonic (twoReads (seconds 0) (seconds 100)).clock ∧
    ((responder (seconds 0) (seconds 100)).run
      (confirming handshake packet anyEndpoint)).session = some d ∧
    d.usable (seconds 200) = true ∧
    ((responder (seconds 0) (seconds 100)).run
      (confirming handshake packet anyEndpoint)).machine.current = some s ∧
    s.expired (seconds 200) = true := by
  obtain ⟨initMsg, handshake, packet, s, hrecv, hsession, hcurrent, hstart, -, -⟩ :=
    exists_confirming (seconds 0) (seconds 100) anyEndpoint (by decide)
  refine ⟨initMsg, handshake, packet, _, s, hrecv, monotonic_twoReads (by decide), hsession,
    by decide, hcurrent, decide_eq_true ?_⟩
  rw [hstart]
  decide

end Actor

end Tunstile
