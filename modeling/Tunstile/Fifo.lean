/-
Tunstile/Fifo.lean

An actor sends its payloads in the order in which it accepted them.

Payloads are staged only while the machine is blocked, and every event that
gives the machine a new send session flushes the queue before anything else
is sent.  So the oldest payload without a fate is always the next to get
one, and the ledger of fates followed by the queue is the list of accepted
payloads (`Accounts.ledger_eq`).  `Settled` adds what must hold between two
events for that to go on: staged payloads wait for a blocked machine.
-/
import Tunstile.Staging

namespace Tunstile

variable {C : Crypto}

namespace Actor

/-! ### The account of every payload -/

/-- Why a payload may be dropped: it was the oldest of a full queue, or its
handshake was tried for too long. -/
def Caused : Bytes × Fate → Prop
  | (_, .encrypted) => True
  | (payload, .overflowed queue) =>
      queue.length = maxStagedPackets ∧ queue.head? = some payload
  | (_, .abandoned attempt now) => rekeyAttemptTime ≤ now.durationSince attempt.firstSent

/-- Every accepted payload has a fate or is staged, oldest first. -/
structure Accounts (arrivals : List Bytes) (a : Actor C) : Prop where
  ledger_eq : a.ledger.map Prod.fst ++ a.staged = arrivals
  encrypted_eq : a.encryptedPayloads = (a.ledger.filter fun x => x.2 = .encrypted).map Prod.fst
  bounded : a.staged.length ≤ maxStagedPackets
  caused : ∀ x ∈ a.ledger, Caused x
  healthy : a.machine.Healthy
  clock : Monotonic a.env.clock

/-- What holds between two events: payloads wait only for a machine that
cannot encrypt. -/
structure Settled (arrivals : List Bytes) (a : Actor C) : Prop extends Accounts arrivals a where
  waiting : a.staged ≠ [] → a.machine.Blocked a.now

theorem Accounts.idle {arrivals : List Bytes} {a a' : Actor C} (h : Accounts arrivals a)
    (hidle : Idle a a') : Accounts arrivals a' where
  ledger_eq := by rw [hidle.ledger, hidle.staged, h.ledger_eq]
  encrypted_eq := by rw [hidle.encrypted, hidle.ledger, h.encrypted_eq]
  bounded := hidle.staged ▸ h.bounded
  caused := hidle.ledger ▸ h.caused
  healthy := (hidle.machine h.healthy).1
  clock := (hidle.clock h.clock).1

theorem Settled.idle {arrivals : List Bytes} {a a' : Actor C} (h : Settled arrivals a)
    (hidle : Idle a a') : Settled arrivals a' where
  toAccounts := h.toAccounts.idle hidle
  waiting hne := by
    have hblocked := h.waiting (hidle.staged ▸ hne)
    exact ((hidle.machine h.healthy).2 hblocked).mono (hidle.clock h.clock).2

/-- With nothing staged there is nothing to wait for. -/
theorem Accounts.settled_of_nil {arrivals : List Bytes} {a : Actor C} (h : Accounts arrivals a)
    (hnil : a.staged = []) : Settled arrivals a :=
  ⟨h, fun hne => absurd hnil hne⟩

/-! ### One step of the queue -/

/-- Payloads encrypted past the queue: either the queue is empty, or the
machine is blocked and there are none. -/
theorem Settled.encrypts {arrivals done : List Bytes} {a a' : Actor C} (h : Settled arrivals a)
    (henc : Encrypts a.now done a a') : Settled (arrivals ++ done) a' := by
  obtain ⟨hmachine, hkept⟩ := henc.machine h.healthy
  have horder : done = [] ∨ a.staged = [] := by
    by_cases hne : a.staged = []
    · exact Or.inr hne
    · exact Or.inl (henc.blocked h.healthy (h.waiting hne))
  refine { ledger_eq := ?_, encrypted_eq := ?_, bounded := henc.staged ▸ h.bounded, caused := ?_,
           healthy := hmachine, clock := (henc.clock h.clock).1, waiting := ?_ }
  · have hfst : (done.map fun payload => (payload, Fate.encrypted)).map Prod.fst = done := by
      rw [List.map_map]
      exact List.map_id done
    rw [henc.ledger, henc.staged, List.map_append, hfst, ← h.ledger_eq]
    rcases horder with rfl | hnil
    · simp only [List.append_nil]
    · simp only [hnil, List.append_nil]
  · rw [henc.encrypted, henc.ledger, h.encrypted_eq, List.filter_append, List.map_append]
    simp [List.filter_map, Function.comp_def]
  · intro x hx
    rw [henc.ledger] at hx
    rcases List.mem_append.mp hx with hold | hnew
    · exact h.caused x hold
    · obtain ⟨payload, -, rfl⟩ := List.mem_map.mp hnew
      trivial
  · intro hne
    exact (hkept (h.waiting (henc.staged ▸ hne))).mono (henc.clock h.clock).2

/-- Staging a payload drops at most the oldest one, of a full queue. -/
theorem Accounts.stageOne {arrivals : List Bytes} {a : Actor C} (h : Accounts arrivals a)
    (payload : Bytes) : Accounts (arrivals ++ [payload]) (a.stageOne payload) := by
  have hledger := h.ledger_eq
  unfold Actor.stageOne
  split
  · rename_i hfull
    obtain ⟨oldest, rest, hstaged⟩ : ∃ oldest rest, a.staged = oldest :: rest :=
      List.exists_cons_of_length_pos (hfull ▸ by decide)
    have hlen : rest.length + 1 = maxStagedPackets := by rw [← hfull, hstaged, List.length_cons]
    refine { ledger_eq := ?_, encrypted_eq := ?_, bounded := ?_, caused := ?_,
             healthy := h.healthy, clock := h.clock }
    · rw [← hledger, hstaged]
      simp
    · show a.encryptedPayloads = _
      rw [h.encrypted_eq, hstaged]
      simp
    · simp only [hstaged, List.tail_cons, List.length_append, List.length_singleton]
      exact hlen.le
    · intro x hx
      rcases List.mem_append.mp hx with hold | hnew
      · exact h.caused x hold
      · rw [hstaged] at hnew
        cases List.mem_singleton.mp hnew
        exact ⟨hstaged ▸ hfull, rfl⟩
  · rename_i hroom
    refine { ledger_eq := ?_, encrypted_eq := h.encrypted_eq, bounded := ?_, caused := h.caused,
             healthy := h.healthy, clock := h.clock }
    · rw [← hledger, List.append_assoc]
    · rw [List.length_append, List.length_singleton]
      exact Nat.lt_of_le_of_ne h.bounded hroom

theorem stageOne_machine (a : Actor C) (payload : Bytes) :
    (a.stageOne payload).machine = a.machine ∧ (a.stageOne payload).env = a.env := by
  unfold Actor.stageOne
  split <;> exact ⟨rfl, rfl⟩

theorem Accounts.stage {arrivals : List Bytes} {a : Actor C} (h : Accounts arrivals a)
    (payloads : List Bytes) :
    Accounts (arrivals ++ payloads) (a.stage payloads) ∧
      (a.stage payloads).machine = a.machine ∧ (a.stage payloads).env = a.env := by
  induction payloads generalizing arrivals a with
  | nil => exact ⟨(List.append_nil arrivals).symm ▸ h, rfl, rfl⟩
  | cons payload rest ih =>
      obtain ⟨hrest, hmachine, henv⟩ := ih (h.stageOne payload)
      rw [List.append_assoc] at hrest
      obtain ⟨hm, he⟩ := a.stageOne_machine payload
      exact ⟨hrest, hmachine.trans hm, henv.trans he⟩

/-! ### Flushing -/

/-- **Flushing keeps the order.**  The payloads follow those already
accepted, whether they are encrypted, staged, or some of each. -/
theorem Settled.flushSends {arrivals : List Bytes} {a : Actor C} (h : Settled arrivals a)
    (payloads : List Bytes) : Settled (arrivals ++ payloads) (a.flushSends payloads) := by
  unfold Actor.flushSends
  split
  · rename_i hnil
    rw [hnil, List.append_nil]
    exact h
  extract_lets now a₁ gsoSegments env a₂ p a₃ rekey a₄
  have hread : Idle a a₂ := a.idle_tick.trans (.of_eq rfl ⟨rfl, rfl, rfl, rfl⟩)
  obtain ⟨done, hsplit, henc, hblocked⟩ :=
    sendBatches_encrypts now gsoSegments (hread.machine h.healthy).1 payloads false false
  have hdone : Settled (arrivals ++ done) a₃ := h.encrypts ((Encrypts.of_idle hread).trans henc)
  split
  · -- a payload failed, so the machine is blocked and the rest may wait
    rename_i hrest
    have hreset : Idle a₃ { a₃ with session := none } := .of_eq rfl ⟨rfl, rfl, rfl, rfl⟩
    obtain ⟨hstaged, hmachine, henv⟩ := (hdone.idle hreset).toAccounts.stage p.rest
    rw [List.append_assoc, ← hsplit] at hstaged
    refine Settled.idle ⟨hstaged, fun _ => ?_⟩ (idle_kept.ensureHandshake _)
    have hnow := ((hread.clock h.clock).2.trans (henc.clock (hread.clock h.clock).1).2)
    rw [hmachine, Actor.now, henv]
    exact (hblocked hrest).mono hnow
  · rename_i hrest
    rw [hsplit, not_not.mp hrest, List.append_nil]
    split
    · have hsent : Idle a₃ a₄ := .of_eq rfl ⟨rfl, rfl, rfl, rfl⟩
      split
      · exact hdone.idle (hsent.trans (idle_kept.rekey a₄ now rekey))
      · extract_lets session a₅ rekey'
        have htimer : Idle a₄ a₅ := .of_eq rfl ⟨rfl, rfl, rfl, rfl⟩
        exact hdone.idle ((hsent.trans htimer).trans (idle_kept.rekey a₅ now rekey'))
    · exact hdone.idle (idle_kept.rekey a₃ now rekey)

/-- Flushing the queue settles it, whatever the machine can do. -/
theorem Accounts.flushStaged {arrivals : List Bytes} {a : Actor C} (h : Accounts arrivals a) :
    Settled arrivals a.flushStaged := by
  unfold Actor.flushStaged
  split
  · rename_i hnil
    exact h.settled_of_nil hnil
  · have hempty : Accounts (a.ledger.map Prod.fst) { a with staged := [] } :=
      { ledger_eq := List.append_nil _
        encrypted_eq := h.encrypted_eq
        bounded := Nat.zero_le _
        caused := h.caused
        healthy := h.healthy
        clock := h.clock }
    rw [← h.ledger_eq]
    exact (hempty.settled_of_nil rfl).flushSends a.staged

theorem Accounts.sessionEstablished {arrivals : List Bytes} {a : Actor C}
    (h : Accounts arrivals a) (initiator : Bool) :
    Settled arrivals (a.sessionEstablished initiator) := by
  unfold Actor.sessionEstablished
  extract_lets hadStaged a₁ a₂
  have hkeepalive : Idle a₁ a₂ := by
    show Idle a₁ (if initiator && !hadStaged then a₁.sendKeepalive else a₁)
    split
    · exact idle_kept.sendKeepalive a₁
    · exact .refl a₁
  exact h.flushStaged.idle (hkeepalive.trans (.of_eq rfl ⟨rfl, rfl, rfl, rfl⟩))

/-! ### One event -/

/-- An authenticated data message.  If it confirmed a session, the machine
may have become free with payloads still staged; they are flushed. -/
theorem Accounts.recvDataOk {arrivals : List Bytes} {a : Actor C} (h : Accounts arrivals a)
    (now : Instant) (endpoint : SocketAddr) (rxBytes : ℕ) {recv : Recv} (data : Bytes)
    (hwaiting : recv.confirmed = false → Settled arrivals a) :
    Settled arrivals (a.recvDataOk now endpoint rxBytes recv data) := by
  unfold Actor.recvDataOk
  extract_lets payload a₁ a₂ a₃ rekey a₄ a₅
  have hroute : Idle a a₁ :=
    (a.idle_retireIndex recv.unmapped).trans (.of_eq rfl ⟨rfl, rfl, rfl, rfl⟩)
  have hsession : Idle a₁ a₃ := by
    have hnew : Idle a₁ a₂ := by
      show Idle a₁ (if recv.confirmed then { a₁ with session := some (.new false now) } else a₁)
      split
      · exact .of_eq rfl ⟨rfl, rfl, rfl, rfl⟩
      · exact .refl a₁
    exact hnew.trans (.of_eq rfl ⟨rfl, rfl, rfl, rfl⟩)
  have hdeliver : Idle a₃ a₄ := by
    clear_value payload
    cases payload with
    | none => exact .refl _
    | some payload => exact .of_eq rfl ⟨rfl, rfl, rfl, rfl⟩
  have hidle : Idle a a₄ := (hroute.trans hsession).trans hdeliver
  have hsettled : Settled arrivals a₅ := by
    show Settled arrivals (if recv.confirmed then a₄.sessionEstablished false else a₄)
    split
    · exact (h.idle hidle).sessionEstablished false
    · rename_i hconf
      exact (hwaiting (Bool.eq_false_iff.mpr hconf)).idle hidle
  split
  · exact hsettled.idle (idle_kept.ensureHandshake a₅)
  · exact hsettled

/-- A change of the machine that may free it. -/
theorem Accounts.of_healthy {arrivals : List Bytes} {a : Actor C} (h : Accounts arrivals a)
    {machine : Peer C} (hp : machine.Healthy) : Accounts arrivals { a with machine := machine } :=
  { h with healthy := hp }

theorem Settled.recvData {arrivals : List Bytes} {a : Actor C} (h : Settled arrivals a)
    (now : Instant) (data : Bytes) (receiver : UInt32) (endpoint : SocketAddr) :
    Settled arrivals (a.recvData now data receiver endpoint) := by
  unfold Actor.recvData
  split
  · rename_i heq
    exact h.idle (.of_steady (Peer.steady_decrypt heq nofun) ⟨rfl, rfl, rfl, rfl⟩)
  · rename_i recv opened machine heq
    have hp : machine.Healthy := Peer.healthy_decrypt h.healthy heq
    refine (h.toAccounts.of_healthy hp).recvDataOk _ _ _ _ fun hconf => ?_
    refine h.idle (.of_steady (Peer.steady_decrypt heq ?_) ⟨rfl, rfl, rfl, rfl⟩)
    rintro recv' opened' ⟨⟩
    exact hconf

theorem Settled.recvHandshakeResp {arrivals : List Bytes} {a : Actor C} (h : Settled arrivals a)
    (now : Instant) (resp : Bytes) (endpoint : SocketAddr) :
    Settled arrivals (a.recvHandshakeResp now resp endpoint) := by
  unfold Actor.recvHandshakeResp
  split
  · rename_i heq
    exact h.idle (.of_steady (Peer.steady_handshakeResponse_error heq) ⟨rfl, rfl, rfl, rfl⟩)
  · rename_i retired machine heq
    extract_lets a₁ a₂ a₃
    have hp : machine.Healthy := Peer.healthy_handshakeResponse h.healthy heq
    have hroute : Idle a₁ a₃ :=
      (a₁.idle_retireIndex retired).trans (.of_eq rfl ⟨rfl, rfl, rfl, rfl⟩)
    have hrecv : Idle a₁ (a₃.receivedBytes endpoint resp.length) :=
      hroute.trans (.of_eq rfl ⟨rfl, rfl, rfl, rfl⟩)
    exact ((h.toAccounts.of_healthy hp).idle hrecv).sessionEstablished true

/-- The payloads among some actions, in order. -/
def payloadsOf (actions : List (PeerAction C)) : List Bytes :=
  actions.filterMap fun
    | .sendData payload => some payload
    | _ => none

theorem Settled.handleMessage {arrivals : List Bytes} {a : Actor C} (h : Settled arrivals a)
    (action : PeerAction C) :
    Settled (arrivals ++ payloadsOf [action]) (a.handleMessage action) := by
  have htick : Settled arrivals a.tick := h.idle a.idle_tick
  have hnone {a' : Actor C} (h' : Settled arrivals a') : Settled (arrivals ++ []) a' :=
    (List.append_nil arrivals).symm ▸ h'
  cases action with
  | sendData payload => exact htick.flushSends [payload]
  | connect endpoint =>
      exact hnone (htick.idle
        ((idle_kept.setEndpoint _ endpoint).trans (idle_kept.ensureHandshake _)))
  | update update => exact hnone (htick.idle (idle_kept.applyUpdate _ update))
  | recvData data receiver endpoint => exact hnone (htick.recvData _ data receiver endpoint)
  | recvHandshakeInit handshake endpoint =>
      exact hnone (htick.idle (idle_kept.recvHandshakeInit (h.clock 0) handshake endpoint))
  | recvHandshakeResp resp endpoint => exact hnone (htick.recvHandshakeResp _ resp endpoint)
  | recvCookieReply reply =>
      exact hnone (htick.idle (idle_kept.recvCookieReply _ reply))

/-- **A timer.**  Only an abandoned handshake takes payloads from the queue,
and it takes all of them. -/
theorem Settled.handshakeDue {arrivals : List Bytes} {a : Actor C} (h : Settled arrivals a) :
    Settled arrivals a.handshakeDue := by
  unfold Actor.handshakeDue
  split
  · exact h
  · rename_i attempt _
    extract_lets now a₁ a₂
    have htick : Settled arrivals a₁ := h.idle a.idle_tick
    split
    · rename_i hlate
      have hdropped : Accounts arrivals a₂ :=
        { ledger_eq := by
            rw [← htick.ledger_eq]
            simp [a₂, Function.comp_def]
          encrypted_eq := by
            show a₁.encryptedPayloads = _
            rw [htick.encrypted_eq]
            simp [a₂, List.filter_map, Function.comp_def]
          bounded := Nat.zero_le _
          caused := by
            intro x hx
            rcases List.mem_append.mp hx with hold | hnew
            · exact htick.caused x hold
            · obtain ⟨payload, -, rfl⟩ := List.mem_map.mp hnew
              exact hlate
          healthy := htick.healthy
          clock := htick.clock }
      have hgiven : Idle a₂ { a₂ with machine := a₂.machine.abandonHandshake.2 } :=
        .of_steady (a₂.machine.steady_step .abandonHandshake rfl) ⟨rfl, rfl, rfl, rfl⟩
      exact (hdropped.settled_of_nil rfl).idle (hgiven.trans (idle_retireIndex _ _))
    · exact htick.idle (idle_kept.sendHandshake a₁ _)

theorem Settled.fire {arrivals : List Bytes} {a : Actor C} (h : Settled arrivals a)
    (timer : Timer) : Settled arrivals (a.fire timer) := by
  cases timer with
  | handshake => exact h.handshakeDue
  | expiry => exact h.idle (.of_eq rfl ⟨rfl, rfl, rfl, rfl⟩)
  | keepalive => exact h.idle (idle_kept.sendKeepalive a)
  | newHandshake => exact h.idle (idle_kept.newHandshakeDue a)
  | persistentKeepalive => exact h.idle (idle_kept.persistentKeepaliveDue a)

/-! ### Whole runs -/

/-- The payloads collected so far go out, or into the queue, before any
action that follows them. -/
theorem Settled.handleActions {arrivals : List Bytes} {a : Actor C} (h : Settled arrivals a)
    (payloads : List Bytes) (actions : List (PeerAction C)) :
    Settled (arrivals ++ payloads ++ payloadsOf actions) (a.handleActions payloads actions) := by
  induction actions generalizing arrivals a payloads with
  | nil =>
      rw [show payloadsOf ([] : List (PeerAction C)) = [] from rfl, List.append_nil]
      exact h.flushSends payloads
  | cons action rest ih =>
      have hother (hpay : payloadsOf [action] = []) :
          Settled (arrivals ++ payloads ++ payloadsOf rest)
            (((a.flushSends payloads).handleMessage action).handleActions [] rest) := by
        have hmsg := (h.flushSends payloads).handleMessage action
        rw [hpay, List.append_nil] at hmsg
        have hrest := ih hmsg []
        rwa [List.append_nil] at hrest
      cases action with
      | sendData payload =>
          have hrest := ih h (payloads ++ [payload])
          rw [← List.append_assoc arrivals, List.append_assoc _ [payload]] at hrest
          exact hrest
      | _ => exact hother rfl

/-- The payloads an event brings. -/
def Event.payloads : Event C → List Bytes
  | .actions batch => payloadsOf batch
  | .timer _ => []

/-- The payloads of a sequence of events, in the order of their arrival. -/
def arrivals (events : List (Event C)) : List Bytes := events.flatMap Event.payloads

theorem Settled.turn {sofar : List Bytes} {a : Actor C} (h : Settled sofar a) (event : Event C) :
    Settled (sofar ++ event.payloads) (a.turn event) := by
  cases event with
  | actions batch =>
      have hbatch := h.handleActions [] batch
      rwa [List.append_nil] at hbatch
  | timer timer =>
      rw [show (Event.timer timer : Event C).payloads = [] from rfl, List.append_nil]
      show Settled sofar (if (a.deadline timer).isSome then a.fire timer else a)
      split
      · exact h.fire timer
      · exact h

theorem Settled.run {sofar : List Bytes} {a : Actor C} (h : Settled sofar a)
    (events : List (Event C)) : Settled (sofar ++ arrivals events) (a.run events) := by
  induction events generalizing sofar a with
  | nil => exact (List.append_nil sofar).symm ▸ h
  | cons event rest ih =>
      have hrest := ih (h.turn event)
      rwa [List.append_assoc] at hrest

theorem settled_spawn (ourKey : C.Secret) (publicKey : PublicKey)
    (presharedKey : Option PresharedKey) (persistentKeepalive : Option Duration) {env : Env C}
    (hclock : Monotonic env.clock) :
    Settled [] (spawn ourKey publicKey presharedKey persistentKeepalive env) where
  ledger_eq := rfl
  encrypted_eq := rfl
  bounded := Nat.zero_le _
  caused := nofun
  healthy := Peer.healthy_new publicKey presharedKey
  clock := hclock
  waiting := fun hne => absurd rfl hne

/-- **Sending is first in, first out.**  After any events, the payloads
encrypted so far are a subsequence of those that arrived.  Position by
position, what arrived is what already has its one fate, followed by the
queue; so no payload is encrypted twice, and one is dropped only from the
front of a full queue or with an abandoned handshake. -/
theorem fifo_sending (ourKey : C.Secret) (publicKey : PublicKey)
    (presharedKey : Option PresharedKey) (persistentKeepalive : Option Duration) (env : Env C)
    (hclock : Monotonic env.clock) (events : List (Event C)) :
    let a := (spawn ourKey publicKey presharedKey persistentKeepalive env).run events
    a.encryptedPayloads.Sublist (arrivals events) ∧
    a.ledger.map Prod.fst ++ a.staged = arrivals events ∧
    a.encryptedPayloads = (a.ledger.filter fun x => x.2 = .encrypted).map Prod.fst ∧
    a.staged.length ≤ maxStagedPackets ∧
    ∀ x ∈ a.ledger, Caused x := by
  intro a
  have h : Settled (arrivals events) a :=
    (settled_spawn ourKey publicKey presharedKey persistentKeepalive hclock).run events
  refine ⟨?_, h.ledger_eq, h.encrypted_eq, h.bounded, h.caused⟩
  rw [h.encrypted_eq, ← h.ledger_eq]
  exact (List.filter_sublist.map Prod.fst).trans (List.sublist_append_left _ _)

/-- An environment of `symbolic` in which no time passes. -/
def symbolicEnv : Env Crypto.symbolic where
  clock := Stream'.const default
  origin := default
  values := Stream'.const ⟨7, (3 : UInt8), Crypto.symbolicTime⟩
  wall := Stream'.const Crypto.symbolicTime
  rekeyJitter := Stream'.const default
  maxGsoSegments := Stream'.const 1
  socketTakes := Stream'.const true
  inboundTakes := Stream'.const true

/-- A new actor of `symbolic`, which has no session yet. -/
def symbolicActor : Actor Crypto.symbolic :=
  spawn (1 : UInt8) (Crypto.symbolic.publicKey (2 : UInt8)) none none symbolicEnv

/-- Two payloads for a peer without a session wait in their order. -/
theorem fifo_sending_staged :
    (symbolicActor.run [.actions [.sendData [1], .sendData [2]]]).staged = [[1], [2]] ∧
      (symbolicActor.run [.actions [.sendData [1], .sendData [2]]]).ledger.map Prod.fst ++
        (symbolicActor.run [.actions [.sendData [1], .sendData [2]]]).staged = [[1], [2]] := by
  refine ⟨?_, (fifo_sending (C := Crypto.symbolic) (1 : UInt8)
    (Crypto.symbolic.publicKey (2 : UInt8)) none none symbolicEnv (fun _ => le_rfl)
    [.actions [.sendData [1], .sendData [2]]]).2.1⟩
  simp only [run, List.foldl, turn, handleActions, List.nil_append, List.cons_append, flushSends]
  rw [sendBatches]
  rfl

end Actor

end Tunstile
