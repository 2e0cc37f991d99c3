/-
Tunstile/Rekeying.lean

A rekey that is due is never missed.

Three things call for a new handshake: the send counter reached
Rekey-After-Messages, data was sent on a session of ours older than
Rekey-After-Time, or received on one older than the limit for receiving.
Each is looked for in the operations that can bring it about: `flush_sends`,
`send_keepalive` and the arrival of data.  Whatever way these end, an attempt
is in progress then (`rekey_never_missed`).

A packet that confirms a session replaces the driver's session by the new
one, for which nothing is due yet: the age of the old one does not count any
more (`confirmed_without_rekey`).
-/
import Tunstile.Moves
import Tunstile.Tracking

namespace Tunstile

variable {C : Crypto}

/-- The send counter of the current session is at its limit. -/
def Peer.CounterDue (p : Peer C) : Prop :=
  ∃ s, p.current = some s ∧ rekeyAfterMessages ≤ s.transport.sendCounter

theorem Peer.CounterDue.rekeyDue {p : Peer C} (h : p.CounterDue) : p.rekeyDueToMessages = true := by
  obtain ⟨s, hs, hle⟩ := h
  rw [Peer.rekeyDueToMessages, hs]
  exact decide_eq_true hle

theorem Peer.CounterDue.congr {p q : Peer C} (h : p.CounterDue) (hq : p.current = q.current) :
    q.CounterDue := by
  obtain ⟨s, hs, hle⟩ := h
  exact ⟨s, hq.symm.trans hs, hle⟩

/-- A packet that authenticates sets the endpoint. -/
theorem Peer.endpoint_decrypt {p p' : Peer C} {now : Instant} {receiver : UInt32} {packet : Bytes}
    {source : SocketAddr} {recv : Recv} {opened : Bytes}
    (h : p.decrypt now receiver packet source = (.ok (recv, opened), p')) :
    p'.endpoint = some source := by
  unfold Peer.decrypt at h
  split at h
  · cases h
  split at h
  · cases h
  split at h
  · cases h
  · dsimp only at h
    split at h <;> cases h <;> rfl

namespace Actor

/-! ### What was encrypted and sent -/

theorem length_sealed_encryptBatch (now : Instant) (segmentSize : ℕ) (a : Actor C)
    (payloads : List Bytes) :
    (encryptBatch now segmentSize a payloads).actor.sealed.length
      = a.sealed.length + (encryptBatch now segmentSize a payloads).encrypted := by
  induction payloads generalizing a with
  | nil => rfl
  | cons payload rest ih =>
      rw [encryptBatch]
      split
      · rfl
      · rename_i machine buf _
        dsimp only
        rw [ih, List.length_append, List.length_singleton]
        omega

theorem sealed_batchSend (b : Batch C) (segmentSize : ℕ) :
    (b.send segmentSize).2.sealed = b.actor.sealed := by
  unfold Batch.send sendSegments
  split
  · split
    · rfl
    · dsimp only
      cases b.actor.env.socketTakes.head <;> rfl
  · rfl

/-- The sending loop reports whether it encrypted anything. -/
theorem encryptedAny_sendBatches (now : Instant) (gsoSegments : ℕ) (a : Actor C)
    (payloads : List Bytes) (sent encryptedAny : Bool) :
    let p := a.sendBatches now gsoSegments payloads sent encryptedAny
    a.sealed.length ≤ p.actor.sealed.length ∧
      (a.sealed.length < p.actor.sealed.length → p.encryptedAny = true) ∧
      (encryptedAny = true → p.encryptedAny = true) := by
  fun_induction sendBatches now gsoSegments a payloads sent encryptedAny with
  | case1 a sent encryptedAny => exact ⟨le_rfl, fun h => absurd h (lt_irrefl _), id⟩
  | case2 a sent encryptedAny payload rest segmentSize maxSegments n batch left sent' any' hstall =>
      have hlen := length_sealed_encryptBatch now segmentSize a ((payload :: rest).take n)
      dsimp only
      rw [sealed_batchSend]
      refine ⟨hlen ▸ Nat.le_add_right _ _, fun hlt => ?_, fun h => ?_⟩
      · have hpos : 0 < batch.encrypted := by
          rw [hlen] at hlt
          exact Nat.pos_of_lt_add_right hlt
        exact Bool.or_eq_true_iff.mpr (Or.inr (decide_eq_true hpos))
      · exact Bool.or_eq_true_iff.mpr (Or.inl h)
  | case3 a sent encryptedAny payload rest segmentSize maxSegments n batch left sent' any' hgo ih =>
      have hlen := length_sealed_encryptBatch now segmentSize a ((payload :: rest).take n)
      obtain ⟨hle, hlt, hkeep⟩ := ih
      dsimp only at hle hlt hkeep ⊢
      rw [sealed_batchSend] at hle hlt
      refine ⟨(hlen ▸ Nat.le_add_right _ _ : a.sealed.length ≤ batch.actor.sealed.length).trans hle,
        fun h => ?_, fun h => hkeep (Bool.or_eq_true_iff.mpr (Or.inl h))⟩
      -- something new was encrypted in this batch, or in a later one
      rcases Nat.eq_zero_or_pos batch.encrypted with hzero | hpos
      · refine hlt ?_
        have hsame : batch.actor.sealed.length = a.sealed.length :=
          hlen.trans (by rw [hzero, Nat.add_zero])
        rwa [hsame]
      · exact hkeep (Bool.or_eq_true_iff.mpr (Or.inr (decide_eq_true hpos)))

/-- Between `a` and `a'` a data message was sent, and the socket took it. -/
def DataTaken (a a' : Actor C) : Prop :=
  ∃ new, a'.datagrams = a.datagrams ++ new ∧
    ∃ d ∈ new, typeByte d.bytes = MessageType.data.toByte ∧ d.taken = true

theorem not_dataTaken {a a' : Actor C} (h : a'.datagrams = a.datagrams) : ¬ DataTaken a a' := by
  rintro ⟨new, hnew, d, hd, -⟩
  rw [h] at hnew
  rw [List.self_eq_append_right.mp hnew] at hd
  cases hd

/-- What was taken is not among the initiations that were sent as well. -/
theorem DataTaken.exists_taken {a a' : Actor C} {new initiations : List Datagrams}
    (h : DataTaken a a') (hall : a'.datagrams = a.datagrams ++ new ++ initiations)
    (hinits : ∀ d ∈ initiations, HasType .handshakeInit d.bytes) : ∃ d ∈ new, d.taken = true := by
  obtain ⟨sent, hsent, d, hd, htype, htaken⟩ := h
  have hlist : sent = new ++ initiations := by
    rw [hsent, List.append_assoc] at hall
    exact List.append_cancel_left hall
  rcases List.mem_append.mp (hlist ▸ hd) with hd | hd
  · exact ⟨d, hd, htaken⟩
  · cases htype.symm.trans (hinits d hd).type_eq

/-- The driver's session is one of ours, and at least `age` old. -/
def InitiatorFor (a : Actor C) (age : Duration) : Prop :=
  ∃ s, a.session = some s ∧ s.initiator = true ∧ age ≤ a.now.durationSince s.established

theorem InitiatorFor.rekeyAfterSend {a : Actor C} (h : a.InitiatorFor rekeyAfterTime) :
    (a.session.any fun s => s.rekeyAfterSend a.now) = true := by
  obtain ⟨s, hs, hinit, hold⟩ := h
  rw [hs, Option.any_some]
  exact Bool.and_eq_true_iff.mpr ⟨hinit, decide_eq_true hold⟩

/-! ### Sending -/

/-- What `flush_sends` leaves as its sending loop did. -/
theorem flushSends_frame (a : Actor C) (payloads : List Bytes) :
    (a.flushSends payloads).machine.current = (a.flushed payloads).actor.machine.current ∧
      (a.flushSends payloads).sealed = (a.flushed payloads).actor.sealed := by
  by_cases hp : payloads = []
  · subst hp
    rw [flushSends_nil, flushed, sendBatches]
    exact ⟨rfl, rfl⟩
  rw [flushSends_eq a hp]
  obtain ⟨lastSend, session, rekeyJitter, hdone⟩ := a.flushDone_cases payloads
  obtain ⟨staged, ledger, hstage⟩ :=
    stage_frame { (a.flushed payloads).actor with session := none } (a.flushed payloads).rest
  split
  · have h := ensureHandshake_untouched
      ({ (a.flushed payloads).actor with session := none }.stage (a.flushed payloads).rest)
    rw [h.current, h.sealed, hstage]
    exact ⟨rfl, rfl⟩
  · split
    · have h := (a.flushDone payloads).sendHandshake_untouched a.now
      rw [h.current, h.sealed, hdone]
      exact ⟨rfl, rfl⟩
    · rw [hdone]
      exact ⟨rfl, rfl⟩

/-- With an endpoint known, an attempt is in progress after payloads were
left over or a rekey was found due. -/
theorem isSome_handshake_flushSends {a : Actor C} {payloads : List Bytes} (hne : payloads ≠ [])
    (hend : a.machine.endpoint.isSome = true)
    (h : (a.flushed payloads).rest ≠ [] ∨ a.flushRekeys payloads = true) :
    (a.flushSends payloads).handshake.isSome = true := by
  obtain ⟨_, _, _, hm⟩ := (a.framed_flushed payloads).1.machine
  obtain ⟨_, _, _, hm'⟩ := (a.framed_flushDone payloads).1.machine
  rw [flushSends_eq a hne]
  split
  · obtain ⟨staged, ledger, hstage⟩ :=
      stage_frame { (a.flushed payloads).actor with session := none } (a.flushed payloads).rest
    rw [isSome_handshake_ensureHandshake, hstage]
    show (_ || (a.flushed payloads).actor.machine.endpoint.isSome) = true
    rw [hm, hend, Bool.or_true]
  · rename_i hrest
    rw [h.resolve_left hrest, Bool.true_and]
    split
    · rw [handshake_sendHandshake, hm', if_pos hend]
      rfl
    · rename_i hsome
      cases hh : (a.flushDone payloads).handshake with
      | none =>
          rw [hh] at hsome
          exact absurd rfl hsome
      | some x => rfl

/-- The endpoint is known when something was encrypted. -/
theorem endpoint_of_encryptedAny {a : Actor C} {payloads : List Bytes}
    (h : (a.flushed payloads).encryptedAny = true) : a.machine.endpoint.isSome = true := by
  obtain ⟨-, -, hany, -⟩ := a.flushed_spec payloads
  obtain ⟨packet, hpacket⟩ := List.exists_mem_of_length_pos (of_decide_eq_true (hany.symm.trans h))
  exact ((encodeAll_frame a.now a.env.maxGsoSegments.head a.machine payloads).2 packet hpacket).1

/-- The counter's limit, reached by `flush_sends`. -/
theorem counter_flushSends {a : Actor C} {payloads : List Bytes}
    (hsealed : a.sealed.length < (a.flushSends payloads).sealed.length)
    (hcounter : (a.flushSends payloads).machine.CounterDue) :
    (a.flushSends payloads).handshake.isSome = true := by
  have hne : payloads ≠ [] := by
    rintro rfl
    rw [flushSends_nil] at hsealed
    exact lt_irrefl _ hsealed
  obtain ⟨hcurrent, hlist⟩ := a.flushSends_frame payloads
  have hany : (a.flushed payloads).encryptedAny = true := by
    refine (encryptedAny_sendBatches _ _ a.flushStart payloads false false).2.1 ?_
    rw [hlist] at hsealed
    exact hsealed
  refine isSome_handshake_flushSends hne (endpoint_of_encryptedAny hany) (Or.inr ?_)
  rw [flushRekeys, hany, (hcounter.congr hcurrent).rekeyDue]
  rfl

/-- The age of a session of ours, at a successful `flush_sends`. -/
theorem age_flushSends {a : Actor C} {payloads : List Bytes}
    (htaken : DataTaken a (a.flushSends payloads)) (hage : a.InitiatorFor rekeyAfterTime) :
    (a.flushSends payloads).handshake.isSome = true := by
  obtain ⟨-, -, -, new, -, hsends, -⟩ := a.flushed_spec payloads
  obtain ⟨initiations, hdatagrams, hinits⟩ := datagrams_flushSends hsends
  obtain ⟨hendpoint, hany, current, txBytes, socketTakes, sealed, ledger, heq⟩ := hsends
  obtain ⟨d, hmem, hd'⟩ := htaken.exists_taken hdatagrams hinits
  have hne : payloads ≠ [] := by
    rintro rfl
    refine not_dataTaken ?_ htaken
    rw [flushSends_nil]
  have hend : a.machine.endpoint.isSome = true := by
    have h : a.machine.endpoint = some d.endpoint := hendpoint d hmem
    rw [h]
    rfl
  refine isSome_handshake_flushSends hne hend (Or.inr ?_)
  have hsession : (a.flushed payloads).actor.session = a.session := by
    rw [heq]
    rfl
  rw [flushRekeys, hany, List.any_eq_true.mpr ⟨d, hmem, hd'⟩, hsession, hage.rekeyAfterSend]
  exact Bool.or_true _

/-! ### Keepalives -/

/-- When `send_keepalive` finds a rekey due, an attempt is in progress. -/
theorem isSome_handshake_keepalive {a b : Actor C} {machine : Peer C}
    (hend : b.machine.endpoint.isSome = true) (h : a.keepaliveRekeys machine = true) :
    (if a.keepaliveRekeys machine then b.ensureHandshake else b).handshake.isSome = true := by
  rw [if_pos h, isSome_handshake_ensureHandshake, hend, Bool.or_true]

/-- The endpoint after a keepalive. -/
theorem endpoint_keepaliveDone {a : Actor C} {machine : Peer C} {endpoint : SocketAddr}
    {msg : Bytes} {n : ℕ} (hsome : a.machine.endpoint = some endpoint)
    (h : a.machine.encrypt a.now [] (List.replicate (packetLen 0) 0) = (.ok n, machine, msg)) :
    (a.keepaliveDone machine endpoint msg).machine.endpoint.isSome = true := by
  obtain ⟨⟨current, hm⟩, -⟩ := Peer.encrypt_frame h
  show machine.endpoint.isSome = true
  rw [hm, hsome]
  rfl

theorem counter_sendKeepalive {a : Actor C}
    (hsealed : a.sealed.length < a.sendKeepalive.sealed.length)
    (hcounter : a.sendKeepalive.machine.CounterDue) :
    a.sendKeepalive.handshake.isSome = true := by
  rcases a.sendKeepalive_cases with
    ⟨e, machine, out, -, h⟩ | ⟨endpoint, machine, msg, hsome, henc, h⟩
  · rw [h] at hsealed
    exact absurd hsealed (lt_irrefl _)
  have hcurrent : a.sendKeepalive.machine.current = machine.current := by
    rw [h]
    split
    · exact (ensureHandshake_untouched _).current
    · rfl
  have hdue : machine.rekeyDueToMessages = true := (hcounter.congr hcurrent).rekeyDue
  rw [h]
  refine isSome_handshake_keepalive (endpoint_keepaliveDone hsome henc) ?_
  rw [keepaliveRekeys, hdue]
  rfl

theorem age_sendKeepalive {a : Actor C} (htaken : DataTaken a a.sendKeepalive)
    (hage : a.InitiatorFor rekeyAfterTime) : a.sendKeepalive.handshake.isSome = true := by
  rcases a.sendKeepalive_cases with
    ⟨e, machine, out, -, h⟩ | ⟨endpoint, machine, msg, hsome, henc, h⟩
  · refine absurd htaken (not_dataTaken ?_)
    rw [h]
    rfl
  obtain ⟨initiations, hdatagrams, hinits⟩ : ∃ initiations, a.sendKeepalive.datagrams
      = a.datagrams ++ [⟨endpoint, msg, msg.length, a.env.socketTakes.head⟩] ++ initiations ∧
      ∀ d ∈ initiations, HasType .handshakeInit d.bytes := by
    rw [h]
    split
    · exact ensureHandshake_datagrams _
    · exact ⟨[], (List.append_nil _).symm, fun _ hd => by cases hd⟩
  have htakes : a.env.socketTakes.head = true := by
    obtain ⟨d, hd, hd'⟩ := htaken.exists_taken hdatagrams hinits
    rwa [List.mem_singleton.mp hd] at hd'
  rw [h]
  refine isSome_handshake_keepalive (endpoint_keepaliveDone hsome henc) ?_
  rw [keepaliveRekeys, htakes, hage.rekeyAfterSend]
  exact Bool.or_true _

/-! ### Data that arrives -/

/-- The age of a session of ours, when a packet arrives that confirms no
other. -/
theorem age_recvData {a : Actor C} {data opened : Bytes} {receiver : UInt32}
    {endpoint : SocketAddr} {recv : Recv} {machine : Peer C}
    (hdec : a.machine.decrypt a.now receiver data endpoint = (.ok (recv, opened), machine))
    (hrecv : recv.confirmed = false) (hage : a.InitiatorFor rekeyAfterTimeReceiving) :
    (a.handleMessage (.recvData data receiver endpoint)).handshake.isSome = true := by
  obtain ⟨s, hs, hinit, hold⟩ := hage
  have hhandle : a.handleMessage (.recvData data receiver endpoint)
      = { a.tick with machine := machine }.recvDataOk a.now endpoint data.length recv opened := by
    show a.tick.recvData a.now data receiver endpoint = _
    have hdec' : a.tick.machine.decrypt a.now receiver data endpoint = _ := hdec
    rw [recvData, hdec']
  have hdue : ((recvDataNoted { a.tick with machine := machine } a.now endpoint data.length recv
      opened).session.any fun s => s.rekeyAfterReceive a.now) = true := by
    have hold' : s.rekeyAfterReceive a.now = true :=
      Bool.and_eq_true_iff.mpr ⟨hinit, decide_eq_true hold⟩
    rw [session_recvDataNoted, hrecv, if_neg Bool.false_ne_true,
      show (Actor.session { a.tick with machine := machine }) = some s from hs, Option.map_some,
      Option.any_some]
    cases decide (0 < recv.payloadLen) <;> exact hold'
  obtain ⟨control, inbound, inboundTakes, rxBytes, session, hnoted⟩ := recvDataNoted_frame
    { a.tick with machine := machine } a.now endpoint data.length recv opened
  rw [hhandle, recvDataOk_eq, if_pos hdue, hrecv, if_neg Bool.false_ne_true,
    isSome_handshake_ensureHandshake, hnoted]
  show (_ || machine.endpoint.isSome) = true
  rw [Peer.endpoint_decrypt hdec]
  exact Bool.or_true _

/-- **A rekey that is due is never missed.**  For every actor:

* after `flush_sends` or `send_keepalive` encrypted something and left the
  send counter at its limit, whatever became of the packets;
* after one of them had data taken by the socket, on a session of ours older
  than Rekey-After-Time;
* after a data message authenticated, on a session of ours older than the
  limit for receiving, unless it confirmed another session;

an attempt is in progress. -/
theorem rekey_never_missed (a : Actor C) :
    (∀ payloads, a.sealed.length < (a.flushSends payloads).sealed.length →
      (a.flushSends payloads).machine.CounterDue →
      (a.flushSends payloads).handshake.isSome = true) ∧
    (a.sealed.length < a.sendKeepalive.sealed.length → a.sendKeepalive.machine.CounterDue →
      a.sendKeepalive.handshake.isSome = true) ∧
    (∀ payloads, DataTaken a (a.flushSends payloads) → a.InitiatorFor rekeyAfterTime →
      (a.flushSends payloads).handshake.isSome = true) ∧
    (DataTaken a a.sendKeepalive → a.InitiatorFor rekeyAfterTime →
      a.sendKeepalive.handshake.isSome = true) ∧
    ∀ data receiver endpoint recv opened machine,
      a.machine.decrypt a.now receiver data endpoint = (.ok (recv, opened), machine) →
      recv.confirmed = false → a.InitiatorFor rekeyAfterTimeReceiving →
      (a.handleMessage (.recvData data receiver endpoint)).handshake.isSome = true :=
  ⟨fun _ => counter_flushSends, counter_sendKeepalive, fun _ => age_flushSends, age_sendKeepalive,
    fun _ _ _ _ _ _ => age_recvData⟩

/-! ### A session replaced in time -/

theorem sessionEstablished_idle {a : Actor C} (hstaged : a.staged = []) (initiator : Bool) :
    a.sessionEstablished initiator
      = { (if initiator then a.sendKeepalive else a) with sessionReady := true } := by
  have hflush : a.flushStaged = a := if_pos hstaged
  unfold sessionEstablished
  dsimp only
  rw [hflush, hstaged]
  cases initiator <;> rfl

/-- A keepalive on a session for which no rekey is due. -/
theorem sendKeepalive_young {a : Actor C} {x : Session C} {endpoint : SocketAddr}
    (hend : a.machine.endpoint = some endpoint) (hcurrent : a.machine.current = some x)
    (hlive : x.expired a.now = false) (hctr : x.transport.sendCounter = 0)
    (hyoung : (a.session.any fun s => s.rekeyAfterSend a.now) = false) :
    ∃ y msg, y.transport.sendCounter = 1 ∧ y.established = x.established ∧ a.sendKeepalive
      = a.keepaliveDone { a.machine with current := some y } endpoint msg := by
  have hroom : packetLen ([] : Bytes).length
      ≤ (List.replicate (packetLen 0) (0 : UInt8)).length := by
    rw [List.length_replicate]
    rfl
  have hstep := Peer.step_encrypt_ok hend hcurrent hlive hroom (by rw [hctr]; decide)
  rcases a.sendKeepalive_cases with
    ⟨e, machine, out, henc, -⟩ | ⟨endpoint', machine, msg, hend', henc, h⟩
  · rw [Peer.step, henc] at hstep
    cases hstep
  · rw [Peer.step, henc] at hstep
    cases hend.symm.trans hend'
    cases (Prod.mk.inj hstep).2
    refine ⟨{ x with transport := { x.transport with sendCounter := x.transport.sendCounter + 1 } },
      msg, by rw [hctr]; rfl, rfl, h.trans (if_neg ?_)⟩
    rw [keepaliveRekeys, hyoung, Bool.and_false, Bool.or_false]
    show ¬ decide (rekeyAfterMessages ≤ x.transport.sendCounter + 1) = true
    rw [hctr]
    decide

/-- A session is established as the initiator, with nothing staged: a
keepalive confirms it. -/
theorem sessionEstablished_young {a : Actor C} {x : Session C} {endpoint : SocketAddr}
    (hend : a.machine.endpoint = some endpoint) (hcurrent : a.machine.current = some x)
    (hlive : x.expired a.now = false) (hctr : x.transport.sendCounter = 0)
    (hyoung : (a.session.any fun s => s.rekeyAfterSend a.now) = false) (hstaged : a.staged = []) :
    let b := a.sessionEstablished true
    b.session = a.session.map DriverSession.keepaliveSent ∧ b.handshake = a.handshake ∧
      b.staged = [] ∧
      b.env = { a.env with clock := a.env.clock.tail, socketTakes := a.env.socketTakes.tail } ∧
      ∃ y, y.transport.sendCounter = 1 ∧ y.established = x.established ∧
        b.machine = { a.machine with current := some y } := by
  obtain ⟨y, msg, hctr', hest, h⟩ := sendKeepalive_young hend hcurrent hlive hctr hyoung
  rw [sessionEstablished_idle hstaged, if_pos rfl, h]
  exact ⟨rfl, rfl, hstaged, rfl, y, hctr', hest, rfl⟩

/-- A response is accepted, with nothing staged. -/
theorem recvHandshakeResp_idle {a : Actor C} (now : Instant) {resp : Bytes}
    (endpoint : SocketAddr) {pending : PendingHandshake C} {est : InitiatorEstablished C}
    (hpending : a.machine.pending = some pending)
    (hresp : pending.state.responseReceived a.ourKey a.machine.presharedKey resp = .ok est)
    (hstaged : a.staged = []) (hlive : a.now.durationSince now < rekeyAfterTime) :
    let b := a.recvHandshakeResp now resp endpoint
    b.session = some (.new true now) ∧ b.handshake = none ∧ b.staged = [] ∧
      b.env = { a.env with clock := a.env.clock.tail, socketTakes := a.env.socketTakes.tail } ∧
      ∃ y, y.transport.sendCounter = 1 ∧ y.established = now ∧ b.machine = { a.machine with
        pending := none
        previous := a.machine.current
        current := some y
        endpoint := some endpoint } := by
  have hmachine : a.machine.handshakeResponse a.ourKey now resp endpoint
      = (.ok (a.machine.previous.map Session.ourIndex), { a.machine with
          pending := none
          previous := a.machine.current
          current := some (Session.new est.finish now)
          endpoint := some endpoint }) := by
    simp only [Peer.handshakeResponse, hpending, hresp, Peer.adoptCurrent]
  have hexpired : (Session.new est.finish now).expired a.now = false :=
    decide_eq_false (not_le.mpr (hlive.trans (by decide)))
  have hyoung : (DriverSession.new true now).rekeyAfterSend a.now = false :=
    Bool.and_eq_false_iff.mpr (Or.inr (decide_eq_false (not_le.mpr hlive)))
  unfold recvHandshakeResp
  rw [hmachine]
  dsimp only
  -- the index of the session that is retired is reported first
  generalize a.machine.previous.map Session.ourIndex = retired
  cases retired <;>
    exact sessionEstablished_young (x := Session.new est.finish now) rfl rfl hexpired rfl hyoung
      hstaged

/-- The first initiation that is answered leaves the driver's session and its
attempt alone. -/
theorem recvHandshakeInit_first {a : Actor C} (now : Instant) (handshake : InitReceived C)
    (endpoint : SocketAddr) (hts : a.machine.lastHandshakeTimestamp = none)
    (hnext : a.machine.next = none) :
    let b := a.recvHandshakeInit now handshake endpoint
    (∃ established, established.ourIndex = a.values.index ∧
      b.machine.next = some (Session.new (ReceiverEstablished.finish (C := C) established) now)) ∧
      b.session = a.session ∧ b.handshake = a.handshake ∧ b.staged = a.staged ∧
      b.env.clock = a.env.clock := by
  obtain ⟨mac1, msg, h⟩ := Peer.respond_first now handshake a.values endpoint hts hnext
  have hrespond : a.drawn.machine.respond now handshake a.values endpoint
      (List.replicate respMsgLength 0) = _ := h
  simp only [recvHandshakeInit, hrespond, retireIndex, bindIndex, send, sendSegments]
  cases a.drawn.env.socketTakes.head <;> exact ⟨⟨_, rfl, rfl⟩, rfl, rfl, rfl, rfl⟩

/-- A packet that confirms a session, with nothing staged, begins no
attempt. -/
theorem recvData_confirming {a : Actor C} {x : Session C} {packet : Bytes} {counter : UInt64}
    {replay : ReplayFilter} (endpoint : SocketAddr) (hnext : a.machine.next = some x)
    (hlive : x.expired a.now = false) (hauth : x.transport.Authentic packet counter [])
    (hreplay : x.replay.validate counter = (true, replay)) (hstaged : a.staged = []) :
    (∃ recv opened machine, a.machine.decrypt a.now x.ourIndex packet endpoint
        = (.ok (recv, opened), machine)) ∧
      (a.handleMessage (.recvData packet x.ourIndex endpoint)).handshake = a.handshake := by
  have hstep : a.machine.step (.decrypt a.now x.ourIndex packet endpoint) = _ :=
    Peer.step_decrypt_ok hnext hlive hauth hreplay
  rcases hdec : a.machine.decrypt a.now x.ourIndex packet endpoint with
    ⟨e | ⟨recv, opened⟩, machine⟩ <;> rw [Peer.step, hdec] at hstep
  · cases hstep
  have hconfirmed : recv.confirmed = true := by
    cases hstep
    rfl
  refine ⟨⟨recv, opened, machine, rfl⟩, ?_⟩
  have hdec' : a.tick.machine.decrypt a.now x.ourIndex packet endpoint = _ := hdec
  show (a.tick.recvData a.now packet x.ourIndex endpoint).handshake = a.handshake
  rw [recvData, hdec']
  dsimp only
  obtain ⟨control, inbound, inboundTakes, rxBytes, session, hnoted⟩ := recvDataNoted_frame
    { a.tick with machine := machine } a.now endpoint packet.length recv opened
  have hyoung : ((recvDataNoted { a.tick with machine := machine } a.now endpoint packet.length
      recv opened).session.any fun s => s.rekeyAfterReceive a.now) = false := by
    rw [session_recvDataNoted, hconfirmed, if_pos rfl]
    cases decide (0 < recv.payloadLen) <;> rfl
  have hidle : (recvDataNoted { a.tick with machine := machine } a.now endpoint packet.length
      recv opened).staged = [] := by
    rw [hnoted]
    exact hstaged
  rw [recvDataOk_eq, if_neg (Bool.eq_false_iff.mp hyoung), hconfirmed, if_pos rfl,
    sessionEstablished_idle hidle, hnoted]
  rfl

/-- Connecting, when the machine writes the initiation `i`. -/
theorem connect_first {a : Actor C} {endpoint : SocketAddr} {i : Initiation C}
    (hnone : a.handshake = none) (hi : (a.tick.setEndpoint endpoint).tick.initiation = some i) :
    let b := a.handleMessage (.connect endpoint)
    b.machine.pending = some i.pending ∧ b.ourKey = a.ourKey ∧
      b.machine.presharedKey = a.machine.presharedKey ∧ b.machine.next = a.machine.next ∧
      b.machine.lastHandshakeTimestamp = a.machine.lastHandshakeTimestamp ∧
      b.staged = a.staged ∧ b.env = { a.env with
        clock := a.env.clock.tail.tail.tail
        values := a.env.values.tail
        rekeyJitter := a.env.rekeyJitter.tail
        socketTakes := a.env.socketTakes.tail } := by
  rw [handleMessage_connect hnone]
  rcases sendHandshake_cases (a.tick.setEndpoint endpoint).tick (a.tick.setEndpoint endpoint).now
    with ⟨hend, -⟩ | ⟨_, -, ⟨hrefused, -⟩ | ⟨i', hi', -, -, mac1, control, lastSend, txBytes, h⟩⟩
  · cases hend
  · cases hrefused.symm.trans hi
  · cases hi'.symm.trans hi
    rw [h]
    exact ⟨rfl, rfl, rfl, rfl, rfl, rfl, rfl⟩

theorem initiation_of_ok {a : Actor C} {sent : InitSent C} {cookies : Generator C} {msg : Bytes}
    (h : InitSent.initiate a.ourKey a.machine.peerKey a.values.index a.values.ephemeralSecret
      a.values.timestamp a.machine.cookieGenerator (List.replicate initMsgLength 0)
        = (.ok sent, cookies, msg)) :
    a.initiation = some ⟨msg, ⟨sent, a.values.index⟩⟩ := by
  have hlen : ¬ (List.replicate initMsgLength (0 : UInt8)).length < initMsgLength := by
    rw [List.length_replicate]
    exact lt_irrefl _
  unfold initiation
  rw [Peer.initiate, if_neg hlen, h]
  rfl

/-- A new actor of `symbolic`. -/
def initiator (env : Env Crypto.symbolic) : Actor Crypto.symbolic :=
  spawn (1 : UInt8) (Crypto.symbolic.publicKey (2 : UInt8)) none none env

/-- A response to the initiation that it sends. -/
theorem exists_response {env : Env Crypto.symbolic}
    (hvalues : env.values.head = ⟨7, (3 : UInt8), Crypto.symbolicTime⟩) : ∃ resp est i,
    ((initiator env).tick.setEndpoint anyEndpoint).tick.initiation = some i ∧
      i.pending.state.responseReceived (1 : UInt8) none resp = .ok est := by
  obtain ⟨sent, cookies, msg, recv, hinit, -, -, hsame, -, hsecret, -⟩ :=
    honest_initiation Crypto.symbolic_correct (i := (1 : UInt8)) (r := (2 : UInt8))
      (e := (3 : UInt8)) 7 Crypto.symbolicTime
      (Generator.new _ (Crypto.symbolic.publicKey (2 : UInt8)))
      (List.replicate initMsgLength 0) rfl rfl (by rw [List.length_replicate])
  obtain ⟨-, resp, -, -, hanswered⟩ := honest_response Crypto.symbolic_correct (e := (4 : UInt8))
    none none 9 Crypto.symbolicTime (Generator.new _ (Crypto.symbolic.publicKey (1 : UInt8)))
    (List.replicate respMsgLength 0) hsame (by rw [hsecret]; rfl) rfl
    (by rw [List.length_replicate])
  have hread : ((initiator env).tick.setEndpoint anyEndpoint).tick.values
      = ⟨7, (3 : UInt8), Crypto.symbolicTime⟩ := hvalues
  have hi := initiation_of_ok (a := ((initiator env).tick.setEndpoint anyEndpoint).tick)
    (by rw [hread]; exact hinit)
  exact ⟨resp, _, _, hi, InitSent.responseReceived_ok_iff.mpr hanswered⟩

/-- It is connected, and the response arrives at `t`. -/
theorem exists_connected (env : Env Crypto.symbolic) {t : Instant}
    (hvalues : env.values.head = ⟨7, (3 : UInt8), Crypto.symbolicTime⟩)
    (ht : env.clock.tail.tail.tail.head = t)
    (hlive : env.clock.tail.tail.tail.tail.head.durationSince t < rekeyAfterTime) : ∃ resp,
    let b := ((initiator env).handleMessage (.connect anyEndpoint)).handleMessage
      (.recvHandshakeResp resp anyEndpoint)
    b.session = some (.new true t) ∧ b.handshake = none ∧ b.staged = [] ∧
      b.env = { env with
        clock := env.clock.tail.tail.tail.tail.tail
        values := env.values.tail
        rekeyJitter := env.rekeyJitter.tail
        socketTakes := env.socketTakes.tail.tail } ∧
      b.machine.endpoint = some anyEndpoint ∧ b.machine.next = none ∧
      b.machine.lastHandshakeTimestamp = none ∧
      ∃ y, y.transport.sendCounter = 1 ∧ y.established = t ∧ b.machine.current = some y := by
  obtain ⟨resp, est, i, hi, hresp⟩ := exists_response hvalues
  refine ⟨resp, ?_⟩
  have hconnect := connect_first (a := initiator env) rfl hi
  generalize (initiator env).handleMessage (.connect anyEndpoint) = a at hconnect ⊢
  obtain ⟨hpending, hkey, hpsk, hnext, hts, hstaged, henv⟩ := hconnect
  have hnow : a.now = t := by
    rw [now, henv]
    exact ht
  have hread : a.tick.now = env.clock.tail.tail.tail.tail.head := by
    show a.env.clock.tail.head = _
    rw [henv]
    rfl
  have hresp' : i.pending.state.responseReceived a.tick.ourKey a.tick.machine.presharedKey resp
      = .ok est := by
    show i.pending.state.responseReceived a.ourKey a.machine.presharedKey resp = _
    rw [hkey, hpsk]
    exact hresp
  have hanswered := recvHandshakeResp_idle (a := a.tick) t anyEndpoint hpending hresp' hstaged
    (by rw [hread]; exact hlive)
  have hstep : a.handleMessage (.recvHandshakeResp resp anyEndpoint)
      = a.tick.recvHandshakeResp a.now resp anyEndpoint := rfl
  rw [hstep, hnow]
  generalize a.tick.recvHandshakeResp t resp anyEndpoint = b at hanswered ⊢
  obtain ⟨hsession, hhandshake, hqueue, henv', y, hctr, hest, hmachine⟩ := hanswered
  refine ⟨hsession, hhandshake, hqueue, ?_, ?_, ?_, ?_, y, hctr, hest, ?_⟩
  · rw [henv']
    show { a.env with clock := a.env.clock.tail.tail, socketTakes := a.env.socketTakes.tail } = _
    rw [henv]
    rfl
  · rw [hmachine]
  · rw [hmachine]
    exact hnext
  · rw [hmachine]
    exact hts
  · rw [hmachine]

/-- A new actor of `symbolic` whose clock jumps to 170 seconds after five
reads. -/
def aging : Actor Crypto.symbolic :=
  spawn (1 : UInt8) (Crypto.symbolic.publicKey (2 : UInt8)) none none
    { twoReads (seconds 0) (seconds 0) with
      clock := Stream'.cons (seconds 0) (Stream'.cons (seconds 0) (Stream'.cons (seconds 0)
        (Stream'.cons (seconds 0) (Stream'.cons (seconds 0) (Stream'.const (seconds 170))))))
      values := Stream'.cons ⟨7, (3 : UInt8), Crypto.symbolicTime⟩
        (Stream'.const ⟨8, (5 : UInt8), Crypto.symbolicTime⟩) }

/-- A connection, a response and then an initiation from the peer. -/
def rotating (resp : Bytes) (handshake : InitReceived Crypto.symbolic) :
    List (Event Crypto.symbolic) :=
  [.actions [.connect anyEndpoint], .actions [.recvHandshakeResp resp anyEndpoint],
    .actions [.recvHandshakeInit handshake anyEndpoint]]

theorem run_rotating (a : Actor Crypto.symbolic) (resp : Bytes)
    (handshake : InitReceived Crypto.symbolic) : a.run (rotating resp handshake)
      = ((a.handleMessage (.connect anyEndpoint)).handleMessage
          (.recvHandshakeResp resp anyEndpoint)).handleMessage
            (.recvHandshakeInit handshake anyEndpoint) := by
  rw [rotating, run, List.foldl_cons, List.foldl_cons, List.foldl_cons, List.foldl_nil,
    turn_action _ (fun _ h => by cases h), turn_action _ (fun _ h => by cases h),
    turn_action _ (fun _ h => by cases h)]

/-- What `aging` is left with: a session of ours, 170 seconds old, and one
that waits to be confirmed. -/
theorem exists_rotating (handshake : InitReceived Crypto.symbolic) : ∃ resp established,
    let a := aging.run (rotating resp handshake)
    a.session = some (.new true (seconds 0)) ∧ a.handshake = none ∧ a.staged = [] ∧
      a.now = seconds 170 ∧ established.ourIndex = 8 ∧
      a.machine.next = some (Session.new (ReceiverEstablished.finish
        (C := Crypto.symbolic) established) (seconds 170)) := by
  obtain ⟨resp, hconnected⟩ := exists_connected aging.env (t := seconds 0) rfl rfl
    (by show (seconds 0).durationSince (seconds 0) < _; decide)
  have hrun := run_rotating aging resp handshake
  have haging : aging = initiator aging.env := rfl
  rw [← haging] at hconnected
  generalize (aging.handleMessage (.connect anyEndpoint)).handleMessage
    (.recvHandshakeResp resp anyEndpoint) = c at hrun hconnected
  obtain ⟨hsession, hhandshake, hqueue, henv, -, hnext, hts, -⟩ := hconnected
  have hnow : c.now = seconds 170 := by
    rw [now, henv]
    rfl
  obtain ⟨⟨established, hindex, hsome⟩, hs, hh, hq, hc⟩ := recvHandshakeInit_first (a := c.tick)
    c.now handshake anyEndpoint hts hnext
  have hstep : c.handleMessage (.recvHandshakeInit handshake anyEndpoint)
      = c.tick.recvHandshakeInit c.now handshake anyEndpoint := rfl
  rw [hstep] at hrun
  refine ⟨resp, established, ?_⟩
  rw [hrun]
  refine ⟨hs.trans hsession, hh.trans hhandshake, hq.trans hqueue, ?_, ?_, ?_⟩
  · rw [now, hc]
    show c.env.clock.tail.head = _
    rw [henv]
    rfl
  · rw [hindex]
    show c.env.values.head.index = 8
    rw [henv]
    rfl
  · rw [hsome, hnow]

/-- **A packet that confirms a session needs no rekey.**  The driver has a
session of ours, 170 seconds old, when the first packet of another session
authenticates: no attempt is in progress after it. -/
theorem confirmed_without_rekey : ∃ initMsg handshake resp packet,
    InitReceived.receive (C := Crypto.symbolic) (1 : UInt8) initMsg = .ok handshake ∧
    let a := aging.run (rotating resp handshake)
    a.InitiatorFor rekeyAfterTimeReceiving ∧
      (∃ recv opened machine, a.machine.decrypt a.now 8 packet anyEndpoint
        = (.ok (recv, opened), machine)) ∧
      (a.handleMessage (.recvData packet 8 anyEndpoint)).handshake = none := by
  obtain ⟨initMsg, handshake, hrecv⟩ := exists_initiation
  obtain ⟨resp, established, h⟩ := exists_rotating handshake
  obtain ⟨packet, replay, hauth, hreplay⟩ :=
    exists_first_packet established.finish (seconds 170)
  refine ⟨initMsg, handshake, resp, packet, hrecv, ?_⟩
  dsimp only at h ⊢
  generalize aging.run (rotating resp handshake) = a at h ⊢
  obtain ⟨hsession, hhandshake, hstaged, hnow, hindex, hnext⟩ := h
  have hour : (Session.new established.finish (seconds 170)).ourIndex = 8 := hindex
  have hlive : (Session.new established.finish (seconds 170)).expired a.now = false := by
    rw [hnow]
    show decide (rejectAfterTime ≤ (seconds 170).durationSince (seconds 170)) = false
    decide
  have hconfirm := recvData_confirming anyEndpoint hnext hlive hauth hreplay hstaged
  rw [hour] at hconfirm
  refine ⟨⟨_, hsession, rfl, ?_⟩, hconfirm.1, hconfirm.2.trans hhandshake⟩
  rw [hnow]
  decide

end Actor

end Tunstile
