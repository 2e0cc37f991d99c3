/-
Tunstile/Opening.lean

The first messages of two drivers.

Side `a` connects, and payloads are queued on either side, which wait for a
session (`Asking`).  Side `b` receives the initiation and answers it
(`Responding`).  Side `a` accepts the response and sends what has waited
there, or a keepalive; the first packet confirms the session on side `b`,
which then sends what has waited there.

For each of these turns, what it does to the driver is said by one lemma, and
its deeds by another.
-/
import Tunstile.Traffic
import Tunstile.Link
import Tunstile.Rekeying

namespace Tunstile

variable {C : Crypto}

namespace Actor

variable {t : Instant} {a : Actor C}

/-! ### Waiting for a session -/

/-- Without a send session nothing is encrypted, and all payloads are left. -/
theorem flushed_waiting (hcurrent : a.machine.current = none) (payloads : List Bytes) :
    a.flushed payloads = ⟨a.flushStart, payloads, false, false⟩ := by
  unfold flushed
  cases payloads with
  | nil => rw [sendBatches]
  | cons payload rest =>
      obtain ⟨e, out, henc⟩ : ∃ e out, a.flushStart.machine.encrypt a.now payload
          (List.replicate (packetLen payload.length) 0) = (.error e, a.flushStart.machine, out) := by
        show ∃ e out, a.machine.encrypt _ _ _ = (_, a.machine, _)
        unfold Peer.encrypt
        rw [hcurrent]
        split <;> exact ⟨_, _, rfl⟩
      obtain ⟨n, hn⟩ := Nat.exists_eq_add_of_le' (le_batchLen (maxBatchSegments
        a.tick.env.maxGsoSegments.head (packetLen payload.length)) (packetLen payload.length) 1 rest)
      rw [sendBatches]
      simp only [hn, List.take_succ_cons, encryptBatch, henc, Batch.send, lt_irrefl, if_false,
        List.drop_zero, decide_false, Bool.or_false, dite_true]

/-- No initiation is sent while an attempt is in progress or there is nowhere
to send it. -/
theorem ensureHandshake_quiet
    (hquiet : a.handshake.isSome = true ∨ a.machine.endpoint = none) :
    ∃ n, a.ensureHandshake = { a with env := { a.env with clock := a.env.clock.drop n } } := by
  unfold ensureHandshake
  split
  · rename_i hisNone
    rcases hquiet with hsome | hend
    · rw [Option.isNone_iff_eq_none] at hisNone
      rw [hisNone] at hsome
      cases hsome
    · refine ⟨1, ?_⟩
      have hend' : a.tick.machine.endpoint = none := hend
      rw [sendHandshake, hend']
      rfl
  · exact ⟨0, rfl⟩

/-- Payloads queued before there is a session are staged, and nothing is sent
while an attempt is in progress or there is nowhere to send it. -/
theorem flushSends_waiting (hfair : a.env.Fair t) (hcurrent : a.machine.current = none)
    (payloads : List Bytes) (hroom : a.staged.length + payloads.length ≤ maxStagedPackets)
    (hquiet : a.handshake.isSome = true ∨ a.machine.endpoint = none) :
    let b := a.flushSends payloads
    Books a b ∧ b.env.Fair t ∧ b.env.values = a.env.values ∧ b.staged = a.staged ++ payloads := by
  intro b
  by_cases hnil : payloads = []
  · subst hnil
    have hsame : b = a := a.flushSends_nil
    rw [hsame, List.append_nil]
    exact ⟨⟨rfl, rfl, rfl, rfl, rfl, rfl, rfl, Or.inl rfl⟩, hfair, rfl, rfl⟩
  -- all of it is staged
  have hb : b = ({ a.flushStart with session := none }.stage payloads).ensureHandshake := by
    show a.flushSends payloads = _
    rw [flushSends_eq a hnil, flushed_waiting hcurrent, if_pos hnil]
  have hstaged : ({ a.flushStart with session := none }.stage payloads).staged
      = a.staged ++ payloads := by
    have hstage := staged_stage (a := { a.flushStart with session := none })
      ((Nat.le_add_right _ _).trans hroom) payloads
    rw [hstage]
    show (a.staged ++ payloads).drop (a.staged.length + payloads.length - maxStagedPackets) = _
    rw [Nat.sub_eq_zero_of_le hroom, List.drop_zero]
  obtain ⟨staged, ledger, hstage⟩ := stage_frame { a.flushStart with session := none } payloads
  rw [hstage] at hb hstaged
  -- and no initiation is sent
  obtain ⟨n, hensure⟩ := ensureHandshake_quiet
    (a := { a.flushStart with session := none, staged := staged, ledger := ledger }) hquiet
  rw [hb, hensure]
  exact ⟨⟨rfl, rfl, rfl, rfl, rfl, rfl, rfl, Or.inl rfl⟩, hfair.later (n := n + 1) rfl rfl rfl, rfl,
    hstaged⟩

/-! ### The initiation -/

/-- Connecting sends an initiation. -/
theorem connect_sends (hfair : a.env.Fair t) (hnone : a.handshake = none) {endpoint : SocketAddr}
    {i : Initiation C} (hi : (a.tick.setEndpoint endpoint).tick.initiation = some i) :
    let b := a.handleMessage (.connect endpoint)
    b.env.Fair t ∧ b.handshake.isSome = true ∧ b.ourKey = a.ourKey ∧ b.staged = a.staged ∧
      b.inbound = a.inbound ∧
      b.datagrams = a.datagrams ++ [⟨endpoint, i.message, i.message.length, true⟩] ∧
      ∃ cookieGenerator, b.machine = { a.machine with
        endpoint := some endpoint
        cookieGenerator := cookieGenerator
        pending := some i.pending } := by
  rw [handleMessage_connect hnone]
  rcases sendHandshake_cases (a.tick.setEndpoint endpoint).tick (a.tick.setEndpoint endpoint).now
    with ⟨hend, -⟩ | ⟨endpoint', hend, ⟨hrefused, -⟩ |
      ⟨i', hi', -, -, mac1, control, lastSend, txBytes, h⟩⟩
  · cases hend
  · cases hrefused.symm.trans hi
  · cases hi'.symm.trans hi
    cases hend
    have htakes : a.env.socketTakes.head = true := by
      rw [hfair.socket]
      rfl
    rw [h]
    refine ⟨hfair.later (n := 3) rfl ?_ rfl, rfl, rfl, rfl, rfl, ?_, _, rfl⟩
    · show a.env.socketTakes.tail = _
      rw [hfair.socket]
      rfl
    · show a.datagrams ++ [⟨_, _, _, a.env.socketTakes.head⟩] = _
      rw [htakes]

theorem connect_deeds (hnone : a.handshake = none) (endpoint : SocketAddr)
    {replaced : Option UInt32} {machine : Peer C} {msg : Bytes}
    (hinit : (a.machine.setEndpoint endpoint).initiate a.ourKey a.values
      (List.replicate initMsgLength 0) = (.ok replaced, machine, msg)) :
    Trace Act a [.endpointSet endpoint,
        .initiated a.values ⟨endpoint, msg, msg.length, a.env.socketTakes.head⟩]
      (a.handleMessage (.connect endpoint)) := by
  rw [handleMessage_connect hnone]
  have hset := (Trace.single (Act.book (Acts.tick_books a))).tail
    (Act.deed (Acts.setEndpoint_does a.tick endpoint))
  have hready := (hset.tail (Act.book (Acts.tick_books _))).tail
    (Act.book (Acts.unwritten_books _ (a.tick.setEndpoint endpoint).now))
  exact hready.tail (Act.deed (Acts.sendHandshake_does (a := (a.tick.setEndpoint endpoint).tick)
    (a.tick.setEndpoint endpoint).now rfl hinit))

/-! ### The response -/

/-- The machine that has answered its first initiation. -/
theorem respond_first {handshake : InitReceived C} (endpoint : SocketAddr)
    {established : ReceiverEstablished C} {cookies : Generator C} {msg : Bytes}
    (hts : a.machine.lastHandshakeTimestamp = none) (hnext : a.machine.next = none)
    (h : handshake.respond a.values.index a.values.ephemeralSecret a.machine.presharedKey
      a.values.timestamp a.machine.cookieGenerator (List.replicate respMsgLength 0)
        = (.ok established, cookies, msg)) :
    a.machine.respond a.now handshake a.values endpoint (List.replicate respMsgLength 0)
      = (.ok none, { a.machine with
        cookieGenerator := cookies
        lastHandshakeTimestamp := some handshake.timestamp
        endpoint := some endpoint
        next := some (Session.new established.finish a.now) }, msg) := by
  simp only [Peer.respond, hts, Option.any_none, Bool.false_eq_true, if_false,
    List.length_replicate, lt_irrefl, h, hnext, Option.map_none]

/-- The first initiation is answered. -/
theorem respond_sends (hfair : a.env.Fair t) {handshake : InitReceived C} {endpoint : SocketAddr}
    {machine : Peer C} {msg : Bytes}
    (h : a.machine.respond a.now handshake a.values endpoint (List.replicate respMsgLength 0)
      = (.ok none, machine, msg)) :
    let b := a.handleMessage (.recvHandshakeInit handshake endpoint)
    b.env.Fair t ∧ b.staged = a.staged ∧ b.inbound = a.inbound ∧
      b.datagrams = a.datagrams ++ [⟨endpoint, msg, msg.length, true⟩] ∧ b.machine = machine := by
  have hrespond : a.tick.drawn.machine.respond a.now handshake a.tick.values endpoint
      (List.replicate respMsgLength 0) = (.ok none, machine, msg) := h
  have htakes : a.tick.drawn.env.socketTakes.head = true := by
    show a.env.socketTakes.head = true
    rw [hfair.socket]
    rfl
  intro b
  have hb : b = a.tick.recvHandshakeInit a.now handshake endpoint := rfl
  simp only [Actor.recvHandshakeInit, hrespond, retireIndex, bindIndex, send, sendSegments,
    htakes] at hb
  rw [hb]
  refine ⟨hfair.later (n := 1) rfl ?_ rfl, rfl, rfl, rfl, rfl⟩
  show a.env.socketTakes.tail = _
  rw [hfair.socket]
  rfl

theorem respond_deeds {handshake : InitReceived C} {endpoint : SocketAddr}
    {displaced : Option UInt32} {machine : Peer C} {msg : Bytes}
    (h : a.machine.respond a.now handshake a.values endpoint (List.replicate respMsgLength 0)
      = (.ok displaced, machine, msg))
    (keys : SessionKeys C) (hkeys : machine.nextKeys = some keys) :
    Trace Act a [.responded a.now handshake a.values
        ⟨endpoint, msg, msg.length, a.env.socketTakes.head⟩ keys]
      (a.handleMessage (.recvHandshakeInit handshake endpoint)) :=
  ((Trace.single (Act.book (Acts.tick_books a))).tail (Act.book (Acts.drawn_books a.tick))).tail
    (Act.deed (Acts.recvHandshakeInit_does (a := a.tick) h hkeys))

/-! ### The first packets -/

/-- What an initiator sends first on a new session. -/
def firstPayloads (staged : List Bytes) : List Bytes := if staged = [] then [[]] else staged

theorem length_firstPayloads (staged : List Bytes) :
    (firstPayloads staged).length ≤ staged.length + 1 := by
  unfold firstPayloads
  split
  · exact Nat.le_add_left _ _
  · exact Nat.le_succ _

/-- A response is accepted: the driver before it sends. -/
theorem accepts_response (hfair : a.env.Fair t) {resp : Bytes} (endpoint : SocketAddr)
    {pending : PendingHandshake C} {established : InitiatorEstablished C}
    (hpending : a.machine.pending = some pending)
    (hresp : pending.state.responseReceived a.ourKey a.machine.presharedKey resp = .ok established)
    (hnext : a.machine.next = none) :
    let x := Session.new established.finish a.now
    ∃ c : Actor C, a.handleMessage (.recvHandshakeResp resp endpoint) = c.sessionEstablished true ∧
      Does a.tick (.answered a.now resp endpoint x.keys) c ∧
      Up t endpoint x { c with staged := [] } ∧ c.staged = a.staged := by
  intro x
  have hmachine : a.tick.machine.handshakeResponse a.tick.ourKey a.now resp endpoint
      = (.ok (a.machine.previous.map Session.ourIndex), { a.machine with
          pending := none
          previous := a.machine.current
          current := some x
          endpoint := some endpoint }) := by
    show a.machine.handshakeResponse a.ourKey a.now resp endpoint = _
    simp only [Peer.handshakeResponse, hpending, hresp, Peer.adoptCurrent]
    rfl
  have hstep : a.tick.machine.step (.handshakeResponse a.tick.ourKey a.now resp endpoint) = _ :=
    Peer.step_handshakeResponse_ok hpending hresp
  have hb : a.handleMessage (.recvHandshakeResp resp endpoint)
    = a.tick.recvHandshakeResp a.now resp endpoint := rfl
  rw [Actor.recvHandshakeResp, hmachine] at hb
  refine ⟨_, hb, Acts.responseNoted_does hstep rfl, ?_⟩
  generalize a.machine.previous.map Session.ourIndex = retired
  refine ⟨⟨?_, ?_, ?_, ?_, rfl, ?_, (hfair.clock 0).1⟩, ?_⟩
  · cases retired <;> exact hfair.later (n := 1) rfl rfl rfl
  · cases retired <;> rfl
  · cases retired <;> rfl
  · cases retired <;> exact hnext
  · intro s hs
    cases retired <;>
      · cases hs
        exact (hfair.clock 0).1
  · cases retired <;> rfl

/-- Telling the handle changes nothing else. -/
theorem Up.ready {addr : SocketAddr} {y : Session C} (h : Up t addr y a) :
    Up t addr y { a with sessionReady := true } :=
  ⟨h.fair, h.endpoint, h.current, h.next, h.staged, h.young, h.established⟩

/-- The new session is used at once: what is staged goes out, or else a
keepalive. -/
theorem answered_sends (hfair : a.env.Fair t) {resp : Bytes} (endpoint : SocketAddr)
    {pending : PendingHandshake C} {established : InitiatorEstablished C}
    (hpending : a.machine.pending = some pending)
    (hresp : pending.state.responseReceived a.ourKey a.machine.presharedKey resp = .ok established)
    (hnext : a.machine.next = none) (hstaged : a.staged.length ≤ maxStagedPackets) :
    let b := a.handleMessage (.recvHandshakeResp resp endpoint)
    let x := Session.new established.finish a.now
    Up t endpoint (x.after (firstPayloads a.staged).length) b ∧ b.inbound = a.inbound ∧
      ∃ new, b.datagrams = a.datagrams ++ new ∧
        (∀ d ∈ new, d.endpoint = endpoint ∧ d.taken = true) ∧
        new.flatMap Datagrams.segments = x.packets (firstPayloads a.staged) := by
  intro b x
  obtain ⟨c, hc, hdoes, hup, hqueue⟩ := accepts_response hfair endpoint hpending hresp hnext
  have hb : b = c.sessionEstablished true := hc
  have hup : Up t endpoint x { c with staged := [] } := hup
  have hinbound : c.inbound = a.inbound := hdoes.inbound.trans (List.append_nil _)
  have hdatagrams : c.datagrams = a.datagrams := hdoes.datagrams.trans (List.append_nil _)
  have hzero : x.transport.sendCounter.toNat = 0 := rfl
  have hmax : maxStagedPackets + 1 < rekeyAfterMessages.toNat := by decide
  by_cases hnil : a.staged = []
  · have hidle := sessionEstablished_idle (hqueue.trans hnil) true
    rw [if_pos rfl] at hidle
    have hup' : Up t endpoint x c := by
      have hsame : { c with staged := [] } = c := by
        rw [← hqueue.trans hnil]
      rwa [hsame] at hup
    obtain ⟨hkept, hin, d, hd, hend, htaken, hsegments⟩ := hup'.sendKeepalive (by omega)
    rw [hb, hidle, firstPayloads, if_pos hnil]
    refine ⟨hkept.ready, hin.trans hinbound, [d], ?_, ?_, ?_⟩
    · rw [← hdatagrams]
      exact hd
    · intro d' hd'
      rw [List.mem_singleton.mp hd']
      exact ⟨hend, htaken⟩
    · rw [List.flatMap_singleton]
      exact hsegments
  · have hsome : c.sessionEstablished true = { c.flushStaged with sessionReady := true } := by
      unfold sessionEstablished
      have hfull : c.staged.isEmpty = false := by
        rw [hqueue]
        exact List.isEmpty_eq_false_iff.mpr hnil
      rw [hfull]
      rfl
    obtain ⟨hkept, hin, new, hnew, hto, hsegments⟩ := hup.flushStaged (by rw [hqueue]; omega)
    rw [hqueue] at hkept hsegments
    rw [hb, hsome, firstPayloads, if_neg hnil]
    refine ⟨hkept.ready, hin.trans hinbound, new, ?_, hto, hsegments⟩
    rw [← hdatagrams]
    exact hnew

/-- One payload is one batch. -/
theorem Up.flush_deeds {addr : SocketAddr} {y : Session C} (h : Up t addr y a)
    (hp : a.machine.Healthy) (payload : Bytes)
    (hctr : y.transport.sendCounter.toNat + 1 < rekeyAfterMessages.toNat) :
    ∃ d keys, d.segmentSize = packetLen payload.length ∧
      Trace Act a [.sent a.now [payload] d keys] (a.flushSends [payload]) := by
  rw [h.flushSends_eq (List.cons_ne_nil payload []) hctr]
  have henc : a.flushStart.machine.encrypt a.now payload
      (List.replicate (packetLen payload.length) 0) = _ :=
    Peer.encrypt_ok payload (List.replicate (packetLen payload.length) 0) h.endpoint h.current
      (h.expired (h.fair.clock 0).2) List.length_replicate.ge
      (Peer.lt_rejectAfterMessages (Nat.lt_of_succ_lt hctr))
  have hbatch : (encryptBatch a.now (packetLen payload.length) a.flushStart [payload]).encrypted = 1
      ∧ (encryptBatch a.now (packetLen payload.length) a.flushStart [payload]).stalled = false := by
    rw [encryptBatch, henc]
    exact ⟨rfl, rfl⟩
  have hflushed : (a.flushed [payload]).actor = ((encryptBatch a.now (packetLen payload.length)
      a.flushStart [payload]).send (packetLen payload.length)).2 := by
    unfold flushed
    rw [sendBatches]
    simp only [batchLen, List.take_succ_cons, List.take_zero, hbatch.1, hbatch.2,
      Bool.false_eq_true, dite_false, List.drop_succ_cons, List.drop_zero]
    rw [sendBatches]
  obtain ⟨d, keys, hdoes⟩ := Acts.batch_does (a := a.flushStart) a.now hp
    (fun _ hmem => by rw [List.mem_singleton.mp hmem]) (hbatch.1.symm ▸ Nat.one_pos)
  rw [hbatch.1, ← hflushed] at hdoes
  have hsegment : d.segmentSize = packetLen payload.length := by
    cases hdoes.machine with
    | sent _ _ hsize => exact (hsize payload List.mem_cons_self).symm
  have hstart : Books a a.flushStart := ⟨rfl, rfl, rfl, rfl, rfl, rfl, rfl, Or.inl rfl⟩
  have hdone : Books (a.flushed [payload]).actor (a.flushDone [payload]) := by
    obtain ⟨lastSend, session, rekeyJitter, hdone⟩ := a.flushDone_cases [payload]
    rw [hdone]
    exact ⟨rfl, rfl, rfl, rfl, rfl, rfl, rfl, Or.inl rfl⟩
  exact ⟨d, keys, hsegment,
    ((Trace.single (Act.book hstart)).tail (Act.deed hdoes)).tail (Act.book hdone)⟩

theorem answered_deeds (hfair : a.env.Fair t) (hp : a.machine.Healthy) {resp : Bytes}
    (endpoint : SocketAddr) {pending : PendingHandshake C} {established : InitiatorEstablished C}
    (hpending : a.machine.pending = some pending)
    (hresp : pending.state.responseReceived a.ourKey a.machine.presharedKey resp = .ok established)
    (hnext : a.machine.next = none) {payload : Bytes} (hstaged : a.staged = [payload]) :
    let x := Session.new established.finish a.now
    ∃ now d keys, x.expired now = false ∧ d.segmentSize = packetLen payload.length ∧
      Trace Act a [.answered a.now resp endpoint x.keys, .sent now [payload] d keys]
        (a.handleMessage (.recvHandshakeResp resp endpoint)) := by
  intro x
  obtain ⟨c, hc, hdoes, hup, hqueue⟩ := accepts_response hfair endpoint hpending hresp hnext
  have hone : c.staged = [payload] := hqueue.trans hstaged
  have hflush : c.sessionEstablished true
      = { { c with staged := [] }.flushSends [payload] with sessionReady := true } := by
    unfold sessionEstablished flushStaged
    rw [hone]
    rfl
  have hlimit : 0 + [payload].length < rekeyAfterMessages.toNat := by
    rw [List.length_singleton]
    decide
  have hcurrent : ({ c with staged := [] }.flushSends [payload]).machine.current.isSome = true := by
    rw [(hup.flushSends hlimit).1.current]
    rfl
  obtain ⟨d, keys, hsegment, hdeeds⟩ := hup.flush_deeds (hdoes.machine.healthy hp) payload hlimit
  rw [hc, hflush]
  have hready := (Trace.single (Act.book (Acts.tick_books a))).tail (Act.deed hdoes)
  have htaken : Books c { c with staged := [] } := ⟨rfl, rfl, rfl, rfl, rfl, rfl, rfl, Or.inl rfl⟩
  have hsent := (hready.tail (Act.book htaken)).trans hdeeds
  exact ⟨c.now, d, keys, hup.expired (hup.fair.clock 0).2, hsegment,
    hsent.tail (Act.book ⟨rfl, rfl, rfl, rfl, rfl, rfl, rfl, Or.inr ⟨rfl, hcurrent⟩⟩)⟩

/-! ### Confirmation -/

/-- The first packet on the session of an answered initiation confirms it:
the driver before it sends. -/
theorem confirms_session (hseal : C.OpenSeal) (hfair : a.env.Fair t) {y : Session C}
    {acc : List UInt64} (endpoint : SocketAddr) (hnext : a.machine.next = some y)
    (hyoung : t ≤ y.established) (hacc : y.replay.Accepted acc) {z : UInt64 × Bytes}
    (hfresh : Fresh acc z.1) :
    ∃ replay, replay.Accepted (z.1 :: acc) ∧ ∃ c : Actor C,
      a.handleMessage (.recvData (dataPacket C y.ourIndex y.transport.recvAead z) y.ourIndex
        endpoint) = c.sessionEstablished false ∧
      Does a.tick (.received a.now (dataPacket C y.ourIndex y.transport.recvAead z) y.ourIndex
        endpoint z.2 true y.keys) c ∧
      Up t endpoint { y with replay := replay } { c with staged := [] } ∧ c.staged = a.staged := by
  obtain ⟨hfirst, hnow⟩ := hfair.clock 0
  obtain ⟨replay, hvalid, haccepted⟩ := (ReplayFilter.validate_spec hacc z.1).1 hfresh
  have hauth : y.transport.Authentic (dataPacket C y.ourIndex y.transport.recvAead z) z.1 z.2 :=
    Transport.authentic_dataWire hseal rfl rfl z.1 z.2
  have hlive : y.expired a.now = false :=
    decide_eq_false (durationSince_lt hyoung hnow (by decide))
  have hdec : a.tick.machine.decrypt a.now y.ourIndex _ endpoint = _ :=
    Peer.decrypt_next hnext hlive hauth hvalid
  have hkeys : a.machine.matchingKeys y.ourIndex = some y.keys := by
    rw [Peer.matchingKeys, Peer.matching_next hnext]
    rfl
  have hstep : a.tick.machine.step (.decrypt a.now y.ourIndex _ endpoint) = _ :=
    Peer.step_decrypt_ok hnext hlive hauth hvalid
  have hb : a.handleMessage (.recvData (dataPacket C y.ourIndex y.transport.recvAead z) y.ourIndex
      endpoint) = a.tick.recvData a.now (dataPacket C y.ourIndex y.transport.recvAead z)
        y.ourIndex endpoint := rfl
  rw [Actor.recvData, hdec] at hb
  dsimp only at hb
  have hdoes := Acts.recvDataNoted_does (a := a.tick) hstep
    (by rw [Transport.take_relocated]; exact List.length_pos_iff) hkeys
  rw [Transport.take_relocated] at hdoes
  have htakes : a.tick.env.inboundTakes.head = true := by
    show a.env.inboundTakes.head = true
    rw [hfair.inbound]
    rfl
  rw [htakes] at hdoes
  have hfair' : a.tick.env.Fair t := hfair.later (n := 1) rfl rfl rfl
  generalize hmachine : ({ a.tick.machine with
    endpoint := some endpoint
    next := none
    previous := a.tick.machine.current
    current := some { y with replay := replay } } : Peer C) = machine at hb hdoes
  generalize hrecv : (⟨z.2.length, true, a.tick.machine.previous.map Session.ourIndex⟩ : Recv)
    = recv at hb hdoes
  generalize Crypto.relocated _ _ _ = opened at hb hdoes
  generalize (dataPacket C y.ourIndex y.transport.recvAead z).length = len at hb hdoes
  obtain ⟨henv, -, -⟩ := recvDataNoted_fair { a.tick with machine := machine } a.now endpoint len
    recv opened hfair'.inbound
  obtain ⟨control, inbound, inboundTakes, rxBytes, session, hnoted⟩ := recvDataNoted_frame
    { a.tick with machine := machine } a.now endpoint len recv opened
  have hsession := session_recvDataNoted { a.tick with machine := machine } a.now endpoint len
    recv opened
  have hconfirmed : recv.confirmed = true := by rw [← hrecv]
  rw [hconfirmed, if_pos rfl, Option.map_some] at hsession
  -- a session that was just confirmed is too young for a new handshake
  have hage : ((recvDataNoted { a.tick with machine := machine } a.now endpoint len recv
      opened).session.any fun s => s.rekeyAfterReceive a.now) = false := by
    rw [hsession]
    cases decide (0 < recv.payloadLen) <;> rfl
  rw [recvDataOk_eq, if_neg (Bool.eq_false_iff.mp hage), hconfirmed, if_pos rfl] at hb
  refine ⟨replay, haccepted, _, hb, hdoes, ?_, ?_⟩
  · refine ⟨?_, ?_, ?_, ?_, rfl, ?_, hyoung⟩
    · show Env.Fair t (recvDataNoted _ _ _ _ _ _).env
      rw [henv]
      exact hfair'
    · rw [hnoted, ← hmachine]
    · rw [hnoted, ← hmachine]
    · rw [hnoted, ← hmachine]
    · intro s hs
      cases hsession.symm.trans hs
      cases decide (0 < recv.payloadLen) <;> exact hfirst
  · rw [hnoted]
    rfl

/-- Its payload is delivered, and what is staged goes out. -/
theorem confirming_sends (hseal : C.OpenSeal) (hfair : a.env.Fair t) {y : Session C}
    {acc : List UInt64} (endpoint : SocketAddr) (hnext : a.machine.next = some y)
    (hyoung : t ≤ y.established) (hacc : y.replay.Accepted acc) {z : UInt64 × Bytes}
    (hfresh : Fresh acc z.1)
    (hctr : y.transport.sendCounter.toNat + a.staged.length < rekeyAfterMessages.toNat) :
    let b := a.handleMessage (.recvData (dataPacket C y.ourIndex y.transport.recvAead z)
      y.ourIndex endpoint)
    ∃ replay, replay.Accepted (z.1 :: acc) ∧
      Up t endpoint ({ y with replay := replay }.after a.staged.length) b ∧
      b.inbound = a.inbound ++ delivery [z] ∧
      ∃ new, b.datagrams = a.datagrams ++ new ∧
        (∀ d ∈ new, d.endpoint = endpoint ∧ d.taken = true) ∧
        new.flatMap Datagrams.segments = y.packets a.staged := by
  intro b
  obtain ⟨replay, haccepted, c, hc, hdoes, hup, hqueue⟩ :=
    confirms_session hseal hfair endpoint hnext hyoung hacc hfresh
  have hb : b = { c.flushStaged with sessionReady := true } := hc
  obtain ⟨hkept, hin, new, hnew, hto, hsegments⟩ := hup.flushStaged (by rw [hqueue]; exact hctr)
  rw [hqueue] at hkept hsegments
  rw [hb]
  refine ⟨replay, haccepted, hkept.ready, ?_, new, ?_, hto, hsegments⟩
  · refine hin.trans (hdoes.inbound.trans ?_)
    show a.inbound ++ _ = _
    rcases z with ⟨n, _ | ⟨byte, rest⟩⟩ <;> rfl
  · refine hnew.trans ?_
    rw [hdoes.datagrams]
    exact congrArg (· ++ new) (List.append_nil _)

theorem confirming_deeds (hseal : C.OpenSeal) (hfair : a.env.Fair t) {y : Session C}
    {acc : List UInt64} (endpoint : SocketAddr) (hnext : a.machine.next = some y)
    (hyoung : t ≤ y.established) (hacc : y.replay.Accepted acc) {z : UInt64 × Bytes}
    (hfresh : Fresh acc z.1) (hstaged : a.staged = []) :
    Trace Act a [.received a.now (dataPacket C y.ourIndex y.transport.recvAead z) y.ourIndex
        endpoint z.2 true y.keys]
      (a.handleMessage (.recvData (dataPacket C y.ourIndex y.transport.recvAead z) y.ourIndex
        endpoint)) := by
  obtain ⟨replay, -, c, hc, hdoes, hup, hqueue⟩ :=
    confirms_session hseal hfair endpoint hnext hyoung hacc hfresh
  have hcurrent : c.machine.current.isSome = true := by
    have hsome : c.machine.current = _ := hup.current
    rw [hsome]
    rfl
  rw [hc, sessionEstablished_idle (hqueue.trans hstaged) false]
  exact ((Trace.single (Act.book (Acts.tick_books a))).tail (Act.deed hdoes)).tail
    (Act.book ⟨rfl, rfl, rfl, rfl, rfl, rfl, rfl, Or.inr ⟨rfl, hcurrent⟩⟩)

/-! ### New drivers -/

/-- A driver that has sent an initiation and waits for the response. -/
structure Asks (t : Instant) (endpoint : SocketAddr) (payloads : List Bytes) (ourKey : C.Secret)
    (presharedKey : Option PresharedKey) (pending : PendingHandshake C) (msg : Bytes)
    (a : Actor C) : Prop where
  fair : a.env.Fair t
  ourKey : a.ourKey = ourKey
  presharedKey : a.machine.presharedKey = presharedKey
  pending : a.machine.pending = some pending
  next : a.machine.next = none
  staged : a.staged = payloads
  inbound : a.inbound = []
  datagrams : a.datagrams = [⟨endpoint, msg, msg.length, true⟩]

/-- A driver that has answered an initiation and waits for the first packet on
the session `y`. -/
structure Answers (t : Instant) (endpoint : SocketAddr) (payloads : List Bytes) (y : Session C)
    (msg : Bytes) (a : Actor C) : Prop where
  fair : a.env.Fair t
  next : a.machine.next = some y
  young : t ≤ y.established
  staged : a.staged = payloads
  inbound : a.inbound = []
  datagrams : a.datagrams = [⟨endpoint, msg, msg.length, true⟩]

section

variable {env : Env C}

/-- A new driver connects, and payloads are queued, which wait. -/
theorem spawn_asks {ourKey : C.Secret} {publicKey : PublicKey} (presharedKey : Option PresharedKey)
    (persistentKeepalive : Option Duration) (hfair : env.Fair t) {sent : InitSent C}
    {cookies : Generator C} {msg : Bytes}
    (hinit : InitSent.initiate ourKey publicKey env.values.head.index
      env.values.head.ephemeralSecret env.values.head.timestamp (Generator.new C publicKey)
      (List.replicate initMsgLength 0) = (.ok sent, cookies, msg)) (endpoint : SocketAddr)
    (payloads : List Bytes) (hroom : payloads.length ≤ maxStagedPackets) :
    let a := (spawn ourKey publicKey presharedKey persistentKeepalive env).handleMessage
      (.connect endpoint)
    Asks t endpoint payloads ourKey presharedKey ⟨sent, env.values.head.index⟩ msg
        (a.flushSends payloads) ∧
      Trace Act (spawn ourKey publicKey presharedKey persistentKeepalive env)
        [.endpointSet endpoint, .initiated env.values.head ⟨endpoint, msg, msg.length, true⟩] a ∧
      Books a (a.flushSends payloads) := by
  intro a
  have hi : ((spawn ourKey publicKey presharedKey persistentKeepalive env).tick.setEndpoint
      endpoint).tick.initiation = some ⟨msg, ⟨sent, env.values.head.index⟩⟩ := initiation_of_ok hinit
  obtain ⟨hfair', hattempt, hour, hstaged, hinbound, hdatagrams, gen, hmachine⟩ :=
    connect_sends (t := t) hfair rfl hi
  have hwrites : ((spawn ourKey publicKey presharedKey persistentKeepalive env).machine.setEndpoint
      endpoint).initiate ourKey env.values.head (List.replicate initMsgLength 0)
        = (.ok none, _, msg) := Peer.initiate_ok List.length_replicate.ge hinit
  have hdeeds := connect_deeds (a := spawn ourKey publicKey presharedKey persistentKeepalive env) rfl
    endpoint hwrites
  have htakes : (spawn ourKey publicKey presharedKey persistentKeepalive
      env).env.socketTakes.head = true := by
    show env.socketTakes.head = true
    rw [hfair.socket]
    rfl
  rw [htakes] at hdeeds
  obtain ⟨hbooks, hfair'', -, hstaged'⟩ := flushSends_waiting hfair' (by rw [hmachine]; rfl) payloads
    (by rw [hstaged]; exact (Nat.zero_add _).symm ▸ hroom) (Or.inl hattempt)
  refine ⟨⟨hfair'', hbooks.ourKey.trans hour, ?_, ?_, ?_, ?_, hbooks.inbound.trans hinbound,
    hbooks.datagrams.trans hdatagrams⟩, hdeeds, hbooks⟩
  · rw [hbooks.machine, hmachine]
    rfl
  · rw [hbooks.machine, hmachine]
  · rw [hbooks.machine, hmachine]
    rfl
  · rw [hstaged', hstaged]
    rfl

/-- A new driver, on which payloads wait, answers an initiation. -/
theorem spawn_answers (ourKey : C.Secret) {publicKey : PublicKey}
    {presharedKey : Option PresharedKey} (persistentKeepalive : Option Duration)
    (hfair : env.Fair t) {recv : InitReceived C} {established : ReceiverEstablished C}
    {cookies : Generator C} {msg : Bytes}
    (hresp : recv.respond env.values.head.index env.values.head.ephemeralSecret presharedKey
      env.values.head.timestamp (Generator.new C publicKey) (List.replicate respMsgLength 0)
        = (.ok established, cookies, msg)) (endpoint : SocketAddr)
    (payloads : List Bytes) (hroom : payloads.length ≤ maxStagedPackets) :
    let a := (spawn ourKey publicKey presharedKey persistentKeepalive env).flushSends payloads
    let y := Session.new established.finish a.now
    Answers t endpoint payloads y msg (a.handleMessage (.recvHandshakeInit recv endpoint)) ∧
      Books (spawn ourKey publicKey presharedKey persistentKeepalive env) a ∧
      Trace Act a [.responded a.now recv env.values.head ⟨endpoint, msg, msg.length, true⟩ y.keys]
        (a.handleMessage (.recvHandshakeInit recv endpoint)) := by
  intro a y
  obtain ⟨hbooks, hfair', hvalues, hstaged⟩ := flushSends_waiting
    (a := spawn ourKey publicKey presharedKey persistentKeepalive env) hfair rfl payloads
    ((Nat.zero_add _).symm ▸ hroom) (Or.inr rfl)
  have hvalues' : a.values = env.values.head := congrArg Stream'.head hvalues
  have hrespond := respond_first (a := a) endpoint
    (by rw [hbooks.machine]; rfl) (by rw [hbooks.machine]; rfl)
    (by rw [hvalues', hbooks.machine]; exact hresp)
  obtain ⟨hfair'', hstaged', hinbound, hdatagrams, hmachine⟩ := respond_sends hfair' hrespond
  have htakes : a.env.socketTakes.head = true := by
    rw [hfair'.socket]
    rfl
  have hdeeds := respond_deeds hrespond y.keys rfl
  rw [hvalues', htakes] at hdeeds
  refine ⟨⟨hfair'', ?_, (hfair'.clock 0).1, hstaged'.trans hstaged, ?_, ?_⟩, hbooks, hdeeds⟩
  · rw [hmachine]
  · rw [hinbound]
    exact hbooks.inbound
  · rw [hdatagrams, hbooks.datagrams]
    rfl

end

end Actor

end Tunstile
