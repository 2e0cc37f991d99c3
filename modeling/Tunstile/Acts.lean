/-
Tunstile/Acts.lean

The operations of a driver as traces of deeds.

Each part of a turn is followed from call to call, with the bookkeeping of the
actor in between (`Acts.part`).  Every turn of the event loop is thus a trace
of deeds, which carry out the actions that it brings, one after the other
(`acts_turn`), and so is every run (`Log`).  The control messages of a turn are the reports
of what the machine did in it (`follows_turn`).
-/
import Tunstile.Deeds

namespace Tunstile

variable {C : Crypto}

namespace Actor

/-- The payloads of one round of the sending loop have one packet size. -/
theorem packetLen_of_mem_take (maxSegments : ℕ) {payload q : Bytes} {rest : List Bytes}
    (h : q ∈ (payload :: rest).take (batchLen maxSegments (packetLen payload.length) 1 rest)) :
    packetLen q.length = packetLen payload.length := by
  obtain ⟨m, hm⟩ :=
    Nat.exists_eq_add_of_le' (le_batchLen maxSegments (packetLen payload.length) 1 rest)
  rw [hm, List.take_succ_cons] at h
  rcases List.mem_cons.mp h with rfl | hrest
  · rfl
  · have hmem : q ∈ rest.take (batchLen maxSegments (packetLen payload.length) 1 rest - 1) := by
      rwa [hm, Nat.add_sub_cancel]
    exact packetLen_of_mem_batch hmem

/-! ### Operations as traces of deeds -/

/-- The handle knows of a session, and there is one to send on. -/
def Latched (a : Actor C) : Prop := a.sessionReady = a.machine.current.isSome

/-- The operation from `a` to `a'` is a trace of acts, which carry out the
given actions.  Between two operations the handle knows whether there is a
session. -/
def Acts (actions : List (PeerAction C)) (a a' : Actor C) : Prop :=
  a.machine.Healthy → ∃ log, Trace Act a log a' ∧ Carries actions log ∧
    (a.Latched → a'.Latched)

namespace Acts

variable {actions : List (PeerAction C)}

theorem refl (a : Actor C) : Acts [] a a := fun _ => ⟨[], .refl a, .nil, id⟩

theorem trans {actions' : List (PeerAction C)} {a b c : Actor C} (h : Acts actions a b)
    (h' : Acts actions' b c) : Acts (actions ++ actions') a c := by
  intro hp
  obtain ⟨log, htrace, hlog, hlatched⟩ := h hp
  obtain ⟨log', htrace', hlog', hlatched'⟩ :=
    h' (htrace.keeps_state (fun _ _ _ hp h => h.healthy hp) hp)
  exact ⟨log ++ log', htrace.trans htrace', hlog.append hlog', hlatched' ∘ hlatched⟩

/-- Something of the driver's own comes first. -/
theorem first {a b c : Actor C} (h : Acts [] a b) (h' : Acts actions b c) : Acts actions a c :=
  h.trans h'

theorem book {a a' : Actor C} (h : Books a a') : Acts [] a a' := by
  refine fun _ => ⟨[], .single (.book h), .nil, fun hlatched => ?_⟩
  rcases h.ready with hsame | ⟨hready, hcurrent⟩
  · rw [Latched, hsame, h.machine]
    exact hlatched
  · exact hready.trans hcurrent.symm

/-- A deed after which there is a send session only if there was one. -/
theorem deed_of_current {a a' : Actor C} (deed : Deed C) (h : Does a deed a')
    (hcarries : Carries actions [deed])
    (hcurrent : a.machine.Healthy → a'.machine.current.isSome = a.machine.current.isSome) :
    Acts actions a a' := by
  refine fun hp => ⟨[deed], .single (.deed h), hcarries, fun hlatched => ?_⟩
  rw [Latched, h.ready, hcurrent hp]
  exact hlatched

theorem deed {a a' : Actor C} (deed : Deed C) (h : Does a deed a')
    (hcarries : Carries actions [deed]) (hdeed : deed.establishes = false) :
    Acts actions a a' := by
  refine deed_of_current deed h hcarries fun hp => (h.machine.current_cases hp).resolve_right ?_
  exact fun hsome => Bool.false_ne_true (hdeed.symm.trans hsome.1)

theorem own {a a' : Actor C} (deed : Deed C) (h : Does a deed a') (hown : deed.own = true) :
    Acts [] a a' :=
  Acts.deed deed h (.own deed hown .nil) (Deed.establishes_of_own hown)

/-- An action that makes no setting may be passed over. -/
theorem pass {a a' : Actor C} {action : PeerAction C} (h : Acts actions a a')
    (hnone : action.settings = []) : Acts (action :: actions) a a' := by
  intro hp
  obtain ⟨log, htrace, hlog, hlatched⟩ := h hp
  refine ⟨log, htrace, ?_, hlatched⟩
  have hpassed := Carries.settings action hlog
  rwa [hnone] at hpassed

theorem tick_books (a : Actor C) : Books a a.tick :=
  ⟨rfl, rfl, rfl, rfl, rfl, rfl, rfl, Or.inl rfl⟩

theorem tick (a : Actor C) : Acts [] a a.tick := book (tick_books a)

/-- What is shown of a healthy machine. -/
theorem of_healthy {a a' : Actor C} (h : a.machine.Healthy → Acts actions a a') :
    Acts actions a a' := fun hp => h hp hp

/-- A call that fails leaves the actor as it was, but for its books. -/
theorem failed {a a' : Actor C} {op : Peer.Op C} {e : PeerError} {machine : Peer C}
    (h : a.machine.step op = (.error e, machine))
    (hbooks : Books { a with machine := machine } a') : Acts [] a a' := by
  refine of_healthy fun hp => book ?_
  cases Peer.eq_of_step_error hp.wellFormed h
  exact hbooks

/-! ### Handshakes -/

/-- The attempt is noted first, whatever the machine then does. -/
theorem unwritten_books (a : Actor C) (firstSent : Instant) : Books a (a.unwritten firstSent) :=
  ⟨rfl, rfl, rfl, rfl, rfl, rfl, rfl, Or.inl rfl⟩

theorem sendHandshake_does {a : Actor C} (firstSent : Instant) {endpoint : SocketAddr}
    (hendpoint : a.machine.endpoint = some endpoint) {replaced : Option UInt32} {machine : Peer C}
    {msg : Bytes} (hinit : a.machine.initiate a.ourKey a.values (List.replicate initMsgLength 0)
      = (.ok replaced, machine, msg)) :
    Does (a.unwritten firstSent)
      (.initiated a.values ⟨endpoint, msg, msg.length, a.env.socketTakes.head⟩)
      (a.sendHandshake firstSent) := by
  have hstep : a.machine.step (.initiate a.ourKey a.values (List.replicate initMsgLength 0))
      = (.written replaced msg, machine) := by rw [Peer.step, hinit]
  have hcontrol := control_routed { a.unwritten firstSent with machine := machine } replaced
    a.values.index
  unfold Actor.sendHandshake
  rw [hendpoint]
  dsimp only [jittered, drawn, Actor.tick, Actor.values] at hinit ⊢
  rw [hinit]
  simp only [send, sendSegments]
  cases replaced <;> dsimp only [retireIndex, bindIndex] <;> cases htakes : a.env.socketTakes.head
  all_goals exact ⟨rfl, .initiated hendpoint rfl hstep, rfl, (List.append_nil _).symm,
    (List.append_nil _).symm, rfl, rfl, .call (a := a.unwritten firstSent) hstep rfl hcontrol⟩

theorem sendHandshake (a : Actor C) (firstSent : Instant) :
    Acts [] a (a.sendHandshake firstSent) := by
  cases hendpoint : a.machine.endpoint with
  | none =>
      rw [sendHandshake_of_no_endpoint (by rw [hendpoint]; rfl)]
      exact refl a
  | some endpoint =>
      refine first (b := a.unwritten firstSent) (book (unwritten_books a firstSent)) ?_
      rcases hinit : a.machine.initiate a.ourKey a.values (List.replicate initMsgLength 0)
        with ⟨e | replaced, machine, msg⟩
      · have hstep : a.machine.step (.initiate a.ourKey a.values (List.replicate initMsgLength 0))
            = (.error e, machine) := by rw [Peer.step, hinit]
        unfold Actor.sendHandshake
        rw [hendpoint]
        dsimp only [jittered, drawn, Actor.tick, Actor.values] at hinit ⊢
        rw [hinit]
        exact failed (a := a.unwritten firstSent) hstep
          ⟨rfl, rfl, rfl, rfl, rfl, rfl, rfl, Or.inl rfl⟩
      · exact own _ (sendHandshake_does firstSent hendpoint hinit) rfl

theorem ensureHandshake (a : Actor C) : Acts [] a a.ensureHandshake := by
  unfold Actor.ensureHandshake
  split
  · exact (tick a).trans (sendHandshake a.tick a.now)
  · exact refl a

theorem setEndpoint_does (a : Actor C) (endpoint : SocketAddr) :
    Does a (.endpointSet endpoint) (a.setEndpoint endpoint) :=
  ⟨rfl, .endpointSet endpoint, (List.append_nil _).symm, (List.append_nil _).symm,
    (List.append_nil _).symm, rfl, rfl, .silent (.setEndpoint endpoint) rfl rfl rfl rfl⟩

theorem connect (a : Actor C) (endpoint : SocketAddr) :
    Acts [.connect endpoint] a (a.setEndpoint endpoint).ensureHandshake :=
  (deed _ (setEndpoint_does a endpoint) (.of_settings (.connect endpoint)) rfl).trans
    (ensureHandshake _)

theorem applyUpdate (a : Actor C) (update : PeerUpdate) :
    Acts [.update update] a (a.applyUpdate update) := by
  have hkey (p : Option PresharedKey) :
      Act a [.presharedKeySet p] { a with machine := a.machine.setPresharedKey p } :=
    .deed ⟨rfl, .presharedKeySet p, (List.append_nil _).symm, (List.append_nil _).symm,
      (List.append_nil _).symm, rfl, rfl, .silent (.setPresharedKey p) rfl rfl rfl rfl⟩
  obtain ⟨endpoint, presharedKey, persistentKeepalive⟩ := update
  have hsettings : Trace Act a (presharedKey.value.toList.map .presharedKeySet)
      (a.applyUpdate ⟨none, presharedKey, persistentKeepalive⟩) := by
    cases presharedKey <;> cases persistentKeepalive <;>
      first
      | exact .single (.book ⟨rfl, rfl, rfl, rfl, rfl, rfl, rfl, Or.inl rfl⟩)
      | exact (Trace.single (hkey _)).trans
          (.single (.book ⟨rfl, rfl, rfl, rfl, rfl, rfl, rfl, Or.inl rfl⟩))
  have hlatched : a.Latched →
      (a.applyUpdate ⟨none, presharedKey, persistentKeepalive⟩).Latched := by
    cases presharedKey <;> cases persistentKeepalive <;> exact id
  cases endpoint with
  | none =>
      have hcarries := Carries.of_settings
        (.update ⟨none, presharedKey, persistentKeepalive⟩ : PeerAction C)
      rw [PeerAction.settings, Option.toList_none, List.map_nil, List.append_nil] at hcarries
      exact fun _ => ⟨_, hsettings, hcarries, hlatched⟩
  | some endpoint =>
      -- the endpoint is set last, on what an update without one leaves
      have hset : Acts [.update ⟨some endpoint, presharedKey, persistentKeepalive⟩] a
          ((a.applyUpdate ⟨none, presharedKey, persistentKeepalive⟩).setEndpoint endpoint) :=
        fun _ => ⟨_, hsettings.trans (.single (.deed (setEndpoint_does _ endpoint))),
          .of_settings (.update ⟨some endpoint, presharedKey, persistentKeepalive⟩), hlatched⟩
      exact hset.trans (ensureHandshake _)

/-! ### Sending data -/

/-- What the encryption loop over one batch does to the actor, exactly. -/
theorem encryptBatch_seals (now : Instant) (segmentSize : ℕ) {a : Actor C}
    (hp : a.machine.Healthy) (payloads : List Bytes) :
    let b := encryptBatch now segmentSize a payloads
    ∃ packets machine ledger,
      b.actor = { a with
        machine := machine
        sealed := a.sealed ++ (payloads.take b.encrypted).map .payload
        ledger := ledger } ∧
      b.bytes = packets.flatten ∧
      a.machine.Seals now segmentSize (payloads.take b.encrypted) packets machine := by
  induction payloads generalizing a with
  | nil => exact ⟨[], a.machine, a.ledger, by simp [encryptBatch], rfl, .nil _⟩
  | cons payload rest ih =>
      rcases h : a.machine.encrypt now payload (List.replicate segmentSize 0)
        with ⟨e | n, machine, buf⟩
      · have hsame : machine = a.machine := by
          have hstep : a.machine.step (.encrypt now payload (List.replicate segmentSize 0))
              = (.error e, machine) := by
            rw [Peer.step, h]
          exact Peer.eq_of_step_error hp.wellFormed hstep
        simp only [encryptBatch, h, hsame]
        exact ⟨[], a.machine, a.ledger, by simp, rfl, .nil _⟩
      · have hstep := Peer.step_encrypt_of_ok h
        obtain ⟨packets, machine', ledger, hactor, hbytes, hseals⟩ := ih (a := { a with
            machine := machine
            sealed := a.sealed ++ [.payload payload]
            ledger := a.ledger ++ [(payload, .encrypted)] }) (Peer.healthy_of_step hp hstep)
        simp only [encryptBatch, h]
        refine ⟨buf :: packets, machine', ledger, ?_, ?_, ?_⟩
        · rw [hactor, List.take_succ_cons, List.map_cons, List.append_assoc]
          rfl
        · rw [hbytes, List.flatten_cons]
        · rw [List.take_succ_cons]
          exact .cons hstep hseals

/-- One round of the sending loop: what was encrypted goes out in one
batch. -/
theorem batch_does (now : Instant) {a : Actor C} (hp : a.machine.Healthy) {segmentSize : ℕ}
    {payloads : List Bytes} (hsize : ∀ payload ∈ payloads, packetLen payload.length = segmentSize)
    (hpos : 0 < (encryptBatch now segmentSize a payloads).encrypted) :
    ∃ d keys, Does a
      (.sent now (payloads.take (encryptBatch now segmentSize a payloads).encrypted) d keys)
      ((encryptBatch now segmentSize a payloads).send segmentSize).2 := by
  obtain ⟨packets, machine, ledger, hactor, hbytes, hseals⟩ :=
    encryptBatch_seals now segmentSize hp payloads
  have hle := encryptBatch_encrypted_le now segmentSize a payloads
  generalize encryptBatch now segmentSize a payloads = b at *
  obtain ⟨actor, encrypted, bytes, stalled⟩ := b
  dsimp only at *
  subst hactor
  have hne : payloads.take encrypted ≠ [] := by
    rw [← List.length_pos_iff, List.length_take, Nat.min_eq_left hle]
    exact hpos
  have hsize' : ∀ payload ∈ payloads.take encrypted, packetLen payload.length = segmentSize :=
    fun payload hmem => hsize payload (List.mem_of_mem_take hmem)
  obtain ⟨endpoint, hendpoint⟩ := hseals.exists_endpoint hne
  obtain ⟨keys, hkeys⟩ := hseals.exists_sendKeys hp.wellFormed hne
  refine ⟨⟨endpoint, bytes, segmentSize, a.env.socketTakes.head⟩, keys, ?_⟩
  unfold Batch.send
  dsimp only
  rw [if_pos hpos, hseals.endpoint_eq.trans hendpoint]
  simp only [sendSegments]
  cases htakes : a.env.socketTakes.head <;>
    exact ⟨rfl, .sent hendpoint hne hsize' hbytes hseals hkeys, rfl, (List.append_nil _).symm,
      rfl, rfl, rfl, .seals hseals rfl⟩

theorem batch (now : Instant) (a : Actor C) {segmentSize : ℕ} {payloads : List Bytes}
    (hsize : ∀ payload ∈ payloads, packetLen payload.length = segmentSize) :
    Acts [] a ((encryptBatch now segmentSize a payloads).send segmentSize).2 := by
  refine of_healthy fun hp => ?_
  by_cases hpos : 0 < (encryptBatch now segmentSize a payloads).encrypted
  · obtain ⟨d, keys, hdoes⟩ := batch_does now hp hsize hpos
    exact own _ hdoes rfl
  · -- nothing was encrypted
    obtain ⟨packets, machine, ledger, hactor, -, hseals⟩ :=
      encryptBatch_seals now segmentSize hp payloads
    rw [Nat.eq_zero_of_not_pos hpos, List.take_zero] at hseals hactor
    cases hseals
    unfold Batch.send
    rw [if_neg hpos, hactor]
    exact book ⟨rfl, rfl, rfl, rfl, rfl, List.append_nil _, rfl, Or.inl rfl⟩

theorem sendBatches (now : Instant) (gsoSegments : ℕ) (a : Actor C) (payloads : List Bytes)
    (sent encryptedAny : Bool) :
    Acts [] a (a.sendBatches now gsoSegments payloads sent encryptedAny).actor := by
  fun_induction Actor.sendBatches now gsoSegments a payloads sent encryptedAny with
  | case1 a sent encryptedAny => exact refl a
  | case2 a sent encryptedAny payload rest segmentSize maxSegments n =>
      exact batch now a fun _ => packetLen_of_mem_take maxSegments
  | case3 a sent encryptedAny payload rest segmentSize maxSegments n batch left sent' any' hgo ih =>
      exact (Acts.batch now a fun _ => packetLen_of_mem_take maxSegments).trans ih

theorem flushSends (a : Actor C) (payloads : List Bytes) :
    Acts [] a (a.flushSends payloads) := by
  by_cases hp : payloads = []
  · rw [Actor.flushSends, if_pos hp]
    exact refl a
  rw [flushSends_eq a hp]
  have hstart : Acts [] a a.flushStart := book ⟨rfl, rfl, rfl, rfl, rfl, rfl, rfl, Or.inl rfl⟩
  have hflushed : Acts [] a (a.flushed payloads).actor :=
    hstart.trans (sendBatches _ _ _ payloads false false)
  split
  · obtain ⟨staged, ledger, hstage⟩ :=
      stage_frame { (a.flushed payloads).actor with session := none } (a.flushed payloads).rest
    rw [hstage]
    have hstaged : Acts [] (a.flushed payloads).actor
        { (a.flushed payloads).actor with session := none, staged := staged, ledger := ledger } :=
      book ⟨rfl, rfl, rfl, rfl, rfl, rfl, rfl, Or.inl rfl⟩
    exact (hflushed.trans hstaged).trans (ensureHandshake _)
  · obtain ⟨lastSend, session, rekeyJitter, hdone⟩ := a.flushDone_cases payloads
    have hdone' : Acts [] a (a.flushDone payloads) := by
      rw [hdone]
      exact hflushed.trans (book ⟨rfl, rfl, rfl, rfl, rfl, rfl, rfl, Or.inl rfl⟩)
    split
    · exact hdone'.trans (sendHandshake _ _)
    · exact hdone'

theorem keepaliveDone {a : Actor C} {endpoint : SocketAddr} {machine : Peer C} {msg : Bytes}
    (hendpoint : a.machine.endpoint = some endpoint)
    (henc : a.machine.encrypt a.now [] (List.replicate (packetLen 0) 0)
      = (.ok (packetLen 0), machine, msg)) : Acts [] a (a.keepaliveDone machine endpoint msg) := by
  have hstep := Peer.step_encrypt_of_ok henc
  have hlen : msg.length = packetLen 0 := by
    rw [Peer.length_of_step_encrypt hstep, List.length_replicate]
  refine of_healthy fun hp => ?_
  obtain ⟨keys, hkeys⟩ := (Peer.effect_of_step hp.wellFormed hstep).exists_sendKeys
  have hsent : Does a (.keptAlive a.now ⟨endpoint, msg, msg.length, a.env.socketTakes.head⟩ keys)
      (a.keepaliveDone machine endpoint msg) :=
    ⟨rfl, .keptAlive hendpoint rfl hstep hkeys, rfl, (List.append_nil _).symm, rfl,
      by rw [Actor.keepaliveDone, ← hlen, Deed.count], rfl, .silent _ hstep rfl rfl rfl⟩
  exact own _ hsent rfl

theorem sending : Sending fun a b : Actor C => Acts [] a b where
  refl := refl
  trans := trans
  ensureHandshake := ensureHandshake
  flushSends := flushSends
  keepaliveFailed := by
    intro a e machine out henc
    have hstep : a.machine.step (.encrypt a.now [] (List.replicate (packetLen 0) 0))
        = (.error e, machine) := by rw [Peer.step, henc]
    exact failed hstep ⟨rfl, rfl, rfl, rfl, rfl, rfl, rfl, Or.inl rfl⟩
  keepaliveDone := keepaliveDone

/-- A deed that gave the machine a send session, and what comes of it. -/
theorem sessionEstablished {a b : Actor C} (deed : Deed C) (h : Does a deed b)
    (hcarries : Carries actions [deed]) (initiator : Bool)
    (hcurrent : b.machine.current.isSome = true) :
    Acts actions a (b.sessionEstablished initiator) := by
  intro hp
  have hb : b.machine.Healthy := h.machine.healthy hp
  obtain ⟨c, hc, heq⟩ := sending.sessionEstablished b initiator
  obtain ⟨log, htrace, hlog, -⟩ := hc hb
  have hstill := current_of_trace htrace hb hcurrent
  have htaken : Books b { b with staged := [] } := ⟨rfl, rfl, rfl, rfl, rfl, rfl, rfl, Or.inl rfl⟩
  have htold : Books c { c with sessionReady := true } :=
    ⟨rfl, rfl, rfl, rfl, rfl, rfl, rfl, Or.inr ⟨rfl, hstill⟩⟩
  have hall := hcarries.append hlog
  have hacts := ((Trace.single (Act.deed h)).tail (.book htaken)).trans (htrace.tail (.book htold))
  rw [List.append_nil] at hall hacts
  rw [List.append_nil, ← heq] at hacts
  exact ⟨[deed] ++ log, hacts, hall, fun _ => heq ▸ hstill.symm⟩

/-! ### Handling actions -/

/-- Noting and delivering a data message is one deed. -/
theorem recvDataNoted_does {a : Actor C} {now : Instant} {data opened : Bytes} {receiver : UInt32}
    {endpoint : SocketAddr} {recv : Recv} {machine : Peer C}
    (h : a.machine.step (.decrypt now receiver data endpoint) = (.decrypted recv opened, machine))
    (hempty : 0 < recv.payloadLen ↔ opened.take recv.payloadLen ≠ [])
    {keys : SessionKeys C} (hkeys : a.machine.matchingKeys receiver = some keys) :
    Does a (.received now data receiver endpoint (opened.take recv.payloadLen)
        a.env.inboundTakes.head keys)
      ({ a with machine := machine }.recvDataNoted now endpoint data.length recv opened) := by
  have hstatus := status_recvDataNoted { a with machine := machine } now endpoint data.length recv
    opened
  have hcontrol := control_recvDataNoted { a with machine := machine } now endpoint data.length recv
    opened
  have hinbound := inbound_recvDataNoted { a with machine := machine } now endpoint data.length recv
    opened
  obtain ⟨_, _, _, _, _, hnoted⟩ :=
    recvDataNoted_frame { a with machine := machine } now endpoint data.length recv opened
  rw [hnoted] at hstatus hcontrol hinbound ⊢
  refine ⟨rfl, .received h hkeys, (List.append_nil _).symm, ?_, (List.append_nil _).symm, hstatus,
    rfl, .rotated h rfl rfl hcontrol⟩
  simpa only [Deed.delivered, hempty] using hinbound

/-- A data message that is opened is delivered as one deed, after which there
is a send session if it confirmed one. -/
theorem exists_received {a : Actor C} {now : Instant} {data opened : Bytes} {receiver : UInt32}
    {endpoint : SocketAddr} {recv : Recv} {machine : Peer C}
    (h : a.machine.step (.decrypt now receiver data endpoint) = (.decrypted recv opened, machine))
    (hp : a.machine.Healthy) :
    ∃ deed, Does a deed
        ({ a with machine := machine }.recvDataNoted now endpoint data.length recv opened) ∧
      Carries [.recvData data receiver endpoint] [deed] ∧
      ({ a with machine := machine }.recvDataNoted now endpoint data.length recv
        opened).machine.current.isSome = (recv.confirmed || a.machine.current.isSome) := by
  have heff := Peer.effect_of_step hp.wellFormed h
  obtain ⟨keys, hkeys⟩ := heff.exists_matchingKeys
  have hempty : 0 < recv.payloadLen ↔ opened.take recv.payloadLen ≠ [] := by
    cases heff <;> exact Transport.take_relocated.symm ▸ List.length_pos_iff
  refine ⟨_, recvDataNoted_does h hempty hkeys, .message _ rfl .nil, ?_⟩
  obtain ⟨_, _, _, _, _, hnoted⟩ :=
    recvDataNoted_frame { a with machine := machine } now endpoint data.length recv opened
  rw [hnoted]
  exact heff.current_of_decrypted

theorem received {a : Actor C} {now : Instant} {data opened : Bytes} {receiver : UInt32}
    {endpoint : SocketAddr} {recv : Recv} {machine : Peer C}
    (h : a.machine.step (.decrypt now receiver data endpoint) = (.decrypted recv opened, machine))
    (hconfirmed : recv.confirmed = false) :
    Acts [.recvData data receiver endpoint] a
      ({ a with machine := machine }.recvDataNoted now endpoint data.length recv opened) := by
  refine of_healthy fun hp => ?_
  obtain ⟨deed, hdoes, hcarries, hcurrent⟩ := exists_received h hp
  refine deed_of_current deed hdoes hcarries fun _ => ?_
  rw [hcurrent, hconfirmed, Bool.false_or]

theorem confirmed {a : Actor C} {now : Instant} {data opened : Bytes} {receiver : UInt32}
    {endpoint : SocketAddr} {recv : Recv} {machine : Peer C}
    (h : a.machine.step (.decrypt now receiver data endpoint) = (.decrypted recv opened, machine))
    (hconfirmed : recv.confirmed = true) :
    Acts [.recvData data receiver endpoint] a
      (({ a with machine := machine }.recvDataNoted now endpoint data.length recv
        opened).sessionEstablished false) := by
  refine of_healthy fun hp => ?_
  obtain ⟨deed, hdoes, hcarries, hcurrent⟩ := exists_received h hp
  refine sessionEstablished deed hdoes hcarries false ?_
  rw [hcurrent, hconfirmed, Bool.true_or]

theorem drawn_books (a : Actor C) : Books a a.drawn :=
  ⟨rfl, rfl, rfl, rfl, rfl, rfl, rfl, Or.inl rfl⟩

theorem recvHandshakeInit_does {a : Actor C} {now : Instant} {handshake : InitReceived C}
    {endpoint : SocketAddr} {displaced : Option UInt32} {machine : Peer C} {msg : Bytes}
    (hresp : a.machine.respond now handshake a.values endpoint (List.replicate respMsgLength 0)
      = (.ok displaced, machine, msg))
    {keys : SessionKeys C} (hkeys : machine.nextKeys = some keys) :
    Does a.drawn (.responded now handshake a.values
        ⟨endpoint, msg, msg.length, a.env.socketTakes.head⟩ keys)
      (a.recvHandshakeInit now handshake endpoint) := by
  have hstep : a.machine.step (.respond now handshake a.values endpoint
      (List.replicate respMsgLength 0)) = (.written displaced msg, machine) := by
    rw [Peer.step, hresp]
  have hresp' : a.drawn.machine.respond now handshake a.values endpoint
    (List.replicate respMsgLength 0) = (.ok displaced, machine, msg) := hresp
  have hcontrol := control_routed { a.drawn with machine := machine } displaced a.values.index
  unfold Actor.recvHandshakeInit
  dsimp only
  rw [hresp']
  simp only [send, sendSegments]
  cases displaced <;> dsimp only [retireIndex, bindIndex, drawn] <;>
    cases htakes : a.env.socketTakes.head
  all_goals exact ⟨rfl, .responded rfl hstep hkeys, rfl, (List.append_nil _).symm,
    (List.append_nil _).symm, rfl, rfl, .call (a := a.drawn) hstep rfl hcontrol⟩

theorem recvHandshakeInit (a : Actor C) (now : Instant) {handshake : InitReceived C}
    {endpoint : SocketAddr} :
    Acts [.recvHandshakeInit handshake endpoint] a
      (a.recvHandshakeInit now handshake endpoint) := by
  refine of_healthy fun hp => first (b := a.drawn) (book (drawn_books a)) ?_
  rcases hresp : a.machine.respond now handshake a.values endpoint (List.replicate respMsgLength 0)
    with ⟨e | displaced, machine, msg⟩
  · have hstep : a.machine.step (.respond now handshake a.values endpoint
        (List.replicate respMsgLength 0)) = (.error e, machine) := by
      rw [Peer.step, hresp]
    have hresp' : a.drawn.machine.respond now handshake a.values endpoint
      (List.replicate respMsgLength 0) = (.error e, machine, msg) := hresp
    unfold Actor.recvHandshakeInit
    dsimp only
    rw [hresp']
    exact (failed (a := a.drawn) hstep
      ⟨rfl, rfl, rfl, rfl, rfl, rfl, rfl, Or.inl rfl⟩).pass rfl
  · have hstep : a.machine.step (.respond now handshake a.values endpoint
        (List.replicate respMsgLength 0)) = (.written displaced msg, machine) := by
      rw [Peer.step, hresp]
    obtain ⟨keys, hkeys⟩ := (Peer.effect_of_step hp.wellFormed hstep).exists_nextKeys
    exact deed _ (recvHandshakeInit_does hresp hkeys) (.message _ rfl .nil) rfl

theorem responseNoted_does {a : Actor C} {now : Instant} {resp : Bytes} {endpoint : SocketAddr}
    {retired : Option UInt32} {machine : Peer C}
    (h : a.machine.step (.handshakeResponse a.ourKey now resp endpoint)
      = (.rotated retired, machine))
    {keys : SessionKeys C} (hkeys : machine.currentKeys = some keys) :
    Does a (.answered now resp endpoint keys)
      (a.responseNoted now resp endpoint retired machine) := by
  have hcontrol := control_retireIndex { a with machine := machine } retired
  cases retired <;> exact ⟨rfl, .answered h hkeys, (List.append_nil _).symm,
    (List.append_nil _).symm, (List.append_nil _).symm, rfl, rfl, .rotated h rfl rfl hcontrol⟩

theorem answered {a : Actor C} {now : Instant} {resp : Bytes} {endpoint : SocketAddr}
    {retired : Option UInt32} {machine : Peer C}
    (h : a.machine.step (.handshakeResponse a.ourKey now resp endpoint)
      = (.rotated retired, machine)) :
    Acts [.recvHandshakeResp resp endpoint] a
      ((a.responseNoted now resp endpoint retired machine).sessionEstablished true) := by
  refine of_healthy fun hp => ?_
  have heff := Peer.effect_of_step hp.wellFormed h
  obtain ⟨keys, hkeys⟩ := heff.exists_currentKeys
  refine sessionEstablished _ (responseNoted_does h hkeys) (.message _ rfl .nil) true ?_
  cases retired <;> exact heff.current_of_rotated

theorem recvCookieReply (a : Actor C) {reply : Bytes} :
    Acts [.recvCookieReply reply] a (a.recvCookieReply reply) := by
  unfold Actor.recvCookieReply
  dsimp only
  rcases hreply : a.machine.cookieReply reply a.env.wall.head with ⟨e | ⟨⟨⟩⟩, machine⟩
  · have hstep : a.machine.step (.cookieReply reply a.env.wall.head) = (.error e, machine) := by
      rw [Peer.step, hreply]
    refine pass ?_ rfl
    exact failed hstep ⟨rfl, rfl, rfl, rfl, rfl, rfl, rfl, Or.inl rfl⟩
  · have hstep : a.machine.step (.cookieReply reply a.env.wall.head) = (.done, machine) := by
      rw [Peer.step, hreply]
    exact deed (.cookieStored reply a.env.wall.head) ⟨rfl, .cookieStored hstep,
      (List.append_nil _).symm, (List.append_nil _).symm, (List.append_nil _).symm, rfl,
      rfl, .silent _ hstep rfl rfl rfl⟩ (.message _ rfl .nil) rfl

theorem handshakeDue (a : Actor C) : Acts [] a a.handshakeDue := by
  unfold Actor.handshakeDue
  split
  · exact refl a
  dsimp only
  refine first (tick a) ?_
  split
  · have hstep : a.machine.step .abandonHandshake
        = (.rotated a.machine.abandonHandshake.1, a.machine.abandonHandshake.2) := rfl
    refine own .abandoned ?_ rfl
    have hcontrol := control_retireIndex { a with machine := a.machine.abandonHandshake.2 }
      a.machine.abandonHandshake.1
    show Does a.tick _ (retireIndex _ a.machine.abandonHandshake.1)
    generalize a.machine.abandonHandshake.1 = retired at hstep hcontrol ⊢
    cases retired <;> exact ⟨rfl, .abandoned hstep, (List.append_nil _).symm,
      (List.append_nil _).symm, (List.append_nil _).symm, rfl, rfl, .rotated hstep rfl rfl hcontrol⟩
  · exact sendHandshake a.tick _

theorem part {a b : Actor C} (h : Part a actions b) : Acts actions a b := by
  cases h with
  | tick => exact tick a
  | ensured => exact ensureHandshake a
  | collected payload => exact (refl a).pass rfl
  | flushed payloads => exact flushSends a payloads
  | connected endpoint => exact connect a endpoint
  | updated update => exact applyUpdate a update
  | initiationReceived handshake endpoint => exact (tick a).trans (recvHandshakeInit _ _)
  | cookieReceived reply => exact recvCookieReply a
  | unanswered h =>
      exact ((tick a).trans (failed h ⟨rfl, rfl, rfl, rfl, rfl, rfl, rfl, Or.inl rfl⟩)).pass rfl
  | answered h => exact (tick a).trans (answered h)
  | undecrypted h =>
      exact ((tick a).trans (failed h ⟨rfl, rfl, rfl, rfl, rfl, rfl, rfl, Or.inl rfl⟩)).pass rfl
  | received h hconfirmed => exact (tick a).trans (received h hconfirmed)
  | confirmed h hconfirmed => exact (tick a).trans (confirmed h hconfirmed)
  | keptAlive => exact sending.sendKeepalive a
  | expired | disarmed | touched => exact book ⟨rfl, rfl, rfl, rfl, rfl, rfl, rfl, Or.inl rfl⟩

end Acts

/-! ### Turns and runs -/

/-- **Every turn is a trace of deeds**, which carry out the actions it
brings. -/
theorem acts_turn (a : Actor C) (event : Event C) : Acts event.batch a (a.turn event) :=
  turn_of_parts (R := fun a actions b => Acts actions a b) Acts.refl Acts.trans Acts.part
    Acts.handshakeDue a event

/-- The actions that a run brings. -/
def received (events : List (Event C)) : List (PeerAction C) := events.flatMap Event.batch

/-- `log` lists the deeds of a run, turn by turn. -/
inductive Log : Actor C → List (Event C) → List (Deed C) → Prop where
  | nil (a : Actor C) : Log a [] []
  | cons {a : Actor C} {event : Event C} {events : List (Event C)} {deeds log : List (Deed C)}
      (htrace : Trace Act a deeds (a.turn event)) (hcarries : Carries event.batch deeds)
      (hrest : Log (a.turn event) events log) : Log a (event :: events) (deeds ++ log)

theorem Log.trace {a : Actor C} {events : List (Event C)} {log : List (Deed C)}
    (h : Log a events log) : Trace Act a log (a.run events) := by
  induction h with
  | nil a => exact .refl a
  | cons htrace _ _ ih => exact htrace.trans ih

theorem healthy_turn {a : Actor C} (hp : a.machine.Healthy) (event : Event C) :
    (a.turn event).machine.Healthy := by
  obtain ⟨log, htrace, -⟩ := a.acts_turn event hp
  exact htrace.keeps_state (fun _ _ _ hp h => h.healthy hp) hp

theorem latched_turn {a : Actor C} (hp : a.machine.Healthy) (h : a.Latched) (event : Event C) :
    (a.turn event).Latched := by
  obtain ⟨-, -, -, hlatched⟩ := a.acts_turn event hp
  exact hlatched h

/-- Every run has a log. -/
theorem exists_log {a : Actor C} (hp : a.machine.Healthy) (events : List (Event C)) :
    ∃ log, Log a events log := by
  induction events generalizing a with
  | nil => exact ⟨[], .nil a⟩
  | cons event rest ih =>
      obtain ⟨deeds, htrace, hcarries, -⟩ := a.acts_turn event hp
      obtain ⟨log, hrest⟩ := ih (healthy_turn hp event)
      exact ⟨_, .cons htrace hcarries hrest⟩

theorem healthy_run {a : Actor C} (hp : a.machine.Healthy) (events : List (Event C)) :
    (a.run events).machine.Healthy := by
  induction events generalizing a with
  | nil => exact hp
  | cons event rest ih => exact ih (healthy_turn hp event)

theorem latched_run {a : Actor C} (hp : a.machine.Healthy) (h : a.Latched)
    (events : List (Event C)) : (a.run events).Latched := by
  induction events generalizing a with
  | nil => exact h
  | cons event rest ih => exact ih (healthy_turn hp event) (latched_turn hp h event)

/-- **An actor reports what its machine does.**  Whatever wakes it, it makes
its machine perform some operations, and sends their reports in order and
nothing else on the control channel. -/
theorem follows_turn {a : Actor C} (hp : a.machine.Healthy) (event : Event C) :
    Follows a (a.turn event) := by
  obtain ⟨log, htrace, -⟩ := a.acts_turn event hp
  exact follows_of_trace htrace

/-- A turn adds to what was received. -/
theorem inbound_turn {a : Actor C} (hp : a.machine.Healthy) (event : Event C) :
    ∃ new, (a.turn event).inbound = a.inbound ++ new := by
  obtain ⟨log, htrace, -⟩ := a.acts_turn event hp
  exact ⟨_, (sums_of_trace htrace).inbound⟩

end Actor

end Tunstile
