/-
Tunstile/Traffic.lean

Payloads on an established session.

`Up` is a driver that can send: it has an endpoint and an unexpired send
session, nothing is staged, and the world is fair to it (the socket takes what
it is given, the inbound queue has room, and the clock stays within
Rekey-After-Time of a fixed instant, so that no rekey is due).  Such a driver
puts the packets of its payloads on the wire, in order and cut as the read
loop will cut them (`Up.flushSends`), and delivers what it receives of the
other side's packets.

The network may lose, repeat and reorder packets.  What counts for a packet is
whether its counter is fresh when it arrives (`Up.receives`); hence a packet
that arrives within the window of the replay filter is delivered, and none is
delivered twice (`Up.delivers_in_window`).
-/
import Tunstile.Batching
import Tunstile.Exchange

namespace Tunstile

variable {C : Crypto}

/-! ### Packets of a session -/

/-- The counters under which payloads are sent, from `n` on. -/
def numbered (n : UInt64) : List Bytes → List (UInt64 × Bytes)
  | [] => []
  | payload :: rest => (n, payload) :: numbered (n + 1) rest

@[simp] theorem length_numbered (n : UInt64) (payloads : List Bytes) :
    (numbered n payloads).length = payloads.length := by
  induction payloads generalizing n with
  | nil => rfl
  | cons payload rest ih => rw [numbered, List.length_cons, List.length_cons, ih]

/-- A payload under a counter, as it is on the wire. -/
def dataPacket (C : Crypto) (receiver : UInt32) (key : C.Hash256) (x : UInt64 × Bytes) : Bytes :=
  dataWire receiver x.1 (C.sealed key x.1 [] x.2)

namespace Session

/-- The packets that a session sends for some payloads. -/
def packets (x : Session C) (payloads : List Bytes) : List Bytes :=
  (numbered x.transport.sendCounter payloads).map
    (dataPacket C x.transport.peerIndex x.transport.sendAead)

/-- The session once `n` packets more were sent. -/
def after (x : Session C) (n : ℕ) : Session C :=
  { x with transport :=
    { x.transport with sendCounter := x.transport.sendCounter + UInt64.ofNat n } }

@[simp] theorem after_zero (x : Session C) : x.after 0 = x := by
  have hzero : x.transport.sendCounter + UInt64.ofNat 0 = x.transport.sendCounter :=
    UInt64.add_zero _
  rw [after, hzero]

theorem after_succ (x : Session C) (n : ℕ) : (x.after 1).after n = x.after (n + 1) := by
  have hsucc : x.transport.sendCounter + UInt64.ofNat 1 + UInt64.ofNat n
      = x.transport.sendCounter + UInt64.ofNat (n + 1) := by
    rw [UInt64.add_assoc, ← UInt64.ofNat_add, Nat.add_comm 1 n]
  simp only [after, hsucc]

theorem toNat_after {x : Session C} {n : ℕ}
    (h : x.transport.sendCounter.toNat + n < rekeyAfterMessages.toNat) :
    (x.after n).transport.sendCounter.toNat = x.transport.sendCounter.toNat + n := by
  have hsize : rekeyAfterMessages.toNat < 2 ^ 64 := UInt64.toNat_lt_size _
  show (x.transport.sendCounter + UInt64.ofNat n).toNat = _
  rw [UInt64.toNat_add, UInt64.toNat_ofNat']
  omega

end Session

namespace Peer

theorem encrypt_ok {p : Peer C} {now : Instant} {endpoint : SocketAddr} {x : Session C}
    (payload out : Bytes) (hend : p.endpoint = some endpoint) (hcur : p.current = some x)
    (hlive : x.expired now = false) (hlen : packetLen payload.length ≤ out.length)
    (hctr : x.transport.sendCounter < rejectAfterMessages) :
    p.encrypt now payload out
      = (.ok (packetLen payload.length), { p with current := some (x.after 1) },
        dataPacket C x.transport.peerIndex x.transport.sendAead (x.transport.sendCounter, payload)
          ++ out.drop (packetLen payload.length)) := by
  simp only [encrypt, hend, hcur, hlive, Session.send, Transport.send_ok _ hlen hctr,
    Option.isNone_some, Bool.false_eq_true, if_false]
  rfl

theorem lt_rejectAfterMessages {c : UInt64} (h : c.toNat < rekeyAfterMessages.toNat) :
    c < rejectAfterMessages :=
  UInt64.lt_iff_toNat_lt.mpr (h.trans (by decide))

/-- Payload by payload, all of them are encrypted. -/
theorem encodeAll_ok {p : Peer C} {now : Instant} {endpoint : SocketAddr} {x : Session C}
    (gsoSegments : ℕ) (hend : p.endpoint = some endpoint) (hcur : p.current = some x)
    (hlive : x.expired now = false) {payloads : List Bytes}
    (hctr : x.transport.sendCounter.toNat + payloads.length < rekeyAfterMessages.toNat) :
    (payloadEncoder C now gsoSegments).encodeAll 0 p payloads
      = ({ p with current := some (x.after payloads.length) }, x.packets payloads) := by
  induction payloads generalizing p x with
  | nil =>
      rw [List.length_nil, Session.after_zero, ← hcur]
      rfl
  | cons payload rest ih =>
      rw [List.length_cons] at hctr
      have hfull : packetLen payload.length
          ≤ (List.replicate (packetLen payload.length) (0 : UInt8)).length := by
        rw [List.length_replicate]
      have henc := encrypt_ok payload _ hend hcur hlive hfull (lt_rejectAfterMessages (by omega))
      rw [List.drop_eq_nil_of_le (by rw [List.length_replicate]), List.append_nil] at henc
      have hnext : (x.after 1).transport.sendCounter.toNat = x.transport.sendCounter.toNat + 1 :=
        Session.toNat_after (by omega)
      have hrest := ih (p := { p with current := some (x.after 1) }) (x := x.after 1) hend rfl hlive
        (by omega)
      have hencode : (payloadEncoder C now gsoSegments).encode p payload
          (List.replicate ((payloadEncoder C now gsoSegments).size payload) 0)
          = (true, { p with current := some (x.after 1) },
            dataPacket C x.transport.peerIndex x.transport.sendAead
              (x.transport.sendCounter, payload)) := by
        simp only [payloadEncoder, henc]
      rw [Encoder.encodeAll_cons_true hencode, hrest, List.length_cons, Session.after_succ]
      rfl

end Peer

/-! ### A fair world -/

/-- The clock stays within Rekey-After-Time of `t`, the socket takes what it
is given, and the inbound queue has room. -/
structure Env.Fair (t : Instant) (env : Env C) : Prop where
  clock : ∀ n, t ≤ env.clock.get n ∧ (env.clock.get n).durationSince t < rekeyAfterTime
  socket : env.socketTakes = Stream'.const true
  inbound : env.inboundTakes = Stream'.const true

/-- What is left of a fair world after some reads is fair. -/
theorem Env.Fair.later {t : Instant} {env env' : Env C} (h : env.Fair t) {n : ℕ}
    (hclock : env'.clock = env.clock.drop n) (hsocket : env'.socketTakes = env.socketTakes)
    (hinbound : env'.inboundTakes = env.inboundTakes) : env'.Fair t where
  clock k := by
    rw [hclock]
    exact h.clock (k + n)
  socket := hsocket.trans h.socket
  inbound := hinbound.trans h.inbound

/-- The segments into which the read loop cuts what the socket was given. -/
def Datagrams.segments (d : Datagrams) : List Bytes :=
  (Tunstile.segments d.bytes.length d.segmentSize).map (slice d.bytes)

namespace Actor

/-- A driver that can send on the session `y`. -/
structure Up (t : Instant) (addr : SocketAddr) (y : Session C) (a : Actor C) : Prop where
  fair : a.env.Fair t
  endpoint : a.machine.endpoint = some addr
  current : a.machine.current = some y
  next : a.machine.next = none
  staged : a.staged = []
  young : ∀ s, a.session = some s → t ≤ s.established
  established : t ≤ y.established

theorem any_eq_false {α : Type} {o : Option α} {f : α → Bool}
    (h : ∀ x, o = some x → f x = false) : o.any f = false := by
  cases o with
  | none => rfl
  | some x => exact h x rfl

/-- No time limit is reached in a fair world. -/
theorem durationSince_lt {t now established : Instant} {d : Duration} (ht : t ≤ established)
    (hnow : now.durationSince t < rekeyAfterTime) (hd : rekeyAfterTime ≤ d) :
    ¬ d ≤ now.durationSince established := by
  have hle := Instant.le_iff.mp ht
  have hlt := Duration.lt_iff.mp hnow
  have hd' := Duration.le_iff.mp hd
  rw [Instant.nanos_durationSince] at hlt
  rw [Duration.le_iff, Instant.nanos_durationSince]
  omega

section

variable {t : Instant} {addr : SocketAddr} {y : Session C} {a : Actor C}

theorem Up.expired (h : Up t addr y a) {now : Instant}
    (hnow : now.durationSince t < rekeyAfterTime) :
    y.expired now = false :=
  decide_eq_false (durationSince_lt h.established hnow (by decide))

/-! ### Sending -/

theorem env_encryptBatch (now : Instant) (segmentSize : ℕ) (a : Actor C) (payloads : List Bytes) :
    (encryptBatch now segmentSize a payloads).actor.env = a.env ∧
      (encryptBatch now segmentSize a payloads).actor.datagrams = a.datagrams := by
  fun_induction encryptBatch now segmentSize a payloads with
  | case1 a => exact ⟨rfl, rfl⟩
  | case2 => exact ⟨rfl, rfl⟩
  | case3 a payload rest n machine buf henc b ih => exact ih

/-- A socket that takes everything takes a batch. -/
theorem env_send (b : Batch C) (segmentSize : ℕ)
    (h : b.actor.env.socketTakes = Stream'.const true) :
    (b.send segmentSize).2.env = b.actor.env ∧
      ∃ new, (b.send segmentSize).2.datagrams = b.actor.datagrams ++ new ∧
        ∀ d ∈ new, d.taken = true := by
  have hnone : ∃ new, b.actor.datagrams = b.actor.datagrams ++ new ∧ ∀ d ∈ new, d.taken = true :=
    ⟨[], (List.append_nil _).symm, fun _ hd => by cases hd⟩
  unfold Batch.send
  split
  · split
    · exact ⟨rfl, hnone⟩
    · simp only [sendSegments]
      have htail : ({ b.actor.env with socketTakes := b.actor.env.socketTakes.tail } : Env C)
          = b.actor.env := by
        rw [h, show (Stream'.const true).tail = Stream'.const true from rfl, ← h]
      have hhead : b.actor.env.socketTakes.head = true := by
        rw [h]
        rfl
      rw [htail, hhead]
      refine ⟨rfl, [_], rfl, fun d hd => ?_⟩
      rw [List.mem_singleton.mp hd]
  · exact ⟨rfl, hnone⟩

theorem env_sendBatches (now : Instant) (gsoSegments : ℕ) (a : Actor C) (payloads : List Bytes)
    (sent encryptedAny : Bool) (h : a.env.socketTakes = Stream'.const true) :
    (a.sendBatches now gsoSegments payloads sent encryptedAny).actor.env = a.env ∧
      ∃ new, (a.sendBatches now gsoSegments payloads sent encryptedAny).actor.datagrams
        = a.datagrams ++ new ∧ ∀ d ∈ new, d.taken = true := by
  fun_induction sendBatches now gsoSegments a payloads sent encryptedAny with
  | case1 a sent encryptedAny =>
      exact ⟨rfl, [], (List.append_nil _).symm, fun _ hd => by cases hd⟩
  | case2 a sent encryptedAny payload rest segmentSize maxSegments n batch left sent' any' hstall =>
      obtain ⟨henv, hdatagrams⟩ :=
        env_encryptBatch now segmentSize a ((payload :: rest).take n)
      obtain ⟨henv', new, hnew, htaken⟩ := env_send batch segmentSize
        ((congrArg Env.socketTakes henv).trans h)
      exact ⟨henv'.trans henv, new, by rw [hnew, hdatagrams], htaken⟩
  | case3 a sent encryptedAny payload rest segmentSize maxSegments n batch left sent' any' hgo ih =>
      obtain ⟨henv, hdatagrams⟩ :=
        env_encryptBatch now segmentSize a ((payload :: rest).take n)
      obtain ⟨henv', new, hnew, htaken⟩ := env_send batch segmentSize
        ((congrArg Env.socketTakes henv).trans h)
      have hsame : (batch.send segmentSize).2.env = a.env := henv'.trans henv
      obtain ⟨hrest, new', hnew', htaken'⟩ := ih ((congrArg Env.socketTakes hsame).trans h)
      refine ⟨hrest.trans hsame, new ++ new', ?_, fun d hd => ?_⟩
      · rw [hnew', hnew, hdatagrams, List.append_assoc]
      · exact (List.mem_append.mp hd).elim (htaken d) (htaken' d)

/-- What `flush_sends` makes of the driver's session keeps its age. -/
theorem young_flushDone {payloads : List Bytes}
    (h : ∀ s, (a.flushed payloads).actor.session = some s → t ≤ s.established) (s : DriverSession)
    (hs : (a.flushDone payloads).session = some s) : t ≤ s.established := by
  unfold flushDone at hs
  dsimp only at hs
  split at hs
  · split at hs
    · rename_i hnone
      cases hnone.symm.trans hs
    · rename_i session hsome
      cases hs
      exact h session hsome
  · exact h s hs

/-- Below Rekey-After-Messages, the counter asks for no new handshake. -/
theorem rekeyDueToMessages_after (p : Peer C) {n : ℕ}
    (hctr : y.transport.sendCounter.toNat + n < rekeyAfterMessages.toNat) :
    ({ p with current := some (y.after n) } : Peer C).rekeyDueToMessages = false := by
  refine decide_eq_false fun hle => ?_
  have hle' := UInt64.le_iff_toNat_le.mp hle
  rw [Session.toNat_after hctr] at hle'
  omega

/-- Within Rekey-After-Time, neither does the age of the session. -/
theorem Up.not_rekeyAfterSend (h : Up t addr y a)
    (hnow : a.now.durationSince t < rekeyAfterTime) :
    (a.session.any fun s => s.rekeyAfterSend a.now) = false := by
  refine any_eq_false fun s hs => Bool.and_eq_false_iff.mpr (Or.inr (decide_eq_false ?_))
  exact durationSince_lt (h.young s hs) hnow le_rfl

/-- Each batch is cut into the packets of its run. -/
theorem segments_of_batches {now : Instant} {gsoSegments : ℕ} {new : List Datagrams}
    {runs : List (Encoder.Run Bytes UInt8)}
    (hbatch : new.map Datagrams.batch = runs.map Encoder.Run.batch)
    (hfits : ∀ run ∈ runs, run.Fits (payloadEncoder C now gsoSegments)) :
    new.flatMap Datagrams.segments = runs.flatMap Encoder.Run.packets := by
  have hmap : new.flatMap Datagrams.segments = (new.map Datagrams.batch).flatMap fun x =>
      (Tunstile.segments x.1.length x.2).map (slice x.1) := by
    rw [List.flatMap_map]
    rfl
  rw [hmap, hbatch, List.flatMap_map]
  refine List.flatMap_congr fun run hrun => ?_
  exact (isBatch_of_fits (hfits run hrun)).cut

/-- A driver that is up encrypts all its payloads. -/
theorem Up.encodeAll (h : Up t addr y a) {payloads : List Bytes}
    (hctr : y.transport.sendCounter.toNat + payloads.length < rekeyAfterMessages.toNat) :
    (payloadEncoder C a.now a.env.maxGsoSegments.head).encodeAll 0 a.machine payloads
      = ({ a.machine with current := some (y.after payloads.length) }, y.packets payloads) :=
  Peer.encodeAll_ok a.env.maxGsoSegments.head h.endpoint h.current
    (h.expired (h.fair.clock 0).2) hctr

/-- Nothing is left over, and no new handshake is due. -/
theorem Up.flushSends_eq (h : Up t addr y a) {payloads : List Bytes} (hne : payloads ≠ [])
    (hctr : y.transport.sendCounter.toNat + payloads.length < rekeyAfterMessages.toNat) :
    a.flushSends payloads = a.flushDone payloads := by
  obtain ⟨hmachine, hrest, -, new, runs, hsends, -⟩ := a.flushed_spec payloads
  rw [h.encodeAll hctr] at hmachine hrest
  have hdone : (a.flushed payloads).rest = [] := by
    rw [hrest, Session.packets, List.length_map, length_numbered, List.drop_length]
  have hsession : (a.flushed payloads).actor.session = a.session := by
    obtain ⟨-, -, current, txBytes, socketTakes, sealed, ledger, hactor⟩ := hsends
    rw [hactor]
    rfl
  -- the counter is below its limit, and the session is young
  have hnorekey : a.flushRekeys payloads = false := by
    have hage := h.not_rekeyAfterSend (h.fair.clock 0).2
    rw [← hsession] at hage
    rw [flushRekeys, hmachine, rekeyDueToMessages_after a.machine hctr, hage, Bool.and_false,
      Bool.and_false]
    rfl
  rw [Actor.flushSends_eq a hne, if_neg (not_not.mpr hdone), hnorekey, Bool.false_and,
    if_neg Bool.false_ne_true]

/-- **A driver that is up sends.**  Its payloads become packets, in order, and
these go to its endpoint. -/
theorem Up.flushSends (h : Up t addr y a) {payloads : List Bytes}
    (hctr : y.transport.sendCounter.toNat + payloads.length < rekeyAfterMessages.toNat) :
    let b := a.flushSends payloads
    Up t addr (y.after payloads.length) b ∧ b.inbound = a.inbound ∧
      ∃ new, b.datagrams = a.datagrams ++ new ∧
        (∀ d ∈ new, d.endpoint = addr ∧ d.taken = true) ∧
        new.flatMap Datagrams.segments = y.packets payloads := by
  intro b
  by_cases hnil : payloads = []
  · subst hnil
    have hsame : b = a := if_pos rfl
    rw [hsame, List.length_nil, Session.after_zero]
    exact ⟨h, rfl, [], (List.append_nil _).symm, fun _ hd => (by cases hd), rfl⟩
  obtain ⟨hmachine, -, -, new, runs, hsends, -, hbatch, hcover⟩ := a.flushed_spec payloads
  rw [h.encodeAll hctr] at hmachine hcover
  obtain ⟨henv, new', hnew', htaken⟩ := env_sendBatches a.now a.tick.env.maxGsoSegments.head
    a.flushStart payloads false false h.fair.socket
  have hdatagrams : (a.flushed payloads).actor.datagrams = a.datagrams ++ new := hsends.datagrams
  have hsame : new' = new := List.append_cancel_left (hnew'.symm.trans hdatagrams)
  obtain ⟨hendpoint, -, current, txBytes, socketTakes, sealed, ledger, hactor⟩ := hsends
  have hsession : (a.flushed payloads).actor.session = a.session := by
    rw [hactor]
    rfl
  have hb : b = a.flushDone payloads := h.flushSends_eq hnil hctr
  obtain ⟨lastSend, session, rekeyJitter, hcases⟩ := a.flushDone_cases payloads
  have henv' : (a.flushed payloads).actor.env = a.flushStart.env := henv
  refine ⟨?_, ?_, new, ?_, ?_, ?_⟩
  · refine ⟨?_, ?_, ?_, ?_, ?_, ?_, h.established⟩
    · rw [hb, hcases]
      refine h.fair.later (n := 1) ?_ ?_ ?_ <;>
        · show _ = _
          dsimp only
          rw [henv']
          rfl
    · rw [hb, hcases]
      show (a.flushed payloads).actor.machine.endpoint = _
      rw [hmachine]
      exact h.endpoint
    · rw [hb, hcases]
      show (a.flushed payloads).actor.machine.current = _
      rw [hmachine]
    · rw [hb, hcases]
      show (a.flushed payloads).actor.machine.next = _
      rw [hmachine]
      exact h.next
    · rw [hb, hcases]
      show (a.flushed payloads).actor.staged = _
      rw [hactor]
      exact h.staged
    · intro s hs
      rw [hb] at hs
      exact young_flushDone (fun s hs => h.young s (hsession ▸ hs)) s hs
  · rw [hb, hcases]
    show (a.flushed payloads).actor.inbound = _
    rw [hactor]
    rfl
  · rw [hb, hcases]
    exact hdatagrams
  · intro d hd
    refine ⟨?_, htaken d (hsame ▸ hd)⟩
    have hto : a.machine.endpoint = some d.endpoint := hendpoint d hd
    exact Option.some.inj (hto.symm.trans h.endpoint)
  · exact (segments_of_batches hbatch hcover.fits).trans hcover.packets

/-- A driver that is up but for what it has staged sends that. -/
theorem Up.flushStaged (h : Up t addr y { a with staged := [] })
    (hctr : y.transport.sendCounter.toNat + a.staged.length < rekeyAfterMessages.toNat) :
    let b := a.flushStaged
    Up t addr (y.after a.staged.length) b ∧ b.inbound = a.inbound ∧
      ∃ new, b.datagrams = a.datagrams ++ new ∧
        (∀ d ∈ new, d.endpoint = addr ∧ d.taken = true) ∧
        new.flatMap Datagrams.segments = y.packets a.staged := by
  have hflush : a.flushStaged = { a with staged := [] }.flushSends a.staged := by
    unfold Actor.flushStaged
    split
    · rename_i hnil
      rw [hnil, flushSends_nil, ← hnil]
    · rfl
  rw [hflush]
  exact h.flushSends hctr

/-- A driver that is up sends a keepalive. -/
theorem Up.sendKeepalive (h : Up t addr y a)
    (hctr : y.transport.sendCounter.toNat + 1 < rekeyAfterMessages.toNat) :
    let b := a.sendKeepalive
    Up t addr (y.after 1) b ∧ b.inbound = a.inbound ∧
      ∃ d, b.datagrams = a.datagrams ++ [d] ∧ d.endpoint = addr ∧ d.taken = true ∧
        d.segments = y.packets [[]] := by
  obtain ⟨-, hnow⟩ := h.fair.clock 0
  have henc := Peer.encrypt_ok [] (List.replicate (packetLen 0) 0) h.endpoint h.current
    (h.expired hnow) (by rw [List.length_replicate]; rfl) (Peer.lt_rejectAfterMessages (by omega))
  rw [List.drop_eq_nil_of_le (by rw [List.length_replicate]; rfl), List.append_nil] at henc
  rcases a.sendKeepalive_cases with
    ⟨e, machine, out, hfail, -⟩ | ⟨endpoint, machine, msg, hend, hok, hsend⟩
  · cases hfail.symm.trans henc
  cases hok.symm.trans henc
  cases hend.symm.trans h.endpoint
  have hnorekey : a.keepaliveRekeys { a.machine with current := some (y.after 1) } = false := by
    rw [keepaliveRekeys, rekeyDueToMessages_after a.machine hctr, h.not_rekeyAfterSend hnow,
      Bool.and_false]
    rfl
  rw [hsend, if_neg (Bool.eq_false_iff.mp hnorekey)]
  have htakes : a.env.socketTakes.head = true := by
    rw [h.fair.socket]
    rfl
  refine ⟨⟨?_, h.endpoint, rfl, h.next, h.staged, ?_, h.established⟩, rfl, _, rfl, rfl, htakes, ?_⟩
  · refine h.fair.later (n := 1) rfl ?_ rfl
    show a.env.socketTakes.tail = _
    rw [h.fair.socket]
    rfl
  · intro s hs
    obtain ⟨s', hs', rfl⟩ := Option.map_eq_some_iff.mp hs
    exact h.young s' hs'
  · have hpos : 0 < (dataPacket C y.transport.peerIndex y.transport.sendAead
        (y.transport.sendCounter, [])).length := by
      rw [dataPacket, length_dataWire]
      exact Nat.add_pos_left (by decide) _
    have hcut := slices_segments hpos
      (fun packet hpacket => by rw [List.mem_singleton.mp hpacket])
    rwa [List.flatten_singleton] at hcut

theorem handleActions_sendData (a : Actor C) (before payloads : List Bytes) :
    a.handleActions before (payloads.map .sendData) = a.flushSends (before ++ payloads) := by
  induction payloads generalizing before with
  | nil => rw [List.append_nil]; rfl
  | cons payload rest ih =>
      show a.handleActions (before ++ [payload]) (rest.map .sendData) = _
      rw [ih, List.append_assoc]
      rfl

end

end Actor

/-! ### Receiving -/

namespace Peer

section

variable {p : Peer C} {now : Instant} {source : SocketAddr} {y : Session C} {packet payload : Bytes}
  {counter : UInt64} {replay : ReplayFilter}

theorem matching_current (hnext : p.next = none) (hcur : p.current = some y) :
    p.matching y.ourIndex = some (.current, y) := by
  simp [matching, slot, hnext, hcur, Option.filter]

/-- A packet of the send session is opened. -/
theorem decrypt_current (hnext : p.next = none) (hcur : p.current = some y)
    (hlive : y.expired now = false) (hauth : y.transport.Authentic packet counter payload)
    (hreplay : y.replay.validate counter = (true, replay)) :
    p.decrypt now y.ourIndex packet source
      = (.ok (⟨payload.length, false, none⟩, Crypto.relocated packet dataPayloadOffset payload),
        { p with current := some { y with replay := replay }, endpoint := some source }) := by
  have hrecv : y.transport.receive packet
      = .ok (counter, payload.length, Crypto.relocated packet dataPayloadOffset payload) :=
    Transport.receive_ok_iff.mpr ⟨payload, hauth, rfl, rfl⟩
  simp only [decrypt, matching_current hnext hcur, hlive, Session.receive, hrecv, hreplay, setSlot,
    Bool.false_eq_true, if_false]

/-- The first packet of a session that waits to be confirmed. -/
theorem decrypt_next (hnext : p.next = some y) (hlive : y.expired now = false)
    (hauth : y.transport.Authentic packet counter payload)
    (hreplay : y.replay.validate counter = (true, replay)) :
    p.decrypt now y.ourIndex packet source
      = (.ok (⟨payload.length, true, p.previous.map Session.ourIndex⟩,
          Crypto.relocated packet dataPayloadOffset payload),
        { p with
          endpoint := some source
          next := none
          previous := p.current
          current := some { y with replay := replay } }) := by
  have hrecv : y.transport.receive packet
      = .ok (counter, payload.length, Crypto.relocated packet dataPayloadOffset payload) :=
    Transport.receive_ok_iff.mpr ⟨payload, hauth, rfl, rfl⟩
  simp only [decrypt, matching_next hnext, hlive, Session.receive, hrecv, hreplay, adoptCurrent,
    setSlot, Bool.false_eq_true, if_false]

/-- A repeated or late packet is refused. -/
theorem decrypt_replayed (hnext : p.next = none) (hcur : p.current = some y)
    (hlive : y.expired now = false) (hauth : y.transport.Authentic packet counter payload)
    (hreplay : y.replay.validate counter = (false, y.replay)) :
    p.decrypt now y.ourIndex packet source = (.error .replay, p) := by
  have hrecv : y.transport.receive packet
      = .ok (counter, payload.length, Crypto.relocated packet dataPayloadOffset payload) :=
    Transport.receive_ok_iff.mpr ⟨payload, hauth, rfl, rfl⟩
  simp only [decrypt, matching_current hnext hcur, hlive, Session.receive, hrecv, hreplay, setSlot,
    Bool.false_eq_true, if_false, receiveError]
  rw [← hcur]

end

end Peer

instance (acc : List UInt64) (c : UInt64) : Decidable (Fresh acc c) :=
  inferInstanceAs (Decidable (_ ∧ _ ∧ _))

/-- The packets of some arrivals whose counters are fresh when they arrive. -/
def freshOnes (acc : List UInt64) : List (UInt64 × Bytes) → List (UInt64 × Bytes)
  | [] => []
  | x :: rest =>
      if Fresh acc x.1 then x :: freshOnes (x.1 :: acc) rest else freshOnes acc rest

/-- The payloads that are delivered; an empty one is a keepalive. -/
def delivery (arrivals : List (UInt64 × Bytes)) : List Bytes :=
  (arrivals.map Prod.snd).filter (· ≠ [])

theorem delivery_append (xs ys : List (UInt64 × Bytes)) :
    delivery (xs ++ ys) = delivery xs ++ delivery ys := by
  rw [delivery, List.map_append, List.filter_append]
  rfl

theorem freshOnes_append (acc : List UInt64) (xs ys : List (UInt64 × Bytes)) :
    freshOnes acc (xs ++ ys) = freshOnes acc xs ++
      freshOnes (((freshOnes acc xs).map Prod.fst).reverse ++ acc) ys := by
  induction xs generalizing acc with
  | nil => rfl
  | cons x xs ih =>
      rw [List.cons_append, freshOnes, freshOnes]
      split
      · rw [ih, List.map_cons, List.reverse_cons, List.append_assoc]
        rfl
      · exact ih acc

/-! ### Which packets are new -/

section

variable {n : UInt64} {count : ℕ}

theorem toNat_counter (h : n.toNat + count ≤ rejectAfterMessages.toNat) {i : ℕ} (hi : i ≤ count) :
    (n + UInt64.ofNat i).toNat = n.toNat + i := by
  have hsize : rejectAfterMessages.toNat < 2 ^ 64 := UInt64.toNat_lt_size _
  rw [UInt64.toNat_add, UInt64.toNat_ofNat']
  omega

theorem largest_le {acc : List UInt64} {k : ℕ} (h : ∀ c ∈ acc, c.toNat ≤ k) : largest acc ≤ k := by
  induction acc with
  | nil => exact Nat.zero_le _
  | cons c acc ih =>
      rw [largest, List.map_cons, List.foldr_cons]
      exact max_le (h c List.mem_cons_self) (ih fun c' hc' => h c' (List.mem_cons_of_mem _ hc'))

/-- The counters accepted once the packets `seen` have come. -/
def accepted (n : UInt64) (seen : List ℕ) (acc : List UInt64) : List UInt64 :=
  seen.map (fun i => n + UInt64.ofNat i) ++ acc

/-- A counter is fresh exactly if its packet has not come yet. -/
theorem fresh_iff {acc : List UInt64} (hbelow : ∀ c ∈ acc, c < n)
    (h : n.toNat + count ≤ rejectAfterMessages.toNat) {seen : List ℕ}
    (hseen : ∀ i ∈ seen, i < count) {i : ℕ} (hi : i < count)
    (hwindow : ∀ j ∈ seen, j ≤ i + counterWindow.toNat) :
    Fresh (accepted n seen acc) (n + UInt64.ofNat i) ↔ i ∉ seen := by
  have htoNat := toNat_counter h hi.le
  have hmem : n + UInt64.ofNat i ∈ accepted n seen acc ↔ i ∈ seen := by
    rw [accepted, List.mem_append, List.mem_map]
    constructor
    · rintro (⟨j, hj, heq⟩ | hold)
      · have heq' := congrArg UInt64.toNat heq
        rw [toNat_counter h (hseen j hj).le, htoNat] at heq'
        rwa [← Nat.add_left_cancel heq']
      · have hlt := UInt64.lt_iff_toNat_lt.mp (hbelow _ hold)
        omega
    · exact fun hi => Or.inl ⟨i, hi, rfl⟩
  constructor
  · exact fun hfresh hin => hfresh.2.1 (hmem.mpr hin)
  · refine fun hout => ⟨?_, mt hmem.mp hout, largest_le fun c hc => ?_⟩
    · rw [UInt64.lt_iff_toNat_lt, htoNat]
      omega
    · rw [htoNat]
      rcases List.mem_append.mp hc with hc | hc
      · obtain ⟨j, hj, rfl⟩ := List.mem_map.mp hc
        rw [toNat_counter h (hseen j hj).le]
        have := hwindow j hj
        omega
      · have := UInt64.lt_iff_toNat_lt.mp (hbelow c hc)
        omega

/-- Which packets are new, in whatever order they come. -/
theorem freshOnes_from {acc : List UInt64} (hbelow : ∀ c ∈ acc, c < n)
    (h : n.toNat + count ≤ rejectAfterMessages.toNat) (payload : ℕ → Bytes) (seen : List ℕ)
    {order : List ℕ}
    (hseen : ∀ i ∈ seen, i < count) (horder : ∀ i ∈ order, i < count)
    (hbefore : ∀ j ∈ seen, ∀ i ∈ order, j ≤ i + counterWindow.toNat)
    (hwindow : order.Pairwise fun earlier later => earlier ≤ later + counterWindow.toNat) :
    freshOnes (accepted n seen acc) (order.map fun i => (n + UInt64.ofNat i, payload i))
      = (order.filter (· ∉ seen)).eraseDups.map fun i => (n + UInt64.ofNat i, payload i) := by
  induction order generalizing seen with
  | nil => rfl
  | cons i order ih =>
      obtain ⟨hhead, htail⟩ := List.pairwise_cons.mp hwindow
      have hi := horder i List.mem_cons_self
      have hfresh := fresh_iff hbelow h hseen hi fun j hj => hbefore j hj i List.mem_cons_self
      rw [List.map_cons, freshOnes]
      by_cases hin : i ∈ seen
      · rw [if_neg (mt hfresh.mp (not_not.mpr hin)), List.filter_cons_of_neg (by simpa using hin)]
        exact ih seen hseen (fun j hj => horder j (List.mem_cons_of_mem _ hj))
          (fun j hj k hk => hbefore j hj k (List.mem_cons_of_mem _ hk)) htail
      · rw [if_pos (hfresh.mpr hin), List.filter_cons_of_pos (by simpa using hin),
          List.eraseDups_cons, List.map_cons, List.filter_filter]
        congr 1
        have hrest := ih (i :: seen)
          (fun j hj => (List.mem_cons.mp hj).elim (fun hj => hj ▸ hi) (hseen j))
          (fun j hj => horder j (List.mem_cons_of_mem _ hj))
          (fun j hj k hk => (List.mem_cons.mp hj).elim (fun hj => hj ▸ hhead k hk)
            (fun hj => hbefore j hj k (List.mem_cons_of_mem _ hk))) htail
        refine hrest.trans (congrArg (fun l => List.map _ (List.eraseDups l)) ?_)
        refine List.filter_congr fun j _ => ?_
        simp [List.mem_cons, not_or, beq_eq_decide]

theorem freshOnes_order {acc : List UInt64} (hbelow : ∀ c ∈ acc, c < n)
    (h : n.toNat + count ≤ rejectAfterMessages.toNat) {payload : ℕ → Bytes} {order : List ℕ}
    (horder : ∀ i ∈ order, i < count)
    (hwindow : order.Pairwise fun earlier later => earlier ≤ later + counterWindow.toNat) :
    freshOnes acc (order.map fun i => (n + UInt64.ofNat i, payload i))
      = order.eraseDups.map fun i => (n + UInt64.ofNat i, payload i) := by
  have hfrom := freshOnes_from hbelow h payload [] (fun _ hj => by cases hj) horder
    (fun _ hj => by cases hj) hwindow
  rwa [List.filter_eq_self.mpr fun j _ => by simp] at hfrom

/-- Packets in order are all new. -/
theorem freshOnes_numbered (acc : List UInt64) {payloads : List Bytes}
    (hbelow : ∀ c ∈ acc, c < n) (h : n.toNat + payloads.length ≤ rejectAfterMessages.toNat) :
    freshOnes acc (numbered n payloads) = numbered n payloads ∧
      ∀ c ∈ ((numbered n payloads).map Prod.fst).reverse ++ acc,
        c < n + UInt64.ofNat payloads.length := by
  induction payloads generalizing n acc with
  | nil =>
      have hzero : n + UInt64.ofNat ([] : List Bytes).length = n := UInt64.add_zero n
      rw [hzero]
      exact ⟨rfl, hbelow⟩
  | cons payload rest ih =>
      rw [List.length_cons] at h ⊢
      have hfresh : Fresh acc n := by
        refine ⟨UInt64.lt_iff_toNat_lt.mpr (by omega), fun hn => ?_, largest_le fun c hc => ?_⟩
        · exact UInt64.lt_irrefl n (hbelow n hn)
        · have := UInt64.lt_iff_toNat_lt.mp (hbelow c hc)
          omega
      have hnext : (n + 1).toNat = n.toNat + 1 := toNat_counter h (i := 1) (by omega)
      have hbelow' : ∀ c ∈ n :: acc, c < n + 1 := by
        intro c hc
        rw [UInt64.lt_iff_toNat_lt, hnext]
        rcases List.mem_cons.mp hc with rfl | hc
        · exact Nat.lt_succ_self _
        · exact (UInt64.lt_iff_toNat_lt.mp (hbelow c hc)).trans (Nat.lt_succ_self _)
      obtain ⟨hrest, hlast⟩ := ih (n :: acc) hbelow' (by omega)
      have hsum : n + 1 + UInt64.ofNat rest.length = n + UInt64.ofNat (rest.length + 1) := by
        rw [UInt64.add_assoc, Nat.add_comm rest.length 1, UInt64.ofNat_add]
        rfl
      rw [numbered, freshOnes, if_pos hfresh, hrest, ← hsum, List.map_cons, List.reverse_cons,
        List.append_assoc]
      exact ⟨rfl, hlast⟩

end

namespace Actor

/-- Noting a packet, when the inbound queue has room. -/
theorem recvDataNoted_fair (a : Actor C) (now : Instant) (endpoint : SocketAddr) (rxBytes : ℕ)
    (recv : Recv) (opened : Bytes) (h : a.env.inboundTakes = Stream'.const true) :
    let b := a.recvDataNoted now endpoint rxBytes recv opened
    b.env = a.env ∧ b.datagrams = a.datagrams ∧
      b.inbound = a.inbound ++ if 0 < recv.payloadLen then [opened.take recv.payloadLen] else [] := by
  have hhead : a.env.inboundTakes.head = true := by
    rw [h]
    rfl
  have htail : ({ a.env with inboundTakes := a.env.inboundTakes.tail } : Env C) = a.env := by
    rw [h, show (Stream'.const true).tail = Stream'.const true from rfl, ← h]
  unfold recvDataNoted
  by_cases hlen : 0 < recv.payloadLen
  · rw [if_pos hlen, if_pos hlen]
    dsimp only [deliver]
    rcases recv.unmapped with _ | index <;> rcases recv.confirmed with _ | _ <;>
      exact ⟨htail, rfl, if_pos hhead⟩
  · rw [if_neg hlen, if_neg hlen]
    rcases recv.unmapped with _ | index <;> rcases recv.confirmed with _ | _ <;>
      exact ⟨rfl, rfl, (List.append_nil _).symm⟩

section

variable {t : Instant} {addr : SocketAddr} {y : Session C} {a : Actor C} {acc : List UInt64}

/-- **A driver that is up receives.**  A packet that the other side sent is
delivered exactly if its counter is fresh. -/
theorem Up.recvData (hseal : C.OpenSeal) (h : Up t addr y a) (hacc : y.replay.Accepted acc)
    (x : UInt64 × Bytes) :
    let b := a.handleMessage (.recvData (dataPacket C y.ourIndex y.transport.recvAead x)
      y.ourIndex addr)
    ∃ replay, Up t addr { y with replay := replay } b ∧ b.datagrams = a.datagrams ∧
      replay.Accepted (if Fresh acc x.1 then x.1 :: acc else acc) ∧
      b.inbound = a.inbound ++ if Fresh acc x.1 then delivery [x] else [] := by
  intro b
  obtain ⟨-, hnow⟩ := h.fair.clock 0
  have hlive := h.expired hnow
  have hauth : y.transport.Authentic (dataPacket C y.ourIndex y.transport.recvAead x) x.1 x.2 :=
    Transport.authentic_dataWire hseal rfl rfl x.1 x.2
  obtain ⟨hyes, hno⟩ := ReplayFilter.validate_spec hacc x.1
  have hb : b = a.tick.recvData a.now (dataPacket C y.ourIndex y.transport.recvAead x)
    y.ourIndex addr := rfl
  have hfair : a.tick.env.Fair t := h.fair.later (n := 1) rfl rfl rfl
  by_cases hfresh : Fresh acc x.1
  · obtain ⟨replay, hvalid, haccepted⟩ := hyes hfresh
    have hdec : a.tick.machine.decrypt a.now y.ourIndex _ addr = _ :=
      Peer.decrypt_current h.next h.current hlive hauth hvalid
    rw [Actor.recvData, hdec] at hb
    dsimp only at hb
    refine ⟨replay, ?_⟩
    rw [if_pos hfresh, if_pos hfresh]
    -- the machine that the packet leaves
    generalize hmachine : ({ a.tick.machine with
      current := some { y with replay := replay }, endpoint := some addr } : Peer C) = machine at hb
    generalize hrecv : (⟨x.2.length, false, none⟩ : Recv) = recv at hb
    generalize hopened : Crypto.relocated _ _ _ = opened at hb
    obtain ⟨henv, hdatagrams, hinbound⟩ := recvDataNoted_fair { a.tick with machine := machine }
      a.now addr (dataPacket C y.ourIndex y.transport.recvAead x).length recv opened hfair.inbound
    obtain ⟨control, inbound, inboundTakes, rxBytes, session, hnoted⟩ := recvDataNoted_frame
      { a.tick with machine := machine } a.now addr
      (dataPacket C y.ourIndex y.transport.recvAead x).length recv opened
    have hsession := session_recvDataNoted { a.tick with machine := machine } a.now addr
      (dataPacket C y.ourIndex y.transport.recvAead x).length recv opened
    have hconfirmed : recv.confirmed = false := by rw [← hrecv]
    rw [hconfirmed, if_neg Bool.false_ne_true] at hsession
    have hyoung : ∀ s, (recvDataNoted { a.tick with machine := machine } a.now addr
        (dataPacket C y.ourIndex y.transport.recvAead x).length recv opened).session = some s →
          t ≤ s.established := by
      intro s hs
      obtain ⟨s', hs', rfl⟩ := Option.map_eq_some_iff.mp (hsession.symm.trans hs)
      have hest : (s'.packetReceived a.now (decide (0 < recv.payloadLen))).established
          = s'.established := by
        unfold DriverSession.packetReceived
        dsimp only
        split <;> rfl
      rw [hest]
      exact h.young s' hs'
    have hnorekey : ((recvDataNoted { a.tick with machine := machine } a.now addr
        (dataPacket C y.ourIndex y.transport.recvAead x).length recv opened).session.any
          fun s => s.rekeyAfterReceive a.now) = false := by
      refine any_eq_false fun s hs => Bool.and_eq_false_iff.mpr (Or.inr (decide_eq_false ?_))
      exact durationSince_lt (hyoung s hs) hnow (by decide)
    rw [recvDataOk_eq, if_neg (Bool.eq_false_iff.mp hnorekey), hconfirmed,
      if_neg Bool.false_ne_true] at hb
    rw [hb]
    refine ⟨⟨?_, ?_, ?_, ?_, ?_, hyoung, h.established⟩, hdatagrams, haccepted, ?_⟩
    · rw [henv]
      exact hfair
    · rw [hnoted, ← hmachine]
    · rw [hnoted, ← hmachine]
    · rw [hnoted, ← hmachine]
      exact h.next
    · rw [hnoted]
      exact h.staged
    · rw [hinbound]
      show a.inbound ++ _ = _
      congr 1
      rw [← hrecv, ← hopened, Transport.take_relocated]
      rcases x with ⟨c, _ | ⟨byte, rest⟩⟩ <;> rfl
  · have hdec : a.tick.machine.decrypt a.now y.ourIndex _ addr = _ :=
      Peer.decrypt_replayed h.next h.current hlive hauth (hno hfresh)
    rw [Actor.recvData, hdec] at hb
    rw [if_neg hfresh, if_neg hfresh, List.append_nil, hb]
    exact ⟨y.replay, ⟨hfair, h.endpoint, h.current, h.next, h.staged, h.young, h.established⟩, rfl,
      hacc, rfl⟩

/-- What arrives, packet by packet. -/
def arriving (y : Session C) (addr : SocketAddr) (arrivals : List (UInt64 × Bytes)) :
    List (PeerAction C) :=
  arrivals.map fun x =>
    .recvData (dataPacket C y.ourIndex y.transport.recvAead x) y.ourIndex addr

theorem handleActions_arriving (a : Actor C) (y : Session C) (addr : SocketAddr)
    (x : UInt64 × Bytes) (rest : List (UInt64 × Bytes)) :
    a.handleActions [] (arriving y addr (x :: rest))
      = (a.handleMessage (.recvData (dataPacket C y.ourIndex y.transport.recvAead x)
          y.ourIndex addr)).handleActions [] (arriving y addr rest) := by
  rw [arriving, List.map_cons, handleActions]
  · rw [flushSends_nil]
    rfl
  · exact fun _ h => by cases h

theorem Up.receives (hseal : C.OpenSeal) (h : Up t addr y a) (hacc : y.replay.Accepted acc)
    (arrivals : List (UInt64 × Bytes)) :
    let b := a.handleActions [] (arriving y addr arrivals)
    ∃ replay, Up t addr { y with replay := replay } b ∧ b.datagrams = a.datagrams ∧
      replay.Accepted (((freshOnes acc arrivals).map Prod.fst).reverse ++ acc) ∧
      b.inbound = a.inbound ++ delivery (freshOnes acc arrivals) := by
  induction arrivals generalizing a y acc with
  | nil =>
      have hsame : a.handleActions [] (arriving y addr []) = a := a.flushSends_nil
      dsimp only
      rw [hsame]
      exact ⟨y.replay, h, rfl, hacc, (List.append_nil _).symm⟩
  | cons x rest ih =>
      obtain ⟨replay, hup, hdatagrams, haccepted, hinbound⟩ := h.recvData hseal hacc x
      obtain ⟨replay', hup', hdatagrams', haccepted', hinbound'⟩ := ih hup haccepted
      refine ⟨replay', ?_⟩
      rw [handleActions_arriving]
      refine ⟨hup', hdatagrams'.trans hdatagrams, ?_, ?_⟩
      · rw [freshOnes]
        split
        · rename_i hfresh
          rw [if_pos hfresh] at haccepted'
          rw [List.map_cons, List.reverse_cons, List.append_assoc]
          exact haccepted'
        · rename_i hfresh
          rw [if_neg hfresh] at haccepted'
          exact haccepted'
      · refine hinbound'.trans ?_
        rw [hinbound, List.append_assoc, freshOnes]
        congr 1
        split
        · exact (delivery_append [x] _).symm
        · rfl

/-- Arrivals batch by batch, as the turns of the driver take them. -/
theorem Up.receives_run (hseal : C.OpenSeal) (h : Up t addr y a) (hacc : y.replay.Accepted acc)
    (batches : List (List (UInt64 × Bytes))) :
    let b := a.run (batches.map fun arrivals => .actions (arriving y addr arrivals))
    ∃ replay, Up t addr { y with replay := replay } b ∧
      b.inbound = a.inbound ++ delivery (freshOnes acc batches.flatten) := by
  induction batches generalizing a y acc with
  | nil => exact ⟨y.replay, h, (List.append_nil _).symm⟩
  | cons arrivals rest ih =>
      obtain ⟨replay, hup, -, haccepted, hinbound⟩ := h.receives hseal hacc arrivals
      obtain ⟨replay', hup', hinbound'⟩ := ih hup haccepted
      refine ⟨replay', hup', hinbound'.trans ?_⟩
      rw [hinbound, List.append_assoc, List.flatten_cons, freshOnes_append, delivery_append]

end

/-- **What arrives within the window is delivered once.**  The other side
sends some payloads, and the network passes the packets on in any order, any
of them any number of times, and loses some.  As long as no packet comes more
than the window behind one that came earlier, each payload whose packet comes
at all is delivered, when it comes first. -/
theorem Up.delivers_in_window (hseal : C.OpenSeal) {t : Instant} {addr : SocketAddr}
    {y : Session C} {a : Actor C} (h : Up t addr y a) {acc : List UInt64}
    (hacc : y.replay.Accepted acc) (n : UInt64) (hbelow : ∀ c ∈ acc, c < n) (payloads : List Bytes)
    (hctr : n.toNat + payloads.length ≤ rejectAfterMessages.toNat) (order : List (List ℕ))
    (hsent : ∀ i ∈ order.flatten, i < payloads.length)
    (hwindow : order.flatten.Pairwise fun earlier later => earlier ≤ later + counterWindow.toNat) :
    (a.run (order.map fun batch => .actions (arriving y addr
      (batch.map fun i => (n + UInt64.ofNat i, payloads.getD i []))))).inbound
      = a.inbound ++ (order.flatten.eraseDups.map fun i => payloads.getD i []).filter (· ≠ []) := by
  obtain ⟨-, -, hinbound⟩ := h.receives_run hseal hacc
    (order.map fun batch => batch.map fun i => (n + UInt64.ofNat i, payloads.getD i []))
  rw [List.map_map] at hinbound
  refine hinbound.trans ?_
  rw [← List.map_flatten, freshOnes_order hbelow hctr hsent hwindow, delivery, List.map_map]
  rfl

end Actor

end Tunstile
