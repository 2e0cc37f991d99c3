/-
Tunstile/Batching.lean

The batches that `flush_sends` hands to the socket.

`flush_sends` is an instance of the loop of `Runs.lean`: payloads are
encrypted into packets, and packets of one size go together.  `sendBatches`
takes the payloads from the front of a list where the source moves a cursor;
`sendBatches_loop` says that both put out the same batches, and `loop_spec`
what these are.

The read loop on the other side cuts what it receives at the segment size
(`slices_segments`), which gives back the packets.
-/
import Tunstile.Runs
import Tunstile.ReadLoop
import Tunstile.Operations

namespace Tunstile

variable {C : Crypto}

/-! ### Cutting a batch -/

/-- Cutting a buffer made of chunks of one length gives back the chunks. -/
theorem slices_segmentsFrom {stride : ℕ} (hstride : 0 < stride) (before : Bytes)
    {packets : List Bytes} (h : ∀ packet ∈ packets, packet.length = stride) :
    (segmentsFrom (before ++ packets.flatten).length stride before.length).map
      (slice (before ++ packets.flatten)) = packets := by
  induction packets generalizing before with
  | nil =>
      rw [List.flatten_nil, List.append_nil, segmentsFrom, if_neg (lt_irrefl _), List.map_nil]
  | cons packet rest ih =>
      have hpacket : packet.length = stride := h packet List.mem_cons_self
      have hlen : (before ++ (packet :: rest).flatten).length
          = before.length + stride + rest.flatten.length := by
        rw [List.flatten_cons, List.length_append, List.length_append, hpacket, Nat.add_assoc]
      have hfits : min stride ((before ++ (packet :: rest).flatten).length - before.length)
          = stride := by omega
      have hslice : slice (before ++ (packet :: rest).flatten)
          ⟨before.length, before.length + stride⟩ = packet := by
        rw [slice, List.drop_left, Span.length, Nat.add_sub_cancel_left, List.flatten_cons]
        exact List.take_left' hpacket
      have hrest := ih (before ++ packet) fun p hp => h p (List.mem_cons_of_mem _ hp)
      have hbefore : (before ++ packet).length = before.length + stride := by
        rw [List.length_append, hpacket]
      rw [hbefore, List.append_assoc, ← List.flatten_cons] at hrest
      rw [segmentsFrom, if_pos (by omega), if_neg (by omega), hfits, List.map_cons, hslice, hrest]

theorem slices_segments {stride : ℕ} (hstride : 0 < stride) {packets : List Bytes}
    (h : ∀ packet ∈ packets, packet.length = stride) :
    (segments packets.flatten.length stride).map (slice packets.flatten) = packets :=
  slices_segmentsFrom hstride [] h

/-! ### Encrypting payloads -/

/-- Payloads encrypted at one time, and how many may go together. -/
def payloadEncoder (C : Crypto) (now : Instant) (gsoSegments : ℕ) :
    Encoder (Peer C) Bytes UInt8 where
  size payload := packetLen payload.length
  limit := Actor.maxBatchSegments gsoSegments
  encode p payload buf :=
    match p.encrypt now payload buf with
    | (.ok _, p, buf) => (true, p, buf)
    | (.error _, p, buf) => (false, p, buf)
  limit_pos _ := Nat.lt_of_lt_of_le Nat.zero_lt_one (le_max_right _ _)
  length_encode p payload buf := by
    have hlen := p.length_encrypt now payload buf
    rcases henc : p.encrypt now payload buf with ⟨e | n, p', out⟩ <;> rw [henc] at hlen <;>
      exact hlen

theorem encodeAll_frame (now : Instant) (gsoSegments : ℕ) (p : Peer C) (payloads : List Bytes) :
    (∃ current, ((payloadEncoder C now gsoSegments).encodeAll 0 p payloads).1
      = { p with current := current }) ∧
      ∀ packet ∈ ((payloadEncoder C now gsoSegments).encodeAll 0 p payloads).2,
        p.endpoint.isSome = true ∧ typeByte packet = MessageType.data.toByte := by
  induction payloads generalizing p with
  | nil => exact ⟨⟨_, rfl⟩, fun _ h => by cases h⟩
  | cons payload rest ih =>
      rcases henc : p.encrypt now payload (List.replicate (packetLen payload.length) 0) with
        ⟨e | n, p', buf⟩
      · have hall : (payloadEncoder C now gsoSegments).encodeAll 0 p (payload :: rest)
            = (p', []) := by
          refine Encoder.encodeAll_cons_false (show _ = (false, p', buf) from ?_)
          simp only [payloadEncoder, henc]
        rw [hall]
        exact ⟨(Peer.encrypt_frame henc).1, fun _ h => by cases h⟩
      · have hall : (payloadEncoder C now gsoSegments).encodeAll 0 p (payload :: rest)
            = (((payloadEncoder C now gsoSegments).encodeAll 0 p' rest).1,
              buf :: ((payloadEncoder C now gsoSegments).encodeAll 0 p' rest).2) := by
          refine Encoder.encodeAll_cons_true ?_
          simp only [payloadEncoder, henc]
        obtain ⟨⟨current, rfl⟩, hsome⟩ := Peer.encrypt_frame henc
        obtain ⟨⟨current', heq⟩, hrest⟩ := ih { p with current := current }
        rw [hall, heq]
        refine ⟨⟨_, rfl⟩, fun packet hpacket => ?_⟩
        rcases List.mem_cons.mp hpacket with rfl | hpacket
        · exact ⟨(hsome n rfl).1, (hsome n rfl).2.2⟩
        · exact hrest packet hpacket

/-- What was handed to the socket, without where to and with what success. -/
def Datagrams.batch (d : Datagrams) : Bytes × ℕ := (d.bytes, d.segmentSize)

namespace Actor

/-- The encryption loop over a batch, payload by payload. -/
theorem encryptBatch_eq (now : Instant) (gsoSegments : ℕ) {segmentSize : ℕ} (a : Actor C)
    {run : List Bytes} (hsize : ∀ payload ∈ run, packetLen payload.length = segmentSize) :
    let r := (payloadEncoder C now gsoSegments).encodeAll 0 a.machine run
    encryptBatch now segmentSize a run =
      { actor := { a with
          machine := r.1
          sealed := a.sealed ++ (run.take r.2.length).map .payload
          ledger := a.ledger ++ (run.take r.2.length).map fun payload => (payload, .encrypted) }
        encrypted := r.2.length
        bytes := r.2.flatten
        stalled := decide (r.2.length < run.length) } := by
  induction run generalizing a with
  | nil =>
      simp only [encryptBatch, Encoder.encodeAll, List.take_nil, List.map_nil, List.append_nil]
      rfl
  | cons payload rest ih =>
      have hpayload : packetLen payload.length = segmentSize := hsize payload List.mem_cons_self
      rcases henc : a.machine.encrypt now payload (List.replicate segmentSize 0) with
        ⟨e | n, machine, buf⟩
      · have hall : (payloadEncoder C now gsoSegments).encodeAll 0 a.machine (payload :: rest)
            = (machine, []) := by
          refine Encoder.encodeAll_cons_false (show _ = (false, machine, buf) from ?_)
          simp only [payloadEncoder, hpayload, henc]
        simp only [encryptBatch, henc, hall]
        simp
      · have hall : (payloadEncoder C now gsoSegments).encodeAll 0 a.machine (payload :: rest)
            = (((payloadEncoder C now gsoSegments).encodeAll 0 machine rest).1,
              buf :: ((payloadEncoder C now gsoSegments).encodeAll 0 machine rest).2) := by
          refine Encoder.encodeAll_cons_true ?_
          simp only [payloadEncoder, hpayload, henc]
        have hrest := ih { a with
            machine := machine
            sealed := a.sealed ++ [.payload payload]
            ledger := a.ledger ++ [(payload, .encrypted)] }
          fun q hq => hsize q (List.mem_cons_of_mem _ hq)
        simp only [encryptBatch, henc, hall, hrest]
        simp

/-- The next payloads of one size. -/
theorem runEnd_eq (now : Instant) (gsoSegments segmentSize : ℕ) (payloads : List Bytes)
    {start stop : ℕ} (hle : start ≤ stop) :
    (payloadEncoder C now gsoSegments).runEnd payloads segmentSize start stop = start +
      batchLen (maxBatchSegments gsoSegments segmentSize) segmentSize (stop - start)
        (payloads.drop stop) := by
  fun_induction Encoder.runEnd (payloadEncoder C now gsoSegments) payloads segmentSize start
    stop with
  | case1 stop h hext ih =>
      have hext' : stop - start < maxBatchSegments gsoSegments segmentSize ∧
          packetLen payloads[stop].length = segmentSize := hext
      rw [ih (hle.trans (Nat.le_succ stop)), ← List.getElem_cons_drop (h := h), batchLen,
        if_pos hext', Nat.succ_sub hle]
  | case2 stop h hext =>
      have hext' : ¬ (stop - start < maxBatchSegments gsoSegments segmentSize ∧
          packetLen payloads[stop].length = segmentSize) := hext
      rw [← List.getElem_cons_drop (h := h), batchLen, if_neg hext']
      omega
  | case3 stop h =>
      rw [List.drop_eq_nil_of_le (not_lt.mp h), batchLen]
      omega

/-- Between `a` and `a'` payloads were encrypted and `new` was handed to the
socket, which took some of it if `sent`; nothing else was done. -/
structure Sends (a a' : Actor C) (sent : Bool) (new : List Datagrams) : Prop where
  endpoint : ∀ d ∈ new, a.machine.endpoint = some d.endpoint
  sent : sent = new.any Datagrams.taken
  rest : ∃ current txBytes socketTakes sealed ledger, a' = { a with
    machine := { a.machine with current := current }
    status := { a.status with txBytes := txBytes }
    datagrams := a.datagrams ++ new
    env := { a.env with socketTakes := socketTakes }
    sealed := sealed
    ledger := ledger }

theorem Sends.refl (a : Actor C) : Sends a a false [] where
  endpoint _ hd := by cases hd
  sent := rfl
  rest := ⟨_, _, _, _, _, by rw [List.append_nil]⟩

theorem Sends.trans {a b c : Actor C} {sent sent' : Bool} {new new' : List Datagrams}
    (h : Sends a b sent new) (h' : Sends b c sent' new') :
    Sends a c (sent || sent') (new ++ new') := by
  obtain ⟨hend, hsent, _, _, _, _, _, rfl⟩ := h
  obtain ⟨hend', hsent', _, _, _, _, _, rfl⟩ := h'
  refine ⟨fun d hd => ?_, by rw [List.any_append, hsent, hsent'], _, _, _, _, _,
    by simp only [List.append_assoc]; rfl⟩
  rcases List.mem_append.mp hd with hd | hd
  · exact hend d hd
  · exact hend' d hd

/-- One round of the sending loop. -/
theorem sends_batch (now : Instant) (gsoSegments : ℕ) {segmentSize : ℕ} (a : Actor C)
    {run : List Bytes} (hsize : ∀ payload ∈ run, packetLen payload.length = segmentSize) :
    let r := (payloadEncoder C now gsoSegments).encodeAll 0 a.machine run
    let b := encryptBatch now segmentSize a run
    b.encrypted = r.2.length ∧ (b.stalled = true ↔ r.2.length < run.length) ∧
      (b.send segmentSize).2.machine = r.1 ∧
      ∃ new, Sends a (b.send segmentSize).2 (b.send segmentSize).1 new ∧
        new.map Datagrams.batch
          = if 0 < r.2.length then [(r.2.flatten, segmentSize)] else [] := by
  dsimp only
  obtain ⟨⟨current, hframe⟩, hendpoint⟩ := encodeAll_frame now gsoSegments a.machine run
  rw [encryptBatch_eq now gsoSegments a hsize]
  generalize (payloadEncoder C now gsoSegments).encodeAll 0 a.machine run = r at hframe hendpoint ⊢
  refine ⟨rfl, decide_eq_true_iff, ?_⟩
  by_cases hpos : 0 < r.2.length
  · obtain ⟨packet, hpacket⟩ := List.exists_mem_of_length_pos hpos
    obtain ⟨endpoint, hsome⟩ := Option.isSome_iff_exists.mp (hendpoint packet hpacket).1
    have hsome' : r.1.endpoint = some endpoint := (congrArg Peer.endpoint hframe).trans hsome
    simp only [Batch.send, if_pos hpos, hsome', sendSegments]
    refine ⟨by cases a.env.socketTakes.head <;> rfl,
      [⟨endpoint, r.2.flatten, segmentSize, a.env.socketTakes.head⟩], ⟨fun d hd => ?_, ?_, ?_⟩, rfl⟩
    · rw [List.mem_singleton.mp hd]
      exact hsome
    · cases a.env.socketTakes.head <;> rfl
    · rw [hframe]
      cases a.env.socketTakes.head <;> exact ⟨_, _, _, _, _, rfl⟩
  · simp only [Batch.send, if_neg hpos]
    refine ⟨trivial, [], ⟨fun _ hd => (by cases hd), rfl, ?_⟩, rfl⟩
    rw [hframe, List.append_nil]
    exact ⟨_, _, _, _, _, rfl⟩

/-- The loop over a cursor, one batch at a time. -/
theorem loop_cons (now : Instant) (gsoSegments : ℕ) {all : List Bytes} {start : ℕ}
    {payload : Bytes} {rest : List Bytes} (hstart : payload :: rest = all.drop start) (p : Peer C) :
    let S := payloadEncoder C now gsoSegments
    let segmentSize := packetLen payload.length
    let run := (payload :: rest).take
      (batchLen (maxBatchSegments gsoSegments segmentSize) segmentSize 1 rest)
    let r := S.encodeAll 0 p run
    let batches := if 0 < r.2.length then [(r.2.flatten, segmentSize)] else []
    (∀ q ∈ run, packetLen q.length = segmentSize) ∧ 0 < run.length ∧
      S.loop all 0 p start =
        if r.2.length < run.length then ⟨r.1, start + r.2.length, batches⟩
        else
          { S.loop all 0 r.1 (start + r.2.length) with
            batches := batches ++ (S.loop all 0 r.1 (start + r.2.length)).batches } := by
  dsimp only
  have hlt : start < all.length := by
    by_contra hge
    rw [List.drop_eq_nil_of_le (not_lt.mp hge)] at hstart
    cases hstart
  obtain ⟨hhead, htail⟩ :=
    List.cons.inj ((List.getElem_cons_drop (h := hlt)).trans hstart.symm)
  have hsize : (payloadEncoder C now gsoSegments).size all[start] = packetLen payload.length :=
    congrArg (fun q : Bytes => packetLen q.length) hhead
  have hrun : (payloadEncoder C now gsoSegments).runAt all start (packetLen payload.length)
      = (payload :: rest).take (batchLen
        (maxBatchSegments gsoSegments (packetLen payload.length)) (packetLen payload.length)
        1 rest) := by
    rw [Encoder.runAt, slice, Span.length,
      runEnd_eq now gsoSegments _ all (Nat.le_add_right start 1), Nat.add_sub_cancel_left,
      Nat.add_sub_cancel_left, htail, hstart]
  obtain ⟨-, -, hpos, hall, -⟩ := (payloadEncoder C now gsoSegments).run_spec all hlt
  have hloop := (payloadEncoder C now gsoSegments).loop_eq 0 all p hlt
  dsimp only at hloop
  rw [hsize, hrun] at hpos hall hloop
  exact ⟨hall, hpos, hloop⟩

/-- The sending loop takes its payloads as the loop over a cursor does. -/
theorem sendBatches_loop (now : Instant) (gsoSegments : ℕ) (all : List Bytes) (a : Actor C)
    (payloads : List Bytes) (sent encryptedAny : Bool) (start : ℕ)
    (hstart : payloads = all.drop start) :
    let p := a.sendBatches now gsoSegments payloads sent encryptedAny
    let loop := (payloadEncoder C now gsoSegments).loop all 0 a.machine start
    p.actor.machine = loop.state ∧ p.rest = all.drop loop.start ∧
      p.encryptedAny = (encryptedAny || decide (start < loop.start)) ∧
      ∃ new sent', Sends a p.actor sent' new ∧ p.sent = (sent || sent') ∧
        new.map Datagrams.batch = loop.batches := by
  fun_induction sendBatches now gsoSegments a payloads sent encryptedAny generalizing start with
  | case1 a sent encryptedAny =>
      have hend : ¬ start < all.length := by
        intro hlt
        have := congrArg List.length hstart
        rw [List.length_drop, List.length_nil] at this
        omega
      rw [Encoder.loop, dif_neg hend]
      refine ⟨rfl, hstart, ?_, [], false, .refl a, (Bool.or_false _).symm, rfl⟩
      rw [decide_eq_false (lt_irrefl start), Bool.or_false]
  | case2 a sent encryptedAny payload rest segmentSize maxSegments n batch left sent' any' hstall =>
      obtain ⟨hsize, hpos, hloop⟩ := loop_cons now gsoSegments hstart a.machine
      obtain ⟨hencrypted, hstalled, hmachine, new, hsends, hnew⟩ :=
        sends_batch now gsoSegments a hsize
      have hencrypted' : batch.encrypted = _ := hencrypted
      have hlt := hstalled.mp hstall
      dsimp only
      rw [hloop, if_pos hlt]
      refine ⟨hmachine, ?_, ?_, new, _, hsends, rfl, hnew⟩
      · have hleft : left = all.drop (start + batch.encrypted) := by
          rw [← List.drop_drop, ← hstart]
        exact hleft.trans (by rw [hencrypted'])
      · show (encryptedAny || decide (0 < batch.encrypted)) = _
        rw [hencrypted']
        congr 2
        exact propext (Nat.lt_add_right_iff_pos).symm
  | case3 a sent encryptedAny payload rest segmentSize maxSegments n batch left sent' any' hgo ih =>
      obtain ⟨hsize, hpos, hloop⟩ := loop_cons now gsoSegments hstart a.machine
      obtain ⟨hencrypted, hstalled, hmachine, new, hsends, hnew⟩ :=
        sends_batch now gsoSegments a hsize
      have hencrypted' : batch.encrypted = _ := hencrypted
      -- the batch did not stall: all of the run was encrypted, and the cursor moves past it
      have hge := fun hlt => hgo (hstalled.mpr hlt)
      have hall := le_antisymm (Encoder.length_encodeAll_le _) (not_lt.mp hge)
      have hleft : left = all.drop (start + batch.encrypted) := by
        rw [← List.drop_drop, ← hstart]
      have hrest := ih (start + batch.encrypted) hleft
      have hmachine' : (batch.send segmentSize).2.machine = _ := hmachine
      have hbeyond := ((payloadEncoder C now gsoSegments).loop_spec 0 all
        (batch.send segmentSize).2.machine (start + batch.encrypted)).2.1
      dsimp only at hrest hbeyond ⊢
      rw [hmachine', hencrypted'] at hrest hbeyond
      obtain ⟨hstate, hdrop, hany, new', sent'', hsends', hsent, hnew'⟩ := hrest
      rw [hloop, if_neg hge]
      refine ⟨hstate, hdrop, hany.trans ?_, new ++ new', _, hsends.trans hsends', ?_, ?_⟩
      · have hany' : any' = true := by
          show (encryptedAny || decide (0 < batch.encrypted)) = true
          rw [hencrypted', hall, decide_eq_true hpos, Bool.or_true]
        rw [hany', Bool.true_or, eq_comm, Bool.or_eq_true]
        exact Or.inr (decide_eq_true (by rw [hbeyond]; omega))
      · rw [hsent]
        exact Bool.or_assoc _ _ _
      · rw [List.map_append, hnew, hnew']

/-! ### Flushing -/

/-- Staging touches the queue and the ledger only. -/
theorem stage_frame (a : Actor C) (payloads : List Bytes) :
    ∃ staged ledger, a.stage payloads = { a with staged := staged, ledger := ledger } := by
  induction payloads generalizing a with
  | nil => exact ⟨_, _, rfl⟩
  | cons payload rest ih =>
      obtain ⟨staged, ledger, hone⟩ : ∃ staged ledger,
          a.stageOne payload = { a with staged := staged, ledger := ledger } := by
        unfold stageOne
        split <;> exact ⟨_, _, rfl⟩
      obtain ⟨staged', ledger', hrest⟩ := ih (a.stageOne payload)
      refine ⟨staged', ledger', ?_⟩
      show (a.stageOne payload).stage rest = _
      rw [hrest, hone]

theorem staged_stageOne {a : Actor C} (h : a.staged.length ≤ maxStagedPackets) (payload : Bytes) :
    (a.stageOne payload).staged
      = (a.staged ++ [payload]).drop (a.staged.length + 1 - maxStagedPackets) := by
  unfold stageOne
  split
  · rename_i hfull
    rw [hfull, Nat.add_sub_cancel_left]
    show a.staged.tail ++ [payload] = _
    rw [← List.drop_one, List.drop_append_of_le_length (by rw [hfull]; decide)]
  · rename_i hroom
    rw [Nat.sub_eq_zero_of_le (Nat.lt_of_le_of_ne h hroom), List.drop_zero]

/-- Staging adds to the end of the queue and drops the oldest that are too
many. -/
theorem staged_stage {a : Actor C} (h : a.staged.length ≤ maxStagedPackets)
    (payloads : List Bytes) :
    (a.stage payloads).staged = (a.staged ++ payloads).drop
      (a.staged.length + payloads.length - maxStagedPackets) := by
  induction payloads generalizing a with
  | nil =>
      rw [List.append_nil, List.length_nil, Nat.add_zero, Nat.sub_eq_zero_of_le h, List.drop_zero]
      rfl
  | cons payload rest ih =>
      have hone := staged_stageOne h payload
      have hlen := congrArg List.length hone
      rw [List.length_drop, List.length_append, List.length_singleton] at hlen
      have hpos : 0 < maxStagedPackets := by decide
      generalize maxStagedPackets = max at h hone hlen hpos ih ⊢
      have hdrop : a.staged.length + 1 - max
          + (a.staged.length + 1 - (a.staged.length + 1 - max) + rest.length - max)
          = a.staged.length + (rest.length + 1) - max := by omega
      show ((a.stageOne payload).stage rest).staged = _
      rw [ih (by omega), hlen, hone, ← List.drop_append_of_le_length, List.drop_drop, hdrop,
        List.append_assoc, List.singleton_append, List.length_cons]
      rw [List.length_append, List.length_singleton]
      omega

/-- What `flush_sends` starts from. -/
def flushStart (a : Actor C) : Actor C :=
  { a.tick with env := { a.tick.env with maxGsoSegments := a.tick.env.maxGsoSegments.tail } }

/-- The sending loop of `flush_sends`. -/
def flushed (a : Actor C) (payloads : List Bytes) : Progress C :=
  a.flushStart.sendBatches a.now a.tick.env.maxGsoSegments.head payloads false false

/-- The actor once `flush_sends` has sent everything. -/
def flushDone (a : Actor C) (payloads : List Bytes) : Actor C :=
  let p := a.flushed payloads
  if p.sent then
    let b := { p.actor with lastSend := a.now }
    match b.session with
    | none => b
    | some session =>
        { b with session := some (session.dataSent a.now b.rekeyJitter) }.jittered
  else p.actor

/-- Whether `flush_sends` then finds a new handshake due. -/
def flushRekeys (a : Actor C) (payloads : List Bytes) : Bool :=
  let p := a.flushed payloads
  p.encryptedAny && p.actor.machine.rekeyDueToMessages ||
    p.sent && p.actor.session.any fun session => session.rekeyAfterSend a.now

/-- **What `flush_sends` does.** -/
theorem flushSends_eq (a : Actor C) {payloads : List Bytes} (h : payloads ≠ []) :
    a.flushSends payloads =
      if (a.flushed payloads).rest ≠ [] then
        ({ (a.flushed payloads).actor with session := none }.stage
          (a.flushed payloads).rest).ensureHandshake
      else if a.flushRekeys payloads && (a.flushDone payloads).handshake.isNone then
        (a.flushDone payloads).sendHandshake a.now
      else a.flushDone payloads := by
  unfold flushSends flushDone flushRekeys flushed flushStart
  rw [if_neg h]
  dsimp only
  rcases sendBatches a.now _ _ payloads false false with ⟨b, rest, sent, encryptedAny⟩
  by_cases hrest : rest = []
  · rw [if_neg (not_not.mpr hrest), if_neg (not_not.mpr hrest)]
    cases sent with
    | false => simp only [Bool.false_and, Bool.or_false, Bool.false_eq_true, if_false]
    | true =>
        rcases b with ⟨_, _, _, _, _, _ | session, _, _, _, _, _, _, _, _, _⟩
        · simp only [Bool.true_and, Option.any_none, Bool.or_false, if_true]
        · rfl
  · rw [if_pos hrest, if_pos hrest]

/-- The sending loop of `flush_sends` is the loop over a cursor, and seals
payload by payload. -/
theorem flushed_spec (a : Actor C) (payloads : List Bytes) :
    let S := payloadEncoder C a.now a.env.maxGsoSegments.head
    let packets := (S.encodeAll 0 a.machine payloads).2
    (a.flushed payloads).actor.machine = (S.encodeAll 0 a.machine payloads).1 ∧
      (a.flushed payloads).rest = payloads.drop packets.length ∧
      (a.flushed payloads).encryptedAny = decide (0 < packets.length) ∧
      ∃ new runs, Sends a.flushStart (a.flushed payloads).actor (a.flushed payloads).sent new ∧
        new.map Datagrams.batch = (S.loop payloads 0 a.machine 0).batches ∧
        new.map Datagrams.batch = runs.map Encoder.Run.batch ∧
        Encoder.Cover S payloads packets runs := by
  intro S packets
  obtain ⟨hmachine, hrest, hany, new, sent, hsends, hsent, hnew⟩ := sendBatches_loop a.now
    a.env.maxGsoSegments.head payloads a.flushStart payloads false false 0 rfl
  obtain ⟨hstate, hstart, runs, hruns, hcover⟩ := S.loop_spec 0 payloads a.machine 0
  rw [Nat.zero_add] at hstart
  rw [Bool.false_or] at hsent hany
  have hsent' : (a.flushed payloads).sent = sent := hsent
  refine ⟨hmachine.trans hstate, hrest.trans (congrArg (payloads.drop ·) hstart), hany.trans ?_,
    new, runs, ?_, hnew, hnew.trans hruns, hcover⟩
  · exact congrArg (fun n => decide (0 < n)) hstart
  · rw [hsent']
    exact hsends

/-- A batch: payloads of one length, no more than fit in one send, whose
packets the read loop gets back. -/
structure IsBatch (gsoSegments : ℕ) (run : Encoder.Run Bytes UInt8) : Prop where
  nonempty : run.items ≠ []
  lengths : ∀ payload ∈ run.items, packetLen payload.length = run.size
  limit : run.items.length ≤ max 1 gsoSegments
  packets : run.packets.length = run.items.length
  cut : (segments run.batch.1.length run.batch.2).map (slice run.batch.1) = run.packets

theorem isBatch_of_fits {now : Instant} {gsoSegments : ℕ} {run : Encoder.Run Bytes UInt8}
    (h : run.Fits (payloadEncoder C now gsoSegments)) : IsBatch gsoSegments run where
  nonempty := h.nonempty
  lengths := h.size
  limit := by
    refine h.limit.trans ?_
    show max (min gsoSegments _) 1 ≤ _
    omega
  packets := h.packets
  cut := by
    obtain ⟨payload, rest, hitems⟩ := List.exists_cons_of_ne_nil h.nonempty
    have hsize : packetLen payload.length = run.size :=
      h.size payload (by rw [hitems]; exact List.mem_cons_self)
    refine slices_segments ?_ h.chunks
    show 0 < run.size
    rw [← hsize, packetLen]
    exact Nat.add_pos_left (by decide) _

theorem Sends.staged {a a' : Actor C} {sent : Bool} {new : List Datagrams}
    (h : Sends a a' sent new) : a'.staged = a.staged := by
  obtain ⟨-, -, _, _, _, _, _, rfl⟩ := h
  rfl

theorem Sends.datagrams {a a' : Actor C} {sent : Bool} {new : List Datagrams}
    (h : Sends a a' sent new) : a'.datagrams = a.datagrams ++ new := by
  obtain ⟨-, -, _, _, _, _, _, rfl⟩ := h
  rfl

/-- What is handed to the socket is the batch of a run. -/
theorem exists_run {new : List Datagrams} {runs : List (Encoder.Run Bytes UInt8)}
    (h : new.map Datagrams.batch = runs.map Encoder.Run.batch) {d : Datagrams} (hd : d ∈ new) :
    ∃ run ∈ runs, d.bytes = run.batch.1 := by
  have hmem : d.batch ∈ runs.map Encoder.Run.batch := h ▸ List.mem_map_of_mem hd
  obtain ⟨run, hrun, hbatch⟩ := List.mem_map.mp hmem
  exact ⟨run, hrun, (congrArg Prod.fst hbatch).symm⟩

theorem flushDone_cases (a : Actor C) (payloads : List Bytes) :
    ∃ lastSend session rekeyJitter, a.flushDone payloads = { (a.flushed payloads).actor with
      lastSend := lastSend
      session := session
      env := { (a.flushed payloads).actor.env with rekeyJitter := rekeyJitter } } := by
  unfold flushDone
  dsimp only
  split
  · split
    · exact ⟨_, _, _, rfl⟩
    · exact ⟨_, _, _, rfl⟩
  · exact ⟨_, _, _, rfl⟩

/-- Payloads that were not encrypted are staged, in order. -/
theorem staged_flushSends {a : Actor C} (h : a.staged.length ≤ maxStagedPackets)
    (payloads : List Bytes) :
    (a.flushSends payloads).staged = (a.staged ++ (a.flushed payloads).rest).drop
      (a.staged.length + (a.flushed payloads).rest.length - maxStagedPackets) := by
  have hnone : (a.staged ++ []).drop (a.staged.length + ([] : List Bytes).length
      - maxStagedPackets) = a.staged := by
    rw [List.append_nil, List.length_nil, Nat.add_zero, Nat.sub_eq_zero_of_le h, List.drop_zero]
  obtain ⟨-, -, -, new, -, hsends, -⟩ := a.flushed_spec payloads
  have hstaged : (a.flushed payloads).actor.staged = a.staged := hsends.staged
  by_cases hp : payloads = []
  · subst hp
    have hrest : (a.flushed []).rest = [] := by rw [flushed, sendBatches]
    rw [hrest, hnone, flushSends_nil]
  rw [flushSends_eq a hp]
  split
  · rw [(ensureHandshake_untouched _).staged, staged_stage (by exact hstaged ▸ h)]
    show ((a.flushed payloads).actor.staged ++ _).drop _ = _
    rw [hstaged]
  · rename_i hrest
    obtain ⟨lastSend, session, rekeyJitter, hdone⟩ := a.flushDone_cases payloads
    have hdone' : (a.flushDone payloads).staged = a.staged := by
      rw [hdone]
      exact hstaged
    rw [not_not.mp hrest, hnone]
    split
    · rw [(sendHandshake_untouched _ _).staged, hdone']
    · exact hdone'

/-- What `flush_sends` hands to the socket: its batches, and the initiation
that it may end with. -/
theorem datagrams_flushSends {a : Actor C} {payloads : List Bytes} {sent : Bool}
    {new : List Datagrams} (h : Sends a.flushStart (a.flushed payloads).actor sent new) :
    ∃ initiations, (a.flushSends payloads).datagrams = a.datagrams ++ new ++ initiations ∧
      ∀ d ∈ initiations, HasType .handshakeInit d.bytes := by
  have hflushed : (a.flushed payloads).actor.datagrams = a.datagrams ++ new := h.datagrams
  rw [← hflushed]
  by_cases hp : payloads = []
  · subst hp
    refine ⟨[], ?_, fun _ hd => by cases hd⟩
    rw [flushSends_nil, flushed, sendBatches, List.append_nil]
    rfl
  rw [flushSends_eq a hp]
  split
  · obtain ⟨new, hnew, htype⟩ := ensureHandshake_datagrams
      ({ (a.flushed payloads).actor with session := none }.stage (a.flushed payloads).rest)
    obtain ⟨staged, ledger, hstage⟩ :=
      stage_frame { (a.flushed payloads).actor with session := none } (a.flushed payloads).rest
    refine ⟨new, hnew.trans ?_, htype⟩
    rw [hstage]
  · obtain ⟨lastSend, session, rekeyJitter, hdone⟩ := a.flushDone_cases payloads
    split
    · obtain ⟨new, hnew, htype⟩ := (a.flushDone payloads).sendHandshake_datagrams a.now
      refine ⟨new, hnew.trans ?_, htype⟩
      rw [hdone]
    · refine ⟨[], ?_, fun _ hd => by cases hd⟩
      rw [hdone, List.append_nil]

/-- **Batching is a faithful partition.**  For every actor, list of payloads
and segment limit: the payloads that are encrypted are those before the first
failing one; what is handed to the socket are, in order, the packets of
consecutive runs of them, each of one length and within the limit, and the
read loop cuts each back into its packets.  The other payloads are staged in
order. -/
theorem batching_faithful (a : Actor C) (payloads : List Bytes) :
    let gsoSegments := a.env.maxGsoSegments.head
    let S := payloadEncoder C a.now gsoSegments
    let packets := (S.encodeAll 0 a.machine payloads).2
    (∃ (runs : List (Encoder.Run Bytes UInt8)) (new initiations : List Datagrams),
      (a.flushSends payloads).datagrams = a.datagrams ++ new ++ initiations ∧
      (∀ d ∈ initiations, HasType .handshakeInit d.bytes) ∧
      new.map Datagrams.batch = runs.map Encoder.Run.batch ∧
      new.map Datagrams.batch = (S.loop payloads 0 a.machine 0).batches ∧
      (∀ run ∈ runs, IsBatch gsoSegments run) ∧
      runs.flatMap Encoder.Run.items = payloads.take packets.length ∧
      runs.flatMap Encoder.Run.packets = packets) ∧
    (packets.length = payloads.length ∨
      ∃ payload error machine buf, payloads[packets.length]? = some payload ∧
        (S.encodeAll 0 a.machine (payloads.take packets.length)).1.encrypt a.now payload
          (List.replicate (packetLen payload.length) 0) = (.error error, machine, buf)) ∧
    (a.staged.length ≤ maxStagedPackets →
      (a.flushSends payloads).staged = (a.staged ++ payloads.drop packets.length).drop
        (a.staged.length + (payloads.length - packets.length) - maxStagedPackets)) := by
  intro gsoSegments S packets
  obtain ⟨-, hrest, -, new, runs, hsends, hloop, hnew, hcover⟩ := a.flushed_spec payloads
  obtain ⟨initiations, hdatagrams, hinit⟩ := datagrams_flushSends hsends
  refine ⟨⟨runs, new, initiations, hdatagrams, hinit, hnew, hloop, fun run hrun =>
    isBatch_of_fits (hcover.fits run hrun), hcover.items, hcover.packets⟩, ?_, fun hstaged => ?_⟩
  · rcases (Encoder.length_encodeAll_le (S := S) payloads).eq_or_lt with hall | hlt
    · exact Or.inl hall
    · obtain ⟨payload, hpayload, hfail⟩ := Encoder.exists_failing hlt
      rcases henc : Peer.encrypt (S.encodeAll 0 a.machine (payloads.take packets.length)).1 a.now
        payload (List.replicate (packetLen payload.length) 0) with ⟨error | n, machine, buf⟩
      · exact Or.inr ⟨payload, error, machine, buf, hpayload, henc⟩
      · have hok : S.encode (S.encodeAll 0 a.machine (payloads.take packets.length)).1 payload
            (List.replicate (S.size payload) 0) = (true, machine, buf) := by
          simp only [S, payloadEncoder] at henc ⊢
          rw [henc]
        cases hfail.symm.trans (congrArg Prod.fst hok)
  · rw [staged_flushSends hstaged, hrest, List.length_drop]

end Actor

end Tunstile
