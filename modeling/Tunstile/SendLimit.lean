/-
Tunstile/SendLimit.lean

How long the batches are that `flush_sends` hands to the socket.

A batch has as many segments of one size as fit into 65,535 bytes, the
largest message the tunnel handles.  One UDP send over IPv4 carries 65,507
bytes at most, and from that limit the largest plaintext is derived.  Most
segment sizes have no multiple between the two limits; for those that do, 63
packets of 1,040 bytes for one, a batch is longer than the socket can send
(`batch_over_send_limit`).  Every batch is within the lower limit exactly if
no run of the payloads that are encrypted falls between the two
(`batches_within_send_limit`): such a run is as long as a batch can be, so
the loop fills a batch with payloads of its size.
-/
import Tunstile.Rekeying
import Tunstile.Device

namespace Tunstile

variable {C : Crypto}

namespace Actor

open Device (maxIpv4UdpPayloadSize maxPlaintextSize)

/-! ### The length of a batch -/

/-- Payloads whose packets have one size and together are longer than one
send over IPv4, though within the largest message. -/
def BetweenLimits (gsoSegments : ℕ) (run : List Bytes) : Prop :=
  ∃ size, (∀ payload ∈ run, packetLen payload.length = size) ∧ run.length ≤ gsoSegments ∧
    maxIpv4UdpPayloadSize < run.length * size ∧ run.length * size ≤ maxMessageSize

/-- The payloads that `flush_sends` encrypts: those before the first that the
machine refuses. -/
def encrypts (a : Actor C) (payloads : List Bytes) : List Bytes :=
  payloads.take
    ((payloadEncoder C a.now a.env.maxGsoSegments.head).encodeAll 0 a.machine payloads).2.length

theorem packetLen_le_of_plaintext {n : ℕ} (h : n ≤ maxPlaintextSize) :
    packetLen n ≤ maxIpv4UdpPayloadSize := by
  have hmax : packetLen maxPlaintextSize ≤ maxIpv4UdpPayloadSize := by decide
  exact (Nat.add_le_add_left h _).trans hmax

/-- A run of more than one payload keeps to the segment limit, and its
packets to the largest message. -/
theorem limits_of_fits {now : Instant} {gsoSegments : ℕ} {run : Encoder.Run Bytes UInt8}
    (h : run.Fits (payloadEncoder C now gsoSegments)) :
    run.items.length = 1 ∨
      run.items.length ≤ gsoSegments ∧ run.items.length * run.size ≤ maxMessageSize := by
  have hlimit : run.items.length ≤ max (min gsoSegments (maxMessageSize / run.size)) 1 := h.limit
  have hpos : 0 < run.items.length := List.length_pos_of_ne_nil h.nonempty
  rcases le_max_iff.mp hlimit with hle | hone
  · obtain ⟨hgso, hdiv⟩ := le_min_iff.mp hle
    exact Or.inr ⟨hgso, (Nat.mul_le_mul_right _ hdiv).trans (Nat.div_mul_le_self _ _)⟩
  · exact Or.inl (le_antisymm hone hpos)

/-- A run that is not between the limits makes a batch within the lower
one. -/
theorem length_batch_le {now : Instant} {gsoSegments : ℕ} {run : Encoder.Run Bytes UInt8}
    (h : run.Fits (payloadEncoder C now gsoSegments))
    (hlengths : ∀ payload ∈ run.items, payload.length ≤ maxPlaintextSize)
    (hrun : ¬ BetweenLimits gsoSegments run.items) :
    run.batch.1.length ≤ maxIpv4UdpPayloadSize := by
  rw [h.length_batch]
  rcases limits_of_fits h with hone | ⟨hgso, hmessage⟩
  · -- a single packet is within the limit because its payload is
    obtain ⟨payload, hitems⟩ := List.length_eq_one_iff.mp hone
    have hmem : payload ∈ run.items := by
      rw [hitems]
      exact List.mem_cons_self
    have hsize : packetLen payload.length = run.size := h.size payload hmem
    rw [hone, Nat.one_mul, ← hsize]
    exact packetLen_le_of_plaintext (hlengths payload hmem)
  · by_contra hover
    exact hrun ⟨run.size, h.size, hgso, not_le.mp hover, hmessage⟩

/-- A run between the limits is as long as a batch of its size can be: one
more packet and it is longer than the largest message. -/
theorem length_of_betweenLimits {gsoSegments size : ℕ} {run : List Bytes}
    (hsize : ∀ payload ∈ run, packetLen payload.length = size)
    (hgso : run.length ≤ gsoSegments) (hover : maxIpv4UdpPayloadSize < run.length * size)
    (hmessage : run.length * size ≤ maxMessageSize) :
    run.length = maxBatchSegments gsoSegments size := by
  have hpos : 0 < run.length * size := (Nat.zero_le _).trans_lt hover
  have hrun : 0 < run.length := Nat.pos_of_mul_pos_right hpos
  -- a packet is longer than the gap between the limits
  have hgap : maxMessageSize < maxIpv4UdpPayloadSize + size := by
    obtain ⟨payload, hpayload⟩ := List.exists_mem_of_length_pos hrun
    have hmin : maxMessageSize < maxIpv4UdpPayloadSize + packetLen 0 := by decide
    have hle : packetLen 0 ≤ size := by
      rw [← hsize payload hpayload]
      exact Nat.add_le_add_left (Nat.zero_le _) _
    omega
  have hfit : maxMessageSize / size = run.length := by
    refine Nat.div_eq_of_lt_le hmessage ?_
    rw [Nat.succ_mul]
    omega
  rw [maxBatchSegments, hfit, min_eq_right hgso, max_eq_left hrun]

/-! ### A batch that is too long -/

/-- A live session encrypts as many payloads as its counter allows. -/
theorem length_encodeAll_of_live {p : Peer C} {x : Session C} {endpoint : SocketAddr}
    {now : Instant} (gsoSegments : ℕ) (hend : p.endpoint = some endpoint)
    (hcurrent : p.current = some x) (hlive : x.expired now = false) (payloads : List Bytes)
    (hctr : x.transport.sendCounter.toNat + payloads.length ≤ rejectAfterMessages.toNat) :
    ((payloadEncoder C now gsoSegments).encodeAll 0 p payloads).2.length = payloads.length := by
  induction payloads generalizing p x with
  | nil => rfl
  | cons payload rest ih =>
      rw [List.length_cons] at hctr
      have hlt : x.transport.sendCounter < rejectAfterMessages := by
        rw [UInt64.lt_iff_toNat_lt]
        omega
      have hroom : packetLen payload.length
          ≤ (List.replicate (packetLen payload.length) (0 : UInt8)).length :=
        List.length_replicate.ge
      have hstep := Peer.step_encrypt_ok hend hcurrent hlive hroom hlt
      rcases henc : p.encrypt now payload (List.replicate (packetLen payload.length) 0) with
        ⟨e | n, p', buf⟩ <;> rw [Peer.step, henc] at hstep
      · cases hstep
      have hp' := (Prod.mk.inj hstep).2
      have hall : (payloadEncoder C now gsoSegments).encodeAll 0 p (payload :: rest)
          = (((payloadEncoder C now gsoSegments).encodeAll 0 p' rest).1,
            buf :: ((payloadEncoder C now gsoSegments).encodeAll 0 p' rest).2) := by
        refine Encoder.encodeAll_cons_true ?_
        simp only [payloadEncoder, henc]
      -- the counter moves on by one
      have hnext : (x.transport.sendCounter + 1).toNat = x.transport.sendCounter.toNat + 1 := by
        have hmax := rejectAfterMessages.toNat_lt
        rw [UInt64.toNat_add, UInt64.toNat_one, Nat.mod_eq_of_lt (by omega)]
      have hrest : ((payloadEncoder C now gsoSegments).encodeAll 0 p' rest).2.length
          = rest.length := by
        rw [hp']
        refine ih (x := { x with transport :=
          { x.transport with sendCounter := x.transport.sendCounter + 1 } }) hend rfl hlive ?_
        show (x.transport.sendCounter + 1).toNat + rest.length ≤ _
        omega
      rw [hall]
      exact congrArg (· + 1) hrest

/-- Payloads of one length on a live session, no more than the segment limit:
they are sent as one batch. -/
theorem flushSends_one_batch {a : Actor C} {x : Session C} {endpoint : SocketAddr}
    (hend : a.machine.endpoint = some endpoint) (hcurrent : a.machine.current = some x)
    (hlive : x.expired a.now = false) {payload : Bytes} {rest : List Bytes}
    (hsize : ∀ p ∈ payload :: rest, packetLen p.length = packetLen payload.length)
    (hlimit : (payload :: rest).length
      ≤ maxBatchSegments a.env.maxGsoSegments.head (packetLen payload.length))
    (hctr : x.transport.sendCounter.toNat + (payload :: rest).length
      ≤ rejectAfterMessages.toNat) :
    ∃ d initiations,
      (a.flushSends (payload :: rest)).datagrams = a.datagrams ++ [d] ++ initiations ∧
      (∀ i ∈ initiations, HasType .handshakeInit i.bytes) ∧
      d.bytes.length = (payload :: rest).length * packetLen payload.length := by
  have hall := length_encodeAll_of_live a.env.maxGsoSegments.head hend hcurrent hlive
    (payload :: rest) hctr
  obtain ⟨-, -, -, new, runs, hsends, hloop, hnew, hcover⟩ := a.flushed_spec (payload :: rest)
  obtain ⟨initiations, hdatagrams, hinits⟩ := datagrams_flushSends hsends
  have hone := Encoder.loop_one_run (S := payloadEncoder C a.now a.env.maxGsoSegments.head) hsize
    hlimit hall
  rw [hone] at hloop
  obtain ⟨d, rfl, -⟩ := List.map_eq_singleton_iff.mp hloop
  refine ⟨d, initiations, hdatagrams, hinits, ?_⟩
  -- the one run covers all payloads
  obtain ⟨run, rfl, hbatch⟩ := List.map_eq_singleton_iff.mp hnew.symm
  have hfits := hcover.fits run (List.mem_singleton_self _)
  have hitems : run.items = payload :: rest := by
    have h := hcover.items
    rw [hall, List.take_length] at h
    exact (List.append_nil _).symm.trans h
  have hlen : d.bytes.length = run.batch.1.length := by
    rw [hbatch]
    rfl
  have hrunSize : packetLen payload.length = run.size := by
    refine hfits.size payload ?_
    rw [hitems]
    exact List.mem_cons_self
  rw [hlen, hfits.length_batch, hitems, hrunSize]

/-- The environment of a socket that takes 64 segments at once. -/
def segmenting : Env Crypto.symbolic :=
  { twoReads (seconds 0) (seconds 0) with maxGsoSegments := Stream'.const 64 }

/-- A peer is connected and the handshake completed. -/
def establishing (resp : Bytes) : List (Event Crypto.symbolic) :=
  [.actions [.connect anyEndpoint], .actions [.recvHandshakeResp resp anyEndpoint]]

/-- The session it leaves. -/
theorem exists_establishing : ∃ resp x,
    let a := (initiator segmenting).run (establishing resp)
    a.env.maxGsoSegments.head = 64 ∧ a.machine.endpoint = some anyEndpoint ∧
      a.machine.current = some x ∧ x.expired a.now = false ∧ x.transport.sendCounter = 1 := by
  obtain ⟨resp, hconnected⟩ := exists_connected segmenting (t := seconds 0) rfl rfl
    (by show (seconds 0).durationSince (seconds 0) < _; decide)
  rw [← turn_action _ (fun _ h => by cases h), ← turn_action _ (fun _ h => by cases h)]
    at hconnected
  obtain ⟨-, -, -, henv, hend, -, -, x, hctr, hest, hcurrent⟩ := hconnected
  refine ⟨resp, x, ?_⟩
  rw [establishing, run, List.foldl_cons, List.foldl_cons, List.foldl_nil]
  refine ⟨by rw [henv]; rfl, hend, hcurrent, ?_, hctr⟩
  have hnow : (((initiator segmenting).turn (.actions [.connect anyEndpoint])).turn
      (.actions [.recvHandshakeResp resp anyEndpoint])).now = seconds 0 := by
    rw [now, henv]
    rfl
  rw [Session.expired, hnow, hest]
  decide

/-- **A batch longer than one send.**  On that session 63 payloads of 1,008
bytes are sent.  They go out as one batch of 65,520 bytes. -/
theorem batch_over_send_limit : ∃ resp,
    let a := (initiator segmenting).run (establishing resp)
    let payloads := List.replicate 63 (List.replicate 1008 (0 : UInt8))
    a.env.maxGsoSegments.head = 64 ∧
      (∀ payload ∈ payloads, payload.length ≤ maxPlaintextSize) ∧
      ∃ d initiations, (a.flushSends payloads).datagrams = a.datagrams ++ [d] ++ initiations ∧
        (∀ i ∈ initiations, HasType .handshakeInit i.bytes) ∧
        d.bytes.length = 65520 ∧ maxIpv4UdpPayloadSize < d.bytes.length := by
  obtain ⟨resp, x, hgso, hend, hcurrent, hlive, hctr⟩ := exists_establishing
  refine ⟨resp, ?_⟩
  dsimp only
  generalize (initiator segmenting).run (establishing resp) = a at hgso hend hcurrent hlive ⊢
  have hlength : (List.replicate 1008 (0 : UInt8)).length = 1008 := List.length_replicate
  generalize List.replicate 1008 (0 : UInt8) = payload at hlength ⊢
  have hsame : ∀ p ∈ payload :: List.replicate 62 payload, p.length = 1008 := by
    intro p hp
    rw [List.eq_of_mem_replicate (n := 63) hp]
    exact hlength
  have hcount : (payload :: List.replicate 62 payload).length = 63 := by
    rw [List.length_cons, List.length_replicate]
  rw [show List.replicate 63 payload = payload :: List.replicate 62 payload from rfl]
  refine ⟨hgso, fun p hp => ?_, ?_⟩
  · rw [hsame p hp]
    decide
  obtain ⟨d, initiations, hdatagrams, hinits, hlen⟩ := flushSends_one_batch hend hcurrent hlive
    (fun p hp => by rw [hsame p hp, hlength])
    (by rw [hcount, hgso, hlength]; decide) (by rw [hcount, hctr]; decide)
  rw [hcount, hlength] at hlen
  have hlen' : d.bytes.length = 65520 := hlen.trans (by decide)
  refine ⟨d, initiations, hdatagrams, hinits, hlen', ?_⟩
  rw [hlen']
  decide

/-- **When batches are within one send.**  For every actor, segment limit and
list of payloads up to the largest plaintext: every batch that `flush_sends`
hands to the socket is within the limit of one send over IPv4 if and only if
no run of neighbouring payloads of one size, among those it encrypts, falls
between the two limits. -/
theorem batches_within_send_limit (a : Actor C) (payloads : List Bytes)
    (hlengths : ∀ payload ∈ payloads, payload.length ≤ maxPlaintextSize) :
    ∃ new initiations,
      (a.flushSends payloads).datagrams = a.datagrams ++ new ++ initiations ∧
      (∀ i ∈ initiations, HasType .handshakeInit i.bytes) ∧
      new.map Datagrams.batch = ((payloadEncoder C a.now a.env.maxGsoSegments.head).loop payloads 0
        a.machine 0).batches ∧
      ((∀ d ∈ new, d.bytes.length ≤ maxIpv4UdpPayloadSize) ↔
        ∀ run, run <:+: a.encrypts payloads →
          ¬ BetweenLimits a.env.maxGsoSegments.head run) := by
  obtain ⟨-, -, -, new, runs, hsends, hloop, hnew, hcover⟩ := a.flushed_spec payloads
  obtain ⟨initiations, hdatagrams, hinits⟩ := datagrams_flushSends hsends
  refine ⟨new, initiations, hdatagrams, hinits, hloop, ?_, ?_⟩
  · -- the loop fills a batch with payloads of that size
    rintro hwithin run hrun ⟨size, hsize, hgso, hover, hmessage⟩
    have hlength := length_of_betweenLimits hsize hgso hover hmessage
    obtain ⟨r, hr, hrsize, hfull⟩ := hcover.exists_full hrun hsize hlength
    have hbatch : r.batch ∈ new.map Datagrams.batch := hnew ▸ List.mem_map_of_mem hr
    obtain ⟨d, hd, hdr⟩ := List.mem_map.mp hbatch
    have hlen : d.bytes.length = run.length * size := by
      have hbytes : d.bytes = r.batch.1 := congrArg Prod.fst hdr
      rw [hbytes, (hcover.fits r hr).length_batch, hfull, hrsize, hlength]
      rfl
    exact absurd (hwithin d hd) (not_le.mpr (hlen ▸ hover))
  · intro hruns d hd
    obtain ⟨run, hrun, hbytes⟩ := exists_run hnew hd
    have hwithin := hcover.isInfix hrun
    rw [hbytes]
    exact length_batch_le (hcover.fits run hrun)
      (fun payload hpayload => hlengths payload
        (List.mem_of_mem_take (hwithin.subset hpayload))) (hruns _ hwithin)

/-- One payload less: all of them are encrypted, and the batch is within the
limit. -/
theorem batches_within_send_limit_segmenting : ∃ resp,
    let a := (initiator segmenting).run (establishing resp)
    let payloads := List.replicate 62 (List.replicate 1008 (0 : UInt8))
    a.encrypts payloads = payloads ∧
      ∃ new initiations,
        (a.flushSends payloads).datagrams = a.datagrams ++ new ++ initiations ∧
        (∀ i ∈ initiations, HasType .handshakeInit i.bytes) ∧
        new.map Datagrams.batch = ((payloadEncoder Crypto.symbolic a.now
          a.env.maxGsoSegments.head).loop payloads 0 a.machine 0).batches ∧
        ∀ d ∈ new, d.bytes.length ≤ maxIpv4UdpPayloadSize := by
  obtain ⟨resp, x, -, hend, hcurrent, hlive, hctr⟩ := exists_establishing
  refine ⟨resp, ?_⟩
  dsimp only
  generalize (initiator segmenting).run (establishing resp) = a at hend hcurrent hlive
  have hlength : (List.replicate 1008 (0 : UInt8)).length = 1008 := List.length_replicate
  generalize List.replicate 1008 (0 : UInt8) = payload at hlength ⊢
  have hsame : ∀ p ∈ List.replicate 62 payload, p.length = 1008 := by
    intro p hp
    rw [List.eq_of_mem_replicate hp]
    exact hlength
  have hall : a.encrypts (List.replicate 62 payload) = List.replicate 62 payload := by
    have hcount := length_encodeAll_of_live a.env.maxGsoSegments.head hend hcurrent hlive
      (List.replicate 62 payload) (by rw [List.length_replicate, hctr]; decide)
    rw [encrypts, hcount, List.take_length]
  have hlengths : ∀ p ∈ List.replicate 62 payload, p.length ≤ maxPlaintextSize := by
    intro p hp
    rw [hsame p hp]
    decide
  have hruns : ∀ run, run <:+: a.encrypts (List.replicate 62 payload) →
      ¬ BetweenLimits a.env.maxGsoSegments.head run := by
    rw [hall]
    rintro run hwithin ⟨size, hsize, -, hover, -⟩
    have hcount : run.length ≤ 62 := hwithin.length_le.trans List.length_replicate.le
    cases run with
    | nil =>
        rw [List.length_nil, Nat.zero_mul] at hover
        exact Nat.not_lt_zero _ hover
    | cons p rest =>
        have hp := hsize p List.mem_cons_self
        rw [hsame p (hwithin.subset List.mem_cons_self)] at hp
        have hbound : (p :: rest).length * size ≤ 62 * packetLen 1008 := by
          rw [← hp]
          exact Nat.mul_le_mul_right _ hcount
        have hmax : 62 * packetLen 1008 ≤ maxIpv4UdpPayloadSize := by decide
        exact absurd hover (not_lt.mpr (hbound.trans hmax))
  obtain ⟨new, initiations, hdatagrams, hinits, hloop, hiff⟩ :=
    batches_within_send_limit a _ hlengths
  exact ⟨hall, new, initiations, hdatagrams, hinits, hloop, hiff.mpr hruns⟩

end Actor

end Tunstile
