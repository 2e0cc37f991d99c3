/-
Tunstile/Totality.lean

The rest of the inbound path: data messages, the segmentation of a received
buffer, and the read loop's handling of a segment.  The segmentation is a
loop; `spanLoop` runs it with fuel, and `none` is also the loop that has not
ended.  `inbound_total` gathers that none of it panics or runs on.
-/
import Tunstile.Ideal
import Tunstile.Inbound

namespace Tunstile

variable {C : Crypto}

/-! ### Data messages -/

/-- `Transport::receive`. -/
def Transport.receiveChecked (t : Transport C) (packet : Bytes) :
    Option (Except TransportError (UInt64 × ℕ × Bytes)) :=
  if packet.length < packetLen 0 then some (.error .invalidPacket)
  else do
    let front ← frontChecked .data packet
    if !front then some (.error .invalidPacket)
    else do
      let bytes ← sliceChecked packet dataReceiver
      let bytes ← arrayChecked 4 bytes
      if u32FromLe bytes ≠ t.ourIndex then some (.error .invalidPacket)
      else do
        let bytes ← sliceChecked packet dataCounter
        let bytes ← arrayChecked 8 bytes
        let counter := u64FromLe bytes
        match ← C.aeadOpenWithinChecked t.recvAead counter [] packet dataPayloadOffset with
        | none => some (.error .invalidPacket)
        | some opened => do
            let len ← subChecked packet.length dataPayloadOffset
            let len ← subChecked len aeadTagSize
            some (.ok (counter, len, opened))

theorem Transport.receiveChecked_eq (t : Transport C) (packet : Bytes) :
    t.receiveChecked packet = some (t.receive packet) := by
  rw [receiveChecked, receive]
  refine readerChecked_eq (fun hlen => le_trans (by decide) (not_lt.mp hlen)) fun hlen => ?_
  -- header, counter and tag fit into the shortest data message
  have hfit : 32 ≤ packet.length := not_lt.mp hlen
  have hreceiver : sliceChecked packet dataReceiver = some (slice packet dataReceiver) :=
    sliceChecked_eq (by decide) (le_trans (by decide) hfit)
  have hreceiver' : arrayChecked 4 (slice packet dataReceiver)
      = some (slice packet dataReceiver) := arrayChecked_slice (le_trans (by decide) hfit) rfl
  have hcounter : sliceChecked packet dataCounter = some (slice packet dataCounter) :=
    sliceChecked_eq (by decide) (le_trans (by decide) hfit)
  have hcounter' : arrayChecked 8 (slice packet dataCounter) = some (slice packet dataCounter) :=
    arrayChecked_slice (le_trans (by decide) hfit) rfl
  have hoffset : subChecked packet.length dataPayloadOffset
      = some (packet.length - dataPayloadOffset) := subChecked_eq (le_trans (by decide) hfit)
  have htag : subChecked (packet.length - dataPayloadOffset) aeadTagSize
      = some (packet.length - dataPayloadOffset - aeadTagSize) :=
    subChecked_eq (Nat.le_sub_of_add_le hfit)
  simp only [hreceiver, hreceiver', hcounter, hcounter', hoffset, htag,
    Crypto.aeadOpenWithinChecked_eq, Option.bind_eq_bind, Option.bind_some]
  split_ifs
  · rfl
  · cases C.aeadOpenWithin t.recvAead (u64FromLe (slice packet dataCounter)) [] packet
      dataPayloadOffset <;> rfl

/-- `Session::receive`. -/
def Session.receiveChecked (s : Session C) (packet : Bytes) :
    Option (Except SessionReceiveError (ℕ × Bytes) × Session C) := do
  match ← s.transport.receiveChecked packet with
  | .error _ => some (.error .invalid, s)
  | .ok (counter, payloadLen, packet) =>
      match ← s.replay.validateChecked counter with
      | (false, replay) => some (.error .replay, { s with replay := replay })
      | (true, replay) => some (.ok (payloadLen, packet), { s with replay := replay })

theorem Session.receiveChecked_eq (s : Session C) (packet : Bytes) :
    s.receiveChecked packet = some (s.receive packet) := by
  rw [receiveChecked, receive, Transport.receiveChecked_eq, Option.bind_eq_bind,
    Option.bind_some]
  cases s.transport.receive packet with
  | error e => rfl
  | ok result =>
      obtain ⟨counter, payloadLen, opened⟩ := result
      simp only [ReplayFilter.validateChecked_eq, Option.bind_eq_bind, Option.bind_some]
      generalize s.replay.validate counter = validated
      obtain ⟨_ | _, replay⟩ := validated <;> rfl

namespace Peer

/-- The session slot a packet belongs to is tested first and unwrapped after. -/
def matchingChecked (p : Peer C) (receiver : UInt32) : Option (Option (Slot × Session C)) :=
  if (p.slot .next).any (fun session => session.ourIndex = receiver) then do
    let session ← p.slot .next
    some (some (.next, session))
  else if (p.slot .current).any (fun session => session.ourIndex = receiver) then do
    let session ← p.slot .current
    some (some (.current, session))
  else if (p.slot .previous).any (fun session => session.ourIndex = receiver) then do
    let session ← p.slot .previous
    some (some (.previous, session))
  else some none

/-- Trying one slot before the others. -/
theorem matchingChecked_slot (p : Peer C) (receiver : UInt32) (k : Slot)
    {others : Option (Option (Slot × Session C))} {found : Option (Slot × Session C)}
    (h : others = some found) :
    (if (p.slot k).any (fun session => session.ourIndex = receiver) then do
        let session ← p.slot k
        some (some (k, session))
      else others)
      = some ((((p.slot k).filter fun session => session.ourIndex = receiver).map
          fun session => (k, session)).or found) := by
  cases hslot : p.slot k with
  | none => simp [h]
  | some session =>
      by_cases hindex : session.ourIndex = receiver
      · simp [hindex, Option.filter]
      · simp [hindex, h, Option.filter]

theorem matchingChecked_eq (p : Peer C) (receiver : UInt32) :
    p.matchingChecked receiver = some (p.matching receiver) := by
  have hprevious := p.matchingChecked_slot receiver .previous
    (show (some none : Option (Option (Slot × Session C))) = some none from rfl)
  have hcurrent := p.matchingChecked_slot receiver .current hprevious
  have hnext := p.matchingChecked_slot receiver .next hcurrent
  rw [Option.or_none] at hnext
  exact hnext

/-- `Peer::decrypt`. -/
def decryptChecked (p : Peer C) (now : Instant) (receiver : UInt32) (packet : Bytes)
    (source : SocketAddr) : Option (Except PeerError (Recv × Bytes) × Peer C) := do
  match ← p.matchingChecked receiver with
  | none => some (.error .unexpected, p)
  | some (k, session) =>
      if session.expired now then some (.error .expired, p)
      else do
        match ← session.receiveChecked packet with
        | (.error e, session) => some (.error (receiveError e), p.setSlot session k)
        | (.ok (payloadLen, packet), session) =>
            let p := { p.setSlot session k with endpoint := some source }
            match k with
            | .next => do
                let session ← p.next
                let (unmapped, p) := { p with next := none }.adoptCurrent session source
                some (.ok ({ payloadLen := payloadLen, confirmed := true, unmapped := unmapped },
                  packet), p)
            | _ =>
                some (.ok ({ payloadLen := payloadLen, confirmed := false, unmapped := none },
                  packet), p)

theorem decryptChecked_eq (p : Peer C) (now : Instant) (receiver : UInt32) (packet : Bytes)
    (source : SocketAddr) :
    p.decryptChecked now receiver packet source = some (p.decrypt now receiver packet source) := by
  rw [decryptChecked, decrypt, matchingChecked_eq, Option.bind_eq_bind, Option.bind_some]
  cases p.matching receiver with
  | none => rfl
  | some found =>
      obtain ⟨k, session⟩ := found
      simp only [Session.receiveChecked_eq, Option.bind_eq_bind, Option.bind_some]
      split_ifs
      · rfl
      · generalize session.receive packet = received
        obtain ⟨_ | ⟨payloadLen, opened⟩, session'⟩ := received
        · rfl
        · -- the slot just written holds the session that is taken out again
          cases k <;> rfl

end Peer

/-! ### Segmentation -/

/-- The segmentation loop, with fuel. -/
def spanLoop (len stride : ℕ) : ℕ → ℕ → Option (List Span)
  | 0, _ => none
  | fuel + 1, offset =>
      if offset < len then do
        let left ← subChecked len offset
        if min stride left = 0 then some []
        else do
          let spans ← spanLoop len stride fuel (offset + min stride left)
          some (⟨offset, offset + min stride left⟩ :: spans)
      else some []

/-- The loop ends: every turn that does not leave it moves the offset. -/
theorem spanLoop_eq {len stride fuel offset : ℕ} (h : len - offset < fuel) :
    spanLoop len stride fuel offset = some (segmentsFrom len stride offset) := by
  induction fuel generalizing offset with
  | zero => omega
  | succ fuel ih =>
      rw [spanLoop, segmentsFrom]
      by_cases hoffset : offset < len
      · rw [if_pos hoffset, if_pos hoffset, subChecked_eq hoffset.le, Option.bind_eq_bind,
          Option.bind_some]
        by_cases hzero : min stride (len - offset) = 0
        · rw [if_pos hzero, if_pos hzero]
        · rw [if_neg hzero, if_neg hzero, ih (by omega), Option.bind_eq_bind, Option.bind_some]
      · rw [if_neg hoffset, if_neg hoffset]

/-- A positive stride covers the buffer. -/
theorem consecutive_segmentsFrom {len stride offset : ℕ} (hstride : 0 < stride)
    (h : offset ≤ len) : Consecutive offset (segmentsFrom len stride offset) len := by
  induction hleft : len - offset using Nat.strong_induction_on generalizing offset with
  | _ left ih =>
      rw [segmentsFrom]
      by_cases hoffset : offset < len
      · rw [if_pos hoffset, if_neg (by omega)]
        refine ⟨rfl, by dsimp only; omega, ?_⟩
        have hnext : offset + min stride (len - offset) ≤ len := by omega
        exact ih (len - (offset + min stride (len - offset))) (by omega) hnext rfl
      · rw [if_neg hoffset]
        exact le_antisymm h (not_lt.mp hoffset)

/-- A stride of zero ends the loop at once. -/
theorem segmentsFrom_zero (len offset : ℕ) : segmentsFrom len 0 offset = [] := by
  rw [segmentsFrom, Nat.zero_min, if_pos rfl, ite_self]

/-- Every segment lies inside the received bytes. -/
theorem segment_bounds {len stride : ℕ} {r : Span} (hr : r ∈ segments len stride) :
    r.start < r.stop ∧ r.stop ≤ len := by
  rcases Nat.eq_zero_or_pos stride with rfl | hstride
  · rw [segments, segmentsFrom_zero] at hr
    cases hr
  · exact (consecutive_segmentsFrom hstride (Nat.zero_le len)).mem hr

/-- The slices the loop takes. -/
def cutChecked (buf : Bytes) (len stride fuel : ℕ) : Option (List Bytes) := do
  let spans ← spanLoop len stride fuel 0
  spans.mapM (sliceChecked buf)

theorem cutChecked_eq {buf : Bytes} {len fuel : ℕ} (stride : ℕ) (hbuf : len ≤ buf.length)
    (hfuel : len < fuel) :
    cutChecked buf len stride fuel = some ((segments len stride).map (slice buf)) := by
  rw [cutChecked, spanLoop_eq (by omega), Option.bind_eq_bind, Option.bind_some]
  refine mapM_sliceChecked fun r hr => ?_
  obtain ⟨hlt, hle⟩ := segment_bounds hr
  exact ⟨hlt.le, hle.trans hbuf⟩

/-! ### The read loop -/

namespace ReadLoop

/-- Handing a segment on. -/
def dispatchChecked (ourPrivate : C.Secret) (a : Arrival) : MessageHeader → Option (Handed C)
  | .handshakeInit => do
      match ← InitReceived.receiveChecked ourPrivate a.segment with
      | .ok handshake => some (.handshakeInit a.addr handshake)
      | .error _ => some .invalidInit
  | .handshakeResponse receiver => some (.handshakeResp a.addr receiver a.segment)
  | .data receiver => some (.data a.addr receiver a.segment)
  | .cookieReply receiver => some (.cookieReply receiver a.segment)

theorem dispatchChecked_eq (ourPrivate : C.Secret) (a : Arrival) (header : MessageHeader) :
    dispatchChecked ourPrivate a header = some (dispatch ourPrivate a header) := by
  cases header with
  | handshakeInit =>
      rw [dispatchChecked, dispatch, InitReceived.receiveChecked_eq, Option.bind_eq_bind,
        Option.bind_some]
      cases InitReceived.receive ourPrivate a.segment <;> rfl
  | handshakeResponse receiver => rfl
  | data receiver => rfl
  | cookieReply receiver => rfl

/-- One segment. -/
def handleChecked (ourPrivate : C.Secret) (X : CookieSeal C) (s : ReadLoop C) (a : Arrival) :
    Option (Handed C × ReadLoop C) := do
  match ← MessageHeader.tryFromChecked a.segment with
  | .error _ => some (.invalid, s)
  | .ok header =>
      if handshakeHeader (.ok header) then do
        let s := s.rotate a.now a.secret
        match ← s.guard.checkChecked X a.now a.segment a.addr a.nonce with
        | (.process, guard) => do
            let handed ← dispatchChecked ourPrivate a header
            some (handed, { s with guard := guard })
        | (.drop, guard) => some (.dropped, { s with guard := guard })
        | (.cookie reply, guard) => some (.challenged a.addr reply, { s with guard := guard })
      else do
        let handed ← dispatchChecked ourPrivate a header
        some (handed, s)

theorem handleChecked_eq (hC : C.Sized) (ourPrivate : C.Secret) (X : CookieSeal C)
    (s : ReadLoop C) (a : Arrival) :
    s.handleChecked ourPrivate X a = some (s.handle ourPrivate X a) := by
  have hhandshake : isHandshake a.segment = handshakeHeader (MessageHeader.tryFrom a.segment) :=
    rfl
  rw [handleChecked, handle, MessageHeader.tryFromChecked_eq, Option.bind_eq_bind,
    Option.bind_some, hhandshake]
  cases MessageHeader.tryFrom a.segment with
  | error e => rfl
  | ok header =>
      simp only [LoadGuard.checkChecked_eq hC, dispatchChecked_eq, Option.bind_eq_bind,
        Option.bind_some]
      split_ifs
      · generalize (s.rotate a.now a.secret).guard.check X a.now a.segment a.addr a.nonce
          = checked
        obtain ⟨_ | _ | reply, guard⟩ := checked <;> rfl
      · rfl

end ReadLoop

/-- **The inbound path is total.**  On every byte string, in every state, each
step on untrusted bytes returns what the plain model does: no slice is out of
bounds, no length falls below zero, no unwrap fails.  The segmentation of a
buffer ends for every length and stride; with a positive stride it hands out
consecutive segments, none of them empty, that are together the bytes
received. -/
theorem inbound_total (hC : C.Sized) (X : CookieSeal C) :
    (∀ value, MessageHeader.tryFromChecked value = some (MessageHeader.tryFrom value)) ∧
    (∀ (v : Verifier C) msg, v.verifyMac1Checked msg = some (v.verifyMac1 msg)) ∧
    (∀ (v : Verifier C) msg source secret,
      v.verifyMac2Checked msg source secret = some (v.verifyMac2 msg source secret)) ∧
    (∀ (v : Verifier C) prompting source secret nonce out,
      v.writeCookieReplyChecked X prompting source secret nonce out
        = some (v.writeCookieReply X prompting source secret nonce out)) ∧
    (∀ (g : LoadGuard C) now msg source nonce,
      g.checkChecked X now msg source nonce = some (g.check X now msg source nonce)) ∧
    (∀ (ourPrivate : C.Secret) packet,
      InitReceived.receiveChecked ourPrivate packet
        = some (InitReceived.receive ourPrivate packet)) ∧
    (∀ (state : InitSent C) ourPrivate presharedKey packet,
      state.responseReceivedChecked ourPrivate presharedKey packet
        = some (state.responseReceived ourPrivate presharedKey packet)) ∧
    (∀ (g : Generator C) reply now,
      g.processCookieReplyChecked reply now = some (g.processCookieReply reply now)) ∧
    (∀ key counter authText data start,
      C.aeadOpenWithinChecked key counter authText data start
        = some (C.aeadOpenWithin key counter authText data start)) ∧
    (∀ (t : Transport C) packet, t.receiveChecked packet = some (t.receive packet)) ∧
    (∀ (p : Peer C) now receiver packet source,
      p.decryptChecked now receiver packet source
        = some (p.decrypt now receiver packet source)) ∧
    (∀ ourPrivate (s : ReadLoop C) a,
      s.handleChecked ourPrivate X a = some (s.handle ourPrivate X a)) ∧
    (∀ len stride fuel, len < fuel →
      spanLoop len stride fuel 0 = some (segments len stride)) ∧
    (∀ (buf : Bytes) len stride fuel, len ≤ buf.length → len < fuel →
      cutChecked buf len stride fuel = some ((segments len stride).map (slice buf))) ∧
    (∀ (buf : Bytes) len stride, len ≤ buf.length → 0 < stride →
      Consecutive 0 (segments len stride) len ∧
        (∀ segment ∈ (segments len stride).map (slice buf), segment ≠ []) ∧
        ((segments len stride).map (slice buf)).flatten = buf.take len) := by
  refine ⟨MessageHeader.tryFromChecked_eq, Verifier.verifyMac1Checked_eq hC,
    Verifier.verifyMac2Checked_eq, fun v => v.writeCookieReplyChecked_eq hC X,
    fun g => g.checkChecked_eq hC X, InitReceived.receiveChecked_eq,
    InitSent.responseReceivedChecked_eq, Generator.processCookieReplyChecked_eq hC,
    Crypto.aeadOpenWithinChecked_eq, Transport.receiveChecked_eq, Peer.decryptChecked_eq,
    fun ourPrivate => ReadLoop.handleChecked_eq hC ourPrivate X, ?_, ?_, ?_⟩
  · intro len stride fuel hfuel
    exact spanLoop_eq (by omega)
  · intro buf len stride fuel hbuf hfuel
    exact cutChecked_eq stride hbuf hfuel
  · intro buf len stride hbuf hstride
    have hconsecutive := consecutive_segmentsFrom hstride (Nat.zero_le len)
    refine ⟨hconsecutive, ?_, hconsecutive.flatten_slice buf⟩
    intro segment hsegment hnil
    obtain ⟨r, hr, rfl⟩ := List.mem_map.mp hsegment
    obtain ⟨hlt, hle⟩ := segment_bounds hr
    have hlen := length_slice (hle.trans hbuf)
    rw [hnil, List.length_nil, Span.length] at hlen
    omega

/-- `Crypto.symbolic` with hashes that show as 32 bytes. -/
def sizedCrypto : Crypto := { Crypto.symbolic with asRef := fun _ => List.replicate 32 0 }

/-- Sealing for `sizedCrypto`: the text stays as it is. -/
def sizedSeal : CookieSeal sizedCrypto where
  xEncryptDetached := fun _ _ _ m => (m, List.replicate aeadTagSize 0)
  length_encrypt := fun _ _ _ _ => rfl
  length_tag := fun _ _ _ _ => List.length_replicate

def sizedGuard : LoadGuard sizedCrypto :=
  .new sizedCrypto (List.Vector.replicate 32 2) (List.Vector.replicate 32 42)

/-- A message one byte short of its MACs is dropped, and five bytes are cut
into pairs. -/
theorem inbound_total_sized :
    sizedGuard.checkChecked sizedSeal default (List.replicate 31 1)
        (.v4 (List.Vector.replicate 4 127) 1) (List.Vector.replicate 24 7)
      = some (.drop, sizedGuard) ∧
      cutChecked [1, 2, 3, 4, 5] 5 2 6 = some [[1, 2], [3, 4], [5]] := by
  obtain ⟨-, -, -, -, hcheck, -, -, -, -, -, -, -, -, hcut, -⟩ :=
    inbound_total (C := sizedCrypto) (fun _ => List.length_replicate) sizedSeal
  rw [hcheck, hcut _ _ _ _ (by decide) (by decide)]
  refine ⟨rfl, ?_⟩
  simp [segments, segmentsFrom, slice, Span.length]

end Tunstile
