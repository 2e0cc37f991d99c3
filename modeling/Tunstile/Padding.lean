/-
Tunstile/Padding.lean

Outbound packets are cut, padded, and cut again.

`prepare_outbound_packet` cuts a packet to the length its header declares and
pads it with zeros; `recv_packet` on the other side cuts it to the declared
length.  The padded packet declares what the original did, since the header
lies in the part that both share, so the second cut undoes the padding.

Both directions index the packet.  As in `Inbound.lean`, the functions are
written out once more with every checked access, and shown to return.
-/
import Tunstile.Device
import Tunstile.Bounds

namespace Tunstile

variable {C : Crypto}

/-! ### Padding -/

theorem le_nextMultipleOf (n : ℕ) {multiple : ℕ} (h : 0 < multiple) :
    n ≤ nextMultipleOf n multiple := by
  have hdiv := Nat.div_add_mod (n + multiple - 1) multiple
  have hmod := Nat.mod_lt (n + multiple - 1) h
  rw [nextMultipleOf, Nat.mul_comm]
  omega

theorem dvd_nextMultipleOf (n multiple : ℕ) : multiple ∣ nextMultipleOf n multiple :=
  Nat.dvd_mul_left _ _

/-- What padding leaves: the packet and zeros behind it, up to a multiple or
to the limit. -/
theorem padPacket_eq_some {packet padded : Bytes} {maxPacketSize : ℕ}
    (h : padPacket packet maxPacketSize = some padded) :
    packet.length ≤ maxPacketSize ∧
      (∃ zeros, padded = packet ++ List.replicate zeros 0) ∧ padded.length ≤ maxPacketSize ∧
      (transportPaddingMultiple ∣ padded.length ∨ padded.length = maxPacketSize) := by
  unfold padPacket at h
  split at h
  · cases h
  rename_i hfits
  have hle : packet.length ≤ min (nextMultipleOf packet.length transportPaddingMultiple)
      maxPacketSize := le_min (le_nextMultipleOf _ (by decide)) (not_lt.mp hfits)
  have hdvd := dvd_nextMultipleOf packet.length transportPaddingMultiple
  obtain rfl := Option.some.inj h
  generalize nextMultipleOf packet.length transportPaddingMultiple = padded at hle hdvd ⊢
  have hresize : resize packet (min padded maxPacketSize)
      = packet ++ List.replicate (min padded maxPacketSize - packet.length) 0 := by
    rw [resize, List.take_of_length_le hle]
  have hlen : (resize packet (min padded maxPacketSize)).length = min padded maxPacketSize := by
    rw [hresize, List.length_append, List.length_replicate]
    omega
  refine ⟨not_lt.mp hfits, ⟨_, hresize⟩, hlen.le.trans (min_le_right _ _), ?_⟩
  rw [hlen]
  rcases le_total padded maxPacketSize with hmin | hmin
  · rw [min_eq_left hmin]
    exact Or.inl hdvd
  · exact Or.inr (min_eq_right hmin)

theorem padPacket_isSome_iff (packet : Bytes) (maxPacketSize : ℕ) :
    (padPacket packet maxPacketSize).isSome = true ↔ packet.length ≤ maxPacketSize := by
  unfold padPacket
  split
  · rename_i hlt
    exact iff_of_false Bool.false_ne_true (not_le.mpr hlt)
  · rename_i hle
    exact iff_of_true rfl (not_lt.mp hle)

/-! ### Checked accesses -/

theorem getElem?_eq_byteAt {packet : Bytes} {i : ℕ} (h : i < packet.length) :
    packet[i]? = some (byteAt packet i) := by
  rw [byteAt, List.getD_eq_getElem?_getD, List.getElem?_eq_getElem h]
  rfl

/-- `Ipv4Addr::new` of four bytes. -/
def v4Checked (packet : Bytes) (start : ℕ) : Option IpAddr := do
  let a ← packet[start]?
  let b ← packet[start + 1]?
  let c ← packet[start + 2]?
  let d ← packet[start + 3]?
  some (.v4 ⟨[a, b, c, d], rfl⟩)

theorem v4Checked_eq {packet : Bytes} {start : ℕ} (h : start + 4 ≤ packet.length) :
    v4Checked packet start = some (.v4 (octetsAt 4 packet start)) := by
  rw [v4Checked, getElem?_eq_byteAt (by omega), getElem?_eq_byteAt (by omega),
    getElem?_eq_byteAt (by omega), getElem?_eq_byteAt (by omega)]
  rfl

/-- `v6` of a slice of the packet. -/
def v6Checked (packet : Bytes) (r : Span) : Option IpAddr := do
  let bytes ← sliceChecked packet r
  let octets ← copyChecked (List.replicate 16 0) ⟨0, 16⟩ bytes
  if h : octets.length = 16 then some (.v6 ⟨octets, h⟩) else none

theorem v6Checked_eq {packet : Bytes} {start : ℕ} (h : start + 16 ≤ packet.length) :
    v6Checked packet ⟨start, start + 16⟩ = some (.v6 (octetsAt 16 packet start)) := by
  have hoctets : slice packet ⟨start, start + 16⟩ = (octetsAt 16 packet start).toList := by
    refine List.ext_getElem? fun i => ?_
    rw [getElem?_slice, octetsAt, List.Vector.toList_ofFn, List.getElem?_ofFn]
    have hspan : (Span.mk start (start + 16)).length = 16 := Nat.add_sub_cancel_left _ _
    by_cases hi : i < 16
    · rw [hspan, if_pos hi, dif_pos hi]
      exact getElem?_eq_byteAt (by dsimp only; omega)
    · rw [hspan, if_neg hi, dif_neg hi]
  rw [v6Checked, sliceChecked_eq (Nat.le_add_right _ _) h, Option.bind_eq_bind, Option.bind_some,
    hoctets, copyChecked_whole List.length_replicate (List.Vector.toList_length _),
    Option.bind_some, dif_pos (List.Vector.toList_length _)]
  rfl

/-- `packet_info`, where `none` is a panic. -/
def packetInfoChecked (packet : Bytes) : Option (Option PacketInfo) :=
  match packet with
  | [] => some none
  | first :: _ =>
      let version := first >>> 4
      if version = 4 ∧ 20 ≤ packet.length then do
        let header ← packet[0]?
        let headerLen := (header &&& 0x0f).toNat * 4
        let high ← packet[2]?
        let low ← packet[3]?
        let len := u16FromBe high low
        if headerLen < 20 ∨ len < headerLen ∨ packet.length < len then some none
        else do
          let source ← v4Checked packet 12
          let destination ← v4Checked packet 16
          some (some ⟨source, destination, len⟩)
      else if version = 6 ∧ 40 ≤ packet.length then do
        let high ← packet[4]?
        let low ← packet[5]?
        let len := 40 + u16FromBe high low
        if packet.length < len then some none
        else do
          let source ← v6Checked packet ⟨8, 24⟩
          let destination ← v6Checked packet ⟨24, 40⟩
          some (some ⟨source, destination, len⟩)
      else some none

theorem packetInfoChecked_eq (packet : Bytes) :
    packetInfoChecked packet = some (packetInfo packet) := by
  cases packet with
  | nil => rfl
  | cons first rest =>
      simp only [packetInfoChecked, packetInfo]
      by_cases h4 : first >>> 4 = 4 ∧ 20 ≤ (first :: rest).length
      · rw [if_pos h4, if_pos h4, getElem?_eq_byteAt (by omega), getElem?_eq_byteAt (by omega),
          getElem?_eq_byteAt (by omega), v4Checked_eq (by omega), v4Checked_eq (by omega)]
        simp only [Option.bind_eq_bind, Option.bind_some]
        split_ifs <;> rfl
      rw [if_neg h4, if_neg h4]
      by_cases h6 : first >>> 4 = 6 ∧ 40 ≤ (first :: rest).length
      · rw [if_pos h6, if_pos h6, getElem?_eq_byteAt (by omega), getElem?_eq_byteAt (by omega),
          v6Checked_eq (by omega), v6Checked_eq (by omega)]
        simp only [Option.bind_eq_bind, Option.bind_some]
        split_ifs <;> rfl
      · rw [if_neg h6, if_neg h6]

namespace Device

/-- `prepare_outbound_packet`, where `none` is a panic. -/
def prepareOutboundPacketChecked (d : Device C) (packet : Bytes) :
    Option (Option (IpAddr × Bytes)) := do
  match ← packetInfoChecked packet with
  | none => some none
  | some info =>
      match padPacket (packet.take info.len) d.maxPacketSize with
      | none => some none
      | some padded => some (some (info.destination, padded))

theorem prepareOutboundPacketChecked_eq (d : Device C) (packet : Bytes) :
    d.prepareOutboundPacketChecked packet = some (d.prepareOutboundPacket packet) := by
  rw [prepareOutboundPacketChecked, packetInfoChecked_eq, prepareOutboundPacket]
  cases packetInfo packet with
  | none => rfl
  | some info =>
      simp only [Option.bind_eq_bind, Option.bind_some]
      cases padPacket (packet.take info.len) d.maxPacketSize <;> rfl

/-- One turn of `recv_packet`, where `none` is a panic. -/
def acceptChecked (d : Device C) (packet : Packet) : Option (Option Bytes) := do
  match ← packetInfoChecked packet.payload with
  | none => some none
  | some info =>
      if (d.allowedIps.longestMatch info.source).any
          fun sender => sender.publicKey == packet.publicKey then
        some (some (packet.payload.take info.len))
      else some none

theorem acceptChecked_eq (d : Device C) (packet : Packet) :
    d.acceptChecked packet = some (d.accept packet) := by
  rw [acceptChecked, packetInfoChecked_eq, accept]
  cases packetInfo packet.payload with
  | none => rfl
  | some info =>
      simp only [Option.bind_eq_bind, Option.bind_some]
      split <;> rfl

/-! ### Preparing a packet -/

theorem maxPacketSize_step (d : Device C) (action : Action C) :
    (d.step action).maxPacketSize = d.maxPacketSize := by
  cases action with
  | addPeer publicKey config =>
      rcases d.addPeer_cases publicKey config with heq | ⟨-, -, heq⟩ <;> rw [step, heq]
  | setPeer publicKey update received =>
      rcases d.setPeer_cases publicKey update received with ⟨error, heq⟩ | ⟨peer, -, heq⟩ <;>
        rw [step, heq]
  | removePeer publicKey =>
      rw [step, removePeer]
      split <;> rfl
  | task action hkeeps => rfl

theorem maxPacketSize_run (d : Device C) (actions : List (Action C)) :
    (d.run actions).maxPacketSize = d.maxPacketSize := by
  induction actions generalizing d with
  | nil => rfl
  | cons action actions ih => exact (ih (d.step action)).trans (d.maxPacketSize_step action)

theorem prepareOutboundPacket_isSome_iff (d : Device C) (packet : Bytes) :
    (d.prepareOutboundPacket packet).isSome = true ↔
      ∃ info, packetInfo packet = some info ∧ info.len ≤ d.maxPacketSize := by
  unfold prepareOutboundPacket
  cases hinfo : packetInfo packet with
  | none =>
      refine iff_of_false Bool.false_ne_true ?_
      rintro ⟨info, h, -⟩
      cases h
  | some info =>
      have hlen : (packet.take info.len).length = info.len :=
        List.length_take_of_le (le_len_of_packetInfo hinfo).2
      have hfits : (∃ info', some info = some info' ∧ info'.len ≤ d.maxPacketSize) ↔
          info.len ≤ d.maxPacketSize := by
        constructor
        · rintro ⟨_, ⟨⟩, hle⟩
          exact hle
        · exact fun hle => ⟨info, rfl, hle⟩
      rw [hfits, ← hlen, ← padPacket_isSome_iff]
      dsimp only
      cases padPacket (packet.take info.len) d.maxPacketSize <;> exact Iff.rfl

/-- What a prepared packet is, and what becomes of it. -/
structure Prepared (packet padded : Bytes) (info : PacketInfo) (maxPacketSize : ℕ) : Prop where
  /-- It is never taken for a keepalive. -/
  nonempty : padded ≠ []
  zeros : ∃ n, padded = packet.take info.len ++ List.replicate n 0
  fits : padded.length ≤ maxPacketSize
  aligned : transportPaddingMultiple ∣ padded.length ∨ padded.length = maxPacketSize
  declares : packetInfo padded = some info
  cut : padded.take info.len = packet.take info.len

theorem prepared_of_eq_some {d : Device C} {packet padded : Bytes} {destination : IpAddr}
    (h : d.prepareOutboundPacket packet = some (destination, padded)) :
    ∃ info, packetInfo packet = some info ∧ destination = info.destination ∧
      Prepared packet padded info d.maxPacketSize := by
  unfold prepareOutboundPacket at h
  split at h
  · cases h
  rename_i info hinfo
  split at h
  · cases h
  rename_i padded' hpad
  cases h
  obtain ⟨h20, hlen⟩ := le_len_of_packetInfo hinfo
  have hcutLen : (packet.take info.len).length = info.len := List.length_take_of_le hlen
  obtain ⟨-, ⟨zeros, hzeros⟩, hfits, haligned⟩ := padPacket_eq_some hpad
  have hcut : padded.take info.len = packet.take info.len := by
    rw [hzeros, List.take_left' hcutLen]
  refine ⟨info, hinfo, rfl, ?_, ⟨zeros, hzeros⟩, hfits, haligned,
    packetInfo_of_take_eq hinfo hcut, hcut⟩
  rintro rfl
  have hshort := congrArg List.length hcut
  rw [hcutLen, List.take_nil, List.length_nil] at hshort
  omega

/-- **Padding is undone exactly.**  For every packet and every MTU: a packet
is prepared exactly if its header is valid and what it declares fits; it then
is what the header declares, with zeros up to a multiple of 16 or the limit,
and any device that lets it in cuts it to what was declared.  Neither side
ever accesses a packet out of bounds. -/
theorem padding_undone (mtu : ℕ) (actions : List (Action C)) (packet : Bytes) :
    let d := (start C mtu).run actions
    ((d.prepareOutboundPacket packet).isSome = true ↔ ∃ info, packetInfo packet = some info ∧
      info.len ≤ min mtu maxPlaintextSize) ∧
    (∀ destination padded, d.prepareOutboundPacket packet = some (destination, padded) →
      ∃ info, packetInfo packet = some info ∧ destination = info.destination ∧
        Prepared packet padded info (min mtu maxPlaintextSize) ∧
        ∀ (receiver : Device C) (publicKey : PublicKey) (payload : Bytes),
          receiver.accept ⟨publicKey, padded⟩ = some payload →
          payload = packet.take info.len) ∧
    d.prepareOutboundPacketChecked packet = some (d.prepareOutboundPacket packet) ∧
    ∀ publicKey, d.acceptChecked ⟨publicKey, packet⟩ = some (d.accept ⟨publicKey, packet⟩) := by
  intro d
  have hmax : d.maxPacketSize = min mtu maxPlaintextSize := maxPacketSize_run _ actions
  refine ⟨?_, fun destination padded h => ?_, d.prepareOutboundPacketChecked_eq packet,
    fun publicKey => d.acceptChecked_eq _⟩
  · rw [← hmax]
    exact d.prepareOutboundPacket_isSome_iff packet
  · obtain ⟨info, hinfo, hdestination, hprepared⟩ := prepared_of_eq_some h
    rw [hmax] at hprepared
    refine ⟨info, hinfo, hdestination, hprepared, fun receiver publicKey payload haccept => ?_⟩
    have hcut : some payload = some (padded.take info.len) := by
      simp only [accept, hprepared.declares] at haccept
      split at haccept
      · exact haccept.symm
      · cases haccept
    exact (Option.some.inj hcut).trans hprepared.cut

end Device

end Tunstile
