/-
Tunstile/Packet.lean

The IP packets that a device carries (`packet_info` and `pad_packet` of
`tunstile/src/lib.rs`).

`packet_info` reads a header that declares a length; nothing behind that
length matters to it (`packetInfo_of_take_eq`), so a packet may be cut there
and padded again.
-/
import Tunstile.Buffer
import Mathlib.Data.Vector.Basic

namespace Tunstile

/-- `core::net::IpAddr`. -/
inductive IpAddr where
  | v4 (octets : List.Vector UInt8 4)
  | v6 (octets : List.Vector UInt8 16)
  deriving DecidableEq

/-- `TRANSPORT_PADDING_MULTIPLE`. -/
def transportPaddingMultiple : ℕ := 16

/-- The byte at an offset below the length. -/
def byteAt (packet : Bytes) (offset : ℕ) : UInt8 := packet.getD offset 0

/-- `u16::from_be_bytes`. -/
def u16FromBe (high low : UInt8) : ℕ := 256 * high.toNat + low.toNat

/-- The `n` bytes from `start` on. -/
def octetsAt (n : ℕ) (packet : Bytes) (start : ℕ) : List.Vector UInt8 n :=
  List.Vector.ofFn fun i => byteAt packet (start + i)

structure PacketInfo where
  source : IpAddr
  destination : IpAddr
  len : ℕ
  deriving DecidableEq

def packetInfo (packet : Bytes) : Option PacketInfo :=
  match packet with
  | [] => none
  | first :: _ =>
      let version := first >>> 4
      if version = 4 ∧ 20 ≤ packet.length then
        let headerLen := (byteAt packet 0 &&& 0x0f).toNat * 4
        let len := u16FromBe (byteAt packet 2) (byteAt packet 3)
        if headerLen < 20 ∨ len < headerLen ∨ packet.length < len then none
        else
          some
            { source := .v4 (octetsAt 4 packet 12)
              destination := .v4 (octetsAt 4 packet 16)
              len := len }
      else if version = 6 ∧ 40 ≤ packet.length then
        let payloadLen := u16FromBe (byteAt packet 4) (byteAt packet 5)
        -- the sum of 40 and a `u16` fits into a `usize`
        let len := 40 + payloadLen
        if packet.length < len then none
        else
          some
            { source := .v6 (octetsAt 16 packet 8)
              destination := .v6 (octetsAt 16 packet 24)
              len := len }
      else none

/-- `usize::next_multiple_of`. -/
def nextMultipleOf (n multiple : ℕ) : ℕ := (n + multiple - 1) / multiple * multiple

/-- `Vec::resize` with zeros. -/
def resize (packet : Bytes) (len : ℕ) : Bytes :=
  packet.take len ++ List.replicate (len - packet.length) 0

/-- Pads `packet` with zeros; `none` if it is too large already. -/
def padPacket (packet : Bytes) (maxPacketSize : ℕ) : Option Bytes :=
  if maxPacketSize < packet.length then none
  else
    let paddedLen := nextMultipleOf packet.length transportPaddingMultiple
    let paddedLen := min paddedLen maxPacketSize
    some (resize packet paddedLen)

/-! ### What the header declares -/

/-- A packet with addresses is longer than its header and as long as it
declares. -/
theorem le_len_of_packetInfo {packet : Bytes} {info : PacketInfo}
    (h : packetInfo packet = some info) : 20 ≤ info.len ∧ info.len ≤ packet.length := by
  unfold packetInfo at h
  split at h
  · cases h
  dsimp only at h
  split_ifs at h with h4 hbad h6 hbad
  · cases h
    dsimp only
    omega
  · cases h
    dsimp only
    omega

theorem byteAt_of_take_eq {p q : Bytes} {n i : ℕ} (h : q.take n = p.take n) (hi : i < n) :
    byteAt q i = byteAt p i := by
  have hget : (q.take n)[i]? = (p.take n)[i]? := by rw [h]
  rw [List.getElem?_take_of_lt hi, List.getElem?_take_of_lt hi] at hget
  rw [byteAt, byteAt, List.getD_eq_getElem?_getD, List.getD_eq_getElem?_getD, hget]

theorem octetsAt_of_take_eq {p q : Bytes} {n start m : ℕ} (h : q.take n = p.take n)
    (hm : start + m ≤ n) : octetsAt m q start = octetsAt m p start := by
  unfold octetsAt
  congr 1
  funext i
  exact byteAt_of_take_eq h (by omega)

/-- Only the bytes up to the declared length count. -/
theorem packetInfo_of_take_eq {p q : Bytes} {info : PacketInfo} (h : packetInfo p = some info)
    (hq : q.take info.len = p.take info.len) : packetInfo q = some info := by
  obtain ⟨h20, hlen⟩ := le_len_of_packetInfo h
  have hlenq : info.len ≤ q.length := by
    have := congrArg List.length hq
    simp only [List.length_take] at this
    omega
  cases p with
  | nil => cases h
  | cons first rest =>
      cases q with
      | nil => exact absurd hlenq (by simp; omega)
      | cons first' rest' =>
          have hfirst : first' = first := byteAt_of_take_eq (i := 0) hq (by omega)
          subst hfirst
          have hbyte (i : ℕ) (hi : i < info.len) :
              byteAt (first' :: rest') i = byteAt (first' :: rest) i := byteAt_of_take_eq hq hi
          have hoctets (m start : ℕ) (hm : start + m ≤ info.len) :
              octetsAt m (first' :: rest') start = octetsAt m (first' :: rest) start :=
            octetsAt_of_take_eq hq hm
          simp only [packetInfo] at h ⊢
          split_ifs at h with h4 hbad h6 hbad
          · have hinfo := (Option.some.inj h).symm
            have hdeclared : info.len = u16FromBe (byteAt _ 2) (byteAt _ 3) :=
              congrArg PacketInfo.len hinfo
            rw [if_pos ⟨h4.1, by omega⟩, hbyte 0 (by omega), hbyte 2 (by omega),
              hbyte 3 (by omega), hoctets 4 12 (by omega), hoctets 4 16 (by omega),
              if_neg (by omega), hinfo]
          · have hinfo := (Option.some.inj h).symm
            have hdeclared : info.len = 40 + u16FromBe (byteAt _ 4) (byteAt _ 5) :=
              congrArg PacketInfo.len hinfo
            rw [if_neg fun h => h4 ⟨h.1, by omega⟩, if_pos ⟨h6.1, by omega⟩, hbyte 4 (by omega),
              hbyte 5 (by omega), hoctets 16 8 (by omega), hoctets 16 24 (by omega),
              if_neg (by omega), hinfo]

end Tunstile
