/-
Tunstile/Crypto.lean

The cryptographic helpers of `protocol/src/crypto.rs`, over the primitives
the crate takes from elsewhere.

`Crypto` collects those primitives: BLAKE2s and HMAC, X25519, the two AEADs
and the TAI64N label.  Nothing is assumed of them here beyond what their
types say in the source; each assumption a result needs (that opening
inverts sealing, that hashes do not collide) is a hypothesis of that result.
A 32-byte hash never reaches the wire, so `Hash256` is an abstract type with
a view as bytes.

An AEAD field is written and read in place.  `sealed` and `opened` are the
field as a value, and `aeadSeal_append` and `aeadOpenWithin_eq` reduce the
in-place helpers to them.
-/
import Tunstile.Buffer
import Tunstile.Basic

namespace Tunstile

def aeadTagSize : Nat := 16
def macSize : Nat := 16

/-- A raw 32-byte X25519 public key. -/
abbrev PublicKey := List.Vector UInt8 32

/-- A raw 32-byte pre-shared key. -/
abbrev PresharedKey := List.Vector UInt8 32

/-- The primitives of the external crates. -/
structure Crypto where
  /-- A 32-byte hash or key. -/
  Hash256 : Type
  asRef : Hash256 → Bytes
  /-- BLAKE2s-256 over the concatenation of the inputs. -/
  hash : List Bytes → Hash256
  /-- HMAC-BLAKE2s-256. -/
  hmac : Bytes → List Bytes → Hash256
  /-- Keyed BLAKE2s with a 16-byte output. -/
  mac : Bytes → List Bytes → Bytes
  length_mac : ∀ key input, (mac key input).length = macSize
  /-- An X25519 secret, static or reusable. -/
  Secret : Type
  publicKey : Secret → PublicKey
  diffieHellman : Secret → PublicKey → Bytes
  wasContributory : Bytes → Bool
  /-- ChaCha20-Poly1305 with a detached 16-byte tag, working in place: key,
  nonce, associated data, text (and tag). -/
  encryptDetached : Hash256 → Bytes → Bytes → Bytes → Bytes × Bytes
  decryptDetached : Hash256 → Bytes → Bytes → Bytes → Bytes → Option Bytes
  length_encrypt : ∀ k n ad m, (encryptDetached k n ad m).1.length = m.length
  length_tag : ∀ k n ad m, (encryptDetached k n ad m).2.length = aeadTagSize
  length_decrypt : ∀ k n ad c t m, decryptDetached k n ad c t = some m → m.length = c.length
  /-- XChaCha20-Poly1305, for the cookie. -/
  xDecryptDetached : Hash256 → Bytes → Bytes → Bytes → Bytes → Option Bytes
  /-- A TAI64N timestamp. -/
  Tai64N : Type
  taiOrder : LinearOrder Tai64N
  toBytes : Tai64N → List.Vector UInt8 12
  fromSlice : Bytes → Option Tai64N
  /-- Time from the second to the first, `none` when the second is later. -/
  taiDurationSince : Tai64N → Tai64N → Option Duration

instance (C : Crypto) : LinearOrder C.Tai64N := C.taiOrder

namespace Crypto

variable (C : Crypto)

/-! ### Key derivation -/

/-- The outputs derived from `t0`: τ₁ is `Hmac(t0, 0x1)` and τᵢ is
`Hmac(t0, τᵢ₋₁ ∥ i)`. -/
def expand (t0 : C.Hash256) : Nat → C.Hash256
  | 0 => C.hmac (C.asRef t0) [[1]]
  | i + 1 => C.hmac (C.asRef t0) [C.asRef (expand t0 i), [UInt8.ofNat (i + 2)]]

/-- `kdf`: output `i` of the key derivation.  `kdf::<N>` returns outputs
`0..N`, and an output does not depend on `N`. -/
def kdf (key input : Bytes) (i : Nat) : C.Hash256 :=
  C.expand (C.hmac key [input]) i

/-! ### Authenticated encryption -/

/-- The 96-bit nonce: four zero bytes and the little-endian counter. -/
def nonce (counter : UInt64) : Bytes := List.replicate 4 0 ++ toLeBytes 8 counter.toNat

/-- `aead_seal`: encrypt `data` in place; its last 16 bytes take the tag.
(The source panics on data shorter than a tag; no caller passes any.) -/
def aeadSeal (key : C.Hash256) (counter : UInt64) (authText data : Bytes) : Bytes :=
  let r := C.encryptDetached key (nonce counter) authText
    (data.take (data.length - aeadTagSize))
  r.1 ++ r.2

/-- `aead_open_within`: decrypt the ciphertext that starts at `start`,
writing the plaintext at the beginning of `data`.  `none` if authentication
fails. -/
def aeadOpenWithin (key : C.Hash256) (counter : UInt64) (authText data : Bytes) (start : Nat) :
    Option Bytes :=
  if data.length < aeadTagSize then none
  else
    let tagStart := data.length - aeadTagSize
    if tagStart < start then none
    else
      match C.decryptDetached key (nonce counter) authText (slice data ⟨start, tagStart⟩)
          (data.drop tagStart) with
      | none => none
      | some plaintext =>
          let data := splice data start plaintext
          some (if start ≠ 0 then splice data 0 (slice data ⟨start, tagStart⟩) else data)

/-- `aead_open`: decrypt in place. -/
def aeadOpen (key : C.Hash256) (counter : UInt64) (authText data : Bytes) : Option Bytes :=
  C.aeadOpenWithin key counter authText data 0

/-! ### An AEAD field as a value -/

/-- Ciphertext and tag of a plaintext. -/
def sealed (key : C.Hash256) (counter : UInt64) (authText plaintext : Bytes) : Bytes :=
  let r := C.encryptDetached key (nonce counter) authText plaintext
  r.1 ++ r.2

/-- The plaintext of a ciphertext with its tag, if it authenticates. -/
def opened (key : C.Hash256) (counter : UInt64) (authText field : Bytes) : Option Bytes :=
  if field.length < aeadTagSize then none
  else
    C.decryptDetached key (nonce counter) authText (field.take (field.length - aeadTagSize))
      (field.drop (field.length - aeadTagSize))

@[simp] theorem length_sealed (key : C.Hash256) (counter : UInt64) (ad m : Bytes) :
    (C.sealed key counter ad m).length = m.length + aeadTagSize := by
  simp [sealed, C.length_encrypt, C.length_tag]

theorem length_of_opened {key : C.Hash256} {counter : UInt64} {ad c m : Bytes}
    (h : C.opened key counter ad c = some m) : c.length = m.length + aeadTagSize := by
  unfold opened at h
  split at h
  · cases h
  · have := C.length_decrypt _ _ _ _ _ _ h
    rw [List.length_take] at this
    omega

/-- Sealing in place, over a plaintext with room for the tag behind it. -/
theorem aeadSeal_append (key : C.Hash256) (counter : UInt64) (ad m room : Bytes)
    (hroom : room.length = aeadTagSize) :
    C.aeadSeal key counter ad (m ++ room) = C.sealed key counter ad m := by
  have htake : (m ++ room).take ((m ++ room).length - aeadTagSize) = m := by
    rw [List.length_append, hroom, Nat.add_sub_cancel, List.take_left]
  simp only [aeadSeal, sealed, htake]

/-- Sealing the field `r` of a buffer that is written up to the end of the
plaintext `m`. -/
theorem splice_aeadSeal (key : C.Hash256) (counter : UInt64) (ad : Bytes) {a m room : Bytes}
    {r : Span} (ha : a.length = r.start) (hr : r.length = m.length + aeadTagSize)
    (hroom : aeadTagSize ≤ room.length) :
    splice (a ++ m ++ room) r.start (C.aeadSeal key counter ad (slice (a ++ m ++ room) r))
      = a ++ C.sealed key counter ad m ++ room.drop aeadTagSize := by
  have htag : (room.take aeadTagSize).length = aeadTagSize := by
    rw [List.length_take, Nat.min_eq_left hroom]
  have hfield : slice (a ++ m ++ room) r = m ++ room.take aeadTagSize := by
    rw [slice, List.append_assoc, List.drop_left' ha, hr, List.take_length_add_append]
  rw [hfield, C.aeadSeal_append _ _ _ _ _ htag, List.append_assoc, splice_append ha,
    C.length_sealed, ← List.drop_drop, List.drop_left]

/-- Opening inverts sealing. -/
def OpenSeal : Prop := ∀ key counter ad m, C.opened key counter ad (C.sealed key counter ad m) = some m

/-- The buffer an in-place open leaves: the plaintext where the ciphertext
was, and again at the beginning. -/
def relocated (data : Bytes) (start : Nat) (plaintext : Bytes) : Bytes :=
  if start ≠ 0 then splice (splice data start plaintext) 0 plaintext
  else splice data start plaintext

/-- Opening in place is opening the field, then moving the plaintext to the
front of the buffer. -/
theorem aeadOpenWithin_eq (key : C.Hash256) (counter : UInt64) (ad data : Bytes) (start : Nat) :
    C.aeadOpenWithin key counter ad data start
      = (C.opened key counter ad (data.drop start)).map (relocated data start) := by
  have htagSize : aeadTagSize = 16 := rfl
  unfold aeadOpenWithin opened
  by_cases hlen : data.length < aeadTagSize
  · rw [if_pos hlen, if_pos (by rw [List.length_drop]; omega)]
    rfl
  rw [if_neg hlen]
  by_cases hstart : data.length - aeadTagSize < start
  · rw [if_pos hstart, if_pos (by rw [List.length_drop]; omega)]
    rfl
  rw [if_neg hstart, if_neg (by rw [List.length_drop]; omega)]
  have hfield : (data.drop start).take ((data.drop start).length - aeadTagSize)
      = slice data ⟨start, data.length - aeadTagSize⟩ := by
    rw [slice, List.length_drop]
    congr 1
    simp only [Span.length]
    omega
  have htag : (data.drop start).drop ((data.drop start).length - aeadTagSize)
      = data.drop (data.length - aeadTagSize) := by
    rw [List.drop_drop, List.length_drop]
    congr 1
    omega
  rw [hfield, htag]
  cases hdec : C.decryptDetached key (nonce counter) ad
      (slice data ⟨start, data.length - aeadTagSize⟩) (data.drop (data.length - aeadTagSize)) with
  | none => rfl
  | some m =>
      have hm : m.length = data.length - aeadTagSize - start := by
        rw [C.length_decrypt _ _ _ _ _ _ hdec, length_slice (by simp)]
        rfl
      have hback : slice (splice data start m) ⟨start, data.length - aeadTagSize⟩ = m :=
        slice_splice_self rfl hm.symm (by omega)
      simp only [Option.map_some, relocated, hback]

/-- Opening a whole field in place leaves the plaintext in front of the
tag. -/
theorem aeadOpen_eq (key : C.Hash256) (counter : UInt64) (ad data : Bytes) :
    C.aeadOpen key counter ad data
      = (C.opened key counter ad data).map fun m => m ++ data.drop m.length := by
  rw [aeadOpen, aeadOpenWithin_eq, List.drop_zero]
  congr 1
  funext m
  rw [relocated, if_neg (by simp), splice_zero]

end Crypto

end Tunstile
