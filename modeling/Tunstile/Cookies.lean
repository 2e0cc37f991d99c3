/-
Tunstile/Cookies.lean

The sender's side of the handshake MACs (`Generator` of
`protocol/src/cookies.rs`): it writes mac1 and, while it holds a fresh
cookie, mac2 into a handshake message, and consumes the cookie replies the
peer sends back.
-/
import Tunstile.Message

namespace Tunstile

/-- How long a cookie stays usable. -/
def cookieRefreshInterval : Duration := Duration.fromSecs 120

inductive CookieError where
  | invalid
  | bufferTooSmall (required : Nat)
  deriving DecidableEq

def mac1Offset (msg : Bytes) : Nat := msg.length - 2 * macSize

def mac2Offset (msg : Bytes) : Nat := msg.length - macSize

/-- The ASCII bytes of a label. -/
def label (s : String) : Bytes := s.toList.map fun c => UInt8.ofNat c.toNat

def labelMac1 : Bytes := label "mac1----"
def labelCookie : Bytes := label "cookie--"

variable {C : Crypto}

structure LastCookie (C : Crypto) where
  receivedTimestamp : C.Tai64N
  cookie : Bytes

/-- Writes the outgoing MACs on handshake messages to a peer. -/
structure Generator (C : Crypto) where
  mac1Key : C.Hash256
  cookieKey : C.Hash256
  lastCookie : Option (LastCookie C)
  lastSentMac1 : Option Bytes

namespace Generator

/-- A generator for handshakes addressed to `publicKey`. -/
def new (C : Crypto) (publicKey : PublicKey) : Generator C where
  mac1Key := C.hash [labelMac1, publicKey.toList]
  cookieKey := C.hash [labelCookie, publicKey.toList]
  lastCookie := none
  lastSentMac1 := none

/-- The mac1 of a handshake message. -/
def mac1Of (g : Generator C) (msg : Bytes) : Bytes :=
  C.mac (C.asRef g.mac1Key) [msg.take (mac1Offset msg)]

/-- The mac1 step: mac1 is written, mac2 zeroed. -/
def writeMac1 (g : Generator C) (msg : Bytes) : Bytes :=
  let msg := splice msg (mac1Offset msg) (g.mac1Of msg)
  splice msg (mac2Offset msg) (List.replicate (msg.length - mac2Offset msg) 0)

/-- The mac2 step: a held cookie that is still fresh signs the message. -/
def writeMac2 (g : Generator C) (currentTimestamp : C.Tai64N) (msg : Bytes) : Bytes :=
  match g.lastCookie with
  | none => msg
  | some lastCookie =>
      if (C.taiDurationSince currentTimestamp lastCookie.receivedTimestamp).getD default
          ≤ cookieRefreshInterval then
        splice msg (mac2Offset msg) (C.mac lastCookie.cookie [msg.take (mac2Offset msg)])
      else msg

/-- Writes mac1, and mac2 if a fresh cookie is held, into the trailing MAC
fields of a handshake message. -/
def addMacs (g : Generator C) (currentTimestamp : C.Tai64N) (msg : Bytes) :
    Except CookieError Unit × Generator C × Bytes :=
  match MessageHeader.tryFrom msg with
  | .ok .handshakeInit | .ok (.handshakeResponse _) =>
      (.ok (), { g with lastSentMac1 := some (g.mac1Of msg) },
        g.writeMac2 currentTimestamp (g.writeMac1 msg))
  | _ => (.error .invalid, g, msg)

/-- Decrypts a cookie reply and stores the cookie. -/
def processCookieReply (g : Generator C) (reply : Bytes) (now : C.Tai64N) :
    Except CookieError Unit × Generator C :=
  match MessageHeader.tryFrom reply with
  | .ok (.cookieReply _) =>
      match g.lastSentMac1 with
      | none => (.error .invalid, g)
      | some sentMac1 =>
          match C.xDecryptDetached g.cookieKey (slice reply crNonce) sentMac1
              (slice reply crCookie) (slice reply ⟨crCookie.stop, crEncrypted.stop⟩) with
          | none => (.error .invalid, g)
          | some cookie => (.ok (), { g with lastCookie := some ⟨now, cookie⟩ })
  | _ => (.error .invalid, g)

/-! ### What the MACs leave alone -/

/-- A buffer that agrees with `msg` before the MAC fields. -/
structure AgreesBeforeMacs (msg msg' : Bytes) : Prop where
  length_eq : msg'.length = msg.length
  slice_eq : ∀ r : Span, r.stop ≤ msg.length - 2 * macSize → slice msg' r = slice msg r

theorem AgreesBeforeMacs.splice {msg msg' x : Bytes} {o : Nat} (h : AgreesBeforeMacs msg msg')
    (ho : msg.length - 2 * macSize ≤ o) (hx : o + x.length ≤ msg.length) :
    AgreesBeforeMacs msg (Tunstile.splice msg' o x) where
  length_eq := by rw [length_splice (by rw [h.length_eq]; exact hx), h.length_eq]
  slice_eq := fun r hr => by
    rw [slice_splice_of_disjoint (Or.inl (by omega)) (by rw [h.length_eq]; exact hx), h.slice_eq r hr]

theorem writeMac1_agrees (g : Generator C) {msg : Bytes} (hlen : 2 * macSize ≤ msg.length) :
    AgreesBeforeMacs msg (g.writeMac1 msg) := by
  have hmac : macSize = 16 := rfl
  have h₀ : AgreesBeforeMacs msg msg := ⟨rfl, fun _ _ => rfl⟩
  have h₁ : AgreesBeforeMacs msg (Tunstile.splice msg (mac1Offset msg) (g.mac1Of msg)) := by
    refine h₀.splice le_rfl ?_
    rw [mac1Of, C.length_mac, mac1Offset]
    omega
  refine h₁.splice ?_ ?_ <;> simp only [mac2Offset, h₁.length_eq, List.length_replicate] <;> omega

theorem writeMac2_agrees (g : Generator C) (ts : C.Tai64N) {msg msg' : Bytes}
    (h : AgreesBeforeMacs msg msg') (hlen : macSize ≤ msg.length) :
    AgreesBeforeMacs msg (g.writeMac2 ts msg') := by
  have hoff : mac2Offset msg' = msg.length - macSize := by rw [mac2Offset, h.length_eq]
  unfold writeMac2
  split
  · exact h
  · split
    · refine h.splice (by rw [hoff]; omega) ?_
      rw [C.length_mac, hoff]
      omega
    · exact h

/-- **`add_macs` cannot fail on a handshake message**, and touches nothing of
it but the two MAC fields. -/
theorem addMacs_ok (g : Generator C) (ts : C.Tai64N) {msg : Bytes}
    (hhdr : MessageHeader.tryFrom msg = .ok .handshakeInit ∨
      ∃ i, MessageHeader.tryFrom msg = .ok (.handshakeResponse i))
    (hlen : 2 * macSize ≤ msg.length) :
    ∃ msg', g.addMacs ts msg = (.ok (), { g with lastSentMac1 := some (g.mac1Of msg) }, msg') ∧
      AgreesBeforeMacs msg msg' := by
  have hagree := g.writeMac2_agrees ts (g.writeMac1_agrees hlen) (by omega)
  rcases hhdr with hhdr | ⟨i, hhdr⟩ <;> exact ⟨_, by rw [addMacs, hhdr], hagree⟩

/-- A cookie reply is refused without effect, or its cookie is stored. -/
theorem processCookieReply_cases (g : Generator C) (reply : Bytes) (now : C.Tai64N) :
    (∃ e, g.processCookieReply reply now = (.error e, g)) ∨
      ∃ cookie, g.processCookieReply reply now
        = (.ok (), { g with lastCookie := some ⟨now, cookie⟩ }) := by
  unfold processCookieReply
  split
  · split
    · exact Or.inl ⟨_, rfl⟩
    · split
      · exact Or.inl ⟨_, rfl⟩
      · exact Or.inr ⟨_, rfl⟩
  · exact Or.inl ⟨_, rfl⟩

end Generator

end Tunstile
