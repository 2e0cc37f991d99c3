/-
Tunstile/Guard.lean

The receiver's side of the handshake MACs: the `Verifier` of
`protocol/src/cookies.rs`, and the load guard of `protocol/src/peer/load.rs`,
which demands a cookie when too many handshakes arrive.

A check drops what is no handshake for us, lets it pass, or challenges it
(`check_cases`).  The challenge is written in place; `challenge` is the same
message as a value, and `writeCookieReply_eq` says so.
-/
import Tunstile.Cookies
import Tunstile.Packet

namespace Tunstile

variable {C : Crypto}

/-- A 32-byte cookie secret. -/
abbrev CookieSecret := List.Vector UInt8 32

/-- A 24-byte nonce. -/
abbrev CookieNonce := List.Vector UInt8 24

/-! ### Sealing a cookie -/

/-- XChaCha20-Poly1305 sealing with a detached tag, working in place: key,
nonce, associated data, text. -/
structure CookieSeal (C : Crypto) where
  xEncryptDetached : C.Hash256 → Bytes → Bytes → Bytes → Bytes × Bytes
  length_encrypt : ∀ k n ad m, (xEncryptDetached k n ad m).1.length = m.length
  length_tag : ∀ k n ad m, (xEncryptDetached k n ad m).2.length = aeadTagSize

namespace CookieSeal

/-- Opening inverts sealing. -/
def Opens (X : CookieSeal C) : Prop := ∀ k n ad m,
  C.xDecryptDetached k n ad (X.xEncryptDetached k n ad m).1 (X.xEncryptDetached k n ad m).2 = some m

/-- Encrypts `data` in place; its last 16 bytes take the tag. -/
def xaeadSeal (X : CookieSeal C) (key : C.Hash256) (nonce authText data : Bytes) : Bytes :=
  let plaintextLen := data.length - aeadTagSize
  let (buf, tag) := X.xEncryptDetached key nonce authText (data.take plaintextLen)
  buf ++ tag

theorem xaeadSeal_append (X : CookieSeal C) (key : C.Hash256) (nonce authText : Bytes)
    {text room : Bytes} (hroom : room.length = aeadTagSize) :
    X.xaeadSeal key nonce authText (text ++ room)
      = (X.xEncryptDetached key nonce authText text).1
        ++ (X.xEncryptDetached key nonce authText text).2 := by
  have htake : (text ++ room).take ((text ++ room).length - aeadTagSize) = text := by
    rw [List.length_append, hroom, Nat.add_sub_cancel, List.take_left]
  rw [xaeadSeal, htake]

end CookieSeal

/-! ### The verifier -/

/-- Whether a message is an initiation or a response. -/
def isHandshake (msg : Bytes) : Bool :=
  match MessageHeader.tryFrom msg with
  | .ok .handshakeInit | .ok (.handshakeResponse _) => true
  | _ => false

theorem isHandshake_iff {msg : Bytes} : isHandshake msg = true ↔
    MessageHeader.tryFrom msg = .ok .handshakeInit ∨
      ∃ i, MessageHeader.tryFrom msg = .ok (.handshakeResponse i) := by
  unfold isHandshake
  split <;> rename_i h
  · simp [h]
  · simp [h]
  · rename_i hinit
    constructor
    · intro hfalse
      cases hfalse
    · rintro (hmsg | ⟨i, hmsg⟩)
      · exact absurd hmsg hinit
      · exact absurd hmsg (h i)

/-- A handshake message has room for both MACs. -/
theorem length_of_isHandshake {msg : Bytes} (h : isHandshake msg = true) :
    msg.length = initMsgLength ∨ msg.length = respMsgLength := by
  rcases isHandshake_iff.mp h with h | ⟨i, h⟩
  · exact Or.inl (by simpa [MessageType.validLength, MessageHeader.messageType] using
      (MessageHeader.hasType_of_tryFrom h).2)
  · exact Or.inr (by simpa [MessageType.validLength, MessageHeader.messageType] using
      (MessageHeader.hasType_of_tryFrom h).2)

theorem macs_fit_of_isHandshake {msg : Bytes} (h : isHandshake msg = true) :
    44 + 2 * macSize ≤ msg.length := by
  rcases length_of_isHandshake h with h | h <;> rw [h] <;> decide

/-- Verifies incoming handshake MACs, keyed on our own static key. -/
structure Verifier (C : Crypto) where
  mac1Key : C.Hash256
  cookieKey : C.Hash256

namespace Verifier

/-- A verifier for handshakes addressed to our own `publicKey`. -/
def new (C : Crypto) (publicKey : PublicKey) : Verifier C where
  mac1Key := C.hash [labelMac1, publicKey.toList]
  cookieKey := C.hash [labelCookie, publicKey.toList]

/-- True if the message's mac1 is valid. -/
def verifyMac1 (v : Verifier C) (msg : Bytes) : Bool :=
  if msg.length < 2 * macSize then false
  else
    let mac1 := C.mac (C.asRef v.mac1Key) [msg.take (mac1Offset msg)]
    mac1 == slice msg ⟨mac1Offset msg, mac2Offset msg⟩

/-- The cookie a source address should be presenting, given the current
rotating secret. -/
def cookie (C : Crypto) (source : Bytes) (secret : CookieSecret) : Bytes :=
  C.mac secret.toList [source]

/-- True if `msg` carries a mac2 matching the cookie we would have issued to
`source`. -/
def verifyMac2 (_v : Verifier C) (msg source : Bytes) (secret : CookieSecret) : Bool :=
  if msg.length < 2 * macSize then false
  else
    let mac2 := C.mac (cookie C source secret) [msg.take (mac2Offset msg)]
    mac2 == msg.drop (mac2Offset msg)

/-- Writes a cookie reply for the handshake in `prompting` to the first
`cookieReplyLength` bytes of `out`, encrypting the cookie for `source`. -/
def writeCookieReply (v : Verifier C) (X : CookieSeal C) (prompting source : Bytes)
    (secret : CookieSecret) (nonce : CookieNonce) (out : Bytes) :
    Except CookieError Unit × Bytes :=
  if !isHandshake prompting then (.error .invalid, out)
  else if out.length < cookieReplyLength then (.error (.bufferTooSmall cookieReplyLength), out)
  else
    let rest := out.drop cookieReplyLength
    let out := out.take cookieReplyLength
    let cookie := cookie C source secret
    let m1 := mac1Offset prompting
    let mac1 := slice prompting ⟨m1, m1 + macSize⟩
    let out := splice out 0 [MessageType.cookie.toByte]
    let out := splice out reserved.start [0, 0, 0]
    let out := splice out crReceiver.start (slice prompting ⟨4, 8⟩)
    let out := splice out crNonce.start nonce.toList
    let out := splice out crCookie.start cookie
    let out := splice out crEncrypted.start
      (X.xaeadSeal v.cookieKey nonce.toList mac1 (slice out crEncrypted))
    (.ok (), out ++ rest)

end Verifier

/-! ### The guard -/

/-- The default inbound-handshake rate above which a cookie is demanded. -/
def maxHandshakesPerSecond : UInt32 := 25

/-- Result of checking an inbound handshake message. -/
inductive HandshakeDecision where
  | process
  | drop
  /-- Send this cookie challenge back instead of processing it. -/
  | cookie (reply : Bytes)
  deriving DecidableEq

/-- Validates handshake MACs and requires a cookie under load. -/
structure LoadGuard (C : Crypto) where
  verifier : Verifier C
  secret : CookieSecret
  windowStart : Instant
  handshakes : UInt32
  maxPerSecond : UInt32

/-- `u16::to_be_bytes`. -/
def u16ToBe (n : UInt16) : Bytes := [UInt8.ofNat (n.toNat / 256), UInt8.ofNat (n.toNat % 256)]

/-- `SocketAddr::ip`. -/
def SocketAddr.ip : SocketAddr → IpAddr
  | .v4 octets _ => .v4 octets
  | .v6 octets _ _ _ => .v6 octets

/-- `SocketAddr::port`. -/
def SocketAddr.port : SocketAddr → UInt16
  | .v4 _ port => port
  | .v6 _ port _ _ => port

/-- The address and port in a buffer of 18 bytes, and how many are used. -/
def sourceBytes (addr : SocketAddr) : Bytes × ℕ :=
  let bytes := List.replicate 18 0
  let (bytes, ipLen) :=
    match addr.ip with
    | .v4 octets => (splice bytes 0 octets.toList, 4)
    | .v6 octets => (splice bytes 0 octets.toList, 16)
  (splice bytes ipLen (u16ToBe addr.port), ipLen + 2)

/-- The used bytes of an address: what a cookie is computed over. -/
def cookieInput (addr : SocketAddr) : Bytes := (sourceBytes addr).1.take (sourceBytes addr).2

namespace LoadGuard

/-- A guard for handshakes addressed to `ourPublic`. -/
def new (C : Crypto) (ourPublic : PublicKey) (secret : CookieSecret) : LoadGuard C where
  verifier := .new C ourPublic
  secret := secret
  windowStart := default
  handshakes := 0
  maxPerSecond := maxHandshakesPerSecond

/-- Replaces the rate above which cookies are demanded. -/
def withMaxRate (g : LoadGuard C) (maxHandshakesPerSecond : UInt32) : LoadGuard C :=
  { g with maxPerSecond := maxHandshakesPerSecond }

/-- Replaces the rotating cookie secret. -/
def rotateSecret (g : LoadGuard C) (secret : CookieSecret) : LoadGuard C :=
  { g with secret := secret }

/-- The guard after counting a handshake, in a new window if the last one is
over.  The count wraps, as it does without overflow checks. -/
def counted (g : LoadGuard C) (now : Instant) : LoadGuard C :=
  let g :=
    if Duration.fromSecs 1 ≤ now.durationSince g.windowStart then
      { g with windowStart := now, handshakes := 0 }
    else g
  { g with handshakes := g.handshakes + 1 }

/-- Checks an inbound handshake message. -/
def check (g : LoadGuard C) (X : CookieSeal C) (now : Instant) (msg : Bytes) (source : SocketAddr)
    (nonce : CookieNonce) : HandshakeDecision × LoadGuard C :=
  if !isHandshake msg || !g.verifier.verifyMac1 msg then (.drop, g)
  else
    let g := g.counted now
    if g.handshakes ≤ g.maxPerSecond then (.process, g)
    else
      let source := cookieInput source
      if g.verifier.verifyMac2 msg source g.secret then (.process, g)
      else
        match g.verifier.writeCookieReply X msg source g.secret nonce
            (List.replicate cookieReplyLength 0) with
        | (.error _, _) => (.drop, g)
        | (.ok (), reply) => (.cookie reply, g)

@[simp] theorem verifier_counted (g : LoadGuard C) (now : Instant) :
    (g.counted now).verifier = g.verifier := by
  unfold counted; split <;> rfl

@[simp] theorem secret_counted (g : LoadGuard C) (now : Instant) :
    (g.counted now).secret = g.secret := by
  unfold counted; split <;> rfl

end LoadGuard

/-! ### The challenge as a value -/

/-- A cookie reply: header, receiver, nonce, sealed cookie with its tag. -/
def cookieWire (receiver nonce field tag : Bytes) : Bytes :=
  [MessageType.cookie.toByte] ++ [0, 0, 0] ++ receiver ++ nonce ++ field ++ tag

section CookieWire

variable {receiver nonce field tag : Bytes} (hreceiver : receiver.length = 4)

include hreceiver in
theorem cookieWire_receiver : slice (cookieWire receiver nonce field tag) crReceiver = receiver := by
  rw [cookieWire, List.append_assoc, List.append_assoc]
  exact slice_append_field rfl hreceiver

variable (hnonce : nonce.length = 24)

include hreceiver hnonce in
theorem cookieWire_nonce : slice (cookieWire receiver nonce field tag) crNonce = nonce := by
  rw [cookieWire, List.append_assoc]
  exact slice_append_field (by simp [hreceiver]; rfl) hnonce

variable (hfield : field.length = cookieSize)

include hreceiver hnonce hfield in
theorem cookieWire_field : slice (cookieWire receiver nonce field tag) crCookie = field :=
  slice_append_field (by simp [hreceiver, hnonce]; rfl) hfield

variable (htag : tag.length = aeadTagSize)
include hreceiver hnonce hfield htag

theorem cookieWire_tag :
    slice (cookieWire receiver nonce field tag) ⟨crCookie.stop, crEncrypted.stop⟩ = tag := by
  rw [cookieWire, ← List.append_nil (_ ++ tag)]
  exact slice_append_field (by simp [hreceiver, hnonce, hfield]; rfl) htag

theorem length_cookieWire : (cookieWire receiver nonce field tag).length = cookieReplyLength := by
  simp only [cookieWire, List.length_append, hreceiver, hnonce, hfield, htag]
  rfl

theorem tryFrom_cookieWire : MessageHeader.tryFrom (cookieWire receiver nonce field tag)
    = .ok (.cookieReply (u32FromLe receiver)) := by
  have htype : HasType .cookie (cookieWire receiver nonce field tag) := ⟨rfl, rfl⟩
  have hvalid : MessageType.cookie.validLength (cookieWire receiver nonce field tag).length
      = true := by
    rw [length_cookieWire hreceiver hnonce hfield htag]; rfl
  have h := MessageHeader.tryFrom_of_hasType htype hvalid
  have hslice : slice (cookieWire receiver nonce field tag) ⟨4, 8⟩ = receiver :=
    cookieWire_receiver hreceiver
  simp only [hslice] at h
  exact h

end CookieWire

namespace Verifier

/-- The sealed cookie for `source`, bound to the mac1 of `prompting`. -/
def sealedCookie (v : Verifier C) (X : CookieSeal C) (prompting source : Bytes)
    (secret : CookieSecret) (nonce : CookieNonce) : Bytes × Bytes :=
  X.xEncryptDetached v.cookieKey nonce.toList
    (slice prompting ⟨mac1Offset prompting, mac1Offset prompting + macSize⟩)
    (cookie C source secret)

/-- The cookie reply to `prompting`. -/
def challenge (v : Verifier C) (X : CookieSeal C) (prompting source : Bytes)
    (secret : CookieSecret) (nonce : CookieNonce) : Bytes :=
  cookieWire (slice prompting ⟨4, 8⟩) nonce.toList
    (v.sealedCookie X prompting source secret nonce).1
    (v.sealedCookie X prompting source secret nonce).2

section

variable (v : Verifier C) (X : CookieSeal C) (prompting source : Bytes) (secret : CookieSecret)
  (nonce : CookieNonce)

theorem length_cookie : (cookie C source secret).length = cookieSize := C.length_mac _ _

theorem length_sealedCookie_fst :
    (v.sealedCookie X prompting source secret nonce).1.length = cookieSize :=
  (X.length_encrypt _ _ _ _).trans (length_cookie source secret)

theorem length_sealedCookie_snd :
    (v.sealedCookie X prompting source secret nonce).2.length = aeadTagSize :=
  X.length_tag _ _ _ _

theorem length_sender {prompting : Bytes} (h : isHandshake prompting = true) :
    (slice prompting ⟨4, 8⟩).length = 4 := by
  have hlen := macs_fit_of_isHandshake h
  rw [length_slice (by dsimp only; omega)]
  rfl

/-- **`write_cookie_reply` writes the challenge** over the front of any buffer
that holds it, and leaves the rest of the buffer alone. -/
theorem writeCookieReply_eq {prompting : Bytes} (h : isHandshake prompting = true) {out : Bytes}
    (hout : cookieReplyLength ≤ out.length) :
    v.writeCookieReply X prompting source secret nonce out
      = (.ok (), v.challenge X prompting source secret nonce ++ out.drop cookieReplyLength) := by
  obtain ⟨room, hroom, hbuf⟩ : ∃ room : Bytes, room.length = 64 ∧
      out.take cookieReplyLength = room :=
    ⟨_, by rw [List.length_take]; exact Nat.min_eq_left hout, rfl⟩
  have hsender := length_sender h
  have hnonce : nonce.toList.length = 24 := nonce.toList_length
  have hcookie : (cookie C source secret).length = 16 := length_cookie source secret
  rw [writeCookieReply, if_neg (by simp [h]), if_neg (not_lt.mpr hout)]
  simp only [hbuf]
  -- header, receiver, nonce and cookie, front to back
  rw [splice_zero, splice_append (o := reserved.start) rfl,
    splice_append (o := crReceiver.start) rfl,
    splice_append (o := crNonce.start) (by simp [hsender]; rfl),
    splice_append (o := crCookie.start) (by simp [hsender, hnonce]; rfl)]
  generalize hhd : ([MessageType.cookie.toByte] ++ [0, 0, 0] ++ slice prompting ⟨4, 8⟩
    ++ nonce.toList : Bytes) = head
  have hhead : head.length = crEncrypted.start := by
    rw [← hhd]; simp [hsender, hnonce]; rfl
  generalize hmacs : ((((room.drop _).drop _).drop _).drop _).drop _ = tagRoom
  have htagRoom : tagRoom.length = aeadTagSize := by
    rw [← hmacs]; simp [hroom, hsender, hnonce, hcookie]; rfl
  -- the cookie and the room behind it are the field that is sealed
  have hfield : slice (head ++ cookie C source secret ++ tagRoom) crEncrypted
      = cookie C source secret ++ tagRoom := by
    rw [List.append_assoc, ← List.append_nil (head ++ _)]
    exact slice_append_field hhead (by rw [List.length_append, hcookie, htagRoom]; rfl)
  rw [hfield, X.xaeadSeal_append _ _ _ htagRoom, List.append_assoc head, splice_append hhead,
    List.drop_eq_nil_of_le, List.append_nil]
  · rw [challenge, sealedCookie, cookieWire, ← hhd]
    simp only [List.append_assoc]
  · rw [List.length_append, List.length_append, X.length_encrypt, X.length_tag, htagRoom]

end

end Verifier

namespace LoadGuard

/-- A handshake message whose mac1 is valid for this guard. -/
def Admits (g : LoadGuard C) (msg : Bytes) : Prop :=
  isHandshake msg = true ∧ g.verifier.verifyMac1 msg = true

/-- More handshakes than allowed in this window. -/
def Loaded (g : LoadGuard C) : Prop := g.maxPerSecond < g.handshakes

/-- **What a check can do.**  It drops what it does not admit, uncounted;
what it admits is counted, and passes unless the guard is then loaded and
the message carries no cookie, in which case it is challenged. -/
theorem check_cases (g : LoadGuard C) (X : CookieSeal C) (now : Instant) (msg : Bytes)
    (source : SocketAddr) (nonce : CookieNonce) :
    (¬ g.Admits msg ∧ g.check X now msg source nonce = (.drop, g)) ∨
      (g.Admits msg ∧ ¬ (g.counted now).Loaded ∧
        g.check X now msg source nonce = (.process, g.counted now)) ∨
      (g.Admits msg ∧ (g.counted now).Loaded ∧
        g.verifier.verifyMac2 msg (cookieInput source) g.secret = true ∧
        g.check X now msg source nonce = (.process, g.counted now)) ∨
      (g.Admits msg ∧ (g.counted now).Loaded ∧
        g.verifier.verifyMac2 msg (cookieInput source) g.secret = false ∧
        g.check X now msg source nonce
          = (.cookie (g.verifier.challenge X msg (cookieInput source) g.secret nonce),
              g.counted now)) := by
  by_cases hadmits : g.Admits msg
  · have hpass : ¬ (!isHandshake msg || !g.verifier.verifyMac1 msg) = true := by
      simp [hadmits.1, hadmits.2]
    refine Or.inr ?_
    by_cases hload : (g.counted now).Loaded
    · refine Or.inr ?_
      have hover : ¬ (g.counted now).handshakes ≤ (g.counted now).maxPerSecond :=
        UInt32.not_le.mpr hload
      cases hmac2 : g.verifier.verifyMac2 msg (cookieInput source) g.secret with
      | true =>
          refine Or.inl ⟨hadmits, hload, rfl, ?_⟩
          simp only [check, if_neg hpass, if_neg hover, verifier_counted, secret_counted, hmac2,
            if_true]
      | false =>
          refine Or.inr ⟨hadmits, hload, rfl, ?_⟩
          simp only [check, if_neg hpass, if_neg hover, verifier_counted, secret_counted, hmac2,
            Bool.false_eq_true, if_false]
          rw [Verifier.writeCookieReply_eq _ _ _ _ _ hadmits.1 (List.length_replicate).ge,
            List.drop_eq_nil_of_le (List.length_replicate).le, List.append_nil]
    · refine Or.inl ⟨hadmits, hload, ?_⟩
      simp only [check, if_neg hpass, if_pos (UInt32.not_lt.mp hload)]
  · refine Or.inl ⟨hadmits, ?_⟩
    rw [check, if_pos]
    simpa [Admits, imp_iff_not_or] using hadmits

/-- What passes: an admitted message, with the cookie if the guard is loaded. -/
theorem check_process_iff (g : LoadGuard C) (X : CookieSeal C) (now : Instant) (msg : Bytes)
    (source : SocketAddr) (nonce : CookieNonce) :
    (g.check X now msg source nonce).1 = .process ↔
      g.Admits msg ∧ ((g.counted now).Loaded →
        g.verifier.verifyMac2 msg (cookieInput source) g.secret = true) := by
  rcases g.check_cases X now msg source nonce with ⟨hnot, h⟩ | ⟨hadmits, hcalm, h⟩ |
    ⟨hadmits, -, hmac2, h⟩ | ⟨-, hload, hmac2, h⟩ <;> rw [h]
  · exact iff_of_false HandshakeDecision.noConfusion fun hpass => hnot hpass.1
  · exact iff_of_true rfl ⟨hadmits, fun hload => absurd hload hcalm⟩
  · exact iff_of_true rfl ⟨hadmits, fun _ => hmac2⟩
  · refine iff_of_false HandshakeDecision.noConfusion fun hpass => ?_
    cases hmac2.symm.trans (hpass.2 hload)

/-- A check keeps the keys and the secret. -/
theorem check_keeps (g : LoadGuard C) (X : CookieSeal C) (now : Instant) (msg : Bytes)
    (source : SocketAddr) (nonce : CookieNonce) :
    (g.check X now msg source nonce).2.verifier = g.verifier ∧
      (g.check X now msg source nonce).2.secret = g.secret := by
  rcases g.check_cases X now msg source nonce with h | h | h | h
  · rw [h.2]; exact ⟨rfl, rfl⟩
  · rw [h.2.2]; exact ⟨verifier_counted g now, secret_counted g now⟩
  · rw [h.2.2.2]; exact ⟨verifier_counted g now, secret_counted g now⟩
  · rw [h.2.2.2]; exact ⟨verifier_counted g now, secret_counted g now⟩

end LoadGuard

end Tunstile
