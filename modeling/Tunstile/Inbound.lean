/-
Tunstile/Inbound.lean

The inbound path is total.

Each function that runs on untrusted bytes is written out once more with
every access the language checks (`Tunstile/Bounds.lean`): `none` is a panic,
from a slice out of bounds, a length below zero or a failed unwrap.  For each
of them, `..Checked_eq` says that it returns, and returns what the plain
model does, on every input and in every state.
-/
import Tunstile.Bounds
import Tunstile.Peer
import Tunstile.ReadLoop

namespace Tunstile

variable {C : Crypto}

/-! ### Primitives -/

namespace Crypto

/-- A hash is an array of 32 bytes. -/
def Sized (C : Crypto) : Prop := ∀ k : C.Hash256, (C.asRef k).length = 32

/-- Keyed BLAKE2s, which takes keys of at most 32 bytes. -/
def macChecked (C : Crypto) (key : Bytes) (input : List Bytes) : Option Bytes :=
  if key.length ≤ 32 then some (C.mac key input) else none

/-- An XChaCha20-Poly1305 key from a slice, unwrapped. -/
def cipherChecked (C : Crypto) (key : C.Hash256) : Option C.Hash256 :=
  if (C.asRef key).length = 32 then some key else none

theorem macChecked_eq {key : Bytes} (h : key.length ≤ 32) (input : List Bytes) :
    C.macChecked key input = some (C.mac key input) :=
  if_pos h

theorem cipherChecked_eq (h : C.Sized) (key : C.Hash256) : C.cipherChecked key = some key :=
  if_pos (h key)

/-- `aead_open_within`.  The inner `none` is a failed authentication. -/
def aeadOpenWithinChecked (C : Crypto) (key : C.Hash256) (counter : UInt64)
    (authText data : Bytes) (start : ℕ) : Option (Option Bytes) := do
  let nonce ← copyChecked (List.replicate 12 0) ⟨4, 12⟩ (toLeBytes 8 counter.toNat)
  if data.length < aeadTagSize then some none
  else
    let tagStart := data.length - aeadTagSize
    if tagStart < start then some none
    else do
      let tag ← dropChecked data tagStart
      if tag.length ≠ aeadTagSize then some none
      else do
        let field ← sliceChecked data ⟨start, tagStart⟩
        match C.decryptDetached key nonce authText field tag with
        | none => some none
        | some plaintext =>
            let data := splice data start plaintext
            if start ≠ 0 then do
              let text ← sliceChecked data ⟨start, tagStart⟩
              let data ← copyChecked data ⟨0, tagStart - start⟩ text
              some (some data)
            else some (some data)

theorem aeadOpenWithinChecked_eq (key : C.Hash256) (counter : UInt64) (authText data : Bytes)
    (start : ℕ) :
    C.aeadOpenWithinChecked key counter authText data start
      = some (C.aeadOpenWithin key counter authText data start) := by
  have hnonce : copyChecked (List.replicate 12 0) ⟨4, 12⟩ (toLeBytes 8 counter.toNat)
      = some (nonce counter) :=
    copyChecked_eq (by decide) (by decide) (length_toLeBytes 8 _)
  rw [aeadOpenWithinChecked, hnonce, aeadOpenWithin, Option.bind_eq_bind, Option.bind_some]
  by_cases hshort : data.length < aeadTagSize
  · rw [if_pos hshort, if_pos hshort]
  rw [if_neg hshort, if_neg hshort]
  by_cases hstart : data.length - aeadTagSize < start
  · rw [if_pos hstart, if_pos hstart]
  rw [if_neg hstart, if_neg hstart]
  have htag : (data.drop (data.length - aeadTagSize)).length = aeadTagSize := by
    rw [List.length_drop]; omega
  rw [dropChecked_eq (Nat.sub_le _ _), Option.bind_some, if_neg (not_not.mpr htag),
    sliceChecked_eq (not_lt.mp hstart) (Nat.sub_le _ _), Option.bind_some]
  cases hdec : C.decryptDetached key (nonce counter) authText
      (slice data ⟨start, data.length - aeadTagSize⟩) (data.drop (data.length - aeadTagSize)) with
  | none => rfl
  | some plaintext =>
      -- the plaintext has the length of the ciphertext, so the buffer keeps its own
      have hplain : plaintext.length = data.length - aeadTagSize - start := by
        rw [C.length_decrypt _ _ _ _ _ _ hdec, length_slice (Nat.sub_le _ _)]
        rfl
      have hlen : (splice data start plaintext).length = data.length :=
        length_splice (by omega)
      by_cases hzero : start = 0
      · simp only [hzero, ne_eq, not_true_eq_false, if_false]
      · have htext : (slice (splice data start plaintext)
            ⟨start, data.length - aeadTagSize⟩).length = data.length - aeadTagSize - start :=
          length_slice (by rw [hlen]; exact Nat.sub_le _ _)
        simp only [ne_eq, hzero, not_false_eq_true, if_true]
        rw [sliceChecked_eq (not_lt.mp hstart) (by rw [hlen]; exact Nat.sub_le _ _),
          Option.bind_some, copyChecked_eq (Nat.zero_le _) (by rw [hlen]; dsimp only; omega)
            (by rw [htext]; rfl), Option.bind_some]

end Crypto

/-! ### The header -/

/-- `MessageHeader::try_from`. -/
def MessageHeader.tryFromChecked (value : Bytes) :
    Option (Except MessageHeaderParseError MessageHeader) :=
  if value.length < 4 then some (.error .invalidLength)
  else do
    let type ← value[0]?
    match MessageType.tryFrom type with
    | .error e => some (.error e)
    | .ok msgType => do
        let zeros ← sliceChecked value reserved
        if zeros ≠ [0, 0, 0] then some (.error .invalidHeader)
        else if !msgType.validLength value.length then some (.error .invalidLength)
        else do
          let indexRange : Span :=
            match msgType with
            | .handshakeInit | .cookie | .data => ⟨4, 8⟩
            | .handshakeResp => ⟨8, 12⟩
          let bytes ← sliceChecked value indexRange
          let bytes ← arrayChecked 4 bytes
          let index := u32FromLe bytes
          some (.ok (match msgType with
            | .handshakeInit => .handshakeInit
            | .cookie => .cookieReply index
            | .handshakeResp => .handshakeResponse index
            | .data => .data index))

theorem getElem?_zero_eq_typeByte {value : Bytes} (h : 0 < value.length) :
    value[0]? = some (typeByte value) := by
  rw [typeByte, List.getD_eq_getElem?_getD, List.getElem?_eq_getElem h, Option.getD_some]

/-- A valid length covers the index of every type. -/
theorem MessageType.le_of_validLength {t : MessageType} {n : ℕ} (h : t.validLength n = true) :
    12 ≤ n := by
  cases t with
  | handshakeInit =>
      obtain rfl : n = initMsgLength := by simpa [validLength] using h
      decide
  | handshakeResp =>
      obtain rfl : n = respMsgLength := by simpa [validLength] using h
      decide
  | cookie =>
      obtain rfl : n = cookieReplyLength := by simpa [validLength] using h
      decide
  | data =>
      have hlen : packetLen 0 ≤ n := by simpa [validLength] using h
      exact le_trans (by decide) hlen

theorem MessageHeader.tryFromChecked_eq (value : Bytes) :
    tryFromChecked value = some (tryFrom value) := by
  by_cases hshort : value.length < 4
  · rw [tryFromChecked, tryFrom, if_pos hshort, if_pos hshort]
  rw [tryFromChecked, tryFrom, if_neg hshort, if_neg hshort,
    getElem?_zero_eq_typeByte (by omega), Option.bind_eq_bind, Option.bind_some]
  cases MessageType.tryFrom (typeByte value) with
  | error e => rfl
  | ok msgType =>
      dsimp only
      rw [sliceChecked_eq (r := reserved) (by decide) (not_lt.mp hshort), Option.bind_eq_bind,
        Option.bind_some]
      split_ifs with hreserved hlen
      · rfl
      · rfl
      · have hfit : 12 ≤ value.length :=
          MessageType.le_of_validLength (by simpa using hlen)
        -- the index is at one of two places, both covered
        have hfront : sliceChecked value ⟨4, 8⟩ = some (slice value ⟨4, 8⟩) :=
          sliceChecked_eq (by decide) (le_trans (by decide) hfit)
        have hback : sliceChecked value ⟨8, 12⟩ = some (slice value ⟨8, 12⟩) :=
          sliceChecked_eq (by decide) hfit
        have hfront' : arrayChecked 4 (slice value ⟨4, 8⟩) = some (slice value ⟨4, 8⟩) :=
          arrayChecked_slice (le_trans (by decide) hfit) rfl
        have hback' : arrayChecked 4 (slice value ⟨8, 12⟩) = some (slice value ⟨8, 12⟩) :=
          arrayChecked_slice hfit rfl
        cases msgType <;>
          simp only [hfront, hback, hfront', hback', Option.bind_some]

/-- The header is that of a handshake message. -/
def handshakeHeader : Except MessageHeaderParseError MessageHeader → Bool
  | .ok .handshakeInit | .ok (.handshakeResponse _) => true
  | _ => false

/-- The test for a handshake message. -/
def isHandshakeChecked (msg : Bytes) : Option Bool := do
  let header ← MessageHeader.tryFromChecked msg
  some (handshakeHeader header)

theorem isHandshakeChecked_eq (msg : Bytes) : isHandshakeChecked msg = some (isHandshake msg) := by
  rw [isHandshakeChecked, MessageHeader.tryFromChecked_eq]
  rfl

/-! ### The guard -/

namespace Verifier

/-- `Verifier::verify_mac_1`. -/
def verifyMac1Checked (v : Verifier C) (msg : Bytes) : Option Bool :=
  if msg.length < 2 * macSize then some false
  else do
    let mac1Offset ← subChecked msg.length (2 * macSize)
    let mac2Offset ← subChecked msg.length macSize
    let body ← takeChecked msg mac1Offset
    let mac1 ← C.macChecked (C.asRef v.mac1Key) [body]
    let field ← sliceChecked msg ⟨mac1Offset, mac2Offset⟩
    some (mac1 == field)

theorem verifyMac1Checked_eq (hC : C.Sized) (v : Verifier C) (msg : Bytes) :
    v.verifyMac1Checked msg = some (v.verifyMac1 msg) := by
  by_cases hshort : msg.length < 2 * macSize
  · rw [verifyMac1Checked, verifyMac1, if_pos hshort, if_pos hshort]
  rw [verifyMac1Checked, verifyMac1, if_neg hshort, if_neg hshort, subChecked_eq (not_lt.mp hshort),
    subChecked_eq (by omega)]
  simp only [Option.bind_eq_bind, Option.bind_some]
  rw [takeChecked_eq (Nat.sub_le _ _), Option.bind_some, Crypto.macChecked_eq (hC _).le,
    Option.bind_some, sliceChecked_eq (by dsimp only; omega) (Nat.sub_le _ _), Option.bind_some]
  rfl

/-- `Verifier::cookie`. -/
def cookieChecked (C : Crypto) (source : Bytes) (secret : CookieSecret) : Option Bytes :=
  C.macChecked secret.toList [source]

theorem cookieChecked_eq (source : Bytes) (secret : CookieSecret) :
    cookieChecked C source secret = some (cookie C source secret) :=
  Crypto.macChecked_eq secret.toList_length.le _

/-- `Verifier::verify_mac_2`. -/
def verifyMac2Checked (_v : Verifier C) (msg source : Bytes) (secret : CookieSecret) :
    Option Bool :=
  if msg.length < 2 * macSize then some false
  else do
    let key ← cookieChecked C source secret
    let mac2Offset ← subChecked msg.length macSize
    let body ← takeChecked msg mac2Offset
    let mac2 ← C.macChecked key [body]
    let field ← dropChecked msg mac2Offset
    some (mac2 == field)

theorem verifyMac2Checked_eq (v : Verifier C) (msg source : Bytes) (secret : CookieSecret) :
    v.verifyMac2Checked msg source secret = some (v.verifyMac2 msg source secret) := by
  by_cases hshort : msg.length < 2 * macSize
  · rw [verifyMac2Checked, verifyMac2, if_pos hshort, if_pos hshort]
  have hkey : (cookie C source secret).length ≤ 32 := by
    rw [length_cookie]
    decide
  rw [verifyMac2Checked, verifyMac2, if_neg hshort, if_neg hshort, cookieChecked_eq,
    subChecked_eq (by omega)]
  simp only [Option.bind_eq_bind, Option.bind_some]
  rw [takeChecked_eq (Nat.sub_le _ _), Option.bind_some, Crypto.macChecked_eq hkey,
    Option.bind_some, dropChecked_eq (Nat.sub_le _ _), Option.bind_some]
  rfl

end Verifier

/-- `xaead_seal`. -/
def CookieSeal.xaeadSealChecked (X : CookieSeal C) (key : C.Hash256)
    (nonce authText data : Bytes) : Option Bytes := do
  let plaintextLen ← subChecked data.length aeadTagSize
  let buf ← takeChecked data plaintextLen
  let tagBuf ← dropChecked data plaintextLen
  let (buf, tag) := X.xEncryptDetached key nonce authText buf
  let tagBuf ← copyChecked tagBuf ⟨0, tagBuf.length⟩ tag
  some (buf ++ tagBuf)

theorem CookieSeal.xaeadSealChecked_eq (X : CookieSeal C) (key : C.Hash256)
    (nonce authText : Bytes) {data : Bytes} (h : aeadTagSize ≤ data.length) :
    X.xaeadSealChecked key nonce authText data = some (X.xaeadSeal key nonce authText data) := by
  have htagBuf : (data.drop (data.length - aeadTagSize)).length = aeadTagSize := by
    rw [List.length_drop]; omega
  have htag := X.length_tag key nonce authText (data.take (data.length - aeadTagSize))
  rw [xaeadSealChecked, xaeadSeal, subChecked_eq h]
  simp only [Option.bind_eq_bind, Option.bind_some]
  rw [takeChecked_eq (Nat.sub_le _ _), Option.bind_some, dropChecked_eq (Nat.sub_le _ _),
    Option.bind_some, copyChecked_whole rfl (htag.trans htagBuf.symm), Option.bind_some]

/-- Sealing in place keeps the length. -/
theorem CookieSeal.length_xaeadSeal (X : CookieSeal C) (key : C.Hash256)
    (nonce authText : Bytes) {data : Bytes} (h : aeadTagSize ≤ data.length) :
    (X.xaeadSeal key nonce authText data).length = data.length := by
  rw [xaeadSeal, List.length_append, X.length_encrypt, X.length_tag, List.length_take]
  omega

/-- `Verifier::write_cookie_reply`. -/
def Verifier.writeCookieReplyChecked (v : Verifier C) (X : CookieSeal C)
    (prompting source : Bytes) (secret : CookieSecret) (nonce : CookieNonce) (out : Bytes) :
    Option (Except CookieError Unit × Bytes) := do
  let handshake ← isHandshakeChecked prompting
  if !handshake then some (.error .invalid, out)
  else if out.length < cookieReplyLength then
    some (.error (.bufferTooSmall cookieReplyLength), out)
  else do
    let rest := out.drop cookieReplyLength
    let out ← takeChecked out cookieReplyLength
    let cookie ← cookieChecked C source secret
    let m1 ← subChecked prompting.length (2 * macSize)
    let field ← sliceChecked prompting ⟨m1, m1 + macSize⟩
    let mac1 ← copyChecked (List.replicate macSize 0) ⟨0, macSize⟩ field
    let out ← copyChecked out ⟨0, 1⟩ [MessageType.cookie.toByte]
    let out ← copyChecked out reserved [0, 0, 0]
    let sender ← sliceChecked prompting ⟨4, 8⟩
    let out ← copyChecked out crReceiver sender
    let out ← copyChecked out crNonce nonce.toList
    let out ← copyChecked out crCookie cookie
    let key ← C.cipherChecked v.cookieKey
    let field ← sliceChecked out crEncrypted
    let sealed ← X.xaeadSealChecked key nonce.toList mac1 field
    let out ← copyChecked out crEncrypted sealed
    some (.ok (), out ++ rest)

theorem Verifier.writeCookieReplyChecked_eq (hC : C.Sized) (v : Verifier C) (X : CookieSeal C)
    (prompting source : Bytes) (secret : CookieSecret) (nonce : CookieNonce) (out : Bytes) :
    v.writeCookieReplyChecked X prompting source secret nonce out
      = some (v.writeCookieReply X prompting source secret nonce out) := by
  rw [writeCookieReplyChecked, writeCookieReply, isHandshakeChecked_eq, Option.bind_eq_bind,
    Option.bind_some]
  split_ifs with hother hshort
  · rfl
  · rfl
  have hprompting : isHandshake prompting = true := by simpa using hother
  have hfit := macs_fit_of_isHandshake hprompting
  have hm1 : mac1Offset prompting + macSize ≤ prompting.length := by
    rw [mac1Offset]
    omega
  have hfield : (slice prompting ⟨mac1Offset prompting, mac1Offset prompting + macSize⟩).length
      = macSize := by
    rw [length_slice hm1]
    exact Nat.add_sub_cancel_left _ _
  have hsender := length_sender hprompting
  have hnonce : nonce.toList.length = 24 := nonce.toList_length
  have hcookie : (cookie C source secret).length = 16 := length_cookie source secret
  -- every field is written inside the 64 bytes of the reply
  have h₀ : (out.take cookieReplyLength).length = cookieReplyLength := by
    rw [List.length_take]
    exact Nat.min_eq_left (not_lt.mp hshort)
  obtain ⟨h₁, l₁⟩ := copyChecked_of_length (r := ⟨0, 1⟩) (x := [MessageType.cookie.toByte]) h₀
    rfl (by decide)
  obtain ⟨h₂, l₂⟩ := copyChecked_of_length (r := reserved) (x := [0, 0, 0]) l₁ rfl (by decide)
  obtain ⟨h₃, l₃⟩ := copyChecked_of_length (r := crReceiver) l₂
    (show 4 + (slice prompting ⟨4, 8⟩).length = 8 by rw [hsender]) (by decide)
  obtain ⟨h₄, l₄⟩ := copyChecked_of_length (r := crNonce) l₃
    (show 8 + nonce.toList.length = 32 by rw [hnonce]) (by decide)
  obtain ⟨h₅, l₅⟩ := copyChecked_of_length (r := crCookie) l₄
    (show 32 + (cookie C source secret).length = 48 by rw [hcookie]) (by decide)
  rw [takeChecked_eq (not_lt.mp hshort), Option.bind_eq_bind, Option.bind_some, cookieChecked_eq]
  simp only [Option.bind_eq_bind, Option.bind_some]
  rw [subChecked_eq (by omega), Option.bind_some, ← mac1Offset,
    sliceChecked_eq (Nat.le_add_right _ _) hm1, Option.bind_some,
    copyChecked_whole List.length_replicate hfield, Option.bind_some, h₁, Option.bind_some, h₂,
    Option.bind_some, sliceChecked_eq (by decide) (by dsimp only; omega), Option.bind_some, h₃,
    Option.bind_some, h₄, Option.bind_some, h₅, Option.bind_some, Crypto.cipherChecked_eq hC,
    Option.bind_some, sliceChecked_eq (by decide) l₅.ge, Option.bind_some]
  -- and the last 32 of them are sealed in place
  generalize splice _ crCookie.start _ = filled at l₅
  have hsealed : (slice filled crEncrypted).length = 32 := length_slice l₅.ge
  have hroom : aeadTagSize ≤ (slice filled crEncrypted).length := by
    rw [hsealed]
    decide
  rw [X.xaeadSealChecked_eq _ _ _ hroom, Option.bind_some, copyChecked_eq (by decide) l₅.ge
    (by rw [X.length_xaeadSeal _ _ _ hroom, hsealed]; rfl), Option.bind_some]

/-- `source_bytes`. -/
def sourceBytesChecked (addr : SocketAddr) : Option (Bytes × ℕ) := do
  let bytes := List.replicate 18 0
  let (bytes, ipLen) ←
    match addr.ip with
    | .v4 octets => (copyChecked bytes ⟨0, 4⟩ octets.toList).map (·, 4)
    | .v6 octets => (copyChecked bytes ⟨0, 16⟩ octets.toList).map (·, 16)
  let bytes ← copyChecked bytes ⟨ipLen, ipLen + 2⟩ (u16ToBe addr.port)
  some (bytes, ipLen + 2)

/-- An address and its port fit in the buffer they are written to. -/
theorem copyAddress_eq {n : ℕ} (octets : List.Vector UInt8 n) (port : UInt16) {buf : Bytes}
    (hlen : buf.length = 18) (hn : n ≤ 16) :
    copyChecked buf ⟨0, n⟩ octets.toList = some (splice buf 0 octets.toList) ∧
      copyChecked (splice buf 0 octets.toList) ⟨n, n + 2⟩ (u16ToBe port)
        = some (splice (splice buf 0 octets.toList) n (u16ToBe port)) ∧
      (splice (splice buf 0 octets.toList) n (u16ToBe port)).length = 18 := by
  obtain ⟨hip, hlen⟩ := copyChecked_of_length (r := ⟨0, n⟩) (x := octets.toList) hlen
    (show 0 + octets.toList.length = n by rw [octets.toList_length, Nat.zero_add])
    (hn.trans (by decide))
  obtain ⟨hport, hlen⟩ := copyChecked_of_length (r := ⟨n, n + 2⟩) (x := u16ToBe port) hlen rfl
    (Nat.add_le_add_right hn 2)
  exact ⟨hip, hport, hlen⟩

theorem sourceBytesChecked_eq (addr : SocketAddr) :
    sourceBytesChecked addr = some (sourceBytes addr) ∧
      (sourceBytes addr).2 ≤ (sourceBytes addr).1.length := by
  have hlen : (List.replicate 18 (0 : UInt8)).length = 18 := List.length_replicate
  cases addr with
  | v4 octets port =>
      obtain ⟨hip, hport, hlen⟩ := copyAddress_eq octets port hlen (by decide)
      simp only [sourceBytesChecked, sourceBytes, SocketAddr.ip, SocketAddr.port]
      rw [hip, Option.map_some, Option.bind_eq_bind, Option.bind_some, hport]
      exact ⟨rfl, hlen.ge.trans' (by decide)⟩
  | v6 octets port flowinfo scopeId =>
      obtain ⟨hip, hport, hlen⟩ := copyAddress_eq octets port hlen (by decide)
      simp only [sourceBytesChecked, sourceBytes, SocketAddr.ip, SocketAddr.port]
      rw [hip, Option.map_some, Option.bind_eq_bind, Option.bind_some, hport]
      exact ⟨rfl, hlen.ge⟩

namespace LoadGuard

/-- The two tests a message must pass to be counted, the second only after the
first. -/
def admitsChecked (g : LoadGuard C) (msg : Bytes) : Option Bool := do
  let handshake ← isHandshakeChecked msg
  if handshake then g.verifier.verifyMac1Checked msg else some false

theorem admitsChecked_eq (hC : C.Sized) (g : LoadGuard C) (msg : Bytes) :
    g.admitsChecked msg = some (isHandshake msg && g.verifier.verifyMac1 msg) := by
  rw [admitsChecked, isHandshakeChecked_eq, Option.bind_eq_bind, Option.bind_some,
    Verifier.verifyMac1Checked_eq hC]
  cases isHandshake msg <;> rfl

/-- `LoadGuard::check`. -/
def checkChecked (g : LoadGuard C) (X : CookieSeal C) (now : Instant) (msg : Bytes)
    (source : SocketAddr) (nonce : CookieNonce) : Option (HandshakeDecision × LoadGuard C) := do
  let admitted ← g.admitsChecked msg
  if !admitted then some (.drop, g)
  else
    let g := g.counted now
    if g.handshakes ≤ g.maxPerSecond then some (.process, g)
    else do
      let (bytes, len) ← sourceBytesChecked source
      let source ← takeChecked bytes len
      let cookied ← g.verifier.verifyMac2Checked msg source g.secret
      if cookied then some (.process, g)
      else
        match ← g.verifier.writeCookieReplyChecked X msg source g.secret nonce
            (List.replicate cookieReplyLength 0) with
        | (.error _, _) => some (.drop, g)
        | (.ok (), reply) => some (.cookie reply, g)

theorem checkChecked_eq (hC : C.Sized) (g : LoadGuard C) (X : CookieSeal C) (now : Instant)
    (msg : Bytes) (source : SocketAddr) (nonce : CookieNonce) :
    g.checkChecked X now msg source nonce = some (g.check X now msg source nonce) := by
  obtain ⟨hsource, hlen⟩ := sourceBytesChecked_eq source
  have htake : takeChecked (sourceBytes source).1 (sourceBytes source).2
      = some (cookieInput source) := takeChecked_eq hlen
  rw [checkChecked, check, admitsChecked_eq hC, Option.bind_eq_bind, Option.bind_some,
    Bool.not_and]
  by_cases hdrop : (!isHandshake msg || !g.verifier.verifyMac1 msg) = true
  · rw [if_pos hdrop, if_pos hdrop]
  rw [if_neg hdrop, if_neg hdrop]
  dsimp only
  by_cases hcalm : (g.counted now).handshakes ≤ (g.counted now).maxPerSecond
  · rw [if_pos hcalm, if_pos hcalm]
  rw [if_neg hcalm, if_neg hcalm, hsource]
  simp only [Option.bind_eq_bind, Option.bind_some, htake, Verifier.verifyMac2Checked_eq,
    Verifier.writeCookieReplyChecked_eq hC]
  split_ifs
  · rfl
  · generalize (g.counted now).verifier.writeCookieReply X msg (cookieInput source) _ _ _ = result
    obtain ⟨_ | _, reply⟩ := result <;> rfl

end LoadGuard

/-! ### The handshake readers -/

/-- The type and the reserved bytes of a packet, in the order they are
tested. -/
def frontChecked (type : MessageType) (packet : Bytes) : Option Bool := do
  let byte ← packet[0]?
  if MessageType.tryFrom byte ≠ .ok type then some false
  else do
    let zeros ← sliceChecked packet reserved
    some (decide (zeros = [0, 0, 0]))

theorem frontChecked_eq (type : MessageType) {packet : Bytes} (h : 4 ≤ packet.length) :
    frontChecked type packet = some (decide (MessageType.tryFrom (typeByte packet) = .ok type ∧
      slice packet reserved = [0, 0, 0])) := by
  rw [frontChecked, getElem?_zero_eq_typeByte (by omega), Option.bind_eq_bind, Option.bind_some]
  by_cases htype : MessageType.tryFrom (typeByte packet) = .ok type
  · rw [if_neg (not_not.mpr htype), sliceChecked_eq (r := reserved) (by decide) h,
      Option.bind_eq_bind, Option.bind_some]
    simp only [htype, true_and]
  · rw [if_pos htype]
    simp only [htype, false_and, decide_false]

/-- A reader that tests the length, then the front, then reads the body. -/
theorem readerChecked_eq {β : Type} {short : Prop} [Decidable short] {type : MessageType}
    {packet : Bytes} (hlen : ¬ short → 4 ≤ packet.length) {refused body : β}
    {bodyChecked : Option β} (hbody : ¬ short → bodyChecked = some body) :
    (if short then some refused
      else do
        let front ← frontChecked type packet
        if !front then some refused else bodyChecked)
      = some (if short ∨ MessageType.tryFrom (typeByte packet) ≠ .ok type ∨
          slice packet reserved ≠ [0, 0, 0] then refused else body) := by
  by_cases hshort : short
  · rw [if_pos hshort, if_pos (Or.inl hshort)]
  rw [if_neg hshort, frontChecked_eq _ (hlen hshort), Option.bind_eq_bind, Option.bind_some]
  by_cases hfront : MessageType.tryFrom (typeByte packet) = .ok type ∧
      slice packet reserved = [0, 0, 0]
  · rw [if_neg (by simp [hfront]), if_neg (by simp [hshort, hfront.1, hfront.2]), hbody hshort]
  · rw [if_pos (by simp [hfront]), if_pos (Or.inr (by rwa [← not_and_or]))]

/-- Opening a field in place keeps its length. -/
theorem Crypto.length_aeadOpen {key : C.Hash256} {counter : UInt64} {ad data out : Bytes}
    (h : C.aeadOpen key counter ad data = some out) : out.length = data.length := by
  rw [C.aeadOpen_eq] at h
  obtain ⟨m, hopened, rfl⟩ := Option.map_eq_some_iff.mp h
  have hlen := C.length_of_opened hopened
  rw [List.length_append, List.length_drop]
  omega

/-- `Handshake::receive`. -/
def InitReceived.receiveChecked (ourPrivate : C.Secret) (packet : Bytes) :
    Option (Except HandshakeError (InitReceived C)) :=
  if packet.length ≠ initMsgLength then some (.error .failed)
  else do
    let front ← frontChecked .handshakeInit packet
    if !front then some (.error .failed)
    else do
      let bytes ← sliceChecked packet initSender
      let bytes ← arrayChecked 4 bytes
      let sender := u32FromLe bytes
      let bytes ← sliceChecked packet initEphemeralPk
      let bytes ← arrayChecked 32 bytes
      let ephemeralPublicKey := toKey bytes
      let constr := initialConstrHash
      let ourPublic := C.publicKey ourPrivate
      let h := C.hash [initialIdentifierHash, ourPublic.toList]
      let constr := C.kdf constr ephemeralPublicKey.toList 0
      let h := C.hash [C.asRef h, ephemeralPublicKey.toList]
      match contributory C (C.diffieHellman ourPrivate ephemeralPublicKey) with
      | .error e => some (.error e)
      | .ok sharedSecret => do
          let key := C.kdf (C.asRef constr) sharedSecret 1
          let constr := C.kdf (C.asRef constr) sharedSecret 0
          let staticPkBuf ← sliceChecked packet initEncryptedStaticPk
          let hTemp := C.hash [C.asRef h, staticPkBuf]
          match ← C.aeadOpenWithinChecked key 0 (C.asRef h) staticPkBuf 0 with
          | none => some (.error .failed)
          | some staticPkBuf => do
              let packet := splice packet initEncryptedStaticPk.start staticPkBuf
              let bytes ← takeChecked staticPkBuf 32
              let bytes ← copyChecked (List.replicate 32 0) ⟨0, 32⟩ bytes
              let peerPublic := toKey bytes
              let h := hTemp
              match contributory C (C.diffieHellman ourPrivate peerPublic) with
              | .error e => some (.error e)
              | .ok sharedSecret => do
                  let key := C.kdf (C.asRef constr) sharedSecret 1
                  let constr := C.kdf (C.asRef constr) sharedSecret 0
                  let timestampBuf ← sliceChecked packet initEncryptedTimestamp
                  let hTemp := C.hash [C.asRef h, timestampBuf]
                  match ← C.aeadOpenWithinChecked key 0 (C.asRef h) timestampBuf 0 with
                  | none => some (.error .failed)
                  | some timestampBuf => do
                      let plaintextLen ← subChecked timestampBuf.length aeadTagSize
                      let bytes ← takeChecked timestampBuf plaintextLen
                      match C.fromSlice bytes with
                      | none => some (.error .failed)
                      | some timestamp =>
                          some (.ok { peerPublic := peerPublic
                                      ephemeralPublicInitiator := ephemeralPublicKey
                                      indexInitiator := sender
                                      timestamp := timestamp
                                      constr := constr
                                      h := hTemp })

theorem InitReceived.receiveChecked_eq (ourPrivate : C.Secret) (packet : Bytes) :
    receiveChecked ourPrivate packet = some (receive ourPrivate packet) := by
  rw [receiveChecked, receive]
  refine readerChecked_eq (fun hlen => by rw [not_not.mp hlen]; decide) fun hlen => ?_
  -- every field lies inside the 148 bytes
  have hlen := not_not.mp hlen
  have hsender : arrayChecked 4 (slice packet initSender) = _ :=
    arrayChecked_of_length hlen (by decide)
  have hephemeral : arrayChecked 32 (slice packet initEphemeralPk) = _ :=
    arrayChecked_of_length hlen (by decide)
  simp only [sliceChecked_of_length hlen (r := initSender) (by decide) (by decide), hsender,
    sliceChecked_of_length hlen (r := initEphemeralPk) (by decide) (by decide), hephemeral,
    sliceChecked_of_length hlen (r := initEncryptedStaticPk) (by decide) (by decide),
    Crypto.aeadOpenWithinChecked_eq, Option.bind_eq_bind, Option.bind_some]
  cases contributory C (C.diffieHellman ourPrivate (toKey (slice packet initEphemeralPk))) with
  | error e => rfl
  | ok sharedSecret =>
  simp only [Crypto.aeadOpen]
  have hstaticLen : (slice packet initEncryptedStaticPk).length = 48 :=
    length_slice_of_length hlen (by decide)
  generalize hopen : C.aeadOpenWithin _ 0 _ (slice packet initEncryptedStaticPk) 0 = result
  cases result with
  | none => rfl
  | some staticPkBuf =>
  -- opening keeps the lengths, so the key and the timestamp are where they were
  have hstatic : staticPkBuf.length = 48 := (Crypto.length_aeadOpen hopen).trans hstaticLen
  have hkey : (staticPkBuf.take 32).length = 32 := by
    rw [List.length_take, hstatic]
    rfl
  have hpacket : (splice packet initEncryptedStaticPk.start staticPkBuf).length
      = initMsgLength := by
    rw [length_splice (by rw [hstatic, hlen]; decide), hlen]
  have htimestampLen : (slice (splice packet initEncryptedStaticPk.start staticPkBuf)
      initEncryptedTimestamp).length = 28 := length_slice_of_length hpacket (by decide)
  have htake : takeChecked staticPkBuf 32 = some (staticPkBuf.take 32) :=
    takeChecked_eq (by rw [hstatic]; decide)
  have hfield : sliceChecked (splice packet initEncryptedStaticPk.start staticPkBuf)
      initEncryptedTimestamp = some (slice (splice packet initEncryptedStaticPk.start staticPkBuf)
        initEncryptedTimestamp) := sliceChecked_of_length hpacket (by decide) (by decide)
  simp only [htake, copyChecked_whole List.length_replicate hkey, hfield, Option.bind_some]
  cases contributory C (C.diffieHellman ourPrivate (toKey (staticPkBuf.take 32))) with
  | error e => rfl
  | ok sharedSecret =>
  dsimp only
  generalize hopen' : C.aeadOpenWithin _ 0 _ (slice (splice packet _ _) initEncryptedTimestamp) 0
    = result
  cases result with
  | none => rfl
  | some timestampBuf =>
  have htimestamp : timestampBuf.length = 28 :=
    (Crypto.length_aeadOpen hopen').trans htimestampLen
  have hsub : subChecked timestampBuf.length aeadTagSize
      = some (timestampBuf.length - aeadTagSize) := subChecked_eq (by rw [htimestamp]; decide)
  simp only [hsub, takeChecked_eq (Nat.sub_le timestampBuf.length aeadTagSize), Option.bind_some]
  cases C.fromSlice (timestampBuf.take (timestampBuf.length - aeadTagSize)) with
  | none => rfl
  | some timestamp => rfl

/-- `Handshake::response_received`. -/
def InitSent.responseReceivedChecked (state : InitSent C) (ourPrivate : C.Secret)
    (presharedKey : Option PresharedKey) (packet : Bytes) :
    Option (Except HandshakeError (InitiatorEstablished C)) :=
  if packet.length ≠ respMsgLength then some (.error .failed)
  else do
    let front ← frontChecked .handshakeResp packet
    if !front then some (.error .failed)
    else do
      let bytes ← sliceChecked packet respSender
      let bytes ← arrayChecked 4 bytes
      let sender := u32FromLe bytes
      let bytes ← sliceChecked packet respReceiver
      let bytes ← arrayChecked 4 bytes
      let receiver := u32FromLe bytes
      let bytes ← sliceChecked packet respEphemeralPk
      let bytes ← arrayChecked 32 bytes
      let ephemeralPublicKey := toKey bytes
      if receiver ≠ state.indexInitiator then some (.error .failed)
      else
        let constr := C.kdf (C.asRef state.constr) ephemeralPublicKey.toList 0
        let h := C.hash [C.asRef state.h, ephemeralPublicKey.toList]
        match contributory C
            (C.diffieHellman state.ephemeralSecretInitiator ephemeralPublicKey) with
        | .error e => some (.error e)
        | .ok sharedSecret => do
            let constr := C.kdf (C.asRef constr) sharedSecret 0
            let sharedSecret := C.diffieHellman ourPrivate ephemeralPublicKey
            let constr := C.kdf (C.asRef constr) sharedSecret 0
            let presharedKey := effectivePsk presharedKey
            let temp := C.kdf (C.asRef constr) presharedKey.toList 1
            let key := C.kdf (C.asRef constr) presharedKey.toList 2
            let constr := C.kdf (C.asRef constr) presharedKey.toList 0
            let h := C.hash [C.asRef h, C.asRef temp]
            let tag ← sliceChecked packet respEncryptedEmptyTag
            match ← C.aeadOpenWithinChecked key 0 (C.asRef h) tag 0 with
            | none => some (.error .failed)
            | some _ =>
                some (.ok
                  { ourIndex := state.indexInitiator, peerIndex := sender, constr := constr })

theorem InitSent.responseReceivedChecked_eq (state : InitSent C) (ourPrivate : C.Secret)
    (presharedKey : Option PresharedKey) (packet : Bytes) :
    state.responseReceivedChecked ourPrivate presharedKey packet
      = some (state.responseReceived ourPrivate presharedKey packet) := by
  rw [responseReceivedChecked, responseReceived]
  refine readerChecked_eq (fun hlen => by rw [not_not.mp hlen]; decide) fun hlen => ?_
  -- every field lies inside the 92 bytes
  have hlen := not_not.mp hlen
  have hsender : arrayChecked 4 (slice packet respSender) = _ :=
    arrayChecked_of_length hlen (by decide)
  have hreceiver : arrayChecked 4 (slice packet respReceiver) = _ :=
    arrayChecked_of_length hlen (by decide)
  have hephemeral : arrayChecked 32 (slice packet respEphemeralPk) = _ :=
    arrayChecked_of_length hlen (by decide)
  simp only [sliceChecked_of_length hlen (r := respSender) (by decide) (by decide), hsender,
    sliceChecked_of_length hlen (r := respReceiver) (by decide) (by decide), hreceiver,
    sliceChecked_of_length hlen (r := respEphemeralPk) (by decide) (by decide), hephemeral,
    sliceChecked_of_length hlen (r := respEncryptedEmptyTag) (by decide) (by decide),
    Crypto.aeadOpenWithinChecked_eq, Option.bind_eq_bind, Option.bind_some]
  split_ifs
  · rfl
  cases contributory C (C.diffieHellman state.ephemeralSecretInitiator
    (toKey (slice packet respEphemeralPk))) with
  | error e => rfl
  | ok sharedSecret =>
  simp only [Crypto.aeadOpen]
  generalize C.aeadOpenWithin _ 0 _ (slice packet respEncryptedEmptyTag) 0 = result
  cases result <;> rfl

/-! ### Cookie replies -/

namespace Generator

/-- `Generator::process_cookie_reply`.  A key or a tag of the wrong size is an
error here, not a panic. -/
def processCookieReplyChecked (g : Generator C) (reply : Bytes) (now : C.Tai64N) :
    Option (Except CookieError Unit × Generator C) := do
  let header ← MessageHeader.tryFromChecked reply
  match header with
  | .ok (.cookieReply _) =>
      match g.lastSentMac1 with
      | none => some (.error .invalid, g)
      | some sentMac1 =>
          if (C.asRef g.cookieKey).length ≠ 32 then some (.error .invalid, g)
          else do
            let nonce ← sliceChecked reply crNonce
            let nonce ← copyChecked (List.replicate 24 0) ⟨0, 24⟩ nonce
            let cookie ← sliceChecked reply crCookie
            let cookie ← copyChecked (List.replicate cookieSize 0) ⟨0, cookieSize⟩ cookie
            let tag ← sliceChecked reply ⟨crCookie.stop, crEncrypted.stop⟩
            if tag.length ≠ aeadTagSize then some (.error .invalid, g)
            else
              match C.xDecryptDetached g.cookieKey nonce sentMac1 cookie tag with
              | none => some (.error .invalid, g)
              | some cookie => some (.ok (), { g with lastCookie := some ⟨now, cookie⟩ })
  | _ => some (.error .invalid, g)

theorem processCookieReplyChecked_eq (hC : C.Sized) (g : Generator C) (reply : Bytes)
    (now : C.Tai64N) :
    g.processCookieReplyChecked reply now = some (g.processCookieReply reply now) := by
  rw [processCookieReplyChecked, MessageHeader.tryFromChecked_eq, Option.bind_eq_bind,
    Option.bind_some, processCookieReply]
  cases hheader : MessageHeader.tryFrom reply with
  | error e => rfl
  | ok header =>
  cases header with
  | handshakeInit => rfl
  | handshakeResponse receiver => rfl
  | data receiver => rfl
  | cookieReply receiver =>
  have hlen : reply.length = cookieReplyLength := by
    simpa [MessageType.validLength, MessageHeader.messageType] using
      (MessageHeader.hasType_of_tryFrom hheader).2
  have hnonce : (slice reply crNonce).length = 24 := length_slice_of_length hlen (by decide)
  have hcookie : (slice reply crCookie).length = cookieSize :=
    length_slice_of_length hlen (by decide)
  have htag : (slice reply ⟨crCookie.stop, crEncrypted.stop⟩).length = aeadTagSize :=
    length_slice_of_length hlen (by decide)
  cases g.lastSentMac1 with
  | none => rfl
  | some sentMac1 =>
  simp only [hC g.cookieKey, sliceChecked_of_length hlen (r := crNonce) (by decide) (by decide),
    sliceChecked_of_length hlen (r := crCookie) (by decide) (by decide),
    sliceChecked_of_length hlen (r := ⟨crCookie.stop, crEncrypted.stop⟩) (by decide) (by decide),
    copyChecked_whole List.length_replicate hnonce,
    copyChecked_whole List.length_replicate hcookie, htag, ne_eq, not_true_eq_false, if_false,
    Option.bind_eq_bind, Option.bind_some]
  cases C.xDecryptDetached g.cookieKey (slice reply crNonce) sentMac1 (slice reply crCookie)
    (slice reply ⟨crCookie.stop, crEncrypted.stop⟩) <;> rfl

end Generator

end Tunstile
