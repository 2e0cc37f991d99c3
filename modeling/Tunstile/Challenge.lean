/-
Tunstile/Challenge.lean

A cookie challenge resolves in one round trip.

The sender's `Generator` and the receiver's `Verifier` are two encoders of
the same MAC fields.  They meet in `Signed`, which says what the MAC fields
of a written handshake message hold:

* every successful `initiate` or `respond` leaves a signed message, and
  remembers its mac1 (`written_signed`);
* a guard for the same key admits a signed message (`admits_of_signed`), and
  lets it pass under any load if it is signed with the guard's own cookie;
* a challenge of a signed message opens under the mac1 the sender remembers,
  and gives it that cookie (`processCookieReply_challenge`).

Between these points the peer may do anything that writes no handshake
message, and afterwards anything that accepts no other cookie: `Along` follows
a condition on the calls of a run, and `run_eq_of_along` what such a run
leaves alone.
-/
import Tunstile.Guard
import Tunstile.Ideal
import Tunstile.Peer

namespace Tunstile

variable {C : Crypto}

/-! ### Signed messages -/

namespace Generator

/-- The generator and the verifier are for the same key. -/
structure Matches (g : Generator C) (v : Verifier C) : Prop where
  mac1Key_eq : g.mac1Key = v.mac1Key
  cookieKey_eq : g.cookieKey = v.cookieKey

/-- `ts` is at most `cookieRefreshInterval` after `received`, or before it. -/
def Fresh (ts received : C.Tai64N) : Prop :=
  ∀ d, C.taiDurationSince ts received = some d → d ≤ cookieRefreshInterval

theorem Fresh.getD_le {ts received : C.Tai64N} (h : Fresh ts received) :
    (C.taiDurationSince ts received).getD default ≤ cookieRefreshInterval := by
  cases hd : C.taiDurationSince ts received with
  | none => exact Nat.zero_le _
  | some d => exact h d hd

/-- A handshake message whose MAC fields `g` wrote at `ts`. -/
structure Signed (g : Generator C) (ts : C.Tai64N) (msg : Bytes) : Prop where
  isHandshake : isHandshake msg = true
  mac1_eq : slice msg ⟨mac1Offset msg, mac2Offset msg⟩ = g.mac1Of msg
  mac2_eq : ∀ c, g.lastCookie = some c → Fresh ts c.receivedTimestamp →
    msg.drop (mac2Offset msg) = C.mac c.cookie [msg.take (mac2Offset msg)]

theorem isHandshake_of_agrees {msg msg' : Bytes} (h : Tunstile.isHandshake msg = true)
    (ha : AgreesBeforeMacs msg msg') : Tunstile.isHandshake msg' = true := by
  have hlen := macs_fit_of_isHandshake h
  rcases isHandshake_iff.mp h with h | ⟨i, h⟩
  · obtain ⟨htype, hvalid⟩ := MessageHeader.hasType_of_tryFrom h
    rw [← ha.length_eq] at hvalid
    exact isHandshake_iff.mpr (Or.inl (MessageHeader.tryFrom_of_hasType
      (htype.of_agrees ha (by omega)) hvalid))
  · obtain ⟨htype, hvalid⟩ := MessageHeader.hasType_of_tryFrom h
    rw [← ha.length_eq] at hvalid
    exact isHandshake_iff.mpr (Or.inr ⟨_, MessageHeader.tryFrom_of_hasType
      (htype.of_agrees ha (by omega)) hvalid⟩)

/-- The mac1 covers nothing the MACs overwrite. -/
theorem mac1Of_of_agrees (g : Generator C) {msg msg' : Bytes} (ha : AgreesBeforeMacs msg msg') :
    g.mac1Of msg' = g.mac1Of msg := by
  rw [mac1Of, mac1Of, mac1Offset, mac1Offset, ha.length_eq, take_eq_slice, take_eq_slice,
    ha.slice_eq _ le_rfl]

theorem writeMac1_mac1 (g : Generator C) {msg : Bytes} (hlen : 2 * macSize ≤ msg.length) :
    slice (g.writeMac1 msg) ⟨mac1Offset msg, mac2Offset msg⟩ = g.mac1Of msg := by
  have hmac : macSize = 16 := rfl
  have hlength : (g.mac1Of msg).length = 16 := C.length_mac _ _
  have hfit : mac1Offset msg + (g.mac1Of msg).length ≤ msg.length := by
    rw [hlength, mac1Offset]; omega
  have hoff : mac2Offset (splice msg (mac1Offset msg) (g.mac1Of msg)) = mac2Offset msg := by
    rw [mac2Offset, length_splice hfit, mac2Offset]
  rw [writeMac1, hoff, length_splice hfit, slice_splice_of_disjoint
    (Or.inl (le_refl (mac2Offset msg))) (by rw [length_splice hfit, List.length_replicate, mac2Offset]; omega)]
  exact slice_splice_self rfl
    (by rw [hlength, Span.length, mac1Offset, mac2Offset]; dsimp only; omega) hfit

/-- The mac2 step writes behind mac1. -/
theorem writeMac2_slice (g : Generator C) (ts : C.Tai64N) {msg : Bytes} (hlen : macSize ≤ msg.length)
    {r : Span} (hr : r.stop ≤ mac2Offset msg) :
    slice (g.writeMac2 ts msg) r = slice msg r := by
  unfold writeMac2
  split
  · rfl
  · split
    · refine slice_splice_of_disjoint (Or.inl hr) ?_
      rw [C.length_mac, mac2Offset]
      omega
    · rfl

/-- A fresh cookie signs everything before mac2. -/
theorem writeMac2_drop (g : Generator C) {ts : C.Tai64N} {msg : Bytes} (hlen : macSize ≤ msg.length)
    {c : LastCookie C} (hc : g.lastCookie = some c) (hfresh : Fresh ts c.receivedTimestamp) :
    (g.writeMac2 ts msg).drop (mac2Offset msg) = C.mac c.cookie [msg.take (mac2Offset msg)] := by
  have hfit : mac2Offset msg + (C.mac c.cookie [msg.take (mac2Offset msg)]).length
      = msg.length := by
    rw [C.length_mac, mac2Offset]; omega
  simp only [writeMac2, hc, if_pos hfresh.getD_le]
  rw [drop_eq_slice, length_splice hfit.le]
  exact slice_splice_self rfl (by rw [Span.length]; dsimp only; omega) hfit.le

/-- `add_macs` succeeds on handshakes alone, and writes both MACs. -/
theorem of_addMacs_ok {g g' : Generator C} {ts : C.Tai64N} {msg msg' : Bytes}
    (h : g.addMacs ts msg = (.ok (), g', msg')) :
    isHandshake msg = true ∧ msg' = g.writeMac2 ts (g.writeMac1 msg) ∧
      g' = { g with lastSentMac1 := some (g.mac1Of msg) } := by
  unfold addMacs at h
  split at h
  · rename_i hhdr
    cases h
    exact ⟨isHandshake_iff.mpr (Or.inl hhdr), rfl, rfl⟩
  · rename_i i hhdr
    cases h
    exact ⟨isHandshake_iff.mpr (Or.inr ⟨i, hhdr⟩), rfl, rfl⟩
  · cases h

/-- **`add_macs` signs**, and remembers the mac1 it wrote. -/
theorem addMacs_signed {g g' : Generator C} {ts : C.Tai64N} {msg msg' : Bytes}
    (h : g.addMacs ts msg = (.ok (), g', msg')) :
    g.Signed ts msg' ∧ g' = { g with lastSentMac1 := some (g.mac1Of msg') } := by
  obtain ⟨hhandshake, rfl, rfl⟩ := of_addMacs_ok h
  have hlen := macs_fit_of_isHandshake hhandshake
  have hmac1 : AgreesBeforeMacs msg (g.writeMac1 msg) := g.writeMac1_agrees (by omega)
  have hagree := g.writeMac2_agrees ts hmac1 (by omega)
  have hfit : macSize ≤ (g.writeMac1 msg).length := by
    rw [hmac1.length_eq]; omega
  have hoff1 : mac1Offset (g.writeMac2 ts (g.writeMac1 msg)) = mac1Offset msg := by
    rw [mac1Offset, hagree.length_eq, mac1Offset]
  have hoff2 : mac2Offset (g.writeMac2 ts (g.writeMac1 msg)) = mac2Offset (g.writeMac1 msg) := by
    rw [mac2Offset, hagree.length_eq, mac2Offset, hmac1.length_eq]
  refine ⟨⟨isHandshake_of_agrees hhandshake hagree, ?_, ?_⟩, ?_⟩
  · -- the second MAC leaves the first as it was written
    rw [mac1Of_of_agrees g hagree, hoff1, hoff2]
    refine (writeMac2_slice g ts hfit (r := ⟨mac1Offset msg, mac2Offset (g.writeMac1 msg)⟩)
      le_rfl).trans ?_
    rw [mac2Offset, hmac1.length_eq, ← mac2Offset]
    exact writeMac1_mac1 g (by omega)
  · intro c hc hfresh
    have htake : (g.writeMac2 ts (g.writeMac1 msg)).take (mac2Offset (g.writeMac1 msg))
        = (g.writeMac1 msg).take (mac2Offset (g.writeMac1 msg)) := by
      rw [take_eq_slice, take_eq_slice]
      exact writeMac2_slice g ts hfit le_rfl
    rw [hoff2, htake]
    exact writeMac2_drop g hfit hc hfresh
  · rw [mac1Of_of_agrees g hagree]

/-- A message written over the front of a buffer is the one `add_macs` left,
whatever it was found to be. -/
theorem signed_of_written {cookies g : Generator C} {ts : C.Tai64N} {body written : Bytes}
    (hadd : cookies.addMacs ts body = (.ok (), g, written)) {out rest msg : Bytes}
    (hout : out = written ++ rest) (hmsg : out = msg ++ rest) {n : ℕ} (hlen : msg.length = n) :
    cookies.Signed ts (out.take n) ∧
      g = { cookies with lastSentMac1 := some (cookies.mac1Of (out.take n)) } := by
  have htake : out.take n = written := by
    rw [hmsg, List.take_left' hlen]
    exact List.append_cancel_right (hmsg.symm.trans hout)
  rw [htake]
  exact addMacs_signed hadd

end Generator

/-- A successful initiate leaves a signed message. -/
theorem InitSent.initiate_signed {ourPrivate : C.Secret} {peerPublic : PublicKey}
    {sender : UInt32} {ephemeralSecret : C.Secret} {timestamp : C.Tai64N} {cookies g : Generator C}
    {buf out : Bytes} {state : InitSent C}
    (h : InitSent.initiate ourPrivate peerPublic sender ephemeralSecret timestamp cookies buf
      = (.ok state, g, out)) :
    cookies.Signed timestamp (out.take initMsgLength) ∧
      g = { cookies with lastSentMac1 := some (cookies.mac1Of (out.take initMsgLength)) } := by
  obtain ⟨body, written, hadd, hout⟩ : ∃ body written, cookies.addMacs timestamp body
      = (.ok (), g, written) ∧ out = written ++ buf.drop initMsgLength := by
    unfold InitSent.initiate at h
    split at h
    · cases h
    · dsimp only at h
      split at h
      · cases h
      · split at h
        · cases h
        · rename_i hadd
          cases h
          exact ⟨_, _, hadd, rfl⟩
  rcases InitSent.initiate_cases ourPrivate peerPublic sender ephemeralSecret timestamp cookies
    buf with ⟨-, e, buf', herr⟩ | ⟨-, -, mac1, msg, hok, hmsg⟩
  · cases h.symm.trans herr
  · exact Generator.signed_of_written hadd hout
      (congrArg (fun r => r.2.2) (h.symm.trans hok)) hmsg.length_eq

/-- A successful respond leaves a signed message. -/
theorem InitReceived.respond_signed {state : InitReceived C} {index : UInt32}
    {ephemeralSecret : C.Secret} {presharedKey : Option PresharedKey} {timestamp : C.Tai64N}
    {cookies g : Generator C} {buf out : Bytes} {established : ReceiverEstablished C}
    (h : state.respond index ephemeralSecret presharedKey timestamp cookies buf
      = (.ok established, g, out)) :
    cookies.Signed timestamp (out.take respMsgLength) ∧
      g = { cookies with lastSentMac1 := some (cookies.mac1Of (out.take respMsgLength)) } := by
  obtain ⟨body, written, hadd, hout⟩ : ∃ body written, cookies.addMacs timestamp body
      = (.ok (), g, written) ∧ out = written ++ buf.drop respMsgLength := by
    unfold InitReceived.respond at h
    split at h
    · cases h
    · dsimp only at h
      split at h
      · cases h
      · rename_i hadd
        cases h
        exact ⟨_, _, hadd, rfl⟩
  rcases InitReceived.respond_cases state index ephemeralSecret presharedKey timestamp cookies
    buf with ⟨-, e, herr⟩ | ⟨-, mac1, msg, hok, hmsg⟩
  · cases h.symm.trans herr
  · exact Generator.signed_of_written hadd hout
      (congrArg (fun r => r.2.2) (h.symm.trans hok)) hmsg.length_eq

/-! ### The guard and signed messages -/

section Guard

variable {g : Generator C} {ts : C.Tai64N} {msg : Bytes}

theorem mac2Offset_eq (h : isHandshake msg = true) :
    mac2Offset msg = mac1Offset msg + macSize := by
  have hlen := macs_fit_of_isHandshake h
  rw [mac1Offset, mac2Offset]
  omega

/-- A guard for the sender's peer admits what the sender signs. -/
theorem admits_of_signed {guard : LoadGuard C} (hkeys : g.Matches guard.verifier)
    (hsigned : g.Signed ts msg) : guard.Admits msg := by
  have hlen := macs_fit_of_isHandshake hsigned.isHandshake
  refine ⟨hsigned.isHandshake, ?_⟩
  rw [Verifier.verifyMac1, if_neg (by omega), hsigned.mac1_eq, Generator.mac1Of, hkeys.mac1Key_eq]
  exact beq_self_eq_true _

/-- The cookie of a source signs messages that verify for this source. -/
theorem verifyMac2_of_signed (v : Verifier C) {source : Bytes} {secret : CookieSecret}
    {received : C.Tai64N} (hsigned : g.Signed ts msg)
    (hcookie : g.lastCookie = some ⟨received, Verifier.cookie C source secret⟩)
    (hfresh : Generator.Fresh ts received) : v.verifyMac2 msg source secret = true := by
  have hlen := macs_fit_of_isHandshake hsigned.isHandshake
  rw [Verifier.verifyMac2, if_neg (by omega), hsigned.mac2_eq _ hcookie hfresh]
  exact beq_self_eq_true _

/-- An admitted message is never dropped. -/
theorem LoadGuard.check_ne_drop {guard : LoadGuard C} (h : guard.Admits msg) (X : CookieSeal C)
    (now : Instant) (source : SocketAddr) (nonce : CookieNonce) :
    (guard.check X now msg source nonce).1 ≠ .drop := by
  rcases guard.check_cases X now msg source nonce with hc | hc | hc | hc
  · exact absurd h hc.1
  · rw [hc.2.2]; exact HandshakeDecision.noConfusion
  · rw [hc.2.2.2]; exact HandshakeDecision.noConfusion
  · rw [hc.2.2.2]; exact HandshakeDecision.noConfusion

/-- An admitted message with the right cookie passes under any load. -/
theorem LoadGuard.check_process {guard : LoadGuard C} (h : guard.Admits msg) (X : CookieSeal C)
    (now : Instant) {source : SocketAddr} (nonce : CookieNonce)
    (hmac2 : guard.verifier.verifyMac2 msg (cookieInput source) guard.secret = true) :
    (guard.check X now msg source nonce).1 = .process :=
  (guard.check_process_iff X now msg source nonce).mpr ⟨h, fun _ => hmac2⟩

/-- A cookie reply is the challenge of the message it answers. -/
theorem LoadGuard.check_cookie {guard : LoadGuard C} {X : CookieSeal C} {now : Instant}
    {source : SocketAddr} {nonce : CookieNonce} {reply : Bytes}
    (h : (guard.check X now msg source nonce).1 = .cookie reply) :
    reply = guard.verifier.challenge X msg (cookieInput source) guard.secret nonce := by
  rcases guard.check_cases X now msg source nonce with hc | hc | hc | hc
  · rw [hc.2] at h; cases h
  · rw [hc.2.2] at h; cases h
  · rw [hc.2.2.2] at h; cases h
  · rw [hc.2.2.2] at h
    cases h
    rfl

/-- **A challenge gives its receiver the cookie**, as long as the mac1 it is
bound to is the one last sent. -/
theorem Generator.processCookieReply_challenge {X : CookieSeal C} (hX : X.Opens)
    {v : Verifier C} (hkeys : g.Matches v) (hmsg : isHandshake msg = true) (source : Bytes)
    (secret : CookieSecret) (nonce : CookieNonce) (now : C.Tai64N)
    (hsent : g.lastSentMac1 = some (slice msg ⟨mac1Offset msg, mac2Offset msg⟩)) :
    g.processCookieReply (v.challenge X msg source secret nonce) now
      = (.ok (), { g with lastCookie := some ⟨now, Verifier.cookie C source secret⟩ }) := by
  have hsender := Verifier.length_sender hmsg
  have hnonce : nonce.toList.length = 24 := nonce.toList_length
  have hfield := v.length_sealedCookie_fst X msg source secret nonce
  have htag := v.length_sealedCookie_snd X msg source secret nonce
  have hopen : C.xDecryptDetached v.cookieKey nonce.toList
      (slice msg ⟨mac1Offset msg, mac1Offset msg + macSize⟩)
      (v.sealedCookie X msg source secret nonce).1 (v.sealedCookie X msg source secret nonce).2
        = some (Verifier.cookie C source secret) := hX _ _ _ _
  rw [mac2Offset_eq hmsg] at hsent
  rw [processCookieReply, Verifier.challenge, tryFrom_cookieWire hsender hnonce hfield htag]
  simp only [hsent, cookieWire_nonce hsender hnonce, cookieWire_field hsender hnonce hfield,
    cookieWire_tag hsender hnonce hfield htag, hkeys.cookieKey_eq, hopen]

end Guard

/-! ### Along a run of the peer -/

namespace Peer

/-- The handshake message a call writes, with its timestamp. -/
def Op.message : Op C → Outcome → Option (C.Tai64N × Bytes)
  | .initiate _ values _, .written _ out => some (values.timestamp, out.take initMsgLength)
  | .respond _ _ values _ _, .written _ out => some (values.timestamp, out.take respMsgLength)
  | _, _ => none

/-- The call accepts a cookie reply. -/
def Op.AcceptsCookie : Op C → Outcome → Prop
  | .cookieReply _ _, .done => True
  | _, _ => False

/-- The handshake message `op` writes when called on `p`. -/
def written (p : Peer C) (op : Op C) : Option (C.Tai64N × Bytes) := op.message (p.step op).1

/-- Every call of a run, with what it returns, satisfies `P`. -/
def Along (P : Op C → Outcome → Prop) : Peer C → List (Op C) → Prop
  | _, [] => True
  | p, op :: ops => P op (p.step op).1 ∧ Along P (p.step op).2 ops

/-- What no call satisfying `P` changes, no run of such calls changes. -/
theorem run_eq_of_along {β : Type*} (f : Peer C → β) {P : Op C → Outcome → Prop}
    (hstep : ∀ p : Peer C, p.WellFormed → ∀ op, P op (p.step op).1 → f (p.step op).2 = f p)
    {ops : List (Op C)} {p : Peer C} (hp : p.WellFormed) (h : Along P p ops) :
    f (p.run ops) = f p := by
  induction ops generalizing p with
  | nil => rfl
  | cons op ops ih =>
      rw [run_cons, ih (wellFormed_step hp op) h.2]
      exact hstep p hp op h.1

/-- What a call can do to the generator: the keys stay, the remembered mac1
changes only with a message, the cookie only with a cookie reply. -/
theorem Effect.cookieGenerator_cases {p p' : Peer C} {op : Op C} {o : Outcome}
    (h : Effect p op o p') :
    (p'.cookieGenerator.mac1Key = p.cookieGenerator.mac1Key ∧
        p'.cookieGenerator.cookieKey = p.cookieGenerator.cookieKey) ∧
      (op.message o = none →
        p'.cookieGenerator.lastSentMac1 = p.cookieGenerator.lastSentMac1) ∧
      (¬ op.AcceptsCookie o → p'.cookieGenerator.lastCookie = p.cookieGenerator.lastCookie) := by
  cases h with
  | initiated mac1 msg hmsg =>
      refine ⟨⟨rfl, rfl⟩, fun hnone => ?_, fun _ => rfl⟩
      cases hnone
  | responded mac1 msg hts hmsg =>
      refine ⟨⟨rfl, rfl⟩, fun hnone => ?_, fun _ => rfl⟩
      cases hnone
  | cookieStored cookie => exact ⟨⟨rfl, rfl⟩, fun _ => rfl, fun hno => absurd trivial hno⟩
  | received k session counter payload replay =>
      cases k <;> exact ⟨⟨rfl, rfl⟩, fun _ => rfl, fun _ => rfl⟩
  | _ => exact ⟨⟨rfl, rfl⟩, fun _ => rfl, fun _ => rfl⟩

/-- A run keeps the keys. -/
theorem matches_run {v : Verifier C} {p : Peer C} (hp : p.WellFormed)
    (h : p.cookieGenerator.Matches v) (ops : List (Op C)) :
    (p.run ops).cookieGenerator.Matches v := by
  induction ops generalizing p with
  | nil => exact h
  | cons op ops ih =>
      have hkeys := (step_effect _ hp op).cookieGenerator_cases.1
      exact ih (wellFormed_step hp op) ⟨hkeys.1.trans h.mac1Key_eq, hkeys.2.trans h.cookieKey_eq⟩

/-- Writing nothing, a run keeps the mac1 it sent last. -/
theorem lastSentMac1_run {p : Peer C} (hp : p.WellFormed) {ops : List (Op C)}
    (h : Along (fun op o => op.message o = none) p ops) :
    (p.run ops).cookieGenerator.lastSentMac1 = p.cookieGenerator.lastSentMac1 :=
  run_eq_of_along (fun p => p.cookieGenerator.lastSentMac1)
    (fun _ hp op hnone => (step_effect _ hp op).cookieGenerator_cases.2.1 hnone) hp h

/-- Accepting no cookie reply, a run keeps its cookie. -/
theorem lastCookie_run {p : Peer C} (hp : p.WellFormed) {ops : List (Op C)}
    (h : Along (fun op o => ¬ op.AcceptsCookie o) p ops) :
    (p.run ops).cookieGenerator.lastCookie = p.cookieGenerator.lastCookie :=
  run_eq_of_along (fun p => p.cookieGenerator.lastCookie)
    (fun _ hp op hno => (step_effect _ hp op).cookieGenerator_cases.2.2 hno) hp h

/-- **A written message is signed**, and its mac1 remembered. -/
theorem written_signed {p : Peer C} {op : Op C} {ts : C.Tai64N} {msg : Bytes}
    (h : p.written op = some (ts, msg)) :
    p.cookieGenerator.Signed ts msg ∧
      (p.step op).2.cookieGenerator
        = { p.cookieGenerator with lastSentMac1 := some (p.cookieGenerator.mac1Of msg) } := by
  cases op with
  | initiate ourKey values out =>
      simp only [written, step, initiate] at h ⊢
      split_ifs at h ⊢ with hshort
      · cases h
      · cases hinit : InitSent.initiate ourKey p.peerKey values.index values.ephemeralSecret
          values.timestamp p.cookieGenerator out with
        | mk result rest =>
            cases result with
            | error e =>
                simp only [hinit] at h
                cases h
            | ok state =>
                simp only [hinit] at h ⊢
                cases h
                exact InitSent.initiate_signed hinit
  | respond now handshake values source out =>
      simp only [written, step, respond] at h ⊢
      split_ifs at h ⊢ with hstale hshort
      · cases h
      · cases h
      · cases hresp : handshake.respond values.index values.ephemeralSecret p.presharedKey
          values.timestamp p.cookieGenerator out with
        | mk result rest =>
            cases result with
            | error e =>
                simp only [hresp] at h
                cases h
            | ok established =>
                simp only [hresp] at h ⊢
                cases h
                exact InitReceived.respond_signed hresp
  | _ => cases h

/-- A challenge of the message last written is accepted, and leaves the
guard's cookie. -/
theorem cookieReply_challenge {X : CookieSeal C} (hX : X.Opens) {v : Verifier C} {p : Peer C}
    (hkeys : p.cookieGenerator.Matches v) {msg : Bytes} (hmsg : isHandshake msg = true)
    (hsent : p.cookieGenerator.lastSentMac1
      = some (slice msg ⟨mac1Offset msg, mac2Offset msg⟩))
    (source : Bytes) (secret : CookieSecret) (nonce : CookieNonce) (received : C.Tai64N) :
    p.step (.cookieReply (v.challenge X msg source secret nonce) received)
      = (.done, { p with cookieGenerator := { p.cookieGenerator with
          lastCookie := some ⟨received, Verifier.cookie C source secret⟩ } }) := by
  rw [step, cookieReply,
    Generator.processCookieReply_challenge hX hkeys hmsg source secret nonce received hsent]

/-- **A cookie challenge resolves in one round trip.**  A guard for the key a
peer is addressed to never drops what the peer writes.  If it challenges a
message and the peer is given the challenge before it writes another one, the
peer accepts; and every message it writes from then on with a fresh timestamp
passes, under any load, while the guard keeps its secret and the peer accepts
no other cookie. -/
theorem challenge_resolves (X : CookieSeal C) (hX : X.Opens) (K : PublicKey) (ops : List (Op C))
    (op : Op C) (ts : C.Tai64N) (msg : Bytes)
    (hmsg : ((new C K).run ops).written op = some (ts, msg))
    (guard : LoadGuard C) (hguard : guard.verifier = .new C K) (now : Instant)
    (source : SocketAddr) (nonce : CookieNonce) :
    (guard.check X now msg source nonce).1 ≠ .drop ∧
      ∀ reply, (guard.check X now msg source nonce).1 = .cookie reply →
      ∀ between, Along (fun op o => op.message o = none) ((new C K).run (ops ++ [op])) between →
      ∀ received : C.Tai64N, ∃ answered : Peer C,
        ((new C K).run (ops ++ [op] ++ between)).step (.cookieReply reply received)
            = (.done, answered) ∧
          ∀ later, Along (fun op o => ¬ op.AcceptsCookie o) answered later →
          ∀ op' ts' msg', (answered.run later).written op' = some (ts', msg') →
            Generator.Fresh ts' received →
          ∀ guard' : LoadGuard C, guard'.verifier = guard.verifier →
            guard'.secret = guard.secret →
          ∀ now' nonce', (guard'.check X now' msg' source nonce').1 = .process := by
  have hp := wellFormed_run (wellFormed_new K (C := C)) ops
  have hkeys : ((new C K).run ops).cookieGenerator.Matches guard.verifier := by
    rw [hguard]
    exact matches_run (wellFormed_new K) ⟨rfl, rfl⟩ ops
  obtain ⟨hsigned, hsent⟩ := written_signed hmsg
  refine ⟨LoadGuard.check_ne_drop (admits_of_signed hkeys hsigned) X now source nonce, ?_⟩
  intro reply hreply between hbetween received
  obtain rfl := LoadGuard.check_cookie hreply
  -- what the peer remembers of the message is still there when the challenge arrives
  have hrun : (new C K).run (ops ++ [op]) = (((new C K).run ops).step op).2 := run_append _ _ _
  have hp₁ := wellFormed_step hp op
  rw [hrun] at hbetween
  rw [run_append, hrun]
  have hkeys₁ : (((new C K).run ops).step op).2.cookieGenerator.Matches guard.verifier :=
    matches_run hp hkeys [op]
  have hsent₂ := (lastSentMac1_run hp₁ hbetween).trans
    ((congrArg Generator.lastSentMac1 hsent).trans (congrArg some hsigned.mac1_eq.symm))
  have hkeys₂ := matches_run hp₁ hkeys₁ between
  have hp₂ := wellFormed_run hp₁ between
  generalize (((new C K).run ops).step op).2.run between = q at *
  have hanswer := cookieReply_challenge hX hkeys₂ hsigned.isHandshake hsent₂
    (cookieInput source) guard.secret nonce received
  refine ⟨_, hanswer, ?_⟩
  intro later hlater op' ts' msg' hmsg' hfresh guard' hverifier hsecret now' nonce'
  -- and the cookie is still there when the next message is written
  have hp₃ := wellFormed_step hp₂
    (.cookieReply (guard.verifier.challenge X msg (cookieInput source) guard.secret nonce) received)
  have hkeys₃ := matches_run hp₂ hkeys₂
    [.cookieReply (guard.verifier.challenge X msg (cookieInput source) guard.secret nonce) received]
  rw [run_cons, run_nil] at hkeys₃
  rw [hanswer] at hp₃ hkeys₃
  have hcookie := lastCookie_run hp₃ hlater
  obtain ⟨hsigned', -⟩ := written_signed hmsg'
  have hkeys' := matches_run hp₃ hkeys₃ later
  rw [← hverifier] at hkeys'
  refine LoadGuard.check_process (admits_of_signed hkeys' hsigned') X now' nonce' ?_
  rw [hsecret]
  exact verifyMac2_of_signed _ hsigned' hcookie hfresh

/-- `Crypto.symbolic` with a mark for a MAC, so that a mac2 field left zero is
no MAC. -/
def marked : Crypto :=
  { Crypto.symbolic with
    mac := fun _ _ => List.replicate macSize 1
    length_mac := fun _ _ => List.length_replicate }

/-- Sealing for `marked`: the text stays as it is. -/
def markedSeal : CookieSeal marked where
  xEncryptDetached := fun _ _ _ m => (m, List.replicate aeadTagSize 0)
  length_encrypt := fun _ _ _ _ => rfl
  length_tag := fun _ _ _ _ => List.length_replicate

def markedKey : PublicKey := List.Vector.replicate 32 2

/-- The time of all runs on `marked`. -/
def markedTime : marked.Tai64N := Crypto.symbolicTime

/-- Initiates with the given index. -/
def markedInit (index : UInt32) : Op marked :=
  .initiate (1 : UInt8) ⟨index, (3 : UInt8), markedTime⟩ (List.replicate initMsgLength 0)

/-- A guard that demands a cookie of every handshake. -/
def markedGuard : LoadGuard marked :=
  (LoadGuard.new marked markedKey (List.Vector.replicate 32 42)).withMaxRate 0

def markedSource : SocketAddr := .v4 (List.Vector.replicate 4 127) 1

theorem exists_written_markedInit (p : Peer marked) (index : UInt32) :
    ∃ msg, p.written (markedInit index) = some (markedTime, msg) := by
  simp only [written, markedInit, step, initiate]
  rw [if_neg (by rw [List.length_replicate]; exact lt_irrefl _)]
  rcases InitSent.initiate_cases (C := marked) (1 : UInt8) p.peerKey index (3 : UInt8)
    markedTime p.cookieGenerator (List.replicate initMsgLength 0) with
    ⟨hshort | hdh, -⟩ | ⟨-, -, mac1, msg, hok, -⟩
  · rw [List.length_replicate] at hshort
    exact absurd hshort (lt_irrefl _)
  · cases hdh
  · rw [hok]
    exact ⟨_, rfl⟩

/-- The decision is a challenge. -/
def challenges : HandshakeDecision → Bool
  | .cookie _ => true
  | _ => false

theorem challenged_markedInit : ((new marked markedKey).written (markedInit 1)).elim false
    (fun written => challenges (markedGuard.check markedSeal default written.2 markedSource
      (List.Vector.replicate 24 7)).1) = true := by
  decide +kernel

/-- An initiation is challenged, the reply accepted, and the next initiation
passes. -/
theorem challenge_resolves_initiation : ∃ msg reply answered msg',
    (new marked markedKey).written (markedInit 1) = some (markedTime, msg) ∧
      (markedGuard.check markedSeal default msg markedSource (List.Vector.replicate 24 7)).1
        = .cookie reply ∧
      ((new marked markedKey).run [markedInit 1]).step (.cookieReply reply markedTime)
        = (.done, answered) ∧
      answered.written (markedInit 2) = some (markedTime, msg') ∧
      (markedGuard.check markedSeal default msg' markedSource (List.Vector.replicate 24 8)).1
        = .process := by
  obtain ⟨msg, hmsg⟩ := exists_written_markedInit (new marked markedKey) 1
  have hcheck := challenged_markedInit
  rw [hmsg] at hcheck
  have hresolves := challenge_resolves markedSeal (fun _ _ _ _ => rfl) markedKey [] (markedInit 1)
    markedTime msg hmsg markedGuard rfl default markedSource (List.Vector.replicate 24 7)
  cases hreply : (markedGuard.check markedSeal default msg markedSource
      (List.Vector.replicate 24 7)).1 with
  | process =>
      rw [Option.elim_some, hreply] at hcheck
      cases hcheck
  | drop => exact absurd hreply hresolves.1
  | cookie reply =>
      obtain ⟨answered, hanswered, hlater⟩ :=
        hresolves.2 reply hreply [] trivial markedTime
      obtain ⟨msg', hmsg'⟩ := exists_written_markedInit answered 2
      refine ⟨msg, reply, answered, msg', hmsg, hreply, hanswered, hmsg', ?_⟩
      refine hlater [] trivial (markedInit 2) markedTime msg' hmsg' ?_ markedGuard rfl rfl
        default (List.Vector.replicate 24 8)
      intro d hd
      cases hd
      decide

end Peer

end Tunstile
