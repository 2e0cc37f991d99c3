/-
Tunstile/ReadLoop.lean

The packet part of `Tunnel::read_loop` (`tunnel/src/lib.rs`): a received
buffer is cut into segments, each segment is parsed, handshakes pass the load
guard, whose secret is rotated lazily, and what remains is handed to the
router.

What the loop draws from outside while it handles a segment (the clock, a new
secret, a nonce) comes with the segment as an `Arrival`.
-/
import Tunstile.Guard
import Tunstile.Handshake

namespace Tunstile

variable {C : Crypto}

/-! ### Cutting a buffer -/

/-- The segments from `offset` on. -/
def segmentsFrom (len stride offset : ℕ) : List Span :=
  if offset < len then
    if min stride (len - offset) = 0 then []
    else
      ⟨offset, offset + min stride (len - offset)⟩
        :: segmentsFrom len stride (offset + min stride (len - offset))
  else []
termination_by len - offset
decreasing_by omega

/-- The segments a buffer is cut into. -/
def segments (len stride : ℕ) : List Span := segmentsFrom len stride 0

/-! ### Handling a segment -/

/-- A segment, its source, and what the loop draws while it handles it. -/
structure Arrival where
  segment : Bytes
  addr : SocketAddr
  now : Instant
  secret : CookieSecret
  nonce : CookieNonce

/-- What becomes of a segment. -/
inductive Handed (C : Crypto) where
  /-- The header does not parse. -/
  | invalid
  /-- The guard drops the handshake. -/
  | dropped
  /-- A cookie challenge is sent back. -/
  | challenged (addr : SocketAddr) (reply : Bytes)
  | invalidInit
  | handshakeInit (addr : SocketAddr) (handshake : InitReceived C)
  | handshakeResp (addr : SocketAddr) (receiver : UInt32) (packet : Bytes)
  | data (addr : SocketAddr) (receiver : UInt32) (packet : Bytes)
  | cookieReply (receiver : UInt32) (packet : Bytes)

/-- The loop's own state. -/
structure ReadLoop (C : Crypto) where
  guard : LoadGuard C
  secretRotated : Instant

namespace ReadLoop

/-- Replaces the secret once it has been in use for the refresh interval. -/
def rotate (s : ReadLoop C) (now : Instant) (secret : CookieSecret) : ReadLoop C :=
  if cookieRefreshInterval ≤ now.durationSince s.secretRotated then
    { guard := s.guard.rotateSecret secret, secretRotated := now }
  else s

/-- Hands a segment that may pass to its receiver. -/
def dispatch (ourPrivate : C.Secret) (a : Arrival) : MessageHeader → Handed C
  | .handshakeInit =>
      match InitReceived.receive ourPrivate a.segment with
      | .ok handshake => .handshakeInit a.addr handshake
      | .error _ => .invalidInit
  | .handshakeResponse receiver => .handshakeResp a.addr receiver a.segment
  | .data receiver => .data a.addr receiver a.segment
  | .cookieReply receiver => .cookieReply receiver a.segment

/-- One segment. -/
def handle (ourPrivate : C.Secret) (X : CookieSeal C) (s : ReadLoop C) (a : Arrival) :
    Handed C × ReadLoop C :=
  match MessageHeader.tryFrom a.segment with
  | .error _ => (.invalid, s)
  | .ok header =>
      if isHandshake a.segment then
        let s := s.rotate a.now a.secret
        match s.guard.check X a.now a.segment a.addr a.nonce with
        | (.process, guard) => (dispatch ourPrivate a header, { s with guard := guard })
        | (.drop, guard) => (.dropped, { s with guard := guard })
        | (.cookie reply, guard) => (.challenged a.addr reply, { s with guard := guard })
      else (dispatch ourPrivate a header, s)

/-- The loop after a sequence of segments. -/
def run (ourPrivate : C.Secret) (X : CookieSeal C) (s : ReadLoop C) (arrivals : List Arrival) :
    ReadLoop C :=
  arrivals.foldl (fun s a => (s.handle ourPrivate X a).2) s

section

variable (ourPrivate : C.Secret) (X : CookieSeal C)

/-- A handshake leaves the guard its check leaves, with the secret rotated
if that was due. -/
theorem handle_handshake (s : ReadLoop C) {a : Arrival} (h : isHandshake a.segment = true) :
    (s.handle ourPrivate X a).2 =
      { s.rotate a.now a.secret with
        guard := ((s.rotate a.now a.secret).guard.check X a.now a.segment a.addr a.nonce).2 } := by
  have hparse : ∃ header, MessageHeader.tryFrom a.segment = .ok header := by
    rcases isHandshake_iff.mp h with h | ⟨i, h⟩
    · exact ⟨_, h⟩
    · exact ⟨_, h⟩
  obtain ⟨header, hheader⟩ := hparse
  simp only [handle, hheader, if_pos h]
  rcases (s.rotate a.now a.secret).guard.check X a.now a.segment a.addr a.nonce with
    ⟨decision, guard⟩
  cases decision <;> rfl

/-- Anything else leaves the loop as it is. -/
theorem handle_other (s : ReadLoop C) {a : Arrival} (h : isHandshake a.segment = false) :
    (s.handle ourPrivate X a).2 = s := by
  unfold handle
  split
  · rfl
  · rw [if_neg (by simp [h])]

/-- An initiation that is handed on was received from the segment. -/
theorem receive_of_handle {s : ReadLoop C} {a : Arrival} {addr : SocketAddr}
    {handshake : InitReceived C} (h : (s.handle ourPrivate X a).1 = .handshakeInit addr handshake) :
    InitReceived.receive ourPrivate a.segment = .ok handshake := by
  have hdispatch : ∀ header, dispatch ourPrivate a header = .handshakeInit addr handshake →
      InitReceived.receive ourPrivate a.segment = .ok handshake := by
    intro header h
    cases header with
    | handshakeInit =>
        rw [dispatch] at h
        split at h
        · rename_i hs hreceive
          cases h
          exact hreceive
        · cases h
    | _ => cases h
  unfold handle at h
  split at h
  · cases h
  · split at h
    · dsimp only at h
      split at h
      · exact hdispatch _ h
      · cases h
      · cases h
    · exact hdispatch _ h

end

end ReadLoop

end Tunstile
