/-
Tunstile/CookieBinding.lean

A cookie is fresh and bound to an address.

Nothing in a handshake message says when its cookie was issued.  Freshness
comes from the read loop: it replaces the secret before a check once the
secret has been in use for the refresh interval, so at every check the secret
is younger than that (`rotate_age`), and a cookie made with it was issued
since the secret came into use (`SinceRotation`).  The address comes from the
cookie's input, which determines the address and port (`cookieInput_inj`).

That a MAC cannot be guessed is a condition on runs.  `IdealMacs` states it
of the handshakes a run checks: a valid mac2 takes a cookie that an earlier
reply carried, different secrets or sources have different cookies, and a new
secret is not one that was used before.
-/
import Tunstile.History
import Tunstile.ReadLoop
import Tunstile.Challenge

namespace Tunstile

variable {C : Crypto}

/-! ### The input of a cookie -/

theorem u16ToBe_inj {m n : UInt16} (h : u16ToBe m = u16ToBe n) : m = n := by
  have hm := m.toNat_lt
  have hn := n.toNat_lt
  simp only [u16ToBe, List.cons.injEq, and_true] at h
  have hhigh := congrArg UInt8.toNat h.1
  have hlow := congrArg UInt8.toNat h.2
  simp only [UInt8.toNat_ofNat'] at hhigh hlow
  apply UInt16.toNat_inj.mp
  omega

/-- The port is written right after the address. -/
theorem take_address {n : ℕ} (octets : List.Vector UInt8 n) (port : UInt16) (buf : Bytes) :
    (splice (splice buf 0 octets.toList) n (u16ToBe port)).take (n + 2)
      = octets.toList ++ u16ToBe port := by
  have hlen : (octets.toList ++ u16ToBe port).length = n + 2 := by
    rw [List.length_append, octets.toList_length]; rfl
  rw [splice_zero, splice_append octets.toList_length, List.take_left' hlen]

theorem cookieInput_v4 (octets : List.Vector UInt8 4) (port : UInt16) :
    cookieInput (.v4 octets port) = octets.toList ++ u16ToBe port :=
  take_address octets port _

theorem cookieInput_v6 (octets : List.Vector UInt8 16) (port : UInt16)
    (flowinfo scopeId : UInt32) :
    cookieInput (.v6 octets port flowinfo scopeId) = octets.toList ++ u16ToBe port :=
  take_address octets port _

/-- **Different addresses or ports give different inputs**, across address
families too: the lengths differ. -/
theorem cookieInput_inj {a b : SocketAddr} (h : cookieInput a = cookieInput b) :
    a.ip = b.ip ∧ a.port = b.port := by
  have hlen := congrArg List.length h
  cases a with
  | v4 octets port =>
      cases b with
      | v4 octets' port' =>
          rw [cookieInput_v4, cookieInput_v4] at h
          obtain ⟨hoctets, hport⟩ := List.append_inj h (by simp)
          exact ⟨congrArg IpAddr.v4 (List.Vector.toList_injective hoctets), u16ToBe_inj hport⟩
      | v6 octets' port' flowinfo' scopeId' =>
          rw [cookieInput_v4, cookieInput_v6] at hlen
          simp [u16ToBe] at hlen
  | v6 octets port flowinfo scopeId =>
      cases b with
      | v4 octets' port' =>
          rw [cookieInput_v4, cookieInput_v6] at hlen
          simp [u16ToBe] at hlen
      | v6 octets' port' flowinfo' scopeId' =>
          rw [cookieInput_v6, cookieInput_v6] at h
          obtain ⟨hoctets, hport⟩ := List.append_inj h (by simp)
          exact ⟨congrArg IpAddr.v6 (List.Vector.toList_injective hoctets), u16ToBe_inj hport⟩

/-! ### Visits -/

/-- A handshake segment and the loop that handles it. -/
structure Visit (C : Crypto) where
  loop : ReadLoop C
  arrival : Arrival

namespace Visit

/-- The loop when the guard checks: the secret is rotated if that was due. -/
def checking (v : Visit C) : ReadLoop C := v.loop.rotate v.arrival.now v.arrival.secret

/-- The secret of the check. -/
def secret (v : Visit C) : CookieSecret := v.checking.guard.secret

/-- The check rotated the secret. -/
def Rotates (v : Visit C) : Prop :=
  cookieRefreshInterval ≤ v.arrival.now.durationSince v.loop.secretRotated

/-- The cookie of the source at the time of the check. -/
def cookie (v : Visit C) : Bytes := Verifier.cookie C (cookieInput v.arrival.addr) v.secret

/-- The message carries a mac2 for that cookie. -/
def Presents (v : Visit C) : Prop :=
  v.checking.guard.verifier.verifyMac2 v.arrival.segment (cookieInput v.arrival.addr) v.secret
    = true

/-- The guard's decision. -/
def decision (X : CookieSeal C) (v : Visit C) : HandshakeDecision :=
  (v.checking.guard.check X v.arrival.now v.arrival.segment v.arrival.addr v.arrival.nonce).1

/-- With this handshake the count exceeds the allowed rate. -/
def Overloaded (v : Visit C) : Prop := (v.checking.guard.counted v.arrival.now).Loaded

/-- The guard sends a cookie reply to the source. -/
def Replies (X : CookieSeal C) (v : Visit C) : Prop := ∃ reply, v.decision X = .cookie reply

end Visit

namespace ReadLoop

/-- The handshakes a sequence of segments has the loop check. -/
def visits (ourPrivate : C.Secret) (X : CookieSeal C) (s : ReadLoop C) :
    List Arrival → List (Visit C)
  | [] => []
  | a :: arrivals =>
      if isHandshake a.segment then
        ⟨s, a⟩ :: visits ourPrivate X (s.handle ourPrivate X a).2 arrivals
      else visits ourPrivate X (s.handle ourPrivate X a).2 arrivals

end ReadLoop

/-- Ideal MACs, of the handshakes a run checks. -/
structure IdealMacs (X : CookieSeal C) (visits : List (Visit C)) : Prop where
  /-- A valid mac2 takes the cookie, and a cookie is known from a reply only. -/
  known : Justified (fun past v => v.Presents →
    ∃ v' ∈ past, v'.Replies X ∧ v'.cookie = v.cookie) visits
  /-- Cookies of different secrets or sources differ. -/
  separate : ∀ v ∈ visits, ∀ v' ∈ visits, v.cookie = v'.cookie →
    v.secret = v'.secret ∧ cookieInput v.arrival.addr = cookieInput v'.arrival.addr
  /-- A new secret is not one that was used before. -/
  unrepeated : Justified (fun past v => v.Rotates → ∀ v' ∈ past, v'.secret ≠ v.secret) visits

/-! ### The age of a secret -/

namespace ReadLoop

variable {ourPrivate : C.Secret} {X : CookieSeal C} {s : ReadLoop C} {a : Arrival}

theorem rotate_of_due {now : Instant} {secret : CookieSecret}
    (h : cookieRefreshInterval ≤ now.durationSince s.secretRotated) :
    s.rotate now secret = { guard := s.guard.rotateSecret secret, secretRotated := now } :=
  if_pos h

theorem rotate_of_not_due {now : Instant} {secret : CookieSecret}
    (h : ¬ cookieRefreshInterval ≤ now.durationSince s.secretRotated) :
    s.rotate now secret = s :=
  if_neg h

/-- After a rotation, or none, the secret is younger than the interval. -/
theorem rotate_age (s : ReadLoop C) (now : Instant) (secret : CookieSecret) :
    now.durationSince (s.rotate now secret).secretRotated < cookieRefreshInterval := by
  by_cases h : cookieRefreshInterval ≤ now.durationSince s.secretRotated
  · rw [rotate_of_due h, Duration.lt_iff, Instant.nanos_durationSince, Nat.sub_self]
    decide
  · rw [rotate_of_not_due h]
    exact not_le.mp h

/-- The clock does not go back past the rotation. -/
theorem rotate_le {now : Instant} (secret : CookieSecret) (h : s.secretRotated ≤ now) :
    (s.rotate now secret).secretRotated ≤ now := by
  unfold rotate
  split
  · exact le_rfl
  · exact h

/-- What was checked under the secret in use was checked since it came into
use. -/
def SinceRotation (s : ReadLoop C) (past : List (Visit C)) : Prop :=
  ∀ v ∈ past, v.secret = s.guard.secret → s.secretRotated ≤ v.arrival.now

/-- A rotation keeps this, since the new secret was not used before. -/
theorem SinceRotation.checking {past : List (Visit C)} {v : Visit C}
    (h : v.loop.SinceRotation past) (hnew : v.Rotates → ∀ v' ∈ past, v'.secret ≠ v.secret) :
    v.checking.SinceRotation past := by
  intro v' hv' hsecret
  by_cases hdue : v.Rotates
  · exact absurd hsecret (hnew hdue v' hv')
  · have hsame : v.checking = v.loop := rotate_of_not_due hdue
    rw [hsame] at hsecret ⊢
    exact h v' hv' hsecret

/-- The step: the handshake itself is checked at or after the rotation. -/
theorem SinceRotation.handle {past : List (Visit C)} (hsince : s.SinceRotation past)
    (h : isHandshake a.segment = true) (hclock : s.secretRotated ≤ a.now)
    (hnew : (Visit.mk s a).Rotates → ∀ v ∈ past, v.secret ≠ (Visit.mk s a).secret) :
    (s.handle ourPrivate X a).2.SinceRotation (past ++ [⟨s, a⟩]) := by
  have hchecked := SinceRotation.checking (v := ⟨s, a⟩) hsince hnew
  rw [handle_handshake ourPrivate X s h]
  intro v hv hsecret
  rcases List.mem_append.mp hv with hv | hv
  · exact hchecked v hv (hsecret.trans (LoadGuard.check_keeps _ X _ _ _ _).2)
  · obtain rfl := List.mem_singleton.mp hv
    exact rotate_le a.secret hclock

/-- A segment leaves the time of the rotation in the past. -/
theorem secretRotated_handle_le (hclock : s.secretRotated ≤ a.now) :
    (s.handle ourPrivate X a).2.secretRotated ≤ a.now := by
  cases h : isHandshake a.segment with
  | true =>
      rw [handle_handshake ourPrivate X s h]
      exact rotate_le a.secret hclock
  | false =>
      rw [handle_other ourPrivate X s h]
      exact hclock

end ReadLoop

/-! ### Runs -/

namespace ReadLoop

variable (ourPrivate : C.Secret) (X : CookieSeal C)

theorem run_concat (s : ReadLoop C) (arrivals : List Arrival) (a : Arrival) :
    s.run ourPrivate X (arrivals ++ [a])
      = ((s.run ourPrivate X arrivals).handle ourPrivate X a).2 := by
  simp only [run, List.foldl_append, List.foldl_cons, List.foldl_nil]

theorem visits_concat (s : ReadLoop C) (arrivals : List Arrival) (a : Arrival) :
    s.visits ourPrivate X (arrivals ++ [a]) = s.visits ourPrivate X arrivals
      ++ if isHandshake a.segment then [⟨s.run ourPrivate X arrivals, a⟩] else [] := by
  induction arrivals generalizing s with
  | nil => rfl
  | cons b arrivals ih =>
      simp only [List.cons_append, visits, ih]
      split <;> rfl

/-- A monotonic clock: what is drawn for each segment is not before the start
of the loop, nor before what was drawn for the segments before it. -/
def Monotonic (start : Instant) (arrivals : List Arrival) : Prop :=
  (start :: arrivals.map Arrival.now).Pairwise (· ≤ ·)

variable {ourPrivate X}

theorem Monotonic.concat {start : Instant} {arrivals : List Arrival} {a : Arrival}
    (h : Monotonic start (arrivals ++ [a])) :
    Monotonic start arrivals ∧ start ≤ a.now ∧ ∀ b ∈ arrivals, b.now ≤ a.now := by
  rw [Monotonic, List.map_append, ← List.cons_append, List.pairwise_append] at h
  obtain ⟨hbefore, -, hlast⟩ := h
  refine ⟨hbefore, hlast _ List.mem_cons_self _ (List.mem_singleton_self _), fun b hb => ?_⟩
  exact hlast _ (List.mem_cons_of_mem _ (List.mem_map_of_mem hb)) _ (List.mem_singleton_self _)

theorem secretRotated_run_le {guard : LoadGuard C} {start now : Instant} {arrivals : List Arrival}
    (hclock : Monotonic start arrivals) (hstart : start ≤ now)
    (hnow : ∀ a ∈ arrivals, a.now ≤ now) :
    (run ourPrivate X ⟨guard, start⟩ arrivals).secretRotated ≤ now := by
  induction arrivals using List.reverseRecOn generalizing now with
  | nil => exact hstart
  | append_singleton arrivals a ih =>
      obtain ⟨hbefore, hstart', hbound⟩ := hclock.concat
      rw [run_concat]
      exact (secretRotated_handle_le (ih hbefore hstart' hbound)).trans
        (hnow a (List.mem_append_right _ (List.mem_singleton_self a)))

/-- The run: every check under the secret in use came after its rotation. -/
theorem sinceRotation_run {guard : LoadGuard C} {start : Instant} {arrivals : List Arrival}
    (hclock : Monotonic start arrivals)
    (hnew : Justified (fun past v => v.Rotates → ∀ v' ∈ past, v'.secret ≠ v.secret)
      (visits ourPrivate X ⟨guard, start⟩ arrivals)) :
    (run ourPrivate X ⟨guard, start⟩ arrivals).SinceRotation
      (visits ourPrivate X ⟨guard, start⟩ arrivals) := by
  induction arrivals using List.reverseRecOn with
  | nil =>
      intro v hv
      cases hv
  | append_singleton arrivals a ih =>
      obtain ⟨hbefore, hstart, hbound⟩ := hclock.concat
      rw [visits_concat] at hnew ⊢
      rw [run_concat]
      cases h : isHandshake a.segment with
      | true =>
          rw [h, if_pos rfl] at hnew
          rw [if_pos rfl]
          obtain ⟨hpast, hlast⟩ := justified_concat.mp hnew
          exact (ih hbefore hpast).handle h (secretRotated_run_le hbefore hstart hbound) hlast
      | false =>
          rw [h, if_neg Bool.false_ne_true, List.append_nil] at hnew
          rw [if_neg Bool.false_ne_true, List.append_nil, handle_other ourPrivate X _ h]
          exact ih hbefore hnew

end ReadLoop

/-- Passing an overloaded guard takes the cookie. -/
theorem Visit.presents_of_process {X : CookieSeal C} {v : Visit C} (hload : v.Overloaded)
    (h : v.decision X = .process) : v.Presents :=
  ((LoadGuard.check_process_iff _ X _ _ _ _).mp h).2 hload

/-- The guard lets only handshakes pass. -/
theorem Visit.isHandshake_of_process {X : CookieSeal C} {v : Visit C}
    (h : v.decision X = .process) : isHandshake v.arrival.segment = true :=
  ((LoadGuard.check_process_iff _ X _ _ _ _).mp h).1.1

theorem ReadLoop.arrival_mem_of_visit {ourPrivate : C.Secret} {X : CookieSeal C} {s : ReadLoop C}
    {arrivals : List Arrival} {v : Visit C} (h : v ∈ s.visits ourPrivate X arrivals) :
    v.arrival ∈ arrivals := by
  induction arrivals generalizing s with
  | nil => cases h
  | cons a arrivals ih =>
      rw [visits] at h
      split at h
      · rcases List.mem_cons.mp h with rfl | h
        · exact List.mem_cons_self
        · exact List.mem_cons_of_mem _ (ih h)
      · exact List.mem_cons_of_mem _ (ih h)

/-- **Cookies are fresh and bound to an address.**  Different addresses or
ports have different cookie inputs.  Under ideal MACs and a monotonic clock,
when a handshake passes while more handshakes than allowed have arrived, a
cookie reply went to exactly its address and port less than the refresh
interval before. -/
theorem cookie_fresh_and_bound (ourPrivate : C.Secret) (X : CookieSeal C) (guard : LoadGuard C)
    (start : Instant) (before : List Arrival) (a : Arrival)
    (hclock : ReadLoop.Monotonic start (before ++ [a]))
    (hideal : IdealMacs X (ReadLoop.visits ourPrivate X ⟨guard, start⟩ (before ++ [a]))) :
    (∀ b b' : SocketAddr, cookieInput b = cookieInput b' → b.ip = b'.ip ∧ b.port = b'.port) ∧
      ((Visit.mk (ReadLoop.run ourPrivate X ⟨guard, start⟩ before) a).Overloaded →
        (Visit.mk (ReadLoop.run ourPrivate X ⟨guard, start⟩ before) a).decision X = .process →
        ∃ v ∈ ReadLoop.visits ourPrivate X ⟨guard, start⟩ before, v.Replies X ∧
          v.arrival.addr.ip = a.addr.ip ∧ v.arrival.addr.port = a.addr.port ∧
          v.arrival.now ≤ a.now ∧ a.now.durationSince v.arrival.now < cookieRefreshInterval) := by
  refine ⟨fun b b' => cookieInput_inj, fun hload hprocess => ?_⟩
  have hhandshake := Visit.isHandshake_of_process hprocess
  obtain ⟨hbefore, -, hbound⟩ := hclock.concat
  rw [ReadLoop.visits_concat, if_pos hhandshake] at hideal
  obtain ⟨hpast, hnew⟩ := justified_concat.mp hideal.unrepeated
  have hsince := (ReadLoop.sinceRotation_run hbefore hpast).checking hnew
  -- the cookie was carried by a reply to the same source, under the same secret
  obtain ⟨v, hv, hreplies, hcookie⟩ :=
    (justified_concat.mp hideal.known).2 (Visit.presents_of_process hload hprocess)
  obtain ⟨hsecret, hinput⟩ := hideal.separate v (List.mem_append_left _ hv) _
    (List.mem_append_right _ (List.mem_singleton_self _)) hcookie
  obtain ⟨hip, hport⟩ := cookieInput_inj hinput
  refine ⟨v, hv, hreplies, hip, hport, hbound _ (ReadLoop.arrival_mem_of_visit hv), ?_⟩
  -- which is younger than the interval
  have hage : a.now.durationSince v.arrival.now
      ≤ a.now.durationSince ((ReadLoop.run ourPrivate X ⟨guard, start⟩ before).rotate a.now
        a.secret).secretRotated :=
    Nat.sub_le_sub_left (Instant.le_iff.mp (hsince v hv hsecret)) _
  exact hage.trans_lt (ReadLoop.rotate_age _ _ _)

/-! ### A run with a challenge -/

namespace ReadLoop

/-- An initiation of zeros with the mark for mac1, and the given mac2. -/
def markedMessage (mac2 : UInt8) : Bytes :=
  [MessageType.handshakeInit.toByte] ++ List.replicate 115 0 ++ List.replicate macSize 1
    ++ List.replicate macSize mac2

/-- Its arrival, some seconds into the run. -/
def markedArrival (mac2 : UInt8) (seconds : ℕ) : Arrival :=
  ⟨markedMessage mac2, Peer.markedSource, ⟨Duration.fromSecs seconds⟩,
    List.Vector.replicate 32 9, List.Vector.replicate 24 7⟩

def markedSecret : Peer.marked.Secret := (1 : UInt8)

/-- The loop when it starts, with a guard that demands a cookie always. -/
def markedLoop : ReadLoop Peer.marked := ⟨Peer.markedGuard, default⟩

/-- The first message comes without a cookie. -/
def firstVisit : Visit Peer.marked := ⟨markedLoop, markedArrival 0 0⟩

/-- The second one comes with it, a minute later. -/
def secondVisit : Visit Peer.marked :=
  ⟨markedLoop.run markedSecret Peer.markedSeal [markedArrival 0 0], markedArrival 1 60⟩

theorem visits_marked : markedLoop.visits markedSecret Peer.markedSeal
    ([markedArrival 0 0] ++ [markedArrival 1 60]) = [firstVisit] ++ [secondVisit] := by
  have hhandshake : ∀ mac2 seconds, isHandshake (markedArrival mac2 seconds).segment = true :=
    fun _ _ => rfl
  rw [visits_concat, if_pos (hhandshake 1 60), visits, if_pos (hhandshake 0 0)]
  rfl

theorem firstVisit_replies : firstVisit.Replies Peer.markedSeal := by
  have h : Peer.challenges (firstVisit.decision Peer.markedSeal) = true := by decide +kernel
  cases hdecision : firstVisit.decision Peer.markedSeal with
  | process => rw [hdecision] at h; cases h
  | drop => rw [hdecision] at h; cases h
  | cookie reply => exact ⟨reply, hdecision⟩

theorem firstVisit_not_presents : ¬ firstVisit.Presents := by
  rw [Visit.Presents]
  decide +kernel

theorem secondVisit_not_rotates : ¬ secondVisit.Rotates := by
  rw [Visit.Rotates]
  decide +kernel

theorem secret_secondVisit : secondVisit.secret = firstVisit.secret := by
  decide +kernel

theorem idealMacs_marked : IdealMacs Peer.markedSeal ([firstVisit] ++ [secondVisit]) where
  known := by
    rw [← List.nil_append [firstVisit], justified_concat, justified_concat]
    refine ⟨⟨justified_nil, fun h => absurd h firstVisit_not_presents⟩, fun _ => ?_⟩
    refine ⟨firstVisit, List.mem_singleton_self _, firstVisit_replies, ?_⟩
    rw [Visit.cookie, Visit.cookie, secret_secondVisit]
    rfl
  separate := by
    have hall : ∀ v ∈ [firstVisit] ++ [secondVisit],
        v.secret = firstVisit.secret ∧ v.arrival.addr = Peer.markedSource := by
      intro v hv
      rcases List.mem_append.mp hv with hv | hv
      · obtain rfl := List.mem_singleton.mp hv
        exact ⟨rfl, rfl⟩
      · obtain rfl := List.mem_singleton.mp hv
        exact ⟨secret_secondVisit, rfl⟩
    intro v hv v' hv' _
    rw [(hall v hv).1, (hall v' hv').1, (hall v hv).2, (hall v' hv').2]
    exact ⟨rfl, rfl⟩
  unrepeated := by
    rw [← List.nil_append [firstVisit], justified_concat, justified_concat]
    refine ⟨⟨justified_nil, fun _ v hv => ?_⟩, fun h => absurd h secondVisit_not_rotates⟩
    cases hv

/-- The second message passes an overloaded guard, after a reply to its
source. -/
theorem cookie_fresh_and_bound_marked : ∃ v ∈ markedLoop.visits markedSecret Peer.markedSeal
    [markedArrival 0 0], v.Replies Peer.markedSeal ∧
      v.arrival.addr.ip = Peer.markedSource.ip ∧ v.arrival.addr.port = Peer.markedSource.port ∧
      v.arrival.now ≤ (markedArrival 1 60).now ∧
      (markedArrival 1 60).now.durationSince v.arrival.now < cookieRefreshInterval := by
  have hclock : Monotonic default ([markedArrival 0 0] ++ [markedArrival 1 60]) := by
    simp only [Monotonic]
    decide +kernel
  have hload : secondVisit.Overloaded := by
    rw [Visit.Overloaded, LoadGuard.Loaded]
    decide +kernel
  have hprocess : secondVisit.decision Peer.markedSeal = .process := by decide +kernel
  exact (cookie_fresh_and_bound markedSecret Peer.markedSeal Peer.markedGuard default
    [markedArrival 0 0] (markedArrival 1 60) hclock
    (visits_marked.symm ▸ idealMacs_marked)).2 hload hprocess

end ReadLoop

end Tunstile
