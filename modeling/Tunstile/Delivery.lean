/-
Tunstile/Delivery.lean

The two guarantees of a tunnel between two peers, for every run from two
new peers under ideal cryptography:

* what `decrypt` returns on one side was passed to `encrypt` on the other
  side before, and is returned once (`authentic_once`);
* the keys of a send session are known to the other side, because a session
  becomes the send session only by an accepted response to the pending
  initiation, or by a data packet of the other side on it
  (`key_confirmation`).

Both need the two sides to have different static keys.  With equal ones the
network can send a side its own packets back, and that side then takes
itself for the other (`own_payload_returned`, `unshared_send_session`).
-/
import Tunstile.TwoParty
import Tunstile.Exchange
import Mathlib.Data.List.Induction

namespace Tunstile

variable {C : Crypto}

/-! ### Authenticity and at-most-once delivery -/

/-- A successful `encrypt` or `decrypt` with the key and counter it used. -/
def Entry.used : Side × Entry C → Option (Event × C.Hash256 × UInt64)
  | (s, .call (.send t payload)) => some (.encrypted s payload, t.sendAead, t.sendCounter)
  | (s, .delivered k counter payload) => some (.decrypted s payload, k, counter)
  | _ => none

theorem event_eq_used (x : Side × Entry C) : x.2.event x.1 = (Entry.used x).map Prod.fst := by
  rcases x with ⟨s, entry⟩
  cases entry with
  | call call => cases call <;> rfl
  | answered => rfl
  | delivered => rfl

/-- The payload an event put on a key and counter for the other side. -/
def produced : Event × C.Hash256 × UInt64 → Option (Side × Bytes × C.Hash256 × UInt64)
  | (.encrypted s payload, used) => some (s, payload, used)
  | (.decrypted _ _, _) => none

/-- The payload an event took from the other side. -/
def consumed : Event × C.Hash256 × UInt64 → Option (Side × Bytes × C.Hash256 × UInt64)
  | (.encrypted _ _, _) => none
  | (.decrypted s payload, used) => some (s.other, payload, used)

/-- Every payload taken was put there before, and not taken before. -/
theorem justified_used {key : Side → C.Secret} {log : List (Side × Entry C)}
    (h : Justified (Grounded key) log) :
    Justified (fun pre x => ∀ k, consumed x = some k →
      (∃ y ∈ pre, produced y = some k) ∧ ∀ y ∈ pre, consumed y ≠ some k)
      (log.filterMap Entry.used) := by
  refine h.filterMap ?_
  rintro pre ⟨s, entry⟩ y hok hy k hk
  cases entry with
  | call call =>
      cases call with
      | initiate => cases hy
      | respond => cases hy
      | send => cases hy; cases hk
  | answered => cases hy
  | delivered dkey counter payload =>
      cases hy
      cases hk
      obtain ⟨-, hfirst, t, hmem, rfl, rfl⟩ := hok
      refine ⟨⟨_, List.mem_filterMap.mpr ⟨_, hmem, rfl⟩, rfl⟩, ?_⟩
      intro z hz hcons
      obtain ⟨⟨s', entry'⟩, hmem', hz'⟩ := List.mem_filterMap.mp hz
      cases entry' with
      | call call =>
          cases call with
          | initiate => cases hz'
          | respond => cases hz'
          | send => cases hz'; cases hcons
      | answered => cases hz'
      | delivered dkey' counter' payload' =>
          cases hz'
          obtain ⟨hs, rfl, rfl, rfl⟩ : s'.other = s.other ∧ payload' = payload ∧
              dkey' = t.sendAead ∧ counter' = t.sendCounter := by
            simpa [consumed] using hcons
          have hside : s' = s := by rw [← Side.other_other s', hs, Side.other_other]
          exact hfirst payload' (hside ▸ hmem')

namespace World

/-- **End-to-end authenticity and at-most-once delivery.**  Take two peers
with different static keys, each created with the other's public key, and
any interleaving of their operations with any arguments whatever.  Every
payload that `decrypt` returned on one side can be traced to an earlier
successful `encrypt` of that payload on the other side, and no two of them
to the same one. -/
theorem authentic_once (hC : C.CollisionFree) (key : Side → C.Secret)
    (hkey : C.publicKey (key .a) ≠ C.publicKey (key .b)) (actions : List (Side × Action C))
    (hideal : (start key).IdealRun key actions) :
    ∃ source : ℕ → ℕ,
      (∀ n s payload, ((start key).run key actions).events[n]? = some (.decrypted s payload) →
        source n < n ∧ ((start key).run key actions).events[source n]?
          = some (.encrypted s.other payload)) ∧
      (∀ n n' s s' payload payload',
        ((start key).run key actions).events[n]? = some (.decrypted s payload) →
        ((start key).run key actions).events[n']? = some (.decrypted s' payload') →
        source n = source n' → n = n') := by
  have hw := sound_run hC hkey (sound_start key) hideal
  have hevents : ((start key).run key actions).events
      = (((start key).run key actions).log.filterMap Entry.used).map Prod.fst := by
    rw [hw.events, List.map_filterMap]
    exact congrArg (List.filterMap · _) (funext event_eq_used)
  have hused := justified_used hw.log
  rw [hevents]
  generalize ((start key).run key actions).log.filterMap Entry.used = used at hused
  obtain ⟨source, hsource, hinj⟩ := exists_source hused
  have hevent : ∀ {n : ℕ} {event : Event}, (used.map Prod.fst)[n]? = some event →
      ∃ tag, used[n]? = some (event, tag) := by
    intro n event h
    rw [List.getElem?_map, Option.map_eq_some_iff] at h
    obtain ⟨⟨event, tag⟩, hx, rfl⟩ := h
    exact ⟨tag, hx⟩
  refine ⟨source, ?_, ?_⟩
  · intro n s payload h
    obtain ⟨tag, hx⟩ := hevent h
    obtain ⟨hlt, ⟨event, tag'⟩, hy, hprod⟩ := hsource n _ _ hx rfl
    refine ⟨hlt, ?_⟩
    rw [List.getElem?_map, hy]
    cases event with
    | encrypted s' payload' => cases hprod; rfl
    | decrypted => cases hprod
  · intro n n' s s' payload payload' h h' hsame
    obtain ⟨tag, hx⟩ := hevent h
    obtain ⟨tag', hx'⟩ := hevent h'
    exact hinj n n' _ _ _ _ hx rfl hx' rfl hsame

/-- An honest exchange is such a run: its payload comes from the `encrypt`
before it. -/
theorem authentic_once_symbolic : ∃ actions,
    ((start symbolicKey).run symbolicKey actions).events
      = [.encrypted .a [7, 7], .decrypted .b [7, 7]] ∧
    ∃ source : ℕ → ℕ, source 1 < 1 ∧
      ((start symbolicKey).run symbolicKey actions).events[source 1]?
        = some (.encrypted .a [7, 7]) := by
  obtain ⟨initMsg, respMsg, dataMsg, w, hideal, rfl, hev, -⟩ :=
    exists_exchange Crypto.symbolic_correct (3 : UInt8) (4 : UInt8)
      (0 : Fin (2 ^ 64)) default (.v4 (List.Vector.replicate 4 0) 0) [7, 7] answers_symbolicKey (by decide)
      rfl rfl rfl
  obtain ⟨source, hsource, -⟩ := authentic_once Crypto.symbolic_collisionFree symbolicKey
    (by decide) _ hideal
  refine ⟨_, hev, source, hsource 1 .b [7, 7] ?_⟩
  rw [hev]
  rfl

/-- Two sides of `symbolic` that were given the same key. -/
def sharedKey (_ : Side) : Crypto.symbolic.Secret := (1 : UInt8)

theorem answers_sharedKey (r : Side) : Answers sharedKey r := ⟨rfl, rfl⟩

/-- With equal static keys a payload can come back to the side that sent it:
the network returns side `a` its initiation, then its response, then its
data packet, and `decrypt` on side `a` returns what only side `a`
encrypted. -/
theorem own_payload_returned :
    Crypto.symbolic.publicKey (sharedKey .a) = Crypto.symbolic.publicKey (sharedKey .b) ∧
    ∃ actions, (start sharedKey).IdealRun sharedKey actions ∧
      .decrypted .a [7, 7] ∈ ((start sharedKey).run sharedKey actions).events ∧
      .encrypted .b [7, 7] ∉ ((start sharedKey).run sharedKey actions).events := by
  obtain ⟨initMsg, respMsg, dataMsg, w, hideal, rfl, hev, -⟩ :=
    exists_exchange Crypto.symbolic_correct (3 : UInt8) (4 : UInt8) (0 : Fin (2 ^ 64)) default
      (.v4 (List.Vector.replicate 4 0) 0) [7, 7] (answers_sharedKey .a) (by decide) rfl rfl rfl
  refine ⟨rfl, _, hideal, ?_⟩
  rw [hev]
  decide

/-! ### Key confirmation -/

/-- A completed handshake leaves a session with its keys. -/
theorem Change.installs {ourKey : C.Secret} {w : World C} {drawn : List PublicKey}
    {p p' : Peer C} {entries : List (Entry C)} (h : Change ourKey w drawn p p' entries)
    {entry : Entry C} {r : Role} {c : C.Hash256} (hmem : entry ∈ entries)
    (hd : entry.derives = some (r, c)) : ∃ k y, p'.slot k = some y ∧ y.HasKeys r c := by
  cases h with
  | quiet => cases hmem
  | initiated => cases List.mem_singleton.mp hmem; cases hd
  | responded packet st e hfresh hdrawn hrecv hinit hrot x hnew hreplay hkeys =>
      cases List.mem_singleton.mp hmem
      cases hd
      exact ⟨.next, x, hnew, hkeys⟩
  | answered q packet hpending hresp hrot x hnew hreplay hkeys =>
      cases List.mem_singleton.mp hmem
      cases hd
      exact ⟨.current, x, hnew, hkeys⟩
  | sent => cases List.mem_singleton.mp hmem; cases hd
  | delivered => cases List.mem_singleton.mp hmem; cases hd

/-- A side that completed a handshake held a session with its keys. -/
theorem exists_held (hC : C.CollisionFree) {key : Side → C.Secret}
    (hkey : C.publicKey (key .a) ≠ C.publicKey (key .b)) {actions : List (Side × Action C)}
    (hideal : (start key).IdealRun key actions) {s : Side} {r : Role} {c : C.Hash256}
    (h : Derived ((start key).run key actions).log s r c) :
    ∃ pre post, actions = pre ++ post ∧
      ∃ k y, (((start key).run key pre).peer s).slot k = some y ∧ y.HasKeys r c := by
  induction actions using List.reverseRecOn with
  | nil =>
      obtain ⟨entry, hmem, -⟩ := h
      cases hmem
  | append_singleton actions x ih =>
      obtain ⟨hbefore, hnow, -⟩ := idealRun_append.mp hideal
      have hw := sound_run hC hkey (sound_start key) hbefore
      obtain ⟨p', entries, hchange, -, -, hstep⟩ := step_change hC (hw.wellFormed x.1) hnow
      have hrun : (start key).run key (actions ++ [x])
          = ((start key).run key actions).step key x.1 x.2 := run_append _ _ _
      obtain ⟨entry, hmem, hd⟩ := h
      rw [hrun, hstep] at hmem
      rcases List.mem_append.mp hmem with hmem | hmem
      · obtain ⟨pre, post, rfl, hheld⟩ := ih hbefore ⟨entry, hmem, hd⟩
        exact ⟨pre, post ++ [x], List.append_assoc _ _ _, hheld⟩
      · obtain ⟨entry', hentry, heq⟩ := List.mem_map.mp hmem
        cases heq
        obtain ⟨k, y, hy, hkeys⟩ := hchange.installs hentry hd
        refine ⟨actions ++ [x], [], (List.append_nil _).symm, k, y, ?_, hkeys⟩
        rw [hrun, hstep]
        simp only [Function.update_self]
        exact hy

/-- How `x'` comes to be the send session of side `s` by action `a`. -/
inductive Sends (key : Side → C.Secret) (w : World C) (s : Side) (x' : Session C) :
    Action C → Prop where
  /-- It was the send session before. -/
  | kept {a : Action C} (x : Session C) (hcurrent : (w.peer s).current = some x)
      (hkeys : x'.transport.sendAead = x.transport.sendAead ∧
        x'.transport.recvAead = x.transport.recvAead) : Sends key w s x' a
  /-- It was installed by a respond, and a data packet of the other side
  opened under its receive key. -/
  | confirmed {now : Instant} {receiver : UInt32} {packet : Bytes} {source : SocketAddr}
      (x : Session C) (counter : UInt64) (payload : Bytes) (hnext : (w.peer s).next = some x)
      (hkeys : x'.transport.sendAead = x.transport.sendAead ∧
        x'.transport.recvAead = x.transport.recvAead)
      (hauth : x.transport.Authentic packet counter payload)
      (hsent : .encrypted s.other payload ∈ w.events) :
      Sends key w s x' (.decrypt now receiver packet source)
  /-- A response was accepted for the pending initiation. -/
  | answered {now : Instant} {packet : Bytes} {source : SocketAddr} (q : PendingHandshake C)
      (est : InitiatorEstablished C) (hpending : (w.peer s).pending = some q)
      (haccept : q.state.responseReceived (key s) (w.peer s).presharedKey packet = .ok est)
      (hnew : x' = Session.new est.finish now) :
      Sends key w s x' (.handshakeResponse now packet source)

/-- A call that leaves `current` alone leaves the send session alone. -/
theorem Sends.of_current_eq {key : Side → C.Secret} {w : World C} {s : Side} {x' : Session C}
    {a : Action C} {p' : Peer C} (h : p'.current = (w.peer s).current)
    (hx' : p'.current = some x') : Sends key w s x' a :=
  .kept x' (h.symm.trans hx') ⟨rfl, rfl⟩

/-- **How a session becomes the send session.** -/
theorem sends_of_effect (hC : C.CollisionFree) {key : Side → C.Secret} {w : World C}
    (hw : w.Sound key) {s : Side} {a : Action C} (hi : w.Ideal key s a) {op : Peer.Op C}
    (hop : a.op (key s) (w.peer s).peerKey = some op) {o : Peer.Outcome} {p' : Peer C}
    (h : (w.peer s).Effect op o p') {x' : Session C} (hx' : p'.current = some x') :
    Sends key w s x' a := by
  cases h with
  | failed | initiated | abandoned | responded | cookieStored | endpointSet | presharedKeySet =>
      exact .of_current_eq rfl hx'
  | encrypted x hend hcur =>
      cases hx'
      exact .kept x hcur ⟨rfl, rfl⟩
  | received k x counter payload replay hk hslot =>
      cases k with
      | next => exact absurd rfl hk
      | current => cases hx'; exact .kept x hslot ⟨rfl, rfl⟩
      | previous => exact .of_current_eq rfl hx'
  | answered q est hpending hansw =>
      cases hx'
      cases a with
      | handshakeResponse now packet source =>
          cases hop
          exact .answered q est hpending (InitSent.responseReceived_ok_iff.mpr hansw) rfl
      | respond now packet values source out =>
          simp only [Action.op] at hop
          split at hop
          · cases hop
          · split at hop <;> cases hop
      | _ => cases hop
  | confirmed x counter payload replay hnext hlive hauth hreplay hmatch =>
      cases hx'
      cases a with
      | decrypt now receiver packet source =>
          cases hop
          obtain ⟨⟨t, hmem, -⟩, -⟩ :=
            hw.sent_by_other hC (k := .next) hnext (exists_send hC hauth (hi .next x hmatch))
          refine .confirmed x counter payload hnext ⟨rfl, rfl⟩ hauth ?_
          rw [hw.events]
          exact List.mem_filterMap.mpr ⟨_, hmem, rfl⟩
      | respond now packet values source out =>
          simp only [Action.op] at hop
          split at hop
          · cases hop
          · split at hop <;> cases hop
      | _ => cases hop

/-- **Key confirmation before sending.**  Whenever a side has a send
session, the other side has held a session with the same keys the other way
round; and a session becomes the send session only when a data packet of the
other side opens on it, or when a response is accepted for the pending
initiation. -/
theorem key_confirmation (hC : C.CollisionFree) (key : Side → C.Secret)
    (hkey : C.publicKey (key .a) ≠ C.publicKey (key .b)) (actions : List (Side × Action C))
    (hideal : (start key).IdealRun key actions) :
    (∀ s x, (((start key).run key actions).peer s).current = some x →
      ∃ pre post, actions = pre ++ post ∧
        ∃ k y, (((start key).run key pre).peer s.other).slot k = some y ∧
          y.transport.sendAead = x.transport.recvAead ∧
          y.transport.recvAead = x.transport.sendAead) ∧
    (∀ s a, ((start key).run key actions).Ideal key s a → ∀ x',
      ((((start key).run key actions).step key s a).peer s).current = some x' →
        Sends key ((start key).run key actions) s x' a) ∧
    (∀ s a, ((((start key).run key actions).step key s a).peer s.other)
      = ((start key).run key actions).peer s.other) := by
  have hw := sound_run hC hkey (sound_start key) hideal
  refine ⟨?_, ?_, ?_⟩
  · intro s x hx
    obtain ⟨r, c, -, hkeys, hother⟩ := (hw.held s).derived (k := .current) hx
    obtain ⟨pre, post, hsplit, k, y, hy, hkeys'⟩ := exists_held hC hkey hideal (hother nofun)
    refine ⟨pre, post, hsplit, k, y, hy, ?_, ?_⟩
    · rw [hkeys'.send_eq, hkeys.recv_eq]
    · rw [hkeys'.recv_eq, hkeys.send_eq, Role.opposite_opposite]
  · intro s a hi x' hx'
    cases hop : a.op (key s) (((start key).run key actions).peer s).peerKey with
    | none =>
        rw [step, hop] at hx'
        exact .kept x' hx' ⟨rfl, rfl⟩
    | some op =>
        have heff := (((start key).run key actions).peer s).step_effect (hw.wellFormed s) op
        rw [step_peer_self hop] at hx'
        exact sends_of_effect hC hw hi hop heff hx'
  · exact fun s a => step_peer_other key _ s a

/-- After an honest exchange both sides have a send session, and each has
held the other's keys. -/
theorem key_confirmation_symbolic : ∃ actions,
    ∀ s, ∃ x, (((start symbolicKey).run symbolicKey actions).peer s).current = some x ∧
      ∃ pre post, actions = pre ++ post ∧
        ∃ k y, (((start symbolicKey).run symbolicKey pre).peer s.other).slot k = some y ∧
          y.transport.sendAead = x.transport.recvAead ∧
          y.transport.recvAead = x.transport.sendAead := by
  obtain ⟨actions, hideal, hcurrent⟩ : ∃ actions, (start symbolicKey).IdealRun symbolicKey actions ∧
      ∀ s, (((start symbolicKey).run symbolicKey actions).peer s).current.isSome = true := by
    obtain ⟨initMsg, respMsg, dataMsg, w, hideal, rfl, -, hcurrent, -⟩ :=
      exists_exchange Crypto.symbolic_correct (3 : UInt8) (4 : UInt8) (0 : Fin (2 ^ 64)) default
        (.v4 (List.Vector.replicate 4 0) 0) [7, 7] answers_symbolicKey (by decide) rfl rfl rfl
    exact ⟨_, hideal, fun s => hcurrent s (by cases s <;> decide)⟩
  refine ⟨actions, fun s => ?_⟩
  obtain ⟨x, hx⟩ := Option.isSome_iff_exists.mp (hcurrent s)
  exact ⟨x, hx, (key_confirmation Crypto.symbolic_collisionFree symbolicKey (by decide) _
    hideal).1 s x hx⟩

/-- What one side does leaves the other alone. -/
theorem run_peer_other {key : Side → C.Secret} {s : Side} (w : World C)
    {actions : List (Side × Action C)} (h : ∀ x ∈ actions, x.1 = s) :
    (w.run key actions).peer s.other = w.peer s.other := by
  induction actions generalizing w with
  | nil => rfl
  | cons x actions ih =>
      obtain rfl : x.1 = s := h x List.mem_cons_self
      have hrest := ih (w.step key x.1 x.2) fun y hy => h y (List.mem_cons_of_mem _ hy)
      exact hrest.trans (step_peer_other key w x.1 x.2)

/-- With equal static keys a side can have a send session of which the other
side never had the keys: the network returns side `a` its initiation and
then its response, and side `b` never did anything. -/
theorem unshared_send_session :
    Crypto.symbolic.publicKey (sharedKey .a) = Crypto.symbolic.publicKey (sharedKey .b) ∧
    ∃ actions x, (start sharedKey).IdealRun sharedKey actions ∧
      (((start sharedKey).run sharedKey actions).peer .a).current = some x ∧
      ∀ pre post, actions = pre ++ post → ∀ k,
        (((start sharedKey).run sharedKey pre).peer .b).slot k = none := by
  obtain ⟨initMsg, respMsg, c, w, hideal, rfl, -, hcurrent, -⟩ :=
    exists_handshake Crypto.symbolic_correct (3 : UInt8) (4 : UInt8) (0 : Fin (2 ^ 64)) default
      (.v4 (List.Vector.replicate 4 0) 0) (answers_sharedKey .a) (by decide) rfl rfl rfl
  refine ⟨rfl, _, _, hideal, hcurrent, ?_⟩
  intro pre post hsplit k
  have hside : ∀ y ∈ pre, y.1 = .a := by
    intro y hy
    have hmem := hsplit ▸ List.mem_append_left post hy
    simp only [handshake, List.mem_cons, List.not_mem_nil, or_false] at hmem
    rcases hmem with rfl | rfl | rfl <;> rfl
  have hpeer : ((start sharedKey).run sharedKey pre).peer .b = (start sharedKey).peer .b :=
    run_peer_other _ hside
  rw [hpeer]
  cases k <;> rfl

end World

end Tunstile
