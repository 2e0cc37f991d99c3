/-
Tunstile/World.lean

Two peers and the network between them.

Each side runs one `Peer`, created with the other's public key.  The network
is not a component: every argument of every action is arbitrary, so packets
may be dropped, duplicated, reordered, replayed or made up.  What the sides
did is kept in a log that no operation reads:

* `call` — a successful call that sealed something (`Soundness.lean`);
* `answered` — a response accepted for the pending initiation;
* `delivered` — a data packet accepted under a receive key.

`Ideal` is the assumption on cryptography, one action at a time: ephemeral
keys are fresh, and an AEAD field opens only if some logged call sealed it.
`step_change` lists what an action can do to the acting peer and the log;
the theorems about runs are in `TwoParty.lean`.
-/
import Tunstile.Soundness
import Tunstile.Peer
import Mathlib.Logic.Function.Basic

namespace Tunstile

variable {C : Crypto}

inductive Side where
  | a
  | b
  deriving DecidableEq

namespace Side

def other : Side → Side
  | a => b
  | b => a

@[simp] theorem other_other (s : Side) : s.other.other = s := by cases s <;> rfl

theorem other_ne (s : Side) : s.other ≠ s := by cases s <;> nofun

end Side

/-- What one side can be made to do.  An initiation arrives as a packet. -/
inductive Action (C : Crypto) where
  | initiate (values : HandshakeValues C) (out : Bytes)
  | abandonHandshake
  | respond (now : Instant) (packet : Bytes) (values : HandshakeValues C) (source : SocketAddr)
      (out : Bytes)
  | handshakeResponse (now : Instant) (packet : Bytes) (source : SocketAddr)
  | cookieReply (reply : Bytes) (timestamp : C.Tai64N)
  | setEndpoint (endpoint : SocketAddr)
  | setPresharedKey (presharedKey : Option PresharedKey)
  | encrypt (now : Instant) (payload out : Bytes)
  | decrypt (now : Instant) (receiver : UInt32) (packet : Bytes) (source : SocketAddr)

/-- The proof-only record of what a side did. -/
inductive Entry (C : Crypto) where
  | call (call : Call C)
  | answered (state : InitSent C) (ourPrivate : C.Secret) (presharedKey : Option PresharedKey)
      (packet : Bytes)
  | delivered (key : C.Hash256) (counter : UInt64) (payload : Bytes)

/-- A successful `encrypt` or `decrypt`, as its caller sees it. -/
inductive Event where
  | encrypted (side : Side) (payload : Bytes)
  | decrypted (side : Side) (payload : Bytes)
  deriving DecidableEq

namespace Action

/-- The call an action makes.  An initiation is parsed by `receive` and
handed only to the peer whose key it carries. -/
def op (ourKey : C.Secret) (peerKey : PublicKey) : Action C → Option (Peer.Op C)
  | .initiate values out => some (.initiate ourKey values out)
  | .abandonHandshake => some .abandonHandshake
  | .respond now packet values source out =>
      match InitReceived.receive ourKey packet with
      | .error _ => none
      | .ok handshake =>
          if handshake.peerPublic = peerKey then some (.respond now handshake values source out)
          else none
  | .handshakeResponse now packet source => some (.handshakeResponse ourKey now packet source)
  | .cookieReply reply timestamp => some (.cookieReply reply timestamp)
  | .setEndpoint endpoint => some (.setEndpoint endpoint)
  | .setPresharedKey presharedKey => some (.setPresharedKey presharedKey)
  | .encrypt now payload out => some (.encrypt now payload out)
  | .decrypt now receiver packet source => some (.decrypt now receiver packet source)

/-- The ephemeral keys an action draws, whether or not it succeeds. -/
def drawn : Action C → List PublicKey
  | .initiate values _ => [C.publicKey values.ephemeralSecret]
  | .respond _ _ values _ _ => [C.publicKey values.ephemeralSecret]
  | _ => []

/-- What the caller sees: the payload it passed, or the one it got. -/
def observe (s : Side) : Action C → Peer.Outcome → List Event
  | .encrypt _ payload _, .encrypted _ _ => [.encrypted s payload]
  | .decrypt _ _ _ _, .decrypted recv packet => [.decrypted s (packet.take recv.payloadLen)]
  | _, _ => []

/-- What the log keeps of a call with outcome `o`, made in state `p`. -/
def record (ourKey : C.Secret) (p : Peer C) : Action C → Peer.Outcome → List (Entry C)
  | .initiate values _, .written _ _ =>
      [.call (.initiate ourKey p.peerKey values.ephemeralSecret values.timestamp)]
  | .respond _ packet values _ _, .written _ _ =>
      match InitReceived.receive ourKey packet with
      | .error _ => []
      | .ok handshake =>
          [.call (.respond ourKey packet handshake values.ephemeralSecret p.presharedKey)]
  | .handshakeResponse _ packet _, .rotated _ =>
      match p.pending with
      | none => []
      | some pending => [.answered pending.state ourKey p.presharedKey packet]
  | .encrypt _ payload _, .encrypted _ _ =>
      match p.current with
      | none => []
      | some session => [.call (.send session.transport payload)]
  | .decrypt _ receiver packet _, .decrypted recv packet' =>
      match p.matching receiver with
      | none => []
      | some (_, session) =>
          [.delivered session.transport.recvAead (u64FromLe (slice packet dataCounter))
            (packet'.take recv.payloadLen)]
  | _, _ => []

end Action

structure World (C : Crypto) where
  peer : Side → Peer C
  /-- Every ephemeral key drawn so far. -/
  used : List PublicKey
  /-- The proof-only record, oldest entry first. -/
  log : List (Side × Entry C)
  events : List Event

namespace World

variable (key : Side → C.Secret)

/-- Each side knows the other's public key and nothing else. -/
def start : World C where
  peer s := Peer.new C (C.publicKey (key s.other))
  used := []
  log := []
  events := []

def step (w : World C) (s : Side) (a : Action C) : World C :=
  match a.op (key s) (w.peer s).peerKey with
  | none => { w with used := w.used ++ a.drawn }
  | some op =>
      let (o, p) := (w.peer s).step op
      { peer := Function.update w.peer s p
        used := w.used ++ a.drawn
        log := w.log ++ (a.record (key s) (w.peer s) o).map (s, ·)
        events := w.events ++ a.observe s o }

variable {key} in
theorem step_eq {w : World C} {s : Side} {a : Action C} {op : Peer.Op C} {o : Peer.Outcome}
    {p' : Peer C} (hop : a.op (key s) (w.peer s).peerKey = some op)
    (hstep : (w.peer s).step op = (o, p')) :
    w.step key s a =
      { peer := Function.update w.peer s p'
        used := w.used ++ a.drawn
        log := w.log ++ (a.record (key s) (w.peer s) o).map (s, ·)
        events := w.events ++ a.observe s o } := by
  simp only [step, hop, hstep]

variable {key} in
theorem step_peer_self {w : World C} {s : Side} {a : Action C} {op : Peer.Op C}
    (hop : a.op (key s) (w.peer s).peerKey = some op) :
    (w.step key s a).peer s = ((w.peer s).step op).2 := by
  simp only [step, hop, Function.update_self]

theorem step_peer_other (w : World C) (s : Side) (a : Action C) :
    (w.step key s a).peer s.other = w.peer s.other := by
  cases hop : a.op (key s) (w.peer s).peerKey with
  | none => simp only [step, hop]
  | some op => simp only [step, hop, Function.update_of_ne s.other_ne]

def run (w : World C) (actions : List (Side × Action C)) : World C :=
  actions.foldl (fun w x => w.step key x.1 x.2) w

/-- The logged calls of both sides. -/
def past (w : World C) : List (Call C) :=
  w.log.filterMap fun x => match x.2 with
    | .call call => some call
    | _ => none

theorem mem_past {w : World C} {call : Call C} :
    call ∈ w.past ↔ ∃ s, (s, Entry.call call) ∈ w.log := by
  rw [past, List.mem_filterMap]
  constructor
  · rintro ⟨⟨s, entry⟩, hmem, h⟩
    cases entry with
    | call c => cases h; exact ⟨s, hmem⟩
    | answered => cases h
    | delivered => cases h
  · rintro ⟨s, hmem⟩
    exact ⟨_, hmem, rfl⟩

/-- Ideal cryptography for one action: the ephemeral key it draws is fresh,
and the field it opens last, if it opens, was sealed by a logged call. -/
def Ideal (w : World C) (s : Side) : Action C → Prop
  | .initiate values _ => C.publicKey values.ephemeralSecret ∉ w.used
  | .respond _ packet values _ _ =>
      C.publicKey values.ephemeralSecret ∉ w.used ∧
        let t := InitTranscript.ofPacket (key s) (w.peer s).peerKey packet
        Unforged w.past t.timestampKey 0 (C.asRef t.h₂) (slice packet initEncryptedTimestamp)
  | .handshakeResponse _ packet _ => ∀ q, (w.peer s).pending = some q →
      let t := RespTranscript.ofPacket q.state (key s) (w.peer s).presharedKey packet
      Unforged w.past t.tagKey 0 (C.asRef t.h) (slice packet respEncryptedEmptyTag)
  | .decrypt _ receiver packet _ =>
      ∀ k session, (w.peer s).matching receiver = some (k, session) →
        Unforged w.past session.transport.recvAead (u64FromLe (slice packet dataCounter)) []
          (packet.drop dataPayloadOffset)
  | _ => True

/-- Ideal cryptography along a whole run. -/
def IdealRun : World C → List (Side × Action C) → Prop
  | _, [] => True
  | w, (s, a) :: actions => w.Ideal key s a ∧ IdealRun (w.step key s a) actions

end World

/-! ### Keys and sessions -/

inductive Role where
  | initiator
  | responder
  deriving DecidableEq

namespace Role

def opposite : Role → Role
  | initiator => responder
  | responder => initiator

@[simp] theorem opposite_opposite (r : Role) : r.opposite.opposite = r := by cases r <;> rfl

/-- The key a role sends under, from the final chaining key. -/
def sendKey (r : Role) (constr : C.Hash256) : C.Hash256 :=
  match r with
  | initiator => C.kdf (C.asRef constr) [] 0
  | responder => C.kdf (C.asRef constr) [] 1

theorem sendKey_inj (hC : C.CollisionFree) {r r' : Role} {c c' : C.Hash256}
    (h : r.sendKey c = r'.sendKey c') : c = c' ∧ r = r' := by
  cases r with
  | initiator =>
      cases r' with
      | initiator => exact ⟨(hC.mixKey_inj (by decide) (by decide) h).1, rfl⟩
      | responder => exact absurd (hC.mixKey_inj (by decide) (by decide) h).2.2 (by decide)
  | responder =>
      cases r' with
      | initiator => exact absurd (hC.mixKey_inj (by decide) (by decide) h).2.2 (by decide)
      | responder => exact ⟨(hC.mixKey_inj (by decide) (by decide) h).1, rfl⟩

end Role

/-- The transport keys of `x` are those of role `r` after a handshake that
ended in `constr`. -/
structure Session.HasKeys (x : Session C) (r : Role) (constr : C.Hash256) : Prop where
  send_eq : x.transport.sendAead = r.sendKey constr
  recv_eq : x.transport.recvAead = r.opposite.sendKey constr

/-- `x'` is the session `x` later on: same keys, and the replay window moved
by the counter received on it, if any. -/
structure Session.Carries (x x' : Session C) (received : Option UInt64) : Prop where
  send_eq : x'.transport.sendAead = x.transport.sendAead
  recv_eq : x'.transport.recvAead = x.transport.recvAead
  replay_eq : match received with
    | none => x'.replay = x.replay
    | some c => x.replay.validate c = (true, x'.replay)

theorem Session.HasKeys.carries {x x' : Session C} {r : Role} {constr : C.Hash256}
    {received : Option UInt64} (h : x.HasKeys r constr) (hx : x.Carries x' received) :
    x'.HasKeys r constr :=
  ⟨hx.send_eq.trans h.send_eq, hx.recv_eq.trans h.recv_eq⟩

theorem Session.Carries.rfl {x : Session C} : x.Carries x none := ⟨Eq.refl _, Eq.refl _, Eq.refl _⟩

namespace Peer

/-- How the sessions of a peer move in one step: the session now in slot `k`
was in slot `src k` before, or is new, and `received` says on which slot a
counter was accepted. -/
structure Rotates (p p' : Peer C) (src : Slot → Option Slot) (received : Slot → Option UInt64) :
    Prop where
  injective : Function.Injective src
  kept : ∀ {k j x'}, src k = some j → p'.slot k = some x' →
    ∃ x, p.slot j = some x ∧ x.Carries x' (received j)

/-- Where sessions were before a respond installed a new one. -/
def Slot.beforeRespond : Slot → Option Slot
  | .next => none
  | k => some k

/-- Where sessions were before an accepted response installed a new one. -/
def Slot.beforeAnswer : Slot → Option Slot
  | .next => some .next
  | .current => none
  | .previous => some .current

/-- Where sessions were before a packet confirmed the responder session. -/
def Slot.beforeConfirm : Slot → Option Slot
  | .next => none
  | .current => some .next
  | .previous => some .current

theorem Slot.beforeRespond_injective : Function.Injective Slot.beforeRespond := by
  intro j k h
  cases j <;> cases k <;> first | rfl | cases h

theorem Slot.beforeAnswer_injective : Function.Injective Slot.beforeAnswer := by
  intro j k h
  cases j <;> cases k <;> first | rfl | cases h

theorem Slot.beforeConfirm_injective : Function.Injective Slot.beforeConfirm := by
  intro j k h
  cases j <;> cases k <;> first | rfl | cases h

theorem rotates_some {p p' : Peer C} (h : ∀ k, p'.slot k = p.slot k) :
    Rotates p p' some fun _ => none where
  injective := Option.some_injective _
  kept := by
    intro k j x' hk hx'
    cases hk
    exact ⟨x', (h k).symm.trans hx', .rfl⟩

end Peer

/-! ### What an action can do -/

/-- What an entry shows to the caller. -/
def Entry.event (s : Side) : Entry C → Option Event
  | .call (.send _ payload) => some (.encrypted s payload)
  | .delivered _ _ payload => some (.decrypted s payload)
  | _ => none

/-- A pending handshake state is the end of its initiation's transcript. -/
structure InitSent.Begun (ourKey : C.Secret) (peerKey : PublicKey) (state : InitSent C)
    (timestamp : C.Tai64N) : Prop where
  constr_eq : state.constr = (InitTranscript.ofInitiator ourKey peerKey
    state.ephemeralSecretInitiator timestamp).constr
  h_eq : state.h = (InitTranscript.ofInitiator ourKey peerKey
    state.ephemeralSecretInitiator timestamp).h

namespace World

/-- What one action can do to the peer `p` of the acting side, and the
entries it adds to the log of `w`.  Each acceptance comes with the logged
call that made the accepted message. -/
inductive Change (ourKey : C.Secret) (w : World C) (drawn : List PublicKey) (p p' : Peer C) :
    List (Entry C) → Prop where
  | quiet (hrot : p.Rotates p' some fun _ => none)
      (hpending : ∀ q, p'.pending = some q → p.pending = some q) : Change ourKey w drawn p p' []
  | initiated (q : PendingHandshake C) (ts : C.Tai64N)
      (hfresh : C.publicKey q.state.ephemeralSecretInitiator ∉ w.used)
      (hdrawn : C.publicKey q.state.ephemeralSecretInitiator ∈ drawn)
      (hrot : p.Rotates p' some fun _ => none) (hpending : p'.pending = some q)
      (hq : q.state.Begun ourKey p.peerKey ts) :
      Change ourKey w drawn p p'
        [.call (.initiate ourKey p.peerKey q.state.ephemeralSecretInitiator ts)]
  | responded (packet : Bytes) (st : InitReceived C) (e : C.Secret)
      (hfresh : C.publicKey e ∉ w.used) (hdrawn : C.publicKey e ∈ drawn)
      (hrecv : Received ourKey packet st)
      (hinit : ∃ s i q e' ts, (s, .call (.initiate i q e' ts)) ∈ w.log ∧
        InitTranscript.ofPacket ourKey st.peerPublic packet
          = InitTranscript.ofInitiator i q e' ts)
      (hrot : p.Rotates p' Peer.Slot.beforeRespond fun _ => none) (x : Session C)
      (hnew : p'.slot .next = some x) (hreplay : x.replay = ReplayFilter.new)
      (hkeys : x.HasKeys .responder (RespTranscript.ofResponder st e p.presharedKey).constr)
      (hpending : p'.pending = p.pending) :
      Change ourKey w drawn p p' [.call (.respond ourKey packet st e p.presharedKey)]
  | answered (q : PendingHandshake C) (packet : Bytes) (hpending : p.pending = some q)
      (hresp : ∃ s r packet' st e psk, (s, .call (.respond r packet' st e psk)) ∈ w.log ∧
        RespTranscript.ofPacket q.state ourKey p.presharedKey packet
          = RespTranscript.ofResponder st e psk)
      (hrot : p.Rotates p' Peer.Slot.beforeAnswer fun _ => none) (x : Session C)
      (hnew : p'.slot .current = some x) (hreplay : x.replay = ReplayFilter.new)
      (hkeys : x.HasKeys .initiator
        (RespTranscript.ofPacket q.state ourKey p.presharedKey packet).constr)
      (hnone : p'.pending = none) :
      Change ourKey w drawn p p' [.answered q.state ourKey p.presharedKey packet]
  | sent (x : Session C) (payload : Bytes) (hcurrent : p.slot .current = some x)
      (hrot : p.Rotates p' some fun _ => none) (hpending : p'.pending = p.pending) :
      Change ourKey w drawn p p' [.call (.send x.transport payload)]
  | delivered (k : Peer.Slot) (x : Session C) (counter : UInt64) (payload : Bytes)
      (replay : ReplayFilter) (src : Peer.Slot → Option Peer.Slot)
      (hslot : p.slot k = some x) (hreplay : x.replay.validate counter = (true, replay))
      (hsent : ∃ s t, (s, .call (.send t payload)) ∈ w.log ∧ x.transport.recvAead = t.sendAead ∧
        counter = t.sendCounter)
      (hrot : p.Rotates p' src fun j => if j = k then some counter else none)
      (hsrc : k ≠ .next ∧ src = some ∨
        k = .next ∧ src = Peer.Slot.beforeConfirm ∧ p'.slot .next = none)
      (hpending : p'.pending = p.pending) :
      Change ourKey w drawn p p' [.delivered x.transport.recvAead counter payload]

section

variable {key : Side → C.Secret} {w : World C} {s : Side}

theorem record_error (ourKey : C.Secret) (p : Peer C) (a : Action C) (e : PeerError) :
    a.record ourKey p (.error e) = [] := by
  cases a <;> rfl

theorem observe_error (a : Action C) (e : PeerError) : a.observe s (.error e) = [] := by
  cases a <;> rfl

/-- An initiation. -/
theorem change_initiate {values : HandshakeValues C} {out : Bytes} {o : Peer.Outcome}
    {p' : Peer C} (hi : w.Ideal key s (.initiate values out))
    (h : (w.peer s).Effect (.initiate (key s) values out) o p') :
    Change (key s) w [C.publicKey values.ephemeralSecret] (w.peer s) p'
      ((Action.initiate values out).record (key s) (w.peer s) o) := by
  cases h with
  | failed e =>
      rw [record_error]
      exact .quiet (Peer.rotates_some fun _ => rfl) fun _ h => h
  | initiated mac1 msg hmsg =>
      exact .initiated ⟨⟨values.index, values.ephemeralSecret, _, _⟩, values.index⟩
        values.timestamp hi List.mem_cons_self (Peer.rotates_some fun k => by cases k <;> rfl) rfl
        ⟨rfl, rfl⟩

/-- An initiation received and answered. -/
theorem change_respond (hC : C.CollisionFree) {now : Instant} {packet : Bytes}
    {values : HandshakeValues C} {source : SocketAddr} {out : Bytes} {st : InitReceived C}
    {o : Peer.Outcome} {p' : Peer C} (hi : w.Ideal key s (.respond now packet values source out))
    (hrecv : InitReceived.receive (key s) packet = .ok st)
    (hpeer : st.peerPublic = (w.peer s).peerKey)
    (h : (w.peer s).Effect (.respond now st values source out) o p') :
    Change (key s) w [C.publicKey values.ephemeralSecret] (w.peer s) p'
      ((Action.respond now packet values source out).record (key s) (w.peer s) o) := by
  cases h with
  | failed e =>
      rw [record_error]
      exact .quiet (Peer.rotates_some fun _ => rfl) fun _ h => h
  | responded mac1 msg hts hmsg =>
      simp only [Action.record, hrecv]
      have hreceived := InitReceived.receive_ok_iff.mp hrecv
      obtain ⟨i, q, e', ts, hmem, htr⟩ := hreceived.exists_initiate hC (by rw [hpeer]; exact hi.2)
      obtain ⟨s', hlog⟩ := mem_past.mp hmem
      refine .responded packet st values.ephemeralSecret hi.1 List.mem_cons_self hreceived
        ⟨s', i, q, e', ts, hlog, htr⟩ ⟨Peer.Slot.beforeRespond_injective, ?_⟩ _ rfl rfl ⟨rfl, rfl⟩
        rfl
      intro k j x' hk hx'
      cases k with
      | next => cases hk
      | current => cases hk; exact ⟨x', hx', .rfl⟩
      | previous => cases hk; exact ⟨x', hx', .rfl⟩

/-- A response accepted for the pending initiation. -/
theorem change_handshakeResponse (hC : C.CollisionFree) {now : Instant} {packet : Bytes}
    {source : SocketAddr} {o : Peer.Outcome} {p' : Peer C}
    (hi : w.Ideal key s (.handshakeResponse now packet source))
    (h : (w.peer s).Effect (.handshakeResponse (key s) now packet source) o p') :
    Change (key s) w [] (w.peer s) p'
      ((Action.handshakeResponse now packet source).record (key s) (w.peer s) o) := by
  cases h with
  | failed e =>
      rw [record_error]
      exact .quiet (Peer.rotates_some fun _ => rfl) fun _ h => h
  | answered q est hpending hansw =>
      simp only [Action.record, hpending]
      obtain ⟨r, packet', st, e, psk, hmem, htr⟩ := hansw.exists_respond hC (hi q hpending)
      obtain ⟨s', hlog⟩ := mem_past.mp hmem
      refine .answered q packet hpending ⟨s', r, packet', st, e, psk, hlog, htr⟩
        ⟨Peer.Slot.beforeAnswer_injective, ?_⟩ _ rfl rfl (by rw [hansw.est_eq]; exact ⟨rfl, rfl⟩) rfl
      intro k j x' hk hx'
      cases k with
      | next => cases hk; exact ⟨x', hx', .rfl⟩
      | current => cases hk
      | previous => cases hk; exact ⟨x', hx', .rfl⟩

/-- A data packet sent on the current session. -/
theorem change_encrypt {now : Instant} {payload out : Bytes} {o : Peer.Outcome} {p' : Peer C}
    (h : (w.peer s).Effect (.encrypt now payload out) o p') :
    Change (key s) w [] (w.peer s) p'
        ((Action.encrypt now payload out).record (key s) (w.peer s) o) ∧
      (Action.encrypt (C := C) now payload out).observe s o
        = ((Action.encrypt now payload out).record (key s) (w.peer s) o).filterMap
          (Entry.event s) := by
  cases h with
  | failed e =>
      rw [record_error, observe_error]
      exact ⟨.quiet (Peer.rotates_some fun _ => rfl) fun _ h => h, rfl⟩
  | encrypted x hend hcur hlive hlen hctr =>
      simp only [Action.record, hcur]
      refine ⟨.sent x payload hcur ⟨Option.some_injective _, ?_⟩ rfl, rfl⟩
      intro k j x' hk hx'
      cases hk
      cases k with
      | next => exact ⟨x', hx', .rfl⟩
      | current =>
          cases hx'
          exact ⟨x, hcur, rfl, rfl, rfl⟩
      | previous => exact ⟨x', hx', .rfl⟩

/-- A data packet that opens was sent by a logged call. -/
theorem exists_send (hC : C.CollisionFree) {x : Session C} {packet payload : Bytes}
    {counter : UInt64} (hauth : x.transport.Authentic packet counter payload)
    (hunf : Unforged w.past x.transport.recvAead (u64FromLe (slice packet dataCounter)) []
      (packet.drop dataPayloadOffset)) :
    ∃ s t, (s, .call (.send t payload)) ∈ w.log ∧ x.transport.recvAead = t.sendAead ∧
      counter = t.sendCounter := by
  obtain ⟨call, hmem, hseal⟩ := hunf payload (hauth.counter_eq ▸ hauth.opened_eq)
  obtain ⟨t, rfl, hkey, hctr⟩ := Call.send_of_seal hC hseal
  obtain ⟨s', hlog⟩ := mem_past.mp hmem
  exact ⟨s', t, hlog, hkey, hauth.counter_eq.trans hctr⟩

/-- A data packet received on a session. -/
theorem change_decrypt (hC : C.CollisionFree) {now : Instant} {receiver : UInt32} {packet : Bytes}
    {source : SocketAddr} {o : Peer.Outcome} {p' : Peer C}
    (hi : w.Ideal key s (.decrypt now receiver packet source))
    (h : (w.peer s).Effect (.decrypt now receiver packet source) o p') :
    Change (key s) w [] (w.peer s) p'
        ((Action.decrypt now receiver packet source).record (key s) (w.peer s) o) ∧
      (Action.decrypt (C := C) now receiver packet source).observe s o
        = ((Action.decrypt now receiver packet source).record (key s) (w.peer s) o).filterMap
          (Entry.event s) := by
  cases h with
  | failed e =>
      rw [record_error, observe_error]
      exact ⟨.quiet (Peer.rotates_some fun _ => rfl) fun _ h => h, rfl⟩
  | confirmed x counter payload replay hnext hlive hauth hreplay hmatch =>
      have hsent := exists_send hC hauth (hi .next x hmatch)
      simp only [Action.record, Action.observe, hmatch, Transport.take_relocated,
        ← hauth.counter_eq]
      refine ⟨.delivered .next x counter payload replay _ hnext hreplay hsent
        ⟨Peer.Slot.beforeConfirm_injective, ?_⟩ (Or.inr ⟨rfl, rfl, rfl⟩) rfl, rfl⟩
      intro k j x' hk hx'
      cases k with
      | next => cases hk
      | current =>
          cases hk
          cases hx'
          exact ⟨x, hnext, rfl, rfl, hreplay⟩
      | previous =>
          cases hk
          exact ⟨x', hx', .rfl⟩
  | received i x counter payload replay hi' hslot hlive hauth hreplay hmatch =>
      have hsent := exists_send hC hauth (hi i x hmatch)
      simp only [Action.record, Action.observe, hmatch, Transport.take_relocated,
        ← hauth.counter_eq]
      refine ⟨.delivered i x counter payload replay _ hslot hreplay hsent
        ⟨Option.some_injective _, ?_⟩ (Or.inl ⟨hi', rfl⟩) (by cases i <;> rfl), rfl⟩
      intro k j x' hk hx'
      cases hk
      by_cases hki : k = i
      · subst hki
        rw [if_pos rfl]
        have hx : x' = { x with replay := replay } := by
          cases k <;> exact (Option.some.inj hx').symm
        exact ⟨x, hslot, by rw [hx], by rw [hx], by rw [hx]; exact hreplay⟩
      · rw [if_neg hki]
        refine ⟨x', ?_, .rfl⟩
        cases i <;> cases k <;> first | exact absurd rfl hki | exact hx'

/-- The operations that touch neither sessions nor the log. -/
theorem change_of_quiet {op : Peer.Op C} {o : Peer.Outcome} {p' : Peer C}
    (hop : op = .abandonHandshake ∨ (∃ r t, op = .cookieReply r t) ∨
      (∃ e, op = .setEndpoint e) ∨ ∃ k, op = .setPresharedKey k)
    (h : (w.peer s).Effect op o p') : Change (key s) w [] (w.peer s) p' [] := by
  rcases hop with rfl | ⟨r, t, rfl⟩ | ⟨e, rfl⟩ | ⟨k, rfl⟩ <;> cases h <;>
    exact .quiet (Peer.rotates_some fun k => by cases k <;> rfl) (by first | exact fun _ h => h | nofun)

/-- The call of an action changes the acting side, and shows its caller what
it logs. -/
theorem change_of_effect (hC : C.CollisionFree) {a : Action C} (hi : w.Ideal key s a)
    {op : Peer.Op C} (hop : a.op (key s) (w.peer s).peerKey = some op) {o : Peer.Outcome}
    {p' : Peer C} (h : (w.peer s).Effect op o p') :
    Change (key s) w a.drawn (w.peer s) p' (a.record (key s) (w.peer s) o) ∧
      a.observe s o = (a.record (key s) (w.peer s) o).filterMap (Entry.event s) := by
  cases a with
  | initiate values out =>
      cases hop
      refine ⟨change_initiate hi h, ?_⟩
      cases h <;> rfl
  | respond now packet values source out =>
      simp only [Action.op] at hop
      cases hrecv : InitReceived.receive (key s) packet with
      | error e => rw [hrecv] at hop; cases hop
      | ok st =>
          simp only [hrecv] at hop
          split_ifs at hop with hpeer
          cases hop
          refine ⟨change_respond hC hi hrecv hpeer h, ?_⟩
          cases h <;> simp [Action.record, Action.observe, hrecv, Entry.event]
  | handshakeResponse now packet source =>
      cases hop
      refine ⟨change_handshakeResponse hC hi h, ?_⟩
      cases h with
      | failed e => rfl
      | answered q est hpending hansw =>
          simp [Action.record, Action.observe, hpending, Entry.event]
  | encrypt now payload out => cases hop; exact change_encrypt h
  | decrypt now receiver packet source => cases hop; exact change_decrypt hC hi h
  | abandonHandshake => cases hop; exact ⟨change_of_quiet (Or.inl rfl) h, rfl⟩
  | cookieReply reply timestamp =>
      cases hop; exact ⟨change_of_quiet (Or.inr (Or.inl ⟨_, _, rfl⟩)) h, rfl⟩
  | setEndpoint endpoint =>
      cases hop; exact ⟨change_of_quiet (Or.inr (Or.inr (Or.inl ⟨_, rfl⟩))) h, rfl⟩
  | setPresharedKey presharedKey =>
      cases hop; exact ⟨change_of_quiet (Or.inr (Or.inr (Or.inr ⟨_, rfl⟩))) h, rfl⟩

/-- **What an action can do.** -/
theorem step_change (hC : C.CollisionFree) (hp : (w.peer s).WellFormed) {a : Action C}
    (hi : w.Ideal key s a) :
    ∃ p' entries, Change (key s) w a.drawn (w.peer s) p' entries ∧ p'.WellFormed ∧
      p'.peerKey = (w.peer s).peerKey ∧
      w.step key s a =
        { peer := Function.update w.peer s p'
          used := w.used ++ a.drawn
          log := w.log ++ entries.map (s, ·)
          events := w.events ++ entries.filterMap (Entry.event s) } := by
  cases hop : a.op (key s) (w.peer s).peerKey with
  | none =>
      refine ⟨w.peer s, [], .quiet (Peer.rotates_some fun _ => rfl) fun _ h => h, hp, rfl, ?_⟩
      simp [step, hop]
  | some op =>
      have heff := (w.peer s).step_effect hp op
      obtain ⟨hchange, hobs⟩ := change_of_effect hC hi hop heff
      refine ⟨_, _, hchange, heff.wellFormed hp, heff.peerKey_eq, ?_⟩
      rw [← hobs]
      simp only [step, hop]

end

end World

end Tunstile
