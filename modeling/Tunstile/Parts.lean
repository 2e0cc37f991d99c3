/-
Tunstile/Parts.lean

A turn of the event loop, part by part.

What a turn does depends on what wakes the loop, on what messages hold and on
what the machine makes of them.  All turns but that of the handshake's timer
are put together from a few parts (`Part`): asking for a handshake, flushing
payloads, a keepalive, one message or setting, or a timer.  A relation between
an actor and its later states that holds over every part, and over one part
after the other, holds over every turn (`turn_of_parts`).  So what a turn
keeps is shown part by part, and the branches of the loop are followed here
only.  Keepalives and what follows a new session are put together from other
operations in turn (`Sending`).
-/
import Tunstile.Operations
import Tunstile.Traces

namespace Tunstile

variable {C : Crypto}

namespace Actor

/-! ### Sending on one's own -/

/-- A relation between an actor and its later states that holds over what an
actor does to send: asking for a handshake, flushing payloads, and a
keepalive that is sent or that the machine refuses. -/
structure Sending (R : Actor C → Actor C → Prop) : Prop where
  refl : ∀ a, R a a
  trans : ∀ {a b c}, R a b → R b c → R a c
  ensureHandshake : ∀ a, R a a.ensureHandshake
  flushSends : ∀ a payloads, R a (a.flushSends payloads)
  keepaliveFailed : ∀ {a : Actor C} {e : PeerError} {machine : Peer C} {out : Bytes},
    a.machine.encrypt a.now [] (List.replicate (packetLen 0) 0) = (.error e, machine, out) →
      R a { a.tick with machine := machine, session := none }
  keepaliveDone : ∀ {a : Actor C} {endpoint : SocketAddr} {machine : Peer C} {msg : Bytes},
    a.machine.endpoint = some endpoint →
    a.machine.encrypt a.now [] (List.replicate (packetLen 0) 0)
      = (.ok (packetLen 0), machine, msg) →
      R a (a.keepaliveDone machine endpoint msg)

namespace Sending

variable {R : Actor C → Actor C → Prop}

theorem sendKeepalive (hR : Sending R) (a : Actor C) : R a a.sendKeepalive := by
  rcases a.sendKeepalive_cases with
    ⟨e, machine, out, henc, h⟩ | ⟨endpoint, machine, msg, hendpoint, henc, h⟩
  · rw [h]
    exact hR.keepaliveFailed henc
  · have hdone := hR.keepaliveDone hendpoint henc
    rw [h]
    split
    · exact hR.trans hdone (hR.ensureHandshake _)
    · exact hdone

/-- What is staged is taken and flushed, or else an initiator sends a
keepalive; the handle is told last. -/
theorem sessionEstablished (hR : Sending R) (a : Actor C) (initiator : Bool) :
    ∃ b, R { a with staged := [] } b ∧
      a.sessionEstablished initiator = { b with sessionReady := true } := by
  have hflush : a.flushStaged = { a with staged := [] }.flushSends a.staged := by
    unfold flushStaged
    split
    · rename_i hnil
      rw [hnil, flushSends_nil]
      rw [← hnil]
    · rfl
  have hflushed := hR.flushSends { a with staged := [] } a.staged
  rw [← hflush] at hflushed
  refine ⟨_, ?_, rfl⟩
  split
  · exact hR.trans hflushed (hR.sendKeepalive _)
  · exact hflushed

end Sending

/-! ### Parts -/

/-- The actions an event brings. -/
def Event.batch : Event C → List (PeerAction C)
  | .actions batch => batch
  | .timer _ => []

/-- One part of a turn, with the actions that it deals with. -/
inductive Part : Actor C → List (PeerAction C) → Actor C → Prop where
  | tick (a : Actor C) : Part a [] a.tick
  | ensured (a : Actor C) : Part a [] a.ensureHandshake
  /-- A payload is collected, to be flushed with those that follow it. -/
  | collected (a : Actor C) (payload : Bytes) : Part a [.sendData payload] a
  | flushed (a : Actor C) (payloads : List Bytes) : Part a [] (a.flushSends payloads)
  | connected (a : Actor C) (endpoint : SocketAddr) :
      Part a [.connect endpoint] (a.setEndpoint endpoint).ensureHandshake
  | updated (a : Actor C) (update : PeerUpdate) : Part a [.update update] (a.applyUpdate update)
  | initiationReceived (a : Actor C) (handshake : InitReceived C) (endpoint : SocketAddr) :
      Part a [.recvHandshakeInit handshake endpoint]
        (a.tick.recvHandshakeInit a.now handshake endpoint)
  | cookieReceived (a : Actor C) (reply : Bytes) :
      Part a [.recvCookieReply reply] (a.recvCookieReply reply)
  /-- A response that is refused. -/
  | unanswered {a : Actor C} {resp : Bytes} {endpoint : SocketAddr} {e : PeerError}
      {machine : Peer C}
      (h : a.machine.step (.handshakeResponse a.ourKey a.now resp endpoint) = (.error e, machine)) :
      Part a [.recvHandshakeResp resp endpoint] { a.tick with machine := machine }
  | answered {a : Actor C} {resp : Bytes} {endpoint : SocketAddr} {retired : Option UInt32}
      {machine : Peer C}
      (h : a.machine.step (.handshakeResponse a.ourKey a.now resp endpoint)
        = (.rotated retired, machine)) :
      Part a [.recvHandshakeResp resp endpoint]
        ((a.tick.responseNoted a.now resp endpoint retired machine).sessionEstablished true)
  /-- A data message that is refused. -/
  | undecrypted {a : Actor C} {data : Bytes} {receiver : UInt32} {endpoint : SocketAddr}
      {e : PeerError} {machine : Peer C}
      (h : a.machine.step (.decrypt a.now receiver data endpoint) = (.error e, machine)) :
      Part a [.recvData data receiver endpoint] { a.tick with machine := machine }
  | received {a : Actor C} {data opened : Bytes} {receiver : UInt32} {endpoint : SocketAddr}
      {recv : Recv} {machine : Peer C}
      (h : a.machine.step (.decrypt a.now receiver data endpoint)
        = (.decrypted recv opened, machine))
      (hconfirmed : recv.confirmed = false) :
      Part a [.recvData data receiver endpoint]
        ({ a.tick with machine := machine }.recvDataNoted a.now endpoint data.length recv opened)
  | confirmed {a : Actor C} {data opened : Bytes} {receiver : UInt32} {endpoint : SocketAddr}
      {recv : Recv} {machine : Peer C}
      (h : a.machine.step (.decrypt a.now receiver data endpoint)
        = (.decrypted recv opened, machine))
      (hconfirmed : recv.confirmed = true) :
      Part a [.recvData data receiver endpoint]
        (({ a.tick with machine := machine }.recvDataNoted a.now endpoint data.length recv
          opened).sessionEstablished false)
  | keptAlive (a : Actor C) : Part a [] a.sendKeepalive
  | expired (a : Actor C) : Part a [] a.sessionExpired
  /-- The timer of a new handshake is cleared before it is asked for. -/
  | disarmed (a : Actor C) :
      Part a [] { a with session := a.session.map fun s => { s with newHandshakeAt := none } }
  /-- The persistent keepalive counts as sent, whatever comes of it. -/
  | touched (a : Actor C) : Part a [] { a.tick with lastSend := a.now }

namespace Part

/-- A handshake may be asked for at the end. -/
theorem ensured_if {a b : Actor C} {actions : List (PeerAction C)} (h : Trace Part a actions b)
    (rekey : Bool) : Trace Part a actions (if rekey then b.ensureHandshake else b) := by
  cases rekey with
  | false => exact h
  | true =>
      have hlast := h.tail (ensured b)
      rwa [List.append_nil] at hlast

theorem recvData (a : Actor C) (data : Bytes) (receiver : UInt32) (endpoint : SocketAddr) :
    Trace Part a [.recvData data receiver endpoint]
      (a.tick.recvData a.now data receiver endpoint) := by
  have htick : a.tick.machine = a.machine := rfl
  unfold Actor.recvData
  rw [htick]
  rcases hdec : a.machine.decrypt a.now receiver data endpoint with ⟨e | ⟨recv, opened⟩, machine⟩
  · exact .single (undecrypted (by rw [Peer.step, hdec]))
  · have hstep : a.machine.step (.decrypt a.now receiver data endpoint)
        = (.decrypted recv opened, machine) := by rw [Peer.step, hdec]
    dsimp only
    rw [recvDataOk_eq]
    refine ensured_if ?_ _
    cases hconfirmed : recv.confirmed with
    | false => exact .single (received hstep hconfirmed)
    | true => exact .single (confirmed hstep hconfirmed)

theorem recvHandshakeResp (a : Actor C) (resp : Bytes) (endpoint : SocketAddr) :
    Trace Part a [.recvHandshakeResp resp endpoint]
      (a.tick.recvHandshakeResp a.now resp endpoint) := by
  have htick : a.tick.machine = a.machine ∧ a.tick.ourKey = a.ourKey := ⟨rfl, rfl⟩
  unfold Actor.recvHandshakeResp
  rw [htick.1, htick.2]
  rcases hresp : a.machine.handshakeResponse a.ourKey a.now resp endpoint
    with ⟨e | retired, machine⟩
  · exact .single (unanswered (by rw [Peer.step, hresp]))
  · exact .single (answered (by rw [Peer.step, hresp]))

theorem handleMessage (a : Actor C) (action : PeerAction C) :
    Trace Part a [action] (a.handleMessage action) := by
  cases action with
  | connect endpoint => exact (Trace.single (tick a)).tail (connected _ endpoint)
  | update update => exact (Trace.single (tick a)).tail (updated _ update)
  | sendData payload =>
      exact ((Trace.single (tick a)).tail (collected _ payload)).tail (flushed _ [payload])
  | recvData data receiver endpoint => exact recvData a data receiver endpoint
  | recvHandshakeInit handshake endpoint => exact .single (.initiationReceived a handshake endpoint)
  | recvHandshakeResp resp endpoint => exact recvHandshakeResp a resp endpoint
  | recvCookieReply reply => exact (Trace.single (tick a)).tail (cookieReceived _ reply)

theorem handleActions (a : Actor C) (payloads : List Bytes) (batch : List (PeerAction C)) :
    Trace Part a batch (a.handleActions payloads batch) := by
  fun_induction Actor.handleActions a payloads batch with
  | case1 a payloads => exact .single (.flushed a payloads)
  | case2 a payloads payload rest ih => exact (Trace.single (collected a payload)).trans ih
  | case3 a payloads action rest hdata ih =>
      exact ((Trace.single (flushed a payloads)).trans (handleMessage _ action)).trans ih

theorem fire (a : Actor C) {timer : Timer} (h : timer ≠ .handshake) :
    Trace Part a [] (a.fire timer) := by
  cases timer with
  | handshake => exact absurd rfl h
  | expiry => exact .single (.expired a)
  | keepalive => exact .single (.keptAlive a)
  | newHandshake => exact (Trace.single (disarmed a)).tail (ensured _)
  | persistentKeepalive =>
      show Trace Part a [] (if _ then Actor.sendKeepalive _ else Actor.ensureHandshake _)
      split
      · exact (Trace.single (touched a)).tail (keptAlive _)
      · exact (Trace.single (touched a)).tail (ensured _)

end Part

/-- **Every turn but that of the handshake's timer is put together from
parts**, which deal with the actions that the event brings. -/
theorem parts_turn (a : Actor C) {event : Event C} (h : event ≠ .timer .handshake) :
    Trace Part a event.batch (a.turn event) := by
  cases event with
  | actions batch => exact Part.handleActions a [] batch
  | timer timer =>
      show Trace Part a [] (if _ then a.fire timer else a)
      split
      · exact Part.fire a fun heq => h (congrArg _ heq)
      · exact .refl a

/-- The turn of the handshake's timer. -/
theorem turn_handshake (a : Actor C) : a.turn (.timer .handshake) = a.handshakeDue := by
  show (if _ then a.handshakeDue else a) = _
  split
  · rfl
  · rename_i hunarmed
    have hnone : a.handshake = none := by
      cases hh : a.handshake with
      | none => rfl
      | some h =>
          refine absurd ?_ hunarmed
          rw [deadline, hh]
          rfl
    rw [handshakeDue, hnone]

/-- What holds over every part, and over one thing after the other, holds
over every turn. -/
theorem turn_of_parts {R : Actor C → List (PeerAction C) → Actor C → Prop}
    (hrefl : ∀ a, R a [] a)
    (htrans : ∀ {a b c : Actor C} {actions actions' : List (PeerAction C)},
      R a actions b → R b actions' c → R a (actions ++ actions') c)
    (hpart : ∀ {a b : Actor C} {actions : List (PeerAction C)}, Part a actions b → R a actions b)
    (hdue : ∀ a, R a [] a.handshakeDue) (a : Actor C) (event : Event C) :
    R a event.batch (a.turn event) := by
  by_cases hevent : event = .timer .handshake
  · subst hevent
    rw [turn_handshake]
    exact hdue a
  · exact (a.parts_turn hevent).relates hrefl htrans hpart

end Actor

end Tunstile
