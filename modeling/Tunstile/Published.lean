/-
Tunstile/Published.lean

The endpoint that a peer's status shows, against the one in use.

Connecting, updating, data messages and responses set both.  An initiation
sets the machine's endpoint when it is answered, but the status only after
the socket took the answer: when it does not, the status is left behind
(`endpoint_unpublished`).  As long as the socket takes every response the two
agree (`published_endpoint`).
-/
import Tunstile.Moves
import Tunstile.Tracking

namespace Tunstile

variable {C : Crypto}

def Datagrams.isResponse (d : Datagrams) : Bool :=
  decide (typeByte d.bytes = MessageType.handshakeResp.toByte)

namespace Actor

/-- Every response was taken by the socket. -/
def ResponsesTaken (a : Actor C) : Prop := ∀ d ∈ a.datagrams, d.isResponse = true → d.taken = true

/-- The published endpoint is the one in use, as long as responses were
taken. -/
def InStep (a : Actor C) : Prop := a.ResponsesTaken → a.status.endpoint = a.machine.endpoint

theorem ResponsesTaken.of_append {a b : Actor C} {new : List Datagrams}
    (hd : b.datagrams = a.datagrams ++ new) (h : b.ResponsesTaken) : a.ResponsesTaken := by
  intro d hmem
  exact h d (hd ▸ List.mem_append_left new hmem)

namespace InStep

/-- Both endpoints stay, or are set to one. -/
theorem of_endpoint {a : Actor C} (h : a.status.endpoint = a.machine.endpoint) : a.InStep :=
  fun _ => h

theorem congr {a b : Actor C} {new : List Datagrams} (hd : b.datagrams = a.datagrams ++ new)
    (hm : b.machine.endpoint = a.machine.endpoint) (hs : b.status.endpoint = a.status.endpoint)
    (h : a.InStep) : b.InStep := fun hb => hs.trans ((h (hb.of_append hd)).trans hm.symm)

theorem ensureHandshake {a : Actor C} (h : a.InStep) : a.ensureHandshake.InStep := by
  obtain ⟨new, hd, -⟩ := a.ensureHandshake_datagrams
  have hu := a.ensureHandshake_untouched
  exact h.congr hd hu.endpoint hu.published

theorem quiet {a a' : Actor C} {log : List (Mark C)} (ha : a.InStep) (h : Quiet a log a') :
    a'.InStep := by
  cases h with
  | frame h =>
      obtain ⟨cookieGenerator, presharedKey, current, hm⟩ := h.machine
      obtain ⟨new, hd, -⟩ := h.datagrams
      exact ha.congr hd (by rw [hm]) h.published
  | tick => exact ha
  | received h => exact of_endpoint h.endpoint_decrypted.symm
  | confirmed h => exact of_endpoint h.endpoint_decrypted.symm
  | responded h hmsg taken =>
      cases taken with
      | true => exact of_endpoint h.endpoint_responded.symm
      | false =>
          -- the response itself was refused
          intro htaken
          cases htaken _ List.mem_concat_self (decide_eq_true hmsg)
  | answered hpending h => exact of_endpoint h.endpoint_answered.symm
  | ensured => exact ha.ensureHandshake
  | connected endpoint => exact ensureHandshake (of_endpoint rfl)
  | stalled payloads =>
      obtain ⟨staged, ledger, hstage⟩ := stage_frame { a with session := none } payloads
      refine ensureHandshake ?_
      rw [hstage]
      exact ha

theorem move {a a' : Actor C} {log : List (Mark C)} (ha : a.InStep) (h : Move a log a') :
    a'.InStep := by
  cases h with
  | quiet h => exact ha.quiet h
  | due =>
      unfold handshakeDue
      split
      · exact ha
      · dsimp only
        split
        · generalize a.tick.machine.abandonHandshake.1 = index
          cases index <;> exact ha
        · rename_i handshake _ _
          obtain ⟨new, hd, -⟩ := a.tick.sendHandshake_datagrams handshake.firstSent
          have hu := a.tick.sendHandshake_untouched handshake.firstSent
          exact congr (a := a) hd hu.endpoint hu.published ha

end InStep

/-- What an actor that has answered no initiation yet does with the first. -/
theorem turn_first_initiation {a : Actor C} (handshake : InitReceived C) (endpoint : SocketAddr)
    (hts : a.machine.lastHandshakeTimestamp = none) (hnext : a.machine.next = none) :
    let b := a.turn (.actions [.recvHandshakeInit handshake endpoint])
    b.machine.endpoint = some endpoint ∧
      b.status.endpoint = (if a.env.socketTakes.head then some endpoint else a.status.endpoint) ∧
      ∃ msg, b.datagrams
        = a.datagrams ++ [⟨endpoint, msg, msg.length, a.env.socketTakes.head⟩] := by
  obtain ⟨mac1, msg, h⟩ := Peer.respond_first a.now handshake a.values endpoint hts hnext
  have hrespond : a.tick.drawn.machine.respond a.now handshake a.tick.values endpoint
      (List.replicate respMsgLength 0) = _ := h
  simp only [turn, handleActions, flushSends_nil, handleMessage, recvHandshakeInit, hrespond,
    retireIndex, bindIndex, send, sendSegments]
  have htakes : a.tick.drawn.env.socketTakes.head = a.env.socketTakes.head := rfl
  rw [htakes]
  cases a.env.socketTakes.head <;> exact ⟨rfl, rfl, msg, rfl⟩

/-- A new actor of `symbolic` whose socket takes everything, or nothing. -/
def answering (takes : Bool) : Actor Crypto.symbolic :=
  spawn (1 : UInt8) (Crypto.symbolic.publicKey (2 : UInt8)) none none
    { twoReads (seconds 0) (seconds 0) with socketTakes := Stream'.const takes }

/-- An initiation for that actor, and what becomes of it. -/
theorem exists_answering (takes : Bool) : ∃ initMsg handshake,
    InitReceived.receive (C := Crypto.symbolic) (1 : UInt8) initMsg = .ok handshake ∧
    let a := (answering takes).run [.actions [.recvHandshakeInit handshake anyEndpoint]]
    a.machine.endpoint = some anyEndpoint ∧
      a.status.endpoint = (if takes then some anyEndpoint else none) ∧
      ∃ msg, a.datagrams = [⟨anyEndpoint, msg, msg.length, takes⟩] := by
  obtain ⟨initMsg, handshake, hrecv⟩ := exists_initiation
  refine ⟨initMsg, handshake, hrecv, ?_⟩
  rw [run_singleton]
  exact turn_first_initiation (a := answering takes) handshake anyEndpoint rfl rfl

/-- **A refused response leaves the status behind.**  The first initiation
that arrives is answered, but the socket does not take the answer: the
machine uses its endpoint, and the status shows none. -/
theorem endpoint_unpublished :
    ∃ initMsg handshake,
      InitReceived.receive (C := Crypto.symbolic) (1 : UInt8) initMsg = .ok handshake ∧
      let a := (answering false).run [.actions [.recvHandshakeInit handshake anyEndpoint]]
      a.machine.endpoint = some anyEndpoint ∧ a.status.endpoint = none := by
  obtain ⟨initMsg, handshake, hrecv, h⟩ := exists_answering false
  refine ⟨initMsg, handshake, hrecv, ?_⟩
  dsimp only at h ⊢
  rw [if_neg Bool.false_ne_true] at h
  exact ⟨h.1, h.2.1⟩

/-- **The published endpoint is the one in use.**  After any events, if the
socket took every response that was handed to it. -/
theorem published_endpoint (ourKey : C.Secret) (publicKey : PublicKey)
    (presharedKey : Option PresharedKey) (persistentKeepalive : Option Duration) (env : Env C)
    (events : List (Event C))
    (h : ((spawn ourKey publicKey presharedKey persistentKeepalive env).run
      events).ResponsesTaken) :
    ((spawn ourKey publicKey presharedKey persistentKeepalive env).run events).status.endpoint
      = ((spawn ourKey publicKey presharedKey persistentKeepalive env).run
        events).machine.endpoint := by
  refine invariant_run (fun a log a' _ ha h => InStep.move ha h) (healthy_spawn ..) ?_ events h
  exact .of_endpoint rfl

/-- The answer to an initiation, taken by the socket. -/
theorem published_endpoint_answering : ∃ handshake,
    let a := (answering true).run [.actions [.recvHandshakeInit handshake anyEndpoint]]
    a.ResponsesTaken ∧ a.machine.endpoint = some anyEndpoint ∧
      a.status.endpoint = a.machine.endpoint := by
  obtain ⟨initMsg, handshake, -, h⟩ := exists_answering true
  refine ⟨handshake, ?_⟩
  dsimp only at h ⊢
  have htaken : ((answering true).run
      [.actions [.recvHandshakeInit handshake anyEndpoint]]).ResponsesTaken := by
    intro d hmem _
    obtain ⟨msg, hd⟩ := h.2.2
    rw [hd] at hmem
    rw [List.mem_singleton.mp hmem]
  refine ⟨htaken, h.1, ?_⟩
  rw [answering] at htaken ⊢
  exact published_endpoint _ _ _ _ _ _ htaken

end Actor

end Tunstile
