/-
Tunstile/Exchange.lean

An exchange, from two new peers to a delivered payload.

The network passes on what the sides write: an initiation, a response, one
data packet.  Every action satisfies `Ideal`, since what is opened was
sealed by the action before, and the payload arrives.  The packet is refused
when it comes again, without a trace, like every call that fails
(`step_error_unchanged`).

The side that answers is a parameter.  It is the other side in an honest
exchange, which leaves each side with a send session.  It can also be the
initiator itself, where the network sends its packets back to it: nothing
in a packet names the side it comes from, so this works as soon as the two
sides have the same static key.
-/
import Tunstile.World

namespace Tunstile

variable {C : Crypto}

namespace Peer

/-! ### Calls that succeed -/

section Succeed

variable {p : Peer C} {now : Instant} {source : SocketAddr} {out : Bytes}

theorem initiate_ok {ourKey : C.Secret} {values : HandshakeValues C} {msg : Bytes}
    {state : InitSent C} {gen : Generator C} (hlen : initMsgLength ≤ out.length)
    (h : InitSent.initiate ourKey p.peerKey values.index values.ephemeralSecret values.timestamp
      p.cookieGenerator out = (.ok state, gen, msg)) :
    p.initiate ourKey values out = (.ok (p.pending.map PendingHandshake.ourIndex),
      { p with cookieGenerator := gen, pending := some ⟨state, values.index⟩ }, msg) := by
  simp only [initiate, if_neg (not_lt.mpr hlen), h]

theorem step_initiate_ok {ourKey : C.Secret} {values : HandshakeValues C} {msg : Bytes}
    {state : InitSent C} {gen : Generator C} (hlen : initMsgLength ≤ out.length)
    (h : InitSent.initiate ourKey p.peerKey values.index values.ephemeralSecret values.timestamp
      p.cookieGenerator out = (.ok state, gen, msg)) :
    p.step (.initiate ourKey values out)
      = (.written (p.pending.map PendingHandshake.ourIndex) msg,
        { p with cookieGenerator := gen, pending := some ⟨state, values.index⟩ }) := by
  rw [step, initiate_ok hlen h]

theorem step_respond_ok {handshake : InitReceived C} {values : HandshakeValues C} {msg : Bytes}
    {established : ReceiverEstablished C} {gen : Generator C}
    (hts : p.lastHandshakeTimestamp = none) (hlen : respMsgLength ≤ out.length)
    (h : handshake.respond values.index values.ephemeralSecret p.presharedKey values.timestamp
      p.cookieGenerator out = (.ok established, gen, msg)) :
    p.step (.respond now handshake values source out)
      = (.written (p.next.map Session.ourIndex) msg,
        { p with
          cookieGenerator := gen
          lastHandshakeTimestamp := some handshake.timestamp
          endpoint := some source
          next := some (Session.new established.finish now) }) := by
  simp only [step, respond, hts, Option.any_none, Bool.false_eq_true, if_false,
    if_neg (not_lt.mpr hlen), h]

theorem step_handshakeResponse_ok {ourKey : C.Secret} {packet : Bytes} {q : PendingHandshake C}
    {established : InitiatorEstablished C} (hq : p.pending = some q)
    (h : q.state.responseReceived ourKey p.presharedKey packet = .ok established) :
    p.step (.handshakeResponse ourKey now packet source)
      = (.rotated (p.previous.map Session.ourIndex),
        { p with
          pending := none
          previous := p.current
          current := some (Session.new established.finish now)
          endpoint := some source }) := by
  simp only [step, handshakeResponse, hq, h, adoptCurrent]

theorem step_encrypt_ok {payload : Bytes} {x : Session C} (hend : p.endpoint = some source)
    (hcur : p.current = some x) (hlive : x.expired now = false)
    (hlen : packetLen payload.length ≤ out.length)
    (hctr : x.transport.sendCounter < rejectAfterMessages) :
    p.step (.encrypt now payload out)
      = (.encrypted (packetLen payload.length)
          (dataWire x.transport.peerIndex x.transport.sendCounter
              (C.sealed x.transport.sendAead x.transport.sendCounter [] payload)
            ++ out.drop (packetLen payload.length)),
        { p with current := some { x with transport :=
            { x.transport with sendCounter := x.transport.sendCounter + 1 } } }) := by
  simp only [step, encrypt, hend, hcur, hlive, Session.send, Transport.send_ok _ hlen hctr,
    Option.isNone_some, Bool.false_eq_true, if_false]

theorem matching_next {x : Session C} (h : p.next = some x) :
    p.matching x.ourIndex = some (.next, x) := by
  simp [matching, slot, h, Option.filter]

theorem step_decrypt_ok {packet payload : Bytes} {x : Session C} {counter : UInt64}
    {replay : ReplayFilter} (hnext : p.next = some x) (hlive : x.expired now = false)
    (hauth : x.transport.Authentic packet counter payload)
    (hreplay : x.replay.validate counter = (true, replay)) :
    p.step (.decrypt now x.ourIndex packet source)
      = (.decrypted ⟨payload.length, true, p.previous.map Session.ourIndex⟩
          (Crypto.relocated packet dataPayloadOffset payload),
        { p with
          endpoint := some source
          next := none
          previous := p.current
          current := some { x with replay := replay } }) := by
  have hrecv : x.transport.receive packet
      = .ok (counter, payload.length, Crypto.relocated packet dataPayloadOffset payload) :=
    Transport.receive_ok_iff.mpr ⟨payload, hauth, rfl, rfl⟩
  simp only [step, decrypt, matching_next hnext, hlive, Session.receive, hrecv, hreplay,
    adoptCurrent, setSlot, Bool.false_eq_true, if_false]

end Succeed

/-- A packet whose counter the window refuses fails as a replay. -/
theorem step_decrypt_replay {p : Peer C} {x : Session C} {now : Instant} {source : SocketAddr}
    {packet payload : Bytes} {counter : UInt64} (hnext : p.next = none)
    (hcur : p.current = some x) (hlive : x.expired now = false)
    (hauth : x.transport.Authentic packet counter payload)
    (hreplay : (x.replay.validate counter).1 = false) :
    (p.step (.decrypt now x.ourIndex packet source)).1 = .error .replay := by
  have hmatch : p.matching x.ourIndex = some (.current, x) := by
    simp [matching, slot, hnext, hcur, Option.filter]
  have hrecv : x.transport.receive packet
      = .ok (counter, payload.length, Crypto.relocated packet dataPayloadOffset payload) :=
    Transport.receive_ok_iff.mpr ⟨payload, hauth, rfl, rfl⟩
  obtain ⟨replay, hvalidate⟩ : ∃ replay, x.replay.validate counter = (false, replay) :=
    ⟨_, Prod.ext hreplay rfl⟩
  simp only [step, decrypt, hmatch, hlive, Session.receive, hrecv, hvalidate, receiveError,
    Bool.false_eq_true, if_false]

end Peer

namespace World

variable {key : Side → C.Secret}

theorem run_append (w : World C) (as bs : List (Side × Action C)) :
    w.run key (as ++ bs) = (w.run key as).run key bs := by
  rw [run, List.foldl_append]
  rfl

theorem idealRun_append {w : World C} {as bs : List (Side × Action C)} :
    w.IdealRun key (as ++ bs) ↔ w.IdealRun key as ∧ (w.run key as).IdealRun key bs := by
  induction as generalizing w with
  | nil => exact (Iff.of_eq (true_and _)).symm
  | cons x as ih =>
      show w.Ideal key x.1 x.2 ∧ (w.step key x.1 x.2).IdealRun key (as ++ bs) ↔
        (w.Ideal key x.1 x.2 ∧ (w.step key x.1 x.2).IdealRun key as) ∧
          ((w.step key x.1 x.2).run key as).IdealRun key bs
      rw [ih, and_assoc]

/-! ### What honest sides receive -/

section Genuine

variable {w : World C} {s : Side}

theorem past_initiate {values : HandshakeValues C} {out msg : Bytes} {replaced : Option UInt32}
    {p' : Peer C}
    (h : (w.peer s).step (.initiate (key s) values out) = (.written replaced msg, p')) :
    .initiate (key s) (w.peer s).peerKey values.ephemeralSecret values.timestamp
      ∈ (w.step key s (.initiate values out)).past := by
  rw [step_eq rfl h]
  exact mem_past.mpr ⟨s, List.mem_append_right _ List.mem_cons_self⟩

theorem past_respond {now : Instant} {packet out msg : Bytes} {handshake : InitReceived C}
    {values : HandshakeValues C} {source : SocketAddr} {displaced : Option UInt32} {p' : Peer C}
    (hrecv : InitReceived.receive (key s) packet = .ok handshake)
    (hpeer : handshake.peerPublic = (w.peer s).peerKey)
    (h : (w.peer s).step (.respond now handshake values source out)
      = (.written displaced msg, p')) :
    .respond (key s) packet handshake values.ephemeralSecret (w.peer s).presharedKey
      ∈ (w.step key s (.respond now packet values source out)).past := by
  have hop : (Action.respond now packet values source out).op (key s) (w.peer s).peerKey
      = some (.respond now handshake values source out) := by
    simp only [Action.op, hrecv]
    exact if_pos hpeer
  rw [step_eq hop h]
  refine mem_past.mpr ⟨s, List.mem_append_right _ ?_⟩
  simp only [Action.record, hrecv]
  exact List.mem_cons_self

theorem past_encrypt {now : Instant} {payload out packet : Bytes} {n : ℕ} {x : Session C}
    {p' : Peer C} (hcurrent : (w.peer s).current = some x)
    (h : (w.peer s).step (.encrypt now payload out) = (.encrypted n packet, p')) :
    .send x.transport payload ∈ (w.step key s (.encrypt now payload out)).past := by
  rw [step_eq rfl h]
  refine mem_past.mpr ⟨s, List.mem_append_right _ ?_⟩
  simp only [Action.record, hcurrent]
  exact List.mem_cons_self

variable (hC : C.Correct)
include hC

/-- Answering what the other side wrote is ideal. -/
theorem ideal_respond {i e : C.Secret} {ts : C.Tai64N} {sender : UInt32} {packet : Bytes}
    (hmsg : IsInit sender (InitTranscript.ofInitiator i (C.publicKey (key s)) e ts) packet)
    (hpeer : (w.peer s).peerKey = C.publicKey i)
    (hpast : .initiate i (C.publicKey (key s)) e ts ∈ w.past) {values : HandshakeValues C}
    (hfresh : C.publicKey values.ephemeralSecret ∉ w.used) (now : Instant) (source : SocketAddr)
    (out : Bytes) : w.Ideal key s (.respond now packet values source out) := by
  refine ⟨hfresh, ?_⟩
  dsimp only
  rw [hpeer, InitTranscript.ofPacket_eq hC hmsg, hmsg.timestamp_eq]
  exact unforged_of_sealed hC.opened_sealed hpast (List.mem_cons_of_mem _ List.mem_cons_self)

/-- So is accepting the response to the initiation that is pending. -/
theorem ideal_handshakeResponse {sent : InitSent C} {index sender : UInt32}
    {recv : InitReceived C} {r e : C.Secret} {packet resp : Bytes} {psk : Option PresharedKey}
    (hpending : (w.peer s).pending = some ⟨sent, index⟩)
    (hsame : SameInitiation (key s) sent recv)
    (hpsk : effectivePsk (w.peer s).presharedKey = effectivePsk psk)
    (hresp : IsResp sender recv.indexInitiator (C.publicKey e)
      (C.sealed (RespTranscript.ofResponder recv e psk).tagKey 0
        (C.asRef (RespTranscript.ofResponder recv e psk).h) []) resp)
    (hpast : .respond r packet recv e psk ∈ w.past) (now : Instant) (source : SocketAddr) :
    w.Ideal key s (.handshakeResponse now resp source) := by
  intro q hq
  cases hpending.symm.trans hq
  dsimp only
  rw [RespTranscript.ofPacket_eq hC hsame hpsk hresp, hresp.tag_eq]
  exact unforged_of_sealed hC.opened_sealed hpast List.mem_cons_self

/-- So is opening a data packet of the session that sends to this one. -/
theorem ideal_decrypt {k : Peer.Slot} {y : Session C} {x : Transport C} {receiver peerIndex : UInt32}
    {payload : Bytes} (hmatch : (w.peer s).matching receiver = some (k, y))
    (hkey : x.sendAead = y.transport.recvAead) (hpast : .send x payload ∈ w.past) (now : Instant)
    (source : SocketAddr) :
    w.Ideal key s (.decrypt now receiver
      (dataWire peerIndex x.sendCounter (C.sealed x.sendAead x.sendCounter [] payload)) source) := by
  intro k' y' hmatch'
  cases hmatch.symm.trans hmatch'
  rw [dataWire_counter, u64FromLe_u64ToLe, dataWire_field, ← hkey]
  exact unforged_of_sealed hC.opened_sealed hpast List.mem_cons_self

end Genuine

/-! ### An exchange -/

section Honest

variable (hC : C.Correct) (key : Side → C.Secret) (r : Side) (e e' : C.Secret) (ts : C.Tai64N)
  (now : Instant) (addr : SocketAddr)
  (payload : Bytes)

/-- The network passes on an initiation and a response.  Side `r` answers. -/
def handshake (initMsg respMsg : Bytes) : List (Side × Action C) :=
  [(.a, .initiate ⟨100, e, ts⟩ (List.replicate initMsgLength 0)),
    (r, .respond now initMsg ⟨200, e', ts⟩ addr (List.replicate respMsgLength 0)),
    (.a, .handshakeResponse now respMsg addr)]

/-- The network passes on one data packet. -/
def transfer (dataMsg : Bytes) : List (Side × Action C) :=
  [(.a, .encrypt now payload (List.replicate (packetLen payload.length) 0)),
    (r, .decrypt now 200 dataMsg addr)]

/-- Side `r` can answer for side `b`: it has the public key that side `a`
expects, and expects the one that side `a` has. -/
def Answers : Prop :=
  C.publicKey (key r) = C.publicKey (key .b) ∧ C.publicKey (key r.other) = C.publicKey (key .a)

variable {key r} in
include hC in
/-- A handshake with a side that can answer completes. -/
theorem exists_handshake (hr : Answers key r) (hne : C.publicKey e' ≠ C.publicKey e)
    (hes : C.wasContributory (C.diffieHellman e (C.publicKey (key .b))) = true)
    (hss : C.wasContributory (C.diffieHellman (key .a) (C.publicKey (key .b))) = true)
    (hee : C.wasContributory (C.diffieHellman e (C.publicKey e')) = true) :
    ∃ initMsg respMsg c w,
      (start key).IdealRun key (handshake r e e' ts now addr initMsg respMsg) ∧
      (start key).run key (handshake r e e' ts now addr initMsg respMsg) = w ∧
      (w.peer .a).endpoint = some addr ∧
      (w.peer .a).current
        = some (Session.new (InitiatorEstablished.finish ⟨100, 200, c⟩) now) ∧
      (w.peer r).next = some (Session.new (ReceiverEstablished.finish ⟨200, 100, c⟩) now) ∧
      w.events = [] := by
  obtain ⟨hself, hother⟩ := hr
  rw [← hself] at hes hss
  -- side `a` writes an initiation
  obtain ⟨hfail, -⟩ | ⟨-, -, mac1, initMsg, hinit, hinitMsg⟩ :=
    InitSent.initiate_cases (key .a) (C.publicKey (key r)) 100 e ts
      (Generator.new C (C.publicKey (key r))) (List.replicate initMsgLength 0)
  · rcases hfail with hshort | hnc
    · simp at hshort
    · cases hes.symm.trans hnc
  have hreceived := hinitMsg.received hC hes hss
  generalize hsent : InitSent.mk 100 e _ _ = sent at hinit
  generalize hrecv : InitReceived.mk _ _ _ _ _ _ = recv at hreceived
  have hsame : SameInitiation (key .a) sent recv := by
    rw [← hsent, ← hrecv]
    exact ⟨rfl, rfl, rfl, rfl, rfl⟩
  have heph : sent.ephemeralSecretInitiator = e := by rw [← hsent]
  have hidx : sent.indexInitiator = 100 := by rw [← hsent]
  obtain ⟨w₁, h₁, hpend₁, hpsk₁, hr₁, hused₁, hpast₁, hev₁⟩ : ∃ w, (start key).step key .a
      (.initiate ⟨100, e, ts⟩ (List.replicate initMsgLength 0)) = w ∧
      (w.peer .a).pending = some ⟨sent, 100⟩ ∧ (w.peer .a).presharedKey = none ∧
      ((w.peer r).peerKey = C.publicKey (key .a) ∧ (w.peer r).presharedKey = none ∧
        (w.peer r).lastHandshakeTimestamp = none) ∧ w.used = [C.publicKey e] ∧
      .initiate (key .a) (C.publicKey (key r)) e ts ∈ w.past ∧ w.events = [] := by
    rw [hself] at hinit ⊢
    refine ⟨_, step_eq rfl (Peer.step_initiate_ok (by simp) hinit), rfl, rfl, ?_, rfl,
      List.mem_cons_self, rfl⟩
    cases r <;> exact ⟨hother, rfl, rfl⟩
  obtain ⟨hkey₁, hnone₁, hlast₁⟩ := hr₁
  -- side `r` receives it and writes a response
  obtain ⟨gen, respMsg, hresp, hrespMsg, hansw⟩ := honest_response hC (e := e') none none 200 ts
    (w₁.peer r).cookieGenerator (List.replicate respMsgLength 0) hsame
    (by rw [heph]; exact hee) rfl (by simp)
  have hopen := InitReceived.receive_ok_iff.mpr hreceived
  rw [hidx] at hresp hansw
  generalize hc : (RespTranscript.ofResponder recv e' none).constr = c at hresp hansw
  obtain ⟨w₂, h₂, hpend₂, hpsk₂, hnext₂, hpast₂, hev₂⟩ : ∃ w, w₁.step key r
      (.respond now initMsg ⟨200, e', ts⟩ addr (List.replicate respMsgLength 0)) = w ∧
      (w.peer .a).pending = some ⟨sent, 100⟩ ∧ (w.peer .a).presharedKey = none ∧
      (w.peer r).next = some (Session.new (ReceiverEstablished.finish ⟨200, 100, c⟩) now) ∧
      .respond (key r) initMsg recv e' none ∈ w.past ∧ w.events = [] := by
    have hop : (Action.respond now initMsg ⟨200, e', ts⟩ addr (List.replicate respMsgLength 0)).op
        (key r) (w₁.peer r).peerKey
          = some (.respond now recv ⟨200, e', ts⟩ addr (List.replicate respMsgLength 0)) := by
      simp only [Action.op, hopen]
      rw [hkey₁]
      exact if_pos hsame.peerPublic_eq
    have hstep : (w₁.peer r).step (.respond now recv ⟨200, e', ts⟩ addr
        (List.replicate respMsgLength 0)) = _ :=
      Peer.step_respond_ok hlast₁ (by simp) (by rw [hnone₁]; exact hresp)
    refine ⟨_, step_eq hop hstep, ?_, ?_, ?_, ?_, ?_⟩
    · cases r <;> exact hpend₁
    · cases r <;> exact hpsk₁
    · simp only [Function.update_self]
    · rw [← step_eq hop hstep, ← hnone₁]
      exact past_respond hopen (hsame.peerPublic_eq.trans hkey₁.symm) hstep
    · rw [hev₁]
      rfl
  -- side `a` accepts it
  have hansw' := InitSent.responseReceived_ok_iff.mpr hansw
  have hstep₃ : (w₂.peer .a).step (.handshakeResponse (key .a) now respMsg addr) = _ :=
    Peer.step_handshakeResponse_ok hpend₂ (by rw [hpsk₂]; exact hansw')
  refine ⟨initMsg, respMsg, c, _, ?_, rfl, ?_⟩
  · -- what is opened was sealed by the call before
    simp only [handshake, IdealRun, h₁, h₂]
    refine ⟨List.not_mem_nil, ideal_respond hC hinitMsg hkey₁ hpast₁ ?_ _ _ _,
      ideal_handshakeResponse hC hpend₂ hsame (by rw [hpsk₂]) hrespMsg hpast₂ _ _, trivial⟩
    rw [hused₁]
    exact fun hmem => hne (List.mem_singleton.mp hmem)
  · simp only [run, handshake, List.foldl_cons, List.foldl_nil, h₁, h₂]
    rw [step_eq rfl hstep₃]
    refine ⟨rfl, rfl, ?_, ?_⟩
    · cases r <;> exact hnext₂
    · rw [hev₂]
      rfl

variable {key r} in
include hC in
/-- **An exchange delivers.**  It satisfies the assumptions on cryptography
at every step, the payload arrives at the side that answered, and both this
side and the initiator end with a send session.  The data packet is not
taken twice. -/
theorem exists_exchange (hr : Answers key r) (hne : C.publicKey e' ≠ C.publicKey e)
    (hes : C.wasContributory (C.diffieHellman e (C.publicKey (key .b))) = true)
    (hss : C.wasContributory (C.diffieHellman (key .a) (C.publicKey (key .b))) = true)
    (hee : C.wasContributory (C.diffieHellman e (C.publicKey e')) = true) :
    ∃ initMsg respMsg dataMsg w,
      (start key).IdealRun key
        (handshake r e e' ts now addr initMsg respMsg ++ transfer r now addr payload dataMsg) ∧
      (start key).run key
        (handshake r e e' ts now addr initMsg respMsg ++ transfer r now addr payload dataMsg) = w ∧
      w.events = [.encrypted .a payload, .decrypted r payload] ∧
      (∀ s ∈ [.a, r], (w.peer s).current.isSome = true) ∧
      ∀ source, ((w.peer r).step (.decrypt now 200 dataMsg source)).1 = .error .replay := by
  obtain ⟨initMsg, respMsg, c, w, hideal, hrun, hend, hcur, hnext, hev⟩ :=
    exists_handshake hC e e' ts now addr hr hne hes hss hee
  -- side `a` sends a data packet
  obtain ⟨w₁, h₁, hcur₁, hr₁, hpast₁, hev₁⟩ : ∃ w', w.step key .a
      (.encrypt now payload (List.replicate (packetLen payload.length) 0)) = w' ∧
      (w'.peer .a).current.isSome = true ∧ (w'.peer r).next = (w.peer r).next ∧
      .send (InitiatorEstablished.finish ⟨100, 200, c⟩) payload ∈ w'.past ∧
      w'.events = [.encrypted .a payload] := by
    have hstep : (w.peer .a).step (.encrypt now payload
        (List.replicate (packetLen payload.length) 0)) = _ :=
      Peer.step_encrypt_ok hend hcur (Session.expired_new _ _) (by simp)
        (show (0 : UInt64) < rejectAfterMessages by decide)
    refine ⟨_, step_eq rfl hstep, rfl, ?_, ?_, ?_⟩
    · cases r <;> rfl
    · rw [← step_eq rfl hstep]
      exact past_encrypt hcur hstep
    · rw [hev]
      rfl
  -- side `r` opens it on the session it installed
  obtain ⟨dataMsg, hdata⟩ : ∃ m, m = dataWire 200 0
    (C.sealed (C.kdf (C.asRef c) [] 0) 0 [] payload) := ⟨_, rfl⟩
  generalize hx : Session.new (ReceiverEstablished.finish ⟨200, 100, c⟩) now = x at hnext
  have hindex : x.ourIndex = 200 := by rw [← hx]; rfl
  have hlive : x.expired now = false := by rw [← hx]; exact Session.expired_new _ _
  have hauth : x.transport.Authentic dataMsg 0 payload := by
    rw [← hx, hdata]
    exact Transport.authentic_dataWire hC.opened_sealed rfl rfl 0 payload
  obtain ⟨replay, hreplay, hseen⟩ := (ReplayFilter.validate_spec ReplayFilter.accepted_new 0).1
    ⟨by decide, List.not_mem_nil, Nat.zero_le _⟩
  have hnext₁ : (w₁.peer r).next = some x := hr₁.trans hnext
  have hstep₂ : (w₁.peer r).step (.decrypt now x.ourIndex dataMsg addr) = _ :=
    Peer.step_decrypt_ok hnext₁ hlive hauth
      (by rw [← hx]; exact hreplay)
  rw [hindex] at hstep₂
  refine ⟨initMsg, respMsg, dataMsg, _, idealRun_append.mpr ⟨hideal, ?_⟩, rfl, ?_⟩
  · rw [hrun]
    simp only [transfer, IdealRun, h₁]
    refine ⟨trivial, ?_, trivial⟩
    rw [hdata, ← hindex]
    exact ideal_decrypt hC (Peer.matching_next hnext₁) (by rw [← hx]; rfl) hpast₁ _ _
  · rw [run_append, hrun]
    simp only [run, transfer, List.foldl_cons, List.foldl_nil, h₁]
    rw [step_eq rfl hstep₂]
    refine ⟨?_, ?_, ?_⟩
    · simp only [hev₁, Action.observe, Transport.take_relocated]
      rfl
    · intro s hs
      rcases List.mem_pair.mp hs with rfl | rfl
      · cases r
        · rfl
        · exact hcur₁
      · simp only [Function.update_self, Option.isSome_some]
    · intro source
      have hrefused := (ReplayFilter.validate_spec hseen 0).2 fun h => h.2.1 List.mem_cons_self
      rw [← hindex]
      simp only [Function.update_self]
      exact Peer.step_decrypt_replay (x := { x with replay := replay }) rfl rfl hlive hauth
        (congrArg Prod.fst hrefused)

end Honest

/-- What a side does in a run is a run of its peer. -/
theorem exists_peer_run (w : World C) (actions : List (Side × Action C)) (s : Side) :
    ∃ ops, (w.run key actions).peer s = (w.peer s).run ops := by
  induction actions generalizing w with
  | nil => exact ⟨[], rfl⟩
  | cons x actions ih =>
      obtain ⟨ops, hops⟩ := ih (w.step key x.1 x.2)
      have hrun : (w.run key (x :: actions)).peer s = ((w.step key x.1 x.2).peer s).run ops := hops
      by_cases hs : s = x.1
      · subst hs
        cases hop : x.2.op (key x.1) (w.peer x.1).peerKey with
        | none => exact ⟨ops, by rw [hrun, step, hop]⟩
        | some op =>
            refine ⟨op :: ops, ?_⟩
            rw [hrun, step_peer_self hop]
            rfl
      · have hother : s = x.1.other := by revert hs; cases s <;> cases x.1 <;> decide
        refine ⟨ops, ?_⟩
        rw [hrun, hother, step_peer_other]

/-- Two sides of `symbolic` with their own keys. -/
def symbolicKey : Side → Crypto.symbolic.Secret
  | .a => (1 : UInt8)
  | .b => (2 : UInt8)

/-- An address for each side. -/
def symbolicAddr : Side → SocketAddr
  | .a => .v4 ⟨[10, 0, 0, 1], rfl⟩ 51820
  | .b => .v4 ⟨[10, 0, 0, 2], rfl⟩ 51820

theorem answers_symbolicKey : Answers symbolicKey .b := ⟨rfl, rfl⟩

end World

/-! ### Failed operations -/

namespace Peer

/-- **Failed operations leave the peer untouched.** -/
theorem step_error_unchanged (key : PublicKey) (ops : List (Op C)) (op : Op C) (e : PeerError)
    (h : (((new C key).run ops).step op).1 = .error e) :
    (((new C key).run ops).step op).2 = (new C key).run ops := by
  have heff := step_effect _ (wellFormed_run (wellFormed_new key) ops) op
  generalize (((new C key).run ops).step op).2 = p' at heff
  rw [h] at heff
  cases heff
  rfl

/-- A data packet that comes a second time, from somewhere else, is such a
failure: the session it confirmed, its replay window and the endpoint stay
as the first one left them. -/
theorem step_error_unchanged_replayed : ∃ (ops : List (Op Crypto.symbolic)) (packet : Bytes)
    (source : SocketAddr),
    ((new Crypto.symbolic (Crypto.symbolic.publicKey (1 : UInt8))).run ops).current.isSome = true ∧
    (((new Crypto.symbolic (Crypto.symbolic.publicKey (1 : UInt8))).run ops).step
      (.decrypt default 200 packet source)).1 = .error .replay ∧
    (((new Crypto.symbolic (Crypto.symbolic.publicKey (1 : UInt8))).run ops).step
      (.decrypt default 200 packet source)).2
        = (new Crypto.symbolic (Crypto.symbolic.publicKey (1 : UInt8))).run ops := by
  obtain ⟨initMsg, respMsg, dataMsg, w, -, hrun, -, hcurrent, hreplay⟩ :=
    World.exists_exchange Crypto.symbolic_correct (3 : UInt8) (4 : UInt8) (0 : Fin (2 ^ 64))
      default (.v4 (List.Vector.replicate 4 0) 0) [7, 7] World.answers_symbolicKey (by decide)
      rfl rfl rfl
  obtain ⟨ops, hops⟩ := World.exists_peer_run (World.start World.symbolicKey) _ .b
  rw [hrun] at hops
  have hfail := hreplay (.v4 (List.Vector.replicate 4 1) 1)
  have hcur := hcurrent .b (by decide)
  rw [hops] at hfail hcur
  exact ⟨ops, dataMsg, _, hcur, hfail, step_error_unchanged _ ops _ .replay hfail⟩

end Peer

end Tunstile
