/-
Tunstile/Meeting.lean

Two drivers meet, and what they exchange is authentic.

What one driver delivers was queued on the other (`delivered_was_queued`), if
the calls of their machines are ideal in the sense of `World.lean`.  The calls
of two honest drivers are.  Side `a` connects with a payload that waits; the
network carries the initiation, the response (`Asked`) and the payload.  What
is opened on the way was sealed by the call before, so each call is ideal as
soon as the two ephemeral keys differ, and the payload is delivered
(`Asked.delivered`).
-/
import Tunstile.Opening

namespace Tunstile

variable {C : Crypto}

theorem World.used_step {key : Side → C.Secret} (w : World C) (s : Side) (a : Action C) :
    (w.step key s a).used = w.used ++ a.drawn := by
  cases hop : a.op (key s) (w.peer s).peerKey with
  | none => simp only [step, hop]
  | some op => simp only [step, hop]

/-- One side sends an initiation, which reaches the other side and is
answered. -/
theorem World.idealRun_asking {key : Side → C.Secret} (hC : C.Correct) {w : World C}
    {values values' : HandshakeValues C} {sent : InitSent C} {cookies cookies' : Generator C}
    {recv : InitReceived C} {established : ReceiverEstablished C} {msg resp : Bytes}
    (hused : w.used = []) (hkey : (w.peer .a).peerKey = C.publicKey (key .b))
    (hkey' : (w.peer .b).peerKey = C.publicKey (key .a))
    (hts : (w.peer .b).lastHandshakeTimestamp = none)
    (hinit : InitSent.initiate (key .a) (w.peer .a).peerKey values.index values.ephemeralSecret
      values.timestamp (w.peer .a).cookieGenerator (List.replicate initMsgLength 0)
        = (.ok sent, cookies, msg))
    (hmsg : IsInit values.index (InitTranscript.ofInitiator (key .a) (C.publicKey (key .b))
      values.ephemeralSecret values.timestamp) msg)
    (hreceived : InitReceived.receive (key .b) msg = .ok recv)
    (hpeer : recv.peerPublic = C.publicKey (key .a))
    (hresp : recv.respond values'.index values'.ephemeralSecret (w.peer .b).presharedKey
      values'.timestamp (w.peer .b).cookieGenerator (List.replicate respMsgLength 0)
        = (.ok established, cookies', resp))
    (hne : C.publicKey values'.ephemeralSecret ≠ C.publicKey values.ephemeralSecret)
    (now : Instant) (endpoint source : SocketAddr) :
    let actions := [(.a, .setEndpoint endpoint),
      (.a, .initiate values (List.replicate initMsgLength 0)),
      (.b, .respond now msg values' source (List.replicate respMsgLength 0))]
    w.IdealRun key actions ∧ .respond (key .b) msg recv values'.ephemeralSecret
      (w.peer .b).presharedKey ∈ (w.run key actions).past := by
  have hother (w : World C) (a : Action C) : (w.step key .a a).peer .b = w.peer .b :=
    step_peer_other key w .a a
  have hset : (w.step key .a (.setEndpoint endpoint)).peer .a
      = ((w.peer .a).step (.setEndpoint endpoint)).2 := step_peer_self rfl
  obtain ⟨w₁, h₁, hpeer₁, hother₁, hused₁⟩ : ∃ w₁, w.step key .a (.setEndpoint endpoint) = w₁ ∧
      w₁.peer .a = (w.peer .a).setEndpoint endpoint ∧ w₁.peer .b = w.peer .b ∧ w₁.used = [] :=
    ⟨_, rfl, hset, hother _ _, (used_step _ _ _).trans (by rw [hused]; rfl)⟩
  have hwritten : (w₁.peer .a).step (.initiate (key .a) values (List.replicate initMsgLength 0))
      = _ := Peer.step_initiate_ok List.length_replicate.ge (by rw [hpeer₁]; exact hinit)
  obtain ⟨w₂, h₂, hpast₂, hother₂, hused₂⟩ : ∃ w₂,
      w₁.step key .a (.initiate values (List.replicate initMsgLength 0)) = w₂ ∧
      .initiate (key .a) (w₁.peer .a).peerKey values.ephemeralSecret values.timestamp ∈ w₂.past ∧
      w₂.peer .b = w.peer .b ∧ w₂.used = [C.publicKey values.ephemeralSecret] :=
    ⟨_, rfl, past_initiate hwritten, (hother _ _).trans hother₁,
      (used_step _ _ _).trans (by rw [hused₁]; rfl)⟩
  have hinitiated : (w₁.peer .a).peerKey = C.publicKey (key .b) := by
    rw [hpeer₁]
    exact hkey
  rw [hinitiated] at hpast₂
  have hanswered : (w₂.peer .b).step (.respond now recv values' source
      (List.replicate respMsgLength 0)) = _ :=
    Peer.step_respond_ok (by rw [hother₂]; exact hts) List.length_replicate.ge
      (by rw [hother₂]; exact hresp)
  have hpast := past_respond hreceived (by rw [hother₂]; exact hpeer.trans hkey'.symm) hanswered
  rw [hother₂] at hpast
  have hideal₁ : w₁.Ideal key .a (.initiate values (List.replicate initMsgLength 0)) := by
    show _ ∉ w₁.used
    rw [hused₁]
    exact List.not_mem_nil
  have hideal₂ := ideal_respond hC hmsg (by rw [hother₂]; exact hkey') hpast₂
    (by rw [hused₂]; exact fun hmem => hne (List.mem_singleton.mp hmem)) now source
    (List.replicate respMsgLength 0)
  refine ⟨⟨trivial, ?_⟩, ?_⟩
  · rw [h₁]
    refine ⟨hideal₁, ?_⟩
    rw [h₂]
    exact ⟨hideal₂, trivial⟩
  · rw [run, List.foldl_cons, List.foldl_cons, List.foldl_cons, List.foldl_nil, h₁, h₂]
    exact hpast

/-- The side that asked accepts the response, encrypts a payload, and the
packet reaches the side that answered. -/
theorem World.idealRun_delivering {key : Side → C.Secret} (hC : C.Correct) {w : World C}
    {sent : InitSent C} {index sender : UInt32} {recv : InitReceived C} {r e : C.Secret}
    {packet resp : Bytes} {psk : Option PresharedKey} {established : InitiatorEstablished C}
    {y : Session C} {now sending : Instant}
    (hpending : (w.peer .a).pending = some ⟨sent, index⟩)
    (hsame : SameInitiation (key .a) sent recv)
    (hpsk : effectivePsk (w.peer .a).presharedKey = effectivePsk psk)
    (hisResp : IsResp sender recv.indexInitiator (C.publicKey e)
      (C.sealed (RespTranscript.ofResponder recv e psk).tagKey 0
        (C.asRef (RespTranscript.ofResponder recv e psk).h) []) resp)
    (hpast : .respond r packet recv e psk ∈ w.past)
    (hresp : sent.responseReceived (key .a) (w.peer .a).presharedKey resp = .ok established)
    (hnext : (w.peer .b).next = some y)
    (hkey : established.finish.sendAead = y.transport.recvAead)
    (hlive : (Session.new established.finish now).expired sending = false) (opening : Instant)
    (payload : Bytes) (source source' : SocketAddr) :
    w.IdealRun key [(.a, .handshakeResponse now resp source),
      (.a, .encrypt sending payload (List.replicate (packetLen payload.length) 0)),
      (.b, .decrypt opening y.ourIndex (dataPacket C y.ourIndex y.transport.recvAead (0, payload))
        source')] := by
  have hstep : (w.peer .a).step (.handshakeResponse (key .a) now resp source) = _ :=
    Peer.step_handshakeResponse_ok hpending hresp
  have hother (w : World C) (a : Action C) : (w.step key .a a).peer .b = w.peer .b :=
    step_peer_other key w .a a
  obtain ⟨w₁, h₁, hpeer₁, hother₁⟩ : ∃ w₁, w.step key .a (.handshakeResponse now resp source) = w₁ ∧
      w₁.peer .a = _ ∧ w₁.peer .b = w.peer .b :=
    ⟨_, rfl, (step_peer_self rfl).trans (congrArg Prod.snd hstep), hother _ _⟩
  have hencrypt : (w₁.peer .a).step (.encrypt sending payload
      (List.replicate (packetLen payload.length) 0)) = _ :=
    Peer.step_encrypt_ok (by rw [hpeer₁]) (by rw [hpeer₁]) hlive List.length_replicate.ge
      (show (0 : UInt64) < rejectAfterMessages by decide)
  have hsealed : .send established.finish payload ∈ (w₁.step key .a (.encrypt sending payload
      (List.replicate (packetLen payload.length) 0))).past :=
    past_encrypt (by rw [hpeer₁]) hencrypt
  refine ⟨ideal_handshakeResponse hC hpending hsame hpsk hisResp hpast now source, ?_⟩
  rw [h₁]
  refine ⟨trivial, ?_, trivial⟩
  rw [dataPacket, ← hkey]
  exact ideal_decrypt hC (Peer.matching_next (by rw [hother, hother₁, hnext])) hkey hsealed opening
    source'

namespace Link

/-! ### A handshake -/

/-- Side `a` connects, has a payload to send, and its initiation arrives. -/
def asking (addr : Side → SocketAddr) (payload : Bytes) (recv : InitReceived C) :
    List (Side × Actor.Event C) :=
  [(.a, .actions [.connect (addr .b)]), (.a, .actions [.sendData payload]),
    (.b, .actions [.recvHandshakeInit recv (addr .a)])]

/-- The response arrives, and then a data message. -/
def delivering (addr : Side → SocketAddr) (resp data : Bytes) (index : UInt32) :
    List (Side × Actor.Event C) :=
  [(.a, .actions [.recvHandshakeResp resp (addr .b)]),
    (.b, .actions [.recvData data index (addr .a)])]

section

variable (key : Side → C.Secret) (presharedKey : Side → Option PresharedKey)
  (persistentKeepalive : Side → Option Duration) (env : Side → Env C) (addr : Side → SocketAddr)
  (t : Side → Instant) (payload : Bytes)

/-- Two new drivers, of which one has asked for a session and the other has
answered, with the messages, the deeds and the world that they lead to. -/
structure Asked where
  sent : InitSent C
  msg : Bytes
  recv : InitReceived C
  resp : Bytes
  session : Session C
  log : List (Side × Deed C)
  received : InitReceived.receive (key .b) msg = .ok recv
  same : SameInitiation (key .a) sent recv
  secret : sent.ephemeralSecretInitiator = (env .a).values.head.ephemeralSecret
  isResp : IsResp (env .b).values.head.index recv.indexInitiator
    (C.publicKey (env .b).values.head.ephemeralSecret)
    (C.sealed (RespTranscript.ofResponder recv (env .b).values.head.ephemeralSecret
        (presharedKey .b)).tagKey 0
      (C.asRef (RespTranscript.ofResponder recv (env .b).values.head.ephemeralSecret
        (presharedKey .b)).h) []) resp
  transport_eq : session.transport = ReceiverEstablished.finish ⟨(env .b).values.head.index,
    recv.indexInitiator, (RespTranscript.ofResponder recv
      (env .b).values.head.ephemeralSecret (presharedKey .b)).constr⟩
  replay_eq : session.replay = .new
  asks : Actor.Asks (t .a) (addr .b) [payload] (key .a) (presharedKey .a)
    ⟨sent, (env .a).values.head.index⟩ msg
    (((start key presharedKey persistentKeepalive env).run (asking addr payload recv)).actor .a)
  answers : Actor.Answers (t .b) (addr .a) [] session resp
    (((start key presharedKey persistentKeepalive env).run (asking addr payload recv)).actor .b)
  deeds : Deeds (start key presharedKey persistentKeepalive env) (asking addr payload recv) log
  ideal : ∀ wire : Side → InitReceived C → Bytes, wire .b recv = msg →
    (World.start key).IdealRun key (setUp presharedKey ++ calls wire log) ∧
      .respond (key .b) msg recv (env .b).values.head.ephemeralSecret (presharedKey .b)
        ∈ ((World.start key).run key (setUp presharedKey ++ calls wire log)).past

/-- The drivers when the initiation has arrived. -/
theorem actor_asking (recv : InitReceived C) :
    let l := (start key presharedKey persistentKeepalive env).run (asking addr payload recv)
    l.actor .a = ((Actor.spawn (key .a) (C.publicKey (key .b)) (presharedKey .a)
        (persistentKeepalive .a) (env .a)).handleMessage (.connect (addr .b))).flushSends
          [payload] ∧
      l.actor .b = (Actor.spawn (key .b) (C.publicKey (key .a)) (presharedKey .b)
        (persistentKeepalive .b) (env .b)).handleMessage (.recvHandshakeInit recv (addr .a)) := by
  intro l
  have hevents : eventsOf .a (asking addr payload recv)
      = [.actions [.connect (addr .b)], .actions [.sendData payload]] := rfl
  have hevents' : eventsOf .b (asking addr payload recv)
      = [.actions [.recvHandshakeInit recv (addr .a)]] := rfl
  constructor
  · rw [run_apply, hevents, Actor.run, List.foldl_cons, List.foldl_cons, List.foldl_nil,
      Actor.turn_action ((start key presharedKey persistentKeepalive env).actor .a)
        (fun _ h => by cases h)]
    rfl
  · rw [run_apply, hevents', Actor.run_singleton, Actor.turn_action _ (fun _ h => by cases h)]
    rfl

variable {key env t}

theorem exists_asked (hC : C.Correct) (hfair : ∀ s, (env s).Fair (t s))
    (hes : C.wasContributory (C.diffieHellman (env .a).values.head.ephemeralSecret
      (C.publicKey (key .b))) = true)
    (hss : C.wasContributory (C.diffieHellman (key .a) (C.publicKey (key .b))) = true)
    (hne : C.publicKey (env .b).values.head.ephemeralSecret
      ≠ C.publicKey (env .a).values.head.ephemeralSecret) :
    Nonempty (Asked key presharedKey persistentKeepalive env addr t payload) := by
  -- the two messages
  obtain ⟨sent, cookies, msg, recv, hinit, hmsg, hreceived, hsame, hindex, hsecret, -⟩ :=
    honest_initiation hC (i := key .a) (r := key .b) (e := (env .a).values.head.ephemeralSecret)
      (env .a).values.head.index (env .a).values.head.timestamp
      (Generator.new C (C.publicKey (key .b))) (List.replicate initMsgLength 0) hes hss
      List.length_replicate.ge
  obtain ⟨hshort, -⟩ | ⟨-, mac1, resp, hrespond, hisResp⟩ := recv.respond_cases
    (env .b).values.head.index (env .b).values.head.ephemeralSecret (presharedKey .b)
    (env .b).values.head.timestamp (Generator.new C (C.publicKey (key .a)))
    (List.replicate respMsgLength 0)
  · rw [List.length_replicate] at hshort
    exact absurd hshort (lt_irrefl _)
  rw [List.drop_eq_nil_of_le List.length_replicate.le, List.append_nil] at hinit hrespond
  have hopen := InitReceived.receive_ok_iff.mpr hreceived
  -- the drivers
  obtain ⟨hasks, hconnect, hqueue⟩ := Actor.spawn_asks (presharedKey .a) (persistentKeepalive .a)
    (hfair .a) hinit (addr .b) [payload] (by rw [List.length_singleton]; decide)
  obtain ⟨hanswers, -, hanswer⟩ := Actor.spawn_answers (key .b) (persistentKeepalive .b)
    (hfair .b) hrespond (addr .a) [] (Nat.zero_le _)
  rw [Actor.flushSends_nil] at hanswers hanswer
  have hdeeds : Deeds (start key presharedKey persistentKeepalive env)
      (asking addr payload recv) _ :=
    .cons (by rw [Actor.turn_action _ (fun _ h => by cases h)]; exact hconnect)
      (.settings _ (.own _ rfl .nil)) <|
    .cons (by
        rw [turn_self, Actor.turn_action _ (fun _ h => by cases h)]
        exact .single (Actor.Act.book hqueue))
      (.settings (.sendData payload) .nil) <|
    .cons (by rw [Actor.turn_action _ (fun _ h => by cases h)]; exact hanswer)
      (.message _ rfl .nil) (.nil _)
  obtain ⟨hactor, hactor'⟩ :=
    actor_asking key presharedKey persistentKeepalive env addr payload recv
  rw [← hactor] at hasks
  rw [← hactor'] at hanswers
  refine ⟨⟨sent, msg, recv, resp, _, _, hopen, hsame, hsecret, hisResp, rfl, rfl, hasks, hanswers,
    hdeeds, fun wire hwire => ?_⟩⟩
  -- the world
  have hcalls := World.idealRun_asking (w := (World.start key).run key (setUp presharedKey)) hC rfl
    rfl rfl rfl hinit hmsg hopen hsame.peerPublic_eq hrespond hne
    (Actor.spawn (key .b) (C.publicKey (key .a)) (presharedKey .b) (persistentKeepalive .b)
      (env .b)).now (addr .b) (addr .a)
  rw [World.idealRun_append, World.run_append]
  rw [← hwire] at hcalls ⊢
  exact ⟨⟨⟨trivial, trivial, trivial⟩, hcalls.1⟩, hcalls.2⟩

variable {presharedKey persistentKeepalive addr payload}

/-- The initiation came in the message. -/
theorem Asked.allReceived (h : Asked key presharedKey persistentKeepalive env addr t payload)
    {wire : Side → InitReceived C → Bytes} (hwire : wire .b h.recv = h.msg) :
    AllReceived key wire (asking addr payload h.recv) := by
  intro s handshake endpoint hmem
  cases s with
  | a => simp [asking, eventsOf, Actor.received, Actor.Event.batch] at hmem
  | b =>
      have heq : handshake = h.recv := by
        simp [asking, eventsOf, Actor.received, Actor.Event.batch] at hmem
        exact hmem.1
      subst heq
      exact ⟨hwire.symm ▸ h.received, h.same.peerPublic_eq⟩

/-- The machines of the drivers are the peers of the world. -/
theorem Asked.mirrors (h : Asked key presharedKey persistentKeepalive env addr t payload)
    (wire : Side → InitReceived C → Bytes) (hwire : wire .b h.recv = h.msg) :
    Mirrors key ((start key presharedKey persistentKeepalive env).run (asking addr payload h.recv))
      ((World.start key).run key (setUp presharedKey ++ calls wire h.log)) := by
  rw [World.run_append]
  exact (mirrors_run h.deeds mirrors_start (fun _ => Peer.healthy_new _ _) (fun _ => rfl)
    (h.allReceived hwire)).1

/-- The first data message of the session, with the payload that waited. -/
def Asked.data (h : Asked key presharedKey persistentKeepalive env addr t payload) : Bytes :=
  dataPacket C h.session.ourIndex h.session.transport.recvAead (0, payload)

/-- The whole exchange. -/
def Asked.events (h : Asked key presharedKey persistentKeepalive env addr t payload) :
    List (Side × Actor.Event C) :=
  asking addr payload h.recv ++ delivering addr h.resp h.data h.session.ourIndex

/-- **The payload is delivered**, and all calls on the way are ideal. -/
theorem Asked.delivered (hC : C.Correct)
    (h : Asked key presharedKey persistentKeepalive env addr t payload)
    (hpsk : effectivePsk (presharedKey .a) = effectivePsk (presharedKey .b))
    (hee : C.wasContributory (C.diffieHellman (env .a).values.head.ephemeralSecret
      (C.publicKey (env .b).values.head.ephemeralSecret)) = true) :
    (((start key presharedKey persistentKeepalive env).run h.events).actor .b).inbound
        = [payload].filter (· ≠ []) ∧
      ∃ log, Deeds (start key presharedKey persistentKeepalive env) h.events log ∧
        ∀ wire : Side → InitReceived C → Bytes, wire .b h.recv = h.msg →
          (World.start key).IdealRun key (setUp presharedKey ++ calls wire log) := by
  obtain ⟨established, hresp, hkey⟩ : ∃ established : InitiatorEstablished C,
      h.sent.responseReceived (key .a) (presharedKey .a) h.resp = .ok established ∧
      established.finish.sendAead = h.session.transport.recvAead :=
    ⟨_, InitSent.responseReceived_ok_iff.mpr
      (h.isResp.answered hC h.same hpsk (by rw [h.secret]; exact hee)), by rw [h.transport_eq]; rfl⟩
  have hasks := h.asks
  have hanswers := h.answers
  have hmirrors := h.mirrors
  have hhealthy : (((start key presharedKey persistentKeepalive env).run
      (asking addr payload h.recv)).actor .a).machine.Healthy := by
    rw [run_apply]
    exact Actor.healthy_run (Peer.healthy_new _ _) _
  generalize hl : (start key presharedKey persistentKeepalive env).run
    (asking addr payload h.recv) = l at *
  -- side `a` accepts the response and sends
  obtain ⟨now, d, keys, hlive, hsegment, hsent⟩ := Actor.answered_deeds hasks.fair hhealthy
    (addr .b) hasks.pending (by rw [hasks.presharedKey, hasks.ourKey]; exact hresp) hasks.next
    hasks.staged
  -- side `b` opens the packet
  have hnew : h.session.replay.Accepted [] := by
    rw [h.replay_eq]
    exact ReplayFilter.accepted_new
  have hfresh : Fresh [] 0 := ⟨by decide, List.not_mem_nil, Nat.zero_le _⟩
  have hopened := Actor.confirming_deeds (z := (0, payload)) hC.opened_sealed hanswers.fair
    (addr .a) hanswers.next hanswers.young hnew hfresh hanswers.staged
  obtain ⟨replay, -, -, hinbound, -⟩ := Actor.confirming_sends (z := (0, payload))
    hC.opened_sealed hanswers.fair (addr .a) hanswers.next hanswers.young hnew hfresh
    (by rw [h.transport_eq, hanswers.staged]; exact (by decide : 0 + 0 < rekeyAfterMessages.toNat))
  have hlater : Deeds l (delivering addr h.resp h.data h.session.ourIndex) _ :=
    .cons (by rw [Actor.turn_action _ (fun _ h => by cases h)]; exact hsent)
      (.message _ rfl (.own _ rfl .nil)) <|
    .cons (by rw [Actor.turn_action _ (fun _ h => by cases h)]; exact hopened)
      (.message _ rfl .nil) (.nil _)
  refine ⟨?_, _, h.deeds.append (by rw [hl]; exact hlater), fun wire hwire => ?_⟩
  · rw [Asked.events, run_append, hl]
    show (((l.turn .a _).turn .b _).actor .b).inbound = _
    rw [turn_self, turn_of_ne _ (by decide), Actor.turn_action _ (fun _ h => by cases h)]
    refine hinbound.trans ?_
    rw [hanswers.inbound]
    rfl
  · obtain ⟨hideal, hpast⟩ := h.ideal wire hwire
    have hm := hmirrors wire hwire
    rw [calls_append, ← List.append_assoc]
    refine World.idealRun_append.mpr ⟨hideal, ?_⟩
    generalize (World.start key).run key (setUp presharedKey ++ calls wire h.log) = w at *
    have hcalls := World.idealRun_delivering hC
      (by rw [hm.peer]; exact hasks.pending) h.same
      (by rw [hm.peer, hasks.presharedKey]; exact hpsk) h.isResp hpast
      (by rw [hm.peer, hasks.presharedKey]; exact hresp)
      (by rw [hm.peer]; exact hanswers.next) hkey hlive (l.actor .b).now payload (addr .b)
      (addr .a)
    rw [← hsegment] at hcalls
    exact hcalls

theorem Asked.allReceived_events
    (h : Asked key presharedKey persistentKeepalive env addr t payload)
    {wire : Side → InitReceived C → Bytes} (hwire : wire .b h.recv = h.msg) :
    AllReceived key wire h.events := by
  intro s handshake endpoint hmem
  refine h.allReceived hwire s handshake endpoint ?_
  cases s with
  | a => simp [Asked.events, asking, delivering, eventsOf, Actor.received, Actor.Event.batch] at hmem
  | b =>
      simp [Asked.events, asking, delivering, eventsOf, Actor.received, Actor.Event.batch] at hmem ⊢
      exact hmem

end

/-- **What is delivered was queued on the other side.**  Take two drivers,
each newly spawned with the other's public key, any turns of theirs in any
order, and anything whatever that arrives.  Count, on one side, the packets
handed to the inbound queue: they are among the payloads queued for sending
on the other side, each no more often than it was queued there. -/
theorem delivered_was_queued (hC : C.CollisionFree) (key : Side → C.Secret)
    (hkey : C.publicKey (key .a) ≠ C.publicKey (key .b))
    (presharedKey : Side → Option PresharedKey) (persistentKeepalive : Side → Option Duration)
    (env : Side → Env C) (hclock : ∀ s, Actor.Monotonic (env s).clock)
    (events : List (Side × Actor.Event C)) (wire : Side → InitReceived C → Bytes)
    (hwire : AllReceived key wire events) (log : List (Side × Deed C))
    (hlog : Deeds (start key presharedKey persistentKeepalive env) events log)
    (hideal : (World.start key).IdealRun key (setUp presharedKey ++ calls wire log)) (s : Side) :
    (((start key presharedKey persistentKeepalive env).run events).actor s).inbound.Subperm
      (Actor.arrivals (eventsOf s.other events)) :=
  (inbound_subperm hC hkey hwire hlog hideal s).trans
    (encryptedPayloads_sublist hclock s.other).subperm

/-- An environment for each side of `symbolic`.  The ephemeral keys differ. -/
def symbolicEnv : Side → Env Crypto.symbolic
  | .a => Actor.symbolicEnv
  | .b => { Actor.symbolicEnv with values := Stream'.const ⟨8, (4 : UInt8), Crypto.symbolicTime⟩ }

theorem symbolicEnv_fair (s : Side) : (symbolicEnv s).Fair default := by
  have hstill : (default : Instant).durationSince default < rekeyAfterTime := by decide
  cases s <;> exact ⟨fun _ => ⟨le_rfl, hstill⟩, rfl, rfl⟩

/-- A payload that was queued before the handshake is delivered after it. -/
theorem delivered_was_queued_meeting : ∃ events,
    let l := (start World.symbolicKey (fun _ => none) (fun _ => none) symbolicEnv).run events
    (l.actor .b).inbound = [[7]] ∧
      (l.actor .b).inbound.Subperm (Actor.arrivals (eventsOf .a events)) := by
  obtain ⟨h⟩ := exists_asked (fun _ => none) (fun _ => none) World.symbolicAddr [7]
    Crypto.symbolic_correct symbolicEnv_fair rfl rfl (by decide)
  obtain ⟨hinbound, log, hdeeds, hideal⟩ := h.delivered Crypto.symbolic_correct rfl rfl
  exact ⟨_, hinbound, delivered_was_queued Crypto.symbolic_collisionFree World.symbolicKey
    (by decide) (fun _ => none) (fun _ => none) symbolicEnv
    (fun s _ => by cases s <;> exact le_rfl) _ (fun _ _ => h.msg) (h.allReceived_events rfl) log
    hdeeds (hideal _ rfl) .b⟩

end Link

end Tunstile
