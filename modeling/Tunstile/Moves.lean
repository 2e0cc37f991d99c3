/-
Tunstile/Moves.lean

An actor as a transition system.

The operations of the driver call one another, read the clock in between and
end early on failures.  For what follows only a few things matter: the
machine's endpoint, its pending handshake and its sessions, the attempt in
progress, the staged payloads, the published endpoint, and what was sent.
`Quiet` lists the moves that change one of these, and `Move` adds the timer
of the handshake.  Everything else an operation does is a `Framed` change.

Moves that begin, repeat or end a handshake log a `Mark`.  Every part of a
turn is a trace of moves (`Calm.part`), and so is every turn of the event loop
(`calm_turn`, `moves_run`).  An invariant is then proved move by move.
-/
import Tunstile.Batching
import Tunstile.Parts

namespace Tunstile

variable {C : Crypto}

/-- An action that can complete a handshake. -/
def PeerAction.isResponse : PeerAction C → Bool
  | .recvHandshakeResp _ _ => true
  | _ => false

/-! ### What moves log -/

/-- An initiation that the driver decided to send: the start of its attempt,
when it was decided on, when the next one was counted from, and what the
machine wrote, unless it refused. -/
structure Try (C : Crypto) where
  firstSent : Instant
  decided : Instant
  sent : Instant
  initiation : Option (Initiation C)

inductive Mark (C : Crypto) where
  /-- An attempt begins. -/
  | begun (first : Try C)
  /-- The attempt in progress sends another initiation. -/
  | repeated (attempt : HandshakeAttempt) (again : Try C)
  /-- A response to the pending handshake was accepted. -/
  | answered (pending : PendingHandshake C)
  | abandoned (attempt : HandshakeAttempt)

/-- The initiation a move sends, if it sends one. -/
def Mark.tried : Mark C → Option (Try C)
  | .begun t => some t
  | .repeated _ t => some t
  | .answered _ => none
  | .abandoned _ => none

def Mark.initiation (m : Mark C) : Option (Initiation C) := m.tried.bind Try.initiation

/-! ### The endpoint that an operation sets -/

namespace Peer.Effect

variable {p p' : Peer C} {now : Instant} {source : SocketAddr}

theorem endpoint_decrypted {receiver : UInt32} {packet opened : Bytes} {recv : Recv}
    (h : Effect p (.decrypt now receiver packet source) (.decrypted recv opened) p') :
    p'.endpoint = some source := by
  cases h <;> rfl

theorem endpoint_responded {handshake : InitReceived C} {values : HandshakeValues C}
    {out msg : Bytes} {displaced : Option UInt32}
    (h : Effect p (.respond now handshake values source out) (.written displaced msg) p') :
    p'.endpoint = some source := by
  cases h
  rfl

theorem endpoint_answered {ourKey : C.Secret} {resp : Bytes} {retired : Option UInt32}
    (h : Effect p (.handshakeResponse ourKey now resp source) (.rotated retired) p') :
    p'.endpoint = some source := by
  cases h
  rfl

end Peer.Effect

namespace Actor

/-- What `send_handshake` tries to send. -/
def tries (a : Actor C) (firstSent decided : Instant) : List (Try C) :=
  if a.machine.endpoint.isSome then [⟨firstSent, decided, a.now, a.initiation⟩] else []

def ensureLog (a : Actor C) : List (Mark C) :=
  if a.handshake.isNone then (a.tick.tries a.now a.now).map .begun else []

def dueLog (a : Actor C) : List (Mark C) :=
  match a.handshake with
  | none => []
  | some handshake =>
      if rekeyAttemptTime ≤ a.now.durationSince handshake.firstSent then [.abandoned handshake]
      else (a.tick.tries handshake.firstSent a.now).map (.repeated handshake)

/-! ### Moves -/

/-- Between `a` and `a'` the send session, the settings and the schedule of
the session may have changed, and data messages been sent. -/
structure Framed (a a' : Actor C) : Prop where
  machine : ∃ cookieGenerator presharedKey current, a'.machine = { a.machine with
    cookieGenerator := cookieGenerator
    presharedKey := presharedKey
    current := current }
  healthy : a.machine.Healthy → a'.machine.Healthy
  handshake : a'.handshake = a.handshake
  staged : a'.staged = a.staged
  published : a'.status.endpoint = a.status.endpoint
  datagrams : ∃ new, a'.datagrams = a.datagrams ++ new ∧
    ∀ d ∈ new, typeByte d.bytes = MessageType.data.toByte

/-- The actor with `endpoint` published. -/
def publish (a : Actor C) (endpoint : SocketAddr) : Actor C :=
  { a with status := { a.status with endpoint := some endpoint } }

/-- The moves that do not belong to the timer of the handshake. -/
inductive Quiet : Actor C → List (Mark C) → Actor C → Prop where
  | frame {a a' : Actor C} (h : Framed a a') (hclock : a'.env.clock = a.env.clock) : Quiet a [] a'
  | tick (a : Actor C) : Quiet a [] a.tick
  /-- A data message of a session in use. -/
  | received {a : Actor C} {now : Instant} {receiver : UInt32} {packet opened : Bytes}
      {source : SocketAddr} {recv : Recv} {machine : Peer C}
      (h : Peer.Effect a.machine (.decrypt now receiver packet source) (.decrypted recv opened)
        machine)
      (hrecv : recv.confirmed = false) :
      Quiet a [] ({ a with machine := machine }.publish source)
  /-- A data message that confirms a session; what was staged is taken. -/
  | confirmed {a : Actor C} {now : Instant} {receiver : UInt32} {packet opened : Bytes}
      {source : SocketAddr} {recv : Recv} {machine : Peer C}
      (h : Peer.Effect a.machine (.decrypt now receiver packet source) (.decrypted recv opened)
        machine)
      (hrecv : recv.confirmed = true) :
      Quiet a [] ({ a with machine := machine, staged := [] }.publish source)
  /-- The endpoint of an initiation is published when the socket takes the
  response. -/
  | responded {a : Actor C} {now : Instant} {handshake : InitReceived C}
      {values : HandshakeValues C} {source : SocketAddr} {out msg : Bytes}
      {displaced : Option UInt32} {machine : Peer C}
      (h : Peer.Effect a.machine (.respond now handshake values source out)
        (.written displaced msg) machine)
      (hmsg : typeByte msg = MessageType.handshakeResp.toByte) (taken : Bool) :
      Quiet a [] { a with
        machine := machine
        status := if taken then { a.status with endpoint := some source } else a.status
        datagrams := a.datagrams ++ [⟨source, msg, msg.length, taken⟩] }
  /-- A response; what was staged is taken. -/
  | answered {a : Actor C} {now : Instant} {resp : Bytes} {source : SocketAddr}
      {retired : Option UInt32} {machine : Peer C} {pending : PendingHandshake C}
      (hpending : a.machine.pending = some pending)
      (h : Peer.Effect a.machine (.handshakeResponse a.ourKey now resp source) (.rotated retired)
        machine) :
      Quiet a [.answered pending]
        ({ a with machine := machine, handshake := none, staged := [] }.publish source)
  | ensured (a : Actor C) : Quiet a a.ensureLog a.ensureHandshake
  | connected (a : Actor C) (endpoint : SocketAddr) :
      Quiet a (a.setEndpoint endpoint).ensureLog (a.setEndpoint endpoint).ensureHandshake
  /-- Payloads that could not be encrypted are staged. -/
  | stalled (a : Actor C) (payloads : List Bytes) :
      Quiet a ({ a with session := none }.stage payloads).ensureLog
        ({ a with session := none }.stage payloads).ensureHandshake

/-- The moves of an actor. -/
inductive Move : Actor C → List (Mark C) → Actor C → Prop where
  | quiet {a a' : Actor C} {log : List (Mark C)} (h : Quiet a log a') : Move a log a'
  | due (a : Actor C) : Move a a.dueLog a.handshakeDue

theorem Quiet.healthy {a a' : Actor C} {log : List (Mark C)} (h : Quiet a log a')
    (hp : a.machine.Healthy) : a'.machine.Healthy := by
  cases h with
  | frame h => exact h.healthy hp
  | tick => exact hp
  | received h => exact h.healthy hp
  | confirmed h => exact h.healthy hp
  | responded h => exact h.healthy hp
  | answered _ h => exact h.healthy hp
  | ensured => exact ((idle_kept.ensureHandshake a).machine hp).1
  | connected endpoint =>
      have hset := (idle_kept.setEndpoint a endpoint).machine hp
      exact ((idle_kept.ensureHandshake _).machine hset.1).1
  | stalled payloads =>
      obtain ⟨staged, ledger, hstage⟩ := stage_frame { a with session := none } payloads
      refine ((idle_kept.ensureHandshake _).machine ?_).1
      rw [hstage]
      exact hp

/-! ### Framed changes -/

namespace Framed

/-- A change outside of everything that moves are about. -/
theorem of_eq {a a' : Actor C} (hm : a'.machine = a.machine) (hh : a'.handshake = a.handshake)
    (hs : a'.staged = a.staged) (hp : a'.status.endpoint = a.status.endpoint)
    (hd : a'.datagrams = a.datagrams) : Framed a a' where
  machine := ⟨_, _, _, hm⟩
  healthy h := hm ▸ h
  handshake := hh
  staged := hs
  published := hp
  datagrams := ⟨[], hd.trans (List.append_nil _).symm, fun _ hd => by cases hd⟩

theorem trans {a b c : Actor C} (h : Framed a b) (h' : Framed b c) : Framed a c where
  machine := by
    obtain ⟨_, _, _, hm⟩ := h.machine
    obtain ⟨_, _, _, hm'⟩ := h'.machine
    exact ⟨_, _, _, by rw [hm', hm]⟩
  healthy hp := h'.healthy (h.healthy hp)
  handshake := h'.handshake.trans h.handshake
  staged := h'.staged.trans h.staged
  published := h'.published.trans h.published
  datagrams := by
    obtain ⟨new, hd, hnew⟩ := h.datagrams
    obtain ⟨new', hd', hnew'⟩ := h'.datagrams
    refine ⟨new ++ new', by rw [hd', hd, List.append_assoc], fun d hmem => ?_⟩
    rcases List.mem_append.mp hmem with hmem | hmem
    · exact hnew d hmem
    · exact hnew' d hmem

end Framed

/-- The type of a batch is that of its first packet. -/
theorem typeByte_flatten {packets : List Bytes} {b : UInt8} (hne : packets ≠ [])
    (h : ∀ packet ∈ packets, packet ≠ [] ∧ typeByte packet = b) :
    typeByte packets.flatten = b := by
  cases packets with
  | nil => exact absurd rfl hne
  | cons packet rest =>
      obtain ⟨hpacket, htype⟩ := h packet List.mem_cons_self
      obtain ⟨x, xs, rfl⟩ := List.exists_cons_of_ne_nil hpacket
      exact htype

/-- The sending loop of `flush_sends` sends data messages. -/
theorem framed_flushed (a : Actor C) (payloads : List Bytes) :
    Framed a (a.flushed payloads).actor ∧
      (a.flushed payloads).actor.env.clock = a.env.clock.tail := by
  obtain ⟨-, -, -, new, runs, hsends, -, hnew, hcover⟩ := a.flushed_spec payloads
  have hframe := (encodeAll_frame a.now a.env.maxGsoSegments.head a.machine payloads).2
  have htype : ∀ d ∈ new, typeByte d.bytes = MessageType.data.toByte := by
    intro d hd
    obtain ⟨run, hrun, hbytes⟩ := exists_run hnew hd
    have hfits := isBatch_of_fits (hcover.fits run hrun)
    rw [hbytes]
    refine typeByte_flatten ?_ fun packet hpacket => ?_
    · rw [← List.length_pos_iff, hfits.packets, List.length_pos_iff]
      exact hfits.nonempty
    · have hall : packet ∈ runs.flatMap Encoder.Run.packets :=
        List.mem_flatMap.mpr ⟨run, hrun, hpacket⟩
      rw [hcover.packets] at hall
      have hdata := (hframe packet hall).2
      refine ⟨fun hnil => ?_, hdata⟩
      rw [hnil] at hdata
      cases hdata
  have hhealthy : a.machine.Healthy → (a.flushed payloads).actor.machine.Healthy := by
    intro hp
    obtain ⟨done, -, henc, -⟩ := sendBatches_encrypts (a := a.flushStart) a.now
      a.tick.env.maxGsoSegments.head hp payloads false false
    exact (henc.machine hp).1
  obtain ⟨-, -, current, txBytes, socketTakes, sealed, ledger, heq⟩ := hsends
  rw [heq] at hhealthy ⊢
  exact ⟨⟨⟨_, _, _, rfl⟩, hhealthy, rfl, rfl, rfl, new, rfl, htype⟩, rfl⟩

theorem framed_flushDone (a : Actor C) (payloads : List Bytes) :
    Framed a (a.flushDone payloads) ∧ (a.flushDone payloads).env.clock = a.env.clock.tail := by
  obtain ⟨hframed, hclock⟩ := a.framed_flushed payloads
  obtain ⟨lastSend, session, rekeyJitter, hdone⟩ := a.flushDone_cases payloads
  rw [hdone]
  exact ⟨hframed.trans (.of_eq rfl rfl rfl rfl rfl), hclock⟩

theorem framed_keepaliveDone {a : Actor C} {machine : Peer C} {endpoint : SocketAddr} {msg : Bytes}
    {n : ℕ} (h : a.machine.encrypt a.now [] (List.replicate (packetLen 0) 0)
      = (.ok n, machine, msg)) : Framed a (a.keepaliveDone machine endpoint msg) := by
  obtain ⟨⟨current, hm⟩, hok⟩ := Peer.encrypt_frame h
  refine ⟨⟨_, _, current, hm⟩, fun hp => ((Peer.steady_encrypt h) hp).1, rfl, rfl, ?_, _, rfl, ?_⟩
  · unfold keepaliveDone
    cases a.env.socketTakes.head <;> rfl
  · intro d hd
    rw [List.mem_singleton.mp hd]
    exact (hok n rfl).2.2

/-! ### Operations as traces -/

/-- The operation from `a` to `a'` is a trace of quiet moves, in which a
response is accepted only if one is among the actions. -/
def Calm (actions : List (PeerAction C)) (a a' : Actor C) : Prop :=
  a.machine.Healthy → ∃ log, Trace Quiet a log a' ∧
    ∀ pending, Mark.answered pending ∈ log → ∃ action ∈ actions, action.isResponse = true

namespace Calm

variable {actions : List (PeerAction C)}

theorem refl (a : Actor C) : Calm [] a a := fun _ => ⟨[], .refl a, fun _ h => by cases h⟩

theorem trans {actions' : List (PeerAction C)} {a b c : Actor C} (h : Calm actions a b)
    (h' : Calm actions' b c) : Calm (actions ++ actions') a c := by
  intro hp
  obtain ⟨log, htrace, hlog⟩ := h hp
  obtain ⟨log', htrace', hlog'⟩ := h' (htrace.keeps_state (fun _ _ _ hp h => h.healthy hp) hp)
  refine ⟨log ++ log', htrace.trans htrace', fun pending hmem => ?_⟩
  rcases List.mem_append.mp hmem with hmem | hmem
  · obtain ⟨action, haction, hresp⟩ := hlog pending hmem
    exact ⟨action, List.mem_append_left _ haction, hresp⟩
  · obtain ⟨action, haction, hresp⟩ := hlog' pending hmem
    exact ⟨action, List.mem_append_right _ haction, hresp⟩

/-- Something of the driver's own comes first. -/
theorem first {a b c : Actor C} (h : Calm [] a b) (h' : Calm actions b c) : Calm actions a c :=
  h.trans h'

/-- What accepts no response may deal with any actions. -/
theorem of_own {a a' : Actor C} (h : Calm [] a a') : Calm actions a a' := by
  intro hp
  obtain ⟨log, htrace, hlog⟩ := h hp
  refine ⟨log, htrace, fun pending hmem => ?_⟩
  obtain ⟨action, haction, -⟩ := hlog pending hmem
  cases haction

theorem move {a a' : Actor C} {log : List (Mark C)} (h : Quiet a log a')
    (hlog : ∀ pending, Mark.answered pending ∉ log) : Calm [] a a' :=
  fun _ => ⟨log, .single h, fun pending hmem => absurd hmem (hlog pending)⟩

/-- A move that logs nothing. -/
theorem silent {a a' : Actor C} (h : Quiet a [] a') : Calm [] a a' :=
  move h fun _ h => by cases h

theorem frame {a a' : Actor C} (h : Framed a a') (hclock : a'.env.clock = a.env.clock) :
    Calm [] a a' := silent (.frame h hclock)

theorem tick (a : Actor C) : Calm [] a a.tick := silent (.tick a)

theorem answered_not_mem_ensureLog (a : Actor C) (pending : PendingHandshake C) :
    Mark.answered pending ∉ a.ensureLog := by
  intro h
  unfold ensureLog at h
  split at h
  · obtain ⟨t, -, ht⟩ := List.mem_map.mp h
    cases ht
  · cases h

theorem ensureHandshake (a : Actor C) : Calm [] a a.ensureHandshake :=
  move (.ensured a) (answered_not_mem_ensureLog a)

/-- The actor `c` as it was before the clock was read. -/
def rewound (a c : Actor C) : Actor C := { c with env := { c.env with clock := a.env.clock } }

theorem tick_rewound {a c : Actor C} (h : c.env.clock = a.env.clock.tail) :
    (rewound a c).tick = c := by
  show { c with env := { c.env with clock := a.env.clock.tail } } = c
  rw [← h]

theorem rewind {a c : Actor C} (h : Framed a c) : Calm [] a (rewound a c) :=
  frame (h.trans (.of_eq rfl rfl rfl rfl rfl)) rfl

/-- A framed change during which the clock was read once. -/
theorem frame_tick {a c : Actor C} (h : Framed a c) (hclock : c.env.clock = a.env.clock.tail) :
    Calm [] a c := by
  have htick : Calm [] (rewound a c) (rewound a c).tick := tick _
  rw [tick_rewound hclock] at htick
  exact (rewind h).trans htick

theorem flushSends (a : Actor C) (payloads : List Bytes) :
    Calm [] a (a.flushSends payloads) := by
  by_cases hp : payloads = []
  · rw [Actor.flushSends, if_pos hp]
    exact refl a
  rw [flushSends_eq a hp]
  split
  · obtain ⟨hframed, hclock⟩ := a.framed_flushed payloads
    exact (frame_tick hframed hclock).trans
      (move (.stalled _ _) (answered_not_mem_ensureLog _))
  · obtain ⟨hframed, hclock⟩ := a.framed_flushDone payloads
    split
    · rename_i hrekey
      -- the clock was read before the payloads were sent
      have hnone : (rewound a (a.flushDone payloads)).handshake.isNone = true :=
        (Bool.and_eq_true _ _ ▸ hrekey).2
      have hensure : (rewound a (a.flushDone payloads)).ensureHandshake
          = (a.flushDone payloads).sendHandshake a.now := by
        rw [Actor.ensureHandshake, if_pos hnone, tick_rewound hclock]
        rfl
      rw [← hensure]
      exact (rewind hframed).trans (ensureHandshake _)
    · exact frame_tick hframed hclock

theorem sending : Sending fun a b : Actor C => Calm [] a b where
  refl := refl
  trans := trans
  ensureHandshake := ensureHandshake
  flushSends := flushSends
  keepaliveFailed := by
    intro a e machine out henc
    obtain ⟨⟨current, hm⟩, -⟩ := Peer.encrypt_frame henc
    exact (tick a).trans (frame ⟨⟨_, _, current, hm⟩, fun hp => ((Peer.steady_encrypt henc) hp).1,
      rfl, rfl, rfl, [], (List.append_nil _).symm, fun _ hd => by cases hd⟩ rfl)
  keepaliveDone _ henc := frame_tick (framed_keepaliveDone henc) rfl

theorem sessionEstablished (a : Actor C) (initiator : Bool) :
    Calm [] { a with staged := [] } (a.sessionEstablished initiator) := by
  obtain ⟨b, hb, heq⟩ := sending.sessionEstablished a initiator
  rw [heq]
  exact hb.trans (frame (.of_eq rfl rfl rfl rfl rfl) rfl)

theorem setEndpoint (a : Actor C) (endpoint : SocketAddr) :
    Calm [] a (a.setEndpoint endpoint).ensureHandshake :=
  move (.connected a endpoint) (answered_not_mem_ensureLog _)

theorem applyUpdate (a : Actor C) (update : PeerUpdate) :
    Calm [] a (a.applyUpdate update) := by
  obtain ⟨endpoint, presharedKey, persistentKeepalive⟩ := update
  have hpsk (p : Option PresharedKey) :
      Framed a { a with machine := a.machine.setPresharedKey p } :=
    ⟨⟨_, _, _, rfl⟩, fun hp => Peer.healthy_step hp (.setPresharedKey p), rfl, rfl, rfl, [],
      (List.append_nil _).symm, fun _ hd => by cases hd⟩
  have hsettings : Calm [] a (a.applyUpdate ⟨none, presharedKey, persistentKeepalive⟩) := by
    cases presharedKey <;> cases persistentKeepalive <;>
      first
      | exact frame (.of_eq rfl rfl rfl rfl rfl) rfl
      | exact frame ((hpsk _).trans (.of_eq rfl rfl rfl rfl rfl)) rfl
  cases endpoint with
  | none => exact hsettings
  | some endpoint =>
      -- the endpoint is set last, on what an update without one leaves
      exact hsettings.trans (setEndpoint _ endpoint)

theorem recvHandshakeInit (a : Actor C) (now : Instant) (handshake : InitReceived C)
    (endpoint : SocketAddr) : Calm [] a (a.recvHandshakeInit now handshake endpoint) := by
  have hdrawn : Calm [] a a.drawn := frame (.of_eq rfl rfl rfl rfl rfl) rfl
  refine hdrawn.trans ?_
  have heff := a.machine.respond_effect now handshake a.values endpoint
    (List.replicate respMsgLength 0)
  unfold Actor.recvHandshakeInit
  dsimp only
  rcases hresp : a.machine.respond now handshake a.values endpoint (List.replicate respMsgLength 0)
    with ⟨e | displaced, machine, msg⟩ <;> rw [Peer.step, hresp] at heff
  · have hresp' : a.drawn.machine.respond now handshake a.values endpoint
      (List.replicate respMsgLength 0) = (.error e, machine, msg) := hresp
    rw [hresp']
    cases heff
    exact refl _
  · have hresp' : a.drawn.machine.respond now handshake a.values endpoint
      (List.replicate respMsgLength 0) = (.ok displaced, machine, msg) := hresp
    have hmsg : typeByte msg = MessageType.handshakeResp.toByte := by
      cases heff with
      | responded mac1 wire hts hwire =>
          obtain ⟨x, xs, rfl⟩ : ∃ x xs, wire = x :: xs := by
            refine List.exists_cons_of_ne_nil (List.ne_nil_of_length_pos ?_)
            rw [hwire.length_eq]
            decide
          exact hwire.hasType.type_eq
    rw [hresp']
    refine first (silent (.responded (a := a.drawn) heff hmsg a.env.socketTakes.head)) ?_
    simp only [send, sendSegments]
    cases displaced <;> dsimp only [retireIndex, bindIndex, drawn] <;>
      cases a.env.socketTakes.head <;> exact frame (.of_eq rfl rfl rfl rfl rfl) rfl

theorem recvCookieReply (a : Actor C) (reply : Bytes) :
    Calm [] a (a.recvCookieReply reply) := by
  have heff := a.machine.cookieReply_effect reply a.env.wall.head
  have hhealthy (hp : a.machine.Healthy) :=
    Peer.healthy_step hp (.cookieReply reply a.env.wall.head)
  have hstep : (a.machine.step (.cookieReply reply a.env.wall.head)).2
      = (a.machine.cookieReply reply a.env.wall.head).2 := by
    rcases h : a.machine.cookieReply reply a.env.wall.head with ⟨e | ⟨⟨⟩⟩, machine⟩ <;>
      rw [Peer.step, h]
  rw [hstep] at heff hhealthy
  have hm : ∃ cookieGenerator presharedKey current,
      (a.machine.cookieReply reply a.env.wall.head).2 = { a.machine with
        cookieGenerator := cookieGenerator
        presharedKey := presharedKey
        current := current } := by
    generalize (a.machine.step (.cookieReply reply a.env.wall.head)).1 = o at heff
    generalize (a.machine.cookieReply reply a.env.wall.head).2 = machine at heff
    cases heff <;> exact ⟨_, _, _, rfl⟩
  exact frame ⟨hm, hhealthy, rfl, rfl, rfl, [], (List.append_nil _).symm,
    fun _ hd => by cases hd⟩ rfl

/-- Noting a data message of a session in use. -/
theorem received {a : Actor C} {now : Instant} {data opened : Bytes} {receiver : UInt32}
    {endpoint : SocketAddr} {recv : Recv} {machine : Peer C}
    (h : a.machine.step (.decrypt now receiver data endpoint) = (.decrypted recv opened, machine))
    (hrecv : recv.confirmed = false) :
    Calm [] a
      ({ a with machine := machine }.recvDataNoted now endpoint data.length recv opened) := by
  intro hp
  have heff := Peer.effect_of_step hp.wellFormed h
  obtain ⟨control, inbound, inboundTakes, rxBytes, session, hnoted⟩ := recvDataNoted_frame
    { a with machine := machine } now endpoint data.length recv opened
  rw [hnoted]
  exact (silent (.received heff hrecv)).trans (frame (.of_eq rfl rfl rfl rfl rfl) rfl) hp

/-- A data message that confirms a session, and what comes of it. -/
theorem confirmed {a : Actor C} {now : Instant} {data opened : Bytes} {receiver : UInt32}
    {endpoint : SocketAddr} {recv : Recv} {machine : Peer C}
    (h : a.machine.step (.decrypt now receiver data endpoint) = (.decrypted recv opened, machine))
    (hrecv : recv.confirmed = true) :
    Calm [] a (({ a with machine := machine }.recvDataNoted now endpoint data.length recv
      opened).sessionEstablished false) := by
  intro hp
  have heff := Peer.effect_of_step hp.wellFormed h
  obtain ⟨control, inbound, inboundTakes, rxBytes, session, hnoted⟩ := recvDataNoted_frame
    { a with machine := machine } now endpoint data.length recv opened
  refine first ?_ (sessionEstablished _ false) hp
  rw [hnoted]
  exact (silent (.confirmed heff hrecv)).trans (frame (.of_eq rfl rfl rfl rfl rfl) rfl)

/-- A response that is accepted, and what comes of it. -/
theorem answered {a : Actor C} {now : Instant} {resp : Bytes} {endpoint : SocketAddr}
    {retired : Option UInt32} {machine : Peer C}
    (h : a.machine.step (.handshakeResponse a.ourKey now resp endpoint)
      = (.rotated retired, machine)) :
    Calm [.recvHandshakeResp resp endpoint] a
      ((a.responseNoted now resp endpoint retired machine).sessionEstablished true) := by
  have heff := a.machine.handshakeResponse_effect a.ourKey now resp endpoint
  rw [h] at heff
  obtain ⟨pending, hpending⟩ : ∃ pending, a.machine.pending = some pending := by
    cases heff with
    | answered pending est hpending => exact ⟨pending, hpending⟩
  have hanswered : Calm [.recvHandshakeResp resp endpoint] a
      ({ a with machine := machine, handshake := none, staged := [] }.publish endpoint) :=
    fun _ => ⟨_, .single (.answered hpending heff), fun _ _ => ⟨_, List.mem_cons_self, rfl⟩⟩
  have hnoted : Calm [] ({ a with machine := machine, handshake := none, staged := [] }.publish
      endpoint) { a.responseNoted now resp endpoint retired machine with staged := [] } := by
    cases retired <;> exact frame (.of_eq rfl rfl rfl rfl rfl) rfl
  exact hanswered.trans (hnoted.trans (sessionEstablished _ true))

/-- A call of the machine that fails. -/
theorem failed {a : Actor C} {op : Peer.Op C} {e : PeerError} {machine : Peer C}
    (h : a.machine.step op = (.error e, machine)) : Calm [] a { a with machine := machine } := by
  intro hp
  cases Peer.eq_of_step_error hp.wellFormed h
  exact refl a hp

theorem part {a a' : Actor C} (h : Part a actions a') : Calm actions a a' := by
  cases h with
  | tick => exact tick a
  | ensured => exact ensureHandshake a
  | collected => exact (refl a).of_own
  | flushed payloads => exact flushSends a payloads
  | connected endpoint => exact (setEndpoint a endpoint).of_own
  | updated update => exact (applyUpdate a update).of_own
  | initiationReceived handshake endpoint =>
      exact ((tick a).trans (recvHandshakeInit _ _ _ _)).of_own
  | cookieReceived reply => exact (recvCookieReply a reply).of_own
  | unanswered h => exact ((tick a).trans (failed h)).of_own
  | answered h => exact (tick a).trans (answered h)
  | undecrypted h => exact ((tick a).trans (failed h)).of_own
  | received h hconfirmed => exact ((tick a).trans (received h hconfirmed)).of_own
  | confirmed h hconfirmed => exact ((tick a).trans (confirmed h hconfirmed)).of_own
  | keptAlive => exact sending.sendKeepalive a
  | expired => exact frame (.of_eq rfl rfl rfl rfl rfl) rfl
  | disarmed => exact frame (.of_eq rfl rfl rfl rfl rfl) rfl
  | touched => exact (tick a).trans (frame (.of_eq rfl rfl rfl rfl rfl) rfl)

end Calm

/-- **A turn that is not the handshake's.** -/
theorem calm_turn (a : Actor C) {event : Event C} (hevent : event ≠ .timer .handshake) :
    Calm event.batch a (a.turn event) :=
  (a.parts_turn hevent).relates (R := fun a actions b => Calm actions a b) Calm.refl Calm.trans
    Calm.part

/-- A batch of one action that is not a payload. -/
theorem turn_action (a : Actor C) {action : PeerAction C}
    (h : ∀ payload, action ≠ .sendData payload) :
    a.turn (.actions [action]) = a.handleMessage action := by
  cases action with
  | sendData payload => exact absurd rfl (h payload)
  | _ =>
      simp only [turn, handleActions]
      rw [flushSends_nil, flushSends_nil]

theorem run_singleton (a : Actor C) (event : Event C) : a.run [event] = a.turn event := rfl

theorem turn_timer {a : Actor C} {timer : Timer} (h : (a.deadline timer).isSome = true) :
    a.turn (.timer timer) = a.fire timer := if_pos h

theorem Move.healthy {a a' : Actor C} {log : List (Mark C)} (h : Move a log a')
    (hp : a.machine.Healthy) : a'.machine.Healthy := by
  cases h with
  | quiet h => exact h.healthy hp
  | due =>
      unfold handshakeDue
      split
      · exact hp
      · dsimp only
        split
        · rw [machine_retireIndex]
          exact Peer.healthy_step hp .abandonHandshake
        · exact ((idle_kept.sendHandshake a.tick _).machine hp).1

/-- **Every turn is a trace of moves.** -/
theorem moves_turn {a : Actor C} (hp : a.machine.Healthy) (event : Event C) :
    ∃ log, Trace Move a log (a.turn event) := by
  by_cases hevent : event = .timer .handshake
  · subst hevent
    rw [turn_handshake]
    exact ⟨_, .single (.due a)⟩
  · obtain ⟨log, htrace, -⟩ := a.calm_turn hevent hp
    exact ⟨log, htrace.mono fun _ _ _ => .quiet⟩

theorem moves_run {a : Actor C} (hp : a.machine.Healthy) (events : List (Event C)) :
    ∃ log, Trace Move a log (a.run events) := by
  induction events generalizing a with
  | nil => exact ⟨[], .refl a⟩
  | cons event rest ih =>
      obtain ⟨log, hturn⟩ := moves_turn hp event
      obtain ⟨log', hrest⟩ := ih (hturn.keeps_state (fun _ _ _ hp h => h.healthy hp) hp)
      exact ⟨log ++ log', hturn.trans hrest⟩

theorem healthy_spawn (ourKey : C.Secret) (publicKey : PublicKey)
    (presharedKey : Option PresharedKey) (persistentKeepalive : Option Duration) (env : Env C) :
    (spawn ourKey publicKey presharedKey persistentKeepalive env).machine.Healthy :=
  Peer.healthy_new publicKey presharedKey

/-- What every move keeps holds after every run. -/
theorem invariant_run {Inv : Actor C → Prop}
    (hmove : ∀ a log a', a.machine.Healthy → Inv a → Move a log a' → Inv a') {a : Actor C}
    (hp : a.machine.Healthy) (ha : Inv a) (events : List (Event C)) : Inv (a.run events) := by
  obtain ⟨log, htrace⟩ := moves_run hp events
  have hboth : (a.run events).machine.Healthy ∧ Inv (a.run events) :=
    htrace.keeps_state (I := fun a => a.machine.Healthy ∧ Inv a)
      (fun a log a' h hm => ⟨hm.healthy h.1, hmove a log a' h.1 h.2 hm⟩) ⟨hp, ha⟩
  exact hboth.2

end Actor

end Tunstile
