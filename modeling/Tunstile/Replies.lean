/-
Tunstile/Replies.lean

Replies, and the binds they need.

The read loop (`tunnel/src/lib.rs`) polls its control queue and, when that
is empty, the socket; the other tasks may run between the two.  `Loop` is
the system of `Routing.lean` with these stages, the handshake messages that
reached the wire, and the replies that reached the socket.  An actor reports
the index of a handshake message before it sends the message, and only a
message on the wire is answered.

This order is not enough for the bind to be applied when its reply is looked
up (`reply_before_bind`): bind, message and reply may all fall between the
two polls.  It is enough where no bind is reported between the two polls of
one select (`reply_routed`).  Then every bind that is sent was applied when
the socket is polled; and for an index that was drawn only once and is still
live, an applied bind means a route to the actor that sent the message
(`Routed`).
-/
import Tunstile.LiveRoutes

namespace Tunstile

variable {C : Crypto}

/-- A handshake message: the actor that wrote it, its peer, and its index. -/
structure HandshakeMessage where
  actor : Channel
  peerKey : PublicKey
  index : UInt32
  deriving DecidableEq

/-- A received packet that is routed by its receiver index: a handshake
response, a cookie reply or data.  What it answers is proof-only. -/
structure Reply where
  receiver : UInt32
  answers : Option HandshakeMessage

/-- Where the read loop stands. -/
inductive Stage where
  /-- At the top of the loop. -/
  | polling
  /-- It took a control message. -/
  | applying
  /-- It found no control message, and is about to poll the socket. -/
  | receiving
  | handling (batch : List Reply)

structure Loop (C : Crypto) where
  net : Net C
  /-- The handshake message that an actor wrote and has yet to send. -/
  sending : Channel → Option UInt32
  wire : List HandshakeMessage
  /-- What the socket holds. -/
  socket : List Reply
  stage : Stage
  /-- The control messages applied so far. -/
  applied : List Control
  /-- The packets handled so far, each with the route that was found. -/
  handled : List (Reply × Option Channel)

inductive Loop.Action (C : Crypto) where
  /-- A step of another task. -/
  | task (action : Net.Action C)
  /-- An actor's handshake message reaches the wire. -/
  | transmit (actions : Channel)
  /-- A packet reaches the socket. -/
  | arrive (packet : Reply)
  | poll
  | lookup
  | route
  /-- The socket is polled, and gives at most `n` packets. -/
  | receive (n : ℕ)
  /-- The next packet of a batch is routed. -/
  | dispatch

namespace Loop

def start (C : Crypto) : Loop C where
  net := .start C
  sending := fun _ => none
  wire := []
  socket := []
  stage := .polling
  applied := []
  handled := []

def task (l : Loop C) : Net.Action C → Loop C
  | .operate actions op =>
      match l.net.drivers actions with
      | some ⟨machine, []⟩ =>
          { l with
            net := l.net.operate actions op
            sending := Function.update l.sending actions (op.installed (machine.step op).1) }
      | _ => l
  -- the read loop's own steps
  | .lookup => l
  | .route => l
  | action => { l with net := l.net.step action }

/-- A handshake message is sent after the reports of its operation. -/
def transmit (l : Loop C) (actions : Channel) : Loop C :=
  match l.net.drivers actions, l.sending actions with
  | some ⟨machine, []⟩, some index =>
      { l with
        sending := Function.update l.sending actions none
        wire := ⟨actions, machine.peerKey, index⟩ :: l.wire }
  | _, _ => l

/-- A reply carries the index of a message that was on the wire. -/
def arrive (l : Loop C) (packet : Reply) : Loop C :=
  match packet.answers with
  | none => { l with socket := l.socket ++ [packet] }
  | some message =>
      if message ∈ l.wire ∧ message.index = packet.receiver then
        { l with socket := l.socket ++ [packet] }
      else l

def poll (l : Loop C) : Loop C :=
  match l.stage with
  | .polling => { l with stage := if l.net.queue = [] then .receiving else .applying }
  | _ => l

def lookup (l : Loop C) : Loop C :=
  match l.stage with
  | .applying => { l with net := l.net.lookup }
  | _ => l

def route (l : Loop C) : Loop C :=
  match l.stage, l.net.queue, l.net.looked with
  | .applying, control :: _, some _ =>
      { l with net := l.net.route, stage := .polling, applied := l.applied ++ [control] }
  | _, _, _ => l

def receive (l : Loop C) (n : ℕ) : Loop C :=
  match l.stage with
  | .receiving =>
      -- with nothing to receive, the loop is woken at its top
      if l.socket.take n = [] then { l with stage := .polling }
      else { l with stage := .handling (l.socket.take n), socket := l.socket.drop n }
  | _ => l

/-- `try_send_to_index`, packet by packet. -/
def dispatch (l : Loop C) : Loop C :=
  match l.stage with
  | .handling [] => { l with stage := .polling }
  | .handling (packet :: rest) =>
      { l with
        stage := .handling rest
        handled := l.handled ++ [(packet, l.net.router.indices packet.receiver)] }
  | _ => l

def step (l : Loop C) : Action C → Loop C
  | .task action => l.task action
  | .transmit actions => l.transmit actions
  | .arrive packet => l.arrive packet
  | .poll => l.poll
  | .lookup => l.lookup
  | .route => l.route
  | .receive n => l.receive n
  | .dispatch => l.dispatch

def run (l : Loop C) (actions : List (Action C)) : Loop C := actions.foldl step l

/-! ### Order of bind, message and reply -/

/-- The control messages sent so far. -/
def sent (l : Loop C) : List Control := l.applied ++ l.net.queue

/-- What every interleaving keeps. -/
structure Causal (l : Loop C) : Prop where
  wellFormed : ∀ c d, l.net.drivers c = some d → d.machine.WellFormed
  unspawned : ∀ c, l.net.spawned ≤ c → l.net.drivers c = none ∧ l.sending c = none
  sending : ∀ c d i, l.net.drivers c = some d → l.sending c = some i →
    .bind d.machine.peerKey i ∈ l.sent ∨ .bind d.machine.peerKey i ∈ d.outbox
  wire : ∀ m ∈ l.wire, .bind m.peerKey m.index ∈ l.sent
  socket : ∀ p ∈ l.socket, ∀ m, p.answers = some m → m ∈ l.wire ∧ m.index = p.receiver

theorem causal_start : (start C).Causal where
  wellFormed := fun _ d hd => absurd hd (Option.some_ne_none d).symm
  unspawned := fun _ _ => ⟨rfl, rfl⟩
  sending := fun _ d _ hd => absurd hd (Option.some_ne_none d).symm
  wire := fun _ hm => absurd hm List.not_mem_nil
  socket := fun _ hp => absurd hp List.not_mem_nil

/-- Nothing but the control messages and the actors changes, and messages
are only added: then it is enough to look at the actors. -/
theorem Causal.of_drivers {l l' : Loop C} (h : l.Causal) (hwire : l'.wire = l.wire)
    (hsocket : ∀ p ∈ l'.socket, p ∈ l.socket) (hsent : ∀ m ∈ l.sent, m ∈ l'.sent)
    (hwell : ∀ c d, l'.net.drivers c = some d → d.machine.WellFormed)
    (hunspawned : ∀ c, l'.net.spawned ≤ c → l'.net.drivers c = none ∧ l'.sending c = none)
    (hsending : ∀ c d i, l'.net.drivers c = some d → l'.sending c = some i →
      .bind d.machine.peerKey i ∈ l'.sent ∨ .bind d.machine.peerKey i ∈ d.outbox) :
    l'.Causal where
  wellFormed := hwell
  unspawned := hunspawned
  sending := hsending
  wire := hwire ▸ fun m hm => hsent _ (h.wire m hm)
  socket := hwire ▸ fun p hp => h.socket p (hsocket p hp)

/-- A step of the read loop that applies nothing, or a removal. -/
theorem Causal.of_eq {l l' : Loop C} (h : l.Causal) (hdrivers : l'.net.drivers = l.net.drivers)
    (hspawned : l'.net.spawned = l.net.spawned) (hsending : l'.sending = l.sending)
    (hwire : l'.wire = l.wire) (hsocket : ∀ p ∈ l'.socket, p ∈ l.socket)
    (hsent : ∀ m ∈ l.sent, m ∈ l'.sent) : l'.Causal := by
  refine h.of_drivers hwire hsocket hsent ?_ ?_ ?_
  · rw [hdrivers]
    exact h.wellFormed
  · rw [hdrivers, hspawned, hsending]
    exact h.unspawned
  · rw [hdrivers, hsending]
    exact fun c d i hd hi => (h.sending c d i hd hi).imp_left (hsent _)

/-- An actor operates: its handshake message, if it wrote one, has its bind
among the reports. -/
theorem Causal.operated {l : Loop C} (h : l.Causal) {actions : Channel} (op : Peer.Op C)
    {machine : Peer C} (hd : l.net.drivers actions = some ⟨machine, []⟩) :
    Causal { l with
      net := { l.net with
        drivers := Function.update l.net.drivers actions
          (some ⟨(machine.step op).2, machine.reports op⟩) }
      sending := Function.update l.sending actions (op.installed (machine.step op).1) } := by
  have hp := h.wellFormed _ _ hd
  have hkey : (machine.step op).2.peerKey = machine.peerKey :=
    (machine.step_effect hp op).peerKey_eq
  have hne {c : Channel} (hc : l.net.spawned ≤ c) : c ≠ actions := by
    rintro rfl
    cases (h.unspawned c hc).1.symm.trans hd
  refine h.of_drivers rfl (fun _ hp => hp) (fun _ hm => hm) ?_ ?_ ?_
  · refine Net.forall_update h.wellFormed ?_
    rintro d ⟨⟩
    exact Peer.wellFormed_step hp op
  · intro c hc
    obtain ⟨hdrivers, hsending⟩ := h.unspawned c hc
    exact ⟨(Function.update_of_ne (hne hc) _ _).trans hdrivers,
      (Function.update_of_ne (hne hc) _ _).trans hsending⟩
  · intro c d i hc hi
    rcases update_cases hc with ⟨rfl, hnow⟩ | ⟨hother, hc⟩
    · cases hnow
      have hinst := (Function.update_self c _ l.sending).symm.trans hi
      refine Or.inr (List.mem_append_right _ ?_)
      rw [hinst, hkey]
      exact List.mem_singleton_self _
    · exact h.sending c d i hc ((Function.update_of_ne hother _ _).symm.trans hi)

/-- An actor reports: a bind it holds is sent. -/
theorem Causal.reported {l : Loop C} (h : l.Causal) {actions : Channel} {machine : Peer C}
    {control : Control} {outbox : List Control}
    (hd : l.net.drivers actions = some ⟨machine, control :: outbox⟩) :
    Causal { l with
      net := { l.net with
        drivers := Function.update l.net.drivers actions (some ⟨machine, outbox⟩)
        queue := l.net.queue ++ [control] } } := by
  have hsent : ∀ m, m ∈ l.sent ∨ m = control → m ∈ l.applied ++ (l.net.queue ++ [control]) := by
    intro m hm
    rw [← List.append_assoc]
    exact List.mem_append.mpr (hm.imp_right List.mem_singleton.mpr)
  refine h.of_drivers rfl (fun _ hp => hp) (fun m hm => hsent m (Or.inl hm)) ?_ ?_ ?_
  · refine Net.forall_update h.wellFormed ?_
    rintro d ⟨⟩
    exact h.wellFormed actions ⟨machine, control :: outbox⟩ hd
  · intro c hc
    obtain ⟨hdrivers, hsending⟩ := h.unspawned c hc
    refine ⟨(Function.update_of_ne ?_ _ _).trans hdrivers, hsending⟩
    rintro rfl
    cases hdrivers.symm.trans hd
  · intro c d i hc hi
    rcases update_cases hc with ⟨rfl, hnow⟩ | ⟨-, hc⟩
    · cases hnow
      rcases h.sending c _ i hd hi with hold | hout
      · exact Or.inl (hsent _ (Or.inl hold))
      · rcases List.mem_cons.mp hout with heq | hout
        · exact Or.inl (hsent _ (Or.inr heq))
        · exact Or.inr hout
    · exact (h.sending c d i hc hi).imp_left fun hold => hsent _ (Or.inl hold)

theorem Causal.added {l : Loop C} (h : l.Causal) (table : RoutingTable) (peerKey : PublicKey)
    (presharedKey : Option PresharedKey) :
    Causal { l with
      net := { l.net with
        table := table
        drivers := Function.update l.net.drivers l.net.spawned
          (some ⟨(Peer.new C peerKey).setPresharedKey presharedKey, []⟩)
        spawned := l.net.spawned + 1 } } := by
  refine h.of_drivers rfl (fun _ hp => hp) (fun _ hm => hm) ?_ ?_ ?_
  · refine Net.forall_update h.wellFormed ?_
    rintro d ⟨⟩
    exact Peer.wellFormed_run (Peer.wellFormed_new peerKey) [.setPresharedKey presharedKey]
  · intro c hc
    obtain ⟨hdrivers, hsending⟩ := h.unspawned c (Nat.le_of_succ_le hc)
    have hne : c ≠ l.net.spawned := (Nat.lt_of_succ_le hc).ne'
    exact ⟨(Function.update_of_ne hne _ _).trans hdrivers, hsending⟩
  · intro c d i hc hi
    rcases update_cases hc with ⟨rfl, -⟩ | ⟨-, hc⟩
    · cases (h.unspawned _ le_rfl).2.symm.trans hi
    · exact h.sending c d i hc hi

theorem Causal.stopped {l : Loop C} (h : l.Causal) (actions : Channel) :
    Causal { l with
      net := { l.net with drivers := Function.update l.net.drivers actions none } } := by
  have hold (c : Channel) (d : Driver C)
      (hc : Function.update l.net.drivers actions none c = some d) : l.net.drivers c = some d :=
    (of_update_none hc).2
  refine h.of_drivers rfl (fun _ hp => hp) (fun _ hm => hm)
    (fun c d hc => h.wellFormed c d (hold c d hc)) (fun c hc => ?_)
    fun c d i hc => h.sending c d i (hold c d hc)
  obtain ⟨hdrivers, hsending⟩ := h.unspawned c hc
  refine ⟨?_, hsending⟩
  by_cases heq : c = actions
  · subst heq
    exact Function.update_self _ _ _
  · exact (Function.update_of_ne heq _ _).trans hdrivers

theorem causal_task {l : Loop C} (h : l.Causal) (action : Net.Action C) :
    (l.task action).Causal := by
  have hother (hne : ∀ actions op, action ≠ .operate actions op) (hroute : action ≠ .route) :
      Causal { l with net := l.net.step action } := by
    have hchange := l.net.step_change action
    generalize l.net.step action = net at hchange
    cases hchange with
    | idle => exact h
    | added peerKey presharedKey hfree => exact h.added _ peerKey presharedKey
    | removed peerKey actions hentry =>
        exact h.of_eq rfl rfl rfl rfl (fun _ hp => hp) fun _ hm => hm
    | purged actions hmem =>
        refine h.of_eq rfl rfl rfl rfl (fun _ hp => hp) fun m hm => ?_
        show m ∈ l.applied ++ (l.net.queue ++ [_])
        rw [← List.append_assoc]
        exact List.mem_append_left _ hm
    | operated actions op => exact absurd rfl (hne actions op)
    | reported actions machine control outbox hd => exact h.reported hd
    | looked => exact h.of_eq rfl rfl rfl rfl (fun _ hp => hp) fun _ hm => hm
    | routed => exact absurd rfl hroute
    | stopped actions => exact h.stopped actions
  cases action with
  | operate actions op =>
      simp only [task]
      split
      · rename_i machine hd
        rw [Net.operate, hd]
        exact h.operated op hd
      · exact h
  | lookup => exact h
  | route => exact h
  | addPeer | removePeer | sendPurge | report | stop =>
      refine hother ?_ ?_
      · rintro _ _ ⟨⟩
      · rintro ⟨⟩

theorem causal_transmit {l : Loop C} (h : l.Causal) (actions : Channel) :
    (l.transmit actions).Causal := by
  simp only [transmit]
  split
  · rename_i machine index hd hi
    refine { h with unspawned := ?_, sending := ?_, wire := ?_, socket := ?_ }
    · intro c hc
      obtain ⟨hdrivers, hsending⟩ := h.unspawned c hc
      refine ⟨hdrivers, (Function.update_of_ne ?_ _ _).trans hsending⟩
      rintro rfl
      cases hdrivers.symm.trans hd
    · intro c d i hc hci
      exact h.sending c d i hc (of_update_none hci).2
    · -- its reports are sent, the bind among them
      rintro m (_ | ⟨_, hm⟩)
      · rcases h.sending actions _ index hd hi with hsent | hout
        · exact hsent
        · exact absurd hout List.not_mem_nil
      · exact h.wire m hm
    · exact fun p hp m hm => (h.socket p hp m hm).imp_left (List.mem_cons_of_mem _)
  · exact h

theorem causal_arrive {l : Loop C} (h : l.Causal) (packet : Reply) : (l.arrive packet).Causal := by
  have hnew (hanswers : ∀ m, packet.answers = some m → m ∈ l.wire ∧ m.index = packet.receiver) :
      Causal { l with socket := l.socket ++ [packet] } := by
    refine { h with socket := fun p hp => ?_ }
    rcases List.mem_append.mp hp with hp | hp
    · exact h.socket p hp
    · cases List.mem_singleton.mp hp
      exact hanswers
  simp only [arrive]
  split
  · rename_i hnone
    refine hnew fun m hm => ?_
    cases hnone.symm.trans hm
  · rename_i message hsome
    split
    · rename_i hwire
      refine hnew fun m hm => ?_
      cases hsome.symm.trans hm
      exact hwire
    · exact h

theorem causal_route {l : Loop C} (h : l.Causal) : l.route.Causal := by
  simp only [route]
  split
  · rename_i control queue table hstage hq hlooked
    simp only [Net.route, hq, hlooked]
    refine h.of_eq rfl rfl rfl rfl (fun _ hp => hp) fun m hm => ?_
    show m ∈ (l.applied ++ [control]) ++ queue
    rw [sent, hq] at hm
    rw [List.append_assoc]
    exact hm
  · exact h

theorem causal_step {l : Loop C} (h : l.Causal) (action : Action C) : (l.step action).Causal := by
  have hsame {l' : Loop C} (hnet : l'.net = l.net) (happlied : l'.applied = l.applied)
      (hsending : l'.sending = l.sending) (hwire : l'.wire = l.wire)
      (hsocket : ∀ p ∈ l'.socket, p ∈ l.socket) : l'.Causal := by
    refine h.of_eq (congrArg _ hnet) (congrArg _ hnet) hsending hwire hsocket fun m hm => ?_
    rw [sent, hnet, happlied]
    exact hm
  cases action with
  | task action => exact causal_task h action
  | transmit actions => exact causal_transmit h actions
  | arrive packet => exact causal_arrive h packet
  | poll =>
      simp only [step, poll]
      split <;> exact hsame rfl rfl rfl rfl fun _ hp => hp
  | lookup =>
      simp only [step, lookup]
      split
      · simp only [Net.lookup]
        split
        · exact h.of_eq rfl rfl rfl rfl (fun _ hp => hp) fun _ hm => hm
        · exact h
      · exact h
  | route => exact causal_route h
  | receive n =>
      simp only [step, receive]
      split
      · split
        · exact hsame rfl rfl rfl rfl fun _ hp => hp
        · exact hsame rfl rfl rfl rfl fun _ hp => List.mem_of_mem_drop hp
      · exact h
  | dispatch =>
      simp only [step, dispatch]
      split <;> exact hsame rfl rfl rfl rfl fun _ hp => hp

/-! ### When a reply finds its bind applied -/

/-- No bind is reported between the two polls of one select. -/
def Prompt (l : Loop C) : Action C → Prop
  | .task (.report c) => l.stage = .receiving → ∀ machine peerKey index outbox,
      l.net.drivers c ≠ some ⟨machine, .bind peerKey index :: outbox⟩
  | _ => True

/-- Every step of a run is prompt. -/
def AllPrompt : Loop C → List (Action C) → Prop
  | _, [] => True
  | l, action :: rest => l.Prompt action ∧ (l.step action).AllPrompt rest

/-- No bind is queued when the socket is polled, and the messages that the
batch in hand answers have their binds applied. -/
structure Bound (l : Loop C) : Prop where
  receiving : l.stage = .receiving → ∀ peerKey index, .bind peerKey index ∉ l.net.queue
  handling : ∀ batch, l.stage = .handling batch → ∀ p ∈ batch, ∀ m, p.answers = some m →
    m.index = p.receiver ∧ .bind m.peerKey m.index ∈ l.applied

theorem bound_of_stage {l : Loop C} (hreceiving : l.stage ≠ .receiving)
    (hhandling : ∀ batch, l.stage ≠ .handling batch) : l.Bound :=
  ⟨fun hstage => absurd hstage hreceiving, fun batch hstage => absurd hstage (hhandling batch)⟩

theorem Bound.of_eq {l l' : Loop C} (h : l.Bound) (hstage : l'.stage = l.stage)
    (happlied : l'.applied = l.applied)
    (hqueue : l.stage = .receiving → ∀ peerKey index, .bind peerKey index ∈ l'.net.queue →
      .bind peerKey index ∈ l.net.queue) : l'.Bound where
  receiving := fun hs k i hmem =>
    h.receiving (hstage ▸ hs) k i (hqueue (hstage ▸ hs) k i hmem)
  handling := by
    rw [hstage, happlied]
    exact h.handling

/-- Another task queues a bind only by reporting it. -/
theorem queue_task {l : Loop C} {action : Net.Action C} {peerKey : PublicKey} {index : UInt32}
    (h : .bind peerKey index ∈ (l.task action).net.queue) :
    .bind peerKey index ∈ l.net.queue ∨ ∃ c machine outbox, action = .report c ∧
      l.net.drivers c = some ⟨machine, .bind peerKey index :: outbox⟩ := by
  have hother (hroute : action ≠ .route)
      (h : .bind peerKey index ∈ (l.net.step action).queue) :
      .bind peerKey index ∈ l.net.queue ∨ ∃ c machine outbox, action = .report c ∧
        l.net.drivers c = some ⟨machine, .bind peerKey index :: outbox⟩ := by
    have hchange := l.net.step_change action
    generalize l.net.step action = net at hchange h
    cases hchange with
    | idle | added | removed | operated | looked | stopped => exact Or.inl h
    | purged actions hmem =>
        rcases List.mem_append.mp h with h | h
        · exact Or.inl h
        · cases List.mem_singleton.mp h
    | reported actions machine control outbox hd =>
        rcases List.mem_append.mp h with h | h
        · exact Or.inl h
        · rw [← List.mem_singleton.mp h] at hd
          exact Or.inr ⟨actions, machine, outbox, rfl, hd⟩
    | routed => exact absurd rfl hroute
  cases action with
  | operate actions op =>
      simp only [task] at h
      split at h
      · exact hother nofun h
      · exact Or.inl h
  | lookup | route => exact Or.inl h
  | addPeer | removePeer | sendPurge | report | stop => exact hother nofun h

theorem stage_task (l : Loop C) (action : Net.Action C) :
    (l.task action).stage = l.stage ∧ (l.task action).applied = l.applied := by
  cases action with
  | operate actions op =>
      simp only [task]
      split <;> exact ⟨rfl, rfl⟩
  | _ => exact ⟨rfl, rfl⟩

theorem bound_step {l : Loop C} (hl : l.Causal) (h : l.Bound) (action : Action C)
    (hprompt : l.Prompt action) : (l.step action).Bound := by
  cases action with
  | task action =>
      obtain ⟨hstage, happlied⟩ := l.stage_task action
      refine h.of_eq hstage happlied fun hreceiving k i hmem => ?_
      rcases queue_task hmem with hold | ⟨c, machine, outbox, rfl, hd⟩
      · exact hold
      · exact absurd hd (hprompt hreceiving machine k i outbox)
  | transmit actions =>
      simp only [step, transmit]
      split
      · exact h.of_eq rfl rfl fun _ _ _ hmem => hmem
      · exact h
  | arrive packet =>
      simp only [step, arrive]
      split
      · exact h.of_eq rfl rfl fun _ _ _ hmem => hmem
      · split
        · exact h.of_eq rfl rfl fun _ _ _ hmem => hmem
        · exact h
  | poll =>
      simp only [step, poll]
      split
      · refine ⟨fun hstage k i hmem => ?_, fun batch hstage => ?_⟩
        · split at hstage
          · rename_i hempty
            rw [hempty] at hmem
            exact absurd hmem List.not_mem_nil
          · cases hstage
        · split at hstage <;> cases hstage
      · exact h
  | lookup =>
      simp only [step, lookup]
      split
      · rename_i hstage
        refine bound_of_stage (fun hs => ?_) (fun batch hs => ?_) <;> cases hstage.symm.trans hs
      · exact h
  | route =>
      simp only [step, route]
      split
      · exact bound_of_stage Stage.noConfusion fun _ => Stage.noConfusion
      · exact h
  | receive n =>
      simp only [step, receive]
      split
      · rename_i hreceiving
        split
        · exact bound_of_stage Stage.noConfusion fun _ => Stage.noConfusion
        · refine ⟨Stage.noConfusion, ?_⟩
          -- a bind is sent before its message, and none is queued
          rintro batch ⟨⟩ p hp m hm
          obtain ⟨hwire, hindex⟩ := hl.socket p (List.mem_of_mem_take hp) m hm
          refine ⟨hindex, (List.mem_append.mp (hl.wire m hwire)).resolve_right ?_⟩
          exact h.receiving hreceiving m.peerKey m.index
      · exact h
  | dispatch =>
      simp only [step, dispatch]
      split
      · exact bound_of_stage Stage.noConfusion fun _ => Stage.noConfusion
      · rename_i packet rest hstage
        refine ⟨Stage.noConfusion, ?_⟩
        rintro batch ⟨⟩ p hp
        exact h.handling _ hstage p (List.mem_cons_of_mem _ hp)
      · exact h

theorem bound_run {l : Loop C} (hl : l.Causal) (h : l.Bound) (actions : List (Action C))
    (hprompt : l.AllPrompt actions) : (l.run actions).Bound := by
  induction actions generalizing l with
  | nil => exact h
  | cons action rest ih =>
      exact ih (causal_step hl action) (bound_step hl h action hprompt.1) hprompt.2

/-! ### When it finds its route -/

/-- The index drawn for a step. -/
def Action.drawnIndex : Action C → Option UInt32
  | .task action => action.drawnIndex
  | _ => none

/-- Nobody has a claim on `index`, and it was not bound before. -/
structure New (l : Loop C) (index : UInt32) : Prop where
  unclaimed : l.net.Unclaimed index
  unbound : ∀ peerKey, .bind peerKey index ∉ l.applied

/-- Every index of a run is new when it is drawn. -/
def AllNew : Loop C → List (Action C) → Prop
  | _, [] => True
  | l, action :: rest =>
      (∀ index, action.drawnIndex = some index → l.New index) ∧ (l.step action).AllNew rest

/-- A live index of a registered peer whose bind was applied is routed to the
peer's actor. -/
def Routed (l : Loop C) : Prop :=
  ∀ peerKey c d i, l.net.table.peers peerKey = some c → l.net.drivers c = some d →
    i ∈ d.machine.live → .bind peerKey i ∈ l.applied → l.net.router.indices i = some c

theorem routed_start : (start C).Routed :=
  fun _ _ _ _ _ _ _ hbind => absurd hbind List.not_mem_nil

/-- A step that applies no message. -/
theorem Routed.of_change {l l' : Loop C} (hs : l.net.Sound) (h : l.Routed)
    {action : Net.Action C} (hroute : action ≠ .route)
    (hnew : ∀ i, action.drawnIndex = some i → l.New i) (hnet : l'.net = l.net.step action)
    (happlied : l'.applied = l.applied) : l'.Routed := by
  intro k c d i hentry hd hlive hbind
  rw [happlied] at hbind
  have hchange := l.net.step_change action
  rw [← hnet] at hchange
  generalize l'.net = net at hchange hentry hd ⊢
  cases hchange with
  | idle | purged | looked => exact h k c d i hentry hd hlive hbind
  | added peerKey presharedKey hfree =>
      rcases update_cases hd with ⟨-, hd⟩ | ⟨hne, hd⟩
      · cases hd
        cases hlive
      · rcases update_cases hentry with ⟨-, ⟨⟩⟩ | ⟨-, hentry⟩
        · exact absurd rfl hne
        · exact h k c d i hentry hd hlive hbind
  | removed peerKey actions hreg =>
      exact h k c d i (of_update_none hentry).2 hd hlive hbind
  | operated actions op machine hop =>
      rcases update_cases hd with ⟨rfl, hnow⟩ | ⟨-, hd⟩
      · cases hnow
        -- the drawn index was not bound before
        rcases (Peer.mem_live_step (hs.wellFormed _ _ hop) op i).mp (Or.inl hlive) with
          hold | hinst
        · exact h k c _ i hentry hop hold hbind
        · have hdrawn := Peer.Op.drawnIndex_of_installed hinst
          exact absurd hbind ((hnew i hdrawn).unbound k)
      · exact h k c d i hentry hd hlive hbind
  | reported actions machine control outbox hrep =>
      rcases update_cases hd with ⟨rfl, hnow⟩ | ⟨-, hd⟩
      · cases hnow
        exact h k c _ i hentry hrep hlive hbind
      · exact h k c d i hentry hd hlive hbind
  | routed => exact absurd rfl hroute
  | stopped actions machine hstop hgone =>
      exact h k c d i hentry (of_update_none hd).2 hlive hbind

/-- A message is applied: if it is the bind of a live index, the index is
routed now, and otherwise it leaves the route alone. -/
theorem routed_route {l : Loop C} (hs : l.net.Sound) (h : l.Routed) : l.route.Routed := by
  simp only [route]
  split
  · rename_i control queue table hstage hq hlooked
    intro k c d i hentry hd hlive hbind
    simp only [Net.route, hq, hlooked] at hentry hd ⊢
    cases hs.phase k c d i hentry hd hlive with
    | reporting d' hd' before hout hbefore hothers hqueue hroute =>
        rcases List.mem_append.mp hbind with hold | hnow
        · cases hroute.symm.trans (h k c d i hentry hd hlive hold)
        · rw [← List.mem_singleton.mp hnow] at hq
          exact absurd rfl (hqueue _ (hq ▸ List.mem_cons_self))
    | queued before after hqueue hbefore hafter hout hlook hroute =>
        rcases List.mem_append.mp hbind with hold | hnow
        · cases hroute.symm.trans (h k c d i hentry hd hlive hold)
        · have hcontrol := List.mem_singleton.mp hnow
          rw [hq, ← hcontrol] at hqueue
          -- the bind is the first message about its index
          cases before with
          | nil =>
              rw [← hcontrol]
              exact IndexRouter.indices_apply_bind (hlook rfl table hlooked) hroute
          | cons first before =>
              cases hqueue
              exact absurd rfl (hbefore _ List.mem_cons_self)
    | routed hqueue hout hroute =>
        refine (IndexRouter.indices_apply_of_ne (hqueue _ (hq ▸ List.mem_cons_self)) ?_).trans
          hroute
        rintro c' rfl hr
        cases hroute.symm.trans hr
        exact (hs.gone c (Or.inr (hq ▸ List.mem_cons_self))).2 k hentry
  · exact h

/-- What a step does to the routes and the actors. -/
inductive Moves (l : Loop C) (action : Action C) (l' : Loop C) : Prop where
  | none (hnet : l'.net = l.net) (happlied : l'.applied = l.applied)
  | task (a : Net.Action C) (hroute : a ≠ .route) (hdrawn : a.drawnIndex = action.drawnIndex)
      (hnet : l'.net = l.net.step a) (happlied : l'.applied = l.applied)
  | route (hl : l' = l.route)

theorem moves_step (l : Loop C) (action : Action C) : Moves l action (l.step action) := by
  cases action with
  | task a =>
      cases a with
      | operate actions op =>
          simp only [step, task]
          split
          · exact .task (.operate actions op) nofun rfl rfl rfl
          · exact .none rfl rfl
      | lookup | route => exact .none rfl rfl
      | addPeer peerKey presharedKey => exact .task (.addPeer peerKey presharedKey) nofun rfl rfl rfl
      | removePeer peerKey => exact .task (.removePeer peerKey) nofun rfl rfl rfl
      | sendPurge actions => exact .task (.sendPurge actions) nofun rfl rfl rfl
      | report actions => exact .task (.report actions) nofun rfl rfl rfl
      | stop actions => exact .task (.stop actions) nofun rfl rfl rfl
  | lookup =>
      simp only [step, lookup]
      split
      · exact .task .lookup nofun rfl rfl rfl
      · exact .none rfl rfl
  | route => exact .route rfl
  | transmit actions =>
      simp only [step, transmit]
      split <;> exact .none rfl rfl
  | arrive packet =>
      simp only [step, arrive]
      split
      · exact .none rfl rfl
      · split <;> exact .none rfl rfl
  | poll =>
      simp only [step, poll]
      split <;> exact .none rfl rfl
  | receive n =>
      simp only [step, receive]
      split
      · split <;> exact .none rfl rfl
      · exact .none rfl rfl
  | dispatch =>
      simp only [step, dispatch]
      split <;> exact .none rfl rfl

theorem sound_step {l : Loop C} (hs : l.net.Sound) (action : Action C)
    (hnew : ∀ i, action.drawnIndex = some i → l.New i) : (l.step action).net.Sound := by
  cases l.moves_step action with
  | none hnet happlied => exact hnet ▸ hs
  | task a hroute hdrawn hnet happlied =>
      rw [hnet]
      exact Net.sound_step hs a fun i hi => (hnew i (hdrawn.symm.trans hi)).unclaimed
  | route hl =>
      rw [hl, route]
      split
      · exact Net.sound_step hs .route nofun
      · exact hs

theorem routed_step {l : Loop C} (hs : l.net.Sound) (h : l.Routed) (action : Action C)
    (hnew : ∀ i, action.drawnIndex = some i → l.New i) : (l.step action).Routed := by
  cases l.moves_step action with
  | none hnet happlied =>
      rw [Routed, hnet, happlied]
      exact h
  | task a hroute hdrawn hnet happlied =>
      exact h.of_change hs hroute (fun i hi => hnew i (hdrawn.symm.trans hi)) hnet happlied
  | route hl =>
      rw [hl]
      exact routed_route hs h

theorem routed_run {l : Loop C} (hs : l.net.Sound) (h : l.Routed) (actions : List (Action C))
    (hnew : l.AllNew actions) : (l.run actions).Routed := by
  induction actions generalizing l with
  | nil => exact h
  | cons action rest ih =>
      exact ih (sound_step hs action hnew.1) (routed_step hs h action hnew.1) hnew.2

/-- **Replies can be routed where no bind falls between the polls.**  Whatever
else the interleaving is: if no bind is reported between the two polls of one
select, then a packet that answers a handshake message is looked up only
after the bind of its index was applied.  If moreover every index is new when
it is drawn, the message's actor is still registered and its machine still
holds the index, then the lookup finds the channel of this actor. -/
theorem reply_routed (actions : List (Action C)) (hprompt : (start C).AllPrompt actions)
    (packet : Reply) (rest : List Reply)
    (hstage : ((start C).run actions).stage = .handling (packet :: rest)) (m : HandshakeMessage)
    (hanswers : packet.answers = some m) :
    .bind m.peerKey m.index ∈ ((start C).run actions).applied ∧
    ((start C).AllNew actions →
      ((start C).run actions).net.table.entry m.peerKey = some m.actor →
      ∀ d, ((start C).run actions).net.drivers m.actor = some d → m.index ∈ d.machine.live →
        ((start C).run (actions ++ [.dispatch])).handled
          = ((start C).run actions).handled ++ [(packet, some m.actor)]) := by
  have hbound := bound_run causal_start
    (bound_of_stage Stage.noConfusion fun _ => Stage.noConfusion) actions hprompt
  obtain ⟨hindex, hbind⟩ := hbound.handling _ hstage packet List.mem_cons_self m hanswers
  refine ⟨hbind, fun hnew hentry d hd hlive => ?_⟩
  have hroute := routed_run Net.sound_start routed_start actions hnew m.peerKey m.actor d m.index
    hentry hd hlive hbind
  have happend : (start C).run (actions ++ [.dispatch]) = ((start C).run actions).dispatch :=
    List.foldl_append
  rw [happend]
  simp only [dispatch, hstage]
  rw [← hindex, hroute]

/-! ### Runs of one peer -/

/-- The handshake message of the runs below, and a reply to it. -/
def symbolicMessage : HandshakeMessage := ⟨0, Net.symbolicPeer, 7⟩

def symbolicReply : Reply := ⟨7, some symbolicMessage⟩

/-- The peer is added before the control queue is polled; what it binds and
sends, and the reply, come in the order `tail` says. -/
def answering (tail : List (Action Crypto.symbolic)) : List (Action Crypto.symbolic) :=
  [.task (.addPeer Net.symbolicPeer none), .task (.operate 0 Net.symbolicInit)] ++ tail

/-- The bind is applied, then the message sent and answered. -/
def bindFirst : List (Action Crypto.symbolic) :=
  [.task (.report 0), .poll, .lookup, .route, .transmit 0, .arrive symbolicReply, .poll, .receive 1]

/-- The control queue is polled first, then everything else happens. -/
def pollFirst : List (Action Crypto.symbolic) :=
  [.poll, .task (.report 0), .transmit 0, .arrive symbolicReply, .receive 1]

/-- The peer's initiation installs the index 7. -/
theorem exists_symbolicMessage : ∃ p : Peer Crypto.symbolic,
    (((Peer.new Crypto.symbolic Net.symbolicPeer).setPresharedKey none).step
      Net.symbolicInit).2 = p ∧
    ((Peer.new Crypto.symbolic Net.symbolicPeer).setPresharedKey none).reports Net.symbolicInit
      = [.bind Net.symbolicPeer 7] ∧
    p.peerKey = Net.symbolicPeer ∧ (7 : UInt32) ∈ p.live ∧
    Net.symbolicInit.installed
      (((Peer.new Crypto.symbolic Net.symbolicPeer).setPresharedKey none).step
        Net.symbolicInit).1 = some 7 := by
  obtain ⟨msg, p, h, hkey, hpending, hnext, hcurrent, hprevious⟩ :=
    ((Peer.new Crypto.symbolic Net.symbolicPeer).setPresharedKey none).exists_initiated (1 : UInt8)
      ⟨7, (3 : UInt8), Crypto.symbolicTime⟩ (List.replicate initMsgLength 0)
      (List.length_replicate).ge rfl
  refine ⟨p, congrArg Prod.snd h, ?_, hkey, ?_, ?_⟩
  · rw [Peer.reports, Net.symbolicInit, h]
    rfl
  · rw [Peer.live_of_pending hpending hnext hcurrent hprevious]
    exact Multiset.mem_singleton_self 7
  · rw [Net.symbolicInit, h]
    rfl

/-- The index of the initiation is new when it is drawn. -/
theorem allNew_answering {tail : List (Action Crypto.symbolic)}
    (htail : ∀ action ∈ tail, action.drawnIndex = none) :
    (start Crypto.symbolic).AllNew (answering tail) := by
  refine ⟨nofun, fun i _ => ⟨⟨?_, fun c d hd => ?_⟩, fun k => List.not_mem_nil⟩, ?_⟩
  · exact Net.unused_of_idle (fun c d hd => (Net.live_added hd).1) rfl rfl i
  · rw [(Net.live_added hd).2]
    exact fun _ h => absurd h List.not_mem_nil
  · generalize (((start Crypto.symbolic).step _).step _) = l
    induction tail generalizing l with
    | nil => trivial
    | cons action rest ih =>
        refine ⟨fun i hi => ?_, ih (fun a ha => htail a (List.mem_cons_of_mem _ ha)) _⟩
        cases (htail action List.mem_cons_self).symm.trans hi

/-- The reply to a message whose bind came first is handed to the actor. -/
theorem reply_routed_bindFirst :
    .bind Net.symbolicPeer 7 ∈ ((start Crypto.symbolic).run (answering bindFirst)).applied ∧
    ((start Crypto.symbolic).run (answering bindFirst ++ [.dispatch])).handled
      = [(symbolicReply, some 0)] := by
  obtain ⟨p, hstep, hbind, hkey, hlive, hinst⟩ := exists_symbolicMessage
  have hprompt : (start Crypto.symbolic).AllPrompt (answering bindFirst) := by
    simp [answering, bindFirst, AllPrompt, Prompt, step, task, start, Net.step, Net.addPeer,
      Net.start, RoutingTable.registerPeer, RoutingTable.new, Net.operate, hinst, hstep, hbind]
  obtain ⟨hstage, hentry, hdriver, hhandled⟩ :
      ((start Crypto.symbolic).run (answering bindFirst)).stage = .handling [symbolicReply] ∧
      ((start Crypto.symbolic).run (answering bindFirst)).net.table.entry symbolicMessage.peerKey
        = some symbolicMessage.actor ∧
      ((start Crypto.symbolic).run (answering bindFirst)).net.drivers symbolicMessage.actor
        = some ⟨p, []⟩ ∧
      ((start Crypto.symbolic).run (answering bindFirst)).handled = [] := by
    simp [answering, bindFirst, run, step, task, start, Net.step, Net.addPeer,
      Net.start, RoutingTable.registerPeer, RoutingTable.new, RoutingTable.entry, Net.operate,
      hinst, hstep, hbind, hkey, Net.report, poll, lookup, route, transmit, arrive, Net.lookup,
      Net.route, receive, symbolicReply, symbolicMessage]
  obtain ⟨happlied, hrouted⟩ := reply_routed (answering bindFirst) hprompt symbolicReply []
    hstage symbolicMessage rfl
  have hnew : (start Crypto.symbolic).AllNew (answering bindFirst) :=
    allNew_answering (by simp [bindFirst, Action.drawnIndex, Net.Action.drawnIndex])
  refine ⟨happlied, ?_⟩
  rw [hrouted hnew hentry ⟨p, []⟩ hdriver hlive, hhandled]
  rfl

/-- **A reply can come before its bind.**  The control queue is polled and
found empty; then the actor of a registered peer binds its index, its message
is sent and answered, and the socket is polled.  The reply finds no route. -/
theorem reply_before_bind : ∃ (actions : List (Action Crypto.symbolic)) (packet : Reply)
    (rest : List Reply) (m : HandshakeMessage),
    ((start Crypto.symbolic).run actions).stage = .handling (packet :: rest) ∧
    packet.answers = some m ∧ m ∈ ((start Crypto.symbolic).run actions).wire ∧
    ((start Crypto.symbolic).run actions).net.table.entry m.peerKey = some m.actor ∧
    .bind m.peerKey m.index ∉ ((start Crypto.symbolic).run actions).applied ∧
    ((start Crypto.symbolic).run (actions ++ [.dispatch])).handled = [(packet, none)] := by
  obtain ⟨p, hstep, hbind, hkey, -, hinst⟩ := exists_symbolicMessage
  refine ⟨answering pollFirst, symbolicReply, [], symbolicMessage, ?_⟩
  simp [answering, pollFirst, run, step, task, start, Net.step, Net.addPeer,
      Net.start, RoutingTable.registerPeer, RoutingTable.new, Net.operate, hinst, hstep, hbind,
      hkey, Net.report, poll, transmit, arrive, receive, dispatch, IndexRouter.new,
      RoutingTable.entry, symbolicReply, symbolicMessage]

end Loop

end Tunstile
