/-
Tunstile/Link.lean

Two drivers and the network between them.

Each side runs one `PeerActor` for the other.  Their turns interleave in any
order, and what arrives is arbitrary, as in `World.lean`: packets may be
dropped, duplicated, reordered, replayed or made up.

The deeds of both drivers, in order, are calls of the two machines
(`calls`), and the world that these calls lead to is the one that the
drivers hold (`mirrors_run`).  So what is proved of two machines is true of
two drivers: what one side delivers is, packet by packet, what the other side
encrypted (`inbound_subperm`).
-/
import Tunstile.Acts
import Tunstile.Delivery
import Tunstile.Fifo
import Mathlib.Data.List.Flatten

namespace Tunstile

variable {C : Crypto}

/-! ### Counting what two machines exchange -/

/-- The payloads that side `s` encrypted, in order. -/
def Event.encryptedBy (s : Side) : Event → Option Bytes
  | .encrypted s' payload => if s' = s then some payload else none
  | .decrypted _ _ => none

/-- The payloads that side `s` decrypted, in order. -/
def Event.decryptedBy (s : Side) : Event → Option Bytes
  | .encrypted _ _ => none
  | .decrypted s' payload => if s' = s then some payload else none

/-- What one machine decrypts, the other encrypted, counting repetitions. -/
theorem World.decrypted_subperm (hC : C.CollisionFree) {key : Side → C.Secret}
    (hkey : C.publicKey (key .a) ≠ C.publicKey (key .b)) {actions : List (Side × Action C)}
    (hideal : (start key).IdealRun key actions) (s : Side) :
    (((start key).run key actions).events.filterMap (Event.decryptedBy s)).Subperm
      (((start key).run key actions).events.filterMap (Event.encryptedBy s.other)) := by
  have hw := sound_run hC hkey (sound_start key) hideal
  have hused := subperm_of_justified (justified_used hw.log)
  -- of the keys that were consumed, those that side `s` took from the other side
  have hside := subperm_filterMap hused fun k => if k.1 = s.other then some k.2.1 else none
  have htaken : (fun x : Side × Entry C => (x.2.event x.1).bind (Event.decryptedBy s))
      = fun x => (Entry.used x).bind fun y => (consumed y).bind fun k =>
        if k.1 = s.other then some k.2.1 else none := by
    funext ⟨s', entry⟩
    cases entry with
    | call call => cases call <;> rfl
    | answered => rfl
    | delivered k counter payload =>
        have hiff : s' = s ↔ s'.other = s.other :=
          ⟨congrArg _, fun h => by rw [← Side.other_other s', h, Side.other_other]⟩
        show (if s' = s then some payload else none)
          = if s'.other = s.other then some payload else none
        simp only [hiff]
  have hgiven : (fun x : Side × Entry C => (x.2.event x.1).bind (Event.encryptedBy s.other))
      = fun x => (Entry.used x).bind fun y => (produced y).bind fun k =>
        if k.1 = s.other then some k.2.1 else none := by
    funext ⟨s', entry⟩
    cases entry with
    | call call => cases call <;> rfl
    | answered => rfl
    | delivered => rfl
  rw [hw.events, List.filterMap_filterMap, List.filterMap_filterMap, htaken, hgiven]
  rwa [List.filterMap_filterMap, List.filterMap_filterMap, List.filterMap_filterMap,
    List.filterMap_filterMap] at hside

/-! ### Deeds as calls -/

/-- What was sealed; a keepalive is an empty plaintext. -/
def Sealed.plaintext : Sealed → Bytes
  | .payload p => p
  | .keepalive => []

namespace Deed

/-- The calls a deed makes, as actions of a side.  An initiation is received
from the packet that `wire` says it came in. -/
def calls (wire : InitReceived C → Bytes) : Deed C → List (Action C)
  | .endpointSet endpoint => [.setEndpoint endpoint]
  | .presharedKeySet presharedKey => [.setPresharedKey presharedKey]
  | .cookieStored reply timestamp => [.cookieReply reply timestamp]
  | .initiated values _ => [.initiate values (List.replicate initMsgLength 0)]
  | .abandoned => [.abandonHandshake]
  | .responded now handshake values d _ =>
      [.respond now (wire handshake) values d.endpoint (List.replicate respMsgLength 0)]
  | .answered now resp source _ => [.handshakeResponse now resp source]
  | .sent now payloads d _ =>
      payloads.map fun payload => .encrypt now payload (List.replicate d.segmentSize 0)
  | .keptAlive now _ _ => [.encrypt now [] (List.replicate (packetLen 0) 0)]
  | .received now packet receiver source _ _ _ => [.decrypt now receiver packet source]

/-- What the caller of the machine sees of a deed. -/
def events (s : Side) : Deed C → List Event
  | .sent _ payloads _ _ => payloads.map (.encrypted s)
  | .keptAlive _ _ _ => [.encrypted s []]
  | .received _ _ _ _ payload _ _ => [.decrypted s payload]
  | _ => []

/-- What a deed encrypts. -/
theorem encryptedBy_events (s : Side) (deed : Deed C) :
    (deed.events s).filterMap (Event.encryptedBy s) = deed.sealed.map Sealed.plaintext := by
  cases deed with
  | sent now payloads d keys =>
      simp only [events, sealed, List.filterMap_map, List.map_map]
      rw [show Event.encryptedBy s ∘ Event.encrypted s = some from funext fun _ => if_pos rfl,
        List.filterMap_some]
      exact (List.map_id payloads).symm
  | keptAlive now d keys =>
      have hown : Event.encryptedBy s (.encrypted s []) = some [] := if_pos rfl
      simp only [events]
      rw [List.filterMap_cons_some hown, List.filterMap_nil]
      rfl
  | _ => rfl

/-- What is delivered was decrypted, and is no keepalive. -/
theorem delivered_sublist (s : Side) (deed : Deed C) :
    deed.delivered.Sublist
      (((deed.events s).filterMap (Event.decryptedBy s)).filter fun payload => payload ≠ []) := by
  cases deed with
  | received now packet receiver source payload taken =>
      have hown : Event.decryptedBy s (.decrypted s payload) = some payload := if_pos rfl
      simp only [delivered, events]
      rw [List.filterMap_cons_some hown, List.filterMap_nil]
      split
      · rename_i h
        rw [List.filter_cons_of_pos (by exact decide_eq_true h.1)]
        exact List.Sublist.refl _
      · exact List.nil_sublist _
  | _ => exact List.nil_sublist _

end Deed

/-! ### Two drivers -/

/-- The driver on each side. -/
structure Link (C : Crypto) where
  actor : Side → Actor C

namespace Link

/-- Each side has a driver for the other, newly spawned. -/
def start (key : Side → C.Secret) (presharedKey : Side → Option PresharedKey)
    (persistentKeepalive : Side → Option Duration) (env : Side → Env C) : Link C where
  actor s :=
    .spawn (key s) (C.publicKey (key s.other)) (presharedKey s) (persistentKeepalive s) (env s)

/-- One side takes a turn. -/
def turn (l : Link C) (s : Side) (event : Actor.Event C) : Link C :=
  ⟨Function.update l.actor s ((l.actor s).turn event)⟩

theorem turn_self (l : Link C) (s : Side) (event : Actor.Event C) :
    (l.turn s event).actor s = (l.actor s).turn event := Function.update_self ..

theorem turn_of_ne (l : Link C) {s t : Side} (h : t ≠ s) (event : Actor.Event C) :
    (l.turn s event).actor t = l.actor t := Function.update_of_ne h ..

def run (l : Link C) (events : List (Side × Actor.Event C)) : Link C :=
  events.foldl (fun l x => l.turn x.1 x.2) l

theorem run_append (l : Link C) (events events' : List (Side × Actor.Event C)) :
    l.run (events ++ events') = (l.run events).run events' := List.foldl_append

/-- The events of one side. -/
def eventsOf (s : Side) (events : List (Side × Actor.Event C)) : List (Actor.Event C) :=
  events.filterMap fun x => if x.1 = s then some x.2 else none

theorem eventsOf_cons_self (s : Side) (event : Actor.Event C)
    (events : List (Side × Actor.Event C)) :
    eventsOf s ((s, event) :: events) = event :: eventsOf s events :=
  List.filterMap_cons_some (if_pos rfl)

theorem eventsOf_cons_of_ne {s t : Side} (h : t ≠ s) (event : Actor.Event C)
    (events : List (Side × Actor.Event C)) :
    eventsOf s ((t, event) :: events) = eventsOf s events :=
  List.filterMap_cons_none (if_neg h)

/-- Each driver runs on the events of its own side. -/
theorem run_apply (l : Link C) (events : List (Side × Actor.Event C)) (s : Side) :
    (l.run events).actor s = (l.actor s).run (eventsOf s events) := by
  induction events generalizing l with
  | nil => rfl
  | cons x events ih =>
      obtain ⟨t, event⟩ := x
      show ((l.turn t event).run events).actor s = _
      rw [ih]
      by_cases hts : t = s
      · subst hts
        rw [eventsOf_cons_self, turn_self]
        rfl
      · rw [eventsOf_cons_of_ne hts, turn_of_ne l (Ne.symm hts)]

/-- `log` lists the deeds of both drivers while the events happen. -/
inductive Deeds : Link C → List (Side × Actor.Event C) → List (Side × Deed C) → Prop where
  | nil (l : Link C) : Deeds l [] []
  | cons {l : Link C} {s : Side} {event : Actor.Event C} {events : List (Side × Actor.Event C)}
      {log : List (Deed C)} {rest : List (Side × Deed C)}
      (htrace : Trace Actor.Act (l.actor s) log ((l.actor s).turn event))
      (hcarries : Carries event.batch log)
      (hrest : Deeds (l.turn s event) events rest) :
      Deeds l ((s, event) :: events) (log.map (s, ·) ++ rest)

theorem Deeds.append {l : Link C} {events events' : List (Side × Actor.Event C)}
    {log log' : List (Side × Deed C)} (h : Deeds l events log)
    (h' : Deeds (l.run events) events' log') : Deeds l (events ++ events') (log ++ log') := by
  induction h with
  | nil l => exact h'
  | cons htrace hcarries hrest ih =>
      rw [List.append_assoc]
      exact .cons htrace hcarries (ih h')

theorem healthy_turn {l : Link C} (hl : ∀ s, (l.actor s).machine.Healthy) (s : Side)
    (event : Actor.Event C) : ∀ t, ((l.turn s event).actor t).machine.Healthy := by
  intro t
  have hnext := Actor.healthy_turn (hl s) event
  by_cases hts : t = s
  · subst hts
    rwa [turn_self]
  · rw [turn_of_ne l hts]
    exact hl t

/-- **Every run is a sequence of deeds.** -/
theorem exists_deeds {l : Link C} (hl : ∀ s, (l.actor s).machine.Healthy)
    (events : List (Side × Actor.Event C)) : ∃ log, Deeds l events log := by
  induction events generalizing l with
  | nil => exact ⟨[], .nil l⟩
  | cons x events ih =>
      obtain ⟨log, htrace, hcarries, -⟩ := (l.actor x.1).acts_turn x.2 (hl x.1)
      obtain ⟨rest, hrest⟩ := ih (healthy_turn hl x.1 x.2)
      exact ⟨_, .cons htrace hcarries hrest⟩

/-! ### The world of two drivers -/

/-- The machines of the drivers are the peers of the world. -/
structure Mirrors (key : Side → C.Secret) (l : Link C) (w : World C) : Prop where
  ourKey : ∀ s, (l.actor s).ourKey = key s
  peer : ∀ s, w.peer s = (l.actor s).machine

/-- The calls of a sequence of deeds. -/
def calls (wire : Side → InitReceived C → Bytes) (log : List (Side × Deed C)) :
    List (Side × Action C) :=
  log.flatMap fun x => (x.2.calls (wire x.1)).map (x.1, ·)

theorem calls_append (wire : Side → InitReceived C → Bytes) (log log' : List (Side × Deed C)) :
    calls wire (log ++ log') = calls wire log ++ calls wire log' := List.flatMap_append

/-- What the callers see of a sequence of deeds. -/
def eventsSeen (log : List (Side × Deed C)) : List Event := log.flatMap fun x => x.2.events x.1

/-- The initiation that a deed answers arrived as the packet `wire` gives, and
carries the key of the other side: what the read loop and the registry see
to. -/
def Received (key : Side → C.Secret) (wire : Side → InitReceived C → Bytes) (s : Side)
    (handshake : InitReceived C) : Prop :=
  InitReceived.receive (key s) (wire s handshake) = .ok handshake ∧
    handshake.peerPublic = C.publicKey (key s.other)

section

variable {key : Side → C.Secret} {wire : Side → InitReceived C → Bytes}

/-- A call of one side, in the world. -/
theorem world_call {w : World C} {s : Side} {action : Action C} {op : Peer.Op C}
    {o : Peer.Outcome} {p' : Peer C} (hop : action.op (key s) (w.peer s).peerKey = some op)
    (hstep : (w.peer s).step op = (o, p')) :
    (w.run key ([action].map (s, ·))).peer = Function.update w.peer s p' ∧
      (w.run key ([action].map (s, ·))).events = w.events ++ action.observe s o := by
  have hrun : w.run key ([action].map (s, ·)) = w.step key s action := rfl
  rw [hrun, World.step_eq hop hstep]
  exact ⟨rfl, rfl⟩

/-- Payloads sealed one after the other, in the world. -/
theorem world_seals {now : Instant} {size : ℕ} {p p' : Peer C} {payloads packets : List Bytes}
    (h : p.Seals now size payloads packets p') {w : World C} {s : Side} (hw : w.peer s = p) :
    (w.run key (payloads.map fun payload =>
        (s, .encrypt now payload (List.replicate size 0)))).peer = Function.update w.peer s p' ∧
      (w.run key (payloads.map fun payload =>
        (s, .encrypt now payload (List.replicate size 0)))).events
        = w.events ++ payloads.map (.encrypted s) := by
  induction h generalizing w with
  | nil p =>
      refine ⟨?_, (List.append_nil _).symm⟩
      rw [← hw]
      exact (Function.update_eq_self s w.peer).symm
  | cons hstep hrest ih =>
      rename_i p q p' payload packet payloads packets n
      have hop : (Action.encrypt now payload (List.replicate size 0)).op (key s) (w.peer s).peerKey
          = some (.encrypt now payload (List.replicate size 0)) := rfl
      obtain ⟨hpeer, hevents⟩ := world_call hop (hw ▸ hstep)
      obtain ⟨hpeer', hevents'⟩ := ih (w := w.run key
        ([Action.encrypt now payload (List.replicate size 0)].map (s, ·)))
        (by rw [hpeer, Function.update_self])
      refine ⟨hpeer'.trans ?_, hevents'.trans ?_⟩
      · rw [hpeer, Function.update_idem]
      · rw [hevents, List.append_assoc]
        rfl

/-- **A deed is its calls.** -/
theorem world_deed {w : World C} {s : Side} {deed : Deed C} {p' : Peer C}
    (hpeerKey : (w.peer s).peerKey = C.publicKey (key s.other))
    (h : deed.Performs (key s) (w.peer s) p')
    (hwire : ∀ now handshake values d keys, deed = .responded now handshake values d keys →
      Received key wire s handshake) :
    (w.run key ((deed.calls (wire s)).map (s, ·))).peer = Function.update w.peer s p' ∧
      (w.run key ((deed.calls (wire s)).map (s, ·))).events = w.events ++ deed.events s := by
  cases h with
  | endpointSet endpoint => exact world_call rfl rfl
  | presharedKeySet presharedKey => exact world_call rfl rfl
  | cookieStored h => exact world_call rfl h
  | initiated hendpoint hsize h => exact world_call rfl h
  | abandoned h => exact world_call rfl h
  | responded hsize h =>
      rename_i now handshake values d keys displaced hkeys
      obtain ⟨hrecv, hkey⟩ := hwire now handshake values d keys rfl
      have hop : (Action.respond now (wire s handshake) values d.endpoint
          (List.replicate respMsgLength 0)).op (key s) (w.peer s).peerKey
            = some (.respond now handshake values d.endpoint (List.replicate respMsgLength 0)) := by
        simp only [Action.op, hrecv, hpeerKey, hkey, if_true]
      exact world_call hop h
  | answered h => exact world_call rfl h
  | sent _ _ _ _ h =>
      simp only [Deed.calls, List.map_map]
      exact world_seals h rfl
  | keptAlive _ _ h => exact world_call rfl h
  | received h => exact world_call rfl h

/-- A side's own trace, in the world. -/
theorem world_trace {s : Side} {a a' : Actor C} {log : List (Deed C)}
    (h : Trace Actor.Act a log a') {w : World C} (hour : a.ourKey = key s)
    (hpeer : w.peer s = a.machine) (hp : a.machine.Healthy)
    (hpeerKey : a.machine.peerKey = C.publicKey (key s.other))
    (hwire : ∀ deed ∈ log, ∀ now handshake values d keys,
      deed = .responded now handshake values d keys → Received key wire s handshake) :
    a'.ourKey = key s ∧ a'.machine.peerKey = C.publicKey (key s.other) ∧
      (w.run key ((log.flatMap (Deed.calls (wire s))).map (s, ·))).peer
        = Function.update w.peer s a'.machine ∧
      (w.run key ((log.flatMap (Deed.calls (wire s))).map (s, ·))).events
        = w.events ++ log.flatMap (Deed.events s) := by
  induction h with
  | refl =>
      refine ⟨hour, hpeerKey, ?_, (List.append_nil _).symm⟩
      rw [← hpeer]
      exact (Function.update_eq_self s w.peer).symm
  | tail hbefore hact ih =>
      rename_i b c log new
      have hhealthy := hbefore.keeps_state (fun _ _ _ hp h => h.healthy hp) hp
      obtain ⟨hour', hkey', hpeer', hevents'⟩ :=
        ih fun deed hmem => hwire deed (List.mem_append_left _ hmem)
      cases hact with
      | book h =>
          rw [List.append_nil]
          exact ⟨h.ourKey.trans hour', h.machine ▸ hkey', h.machine ▸ hpeer', hevents'⟩
      | deed h =>
          rename_i deed
          rw [List.flatMap_append, List.flatMap_singleton, List.map_append, World.run_append,
            List.flatMap_append, List.flatMap_singleton, ← List.append_assoc, ← hevents']
          generalize w.run key ((log.flatMap (Deed.calls (wire s))).map (s, ·)) = w' at *
          have hself : w'.peer s = b.machine := by rw [hpeer', Function.update_self]
          have hperf : deed.Performs (key s) (w'.peer s) c.machine := by
            rw [hself, ← hour']
            exact h.machine
          obtain ⟨hpeer'', hevents''⟩ := world_deed (by rw [hself]; exact hkey') hperf
            (hwire deed (List.mem_append_right _ List.mem_cons_self))
          refine ⟨h.ourKey.trans hour', ?_, ?_, hevents''⟩
          · rw [h.machine.peerKey_eq hhealthy]
            exact hkey'
          · rw [hpeer'', hpeer', Function.update_idem]

/-- **The world of two drivers.**  The calls that the drivers make lead the
world to the machines that the drivers hold, and show their callers what the
deeds show. -/
theorem mirrors_run {l : Link C} {events : List (Side × Actor.Event C)}
    {log : List (Side × Deed C)} (h : Deeds l events log) {w : World C} (hm : Mirrors key l w)
    (hhealthy : ∀ s, (l.actor s).machine.Healthy)
    (hpeerKey : ∀ s, (l.actor s).machine.peerKey = C.publicKey (key s.other))
    (hwire : ∀ s handshake endpoint,
      .recvHandshakeInit handshake endpoint ∈ Actor.received (eventsOf s events) →
        Received key wire s handshake) :
    Mirrors key (l.run events) (w.run key (calls wire log)) ∧
      (w.run key (calls wire log)).events = w.events ++ eventsSeen log := by
  induction h generalizing w with
  | nil l => exact ⟨hm, (List.append_nil _).symm⟩
  | cons htrace hcarries hrest ih =>
      rename_i l s event events log rest
      have hwire' : ∀ deed ∈ log, ∀ now handshake values d keys,
          deed = .responded now handshake values d keys → Received key wire s handshake := by
        rintro deed hmem now handshake values d keys rfl
        refine hwire s handshake d.endpoint ?_
        rw [eventsOf_cons_self]
        exact List.mem_append_left _ (hcarries.caused hmem).responded
      obtain ⟨hour, hkey, hpeer, hevents⟩ := world_trace htrace (hm.ourKey s) (hm.peer s)
        (hhealthy s) (hpeerKey s) hwire'
      have hcalls : calls wire (log.map (s, ·) ++ rest)
          = (log.flatMap (Deed.calls (wire s))).map (s, ·) ++ calls wire rest := by
        rw [calls, List.flatMap_append, List.flatMap_map, List.map_flatMap]
        rfl
      have hseen : eventsSeen (log.map (s, ·) ++ rest)
          = log.flatMap (Deed.events s) ++ eventsSeen rest := by
        rw [eventsSeen, List.flatMap_append, List.flatMap_map]
        rfl
      have hm' : Mirrors key (l.turn s event)
          (w.run key ((log.flatMap (Deed.calls (wire s))).map (s, ·))) := by
        constructor <;> intro t <;> by_cases hts : t = s
        · subst hts
          rw [turn_self]
          exact hour
        · rw [turn_of_ne l hts]
          exact hm.ourKey t
        · subst hts
          rw [turn_self, hpeer, Function.update_self]
        · rw [turn_of_ne l hts, hpeer, Function.update_of_ne hts]
          exact hm.peer t
      obtain ⟨hmirrors, hall⟩ := ih hm' (healthy_turn hhealthy s event)
        (fun t => by
          by_cases hts : t = s
          · subst hts
            rw [turn_self]
            exact hkey
          · rw [turn_of_ne l hts]
            exact hpeerKey t)
        (fun t handshake endpoint hmem => hwire t handshake endpoint (by
          by_cases hts : s = t
          · subst hts
            rw [eventsOf_cons_self]
            exact List.mem_append_right _ hmem
          · rwa [eventsOf_cons_of_ne hts]))
      rw [hcalls, World.run_append, hseen, ← List.append_assoc, ← hevents]
      exact ⟨hmirrors, hall⟩

/-! ### What the drivers deliver -/

theorem decryptedBy_events_of_ne {s t : Side} (h : t ≠ s) (deed : Deed C) :
    (deed.events t).filterMap (Event.decryptedBy s) = [] := by
  rw [List.filterMap_eq_nil_iff]
  intro event hevent
  cases deed with
  | sent now payloads d =>
      obtain ⟨payload, -, rfl⟩ := List.mem_map.mp hevent
      rfl
  | keptAlive now d => exact List.mem_singleton.mp hevent ▸ rfl
  | received now packet receiver source payload taken =>
      exact List.mem_singleton.mp hevent ▸ if_neg h
  | _ => cases hevent

theorem encryptedBy_events_of_ne {s t : Side} (h : t ≠ s) (deed : Deed C) :
    (deed.events t).filterMap (Event.encryptedBy s) = [] := by
  rw [List.filterMap_eq_nil_iff]
  intro event hevent
  cases deed with
  | sent now payloads d =>
      obtain ⟨payload, -, rfl⟩ := List.mem_map.mp hevent
      exact if_neg h
  | keptAlive now d => exact List.mem_singleton.mp hevent ▸ if_neg h
  | received now packet receiver source payload taken =>
      exact List.mem_singleton.mp hevent ▸ rfl
  | _ => cases hevent

/-- What a side delivers was decrypted there, and what it encrypted is what
it sealed. -/
theorem sums_run {l : Link C} {events : List (Side × Actor.Event C)} {log : List (Side × Deed C)}
    (h : Deeds l events log) (s : Side) :
    (∃ new, ((l.run events).actor s).inbound = (l.actor s).inbound ++ new ∧
      new.Sublist (((eventsSeen log).filterMap (Event.decryptedBy s)).filter (· ≠ []))) ∧
    ∃ new, ((l.run events).actor s).sealed = (l.actor s).sealed ++ new ∧
      new.map Sealed.plaintext = (eventsSeen log).filterMap (Event.encryptedBy s) := by
  induction h with
  | nil l =>
      exact ⟨⟨[], (List.append_nil _).symm, List.nil_sublist _⟩, [], (List.append_nil _).symm, rfl⟩
  | cons htrace hcaused hrest ih =>
      rename_i l t event events log rest
      obtain ⟨⟨new, hinbound, hsub⟩, more, hsealed, hplain⟩ := ih
      have hseen : eventsSeen (log.map (t, ·) ++ rest)
          = log.flatMap (Deed.events t) ++ eventsSeen rest := by
        rw [eventsSeen, List.flatMap_append, List.flatMap_map]
        rfl
      rw [hseen, List.filterMap_append, List.filter_append, List.filterMap_append]
      by_cases hts : t = s
      · subst hts
        have hsums := Actor.sums_of_trace htrace
        rw [turn_self] at hinbound hsealed
        refine ⟨⟨log.flatMap Deed.delivered ++ new, ?_, ?_⟩, log.flatMap Deed.sealed ++ more, ?_, ?_⟩
        · rw [← List.append_assoc, ← hsums.inbound]
          exact hinbound
        · refine List.Sublist.append ?_ hsub
          rw [List.filterMap_flatMap, List.filter_flatMap]
          exact List.Sublist.flatMap_right log fun deed _ => deed.delivered_sublist t
        · rw [← List.append_assoc, ← hsums.sealed]
          exact hsealed
        · rw [List.map_append, hplain, List.map_flatMap, List.filterMap_flatMap]
          simp only [Deed.encryptedBy_events]
      · rw [turn_of_ne l (Ne.symm hts)] at hinbound hsealed
        have hnone : (log.flatMap (Deed.events t)).filterMap (Event.decryptedBy s) = [] := by
          rw [List.filterMap_flatMap, List.flatMap_eq_nil_iff]
          exact fun deed _ => decryptedBy_events_of_ne hts deed
        have hnone' : (log.flatMap (Deed.events t)).filterMap (Event.encryptedBy s) = [] := by
          rw [List.filterMap_flatMap, List.flatMap_eq_nil_iff]
          exact fun deed _ => encryptedBy_events_of_ne hts deed
        rw [hnone, hnone']
        exact ⟨⟨new, hinbound, hsub⟩, more, hsealed, hplain⟩

/-- Without the empty ones, what was sealed are payloads. -/
theorem plaintext_sublist (sealed : List Sealed) :
    ((sealed.map Sealed.plaintext).filter (· ≠ [])).Sublist (sealed.filterMap Sealed.payload?) := by
  induction sealed with
  | nil => exact List.Sublist.refl _
  | cons x sealed ih =>
      cases x with
      | payload payload =>
          have hsome : (Sealed.payload payload).payload? = some payload := rfl
          rw [List.map_cons, List.filterMap_cons_some hsome, List.filter_cons]
          split
          · exact ih.cons_cons _
          · exact ih.cons _
      | keepalive => exact ih

end

section Authentic

variable (hC : C.CollisionFree) {key : Side → C.Secret}
  (hkey : C.publicKey (key .a) ≠ C.publicKey (key .b))
  {presharedKey : Side → Option PresharedKey} {persistentKeepalive : Side → Option Duration}
  {env : Side → Env C} {events : List (Side × Actor.Event C)}

/-- The calls that give the machines their pre-shared keys. -/
def setUp (presharedKey : Side → Option PresharedKey) : List (Side × Action C) :=
  [(.a, .setPresharedKey (presharedKey .a)), (.b, .setPresharedKey (presharedKey .b))]

/-- New drivers, with the keys that they are given. -/
theorem mirrors_start : Mirrors key (start key presharedKey persistentKeepalive env)
    ((World.start key).run key (setUp presharedKey)) :=
  ⟨fun _ => rfl, fun s => by cases s <;> rfl⟩

/-- Every initiation that reaches a driver was received from a packet, and
carries the key of the other side. -/
def AllReceived (key : Side → C.Secret) (wire : Side → InitReceived C → Bytes)
    (events : List (Side × Actor.Event C)) : Prop :=
  ∀ s handshake endpoint,
    .recvHandshakeInit handshake endpoint ∈ Actor.received (eventsOf s events) →
      Received key wire s handshake

/-- What was encrypted was queued before. -/
theorem encryptedPayloads_sublist (hclock : ∀ s, Actor.Monotonic (env s).clock) (s : Side) :
    (((start key presharedKey persistentKeepalive env).run events).actor s).encryptedPayloads.Sublist
      (Actor.arrivals (eventsOf s events)) := by
  have hsettled := (Actor.settled_spawn (key s) (C.publicKey (key s.other))
    (presharedKey s) (persistentKeepalive s) (hclock s)).run (eventsOf s events)
  rw [run_apply]
  show (Actor.run (Actor.spawn _ _ _ _ _) _).encryptedPayloads.Sublist _
  rw [hsettled.encrypted_eq]
  refine List.Sublist.trans (List.filter_sublist.map Prod.fst) ?_
  have hledger := hsettled.ledger_eq
  rw [List.nil_append] at hledger
  exact hledger ▸ List.sublist_append_left _ _

include hC hkey in
/-- What one driver delivers, the other encrypted, counting repetitions. -/
theorem inbound_subperm {wire : Side → InitReceived C → Bytes}
    (hwire : AllReceived key wire events) {log : List (Side × Deed C)}
    (hlog : Deeds (start key presharedKey persistentKeepalive env) events log)
    (hideal : (World.start key).IdealRun key (setUp presharedKey ++ calls wire log)) (s : Side) :
    let l := (start key presharedKey persistentKeepalive env).run events
    (l.actor s).inbound.Subperm (l.actor s.other).encryptedPayloads := by
  obtain ⟨-, hevents⟩ := mirrors_run hlog mirrors_start (fun _ => Peer.healthy_new _ _)
    (fun _ => rfl) hwire
  -- no call before the first deed shows anything to a caller
  have hnone : ((World.start key).run key (setUp presharedKey)).events = [] := rfl
  rw [hnone, List.nil_append] at hevents
  have hworld := World.decrypted_subperm hC hkey hideal s
  rw [World.run_append, hevents] at hworld
  obtain ⟨⟨new, hinbound, hnew⟩, -⟩ := sums_run hlog s
  obtain ⟨-, sealed, hsealed, hplain⟩ := sums_run hlog s.other
  intro l
  have hinbound' : (l.actor s).inbound = new := hinbound
  have hsealed' : (l.actor s.other).sealed = sealed := hsealed
  rw [hinbound', Actor.encryptedPayloads, hsealed']
  refine hnew.subperm.trans ((hworld.filter _).trans ?_)
  rw [← hplain]
  exact (plaintext_sublist sealed).subperm

end Authentic

end Link

end Tunstile
