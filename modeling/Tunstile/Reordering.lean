/-
Tunstile/Reordering.lean

What two drivers do for each other when the network loses, repeats and
reorders data messages.

Once the drivers are connected, one side sends some payloads.  The network
then passes on whichever of their packets it likes, in any order and any
number of times.  Each payload whose packet comes at all is delivered, once
and when its packet first comes, unless a packet comes further behind than
the window of the replay filter reaches (`reordered_arrive`).
-/
import Tunstile.Lossless

namespace Tunstile

variable {C : Crypto}

theorem numbered_getElem? (n : UInt64) (payloads : List Bytes) {i : ℕ} (h : i < payloads.length) :
    (numbered n payloads)[i]? = some (n + UInt64.ofNat i, payloads.getD i []) := by
  induction payloads generalizing n i with
  | nil => cases h
  | cons payload rest ih =>
      cases i with
      | zero =>
          show some (n, payload) = some (n + 0, payload)
          rw [UInt64.add_zero]
      | succ i =>
          have hnext : n + 1 + UInt64.ofNat i = n + UInt64.ofNat (i + 1) := by
            rw [UInt64.ofNat_add, UInt64.add_assoc, UInt64.add_comm 1]
            rfl
          show (numbered (n + 1) rest)[i]? = some (n + UInt64.ofNat (i + 1), rest.getD i [])
          rw [ih (n + 1) (Nat.lt_of_succ_lt_succ h), hnext]

namespace Network

/-- The data messages that the network has still to carry from a side. -/
def packets (addr : Side → SocketAddr) (w : Network C) (s : Side) : List Bytes :=
  (w.pending addr s).flatMap Datagrams.segments

/-- The network passes on what is on the way from a side, by the number of the
packet, as many at a time as the read loop gets. -/
def scramble (key : Side → C.Secret) (addr : Side → SocketAddr) (w : Network C) (s : Side)
    (order : List (List ℕ)) : Link C :=
  w.link.run (order.map fun batch => (s.other, .actions
    ((batch.filterMap fun i => (w.packets addr s)[i]?).filterMap
      (handedOn (key s.other) (addr s)))))

/-- What one pass hands on. -/
theorem handedOn_batch (ourKey : C.Secret) (addr : SocketAddr) {x y : Session C}
    (hindex : x.transport.peerIndex = y.ourIndex)
    (hkeys : x.transport.sendAead = y.transport.recvAead) (payloads : List Bytes) {batch : List ℕ}
    (hsent : ∀ i ∈ batch, i < payloads.length) :
    ((batch.filterMap fun i => (x.packets payloads)[i]?).filterMap (handedOn ourKey addr))
      = Actor.arriving y addr (batch.map fun i =>
          (x.transport.sendCounter + UInt64.ofNat i, payloads.getD i [])) := by
  rw [List.filterMap_filterMap, Actor.arriving, List.map_map, ← List.filterMap_eq_map]
  refine List.filterMap_congr fun i hi => ?_
  rw [Session.packets, List.getElem?_map, numbered_getElem? _ _ (hsent i hi), hindex, hkeys]
  exact handedOn_dataPacket ourKey addr _ _ _

theorem eventsOf_map (s : Side) (events : List (Actor.Event C)) :
    Link.eventsOf s (events.map (s, ·)) = events := by
  rw [Link.eventsOf, List.filterMap_map]
  exact (List.filterMap_congr fun event _ => if_pos rfl).trans (List.filterMap_some)

theorem Connected.reordered (hseal : C.OpenSeal) {key : Side → C.Secret} {t : Side → Instant}
    {addr : Side → SocketAddr} {session : Side → Session C} {w : Network C}
    (h : Connected t addr session w) (s : Side) {payloads : List Bytes}
    (hctr : (session s).transport.sendCounter.toNat + payloads.length < rekeyAfterMessages.toNat)
    {order : List (List ℕ)} (hsent : ∀ i ∈ order.flatten, i < payloads.length)
    (hwindow : order.flatten.Pairwise fun earlier later => earlier ≤ later + counterWindow.toNat) :
    (((w.queue s payloads).scramble key addr s order).actor s.other).inbound
      = (w.link.actor s.other).inbound
        ++ (order.flatten.eraseDups.map fun i => payloads.getD i []).filter (· ≠ []) := by
  have hother := h.up s.other
  rw [Side.other_other] at hother
  -- the side that sends
  obtain ⟨-, -, new, hnew, hto, hsegments⟩ := (h.up s).flushSends hctr
  have hpending : (w.queue s payloads).pending addr s = new :=
    pending_eq ((congrArg Actor.datagrams (w.actor_queue_self s payloads)).trans hnew) (h.carried s)
      hto
  have hpackets : (w.queue s payloads).packets addr s = (session s).packets payloads := by
    rw [packets, hpending, hsegments]
  -- the side that receives
  obtain ⟨acc, hacc, hbelow⟩ := (h.feeds s).window
  have hdelivers := hother.delivers_in_window hseal hacc _ hbelow payloads
    (hctr.le.trans (by decide)) order hsent hwindow
  have hevents : (order.map fun batch => (s.other, Actor.Event.actions
        ((batch.filterMap fun i => ((session s).packets payloads)[i]?).filterMap
          (handedOn (key s.other) (addr s)))))
      = (order.map fun batch => Actor.Event.actions (Actor.arriving (session s.other) (addr s)
          (batch.map fun i => ((session s).transport.sendCounter + UInt64.ofNat i,
            payloads.getD i [])))).map (s.other, ·) := by
    rw [List.map_map]
    refine List.map_congr_left fun batch hbatch => ?_
    rw [handedOn_batch (key s.other) (addr s) (h.feeds s).index (h.feeds s).keys payloads
      fun i hi => hsent i (List.mem_flatten.mpr ⟨batch, hbatch, hi⟩)]
    rfl
  rw [scramble, Link.run_apply, hpackets, hevents, eventsOf_map, w.actor_queue_of_ne s.other_ne]
  exact hdelivers

end Network

end Tunstile
