/-
Tunstile/Lifecycle.lean

Whole runs of a peer: where its handshakes and sessions go, and which indices
it reports.

A session has no name in the program, so the runs are tracked.  `Labels`
gives every initiation and every responder session a number of its own when
it is installed; an initiation and the session its response opens share one.
Beside the peer, `Tracked` records what was installed, what was reported and
what was sent, each under its label.

One equation, `conserved`, carries the module: what is held and what was
reported is exactly what was installed.  Since labels are given once, a label
is then held in one slot at most, and never after it was reported.
-/
import Mathlib.Algebra.Order.Group.Multiset
import Mathlib.Tactic.Abel
import Tunstile.Peer

namespace Tunstile

variable {C : Crypto}

/-- `s'` is the session `s` later on: same keys and indices, and the replay
window moved, if at all, by a counter it accepted. -/
structure Session.Continues (s s' : Session C) : Prop where
  transport_eq : { s'.transport with sendCounter := s.transport.sendCounter } = s.transport
  established_eq : s'.established = s.established
  replay_eq : s'.replay = s.replay ∨ ∃ c, s.replay.validate c = (true, s'.replay)

theorem Session.Continues.rfl {s : Session C} : s.Continues s :=
  ⟨Eq.refl _, Eq.refl _, Or.inl (Eq.refl _)⟩

namespace Peer

/-! ### Indices and labels -/

/-- The index a call reported as no longer routing to this peer. -/
def Outcome.returned : Outcome → Option UInt32
  | .written retired _ => retired
  | .rotated retired => retired
  | .decrypted recv _ => recv.unmapped
  | _ => none

/-- The index a successful `initiate` or `respond` installed. -/
def Op.installed : Op C → Outcome → Option UInt32
  | .initiate _ values _, .written _ _ => some values.index
  | .respond _ _ values _ _, .written _ _ => some values.index
  | _, _ => none

/-- The live receiver indices. -/
def live (p : Peer C) : Multiset UInt32 :=
  ↑(p.pending.map PendingHandshake.ourIndex).toList + ↑(p.next.map Session.ourIndex).toList
    + ↑(p.current.map Session.ourIndex).toList + ↑(p.previous.map Session.ourIndex).toList

/-- The label of each slot, and the next label to give. -/
structure Labels where
  pending : Option ℕ
  next : Option ℕ
  current : Option ℕ
  previous : Option ℕ
  fresh : ℕ

namespace Labels

def start : Labels := ⟨none, none, none, none, 0⟩

/-- Labels move with what they name. -/
def step (l : Labels) : Op C → Outcome → Labels
  | .initiate _ _ _, .written _ _ => { l with pending := some l.fresh, fresh := l.fresh + 1 }
  | .respond _ _ _ _ _, .written _ _ => { l with next := some l.fresh, fresh := l.fresh + 1 }
  | .handshakeResponse _ _ _ _, .rotated _ =>
      { l with current := l.pending, previous := l.current }
  | .decrypt _ _ _ _, .decrypted recv _ =>
      if recv.confirmed then { l with current := l.next, previous := l.current } else l
  | _, _ => l

/-- The label of the slot whose index a call reports. -/
def retired (l : Labels) : Op C → Option ℕ
  | .initiate _ _ _ => l.pending
  | .abandonHandshake => l.pending
  | .respond _ _ _ _ _ => l.next
  | _ => l.previous

/-- A label is given exactly when an index is installed. -/
theorem fresh_step (l : Labels) (op : Op C) (o : Outcome) :
    (l.step op o).fresh = l.fresh + (op.installed o).toList.length := by
  cases op <;> cases o <;> try rfl
  simp only [step]
  split <;> rfl

/-- The label of a session slot. -/
def slot (l : Labels) : Slot → Option ℕ
  | .next => l.next
  | .current => l.current
  | .previous => l.previous

end Labels

/-- The index of one slot, under its label. -/
def entry (l : Option ℕ) (i : Option UInt32) : Multiset (Option ℕ × UInt32) :=
  ↑(i.toList.map fun i => (l, i))

@[simp] theorem entry_none (l : Option ℕ) : entry l none = 0 := rfl

@[simp] theorem map_snd_entry (l : Option ℕ) (i : Option UInt32) :
    (entry l i).map Prod.snd = ↑i.toList := by
  cases i <;> rfl

/-- What the peer holds, under its labels. -/
def entries (l : Labels) (p : Peer C) : Multiset (Option ℕ × UInt32) :=
  entry l.pending (p.pending.map PendingHandshake.ourIndex)
    + entry l.next (p.next.map Session.ourIndex)
    + entry l.current (p.current.map Session.ourIndex)
    + entry l.previous (p.previous.map Session.ourIndex)

theorem map_snd_entries (l : Labels) (p : Peer C) : (entries l p).map Prod.snd = p.live := by
  simp only [entries, live, Multiset.map_add, map_snd_entry]

/-- **Conservation**, for one call: what is held after it and what it
reported is what was held before it and what it installed. -/
theorem Effect.entries_eq {p p' : Peer C} {op : Op C} {o : Outcome} (hp : p.WellFormed)
    (h : Effect p op o p') (l : Labels) :
    entries (l.step op o) p' + entry (l.retired op) o.returned
      = entries l p + entry (some l.fresh) (op.installed o) := by
  cases h with
  | failed e => cases op <;> rfl
  | initiated mac1 msg hmsg =>
      simp only [entries, Labels.step, Labels.retired, Outcome.returned, Op.installed,
        Option.map_some]
      abel
  | abandoned =>
      simp only [entries, Labels.step, Labels.retired, Outcome.returned, Op.installed,
        Option.map_none, entry_none]
      abel
  | responded mac1 msg hts hmsg =>
      simp only [entries, Labels.step, Labels.retired, Outcome.returned, Op.installed,
        Option.map_some, Session.ourIndex_new, ReceiverEstablished.ourIndex_finish]
      abel
  | answered pending est hpending hansw =>
      have hidx : est.ourIndex = pending.ourIndex := by
        rw [hansw.est_eq, hp.pending pending hpending]
      simp only [entries, Labels.step, Labels.retired, Outcome.returned, Op.installed,
        Option.map_some, Option.map_none, entry_none, Session.ourIndex_new,
        InitiatorEstablished.ourIndex_finish, hidx, hpending]
      abel
  | cookieStored cookie => rfl
  | endpointSet e => rfl
  | presharedKeySet k => rfl
  | encrypted session hend hcur hlive hlen hctr =>
      simp only [entries, Labels.step, Outcome.returned, Op.installed, hcur]
      rfl
  | confirmed session counter payload replay hnext hlive hauth hreplay =>
      simp only [entries, Labels.step, Labels.retired, Outcome.returned, Op.installed, if_true,
        Option.map_some, Option.map_none, entry_none, hnext, Session.ourIndex]
      abel
  | received j session counter payload replay hj hslot hlive hauth hreplay =>
      cases j with
      | next => exact absurd rfl hj
      | current =>
          have hcur : p.current = some session := hslot
          simp only [entries, Labels.step, Outcome.returned, Op.installed, hcur]
          rfl
      | previous =>
          have hprev : p.previous = some session := hslot
          simp only [entries, Labels.step, Outcome.returned, Op.installed, hprev]
          rfl

/-- Conservation of the live indices, for one call. -/
theorem live_step {p : Peer C} (hp : p.WellFormed) (op : Op C) :
    (p.step op).2.live + ↑(p.step op).1.returned.toList
      = p.live + ↑(op.installed (p.step op).1).toList := by
  have hstep := congrArg (Multiset.map Prod.snd)
    ((p.step_effect hp op).entries_eq hp Labels.start)
  simpa only [Multiset.map_add, map_snd_entries, map_snd_entry] using hstep

/-! ### Tracked runs -/

/-- The record of a successful encrypt: the label and the send key of the
session it was made on, what was encrypted, and the packet written. -/
structure Sent (C : Crypto) where
  label : Option ℕ
  key : C.Hash256
  payload : Bytes
  packet : Bytes

/-- The counter in the header of the packet. -/
def Sent.counter (x : Sent C) : UInt64 := u64FromLe (slice x.packet dataCounter)

/-- A peer with the record of its run. -/
structure Tracked (C : Crypto) where
  peer : Peer C
  labels : Labels
  installed : List (Option ℕ × UInt32)
  reported : List (Option ℕ × UInt32)
  sent : List (Sent C)

namespace Tracked

def start (C : Crypto) (key : PublicKey) : Tracked C := ⟨new C key, Labels.start, [], [], []⟩

/-- What a call adds to the record of packets. -/
def sentBy (l : Labels) (p : Peer C) : Op C → Outcome → List (Sent C)
  | .encrypt _ payload _, .encrypted len out =>
      p.current.toList.map fun session =>
        ⟨l.current, session.transport.sendAead, payload, out.take len⟩
  | _, _ => []

def step (t : Tracked C) (op : Op C) : Tracked C :=
  let r := t.peer.step op
  { peer := r.2
    labels := t.labels.step op r.1
    installed := t.installed ++ (op.installed r.1).toList.map fun i => (some t.labels.fresh, i)
    reported := t.reported ++ r.1.returned.toList.map fun i => (t.labels.retired op, i)
    sent := t.sent ++ sentBy t.labels t.peer op r.1 }

def run (t : Tracked C) (ops : List (Op C)) : Tracked C := ops.foldl step t

@[simp] theorem run_cons (t : Tracked C) (op : Op C) (ops : List (Op C)) :
    t.run (op :: ops) = (t.step op).run ops := rfl

/-- Tracking does not change the run. -/
theorem peer_run (t : Tracked C) (ops : List (Op C)) : (t.run ops).peer = t.peer.run ops := by
  induction ops generalizing t with
  | nil => rfl
  | cons op ops ih => exact ih (t.step op)

/-- The label of the send session. -/
def sending (t : Tracked C) : Option ℕ := t.peer.current.bind fun _ => t.labels.current

/-! ### Conservation along a run -/

/-- The record is faithful: what is held and what was reported is what was
installed, and each installation has a label of its own. -/
structure Faithful (t : Tracked C) : Prop where
  wellFormed : t.peer.WellFormed
  conserved : entries t.labels t.peer + (t.reported : Multiset (Option ℕ × UInt32))
    = (t.installed : Multiset (Option ℕ × UInt32))
  named : t.installed.map Prod.fst = (List.range t.labels.fresh).map some

theorem faithful_start (key : PublicKey) : (start C key).Faithful :=
  ⟨wellFormed_new key, rfl, rfl⟩

theorem faithful_step {t : Tracked C} (h : t.Faithful) (op : Op C) : (t.step op).Faithful where
  wellFormed := wellFormed_step h.wellFormed op
  conserved := by
    have hstep := (t.peer.step_effect h.wellFormed op).entries_eq h.wellFormed t.labels
    simp only [step, ← Multiset.coe_add, ← h.conserved]
    calc entries _ _ + (↑t.reported + entry (t.labels.retired op) (t.peer.step op).1.returned)
        = (entries (t.labels.step op (t.peer.step op).1) (t.peer.step op).2
            + entry (t.labels.retired op) (t.peer.step op).1.returned) + ↑t.reported := by abel
      _ = _ := by rw [hstep, entry]; abel
  named := by
    simp only [step, Labels.fresh_step, List.map_append, h.named]
    cases op.installed (t.peer.step op).1 with
    | none => simp
    | some i => simp [List.range_succ]

theorem faithful_run {t : Tracked C} (h : t.Faithful) (ops : List (Op C)) :
    (t.run ops).Faithful := by
  induction ops generalizing t with
  | nil => exact h
  | cons op ops ih => exact ih (faithful_step h op)

/-- No label is held twice, or held after it was reported. -/
theorem Faithful.nodup {t : Tracked C} (h : t.Faithful) :
    ((entries t.labels t.peer).map Prod.fst + ↑(t.reported.map Prod.fst)).Nodup := by
  have hsum : (entries t.labels t.peer).map Prod.fst + ↑(t.reported.map Prod.fst)
      = ((t.installed.map Prod.fst : List (Option ℕ)) : Multiset (Option ℕ)) := by
    rw [← Multiset.map_coe, ← Multiset.map_coe, ← Multiset.map_add, h.conserved]
  rw [hsum, h.named, Multiset.coe_nodup]
  exact List.nodup_range.map (Option.some_injective _)

/-- Whatever is held has a label, given before. -/
theorem Faithful.label_lt {t : Tracked C} (h : t.Faithful) {l : Option ℕ} {i : UInt32}
    (hmem : (l, i) ∈ entries t.labels t.peer) : ∃ id, l = some id ∧ id < t.labels.fresh := by
  have hin : (l, i) ∈ t.installed := by
    rw [← Multiset.mem_coe, ← h.conserved]
    exact Multiset.mem_add.mpr (Or.inl hmem)
  have := List.mem_map_of_mem (f := Prod.fst) hin
  rw [h.named] at this
  obtain ⟨id, hid, rfl⟩ := List.mem_map.mp this
  exact ⟨id, rfl, List.mem_range.mp hid⟩

/-! ### Where sessions go -/

/-- The ways the session slots can change in one call. -/
inductive Rotation (t : Tracked C) : Op C → Tracked C → Prop where
  /-- Every session stays where it is. -/
  | kept {op : Op C} {t' : Tracked C} (hlabels : t'.labels.slot = t.labels.slot)
      (hnext : t'.peer.next = t.peer.next)
      (hcurrent : Option.Rel Session.Continues t.peer.current t'.peer.current)
      (hprevious : Option.Rel Session.Continues t.peer.previous t'.peer.previous) :
      Rotation t op t'
  /-- A newer respond takes the place of an unconfirmed session, which is
  reported. -/
  | displaced {now : Instant} {handshake : InitReceived C} {values : HandshakeValues C}
      {source : SocketAddr} {out : Bytes} {t' : Tracked C} (transport : Transport C)
      (hlabel : t'.labels.next = some t.labels.fresh)
      (hnext : t'.peer.next = some (Session.new transport now))
      (hindex : transport.ourIndex = values.index)
      (hcurrent : t'.labels.current = t.labels.current ∧ t'.peer.current = t.peer.current)
      (hprevious : t'.labels.previous = t.labels.previous ∧ t'.peer.previous = t.peer.previous)
      (hreported : t'.reported = t.reported ++
        (t.peer.next.map Session.ourIndex).toList.map fun i => (t.labels.next, i)) :
      Rotation t (.respond now handshake values source out) t'
  /-- The pending handshake becomes the send session, the send session the
  previous one, and the previous one is reported. -/
  | adopted {ourKey : C.Secret} {now : Instant} {packet : Bytes} {source : SocketAddr}
      {t' : Tracked C} (pending : PendingHandshake C) (transport : Transport C)
      (hpending : t.peer.pending = some pending)
      (hindex : transport.ourIndex = pending.ourIndex)
      (hnext : t'.labels.next = t.labels.next ∧ t'.peer.next = t.peer.next)
      (hcurrent : t'.labels.current = t.labels.pending ∧
        t'.peer.current = some (Session.new transport now))
      (hprevious : t'.labels.previous = t.labels.current ∧ t'.peer.previous = t.peer.current)
      (hreported : t'.reported = t.reported ++
        (t.peer.previous.map Session.ourIndex).toList.map fun i => (t.labels.previous, i)) :
      Rotation t (.handshakeResponse ourKey now packet source) t'
  /-- The unconfirmed session becomes the send session, the send session the
  previous one, and the previous one is reported. -/
  | confirmed {now : Instant} {receiver : UInt32} {packet : Bytes} {source : SocketAddr}
      {t' : Tracked C} (s s' : Session C) (hs : t.peer.next = some s) (hcont : s.Continues s')
      (hnext : t'.peer.next = none)
      (hcurrent : t'.labels.current = t.labels.next ∧ t'.peer.current = some s')
      (hprevious : t'.labels.previous = t.labels.current ∧ t'.peer.previous = t.peer.current)
      (hreported : t'.reported = t.reported ++
        (t.peer.previous.map Session.ourIndex).toList.map fun i => (t.labels.previous, i)) :
      Rotation t (.decrypt now receiver packet source) t'

theorem rel_continues_rfl (o : Option (Session C)) : Option.Rel Session.Continues o o := by
  cases o with
  | none => exact .none
  | some s => exact .some Session.Continues.rfl

/-- **What one call does to the sessions.** -/
theorem rotation_step {t : Tracked C} (h : t.Faithful) (op : Op C) : Rotation t op (t.step op) := by
  have heff := t.peer.step_effect h.wellFormed op
  have hkept : ∀ o p', (t.peer.step op) = (o, p') → (t.labels.step op o).slot = t.labels.slot →
      p'.next = t.peer.next → Option.Rel Session.Continues t.peer.current p'.current →
      Option.Rel Session.Continues t.peer.previous p'.previous → Rotation t op (t.step op) := by
    intro o p' hr hl hn hc hp
    refine .kept ?_ ?_ ?_ ?_ <;> simp only [step, hr] <;> assumption
  rcases hr : t.peer.step op with ⟨o, p'⟩
  rw [hr] at heff
  cases heff with
  | failed e =>
      refine hkept _ _ hr ?_ rfl (rel_continues_rfl _) (rel_continues_rfl _)
      cases op <;> rfl
  | initiated mac1 msg hmsg =>
      exact hkept _ _ hr rfl rfl (rel_continues_rfl _) (rel_continues_rfl _)
  | abandoned => exact hkept _ _ hr rfl rfl (rel_continues_rfl _) (rel_continues_rfl _)
  | @responded now handshake values source out mac1 msg hts hmsg =>
      refine .displaced (ReceiverEstablished.finish ⟨values.index, handshake.indexInitiator,
        (RespTranscript.ofResponder handshake values.ephemeralSecret t.peer.presharedKey).constr⟩)
        ?_ ?_ rfl ⟨?_, ?_⟩ ⟨?_, ?_⟩ ?_ <;> simp only [step, hr] <;> rfl
  | answered pending est hpending hansw =>
      have hidx : est.finish.ourIndex = pending.ourIndex := by
        rw [InitiatorEstablished.ourIndex_finish, hansw.est_eq,
          h.wellFormed.pending pending hpending]
      refine .adopted pending est.finish hpending hidx ⟨?_, ?_⟩ ⟨?_, ?_⟩ ⟨?_, ?_⟩ ?_ <;>
        simp only [step, hr] <;> rfl
  | cookieStored cookie => exact hkept _ _ hr rfl rfl (rel_continues_rfl _) (rel_continues_rfl _)
  | endpointSet e => exact hkept _ _ hr rfl rfl (rel_continues_rfl _) (rel_continues_rfl _)
  | presharedKeySet k => exact hkept _ _ hr rfl rfl (rel_continues_rfl _) (rel_continues_rfl _)
  | encrypted session hend hcur hlive hlen hctr =>
      refine hkept _ _ hr rfl rfl ?_ (rel_continues_rfl _)
      rw [hcur]
      exact .some ⟨rfl, rfl, Or.inl rfl⟩
  | confirmed session counter payload replay hnext hlive hauth hreplay =>
      refine .confirmed session { session with replay := replay } hnext
        ⟨rfl, rfl, Or.inr ⟨counter, hreplay⟩⟩ ?_ ⟨?_, ?_⟩ ⟨?_, ?_⟩ ?_ <;>
        simp only [step, hr] <;> rfl
  | received j session counter payload replay hj hslot hlive hauth hreplay =>
      have hcont : session.Continues { session with replay := replay } :=
        ⟨rfl, rfl, Or.inr ⟨counter, hreplay⟩⟩
      cases j with
      | next => exact absurd rfl hj
      | current =>
          refine hkept _ _ hr rfl rfl ?_ (rel_continues_rfl _)
          rw [show t.peer.current = some session from hslot]
          exact .some hcont
      | previous =>
          refine hkept _ _ hr rfl rfl (rel_continues_rfl _) ?_
          rw [show t.peer.previous = some session from hslot]
          exact .some hcont

/-- **Index conservation and session lifecycle.**  In every reachable state,
every call conserves the live indices up to what it installs and reports and
moves sessions along the slots; over the whole run, what is still held and
what was reported is what was installed, each under a label of its own. -/
theorem index_conservation (key : PublicKey) (ops : List (Op C)) (op : Op C) :
    let t := (start C key).run ops
    t.peer = (new C key).run ops ∧
    (t.peer.step op).2.live + ↑(t.peer.step op).1.returned.toList
      = t.peer.live + ↑(op.installed (t.peer.step op).1).toList ∧
    Rotation t op (t.step op) ∧
    entries t.labels t.peer + (t.reported : Multiset (Option ℕ × UInt32))
      = (t.installed : Multiset (Option ℕ × UInt32)) ∧
    (t.installed.map Prod.fst).Nodup := by
  have hf := faithful_run (faithful_start (C := C) key) ops
  refine ⟨peer_run _ ops, live_step hf.wellFormed op, rotation_step hf op, hf.conserved, ?_⟩
  rw [hf.named]
  exact List.nodup_range.map (Option.some_injective _)

end Tracked

end Peer

end Tunstile
