/-
Tunstile/Counters.lean

The send counters of a peer over whole runs: no session ever sends twice
under one counter.

The invariant is `Counted`: the counters sent under a label are the numbers
below the send counter of the session that carries it, and each packet is
sealed under the key of that session with the counter of its header as the
nonce.  It needs labels to be distinct, which is conservation
(`Faithful.nodup`).  That a session does not
come back to the send slot, where its counter would go on, is a matter of
where labels can go (`Left`).
-/
import Tunstile.Lifecycle

namespace Tunstile

variable {C : Crypto}

namespace Peer

namespace Tracked

/-! ### Counters -/

/-- The counters sent under a label. -/
def countersOn (sent : List (Sent C)) (l : Option ℕ) : List ℕ :=
  (sent.filter fun x => x.label = l).map fun x => x.counter.toNat

theorem label_ne_of_countersOn {sent : List (Sent C)} {l : Option ℕ} (h : countersOn sent l = [])
    {x : Sent C} (hx : x ∈ sent) : x.label ≠ l := by
  intro hl
  have hmem : x ∈ sent.filter fun x => x.label = l :=
    List.mem_filter.mpr ⟨hx, decide_eq_true hl⟩
  rw [List.map_eq_nil_iff.mp h] at hmem
  exact List.not_mem_nil hmem

/-- The packet is its payload, sealed under the key with the counter of the
header as the nonce. -/
def Sealed (x : Sent C) : Prop :=
  ∃ receiver, x.packet = dataWire receiver x.counter (C.sealed x.key x.counter [] x.payload)

/-- The counters sent under a label are the numbers below the send counter of
the session that carries it, and its key is the one they were used with. -/
structure Counted (l : Labels) (p : Peer C) (sent : List (Sent C)) : Prop where
  slots : ∀ k s, p.slot k = some s →
    countersOn sent (l.slot k) = List.range s.transport.sendCounter.toNat
  pending : ∀ q, p.pending = some q → countersOn sent l.pending = []
  unborn : ∀ id, l.fresh ≤ id → countersOn sent (some id) = []
  consecutive : ∀ id, ∃ n, countersOn sent (some id) = List.range n
  bound : ∀ x ∈ sent, x.label.isSome = true ∧ x.counter < rejectAfterMessages
  sealed : ∀ x ∈ sent, Sealed x
  keyed : ∀ k s, p.slot k = some s → ∀ x ∈ sent, x.label = l.slot k →
    x.key = s.transport.sendAead
  shared : ∀ x ∈ sent, ∀ y ∈ sent, x.label = y.label → x.key = y.key

theorem counted_start (key : PublicKey) : Counted Labels.start (new C key) [] where
  slots := fun k s h => by cases k <;> cases h
  pending := nofun
  unborn := fun _ _ => rfl
  consecutive := fun _ => ⟨0, rfl⟩
  bound := nofun
  sealed := nofun
  keyed := fun _ _ _ _ h => absurd h List.not_mem_nil
  shared := nofun

/-- Nothing sent: every filled slot must hold a session from another slot, or
a new one under a label that never sent. -/
theorem Counted.of_quiet {l l' : Labels} {p p' : Peer C} {sent : List (Sent C)}
    (h : Counted l p sent) (hfresh : l.fresh ≤ l'.fresh)
    (hslots : ∀ k s, p'.slot k = some s →
      (∃ j s₀, p.slot j = some s₀ ∧ l'.slot k = l.slot j ∧
        s.transport.sendCounter = s₀.transport.sendCounter ∧
        s.transport.sendAead = s₀.transport.sendAead) ∨
      (countersOn sent (l'.slot k) = [] ∧ s.transport.sendCounter = 0))
    (hpending : ∀ q, p'.pending = some q → countersOn sent l'.pending = []) :
    Counted l' p' sent := by
  refine ⟨fun k s hs => ?_, hpending, fun id hid => h.unborn id (hfresh.trans hid),
    h.consecutive, h.bound, h.sealed, fun k s hs x hx hlabel => ?_, h.shared⟩
  · obtain ⟨j, s₀, hj, hl, hctr, -⟩ | ⟨hnil, hctr⟩ := hslots k s hs
    · rw [hl, hctr, h.slots j s₀ hj]
    · rw [hnil, hctr]
      rfl
  · obtain ⟨j, s₀, hj, hl, -, hkey⟩ | ⟨hnil, -⟩ := hslots k s hs
    · rw [hkey, h.keyed j s₀ hj x hx (hlabel.trans hl)]
    · exact absurd hlabel (label_ne_of_countersOn hnil hx)

/-- The counter field of a packet that was written is the counter. -/
theorem slice_dataWire_counter (receiver : UInt32) (counter : UInt64) (field : Bytes) :
    u64FromLe (slice (dataWire receiver counter field) dataCounter) = counter := by
  rw [dataWire_counter, u64FromLe_u64ToLe]

theorem sealed_dataWire (l : Option ℕ) (k : C.Hash256) (payload : Bytes) (receiver : UInt32)
    (counter : UInt64) :
    Sealed ⟨l, k, payload, dataWire receiver counter (C.sealed k counter [] payload)⟩ :=
  ⟨receiver, by rw [Sent.counter, slice_dataWire_counter]⟩

/-- The record of a successful encrypt holds the packet without the rest of
the buffer. -/
theorem sentBy_encrypted {l : Labels} {p : Peer C} {s : Session C} (hcur : p.current = some s)
    {now : Instant} {payload out rest : Bytes} {receiver : UInt32} {counter : UInt64}
    {k : C.Hash256} :
    sentBy l p (.encrypt now payload out) (.encrypted (packetLen payload.length)
        (dataWire receiver counter (C.sealed k counter [] payload) ++ rest))
      = [⟨l.current, s.transport.sendAead, payload,
          dataWire receiver counter (C.sealed k counter [] payload)⟩] := by
  simp only [sentBy, hcur, Option.toList_some, List.map_cons, List.map_nil,
    List.take_left' (length_dataWire_sealed _ _ _ _)]

theorem toNat_succ_of_lt {c : UInt64} (h : c < rejectAfterMessages) :
    (c + 1).toNat = c.toNat + 1 := by
  have : c.toNat < rejectAfterMessages.toNat := h
  have hmax : rejectAfterMessages.toNat < 2 ^ 64 - 1 := by decide
  rw [UInt64.toNat_add, UInt64.toNat_one]
  omega

/-- Other slots than the send slot carry other labels. -/
theorem Faithful.label_ne {t : Tracked C} (h : t.Faithful) {s : Session C}
    (hcur : t.peer.current = some s) :
    (∀ k s', k ≠ .current → t.peer.slot k = some s' → t.labels.slot k ≠ t.labels.current) ∧
      ∀ q, t.peer.pending = some q → t.labels.pending ≠ t.labels.current := by
  have hone := Multiset.nodup_iff_count_le_one.mp h.nodup t.labels.current
  refine ⟨fun k s' hk hslot heq => ?_, fun q hq heq => ?_⟩
  · cases k with
    | next =>
        simp only [slot, Labels.slot] at hslot heq
        simp [entries, entry, hcur, hslot, heq] at hone
        omega
    | current => exact hk rfl
    | previous =>
        simp only [slot, Labels.slot] at hslot heq
        simp [entries, entry, hcur, hslot, heq] at hone
        omega
  · simp [entries, entry, hcur, hq, heq] at hone
    omega

/-- A call that leaves the session slots alone. -/
theorem Counted.of_frame {l l' : Labels} {p p' : Peer C} {sent : List (Sent C)}
    (h : Counted l p sent) (hfresh : l.fresh ≤ l'.fresh) (hslot : p'.slot = p.slot)
    (hlabel : l'.slot = l.slot)
    (hpending : ∀ q, p'.pending = some q → countersOn sent l'.pending = []) :
    Counted l' p' sent :=
  h.of_quiet hfresh (fun k s hs => Or.inl ⟨k, s, hslot ▸ hs, by rw [hlabel], rfl, rfl⟩) hpending

/-- Sending one packet on the send session. -/
theorem Counted.of_sent {l : Labels} {p : Peer C} {sent : List (Sent C)}
    (h : Counted l p sent) {s : Session C} (hcur : p.current = some s)
    (hlabel : l.current.isSome = true) (hctr : s.transport.sendCounter < rejectAfterMessages)
    (hlt : ∀ id, l.current = some id → id < l.fresh)
    (hother : ∀ k s', k ≠ .current → p.slot k = some s' → l.slot k ≠ l.current)
    (hpending : ∀ q, p.pending = some q → l.pending ≠ l.current) {x : Sent C}
    (hx : x.label = l.current) (hcounter : x.counter = s.transport.sendCounter)
    (hkey : x.key = s.transport.sendAead) (hsealed : Sealed x) :
    Counted l { p with current := some { s with transport :=
        { s.transport with sendCounter := s.transport.sendCounter + 1 } } } (sent ++ [x]) := by
  have hon : countersOn (sent ++ [x]) l.current
      = List.range (s.transport.sendCounter + 1).toNat := by
    have hbefore : countersOn sent l.current = List.range s.transport.sendCounter.toNat :=
      h.slots .current s hcur
    rw [toNat_succ_of_lt hctr, List.range_succ, ← hbefore]
    simp [countersOn, hx, hcounter]
  have hoff : ∀ l', l' ≠ l.current → countersOn (sent ++ [x]) l' = countersOn sent l' := by
    intro l' hne
    simp [countersOn, List.filter_append, hx, Ne.symm hne]
  have hold : ∀ y ∈ sent, y.label = l.current → y.key = s.transport.sendAead := fun y hy =>
    h.keyed .current s hcur y hy
  -- a session in another slot did not send this packet
  have haside : ∀ k s', k ≠ .current → p.slot k = some s' →
      ∀ y ∈ sent ++ [x], y.label = l.slot k → y.key = s'.transport.sendAead := by
    intro k s' hk hs' y hy hl
    rcases List.mem_append.mp hy with hy | hy
    · exact h.keyed k s' hs' y hy hl
    · rw [List.mem_singleton.mp hy, hx] at hl
      exact absurd hl.symm (hother k s' hk hs')
  refine ⟨fun k s' hs' => ?_, fun q hq => ?_, fun id hid => ?_, fun id => ?_, ?_, ?_, ?_, ?_⟩
  · cases k with
    | next => rw [hoff _ (hother .next s' nofun hs'), h.slots .next s' hs']
    | current =>
        cases hs'
        exact hon
    | previous => rw [hoff _ (hother .previous s' nofun hs'), h.slots .previous s' hs']
  · rw [hoff _ (hpending q hq), h.pending q hq]
  · rw [hoff, h.unborn id hid]
    intro heq
    have := hlt id heq.symm
    omega
  · by_cases heq : some id = l.current
    · exact ⟨_, by rw [heq, hon]⟩
    · rw [hoff _ heq]
      exact h.consecutive id
  · intro y hy
    rcases List.mem_append.mp hy with hy | hy
    · exact h.bound y hy
    · rw [List.mem_singleton.mp hy, hx, hcounter]
      exact ⟨hlabel, hctr⟩
  · intro y hy
    rcases List.mem_append.mp hy with hy | hy
    · exact h.sealed y hy
    · rw [List.mem_singleton.mp hy]
      exact hsealed
  · intro k s' hs' y hy hl
    cases k with
    | next => exact haside .next s' nofun hs' y hy hl
    | current =>
        cases hs'
        rcases List.mem_append.mp hy with hy | hy
        · exact hold y hy hl
        · rw [List.mem_singleton.mp hy]
          exact hkey
    | previous => exact haside .previous s' nofun hs' y hy hl
  · intro y hy z hz hl
    rcases List.mem_append.mp hy with hy | hy <;> rcases List.mem_append.mp hz with hz | hz
    · exact h.shared y hy z hz hl
    · rw [List.mem_singleton.mp hz] at hl ⊢
      rw [hold y hy (hl.trans hx), hkey]
    · rw [List.mem_singleton.mp hy] at hl ⊢
      rw [hold z hz (hl.symm.trans hx), hkey]
    · rw [List.mem_singleton.mp hy, List.mem_singleton.mp hz]

/-- One call keeps the counters right. -/
theorem counted_step {t : Tracked C} (hf : t.Faithful) (h : Counted t.labels t.peer t.sent)
    (op : Op C) : Counted (t.step op).labels (t.step op).peer (t.step op).sent := by
  have heff := t.peer.step_effect hf.wellFormed op
  have hfresh := t.labels.fresh_step op (t.peer.step op).1
  simp only [step]
  generalize (t.peer.step op).2 = p' at heff
  generalize (t.peer.step op).1 = o at heff hfresh
  have hle : t.labels.fresh ≤ (t.labels.step op o).fresh := by omega
  cases heff with
  | failed e =>
      have hl : t.labels.step op (.error e) = t.labels := by cases op <;> rfl
      have hs : sentBy t.labels t.peer op (.error e) = [] := by cases op <;> rfl
      simp only [hl, hs, List.append_nil]
      exact h
  | initiated mac1 msg hmsg =>
      simp only [sentBy, List.append_nil]
      exact h.of_frame hle (by funext k; cases k <;> rfl) rfl fun q hq => h.unborn _ le_rfl
  | abandoned =>
      simp only [sentBy, List.append_nil]
      exact h.of_frame hle (by funext k; cases k <;> rfl) rfl
        fun q hq => absurd hq.symm (Option.some_ne_none q)
  | responded mac1 msg hts hmsg =>
      simp only [sentBy, List.append_nil]
      refine h.of_quiet hle (fun k s hs => ?_) h.pending
      cases k with
      | next =>
          cases hs
          exact Or.inr ⟨h.unborn _ le_rfl, rfl⟩
      | current => exact Or.inl ⟨.current, s, hs, rfl, rfl, rfl⟩
      | previous => exact Or.inl ⟨.previous, s, hs, rfl, rfl, rfl⟩
  | answered pending est hpending hansw =>
      simp only [sentBy, List.append_nil]
      refine h.of_quiet hle (fun k s hs => ?_)
        fun q hq => absurd hq.symm (Option.some_ne_none q)
      cases k with
      | next => exact Or.inl ⟨.next, s, hs, rfl, rfl, rfl⟩
      | current =>
          cases hs
          exact Or.inr ⟨h.pending pending hpending, rfl⟩
      | previous => exact Or.inl ⟨.current, s, hs, rfl, rfl, rfl⟩
  | cookieStored cookie =>
      simp only [sentBy, List.append_nil]
      exact h.of_frame hle (by funext k; cases k <;> rfl) rfl h.pending
  | endpointSet e =>
      simp only [sentBy, List.append_nil]
      exact h.of_frame hle (by funext k; cases k <;> rfl) rfl h.pending
  | presharedKeySet psk =>
      simp only [sentBy, List.append_nil]
      exact h.of_frame hle (by funext k; cases k <;> rfl) rfl h.pending
  | encrypted session hend hcur hlive hlen hctr =>
      obtain ⟨hother, hpend⟩ := hf.label_ne hcur
      obtain ⟨id, hid, hlt⟩ := hf.label_lt (l := t.labels.current) (i := session.ourIndex)
        (by simp [entries, entry, hcur])
      rw [sentBy_encrypted hcur]
      refine h.of_sent hcur (by rw [hid]; rfl) hctr (fun id' hid' => ?_) hother hpend rfl
        (slice_dataWire_counter _ _ _) rfl (sealed_dataWire _ _ _ _ _)
      rw [hid] at hid'
      cases hid'
      exact hlt
  | confirmed session counter payload replay hnext hlive hauth hreplay =>
      simp only [sentBy, List.append_nil]
      refine h.of_quiet hle (fun k s hs => ?_) h.pending
      cases k with
      | next => cases hs
      | current =>
          cases hs
          exact Or.inl ⟨.next, session, hnext, rfl, rfl, rfl⟩
      | previous => exact Or.inl ⟨.current, s, hs, rfl, rfl, rfl⟩
  | received j session counter payload replay hj hslot hlive hauth hreplay =>
      simp only [sentBy, List.append_nil]
      refine h.of_quiet hle (fun k s hs => ?_) (by cases j <;> exact h.pending)
      by_cases hkj : k = j
      · subst hkj
        have : s.transport = session.transport := by cases k <;> cases hs <;> rfl
        exact Or.inl ⟨k, session, hslot, rfl, by rw [this], by rw [this]⟩
      · refine Or.inl ⟨k, s, ?_, rfl, rfl, rfl⟩
        cases j <;> cases k <;> first | exact hs | exact absurd rfl hkj

theorem counted_run {t : Tracked C} (hf : t.Faithful) (h : Counted t.labels t.peer t.sent)
    (ops : List (Op C)) : Counted (t.run ops).labels (t.run ops).peer (t.run ops).sent := by
  induction ops generalizing t with
  | nil => exact h
  | cons op ops ih => exact ih (faithful_step hf op) (counted_step hf h op)

/-! ### Leaving the send slot -/

/-- The session labelled `id` was the send session and is no more: it is
held for receiving, or was reported. -/
def Left (t : Tracked C) (id : ℕ) : Prop :=
  some id ∈ t.reported.map Prod.fst ∨ t.peer.previous.isSome = true ∧ t.labels.previous = some id

theorem sending_eq_some {t : Tracked C} {id : ℕ} :
    t.sending = some id ↔ t.peer.current.isSome = true ∧ t.labels.current = some id := by
  unfold sending
  cases t.peer.current <;> simp

theorem isSome_of_rel {a b : Option (Session C)} (h : Option.Rel Session.Continues a b) :
    a.isSome = b.isSome := by
  cases h <;> rfl

/-- The send session stays the send session or leaves the slot. -/
theorem sending_step {t : Tracked C} (hf : t.Faithful) (op : Op C) {id : ℕ}
    (h : t.sending = some id) : (t.step op).sending = some id ∨ (t.step op).Left id := by
  obtain ⟨hcur, hlab⟩ := sending_eq_some.mp h
  cases rotation_step hf op with
  | kept hlabels hnext hcurrent hprevious =>
      refine Or.inl (sending_eq_some.mpr ⟨?_, ?_⟩)
      · rw [← isSome_of_rel hcurrent, hcur]
      · exact (congrFun hlabels .current).trans hlab
  | displaced transport hlabel hnext hindex hcurrent hprevious hreported =>
      exact Or.inl (sending_eq_some.mpr ⟨hcurrent.2 ▸ hcur, hcurrent.1 ▸ hlab⟩)
  | adopted pending transport hpending hindex hnext hcurrent hprevious hreported =>
      exact Or.inr (Or.inr ⟨hprevious.2 ▸ hcur, hprevious.1 ▸ hlab⟩)
  | confirmed s s' hs hcont hnext hcurrent hprevious hreported =>
      exact Or.inr (Or.inr ⟨hprevious.2 ▸ hcur, hprevious.1 ▸ hlab⟩)

/-- A session that has left stays away. -/
theorem left_step {t : Tracked C} (hf : t.Faithful) (op : Op C) {id : ℕ} (h : t.Left id) :
    (t.step op).Left id := by
  rcases h with hrep | ⟨hprev, hlab⟩
  · refine Or.inl ?_
    simp only [step, List.map_append, List.mem_append]
    exact Or.inl hrep
  have hgone : (t.step op).reported = t.reported ++
      (t.peer.previous.map Session.ourIndex).toList.map (fun i => (t.labels.previous, i)) →
      (t.step op).Left id := by
    intro hreported
    obtain ⟨s, hs⟩ := Option.isSome_iff_exists.mp hprev
    refine Or.inl ?_
    rw [hreported, hs, hlab]
    simp
  cases rotation_step hf op with
  | kept hlabels hnext hcurrent hprevious =>
      refine Or.inr ⟨?_, (congrFun hlabels .previous).trans hlab⟩
      rw [← isSome_of_rel hprevious, hprev]
  | displaced transport hlabel hnext hindex hcurrent hprevious hreported =>
      exact Or.inr ⟨hprevious.2 ▸ hprev, hprevious.1 ▸ hlab⟩
  | adopted pending transport hpending hindex hnext hcurrent hprevious hreported =>
      exact hgone hreported
  | confirmed s s' hs hcont hnext hcurrent hprevious hreported => exact hgone hreported

/-- A session that has left is not the send session. -/
theorem Left.not_sending {t : Tracked C} (hf : t.Faithful) {id : ℕ} (h : t.Left id) :
    t.sending ≠ some id := by
  intro hsend
  obtain ⟨hcur, hlab⟩ := sending_eq_some.mp hsend
  obtain ⟨s, hs⟩ := Option.isSome_iff_exists.mp hcur
  rcases h with hrep | ⟨hprev, hlab'⟩
  · have hheld : some id ∈ (entries t.labels t.peer).map Prod.fst := by
      simp [entries, entry, hs, hlab]
    exact Multiset.disjoint_left.mp (Multiset.nodup_add.mp hf.nodup).2.2 hheld
      (Multiset.mem_coe.mpr hrep)
  · have hone := Multiset.nodup_iff_count_le_one.mp hf.nodup (some id)
    obtain ⟨s', hs'⟩ := Option.isSome_iff_exists.mp hprev
    simp [entries, entry, hs, hs', hlab, hlab'] at hone
    omega

theorem sending_run {t : Tracked C} (hf : t.Faithful) (ops : List (Op C)) {id : ℕ}
    (h : t.sending = some id ∨ t.Left id) :
    (t.run ops).sending = some id ∨ (t.run ops).Left id := by
  induction ops generalizing t with
  | nil => exact h
  | cons op ops ih =>
      refine ih (faithful_step hf op) ?_
      rcases h with h | h
      · exact sending_step hf op h
      · exact Or.inr (left_step hf op h)

theorem left_run {t : Tracked C} (hf : t.Faithful) (ops : List (Op C)) {id : ℕ}
    (h : t.Left id) : (t.run ops).Left id := by
  induction ops generalizing t with
  | nil => exact h
  | cons op ops ih => exact ih (faithful_step hf op) (left_step hf op h)

/-- Counters that do not repeat under any label do not repeat at all. -/
theorem nodup_of_countersOn {sent : List (Sent C)}
    (h : ∀ x ∈ sent, (countersOn sent x.label).Nodup) :
    (sent.map fun x => (x.label, x.counter)).Nodup := by
  induction sent with
  | nil => exact List.nodup_nil
  | cons x xs ih =>
      have hsub : ∀ l, (countersOn xs l).Sublist (countersOn (x :: xs) l) := fun l =>
        ((List.sublist_cons_self x xs).filter _).map _
      refine List.nodup_cons.mpr ⟨fun hx => ?_, ih fun y hy =>
        (h y (List.mem_cons_of_mem _ hy)).sublist (hsub y.label)⟩
      have hnodup := h x List.mem_cons_self
      rw [show countersOn (x :: xs) x.label = x.counter.toNat :: countersOn xs x.label by
        simp [countersOn]] at hnodup
      obtain ⟨y, hy, heq⟩ := List.mem_map.mp hx
      obtain ⟨hlabel, hcounter⟩ := Prod.mk.inj heq
      refine (List.nodup_cons.mp hnodup).1 ?_
      rw [← hcounter]
      exact List.mem_map_of_mem (f := fun x : Sent C => x.counter.toNat)
        (List.mem_filter.mpr ⟨hy, decide_eq_true hlabel⟩)

/-- **No nonce reuse.**  Over every run, the successful encrypts on one
session use the counters 0, 1, 2, … consecutively; no pair of session and
counter is used twice.  The counter is the nonce: each packet is the payload
sealed under it with the key of the session.  Every counter is below the
limit, so that the increment does not wrap and a replay filter that has not
moved past it accepts it; a failed encrypt changes nothing; and a session
that has left the send slot never returns to it. -/
theorem no_nonce_reuse (key : PublicKey) (ops : List (Op C)) :
    let t := (start C key).run ops
    (∀ id, ∃ n, countersOn t.sent (some id) = List.range n) ∧
    (t.sent.map fun x => (x.label, x.counter)).Nodup ∧
    (∀ x ∈ t.sent,
      (∃ receiver, x.packet
        = dataWire receiver x.counter (C.sealed x.key x.counter [] x.payload)) ∧
      ∀ y ∈ t.sent, x.label = y.label → x.key = y.key) ∧
    (∀ x ∈ t.sent, x.label.isSome = true ∧ x.counter < rejectAfterMessages ∧
      (x.counter + 1).toNat = x.counter.toNat + 1 ∧
      ∀ counters, x.counter ∉ (ReplayFilter.validateAll counters).1 →
        largest (ReplayFilter.validateAll counters).1 ≤ x.counter.toNat + counterWindow.toNat →
        ((ReplayFilter.validateAll counters).2.validate x.counter).1 = true) ∧
    (∀ now payload out e, (t.peer.step (.encrypt now payload out)).1 = .error e →
      (t.step (.encrypt now payload out)).peer = t.peer ∧
      (t.step (.encrypt now payload out)).sent = t.sent) ∧
    ∀ id ops₁ ops₂, t.sending = some id → (t.run ops₁).sending ≠ some id →
      ((t.run ops₁).run ops₂).sending ≠ some id := by
  have hf := faithful_run (faithful_start (C := C) key) ops
  have hc := counted_run (faithful_start (C := C) key) (counted_start key) ops
  refine ⟨hc.consecutive, ?_, fun x hx => ⟨hc.sealed x hx, hc.shared x hx⟩, ?_, ?_, ?_⟩
  · refine nodup_of_countersOn fun x hx => ?_
    obtain ⟨id, hid⟩ := Option.isSome_iff_exists.mp (hc.bound x hx).1
    obtain ⟨n, hn⟩ := hc.consecutive id
    rw [hid, hn]
    exact List.nodup_range
  · intro x hx
    obtain ⟨hsome, hlt⟩ := hc.bound x hx
    refine ⟨hsome, hlt, toNat_succ_of_lt hlt, fun counters hnew hwin => ?_⟩
    obtain ⟨f, hval, -⟩ := (ReplayFilter.validate_spec
      (ReplayFilter.validateAll_accepted counters).1 x.counter).1 ⟨hlt, hnew, hwin⟩
    rw [hval]
  · intro now payload out e he
    have heff := step_effect _ hf.wellFormed (.encrypt now payload out)
    simp only [step]
    rw [he] at heff ⊢
    generalize (Peer.step _ (.encrypt now payload out)).2 = p' at heff ⊢
    cases heff
    exact ⟨rfl, List.append_nil _⟩
  · intro id ops₁ ops₂ hsend hout
    have hleft : ((start C key).run ops |>.run ops₁).Left id :=
      (sending_run hf ops₁ (Or.inl hsend)).resolve_left hout
    have hf₁ := faithful_run hf ops₁
    exact (left_run hf₁ ops₂ hleft).not_sending (faithful_run hf₁ ops₂)

end Tracked

end Peer

end Tunstile
