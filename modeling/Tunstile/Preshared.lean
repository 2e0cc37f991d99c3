/-
Tunstile/Preshared.lean

What a pre-shared key is for: two drivers that never have the same one
exchange nothing.

A payload that is delivered was sealed under the key of a session that both
sides derived, one as the initiator and the other as the responder.  The
chaining key of the session determines the pre-shared key that was mixed into
it, so that both sides used the same.  The log of `World.lean` keeps which
keys were used (`Keyed`), over any changes of the settings meanwhile.  Hence,
unless the two sides have the same pre-shared key at some time, nothing is
delivered, whatever the network does (`different_keys_exchange_nothing`).
-/
import Tunstile.Meeting

namespace Tunstile

variable {C : Crypto}

namespace Entry

/-- The pre-shared key that a handshake was completed with. -/
def psk : Entry C → Option (Option PresharedKey)
  | .call (.respond _ _ _ _ psk) => some psk
  | .answered _ _ psk _ => some psk
  | _ => none

/-- The pre-shared key is in the transcript that the chaining key stands for. -/
theorem exists_psk {entry : Entry C} {r : Role} {c : C.Hash256}
    (h : entry.derives = some (r, c)) :
    ∃ psk t, entry.psk = some psk ∧ c = RespTranscript.constr t ∧ t.psk = effectivePsk psk := by
  cases entry with
  | call call =>
      cases call with
      | respond r packet st e psk =>
          cases h
          exact ⟨psk, _, rfl, rfl, rfl⟩
      | initiate => cases h
      | send => cases h
  | answered st k psk packet =>
      cases h
      exact ⟨psk, _, rfl, rfl, rfl⟩
  | delivered => cases h

end Entry

/-- Nothing but `set_preshared_key` changes the pre-shared key of a peer. -/
theorem Peer.Effect.presharedKey_cases {p p' : Peer C} {op : Peer.Op C} {o : Peer.Outcome}
    (h : p.Effect op o p') :
    p'.presharedKey = p.presharedKey ∨ op = .setPresharedKey p'.presharedKey := by
  cases h with
  | presharedKeySet presharedKey => exact Or.inr rfl
  | received k => cases k <;> exact Or.inl rfl
  | _ => exact Or.inl rfl

namespace World

/-- Each side has used no other pre-shared keys than those allowed. -/
structure Keyed (allowed : Side → Option PresharedKey → Prop) (w : World C) : Prop where
  peer : ∀ s, allowed s (w.peer s).presharedKey
  log : ∀ s entry psk, (s, entry) ∈ w.log → entry.psk = some psk → allowed s psk

section

variable {key : Side → C.Secret} {allowed : Side → Option PresharedKey → Prop} {w : World C}

/-- The log keeps the pre-shared key of the machine. -/
theorem psk_of_record {ourKey : C.Secret} {p : Peer C} {a : Action C} {o : Peer.Outcome}
    {entry : Entry C} (hmem : entry ∈ a.record ourKey p o) {psk : Option PresharedKey}
    (hpsk : entry.psk = some psk) : psk = p.presharedKey := by
  unfold Action.record at hmem
  split at hmem
  · cases List.mem_singleton.mp hmem
    cases hpsk
  · split at hmem
    · cases hmem
    · cases List.mem_singleton.mp hmem
      exact (Option.some.inj hpsk).symm
  · split at hmem
    · cases hmem
    · cases List.mem_singleton.mp hmem
      exact (Option.some.inj hpsk).symm
  · split at hmem
    · cases hmem
    · cases List.mem_singleton.mp hmem
      cases hpsk
  · split at hmem
    · cases hmem
    · cases List.mem_singleton.mp hmem
      cases hpsk
  · cases hmem

theorem op_setPresharedKey {ourKey : C.Secret} {peerKey : PublicKey} {a : Action C}
    {psk : Option PresharedKey} (h : a.op ourKey peerKey = some (.setPresharedKey psk)) :
    a = .setPresharedKey psk := by
  cases a with
  | setPresharedKey presharedKey =>
      cases h
      rfl
  | respond now packet values source out =>
      simp only [Action.op] at h
      split at h
      · cases h
      · split at h <;> cases h
  | _ => cases h

theorem Keyed.step (h : w.Keyed allowed) {s : Side} (hp : (w.peer s).WellFormed) {a : Action C}
    (ha : ∀ psk, a = .setPresharedKey psk → allowed s psk) : (w.step key s a).Keyed allowed := by
  cases hop : a.op (key s) (w.peer s).peerKey with
  | none =>
      simp only [World.step, hop]
      exact ⟨h.peer, h.log⟩
  | some op =>
      rcases hstep : (w.peer s).step op with ⟨o, p'⟩
      rw [step_eq hop hstep]
      refine ⟨fun t => ?_, fun t entry psk hmem hpsk => ?_⟩
      · show allowed t (Function.update w.peer s p' t).presharedKey
        by_cases ht : t = s
        · subst ht
          rw [Function.update_self]
          rcases (Peer.effect_of_step hp hstep).presharedKey_cases with heq | rfl
          · exact heq ▸ h.peer t
          · exact ha _ (op_setPresharedKey hop)
        · rw [Function.update_of_ne ht]
          exact h.peer t
      · rcases List.mem_append.mp hmem with hmem | hmem
        · exact h.log t entry psk hmem hpsk
        · obtain ⟨entry', hentry, heq⟩ := List.mem_map.mp hmem
          cases heq
          exact psk_of_record hentry hpsk ▸ h.peer s

theorem Keyed.run (hC : C.CollisionFree) (hkey : C.publicKey (key .a) ≠ C.publicKey (key .b))
    (hw : w.Sound key) (h : w.Keyed allowed) {actions : List (Side × Action C)}
    (hi : w.IdealRun key actions)
    (ha : ∀ s psk, (s, .setPresharedKey psk) ∈ actions → allowed s psk) :
    (w.run key actions).Keyed allowed := by
  induction actions generalizing w with
  | nil => exact h
  | cons x actions ih =>
      refine ih (sound_step hC hkey hw hi.1) (h.step (hw.wellFormed x.1) fun psk hx => ?_) hi.2
        fun s psk hmem => ha s psk (List.mem_cons_of_mem x hmem)
      exact ha x.1 psk (hx ▸ List.mem_cons_self)

/-- **A payload that is delivered was sent with the same pre-shared key.** -/
theorem Keyed.shared (hC : C.CollisionFree) (hw : w.Sound key) (h : w.Keyed allowed) {s : Side}
    {k : C.Hash256} {counter : UInt64} {payload : Bytes}
    (hmem : (s, .delivered k counter payload) ∈ w.log) :
    ∃ ours theirs, allowed s ours ∧ allowed s.other theirs ∧
      effectivePsk ours = effectivePsk theirs := by
  obtain ⟨pre, hsub, ⟨r, c, hderived, hk⟩, -, t, hsent, ht, -⟩ := hw.log.of_mem hmem
  obtain ⟨pre', hsub', r', c', hderived', ht'⟩ := hw.log.of_mem (hsub hsent)
  -- both sides derived one chaining key
  obtain ⟨-, -, rfl⟩ := Derived.other hC hw.log (hderived.mono hsub) (hderived'.mono hsub')
    (hk.symm.trans (ht.trans ht'))
  obtain ⟨entry, hentry, hd⟩ := hderived
  obtain ⟨entry', hentry', hd'⟩ := hderived'
  obtain ⟨ours, T, hours, hT, hpsk⟩ := Entry.exists_psk hd
  obtain ⟨theirs, T', htheirs, hT', hpsk'⟩ := Entry.exists_psk hd'
  obtain ⟨-, -, -, -, hsame⟩ := RespTranscript.constr_inj hC (i := 0) (by decide)
    (hT.symm.trans hT')
  refine ⟨ours, theirs, h.log _ _ _ (hsub hentry) hours, h.log _ _ _ (hsub' hentry') htheirs, ?_⟩
  rw [← hpsk, hsame, hpsk']

end

end World

namespace Link

section

variable {key : Side → C.Secret} {wire : Side → InitReceived C → Bytes}

/-- What a deed was caused by reached the driver. -/
theorem Deeds.caused {l : Link C} {events : List (Side × Actor.Event C)}
    {log : List (Side × Deed C)} (h : Deeds l events log) :
    ∀ s deed, (s, deed) ∈ log → deed.Caused (Actor.received (eventsOf s events)) := by
  induction h with
  | nil l => exact fun _ _ h => (by cases h)
  | cons htrace hcarries hrest ih =>
      rename_i l t event events log rest
      intro s deed hmem
      rcases List.mem_append.mp hmem with hmem | hmem
      · obtain ⟨deed', hdeed, heq⟩ := List.mem_map.mp hmem
        cases heq
        refine (hcarries.caused hdeed).mono fun action haction => ?_
        rw [eventsOf_cons_self]
        exact List.mem_append_left _ haction
      · refine (ih s deed hmem).mono fun action haction => ?_
        by_cases hts : t = s
        · subst hts
          rw [eventsOf_cons_self]
          exact List.mem_append_right _ haction
        · rwa [eventsOf_cons_of_ne hts]

/-- The pre-shared keys that a driver is given. -/
def PskOf (presharedKey : Side → Option PresharedKey) (events : List (Side × Actor.Event C))
    (s : Side) (psk : Option PresharedKey) : Prop :=
  psk = presharedKey s ∨ ∃ update, .update update ∈ Actor.received (eventsOf s events) ∧
    update.presharedKey.value = some psk

theorem Deeds.pskOf {l : Link C} {events : List (Side × Actor.Event C)}
    {log : List (Side × Deed C)} (h : Deeds l events log)
    (presharedKey : Side → Option PresharedKey) {s : Side} {psk : Option PresharedKey}
    (hmem : (s, .setPresharedKey psk) ∈ calls wire log) : PskOf presharedKey events s psk := by
  obtain ⟨⟨t, deed⟩, hdeed, hcall⟩ := List.mem_flatMap.mp hmem
  obtain ⟨action, haction, heq⟩ := List.mem_map.mp hcall
  cases heq
  have hcaused := h.caused _ deed hdeed
  cases deed with
  | presharedKeySet presharedKey =>
      cases List.mem_singleton.mp haction
      exact Or.inr hcaused.presharedKeySet
  | sent now payloads d keys =>
      obtain ⟨payload, -, heq⟩ := List.mem_map.mp haction
      cases heq
  | abandoned => cases List.mem_singleton.mp haction
  | _ => cases List.mem_singleton.mp haction

end

/-- **Without a pre-shared key in common, nothing is exchanged.**  Two drivers
are spawned for each other, with pre-shared keys that may be changed at any
time.  If no key that one of them is ever given is effectively a key that the
other is ever given, then neither of them delivers anything, whatever their
turns and whatever arrives. -/
theorem different_keys_exchange_nothing (hC : C.CollisionFree) (key : Side → C.Secret)
    (hkey : C.publicKey (key .a) ≠ C.publicKey (key .b))
    (presharedKey : Side → Option PresharedKey) (persistentKeepalive : Side → Option Duration)
    (env : Side → Env C) (events : List (Side × Actor.Event C))
    (wire : Side → InitReceived C → Bytes) (hwire : AllReceived key wire events)
    (log : List (Side × Deed C))
    (hlog : Deeds (start key presharedKey persistentKeepalive env) events log)
    (hideal : (World.start key).IdealRun key (setUp presharedKey ++ calls wire log))
    (hdiffer : ∀ ours theirs, PskOf presharedKey events .a ours →
      PskOf presharedKey events .b theirs → effectivePsk ours ≠ effectivePsk theirs) (s : Side) :
    (((start key presharedKey persistentKeepalive env).run events).actor s).inbound = [] := by
  obtain ⟨-, hevents⟩ := mirrors_run hlog mirrors_start (fun _ => Peer.healthy_new _ _)
    (fun _ => rfl) hwire
  have hnone : ((World.start key).run key (setUp presharedKey)).events = [] := rfl
  rw [hnone, List.nil_append, ← World.run_append] at hevents
  -- the world knows which keys were used
  have hsound := World.sound_run hC hkey (World.sound_start key) hideal
  have hkeyed : ((World.start key).run key (setUp presharedKey ++ calls wire log)).Keyed
      (PskOf presharedKey events) := by
    rw [World.run_append]
    have hset : (World.start key).IdealRun key (setUp presharedKey) := ⟨trivial, trivial, trivial⟩
    refine World.Keyed.run hC hkey (World.sound_run hC hkey (World.sound_start key) hset)
      ⟨fun s => ?_, fun _ _ _ hmem => (by cases hmem)⟩ hideal.2.2
      fun s psk hmem => hlog.pskOf presharedKey hmem
    cases s <;> exact Or.inl rfl
  have hquiet : (eventsSeen log).filterMap (Event.decryptedBy s) = [] := by
    rw [List.filterMap_eq_nil_iff, ← hevents, hsound.events]
    intro event hevent
    obtain ⟨⟨t, entry⟩, hmem, hentry⟩ := List.mem_filterMap.mp hevent
    cases entry with
    | call call =>
        cases call <;> cases hentry
        rfl
    | answered => cases hentry
    | delivered k counter payload =>
        obtain ⟨ours, theirs, hours, htheirs, hsame⟩ := hkeyed.shared hC hsound hmem
        cases t with
        | a => exact absurd hsame (hdiffer ours theirs hours htheirs)
        | b => exact absurd hsame.symm (hdiffer theirs ours htheirs hours)
  obtain ⟨⟨new, hinbound, hnew⟩, -⟩ := sums_run hlog s
  rw [hquiet, List.filter_nil] at hnew
  rw [hinbound, List.sublist_nil.mp hnew]
  rfl

/-- One side has no pre-shared key, and the other has one. -/
def lopsided : Side → Option PresharedKey
  | .a => none
  | .b => some (List.Vector.replicate 32 1)

/-- An initiation is sent, and so is the response to it, but the payload that
waits for the session is not delivered. -/
theorem different_keys_exchange_nothing_lopsided : ∃ events,
    let l := (start World.symbolicKey lopsided (fun _ => none) symbolicEnv).run events
    Actor.arrivals (eventsOf .a events) = [[7]] ∧
      (∃ initiation response : Datagrams, (l.actor .a).datagrams = [initiation] ∧
        (l.actor .b).datagrams = [response]) ∧
      ∀ s, (l.actor s).inbound = [] := by
  obtain ⟨h⟩ := exists_asked lopsided (fun _ => none) World.symbolicAddr [7] Crypto.symbolic_correct
    symbolicEnv_fair rfl rfl (by decide)
  refine ⟨asking World.symbolicAddr [7] h.recv, rfl, ⟨_, _, h.asks.datagrams, h.answers.datagrams⟩,
    different_keys_exchange_nothing Crypto.symbolic_collisionFree World.symbolicKey (by decide)
      lopsided (fun _ => none) symbolicEnv _ (fun _ _ => h.msg) (h.allReceived rfl) h.log h.deeds
      (h.ideal _ rfl).1 ?_⟩
  rintro ours theirs (rfl | ⟨update, hmem, -⟩) (rfl | ⟨update', hmem', -⟩)
  · decide
  · simp [asking, Actor.received, eventsOf, Actor.Event.batch] at hmem'
  · simp [asking, Actor.received, eventsOf, Actor.Event.batch] at hmem
  · simp [asking, Actor.received, eventsOf, Actor.Event.batch] at hmem'

end Link

end Tunstile
