/-
Tunstile/TwoParty.lean

What two peers can rely on, whatever the network does.

The log of a run is `Justified` by `Grounded`: each entry rests on earlier
ones.  A response rests on an initiation of the other side, an accepted
response on a response of the other side, a data packet on a handshake
completed before.  Because ephemeral keys are fresh and the chaining key
determines them, a chaining key belongs to one handshake; its initiator and
its responder are on opposite sides (`Derived.other`), and no side derives
the same key twice (`not_derived_respond`, `not_derived_answer`).

`Held` relates a peer's sessions to the log.  Receive keys of the three
slots differ, so the replay window that travels with a session has seen
every counter delivered under its key.
-/
import Tunstile.World
import Tunstile.History

namespace Tunstile

variable {C : Crypto}

namespace Entry

/-- The ephemeral key a call put on the wire. -/
def ephemeral : Entry C → Option PublicKey
  | .call (.initiate _ _ e _) => some (C.publicKey e)
  | .call (.respond _ _ _ e _) => some (C.publicKey e)
  | _ => none

/-- The ephemeral key of the initiation that was answered. -/
def answers : Entry C → Option PublicKey
  | .answered st _ _ _ => some (C.publicKey st.ephemeralSecretInitiator)
  | _ => none

/-- Role and final chaining key of a handshake that was completed. -/
def derives : Entry C → Option (Role × C.Hash256)
  | .call (.respond _ _ st e psk) =>
      some (.responder, (RespTranscript.ofResponder st e psk).constr)
  | .answered st k psk packet =>
      some (.initiator, (RespTranscript.ofPacket st k psk packet).constr)
  | _ => none

end Entry

/-- Side `s` completed a handshake in role `r` with final chaining key `c`. -/
def Derived (log : List (Side × Entry C)) (s : Side) (r : Role) (c : C.Hash256) : Prop :=
  ∃ entry, (s, entry) ∈ log ∧ entry.derives = some (r, c)

theorem Derived.mono {log log' : List (Side × Entry C)} {s : Side} {r : Role} {c : C.Hash256}
    (h : Derived log s r c) (hsub : log ⊆ log') : Derived log' s r c := by
  obtain ⟨entry, hmem, hd⟩ := h
  exact ⟨entry, hsub hmem, hd⟩

theorem derived_concat (log : List (Side × Entry C)) (s : Side) {entry : Entry C} {r : Role}
    {c : C.Hash256} (h : entry.derives = some (r, c)) : Derived (log ++ [(s, entry)]) s r c :=
  ⟨entry, List.mem_concat_self, h⟩

section Log

variable (key : Side → C.Secret)

/-- Side `s` made an initiation with ephemeral secret `e` that ended in the
chaining key `c`. -/
def Initiated (log : List (Side × Entry C)) (s : Side) (e : C.Secret) (c : C.Hash256) : Prop :=
  ∃ ts, (s, .call (.initiate (key s) (C.publicKey (key s.other)) e ts)) ∈ log ∧
    c = (InitTranscript.ofInitiator (key s) (C.publicKey (key s.other)) e ts).constr

variable {key} in
theorem Initiated.mono {log log' : List (Side × Entry C)} {s : Side} {e : C.Secret}
    {c : C.Hash256} (h : Initiated key log s e c) (hsub : log ⊆ log') :
    Initiated key log' s e c := by
  obtain ⟨ts, hmem, hc⟩ := h
  exact ⟨ts, hsub hmem, hc⟩

/-- What an entry rests on among the entries before it. -/
def Grounded (pre : List (Side × Entry C)) : Side × Entry C → Prop
  | (s, .call (.initiate i q e _)) =>
      (i = key s ∧ q = C.publicKey (key s.other)) ∧
        ∀ y ∈ pre, y.2.ephemeral ≠ some (C.publicKey e)
  | (s, .call (.respond _ _ st e _)) =>
      (∃ e', Initiated key pre s.other e' st.constr) ∧
        ∀ y ∈ pre, y.2.ephemeral ≠ some (C.publicKey e)
  | (s, .call (.send t _)) => ∃ r c, Derived pre s r c ∧ t.sendAead = r.sendKey c
  | (s, .answered st k psk packet) =>
      Initiated key pre s st.ephemeralSecretInitiator st.constr ∧
        ∃ r packet' st' e psk', (s.other, .call (.respond r packet' st' e psk')) ∈ pre ∧
          RespTranscript.ofPacket st k psk packet = RespTranscript.ofResponder st' e psk'
  | (s, .delivered k counter payload) =>
      (∃ r c, Derived pre s r c ∧ k = r.opposite.sendKey c) ∧
        (∀ payload', (s, .delivered k counter payload') ∉ pre) ∧
        ∃ t, (s.other, .call (.send t payload)) ∈ pre ∧ k = t.sendAead ∧ counter = t.sendCounter

/-! ### One handshake, one chaining key -/

variable {key} (hC : C.CollisionFree) {log : List (Side × Entry C)}
  (hlog : Justified (Grounded key) log)
include hlog

omit hC in
/-- An ephemeral key is put on the wire by one call. -/
theorem eq_of_ephemeral {x y : Side × Entry C} {e : PublicKey} (hx : x ∈ log) (hy : y ∈ log)
    (hxe : x.2.ephemeral = some e) (hye : y.2.ephemeral = some e) : x = y := by
  refine hlog.eq_of_same (f := fun x => x.2.ephemeral) ?_ hx hy hxe hye
  rintro pre ⟨s, entry⟩ k hok hk
  cases entry with
  | call c =>
      cases c with
      | initiate i q e ts => cases hk; exact hok.2
      | respond r packet st e psk => cases hk; exact hok.2
      | send t payload => cases hk
  | answered st k psk packet => cases hk
  | delivered k counter payload => cases hk

include hC

/-- The chaining key of an initiation belongs to one side. -/
theorem Initiated.side_eq {s s' : Side} {e e' : C.Secret} {c : C.Hash256}
    (h : Initiated key log s e c) (h' : Initiated key log s' e' c) :
    s = s' ∧ C.publicKey e = C.publicKey e' := by
  obtain ⟨ts, hmem, rfl⟩ := h
  obtain ⟨ts', hmem', hc⟩ := h'
  have he : C.publicKey e = C.publicKey e' :=
    (InitTranscript.constr_inj hC (i := 0) (by decide) hc).1
  exact ⟨congrArg Prod.fst (eq_of_ephemeral hlog hmem hmem' rfl (congrArg some he.symm)), he⟩

omit hC in
/-- A responder's handshake began with an initiation of the other side. -/
theorem Derived.responder {s : Side} {c : C.Hash256} (h : Derived log s .responder c) :
    ∃ r packet st e psk, (s, .call (.respond r packet st e psk)) ∈ log ∧
      c = (RespTranscript.ofResponder st e psk).constr ∧
      ∃ e', Initiated key log s.other e' st.constr := by
  obtain ⟨entry, hmem, hd⟩ := h
  obtain ⟨pre, hsub, hok⟩ := hlog.of_mem hmem
  cases entry with
  | call call =>
      cases call with
      | initiate => cases hd
      | respond r packet st e psk =>
          cases hd
          obtain ⟨⟨e', hinit⟩, -⟩ := hok
          exact ⟨r, packet, st, e, psk, hmem, rfl, e', hinit.mono hsub⟩
      | send => cases hd
  | answered => cases hd
  | delivered => cases hd

omit hC in
/-- An initiator's handshake began with an initiation of its own and was
answered by the other side. -/
theorem Derived.initiator {s : Side} {c : C.Hash256} (h : Derived log s .initiator c) :
    ∃ st k psk packet, (s, .answered st k psk packet) ∈ log ∧
      c = (RespTranscript.ofPacket st k psk packet).constr ∧
      Initiated key log s st.ephemeralSecretInitiator st.constr ∧
      ∃ r packet' st' e psk', (s.other, .call (.respond r packet' st' e psk')) ∈ log ∧
        RespTranscript.ofPacket st k psk packet = RespTranscript.ofResponder st' e psk' := by
  obtain ⟨entry, hmem, hd⟩ := h
  obtain ⟨pre, hsub, hok⟩ := hlog.of_mem hmem
  cases entry with
  | call call => cases call <;> cases hd
  | answered st k psk packet =>
      cases hd
      obtain ⟨hinit, r, packet', st', e, psk', hresp, htr⟩ := hok
      exact ⟨st, k, psk, packet, hmem, rfl, hinit.mono hsub, r, packet', st', e, psk',
        hsub hresp, htr⟩
  | delivered => cases hd

/-- Initiator and responder of one chaining key are on opposite sides. -/
theorem Derived.sides {s s' : Side} {c : C.Hash256} (h : Derived log s .initiator c)
    (h' : Derived log s' .responder c) : s' = s.other := by
  obtain ⟨st, k, psk, packet, -, hc, hinit, -⟩ := h.initiator hlog
  obtain ⟨r, packet', st', e, psk', -, hc', e', hinit'⟩ := h'.responder hlog
  have hconstr : st.constr = st'.constr :=
    (RespTranscript.constr_inj hC (i := 0) (by decide) (hc.symm.trans hc')).1
  rw [← hconstr] at hinit'
  rw [(Initiated.side_eq hC hlog hinit hinit').1, Side.other_other]

/-- Whoever sends under the key a side receives under is the other side, in
the opposite role of the same handshake. -/
theorem Derived.other {s s' : Side} {r r' : Role} {c c' : C.Hash256} (h : Derived log s r c)
    (h' : Derived log s' r' c') (hkey : r.opposite.sendKey c = r'.sendKey c') :
    s' = s.other ∧ r' = r.opposite ∧ c' = c := by
  obtain ⟨rfl, rfl⟩ := Role.sendKey_inj hC hkey
  refine ⟨?_, rfl, rfl⟩
  cases r with
  | initiator => exact h.sides hC hlog h'
  | responder =>
      have hs := Derived.sides hC hlog h' h
      rw [hs, Side.other_other]

/-- A response with a fresh ephemeral key ends in a new chaining key. -/
theorem not_derived_respond {st : InitReceived C} {e : C.Secret} {psk : Option PresharedKey}
    (hfresh : ∀ y ∈ log, y.2.ephemeral ≠ some (C.publicKey e)) (s : Side) (r : Role) :
    ¬ Derived log s r (RespTranscript.ofResponder st e psk).constr := by
  intro h
  cases r with
  | initiator =>
      obtain ⟨st', k, psk', packet, -, hc, -, r', packet', st'', e', psk'', hmem, htr⟩ :=
        h.initiator hlog
      rw [htr] at hc
      have he := (RespTranscript.constr_inj hC (i := 0) (by decide) hc).2.1
      exact hfresh _ hmem (congrArg some he.symm)
  | responder =>
      obtain ⟨r', packet', st', e', psk', hmem, hc, -⟩ := h.responder hlog
      have he := (RespTranscript.constr_inj hC (i := 0) (by decide) hc).2.1
      exact hfresh _ hmem (congrArg some he.symm)

/-- An initiation that was not answered yet ends in a new chaining key. -/
theorem not_derived_answer {s : Side} {st : InitSent C} {k : C.Secret}
    {psk : Option PresharedKey} {packet : Bytes}
    (hinit : Initiated key log s st.ephemeralSecretInitiator st.constr)
    (hfirst : ∀ entry, (s, entry) ∈ log →
      entry.answers ≠ some (C.publicKey st.ephemeralSecretInitiator)) (r : Role) :
    ¬ Derived log s r (RespTranscript.ofPacket st k psk packet).constr := by
  intro h
  cases r with
  | initiator =>
      obtain ⟨st', k', psk', packet', hmem, hc, hinit', -⟩ := h.initiator hlog
      have hconstr : st.constr = st'.constr :=
        (RespTranscript.constr_inj hC (i := 0) (by decide) hc).1
      rw [← hconstr] at hinit'
      exact hfirst _ hmem (congrArg some (Initiated.side_eq hC hlog hinit hinit').2.symm)
  | responder =>
      -- the other side would have made our initiation
      obtain ⟨r', packet', st', e', psk', -, hc, e'', hinit'⟩ := h.responder hlog
      have hconstr : st.constr = st'.constr :=
        (RespTranscript.constr_inj hC (i := 0) (by decide) hc).1
      rw [← hconstr] at hinit'
      exact s.other_ne (Initiated.side_eq hC hlog hinit' hinit).1

end Log

/-! ### The sessions a side holds -/

/-- The sessions of side `s` come from handshakes it completed, and outside
`next` the other side completed them too; their receive keys differ; their
replay windows have seen what was delivered under these keys. -/
structure Held (log : List (Side × Entry C)) (s : Side) (p : Peer C) : Prop where
  derived : ∀ {k x}, p.slot k = some x → ∃ r c, Derived log s r c ∧ x.HasKeys r c ∧
    (k ≠ .next → Derived log s.other r.opposite c)
  distinct : ∀ {j k x y}, p.slot j = some x → p.slot k = some y →
    x.transport.recvAead = y.transport.recvAead → j = k
  window : ∀ {k x}, p.slot k = some x → ∃ acc, x.replay.Accepted acc ∧
    ∀ counter payload, (s, .delivered x.transport.recvAead counter payload) ∈ log → counter ∈ acc

/-- A session installed by a step that adds `more` to `log`: its keys are
new, and both sides have them unless it goes to `next`. -/
structure Installed (log more : List (Side × Entry C)) (s : Side) (k : Peer.Slot)
    (x : Session C) : Prop where
  replay_eq : x.replay = ReplayFilter.new
  derived : ∃ r c, Derived (log ++ more) s r c ∧ x.HasKeys r c ∧
    (k ≠ .next → Derived (log ++ more) s.other r.opposite c) ∧ ∀ r', ¬ Derived log s r' c
  undelivered : ∀ counter payload,
    (s, .delivered x.transport.recvAead counter payload) ∉ more

section Rotation

variable (hC : C.CollisionFree) {key : Side → C.Secret} {log more : List (Side × Entry C)}
  (hlog : Justified (Grounded key) log) {s : Side} {p p' : Peer C}
  {src : Peer.Slot → Option Peer.Slot} {received : Peer.Slot → Option UInt64}

include hC in
/-- The receive key of an installed session is not one the side held or
received under. -/
theorem Installed.recvAead_ne {k : Peer.Slot} {x : Session C}
    (hx : Installed log more s k x) {r : Role} {c : C.Hash256} (h : Derived log s r c) :
    x.transport.recvAead ≠ r.opposite.sendKey c := by
  obtain ⟨r', c', -, hkeys, -, hnew⟩ := hx.derived
  intro heq
  obtain ⟨rfl, -⟩ := Role.sendKey_inj hC (hkeys.recv_eq.symm.trans heq)
  exact hnew r h

include hC hlog in
/-- **Sessions keep their bookkeeping as they move.** -/
theorem Held.rotates (h : Held log s p) (hrot : p.Rotates p' src received)
    (hnew : ∀ {k x}, src k = none → p'.slot k = some x → Installed log more s k x)
    (hconfirm : ∀ {k j x r c}, src k = some j → k ≠ .next → j = .next → p.slot j = some x →
      x.HasKeys r c → Derived log s r c → Derived (log ++ more) s.other r.opposite c)
    (hreceived : ∀ {j x counter payload}, p.slot j = some x →
      (s, .delivered x.transport.recvAead counter payload) ∈ more → received j = some counter) :
    Held (log ++ more) s p' := by
  have hsub : log ⊆ log ++ more := List.subset_append_left _ _
  refine ⟨?_, ?_, ?_⟩
  · intro k x' hx'
    cases hk : src k with
    | none =>
        obtain ⟨r, c, hd, hkeys, hother, -⟩ := (hnew hk hx').derived
        exact ⟨r, c, hd, hkeys, hother⟩
    | some j =>
        obtain ⟨x, hx, hcarry⟩ := hrot.kept hk hx'
        obtain ⟨r, c, hd, hkeys, hother⟩ := h.derived hx
        refine ⟨r, c, hd.mono hsub, hkeys.carries hcarry, fun hne => ?_⟩
        by_cases hj : j = .next
        · exact hconfirm hk hne hj hx hkeys hd
        · exact (hother hj).mono hsub
  · -- two kept sessions had different keys before; a new key is new
    intro j k x' y' hx' hy' heq
    apply hrot.injective
    cases hj : src j with
    | none =>
        cases hk : src k with
        | none => rfl
        | some i =>
            obtain ⟨y, hy, hcarry⟩ := hrot.kept hk hy'
            obtain ⟨r, c, hd, hkeys, -⟩ := h.derived hy
            refine absurd ?_ ((hnew hj hx').recvAead_ne hC hd)
            rw [heq, hcarry.recv_eq, hkeys.recv_eq]
    | some i =>
        obtain ⟨x, hx, hcarryx⟩ := hrot.kept hj hx'
        cases hk : src k with
        | none =>
            obtain ⟨r, c, hd, hkeys, -⟩ := h.derived hx
            refine absurd ?_ ((hnew hk hy').recvAead_ne hC hd)
            rw [← heq, hcarryx.recv_eq, hkeys.recv_eq]
        | some i' =>
            obtain ⟨y, hy, hcarryy⟩ := hrot.kept hk hy'
            rw [h.distinct hx hy (by rw [← hcarryx.recv_eq, heq, hcarryy.recv_eq])]
  · intro k x' hx'
    cases hk : src k with
    | none =>
        -- nothing was delivered under a new key
        have hinst := hnew hk hx'
        rw [hinst.replay_eq]
        refine ⟨[], ReplayFilter.accepted_new, fun counter payload hmem => ?_⟩
        rcases List.mem_append.mp hmem with hmem | hmem
        · obtain ⟨pre, hpre, ⟨r, c, hd, hkey⟩, -⟩ := hlog.of_mem hmem
          exact absurd hkey (hinst.recvAead_ne hC (hd.mono hpre))
        · exact absurd hmem (hinst.undelivered counter payload)
    | some j =>
        obtain ⟨x, hx, hcarry⟩ := hrot.kept hk hx'
        obtain ⟨acc, hacc, hseen⟩ := h.window hx
        rw [hcarry.recv_eq]
        have hreplay := hcarry.replay_eq
        cases hrecv : received j with
        | none =>
            simp only [hrecv] at hreplay
            refine ⟨acc, hreplay ▸ hacc, fun counter payload hmem => ?_⟩
            rcases List.mem_append.mp hmem with hmem | hmem
            · exact hseen counter payload hmem
            · cases hrecv.symm.trans (hreceived hx hmem)
        | some c =>
            simp only [hrecv] at hreplay
            refine ⟨c :: acc, (ReplayFilter.validate_true hacc hreplay).2,
              fun counter payload hmem => ?_⟩
            rcases List.mem_append.mp hmem with hmem | hmem
            · exact List.mem_cons_of_mem _ (hseen counter payload hmem)
            · cases hrecv.symm.trans (hreceived hx hmem)
              exact List.mem_cons_self

/-- What the other side does leaves a side's sessions alone. -/
theorem Held.append_other (h : Held log s p) (hmore : ∀ x ∈ more, x.1 ≠ s) :
    Held (log ++ more) s p := by
  have hsub : log ⊆ log ++ more := List.subset_append_left _ _
  refine ⟨fun hx => ?_, h.distinct, fun hx => ?_⟩
  · obtain ⟨r, c, hd, hkeys, hother⟩ := h.derived hx
    exact ⟨r, c, hd.mono hsub, hkeys, fun hk => (hother hk).mono hsub⟩
  · obtain ⟨acc, hacc, hseen⟩ := h.window hx
    refine ⟨acc, hacc, fun counter payload hmem => ?_⟩
    rcases List.mem_append.mp hmem with hmem | hmem
    · exact hseen counter payload hmem
    · exact absurd rfl (hmore _ hmem)

end Rotation

/-! ### The invariant -/

/-- A pending handshake began with an initiation of its side, not answered
yet. -/
structure Awaiting (key : Side → C.Secret) (log : List (Side × Entry C)) (s : Side)
    (st : InitSent C) : Prop where
  initiated : Initiated key log s st.ephemeralSecretInitiator st.constr
  first : ∀ entry, (s, entry) ∈ log →
    entry.answers ≠ some (C.publicKey st.ephemeralSecretInitiator)

/-- Entries that answer none of its initiations leave a side waiting. -/
theorem Awaiting.append {key : Side → C.Secret} {log more : List (Side × Entry C)} {s : Side}
    {st : InitSent C} (h : Awaiting key log s st)
    (hmore : ∀ entry, (s, entry) ∈ more → entry.answers = none) :
    Awaiting key (log ++ more) s st := by
  refine ⟨h.initiated.mono (List.subset_append_left _ _), ?_⟩
  intro entry hmem
  rcases List.mem_append.mp hmem with hmem | hmem
  · exact h.first entry hmem
  · rw [hmore entry hmem]
    nofun

namespace World

/-- What holds of every world a run reaches. -/
structure Sound (key : Side → C.Secret) (w : World C) : Prop where
  log : Justified (Grounded key) w.log
  used : ∀ x ∈ w.log, ∀ e, x.2.ephemeral = some e → e ∈ w.used
  peerKey : ∀ s, (w.peer s).peerKey = C.publicKey (key s.other)
  wellFormed : ∀ s, (w.peer s).WellFormed
  pending : ∀ {s q}, (w.peer s).pending = some q → Awaiting key w.log s q.state
  held : ∀ s, Held w.log s (w.peer s)
  events : w.events = w.log.filterMap fun x => x.2.event x.1

theorem sound_start (key : Side → C.Secret) : (start key).Sound key where
  log := justified_nil
  used := nofun
  peerKey := fun _ => rfl
  wellFormed := fun _ => Peer.wellFormed_new _
  pending := nofun
  held := by
    have hempty : ∀ s k, ((start key).peer s).slot k = none := by
      intro s k
      cases k <;> rfl
    intro s
    refine ⟨fun hx => ?_, fun hx => ?_, fun hx => ?_⟩ <;> rw [hempty] at hx <;> cases hx
  events := rfl

section Step

variable {key : Side → C.Secret} (hC : C.CollisionFree)
  (hkey : C.publicKey (key .a) ≠ C.publicKey (key .b)) {w : World C} (hw : w.Sound key)
  {s : Side} {drawn : List PublicKey} {p' : Peer C} {entries : List (Entry C)}

include hkey in
theorem side_of_publicKey {s s' : Side} (h : C.publicKey (key s) = C.publicKey (key s')) :
    s = s' := by
  cases s <;> cases s'
  · rfl
  · exact absurd h hkey
  · exact absurd h.symm hkey
  · rfl

include hw in
/-- A key not drawn before is on no logged call. -/
theorem Sound.unused {e : C.Secret} (h : C.publicKey e ∉ w.used) :
    ∀ y ∈ w.log, y.2.ephemeral ≠ some (C.publicKey e) :=
  fun y hy he => h (hw.used y hy _ he)

include hkey hw in
/-- The initiation a side received was made by the other side. -/
theorem Sound.initiated_by_other {packet : Bytes} {st : InitReceived C}
    (hrecv : Received (key s) packet st)
    (h : ∃ s' i q e ts, (s', .call (.initiate i q e ts)) ∈ w.log ∧
      InitTranscript.ofPacket (key s) st.peerPublic packet
        = InitTranscript.ofInitiator i q e ts) :
    ∃ e, Initiated key w.log s.other e st.constr := by
  obtain ⟨s', i, q, e, ts, hmem, htr⟩ := h
  obtain ⟨-, -, ⟨rfl, rfl⟩, -⟩ := hw.log.of_mem hmem
  -- it was meant for the holder of our key
  have hs : s = s'.other := side_of_publicKey hkey (congrArg InitTranscript.responder htr)
  subst hs
  rw [Side.other_other]
  exact ⟨e, ts, hmem, hrecv.constr_eq.trans (congrArg InitTranscript.constr htr)⟩

include hC hw in
/-- The response a side accepted was made by the other side. -/
theorem Sound.responded_by_other {q : PendingHandshake C} {k : C.Secret}
    {psk : Option PresharedKey} {packet : Bytes} (hq : Awaiting key w.log s q.state)
    (h : ∃ s' r packet' st e psk', (s', .call (.respond r packet' st e psk')) ∈ w.log ∧
      RespTranscript.ofPacket q.state k psk packet = RespTranscript.ofResponder st e psk') :
    ∃ r packet' st e psk', (s.other, .call (.respond r packet' st e psk')) ∈ w.log ∧
      RespTranscript.ofPacket q.state k psk packet = RespTranscript.ofResponder st e psk' := by
  obtain ⟨s', r, packet', st, e, psk', hmem, htr⟩ := h
  obtain ⟨pre, hpre, ⟨e', hinit⟩, -⟩ := hw.log.of_mem hmem
  have hconstr : q.state.constr = st.constr := congrArg RespTranscript.initConstr htr
  rw [← hconstr] at hinit
  have hs : s = s'.other := (Initiated.side_eq hC hw.log hq.initiated (hinit.mono hpre)).1
  subst hs
  rw [Side.other_other]
  exact ⟨r, packet', st, e, psk', hmem, htr⟩

include hC hw in
/-- A data packet a side received was sent by the other side, which had
completed the handshake of the session. -/
theorem Sound.sent_by_other {k : Peer.Slot} {x : Session C} {counter : UInt64} {payload : Bytes}
    (hx : (w.peer s).slot k = some x)
    (h : ∃ s' t, (s', .call (.send t payload)) ∈ w.log ∧ x.transport.recvAead = t.sendAead ∧
      counter = t.sendCounter) :
    (∃ t, (s.other, .call (.send t payload)) ∈ w.log ∧ x.transport.recvAead = t.sendAead ∧
      counter = t.sendCounter) ∧
    ∀ r c, x.HasKeys r c → Derived w.log s r c → Derived w.log s.other r.opposite c := by
  obtain ⟨s', t, hmem, hrecv, hctr⟩ := h
  obtain ⟨pre, hpre, r', c', hd', hsend⟩ := hw.log.of_mem hmem
  have hother : ∀ r c, x.HasKeys r c → Derived w.log s r c →
      s' = s.other ∧ r' = r.opposite ∧ c' = c := by
    intro r c hkeys hd
    refine hd.other hC hw.log (hd'.mono hpre) ?_
    rw [← hkeys.recv_eq, hrecv, hsend]
  obtain ⟨r, c, hd, hkeys, -⟩ := (hw.held s).derived hx
  refine ⟨⟨t, (hother r c hkeys hd).1 ▸ hmem, hrecv, hctr⟩, ?_⟩
  intro r c hkeys hd
  obtain ⟨rfl, rfl, rfl⟩ := hother r c hkeys hd
  exact hd'.mono hpre

include hC hkey hw in
/-- What an action logs rests on the log. -/
theorem Change.grounded (h : Change (key s) w drawn (w.peer s) p' entries) :
    Justified (Grounded key) (w.log ++ entries.map (s, ·)) := by
  have hpeer := hw.peerKey s
  cases h with
  | quiet => rw [List.map_nil, List.append_nil]; exact hw.log
  | initiated q ts hfresh =>
      exact justified_concat.mpr ⟨hw.log, ⟨rfl, hpeer⟩, hw.unused hfresh⟩
  | responded packet st e hfresh hdrawn hrecv hinit =>
      exact justified_concat.mpr
        ⟨hw.log, hw.initiated_by_other hkey hrecv hinit, hw.unused hfresh⟩
  | answered q packet hpending hresp =>
      have hq := hw.pending hpending
      exact justified_concat.mpr ⟨hw.log, hq.initiated, hw.responded_by_other hC hq hresp⟩
  | sent x payload hcurrent =>
      obtain ⟨r, c, hd, hkeys, -⟩ := (hw.held s).derived hcurrent
      exact justified_concat.mpr ⟨hw.log, r, c, hd, hkeys.send_eq⟩
  | delivered k x counter payload replay src hslot hreplay hsent =>
      obtain ⟨r, c, hd, hkeys, -⟩ := (hw.held s).derived hslot
      refine justified_concat.mpr
        ⟨hw.log, ⟨r, c, hd, hkeys.recv_eq⟩, fun payload' hmem => ?_, (hw.sent_by_other hC hslot hsent).1⟩
      -- the window has seen every counter delivered under this key
      obtain ⟨acc, hacc, hseen⟩ := (hw.held s).window hslot
      exact (ReplayFilter.validate_true hacc hreplay).1.2.1 (hseen counter payload' hmem)

include hC hw in
/-- The acting side's sessions keep their bookkeeping. -/
theorem Change.held (h : Change (key s) w drawn (w.peer s) p' entries) :
    Held (w.log ++ entries.map (s, ·)) s p' := by
  have hheld := hw.held s
  -- where no session moves and nothing is delivered
  have stay : ∀ more : List (Side × Entry C),
      (∀ k counter payload, (s, .delivered k counter payload) ∉ more) →
      (w.peer s).Rotates p' some (fun _ => none) → Held (w.log ++ more) s p' := by
    intro more hmore hrot
    refine hheld.rotates hC hw.log hrot nofun ?_ fun _ hmem => absurd hmem (hmore _ _ _)
    intro k j x r c hk hne hj
    cases hk
    exact absurd hj hne
  cases h with
  | quiet hrot => exact stay _ (by simp) hrot
  | initiated q ts hfresh hdrawn hrot => exact stay _ (by simp) hrot
  | sent x payload hcurrent hrot => exact stay _ (by simp) hrot
  | responded packet st e hfresh hdrawn hrecv hinit hrot y hnew hreplay hkeys =>
      refine hheld.rotates hC hw.log hrot ?_ ?_ (by simp)
      · intro k x hk hx
        cases k with
        | next =>
            cases hnew.symm.trans hx
            exact ⟨hreplay, ⟨.responder, _, derived_concat _ s rfl, hkeys, fun h => absurd rfl h,
              not_derived_respond hC hw.log (hw.unused hfresh) s⟩, by simp⟩
        | current => cases hk
        | previous => cases hk
      · intro k j x r c hk hne hj
        cases k <;> cases hk <;> cases hj
  | answered q packet hpending hresp hrot y hnew hreplay hkeys =>
      have hq := hw.pending hpending
      obtain ⟨r, packet', st, e, psk', hmem, htr⟩ := hw.responded_by_other hC hq hresp
      refine hheld.rotates hC hw.log hrot ?_ ?_ (by simp)
      · intro k x hk hx
        cases k with
        | next => cases hk
        | current =>
            cases hnew.symm.trans hx
            refine ⟨hreplay, ⟨.initiator, _, derived_concat _ s rfl, hkeys, fun _ => ?_,
              not_derived_answer hC hw.log hq.initiated hq.first⟩, by simp⟩
            rw [htr]
            exact ⟨_, List.mem_append_left _ hmem, rfl⟩
        | previous => cases hk
      · intro k j x r c hk hne hj
        cases k <;> cases hk <;> cases hj
        exact absurd rfl hne
  | delivered k x counter payload replay src hslot hreplay hsent hrot hsrc =>
      refine hheld.rotates hC hw.log hrot ?_ ?_ ?_
      · intro i y hi hy
        rcases hsrc with ⟨-, rfl⟩ | ⟨-, rfl, hnone⟩
        · cases hi
        · cases i <;> cases hi
          cases hnone.symm.trans hy
      · intro i j y r c hi hne hj hy hkeys hd
        rcases hsrc with ⟨-, rfl⟩ | ⟨rfl, rfl, -⟩
        · cases hi
          exact absurd hj hne
        · -- the packet came from the other side, on this very session
          subst hj
          cases hslot.symm.trans hy
          exact ((hw.sent_by_other hC hslot hsent).2 r c hkeys hd).mono
            (List.subset_append_left _ _)
      · intro j y counter' payload' hy hmem
        -- the keys of the slots differ, so it was this slot
        obtain ⟨hkey', rfl, -⟩ := Entry.delivered.inj (Prod.mk.inj (List.mem_singleton.mp hmem)).2
        exact if_pos (hheld.distinct hy hslot hkey')

include hw in
/-- The acting side's pending handshake is its own and unanswered. -/
theorem Change.awaiting (h : Change (key s) w drawn (w.peer s) p' entries)
    {q : PendingHandshake C} (hq : p'.pending = some q) :
    Awaiting key (w.log ++ entries.map (s, ·)) s q.state := by
  cases h with
  | quiet hrot hpending => exact (hw.pending (hpending q hq)).append (by simp)
  | initiated q' ts hfresh hdrawn hrot hpending hbegun =>
      cases hpending.symm.trans hq
      refine ⟨⟨ts, ?_, ?_⟩, ?_⟩
      · rw [← hw.peerKey s]
        exact List.mem_concat_self
      · rw [← hw.peerKey s]
        exact hbegun.constr_eq
      · intro entry hmem hans
        rcases List.mem_append.mp hmem with hmem | hmem
        · -- what was answered before had been initiated before
          obtain ⟨pre, hpre, hok⟩ := hw.log.of_mem hmem
          cases entry with
          | call call => cases call <;> cases hans
          | answered st k psk packet =>
              obtain ⟨⟨ts', hmem', -⟩, -⟩ := hok
              exact hw.unused hfresh _ (hpre hmem') hans
          | delivered => cases hans
        · cases List.mem_singleton.mp hmem
          cases hans
  | responded packet st e hfresh hdrawn hrecv hinit hrot y hnew hreplay hkeys hpending =>
      refine (hw.pending (hpending.symm.trans hq)).append fun entry hmem => ?_
      cases List.mem_singleton.mp hmem
      rfl
  | answered q' packet hpending hresp hrot y hnew hreplay hkeys hnone => cases hnone.symm.trans hq
  | sent x payload hcurrent hrot hpending =>
      refine (hw.pending (hpending.symm.trans hq)).append fun entry hmem => ?_
      cases List.mem_singleton.mp hmem
      rfl
  | delivered k x counter payload replay src hslot hreplay hsent hrot hsrc hpending =>
      refine (hw.pending (hpending.symm.trans hq)).append fun entry hmem => ?_
      cases List.mem_singleton.mp hmem
      rfl

/-- The ephemeral keys an action puts on the wire are the ones it drew. -/
theorem Change.ephemeral_mem {ourKey : C.Secret} {p : Peer C}
    (h : Change ourKey w drawn p p' entries) {entry : Entry C} {e : PublicKey}
    (hmem : entry ∈ entries) (he : entry.ephemeral = some e) : e ∈ drawn := by
  cases h with
  | quiet => cases hmem
  | initiated q ts hfresh hdrawn =>
      cases List.mem_singleton.mp hmem
      cases he
      exact hdrawn
  | responded packet st e' hfresh hdrawn =>
      cases List.mem_singleton.mp hmem
      cases he
      exact hdrawn
  | answered => cases List.mem_singleton.mp hmem; cases he
  | sent => cases List.mem_singleton.mp hmem; cases he
  | delivered => cases List.mem_singleton.mp hmem; cases he

include hC hkey hw in
/-- **One action keeps the invariant.** -/
theorem sound_step {a : Action C} (hi : w.Ideal key s a) : (w.step key s a).Sound key := by
  obtain ⟨p', entries, hchange, hwf, hpeer, hstep⟩ := step_change hC (hw.wellFormed s) hi
  rw [hstep]
  -- the entries are not the other side's
  have hmore : ∀ {s'}, s' ≠ s → ∀ x ∈ entries.map (s, ·), x.1 ≠ s' := by
    intro s' hne x hx
    obtain ⟨entry, -, rfl⟩ := List.mem_map.mp hx
    exact hne.symm
  -- a field of the invariant that speaks of one side at a time
  have hsides : ∀ P : Side → Peer C → Prop, P s p' → (∀ s', s' ≠ s → P s' (w.peer s')) →
      ∀ s', P s' (Function.update w.peer s p' s') := by
    intro P hself hother s'
    by_cases hs : s' = s
    · subst hs
      rw [Function.update_self]
      exact hself
    · rw [Function.update_of_ne hs]
      exact hother s' hs
  refine ⟨hchange.grounded hC hkey hw, ?_, ?_, ?_, ?_, ?_, ?_⟩
  · intro x hx e he
    rcases List.mem_append.mp hx with hx | hx
    · exact List.mem_append_left _ (hw.used x hx e he)
    · obtain ⟨entry, hentry, rfl⟩ := List.mem_map.mp hx
      exact List.mem_append_right _ (hchange.ephemeral_mem hentry he)
  · exact hsides (fun s p => p.peerKey = _) (hpeer.trans (hw.peerKey s)) fun s' _ => hw.peerKey s'
  · exact hsides (fun _ p => p.WellFormed) hwf fun s' _ => hw.wellFormed s'
  · intro s' q
    refine hsides (fun s p => p.pending = some q → Awaiting key _ s q.state)
      (fun hq => hchange.awaiting hw hq) (fun s' hs hq => ?_) s'
    refine (hw.pending hq).append fun entry hmem => ?_
    exact absurd rfl (hmore hs _ hmem)
  · exact hsides (fun s p => Held _ s p) (hchange.held hC hw)
      fun s' hs => (hw.held s').append_other (hmore hs)
  · rw [List.filterMap_append, hw.events, List.filterMap_map]
    rfl

end Step

/-- **Every run keeps the invariant.** -/
theorem sound_run (hC : C.CollisionFree) {key : Side → C.Secret}
    (hkey : C.publicKey (key .a) ≠ C.publicKey (key .b)) {w : World C} (hw : w.Sound key)
    {actions : List (Side × Action C)} (hi : w.IdealRun key actions) :
    (w.run key actions).Sound key := by
  induction actions generalizing w with
  | nil => exact hw
  | cons x actions ih => exact ih (sound_step hC hkey hw hi.1) hi.2

end World

end Tunstile
