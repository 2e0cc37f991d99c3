/-
Tunstile/Staging.lean

When an actor can send, and what each of its operations does to the payloads
it holds.

`Peer.Blocked` is why a machine cannot encrypt: its send session is missing,
expired or exhausted.  Time only makes that worse, and only a completed
handshake ends it.  Most of what the actor does is `Idle`: it moves no
payload and does not free the machine.  The sending loop `Encrypts` an
initial run of its payloads, and leaves some only to a blocked machine.

The operations are followed once, for any relation that the calls of the
machine and the bookkeeping between them keep (`Kept`), and with what is done
to payloads (`Flows`).
-/
import Tunstile.Actor
import Tunstile.Routing

namespace Tunstile

variable {C : Crypto}

/-! ### When a machine cannot encrypt -/

namespace Peer

/-- The send session is missing, expired or exhausted. -/
def Blocked (p : Peer C) (now : Instant) : Prop :=
  ∀ x, p.current = some x → x.expired now = true ∨ rejectAfterMessages ≤ x.transport.sendCounter

theorem Blocked.mono {p : Peer C} {now later : Instant} (h : p.Blocked now) (hle : now ≤ later) :
    p.Blocked later := by
  intro x hx
  rcases h x hx with hexp | hctr
  · exact Or.inl (Session.expired_mono hle hexp)
  · exact Or.inr hctr

/-- A well-formed peer that knows where to send if it has a send session. -/
structure Healthy (p : Peer C) : Prop where
  wellFormed : p.WellFormed
  endpoint : p.current.isSome = true → p.endpoint.isSome = true

theorem healthy_new (key : PublicKey) (presharedKey : Option PresharedKey) :
    ((new C key).setPresharedKey presharedKey).Healthy where
  wellFormed := wellFormed_run (wellFormed_new key) [.setPresharedKey presharedKey]
  endpoint := nofun

/-- Whether a call gave the peer a new send session. -/
def Outcome.establishes (op : Op C) : Outcome → Bool
  | .decrypted recv _ => recv.confirmed
  | .rotated _ => match op with
      | .handshakeResponse _ _ _ _ => true
      | _ => false
  | _ => false

/-- Every call keeps a peer healthy. -/
theorem Effect.healthy {p p' : Peer C} {op : Op C} {o : Outcome} (h : Effect p op o p')
    (hp : p.Healthy) : p'.Healthy := by
  refine ⟨h.wellFormed hp.wellFormed, ?_⟩
  cases h with
  | responded | answered | endpointSet | confirmed => exact fun _ => rfl
  | encrypted x hend => exact fun _ => hend
  | received k => exact fun _ => rfl
  | _ => exact hp.endpoint

/-- A call that gives no new send session does not unblock the machine. -/
theorem Effect.blocked {p p' : Peer C} {op : Op C} {o : Outcome} (h : Effect p op o p')
    (hold : o.establishes op = false) {now : Instant} (hp : p.Blocked now) : p'.Blocked now := by
  cases h with
  | answered | confirmed => cases hold
  | encrypted x hend hcur hlive hlen hctr =>
      -- it was not exhausted, so it is expired, and stays so
      rintro x' ⟨⟩
      rcases hp x hcur with hexp | hfull
      · exact Or.inl hexp
      · exact absurd hctr (UInt64.not_lt.mpr hfull)
  | received k x counter payload replay hk hslot =>
      cases k with
      | next => exact absurd rfl hk
      | current =>
          rintro x' ⟨⟩
          exact hp x hslot
      | previous => exact hp
  | _ => exact hp

/-- The machine `p'` later on, without a new send session in between. -/
def Steady (p p' : Peer C) : Prop :=
  p.Healthy → p'.Healthy ∧ ∀ {now}, p.Blocked now → p'.Blocked now

theorem Steady.refl (p : Peer C) : p.Steady p := fun h => ⟨h, fun hb => hb⟩

theorem Steady.trans {p q r : Peer C} (h : p.Steady q) (h' : q.Steady r) : p.Steady r := by
  intro hp
  obtain ⟨hq, hpq⟩ := h hp
  obtain ⟨hr, hqr⟩ := h' hq
  exact ⟨hr, fun hb => hqr (hpq hb)⟩

theorem steady_step (p : Peer C) (op : Op C) (h : (p.step op).1.establishes op = false) :
    p.Steady (p.step op).2 := by
  intro hp
  have heff := p.step_effect hp.wellFormed op
  exact ⟨heff.healthy hp, fun hb => heff.blocked h hb⟩

theorem steady_encrypt {p p' : Peer C} {now : Instant} {payload out buf : Bytes}
    {r : Except PeerError ℕ} (h : p.encrypt now payload out = (r, p', buf)) : p.Steady p' := by
  have hstep := p.steady_step (.encrypt now payload out)
  rw [step, h] at hstep
  cases r <;> exact hstep rfl

theorem effect_of_step {p p' : Peer C} {op : Op C} {o : Outcome} (hp : p.WellFormed)
    (h : p.step op = (o, p')) : Effect p op o p' := by
  have heff := p.step_effect hp op
  rwa [h] at heff

/-- A call that fails changes nothing. -/
theorem eq_of_step_error {p p' : Peer C} {op : Op C} {e : PeerError} (hp : p.WellFormed)
    (h : p.step op = (.error e, p')) : p' = p := by
  cases effect_of_step hp h
  rfl

theorem healthy_step {p : Peer C} (hp : p.Healthy) (op : Op C) : (p.step op).2.Healthy :=
  (p.step_effect hp.wellFormed op).healthy hp

theorem healthy_run {p : Peer C} (hp : p.Healthy) (ops : List (Op C)) : (p.run ops).Healthy := by
  induction ops generalizing p with
  | nil => exact hp
  | cons op ops ih => exact ih (healthy_step hp op)

theorem healthy_decrypt {p p' : Peer C} {now : Instant} {receiver : UInt32} {packet : Bytes}
    {source : SocketAddr} {r : Except PeerError (Recv × Bytes)} (hp : p.Healthy)
    (h : p.decrypt now receiver packet source = (r, p')) : p'.Healthy := by
  have hstep := healthy_step hp (.decrypt now receiver packet source)
  rw [step, h] at hstep
  cases r <;> exact hstep

/-- A packet that confirms nothing brings no new send session. -/
theorem steady_decrypt {p p' : Peer C} {now : Instant} {receiver : UInt32} {packet : Bytes}
    {source : SocketAddr} {r : Except PeerError (Recv × Bytes)}
    (h : p.decrypt now receiver packet source = (r, p'))
    (hr : ∀ recv opened, r = .ok (recv, opened) → recv.confirmed = false) : p.Steady p' := by
  have hstep := p.steady_step (.decrypt now receiver packet source)
  rw [step, h] at hstep
  rcases r with e | ⟨recv, opened⟩
  · exact hstep rfl
  · exact hstep (hr recv opened rfl)

theorem healthy_handshakeResponse {p p' : Peer C} {ourKey : C.Secret} {now : Instant}
    {packet : Bytes} {source : SocketAddr} {r : Except PeerError (Option UInt32)} (hp : p.Healthy)
    (h : p.handshakeResponse ourKey now packet source = (r, p')) : p'.Healthy := by
  have hstep := healthy_step hp (.handshakeResponse ourKey now packet source)
  rw [step, h] at hstep
  cases r <;> exact hstep

theorem steady_handshakeResponse_error {p p' : Peer C} {ourKey : C.Secret} {now : Instant}
    {packet : Bytes} {source : SocketAddr} {e : PeerError}
    (h : p.handshakeResponse ourKey now packet source = (.error e, p')) : p.Steady p' := by
  have hstep := p.steady_step (.handshakeResponse ourKey now packet source)
  rw [step, h] at hstep
  exact hstep rfl

/-- **When encrypting fails.**  With room for the packet, exactly when the
machine is blocked. -/
theorem encrypt_cases {p : Peer C} (hp : p.Healthy) (now : Instant) {payload out : Bytes}
    (hlen : packetLen payload.length ≤ out.length) :
    (p.Blocked now ∧ ∃ e p' out', p.encrypt now payload out = (.error e, p', out')) ∨
      (¬ p.Blocked now ∧ ∃ n p' out', p.encrypt now payload out = (.ok n, p', out')) := by
  by_cases hend : p.endpoint.isNone = true
  · refine Or.inl ⟨fun x hx => ?_, .noEndpoint, p, out, by simp only [encrypt, if_pos hend]⟩
    have := hp.endpoint (by rw [hx]; rfl)
    rw [Option.isNone_iff_eq_none.mp hend] at this
    cases this
  simp only [encrypt, if_neg hend]
  cases hcur : p.current with
  | none =>
      refine Or.inl ⟨fun x hx => ?_, _, _, _, rfl⟩
      cases hcur.symm.trans hx
  | some x =>
      cases hexp : x.expired now with
      | true =>
          refine Or.inl ⟨fun y hy => ?_, .expired, p, out, by simp [hexp]⟩
          cases hcur.symm.trans hy
          exact Or.inl hexp
      | false =>
          by_cases hctr : x.transport.sendCounter < rejectAfterMessages
          · refine Or.inr ⟨fun hb => ?_, ?_⟩
            · rcases hb x hcur with he | hfull
              · cases hexp.symm.trans he
              · exact absurd hctr (UInt64.not_lt.mpr hfull)
            · simp only [hexp, Session.send, Transport.send_ok _ hlen hctr, Bool.false_eq_true,
                if_false]
              exact ⟨_, _, _, rfl⟩
          · refine Or.inl ⟨fun y hy => ?_, ?_⟩
            · cases hcur.symm.trans hy
              exact Or.inr (UInt64.not_lt.mp hctr)
            · obtain ⟨e, h⟩ | ⟨-, hlt, -⟩ := x.transport.send_cases payload out
              · simp only [hexp, Session.send, h, Bool.false_eq_true, if_false]
                exact ⟨_, _, _, rfl⟩
              · exact absurd hlt hctr

end Peer

/-! ### Operations that move no payload -/

namespace Peer

def Op.initiates : Op C → Bool
  | .initiate _ _ _ => true
  | _ => false

def Op.respondsAt : Op C → Option Instant
  | .respond now _ _ _ _ => some now
  | _ => none

end Peer

/-- What stays the same of a session while its timers change. -/
def DriverSession.identity (d : DriverSession) : Bool × Instant := (d.initiator, d.established)

theorem DriverSession.identity_packetReceived (d : DriverSession) (now : Instant)
    (carriedPayload : Bool) : (d.packetReceived now carriedPayload).identity = d.identity := by
  cases carriedPayload <;> rfl

/-- The payload of a plaintext, unless it is a keepalive. -/
def Sealed.payload? : Sealed → Option Bytes
  | .payload bytes => some bytes
  | .keepalive => none

namespace Actor

/-- The payloads encrypted so far, in the order of their encryption. -/
def encryptedPayloads (a : Actor C) : List Bytes := a.sealed.filterMap Sealed.payload?

/-- Each read of the clock is no earlier than the one before. -/
def Monotonic (clock : Stream' Instant) : Prop := ∀ n, clock.get n ≤ clock.get (n + 1)

theorem Monotonic.tail {clock : Stream' Instant} (h : Monotonic clock) : Monotonic clock.tail :=
  fun n => h (n + 1)

/-- No payload was staged, encrypted or dropped, and the clock not read. -/
structure Unmoved (a a' : Actor C) : Prop where
  staged : a'.staged = a.staged
  ledger : a'.ledger = a.ledger
  encrypted : a'.encryptedPayloads = a.encryptedPayloads
  clock : a'.env.clock = a.env.clock

/-- Nor did an attempt or a session of the driver end; their timers may have
changed. -/
structure Upheld (a a' : Actor C) : Prop extends Unmoved a a' where
  handshake : a.handshake.isSome = true → a'.handshake.isSome = true
  session : a'.session.map DriverSession.identity = a.session.map DriverSession.identity

/-- A relation between an actor and its later states that the parts of an
operation keep: reading the clock, changing the schedule or writing outside,
giving up a session that is of no use, and a machine operation that brings no
new send session, with its reports.  An attempt is noted before an initiation
is made, and a response is dated by the clock. -/
structure Kept (R : Actor C → Actor C → Prop) : Prop where
  trans : ∀ {a b c}, R a b → R b c → R a c
  tick : ∀ a, R a a.tick
  frame : ∀ {a a'}, a'.machine = a.machine → a'.control = a.control → Upheld a a' → R a a'
  lose : ∀ {a b}, R a b → (a.machine.Healthy → Monotonic a.env.clock → b.machine.Blocked b.now) →
    R a { b with session := none }
  call : ∀ {a a'} {op : Peer.Op C} {o : Peer.Outcome}, a.machine.step op = (o, a'.machine) →
    o.establishes op = false →
    (op.initiates = true → a.handshake.isSome = true) →
    (∀ t, op.respondsAt = some t → t ≤ a.now) →
    a'.control = a.control ++ (o.returned.toList.map (.retire a'.machine.peerKey ·) ++
      (op.installed o).toList.map (.bind a'.machine.peerKey ·)) →
    Upheld a a' → R a a'

theorem flushSends_nil (a : Actor C) : a.flushSends [] = a := if_pos rfl

theorem control_retireIndex (a : Actor C) (index : Option UInt32) :
    (a.retireIndex index).control = a.control ++ index.toList.map (.retire a.machine.peerKey ·) := by
  cases index with
  | none => exact (List.append_nil _).symm
  | some index => rfl

theorem machine_retireIndex (a : Actor C) (index : Option UInt32) :
    (a.retireIndex index).machine = a.machine := by
  cases index <;> rfl

theorem upheld_retireIndex (a : Actor C) (index : Option UInt32) :
    Upheld a (a.retireIndex index) := by
  cases index <;> exact ⟨⟨rfl, rfl, rfl, rfl⟩, id, rfl⟩

theorem control_routed (a : Actor C) (retired : Option UInt32) (index : UInt32) :
    ((a.retireIndex retired).bindIndex index).control = a.control ++
      (retired.toList.map (.retire a.machine.peerKey ·) ++ [.bind a.machine.peerKey index]) := by
  show (a.retireIndex retired).control ++ [.bind (a.retireIndex retired).machine.peerKey index] = _
  rw [control_retireIndex, machine_retireIndex, List.append_assoc]

namespace Kept

variable {R : Actor C → Actor C → Prop} (hR : Kept R)
include hR

theorem refl (a : Actor C) : R a a := hR.frame rfl rfl ⟨⟨rfl, rfl, rfl, rfl⟩, id, rfl⟩

/-- An operation that neither makes nor answers an initiation, and reports
nothing. -/
theorem silent {a a' : Actor C} (op : Peer.Op C) {o : Peer.Outcome}
    (h : a.machine.step op = (o, a'.machine)) (hold : o.establishes op = false)
    (hret : o.returned = none) (hinst : op.installed o = none) (hinit : op.initiates = false)
    (hresp : op.respondsAt = none) (hc : a'.control = a.control) (hrest : Upheld a a') :
    R a a' := by
  refine hR.call h hold (fun hi => ?_) (fun t ht => ?_) ?_ hrest
  · cases hinit.symm.trans hi
  · cases hresp.symm.trans ht
  · rw [hret, hinst, hc]
    exact (List.append_nil _).symm

/-- An operation that fails reports nothing. -/
theorem failed {a a' : Actor C} {op : Peer.Op C} {e : PeerError}
    (h : a.machine.step op = (.error e, a'.machine))
    (hinit : op.initiates = true → a.handshake.isSome = true)
    (hresp : ∀ t, op.respondsAt = some t → t ≤ a.now) (hc : a'.control = a.control)
    (hrest : Upheld a a') : R a a' := by
  refine hR.call h rfl hinit hresp ?_ hrest
  have hinst : op.installed (.error e) = none := by cases op <;> rfl
  rw [hinst, hc]
  exact (List.append_nil _).symm

/-- An operation that installs an index and reports it. -/
theorem installed {a : Actor C} {op : Peer.Op C} {retired : Option UInt32} {msg : Bytes}
    {machine : Peer C} {index : UInt32}
    (h : a.machine.step op = (.written retired msg, machine))
    (hinst : op.installed (.written retired msg) = some index)
    (hinit : op.initiates = true → a.handshake.isSome = true)
    (hresp : ∀ t, op.respondsAt = some t → t ≤ a.now) :
    R a (({ a with machine := machine }.retireIndex retired).bindIndex index) := by
  have hm : (({ a with machine := machine }.retireIndex retired).bindIndex index).machine
      = machine := machine_retireIndex _ retired
  have hrest := upheld_retireIndex { a with machine := machine } retired
  refine hR.call (h.trans (congrArg _ hm.symm)) ?_ hinit hresp ?_
    ⟨⟨hrest.staged, hrest.ledger, hrest.encrypted, hrest.clock⟩, hrest.handshake, hrest.session⟩
  · cases op <;> rfl
  · rw [hm, hinst]
    exact control_routed _ retired index

theorem send {a a' : Actor C} {endpoint : SocketAddr} {bytes : Bytes} {taken : Bool}
    (h : a.send endpoint bytes = (taken, a')) : R a a' := by
  have hframe : R a (a.send endpoint bytes).2 :=
    hR.frame rfl rfl ⟨⟨rfl, rfl, rfl, rfl⟩, id, rfl⟩
  rwa [h] at hframe

/-- An encryption that adds no payload reports nothing, whatever its
outcome. -/
theorem encrypt {a a' : Actor C} {now : Instant} {payload out buf : Bytes}
    {r : Except PeerError ℕ} (h : a.machine.encrypt now payload out = (r, a'.machine, buf))
    (hc : a'.control = a.control) (hrest : Upheld a a') : R a a' := by
  cases r with
  | error e =>
      have hstep : a.machine.step (.encrypt now payload out) = (.error e, a'.machine) := by
        rw [Peer.step, h]
      exact hR.silent _ hstep rfl rfl rfl rfl rfl hc hrest
  | ok len =>
      have hstep : a.machine.step (.encrypt now payload out)
          = (.encrypted len buf, a'.machine) := by
        rw [Peer.step, h]
      exact hR.silent _ hstep rfl rfl rfl rfl rfl hc hrest

theorem sendHandshake (a : Actor C) (firstSent : Instant) : R a (a.sendHandshake firstSent) := by
  unfold Actor.sendHandshake
  split
  · exact hR.refl a
  extract_lets now a₁ a₂ a₃ values a₄
  have hread : R a a₄ :=
    hR.trans (hR.tick a) (hR.frame rfl rfl ⟨⟨rfl, rfl, rfl, rfl⟩, fun _ => rfl, rfl⟩)
  split
  · rename_i e machine out heq
    have hstep : a₄.machine.step (.initiate a₄.ourKey values (List.replicate initMsgLength 0))
        = (.error e, machine) := by rw [Peer.step, heq]
    exact hR.trans hread (hR.failed hstep (fun _ => rfl) (fun _ h => by cases h) rfl
      ⟨⟨rfl, rfl, rfl, rfl⟩, id, rfl⟩)
  · rename_i replaced machine msg heq
    extract_lets a₅ a₆
    have hstep : a₄.machine.step (.initiate a₄.ourKey values (List.replicate initMsgLength 0))
        = (.written replaced msg, machine) := by rw [Peer.step, heq]
    have hcall : R a a₆ := hR.trans hread
      (hR.installed hstep rfl (fun _ => rfl) (fun _ h => by cases h))
    split
    · rename_i hsend
      exact hR.trans hcall (hR.send hsend)
    · rename_i hsend
      exact hR.trans (hR.trans hcall (hR.send hsend))
        (hR.frame rfl rfl ⟨⟨rfl, rfl, rfl, rfl⟩, id, rfl⟩)

theorem ensureHandshake (a : Actor C) : R a a.ensureHandshake := by
  unfold Actor.ensureHandshake
  split
  · exact hR.trans (hR.tick a) (hR.sendHandshake _ _)
  · exact hR.refl a

theorem ensureHandshake_if (a : Actor C) (rekey : Bool) :
    R a (if rekey then a.ensureHandshake else a) := by
  cases rekey with
  | false => exact hR.refl a
  | true => exact hR.ensureHandshake a

theorem setEndpoint (a : Actor C) (endpoint : SocketAddr) : R a (a.setEndpoint endpoint) :=
  hR.silent (.setEndpoint endpoint) rfl rfl rfl rfl rfl rfl rfl ⟨⟨rfl, rfl, rfl, rfl⟩, id, rfl⟩

theorem applyUpdate (a : Actor C) (update : PeerUpdate) : R a (a.applyUpdate update) := by
  have hpsk (p : Option PresharedKey) : R a { a with machine := a.machine.setPresharedKey p } :=
    hR.silent (.setPresharedKey p) rfl rfl rfl rfl rfl rfl rfl ⟨⟨rfl, rfl, rfl, rfl⟩, id, rfl⟩
  obtain ⟨endpoint, presharedKey, persistentKeepalive⟩ := update
  have hsettings : R a (a.applyUpdate ⟨none, presharedKey, persistentKeepalive⟩) := by
    cases presharedKey <;> cases persistentKeepalive <;>
      first
      | exact hR.frame rfl rfl ⟨⟨rfl, rfl, rfl, rfl⟩, id, rfl⟩
      | exact hR.trans (hpsk _) (hR.frame rfl rfl ⟨⟨rfl, rfl, rfl, rfl⟩, id, rfl⟩)
  cases endpoint with
  | none => exact hsettings
  | some endpoint =>
      -- the endpoint is set last, on what an update without one leaves
      exact hR.trans hsettings (hR.trans (hR.setEndpoint _ endpoint) (hR.ensureHandshake _))

theorem sendKeepalive (a : Actor C) : R a a.sendKeepalive := by
  unfold Actor.sendKeepalive
  extract_lets now a₁
  split
  · rename_i e machine out heq
    have hfail : R a { a₁ with machine := machine } :=
      hR.trans (hR.tick a) (hR.encrypt heq rfl ⟨⟨rfl, rfl, rfl, rfl⟩, id, rfl⟩)
    -- the driver gives up its session, since the machine cannot encrypt
    refine hR.lose hfail fun hp hclock => ?_
    have hroom : packetLen ([] : Bytes).length
        ≤ (List.replicate (packetLen 0) (0 : UInt8)).length := List.length_replicate.ge
    rcases Peer.encrypt_cases hp now hroom with ⟨hblocked, -⟩ | ⟨-, n, p', out', hok⟩
    · exact ((Peer.steady_encrypt heq hp).2 hblocked).mono (hclock 0)
    · cases heq.symm.trans hok
  · rename_i len machine msg heq
    extract_lets a₂ messageRekey a₃
    -- a keepalive is encrypted, which is no payload
    have hsealed : R a a₂ := by
      refine hR.trans (hR.tick a) (hR.encrypt heq rfl ⟨⟨rfl, rfl, ?_, rfl⟩, id, rfl⟩)
      show (a₁.sealed ++ [Sealed.keepalive]).filterMap Sealed.payload? = a₁.encryptedPayloads
      rw [List.filterMap_append]
      exact List.append_nil _
    split
    · exact hsealed
    have htimer : R a a₃ := by
      refine hR.trans hsealed (hR.frame rfl rfl ⟨⟨rfl, rfl, rfl, rfl⟩, id, ?_⟩)
      show (a₂.session.map DriverSession.keepaliveSent).map DriverSession.identity = _
      rw [Option.map_map]
      rfl
    split
    · rename_i hsend
      exact hR.trans (hR.trans htimer (hR.send hsend)) (hR.ensureHandshake_if _ _)
    · rename_i a₄ hsend
      extract_lets a₅ timeRekey
      have hsent : R a₄ a₅ := hR.frame rfl rfl ⟨⟨rfl, rfl, rfl, rfl⟩, id, rfl⟩
      exact hR.trans (hR.trans (hR.trans htimer (hR.send hsend)) hsent)
        (hR.ensureHandshake_if a₅ _)

/-- The answer to an initiation starts a session no later than now. -/
theorem recvHandshakeInit {a : Actor C} {now : Instant} (hnow : now ≤ a.now)
    (handshake : InitReceived C) (endpoint : SocketAddr) :
    R a (a.recvHandshakeInit now handshake endpoint) := by
  unfold Actor.recvHandshakeInit
  extract_lets values a₁
  have hread : R a a₁ := hR.frame rfl rfl ⟨⟨rfl, rfl, rfl, rfl⟩, id, rfl⟩
  have htime (t : Instant) (ht : some now = some t) : t ≤ a₁.now := Option.some.inj ht ▸ hnow
  split
  · rename_i e machine out heq
    have hstep : a₁.machine.step
        (.respond now handshake values endpoint (List.replicate respMsgLength 0))
        = (.error e, machine) := by rw [Peer.step, heq]
    exact hR.trans hread (hR.failed hstep (fun h => by cases h) htime rfl
      ⟨⟨rfl, rfl, rfl, rfl⟩, id, rfl⟩)
  · rename_i displaced machine msg heq
    extract_lets a₂ a₃
    have hstep : a₁.machine.step
        (.respond now handshake values endpoint (List.replicate respMsgLength 0))
        = (.written displaced msg, machine) := by rw [Peer.step, heq]
    have hcall : R a a₃ := hR.trans hread (hR.installed hstep rfl (fun h => by cases h) htime)
    split
    · rename_i hsend
      exact hR.trans hcall (hR.send hsend)
    · rename_i hsend
      exact hR.trans (hR.trans hcall (hR.send hsend))
        (hR.frame rfl rfl ⟨⟨rfl, rfl, rfl, rfl⟩, id, rfl⟩)

theorem recvCookieReply (a : Actor C) (reply : Bytes) : R a (a.recvCookieReply reply) := by
  unfold Actor.recvCookieReply
  extract_lets timestamp env a₁
  have hread : R a a₁ := hR.frame rfl rfl ⟨⟨rfl, rfl, rfl, rfl⟩, id, rfl⟩
  refine hR.trans hread ?_
  rcases hreply : a₁.machine.cookieReply reply timestamp with ⟨e | ⟨⟨⟩⟩, machine⟩
  · have hstep : a₁.machine.step (.cookieReply reply timestamp) = (.error e, machine) := by
      rw [Peer.step, hreply]
    exact hR.silent _ hstep rfl rfl rfl rfl rfl rfl ⟨⟨rfl, rfl, rfl, rfl⟩, id, rfl⟩
  · have hstep : a₁.machine.step (.cookieReply reply timestamp) = (.done, machine) := by
      rw [Peer.step, hreply]
    exact hR.silent _ hstep rfl rfl rfl rfl rfl rfl ⟨⟨rfl, rfl, rfl, rfl⟩, id, rfl⟩

theorem newHandshakeDue (a : Actor C) : R a a.newHandshakeDue := by
  have htimer : R a
      { a with session := a.session.map fun s => { s with newHandshakeAt := none } } := by
    refine hR.frame rfl rfl ⟨⟨rfl, rfl, rfl, rfl⟩, id, ?_⟩
    rw [Option.map_map]
    rfl
  exact hR.trans htimer (hR.ensureHandshake _)

theorem persistentKeepaliveDue (a : Actor C) : R a a.persistentKeepaliveDue := by
  unfold Actor.persistentKeepaliveDue
  extract_lets now a₁ a₂
  have hread : R a a₂ :=
    hR.trans (hR.tick a) (hR.frame rfl rfl ⟨⟨rfl, rfl, rfl, rfl⟩, id, rfl⟩)
  split
  · exact hR.trans hread (hR.sendKeepalive a₂)
  · exact hR.trans hread (hR.ensureHandshake a₂)

/-- What `flush_sends` does once every payload is encrypted. -/
theorem rekey (a : Actor C) (now : Instant) (rekey : Bool) :
    R a (if rekey && a.handshake.isNone then a.sendHandshake now else a) := by
  split
  · exact hR.sendHandshake a now
  · exact hR.refl a

theorem batchSend (b : Batch C) (segmentSize : ℕ) : R b.actor (b.send segmentSize).2 := by
  unfold Batch.send
  split
  · split
    · exact hR.refl _
    · rename_i endpoint _
      have hframe : R b.actor (b.actor.sendSegments endpoint b.bytes segmentSize).2 :=
        hR.frame rfl rfl ⟨⟨rfl, rfl, rfl, rfl⟩, id, rfl⟩
      split <;> rename_i h <;> rw [h] at hframe
      · exact hframe
      · exact hR.trans hframe (hR.frame rfl rfl ⟨⟨rfl, rfl, rfl, rfl⟩, id, rfl⟩)
  · exact hR.refl _

end Kept

/-! ### Idle operations -/

/-- Between `a` and `a'` no payload was staged, encrypted or dropped, and the
machine got no new send session. -/
structure Idle (a a' : Actor C) : Prop where
  staged : a'.staged = a.staged
  ledger : a'.ledger = a.ledger
  encrypted : a'.encryptedPayloads = a.encryptedPayloads
  machine : a.machine.Steady a'.machine
  clock : Monotonic a.env.clock → Monotonic a'.env.clock ∧ a.now ≤ a'.now

namespace Idle

theorem trans {a b c : Actor C} (h : Idle a b) (h' : Idle b c) : Idle a c where
  staged := h'.staged.trans h.staged
  ledger := h'.ledger.trans h.ledger
  encrypted := h'.encrypted.trans h.encrypted
  machine := h.machine.trans h'.machine
  clock hm := by
    obtain ⟨hb, hab⟩ := h.clock hm
    obtain ⟨hc, hbc⟩ := h'.clock hb
    exact ⟨hc, hab.trans hbc⟩

/-- A change of the machine alone, without a new send session. -/
theorem of_steady {a a' : Actor C} (h : a.machine.Steady a'.machine) (hrest : Unmoved a a') :
    Idle a a' where
  staged := hrest.staged
  ledger := hrest.ledger
  encrypted := hrest.encrypted
  machine := h
  clock hm := ⟨hrest.clock ▸ hm, le_of_eq (congrArg Stream'.head hrest.clock.symm)⟩

/-- A change of the schedule, the status or what was written outside. -/
theorem of_eq {a a' : Actor C} (hm : a'.machine = a.machine) (hrest : Unmoved a a') : Idle a a' :=
  of_steady (hm ▸ Peer.Steady.refl _) hrest

theorem refl (a : Actor C) : Idle a a := of_eq rfl ⟨rfl, rfl, rfl, rfl⟩

end Idle

theorem idle_tick (a : Actor C) : Idle a a.tick where
  staged := rfl
  ledger := rfl
  encrypted := rfl
  machine := .refl _
  clock hm := ⟨hm.tail, hm 0⟩

theorem idle_kept : Kept (Idle (C := C)) where
  trans := Idle.trans
  tick := idle_tick
  frame hm _ hrest := .of_eq hm hrest.toUnmoved
  lose h _ := h.trans (.of_eq rfl ⟨rfl, rfl, rfl, rfl⟩)
  call {a a' op o} h hold _ _ _ hrest := by
    have hsteady := a.machine.steady_step op
    rw [h] at hsteady
    exact .of_steady (hsteady hold) hrest.toUnmoved

theorem idle_retireIndex (a : Actor C) (index : Option UInt32) : Idle a (a.retireIndex index) :=
  .of_eq (machine_retireIndex a index) (upheld_retireIndex a index).toUnmoved

/-! ### Encrypting payloads -/

/-- Between `a` and `a'` exactly the payloads `done` were encrypted, in this
order, at time `now`. -/
structure Encrypts (now : Instant) (done : List Bytes) (a a' : Actor C) : Prop where
  staged : a'.staged = a.staged
  ledger : a'.ledger = a.ledger ++ done.map fun payload => (payload, .encrypted)
  encrypted : a'.encryptedPayloads = a.encryptedPayloads ++ done
  machine : a.machine.Steady a'.machine
  clock : Monotonic a.env.clock → Monotonic a'.env.clock ∧ a.now ≤ a'.now
  blocked : a.machine.Healthy → a.machine.Blocked now → done = []

namespace Encrypts

theorem of_idle {now : Instant} {a a' : Actor C} (h : Idle a a') : Encrypts now [] a a' where
  staged := h.staged
  ledger := by rw [h.ledger, List.map_nil, List.append_nil]
  encrypted := by rw [h.encrypted, List.append_nil]
  machine := h.machine
  clock := h.clock
  blocked _ _ := rfl

theorem trans {now : Instant} {done done' : List Bytes} {a b c : Actor C}
    (h : Encrypts now done a b) (h' : Encrypts now done' b c) :
    Encrypts now (done ++ done') a c where
  staged := h'.staged.trans h.staged
  ledger := by rw [h'.ledger, h.ledger, List.map_append, List.append_assoc]
  encrypted := by rw [h'.encrypted, h.encrypted, List.append_assoc]
  machine := h.machine.trans h'.machine
  clock hm := by
    obtain ⟨hb, hab⟩ := h.clock hm
    obtain ⟨hc, hbc⟩ := h'.clock hb
    exact ⟨hc, hab.trans hbc⟩
  blocked hp hblocked := by
    obtain ⟨hq, hkept⟩ := h.machine hp
    rw [h.blocked hp hblocked, h'.blocked hq (hkept hblocked), List.append_nil]

theorem idle {now : Instant} {done : List Bytes} {a b c : Actor C} (h : Encrypts now done a b)
    (h' : Idle b c) : Encrypts now done a c := by
  have hc := h.trans (of_idle h')
  rwa [List.append_nil] at hc

end Encrypts

/-- The encryption loop encrypts an initial run of its payloads, and stalls
only when the machine is blocked. -/
theorem encryptBatch_encrypts (now : Instant) {segmentSize : ℕ} {a : Actor C}
    {payloads : List Bytes} (hp : a.machine.Healthy)
    (hsize : ∀ payload ∈ payloads, packetLen payload.length = segmentSize) :
    Encrypts now (payloads.take (encryptBatch now segmentSize a payloads).encrypted) a
        (encryptBatch now segmentSize a payloads).actor ∧
      ((encryptBatch now segmentSize a payloads).stalled = true →
        (encryptBatch now segmentSize a payloads).actor.machine.Blocked now) := by
  induction payloads generalizing a with
  | nil => exact ⟨.of_idle (.refl a), nofun⟩
  | cons payload rest ih =>
      have hroom : packetLen payload.length ≤ (List.replicate segmentSize (0 : UInt8)).length := by
        rw [List.length_replicate, hsize payload List.mem_cons_self]
      rcases Peer.encrypt_cases hp now hroom with ⟨hblocked, e, p', buf, h⟩ | ⟨hfree, n, p', buf, h⟩
      · have hsteady := Peer.steady_encrypt h
        simp only [encryptBatch, h, List.take_zero]
        exact ⟨.of_idle (.of_steady hsteady ⟨rfl, rfl, rfl, rfl⟩), fun _ => (hsteady hp).2 hblocked⟩
      · have hsteady := Peer.steady_encrypt h
        obtain ⟨hrest, hstall⟩ := ih (a := { a with
            machine := p'
            sealed := a.sealed ++ [.payload payload]
            ledger := a.ledger ++ [(payload, .encrypted)] })
          (hsteady hp).1 fun q hq => hsize q (List.mem_cons_of_mem _ hq)
        have hone : Encrypts now [payload] a { a with
            machine := p'
            sealed := a.sealed ++ [.payload payload]
            ledger := a.ledger ++ [(payload, .encrypted)] } :=
          { staged := rfl
            ledger := rfl
            encrypted := by simp [encryptedPayloads, Sealed.payload?]
            machine := hsteady
            clock := fun hm => ⟨hm, le_rfl⟩
            blocked := fun _ hb => absurd hb hfree }
        simp only [encryptBatch, h]
        exact ⟨hone.trans hrest, hstall⟩

/-- A batch is extended only by payloads of its own packet size. -/
theorem packetLen_of_mem_batch {maxSegments segmentSize n : ℕ} {payloads : List Bytes}
    {payload : Bytes}
    (h : payload ∈ payloads.take (batchLen maxSegments segmentSize n payloads - n)) :
    packetLen payload.length = segmentSize := by
  induction payloads generalizing n with
  | nil => cases List.take_nil ▸ h
  | cons first rest ih =>
      rw [batchLen] at h
      split at h
      · rename_i hfirst
        have hle := le_batchLen maxSegments segmentSize (n + 1) rest
        have hlen : batchLen maxSegments segmentSize (n + 1) rest - n =
            batchLen maxSegments segmentSize (n + 1) rest - (n + 1) + 1 := by omega
        rw [hlen, List.take_succ_cons] at h
        rcases List.mem_cons.mp h with rfl | hrest
        · exact hfirst.2
        · exact ih hrest
      · rw [Nat.sub_self] at h
        cases h

theorem encryptBatch_encrypted_le (now : Instant) (segmentSize : ℕ) (a : Actor C)
    (payloads : List Bytes) :
    (encryptBatch now segmentSize a payloads).encrypted ≤ payloads.length := by
  induction payloads generalizing a with
  | nil => exact le_rfl
  | cons payload rest ih =>
      rw [encryptBatch]
      split
      · exact Nat.zero_le _
      · exact Nat.succ_le_succ (ih _)

/-- One round of the sending loop. -/
theorem batch_encrypts (now : Instant) (maxSegments : ℕ) {a : Actor C} (hp : a.machine.Healthy)
    (payload : Bytes) (rest : List Bytes) (n : ℕ) (batch : Batch C)
    (hn : n = batchLen maxSegments (packetLen payload.length) 1 rest)
    (hbatch : batch =
      encryptBatch now (packetLen payload.length) a ((payload :: rest).take n)) :
    Encrypts now ((payload :: rest).take batch.encrypted) a
        (batch.send (packetLen payload.length)).2 ∧
      (batch.stalled = true →
        (batch.send (packetLen payload.length)).2.machine.Blocked now) := by
  have hsize : ∀ q ∈ (payload :: rest).take n, packetLen q.length = packetLen payload.length := by
    intro q hq
    have hle := le_batchLen maxSegments (packetLen payload.length) 1 rest
    rw [← hn] at hle
    obtain ⟨m, rfl⟩ := Nat.exists_eq_add_of_le' hle
    rcases List.mem_cons.mp (List.take_succ_cons ▸ hq) with rfl | hrest
    · rfl
    · have hmem : q ∈ rest.take (batchLen maxSegments (packetLen payload.length) 1 rest - 1) := by
        rwa [← hn, Nat.add_sub_cancel]
      exact packetLen_of_mem_batch hmem
  obtain ⟨henc, hstall⟩ := encryptBatch_encrypts now hp hsize
  have hle := encryptBatch_encrypted_le now (packetLen payload.length) a ((payload :: rest).take n)
  rw [← hbatch] at henc hstall hle
  have hidle := idle_kept.batchSend batch (packetLen payload.length)
  have htake : ((payload :: rest).take n).take batch.encrypted =
      (payload :: rest).take batch.encrypted := by
    rw [List.take_take, Nat.min_eq_left (hle.trans (List.length_take_le _ _))]
  rw [htake] at henc
  refine ⟨henc.idle hidle, fun h => ?_⟩
  exact (hidle.machine (henc.machine hp).1).2 (hstall h)

/-- The sending loop encrypts an initial run of its payloads, and leaves some
only when the machine is blocked. -/
theorem sendBatches_encrypts (now : Instant) (gsoSegments : ℕ) {a : Actor C}
    (hp : a.machine.Healthy) (payloads : List Bytes) (sent encryptedAny : Bool) :
    ∃ done,
      payloads = done ++ (a.sendBatches now gsoSegments payloads sent encryptedAny).rest ∧
      Encrypts now done a (a.sendBatches now gsoSegments payloads sent encryptedAny).actor ∧
      ((a.sendBatches now gsoSegments payloads sent encryptedAny).rest ≠ [] →
        (a.sendBatches now gsoSegments payloads sent encryptedAny).actor.machine.Blocked now) := by
  fun_induction sendBatches now gsoSegments a payloads sent encryptedAny with
  | case1 a sent encryptedAny => exact ⟨[], rfl, .of_idle (.refl a), fun h => absurd rfl h⟩
  | case2 a sent encryptedAny payload rest segmentSize maxSegments n batch left sent' any' hstall =>
      obtain ⟨henc, hblocked⟩ := batch_encrypts now maxSegments hp payload rest n batch rfl rfl
      exact ⟨_, (List.take_append_drop _ _).symm, henc, fun _ => hblocked hstall⟩
  | case3 a sent encryptedAny payload rest segmentSize maxSegments n batch left sent' any' hgo ih =>
      obtain ⟨henc, -⟩ := batch_encrypts now maxSegments hp payload rest n batch rfl rfl
      obtain ⟨done, hleft, hrest, hblocked⟩ := ih (henc.machine hp).1
      refine ⟨(payload :: rest).take batch.encrypted ++ done, ?_, henc.trans hrest, hblocked⟩
      rw [List.append_assoc, ← hleft]
      exact (List.take_append_drop _ _).symm

/-! ### Operations that move payloads -/

/-- A relation that is also kept where payloads are encrypted, staged, or
taken from the queue. -/
structure Flows (R : Actor C → Actor C → Prop) : Prop extends Kept R where
  encrypted : ∀ {a : Actor C} {now : Instant} {payload out buf : Bytes} {n : ℕ} {machine : Peer C},
    a.machine.encrypt now payload out = (.ok n, machine, buf) →
    R a { a with
      machine := machine
      sealed := a.sealed ++ [.payload payload]
      ledger := a.ledger ++ [(payload, .encrypted)] }
  stageOne : ∀ (a : Actor C) (payload : Bytes), R a (a.stageOne payload)
  take : ∀ a : Actor C, R a { a with staged := [] }

namespace Flows

variable {R : Actor C → Actor C → Prop} (hR : Flows R)
include hR

theorem encryptBatch (now : Instant) (segmentSize : ℕ) (a : Actor C) (payloads : List Bytes) :
    R a (Actor.encryptBatch now segmentSize a payloads).actor := by
  induction payloads generalizing a with
  | nil => exact hR.refl a
  | cons payload rest ih =>
      rw [Actor.encryptBatch]
      split
      · rename_i heq
        exact hR.encrypt heq rfl ⟨⟨rfl, rfl, rfl, rfl⟩, id, rfl⟩
      · rename_i heq
        exact hR.trans (hR.encrypted heq) (ih _)

theorem sendBatches (now : Instant) (gsoSegments : ℕ) (a : Actor C) (payloads : List Bytes)
    (sent encryptedAny : Bool) :
    R a (a.sendBatches now gsoSegments payloads sent encryptedAny).actor := by
  fun_induction Actor.sendBatches now gsoSegments a payloads sent encryptedAny with
  | case1 a sent encryptedAny => exact hR.refl a
  | case2 a sent encryptedAny payload rest segmentSize maxSegments n batch left sent' any' hstall =>
      exact hR.trans (hR.encryptBatch now segmentSize a _) (hR.batchSend batch segmentSize)
  | case3 a sent encryptedAny payload rest segmentSize maxSegments n batch left sent' any' hgo ih =>
      exact hR.trans
        (hR.trans (hR.encryptBatch now segmentSize a _) (hR.batchSend batch segmentSize)) ih

theorem stage (a : Actor C) (payloads : List Bytes) : R a (a.stage payloads) := by
  induction payloads generalizing a with
  | nil => exact hR.refl a
  | cons payload rest ih => exact hR.trans (hR.stageOne a payload) (ih _)

theorem flushSends (a : Actor C) (payloads : List Bytes) : R a (a.flushSends payloads) := by
  unfold Actor.flushSends
  split
  · exact hR.refl a
  extract_lets now a₁ gsoSegments env a₂ p a₃ rekey' a₄
  have hread : R a a₂ :=
    hR.trans (hR.tick a) (hR.frame rfl rfl ⟨⟨rfl, rfl, rfl, rfl⟩, id, rfl⟩)
  have hsent : R a a₃ := hR.trans hread (hR.sendBatches now gsoSegments a₂ payloads _ _)
  split
  · rename_i hrest
    -- a payload was left, so the machine cannot encrypt
    have hlose : R a { a₃ with session := none } := by
      refine hR.lose hsent fun hp hclock => ?_
      obtain ⟨done, -, henc, hblocked⟩ := sendBatches_encrypts now gsoSegments (a := a₂) hp
        payloads false false
      exact (hblocked hrest).mono ((hclock 0).trans (henc.clock hclock.tail).2)
    exact hR.trans (hR.trans hlose (hR.stage _ _)) (hR.ensureHandshake _)
  · split
    · have hlast : R a a₄ := hR.trans hsent (hR.frame rfl rfl ⟨⟨rfl, rfl, rfl, rfl⟩, id, rfl⟩)
      split
      · exact hR.trans hlast (hR.rekey a₄ now rekey')
      · rename_i session hsession
        extract_lets session' a₅ rekey''
        have htimer : R a₄ a₅ := by
          refine hR.frame rfl rfl ⟨⟨rfl, rfl, rfl, rfl⟩, id, ?_⟩
          rw [hsession]
          rfl
        exact hR.trans (hR.trans hlast htimer) (hR.rekey a₅ now rekey'')
    · exact hR.trans hsent (hR.rekey a₃ now rekey')

theorem flushStaged (a : Actor C) : R a a.flushStaged := by
  unfold Actor.flushStaged
  split
  · exact hR.refl a
  · exact hR.trans (hR.take a) (hR.flushSends _ _)

theorem sessionEstablished (a : Actor C) (initiator : Bool) :
    R a (a.sessionEstablished initiator) := by
  unfold Actor.sessionEstablished
  extract_lets hadStaged a₁ a₂
  have hkeepalive : R a₁ a₂ := by
    show R a₁ (if initiator && !hadStaged then a₁.sendKeepalive else a₁)
    split
    · exact hR.sendKeepalive a₁
    · exact hR.refl a₁
  exact hR.trans (hR.trans (hR.flushStaged a) hkeepalive)
    (hR.frame rfl rfl ⟨⟨rfl, rfl, rfl, rfl⟩, id, rfl⟩)

end Flows

end Actor

end Tunstile
