/-
Tunstile/Deeds.lean

What a driver does, as it is seen from outside.

A driver keeps schedules, stages payloads and reads clocks, and from time to
time it does something: it makes its machine seal payloads and sends them in
one batch, it answers an initiation, it opens a message and delivers what was
in it.  `Deed` lists these, each with its inputs and what came out of it, and
`Does` says what each of them adds to what was sealed, sent, delivered and
counted.  A call of the machine that fails is no deed: it changes nothing.

A deed that finishes a handshake stands with the keys that came of it, and one
that seals or opens with the key it used.  Its control messages are the reports
of its calls, in order (`Follows`).

`Acts` shows that every turn of the event loop is a trace of deeds and of
bookkeeping between them.  What holds of all that a driver has sent, delivered
or counted is therefore proved deed by deed.
-/
import Tunstile.Moves

namespace Tunstile

variable {C : Crypto}

/-! ### Calls of the machine -/

namespace Peer

theorem healthy_of_step {p p' : Peer C} {op : Op C} {o : Outcome} (hp : p.Healthy)
    (h : p.step op = (o, p')) : p'.Healthy := by
  have hnext := healthy_step hp op
  rwa [h] at hnext

/-- The machine seals payloads one after the other into buffers of one
size. -/
inductive Seals (now : Instant) (size : ℕ) : Peer C → List Bytes → List Bytes → Peer C → Prop where
  | nil (p : Peer C) : Seals now size p [] [] p
  | cons {p q p' : Peer C} {payload packet : Bytes} {payloads packets : List Bytes} {n : ℕ}
      (h : p.step (.encrypt now payload (List.replicate size 0)) = (.encrypted n packet, q))
      (hrest : Seals now size q payloads packets p') :
      Seals now size p (payload :: payloads) (packet :: packets) p'

theorem step_encrypt_of_ok {p p' : Peer C} {now : Instant} {payload out packet : Bytes} {n : ℕ}
    (h : p.encrypt now payload out = (.ok n, p', packet)) :
    p.step (.encrypt now payload out) = (.encrypted n packet, p') := by
  rw [step, h]

theorem encrypt_of_step {p p' : Peer C} {now : Instant} {payload out packet : Bytes} {n : ℕ}
    (h : p.step (.encrypt now payload out) = (.encrypted n packet, p')) :
    p.encrypt now payload out = (.ok n, p', packet) := by
  rw [step] at h
  split at h
  · cases h
  · rename_i heq
    cases h
    exact heq

theorem length_of_step_encrypt {p p' : Peer C} {now : Instant} {payload out packet : Bytes} {n : ℕ}
    (h : p.step (.encrypt now payload out) = (.encrypted n packet, p')) :
    packet.length = out.length := by
  have hlen := p.length_encrypt now payload out
  rwa [encrypt_of_step h] at hlen

namespace Seals

variable {now : Instant} {size : ℕ} {p p' : Peer C} {payloads packets : List Bytes}

theorem length_of_mem (h : Seals now size p payloads packets p') {packet : Bytes}
    (hmem : packet ∈ packets) : packet.length = size := by
  induction h with
  | nil => cases hmem
  | cons hstep hrest ih =>
      rcases List.mem_cons.mp hmem with rfl | hmem
      · rw [length_of_step_encrypt hstep, List.length_replicate]
      · exact ih hmem

/-- Sealing changes the send session only. -/
theorem frame (h : Seals now size p payloads packets p') :
    ∃ current, p' = { p with current := current } := by
  induction h with
  | nil p => exact ⟨p.current, rfl⟩
  | cons hstep hrest ih =>
      obtain ⟨⟨current, rfl⟩, -⟩ := encrypt_frame (encrypt_of_step hstep)
      obtain ⟨current', rfl⟩ := ih
      exact ⟨current', rfl⟩

theorem endpoint_eq (h : Seals now size p payloads packets p') : p'.endpoint = p.endpoint := by
  obtain ⟨current, rfl⟩ := h.frame
  rfl

/-- Nothing is sealed without an endpoint. -/
theorem exists_endpoint (h : Seals now size p payloads packets p') (hne : payloads ≠ []) :
    ∃ endpoint, p.endpoint = some endpoint := by
  cases h with
  | nil => exact absurd rfl hne
  | cons hstep hrest =>
      obtain ⟨-, hok⟩ := encrypt_frame (encrypt_of_step hstep)
      exact Option.isSome_iff_exists.mp (hok _ rfl).1

theorem healthy (h : Seals now size p payloads packets p') (hp : p.Healthy) : p'.Healthy := by
  induction h with
  | nil => exact hp
  | cons hstep hrest ih => exact ih (healthy_of_step hp hstep)

end Seals

end Peer

/-- Calls that may give a peer a send session. -/
def Peer.Op.establishes : Peer.Op C → Bool
  | .handshakeResponse _ _ _ _ | .decrypt _ _ _ _ => true
  | _ => false

namespace Peer.Effect

variable {p p' : Peer C}

/-- Only these calls give a send session, and no call takes it away. -/
theorem current_cases {op : Peer.Op C} {o : Peer.Outcome} (h : p.Effect op o p') :
    p'.current.isSome = p.current.isSome ∨ op.establishes = true ∧ p'.current.isSome = true := by
  cases h with
  | answered => exact Or.inr ⟨rfl, rfl⟩
  | confirmed => exact Or.inr ⟨rfl, rfl⟩
  | received k =>
      cases k with
      | current => exact Or.inr ⟨rfl, rfl⟩
      | _ => exact Or.inl rfl
  | encrypted session hendpoint hcurrent =>
      rw [hcurrent]
      exact Or.inl rfl
  | _ => exact Or.inl rfl

/-- An accepted response gives one. -/
theorem current_of_rotated {ourKey : C.Secret} {now : Instant} {packet : Bytes}
    {source : SocketAddr} {retired : Option UInt32}
    (h : p.Effect (.handshakeResponse ourKey now packet source) (.rotated retired) p') :
    p'.current.isSome = true := by
  cases h
  rfl

/-- A data message gives one if it confirms a session. -/
theorem current_of_decrypted {now : Instant} {receiver : UInt32} {packet opened : Bytes}
    {source : SocketAddr} {recv : Recv}
    (h : p.Effect (.decrypt now receiver packet source) (.decrypted recv opened) p') :
    p'.current.isSome = (recv.confirmed || p.current.isSome) := by
  cases h with
  | confirmed => rfl
  | received k session counter payload replay hk hslot =>
      cases k with
      | next => exact absurd rfl hk
      | current =>
          have hcurrent : p.current = some session := hslot
          rw [hcurrent]
          rfl
      | previous => rfl

end Peer.Effect

theorem Peer.Seals.current_eq {now : Instant} {size : ℕ} {p p' : Peer C}
    {payloads packets : List Bytes} (h : p.Seals now size payloads packets p') (hp : p.Healthy) :
    p'.current.isSome = p.current.isSome := by
  induction h with
  | nil => rfl
  | cons hstep hrest ih =>
      have hcases := (Peer.effect_of_step hp.wellFormed hstep).current_cases
      exact (ih (Peer.healthy_of_step hp hstep)).trans
        (hcases.resolve_right fun h => Bool.false_ne_true h.1)

/-! ### Keys -/

/-- The keys of a session. -/
structure SessionKeys (C : Crypto) where
  send : C.Hash256
  recv : C.Hash256

def Session.keys (x : Session C) : SessionKeys C := ⟨x.transport.sendAead, x.transport.recvAead⟩

namespace Peer

/-- The keys that this peer would answer an initiation with. -/
def nextKeys (p : Peer C) : Option (SessionKeys C) := p.next.map Session.keys

def currentKeys (p : Peer C) : Option (SessionKeys C) := p.current.map Session.keys

/-- The keys of the session that messages for `receiver` belong to. -/
def matchingKeys (p : Peer C) (receiver : UInt32) : Option (SessionKeys C) :=
  (p.matching receiver).map fun x => x.2.keys

namespace Effect

variable {p p' : Peer C} {now : Instant}

theorem exists_nextKeys {handshake : InitReceived C} {values : HandshakeValues C}
    {source : SocketAddr} {out msg : Bytes} {displaced : Option UInt32}
    (h : p.Effect (.respond now handshake values source out) (.written displaced msg) p') :
    ∃ keys, p'.nextKeys = some keys := by
  cases h
  exact ⟨_, rfl⟩

theorem exists_currentKeys {ourKey : C.Secret} {packet : Bytes} {source : SocketAddr}
    {retired : Option UInt32}
    (h : p.Effect (.handshakeResponse ourKey now packet source) (.rotated retired) p') :
    ∃ keys, p'.currentKeys = some keys := by
  cases h
  exact ⟨_, rfl⟩

theorem exists_sendKeys {payload out packet : Bytes} {n : ℕ}
    (h : p.Effect (.encrypt now payload out) (.encrypted n packet) p') :
    ∃ keys, p.currentKeys = some keys := by
  cases h with
  | encrypted session hendpoint hcurrent => exact ⟨_, congrArg (Option.map Session.keys) hcurrent⟩

theorem exists_matchingKeys {receiver : UInt32} {packet opened : Bytes} {source : SocketAddr}
    {recv : Recv}
    (h : p.Effect (.decrypt now receiver packet source) (.decrypted recv opened) p') :
    ∃ keys, p.matchingKeys receiver = some keys := by
  unfold matchingKeys
  cases h with
  | confirmed _ _ _ _ _ _ _ _ hmatch | received _ _ _ _ _ _ _ _ _ _ hmatch =>
      rw [hmatch]
      exact ⟨_, rfl⟩

end Effect

/-- Nothing is sealed without a send session. -/
theorem Seals.exists_sendKeys {now : Instant} {size : ℕ} {p p' : Peer C}
    {payloads packets : List Bytes} (h : p.Seals now size payloads packets p')
    (hp : p.WellFormed) (hne : payloads ≠ []) : ∃ keys, p.currentKeys = some keys := by
  cases h with
  | nil => exact absurd rfl hne
  | cons hstep hrest => exact (effect_of_step hp hstep).exists_sendKeys

end Peer

/-! ### Deeds -/

/-- What an update sets a setting to. -/
def Update.value {α : Type} : Update α → Option (Option α)
  | .keep => none
  | .clear => some none
  | .set a => some (some a)

/-- What a driver does.  What it sends stands as it was handed to the socket,
with the keys that it derived or used. -/
inductive Deed (C : Crypto) where
  | endpointSet (endpoint : SocketAddr)
  | presharedKeySet (presharedKey : Option PresharedKey)
  | cookieStored (reply : Bytes) (timestamp : C.Tai64N)
  | initiated (values : HandshakeValues C) (d : Datagrams)
  | abandoned
  | responded (now : Instant) (handshake : InitReceived C) (values : HandshakeValues C)
      (d : Datagrams) (keys : SessionKeys C)
  | answered (now : Instant) (resp : Bytes) (source : SocketAddr) (keys : SessionKeys C)
  /-- One batch. -/
  | sent (now : Instant) (payloads : List Bytes) (d : Datagrams) (keys : SessionKeys C)
  | keptAlive (now : Instant) (d : Datagrams) (keys : SessionKeys C)
  /-- A data message was opened; with `taken`, there was room for its payload
  in the inbound queue. -/
  | received (now : Instant) (packet : Bytes) (receiver : UInt32) (source : SocketAddr)
      (payload : Bytes) (taken : Bool) (keys : SessionKeys C)

namespace Deed

/-- The successful calls of the machine in a deed. -/
inductive Performs (ourKey : C.Secret) (p : Peer C) : Deed C → Peer C → Prop where
  | endpointSet (endpoint : SocketAddr) :
      Performs ourKey p (.endpointSet endpoint) (p.setEndpoint endpoint)
  | presharedKeySet (presharedKey : Option PresharedKey) :
      Performs ourKey p (.presharedKeySet presharedKey) (p.setPresharedKey presharedKey)
  | cookieStored {reply : Bytes} {timestamp : C.Tai64N} {p' : Peer C}
      (h : p.step (.cookieReply reply timestamp) = (.done, p')) :
      Performs ourKey p (.cookieStored reply timestamp) p'
  | initiated {values : HandshakeValues C} {d : Datagrams} {replaced : Option UInt32} {p' : Peer C}
      (hendpoint : p.endpoint = some d.endpoint) (hsize : d.segmentSize = d.bytes.length)
      (h : p.step (.initiate ourKey values (List.replicate initMsgLength 0))
        = (.written replaced d.bytes, p')) :
      Performs ourKey p (.initiated values d) p'
  | abandoned {retired : Option UInt32} {p' : Peer C}
      (h : p.step .abandonHandshake = (.rotated retired, p')) :
      Performs ourKey p .abandoned p'
  | responded {now : Instant} {handshake : InitReceived C} {values : HandshakeValues C}
      {d : Datagrams} {keys : SessionKeys C} {displaced : Option UInt32} {p' : Peer C}
      (hsize : d.segmentSize = d.bytes.length)
      (h : p.step (.respond now handshake values d.endpoint (List.replicate respMsgLength 0))
        = (.written displaced d.bytes, p')) (hkeys : p'.nextKeys = some keys) :
      Performs ourKey p (.responded now handshake values d keys) p'
  | answered {now : Instant} {resp : Bytes} {source : SocketAddr} {keys : SessionKeys C}
      {retired : Option UInt32} {p' : Peer C}
      (h : p.step (.handshakeResponse ourKey now resp source) = (.rotated retired, p'))
      (hkeys : p'.currentKeys = some keys) :
      Performs ourKey p (.answered now resp source keys) p'
  | sent {now : Instant} {payloads packets : List Bytes} {d : Datagrams} {keys : SessionKeys C}
      {p' : Peer C} (hendpoint : p.endpoint = some d.endpoint) (hne : payloads ≠ [])
      (hsize : ∀ payload ∈ payloads, packetLen payload.length = d.segmentSize)
      (hbytes : d.bytes = packets.flatten) (h : p.Seals now d.segmentSize payloads packets p')
      (hkeys : p.currentKeys = some keys) :
      Performs ourKey p (.sent now payloads d keys) p'
  | keptAlive {now : Instant} {d : Datagrams} {keys : SessionKeys C} {n : ℕ} {p' : Peer C}
      (hendpoint : p.endpoint = some d.endpoint) (hsize : d.segmentSize = d.bytes.length)
      (h : p.step (.encrypt now [] (List.replicate (packetLen 0) 0)) = (.encrypted n d.bytes, p'))
      (hkeys : p.currentKeys = some keys) :
      Performs ourKey p (.keptAlive now d keys) p'
  | received {now : Instant} {packet : Bytes} {receiver : UInt32} {source : SocketAddr}
      {recv : Recv} {opened : Bytes} {taken : Bool} {keys : SessionKeys C} {p' : Peer C}
      (h : p.step (.decrypt now receiver packet source) = (.decrypted recv opened, p'))
      (hkeys : p.matchingKeys receiver = some keys) :
      Performs ourKey p
        (.received now packet receiver source (opened.take recv.payloadLen) taken keys) p'

/-- What a deed hands to the socket. -/
def datagram : Deed C → Option Datagrams
  | .initiated _ d => some d
  | .responded _ _ _ d _ => some d
  | .sent _ _ d _ => some d
  | .keptAlive _ d _ => some d
  | _ => none

/-- What a deed seals. -/
def sealed : Deed C → List Sealed
  | .sent _ payloads _ _ => payloads.map .payload
  | .keptAlive _ _ _ => [.keepalive]
  | _ => []

/-- What a deed delivers: keepalives, and what the full queue refuses, are
not delivered. -/
def delivered : Deed C → List Bytes
  | .received _ _ _ _ payload taken _ => if payload ≠ [] ∧ taken = true then [payload] else []
  | _ => []

/-- What a deed does to the published status.  The counters wrap. -/
def count (status : PeerStatus) : Deed C → PeerStatus
  | .endpointSet endpoint => { status with endpoint := some endpoint }
  | .responded _ _ _ d _ =>
      -- nothing is counted for an initiation whose response was not taken
      if d.taken then
        ⟨some d.endpoint, status.txBytes + UInt64.ofNat d.bytes.length,
          status.rxBytes + UInt64.ofNat initMsgLength⟩
      else status
  | .answered _ resp source _ =>
      ⟨some source, status.txBytes, status.rxBytes + UInt64.ofNat resp.length⟩
  | .received _ packet _ source _ _ _ =>
      ⟨some source, status.txBytes, status.rxBytes + UInt64.ofNat packet.length⟩
  | .initiated _ d | .sent _ _ d _ | .keptAlive _ d _ =>
      if d.taken then { status with txBytes := status.txBytes + UInt64.ofNat d.bytes.length }
      else status
  | .presharedKeySet _ | .cookieStored _ _ | .abandoned => status

/-- The message that a deed is the answer to, as the action that brings it. -/
def message : Deed C → Option (PeerAction C)
  | .cookieStored reply _ => some (.recvCookieReply reply)
  | .responded _ handshake _ d _ => some (.recvHandshakeInit handshake d.endpoint)
  | .answered _ resp source _ => some (.recvHandshakeResp resp source)
  | .received _ packet receiver source _ _ _ => some (.recvData packet receiver source)
  | _ => none

/-- What a driver does on its own account, or with payloads. -/
def own : Deed C → Bool
  | .initiated _ _ | .abandoned | .sent _ _ _ _ | .keptAlive _ _ _ => true
  | _ => false

theorem Performs.healthy {ourKey : C.Secret} {p p' : Peer C} {deed : Deed C}
    (h : deed.Performs ourKey p p') (hp : p.Healthy) : p'.Healthy := by
  cases h with
  | endpointSet endpoint => exact Peer.healthy_step hp (.setEndpoint endpoint)
  | presharedKeySet presharedKey => exact Peer.healthy_step hp (.setPresharedKey presharedKey)
  | sent _ _ _ _ h _ => exact h.healthy hp
  | cookieStored h => exact Peer.healthy_of_step hp h
  | initiated _ _ h => exact Peer.healthy_of_step hp h
  | abandoned h => exact Peer.healthy_of_step hp h
  | responded _ h _ => exact Peer.healthy_of_step hp h
  | answered h _ => exact Peer.healthy_of_step hp h
  | keptAlive _ _ h _ => exact Peer.healthy_of_step hp h
  | received h _ => exact Peer.healthy_of_step hp h

/-- Deeds that may give the machine a send session. -/
def establishes : Deed C → Bool
  | .answered _ _ _ _ | .received _ _ _ _ _ _ _ => true
  | _ => false

theorem establishes_of_own {deed : Deed C} (h : deed.own = true) : deed.establishes = false := by
  cases deed <;> first | rfl | cases h

/-- Only these deeds give a send session, and no deed takes it away. -/
theorem Performs.current_cases {ourKey : C.Secret} {p p' : Peer C} {deed : Deed C}
    (h : deed.Performs ourKey p p') (hp : p.Healthy) :
    p'.current.isSome = p.current.isSome ∨ deed.establishes = true ∧ p'.current.isSome = true := by
  have hstep {op : Peer.Op C} {o : Peer.Outcome} {q : Peer C} (h : p.step op = (o, q)) :
      q.current.isSome = p.current.isSome ∨ op.establishes = true ∧ q.current.isSome = true :=
    (Peer.effect_of_step hp.wellFormed h).current_cases
  cases h with
  | endpointSet endpoint => exact Or.inl rfl
  | presharedKeySet presharedKey => exact Or.inl rfl
  | sent _ _ _ _ h _ => exact Or.inl (h.current_eq hp)
  | cookieStored h => exact hstep h
  | initiated _ _ h => exact hstep h
  | abandoned h => exact hstep h
  | responded _ h _ => exact hstep h
  | answered h _ => exact hstep h
  | keptAlive _ _ h _ => exact hstep h
  | received h _ => exact hstep h

/-- No deed changes whose machine it is. -/
theorem Performs.peerKey_eq {ourKey : C.Secret} {p p' : Peer C} {deed : Deed C}
    (h : deed.Performs ourKey p p') (hp : p.Healthy) : p'.peerKey = p.peerKey := by
  have hstep {op : Peer.Op C} {o : Peer.Outcome} {q : Peer C} (h : p.step op = (o, q)) :
      q.peerKey = p.peerKey := (Peer.effect_of_step hp.wellFormed h).peerKey_eq
  cases h with
  | endpointSet endpoint => rfl
  | presharedKeySet presharedKey => rfl
  | sent _ _ _ _ h _ =>
      obtain ⟨current, rfl⟩ := h.frame
      rfl
  | cookieStored h => exact hstep h
  | initiated _ _ h => exact hstep h
  | abandoned h => exact hstep h
  | responded _ h _ => exact hstep h
  | answered h _ => exact hstep h
  | keptAlive _ _ h _ => exact hstep h
  | received h _ => exact hstep h

end Deed

/-! ### What the deeds of a turn carry out -/

/-- The settings that an action makes, whatever happens. -/
def PeerAction.settings : PeerAction C → List (Deed C)
  | .connect endpoint => [.endpointSet endpoint]
  | .update changes =>
      changes.presharedKey.value.toList.map .presharedKeySet ++
        changes.endpoint.toList.map .endpointSet
  | _ => []

/-- The deeds carry out the actions, one after the other: each action makes
its settings, or brings a message that is answered, ignored if it is refused.
In between the driver acts on its own. -/
inductive Carries : List (PeerAction C) → List (Deed C) → Prop where
  | nil : Carries [] []
  | own {actions : List (PeerAction C)} {log : List (Deed C)} (deed : Deed C)
      (hown : deed.own = true) (h : Carries actions log) : Carries actions (deed :: log)
  | settings {actions : List (PeerAction C)} {log : List (Deed C)} (action : PeerAction C)
      (h : Carries actions log) : Carries (action :: actions) (action.settings ++ log)
  | message {actions : List (PeerAction C)} {log : List (Deed C)} {action : PeerAction C}
      (deed : Deed C) (hmessage : deed.message = some action) (h : Carries actions log) :
      Carries (action :: actions) (deed :: log)

theorem Carries.append {actions actions' : List (PeerAction C)} {log log' : List (Deed C)}
    (h : Carries actions log) (h' : Carries actions' log') :
    Carries (actions ++ actions') (log ++ log') := by
  induction h with
  | nil => exact h'
  | own deed hown _ ih => exact .own deed hown ih
  | settings action _ ih =>
      rw [List.append_assoc]
      exact .settings action ih
  | message deed hmessage _ ih => exact .message deed hmessage ih

theorem Carries.of_settings (action : PeerAction C) : Carries [action] action.settings := by
  have h := Carries.settings action .nil
  rwa [List.append_nil] at h

/-- The deed is one of the driver's own, or carries out one of the actions. -/
def Deed.Caused (actions : List (PeerAction C)) (deed : Deed C) : Prop :=
  deed.own = true ∨ ∃ action ∈ actions, deed ∈ action.settings ∨ deed.message = some action

namespace Deed.Caused

variable {actions : List (PeerAction C)}

theorem mono {actions' : List (PeerAction C)} {deed : Deed C} (h : deed.Caused actions)
    (hsub : actions ⊆ actions') : deed.Caused actions' :=
  h.imp id fun ⟨action, hmem, hdeed⟩ => ⟨action, hsub hmem, hdeed⟩

theorem responded {now : Instant} {handshake : InitReceived C} {values : HandshakeValues C}
    {d : Datagrams} {keys : SessionKeys C}
    (h : (Deed.responded now handshake values d keys).Caused actions) :
    .recvHandshakeInit handshake d.endpoint ∈ actions := by
  rcases h with hown | ⟨action, hmem, hset | hmessage⟩
  · cases hown
  · cases action <;> simp [PeerAction.settings] at hset
  · exact Option.some.inj hmessage ▸ hmem

theorem presharedKeySet {presharedKey : Option PresharedKey}
    (h : (Deed.presharedKeySet presharedKey : Deed C).Caused actions) :
    ∃ update, .update update ∈ actions ∧ update.presharedKey.value = some presharedKey := by
  rcases h with hown | ⟨action, hmem, hset | hmessage⟩
  · cases hown
  · cases action with
    | update changes =>
        refine ⟨changes, hmem, ?_⟩
        simpa [PeerAction.settings] using hset
    | _ => simp [PeerAction.settings] at hset
  · cases hmessage

end Deed.Caused

theorem Carries.caused {actions : List (PeerAction C)} {log : List (Deed C)}
    (h : Carries actions log) {deed : Deed C} (hmem : deed ∈ log) : deed.Caused actions := by
  induction h with
  | nil => cases hmem
  | own deed' hown _ ih =>
      rcases List.mem_cons.mp hmem with rfl | hmem
      · exact Or.inl hown
      · exact ih hmem
  | settings action _ ih =>
      rcases List.mem_append.mp hmem with hmem | hmem
      · exact Or.inr ⟨action, List.mem_cons_self, Or.inl hmem⟩
      · exact (ih hmem).mono (List.subset_cons_self _ _)
  | message deed' hmessage _ ih =>
      rcases List.mem_cons.mp hmem with rfl | hmem
      · exact Or.inr ⟨_, List.mem_cons_self, Or.inr hmessage⟩
      · exact (ih hmem).mono (List.subset_cons_self _ _)

namespace Peer

/-- The reports of some operations in turn. -/
def reportsOf : Peer C → List (Op C) → List Control
  | _, [] => []
  | p, op :: ops => p.reports op ++ reportsOf (p.step op).2 ops

theorem reportsOf_append (p : Peer C) (ops ops' : List (Op C)) :
    p.reportsOf (ops ++ ops') = p.reportsOf ops ++ (p.run ops).reportsOf ops' := by
  induction ops generalizing p with
  | nil => rfl
  | cons op ops ih =>
      show p.reports op ++ (p.step op).2.reportsOf (ops ++ ops') = _
      rw [ih, ← List.append_assoc]
      rfl

/-- Sealing reports nothing. -/
theorem Seals.exists_ops {now : Instant} {size : ℕ} {p p' : Peer C}
    {payloads packets : List Bytes} (h : p.Seals now size payloads packets p') :
    ∃ ops, p' = p.run ops ∧ p.reportsOf ops = [] := by
  induction h with
  | nil p => exact ⟨[], rfl, rfl⟩
  | @cons p q p' payload packet payloads packets n hstep hrest ih =>
      obtain ⟨ops, hrun, hreports⟩ := ih
      refine ⟨.encrypt now payload (List.replicate size 0) :: ops, ?_, ?_⟩
      · show p' = (p.step _).2.run ops
        rw [hstep, hrun]
      · rw [reportsOf, reports, hstep, hreports]
        rfl

end Peer

namespace Actor

/-! ### Acts -/

/-- Between `a` and `a'` the machine performed some operations, and the
control messages sent are their reports. -/
def Follows (a a' : Actor C) : Prop :=
  a.machine.WellFormed → ∃ ops, a'.machine = a.machine.run ops ∧
    a'.control = a.control ++ a.machine.reportsOf ops

namespace Follows

/-- What touches neither the machine nor the control channel. -/
theorem of_eq {a a' : Actor C} (hm : a'.machine = a.machine) (hc : a'.control = a.control) :
    Follows a a' := fun _ => ⟨[], hm, hc.trans (List.append_nil _).symm⟩

theorem trans {a b c : Actor C} (h : Follows a b) (h' : Follows b c) : Follows a c := by
  intro hp
  obtain ⟨ops, hm, hcontrol⟩ := h hp
  obtain ⟨ops', hm', hcontrol'⟩ := h' (hm ▸ Peer.wellFormed_run hp ops)
  refine ⟨ops ++ ops', ?_, ?_⟩
  · rw [hm', hm, Peer.run_append]
  · rw [hcontrol', hcontrol, hm, Peer.reportsOf_append, List.append_assoc]

/-- One operation, followed by its reports under the key of the machine. -/
theorem call {a a' : Actor C} {op : Peer.Op C} {o : Peer.Outcome} {p : Peer C}
    (h : a.machine.step op = (o, p)) (hm : a'.machine = p)
    (hc : a'.control = a.control ++ (o.returned.toList.map (.retire p.peerKey ·) ++
      (op.installed o).toList.map (.bind p.peerKey ·))) : Follows a a' := by
  intro hp
  have hkey : p.peerKey = a.machine.peerKey := (Peer.effect_of_step hp h).peerKey_eq
  refine ⟨[op], ?_, ?_⟩
  · show a'.machine = (a.machine.step op).2
    rw [hm, h]
  · rw [hc, hkey, Peer.reportsOf, Peer.reports, h, Peer.reportsOf, List.append_nil]

/-- One operation without reports. -/
theorem silent {a a' : Actor C} (op : Peer.Op C) {o : Peer.Outcome}
    (h : a.machine.step op = (o, a'.machine)) (hret : o.returned = none)
    (hinst : op.installed o = none) (hc : a'.control = a.control) : Follows a a' := by
  refine call h rfl ?_
  rw [hret, hinst, hc]
  exact (List.append_nil _).symm

/-- A rotation of the sessions reports the index it retired. -/
theorem rotated {a a' : Actor C} {op : Peer.Op C} {o : Peer.Outcome} {retired : Option UInt32}
    (h : a.machine.step op = (o, a'.machine)) (hret : o.returned = retired)
    (hinst : op.installed o = none)
    (hc : a'.control = a.control ++ retired.toList.map (.retire a'.machine.peerKey ·)) :
    Follows a a' := by
  refine call h rfl ?_
  rw [hret, hinst, hc]
  exact congrArg _ (List.append_nil _).symm

theorem seals {now : Instant} {size : ℕ} {a a' : Actor C} {payloads packets : List Bytes}
    (h : a.machine.Seals now size payloads packets a'.machine) (hc : a'.control = a.control) :
    Follows a a' := by
  intro _
  obtain ⟨ops, hrun, hreports⟩ := h.exists_ops
  exact ⟨ops, hrun, by rw [hreports, hc, List.append_nil]⟩

end Follows

/-- Between `a` and `a'` only the actor's own books changed. -/
structure Books (a a' : Actor C) : Prop where
  ourKey : a'.ourKey = a.ourKey
  machine : a'.machine = a.machine
  control : a'.control = a.control
  datagrams : a'.datagrams = a.datagrams
  inbound : a'.inbound = a.inbound
  sealed : a'.sealed = a.sealed
  status : a'.status = a.status
  ready : a'.sessionReady = a.sessionReady ∨
    a'.sessionReady = true ∧ a'.machine.current.isSome = true

/-- What a deed does to all that others see. -/
structure Does (a : Actor C) (deed : Deed C) (a' : Actor C) : Prop where
  ourKey : a'.ourKey = a.ourKey
  machine : deed.Performs a.ourKey a.machine a'.machine
  datagrams : a'.datagrams = a.datagrams ++ deed.datagram.toList
  inbound : a'.inbound = a.inbound ++ deed.delivered
  sealed : a'.sealed = a.sealed ++ deed.sealed
  status : a'.status = deed.count a.status
  ready : a'.sessionReady = a.sessionReady
  follows : Follows a a'

/-- One act: bookkeeping, or a deed. -/
inductive Act : Actor C → List (Deed C) → Actor C → Prop where
  | book {a a' : Actor C} (h : Books a a') : Act a [] a'
  | deed {a a' : Actor C} {deed : Deed C} (h : Does a deed a') : Act a [deed] a'

theorem Act.healthy {a a' : Actor C} {log : List (Deed C)} (h : Act a log a')
    (hp : a.machine.Healthy) : a'.machine.Healthy := by
  cases h with
  | book h => exact h.machine ▸ hp
  | deed h => exact h.machine.healthy hp

theorem Act.follows {a a' : Actor C} {log : List (Deed C)} (h : Act a log a') : Follows a a' := by
  cases h with
  | book h => exact .of_eq h.machine h.control
  | deed h => exact h.follows

theorem follows_of_trace {a a' : Actor C} {log : List (Deed C)} (h : Trace Act a log a') :
    Follows a a' := by
  induction h with
  | refl => exact .of_eq rfl rfl
  | tail _ hact ih => exact ih.trans hact.follows

theorem Act.current_isSome {a a' : Actor C} {log : List (Deed C)} (h : Act a log a')
    (hp : a.machine.Healthy) (hcurrent : a.machine.current.isSome = true) :
    a'.machine.current.isSome = true := by
  cases h with
  | book h => exact h.machine ▸ hcurrent
  | deed h => exact (h.machine.current_cases hp).elim (fun hsame => hsame.trans hcurrent) And.right

/-- A send session stays. -/
theorem current_of_trace {a a' : Actor C} {log : List (Deed C)} (h : Trace Act a log a')
    (hp : a.machine.Healthy) (hcurrent : a.machine.current.isSome = true) :
    a'.machine.current.isSome = true :=
  (h.keeps_state (I := fun a => a.machine.Healthy ∧ a.machine.current.isSome = true)
    (fun _ _ _ hs hact => ⟨hact.healthy hs.1, hact.current_isSome hs.1 hs.2⟩) ⟨hp, hcurrent⟩).2

/-! ### What deeds add up to -/

/-- What an actor has, all together, from a trace of acts. -/
structure Sums (a : Actor C) (log : List (Deed C)) (a' : Actor C) : Prop where
  ourKey : a'.ourKey = a.ourKey
  datagrams : a'.datagrams = a.datagrams ++ log.flatMap fun deed => deed.datagram.toList
  inbound : a'.inbound = a.inbound ++ log.flatMap Deed.delivered
  sealed : a'.sealed = a.sealed ++ log.flatMap Deed.sealed
  status : a'.status = log.foldl Deed.count a.status

theorem sums_of_trace {a a' : Actor C} {log : List (Deed C)} (h : Trace Act a log a') :
    Sums a log a' := by
  induction h with
  | refl =>
      exact ⟨rfl, (List.append_nil _).symm, (List.append_nil _).symm, (List.append_nil _).symm, rfl⟩
  | tail _ hstep ih =>
      cases hstep with
      | book h =>
          rw [List.append_nil]
          exact ⟨h.ourKey.trans ih.ourKey, h.datagrams.trans ih.datagrams,
            h.inbound.trans ih.inbound, h.sealed.trans ih.sealed, h.status.trans ih.status⟩
      | deed h =>
          refine ⟨h.ourKey.trans ih.ourKey, ?_, ?_, ?_, ?_⟩
          · rw [h.datagrams, ih.datagrams, List.flatMap_append, List.flatMap_singleton,
              List.append_assoc]
          · rw [h.inbound, ih.inbound, List.flatMap_append, List.flatMap_singleton,
              List.append_assoc]
          · rw [h.sealed, ih.sealed, List.flatMap_append, List.flatMap_singleton,
              List.append_assoc]
          · rw [h.status, ih.status, List.foldl_append]
            rfl

end Actor

end Tunstile
