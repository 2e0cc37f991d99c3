/-
Tunstile/Router.lean

Peer registry and receiver-index routing (`tunnel/src/router.rs`).

The registry maps a public key to the channel of the peer's actor and is
shared; the index router is owned by the read loop and changes only through
`Control` messages, applied in the order they were queued.  A channel is
known by its identity, which is all `same_channel` compares: a key that is
registered again gets a new one.
-/
import Tunstile.Crypto
import Mathlib.Logic.Function.Basic

namespace Tunstile

section Tables

variable {α β : Type*} [DecidableEq α] {table : α → Option β} {key key' : α} {value : β}

/-- An entry of an updated table is the new one, or an old one. -/
theorem update_cases {new : Option β} (h : Function.update table key new key' = some value) :
    (key' = key ∧ new = some value) ∨ (key' ≠ key ∧ table key' = some value) := by
  by_cases heq : key' = key
  · subst heq
    exact Or.inl ⟨rfl, (Function.update_self key' new table).symm.trans h⟩
  · exact Or.inr ⟨heq, (Function.update_of_ne heq new table).symm.trans h⟩

/-- What a removal leaves is the entry of another key. -/
theorem of_update_none (h : Function.update table key none key' = some value) :
    key' ≠ key ∧ table key' = some value := by
  rcases update_cases h with ⟨-, hnew⟩ | hold
  · cases hnew
  · exact hold

end Tables

/-- The identity of an actor's action channel. -/
abbrev Channel := ℕ

/-- An index-routing update for the read loop's `IndexRouter`. -/
inductive Control where
  /-- Route `index` to the registered peer's actor if no other peer holds it. -/
  | bind (peerKey : PublicKey) (index : UInt32)
  /-- Stop routing `index` if it still routes to this peer. -/
  | retire (peerKey : PublicKey) (index : UInt32)
  /-- Drop every index routed to this removed peer's actor. -/
  | purge (actions : Channel)
  deriving DecidableEq

/-- The index a message is about. -/
def Control.index : Control → Option UInt32
  | .bind _ index => some index
  | .retire _ index => some index
  | .purge _ => none

/-- The registered peers, each with the channel of its actor. -/
structure RoutingTable where
  peers : PublicKey → Option Channel

namespace RoutingTable

def new : RoutingTable := ⟨fun _ => none⟩

def entry (t : RoutingTable) (peerKey : PublicKey) : Option Channel := t.peers peerKey

/-- Registers `peerKey` with the new channel `actions`, unless it is
registered already. -/
def registerPeer (t : RoutingTable) (peerKey : PublicKey) (actions : Channel) :
    Option RoutingTable :=
  if (t.peers peerKey).isSome then none
  else some ⟨Function.update t.peers peerKey (some actions)⟩

/-- Takes `peerKey` out of the registry; the purge still to be sent is
returned. -/
def removePeer (t : RoutingTable) (peerKey : PublicKey) : Option Control × RoutingTable :=
  match t.peers peerKey with
  | none => (none, t)
  | some actions => (some (.purge actions), ⟨Function.update t.peers peerKey none⟩)

end RoutingTable

/-- Receiver-index routing, owned by the read loop. -/
structure IndexRouter where
  indices : UInt32 → Option Channel

namespace IndexRouter

def new : IndexRouter := ⟨fun _ => none⟩

def apply (r : IndexRouter) (control : Control) (peers : RoutingTable) : IndexRouter :=
  match control with
  | .bind peerKey index =>
      match peers.entry peerKey with
      | none => r
      | some actions =>
          if (r.indices index).isSome then r
          else ⟨Function.update r.indices index (some actions)⟩
  | .retire peerKey index =>
      match peers.entry peerKey with
      | none => r
      | some actions =>
          if r.indices index = some actions then ⟨Function.update r.indices index none⟩ else r
  | .purge actions => ⟨fun index => (r.indices index).filter fun sender => sender ≠ actions⟩

/-- A message about another index, and a purge of another channel, leave a
route as it is. -/
theorem indices_apply_of_ne {r : IndexRouter} {control : Control} {peers : RoutingTable}
    {index : UInt32} (hindex : control.index ≠ some index)
    (hpurge : ∀ actions, control = .purge actions → r.indices index ≠ some actions) :
    (r.apply control peers).indices index = r.indices index := by
  cases control with
  | bind peerKey i =>
      have hne : index ≠ i := fun h => hindex (congrArg some h.symm)
      simp only [apply]
      split
      · rfl
      · split
        · rfl
        · exact Function.update_of_ne hne _ _
  | retire peerKey i =>
      have hne : index ≠ i := fun h => hindex (congrArg some h.symm)
      simp only [apply]
      split
      · rfl
      · split
        · exact Function.update_of_ne hne _ _
        · rfl
  | purge actions =>
      cases hroute : r.indices index with
      | none => simp [apply, hroute]
      | some sender =>
          have hne : sender ≠ actions := fun h => hpurge actions rfl (h ▸ hroute)
          simp [apply, hroute, hne]

/-- A bind routes an index that has no route. -/
theorem indices_apply_bind {r : IndexRouter} {peers : RoutingTable} {peerKey : PublicKey}
    {index : UInt32} {actions : Channel} (hentry : peers.entry peerKey = some actions)
    (hnone : r.indices index = none) :
    (r.apply (.bind peerKey index) peers).indices index = some actions := by
  simp [apply, hentry, hnone]

/-- Where a route comes from: it was there and neither purged nor retired, or
a bind found the channel in the registry. -/
theorem indices_apply_cases {r : IndexRouter} {control : Control} {peers : RoutingTable}
    {index : UInt32} {actions : Channel}
    (h : (r.apply control peers).indices index = some actions) :
    (r.indices index = some actions ∧ control ≠ .purge actions ∧
        ∀ peerKey, control = .retire peerKey index → peers.entry peerKey ≠ some actions) ∨
      ∃ peerKey, control = .bind peerKey index ∧ peers.entry peerKey = some actions := by
  by_cases hindex : control.index = some index
  · cases control with
    | bind peerKey i =>
        cases hindex
        simp only [apply] at h
        split at h
        · exact Or.inl ⟨h, nofun, nofun⟩
        · rename_i found hentry
          split at h
          · exact Or.inl ⟨h, nofun, nofun⟩
          · have hnew := (Function.update_self index (some found) r.indices).symm.trans h
            exact Or.inr ⟨peerKey, rfl, hentry.trans hnew⟩
    | retire peerKey i =>
        cases hindex
        simp only [apply] at h
        split at h
        · rename_i hentry
          refine Or.inl ⟨h, nofun, ?_⟩
          rintro _ ⟨⟩
          rw [hentry]
          exact (Option.some_ne_none actions).symm
        · rename_i found hentry
          split at h
          · cases (Function.update_self index none r.indices).symm.trans h
          · rename_i hne
            refine Or.inl ⟨h, nofun, ?_⟩
            rintro _ ⟨⟩ hfound
            rw [hentry] at hfound
            exact hne (h.trans hfound.symm)
    | purge gone => cases hindex
  · have hretire (peerKey : PublicKey) : control ≠ .retire peerKey index := by
      rintro rfl
      exact hindex rfl
    by_cases hpurge : control = .purge actions
    · subst hpurge
      have hne := (Option.filter_eq_some_iff.mp h).2
      exact absurd rfl (of_decide_eq_true hne)
    · refine Or.inl ⟨?_, hpurge, fun peerKey hr => absurd hr (hretire peerKey)⟩
      -- a purge leaves the routes of other channels
      cases control with
      | purge gone => exact (Option.filter_eq_some_iff.mp h).1
      | bind | retire => exact (indices_apply_of_ne hindex nofun).symm.trans h

end IndexRouter

end Tunstile
