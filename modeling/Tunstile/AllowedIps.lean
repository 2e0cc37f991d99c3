/-
Tunstile/AllowedIps.lean

The cryptokey routing table (`tunstile/src/allowed_ips.rs`): IP prefixes
with values, looked up by longest match.

The table is a list that is scanned, as in the source.  That its prefixes
are truncated and pairwise distinct is part of the type, so a prefix has at
most one value; `owner` reads it, and the operations are described by what
they do to every prefix's owner (`owner_insert`, `owner_retain`,
`owner_insertAll`).

`IpNet` follows the documentation of the `ipnet` crate: `trunc` clears the
bits behind the prefix, and `contains` compares the bits of the prefix
within one family.
-/
import Tunstile.Packet
import Mathlib.Data.List.Nodup

namespace Tunstile

/-! ### Prefixes -/

/-- An address of `w` bits with the length of a prefix. -/
structure Subnet (w : ℕ) where
  addr : BitVec w
  len : Fin (w + 1)
  deriving DecidableEq

namespace Subnet

variable {w : ℕ}

def netmask (s : Subnet w) : BitVec w := BitVec.allOnes w <<< (w - s.len)

def trunc (s : Subnet w) : Subnet w := { s with addr := s.addr &&& s.netmask }

def contains (s : Subnet w) (addr : BitVec w) : Bool :=
  addr &&& s.netmask == s.addr &&& s.netmask

theorem trunc_trunc (s : Subnet w) : s.trunc.trunc = s.trunc := by
  show Subnet.mk (s.addr &&& s.netmask &&& s.netmask) s.len = _
  rw [BitVec.and_assoc, BitVec.and_self]
  rfl

end Subnet

/-- The number that octets in network order stand for. -/
def fromBeOctets (octets : Bytes) : ℕ := octets.foldl (fun n octet => 256 * n + octet.toNat) 0

/-- `ipnet::IpNet`. -/
inductive IpNet where
  | v4 (net : Subnet 32)
  | v6 (net : Subnet 128)
  deriving DecidableEq

namespace IpNet

def trunc : IpNet → IpNet
  | v4 net => v4 net.trunc
  | v6 net => v6 net.trunc

def prefixLen : IpNet → ℕ
  | v4 net => net.len
  | v6 net => net.len

def contains : IpNet → IpAddr → Bool
  | v4 net, .v4 octets => net.contains (BitVec.ofNat 32 (fromBeOctets octets.toList))
  | v6 net, .v6 octets => net.contains (BitVec.ofNat 128 (fromBeOctets octets.toList))
  | _, _ => false

@[simp] theorem trunc_trunc (net : IpNet) : net.trunc.trunc = net.trunc := by
  cases net with
  | v4 net => exact congrArg v4 net.trunc_trunc
  | v6 net => exact congrArg v6 net.trunc_trunc

end IpNet

/-! ### The table -/

/-- `Iterator::max_by_key`: of several greatest elements, the last. -/
def maxByKey {β : Type*} (key : β → ℕ) : List β → Option β
  | [] => none
  | x :: xs => some (xs.foldl (fun best y => if key best ≤ key y then y else best) x)

theorem mem_of_maxByKey {β : Type*} {key : β → ℕ} {xs : List β} {x : β}
    (h : maxByKey key xs = some x) : x ∈ xs := by
  have hfold (ys : List β) (best : β) :
      ys.foldl (fun best y => if key best ≤ key y then y else best) best ∈ best :: ys := by
    induction ys generalizing best with
    | nil => exact List.mem_singleton_self best
    | cons y ys ih =>
        rw [List.foldl_cons]
        have hnext := ih (if key best ≤ key y then y else best)
        rcases List.mem_cons.mp hnext with heq | hmem
        · rw [heq]
          split
          · exact List.mem_cons_of_mem _ List.mem_cons_self
          · exact List.mem_cons_self
        · exact List.mem_cons_of_mem _ (List.mem_cons_of_mem _ hmem)
  cases xs with
  | nil => cases h
  | cons y ys =>
      cases h
      exact hfold ys y

/-- Maps IP prefixes to values by longest-prefix match. -/
structure AllowedIps (α : Type*) where
  entries : List (IpNet × α)
  nodup : (entries.map Prod.fst).Nodup
  truncated : ∀ entry ∈ entries, entry.1.trunc = entry.1

namespace AllowedIps

variable {α : Type*}

def new : AllowedIps α := ⟨[], List.nodup_nil, fun _ h => absurd h List.not_mem_nil⟩

/-- Gives the entry of `net` a new value, or pushes one. -/
def put (net : IpNet) (value : α) : List (IpNet × α) → List (IpNet × α)
  | [] => [(net, value)]
  | entry :: rest =>
      if entry.1 = net then (entry.1, value) :: rest else entry :: put net value rest

theorem mem_put {net : IpNet} {value : α} {entries : List (IpNet × α)} {entry : IpNet × α}
    (h : entry ∈ put net value entries) : entry = (net, value) ∨ entry ∈ entries := by
  induction entries with
  | nil => exact Or.inl (List.mem_singleton.mp h)
  | cons first rest ih =>
      rw [put] at h
      split at h
      · rename_i hnet
        rcases List.mem_cons.mp h with rfl | h
        · exact Or.inl (by rw [hnet])
        · exact Or.inr (List.mem_cons_of_mem _ h)
      · rcases List.mem_cons.mp h with rfl | h
        · exact Or.inr List.mem_cons_self
        · exact (ih h).imp_right (List.mem_cons_of_mem _)

theorem nodup_put {net : IpNet} {value : α} {entries : List (IpNet × α)}
    (h : (entries.map Prod.fst).Nodup) : ((put net value entries).map Prod.fst).Nodup := by
  induction entries with
  | nil => exact List.nodup_singleton net
  | cons first rest ih =>
      rw [put]
      split
      · exact h
      · rename_i hnet
        rw [List.map_cons, List.nodup_cons] at h ⊢
        refine ⟨fun hmem => ?_, ih h.2⟩
        obtain ⟨entry, hentry, heq⟩ := List.mem_map.mp hmem
        rcases mem_put hentry with rfl | hrest
        · exact hnet heq.symm
        · exact h.1 (heq ▸ List.mem_map_of_mem hrest)

def insert (t : AllowedIps α) (net : IpNet) (value : α) : AllowedIps α where
  entries := put net.trunc value t.entries
  nodup := nodup_put t.nodup
  truncated := by
    intro entry h
    rcases mem_put h with rfl | h
    · exact net.trunc_trunc
    · exact t.truncated entry h

/-- Drops every entry whose value fails the predicate. -/
def retain (t : AllowedIps α) (keep : α → Bool) : AllowedIps α where
  entries := t.entries.filter fun entry => keep entry.2
  nodup := t.nodup.sublist (List.filter_sublist.map Prod.fst)
  truncated := fun entry h => t.truncated entry (List.mem_of_mem_filter h)

/-- Returns the value whose prefix is the longest one containing `addr`. -/
def longestMatch (t : AllowedIps α) (addr : IpAddr) : Option α :=
  (maxByKey (fun entry => entry.1.prefixLen)
    (t.entries.filter fun entry => entry.1.contains addr)).map Prod.snd

/-- Inserts every prefix of a list with the same value. -/
def insertAll (t : AllowedIps α) (nets : List IpNet) (value : α) : AllowedIps α :=
  nets.foldl (fun t net => t.insert net value) t

/-! ### Owners -/

/-- The value of exactly this prefix. -/
def owner (t : AllowedIps α) (net : IpNet) : Option α :=
  (t.entries.find? fun entry => entry.1 = net).map Prod.snd

theorem mem_entries_iff (t : AllowedIps α) {net : IpNet} {value : α} :
    (net, value) ∈ t.entries ↔ t.owner net = some value := by
  have hnodup := t.nodup
  unfold owner
  generalize t.entries = entries at hnodup
  induction entries with
  | nil => simp
  | cons first rest ih =>
      obtain ⟨net', value'⟩ := first
      rw [List.map_cons, List.nodup_cons] at hnodup
      by_cases heq : net' = net
      · subst heq
        have hrest : (net', value) ∉ rest := fun h => hnodup.1 (List.mem_map.mpr ⟨_, h, rfl⟩)
        simp [hrest, eq_comm]
      · rw [List.find?_cons_of_neg (by simpa using heq), List.mem_cons]
        refine (or_iff_right fun h => ?_).trans (ih hnodup.2)
        exact heq (congrArg Prod.fst h).symm

theorem longestMatch_mem {t : AllowedIps α} {addr : IpAddr} {value : α}
    (h : t.longestMatch addr = some value) : ∃ net, (net, value) ∈ t.entries := by
  obtain ⟨⟨net, value⟩, hmax, rfl⟩ := Option.map_eq_some_iff.mp h
  exact ⟨net, List.mem_of_mem_filter (mem_of_maxByKey hmax)⟩

theorem owner_insert (t : AllowedIps α) (net net' : IpNet) (value : α) :
    (t.insert net value).owner net' = if net' = net.trunc then some value else t.owner net' := by
  show ((put net.trunc value t.entries).find? fun entry => entry.1 = net').map Prod.snd = _
  unfold owner
  induction t.entries with
  | nil => by_cases heq : net' = net.trunc <;> simp [put, heq, eq_comm]
  | cons first rest ih =>
      rw [put]
      by_cases hfirst : first.1 = net.trunc
      · rw [if_pos hfirst]
        by_cases heq : net' = net.trunc
        · simp [hfirst, heq]
        · have hne : first.1 ≠ net' := fun h => heq (h.symm.trans hfirst)
          simp [hne, heq]
      · rw [if_neg hfirst]
        by_cases heq : first.1 = net'
        · have hne : net' ≠ net.trunc := fun h => hfirst (heq.trans h)
          simp [heq, hne]
        · simpa [heq] using ih

theorem owner_retain (t : AllowedIps α) (keep : α → Bool) (net : IpNet) :
    (t.retain keep).owner net = (t.owner net).filter keep := by
  apply Option.ext
  intro value
  show (t.retain keep).owner net = some value ↔ (t.owner net).filter keep = some value
  rw [← mem_entries_iff, Option.filter_eq_some_iff, ← mem_entries_iff]
  exact List.mem_filter

theorem owner_insertAll (t : AllowedIps α) (nets : List IpNet) (value : α) (net : IpNet) :
    (t.insertAll nets value).owner net
      = if net ∈ nets.map IpNet.trunc then some value else t.owner net := by
  induction nets generalizing t with
  | nil => rfl
  | cons first rest ih =>
      have hnext := ih (t.insert first value)
      rw [owner_insert] at hnext
      refine hnext.trans ?_
      rw [List.map_cons]
      by_cases hrest : net ∈ rest.map IpNet.trunc
      · rw [if_pos hrest, if_pos (List.mem_cons_of_mem _ hrest)]
      · simp only [List.mem_cons, hrest, or_false, if_false]

end AllowedIps

end Tunstile
