/-
Tunstile/LongestMatch.lean

The cryptokey routing table against a map.

`reference` is what a history of calls leaves: each truncated prefix has the
value last inserted for it, unless a `retain` dropped it since.  The table
holds exactly that (`owner_run`), and a lookup answers with the value of the
longest prefix that contains the address.  There is only one such prefix,
because two truncated prefixes of one length that contain the same address
are equal (`IpNet.eq_of_contains`); so the order in the list, by which
`max_by_key` would decide, never matters.
-/
import Tunstile.AllowedIps
import Mathlib.Data.List.Induction

namespace Tunstile

/-! ### Prefixes of one address -/

theorem Subnet.eq_of_contains {w : ℕ} {s s' : Subnet w} {addr : BitVec w} (hs : s.trunc = s)
    (hs' : s'.trunc = s') (h : s.contains addr = true) (h' : s'.contains addr = true)
    (hlen : s.len = s'.len) : s = s' := by
  have hmask : s.netmask = s'.netmask := by rw [netmask, netmask, hlen]
  have haddr : addr &&& s.netmask = s.addr := (eq_of_beq h).trans (congrArg Subnet.addr hs)
  have haddr' : addr &&& s'.netmask = s'.addr := (eq_of_beq h').trans (congrArg Subnet.addr hs')
  obtain ⟨a, l⟩ := s
  obtain ⟨a', l'⟩ := s'
  have heq : a = a' := haddr.symm.trans ((congrArg (addr &&& ·) hmask).trans haddr')
  subst heq
  subst hlen
  rfl

def IpAddr.isV4 : IpAddr → Bool
  | .v4 _ => true
  | .v6 _ => false

namespace IpNet

def isV4 : IpNet → Bool
  | .v4 _ => true
  | .v6 _ => false

theorem isV4_of_contains {net : IpNet} {addr : IpAddr} (h : net.contains addr = true) :
    net.isV4 = addr.isV4 := by
  cases net <;> cases addr <;> first | rfl | cases h

/-- Truncated prefixes of one length that share an address are equal. -/
theorem eq_of_contains {net net' : IpNet} {addr : IpAddr} (hnet : net.trunc = net)
    (hnet' : net'.trunc = net') (h : net.contains addr = true) (h' : net'.contains addr = true)
    (hlen : net.prefixLen = net'.prefixLen) : net = net' := by
  cases addr with
  | v4 octets =>
      cases net with
      | v6 net => cases h
      | v4 net =>
          cases net' with
          | v6 net' => cases h'
          | v4 net' =>
              exact congrArg v4 (Subnet.eq_of_contains (v4.inj hnet) (v4.inj hnet') h h'
                (Fin.ext hlen))
  | v6 octets =>
      cases net with
      | v4 net => cases h
      | v6 net =>
          cases net' with
          | v4 net' => cases h'
          | v6 net' =>
              exact congrArg v6 (Subnet.eq_of_contains (v6.inj hnet) (v6.inj hnet') h h'
                (Fin.ext hlen))

end IpNet

/-- `max_by_key` returns a greatest element. -/
theorem le_of_maxByKey {β : Type*} {key : β → ℕ} {xs : List β} {x : β}
    (h : maxByKey key xs = some x) : ∀ y ∈ xs, key y ≤ key x := by
  have hfold (ys : List β) (best : β) : ∀ y ∈ best :: ys,
      key y ≤ key (ys.foldl (fun best y => if key best ≤ key y then y else best) best) := by
    induction ys generalizing best with
    | nil =>
        intro y hy
        rw [List.mem_singleton.mp hy]
        rfl
    | cons z ys ih =>
        intro y hy
        have hnext := ih (if key best ≤ key z then z else best)
        rw [List.foldl_cons]
        -- both the best so far and the next element are below the new best
        have hmax : key best ≤ key (if key best ≤ key z then z else best) ∧
            key z ≤ key (if key best ≤ key z then z else best) := by
          split
          · rename_i hle
            exact ⟨hle, le_rfl⟩
          · rename_i hlt
            exact ⟨le_rfl, (not_le.mp hlt).le⟩
        rcases List.mem_cons.mp hy with rfl | hy
        · exact hmax.1.trans (hnext _ List.mem_cons_self)
        · rcases List.mem_cons.mp hy with rfl | hy
          · exact hmax.2.trans (hnext _ List.mem_cons_self)
          · exact hnext y (List.mem_cons_of_mem _ hy)
  cases xs with
  | nil => cases h
  | cons y ys =>
      cases h
      exact hfold ys y

theorem maxByKey_eq_none {β : Type*} {key : β → ℕ} {xs : List β} :
    maxByKey key xs = none ↔ xs = [] := by
  cases xs with
  | nil => exact iff_of_true rfl rfl
  | cons x xs => exact iff_of_false (Option.some_ne_none _) (List.cons_ne_nil _ _)

namespace AllowedIps

variable {α : Type*}

/-! ### Lookups -/

/-- `value` is the one of the longest prefix of `table` that contains
`addr`; every other one is shorter. -/
def Longest (table : IpNet → Option α) (addr : IpAddr) (value : α) : Prop :=
  ∃ net, table net = some value ∧ net.contains addr = true ∧ net.isV4 = addr.isV4 ∧
    ∀ net' value', table net' = some value' → net'.contains addr = true → net' ≠ net →
      net'.prefixLen < net.prefixLen

theorem Longest.unique {table : IpNet → Option α} {addr : IpAddr} {value value' : α}
    (h : Longest table addr value) (h' : Longest table addr value') : value = value' := by
  obtain ⟨net, howner, hcontains, -, hlongest⟩ := h
  obtain ⟨net', howner', hcontains', -, hlongest'⟩ := h'
  by_cases heq : net = net'
  · subst heq
    exact Option.some.inj (howner.symm.trans howner')
  · have hlt := hlongest net' value' howner' hcontains' fun h => heq h.symm
    have hgt := hlongest' net value howner hcontains heq
    omega

theorem longestMatch_eq_none (t : AllowedIps α) (addr : IpAddr) :
    t.longestMatch addr = none ↔
      ∀ net value, t.owner net = some value → net.contains addr = false := by
  rw [longestMatch, Option.map_eq_none_iff, maxByKey_eq_none, List.filter_eq_nil_iff]
  constructor
  · intro h net value howner
    exact Bool.eq_false_iff.mpr (h (net, value) (t.mem_entries_iff.mpr howner))
  · rintro h ⟨net, value⟩ hmem hcontains
    cases (h net value (t.mem_entries_iff.mp hmem)).symm.trans hcontains

theorem longestMatch_eq_some (t : AllowedIps α) (addr : IpAddr) (value : α) :
    t.longestMatch addr = some value ↔ Longest t.owner addr value := by
  have hfound {value : α} (h : t.longestMatch addr = some value) :
      Longest t.owner addr value := by
    obtain ⟨⟨net, value⟩, hmax, rfl⟩ := Option.map_eq_some_iff.mp h
    obtain ⟨hmem, hcontains⟩ := List.mem_filter.mp (mem_of_maxByKey hmax)
    refine ⟨net, t.mem_entries_iff.mp hmem, hcontains, IpNet.isV4_of_contains hcontains, ?_⟩
    intro net' value' howner' hcontains' hne
    have hmem' := t.mem_entries_iff.mpr howner'
    have hle : net'.prefixLen ≤ net.prefixLen :=
      le_of_maxByKey hmax _ (List.mem_filter.mpr ⟨hmem', hcontains'⟩)
    refine lt_of_le_of_ne hle fun hlen => hne ?_
    exact IpNet.eq_of_contains (t.truncated _ hmem') (t.truncated _ hmem) hcontains' hcontains hlen
  refine ⟨hfound, fun hlongest => ?_⟩
  cases hmatch : t.longestMatch addr with
  | none =>
      obtain ⟨net, howner, hcontains, -⟩ := hlongest
      cases ((t.longestMatch_eq_none addr).mp hmatch net value howner).symm.trans hcontains
  | some value' => rw [(hfound hmatch).unique hlongest]

/-- The answer depends on the owners alone. -/
theorem longestMatch_of_owner_eq {t t' : AllowedIps α} (h : t.owner = t'.owner) (addr : IpAddr) :
    t.longestMatch addr = t'.longestMatch addr := by
  apply Option.ext
  intro value
  rw [longestMatch_eq_some, longestMatch_eq_some, h]

/-! ### Histories -/

/-- A call that changes the table. -/
inductive Op (α : Type*) where
  | insert (net : IpNet) (value : α)
  | retain (keep : α → Bool)

def apply (t : AllowedIps α) : Op α → AllowedIps α
  | .insert net value => t.insert net value
  | .retain keep => t.retain keep

def run (t : AllowedIps α) (ops : List (Op α)) : AllowedIps α := ops.foldl apply t

/-- What a call does to the values of the prefixes. -/
def Op.refer (table : IpNet → Option α) : Op α → IpNet → Option α
  | .insert net value => Function.update table net.trunc (some value)
  | .retain keep => fun net => (table net).filter keep

/-- The map that a history of calls leaves. -/
def reference (ops : List (Op α)) : IpNet → Option α := ops.foldl Op.refer fun _ => none

/-- The call leaves the value of a prefix as it is. -/
def Op.Spares (net : IpNet) (value : α) : Op α → Prop
  | .insert net' _ => net'.trunc ≠ net
  | .retain keep => keep value = true

/-- `value` was inserted for `net`, and neither replaced nor removed since. -/
def Remains (ops : List (Op α)) (net : IpNet) (value : α) : Prop :=
  ∃ before net' after, ops = before ++ .insert net' value :: after ∧ net'.trunc = net ∧
    ∀ op ∈ after, op.Spares net value

theorem remains_concat {ops : List (Op α)} {op : Op α} {net : IpNet} {value : α} :
    Remains (ops ++ [op]) net value ↔
      (∃ net', op = .insert net' value ∧ net'.trunc = net) ∨
        Remains ops net value ∧ op.Spares net value := by
  constructor
  · rintro ⟨before, net', after, heq, htrunc, hspares⟩
    rcases List.eq_nil_or_concat after with rfl | ⟨after, last, rfl⟩
    · obtain ⟨-, hlast⟩ := List.append_inj' heq rfl
      exact Or.inl ⟨net', List.singleton_inj.mp hlast, htrunc⟩
    · rw [List.concat_eq_append] at heq hspares
      rw [← List.cons_append, ← List.append_assoc] at heq
      obtain ⟨hinit, hlast⟩ := List.append_inj' heq rfl
      have hop : op = last := List.singleton_inj.mp hlast
      refine Or.inr ⟨⟨before, net', after, hinit, htrunc, fun o ho => ?_⟩, ?_⟩
      · exact hspares o (List.mem_append_left _ ho)
      · exact hop ▸ hspares last (List.mem_append_right _ (List.mem_singleton_self _))
  · rintro (⟨net', rfl, htrunc⟩ | ⟨⟨before, net', after, rfl, htrunc, hspares⟩, hop⟩)
    · exact ⟨ops, net', [], rfl, htrunc, fun _ h => absurd h List.not_mem_nil⟩
    · refine ⟨before, net', after ++ [op], ?_, htrunc, fun o ho => ?_⟩
      · rw [List.append_assoc, List.cons_append]
      · rcases List.mem_append.mp ho with ho | ho
        · exact hspares o ho
        · rw [List.mem_singleton.mp ho]
          exact hop

/-- **The map holds what was inserted last and not removed since.** -/
theorem reference_eq_some (ops : List (Op α)) (net : IpNet) (value : α) :
    reference ops net = some value ↔ Remains ops net value := by
  induction ops using List.reverseRecOn with
  | nil =>
      refine iff_of_false (Option.some_ne_none value).symm ?_
      rintro ⟨before, net', after, heq, -⟩
      exact List.append_ne_nil_of_right_ne_nil before (List.cons_ne_nil _ _) heq.symm
  | append_singleton ops op ih =>
      rw [remains_concat, ← ih, reference, List.foldl_append, ← reference]
      show op.refer (reference ops) net = some value ↔ _
      cases op with
      | insert net' value' =>
          by_cases hnet : net'.trunc = net
          · subst hnet
            rw [Op.refer, Function.update_self]
            constructor
            · rintro ⟨⟩
              exact Or.inl ⟨net', rfl, rfl⟩
            · rintro (⟨_, heq, -⟩ | ⟨-, hspares⟩)
              · cases heq
                rfl
              · exact absurd rfl hspares
          · rw [Op.refer, Function.update_of_ne fun h => hnet h.symm]
            constructor
            · exact fun h => Or.inr ⟨h, hnet⟩
            · rintro (⟨_, heq, htrunc⟩ | ⟨h, -⟩)
              · cases heq
                exact absurd htrunc hnet
              · exact h
      | retain keep =>
          rw [Op.refer, Option.filter_eq_some_iff]
          constructor
          · exact Or.inr
          · rintro (⟨_, heq, -⟩ | h)
            · cases heq
            · exact h

theorem owner_apply (t : AllowedIps α) (op : Op α) : (t.apply op).owner = op.refer t.owner := by
  funext net
  cases op with
  | insert net' value =>
      show (t.insert net' value).owner net = Function.update t.owner net'.trunc (some value) net
      rw [owner_insert, Function.update_apply]
  | retain keep => exact t.owner_retain keep net

theorem owner_foldl (t : AllowedIps α) (ops : List (Op α)) :
    (t.run ops).owner = ops.foldl Op.refer t.owner := by
  induction ops generalizing t with
  | nil => rfl
  | cons op ops ih => exact (ih (t.apply op)).trans (by rw [owner_apply]; rfl)

/-- The table holds what the map does. -/
theorem owner_run (ops : List (Op α)) : ((new : AllowedIps α).run ops).owner = reference ops :=
  owner_foldl new ops

/-- Inserts for distinct prefixes commute. -/
theorem foldl_insert_perm {inserts inserts' : List (IpNet × α)} (h : inserts.Perm inserts')
    (hdistinct : (inserts.map fun entry => entry.1.trunc).Nodup) (table : IpNet → Option α) :
    (inserts.map fun entry => Op.insert entry.1 entry.2).foldl Op.refer table
      = (inserts'.map fun entry => Op.insert entry.1 entry.2).foldl Op.refer table := by
  induction h generalizing table with
  | nil => rfl
  | cons entry _ ih => exact ih (List.nodup_cons.mp hdistinct).2 _
  | swap first second rest =>
      have hne : second.1.trunc ≠ first.1.trunc := by
        intro heq
        have hmem := (List.nodup_cons.mp hdistinct).1
        exact hmem (List.mem_cons.mpr (Or.inl heq))
      simp only [List.map_cons, List.foldl_cons, Op.refer]
      rw [Function.update_comm hne]
  | trans h₁ _ ih₁ ih₂ =>
      exact (ih₁ hdistinct table).trans (ih₂ ((h₁.map _).nodup_iff.mp hdistinct) table)

/-- **Longest-prefix match equals a reference map.**  After any inserts and
retains, the map that they leave holds for each prefix the value last
inserted and not removed since.  The stored prefixes are those of the map,
truncated and pairwise distinct.  A lookup returns the value of the one
longest prefix, of the address's own family, that contains the address, and
nothing exactly if none does.  The answer depends on the map alone, and not
on the order in which distinct prefixes were inserted. -/
theorem longest_prefix_match (ops : List (Op α)) :
    let t := (new : AllowedIps α).run ops
    (∀ net value, reference ops net = some value ↔ Remains ops net value) ∧
    (∀ net value, (net, value) ∈ t.entries ↔ reference ops net = some value) ∧
    ((t.entries.map Prod.fst).Nodup ∧ ∀ entry ∈ t.entries, entry.1.trunc = entry.1) ∧
    (∀ addr value, t.longestMatch addr = some value ↔ Longest (reference ops) addr value) ∧
    (∀ addr, t.longestMatch addr = none ↔
      ∀ net value, reference ops net = some value → net.contains addr = false) ∧
    (∀ ops', reference ops' = reference ops → ∀ addr,
      ((new : AllowedIps α).run ops').longestMatch addr = t.longestMatch addr) ∧
    ∀ inserts inserts' : List (IpNet × α), inserts.Perm inserts' →
      (inserts.map fun entry => entry.1.trunc).Nodup → ∀ addr,
      (t.run (inserts.map fun entry => .insert entry.1 entry.2)).longestMatch addr
        = (t.run (inserts'.map fun entry => .insert entry.1 entry.2)).longestMatch addr := by
  intro t
  have howner : t.owner = reference ops := owner_run ops
  refine ⟨reference_eq_some ops, fun net value => ?_, ⟨t.nodup, t.truncated⟩,
    fun addr value => ?_, fun addr => ?_, fun ops' hsame addr => ?_, ?_⟩
  · rw [← howner]
    exact t.mem_entries_iff
  · rw [← howner]
    exact t.longestMatch_eq_some addr value
  · rw [← howner]
    exact t.longestMatch_eq_none addr
  · exact longestMatch_of_owner_eq ((owner_run ops').trans (hsame.trans howner.symm)) addr
  · intro inserts inserts' hperm hdistinct addr
    refine longestMatch_of_owner_eq ?_ addr
    rw [owner_foldl t, owner_foldl t, foldl_insert_perm hperm hdistinct]

end AllowedIps

end Tunstile
