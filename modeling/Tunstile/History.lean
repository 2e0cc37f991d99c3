/-
Tunstile/History.lean

Logs that grow at the end.

A log is `Justified` by a relation `ok` when every entry is `ok` with
respect to the entries before it.  Appending checks the new entry only
(`justified_concat`), so a system whose steps append to a log proves
`Justified` one step at a time, and what was justified when it was written
stays so.

`exists_source` draws a conclusion about whole logs.  Entries may produce or
consume keys; if every consumed key was produced before and not consumed
before, then every consumer has a producer of its own.  `firstSince` reads
off a log the first value armed since an entry cleared it.
-/
import Mathlib.Data.List.DropRight
import Mathlib.Data.List.Induction
import Mathlib.Data.List.Perm.Subperm

namespace Tunstile

variable {α β κ : Type*} {ok : List α → α → Prop} {log : List α}

/-- Every entry is `ok` after the entries before it. -/
def Justified (ok : List α → α → Prop) (log : List α) : Prop :=
  ∀ pre x post, log = pre ++ x :: post → ok pre x

theorem justified_nil : Justified ok [] := by
  intro pre x post h
  cases pre <;> cases h

theorem justified_concat {x : α} : Justified ok (log ++ [x]) ↔ Justified ok log ∧ ok log x := by
  constructor
  · intro h
    refine ⟨?_, h log x [] rfl⟩
    rintro pre y post rfl
    exact h pre y (post ++ [x]) (by rw [List.append_assoc, List.cons_append])
  · rintro ⟨h, hx⟩ pre y post heq
    -- the entry is the appended one, or has it after it
    rcases List.eq_nil_or_concat post with rfl | ⟨post, z, rfl⟩
    · obtain ⟨rfl, hy⟩ := List.append_inj' heq rfl
      cases hy
      exact hx
    · refine h pre y post ?_
      rw [List.concat_eq_append, ← List.cons_append, ← List.append_assoc] at heq
      exact (List.append_inj' heq rfl).1

/-- The entries before a member justify it. -/
theorem Justified.of_mem (h : Justified ok log) {x : α} (hx : x ∈ log) :
    ∃ pre, pre ⊆ log ∧ ok pre x := by
  obtain ⟨pre, post, rfl⟩ := List.append_of_mem hx
  exact ⟨pre, List.subset_append_left _ _, h pre x post rfl⟩

/-- Keys that no earlier entry has are had by one entry. -/
theorem Justified.eq_of_same {f : α → Option κ} (h : Justified ok log)
    (hf : ∀ pre x k, ok pre x → f x = some k → ∀ y ∈ pre, f y ≠ some k) {x y : α} {k : κ}
    (hx : x ∈ log) (hy : y ∈ log) (hfx : f x = some k) (hfy : f y = some k) : x = y := by
  obtain ⟨pre, post, rfl⟩ := List.append_of_mem hx
  have hxok := h pre x post rfl
  rcases List.mem_append.mp hy with hy | hy
  · exact absurd hfy (hf pre x k hxok hfx y hy)
  · rcases List.mem_cons.mp hy with hy | hy
    · exact hy.symm
    · -- `y` comes later, so `x` is among the entries before it
      obtain ⟨mid, post', rfl⟩ := List.append_of_mem hy
      have hyok := h (pre ++ x :: mid) y post' (by simp)
      exact absurd hfx (hf _ y k hyok hfy x (by simp))

theorem Justified.getElem? (h : Justified ok log) {n : ℕ} {x : α} (hx : log[n]? = some x) :
    ok (log.take n) x := by
  obtain ⟨hn, rfl⟩ := List.getElem?_eq_some_iff.mp hx
  refine h _ _ (log.drop (n + 1)) ?_
  rw [List.getElem_cons_drop, List.take_append_drop]

/-- A filtered log is justified by what the filter keeps. -/
theorem Justified.filterMap {ok' : List β → β → Prop} {f : α → Option β} (h : Justified ok log)
    (hf : ∀ pre x y, ok pre x → f x = some y → ok' (pre.filterMap f) y) :
    Justified ok' (log.filterMap f) := by
  induction log using List.reverseRecOn with
  | nil => exact justified_nil
  | append_singleton log x ih =>
      obtain ⟨hlog, hx⟩ := justified_concat.mp h
      rw [List.filterMap_append]
      cases hfx : f x with
      | none =>
          rw [List.filterMap_cons_none hfx, List.filterMap_nil, List.append_nil]
          exact ih hlog
      | some y =>
          rw [List.filterMap_cons_some hfx, List.filterMap_nil]
          exact justified_concat.mpr ⟨ih hlog, hf log x y hx hfx⟩

/-- **A producer for every consumer.**  If every key was produced before it
is consumed, and is consumed once, then consumers can be matched with
earlier producers, no two with the same one. -/
theorem exists_source {produce consume : α → Option κ}
    (h : Justified (fun pre x => ∀ k, consume x = some k →
      (∃ y ∈ pre, produce y = some k) ∧ ∀ y ∈ pre, consume y ≠ some k) log) :
    ∃ source : ℕ → ℕ,
      (∀ n x k, log[n]? = some x → consume x = some k →
        source n < n ∧ ∃ y, log[source n]? = some y ∧ produce y = some k) ∧
      (∀ n n' x x' k k', log[n]? = some x → consume x = some k → log[n']? = some x' →
        consume x' = some k' → source n = source n' → n = n') := by
  classical
  have hsource : ∀ n : ℕ, ∃ m : ℕ, ∀ x k, log[n]? = some x → consume x = some k →
      m < n ∧ ∃ y, log[m]? = some y ∧ produce y = some k := by
    intro n
    by_cases hn : ∃ x k, log[n]? = some x ∧ consume x = some k
    · obtain ⟨x, k, hx, hk⟩ := hn
      obtain ⟨y, hy, hprod⟩ := (h.getElem? hx k hk).1
      obtain ⟨m, hm⟩ := List.mem_iff_getElem?.mp hy
      have hmn : m < n := by
        by_contra hle
        rw [List.getElem?_take_eq_none (Nat.le_of_not_lt hle)] at hm
        cases hm
      rw [List.getElem?_take_of_lt hmn] at hm
      refine ⟨m, fun x' k' hx' hk' => ?_⟩
      cases hx.symm.trans hx'
      cases hk.symm.trans hk'
      exact ⟨hmn, y, hm, hprod⟩
    · exact ⟨0, fun x k hx hk => absurd ⟨x, k, hx, hk⟩ hn⟩
  choose source hsource using hsource
  refine ⟨source, hsource, ?_⟩
  intro n n' x x' k k' hx hk hx' hk' hsame
  -- the common producer fixes the key, and a key is consumed once
  obtain ⟨-, y, hy, hprod⟩ := hsource n x k hx hk
  obtain ⟨-, y', hy', hprod'⟩ := hsource n' x' k' hx' hk'
  rw [hsame] at hy
  cases hy.symm.trans hy'
  cases hprod.symm.trans hprod'
  have once : ∀ {i j : ℕ} {u v : α}, log[i]? = some u → consume u = some k → log[j]? = some v →
      consume v = some k → ¬ i < j := by
    intro i j u v hu hku hv hkv hij
    have hmem : u ∈ log.take j :=
      List.mem_iff_getElem?.mpr ⟨i, by rw [List.getElem?_take_of_lt hij, hu]⟩
    exact (h.getElem? hv k hkv).2 u hmem hku
  exact Nat.le_antisymm (Nat.le_of_not_lt (once hx' hk' hx hk)) (Nat.le_of_not_lt (once hx hk hx' hk'))

/-- What entries of one list have, with multiplicities, entries of the other
have. -/
theorem subperm_filterMap {l l' : List α} (h : l.Subperm l') (f : α → Option β) :
    (l.filterMap f).Subperm (l'.filterMap f) := by
  obtain ⟨m, hperm, hsub⟩ := h
  exact ⟨m.filterMap f, hperm.filterMap f, hsub.filterMap f⟩

/-- What one function picks of a list, with more of it, another picks. -/
theorem filterMap_sublist_of_le {f g : α → Option β} (h : ∀ x y, f x = some y → g x = some y)
    (l : List α) : (l.filterMap f).Sublist (l.filterMap g) := by
  induction l with
  | nil => exact List.Sublist.refl _
  | cons x l ih =>
      cases hf : f x with
      | none =>
          rw [List.filterMap_cons_none hf, List.filterMap_cons]
          split
          · exact ih
          · exact ih.cons _
      | some y =>
          rw [List.filterMap_cons_some hf, List.filterMap_cons_some (h x y hf)]
          exact ih.cons_cons _

/-- **Nothing is consumed that was not produced**, counting multiplicities,
under the conditions of `exists_source`. -/
theorem subperm_of_justified {produce consume : α → Option κ}
    (h : Justified (fun pre x => ∀ k, consume x = some k →
      (∃ y ∈ pre, produce y = some k) ∧ ∀ y ∈ pre, consume y ≠ some k) log) :
    (log.filterMap consume).Subperm (log.filterMap produce) := by
  have hnodup : (log.filterMap consume).Nodup := by
    induction log using List.reverseRecOn with
    | nil => exact List.nodup_nil
    | append_singleton log x ih =>
        obtain ⟨hlog, hx⟩ := justified_concat.mp h
        rw [List.filterMap_append]
        refine List.nodup_append.mpr ⟨ih hlog, ?_, ?_⟩
        · rw [List.filterMap_cons]
          cases consume x <;> simp
        · rintro k hk k' hk' rfl
          obtain ⟨y, hy, hcons⟩ := List.mem_filterMap.mp hk
          obtain ⟨z, hz, hcons'⟩ := List.mem_filterMap.mp hk'
          cases List.mem_singleton.mp hz
          exact (hx k hcons').2 y hy hcons
  refine hnodup.subperm fun k hk => ?_
  obtain ⟨x, hx, hcons⟩ := List.mem_filterMap.mp hk
  obtain ⟨pre, hpre, hok⟩ := h.of_mem hx
  obtain ⟨y, hy, hprod⟩ := (hok k hcons).1
  exact List.mem_filterMap.mpr ⟨y, hpre hy, hprod⟩

/-- The last of what the entries of a log give. -/
theorem getLast?_filterMap_concat (f : α → Option β) (log : List α) (x : α) :
    ((log ++ [x]).filterMap f).getLast? = (f x).or (log.filterMap f).getLast? := by
  rw [List.filterMap_append, List.getLast?_append]
  cases h : f x <;> simp [h]

/-- What is above the last of increasing entries is above all of them. -/
theorem pairwise_concat_of_last [Preorder α] {x : α} (h : log.Pairwise (· < ·))
    (hlast : ∀ y ∈ log.getLast?, y < x) : (log ++ [x]).Pairwise (· < ·) := by
  refine List.pairwise_append.mpr ⟨h, List.pairwise_singleton _ _, fun y hy z hz => ?_⟩
  cases List.mem_singleton.mp hz
  rcases List.eq_nil_or_concat log with rfl | ⟨init, last, rfl⟩
  · cases hy
  rw [List.concat_eq_append] at h hy hlast
  have hlt : last < x := hlast last (by rw [List.getLast?_concat]; rfl)
  rcases List.mem_append.mp hy with hy | hy
  · exact ((List.pairwise_append.mp h).2.2 y hy last (List.mem_singleton_self last)).trans hlt
  · exact List.mem_singleton.mp hy ▸ hlt

/-! ### Since the last clearing entry -/

/-- The first value armed since the last entry that clears. -/
def firstSince (clears : α → Bool) (arms : α → Option β) (log : List α) : Option β :=
  (log.rtakeWhile fun x => !clears x).findSome? arms

theorem firstSince_concat (clears : α → Bool) (arms : α → Option β) (log : List α) (x : α) :
    firstSince clears arms (log ++ [x])
      = if clears x then none else (firstSince clears arms log).or (arms x) := by
  rw [firstSince, List.rtakeWhile_concat]
  cases clears x with
  | true => rfl
  | false =>
      show List.findSome? arms (_ ++ [x]) = Option.or (List.findSome? arms _) (arms x)
      rw [List.findSome?_append, List.findSome?_singleton]

end Tunstile
