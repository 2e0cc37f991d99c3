/-
Tunstile/Windows.lean

Windows that are opened lazily.

A counter per window bounds what happens in one window.  If a window is
opened by the first event that comes at least `width` after the opening of
the window before it, an interval of length `width` meets at most two
windows, so twice the bound holds in it (`countP_interval_le`).

Events are given by their time and the opening of their window, both natural
numbers; nothing here says what happens in an event.
-/
import Mathlib.Data.List.Pairwise
import Mathlib.Algebra.Order.Ring.Nat

namespace Tunstile

variable {α : Type*}

/-! ### Counting -/

theorem countP_le_add {l : List α} {p q r : α → Bool}
    (h : ∀ x ∈ l, p x = true → q x = true ∨ r x = true) :
    l.countP p ≤ l.countP q + l.countP r := by
  induction l with
  | nil => exact Nat.zero_le _
  | cons x l ih =>
      have htail := ih fun y hy => h y (List.mem_cons_of_mem _ hy)
      have hhead := h x List.mem_cons_self
      simp only [List.countP_cons]
      split_ifs with hp hq hr hr
      all_goals first | omega | skip
      exact absurd (hhead hp) (not_or.mpr ⟨hq, hr⟩)

/-- Counting by a key of which at most two values occur. -/
theorem countP_le_two_mul {ι : Type*} [DecidableEq ι] {l : List α} {p : α → Bool} (key : α → ι)
    {m : ℕ} (hkey : ∀ k, l.countP (fun x => p x && decide (key x = k)) ≤ m)
    (htwo : ∀ x ∈ l, ∀ y ∈ l, ∀ z ∈ l, p x = true → p y = true → p z = true →
      key x = key y ∨ key y = key z ∨ key x = key z) : l.countP p ≤ 2 * m := by
  have hpart (k k' : ι) (h : ∀ z ∈ l, p z = true → key z = k ∨ key z = k') :
      l.countP p ≤ 2 * m := by
    have hboth (z : α) (k : ι) (hpz : p z = true) (hz : key z = k) :
        (p z && decide (key z = k)) = true := by
      rw [hpz, Bool.true_and, decide_eq_true hz]
    have hsum := countP_le_add (q := fun z => p z && decide (key z = k))
      (r := fun z => p z && decide (key z = k')) fun z hz hpz =>
        (h z hz hpz).imp (hboth z k hpz) (hboth z k' hpz)
    have hk := hkey k
    have hk' := hkey k'
    omega
  by_cases hany : ∃ x ∈ l, p x = true
  · obtain ⟨x, hx, hpx⟩ := hany
    by_cases hother : ∃ y ∈ l, p y = true ∧ key x ≠ key y
    · obtain ⟨y, hy, hpy, hne⟩ := hother
      refine hpart (key x) (key y) fun z hz hpz => ?_
      rcases htwo x hx y hy z hz hpx hpy hpz with hxy | hyz | hxz
      · exact absurd hxy hne
      · exact Or.inr hyz.symm
      · exact Or.inl hxz.symm
    · refine hpart (key x) (key x) fun z hz hpz => Or.inl ?_
      by_contra hne
      exact hother ⟨z, hz, hpz, fun h => hne h.symm⟩
  · have hzero : l.countP p = 0 :=
      List.countP_eq_zero.mpr fun x hx hpx => hany ⟨x, hx, hpx⟩
    rw [hzero]
    exact Nat.zero_le _

/-! ### Windows -/

/-- `y` comes after `x`: in the same window, or in one that was opened after
`x`, and at least `width` after the window of `x`. -/
def Follows (time opened : α → ℕ) (width : ℕ) (x y : α) : Prop :=
  opened x = opened y ∨ time x ≤ opened y ∧ opened x + width ≤ opened y

theorem follows_of_lt {time opened : α → ℕ} {width : ℕ} {log : List α}
    (hlog : log.Pairwise (Follows time opened width)) {x y : α} (hx : x ∈ log) (hy : y ∈ log)
    (hlt : opened x < opened y) : time x ≤ opened y ∧ opened x + width ≤ opened y := by
  have heither : log.Pairwise fun a b =>
      Follows time opened width a b ∨ Follows time opened width b a := hlog.imp Or.inl
  have hsymm : Std.Symm fun a b =>
      Follows time opened width a b ∨ Follows time opened width b a := ⟨fun _ _ => Or.symm⟩
  have hne : x ≠ y := fun h => hlt.ne (congrArg opened h)
  rcases heither.forall hx hy hne with (heq | hafter) | (heq | ⟨-, hle⟩)
  · exact absurd heq hlt.ne
  · exact hafter
  · exact absurd heq hlt.ne'
  · omega

/-- **An interval no longer than a window meets at most two.** -/
theorem countP_interval_le {time opened : α → ℕ} {width : ℕ} {log : List α}
    (hlog : log.Pairwise (Follows time opened width)) (hopened : ∀ x ∈ log, opened x ≤ time x)
    {p : α → Bool} {m : ℕ}
    (hwindow : ∀ w, log.countP (fun x => p x && decide (opened x = w)) ≤ m) (t : ℕ) :
    log.countP (fun x => p x && decide (t ≤ time x ∧ time x < t + width)) ≤ 2 * m := by
  refine countP_le_two_mul opened (fun w => le_trans ?_ (hwindow w)) ?_
  · refine List.countP_mono_left fun x _ hx => ?_
    simp only [Bool.and_eq_true] at hx ⊢
    exact ⟨hx.1.1, hx.2⟩
  · intro x hx y hy z hz hpx hpy hpz
    simp only [Bool.and_eq_true, decide_eq_true_eq] at hpx hpy hpz
    -- three windows in a row would take longer than the interval
    have hthree {a b c : α} (ha : a ∈ log) (hb : b ∈ log) (hc : c ∈ log)
        (hta : t ≤ time a) (htc : time c < t + width) (hab : opened a < opened b)
        (hbc : opened b < opened c) : False := by
      have h₁ := follows_of_lt hlog ha hb hab
      have h₂ := follows_of_lt hlog hb hc hbc
      have h₃ := hopened c hc
      omega
    by_contra hdistinct
    rw [not_or, not_or] at hdistinct
    obtain ⟨hxy, hyz, hxz⟩ := hdistinct
    rcases lt_or_gt_of_ne hxy with hxy | hxy <;> rcases lt_or_gt_of_ne hyz with hyz | hyz <;>
      rcases lt_or_gt_of_ne hxz with hxz | hxz
    · exact hthree hx hy hz hpx.2.1 hpz.2.2 hxy hyz
    · omega
    · exact hthree hx hz hy hpx.2.1 hpy.2.2 hxz hyz
    · exact hthree hz hx hy hpz.2.1 hpy.2.2 hxz hxy
    · exact hthree hy hx hz hpy.2.1 hpz.2.2 hxy hxz
    · exact hthree hy hz hx hpy.2.1 hpx.2.2 hyz hxz
    · omega
    · exact hthree hz hy hx hpz.2.1 hpx.2.2 hyz hxy

end Tunstile
