/-
Tunstile/RingWindow.lean

A sliding window over the natural numbers, kept in a ring of bit blocks.

Numbers are grouped in blocks of `B`; block `i` lives at ring position
`i % N`, so the ring can hold the `N` most recent blocks.  Advancing the
window past a block must clear the position the block is about to reuse,
and nothing else.

`Window N B bit last acc` ties a ring to the set `acc` it stands for: every
member is at most `last`, and for each number of the last `N` blocks its bit
says exactly whether it is a member.  Three rules carry the relation through
the operations:

* `window_empty` — an all-clear ring at `last = 0` stands for the empty set;
* `Window.advance` — clearing the positions of the blocks the window moves
  over, at most `N` of them, keeps the set;
* `Window.mark` — setting the bit of a number inside the window inserts it.

The ring is abstract here: `bit j k` is bit `k` of position `j`, however it
is stored.
-/
import Mathlib.Data.Set.Insert
import Mathlib.Data.Nat.ModEq

namespace Tunstile

variable {N B : ℕ}

/-- The ring `bit`, of `N` blocks of `B` bits, stands for the set `acc` of
numbers, none of them above `last`. -/
structure Window (N B : ℕ) (bit : ℕ → ℕ → Bool) (last : ℕ) (acc : Set ℕ) : Prop where
  le_last : ∀ c ∈ acc, c ≤ last
  bit_iff : ∀ c, c / B ≤ last / B → last / B < c / B + N →
    (bit (c / B % N) (c % B) = true ↔ c ∈ acc)

/-- The ring positions of the blocks after `i`, up to `i + d`. -/
def Cleared (N i d j : ℕ) : Prop := ∃ b, i < b ∧ b ≤ i + d ∧ b % N = j

/-! ### Blocks and ring positions -/

/-- Two blocks less than a whole ring apart sit at different positions. -/
theorem mod_ne_of_lt_add {a b : ℕ} (hab : a < b) (hb : b < a + N) : b % N ≠ a % N := by
  intro h
  have hd : N ∣ b - a := (Nat.modEq_iff_dvd' hab.le).mp h.symm
  exact absurd (Nat.le_of_dvd (by omega) hd) (by omega)

/-- A whole ring of consecutive blocks covers every position. -/
theorem cleared_of_full {i b : ℕ} (hN : 0 < N) (hb : i < b) : Cleared N i N (b % N) := by
  refine ⟨i + 1 + (b - i - 1) % N, by omega, ?_, ?_⟩
  · have := Nat.mod_lt (b - i - 1) hN
    omega
  · rw [Nat.add_mod_mod]
    congr 1
    omega

/-- Clearing one more block, from the front. -/
theorem cleared_succ {i d j : ℕ} :
    Cleared N i (d + 1) j ↔ (i + 1) % N = j ∨ Cleared N (i + 1) d j := by
  constructor
  · rintro ⟨b, hib, hbd, hbj⟩
    rcases Nat.eq_or_lt_of_le (Nat.succ_le_of_lt hib) with rfl | hlt
    · exact Or.inl hbj
    · exact Or.inr ⟨b, hlt, by omega, hbj⟩
  · rintro (hj | ⟨b, hib, hbd, hbj⟩)
    · exact ⟨i + 1, by omega, by omega, hj⟩
    · exact ⟨b, by omega, by omega, hbj⟩

theorem not_cleared_zero {i j : ℕ} : ¬ Cleared N i 0 j := by
  rintro ⟨b, hib, hbd, -⟩
  omega

/-! ### The three rules -/

theorem window_empty {bit : ℕ → ℕ → Bool} (hbit : ∀ j k, bit j k = false) :
    Window N B bit 0 ∅ :=
  ⟨fun c hc => absurd hc (Set.notMem_empty c), fun c _ _ => by simp [hbit]⟩

/-- **Advancing.**  When the window moves from `last` up to `c`, clearing the
positions of the new blocks, but of no more than one whole ring, leaves a
ring that stands for the same set. -/
theorem Window.advance {bit bit' : ℕ → ℕ → Bool} {last c : ℕ} {acc : Set ℕ}
    (hw : Window N B bit last acc) (hN : 0 < N) (hc : last ≤ c)
    (hclear : ∀ j k, Cleared N (last / B) (min (c / B - last / B) N) j → bit' j k = false)
    (hkeep : ∀ j k, ¬ Cleared N (last / B) (min (c / B - last / B) N) j →
      bit' j k = bit j k) :
    Window N B bit' c acc := by
  have hblock : last / B ≤ c / B := Nat.div_le_div_right hc
  refine ⟨fun x hx => (hw.le_last x hx).trans hc, fun x hxc hcx => ?_⟩
  by_cases hx : x / B ≤ last / B
  · -- an old block that survives: no new block shares its position
    rw [hkeep, hw.bit_iff x hx (by omega)]
    rintro ⟨b, hb, hbd, hbx⟩
    exact mod_ne_of_lt_add (by omega) (by omega) hbx
  · -- a new block: its position was cleared, and it is past every member
    have hnot : x ∉ acc := fun hmem =>
      hx (Nat.div_le_div_right (hw.le_last x hmem))
    have hcl : Cleared N (last / B) (min (c / B - last / B) N) (x / B % N) := by
      rcases Nat.le_total (c / B - last / B) N with hle | hle
      · rw [Nat.min_eq_left hle]
        exact ⟨x / B, by omega, by omega, rfl⟩
      · rw [Nat.min_eq_right hle]
        exact cleared_of_full hN (by omega)
    simp [hclear _ _ hcl, hnot]

/-- **Marking.**  Setting the bit of a number inside the window inserts it. -/
theorem Window.mark {bit bit' : ℕ → ℕ → Bool} {last c : ℕ} {acc : Set ℕ}
    (hw : Window N B bit last acc) (hc : c ≤ last) (hin : last / B < c / B + N)
    (hset : bit' (c / B % N) (c % B) = true)
    (hkeep : ∀ j k, ¬ (j = c / B % N ∧ k = c % B) → bit' j k = bit j k) :
    Window N B bit' last (insert c acc) := by
  refine ⟨?_, fun x hx hxN => ?_⟩
  · rintro x (rfl | hx)
    · exact hc
    · exact hw.le_last x hx
  by_cases hxc : x = c
  · subst hxc
    simp [hset]
  · rw [hkeep, hw.bit_iff x hx hxN]
    · simp [hxc]
    · -- same position and same bit would make the numbers equal
      rintro ⟨hj, hk⟩
      have hcl : c / B ≤ last / B := Nat.div_le_div_right hc
      have hblk : x / B = c / B := by
        rcases Nat.lt_trichotomy (x / B) (c / B) with hlt | heq | hgt
        · exact absurd hj.symm (mod_ne_of_lt_add hlt (by omega))
        · exact heq
        · exact absurd hj (mod_ne_of_lt_add hgt (by omega))
      apply hxc
      rw [← Nat.div_add_mod x B, ← Nat.div_add_mod c B, hblk, hk]

end Tunstile
