/-
Tunstile/Buffer.lean

Buffers as lists, with the two operations every wire format is made of:
reading the elements of a span of offsets, and overwriting a span in place.

The read-after-write laws come in two halves:

* a span that was just overwritten reads back what was written
  (`slice_splice_self`);
* a span disjoint from the overwritten one is unchanged
  (`slice_splice_of_disjoint`).

The second half of the file is the little-endian encoding of a natural
number in a fixed number of bytes, with its round trip.

Nothing here mentions a protocol.
-/
import Mathlib.Data.List.Basic
import Mathlib.Algebra.Order.Ring.Nat

namespace Tunstile

/-- A half-open span of offsets, `start..stop`. -/
structure Span where
  start : Nat
  stop : Nat
  deriving DecidableEq, Repr

/-- The number of offsets in a span. -/
def Span.length (r : Span) : Nat := r.stop - r.start

section Lists

variable {α : Type*}

/-- The elements of `buf` at the offsets of `r`. -/
def slice (buf : List α) (r : Span) : List α :=
  (buf.drop r.start).take r.length

/-- Overwrite `buf` from offset `o` on with `x`, leaving the rest alone. -/
def splice (buf : List α) (o : Nat) (x : List α) : List α :=
  buf.take o ++ x ++ buf.drop (o + x.length)

theorem take_eq_slice (buf : List α) (n : ℕ) : buf.take n = slice buf ⟨0, n⟩ := rfl

theorem drop_eq_slice (buf : List α) (n : ℕ) : buf.drop n = slice buf ⟨n, buf.length⟩ := by
  rw [slice, Span.length, ← List.length_drop, List.take_length]

/-! ### Lengths and elements -/

theorem length_slice {buf : List α} {r : Span} (h : r.stop ≤ buf.length) :
    (slice buf r).length = r.length := by
  simp only [slice, List.length_take, List.length_drop, Span.length]
  omega

theorem length_splice {buf x : List α} {o : Nat} (h : o + x.length ≤ buf.length) :
    (splice buf o x).length = buf.length := by
  simp only [splice, List.length_append, List.length_take, List.length_drop]
  omega

theorem getElem?_slice (buf : List α) (r : Span) (i : Nat) :
    (slice buf r)[i]? = if i < r.length then buf[r.start + i]? else none := by
  by_cases hi : i < r.length
  · simp [slice, hi]
  · rw [if_neg hi, List.getElem?_eq_none]
    simp only [slice, List.length_take]
    omega

theorem getElem?_splice {buf x : List α} {o : Nat} (h : o ≤ buf.length) (i : Nat) :
    (splice buf o x)[i]? =
      if i < o then buf[i]? else if i < o + x.length then x[i - o]? else buf[i]? := by
  have hlen : (buf.take o).length = o := by simp [h]
  by_cases h₁ : i < o
  · rw [if_pos h₁, splice, List.append_assoc,
      List.getElem?_append_left (by rw [hlen]; exact h₁), List.getElem?_take_of_lt h₁]
  · rw [if_neg h₁, splice, List.append_assoc,
      List.getElem?_append_right (by rw [hlen]; omega), hlen]
    by_cases h₂ : i < o + x.length
    · rw [if_pos h₂, List.getElem?_append_left (by omega)]
    · rw [if_neg h₂, List.getElem?_append_right (by omega), List.getElem?_drop]
      congr 1
      omega

/-! ### Read after write -/

/-- Reading exactly the span just overwritten gives what was written. -/
theorem slice_splice_self {buf x : List α} {o : Nat} {r : Span} (ho : r.start = o)
    (hr : r.length = x.length) (h : o + x.length ≤ buf.length) :
    slice (splice buf o x) r = x := by
  apply List.ext_getElem?
  intro i
  rw [getElem?_slice, getElem?_splice (by omega), ho, hr]
  by_cases hi : i < x.length
  · rw [if_pos hi, if_neg (by omega), if_pos (by omega)]
    congr 1
    omega
  · rw [if_neg hi, List.getElem?_eq_none (by omega)]

/-- Reading a span disjoint from the overwritten one is unaffected. -/
theorem slice_splice_of_disjoint {buf x : List α} {o : Nat} {r : Span}
    (hd : r.stop ≤ o ∨ o + x.length ≤ r.start) (h : o + x.length ≤ buf.length) :
    slice (splice buf o x) r = slice buf r := by
  apply List.ext_getElem?
  intro i
  rw [getElem?_slice, getElem?_slice, getElem?_splice (by omega)]
  by_cases hi : i < r.length
  · rw [if_pos hi, if_pos hi]
    simp only [Span.length] at hi
    rcases hd with hd | hd
    · rw [if_pos (by omega)]
    · rw [if_neg (by omega), if_neg (by omega)]
  · rw [if_neg hi, if_neg hi]

/-! ### Buffers written from the front

A message is written field by field, each field starting where the previous
one ends.  After each write the buffer is the part already written followed
by what is left of the old contents. -/

/-- The next field goes right behind the part already written. -/
theorem splice_append {a b x : List α} {o : Nat} (h : a.length = o) :
    splice (a ++ b) o x = (a ++ x) ++ b.drop x.length := by
  subst h
  simp [splice, List.drop_append]

theorem splice_zero {b x : List α} : splice b 0 x = x ++ b.drop x.length := by
  simp [splice]

/-- Reading exactly the field behind `a`. -/
theorem slice_append_field {a x b : List α} {r : Span} (ha : a.length = r.start)
    (hx : x.length = r.length) : slice (a ++ x ++ b) r = x := by
  rw [slice, List.append_assoc, List.drop_left' ha, ← hx, List.take_left]

/-- A slice that lies in the first of two appended buffers. -/
theorem slice_append_left {a b : List α} {r : Span} (h : r.stop ≤ a.length) :
    slice (a ++ b) r = slice a r := by
  apply List.ext_getElem?
  intro i
  rw [getElem?_slice, getElem?_slice]
  by_cases hi : i < r.length
  · rw [if_pos hi, if_pos hi]
    simp only [Span.length] at hi
    rw [List.getElem?_append_left (by omega)]
  · rw [if_neg hi, if_neg hi]

end Lists

/-! ### Little-endian numbers -/

/-- A byte string. -/
abbrev Bytes := List UInt8

/-- The `w` low bytes of `n`, least significant first. -/
def toLeBytes : Nat → Nat → Bytes
  | 0, _ => []
  | w + 1, n => UInt8.ofNat (n % 256) :: toLeBytes w (n / 256)

/-- The number a little-endian byte string stands for. -/
def fromLeBytes : Bytes → Nat
  | [] => 0
  | b :: bs => b.toNat + 256 * fromLeBytes bs

@[simp] theorem length_toLeBytes (w n : Nat) : (toLeBytes w n).length = w := by
  induction w generalizing n with
  | zero => rfl
  | succ w ih => simp [toLeBytes, ih]

/-- **Round trip.**  Decoding recovers the number modulo the width. -/
theorem fromLeBytes_toLeBytes (w n : Nat) :
    fromLeBytes (toLeBytes w n) = n % 256 ^ w := by
  induction w generalizing n with
  | zero => simp [toLeBytes, fromLeBytes, Nat.mod_one]
  | succ w ih =>
      have hb : (UInt8.ofNat (n % 256)).toNat = n % 256 := by simp
      rw [toLeBytes, fromLeBytes, ih, hb, pow_succ, mul_comm (256 ^ w) 256, Nat.mod_mul]

/-- `u32::to_le_bytes`. -/
def u32ToLe (n : UInt32) : Bytes := toLeBytes 4 n.toNat

/-- `u32::from_le_bytes`. -/
def u32FromLe (b : Bytes) : UInt32 := UInt32.ofNat (fromLeBytes b)

/-- `u64::to_le_bytes`. -/
def u64ToLe (n : UInt64) : Bytes := toLeBytes 8 n.toNat

/-- `u64::from_le_bytes`. -/
def u64FromLe (b : Bytes) : UInt64 := UInt64.ofNat (fromLeBytes b)

@[simp] theorem length_u32ToLe (n : UInt32) : (u32ToLe n).length = 4 := length_toLeBytes 4 _

@[simp] theorem length_u64ToLe (n : UInt64) : (u64ToLe n).length = 8 := length_toLeBytes 8 _

@[simp] theorem u32FromLe_u32ToLe (n : UInt32) : u32FromLe (u32ToLe n) = n := by
  rw [u32FromLe, u32ToLe, fromLeBytes_toLeBytes, show 256 ^ 4 = 2 ^ 32 from rfl,
    Nat.mod_eq_of_lt n.toNat_lt, UInt32.ofNat_toNat]

@[simp] theorem u64FromLe_u64ToLe (n : UInt64) : u64FromLe (u64ToLe n) = n := by
  rw [u64FromLe, u64ToLe, fromLeBytes_toLeBytes, show 256 ^ 8 = 2 ^ 64 from rfl,
    Nat.mod_eq_of_lt n.toNat_lt, UInt64.ofNat_toNat]

end Tunstile
