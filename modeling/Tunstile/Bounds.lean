/-
Tunstile/Bounds.lean

Buffer accesses that can fail.

Slicing outside a buffer, subtracting past zero, copying between fields of
different lengths and taking an array of the wrong size all abort a program.
Here each is a partial operation, `none` where it aborts, with one lemma that
says when it does not.

`Consecutive a rs b` says that the spans `rs` cover `a..b` without gaps or
empty spans; what they cut out of a buffer then adds up to that part of it.
-/
import Tunstile.Buffer

namespace Tunstile

variable {α : Type*}

/-- `buf[r.start..r.stop]`. -/
def sliceChecked (buf : List α) (r : Span) : Option (List α) :=
  if r.start ≤ r.stop ∧ r.stop ≤ buf.length then some (slice buf r) else none

/-- `buf[..n]`. -/
def takeChecked (buf : List α) (n : ℕ) : Option (List α) :=
  if n ≤ buf.length then some (buf.take n) else none

/-- `buf[n..]`. -/
def dropChecked (buf : List α) (n : ℕ) : Option (List α) :=
  if n ≤ buf.length then some (buf.drop n) else none

/-- `m - n` on lengths. -/
def subChecked (m n : ℕ) : Option ℕ := if n ≤ m then some (m - n) else none

/-- `buf[r.start..r.stop].copy_from_slice(x)`. -/
def copyChecked (buf : List α) (r : Span) (x : List α) : Option (List α) :=
  if r.start ≤ r.stop ∧ r.stop ≤ buf.length ∧ x.length = r.length then
    some (splice buf r.start x)
  else none

/-- An array of `n` elements from a slice, unwrapped. -/
def arrayChecked (n : ℕ) (x : List α) : Option (List α) := if x.length = n then some x else none

theorem sliceChecked_eq {buf : List α} {r : Span} (hr : r.start ≤ r.stop)
    (h : r.stop ≤ buf.length) : sliceChecked buf r = some (slice buf r) :=
  if_pos ⟨hr, h⟩

theorem takeChecked_eq {buf : List α} {n : ℕ} (h : n ≤ buf.length) :
    takeChecked buf n = some (buf.take n) :=
  if_pos h

theorem dropChecked_eq {buf : List α} {n : ℕ} (h : n ≤ buf.length) :
    dropChecked buf n = some (buf.drop n) :=
  if_pos h

theorem subChecked_eq {m n : ℕ} (h : n ≤ m) : subChecked m n = some (m - n) :=
  if_pos h

theorem copyChecked_eq {buf x : List α} {r : Span} (hr : r.start ≤ r.stop)
    (h : r.stop ≤ buf.length) (hx : x.length = r.length) :
    copyChecked buf r x = some (splice buf r.start x) :=
  if_pos ⟨hr, h, hx⟩

theorem arrayChecked_eq {n : ℕ} {x : List α} (h : x.length = n) : arrayChecked n x = some x :=
  if_pos h

/-- Copying into a buffer of known length keeps it. -/
theorem copyChecked_of_length {buf x : List α} {r : Span} {n : ℕ} (hbuf : buf.length = n)
    (hx : r.start + x.length = r.stop) (hn : r.stop ≤ n) :
    copyChecked buf r x = some (splice buf r.start x) ∧ (splice buf r.start x).length = n := by
  constructor
  · exact copyChecked_eq (by omega) (by omega) (by rw [Span.length]; omega)
  · rw [length_splice (by omega), hbuf]

/-- Overwriting a whole buffer. -/
theorem copyChecked_whole {buf x : List α} {n : ℕ} (hbuf : buf.length = n) (hx : x.length = n) :
    copyChecked buf ⟨0, n⟩ x = some x := by
  rw [copyChecked_eq (Nat.zero_le _) hbuf.ge hx, splice_zero,
    List.drop_eq_nil_of_le (by omega), List.append_nil]

/-- A slice has the length of its span, so it makes an array of that size. -/
theorem arrayChecked_slice {buf : List α} {r : Span} {n : ℕ} (h : r.stop ≤ buf.length)
    (hn : r.length = n) : arrayChecked n (slice buf r) = some (slice buf r) :=
  arrayChecked_eq ((length_slice h).trans hn)

/-- The fields of a buffer of known length. -/
theorem sliceChecked_of_length {buf : List α} {n : ℕ} (hbuf : buf.length = n) {r : Span}
    (hr : r.start ≤ r.stop) (hn : r.stop ≤ n) : sliceChecked buf r = some (slice buf r) :=
  sliceChecked_eq hr (hn.trans hbuf.ge)

/-- The same, as arrays. -/
theorem arrayChecked_of_length {buf : List α} {n : ℕ} (hbuf : buf.length = n) {r : Span}
    (hn : r.stop ≤ n) : arrayChecked r.length (slice buf r) = some (slice buf r) :=
  arrayChecked_slice (hn.trans hbuf.ge) rfl

theorem length_slice_of_length {buf : List α} {n : ℕ} (hbuf : buf.length = n) {r : Span}
    (hn : r.stop ≤ n) : (slice buf r).length = r.length :=
  length_slice (hn.trans hbuf.ge)

/-- Cutting out spans that all lie inside the buffer. -/
theorem mapM_sliceChecked {buf : List α} {rs : List Span}
    (h : ∀ r ∈ rs, r.start ≤ r.stop ∧ r.stop ≤ buf.length) :
    rs.mapM (sliceChecked buf) = some (rs.map (slice buf)) := by
  induction rs with
  | nil => rfl
  | cons r rs ih =>
      obtain ⟨hr, hstop⟩ := h r List.mem_cons_self
      rw [List.mapM_cons, sliceChecked_eq hr hstop, ih fun s hs => h s (List.mem_cons_of_mem r hs)]
      rfl

/-! ### Consecutive spans -/

/-- The spans cover `a..b` in order, none of them empty. -/
def Consecutive : ℕ → List Span → ℕ → Prop
  | a, [], b => a = b
  | a, r :: rs, b => r.start = a ∧ r.start < r.stop ∧ Consecutive r.stop rs b

theorem Consecutive.le {a b : ℕ} {rs : List Span} (h : Consecutive a rs b) : a ≤ b := by
  induction rs generalizing a with
  | nil => exact le_of_eq h
  | cons r rs ih =>
      obtain ⟨rfl, hlt, hrest⟩ := h
      exact hlt.le.trans (ih hrest)

/-- Each span is not empty and lies below the end. -/
theorem Consecutive.mem {a b : ℕ} {rs : List Span} (h : Consecutive a rs b) {r : Span}
    (hr : r ∈ rs) : r.start < r.stop ∧ r.stop ≤ b := by
  induction rs generalizing a with
  | nil => cases hr
  | cons s rs ih =>
      obtain ⟨-, hlt, hrest⟩ := h
      rcases List.mem_cons.mp hr with rfl | hr
      · exact ⟨hlt, hrest.le⟩
      · exact ih hrest hr

theorem slice_append_slice {buf : List α} {a m b : ℕ} (ham : a ≤ m) (hmb : m ≤ b) :
    slice buf ⟨a, m⟩ ++ slice buf ⟨m, b⟩ = slice buf ⟨a, b⟩ := by
  have hdrop : buf.drop m = (buf.drop a).drop (m - a) := by
    rw [List.drop_drop, Nat.add_sub_cancel' ham]
  have hlen : b - a = (m - a) + (b - m) := by omega
  simp only [slice, Span.length]
  rw [hdrop, hlen, List.take_add]

/-- What consecutive spans cut out adds up. -/
theorem Consecutive.flatten_slice {a b : ℕ} {rs : List Span} (h : Consecutive a rs b)
    (buf : List α) : (rs.map (slice buf)).flatten = slice buf ⟨a, b⟩ := by
  induction rs generalizing a with
  | nil =>
      obtain rfl : a = b := h
      simp [slice, Span.length]
  | cons r rs ih =>
      obtain ⟨rfl, hlt, hrest⟩ := h
      rw [List.map_cons, List.flatten_cons, ih hrest]
      exact slice_append_slice hlt.le hrest.le

end Tunstile
