/-
Tunstile/Replay.lean

The replay filter of a transport session (`protocol/src/transport.rs`,
after RFC 6479) and its exact specification.

The filter keeps the largest counter it has accepted and a ring of 128 words
of 64 bits, cleared lazily as the window moves.  `Accepted f acc` ties a
filter to the list `acc` of counters it has accepted, through the abstract
ring window of `Tunstile/RingWindow.lean`.

Main results:

* `validate_spec` — one call, from any filter that stands for some `acc`: what
  it answers, and which list the filter stands for afterwards.  A refused
  counter leaves the filter exactly as it was, although the code moves the
  window before it tests the bit;
* `validate_exact` — every sequence of calls from the empty filter: a call
  accepts exactly the fresh counters that are inside the window and below
  Reject-After-Messages, and none of its arithmetic or indexing overflows.
-/
import Tunstile.RingWindow
import Mathlib.Data.Nat.Bitwise
import Mathlib.Data.List.MinMax

namespace Tunstile

/-! ### The filter -/

def counterBlockBits : UInt64 := 64
def counterBlocks : Nat := 128
def counterWindow : UInt64 := (UInt64.ofNat counterBlocks - 1) * counterBlockBits

/-- Reject-After-Messages from the WireGuard spec: 2^64 − 2^13 − 1. -/
def rejectAfterMessages : UInt64 := UInt64.ofNat (2 ^ 64 - 1) - (1 : UInt64) <<< 13

/-- Rekey-After-Messages from the WireGuard spec: 2^60. -/
def rekeyAfterMessages : UInt64 := (1 : UInt64) <<< 60

/-- Sliding-window duplicate detection for received counters. -/
structure ReplayFilter where
  last : UInt64
  ring : Vector UInt64 counterBlocks
  deriving DecidableEq

/-- The ring position of a block. -/
def ringIndex (block : UInt64) : Fin counterBlocks :=
  ⟨(block % UInt64.ofNat counterBlocks).toNat, by
    rw [UInt64.toNat_mod]; exact Nat.mod_lt _ (by decide)⟩

theorem ringIndex_lt (block : UInt64) : (ringIndex block : ℕ) < counterBlocks :=
  (ringIndex block).isLt

/-- The clearing loop: zero the words of `n` consecutive blocks from `i` on. -/
def clearBlocks (ring : Vector UInt64 counterBlocks) (i : UInt64) :
    Nat → Vector UInt64 counterBlocks
  | 0 => ring
  | n + 1 => clearBlocks (ring.set (ringIndex i) 0 (ringIndex_lt i)) (i + 1) n

namespace ReplayFilter

/-- Creates an empty filter. -/
def new : ReplayFilter := ⟨0, Vector.replicate counterBlocks 0⟩

/-- Move the window up to `counter`, or refuse a counter older than it. -/
def slide (f : ReplayFilter) (counter : UInt64) : Option ReplayFilter :=
  if f.last < counter then
    let currentBlock := f.last / counterBlockBits
    let diff := min (counter / counterBlockBits - currentBlock) (UInt64.ofNat counterBlocks)
    some { last := counter, ring := clearBlocks f.ring (currentBlock + 1) diff.toNat }
  else if counterWindow < f.last - counter then none
  else some f

/-- Test and set the bit of `counter`. -/
def mark (f : ReplayFilter) (counter : UInt64) : Bool × ReplayFilter :=
  let bit : UInt64 := 1 <<< (counter % counterBlockBits)
  let index := ringIndex (counter / counterBlockBits)
  let block := f.ring[index]
  if block &&& bit ≠ 0 then (false, f)
  else (true, { f with ring := f.ring.set index (block ||| bit) })

/-- Marks a counter used.  False if it was already used, is older than the
window, or exceeds Reject-After-Messages. -/
def validate (f : ReplayFilter) (counter : UInt64) : Bool × ReplayFilter :=
  if rejectAfterMessages ≤ counter then (false, f)
  else match f.slide counter with
    | none => (false, f)
    | some f' => f'.mark counter

/-- One call, keeping the list of counters accepted so far. -/
def validateNext (s : List UInt64 × ReplayFilter) (counter : UInt64) :
    List UInt64 × ReplayFilter :=
  match s.2.validate counter with
  | (true, f') => (counter :: s.1, f')
  | (false, f') => (s.1, f')

/-- The counters a sequence of calls on an empty filter accepts, the latest
first, and the filter after it. -/
def validateAll (counters : List UInt64) : List UInt64 × ReplayFilter :=
  counters.foldl validateNext ([], new)

end ReplayFilter

/-! ### Words as bits -/

/-- Bit `k` of ring position `j`. -/
def ringBit (ring : Vector UInt64 counterBlocks) (j k : ℕ) : Bool :=
  match ring[j]? with
  | some w => w.toNat.testBit k
  | none => false

theorem ringBit_set (ring : Vector UInt64 counterBlocks) (i : Fin counterBlocks) (w : UInt64)
    (j k : ℕ) :
    ringBit (ring.set i w) j k = if i.val = j then w.toNat.testBit k else ringBit ring j k := by
  unfold ringBit
  rw [Vector.getElem?_set]
  by_cases h : i.val = j
  · rw [if_pos h, if_pos h]
  · rw [if_neg h, if_neg h]

theorem ringBit_fin (ring : Vector UInt64 counterBlocks) (i : Fin counterBlocks) (k : ℕ) :
    ringBit ring i k = (ring[i]).toNat.testBit k := by
  simp [ringBit]

theorem toNat_blockBit {c : UInt64} :
    ((1 : UInt64) <<< (c % counterBlockBits)).toNat = 2 ^ (c.toNat % 64) := by
  have h : (c % counterBlockBits).toNat = c.toNat % 64 := by
    rw [UInt64.toNat_mod]; rfl
  have hlt : c.toNat % 64 < 64 := Nat.mod_lt _ (by decide)
  have hp : 2 ^ (c.toNat % 64) < 2 ^ 64 := Nat.pow_lt_pow_right (by decide) hlt
  rw [UInt64.toNat_shiftLeft, h, Nat.mod_eq_of_lt hlt, Nat.shiftLeft_eq, UInt64.toNat_one,
    one_mul, Nat.mod_eq_of_lt hp]

theorem and_blockBit_ne_zero {w c : UInt64} :
    w &&& ((1 : UInt64) <<< (c % counterBlockBits)) ≠ 0 ↔ w.toNat.testBit (c.toNat % 64) = true := by
  rw [Ne, ← UInt64.toNat_inj, UInt64.toNat_and, toNat_blockBit, Nat.and_two_pow]
  cases h : w.toNat.testBit (c.toNat % 64) <;> simp

theorem testBit_or_blockBit {w c : UInt64} (k : ℕ) :
    (w ||| ((1 : UInt64) <<< (c % counterBlockBits))).toNat.testBit k
      = (w.toNat.testBit k || decide (c.toNat % 64 = k)) := by
  rw [UInt64.toNat_or, toNat_blockBit, Nat.testBit_or, Nat.testBit_two_pow]

theorem val_ringIndex (b : UInt64) : (ringIndex b).val = b.toNat % 128 := by
  simp [ringIndex, counterBlocks]

theorem toNat_div_blockBits (c : UInt64) : (c / counterBlockBits).toNat = c.toNat / 64 := by
  rw [UInt64.toNat_div]; rfl

theorem toNat_min (a b : UInt64) : (min a b).toNat = min a.toNat b.toNat := by
  show (if a ≤ b then a else b).toNat = _
  by_cases h : a ≤ b
  · rw [if_pos h, min_eq_left (UInt64.le_iff_toNat_le.mp h)]
  · rw [if_neg h, min_eq_right (by rw [UInt64.le_iff_toNat_le] at h; omega)]

/-! ### The clearing loop -/

/-- The loop zeroes the positions of the blocks it visits and no others. -/
theorem ringBit_clearBlocks (n : ℕ) {ring : Vector UInt64 counterBlocks} {i : UInt64} {i₀ j k : ℕ}
    (hi : i.toNat = i₀ + 1) (hn : i₀ + n + 1 < 2 ^ 64) :
    (Cleared 128 i₀ n j → ringBit (clearBlocks ring i n) j k = false) ∧
      (¬ Cleared 128 i₀ n j → ringBit (clearBlocks ring i n) j k = ringBit ring j k) := by
  induction n generalizing ring i i₀ with
  | zero => exact ⟨fun h => absurd h not_cleared_zero, fun _ => rfl⟩
  | succ n ih =>
      have hsucc : (i + 1).toNat = i₀ + 1 + 1 := by
        rw [UInt64.toNat_add, hi, UInt64.toNat_one]
        omega
      obtain ⟨hclr, hkeep⟩ := @ih (ring.set (ringIndex i) 0) (i + 1) (i₀ + 1) hsucc (by omega)
      have hset : ringBit (ring.set (ringIndex i) 0) j k
          = if (i₀ + 1) % 128 = j then false else ringBit ring j k := by
        rw [ringBit_set, val_ringIndex, hi]
        simp
      rw [cleared_succ, clearBlocks]
      by_cases hc : Cleared 128 (i₀ + 1) n j
      · exact ⟨fun _ => hclr hc, fun h => absurd (Or.inr hc) h⟩
      · rw [hkeep hc, hset]
        refine ⟨?_, fun h => if_neg fun hj => h (Or.inl hj)⟩
        rintro (hj | h)
        · rw [if_pos hj]
        · exact absurd h hc

/-! ### One call -/

/-- The largest counter of a list, 0 if there is none. -/
def largest (acc : List UInt64) : ℕ := (acc.map UInt64.toNat).foldr max 0

theorem le_largest {acc : List UInt64} {c : UInt64} (h : c ∈ acc) : c.toNat ≤ largest acc := by
  induction acc with
  | nil => cases h
  | cons a acc ih =>
      rw [largest, List.map_cons, List.foldr_cons]
      rcases List.mem_cons.mp h with rfl | h
      · exact le_max_left _ _
      · exact (ih h).trans (le_max_right _ _)

/-- The filter `f` stands for the list `acc` of counters it has accepted. -/
structure ReplayFilter.Accepted (f : ReplayFilter) (acc : List UInt64) : Prop where
  last_eq : f.last.toNat = largest acc
  window : Window 128 64 (ringBit f.ring) f.last.toNat {n | ∃ c ∈ acc, c.toNat = n}

/-- What a call must answer: the counter is below Reject-After-Messages,
fresh, and not more than the window below the largest one accepted. -/
def Fresh (acc : List UInt64) (c : UInt64) : Prop :=
  c < rejectAfterMessages ∧ c ∉ acc ∧ largest acc ≤ c.toNat + counterWindow.toNat

namespace ReplayFilter

theorem accepted_new : new.Accepted [] where
  last_eq := rfl
  window := by
    have hset : {n | ∃ c ∈ ([] : List UInt64), c.toNat = n} = (∅ : Set ℕ) := by
      ext n; simp
    rw [hset]
    refine window_empty fun j k => ?_
    unfold ringBit new
    by_cases hj : j < counterBlocks
    · simp [hj]
    · simp [hj]

variable {f f' : ReplayFilter} {acc : List UInt64} {c : UInt64}

/-- A window that slides up to `c` stands for the same counters, with `c` as
its newest number. -/
theorem slide_up (hf : f.Accepted acc) (hc : f.last < c) :
    ∃ f', f.slide c = some f' ∧ f'.last = c ∧
      Window 128 64 (ringBit f'.ring) c.toNat {n | ∃ c ∈ acc, c.toNat = n} := by
  have hlt : f.last.toNat < c.toNat := UInt64.lt_iff_toNat_lt.mp hc
  have hc64 : c.toNat < 2 ^ 64 := c.toNat_lt
  have hle : f.last / counterBlockBits ≤ c / counterBlockBits := by
    rw [UInt64.le_iff_toNat_le, toNat_div_blockBits, toNat_div_blockBits]
    omega
  have hdiff : (min (c / counterBlockBits - f.last / counterBlockBits)
      (UInt64.ofNat counterBlocks)).toNat = min (c.toNat / 64 - f.last.toNat / 64) 128 := by
    rw [toNat_min, UInt64.toNat_sub_of_le _ _ hle, toNat_div_blockBits, toNat_div_blockBits]
    rfl
  have hfirst : (f.last / counterBlockBits + 1).toNat = f.last.toNat / 64 + 1 := by
    rw [UInt64.toNat_add, toNat_div_blockBits, UInt64.toNat_one]
    omega
  refine ⟨_, if_pos hc, rfl, ?_⟩
  refine hf.window.advance (by decide) hlt.le ?_ ?_ <;> intro j k hj
  · simp only [hdiff]
    exact (ringBit_clearBlocks _ hfirst (by omega)).1 hj
  · simp only [hdiff]
    exact (ringBit_clearBlocks _ hfirst (by omega)).2 hj

/-- Testing and setting a bit inside the window: a counter already in the set
is refused and changes nothing, another one is inserted. -/
theorem mark_spec {S : Set ℕ} (hw : Window 128 64 (ringBit f.ring) f.last.toNat S)
    (hc : c.toNat ≤ f.last.toNat) (hin : f.last.toNat / 64 < c.toNat / 64 + 128) :
    (c.toNat ∈ S → f.mark c = (false, f)) ∧
      (c.toNat ∉ S → ∃ f', f.mark c = (true, f') ∧ f'.last = f.last ∧
        Window 128 64 (ringBit f'.ring) f.last.toNat (insert c.toNat S)) := by
  have hpos : (ringIndex (c / counterBlockBits)).val = c.toNat / 64 % 128 := by
    rw [val_ringIndex, toNat_div_blockBits]
  have hbit : f.ring[ringIndex (c / counterBlockBits)] &&&
      ((1 : UInt64) <<< (c % counterBlockBits)) ≠ 0 ↔ c.toNat ∈ S := by
    rw [and_blockBit_ne_zero, ← ringBit_fin, hpos]
    exact hw.bit_iff c.toNat (Nat.div_le_div_right hc) hin
  constructor
  · intro hmem
    exact if_pos (hbit.mpr hmem)
  · intro hmem
    refine ⟨_, if_neg (mt hbit.mp hmem), rfl, ?_⟩
    refine hw.mark hc hin ?_ fun j k hjk => ?_
    · rw [ringBit_set, if_pos hpos, testBit_or_blockBit]
      simp
    · rw [ringBit_set, hpos]
      by_cases hj : c.toNat / 64 % 128 = j
      · -- the same word, another bit
        have hk : ¬ c.toNat % 64 = k := fun hk => hjk ⟨hj.symm, hk.symm⟩
        rw [if_pos hj, testBit_or_blockBit, ← ringBit_fin, hpos, hj]
        simp [hk]
      · rw [if_neg hj]

/-- **One call.**  From a filter that stands for `acc`, a counter the
specification admits is accepted and recorded; any other is refused and the
filter is left exactly as it was. -/
theorem validate_spec (hf : f.Accepted acc) (c : UInt64) :
    (Fresh acc c → ∃ f', f.validate c = (true, f') ∧ f'.Accepted (c :: acc)) ∧
      (¬ Fresh acc c → f.validate c = (false, f)) := by
  have hmem : c.toNat ∈ {n | ∃ c ∈ acc, c.toNat = n} ↔ c ∈ acc := by
    constructor
    · rintro ⟨c', hc', h⟩
      exact UInt64.toNat_inj.mp h ▸ hc'
    · exact fun h => ⟨c, h, rfl⟩
  have hset : {n | ∃ c' ∈ c :: acc, c'.toNat = n}
      = insert c.toNat {n | ∃ c ∈ acc, c.toNat = n} := by
    ext n
    simp [eq_comm]
  by_cases hrej : rejectAfterMessages ≤ c
  · have hnot : ¬ Fresh acc c := fun h => absurd h.1 (UInt64.not_lt.mpr hrej)
    exact ⟨fun h => absurd h hnot, fun _ => if_pos hrej⟩
  have hlt : c < rejectAfterMessages := UInt64.not_le.mp hrej
  rw [validate, if_neg hrej]
  by_cases hup : f.last < c
  · -- the window slides: a counter above the largest one is always fresh
    have hnew : c ∉ acc := fun h => by
      have := le_largest h
      rw [← hf.last_eq] at this
      exact absurd (UInt64.lt_iff_toNat_lt.mp hup) (by omega)
    have hfresh : Fresh acc c := by
      refine ⟨hlt, hnew, ?_⟩
      rw [← hf.last_eq]
      have := UInt64.lt_iff_toNat_lt.mp hup
      omega
    obtain ⟨f₁, hslide, hlast, hw⟩ := slide_up hf hup
    rw [← hlast] at hw
    obtain ⟨f₂, hmark, hlast₂, hw₂⟩ := (mark_spec (c := c) hw (by rw [hlast]) (by
      rw [hlast]; omega)).2 (mt hmem.mp hnew)
    refine ⟨fun _ => ⟨f₂, by rw [hslide]; exact hmark, ?_, ?_⟩, fun h => absurd hfresh h⟩
    · rw [hlast₂, hlast]
      show c.toNat = max c.toNat (largest acc)
      rw [← hf.last_eq, max_eq_left (UInt64.lt_iff_toNat_lt.mp hup).le]
    · rw [hset, hlast₂]
      exact hw₂
  · have hle : c ≤ f.last := UInt64.not_lt.mp hup
    have hle' : c.toNat ≤ f.last.toNat := UInt64.le_iff_toNat_le.mp hle
    have hage : counterWindow < f.last - c ↔ c.toNat + counterWindow.toNat < largest acc := by
      rw [UInt64.lt_iff_toNat_lt, UInt64.toNat_sub_of_le _ _ hle, ← hf.last_eq]
      omega
    by_cases hold : counterWindow < f.last - c
    · have hnot : ¬ Fresh acc c := fun h => absurd h.2.2 (by have := hage.mp hold; omega)
      have hslide : f.slide c = none := by rw [slide, if_neg hup, if_pos hold]
      exact ⟨fun h => absurd h hnot, fun _ => by rw [hslide]⟩
    · -- inside the window: the answer is the bit
      have hslide : f.slide c = some f := by rw [slide, if_neg hup, if_neg hold]
      have hyoung : largest acc ≤ c.toNat + counterWindow.toNat := by
        have := mt hage.mpr hold
        omega
      have hwin : counterWindow.toNat = 127 * 64 := by decide
      have hin : f.last.toNat / 64 < c.toNat / 64 + 128 := by
        rw [hf.last_eq]
        omega
      obtain ⟨hseen, hnew⟩ := mark_spec hf.window hle' hin
      rw [hslide]
      constructor
      · intro hfresh
        obtain ⟨f₂, hmark, hlast₂, hw₂⟩ := hnew (mt hmem.mp hfresh.2.1)
        refine ⟨f₂, hmark, ?_, ?_⟩
        · rw [hlast₂, hf.last_eq]
          show largest acc = max c.toNat (largest acc)
          rw [max_eq_right (hf.last_eq ▸ hle')]
        · rw [hset, hlast₂]
          exact hw₂
      · intro hnot
        refine hseen (hmem.mpr ?_)
        by_contra hmem'
        exact hnot ⟨hlt, hmem', hyoung⟩

/-- What an accepting call says. -/
theorem validate_true {f' : ReplayFilter} (hf : f.Accepted acc)
    (h : f.validate c = (true, f')) : Fresh acc c ∧ f'.Accepted (c :: acc) := by
  by_cases hfresh : Fresh acc c
  · obtain ⟨f₂, hval, hacc⟩ := (validate_spec hf c).1 hfresh
    cases h.symm.trans hval
    exact ⟨hfresh, hacc⟩
  · cases h.symm.trans ((validate_spec hf c).2 hfresh)

/-! ### Every sequence of calls -/

/-- Along any sequence of calls the filter stands for the counters accepted
so far, none of them accepted twice. -/
theorem validateAll_accepted (cs : List UInt64) :
    (validateAll cs).2.Accepted (validateAll cs).1 ∧ (validateAll cs).1.Nodup := by
  -- induction on the calls, from an arbitrary filter that stands for its list
  have aux : ∀ (cs : List UInt64) (s : List UInt64 × ReplayFilter),
      s.2.Accepted s.1 → s.1.Nodup →
      (cs.foldl validateNext s).2.Accepted (cs.foldl validateNext s).1 ∧
        (cs.foldl validateNext s).1.Nodup := by
    intro cs
    induction cs with
    | nil => exact fun s ha hn => ⟨ha, hn⟩
    | cons c cs ih =>
        intro s ha hn
        rw [List.foldl_cons]
        obtain ⟨hyes, hno⟩ := validate_spec ha c
        by_cases hc : Fresh s.1 c
        · obtain ⟨f', hv, ha'⟩ := hyes hc
          have hstep : validateNext s c = (c :: s.1, f') := by rw [validateNext, hv]
          rw [hstep]
          exact ih _ ha' (List.nodup_cons.mpr ⟨hc.2.1, hn⟩)
        · have hstep : validateNext s c = s := by rw [validateNext, hno hc]
          rw [hstep]
          exact ih s ha hn
  exact aux cs _ accepted_new List.nodup_nil

end ReplayFilter

/-! ### The same call with every check the language makes

`none` is a panic: an overflowing `u64` operation, an oversized shift or an
index outside the ring.  The plain definitions above wrap and index modulo
the ring instead; `validateChecked_eq` says the difference is never seen. -/

def checkedAdd (a b : UInt64) : Option UInt64 :=
  if a.toNat + b.toNat < 2 ^ 64 then some (a + b) else none

def checkedSub (a b : UInt64) : Option UInt64 :=
  if b ≤ a then some (a - b) else none

def checkedShl (a b : UInt64) : Option UInt64 :=
  if b < 64 then some (a <<< b) else none

def checkedSet (ring : Vector UInt64 counterBlocks) (i w : UInt64) :
    Option (Vector UInt64 counterBlocks) :=
  if h : i.toNat < counterBlocks then some (ring.set i.toNat w) else none

def clearBlocksChecked (ring : Vector UInt64 counterBlocks) (i : UInt64) :
    Nat → Option (Vector UInt64 counterBlocks)
  | 0 => some ring
  | n + 1 => do
      let ring ← checkedSet ring (i % UInt64.ofNat counterBlocks) 0
      clearBlocksChecked ring (i + 1) n

namespace ReplayFilter

def slideChecked (f : ReplayFilter) (counter : UInt64) : Option (Option ReplayFilter) :=
  if f.last < counter then do
    let currentBlock := f.last / counterBlockBits
    let gap ← checkedSub (counter / counterBlockBits) currentBlock
    let diff := min gap (UInt64.ofNat counterBlocks)
    let first ← checkedAdd currentBlock 1
    let _final ← checkedAdd currentBlock diff
    let ring ← clearBlocksChecked f.ring first diff.toNat
    some (some { last := counter, ring := ring })
  else do
    let age ← checkedSub f.last counter
    some (if counterWindow < age then none else some f)

def markChecked (f : ReplayFilter) (counter : UInt64) : Option (Bool × ReplayFilter) := do
  let bit ← checkedShl 1 (counter % counterBlockBits)
  let index := counter / counterBlockBits % UInt64.ofNat counterBlocks
  let block ← f.ring[index.toNat]?
  if block &&& bit ≠ 0 then some (false, f)
  else do
    let ring ← checkedSet f.ring index (block ||| bit)
    some (true, { f with ring := ring })

def validateChecked (f : ReplayFilter) (counter : UInt64) : Option (Bool × ReplayFilter) :=
  if rejectAfterMessages ≤ counter then some (false, f)
  else do
    match ← f.slideChecked counter with
    | none => some (false, f)
    | some f' => f'.markChecked counter

theorem checkedSet_eq (ring : Vector UInt64 counterBlocks) (b w : UInt64) :
    checkedSet ring (b % UInt64.ofNat counterBlocks) w =
      some (ring.set (ringIndex b) w (ringIndex_lt b)) :=
  dif_pos (ringIndex_lt b)

theorem clearBlocksChecked_eq (n : ℕ) (ring : Vector UInt64 counterBlocks) (i : UInt64) :
    clearBlocksChecked ring i n = some (clearBlocks ring i n) := by
  induction n generalizing ring i with
  | zero => rfl
  | succ n ih => rw [clearBlocksChecked, checkedSet_eq, Option.bind_eq_bind, Option.bind_some, ih,
      clearBlocks]

theorem slideChecked_eq (f : ReplayFilter) (c : UInt64) :
    f.slideChecked c = some (f.slide c) := by
  have h64 : f.last.toNat < 2 ^ 64 := f.last.toNat_lt
  by_cases hup : f.last < c
  · have hle : f.last / counterBlockBits ≤ c / counterBlockBits := by
      rw [UInt64.le_iff_toNat_le, toNat_div_blockBits, toNat_div_blockBits]
      exact Nat.div_le_div_right (UInt64.lt_iff_toNat_lt.mp hup).le
    have hsub : checkedSub (c / counterBlockBits) (f.last / counterBlockBits)
        = some (c / counterBlockBits - f.last / counterBlockBits) := if_pos hle
    have hone : checkedAdd (f.last / counterBlockBits) 1 = some (f.last / counterBlockBits + 1) := by
      refine if_pos ?_
      rw [toNat_div_blockBits, UInt64.toNat_one]
      omega
    have hend : ∀ gap : UInt64,
        checkedAdd (f.last / counterBlockBits) (min gap (UInt64.ofNat counterBlocks))
          = some (f.last / counterBlockBits + min gap (UInt64.ofNat counterBlocks)) := by
      intro gap
      have hmin : (min gap (UInt64.ofNat counterBlocks)).toNat ≤ 128 := by
        rw [toNat_min]
        exact min_le_right _ _
      refine if_pos ?_
      rw [toNat_div_blockBits]
      omega
    simp only [slideChecked, slide, if_pos hup, hsub, hone, hend, clearBlocksChecked_eq,
      Option.bind_eq_bind, Option.bind_some]
  · have hsub : checkedSub f.last c = some (f.last - c) := if_pos (UInt64.not_lt.mp hup)
    simp only [slideChecked, slide, if_neg hup, hsub, Option.bind_eq_bind, Option.bind_some]

theorem markChecked_eq (f : ReplayFilter) (c : UInt64) :
    f.markChecked c = some (f.mark c) := by
  have hshl : checkedShl 1 (c % counterBlockBits)
      = some ((1 : UInt64) <<< (c % counterBlockBits)) := by
    refine if_pos ?_
    rw [UInt64.lt_iff_toNat_lt, UInt64.toNat_mod]
    exact Nat.mod_lt _ (by decide)
  have hget : f.ring[(c / counterBlockBits % UInt64.ofNat counterBlocks).toNat]?
      = some f.ring[ringIndex (c / counterBlockBits)] :=
    Vector.getElem?_eq_getElem (ringIndex_lt (c / counterBlockBits))
  simp only [markChecked, mark, hshl, hget, checkedSet_eq, Option.bind_eq_bind, Option.bind_some]
  split <;> rfl

/-- No call panics, whatever the filter holds: the checked call returns, and
returns what the plain one does. -/
theorem validateChecked_eq (f : ReplayFilter) (c : UInt64) :
    f.validateChecked c = some (f.validate c) := by
  rw [validateChecked, validate]
  by_cases hrej : rejectAfterMessages ≤ c
  · rw [if_pos hrej, if_pos hrej]
  · rw [if_neg hrej, if_neg hrej, slideChecked_eq, Option.bind_eq_bind, Option.bind_some]
    cases f.slide c with
    | none => rfl
    | some f' => exact markChecked_eq f' c

/-- **The replay window, exactly.**  After any sequence of calls on an empty
filter, the next call accepts its counter if and only if the counter is below
Reject-After-Messages, was not accepted before and is not more than the
window below the largest counter accepted so far; no counter is accepted
twice; and the call stays inside the ring and inside `u64`. -/
theorem validate_exact (counters : List UInt64) (c : UInt64) :
    (((validateAll counters).2.validate c).1 = true ↔
        c < rejectAfterMessages ∧ c ∉ (validateAll counters).1 ∧
          largest (validateAll counters).1 ≤ c.toNat + counterWindow.toNat) ∧
      (validateAll counters).1.Nodup ∧
      (validateAll counters).2.validateChecked c
        = some ((validateAll counters).2.validate c) := by
  obtain ⟨hacc, hnodup⟩ := validateAll_accepted counters
  obtain ⟨hyes, hno⟩ := validate_spec hacc c
  refine ⟨⟨fun h => ?_, fun h => ?_⟩, hnodup, validateChecked_eq _ c⟩
  · by_contra hfresh
    rw [hno hfresh] at h
    cases h
  · obtain ⟨f', hv, -⟩ := hyes h
    rw [hv]

end ReplayFilter

end Tunstile
