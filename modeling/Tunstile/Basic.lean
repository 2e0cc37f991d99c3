/-
Tunstile/Basic.lean

What the driver supplies to the state machines: points on a monotonic clock
and socket addresses.

`Duration` is `core::time::Duration`, counted in nanoseconds and bounded by
its largest value; `Instant` is the newtype of `protocol/src/time.rs`, whose
addition and difference both saturate.  The bound is carried by the value,
so the saturation is part of the arithmetic and not of every proof about it.
-/
import Mathlib.Order.Basic
import Mathlib.Data.Vector.Basic

namespace Tunstile

/-! ### Durations -/

/-- `Duration::MAX` in nanoseconds: `u64::MAX` seconds and 999,999,999 ns. -/
def maxNanos : Nat := (2 ^ 64 - 1) * 10 ^ 9 + 999999999

/-- A span of time, `core::time::Duration`. -/
@[ext] structure Duration where
  nanos : Nat
  le_max : nanos ≤ maxNanos
  deriving DecidableEq

namespace Duration

instance : LinearOrder Duration :=
  LinearOrder.lift' Duration.nanos fun _ _ h => Duration.ext h

theorem le_iff {a b : Duration} : a ≤ b ↔ a.nanos ≤ b.nanos := Iff.rfl

theorem lt_iff {a b : Duration} : a < b ↔ a.nanos < b.nanos := Iff.rfl

/-- A duration of `n` nanoseconds, clipped at the largest one. -/
def ofNanos (n : Nat) : Duration := ⟨min n maxNanos, Nat.min_le_right _ _⟩

/-- `Duration::from_secs`. -/
def fromSecs (s : Nat) : Duration := ofNanos (s * 10 ^ 9)

/-- `Duration::from_millis`. -/
def fromMillis (ms : Nat) : Duration := ofNanos (ms * 10 ^ 6)

/-- `Duration::saturating_add`. -/
def saturatingAdd (a b : Duration) : Duration := ofNanos (a.nanos + b.nanos)

/-- `Duration::saturating_sub`. -/
def saturatingSub (a b : Duration) : Duration :=
  ⟨a.nanos - b.nanos, (Nat.sub_le _ _).trans a.le_max⟩

@[simp] theorem nanos_ofNanos (n : Nat) : (ofNanos n).nanos = min n maxNanos := rfl

@[simp] theorem nanos_saturatingAdd (a b : Duration) :
    (a.saturatingAdd b).nanos = min (a.nanos + b.nanos) maxNanos := rfl

@[simp] theorem nanos_saturatingSub (a b : Duration) :
    (a.saturatingSub b).nanos = a.nanos - b.nanos := rfl

instance : Inhabited Duration := ⟨⟨0, Nat.zero_le _⟩⟩

end Duration

/-! ### Instants -/

/-- A point on the driver's monotonic clock: the time elapsed since an
arbitrary epoch of the driver's choosing. -/
@[ext] structure Instant where
  sinceEpoch : Duration
  deriving DecidableEq

namespace Instant

instance : LinearOrder Instant :=
  LinearOrder.lift' Instant.sinceEpoch fun _ _ h => Instant.ext h

theorem le_iff {a b : Instant} : a ≤ b ↔ a.sinceEpoch.nanos ≤ b.sinceEpoch.nanos := Iff.rfl

theorem lt_iff {a b : Instant} : a < b ↔ a.sinceEpoch.nanos < b.sinceEpoch.nanos := Iff.rfl

/-- Time elapsed since `earlier`, or zero if `earlier` is later. -/
def durationSince (a earlier : Instant) : Duration :=
  a.sinceEpoch.saturatingSub earlier.sinceEpoch

/-- `Instant + Duration`, saturating. -/
instance : HAdd Instant Duration Instant := ⟨fun a d => ⟨a.sinceEpoch.saturatingAdd d⟩⟩

instance : Inhabited Instant := ⟨⟨default⟩⟩

@[simp] theorem nanos_durationSince (a b : Instant) :
    (a.durationSince b).nanos = a.sinceEpoch.nanos - b.sinceEpoch.nanos := rfl

@[simp] theorem nanos_add (a : Instant) (d : Duration) :
    (a + d).sinceEpoch.nanos = min (a.sinceEpoch.nanos + d.nanos) maxNanos := rfl

/-- Elapsed time only grows as the clock moves on. -/
theorem durationSince_mono {a b : Instant} (h : a ≤ b) (e : Instant) :
    a.durationSince e ≤ b.durationSince e :=
  Nat.sub_le_sub_right (le_iff.mp h) _

theorem le_add (a : Instant) (d : Duration) : a ≤ a + d := by
  rw [le_iff, nanos_add]
  exact le_min (Nat.le_add_right _ _) a.sinceEpoch.le_max

/-- A deadline that is not past the largest instant is its whole distance
away. -/
theorem le_durationSince_of_add_le {a b : Instant} {d : Duration} (h : a + d ≤ b)
    (hb : b.sinceEpoch.nanos < maxNanos) : d ≤ b.durationSince a := by
  rw [le_iff, nanos_add] at h
  rw [Duration.le_iff, nanos_durationSince]
  omega

theorem lt_add_of_durationSince_lt {a b : Instant} {d : Duration} (h : b.durationSince a < d)
    (hb : b.sinceEpoch.nanos < maxNanos) : b < a + d := by
  rw [Duration.lt_iff, nanos_durationSince] at h
  rw [lt_iff, nanos_add]
  omega

end Instant

/-! ### Socket addresses -/

/-- `core::net::SocketAddr`. -/
inductive SocketAddr where
  | v4 (octets : List.Vector UInt8 4) (port : UInt16)
  | v6 (octets : List.Vector UInt8 16) (port : UInt16) (flowinfo scopeId : UInt32)
  deriving DecidableEq

end Tunstile
