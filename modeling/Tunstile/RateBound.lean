/-
Tunstile/RateBound.lean

How many handshakes pass without a cookie.

The load guard counts in windows that it opens lazily: at the first handshake
that arrives a second or more after the last opening.  `checks` pairs each
call of a run with the guard that handles it.  One call either leaves the
guard alone or counts (`check_after`); over a run the counts bound what
passes unproven in each window (`countP_unproven_le`), and the windows are
those of `Windows.lean` (`follows_checks`), which gives the bound for every
second.
-/
import Tunstile.CookieBinding
import Tunstile.Windows

namespace Tunstile

variable {C : Crypto}

/-! ### Calls and their guards -/

/-- The arguments of one call of `check`. -/
structure CheckCall where
  now : Instant
  msg : Bytes
  source : SocketAddr
  nonce : CookieNonce

/-- A call and the guard it is made on. -/
structure Check (C : Crypto) where
  guard : LoadGuard C
  call : CheckCall

namespace Check

def decision (v : Check C) (X : CookieSeal C) : HandshakeDecision :=
  (v.guard.check X v.call.now v.call.msg v.call.source v.call.nonce).1

/-- The guard after the call. -/
def after (v : Check C) (X : CookieSeal C) : LoadGuard C :=
  (v.guard.check X v.call.now v.call.msg v.call.source v.call.nonce).2

/-- Header and mac1 are valid. -/
def admitted (v : Check C) : Bool :=
  isHandshake v.call.msg && v.guard.verifier.verifyMac1 v.call.msg

/-- The mac2 is valid for the source. -/
def proven (v : Check C) : Bool :=
  v.guard.verifier.verifyMac2 v.call.msg (cookieInput v.call.source) v.guard.secret

/-- The call returned `Process` for a message without a valid mac2. -/
def unproven (v : Check C) (X : CookieSeal C) : Bool :=
  decide (v.decision X = .process) && !v.proven

/-- The start of the window in which the call counts, if it does. -/
def window (v : Check C) : Instant := (v.guard.counted v.call.now).windowStart

theorem admitted_iff (v : Check C) : v.admitted = true ↔ v.guard.Admits v.call.msg :=
  Bool.and_eq_true_iff

end Check

namespace LoadGuard

/-- The calls of a run, each with the guard it is made on. -/
def checks (X : CookieSeal C) : LoadGuard C → List CheckCall → List (Check C)
  | _, [] => []
  | g, call :: rest => ⟨g, call⟩ :: checks X ((Check.mk g call).after X) rest

/-! ### One call -/

/-- A call leaves the guard as it is, or counts. -/
theorem check_after (X : CookieSeal C) (v : Check C) :
    v.admitted = false ∧ v.decision X = .drop ∧ v.after X = v.guard ∨
      v.admitted = true ∧ v.after X = v.guard.counted v.call.now := by
  rcases v.guard.check_cases X v.call.now v.call.msg v.call.source v.call.nonce with
    ⟨hnot, h⟩ | ⟨hadmits, -, h⟩ | ⟨hadmits, -, -, h⟩ | ⟨hadmits, -, -, h⟩
  · refine Or.inl ⟨?_, congrArg Prod.fst h, congrArg Prod.snd h⟩
    exact Bool.eq_false_iff.mpr fun hadmitted => hnot (v.admitted_iff.mp hadmitted)
  all_goals exact Or.inr ⟨v.admitted_iff.mpr hadmits, congrArg Prod.snd h⟩

/-- How a run goes on after a call. -/
theorem checks_cons (X : CookieSeal C) (g : LoadGuard C) (call : CheckCall)
    (rest : List CheckCall) :
    Check.admitted ⟨g, call⟩ = false ∧
        g.checks X (call :: rest) = ⟨g, call⟩ :: g.checks X rest ∨
      Check.admitted ⟨g, call⟩ = true ∧
        g.checks X (call :: rest) = ⟨g, call⟩ :: (g.counted call.now).checks X rest := by
  rcases check_after X ⟨g, call⟩ with ⟨hnot, -, hafter⟩ | ⟨hadmitted, hafter⟩
  · exact Or.inl ⟨hnot, by rw [checks, hafter]⟩
  · exact Or.inr ⟨hadmitted, by rw [checks, hafter]⟩

/-- What passes unproven is within the rate. -/
theorem le_max_of_unproven {X : CookieSeal C} {v : Check C} (h : v.unproven X = true) :
    v.admitted = true ∧
      (v.guard.counted v.call.now).handshakes ≤ (v.guard.counted v.call.now).maxPerSecond := by
  rw [Check.unproven, Bool.and_eq_true, decide_eq_true_eq, Bool.not_eq_true'] at h
  obtain ⟨hadmits, hloaded⟩ := (v.guard.check_process_iff X _ _ _ _).mp h.1
  refine ⟨v.admitted_iff.mpr hadmits, UInt32.not_lt.mp fun hload => ?_⟩
  cases h.2.symm.trans (hloaded hload)

/-- Counting stays in the window, or opens one a second or more after it. -/
theorem counted_cases (g : LoadGuard C) (now : Instant) :
    (g.counted now).windowStart = g.windowStart ∧
        (g.counted now).handshakes = g.handshakes + 1 ∨
      g.windowStart.sinceEpoch.nanos + (Duration.fromSecs 1).nanos ≤ now.sinceEpoch.nanos ∧
        (g.counted now).windowStart = now ∧ (g.counted now).handshakes = 1 := by
  have hsecond : 0 < (Duration.fromSecs 1).nanos := by decide
  unfold counted
  split
  · rename_i hover
    rw [Duration.le_iff, Instant.nanos_durationSince] at hover
    exact Or.inr ⟨by omega, rfl, rfl⟩
  · exact Or.inl ⟨rfl, rfl⟩

@[simp] theorem maxPerSecond_counted (g : LoadGuard C) (now : Instant) :
    (g.counted now).maxPerSecond = g.maxPerSecond := by
  unfold counted; split <;> rfl

/-! ### Windows of a run -/

/-- Where the windows of a run lie: the guard's own, or opened during the run
and a second or more later. -/
theorem window_of_mem_checks (X : CookieSeal C) {g : LoadGuard C} {calls : List CheckCall}
    {t : Instant} (ht : ∀ call ∈ calls, t ≤ call.now) {v : Check C} (hv : v ∈ g.checks X calls)
    (hadmitted : v.admitted = true) :
    v.window = g.windowStart ∨ t ≤ v.window ∧
      g.windowStart.sinceEpoch.nanos + (Duration.fromSecs 1).nanos ≤ v.window.sinceEpoch.nanos := by
  induction calls generalizing g with
  | nil => cases hv
  | cons call rest ih =>
      have hnow := ht call List.mem_cons_self
      have htail (g' : LoadGuard C) (hv : v ∈ g'.checks X rest) :=
        ih (g := g') (fun call hcall => ht call (List.mem_cons_of_mem _ hcall)) hv
      have hcount := g.counted_cases call.now
      rcases g.checks_cons X call rest with ⟨hnot, heq⟩ | ⟨-, heq⟩ <;> rw [heq] at hv
      · rcases List.mem_cons.mp hv with rfl | hv
        · cases hnot.symm.trans hadmitted
        · exact htail g hv
      rcases hcount with ⟨hsame, -⟩ | ⟨hlater, hopen, -⟩
      · rcases List.mem_cons.mp hv with rfl | hv
        · exact Or.inl hsame
        · have hwindow := htail _ hv
          rwa [hsame] at hwindow
      · rcases List.mem_cons.mp hv with rfl | hv
        · have hwindow : Check.window ⟨g, call⟩ = call.now := hopen
          rw [hwindow]
          exact Or.inr ⟨hnow, hlater⟩
        · have hwindow := htail _ hv
          rw [hopen] at hwindow
          rcases hwindow with heq | ⟨hle, hmore⟩
          · rw [heq]
            exact Or.inr ⟨hnow, hlater⟩
          · exact Or.inr ⟨hle, by omega⟩

/-- The windows follow each other a second or more apart. -/
theorem follows_checks (X : CookieSeal C) {g : LoadGuard C} {calls : List CheckCall}
    (htimes : calls.Pairwise fun a b => a.now ≤ b.now) :
    ((g.checks X calls).filter Check.admitted).Pairwise
      (Follows (fun v => v.call.now.sinceEpoch.nanos) (fun v => v.window.sinceEpoch.nanos)
        (Duration.fromSecs 1).nanos) := by
  induction calls generalizing g with
  | nil => exact List.Pairwise.nil
  | cons call rest ih =>
      obtain ⟨hnow, hrest⟩ := List.pairwise_cons.mp htimes
      rcases g.checks_cons X call rest with ⟨hnot, heq⟩ | ⟨hadmitted, heq⟩ <;> rw [heq]
      · rw [List.filter_cons_of_neg (by rw [hnot]; exact Bool.false_ne_true)]
        exact ih hrest
      · rw [List.filter_cons_of_pos hadmitted]
        refine List.pairwise_cons.mpr ⟨fun v hv => ?_, ih hrest⟩
        obtain ⟨hv, hvadmitted⟩ := List.mem_filter.mp hv
        rcases window_of_mem_checks X hnow hv hvadmitted with heq | ⟨hle, hmore⟩
        · exact Or.inl (congrArg (fun t => t.sinceEpoch.nanos) heq.symm)
        · exact Or.inr ⟨Instant.le_iff.mp hle, hmore⟩

/-- No window starts after a call that counts in it. -/
theorem window_le_now (X : CookieSeal C) {g : LoadGuard C} {calls : List CheckCall}
    (hstart : ∀ call ∈ calls, g.windowStart ≤ call.now)
    (htimes : calls.Pairwise fun a b => a.now ≤ b.now) {v : Check C}
    (hv : v ∈ g.checks X calls) : v.window ≤ v.call.now := by
  induction calls generalizing g with
  | nil => cases hv
  | cons call rest ih =>
      obtain ⟨hnow, hrest⟩ := List.pairwise_cons.mp htimes
      have hcount : (g.counted call.now).windowStart = g.windowStart ∨
          (g.counted call.now).windowStart = call.now :=
        (g.counted_cases call.now).imp And.left fun h => h.2.1
      have hold : ∀ later ∈ rest, g.windowStart ≤ later.now := fun later hlater =>
        hstart later (List.mem_cons_of_mem _ hlater)
      have hhead : (g.counted call.now).windowStart ≤ call.now := by
        rcases hcount with h | h
        · exact h.le.trans (hstart call List.mem_cons_self)
        · exact h.le
      rcases g.checks_cons X call rest with ⟨-, heq⟩ | ⟨-, heq⟩ <;> rw [heq] at hv <;>
        rcases List.mem_cons.mp hv with rfl | hv
      · exact hhead
      · exact ih hold hrest hv
      · exact hhead
      · exact ih (fun later hlater => hhead.trans (hnow later hlater)) hrest hv

/-! ### The budget of a window -/

/-- What may still pass unproven in a window, given the guard. -/
def budget (g : LoadGuard C) (w : Instant) : ℕ :=
  if w < g.windowStart then 0
  else if w = g.windowStart then g.maxPerSecond.toNat - g.handshakes.toNat
  else g.maxPerSecond.toNat

/-- What was counted in a window already, given the guard. -/
def spent (g : LoadGuard C) (w : Instant) : ℕ := if w = g.windowStart then g.handshakes.toNat else 0

/-- Counting takes one from the window it counts in. -/
theorem handshakes_counted {g : LoadGuard C} {now : Instant}
    (hroom : g.spent (g.counted now).windowStart + 1 < 2 ^ 32) :
    (g.counted now).handshakes.toNat = g.spent (g.counted now).windowStart + 1 := by
  rcases g.counted_cases now with ⟨hsame, hone⟩ | ⟨hlater, hopen, hone⟩
  · rw [hsame, spent, if_pos rfl] at hroom ⊢
    rw [hone, UInt32.toNat_add]
    exact Nat.mod_eq_of_lt hroom
  · have hne : now ≠ g.windowStart := by
      rintro rfl
      have hsecond : 0 < (Duration.fromSecs 1).nanos := by decide
      omega
    rw [hopen, hone, spent, if_neg hne]
    rfl

theorem windowStart_le_counted (g : LoadGuard C) (now : Instant) :
    g.windowStart ≤ (g.counted now).windowStart := by
  rcases g.counted_cases now with ⟨hsame, -⟩ | ⟨hlater, hopen, -⟩
  · exact hsame.ge
  · rw [hopen, Instant.le_iff]
    omega

/-- What passes unproven is taken from the budget of its window. -/
theorem budget_counted {X : CookieSeal C} {v : Check C} (w : Instant)
    (hroom : v.guard.spent v.window + 1 < 2 ^ 32) :
    (if (v.unproven X && decide (v.window = w)) = true then 1 else 0)
      + (v.guard.counted v.call.now).budget w ≤ v.guard.budget w := by
  have hcount : (v.guard.counted v.call.now).handshakes.toNat = v.guard.spent v.window + 1 :=
    handshakes_counted hroom
  have hstart : v.guard.windowStart ≤ v.window := v.guard.windowStart_le_counted v.call.now
  have hbudget : (v.guard.counted v.call.now).budget w = if w < v.window then 0
      else if w = v.window then v.guard.maxPerSecond.toNat - (v.guard.spent v.window + 1)
      else v.guard.maxPerSecond.toNat := by
    rw [budget, maxPerSecond_counted, hcount]
    rfl
  rw [hbudget, budget]
  rcases lt_trichotomy w v.window with hlt | rfl | hgt
  · -- the window is over
    rw [if_neg (by simp [hlt.ne']), if_pos hlt]
    exact Nat.zero_le _
  · rw [if_neg (lt_irrefl _), if_pos rfl, if_neg (not_lt.mpr hstart)]
    have hmine : (if v.window = v.guard.windowStart then
        v.guard.maxPerSecond.toNat - v.guard.handshakes.toNat else v.guard.maxPerSecond.toNat)
        = v.guard.maxPerSecond.toNat - v.guard.spent v.window := by
      unfold spent
      split <;> rfl
    rw [hmine]
    split
    · rename_i hpass
      have hle := UInt32.le_iff_toNat_le.mp
        (le_max_of_unproven (Bool.and_eq_true_iff.mp hpass).1).2
      rw [hcount, maxPerSecond_counted] at hle
      omega
    · omega
  · have hgt' : v.guard.windowStart < w := hstart.trans_lt hgt
    rw [if_neg (by simp [hgt.ne]), if_neg hgt.not_gt, if_neg hgt.ne', if_neg hgt'.not_gt,
      if_neg hgt'.ne', Nat.zero_add]

/-- **A window's budget is never exceeded**, as long as the counter does not
wrap. -/
theorem countP_unproven_le (X : CookieSeal C) {g : LoadGuard C} {calls : List CheckCall}
    (hroom : ∀ w, g.spent w
      + (g.checks X calls).countP (fun v => v.admitted && decide (v.window = w)) < 2 ^ 32)
    (w : Instant) :
    (g.checks X calls).countP (fun v => v.unproven X && decide (v.window = w)) ≤ g.budget w := by
  induction calls generalizing g with
  | nil => exact Nat.zero_le _
  | cons call rest ih =>
      rcases g.checks_cons X call rest with ⟨hnot, heq⟩ | ⟨hadmitted, heq⟩ <;>
        simp only [heq, List.countP_cons] at hroom ⊢
      · have hpass : Check.unproven ⟨g, call⟩ X = false :=
          Bool.eq_false_iff.mpr fun h => by cases hnot.symm.trans (le_max_of_unproven h).1
        simp only [hnot, hpass, Bool.false_and, Bool.false_eq_true, if_false, Nat.add_zero]
          at hroom ⊢
        exact ih hroom
      · simp only [hadmitted, Bool.true_and, decide_eq_true_eq] at hroom
        have hone := hroom (g.counted call.now).windowStart
        have hself : Check.window ⟨g, call⟩ = (g.counted call.now).windowStart := rfl
        rw [if_pos hself] at hone
        have hspent : g.spent (g.counted call.now).windowStart + 1 < 2 ^ 32 := by omega
        have hcount := handshakes_counted hspent
        have hrest := ih (g := g.counted call.now) fun w' => by
          have hw' := hroom w'
          rw [spent]
          split
          · rename_i hwindow
            rw [hwindow, hcount]
            omega
          · omega
        have hhead : _ + (g.counted call.now).budget w ≤ g.budget w :=
          budget_counted (X := X) (v := ⟨g, call⟩) w hspent
        omega

/-! ### What does not count -/

/-- Messages that are not admitted might as well not have come. -/
theorem filter_checks (X : CookieSeal C) (g : LoadGuard C) (calls : List CheckCall) :
    (g.checks X calls).filter Check.admitted
      = g.checks X (calls.filter fun call => Check.admitted ⟨g, call⟩) := by
  have hall (g' : LoadGuard C) (hg' : g'.verifier = g.verifier) :
      (g'.checks X calls).filter Check.admitted
        = g'.checks X (calls.filter fun call => Check.admitted ⟨g, call⟩) := by
    induction calls generalizing g' with
    | nil => rfl
    | cons call rest ih =>
        have hsame : Check.admitted ⟨g, call⟩ = Check.admitted ⟨g', call⟩ := by
          simp only [Check.admitted, hg']
        rcases g'.checks_cons X call rest with ⟨hnot, heq⟩ | ⟨hadmitted, heq⟩
        · rw [heq, List.filter_cons_of_neg (by rw [hnot]; exact Bool.false_ne_true), ih g' hg',
            List.filter_cons_of_neg (by rw [hsame, hnot]; exact Bool.false_ne_true)]
        · have hnext := ih (g'.counted call.now) ((verifier_counted g' call.now).trans hg')
          rw [heq, List.filter_cons_of_pos hadmitted, hnext,
            List.filter_cons_of_pos (p := fun call => Check.admitted ⟨g, call⟩)
              (hsame.trans hadmitted)]
          rcases g'.checks_cons X call (rest.filter fun call => Check.admitted ⟨g, call⟩) with
            ⟨hnot, -⟩ | ⟨-, heq'⟩
          · cases hadmitted.symm.trans hnot
          · exact heq'.symm
  exact hall g rfl

/-- **Few handshakes pass without a cookie.**  At any times that do not
decrease and for any messages and sources, as long as no window counts 2³²
handshakes: at most twice the rate pass unproven within any second, at most
the rate within one window, and a message with an invalid header or mac1 is
dropped and leaves the guard as it was, so that the others fare as if it had
not come. -/
theorem rate_bounded (X : CookieSeal C) (ourPublic : PublicKey) (secret : CookieSecret)
    (rate : UInt32) (calls : List CheckCall) (htimes : calls.Pairwise fun a b => a.now ≤ b.now)
    (hroom : ∀ w, (((new C ourPublic secret).withMaxRate rate).checks X calls).countP
      (fun v => v.admitted && decide (v.window = w)) < 2 ^ 32) :
    let guard := (new C ourPublic secret).withMaxRate rate
    let run := guard.checks X calls
    (∀ t : Instant, run.countP (fun v => v.unproven X &&
      decide (t ≤ v.call.now ∧ v.call.now.durationSince t < Duration.fromSecs 1))
        ≤ 2 * rate.toNat) ∧
    (∀ w, run.countP (fun v => v.unproven X && decide (v.window = w)) ≤ rate.toNat) ∧
    (∀ v ∈ run, v.admitted = false → v.decision X = .drop ∧ v.after X = v.guard) ∧
    run.filter Check.admitted
      = guard.checks X (calls.filter fun call => Check.admitted ⟨guard, call⟩) := by
  intro guard run
  have hzero (w : Instant) : guard.spent w = 0 := by
    unfold spent
    split <;> rfl
  have hwindow (w : Instant) :
      run.countP (fun v => v.unproven X && decide (v.window = w)) ≤ rate.toNat := by
    refine (countP_unproven_le X (fun w => ?_) w).trans ?_
    · rw [hzero, Nat.zero_add]
      exact hroom w
    · unfold budget
      split_ifs
      · exact Nat.zero_le _
      · exact Nat.sub_le _ _
      · exact le_rfl
  have hnanos (w : ℕ) : run.countP (fun v => v.unproven X &&
      decide (v.window.sinceEpoch.nanos = w)) ≤ rate.toNat := by
    by_cases hw : w ≤ maxNanos
    · refine le_trans (List.countP_mono_left fun v _ hv => ?_) (hwindow ⟨⟨w, hw⟩⟩)
      simp only [Bool.and_eq_true, decide_eq_true_eq] at hv ⊢
      exact ⟨hv.1, Instant.ext (Duration.ext hv.2)⟩
    · have hnone : run.countP (fun v => v.unproven X &&
          decide (v.window.sinceEpoch.nanos = w)) = 0 := by
        refine List.countP_eq_zero.mpr fun v _ hv => hw ?_
        simp only [Bool.and_eq_true, decide_eq_true_eq] at hv
        exact hv.2 ▸ v.window.sinceEpoch.le_max
      rw [hnone]
      exact Nat.zero_le _
  refine ⟨fun t => ?_, hwindow, fun v _ hnot => ?_, filter_checks X guard calls⟩
  · -- count among the admitted calls, whose windows follow each other
    have hadmitted : run.countP (fun v => v.unproven X &&
        decide (t ≤ v.call.now ∧ v.call.now.durationSince t < Duration.fromSecs 1))
        ≤ (run.filter Check.admitted).countP (fun v => v.unproven X &&
          decide (t.sinceEpoch.nanos ≤ v.call.now.sinceEpoch.nanos ∧
            v.call.now.sinceEpoch.nanos < t.sinceEpoch.nanos + (Duration.fromSecs 1).nanos)) := by
      rw [List.countP_filter]
      refine List.countP_mono_left fun v _ hv => ?_
      simp only [Bool.and_eq_true, decide_eq_true_eq, Instant.le_iff, Duration.lt_iff,
        Instant.nanos_durationSince] at hv ⊢
      exact ⟨⟨hv.1, hv.2.1, by omega⟩, (le_max_of_unproven hv.1).1⟩
    refine hadmitted.trans (countP_interval_le (follows_checks X htimes) (fun v hv => ?_)
      (fun w => ?_) t.sinceEpoch.nanos)
    · have hstart : ∀ call ∈ calls, guard.windowStart ≤ call.now := fun _ _ =>
        Instant.le_iff.mpr (Nat.zero_le _)
      exact Instant.le_iff.mp (window_le_now X hstart htimes (List.mem_of_mem_filter hv))
    · exact (List.filter_sublist.countP_le).trans (hnanos w)
  · rcases check_after X v with ⟨-, hdrop, hafter⟩ | ⟨hadmitted, -⟩
    · exact ⟨hdrop, hafter⟩
    · cases hnot.symm.trans hadmitted

/-- Handshakes without a cookie: two at once, one a second later. -/
def burst : List CheckCall :=
  [0, 0, 1].map fun seconds => ⟨⟨Duration.fromSecs seconds⟩, ReadLoop.markedMessage 0,
    Peer.markedSource, List.Vector.replicate 24 7⟩

/-- With a rate of one the second one of them does not pass, and the third
one is in a window of its own. -/
theorem rate_bounded_burst :
    let guard := (new Peer.marked Peer.markedKey (List.Vector.replicate 32 42)).withMaxRate 1
    let run := guard.checks Peer.markedSeal burst
    run.map (fun v => v.unproven Peer.markedSeal) = [true, false, true] ∧
    ∀ t : Instant, run.countP (fun v => v.unproven Peer.markedSeal &&
      decide (t ≤ v.call.now ∧ v.call.now.durationSince t < Duration.fromSecs 1)) ≤ 2 * 1 := by
  intro guard run
  have htimes : burst.Pairwise fun a b => a.now ≤ b.now := by
    decide +kernel
  have hroom (w : Instant) :
      run.countP (fun v => v.admitted && decide (v.window = w)) < 2 ^ 32 :=
    List.countP_le_length.trans_lt (show 3 < 2 ^ 32 by decide)
  exact ⟨by decide +kernel, (rate_bounded Peer.markedSeal Peer.markedKey
    (List.Vector.replicate 32 42) 1 burst htimes hroom).1⟩

end LoadGuard

end Tunstile
