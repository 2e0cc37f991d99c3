/-
Tunstile/Runs.lean

Encoding a list of items run by run.

A loop takes the longest run of items of one size, up to a limit, and encodes
its items one after the other into the chunks of one zeroed buffer; when an
item fails it cuts the buffer behind the last encoded one and stops.  `loop`
is that program with its cursors.

Next to it stands `encodeAll`, which encodes the items one by one, each into a
buffer of its own.  `loop_spec` says that the loop does the same: what it
puts out are the packets of consecutive runs, and together they are the
packets of all items before the first that fails.  A run ends early only
before an item of another size, so items of one size that are as many as the
limit fill a run (`Cover.exists_full`).

Nothing here mentions a protocol.
-/
import Mathlib.Data.List.Chain
import Tunstile.Buffer

namespace Tunstile

variable {σ α β : Type*}

/-- What encodes an item into a buffer: how much room an item takes, how many
items of one size may go together, and the encoding itself, which may fail. -/
structure Encoder (σ α β : Type*) where
  size : α → ℕ
  limit : ℕ → ℕ
  encode : σ → α → List β → Bool × σ × List β
  limit_pos : ∀ n, 0 < limit n
  length_encode : ∀ s x buf, (encode s x buf).2.2.length = buf.length

namespace Encoder

variable (S : Encoder σ α β)

/-! ### The loop -/

section Loop

variable (items : List α)

/-- The loop that moves the end of a run on while the items have its size. -/
def runEnd (size start stop : ℕ) : ℕ :=
  if h : stop < items.length then
    if stop - start < S.limit size ∧ S.size items[stop] = size then
      runEnd size start (stop + 1)
    else stop
  else stop
termination_by items.length - stop

/-- What the encoding of one run leaves. -/
structure Filled (σ β : Type*) where
  state : σ
  batch : List β
  encoded : ℕ
  stalled : Bool

/-- The loop over the items of a run and the chunks of its buffer. -/
def fill (size : ℕ) : σ → List β → ℕ → List α → Filled σ β
  | s, batch, encoded, [] => ⟨s, batch, encoded, false⟩
  | s, batch, encoded, x :: rest =>
      match S.encode s x (slice batch ⟨encoded * size, encoded * size + size⟩) with
      | (false, s, buf) => ⟨s, splice batch (encoded * size) buf, encoded, true⟩
      | (true, s, buf) => fill size s (splice batch (encoded * size) buf) (encoded + 1) rest

theorem encoded_fill {size : ℕ} {s : σ} {batch : List β} {encoded : ℕ} {run : List α}
    (h : (S.fill size s batch encoded run).stalled = false) :
    (S.fill size s batch encoded run).encoded = encoded + run.length := by
  induction run generalizing s batch encoded with
  | nil => rfl
  | cons x rest ih =>
      rcases hx : S.encode s x (slice batch ⟨encoded * size, encoded * size + size⟩) with
        ⟨_ | _, s', buf⟩
      · simp only [fill, hx] at h
        cases h
      · simp only [fill, hx] at h ⊢
        rw [ih h, List.length_cons]
        omega

theorem le_runEnd (size start stop : ℕ) : stop ≤ S.runEnd items size start stop := by
  fun_induction runEnd S items size start stop with
  | case1 stop h hext ih => exact (Nat.le_succ stop).trans ih
  | case2 stop h hext => exact le_rfl
  | case3 stop h => exact le_rfl

theorem runEnd_le (size start : ℕ) {stop : ℕ} (h : stop ≤ items.length) :
    S.runEnd items size start stop ≤ items.length := by
  fun_induction runEnd S items size start stop with
  | case1 stop hlt hext ih => exact ih hlt
  | case2 stop hlt hext => exact h
  | case3 stop hlt => exact h

/-- What the loop leaves: the state, the first item it did not encode, and the
batches it put out, each with the size of its chunks. -/
structure Sent (σ β : Type*) where
  state : σ
  start : ℕ
  batches : List (List β × ℕ)

/-- The loop over the runs. -/
def loop (zero : β) (s : σ) (start : ℕ) : Sent σ β :=
  if h : start < items.length then
    let size := S.size items[start]
    let stop := S.runEnd items size start (start + 1)
    let filled := S.fill size s (List.replicate ((stop - start) * size) zero) 0
      (slice items ⟨start, stop⟩)
    let batches :=
      if 0 < filled.encoded then [(filled.batch.take (filled.encoded * size), size)] else []
    if _hstall : filled.stalled = true then ⟨filled.state, start + filled.encoded, batches⟩
    else
      let rest := loop zero filled.state (start + filled.encoded)
      { rest with batches := batches ++ rest.batches }
  else ⟨s, start, []⟩
termination_by items.length - start
decreasing_by
  have hencoded := S.encoded_fill (Bool.eq_false_iff.mpr _hstall)
  have hle := S.le_runEnd items size start (start + 1)
  have hlen : (slice items ⟨start, stop⟩).length = stop - start :=
    length_slice (S.runEnd_le items size start h)
  rw [hencoded, hlen]
  omega

end Loop

/-! ### One by one -/

/-- Encoding items one by one, up to the first that fails: the state it
leaves, and the packets. -/
def encodeAll (zero : β) : σ → List α → σ × List (List β)
  | s, [] => (s, [])
  | s, x :: rest =>
      match S.encode s x (List.replicate (S.size x) zero) with
      | (false, s, _) => (s, [])
      | (true, s, packet) => ((encodeAll zero s rest).1, packet :: (encodeAll zero s rest).2)

section EncodeAll

variable {S} {zero : β} {s : σ}

theorem encodeAll_cons_false {x : α} {rest : List α} {s' : σ} {packet : List β}
    (h : S.encode s x (List.replicate (S.size x) zero) = (false, s', packet)) :
    S.encodeAll zero s (x :: rest) = (s', []) := by
  rw [encodeAll, h]

theorem encodeAll_cons_true {x : α} {rest : List α} {s' : σ} {packet : List β}
    (h : S.encode s x (List.replicate (S.size x) zero) = (true, s', packet)) :
    S.encodeAll zero s (x :: rest)
      = ((S.encodeAll zero s' rest).1, packet :: (S.encodeAll zero s' rest).2) := by
  rw [encodeAll, h]

theorem length_encodeAll_le (xs : List α) : (S.encodeAll zero s xs).2.length ≤ xs.length := by
  induction xs generalizing s with
  | nil => exact le_rfl
  | cons x rest ih =>
      rcases hx : S.encode s x (List.replicate (S.size x) zero) with ⟨_ | _, s', packet⟩
      · rw [encodeAll_cons_false hx]
        exact Nat.zero_le _
      · rw [encodeAll_cons_true hx]
        exact Nat.succ_le_succ ih

/-- Every packet has the size of its item. -/
theorem length_of_mem_encodeAll {size : ℕ} {xs : List α} (hsize : ∀ x ∈ xs, S.size x = size)
    {packet : List β} (h : packet ∈ (S.encodeAll zero s xs).2) : packet.length = size := by
  induction xs generalizing s with
  | nil => cases h
  | cons x rest ih =>
      rcases hx : S.encode s x (List.replicate (S.size x) zero) with ⟨_ | _, s', first⟩
      · rw [encodeAll_cons_false hx] at h
        cases h
      · rw [encodeAll_cons_true hx] at h
        rcases List.mem_cons.mp h with rfl | h
        · have hlen := S.length_encode s x (List.replicate (S.size x) zero)
          rw [hx, List.length_replicate, hsize x List.mem_cons_self] at hlen
          exact hlen
        · exact ih (fun y hy => hsize y (List.mem_cons_of_mem _ hy)) h

/-- Encoding goes on behind a list that was encoded to its end. -/
theorem encodeAll_append {xs : List α} (ys : List α)
    (h : (S.encodeAll zero s xs).2.length = xs.length) :
    S.encodeAll zero s (xs ++ ys)
      = ((S.encodeAll zero (S.encodeAll zero s xs).1 ys).1,
        (S.encodeAll zero s xs).2 ++ (S.encodeAll zero (S.encodeAll zero s xs).1 ys).2) := by
  induction xs generalizing s with
  | nil => rfl
  | cons x rest ih =>
      rcases hx : S.encode s x (List.replicate (S.size x) zero) with ⟨_ | _, s', packet⟩
      · rw [encodeAll_cons_false hx] at h
        cases h
      · rw [encodeAll_cons_true hx] at h ⊢
        rw [List.cons_append, encodeAll_cons_true hx, ih (Nat.succ.inj h)]
        rfl

/-- Nothing is encoded behind an item that failed. -/
theorem encodeAll_append_of_lt {xs : List α} (ys : List α)
    (h : (S.encodeAll zero s xs).2.length < xs.length) :
    S.encodeAll zero s (xs ++ ys) = S.encodeAll zero s xs := by
  induction xs generalizing s with
  | nil => cases h
  | cons x rest ih =>
      rcases hx : S.encode s x (List.replicate (S.size x) zero) with ⟨_ | _, s', packet⟩
      · rw [List.cons_append, encodeAll_cons_false hx, encodeAll_cons_false hx]
      · rw [encodeAll_cons_true hx] at h
        rw [List.cons_append, encodeAll_cons_true hx, encodeAll_cons_true hx,
          ih (Nat.lt_of_succ_lt_succ h)]

/-- If it stops early, then at an item that fails. -/
theorem exists_failing {xs : List α} (h : (S.encodeAll zero s xs).2.length < xs.length) :
    ∃ x, xs[(S.encodeAll zero s xs).2.length]? = some x ∧
      (S.encode (S.encodeAll zero s (xs.take (S.encodeAll zero s xs).2.length)).1 x
        (List.replicate (S.size x) zero)).1 = false := by
  induction xs generalizing s with
  | nil => cases h
  | cons x rest ih =>
      rcases hx : S.encode s x (List.replicate (S.size x) zero) with ⟨_ | _, s', packet⟩
      · refine ⟨x, by rw [encodeAll_cons_false hx]; rfl, ?_⟩
        rw [encodeAll_cons_false hx]
        exact congrArg Prod.fst hx
      · rw [encodeAll_cons_true hx] at h ⊢
        obtain ⟨y, hy, hfail⟩ := ih (Nat.lt_of_succ_lt_succ h)
        refine ⟨y, hy, ?_⟩
        rw [List.length_cons, List.take_succ_cons, encodeAll_cons_true hx]
        exact hfail

end EncodeAll

/-! ### The loop does the same -/

variable {S}

/-- Encoding into the chunks of one buffer is encoding one by one. -/
theorem fill_spec {zero : β} {size : ℕ} {s : σ} {written : List β} {encoded : ℕ} {run : List α}
    (hwritten : written.length = encoded * size) (hsize : ∀ x ∈ run, S.size x = size) :
    let filled := S.fill size s (written ++ List.replicate (run.length * size) zero) encoded run
    let packets := (S.encodeAll zero s run).2
    filled.state = (S.encodeAll zero s run).1 ∧ filled.encoded = encoded + packets.length ∧
      (filled.stalled = true ↔ packets.length < run.length) ∧
      filled.batch.take (filled.encoded * size) = written ++ packets.flatten := by
  induction run generalizing s written encoded with
  | nil =>
      refine ⟨rfl, rfl, iff_of_false Bool.false_ne_true (lt_irrefl _), ?_⟩
      show List.take (encoded * size) (written ++ _) = written ++ []
      rw [List.append_nil]
      exact List.take_left' hwritten
  | cons x rest ih =>
      have hx : S.size x = size := hsize x List.mem_cons_self
      have hroom : List.replicate ((x :: rest).length * size) zero
          = List.replicate size zero ++ List.replicate (rest.length * size) zero := by
        rw [List.replicate_append_replicate, List.length_cons, Nat.succ_mul, Nat.add_comm]
      -- the next chunk is still zero
      have hchunk : slice (written ++ (List.replicate size zero
          ++ List.replicate (rest.length * size) zero)) ⟨encoded * size, encoded * size + size⟩
          = List.replicate size zero := by
        rw [slice, ← hwritten, List.drop_left, Span.length, Nat.add_sub_cancel_left]
        exact List.take_left' List.length_replicate
      have hlen := S.length_encode s x (List.replicate size zero)
      rw [List.length_replicate] at hlen
      have hsplice (buf : List β) (hbuf : buf.length = size) :
          splice (written ++ (List.replicate size zero
            ++ List.replicate (rest.length * size) zero)) (encoded * size) buf
          = (written ++ buf) ++ List.replicate (rest.length * size) zero := by
        rw [splice, ← hwritten, List.take_left, ← List.drop_drop, List.drop_left,
          List.drop_left' (List.length_replicate.trans hbuf.symm)]
      rw [hroom]
      rcases hencode : S.encode s x (List.replicate size zero) with ⟨_ | _, s', buf⟩
      · rw [hencode] at hlen
        have hall : S.encodeAll zero s (x :: rest) = (s', []) :=
          encodeAll_cons_false (by rw [hx]; exact hencode)
        simp only [fill, hchunk, hencode, hall]
        refine ⟨trivial, rfl, iff_of_true trivial (Nat.succ_pos _), ?_⟩
        rw [hsplice buf hlen, ← hwritten, List.append_assoc, List.take_left]
        exact (List.append_nil _).symm
      · rw [hencode] at hlen
        have hall : S.encodeAll zero s (x :: rest)
            = ((S.encodeAll zero s' rest).1, buf :: (S.encodeAll zero s' rest).2) :=
          encodeAll_cons_true (by rw [hx]; exact hencode)
        have hwritten' : (written ++ buf).length = (encoded + 1) * size := by
          rw [List.length_append, hwritten, Nat.succ_mul]
          exact congrArg _ hlen
        obtain ⟨hstate, hencoded, hstalled, hbatch⟩ := ih (s := s') hwritten'
          fun y hy => hsize y (List.mem_cons_of_mem _ hy)
        simp only [fill, hchunk, hencode, hall, hsplice buf hlen]
        refine ⟨hstate, hencoded.trans (by rw [List.length_cons]; omega), hstalled.trans ?_, ?_⟩
        · rw [List.length_cons, List.length_cons]
          exact Nat.succ_lt_succ_iff.symm
        · rw [hbatch, List.flatten_cons, List.append_assoc]

theorem slice_cons {items : List α} {start stop : ℕ} (h : start < items.length)
    (hstop : start + 1 ≤ stop) :
    slice items ⟨start, stop⟩ = items[start] :: slice items ⟨start + 1, stop⟩ := by
  have hsub : stop - start = stop - (start + 1) + 1 := by omega
  rw [slice, slice, Span.length, Span.length, hsub, ← List.getElem_cons_drop (h := h),
    List.take_succ_cons]

/-- The run found has one size and keeps to the limit. -/
theorem runEnd_spec {items : List α} {size start stop : ℕ} (hstart : start ≤ stop)
    (hlimit : stop - start ≤ S.limit size) :
    S.runEnd items size start stop - start ≤ S.limit size ∧
      ∀ x ∈ slice items ⟨stop, S.runEnd items size start stop⟩, S.size x = size := by
  have hnone (n : ℕ) : ∀ x ∈ slice items ⟨n, n⟩, S.size x = size := by
    intro x hx
    rw [slice, Span.length, Nat.sub_self] at hx
    cases hx
  fun_induction runEnd S items size start stop with
  | case1 stop h hext ih =>
      obtain ⟨hle, hall⟩ := ih (hstart.trans (Nat.le_succ stop)) (by omega)
      refine ⟨hle, fun x hx => ?_⟩
      rw [slice_cons h (S.le_runEnd items size start (stop + 1))] at hx
      rcases List.mem_cons.mp hx with rfl | hx
      · exact hext.2
      · exact hall x hx
  | case2 stop h hext => exact ⟨hlimit, hnone stop⟩
  | case3 stop h => exact ⟨hlimit, hnone stop⟩

/-- The run found ends at the limit, before an item of another size or at the
end of the list. -/
theorem runEnd_maximal {items : List α} {size start stop : ℕ} (hstart : start ≤ stop)
    (hlimit : stop - start ≤ S.limit size)
    (h : S.runEnd items size start stop < items.length) :
    S.runEnd items size start stop - start = S.limit size ∨
      S.size items[S.runEnd items size start stop] ≠ size := by
  fun_induction runEnd S items size start stop with
  | case1 stop hlt hext ih => exact ih (hstart.trans (Nat.le_succ stop)) (by omega) h
  | case2 stop hlt hext =>
      by_cases hfull : stop - start = S.limit size
      · exact Or.inl hfull
      · exact Or.inr fun hsize => hext ⟨by omega, hsize⟩
  | case3 stop hlt => exact absurd h hlt

/-- A run of items that were encoded together. -/
structure Run (α β : Type*) where
  size : ℕ
  items : List α
  packets : List (List β)

/-- A run put out as one batch. -/
def Run.batch (r : Run α β) : List β × ℕ := (r.packets.flatten, r.size)

/-- Items of one size, no more than the limit, each with its packet. -/
structure Run.Fits (S : Encoder σ α β) (r : Run α β) : Prop where
  nonempty : r.items ≠ []
  size : ∀ x ∈ r.items, S.size x = r.size
  limit : r.items.length ≤ S.limit r.size
  packets : r.packets.length = r.items.length
  chunks : ∀ packet ∈ r.packets, packet.length = r.size

/-- The runs of a loop, which encode `items` as far as `packets` goes. -/
structure Cover (S : Encoder σ α β) (items : List α) (packets : List (List β))
    (runs : List (Run α β)) : Prop where
  fits : ∀ r ∈ runs, r.Fits S
  items : runs.flatMap Run.items = items.take packets.length
  packets : runs.flatMap Run.packets = packets
  maximal : runs.IsChain fun r r' => r.items.length = S.limit r.size ∨ r'.size ≠ r.size

theorem Run.Fits.length_batch {r : Run α β} (h : r.Fits S) :
    r.batch.1.length = r.items.length * r.size := by
  have hlengths : r.packets.map List.length = List.replicate r.packets.length r.size :=
    List.eq_replicate_iff.mpr ⟨List.length_map _, fun n hn => by
      obtain ⟨packet, hpacket, rfl⟩ := List.mem_map.mp hn
      exact h.chunks packet hpacket⟩
  show r.packets.flatten.length = _
  rw [List.length_flatten, hlengths, List.sum_replicate_nat, h.packets]

/-- The items of a run stand next to each other. -/
theorem Cover.isInfix {items : List α} {packets : List (List β)} {runs : List (Run α β)}
    (h : Cover S items packets runs) {r : Run α β} (hr : r ∈ runs) :
    r.items <:+: items.take packets.length := by
  rw [← h.items]
  exact List.infix_of_mem_flatten (List.mem_map_of_mem hr)

/-- Items of one size at the places from `i` on, as many as the limit, fill a
run.  The run that holds the first of them is full, since the next run has
its size too. -/
theorem exists_full_run {runs : List (Run α β)} (hfits : ∀ r ∈ runs, r.Fits S)
    (hmaximal : runs.IsChain fun r r' => r.items.length = S.limit r.size ∨ r'.size ≠ r.size)
    {size i : ℕ}
    (h : ∀ j < S.limit size, ∃ x, (runs.flatMap Run.items)[i + j]? = some x ∧ S.size x = size) :
    ∃ r ∈ runs, r.size = size ∧ r.items.length = S.limit size := by
  induction runs generalizing i with
  | nil =>
      obtain ⟨x, hx, -⟩ := h 0 (S.limit_pos size)
      cases hx
  | cons r rest ih =>
      have hr := hfits r List.mem_cons_self
      obtain ⟨hnext, hrest⟩ := List.isChain_cons.mp hmaximal
      rw [List.flatMap_cons] at h
      by_cases hi : i < r.items.length
      · -- the first of them is in `r`, so this is their size
        obtain ⟨x, hx, hsize⟩ := h 0 (S.limit_pos size)
        rw [Nat.add_zero, List.getElem?_append_left hi] at hx
        have hrsize : r.size = size := (hr.size x (List.mem_of_getElem? hx)).symm.trans hsize
        have hle := hr.limit
        rw [hrsize] at hle
        refine ⟨r, List.mem_cons_self, hrsize, ?_⟩
        by_contra hshort
        obtain ⟨y, hy, hysize⟩ := h (r.items.length - i) (by omega)
        rw [Nat.add_sub_cancel' hi.le, List.getElem?_append_right le_rfl, Nat.sub_self] at hy
        cases rest with
        | nil => cases hy
        | cons r' rest' =>
            have hr' := hfits r' (List.mem_cons_of_mem _ List.mem_cons_self)
            obtain ⟨z, zs, hzs⟩ := List.exists_cons_of_ne_nil hr'.nonempty
            rw [List.flatMap_cons, hzs] at hy
            cases hy
            have hz : y ∈ r'.items := hzs ▸ List.mem_cons_self
            rcases hnext r' rfl with hfull | hother
            · exact hshort (hrsize ▸ hfull)
            · exact hother (((hr'.size y hz).symm.trans hysize).trans hrsize.symm)
      · -- they come later
        obtain ⟨r', hr', hfull⟩ := ih (fun r' hr' => hfits r' (List.mem_cons_of_mem _ hr')) hrest
          fun j hj => by
            obtain ⟨x, hx, hsize⟩ := h j hj
            rw [List.getElem?_append_right (by omega), Nat.sub_add_comm (not_lt.mp hi)] at hx
            exact ⟨x, hx, hsize⟩
        exact ⟨r', List.mem_cons_of_mem _ hr', hfull⟩

/-- Neighbouring items of one size, as many as the limit, fill a run. -/
theorem Cover.exists_full {items : List α} {packets : List (List β)} {runs : List (Run α β)}
    (h : Cover S items packets runs) {xs : List α} (hxs : xs <:+: items.take packets.length)
    {size : ℕ} (hsize : ∀ x ∈ xs, S.size x = size) (hlength : xs.length = S.limit size) :
    ∃ r ∈ runs, r.size = size ∧ r.items.length = S.limit size := by
  obtain ⟨before, after, hsplit⟩ := hxs
  refine exists_full_run (i := before.length) h.fits h.maximal fun j hj => ?_
  rw [← hlength] at hj
  refine ⟨xs[j], ?_, hsize _ (List.getElem_mem hj)⟩
  rw [h.items, ← hsplit, List.append_assoc, List.getElem?_append_right (Nat.le_add_right _ _),
    Nat.add_sub_cancel_left, List.getElem?_append_left hj, List.getElem?_eq_getElem hj]

/-- What was encoded of one run. -/
theorem fits_encodeAll {zero : β} {s : σ} {size : ℕ} {run : List α}
    (hsize : ∀ x ∈ run, S.size x = size) (hlimit : run.length ≤ S.limit size)
    (hpos : 0 < (S.encodeAll zero s run).2.length) :
    Run.Fits S ⟨size, run.take (S.encodeAll zero s run).2.length, (S.encodeAll zero s run).2⟩ := by
  have hle : (S.encodeAll zero s run).2.length ≤ run.length := length_encodeAll_le run
  have hlen := List.length_take_of_le hle
  refine ⟨List.ne_nil_of_length_pos (hpos.trans_eq hlen.symm),
    fun x hx => hsize x (List.mem_of_mem_take hx), (List.length_take_le' _ _).trans hlimit,
    hlen.symm, fun _ hpacket => length_of_mem_encodeAll hsize hpacket⟩

/-- The items that were encoded of the last run. -/
theorem exists_cover {zero : β} {s : σ} {size : ℕ} {run : List α} (rest : List α)
    (hsize : ∀ x ∈ run, S.size x = size) (hlimit : run.length ≤ S.limit size) :
    ∃ runs, (if 0 < (S.encodeAll zero s run).2.length then
        [((S.encodeAll zero s run).2.flatten, size)] else []) = runs.map Run.batch ∧
      Cover S (run ++ rest) (S.encodeAll zero s run).2 runs := by
  by_cases hpos : 0 < (S.encodeAll zero s run).2.length
  · rw [if_pos hpos]
    refine ⟨[⟨size, run.take (S.encodeAll zero s run).2.length, _⟩], rfl, fun r hr => ?_, ?_,
      List.append_nil _, List.isChain_singleton _⟩
    · rw [List.mem_singleton.mp hr]
      exact fits_encodeAll hsize hlimit hpos
    · rw [List.take_append_of_le_length (length_encodeAll_le run)]
      exact List.append_nil _
  · rw [if_neg hpos]
    have hnil := List.eq_nil_of_length_eq_zero (Nat.eq_zero_of_not_pos hpos)
    rw [hnil]
    exact ⟨[], rfl, List.forall_mem_nil _, rfl, rfl, .nil⟩

/-- A run that was encoded to its end, and what follows it. -/
theorem Cover.cons {r : Run α β} {rest : List α} {packets : List (List β)}
    {runs : List (Run α β)} (hr : r.Fits S)
    (hnext : ∀ x ∈ rest.head?, r.items.length = S.limit r.size ∨ S.size x ≠ r.size)
    (h : Cover S rest packets runs) :
    Cover S (r.items ++ rest) (r.packets ++ packets) (r :: runs) where
  fits := List.forall_mem_cons.mpr ⟨hr, h.fits⟩
  items := by
    rw [List.flatMap_cons, h.items, List.length_append, hr.packets, List.take_length_add_append]
  packets := by rw [List.flatMap_cons, h.packets]
  maximal := by
    refine List.isChain_cons.mpr ⟨fun r' hr' => ?_, h.maximal⟩
    -- the next run starts with the first item of the rest
    obtain ⟨runs', rfl⟩ : ∃ runs', runs = r' :: runs' := List.head?_eq_some_iff.mp hr'
    have hfits := h.fits r' List.mem_cons_self
    obtain ⟨x, xs, hxs⟩ := List.exists_cons_of_ne_nil hfits.nonempty
    have hhead : rest.head? = some x := by
      have hitems := h.items
      rw [List.flatMap_cons, hxs, List.cons_append] at hitems
      cases rest with
      | nil => simp at hitems
      | cons y ys =>
          cases packets with
          | nil => cases hitems
          | cons => exact congrArg some (List.cons.inj hitems).1.symm
    refine (hnext x hhead).imp_right fun hother hsame => hother ?_
    rw [hfits.size x (hxs ▸ List.mem_cons_self), hsame]

/-- The items from `start` on that are encoded together. -/
def runAt (S : Encoder σ α β) (items : List α) (start size : ℕ) : List α :=
  slice items ⟨start, S.runEnd items size start (start + 1)⟩

theorem run_spec (S : Encoder σ α β) (items : List α) {start : ℕ} (h : start < items.length) :
    let run := S.runAt items start (S.size items[start])
    items.drop start = run ++ items.drop (start + run.length) ∧
      run.length ≤ S.limit (S.size items[start]) ∧ 0 < run.length ∧
      (∀ x ∈ run, S.size x = S.size items[start]) ∧
      ∀ x ∈ (items.drop (start + run.length)).head?,
        run.length = S.limit (S.size items[start]) ∨ S.size x ≠ S.size items[start] := by
  intro run
  have hle := S.le_runEnd items (S.size items[start]) start (start + 1)
  have hlen : run.length = S.runEnd items (S.size items[start]) start (start + 1) - start :=
    length_slice (S.runEnd_le items (S.size items[start]) start h)
  have hlimit := S.limit_pos (S.size items[start])
  have hfirst : start + 1 - start ≤ S.limit (S.size items[start]) := by omega
  obtain ⟨hbound, hsize⟩ := runEnd_spec (S := S) (Nat.le_succ start) hfirst
  refine ⟨?_, hlen.le.trans hbound, by omega, ?_, ?_⟩
  · rw [← List.drop_drop]
    have hrun : run = (items.drop start).take run.length := by
      rw [hlen]
      rfl
    nth_rewrite 1 [← List.take_append_drop run.length (items.drop start), ← hrun]
    rfl
  · have hcons : run = items[start] :: slice items ⟨start + 1, _⟩ := slice_cons h hle
    rw [hcons]
    intro x hx
    rcases List.mem_cons.mp hx with rfl | hx
    · rfl
    · exact hsize x hx
  · intro x hx
    have hstop : start + run.length = S.runEnd items (S.size items[start]) start (start + 1) := by
      omega
    rw [List.head?_drop, hstop] at hx
    obtain ⟨hlt, rfl⟩ := List.getElem?_eq_some_iff.mp hx
    rw [hlen]
    exact runEnd_maximal (Nat.le_succ start) hfirst hlt

/-- One round of the loop. -/
theorem round_spec (S : Encoder σ α β) (zero : β) (items : List α) (s : σ) {start : ℕ}
    (h : start < items.length) :
    let size := S.size items[start]
    let stop := S.runEnd items size start (start + 1)
    let r := S.encodeAll zero s (S.runAt items start size)
    let filled := S.fill size s (List.replicate ((stop - start) * size) zero) 0
      (S.runAt items start size)
    filled.state = r.1 ∧ filled.encoded = r.2.length ∧
      (filled.stalled = true ↔ r.2.length < (S.runAt items start size).length) ∧
      filled.batch.take (filled.encoded * size) = r.2.flatten := by
  dsimp only
  obtain ⟨-, -, -, hsize, -⟩ := run_spec S items h
  have hlen : (S.runAt items start (S.size items[start])).length
      = S.runEnd items (S.size items[start]) start (start + 1) - start :=
    length_slice (S.runEnd_le items _ start h)
  rw [← hlen]
  -- nothing is written yet
  have hnone : ([] : List β).length = 0 * S.size items[start] := (Nat.zero_mul _).symm
  have hfill := @fill_spec _ _ _ S zero _ s [] 0 _ hnone hsize
  dsimp only at hfill
  rwa [List.nil_append, List.nil_append, Nat.zero_add] at hfill

/-- The loop, one round at a time. -/
theorem loop_eq (S : Encoder σ α β) (zero : β) (items : List α) (s : σ) {start : ℕ}
    (h : start < items.length) :
    let size := S.size items[start]
    let run := S.runAt items start size
    let r := S.encodeAll zero s run
    let batches := if 0 < r.2.length then [(r.2.flatten, size)] else []
    S.loop items zero s start =
      if r.2.length < run.length then ⟨r.1, start + r.2.length, batches⟩
      else
        { S.loop items zero r.1 (start + r.2.length) with
          batches := batches ++ (S.loop items zero r.1 (start + r.2.length)).batches } := by
  dsimp only
  obtain ⟨hstate, hencoded, hstalled, hbatch⟩ := S.round_spec zero items s h
  rw [loop, dif_pos h]
  dsimp only
  rw [← runAt, hbatch, hstate, hencoded]
  by_cases hlt : (S.encodeAll zero s (S.runAt items start (S.size items[start]))).2.length
      < (S.runAt items start (S.size items[start])).length
  · rw [dif_pos (hstalled.mpr hlt), if_pos hlt]
  · rw [dif_neg fun hstall => hlt (hstalled.mp hstall), if_neg hlt]

/-- Items of one size within the limit are one run. -/
theorem runEnd_eq_length {items : List α} {size start stop : ℕ}
    (hsize : ∀ x ∈ items, S.size x = size) (hlimit : items.length - start ≤ S.limit size)
    (hstart : start ≤ stop) (hstop : stop ≤ items.length) :
    S.runEnd items size start stop = items.length := by
  fun_induction runEnd S items size start stop with
  | case1 stop h hext ih => exact ih (hstart.trans (Nat.le_succ stop)) h
  | case2 stop h hext =>
      have hlt : stop - start < S.limit size := by omega
      exact absurd ⟨hlt, hsize _ (List.getElem_mem h)⟩ hext
  | case3 stop h => exact le_antisymm hstop (not_lt.mp h)

/-- When all of them are encoded, they are put out as one batch. -/
theorem loop_one_run {zero : β} {s : σ} {x : α} {rest : List α}
    (hsize : ∀ y ∈ x :: rest, S.size y = S.size x)
    (hlimit : (x :: rest).length ≤ S.limit (S.size x))
    (hall : (S.encodeAll zero s (x :: rest)).2.length = (x :: rest).length) :
    (S.loop (x :: rest) zero s 0).batches
      = [((S.encodeAll zero s (x :: rest)).2.flatten, S.size x)] := by
  have hpos : 0 < (x :: rest).length := Nat.succ_pos _
  have hrun : S.runAt (x :: rest) 0 (S.size x) = x :: rest := by
    rw [runAt, runEnd_eq_length hsize (by omega) (Nat.zero_le _) hpos]
    exact List.take_length
  have hloop := loop_eq S zero (x :: rest) s hpos
  dsimp only [List.getElem_cons_zero] at hloop
  rw [hrun, hall, if_pos hpos, if_neg (lt_irrefl _), Nat.zero_add] at hloop
  have hend : S.loop (x :: rest) zero (S.encodeAll zero s (x :: rest)).1 (x :: rest).length
      = ⟨(S.encodeAll zero s (x :: rest)).1, (x :: rest).length, []⟩ := by
    rw [loop, dif_neg (lt_irrefl _)]
  rw [hloop, hend]
  exact List.append_nil _

/-- **The loop encodes one by one.** -/
theorem loop_spec (S : Encoder σ α β) (zero : β) (items : List α) (s : σ) (start : ℕ) :
    let sent := S.loop items zero s start
    let packets := (S.encodeAll zero s (items.drop start)).2
    sent.state = (S.encodeAll zero s (items.drop start)).1 ∧
      sent.start = start + packets.length ∧
      ∃ runs, sent.batches = runs.map Run.batch ∧ Cover S (items.drop start) packets runs := by
  induction hleft : items.length - start using Nat.strong_induction_on generalizing s start with
  | _ left ih =>
  by_cases h : start < items.length
  · obtain ⟨hsplit, hlimit, hpos, hsize, hnext⟩ := run_spec S items h
    dsimp only
    rw [loop_eq S zero items s h, hsplit]
    by_cases hlt : (S.encodeAll zero s (S.runAt items start (S.size items[start]))).2.length
        < (S.runAt items start (S.size items[start])).length
    · obtain ⟨runs, hruns, hcover⟩ := exists_cover (items.drop _) hsize hlimit
      rw [if_pos hlt, encodeAll_append_of_lt _ hlt, hruns]
      exact ⟨rfl, rfl, runs, rfl, hcover⟩
    · have hall := le_antisymm (length_encodeAll_le _) (not_lt.mp hlt)
      have hfits := fits_encodeAll hsize hlimit (hall ▸ hpos)
      rw [hall, List.take_length] at hfits
      rw [if_neg hlt, encodeAll_append _ hall, hall, if_pos hpos]
      have hdec : items.length - (start + (S.runAt items start (S.size items[start])).length)
          < left := by
        omega
      obtain ⟨hstate, hstart, runs', hruns', hcover'⟩ := ih _ hdec _ _ rfl
      refine ⟨hstate, hstart.trans ?_, _ :: runs', ?_, hcover'.cons hfits hnext⟩
      · rw [List.length_append, hall, Nat.add_assoc]
      · rw [List.map_cons, ← hruns']
        rfl
  · have hnil : items.drop start = [] := List.drop_eq_nil_of_le (not_lt.mp h)
    rw [loop, dif_neg h, hnil]
    exact ⟨rfl, rfl, [], rfl, List.forall_mem_nil _, rfl, rfl, .nil⟩

end Encoder

end Tunstile
