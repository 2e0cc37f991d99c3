/-
Tunstile/Text.lean

Texts as lists of characters.

The functions are those of Rust's `str` that a line-driven reader uses: cut a
text into lines, cut a line at a character, strip white space or a bracket,
read a number.  The lemmas say what each does to a text that was put together
from parts: white space around a part is invisible to `trim`, a separator that
does not occur in a part is found behind it, and a number is read back from
its digits.

`foldl_last` is about reading settings one after the other: of each kind the
last one counts.

Nothing here mentions a file format.
-/
import Mathlib.Data.List.DropRight

namespace Tunstile

abbrev Text := List Char

namespace Text

variable {s t u : Text} {c : Char}

/-! ### White space -/

/-- `char::is_whitespace`: the characters with the Unicode property
`White_Space`. -/
def isSpace (c : Char) : Bool :=
  decide (9 ≤ c.toNat ∧ c.toNat ≤ 13 ∨ c.toNat = 0x20 ∨ c.toNat = 0x85 ∨ c.toNat = 0xa0 ∨
    c.toNat = 0x1680 ∨ 0x2000 ≤ c.toNat ∧ c.toNat ≤ 0x200a ∨ c.toNat = 0x2028 ∨
    c.toNat = 0x2029 ∨ c.toNat = 0x202f ∨ c.toNat = 0x205f ∨ c.toNat = 0x3000)

/-- `str::trim`. -/
def trim (t : Text) : Text := (t.dropWhile isSpace).rdropWhile isSpace

/-- White space only. -/
def Blank (t : Text) : Prop := ∀ c ∈ t, isSpace c = true

/-- No white space. -/
def Solid (t : Text) : Prop := ∀ c ∈ t, isSpace c = false

theorem Blank.of_all (h : t.all isSpace = true) : Blank t := List.all_eq_true.mp h

theorem Blank.dropWhile (h : Blank t) : t.dropWhile isSpace = [] :=
  List.dropWhile_eq_nil_iff.mpr h

theorem dropWhile_append_of_blank (hs : Blank s) :
    (s ++ t).dropWhile isSpace = t.dropWhile isSpace := by
  rw [List.dropWhile_append, hs.dropWhile]
  rfl

theorem rdropWhile_append_of_blank (hs : Blank s) :
    (t ++ s).rdropWhile isSpace = t.rdropWhile isSpace := by
  have hrev : Blank s.reverse := fun c hc => hs c (List.mem_reverse.mp hc)
  rw [List.rdropWhile, List.reverse_append, dropWhile_append_of_blank hrev]
  rfl

/-- Both ends may be trimmed in either order. -/
theorem dropWhile_rdropWhile {α : Type*} (p : α → Bool) (l : List α) :
    (l.rdropWhile p).dropWhile p = (l.dropWhile p).rdropWhile p := by
  induction l using List.reverseRecOn with
  | nil => rfl
  | append_singleton l x ih =>
      rw [List.dropWhile_append]
      by_cases hx : p x = true
      · rw [List.rdropWhile_concat_pos _ _ _ hx, ih]
        split
        · rename_i hempty
          rw [List.isEmpty_iff.mp hempty, List.dropWhile_cons_of_pos hx]
          rfl
        · rw [List.rdropWhile_concat_pos _ _ _ hx]
      · rw [List.rdropWhile_concat_neg _ _ _ hx, List.dropWhile_append]
        split
        · rw [List.dropWhile_cons_of_neg hx]
          exact (List.rdropWhile_concat_neg p [] x hx).symm
        · rw [List.rdropWhile_concat_neg _ _ _ hx]

theorem trim_blank_append (hs : Blank s) : trim (s ++ t) = trim t := by
  rw [trim, dropWhile_append_of_blank hs]
  rfl

theorem trim_append_blank (hs : Blank s) : trim (t ++ s) = trim t := by
  rw [trim, ← dropWhile_rdropWhile, rdropWhile_append_of_blank hs, dropWhile_rdropWhile]
  rfl

theorem trim_dropWhile (t : Text) : trim (t.dropWhile isSpace) = trim t := by
  rw [trim, List.dropWhile_idempotent]
  rfl

theorem trim_rdropWhile (t : Text) : trim (t.rdropWhile isSpace) = trim t := by
  rw [trim, dropWhile_rdropWhile, List.rdropWhile_idempotent]
  rfl

theorem Blank.trim (h : Blank t) : trim t = [] := by
  rw [Text.trim, h.dropWhile]
  rfl

theorem Solid.trim (h : Solid t) : trim t = t := by
  have hfront : t.dropWhile isSpace = t := by
    rw [List.dropWhile_eq_self_iff]
    exact fun hl => Bool.eq_false_iff.mp (h _ (List.getElem_mem hl))
  have hback : t.rdropWhile isSpace = t := by
    rw [List.rdropWhile_eq_self_iff]
    exact fun hl => Bool.eq_false_iff.mp (h _ (List.getLast_mem hl))
  rw [Text.trim, hfront, hback]

theorem trim_surrounded (hs : Blank s) (ht : Solid t) (hu : Blank u) : trim (s ++ t ++ u) = t := by
  rw [trim_append_blank hu, trim_blank_append hs, ht.trim]

theorem trim_trim (t : Text) : trim (trim t) = trim t := by
  show trim ((t.dropWhile isSpace).rdropWhile isSpace) = trim t
  rw [trim_rdropWhile, trim_dropWhile]

/-- A character that is not white space holds what is before it. -/
theorem rdropWhile_append_cons (hc : isSpace c = false) :
    (s ++ c :: t).rdropWhile isSpace = s ++ c :: t.rdropWhile isSpace := by
  rw [List.rdropWhile, List.reverse_append, List.reverse_cons, List.append_assoc,
    List.singleton_append, List.dropWhile_append]
  split
  · rename_i hempty
    have hnil : t.rdropWhile isSpace = [] := by
      rw [List.rdropWhile, List.isEmpty_iff.mp hempty, List.reverse_nil]
    rw [List.dropWhile_cons_of_neg (Bool.eq_false_iff.mp hc), hnil, List.reverse_cons,
      List.reverse_reverse]
  · rw [List.reverse_append, List.reverse_cons, List.reverse_reverse, List.append_assoc]
    rfl

theorem trim_append_cons (hc : isSpace c = false) :
    trim (s ++ c :: t) = s.dropWhile isSpace ++ c :: t.rdropWhile isSpace := by
  rw [trim, List.dropWhile_append]
  split
  · rename_i hempty
    rw [List.dropWhile_cons_of_neg (Bool.eq_false_iff.mp hc), List.isEmpty_iff.mp hempty]
    exact rdropWhile_append_cons (s := []) hc
  · exact rdropWhile_append_cons hc

/-! ### Cutting -/

/-- What stands before the first `c`: the first piece of `str::split`. -/
def before (c : Char) (t : Text) : Text := t.takeWhile fun x => decide (x ≠ c)

theorem before_append (h : c ∉ s) : before c (s ++ t) = s ++ before c t :=
  List.takeWhile_append_of_pos fun _ hx => decide_eq_true fun heq => h (heq ▸ hx)

theorem before_cons_self : before c (c :: t) = [] :=
  List.takeWhile_cons_of_neg fun h => of_decide_eq_true h rfl

theorem before_append_of_mem (h : c ∈ s) : before c (s ++ t) = before c s := by
  obtain ⟨u, v, rfl, hu⟩ := List.eq_append_cons_of_mem h
  rw [List.append_assoc, List.cons_append, before_append hu, before_append hu, before_cons_self,
    before_cons_self]

theorem before_of_not_mem (h : c ∉ t) : before c t = t := by
  have happend := before_append (t := []) h
  rw [List.append_nil] at happend
  exact happend.trans (List.append_nil t)

/-- `str::split_once`. -/
def splitOnce (c : Char) : Text → Option (Text × Text)
  | [] => none
  | x :: t => if x = c then some ([], t) else (splitOnce c t).map fun r => (x :: r.1, r.2)

theorem splitOnce_append_cons (h : c ∉ s) : splitOnce c (s ++ c :: t) = some (s, t) := by
  induction s with
  | nil =>
      show (if c = c then some ([], t) else _) = _
      rw [if_pos rfl]
  | cons x s ih =>
      obtain ⟨hx, hs⟩ := not_or.mp fun hor => h (List.mem_cons.mpr hor)
      show (if x = c then _ else (splitOnce c (s ++ c :: t)).map _) = _
      rw [if_neg (Ne.symm hx), ih hs]
      rfl

/-- `str::strip_prefix` of a character. -/
def stripPrefix (c : Char) (t : Text) : Option Text :=
  if t.head? = some c then some t.tail else none

/-- `str::strip_suffix` of a character. -/
def stripSuffix (c : Char) (t : Text) : Option Text :=
  if t.getLast? = some c then some t.dropLast else none

theorem stripPrefix_cons : stripPrefix c (c :: t) = some t := if_pos rfl

theorem stripPrefix_of_head (h : t.head? ≠ some c) : stripPrefix c t = none := if_neg h

theorem stripSuffix_concat : stripSuffix c (t ++ [c]) = some t := by
  rw [stripSuffix, List.getLast?_concat, if_pos rfl, List.dropLast_concat]

/-- White space at the end belongs to the last piece. -/
theorem map_trim_splitOn_rdropWhile (hc : isSpace c = false) (t : Text) :
    ((t.rdropWhile isSpace).splitOn c).map trim = (t.splitOn c).map trim := by
  by_cases hmem : c ∈ t
  · -- what stands before the first separator is a piece of both texts
    obtain ⟨s, u, ht, hs⟩ := List.eq_append_cons_of_mem hmem
    rw [ht, rdropWhile_append_cons hc, List.splitOn_append_cons_self_of_not_mem hs,
      List.splitOn_append_cons_self_of_not_mem hs, List.map_cons, List.map_cons,
      map_trim_splitOn_rdropWhile hc u]
  · have hmem' : c ∉ t.rdropWhile isSpace := fun h => hmem ((List.rdropWhile_prefix _ _).subset h)
    rw [List.splitOn_eq_singleton hmem, List.splitOn_eq_singleton hmem', List.map_singleton,
      List.map_singleton, trim_rdropWhile]
termination_by t.length
decreasing_by
  rw [ht, List.length_append, List.length_cons]
  omega

/-- White space around the pieces of a text is invisible once they are
trimmed. -/
theorem map_trim_splitOn_trim (hc : isSpace c = false) (t : Text) :
    ((trim t).splitOn c).map trim = (t.splitOn c).map trim := by
  by_cases hmem : c ∈ t
  · obtain ⟨s, u, rfl, hs⟩ := List.eq_append_cons_of_mem hmem
    have hs' : c ∉ s.dropWhile isSpace := fun h => hs ((List.dropWhile_suffix _).subset h)
    rw [trim_append_cons hc, List.splitOn_append_cons_self_of_not_mem hs,
      List.splitOn_append_cons_self_of_not_mem hs', List.map_cons, List.map_cons,
      map_trim_splitOn_rdropWhile hc, trim_dropWhile]
  · have hmem' : c ∉ trim t := fun h =>
      hmem ((List.dropWhile_suffix _).subset ((List.rdropWhile_prefix _ _).subset h))
    rw [List.splitOn_eq_singleton hmem, List.splitOn_eq_singleton hmem', List.map_singleton,
      List.map_singleton, trim_trim]

/-! ### Lines -/

/-- One carriage return is part of the line break. -/
def stripCr (t : Text) : Text := (stripSuffix '\r' t).getD t

/-- `str::lines`: what follows the last line break is a line unless it is
empty. -/
def lines (t : Text) : List Text :=
  let pieces := t.splitOn '\n'
  pieces.dropLast.map stripCr ++ (pieces.getLast?.filter fun t => decide (t ≠ [])).toList

/-! ### Letter case -/

/-- `str::to_ascii_lowercase`. -/
def toAsciiLowercase (t : Text) : Text := t.map Char.toLower

/-- Letters remain letters. -/
theorem isAlpha_of_isLower_toLower (h : c.toLower.isLower = true) : c.isAlpha = true := by
  unfold Char.toLower at h
  unfold Char.isAlpha Char.isUpper
  split at h
  · rename_i hupper
    rw [Bool.or_eq_true]
    exact Or.inl (decide_eq_true hupper)
  · rw [h, Bool.or_true]

/-- A text that spells a word of small letters has letters only. -/
theorem isAlpha_of_spells {word : Text} (hword : ∀ c ∈ word, c.isLower = true)
    (h : toAsciiLowercase t = word) : ∀ c ∈ t, c.isAlpha = true := by
  intro c hc
  refine isAlpha_of_isLower_toLower (hword _ ?_)
  rw [← h]
  exact List.mem_map_of_mem hc

theorem isSpace_of_isAlpha (h : c.isAlpha = true) : isSpace c = false := by
  have hrange : 65 ≤ c.toNat ∧ c.toNat ≤ 122 := by
    rcases Bool.or_eq_true_iff.mp h with hupper | hlower
    · obtain ⟨hlow, hhigh⟩ := of_decide_eq_true hupper
      exact ⟨hlow, le_trans hhigh (by decide)⟩
    · obtain ⟨hlow, hhigh⟩ := Bool.and_eq_true_iff.mp hlower
      exact ⟨le_trans (by decide) (of_decide_eq_true hlow), of_decide_eq_true hhigh⟩
  rw [isSpace, decide_eq_false_iff_not]
  omega

/-! ### Numbers -/

/-- `from_str` of an unsigned integer type with the values below `bound`. -/
def parseUnsigned (bound : ℕ) (t : Text) : Option ℕ :=
  let digits := (stripPrefix '+' t).getD t
  if digits ≠ [] ∧ digits.all Char.isDigit = true ∧ Nat.ofDigitChars 10 digits 0 < bound then
    some (Nat.ofDigitChars 10 digits 0)
  else none

theorem parseUnsigned_toDigits {bound n : ℕ} (h : n < bound) :
    parseUnsigned bound (Nat.toDigits 10 n) = some n := by
  have hdigit (c : Char) (hc : c ∈ Nat.toDigits 10 n) : c.isDigit = true :=
    Nat.isDigit_of_mem_toDigits (by decide) (by decide) hc
  have hplus : stripPrefix '+' (Nat.toDigits 10 n) = none := by
    refine stripPrefix_of_head fun hhead => ?_
    have := hdigit _ (List.mem_of_mem_head? hhead)
    revert this
    decide
  unfold parseUnsigned
  dsimp only
  rw [hplus, Option.getD_none, Nat.ofDigitChars_ten_toDigits, if_pos]
  exact ⟨Nat.toDigits_ne_nil, List.all_eq_true.mpr hdigit, h⟩

end Text

/-! ### Settings -/

/-- Reading settings one after the other: of each kind the last one counts. -/
theorem foldl_last {σ τ α : Type*} (apply : σ → τ → σ) (get : σ → Option α) (sel : τ → Option α)
    (h : ∀ s x, get (apply s x) = (sel x).or (get s)) (s : σ) (l : List τ) :
    get (l.foldl apply s) = (l.filterMap sel).getLast?.or (get s) := by
  induction l using List.reverseRecOn with
  | nil => rfl
  | append_singleton l x ih =>
      rw [List.foldl_concat, h, ih, List.filterMap_append]
      cases hx : sel x with
      | none =>
          rw [List.filterMap_cons_none hx, List.filterMap_nil, List.append_nil, Option.none_or]
      | some a =>
          rw [List.filterMap_cons_some hx, List.filterMap_nil, List.getLast?_concat]
          rfl

end Tunstile
