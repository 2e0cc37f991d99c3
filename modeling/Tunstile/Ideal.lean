/-
Tunstile/Ideal.lean

What the results about the protocol assume of the primitives.

* `Correct` — the laws honest use relies on: Diffie-Hellman commutes, opening
  inverts sealing, a timestamp survives its encoding.
* `CollisionFree` — hash and HMAC outputs collide only on equal inputs, and
  a hash occurs in a concatenation in one way only (its width is fixed).

That an AEAD cannot be forged is not a law of the functions, since a
ciphertext nobody sealed always exists; it is a condition on runs, stated
where runs are.  `symbolic` satisfies both structures at once.
-/
import Mathlib.Order.Fin.Basic
import Tunstile.Crypto

namespace Tunstile

namespace Crypto

variable (C : Crypto)

/-- The laws honest use relies on. -/
structure Correct : Prop where
  diffieHellman_comm : ∀ a b,
    C.diffieHellman a (C.publicKey b) = C.diffieHellman b (C.publicKey a)
  opened_sealed : C.OpenSeal
  fromSlice_toBytes : ∀ t, C.fromSlice (C.toBytes t).toList = some t

/-- Hashes collide only on equal inputs. -/
structure CollisionFree : Prop where
  hash_inj : ∀ {xs ys}, C.hash xs = C.hash ys → xs.flatten = ys.flatten
  hmac_inj : ∀ {k k' xs ys}, C.hmac k xs = C.hmac k' ys → k = k' ∧ xs.flatten = ys.flatten
  asRef_append_inj : ∀ {h h' x y}, C.asRef h ++ x = C.asRef h' ++ y → h = h' ∧ x = y
  asRef_ne_nil : ∀ h, C.asRef h ≠ []

/-- Every derived output is keyed by `t` and ends in its position. -/
theorem expand_eq_hmac (t : C.Hash256) (i : Nat) :
    ∃ xs x, C.expand t i = C.hmac (C.asRef t) xs ∧ xs.flatten = x ++ [UInt8.ofNat (i + 1)] := by
  cases i with
  | zero => exact ⟨_, [], rfl, rfl⟩
  | succ i =>
      exact ⟨_, C.asRef (C.expand t i), rfl, by
        simp only [List.flatten_cons, List.flatten_nil, List.append_nil]⟩

namespace CollisionFree

variable {C}
variable (hC : C.CollisionFree)
include hC

theorem asRef_inj {h h' : C.Hash256} (e : C.asRef h = C.asRef h') : h = h' :=
  (hC.asRef_append_inj (x := []) (y := []) (by simpa using e)).1

/-- Mixing into the transcript hash loses nothing. -/
theorem mixHash_inj {h h' : C.Hash256} {x y : Bytes}
    (e : C.hash [C.asRef h, x] = C.hash [C.asRef h', y]) : h = h' ∧ x = y := by
  have := hC.hash_inj e
  simp only [List.flatten_cons, List.flatten_nil, List.append_nil] at this
  exact hC.asRef_append_inj this

/-- The outputs of one derivation are told apart by their position. -/
theorem expand_inj {t t' : C.Hash256} {i j : Nat} (hi : i < 255) (hj : j < 255)
    (e : C.expand t i = C.expand t' j) : t = t' ∧ i = j := by
  obtain ⟨xs, x, hx, hxs⟩ := C.expand_eq_hmac t i
  obtain ⟨ys, y, hy, hys⟩ := C.expand_eq_hmac t' j
  obtain ⟨hk, hf⟩ := hC.hmac_inj (hx.symm.trans (e.trans hy))
  rw [hxs, hys] at hf
  have hb := List.append_inj_right' hf rfl
  refine ⟨hC.asRef_inj hk, ?_⟩
  have := congrArg UInt8.toNat (List.head_eq_of_cons_eq hb)
  simp only [UInt8.toNat_ofNat'] at this
  omega

/-- A key derivation loses neither its key, nor its input, nor the position
of its output. -/
theorem kdf_inj {k k' x y : Bytes} {i j : Nat} (hi : i < 255) (hj : j < 255)
    (e : C.kdf k x i = C.kdf k' y j) : k = k' ∧ x = y ∧ i = j := by
  obtain ⟨ht, hij⟩ := hC.expand_inj hi hj e
  obtain ⟨hk, hx⟩ := hC.hmac_inj ht
  simp only [List.flatten_cons, List.flatten_nil, List.append_nil] at hx
  exact ⟨hk, hx, hij⟩

/-- `kdf_inj` along the chain: the key is the previous chaining key. -/
theorem mixKey_inj {c c' : C.Hash256} {x y : Bytes} {i j : Nat} (hi : i < 255) (hj : j < 255)
    (e : C.kdf (C.asRef c) x i = C.kdf (C.asRef c') y j) : c = c' ∧ x = y ∧ i = j := by
  obtain ⟨hk, hx, hij⟩ := hC.kdf_inj hi hj e
  exact ⟨hC.asRef_inj hk, hx, hij⟩

end CollisionFree

/-! ### The assumptions are consistent -/

/-- A byte string made self-delimiting. -/
def frame : Bytes → Bytes
  | [] => [0]
  | b :: bs => 1 :: b :: frame bs

theorem frame_append_inj {a b x y : Bytes} (h : frame a ++ x = frame b ++ y) : a = b ∧ x = y := by
  induction a generalizing b with
  | nil =>
      cases b with
      | nil => simpa [frame] using h
      | cons c cs => simp [frame] at h
  | cons c cs ih =>
      cases b with
      | nil => simp [frame] at h
      | cons d ds =>
          simp only [frame, List.cons_append, List.cons.injEq, true_and] at h
          obtain ⟨rfl, rfl⟩ := ih h.2
          exact ⟨by rw [h.1], rfl⟩

/-- Primitives that keep what they are given: a hash is its input, a key
pair is one byte, sealing appends a constant tag. -/
def symbolic : Crypto where
  Hash256 := Bytes
  asRef := frame
  hash := List.flatten
  hmac := fun k xs => frame k ++ xs.flatten
  mac := fun _ _ => List.replicate macSize 0
  length_mac := fun _ _ => List.length_replicate
  Secret := UInt8
  publicKey := List.Vector.replicate 32
  diffieHellman := fun a p => [a + p.head]
  wasContributory := fun _ => true
  encryptDetached := fun _ _ _ m => (m, List.replicate aeadTagSize 0)
  decryptDetached := fun _ _ _ c t => if t = List.replicate aeadTagSize 0 then some c else none
  length_encrypt := fun _ _ _ _ => rfl
  length_tag := fun _ _ _ _ => List.length_replicate
  length_decrypt := fun _ _ _ _ _ _ h => by
    split at h <;> cases h
    rfl
  xDecryptDetached := fun _ _ _ c _ => some c
  Tai64N := Fin (2 ^ 64)
  taiOrder := inferInstance
  toBytes := fun t => ⟨toLeBytes 12 t.val, length_toLeBytes 12 _⟩
  fromSlice := fun b => if h : fromLeBytes b < 2 ^ 64 then some ⟨fromLeBytes b, h⟩ else none
  taiDurationSince := fun t t' => if t < t' then none else some (Duration.ofNanos (t.val - t'.val))

/-- The time of every message in runs on `symbolic`. -/
def symbolicTime : symbolic.Tai64N := (0 : Fin (2 ^ 64))

theorem symbolic_collisionFree : symbolic.CollisionFree where
  hash_inj := fun h => h
  hmac_inj := fun h => frame_append_inj h
  asRef_append_inj := fun h => frame_append_inj h
  asRef_ne_nil := fun h => by cases h <;> exact List.cons_ne_nil _ _

theorem symbolic_correct : symbolic.Correct where
  diffieHellman_comm := fun (a b : UInt8) => congrArg (fun x => [x]) (UInt8.add_comm a b)
  opened_sealed := fun key counter ad m => by
    have hlen : (symbolic.sealed key counter ad m).length - aeadTagSize = m.length := by
      rw [length_sealed, Nat.add_sub_cancel]
    rw [opened, if_neg (by rw [length_sealed]; omega), hlen]
    simp [sealed, symbolic]
  fromSlice_toBytes := fun (t : Fin (2 ^ 64)) => by
    have hval : fromLeBytes (toLeBytes 12 t.val) = t.val := by
      rw [fromLeBytes_toLeBytes]
      exact Nat.mod_eq_of_lt (t.isLt.trans (by decide))
    simp [symbolic, List.Vector.toList, hval]

end Crypto

end Tunstile
