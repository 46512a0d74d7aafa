import Mathlib.Algebra.Order.Ring.Nat
import Mathlib.Data.List.Basic
import Mathlib.Data.List.Induction

/-!
# Byte strings

* `toBe k n`       the `k` bytes of a number, the most significant one first;
* `ofBe`           the number that bytes stand for, with `ofBe_toBe`;
* `slice l i j`    what a byte string holds from position `i` up to position `j`;
* `readExact n l`  the first `n` bytes of a stream and what follows them.
-/

namespace Rebar

def toBe : Nat → Nat → List UInt8
  | 0, _ => []
  | k + 1, n => toBe k (n / 256) ++ [UInt8.ofNat (n % 256)]

def ofBe (bytes : List UInt8) : Nat := bytes.foldl (fun n b => n * 256 + b.toNat) 0

@[simp] theorem length_toBe (k n : Nat) : (toBe k n).length = k := by
  induction k generalizing n with
  | zero => rfl
  | succ k ih => rw [toBe, List.length_append, ih, List.length_singleton]

theorem ofBe_concat (bytes : List UInt8) (b : UInt8) :
    ofBe (bytes ++ [b]) = ofBe bytes * 256 + b.toNat :=
  List.foldl_concat ..

theorem ofBe_toBe {k n : Nat} (h : n < 256 ^ k) : ofBe (toBe k n) = n := by
  induction k generalizing n with
  | zero =>
    rw [pow_zero] at h
    rw [Nat.lt_one_iff.mp h]
    rfl
  | succ k ih =>
    have hdiv : n / 256 < 256 ^ k := by
      rw [pow_succ] at h
      exact Nat.div_lt_of_lt_mul (Nat.mul_comm _ _ ▸ h)
    have hbyte : (UInt8.ofNat (n % 256)).toNat = n % 256 := by
      rw [UInt8.toNat_ofNat']
      exact Nat.mod_eq_of_lt (Nat.mod_lt _ (by decide))
    rw [toBe, ofBe_concat, ih hdiv, hbyte]
    omega

theorem ofBe_lt (bytes : List UInt8) : ofBe bytes < 256 ^ bytes.length := by
  induction bytes using List.reverseRecOn with
  | nil => exact Nat.one_pos
  | append_singleton bytes b ih =>
    have hbyte := b.toNat_lt
    rw [ofBe_concat, List.length_append, List.length_singleton, pow_succ]
    omega

section
variable {α : Type}

def slice (l : List α) (i j : Nat) : List α := (l.drop i).take (j - i)

theorem slice_append {a b c : List α} {i j : Nat} (hi : a.length = i) (hj : i + b.length = j) :
    slice (a ++ (b ++ c)) i j = b := by
  rw [slice, List.drop_left' hi]
  exact List.take_left' (by omega)

theorem slice_append_right {a b : List α} {i j : Nat} (hi : a.length = i) (hj : i + b.length = j) :
    slice (a ++ b) i j = b := by
  have h := slice_append (c := []) hi hj
  rw [List.append_nil] at h
  exact h

theorem slice_append_add {a b : List α} {n : Nat} (ha : a.length = n) (i j : Nat) :
    slice (a ++ b) (n + i) (n + j) = slice b i j := by
  rw [slice, slice, ← List.drop_drop, List.drop_left' ha, Nat.add_sub_add_left]

theorem length_slice {l : List α} {i j : Nat} (h : j ≤ l.length) : (slice l i j).length = j - i := by
  rw [slice, List.length_take, List.length_drop]
  omega

def readExact (n : Nat) (l : List α) : Option (List α × List α) :=
  if l.length < n then none else some (l.take n, l.drop n)

theorem readExact_append {n : Nat} {a : List α} (h : a.length = n) (rest : List α) :
    readExact n (a ++ rest) = some (a, rest) := by
  have hlen : ¬ (a ++ rest).length < n := by
    rw [List.length_append]
    omega
  rw [readExact, if_neg hlen, List.take_left' h, List.drop_left' h]

end
end Rebar
