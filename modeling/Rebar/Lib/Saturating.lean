import Mathlib.Data.UInt
import Mathlib.Order.MinMax

/-!
# Saturating arithmetic on 64-bit words

`satAdd` is addition that stops at the greatest word.  Facts about words are proved by passing to
`toNat` (`toNat_satAdd`) and leaving the rest to `omega`.
-/

namespace Rebar

/-- the greatest 64-bit word -/
def u64Max : UInt64 := 0xFFFFFFFFFFFFFFFF

/-- addition that stops at `u64Max` -/
def satAdd (a b : UInt64) : UInt64 :=
  if a.toNat + b.toNat < 2^64 then a + b else u64Max

theorem toNat_u64Max : u64Max.toNat = 2^64 - 1 := by decide

theorem toNat_satAdd (a b : UInt64) : (satAdd a b).toNat = min (a.toNat + b.toNat) (2^64 - 1) := by
  unfold satAdd
  by_cases h : a.toNat + b.toNat < 2^64
  · rw [if_pos h, UInt64.toNat_add, Nat.mod_eq_of_lt h]
    omega
  · rw [if_neg h, toNat_u64Max]
    omega

theorem toNat_one : (1 : UInt64).toNat = 1 := by decide

theorem toNat_satAdd_one (a : UInt64) : (satAdd a 1).toNat = min (a.toNat + 1) (2^64 - 1) := by
  rw [toNat_satAdd, toNat_one]

theorem toNat_le_max (a : UInt64) : a.toNat ≤ 2^64 - 1 := by
  have := a.toNat_lt
  omega

end Rebar
