import Perigee.Soroban.Outcome
import Mathlib.Data.ZMod.Basic

/-!
# Wrapping arithmetic

The wrapping operations on `u128` are the operations of `ZMod (2 ^ 128)`: an equation between values
in range may be proved there by `ring`.
-/

namespace Soroban

variable {a b growth : ℕ}

theorem wrappingSub_lt (a b : ℕ) : wrappingSub a b < 2 ^ 128 := by
  unfold wrappingSub
  exact Nat.mod_lt _ (by norm_num)

theorem wrappingAdd_lt (a b : ℕ) : wrappingAdd a b < 2 ^ 128 := by
  unfold wrappingAdd
  exact Nat.mod_lt _ (by norm_num)

@[simp] theorem wrappingSub_self (a : ℕ) : wrappingSub a a = 0 := by
  unfold wrappingSub
  rw [Nat.add_sub_cancel_left, Nat.mod_self]

theorem cast_wrappingSub (hb : b < 2 ^ 128) : (wrappingSub a b : ZMod (2 ^ 128)) = a - b := by
  unfold wrappingSub
  rw [ZMod.natCast_mod, Nat.cast_sub (by omega), Nat.cast_add, ZMod.natCast_self, add_zero]

theorem cast_wrappingAdd : (wrappingAdd a b : ZMod (2 ^ 128)) = a + b := by
  unfold wrappingAdd
  rw [ZMod.natCast_mod, Nat.cast_add]

theorem eq_of_cast_eq (ha : a < 2 ^ 128) (hb : b < 2 ^ 128) (h : (a : ZMod (2 ^ 128)) = b) :
    a = b := by
  rwa [ZMod.natCast_eq_natCast_iff', Nat.mod_eq_of_lt ha, Nat.mod_eq_of_lt hb] at h

theorem wrappingSub_wrappingAdd_le (ha : a < 2 ^ 128) (hb : b < 2 ^ 128) :
    wrappingSub (wrappingAdd a growth) b ≤ wrappingSub a b + growth := by
  unfold wrappingSub wrappingAdd
  omega

end Soroban
