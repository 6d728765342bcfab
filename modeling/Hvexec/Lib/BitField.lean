import Mathlib.Tactic

/-!
# Bit fields of numbers

Masks and shifts written as arithmetic.  A mask with ones at the bits from `k`
to `k + m - 1` keeps the field `x / 2 ^ k % 2 ^ m` at its place; a disjunction
with a small number fills the low bits of a multiple of a power of two.
-/

namespace Hvexec
namespace BitField

/-- A mask of `m` ones above `k` zeros keeps one field at its place. -/
theorem and_mask (k m x : Nat) :
    x &&& (2 ^ k * (2 ^ m - 1)) = 2 ^ k * (x / 2 ^ k % 2 ^ m) := by
  have hlow : (x &&& (2 ^ k * (2 ^ m - 1))) % 2 ^ k = 0 := by
    rw [Nat.and_mod_two_pow, Nat.mul_mod_right, Nat.and_zero]
  have hhigh :
      (x &&& (2 ^ k * (2 ^ m - 1))) / 2 ^ k = x / 2 ^ k % 2 ^ m := by
    rw [← Nat.shiftRight_eq_div_pow, Nat.shiftRight_and_distrib,
      Nat.shiftRight_eq_div_pow, Nat.shiftRight_eq_div_pow,
      Nat.mul_div_cancel_left _ (Nat.two_pow_pos k),
      Nat.and_two_pow_sub_one_eq_mod]
  have hsplit := Nat.div_add_mod (x &&& (2 ^ k * (2 ^ m - 1))) (2 ^ k)
  rw [hlow, hhigh, Nat.add_zero] at hsplit
  exact hsplit.symm

/-- Filling the `k` low bits of a multiple of `2 ^ k`. -/
theorem mul_or (k q b : Nat) (hb : b < 2 ^ k) :
    2 ^ k * q ||| b = 2 ^ k * q + b :=
  (Nat.two_pow_add_eq_or_of_lt hb q).symm

end BitField
end Hvexec
