import MiniPostScript.Number.Integer
import MiniPostScript.Proofs.Number.Nearest

set_option autoImplicit false

namespace MiniPostScript

namespace Rounding

theorem le_floor_root_iff (m n : Nat) : m ≤ floorRoot n ↔ m ^ 2 ≤ n := by
  obtain ⟨low, high⟩ := floor_root_bounds n
  rw [← Nat.pow_two] at low high
  constructor
  · intro le
    exact Nat.le_trans (Nat.pow_le_pow_left le 2) low
  · intro square
    refine Nat.le_of_lt_succ ((Nat.pow_lt_pow_iff_left (by decide : 2 ≠ 0)).mp ?_)
    exact Nat.lt_of_le_of_lt square high

theorem floor_root_square (m : Nat) : floorRoot (m ^ 2) = m := by
  refine Nat.le_antisymm ?_ ((le_floor_root_iff m _).mpr (Nat.le_refl _))
  refine (Nat.pow_le_pow_iff_left (by decide : 2 ≠ 0)).mp ?_
  exact (le_floor_root_iff _ _).mp (Nat.le_refl _)

theorem le_root_twice_iff (m n : Nat) : 2 * m ≤ rootTwice n ↔ m ^ 2 ≤ n := by
  rw [← le_floor_root_iff, rootTwice]
  split <;> omega

theorem root_twice_le_iff (m n : Nat) : rootTwice n ≤ 2 * m ↔ n ≤ m ^ 2 := by
  rw [rootTwice]
  split
  · rename_i square
    have compared : floorRoot n ^ 2 ≤ m ^ 2 ↔ floorRoot n ≤ m := Nat.pow_le_pow_iff_left (by decide)
    rw [Nat.pow_two, square] at compared
    omega
  · rename_i between
    have reaches := le_floor_root_iff m n
    have apart : n ≠ m ^ 2 := by
      rintro rfl
      rw [floor_root_square, ← Nat.pow_two] at between
      exact between rfl
    omega

-- The root of `n` has `precision` bits before the point when it is counted in steps of `2 ^ scale`, and `count` steps are at
-- most half a step away from it. Halfway between two counts either will do. Roots are compared by their squares.
structure NearestRoot (precision n scale count : Nat) : Prop where
  least : (2 ^ (precision - 1) * 2 ^ scale) ^ 2 ≤ n
  most : n < (2 ^ precision * 2 ^ scale) ^ 2
  above : 4 * n ≤ ((2 * count + 1) * 2 ^ scale) ^ 2
  below : ((2 * count - 1) * 2 ^ scale) ^ 2 ≤ 4 * n

theorem significand_half (precision num : Nat) :
    num ≤ (2 * significand precision num 2 + 1) * 2 ^ bitExponent precision num 2 ∧
      (2 * significand precision num 2 - 1) * 2 ^ bitExponent precision num 2 ≤ num := by
  have step : 0 < 2 * 2 ^ bitExponent precision num 2 := Nat.mul_pos (by decide) (Nat.two_pow_pos _)
  obtain ⟨low, high⟩ := nearest_quotient_bounds num _ step
  rw [significand, Nat.shiftLeft_eq]
  generalize nearestQuotient num (2 * 2 ^ bitExponent precision num 2) = count at *
  rw [Nat.mul_left_comm count] at low high
  rw [Nat.add_mul, Nat.sub_mul, Nat.one_mul, Nat.mul_assoc]
  omega

-- With steps of one the middles between counts would not be whole, and `rootTwice` stands in for the root only where it is
-- compared with whole numbers.
theorem significand_root (precision n : Nat) (significant : 0 < precision)
    (scaled : 0 < bitExponent precision (rootTwice n) 2) :
    NearestRoot precision n (bitExponent precision (rootTwice n) 2) (significand precision (rootTwice n) 2) := by
  have least := bit_exponent_below precision (rootTwice n) 2 (by decide) significant scaled
  have most := bit_exponent_above precision (rootTwice n) 2 (by decide)
  obtain ⟨above, below⟩ := significand_half precision (rootTwice n)
  generalize significand precision (rootTwice n) 2 = count at *
  generalize bitExponent precision (rootTwice n) 2 = scale at *
  obtain ⟨half, rfl⟩ := Nat.exists_eq_add_one.mpr scaled
  have middle (odd : Nat) : odd * 2 ^ (half + 1) = 2 * (odd * 2 ^ half) := by
    rw [Nat.pow_succ', Nat.mul_left_comm]
  rw [Nat.mul_left_comm] at least most
  rw [middle] at above below
  constructor
  · exact (le_root_twice_iff _ n).mp least
  · exact Nat.not_le.mp fun reaches => Nat.not_le.mpr most ((le_root_twice_iff _ n).mpr reaches)
  · rw [middle, Nat.mul_pow]
    exact Nat.mul_le_mul_left 4 ((root_twice_le_iff _ n).mp above)
  · rw [middle, Nat.mul_pow]
    exact Nat.mul_le_mul_left 4 ((le_root_twice_iff _ n).mp below)

theorem nearest_root_unscaled (precision n places scale count : Nat)
    (nearest : NearestRoot precision (n * (2 ^ places * 2 ^ scale) ^ 2) scale count) :
    4 * (n * (2 ^ places) ^ 2) ≤ (2 * count + 1) ^ 2 ∧ (2 * count - 1) ^ 2 ≤ 4 * (n * (2 ^ places) ^ 2) := by
  have positive : 0 < (2 ^ scale) ^ 2 := Nat.pow_pos (Nat.two_pow_pos scale)
  have grid : 4 * (n * (2 ^ places * 2 ^ scale) ^ 2) = 4 * (n * (2 ^ places) ^ 2) * (2 ^ scale) ^ 2 := by
    rw [Nat.mul_pow, ← Nat.mul_assoc n, ← Nat.mul_assoc 4]
  obtain ⟨_, _, above, below⟩ := nearest
  rw [grid, Nat.mul_pow] at above below
  exact ⟨Nat.le_of_mul_le_mul_right above positive, Nat.le_of_mul_le_mul_right below positive⟩

-- A root below a whole number `k` is below it by more than `1 / (2 * k)`, and half a step is no more than that.
theorem nearest_root_whole (n steps count : Nat) (fine : floorRoot n < steps)
    (above : 4 * (n * steps ^ 2) ≤ (2 * count + 1) ^ 2) (below : (2 * count - 1) ^ 2 ≤ 4 * (n * steps ^ 2)) :
    count / steps = floorRoot n := by
  obtain ⟨low, high⟩ := floor_root_bounds n
  generalize floorRoot n = root at *
  refine Nat.div_eq_of_lt_le ?_ (Nat.not_le.mp fun reaches => ?_)
  · have kept : (2 * (root * steps)) ^ 2 ≤ (2 * count + 1) ^ 2 := by
      calc (2 * (root * steps)) ^ 2 = 4 * (root * root * steps ^ 2) := by grind
        _ ≤ 4 * (n * steps ^ 2) := Nat.mul_le_mul_left 4 (Nat.mul_le_mul_right _ low)
        _ ≤ (2 * count + 1) ^ 2 := above
    have within := (Nat.pow_le_pow_iff_left (by decide : 2 ≠ 0)).mp kept
    omega
  · have wide : (root + 1) * steps ≤ steps ^ 2 := by
      rw [Nat.pow_two]
      exact Nat.mul_le_mul_right steps fine
    have short : n * steps ^ 2 + steps ^ 2 ≤ ((root + 1) * steps) ^ 2 := by
      rw [← Nat.succ_mul, Nat.mul_pow, Nat.pow_two (root + 1)]
      exact Nat.mul_le_mul_right _ high
    obtain ⟨before, edge⟩ : ∃ before, (root + 1) * steps = before + 1 :=
      Nat.exists_eq_add_one.mpr (Nat.mul_pos (Nat.succ_pos root) (Nat.zero_lt_of_lt fine))
    rw [edge] at wide short reaches
    have far : (2 * before + 1) ^ 2 ≤ (2 * count - 1) ^ 2 := Nat.pow_le_pow_left (by omega) 2
    have odd : (2 * before + 1) ^ 2 = 4 * before ^ 2 + 4 * before + 1 := by grind
    have next : (before + 1) ^ 2 = before ^ 2 + 2 * before + 1 := by grind
    omega

end Rounding

namespace Integer

open Rounding

-- The root is counted in units of `2 ^ -60`. From one on it has more than 53 bits of them.
theorem root_nearest (n : Nat) (positive : 0 < n) :
    ∃ scale count, NearestRoot 53 (n * (2 ^ 60) ^ 2) scale count ∧ root n = count * 2 ^ scale / 2 ^ 60 := by
  have units : n <<< 120 = n * (2 ^ 60) ^ 2 := Nat.shiftLeft_eq n 120
  have scaled : 0 < bitExponent 53 (rootTwice (n * (2 ^ 60) ^ 2)) 2 := by
    have reaches := (le_root_twice_iff (2 ^ 60) _).mpr (Nat.le_mul_of_pos_left ((2 ^ 60) ^ 2) positive)
    have digits : 60 ≤ (rootTwice (n * (2 ^ 60) ^ 2) / 2).log2 := (Nat.le_log2 (by omega)).mpr (by omega)
    unfold bitExponent
    omega
  refine ⟨_, _, significand_root 53 _ (by decide) scaled, ?_⟩
  rw [root, units, Nat.shiftLeft_eq, Nat.shiftRight_eq_div_pow]

-- A root below `2 ^ 26` takes at most 26 of the 53 bits for its whole part, which leaves 27 of them for the steps to a whole.
theorem nearest_root_floor (n scale count : Nat) (small : n < 2 ^ 52)
    (nearest : NearestRoot 53 (n * (2 ^ 60) ^ 2) scale count) : count * 2 ^ scale / 2 ^ 60 = floorRoot n := by
  have fine : floorRoot n < 2 ^ 26 := by
    rw [← Nat.not_le, le_floor_root_iff]
    omega
  have bits : scale < 34 := by
    have reaches : (2 ^ 52 * 2 ^ scale) ^ 2 ≤ n * (2 ^ 60) ^ 2 := nearest.least
    have less : (2 ^ 52 * 2 ^ scale) ^ 2 < (2 ^ 52 * 2 ^ 34) ^ 2 := by omega
    have power := Nat.lt_of_mul_lt_mul_left ((Nat.pow_lt_pow_iff_left (by decide)).mp less)
    exact (Nat.pow_lt_pow_iff_right (by decide)).mp power
  obtain ⟨places, split⟩ := Nat.exists_eq_add_of_le' (Nat.le_trans (Nat.le_of_lt bits) (by decide : 34 ≤ 60))
  have units : 2 ^ 60 = 2 ^ places * 2 ^ scale := by rw [← Nat.pow_add, ← split]
  rw [units] at nearest ⊢
  obtain ⟨above, below⟩ := nearest_root_unscaled 53 n places scale count nearest
  have wide : floorRoot n < 2 ^ places := Nat.lt_of_lt_of_le fine (Nat.pow_le_pow_right (by decide) (by omega))
  rw [Nat.mul_div_mul_right _ _ (Nat.two_pow_pos scale)]
  exact nearest_root_whole n (2 ^ places) count wide above below

theorem root_floor (n : Nat) (small : n < 2 ^ 52) : root n = floorRoot n := by
  rcases Nat.eq_zero_or_pos n with rfl | positive
  · rfl
  · obtain ⟨scale, count, nearest, cut⟩ := root_nearest n positive
    rw [cut]
    exact nearest_root_floor n scale count small nearest

end Integer

end MiniPostScript
