import Mathlib.Algebra.Group.Nat.Defs
import MiniPostScript.Number.Single

set_option autoImplicit false

namespace MiniPostScript

namespace Rounding

theorem nearest_quotient_even (num den : Nat) (positive : 0 < den)
    (tie : 2 * num = 2 * (nearestQuotient num den * den) + den ∨
      2 * (nearestQuotient num den * den) = 2 * num + den) : nearestQuotient num den % 2 = 0 := by
  have whole := Nat.div_add_mod num den
  have small := Nat.mod_lt num positive
  rw [Nat.mul_comm den (num / den)] at whole
  generalize same : nearestQuotient num den = q at tie ⊢
  unfold nearestQuotient at same
  dsimp only at same
  split at same
  · subst same
    omega
  · split at same
    · subst same
      rw [Nat.add_mul, Nat.one_mul] at tie
      omega
    · omega

theorem nearest_quotient_close (num den q : Nat) (above : 2 * num < 2 * (q * den) + den)
    (below : 2 * (q * den) < 2 * num + den) : nearestQuotient num den = q := by
  have positive : 0 < den := by omega
  obtain ⟨low, high⟩ := nearest_quotient_bounds num den positive
  apply Nat.le_antisymm
  · apply Nat.le_of_lt_succ
    apply Nat.lt_of_mul_lt_mul_right (a := den)
    rw [Nat.succ_mul]
    omega
  · apply Nat.le_of_lt_succ
    apply Nat.lt_of_mul_lt_mul_right (a := den)
    rw [Nat.succ_mul]
    omega

-- Counted in steps of `2 ^ bitExponent precision num den`, the whole part of a ratio takes at most `precision` bits, and it
-- takes all of them unless the steps are of one.
theorem bit_exponent_above (precision num den : Nat) (positive : 0 < den) :
    num < 2 ^ precision * (den * 2 ^ bitExponent precision num den) := by
  have bound : num / den < 2 ^ ((num / den).log2 + 1) := Nat.lt_log2_self
  have digits : (num / den).log2 + 1 ≤ precision + bitExponent precision num den := by
    unfold bitExponent
    omega
  have power := Nat.lt_of_lt_of_le bound (Nat.pow_le_pow_right (by decide) digits)
  have product := (Nat.div_lt_iff_lt_mul positive).mp power
  rw [Nat.pow_add, Nat.mul_assoc, Nat.mul_comm _ den] at product
  exact product

theorem bit_exponent_below (precision num den : Nat) (positive : 0 < den) (significant : 0 < precision)
    (scaled : 0 < bitExponent precision num den) :
    2 ^ (precision - 1) * (den * 2 ^ bitExponent precision num den) ≤ num := by
  have digits : (num / den).log2 = precision - 1 + bitExponent precision num den := by
    unfold bitExponent at *
    omega
  have some : num / den ≠ 0 := by
    intro none
    rw [none, Nat.log2_zero] at digits
    omega
  have product := (Nat.le_div_iff_mul_le positive).mp (Nat.log2_self_le some)
  rw [digits, Nat.pow_add, Nat.mul_assoc, Nat.mul_comm _ den] at product
  exact product

end Rounding

namespace Single

theorem units_le_iff (low high : Nat) : units low ≤ units high ↔ low ≤ high := by
  constructor
  · exact fun le => Nat.not_lt.mp fun less => Nat.not_lt.mpr le (units_increasing high low less)
  · intro le
    rcases Nat.lt_or_eq_of_le le with less | rfl
    · exact Nat.le_of_lt (units_increasing low high less)
    · exact Nat.le_refl _

theorem units_scaled (scale count : Nat) (least : scale = 0 ∨ octave ≤ count) (most : count ≤ 2 * octave) :
    units (scale * octave + count) = count * 2 ^ scale := by
  unfold octave at *
  by_cases next : count = 16777216
  · subst next
    have quotient : (scale * 8388608 + 16777216) / 8388608 - 1 = scale + 1 := by omega
    have rest : (scale * 8388608 + 16777216) % 8388608 = 0 := by omega
    unfold units octave
    rw [if_neg (by omega), quotient, rest, Nat.shiftLeft_eq, Nat.pow_succ]
    omega
  · rcases least with rfl | least
    · rw [Nat.zero_mul, Nat.zero_add, Nat.pow_zero, Nat.mul_one]
      exact units_small count (by unfold octave; omega)
    · have quotient : (scale * 8388608 + count) / 8388608 - 1 = scale := by omega
      have rest : 8388608 + (scale * 8388608 + count) % 8388608 = count := by omega
      unfold units octave
      rw [if_neg (by omega), quotient, rest, Nat.shiftLeft_eq]

theorem spacing_power (rank : Nat) : spacing rank = 2 ^ (rank / octave - 1) := by
  rw [spacing, Nat.shiftLeft_eq, Nat.one_mul]

theorem spacing_units (rank : Nat) (normal : octave ≤ rank) : octave * spacing rank ≤ units rank := by
  rw [units, if_neg (Nat.not_lt.mpr normal), Nat.shiftLeft_eq, spacing_power]
  exact Nat.mul_le_mul_right _ (Nat.le_add_right _ _)

theorem spacing_le (low high : Nat) (le : low ≤ high) : spacing low ≤ spacing high := by
  rw [spacing_power, spacing_power]
  exact Nat.pow_le_pow_right (by decide) (Nat.sub_le_sub_right (Nat.div_le_div_right le) 1)

-- A ratio is rounded to a rank if it lies on neither side beyond the middle between the rank and its
-- neighbour. From the middle itself it goes to an even rank.
structure Nearest (rank num den : Nat) : Prop where
  above : 2 * num ≤ (units rank + units (rank + 1)) * den
  below : (units (rank - 1) + units rank) * den ≤ 2 * num
  even : 2 * num = (units rank + units (rank + 1)) * den ∨ (units (rank - 1) + units rank) * den = 2 * num →
    rank % 2 = 0

theorem nearest_mono (low high num den other part : Nat) (positive : 0 < den) (parts : 0 < part)
    (first : Nearest low num den) (second : Nearest high other part) (le : num * part ≤ other * den) :
    low ≤ high := by
  apply Nat.not_lt.mp
  intro less
  have near : units high ≤ units (low - 1) := (units_le_iff _ _).mpr (by omega)
  have far : units (high + 1) ≤ units low := (units_le_iff _ _).mpr less
  have upper : 2 * (other * den) ≤ (units high + units (high + 1)) * (part * den) := by
    have upper := Nat.mul_le_mul_right den second.above
    rwa [Nat.mul_assoc, Nat.mul_assoc] at upper
  have lower : (units (low - 1) + units low) * (part * den) ≤ 2 * (num * part) := by
    have lower := Nat.mul_le_mul_right part first.below
    rwa [Nat.mul_assoc, Nat.mul_assoc, Nat.mul_comm den] at lower
  have between := Nat.mul_le_mul_right (part * den) (Nat.add_le_add near far)
  -- The two middles are one and the same, so both ranks are even, but they are neighbours.
  have middle : units high + units (high + 1) = units (low - 1) + units low :=
    Nat.eq_of_mul_eq_mul_right (Nat.mul_pos parts positive) (by omega)
  have next : low = high + 1 := by
    have reaches := (units_le_iff low (high + 1)).mp (by omega)
    omega
  have lowEven : low % 2 = 0 := by
    refine first.even (.inr (Nat.eq_of_mul_eq_mul_right parts ?_))
    rw [Nat.mul_assoc, Nat.mul_assoc, Nat.mul_comm den]
    omega
  have highEven : high % 2 = 0 := by
    refine second.even (.inl (Nat.eq_of_mul_eq_mul_right positive ?_))
    rw [Nat.mul_assoc, Nat.mul_assoc]
    omega
  omega

section Scaled

-- How a rank is found: a ratio is counted in steps of `2 ^ scale`, and the scale leaves 24 bits to the count.
variable (scale count num den : Nat) (positive : 0 < den) (least : scale = 0 ∨ octave ≤ count)
  (most : count ≤ 2 * octave)

include least most

theorem scaled_above :
    (2 * count + 1) * (den * 2 ^ scale) ≤
      (units (scale * octave + count) + units (scale * octave + count + 1)) * den := by
  have here := units_scaled scale count least most
  have step : 2 ^ scale ≤ spacing (scale * octave + count) := by
    rw [spacing_power]
    refine Nat.pow_le_pow_right (by decide) ?_
    unfold octave at *
    omega
  rw [units_next, here, Nat.mul_comm den, ← Nat.mul_assoc]
  refine Nat.mul_le_mul_right den ?_
  rw [Nat.add_mul, Nat.one_mul, Nat.mul_assoc]
  omega

theorem scaled_below (some : 0 < count) (edge : scale = 0 ∨ octave < count) :
    (units (scale * octave + count - 1) + units (scale * octave + count)) * den =
      (2 * count - 1) * (den * 2 ^ scale) := by
  have before : scale * octave + count - 1 = scale * octave + (count - 1) := Nat.add_sub_assoc some _
  have twice : count - 1 + count = 2 * count - 1 := by omega
  rw [before, units_scaled scale (count - 1) (by omega) (by omega), units_scaled scale count least most,
    ← Nat.add_mul, twice, Nat.mul_comm den, Nat.mul_assoc]

include positive

theorem scaled_nearest (large : 0 < scale → octave * (den * 2 ^ scale) ≤ num)
    (quotient : Rounding.nearestQuotient num (den * 2 ^ scale) = count) :
    Nearest (scale * octave + count) num den := by
  have step : 0 < den * 2 ^ scale := Nat.mul_pos positive (Nat.two_pow_pos scale)
  obtain ⟨low, high⟩ := Rounding.nearest_quotient_bounds num (den * 2 ^ scale) step
  have even := Rounding.nearest_quotient_even num (den * 2 ^ scale) step
  have parity : (scale * octave + count) % 2 = count % 2 := by
    unfold octave
    omega
  have above := scaled_above scale count den least most
  rw [Nat.add_mul, Nat.one_mul, Nat.mul_assoc] at above
  rw [quotient] at low high even
  have below : (units (scale * octave + count - 1) + units (scale * octave + count)) * den ≤ 2 * num ∧
      ((units (scale * octave + count - 1) + units (scale * octave + count)) * den = 2 * num →
        (scale * octave + count) % 2 = 0) := by
    rcases Nat.eq_zero_or_pos count with rfl | some
    · obtain rfl := least.resolve_right (by decide)
      exact ⟨by simp [units], fun _ => rfl⟩
    · by_cases edge : scale = 0 ∨ octave < count
      · have split : (2 * count - 1) * (den * 2 ^ scale) + den * 2 ^ scale = 2 * (count * (den * 2 ^ scale)) := by
          rw [← Nat.succ_mul (2 * count - 1), Nat.succ_eq_add_one, Nat.sub_add_cancel (by omega), Nat.mul_assoc]
        rw [scaled_below scale count den least most some edge, parity]
        exact ⟨by omega, fun tie => even (.inr (by omega))⟩
      -- The lower neighbour is only half a step away, but the ratio does not lie below the rank at all.
      · have whole := large (by omega)
        have same : count = octave := by omega
        have here : units (scale * octave + count) * den = octave * (den * 2 ^ scale) := by
          rw [units_scaled scale count least most, same, Nat.mul_assoc, Nat.mul_comm den]
        have closer := Nat.mul_lt_mul_of_pos_right
          (units_increasing (scale * octave + count - 1) (scale * octave + count) (by omega)) positive
        rw [Nat.add_mul]
        omega
  refine ⟨by omega, below.1, ?_⟩
  rintro (tie | tie)
  · rw [parity]
    exact even (.inl (by omega))
  · exact below.2 tie

end Scaled

theorem significand_bounds (num den : Nat) (positive : 0 < den) :
    (Rounding.bitExponent 24 num den = 0 ∨ octave ≤ Rounding.significand 24 num den) ∧
      Rounding.significand 24 num den ≤ 2 * octave := by
  have step := Nat.mul_pos positive (Nat.two_pow_pos (Rounding.bitExponent 24 num den))
  have less : num < 2 * octave * (den * 2 ^ Rounding.bitExponent 24 num den) :=
    Rounding.bit_exponent_above 24 num den positive
  have large : 0 < Rounding.bitExponent 24 num den → octave * (den * 2 ^ Rounding.bitExponent 24 num den) ≤ num :=
    Rounding.bit_exponent_below 24 num den positive (by decide)
  obtain ⟨low, high⟩ := Rounding.nearest_quotient_bounds num _ step
  rw [Rounding.significand, Nat.shiftLeft_eq]
  generalize den * 2 ^ Rounding.bitExponent 24 num den = unit at *
  generalize Rounding.nearestQuotient num unit = count at *
  constructor
  · refine (Nat.eq_zero_or_pos _).imp_right fun scaled => ?_
    have reaches := large scaled
    refine Nat.le_of_lt_succ (Nat.lt_of_mul_lt_mul_right (a := unit) ?_)
    rw [Nat.succ_mul count]
    omega
  · refine Nat.le_of_lt_succ (Nat.lt_of_mul_lt_mul_right (a := unit) ?_)
    rw [Nat.succ_mul]
    omega

theorem nearest_rank_nearest (num den : Nat) (positive : 0 < den) : Nearest (nearestRank num den) num den := by
  obtain ⟨least, most⟩ := significand_bounds num den positive
  refine scaled_nearest _ _ num den positive least most ?_ ?_
  · exact Rounding.bit_exponent_below 24 num den positive (by decide)
  · rw [Rounding.significand, Nat.shiftLeft_eq]

theorem nearest_rank_iff (rank num den : Nat) (positive : 0 < den) :
    nearestRank num den = rank ↔ Nearest rank num den := by
  have found := nearest_rank_nearest num den positive
  constructor
  · rintro rfl
    exact found
  · intro nearest
    exact Nat.le_antisymm (nearest_mono _ _ num den num den positive positive found nearest (Nat.le_refl _))
      (nearest_mono _ _ num den num den positive positive nearest found (Nat.le_refl _))

theorem nearest_rank_mono (num den other part : Nat) (positive : 0 < den) (parts : 0 < part)
    (le : num * part ≤ other * den) : nearestRank num den ≤ nearestRank other part :=
  nearest_mono _ _ num den other part positive parts (nearest_rank_nearest num den positive)
    (nearest_rank_nearest other part parts) le

theorem ranks_below_iff (ranks : Nat → Nat) (mono : ∀ low high, low ≤ high → ranks low ≤ ranks high) (last rank : Nat)
    (below : ranks last < rank) (beyond : rank ≤ ranks (last + 1)) (n : Nat) : ranks n < rank ↔ n ≤ last := by
  constructor
  · intro less
    exact Nat.not_lt.mp fun past => Nat.not_lt.mpr (Nat.le_trans beyond (mono _ n past)) less
  · intro within
    exact Nat.lt_of_le_of_lt (mono n last within) below

theorem nearest_rank_ratio (num den other part : Nat) (positive : 0 < den) (parts : 0 < part)
    (same : num * part = other * den) : nearestRank num den = nearestRank other part :=
  Nat.le_antisymm (nearest_rank_mono num den other part positive parts (Nat.le_of_eq same))
    (nearest_rank_mono other part num den parts positive (Nat.le_of_eq same.symm))

theorem nearest_rank_units (rank : Nat) : nearestRank (units rank) 1 = rank := by
  have next := units_increasing rank (rank + 1) (Nat.lt_succ_self rank)
  have before : units (rank - 1) ≤ units rank := (units_le_iff _ _).mpr (Nat.sub_le rank 1)
  refine (nearest_rank_iff rank _ 1 Nat.one_pos).mpr ⟨by omega, by omega, ?_⟩
  rintro (tie | tie)
  · omega
  · have reaches := (units_le_iff rank (rank - 1)).mp (by omega)
    omega

theorem nearest_rank_within (num den : Nat) (positive : 0 < den) :
    2 * num ≤ 2 * (units (nearestRank num den) * den) + spacing (nearestRank num den) * den ∧
      2 * (units (nearestRank num den) * den) ≤ 2 * num + spacing (nearestRank num den - 1) * den := by
  obtain ⟨above, below, _⟩ := nearest_rank_nearest num den positive
  generalize nearestRank num den = rank at *
  constructor
  · rw [units_next, Nat.add_mul, Nat.add_mul] at above
    omega
  · by_cases first : rank = 0
    · subst first
      simp [units]
    · have next := units_next (rank - 1)
      rw [Nat.sub_add_cancel (Nat.pos_of_ne_zero first)] at next
      have split : units rank * den = units (rank - 1) * den + spacing (rank - 1) * den := by
        rw [next, Nat.add_mul]
      rw [Nat.add_mul] at below
      omega

theorem nearest_rank_error (num den : Nat) (positive : 0 < den) (normal : octave * den ≤ num) :
    16777216 * num ≤ 16777216 * (units (nearestRank num den) * den) + num ∧
      16777216 * (units (nearestRank num den) * den) ≤ 16777216 * num + num := by
  obtain ⟨above, below⟩ := nearest_rank_within num den positive
  have least : octave ≤ nearestRank num den := by
    rw [← nearest_rank_units octave]
    exact nearest_rank_mono _ 1 num den Nat.one_pos positive (by rw [Nat.mul_one]; exact normal)
  generalize nearestRank num den = rank at *
  have gap (near : Nat) (normal : octave ≤ near) : 8388608 * (spacing near * den) ≤ units near * den := by
    have gap := Nat.mul_le_mul_right den (spacing_units near normal)
    rwa [Nat.mul_assoc] at gap
  constructor
  · have here := gap rank least
    omega
  · by_cases first : rank = octave
    · subst first
      have exact : units octave * den = octave * den := rfl
      omega
    · have lower := gap (rank - 1) (by omega)
      have next := units_next (rank - 1)
      rw [Nat.sub_add_cancel (by omega)] at next
      have split : units rank * den = units (rank - 1) * den + spacing (rank - 1) * den := by
        rw [next, Nat.add_mul]
      omega

end Single

end MiniPostScript
