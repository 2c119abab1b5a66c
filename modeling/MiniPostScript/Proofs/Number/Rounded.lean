import MiniPostScript.Proofs.Number.Whole

set_option autoImplicit false

namespace MiniPostScript.Single

theorem sum_count (a b count : Nat) (excess : 2147483648 ≤ a + b)
    (whole : units (nearestRank (wholeUnits a + wholeUnits b) 1) = count * one) :
    2147483648 ≤ count ∧ (count ≤ 2147483648 → a + b ≤ count + 256) := by
  have close := whole_units_sum a b excess
  have rounded := And.intro (whole_units_error a).1 (whole_units_error b).1
  have least : nearestRank (2147483584 * one) 1 ≤ nearestRank (wholeUnits a + wholeUnits b) 1 :=
    nearest_rank_mono _ 1 _ 1 Nat.one_pos Nat.one_pos (Nat.mul_le_mul_right 1 close)
  have edge : nearestRank (2147483584 * one) 1 = 158 * octave := by decide +kernel
  have value : units (158 * octave) = 2147483648 * one := rfl
  have reaches := (units_le_iff _ _).mpr least
  have error := (nearest_rank_error _ 1 Nat.one_pos (Nat.le_trans (by decide) close)).1
  rw [edge, value, whole] at reaches
  rw [whole] at error
  unfold one at *
  omega

theorem product_least (a b bound : Nat) (le : bound * (one * one) ≤ wholeUnits a * wholeUnits b) :
    wholeUnits bound ≤ units (nearestRank (wholeUnits a * wholeUnits b) one) := by
  refine (units_le_iff _ _).mpr (nearest_rank_mono _ 1 _ one Nat.one_pos (by decide) ?_)
  rwa [Nat.mul_one, Nat.mul_assoc]

theorem small_factor (a b count : Nat) (most : count ≤ 2147483648)
    (whole : units (nearestRank (wholeUnits a * wholeUnits b) one) = count * one) :
    a ≤ 16777216 ∨ b ≤ 16777216 := by
  refine Decidable.byContradiction fun large => ?_
  obtain ⟨first, second⟩ := not_or.mp large
  have reaches := product_least a b _ (whole_units_product_large a b (Nat.not_le.mp first) (Nat.not_le.mp second))
  have top : wholeUnits 281474976710656 = 281474976710656 * one := whole_units_exact 24 16777216 (by decide)
  rw [top, whole] at reaches
  unfold one at reaches
  omega

-- One of the factors is a single itself, so there is only one rounding before the product is rounded.
theorem product_count (a b count : Nat) (excess : 2147483648 ≤ a * b) (most : count ≤ 2147483648)
    (whole : units (nearestRank (wholeUnits a * wholeUnits b) one) = count * one) :
    (count = 2147483520 ∨ count = 2147483648) ∧ a * b ≤ count + 256 := by
  have rounded := whole_units_product a b (small_factor a b count most whole)
  have close : 2147483520 * (one * one) ≤ wholeUnits a * wholeUnits b := by
    refine Nat.le_of_mul_le_mul_left ?_ (by decide : 0 < 16777216)
    calc 16777216 * (2147483520 * (one * one)) = 16777215 * 2147483648 * (one * one) := by decide
      _ ≤ 16777215 * (a * b) * (one * one) := Nat.mul_le_mul_right _ (Nat.mul_le_mul_left _ excess)
      _ ≤ 16777216 * (wholeUnits a * wholeUnits b) := rounded
  have error := (nearest_rank_error _ one (by decide) (Nat.le_trans (by decide) close)).1
  have below : units (158 * octave - 1) = 2147483520 * one := rfl
  have edge : units (158 * octave) = 2147483648 * one := rfl
  have reaches : 158 * octave - 1 ≤ nearestRank (wholeUnits a * wholeUnits b) one := by
    have start : wholeUnits 2147483520 = 2147483520 * one := whole_units_exact 7 16777215 (by decide)
    rw [← units_le_iff, below, ← start]
    exact product_least a b _ close
  rw [whole] at error
  constructor
  · rcases Nat.eq_or_lt_of_le reaches with same | more
    · rw [← same, below] at whole
      unfold one at whole
      omega
    · have past : units (158 * octave) ≤ units (nearestRank (wholeUnits a * wholeUnits b) one) :=
        (units_le_iff _ _).mpr more
      rw [whole, edge] at past
      unfold one at past
      omega
  · unfold one at *
    omega

theorem quotient_error (n d count : Nat) (dividend : 0 < n) (divisor : 0 < d) (most : d ≤ 2147483648)
    (whole : units (nearestRank (wholeUnits n * one) (wholeUnits d)) = count * one) :
    16777215 * wholeUnits n ≤ 16777216 * (count * wholeUnits d) ∧
      16777216 * (count * wholeUnits d) ≤ 16777217 * wholeUnits n := by
  have numLeast := whole_units_mono 1 n dividend
  have denLeast := whole_units_mono 1 d divisor
  have denMost := whole_units_mono d _ most
  rw [whole_units_small 1 (by decide)] at numLeast denLeast
  have edge : wholeUnits 2147483648 = 2147483648 * one := whole_units_exact 31 1 (by decide)
  have normal : octave * wholeUnits d ≤ wholeUnits n * one := by
    rw [edge] at denMost
    calc octave * wholeUnits d ≤ octave * (2147483648 * one) := Nat.mul_le_mul_left octave denMost
      _ ≤ 1 * one * one := by decide
      _ ≤ wholeUnits n * one := Nat.mul_le_mul_right one numLeast
  have error := nearest_rank_error _ _ (Nat.lt_of_lt_of_le (by decide) denLeast) normal
  have product : count * one * wholeUnits d = count * wholeUnits d * one := by ac_rfl
  rw [whole, product] at error
  unfold one at *
  omega

-- The quotient of a small dividend is one of small numbers, and these are singles themselves.
theorem quotient_exact (n d count : Nat) (dividend : 0 < n) (divisor : 0 < d) (most : d ≤ 2147483648)
    (small : n < 16777216)
    (whole : units (nearestRank (wholeUnits n * one) (wholeUnits d)) = count * one) : count * d = n := by
  have error := quotient_error n d count dividend divisor most whole
  rw [whole_units_small n (Nat.le_of_lt small)] at error
  by_cases few : d ≤ 16777216
  · rw [whole_units_small d few, ← Nat.mul_assoc count d one] at error
    unfold one at *
    omega
  · have large := whole_units_mono 16777216 d (by omega)
    rw [whole_units_small 16777216 (Nat.le_refl _)] at large
    rcases Nat.eq_zero_or_pos count with rfl | some
    · unfold one at *
      omega
    · have reaches := Nat.le_mul_of_pos_left (wholeUnits d) some
      unfold one at *
      omega

theorem quotient_count (n d count : Nat) (dividend : 0 < n) (divisor : 0 < d) (numMost : n ≤ 2147483648)
    (denMost : d ≤ 2147483648)
    (whole : units (nearestRank (wholeUnits n * one) (wholeUnits d)) = count * one) :
    n ≤ count * d + 384 ∧ count * d ≤ n + 384 := by
  have error := quotient_error n d count dividend divisor denMost whole
  have rounded := whole_units_error n
  have scaled : 16777215 * (count * d * one) ≤ 16777216 * (count * wholeUnits d) ∧
      16777216 * (count * wholeUnits d) ≤ 16777217 * (count * d * one) := by
    have errors := (whole_units_error d).imp (Nat.mul_le_mul_left count) (Nat.mul_le_mul_left count)
    have pull (k x : Nat) : count * (k * x) = k * (count * x) := Nat.mul_left_comm count k x
    rwa [pull 16777216, pull 16777215, pull 16777217, ← Nat.mul_assoc count d] at errors
  unfold one at *
  omega

theorem add_alike (negative : Bool) (m n : Fin finiteCount) (some : 0 < units m + units n) :
    add (.finite negative m) (.finite negative n) = ofRatio negative (units m + units n) 1 := by
  have magnitude := signed_size negative (units m + units n)
  have nonzero : signed negative (units m + units n) ≠ 0 := by
    rw [← Int.natAbs_ne_zero, magnitude]
    exact Nat.ne_of_gt some
  have sign := signed_sign negative (units m + units n) (Nat.ne_of_gt some)
  simp only [add, signed_add, if_neg nonzero, ofUnits, sign, magnitude]

end MiniPostScript.Single
