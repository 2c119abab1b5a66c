import MiniPostScript.Number.Decimal
import MiniPostScript.Proofs.Number.Nearest

set_option autoImplicit false

namespace MiniPostScript.Single

-- A magnitude in steps of the last decimal.
def steps (rank : Nat) : Nat := Rounding.nearestQuotient (units rank * Decimal.scale) one

def ofSteps (count : Nat) : Nat := nearestRank (count * one) Decimal.scale

theorem spacing_below (rank : Nat) (small : rank < 134 * octave) : spacing rank * Decimal.scale < one :=
  Nat.lt_of_le_of_lt (Nat.mul_le_mul_right _ (spacing_le rank _ (Nat.le_pred_of_lt small))) (by decide +kernel)

theorem spacing_above (rank : Nat) (large : 134 * octave ≤ rank) : one < spacing rank * Decimal.scale :=
  Nat.lt_of_lt_of_le (by decide +kernel) (Nat.mul_le_mul_right _ (spacing_le _ rank large))

theorem fine_decimal_kept (count : Nat) (small : count < 12800000) :
    ofSteps count < 134 * octave ∧ steps (ofSteps count) = count := by
  have least : ofSteps count ≤ ofSteps 12799999 := by
    refine nearest_rank_mono _ _ _ _ (by decide) (by decide) ?_
    exact Nat.mul_le_mul_right _ (Nat.mul_le_mul_right _ (by omega))
  have below : ofSteps count < 134 * octave := Nat.lt_of_le_of_lt least (by decide +kernel)
  obtain ⟨above, under⟩ := nearest_rank_within (count * one) Decimal.scale (by decide)
  have here := spacing_below (ofSteps count) below
  have before := spacing_below (ofSteps count - 1) (by omega)
  rw [← ofSteps] at above under
  exact ⟨below, Rounding.nearest_quotient_close _ one count (by omega) (by omega)⟩

theorem coarse_single_kept (rank : Nat) (large : 12800000 ≤ steps rank) : ofSteps (steps rank) = rank := by
  obtain ⟨low, high⟩ := Rounding.nearest_quotient_bounds (units rank * Decimal.scale) one (by decide)
  rw [← steps] at low high
  have coarse : 134 * octave ≤ rank := by
    refine Nat.not_lt.mp fun fine => ?_
    have most : units rank * Decimal.scale ≤ units (134 * octave - 1) * Decimal.scale :=
      Nat.mul_le_mul_right _ ((units_le_iff _ _).mpr (Nat.le_pred_of_lt fine))
    have edge : 2 * (units (134 * octave - 1) * Decimal.scale) + one < 2 * (12800000 * one) := by decide +kernel
    have least : 12800000 * one ≤ steps rank * one := Nat.mul_le_mul_right one large
    omega
  have above : 2 * (steps rank * one) < (units rank + units (rank + 1)) * Decimal.scale := by
    have gap := spacing_above rank coarse
    rw [units_next, Nat.add_mul, Nat.add_mul]
    omega
  have below : (units (rank - 1) + units rank) * Decimal.scale < 2 * (steps rank * one) := by
    rw [Nat.add_mul]
    rcases Nat.eq_or_lt_of_le coarse with rfl | more
    · have start : units (134 * octave) * Decimal.scale = 12800000 * one := rfl
      have least : units (134 * octave) * Decimal.scale ≤ steps (134 * octave) * one := by
        rw [start]
        exact Nat.mul_le_mul_right one large
      have before : units (134 * octave - 1) * Decimal.scale < units (134 * octave) * Decimal.scale := by decide +kernel
      rw [Nat.two_mul]
      exact Nat.add_lt_add_of_lt_of_le (Nat.lt_of_lt_of_le before least) least
    · have gap := spacing_above (rank - 1) (by omega)
      have next := units_next (rank - 1)
      rw [Nat.sub_add_cancel (by omega)] at next
      rw [next, Nat.add_mul] at high ⊢
      omega
  refine (nearest_rank_iff rank _ _ (by decide)).mpr ⟨Nat.le_of_lt above, Nat.le_of_lt below, ?_⟩
  rintro (tie | tie) <;> omega

theorem decimal_kept (rank : Nat) (finite : rank < finiteCount) :
    ofSteps (steps rank) < finiteCount ∧ steps (ofSteps (steps rank)) = steps rank := by
  by_cases small : steps rank < 12800000
  · obtain ⟨below, kept⟩ := fine_decimal_kept (steps rank) small
    exact ⟨Nat.lt_trans below (by decide), kept⟩
  · rw [coarse_single_kept rank (Nat.not_lt.mp small)]
    exact ⟨finite, rfl⟩

end MiniPostScript.Single
