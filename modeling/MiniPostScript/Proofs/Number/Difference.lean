import MiniPostScript.Number.Arithmetic
import MiniPostScript.Operator.Comparison
import MiniPostScript.Proofs.Number.Whole

set_option autoImplicit false

namespace MiniPostScript

-- The greatest distance that is rounded to less than the tolerance, in units: the middle between the tolerance and
-- the single before it, which is an even one.
abbrev Comparison.reach : Nat := 27487789 * 2 ^ 111

namespace Single

theorem compare_positions (x y : Single) (p q : Int) (first : x.position? = some p) (second : y.position? = some q) :
    x.compare? y = some (compare p q) := by
  rw [compare?, first, second]

theorem less_iff (x y : Single) (p q : Int) (first : x.position? = some p) (second : y.position? = some q) :
    x.less y = true ↔ p < q := by
  rw [less, compare_positions x y p q first second]
  simp [Int.compare_eq_lt]

theorem tolerance_rank : Comparison.tolerance = .finite false ⟨953267991, by decide⟩ := by decide +kernel

theorem reach_rank (distance : Nat) : nearestRank distance 1 < 953267991 ↔ distance ≤ Comparison.reach := by
  have mono (low high : Nat) (le : low ≤ high) : nearestRank low 1 ≤ nearestRank high 1 :=
    nearest_rank_mono low 1 high 1 Nat.one_pos Nat.one_pos (Nat.mul_le_mul_right 1 le)
  refine ranks_below_iff (fun distance => nearestRank distance 1) mono _ _ ?_ ?_ distance <;> decide +kernel

theorem finite_close_iff (rank : Nat) (finite : rank < finiteCount) :
    (Single.finite false ⟨rank, finite⟩).less Comparison.tolerance = true ↔ rank < 953267991 := by
  rw [tolerance_rank, less_iff _ _ (signed false (units rank)) _ rfl rfl, signed, signed, if_neg Bool.false_ne_true,
    if_neg Bool.false_ne_true, Int.ofNat_lt, ← Nat.not_le, units_le_iff, Nat.not_le]

theorem infinite_not_close : (Single.infinite false).less Comparison.tolerance = false := by
  rw [tolerance_rank]
  decide +kernel

theorem of_units_close_iff (negative : Bool) (distance : Nat) :
    (ofUnits negative distance).abs.less Comparison.tolerance = true ↔ distance ≤ Comparison.reach := by
  rw [← reach_rank, ofUnits, ofRatio]
  split
  · exact finite_close_iff _ _
  · rename_i beyond
    have far : ¬nearestRank distance 1 < 953267991 := fun less => beyond (Nat.lt_trans less (by decide))
    rw [abs, infinite_not_close]
    exact iff_of_false Bool.false_ne_true far

theorem infinite_far (negative other : Bool) (rank : Fin finiteCount) :
    Comparison.reach < (signed negative (units finiteCount) - signed other (units rank)).natAbs := by
  have greatest : units rank ≤ units (finiteCount - 1) := (units_le_iff _ _).mpr (Nat.le_sub_one_of_lt rank.isLt)
  have gap : units (finiteCount - 1) + Comparison.reach < units finiteCount := by decide +kernel
  have apart := Nat.lt_of_le_of_lt (Nat.add_le_add_right greatest _) gap
  generalize units finiteCount = infinity at apart ⊢
  generalize units rank = magnitude at apart ⊢
  generalize Comparison.reach = reach at apart ⊢
  cases negative <;> cases other <;> simp [signed] <;> omega

theorem opposite_far (negative : Bool) :
    Comparison.reach < (signed negative (units finiteCount) - signed (!negative) (units finiteCount)).natAbs := by
  cases negative <;> decide +kernel

-- Infinities of one sign are left out, for they have no difference.
theorem sub_close_iff (x y : Single) (p q : Int) (first : x.position? = some p) (second : y.position? = some q)
    (apart : ∀ negative, ¬(x = .infinite negative ∧ y = .infinite negative)) :
    (x.sub y).abs.less Comparison.tolerance = true ↔ (p - q).natAbs ≤ Comparison.reach := by
  have far (less : Comparison.reach < (p - q).natAbs) :
      (Single.infinite false).less Comparison.tolerance = true ↔ (p - q).natAbs ≤ Comparison.reach := by
    rw [infinite_not_close]
    exact iff_of_false Bool.false_ne_true (Nat.not_le.mpr less)
  cases x with
  | nan => cases first
  | infinite a =>
      obtain rfl := Option.some.inj first
      cases y with
      | nan => cases second
      | infinite b =>
          obtain rfl := Option.some.inj second
          obtain rfl : b = !a := by
            cases a <;> cases b <;> first | rfl | exact absurd ⟨rfl, rfl⟩ (apart _)
          rw [sub, neg, Bool.not_not, add, if_pos rfl]
          exact far (opposite_far a)
      | finite b n =>
          obtain rfl := Option.some.inj second
          exact far (infinite_far a b n)
  | finite a m =>
      obtain rfl := Option.some.inj first
      cases y with
      | nan => cases second
      | infinite b =>
          obtain rfl := Option.some.inj second
          refine far ?_
          rw [← Int.natAbs_neg, Int.neg_sub]
          exact infinite_far b a m
      | finite b n =>
          obtain rfl := Option.some.inj second
          rw [sub, neg, add, signed_not, ← Int.sub_eq_add_neg]
          split
          · rename_i same
            rw [same, zero, abs, finite_close_iff]
            exact iff_of_true (by decide) (Nat.zero_le _)
          · exact of_units_close_iff _ _

end Single

end MiniPostScript
