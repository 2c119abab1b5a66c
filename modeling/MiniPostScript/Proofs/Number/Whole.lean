import MiniPostScript.Number.Arithmetic
import MiniPostScript.Number.Integer
import MiniPostScript.Proofs.Number.Nearest

set_option autoImplicit false

namespace MiniPostScript

theorem Integer.nat_abs_le (n : Integer) : n.toInt.natAbs ≤ 2147483648 := by
  have low := n.le_toInt
  have high := n.toInt_lt
  omega

namespace Single

theorem spacing_dvd (rank : Nat) : spacing rank ∣ units rank := by
  rw [units, spacing_power]
  split
  · rename_i small
    rw [Nat.div_eq_of_lt small]
    exact Nat.one_dvd rank
  · rw [Nat.shiftLeft_eq]
    exact Nat.dvd_mul_left _ _

theorem units_onto (scale count : Nat) (most : count ≤ 2 * octave) :
    ∃ rank, units rank = count * 2 ^ scale := by
  induction scale generalizing count with
  | zero => exact ⟨0 * octave + count, units_scaled 0 count (.inl rfl) most⟩
  | succ scale ih =>
      by_cases large : octave ≤ count
      · exact ⟨_, units_scaled (scale + 1) count (.inr large) most⟩
      · obtain ⟨rank, same⟩ := ih (2 * count) (by omega)
        refine ⟨rank, ?_⟩
        rw [same, Nat.pow_succ', Nat.mul_comm 2 count, Nat.mul_assoc]

theorem nearest_rank_exact (scale count : Nat) (most : count ≤ 2 * octave) :
    units (nearestRank (count * 2 ^ scale) 1) = count * 2 ^ scale := by
  obtain ⟨rank, same⟩ := units_onto scale count most
  rw [← same, nearest_rank_units]

def wholeUnits (n : Nat) : Nat := units (nearestRank (n * one) 1)

theorem whole_rank_mono (low high : Nat) (le : low ≤ high) : nearestRank (low * one) 1 ≤ nearestRank (high * one) 1 := by
  refine nearest_rank_mono _ 1 _ 1 Nat.one_pos Nat.one_pos ?_
  exact Nat.mul_le_mul_right 1 (Nat.mul_le_mul_right one le)

theorem whole_units_mono (low high : Nat) (le : low ≤ high) : wholeUnits low ≤ wholeUnits high :=
  (units_le_iff _ _).mpr (whole_rank_mono low high le)

theorem whole_units_exact (scale count : Nat) (most : count ≤ 2 * octave) :
    wholeUnits (count * 2 ^ scale) = count * 2 ^ scale * one := by
  have grid : count * 2 ^ scale * one = count * 2 ^ (scale + 149) := by
    rw [one, Nat.shiftLeft_eq, Nat.one_mul, Nat.pow_add, Nat.mul_assoc]
  rw [wholeUnits, grid, nearest_rank_exact _ count most]

theorem whole_units_small (n : Nat) (small : n ≤ 16777216) : wholeUnits n = n * one := by
  have exact := whole_units_exact 0 n small
  rwa [Nat.pow_zero, Nat.mul_one] at exact

theorem whole_units_error (n : Nat) :
    16777215 * (n * one) ≤ 16777216 * wholeUnits n ∧ 16777216 * wholeUnits n ≤ 16777217 * (n * one) := by
  by_cases none : n = 0
  · subst none
    rw [whole_units_small 0 (by decide)]
    simp
  · have normal : octave * 1 ≤ n * one :=
      Nat.le_trans (by decide) (Nat.mul_le_mul_right one (Nat.pos_of_ne_zero none))
    have error := nearest_rank_error (n * one) 1 Nat.one_pos normal
    rw [Nat.mul_one] at error
    rw [wholeUnits]
    omega

theorem whole_units_coarse (n : Nat) (least : 1073741824 ≤ n) (below : wholeUnits n < 2147483648 * one) :
    ∃ steps, wholeUnits n = 128 * one * steps ∧ 8388608 ≤ steps ∧ steps < 16777216 ∧ n ≤ 128 * steps + 64 := by
  have start : units (157 * octave) = 1073741824 * one := rfl
  have edge : units (158 * octave) = 2147483648 * one := rfl
  have half : 1073741824 * one ≤ wholeUnits n :=
    Nat.le_trans (Nat.le_of_eq (whole_units_exact 30 1 (by decide)).symm) (whole_units_mono _ n least)
  have low : 157 * octave ≤ nearestRank (n * one) 1 := by
    rw [← units_le_iff, start]
    exact half
  have high : nearestRank (n * one) 1 < 158 * octave := by
    rw [← Nat.not_le, ← units_le_iff, edge]
    exact Nat.not_le.mpr below
  have gap : spacing (nearestRank (n * one) 1) = 128 * one := by
    have scale : nearestRank (n * one) 1 / octave - 1 = 156 := by
      unfold octave at *
      omega
    rw [spacing, scale]
    rfl
  obtain ⟨steps, multiple⟩ := spacing_dvd (nearestRank (n * one) 1)
  have within := (nearest_rank_within (n * one) 1 Nat.one_pos).1
  rw [← wholeUnits, gap] at within multiple
  rw [multiple] at within half below
  unfold one at *
  exact ⟨steps, multiple, by omega, by omega, by omega⟩

-- The greater of two addends leaves a multiple of 64 to the other one, which is no smaller than that after rounding.
theorem whole_units_sum_ordered (a b : Nat) (le : b ≤ a) (excess : 2147483648 ≤ a + b) :
    2147483584 * one ≤ wholeUnits a + wholeUnits b := by
  by_cases below : wholeUnits a < 2147483648 * one
  · obtain ⟨steps, same, least, most, near⟩ := whole_units_coarse a (by omega) below
    obtain ⟨count, left⟩ : ∃ count, count + 2 * steps = 33554431 :=
      ⟨33554431 - 2 * steps, Nat.sub_add_cancel (by omega)⟩
    have small : count ≤ 2 * octave := by
      unfold octave
      omega
    have kept : wholeUnits (count * 2 ^ 6) ≤ wholeUnits b := whole_units_mono _ b (by omega)
    rw [whole_units_exact 6 count small] at kept
    rw [same]
    calc 2147483584 * one = 64 * (count + 2 * steps) * one := by rw [left]
      _ = 128 * one * steps + count * 2 ^ 6 * one := by grind
      _ ≤ 128 * one * steps + wholeUnits b := Nat.add_le_add_left kept _
  · have reaches := Nat.not_lt.mp below
    unfold one at *
    omega

theorem whole_units_sum (a b : Nat) (excess : 2147483648 ≤ a + b) :
    2147483584 * one ≤ wholeUnits a + wholeUnits b := by
  rcases Nat.le_total b a with le | le
  · exact whole_units_sum_ordered a b le excess
  · rw [Nat.add_comm] at excess ⊢
    exact whole_units_sum_ordered b a le excess

theorem whole_units_product_small (a b : Nat) (small : a ≤ 16777216) :
    16777215 * (a * b) * (one * one) ≤ 16777216 * (wholeUnits a * wholeUnits b) := by
  have error := Nat.mul_le_mul_left (a * one) (whole_units_error b).1
  calc 16777215 * (a * b) * (one * one) = a * one * (16777215 * (b * one)) := by ac_rfl
    _ ≤ a * one * (16777216 * wholeUnits b) := error
    _ = 16777216 * (wholeUnits a * wholeUnits b) := by
      rw [whole_units_small a small]
      ac_rfl

theorem whole_units_product (a b : Nat) (small : a ≤ 16777216 ∨ b ≤ 16777216) :
    16777215 * (a * b) * (one * one) ≤ 16777216 * (wholeUnits a * wholeUnits b) := by
  rcases small with small | small
  · exact whole_units_product_small a b small
  · rw [Nat.mul_comm a, Nat.mul_comm (wholeUnits a)]
    exact whole_units_product_small b a small

theorem whole_units_product_large (a b : Nat) (first : 16777216 < a) (second : 16777216 < b) :
    281474976710656 * (one * one) ≤ wholeUnits a * wholeUnits b := by
  have exact := whole_units_small 16777216 (Nat.le_refl _)
  have product := Nat.mul_le_mul (whole_units_mono _ a (Nat.le_of_lt first))
    (whole_units_mono _ b (Nat.le_of_lt second))
  rw [exact] at product
  exact Nat.le_trans (by decide) product

theorem signed_mul (first second : Bool) (a b : Nat) :
    signed first a * signed second b = signed (first != second) (a * b) := by
  have product := Int.natCast_mul a b
  cases first with
  | false =>
      cases second with
      | false => exact product.symm
      | true => exact (Int.mul_neg a b).trans (congrArg Neg.neg product.symm)
  | true =>
      cases second with
      | false => exact (Int.neg_mul a b).trans (congrArg Neg.neg product.symm)
      | true => exact (Int.neg_mul_neg a b).trans product.symm

theorem signed_add (negative : Bool) (a b : Nat) : signed negative a + signed negative b = signed negative (a + b) := by
  cases negative with
  | false => exact (Int.natCast_add a b).symm
  | true =>
      simp [signed]
      omega

theorem signed_scaled (negative : Bool) (count : Nat) : signed negative (count * one) = signed negative count * one := by
  have product := signed_mul negative false count one
  rw [Bool.bne_false] at product
  exact product.symm

theorem signed_nat_abs (n : Int) : signed (decide (n < 0)) n.natAbs = n := by
  by_cases negative : n < 0
  · rw [signed, decide_eq_true negative, if_pos rfl]
    omega
  · rw [signed, decide_eq_false negative, if_neg Bool.false_ne_true]
    omega

theorem signed_not (negative : Bool) (magnitude : Nat) : signed (!negative) magnitude = -signed negative magnitude := by
  cases negative <;> simp [signed]

theorem signed_size (negative : Bool) (n : Nat) : (signed negative n).natAbs = n := by
  cases negative <;> simp [signed]

theorem signed_sign (negative : Bool) (n : Nat) (nonzero : n ≠ 0) : decide (signed negative n < 0) = negative := by
  cases negative with
  | false => simp [signed]
  | true =>
      simp [signed]
      omega

theorem signed_near (negative : Bool) (a b most : Nat) (low : a ≤ b + most) (high : b ≤ a + most) :
    (signed negative a - signed negative b).natAbs ≤ most := by
  cases negative <;> simp [signed] <;> omega

theorem of_ratio_rank (negative : Bool) (num den other part : Nat)
    (same : nearestRank num den = nearestRank other part) : ofRatio negative num den = ofRatio negative other part := by
  simp only [ofRatio, same]

theorem of_ratio_finite (negative : Bool) (num den : Nat) (finite : nearestRank num den < finiteCount) :
    ofRatio negative num den = .finite negative ⟨nearestRank num den, finite⟩ := dif_pos finite

theorem of_ratio_is_finite (negative : Bool) (num den : Nat) :
    (ofRatio negative num den).isFinite = decide (nearestRank num den < finiteCount) := by
  rw [ofRatio]
  split
  · rename_i finite
    exact (decide_eq_true finite).symm
  · rename_i beyond
    exact (decide_eq_false beyond).symm

theorem whole_finite_iff (n : Nat) :
    nearestRank (n * one) 1 < finiteCount ↔ n < 340282356779733661637539395458142568448 := by
  rw [Nat.lt_succ_iff]
  refine ranks_below_iff (fun n => nearestRank (n * one) 1) whole_rank_mono _ _ ?_ ?_ n <;> decide +kernel

theorem whole_is_finite (negative : Bool) (n : Nat) :
    (ofRatio negative (n * one) 1).isFinite = decide (n < 340282356779733661637539395458142568448) := by
  rw [of_ratio_is_finite, decide_eq_decide, whole_finite_iff]

theorem of_int_signed (negative : Bool) (n : Nat) (nonzero : n ≠ 0) :
    ofInt (signed negative n) = ofRatio negative (n * one) 1 := by
  rw [ofInt, signed_sign negative n nonzero, signed_size]

theorem of_int_units (n : Integer) :
    ∃ rank, ofInt n.toInt = .finite (decide (n.toInt < 0)) rank ∧ units rank = wholeUnits n.toInt.natAbs := by
  have finite := (whole_finite_iff n.toInt.natAbs).mpr (Nat.lt_of_le_of_lt n.nat_abs_le (by decide))
  exact ⟨⟨_, finite⟩, of_ratio_finite _ _ 1 finite, rfl⟩

theorem of_ratio_to_int (negative : Bool) (num den : Nat) (n : Int)
    (whole : (ofRatio negative num den).toInt? = some n) :
    ∃ count, units (nearestRank num den) = count * one ∧ n = signed negative count := by
  rw [ofRatio] at whole
  split at whole
  · simp only [toInt?] at whole
    split at whole
    · rename_i exact
      refine ⟨_, (Nat.div_mul_cancel (Nat.dvd_of_mod_eq_zero exact)).symm, ?_⟩
      exact (Option.some.inj whole).symm
    · cases whole
  · cases whole

theorem of_int_position (n : Integer) :
    (ofInt n.toInt).position? = some (signed (decide (n.toInt < 0)) (wholeUnits n.toInt.natAbs)) := by
  obtain ⟨rank, same, magnitude⟩ := of_int_units n
  rw [same, position?, magnitude]

theorem signed_whole_mono (low high : Int) (le : low ≤ high) :
    signed (decide (low < 0)) (wholeUnits low.natAbs) ≤ signed (decide (high < 0)) (wholeUnits high.natAbs) := by
  by_cases below : high < 0
  · have grows := whole_units_mono high.natAbs low.natAbs (by omega)
    simp only [signed, below, Int.lt_of_le_of_lt le below, decide_true, if_true]
    omega
  · by_cases crosses : low < 0
    · simp only [signed, below, crosses, decide_true, decide_false, if_true, Bool.false_eq_true, if_false]
      omega
    · have grows := whole_units_mono low.natAbs high.natAbs (by omega)
      simp only [signed, below, crosses, decide_false, Bool.false_eq_true, if_false]
      omega

theorem signed_whole_small (n : Int) (small : n.natAbs ≤ 16777216) :
    signed (decide (n < 0)) (wholeUnits n.natAbs) = n * one := by
  rw [whole_units_small _ small, signed_scaled, signed_nat_abs]

-- A whole number below `2 ^ 24` in size is a single, and so are its neighbours: no other one is rounded to it.
theorem whole_apart (low high : Int) (less : low < high) (few : low.natAbs < 16777216 ∨ high.natAbs < 16777216) :
    signed (decide (low < 0)) (wholeUnits low.natAbs) < signed (decide (high < 0)) (wholeUnits high.natAbs) := by
  obtain ⟨k, above, below, start, next⟩ :
      ∃ k : Int, low ≤ k ∧ k + 1 ≤ high ∧ k.natAbs ≤ 16777216 ∧ (k + 1).natAbs ≤ 16777216 := by
    rcases few with few | few
    · exact ⟨low, by omega⟩
    · exact ⟨high - 1, by omega⟩
  have first := signed_whole_mono low k above
  have last := signed_whole_mono (k + 1) high below
  rw [signed_whole_small k start] at first
  rw [signed_whole_small (k + 1) next] at last
  have step : k * (one : Int) < (k + 1) * one := Int.mul_lt_mul_of_pos_right (Int.lt_succ k) (by decide)
  exact Int.lt_of_le_of_lt first (Int.lt_of_lt_of_le step last)

end Single

end MiniPostScript
