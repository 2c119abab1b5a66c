import MiniPostScript.Proofs.Number.Whole
import MiniPostScript.Value

set_option autoImplicit false

namespace MiniPostScript

theorem Integer.of_range (n : Int) (low : -2147483648 ≤ n) (high : n < 2147483648) : ∃ w : Integer, w.toInt = n :=
  ⟨Int32.ofInt n, Int32.toInt_ofInt_of_le low high⟩

theorem Integer.beyond_range (n : Int) (beyond : ∀ v : Integer, v.toInt ≠ n) :
    n < -2147483648 ∨ 2147483648 ≤ n := by
  refine Decidable.byContradiction fun inside => ?_
  obtain ⟨w, same⟩ := of_range n (by omega) (by omega)
  exact beyond w same

theorem Integer.of_int_none (n : Int) (beyond : ∀ w : Integer, w.toInt ≠ n) : ofInt? n = none :=
  Option.eq_none_iff_forall_ne_some.mpr fun w found => beyond w ((of_int_some_iff n w).mp found)

namespace Single

structure Whole (x : Single) (n : Int) : Prop where
  finite : x.isFinite = true
  here : x.position? = some (n * one)

theorem finite_whole_iff (negative : Bool) (rank : Fin finiteCount) (n : Int) :
    (finite negative rank).Whole n ↔ signed negative (units rank) = n * one :=
  ⟨fun whole => Option.some.inj whole.here, fun same => ⟨rfl, congrArg some same⟩⟩

theorem to_int_some_iff (x : Single) (n : Int) : x.toInt? = some n ↔ x.Whole n := by
  cases x with
  | nan => exact ⟨nofun, fun whole => nomatch whole.finite⟩
  | infinite negative => exact ⟨nofun, fun whole => nomatch whole.finite⟩
  | finite negative rank =>
      rw [finite_whole_iff, toInt?]
      constructor
      · intro found
        split at found
        · rename_i exact
          rw [← Option.some.inj found, ← signed_scaled, Nat.div_mul_cancel (Nat.dvd_of_mod_eq_zero exact)]
        · cases found
      · intro same
        have magnitude : units rank = n.natAbs * one := by
          have sizes := congrArg Int.natAbs same
          rw [Int.natAbs_mul, Int.natAbs_natCast] at sizes
          rw [← sizes]
          cases negative <;> simp [signed]
        rw [magnitude, signed_scaled] at same
        rw [magnitude, Nat.mul_mod_left, if_pos rfl, Nat.mul_div_cancel _ (by decide)]
        exact congrArg some (Int.eq_of_mul_eq_mul_right (by decide) same)

end Single

namespace Value

theorem of_single_cases (x : Single) :
    ofSingle x = .real x ∨ ∃ w : Integer, x.toInt? = some w.toInt ∧ ofSingle x = .integer w := by
  rw [ofSingle]
  split
  · rename_i w found
    obtain ⟨n, whole, fits⟩ := Option.bind_eq_some_iff.mp found
    obtain rfl := (Integer.of_int_some_iff n w).mp fits
    exact .inr ⟨w, whole, rfl⟩
  · exact .inl rfl

theorem of_single_integer_iff (x : Single) (n : Integer) : ofSingle x = .integer n ↔ x.Whole n.toInt := by
  rw [← Single.to_int_some_iff]
  constructor
  · intro typed
    rcases of_single_cases x with real | ⟨w, whole, integer⟩
    · rw [real] at typed
      cases typed
    · rw [integer] at typed
      cases typed
      exact whole
  · intro whole
    have fits := (Integer.of_int_some_iff _ n).mpr rfl
    simp only [ofSingle, whole, Option.bind_some, fits]

theorem of_single_real_iff (x : Single) :
    ofSingle x = .real x ↔ ∀ n : Int, x.Whole n → n < -2147483648 ∨ 2147483648 ≤ n := by
  constructor
  · intro real n whole
    refine Integer.beyond_range n fun w same => ?_
    rw [(of_single_integer_iff x w).mpr (same ▸ whole)] at real
    cases real
  · intro beyond
    refine (of_single_cases x).resolve_right ?_
    rintro ⟨w, found, _⟩
    have outside := beyond w.toInt ((Single.to_int_some_iff x _).mp found)
    have low := w.le_toInt
    have high := w.toInt_lt
    omega

theorem of_ratio_integer (negative : Bool) (num den : Nat) (w : Integer)
    (typed : ofSingle (.ofRatio negative num den) = .integer w) :
    ∃ count, Single.units (Single.nearestRank num den) = count * Single.one ∧ count ≤ 2147483648 ∧
      w.toInt = Single.signed negative count := by
  rcases of_single_cases (.ofRatio negative num den) with real | ⟨v, whole, integer⟩
  · rw [real] at typed
    cases typed
  · obtain rfl := Value.integer.inj (integer.symm.trans typed)
    obtain ⟨count, exact, value⟩ := Single.of_ratio_to_int negative num den v.toInt whole
    refine ⟨count, exact, ?_, value⟩
    have low := v.le_toInt
    have high := v.toInt_lt
    rw [value] at low high
    cases negative <;> simp [Single.signed] at low high <;> omega

-- The negative of `2 ^ 31` is an integer of 32 bits, and the next single below it is 256 away.
theorem whole_rounded_into_range (n : Nat) (low : 2147483648 ≤ n) (high : n ≤ 2147483776) :
    ofSingle (.ofRatio true (n * Single.one) 1) = .integer (-2147483648) := by
  have least : Single.nearestRank (2147483648 * Single.one) 1 = 158 * Single.octave := by decide +kernel
  have most : Single.nearestRank (2147483776 * Single.one) 1 = 158 * Single.octave := by decide +kernel
  have below := Single.whole_rank_mono _ n low
  have above := Single.whole_rank_mono n _ high
  rw [least] at below
  rw [most] at above
  have edge : ofSingle (.ofRatio true (2147483648 * Single.one) 1) = .integer (-2147483648) := by decide +kernel
  rw [← edge, Single.of_ratio_rank true _ 1 _ 1 ((Nat.le_antisymm above below).trans least.symm)]

theorem whole_beyond_range (negative : Bool) (n : Nat)
    (beyond : negative = false ∧ 2147483648 ≤ n ∨ 2147483776 < n) :
    ofSingle (.ofRatio negative (n * Single.one) 1) = .real (.ofRatio negative (n * Single.one) 1) := by
  rcases of_single_cases (.ofRatio negative (n * Single.one) 1) with real | ⟨w, _, integer⟩
  · exact real
  · obtain ⟨count, whole, most, value⟩ := of_ratio_integer negative _ 1 w integer
    have high := w.toInt_lt
    rcases beyond with ⟨rfl, large⟩ | large
    · have reaches := Single.whole_units_mono _ n large
      have edge : Single.wholeUnits 2147483648 = 2147483648 * Single.one := Single.whole_units_exact 31 1 (by decide)
      rw [edge, Single.wholeUnits, whole] at reaches
      have least : 2147483648 ≤ count := Nat.le_of_mul_le_mul_right reaches (by decide)
      rw [value, Single.signed, if_neg Bool.false_ne_true] at high
      omega
    · have reaches := Single.whole_units_mono _ n large
      have next : Single.wholeUnits 2147483777 = 2147483904 * Single.one := by decide +kernel
      rw [next, Single.wholeUnits, whole] at reaches
      have least : 2147483904 ≤ count := Nat.le_of_mul_le_mul_right reaches (by decide)
      omega

-- A number that is an integer if it can be: no real among these is a whole number that 32 bits hold.
inductive Canonical : Value → Prop where
  | integer (n : Integer) : Canonical (.integer n)
  | real (x : Single) (beyond : ∀ n : Int, x.Whole n → n < -2147483648 ∨ 2147483648 ≤ n) : Canonical (.real x)

theorem of_single_canonical (x : Single) : (ofSingle x).Canonical := by
  rcases of_single_cases x with real | ⟨w, _, integer⟩
  · rw [real]
    exact .real x ((of_single_real_iff x).mp real)
  · rw [integer]
    exact .integer w

end Value

end MiniPostScript
