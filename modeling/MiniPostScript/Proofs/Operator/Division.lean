import MiniPostScript.Proofs.Operator.Integers

set_option autoImplicit false

namespace MiniPostScript

-- How a whole number of at most `2 ^ 31` is given: as an integer, and that number itself as a real.
inductive Value.Exact : Int → Value → Prop where
  | integer (w : Integer) : Exact w.toInt (.integer w)
  | edge (x : Single) (whole : x.Whole 2147483648) : Exact 2147483648 (.real x)

theorem Value.edge_exact : Exact 2147483648 (.real (.ofBits 0x4f000000)) := by
  refine .edge _ ⟨?_, ?_⟩ <;> decide +kernel

theorem Value.exact_of_range (n : Int) (low : -2147483648 ≤ n) (high : n < 2147483648) :
    ∃ w : Integer, w.toInt = n ∧ Exact n (.integer w) := by
  obtain ⟨w, rfl⟩ := Integer.of_range n low high
  exact ⟨w, rfl, .integer w⟩

namespace Arithmetic

theorem quotient_range (a b : Int) (low : -2147483648 ≤ a) (high : a < 2147483648) (nonzero : b ≠ 0) :
    (-2147483648 ≤ a.tdiv b ∧ a.tdiv b < 2147483648) ∨ a = -2147483648 ∧ b = -1 := by
  by_cases minus : b = -1
  · have opposite : a.tdiv b = -a := by rw [minus, Int.tdiv_neg, Int.tdiv_one]
    omega
  · by_cases plus : b = 1
    · rw [plus, Int.tdiv_one]
      exact .inl ⟨low, high⟩
    · have half : (a.tdiv b).natAbs ≤ a.natAbs / 2 := by
        rw [Int.natAbs_tdiv]
        exact Nat.div_le_div_left (by omega) (by decide)
      omega

theorem remainder_size (a b : Int) (nonzero : b ≠ 0) : (a.tmod b).natAbs < b.natAbs := by
  rw [Int.natAbs_tmod]
  exact Nat.mod_lt _ (Int.natAbs_pos.mpr nonzero)

theorem remainder_sign (a b : Int) : a.tmod b = 0 ∨ (a.tmod b).sign = a.sign := by
  rw [Int.sign_tmod]
  split
  · rename_i whole
    exact .inl (Int.tmod_eq_zero_of_dvd whole)
  · exact .inr rfl

theorem mod_exact (a b : Integer) (nonzero : b.toInt ≠ 0) :
    ∃ r : Integer, r.toInt = a.toInt.tmod b.toInt ∧ mod (.integer a) (.integer b) = .ok (.integer r) := by
  have size := remainder_size a.toInt b.toInt nonzero
  have most := b.nat_abs_le
  obtain ⟨r, same⟩ := Integer.of_range (a.toInt.tmod b.toInt) (by omega) (by omega)
  refine ⟨r, same, ?_⟩
  rw [mod, divided_nonzero "mod" _ _ (divisor_nonzero b nonzero)]
  exact on_numbers_exact "mod" Int.tmod Single.rem a b r same

theorem idiv_exact (a b : Integer) (nonzero : b.toInt ≠ 0) :
    ∃ quotient, idiv (.integer a) (.integer b) = .ok quotient ∧ Value.Exact (a.toInt.tdiv b.toInt) quotient := by
  rw [idiv, divided_nonzero "idiv" _ _ (divisor_nonzero b nonzero)]
  rcases quotient_range a.toInt b.toInt a.le_toInt a.toInt_lt nonzero with ⟨low, high⟩ | ⟨least, minus⟩
  · obtain ⟨w, same, exact⟩ := Value.exact_of_range _ low high
    exact ⟨.integer w, on_numbers_exact "idiv" Int.tdiv _ a b w same, exact⟩
  · obtain rfl : a = -2147483648 := Int32.toInt_inj.mp least
    obtain rfl : b = -1 := Int32.toInt_inj.mp minus
    have beyond (w : Integer) : w.toInt ≠ 2147483648 := Int.ne_of_lt w.toInt_lt
    have typed : Value.ofSingle (Single.div (.ofInt (-2147483648)) (.ofInt (-1))).trunc = .real (.ofBits 0x4f000000) := by
      decide +kernel
    have made := on_numbers_beyond "idiv" Int.tdiv (fun x y => (x.div y).trunc) (-2147483648) (-1) beyond
    exact ⟨_, made.trans (congrArg Except.ok typed), Value.edge_exact⟩

theorem on_number_exact (op : String) (whole : Int → Int) (single : Single → Single) (a : Integer)
    (size : (whole a.toInt).natAbs = a.toInt.natAbs) (edge : whole (-2147483648) = 2147483648)
    (typed : Value.ofSingle (single (.ofInt (-2147483648))) = .real (.ofBits 0x4f000000)) :
    ∃ value, onNumber op whole single (.integer a) = .ok value ∧ Value.Exact (whole a.toInt) value := by
  by_cases least : a.toInt = -2147483648
  · obtain rfl : a = -2147483648 := Int32.toInt_inj.mp least
    have beyond (w : Integer) : w.toInt ≠ whole (-2147483648) := by
      rw [edge]
      exact Int.ne_of_lt w.toInt_lt
    have none : Integer.ofInt? (whole (-2147483648 : Integer).toInt) = none := Integer.of_int_none _ beyond
    refine ⟨.real (.ofBits 0x4f000000), ?_, ?_⟩
    · simp only [onNumber, none]
      exact congrArg Except.ok typed
    · change Value.Exact (whole (-2147483648)) _
      rw [edge]
      exact Value.edge_exact
  · have low := a.le_toInt
    have high := a.toInt_lt
    obtain ⟨w, same, exact⟩ := Value.exact_of_range (whole a.toInt) (by omega) (by omega)
    refine ⟨.integer w, ?_, exact⟩
    simp only [onNumber, (Integer.of_int_some_iff _ w).mpr same]

theorem abs_exact (a : Integer) :
    ∃ value, abs (.integer a) = .ok value ∧ Value.Exact a.toInt.natAbs value :=
  on_number_exact "abs" (fun n => n.natAbs) Single.abs a (Int.natAbs_natCast _) rfl (by decide +kernel)

theorem neg_exact (a : Integer) : ∃ value, neg (.integer a) = .ok value ∧ Value.Exact (-a.toInt) value :=
  on_number_exact "neg" (fun n => -n) Single.neg a (Int.natAbs_neg _) rfl (by decide +kernel)

end Arithmetic

theorem whole_results_exact (a : Integer) :
    (∀ b : Integer, b.toInt ≠ 0 → ∃ (q : Int) (r : Integer) (quotient : Value),
      Operator.mod.Pushes [.integer a, .integer b] (.integer r) ∧
      Operator.idiv.Pushes [.integer a, .integer b] quotient ∧ Value.Exact q quotient ∧
      a.toInt = q * b.toInt + r.toInt ∧ r.toInt.natAbs < b.toInt.natAbs ∧
      (r.toInt = 0 ∨ r.toInt.sign = a.toInt.sign) ∧
      (q = 2147483648 ↔ a.toInt = -2147483648 ∧ b.toInt = -1 ∧ r.toInt = 0)) ∧
    (∃ value, Operator.abs.Pushes [.integer a] value ∧ Value.Exact a.toInt.natAbs value) ∧
    ∃ value, Operator.neg.Pushes [.integer a] value ∧ Value.Exact (-a.toInt) value := by
  refine ⟨fun b nonzero => ?_, ?_, ?_⟩
  · obtain ⟨r, remainder, rest⟩ := Arithmetic.mod_exact a b nonzero
    obtain ⟨quotient, divided, exact⟩ := Arithmetic.idiv_exact a b nonzero
    have whole := Int.tdiv_mul_add_tmod a.toInt b.toInt
    have size := Arithmetic.remainder_size a.toInt b.toInt nonzero
    have sign := Arithmetic.remainder_sign a.toInt b.toInt
    have range := Arithmetic.quotient_range a.toInt b.toInt a.le_toInt a.toInt_lt nonzero
    rw [← remainder] at whole size sign
    refine ⟨_, r, quotient, Operator.binary_pushes .mod _ _ _ _ _ rfl rest,
      Operator.binary_pushes .idiv _ _ _ _ _ rfl divided, exact, whole.symm, size, sign, ?_⟩
    constructor
    · intro edge
      rcases range with ⟨_, high⟩ | ⟨least, minus⟩
      · exact absurd edge (Int.ne_of_lt high)
      · exact ⟨least, minus, by omega⟩
    · rintro ⟨least, minus, _⟩
      rw [least, minus]
      rfl
  · obtain ⟨value, made, exact⟩ := Arithmetic.abs_exact a
    exact ⟨value, Operator.unary_pushes .abs _ _ _ _ rfl made, exact⟩
  · obtain ⟨value, made, exact⟩ := Arithmetic.neg_exact a
    exact ⟨value, Operator.unary_pushes .neg _ _ _ _ rfl made, exact⟩

theorem least_by_minus_one :
    (-1 : Integer).toInt ≠ 0 ∧ Operator.mod.Pushes [.integer (-2147483648), .integer (-1)] (.integer 0) ∧
      ∃ x : Single, x.Whole 2147483648 ∧ Operator.idiv.Pushes [.integer (-2147483648), .integer (-1)] (.real x) := by
  obtain ⟨q, r, quotient, rest, divided, exact, whole, size, _⟩ :=
    (whole_results_exact (-2147483648)).1 (-1) (by decide)
  have least : (-2147483648 : Integer).toInt = -2147483648 := rfl
  have minus : (-1 : Integer).toInt = -1 := rfl
  rw [minus] at size whole
  rw [least] at whole
  obtain rfl : r = 0 := Int32.toInt_inj.mp (show r.toInt = 0 by omega)
  refine ⟨by decide, rest, ?_⟩
  cases exact with
  | integer w =>
      have high := w.toInt_lt
      omega
  | edge x edge => exact ⟨x, edge, divided⟩

end MiniPostScript
