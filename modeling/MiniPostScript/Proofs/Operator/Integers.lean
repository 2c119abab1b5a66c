import MiniPostScript.Proofs.Number.Rounded
import MiniPostScript.Proofs.Operator.Results

set_option autoImplicit false

namespace MiniPostScript

namespace Arithmetic

open Single (wholeUnits signed)

theorem sum_beyond (negative : Bool) (m n : Fin Single.finiteCount) (a b : Nat)
    (left : Single.units m = wholeUnits a) (right : Single.units n = wholeUnits b)
    (excess : 2147483648 ≤ a + b) (w : Integer)
    (typed : Value.ofSingle (Single.add (.finite negative m) (.finite negative n)) = .integer w) :
    w.toInt = -2147483648 ∧ (w.toInt - signed negative (a + b)).natAbs ≤ 256 := by
  have some : 0 < Single.units m + Single.units n := by
    rw [left, right]
    exact Nat.lt_of_lt_of_le (by decide) (Single.whole_units_sum a b excess)
  rw [Single.add_alike negative m n some, left, right] at typed
  obtain ⟨count, whole, most, value⟩ := Value.of_ratio_integer negative _ 1 w typed
  obtain ⟨least, near⟩ := Single.sum_count a b count excess whole
  have high := w.toInt_lt
  obtain rfl : count = 2147483648 := Nat.le_antisymm most least
  have close := near (Nat.le_refl _)
  cases negative with
  | false =>
      rw [value] at high
      exact absurd high (by decide)
  | true =>
      rw [value]
      exact ⟨rfl, Single.signed_near true _ _ 256 (by omega) close⟩

theorem sum_signs (a b : Int) (aLow : -2147483648 ≤ a) (aHigh : a < 2147483648) (bLow : -2147483648 ≤ b)
    (bHigh : b ≤ 2147483648) (beyond : a + b < -2147483648 ∨ 2147483648 ≤ a + b) :
    ∃ negative, decide (a < 0) = negative ∧ decide (b < 0) = negative ∧ b ≠ 0 ∧
      2147483648 ≤ a.natAbs + b.natAbs ∧ signed negative (a.natAbs + b.natAbs) = a + b := by
  rcases beyond with below | above
  · refine ⟨true, decide_eq_true (by omega), decide_eq_true (by omega), by omega, by omega, ?_⟩
    simp only [signed, if_true]
    omega
  · refine ⟨false, decide_eq_false (by omega), decide_eq_false (by omega), by omega, by omega, ?_⟩
    simp only [signed, Bool.false_eq_true, if_false]
    omega

theorem add_beyond (a b w : Integer) (beyond : ∀ v : Integer, v.toInt ≠ a.toInt + b.toInt)
    (typed : Value.ofSingle (Single.add (.ofInt a.toInt) (.ofInt b.toInt)) = .integer w) :
    w.toInt = -2147483648 ∧ (w.toInt - (a.toInt + b.toInt)).natAbs ≤ 256 := by
  obtain ⟨aLow, aHigh⟩ := And.intro a.le_toInt a.toInt_lt
  obtain ⟨bLow, bHigh⟩ := And.intro b.le_toInt b.toInt_lt
  obtain ⟨negative, aSign, bSign, _, excess, total⟩ :=
    sum_signs _ _ aLow aHigh bLow (Int.le_of_lt bHigh) (Integer.beyond_range _ beyond)
  obtain ⟨m, left, mUnits⟩ := Single.of_int_units a
  obtain ⟨n, right, nUnits⟩ := Single.of_int_units b
  rw [left, right, aSign, bSign] at typed
  rw [← total]
  exact sum_beyond negative m n _ _ mUnits nUnits excess w typed

theorem sub_beyond (a b w : Integer) (beyond : ∀ v : Integer, v.toInt ≠ a.toInt - b.toInt)
    (typed : Value.ofSingle (Single.sub (.ofInt a.toInt) (.ofInt b.toInt)) = .integer w) :
    w.toInt = -2147483648 ∧ (w.toInt - (a.toInt - b.toInt)).natAbs ≤ 256 := by
  obtain ⟨aLow, aHigh⟩ := And.intro a.le_toInt a.toInt_lt
  obtain ⟨bLow, bHigh⟩ := And.intro b.le_toInt b.toInt_lt
  obtain ⟨negative, aSign, bSign, nonzero, excess, total⟩ :=
    sum_signs a.toInt (-b.toInt) aLow aHigh (by omega) (by omega) (Integer.beyond_range _ beyond)
  rw [Int.natAbs_neg] at excess total
  obtain ⟨m, left, mUnits⟩ := Single.of_int_units a
  obtain ⟨n, right, nUnits⟩ := Single.of_int_units b
  have difference : a.toInt - b.toInt = a.toInt + -b.toInt := Int.sub_eq_add_neg
  have opposite : (!decide (b.toInt < 0)) = negative := by
    rw [← bSign, ← decide_not]
    exact decide_eq_decide.mpr (by omega)
  rw [left, right, aSign, Single.sub, Single.neg, opposite] at typed
  rw [difference, ← total]
  exact sum_beyond negative m n _ _ mUnits nUnits excess w typed

theorem mul_beyond (a b w : Integer) (beyond : ∀ v : Integer, v.toInt ≠ a.toInt * b.toInt)
    (typed : Value.ofSingle (Single.mul (.ofInt a.toInt) (.ofInt b.toInt)) = .integer w) :
    (w.toInt = -2147483648 ∨ w.toInt.natAbs = 2147483520) ∧
      (w.toInt - a.toInt * b.toInt).natAbs ≤ 256 := by
  obtain ⟨m, left, mUnits⟩ := Single.of_int_units a
  obtain ⟨n, right, nUnits⟩ := Single.of_int_units b
  rw [left, right, Single.mul, mUnits, nUnits] at typed
  obtain ⟨count, whole, most, value⟩ := Value.of_ratio_integer _ _ _ w typed
  have excess : 2147483648 ≤ a.toInt.natAbs * b.toInt.natAbs := by
    rw [← Int.natAbs_mul]
    rcases Integer.beyond_range _ beyond with below | above <;> omega
  obtain ⟨edge, close⟩ := Single.product_count _ _ count excess most whole
  have product : a.toInt * b.toInt = signed (decide (a.toInt < 0) != decide (b.toInt < 0))
      (a.toInt.natAbs * b.toInt.natAbs) := by
    rw [← Single.signed_mul, Single.signed_nat_abs, Single.signed_nat_abs]
  have low := w.le_toInt
  have high := w.toInt_lt
  rw [product, value]
  refine ⟨?_, Single.signed_near _ _ _ 256 (by omega) close⟩
  rw [value] at low high
  generalize (decide (a.toInt < 0) != decide (b.toInt < 0)) = negative at *
  cases negative <;> simp [signed] at high ⊢ <;> omega

theorem on_numbers_exact (op : String) (whole : Int → Int → Int) (single : Single → Single → Single) (a b w : Integer)
    (holds : w.toInt = whole a.toInt b.toInt) :
    onNumbers op whole single (.integer a) (.integer b) = .ok (.integer w) := by
  simp only [onNumbers, (Integer.of_int_some_iff _ w).mpr holds]

theorem on_numbers_beyond (op : String) (whole : Int → Int → Int) (single : Single → Single → Single) (a b : Integer)
    (beyond : ∀ w : Integer, w.toInt ≠ whole a.toInt b.toInt) :
    onNumbers op whole single (.integer a) (.integer b) =
      .ok (.ofSingle (single (.ofInt a.toInt) (.ofInt b.toInt))) := by
  simp only [onNumbers, Integer.of_int_none _ beyond]

theorem nonzero_units (d : Integer) (nonzero : d.toInt ≠ 0) :
    ∃ rank, Single.ofInt d.toInt = .finite (decide (d.toInt < 0)) rank ∧ 0 < Single.units rank ∧
      Single.units rank = wholeUnits d.toInt.natAbs := by
  obtain ⟨rank, divisor, value⟩ := Single.of_int_units d
  refine ⟨rank, divisor, ?_, value⟩
  rw [value]
  exact Nat.lt_of_lt_of_le (by decide +kernel) (Single.whole_units_mono 1 _ (by omega))

theorem divisor_nonzero (d : Integer) (nonzero : d.toInt ≠ 0) : isZero (.integer d) = false := by
  obtain ⟨rank, divisor, some, _⟩ := nonzero_units d nonzero
  have apart : Single.signed (decide (d.toInt < 0)) (Single.units rank) ≠ 0 := by
    cases decide (d.toInt < 0) <;> simp [Single.signed] <;> omega
  have zero : Single.signed false (Single.units 0) = 0 := rfl
  simp only [isZero, Value.toSingle?, divisor, Single.same, Single.compare?, Single.position?, Single.zero, zero]
  rw [beq_eq_false_iff_ne]
  exact fun same => apart (Std.compare_eq_iff_eq.mp (Option.some.inj same))

theorem divided_nonzero (op : String) (divisor : Value) (outcome : Except Error Value) (nonzero : isZero divisor = false) :
    (nonzeroDivisor op divisor >>= fun _ => outcome) = outcome := by
  rw [nonzeroDivisor, nonzero]
  rfl

theorem div_exact (n d q : Integer) (nonzero : d.toInt ≠ 0) (exact : q.toInt * d.toInt = n.toInt) :
    div (.integer n) (.integer d) = .ok (.integer q) := by
  have whole : n.toInt.tmod d.toInt = 0 := by
    rw [← exact]
    exact Int.mul_tmod_left _ _
  have quotient : n.toInt.tdiv d.toInt = q.toInt := by
    rw [← exact]
    exact Int.mul_tdiv_cancel _ nonzero
  simp only [div, Value.toSingle?, divided_nonzero "div" _ _ (divisor_nonzero d nonzero), if_pos whole, quotient,
    (Integer.of_int_some_iff _ q).mpr rfl]

theorem div_inexact (n d : Integer) (nonzero : d.toInt ≠ 0)
    (inexact : ∀ q : Integer, q.toInt * d.toInt ≠ n.toInt) :
    div (.integer n) (.integer d) = .ok (.ofSingle (Single.div (.ofInt n.toInt) (.ofInt d.toInt))) := by
  have none : (if n.toInt.tmod d.toInt = 0 then Integer.ofInt? (n.toInt.tdiv d.toInt) else none) = none := by
    split
    · rename_i whole
      refine Integer.of_int_none _ fun q same => inexact q ?_
      rw [same]
      exact Int.tdiv_mul_cancel (Int.dvd_of_tmod_eq_zero whole)
    · rfl
  simp only [div, Value.toSingle?, divided_nonzero "div" _ _ (divisor_nonzero d nonzero), none]

-- Every magnitude up to `2 ^ 24` is a single, so only a greater dividend can lose the remainder to rounding.
theorem div_inexact_near (n d w : Integer) (nonzero : d.toInt ≠ 0)
    (inexact : ∀ q : Integer, q.toInt * d.toInt ≠ n.toInt)
    (typed : Value.ofSingle (Single.div (.ofInt n.toInt) (.ofInt d.toInt)) = .integer w) :
    16777216 ≤ n.toInt.natAbs ∧ (w.toInt * d.toInt - n.toInt).natAbs ≤ 384 := by
  have some : n.toInt ≠ 0 := fun none => inexact 0 (by rw [none]; exact Int.zero_mul _)
  obtain ⟨dividend, left, dividendUnits⟩ := Single.of_int_units n
  obtain ⟨divisor, right, positive, divisorUnits⟩ := nonzero_units d nonzero
  have normal : divisor.val ≠ 0 := fun none => Nat.lt_irrefl 0 (by rw [none] at positive; exact positive)
  rw [left, right, Single.div, if_neg normal, dividendUnits, divisorUnits] at typed
  obtain ⟨count, whole, _, value⟩ := Value.of_ratio_integer _ _ _ w typed
  have numPositive := Int.natAbs_pos.mpr some
  have denPositive := Int.natAbs_pos.mpr nonzero
  obtain ⟨low, high⟩ := Single.quotient_count _ _ count numPositive denPositive n.nat_abs_le d.nat_abs_le whole
  have product : w.toInt * d.toInt = signed (decide (n.toInt < 0)) (count * d.toInt.natAbs) := by
    have sign : ((decide (n.toInt < 0) != decide (d.toInt < 0)) != decide (d.toInt < 0)) = decide (n.toInt < 0) := by
      cases decide (n.toInt < 0) <;> cases decide (d.toInt < 0) <;> rfl
    rw [← sign, ← Single.signed_mul, Single.signed_nat_abs, value]
  have number := Single.signed_nat_abs n.toInt
  constructor
  · refine Nat.le_of_not_lt fun small => inexact w ?_
    rw [product, Single.quotient_exact _ _ count numPositive denPositive d.nat_abs_le small whole, number]
  · have near := Single.signed_near (decide (n.toInt < 0)) _ _ 384 high low
    rwa [← product, number] at near

end Arithmetic

-- The operators that compute with integers where 32 bits hold the result, and with singles elsewhere.
inductive Computes : Operator → (Int → Int → Int) → (Single → Single → Single) → Prop where
  | add : Computes .add (· + ·) Single.add
  | sub : Computes .sub (· - ·) Single.sub
  | mul : Computes .mul (· * ·) Single.mul

theorem computes_rule (op : Operator) (whole : Int → Int → Int) (single : Single → Single → Single)
    (computes : Computes op whole single) :
    op.rule = .binary op.name (Arithmetic.onNumbers op.name whole single) := by
  cases computes <;> rfl

theorem computes_beyond (op : Operator) (whole : Int → Int → Int) (single : Single → Single → Single)
    (computes : Computes op whole single) (a b w : Integer)
    (beyond : ∀ v : Integer, v.toInt ≠ whole a.toInt b.toInt)
    (typed : Value.ofSingle (single (.ofInt a.toInt) (.ofInt b.toInt)) = .integer w) :
    (w.toInt = -2147483648 ∨ op = .mul ∧ w.toInt.natAbs = 2147483520) ∧
      (w.toInt - whole a.toInt b.toInt).natAbs ≤ 256 := by
  cases computes with
  | add => exact (Arithmetic.add_beyond a b w beyond typed).imp_left .inl
  | sub => exact (Arithmetic.sub_beyond a b w beyond typed).imp_left .inl
  | mul => exact (Arithmetic.mul_beyond a b w beyond typed).imp_left (.imp_right (⟨rfl, ·⟩))

-- 32 bits hold a result if it equals some integer `w`. A result that they do not hold is rounded, and that can bring
-- it back to the edge of the range.
theorem integer_results (op : Operator) (whole : Int → Int → Int) (single : Single → Single → Single)
    (computes : Computes op whole single) (m : Machine) (below : Stack) (a b : Integer) :
    ∃ value, ({ m with stack := below.pushAll [.integer a, .integer b] } : Machine).perform op =
        .ok (.done { m with stack := below.push value } []) ∧
      (∀ w : Integer, w.toInt = whole a.toInt b.toInt → value = .integer w) ∧
      ((∀ w : Integer, w.toInt ≠ whole a.toInt b.toInt) →
        value = .ofSingle (single (.ofInt a.toInt) (.ofInt b.toInt)) ∧
        ((∃ x, value = .real x) ∨ ∃ w, value = .integer w ∧
          (w.toInt = -2147483648 ∨ op = .mul ∧ w.toInt.natAbs = 2147483520) ∧
          (w.toInt - whole a.toInt b.toInt).natAbs ≤ 256)) := by
  have rule := computes_rule op whole single computes
  by_cases holds : ∃ w : Integer, w.toInt = whole a.toInt b.toInt
  · obtain ⟨w, holds⟩ := holds
    have made := Arithmetic.on_numbers_exact op.name whole single a b w holds
    refine ⟨.integer w, binary_performed op _ _ m below _ _ _ rule made, fun v same => ?_, fun beyond => ?_⟩
    · rw [Int32.toInt_inj.mp (holds.trans same.symm)]
    · exact absurd holds (beyond w)
  · have beyond := not_exists.mp holds
    have made := Arithmetic.on_numbers_beyond op.name whole single a b beyond
    refine ⟨_, binary_performed op _ _ m below _ _ _ rule made, fun v same => ?_, fun _ => ⟨rfl, ?_⟩⟩
    · exact absurd same (beyond v)
    · rcases Value.of_single_cases (single (.ofInt a.toInt) (.ofInt b.toInt)) with real | ⟨w, _, typed⟩
      · exact .inl ⟨_, real⟩
      · exact .inr ⟨w, typed, computes_beyond op whole single computes a b w beyond typed⟩

theorem product_rounded_into_range :
    ({ Machine.ofScoping .dynamic with stack := Stack.empty.pushAll [.integer 122, .integer 17602325] } : Machine).perform
        .mul = .ok (.done { Machine.ofScoping .dynamic with stack := Stack.empty.push (.integer 2147483520) } []) ∧
      (122 : Integer).toInt * (17602325 : Integer).toInt = 2147483650 := by
  obtain ⟨value, performed, _, rounded⟩ :=
    integer_results .mul _ _ .mul (Machine.ofScoping .dynamic) .empty 122 17602325
  have beyond (w : Integer) : w.toInt ≠ 2147483650 := by
    have high := w.toInt_lt
    omega
  have single : Value.ofSingle (Single.mul (.ofInt 122) (.ofInt 17602325)) = .integer 2147483520 := by
    decide +kernel
  obtain rfl := (rounded beyond).1.trans single
  exact ⟨performed, by decide⟩

theorem sum_rounded_into_range :
    ({ Machine.ofScoping .dynamic with
        stack := Stack.empty.pushAll [.integer (-2147483648), .integer (-1)] } : Machine).perform .add =
      .ok (.done { Machine.ofScoping .dynamic with stack := Stack.empty.push (.integer (-2147483648)) } []) ∧
    (-2147483648 : Integer).toInt + (-1 : Integer).toInt = -2147483649 := by
  have beyond (w : Integer) : w.toInt ≠ -2147483649 := by
    have low := w.le_toInt
    omega
  have single : Value.ofSingle (Single.add (.ofInt (-2147483648)) (.ofInt (-1))) = .integer (-2147483648) := by
    decide +kernel
  have made := Arithmetic.on_numbers_beyond "add" (· + ·) Single.add (-2147483648) (-1) beyond
  exact ⟨binary_performed .add _ _ _ _ _ _ _ rfl (made.trans (congrArg _ single)), by decide⟩

theorem integer_quotients (m : Machine) (below : Stack) (n d : Integer) (nonzero : d.toInt ≠ 0) :
    ∃ value, ({ m with stack := below.pushAll [.integer n, .integer d] } : Machine).perform .div =
        .ok (.done { m with stack := below.push value } []) ∧
      (∀ q : Integer, q.toInt * d.toInt = n.toInt → value = .integer q) ∧
      ((∀ q : Integer, q.toInt * d.toInt ≠ n.toInt) →
        value = .ofSingle (Single.div (.ofInt n.toInt) (.ofInt d.toInt)) ∧
        ((∃ x, value = .real x) ∨ ∃ q, value = .integer q ∧ 16777216 ≤ n.toInt.natAbs ∧
          (q.toInt * d.toInt - n.toInt).natAbs ≤ 384)) := by
  by_cases exact : ∃ q : Integer, q.toInt * d.toInt = n.toInt
  · obtain ⟨q, exact⟩ := exact
    have made := Arithmetic.div_exact n d q nonzero exact
    refine ⟨.integer q, binary_performed .div _ _ m below _ _ _ rfl made, fun v same => ?_, fun inexact => ?_⟩
    · have same := Int.eq_of_mul_eq_mul_right nonzero (exact.trans same.symm)
      rw [Int32.toInt_inj.mp same]
    · exact absurd exact (inexact q)
  · have inexact := not_exists.mp exact
    have made := Arithmetic.div_inexact n d nonzero inexact
    refine ⟨_, binary_performed .div _ _ m below _ _ _ rfl made, fun q same => ?_, fun _ => ⟨rfl, ?_⟩⟩
    · exact absurd same (inexact q)
    · rcases Value.of_single_cases (Single.div (.ofInt n.toInt) (.ofInt d.toInt)) with real | ⟨w, _, typed⟩
      · exact .inl ⟨_, real⟩
      · exact .inr ⟨w, typed, Arithmetic.div_inexact_near n d w nonzero inexact typed⟩

theorem half_quotient_real :
    ({ Machine.ofScoping .dynamic with stack := Stack.empty.pushAll [.integer 7, .integer 2] } : Machine).perform .div =
      .ok (.done { Machine.ofScoping .dynamic with stack := Stack.empty.push (.real (.ofBits 0x40600000)) } []) := by
  obtain ⟨value, performed, _, rounded⟩ :=
    integer_quotients (Machine.ofScoping .dynamic) .empty 7 2 (by decide)
  have inexact (q : Integer) : q.toInt * 2 ≠ 7 := by omega
  have single : Value.ofSingle (Single.div (.ofInt 7) (.ofInt 2)) = .real (.ofBits 0x40600000) := by decide +kernel
  obtain rfl := (rounded inexact).1.trans single
  exact performed

theorem quotient_rounded_into_range :
    ({ Machine.ofScoping .dynamic with
        stack := Stack.empty.pushAll [.integer 2130706432, .integer 16777217] } : Machine).perform .div =
      .ok (.done { Machine.ofScoping .dynamic with stack := Stack.empty.push (.integer 127) } []) ∧
    (127 : Integer).toInt * (16777217 : Integer).toInt ≠ (2130706432 : Integer).toInt := by
  have inexact (q : Integer) : q.toInt * 16777217 ≠ 2130706432 := by omega
  have single : Value.ofSingle (Single.div (.ofInt 2130706432) (.ofInt 16777217)) = .integer 127 := by decide +kernel
  have made := Arithmetic.div_inexact 2130706432 16777217 (by decide) inexact
  exact ⟨binary_performed .div _ _ _ _ _ _ _ rfl (made.trans (congrArg _ single)), by decide⟩

end MiniPostScript
