import MiniPostScript.Proofs.Operator.Integers
import MiniPostScript.Proofs.Operator.Operands

set_option autoImplicit false

namespace MiniPostScript

namespace Single

theorem position_zero_iff (x : Single) : x.position? = some 0 ↔ ∃ negative, x = .zero negative := by
  constructor
  · intro here
    cases x with
    | nan => cases here
    | infinite negative => cases negative <;> exact absurd here (by decide +kernel)
    | finite negative rank =>
        have size := congrArg Int.natAbs (Option.some.inj here)
        rw [signed_size, Int.natAbs_zero, ← Nat.le_zero, show 0 = units 0 from rfl, units_le_iff, Nat.le_zero] at size
        exact ⟨negative, congrArg (finite negative) (Fin.ext size)⟩
  · rintro ⟨negative, rfl⟩
    cases negative <;> rfl

theorem same_zero_iff (x : Single) : x.same (.zero false) = true ↔ ∃ negative, x = .zero negative := by
  have origin : (zero false).position? = some 0 := rfl
  rw [← position_zero_iff, same, compare?, origin]
  cases x.position? with
  | none => constructor <;> intro same <;> cases same
  | some p => rw [beq_iff_eq, Option.some.injEq, Option.some.injEq, Int.compare_eq_eq]

end Single

namespace Value

inductive IsNumber : Value → Prop where
  | integer (n : Integer) : IsNumber (.integer n)
  | real (x : Single) : IsNumber (.real x)

inductive IsZero : Value → Prop where
  | integer : IsZero (.integer 0)
  | real (negative : Bool) : IsZero (.real (.zero negative))

theorem zero_number (v : Value) (zero : v.IsZero) : v.IsNumber := by
  cases zero with
  | integer => exact .integer 0
  | real negative => exact .real _

theorem number_iff (v : Value) : v.IsNumber ↔ ∃ x, v.toSingle? = some x := by
  constructor
  · rintro (n | x)
    · exact ⟨_, rfl⟩
    · exact ⟨x, rfl⟩
  · rintro ⟨x, single⟩
    cases v with
    | integer n => exact .integer n
    | real y => exact .real y
    | _ => cases single

end Value

namespace Arithmetic

theorem is_zero_iff (v : Value) : isZero v = true ↔ v.IsZero := by
  constructor
  · intro zero
    cases v with
    | integer n =>
        have none : n.toInt = 0 := Decidable.byContradiction fun nonzero => by
          rw [divisor_nonzero n nonzero] at zero
          cases zero
        obtain rfl : n = 0 := Int32.toInt_inj.mp none
        exact .integer
    | real x =>
        obtain ⟨negative, rfl⟩ := (Single.same_zero_iff x).mp zero
        exact .real negative
    | _ => cases zero
  · rintro (_ | negative)
    · decide +kernel
    · exact (Single.same_zero_iff _).mpr ⟨negative, rfl⟩

theorem nonzero_iff (v : Value) : isZero v = false ↔ ¬v.IsZero := by
  rw [← is_zero_iff, Bool.not_eq_true]

section Outcomes

variable (op : String) (whole : Int → Int → Int) (real : Single → Single → Single) (a b : Value)

theorem on_numbers_mismatch (other : ¬(a.IsNumber ∧ b.IsNumber)) :
    onNumbers op whole real a b = .error (.typeMismatch op) := by
  rw [onNumbers.eq_def]
  split
  · rename_i m n
    exact absurd ⟨.integer m, .integer n⟩ other
  · split
    · rename_i x y left right
      exact absurd ⟨a.number_iff.mpr ⟨x, left⟩, b.number_iff.mpr ⟨y, right⟩⟩ other
    · rfl

theorem on_numbers_done (first : a.IsNumber) (second : b.IsNumber) :
    ∃ value, onNumbers op whole real a b = .ok value := by
  obtain ⟨x, left⟩ := a.number_iff.mp first
  obtain ⟨y, right⟩ := b.number_iff.mp second
  rw [onNumbers.eq_def]
  split
  · split <;> exact ⟨_, rfl⟩
  · simp only [left, right]
    exact ⟨_, rfl⟩

theorem divided_zero (outcome : Except Error Value) (zero : b.IsZero) :
    (nonzeroDivisor op b >>= fun _ => outcome) = .error (.divisionByZero op) := by
  rw [nonzeroDivisor, (is_zero_iff b).mpr zero]
  rfl

theorem div_mismatch (other : ¬(a.IsNumber ∧ b.IsNumber)) : div a b = .error (.typeMismatch "div") := by
  rw [div.eq_def]
  split
  · rename_i x y left right
    exact absurd ⟨a.number_iff.mpr ⟨x, left⟩, b.number_iff.mpr ⟨y, right⟩⟩ other
  · rfl

theorem div_by_zero (first : a.IsNumber) (zero : b.IsZero) : div a b = .error (.divisionByZero "div") := by
  obtain ⟨x, left⟩ := a.number_iff.mp first
  obtain ⟨y, right⟩ := b.number_iff.mp (b.zero_number zero)
  rw [div.eq_def]
  simp only [left, right, divided_zero "div" b _ zero]

theorem div_done (first : a.IsNumber) (second : b.IsNumber) (nonzero : ¬b.IsZero) : ∃ value, div a b = .ok value := by
  obtain ⟨x, left⟩ := a.number_iff.mp first
  obtain ⟨y, right⟩ := b.number_iff.mp second
  rw [div.eq_def]
  simp only [left, right, divided_nonzero "div" b _ ((nonzero_iff b).mpr nonzero)]
  split
  · split <;> exact ⟨_, rfl⟩
  · exact ⟨_, rfl⟩

end Outcomes

end Arithmetic

-- Which faults an operator on two operands finds with them, if any. Without one it comes to a result.
structure Operator.Classified (op : Operator) (a b : Value) (mismatch zero : Prop) : Prop where
  mismatched : op.Mismatches [a, b] ↔ mismatch
  undivided : op.Fails [a, b] (.divisionByZero op.name) ↔ zero
  done : (∃ value, op.Pushes [a, b] value) ↔ ¬mismatch ∧ ¬zero

theorem Operator.classified (op : Operator) (f : Value → Value → Except Error Value) (a b : Value) (mismatch zero : Prop)
    (rule : op.rule = .binary op.name f) (mismatched : mismatch → f a b = .error (.typeMismatch op.name))
    (undivided : zero → f a b = .error (.divisionByZero op.name))
    (done : ¬mismatch → ¬zero → ∃ value, f a b = .ok value) : op.Classified a b mismatch zero := by
  have verdict : (mismatch ∧ f a b = .error (.typeMismatch op.name)) ∨
      (zero ∧ f a b = .error (.divisionByZero op.name)) ∨ ∃ value, f a b = .ok value := by
    by_cases wrong : mismatch
    · exact .inl ⟨wrong, mismatched wrong⟩
    · by_cases divides : zero
      · exact .inr (.inl ⟨divides, undivided divides⟩)
      · exact .inr (.inr (done wrong divides))
  refine ⟨(op.binary_fails_iff _ f a b rule _).trans ⟨fun failed => ?_, mismatched⟩,
    (op.binary_fails_iff _ f a b rule _).trans ⟨fun failed => ?_, undivided⟩, ?_⟩
  · rcases verdict with ⟨wrong, _⟩ | ⟨_, other⟩ | ⟨_, other⟩
    · exact wrong
    · cases failed.symm.trans other
    · cases failed.symm.trans other
  · rcases verdict with ⟨_, other⟩ | ⟨divides, _⟩ | ⟨_, other⟩
    · cases failed.symm.trans other
    · exact divides
    · cases failed.symm.trans other
  · simp only [op.binary_pushes_iff _ f a b rule]
    constructor
    · rintro ⟨value, made⟩
      refine ⟨fun wrong => ?_, fun divides => ?_⟩
      · cases made.symm.trans (mismatched wrong)
      · cases made.symm.trans (undivided divides)
    · exact fun ⟨right, nonzero⟩ => done right nonzero

-- An operator that looks at the divisor first does not come to see that the dividend is no number.
theorem Operator.divisor_first (op : Operator) (whole : Int → Int → Int) (real : Single → Single → Single) (a b : Value)
    (rule : op.rule = .binary op.name fun a b =>
      Arithmetic.nonzeroDivisor op.name b >>= fun _ => Arithmetic.onNumbers op.name whole real a b) :
    op.Classified a b (¬b.IsZero ∧ ¬(a.IsNumber ∧ b.IsNumber)) b.IsZero := by
  refine op.classified _ a b _ _ rule ?_ ?_ ?_
  · rintro ⟨nonzero, other⟩
    rw [Arithmetic.divided_nonzero op.name b _ ((Arithmetic.nonzero_iff b).mpr nonzero)]
    exact Arithmetic.on_numbers_mismatch op.name whole real a b other
  · intro zero
    exact Arithmetic.divided_zero op.name b _ zero
  · intro right nonzero
    obtain ⟨first, second⟩ := Classical.not_not.mp fun other => right ⟨nonzero, other⟩
    rw [Arithmetic.divided_nonzero op.name b _ ((Arithmetic.nonzero_iff b).mpr nonzero)]
    exact Arithmetic.on_numbers_done op.name whole real a b first second

theorem divisions_classified (a b : Value) :
    Operator.div.Classified a b (¬(a.IsNumber ∧ b.IsNumber)) (a.IsNumber ∧ b.IsZero) ∧
    Operator.mod.Classified a b (¬b.IsZero ∧ ¬(a.IsNumber ∧ b.IsNumber)) b.IsZero ∧
    Operator.idiv.Classified a b (¬b.IsZero ∧ ¬(a.IsNumber ∧ b.IsNumber)) b.IsZero := by
  refine ⟨?_, ?_, ?_⟩
  · refine Operator.div.classified Arithmetic.div a b _ _ rfl (Arithmetic.div_mismatch a b) ?_ ?_
    · exact fun ⟨first, zero⟩ => Arithmetic.div_by_zero a b first zero
    · intro right divides
      obtain ⟨first, second⟩ := Classical.not_not.mp right
      exact Arithmetic.div_done a b first second fun zero => divides ⟨first, zero⟩
  · exact Operator.mod.divisor_first Int.tmod Single.rem a b rfl
  · exact Operator.idiv.divisor_first Int.tdiv (fun x y => (x.div y).trunc) a b rfl

theorem truth_over_zero :
    Operator.div.Mismatches [.boolean true, .integer 0] ∧
      Operator.mod.Fails [.boolean true, .integer 0] (.divisionByZero "mod") ∧
      ¬Operator.mod.Mismatches [.boolean true, .integer 0] := by
  have other : ¬((Value.boolean true).IsNumber ∧ (Value.integer 0).IsNumber) := by
    intro both
    cases both.1
  have failed : Arithmetic.mod (.boolean true) (.integer 0) = .error (.divisionByZero "mod") :=
    Arithmetic.divided_zero "mod" _ _ .integer
  have fails := (Operator.mod.binary_fails_iff _ _ _ _ rfl _).mpr failed
  refine ⟨?_, fails, fun mismatches => ?_⟩
  · exact (Operator.div.binary_fails_iff _ _ _ _ rfl _).mpr (Arithmetic.div_mismatch _ _ other)
  · cases Operator.mod.fails_unique _ _ _ fails mismatches

end MiniPostScript
