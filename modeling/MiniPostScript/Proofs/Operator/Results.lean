import MiniPostScript.Proofs.Operator.Refusal
import MiniPostScript.Proofs.Value.Typed

set_option autoImplicit false

namespace MiniPostScript

theorem values_arity (op : Operator) (name : String) (needed : Nat) (results : List Value → Except Error (List Value))
    (rule : op.rule = .values name needed results) : needed = op.arity := by
  have demands := rule_demands op
  rw [rule] at demands
  exact demands.2

theorem values_performed_iff (op : Operator) (name : String) (needed : Nat)
    (results : List Value → Except Error (List Value)) (rule : op.rule = .values name needed results) (m : Machine)
    (effect : Effect) :
    m.perform op = .ok effect ↔ ∃ (operands : List Value) (below : Stack) (pushed : List Value),
      operands.length = op.arity ∧ m.stack = below.pushAll operands ∧ results operands = .ok pushed ∧
        effect = .done { m with stack := below.pushAll pushed } [] := by
  constructor
  · intro performed
    rw [Machine.perform] at performed
    split at performed
    · rename_i stack deed done
      obtain ⟨operands, below, length, same, applied⟩ := (perform_ok_iff op _ _ _).mp done
      rw [rule, Rule.apply] at applied
      split at applied
      · rename_i pushed made
        cases applied
        exact ⟨operands, below, pushed, length, same, made, (Except.ok.inj performed).symm⟩
      · cases applied
    · cases performed
  · rintro ⟨operands, below, pushed, length, same, made, rfl⟩
    have applied : op.rule.apply below operands = .ok (below.pushAll pushed, .display []) := by
      simp only [rule, Rule.apply, made]
    have done := (perform_ok_iff op m.stack _ _).mpr ⟨operands, below, length, same, applied⟩
    simp only [Machine.perform, done, Deed.effect]

theorem unary_performed (op : Operator) (name : String) (f : Value → Except Error Value) (m : Machine) (below : Stack)
    (a value : Value) (rule : op.rule = .unary name f) (made : f a = .ok value) :
    ({ m with stack := below.pushAll [a] } : Machine).perform op =
      .ok (.done { m with stack := below.push value } []) := by
  have arity := values_arity op _ _ _ rule
  refine (values_performed_iff op _ _ _ rule _ _).mpr ⟨[a], below, [value], arity, rfl, ?_, rfl⟩
  simp only [made, Except.map]

theorem binary_performed (op : Operator) (name : String) (f : Value → Value → Except Error Value) (m : Machine)
    (below : Stack) (a b value : Value) (rule : op.rule = .binary name f) (made : f a b = .ok value) :
    ({ m with stack := below.pushAll [a, b] } : Machine).perform op =
      .ok (.done { m with stack := below.push value } []) := by
  have arity := values_arity op _ _ _ rule
  refine (values_performed_iff op _ _ _ rule _ _).mpr ⟨[a, b], below, [value], arity, rfl, ?_, rfl⟩
  simp only [made, Except.map]

-- On such operands the operator puts just this value in their place, whatever lies below, and changes nothing else.
def Operator.Pushes (op : Operator) (operands : List Value) (value : Value) : Prop :=
  ∀ (m : Machine) (below : Stack), ({ m with stack := below.pushAll operands } : Machine).perform op =
    .ok (.done { m with stack := below.push value } [])

theorem Operator.unary_pushes (op : Operator) (name : String) (f : Value → Except Error Value) (a value : Value)
    (rule : op.rule = .unary name f) (made : f a = .ok value) : op.Pushes [a] value :=
  fun m below => unary_performed op name f m below a value rule made

theorem Operator.binary_pushes (op : Operator) (name : String) (f : Value → Value → Except Error Value)
    (a b value : Value) (rule : op.rule = .binary name f) (made : f a b = .ok value) : op.Pushes [a, b] value :=
  fun m below => binary_performed op name f m below a b value rule made

def Numeric (outcome : Except Error Value) : Prop := ∀ value, outcome = .ok value → value.Canonical

theorem numeric_error (error : Error) : Numeric (.error error) := fun _ made => nomatch made

theorem numeric_integer (n : Integer) : Numeric (.ok (.integer n)) := by
  intro value made
  cases made
  exact .integer n

theorem numeric_single (x : Single) : Numeric (.ok (.ofSingle x)) := by
  intro value made
  cases made
  exact Value.of_single_canonical x

namespace Arithmetic

theorem on_numbers_numeric (op : String) (whole : Int → Int → Int) (real : Single → Single → Single) (a b : Value) :
    Numeric (onNumbers op whole real a b) := by
  rw [onNumbers.eq_def]
  split
  · split
    · exact numeric_integer _
    · exact numeric_single _
  · split
    · exact numeric_single _
    · exact numeric_error _

theorem divided_numeric (op : String) (divisor : Value) (outcome : Except Error Value) (numeric : Numeric outcome) :
    Numeric (nonzeroDivisor op divisor >>= fun _ => outcome) := by
  rw [nonzeroDivisor]
  split
  · exact numeric_error _
  · exact numeric

theorem div_numeric (a b : Value) : Numeric (div a b) := by
  rw [div.eq_def]
  split
  · refine divided_numeric "div" b _ ?_
    split
    · split
      · exact numeric_integer _
      · exact numeric_single _
    · exact numeric_single _
  · exact numeric_error _

theorem mod_numeric (a b : Value) : Numeric (mod a b) :=
  divided_numeric "mod" b _ (on_numbers_numeric "mod" _ _ a b)

theorem idiv_numeric (a b : Value) : Numeric (idiv a b) :=
  divided_numeric "idiv" b _ (on_numbers_numeric "idiv" _ _ a b)

theorem on_number_numeric (op : String) (whole : Int → Int) (real : Single → Single) (a : Value) :
    Numeric (onNumber op whole real a) := by
  rw [onNumber.eq_def]
  split
  · split
    · exact numeric_integer _
    · exact numeric_single _
  · exact numeric_single _
  · exact numeric_error _

theorem sqrt_numeric (a : Value) : Numeric (sqrt a) := by
  rw [sqrt.eq_def]
  split
  · split
    · exact numeric_error _
    · exact numeric_integer _
  · split
    · exact numeric_error _
    · exact numeric_single _
  · exact numeric_error _

end Arithmetic

namespace Rule

def Computes (rule : Rule) : Prop :=
  ∃ name needed results, rule = .values name needed results ∧
    ∀ operands pushed, results operands = .ok pushed → ∃ value, pushed = [value] ∧ value.Canonical

theorem mapped_result (outcome : Except Error Value) (pushed : List Value)
    (done : (outcome.map fun result => [result]) = .ok pushed) : ∃ value, outcome = .ok value ∧ pushed = [value] := by
  cases outcome with
  | error error => cases done
  | ok value =>
      cases done
      exact ⟨value, rfl, rfl⟩

theorem unary_computes (name : String) (f : Value → Except Error Value) (numeric : ∀ a, Numeric (f a)) :
    (unary name f).Computes := by
  refine ⟨_, _, _, rfl, fun operands pushed done => ?_⟩
  split at done
  · obtain ⟨value, made, same⟩ := mapped_result _ pushed done
    exact ⟨value, same, numeric _ value made⟩
  · cases done

theorem binary_computes (name : String) (f : Value → Value → Except Error Value) (numeric : ∀ a b, Numeric (f a b)) :
    (binary name f).Computes := by
  refine ⟨_, _, _, rfl, fun operands pushed done => ?_⟩
  split at done
  · obtain ⟨value, made, same⟩ := mapped_result _ pushed done
    exact ⟨value, same, numeric _ _ value made⟩
  · cases done

end Rule

def Operator.numeric : List Operator :=
  [.add, .sub, .mul, .div, .mod, .idiv, .abs, .neg, .ceil, .floor, .round, .sqrt]

theorem numeric_computes (op : Operator) (member : op ∈ Operator.numeric) : op.rule.Computes := by
  cases op with
  | add | sub | mul => exact Rule.binary_computes _ _ (Arithmetic.on_numbers_numeric _ _ _)
  | div => exact Rule.binary_computes _ _ Arithmetic.div_numeric
  | mod => exact Rule.binary_computes _ _ Arithmetic.mod_numeric
  | idiv => exact Rule.binary_computes _ _ Arithmetic.idiv_numeric
  | abs | neg | ceil | floor | round => exact Rule.unary_computes _ _ (Arithmetic.on_number_numeric _ _ _)
  | sqrt => exact Rule.unary_computes _ _ Arithmetic.sqrt_numeric
  | _ => exact absurd member (by decide)

theorem results_canonical :
    (∀ (x : Single) (n : Integer), Value.ofSingle x = .integer n ↔ x.Whole n.toInt) ∧
    (∀ x : Single, Value.ofSingle x = .real x ↔ ∀ n : Int, x.Whole n → n < -2147483648 ∨ 2147483648 ≤ n) ∧
    ∀ op ∈ Operator.numeric, ∀ (m : Machine) (effect : Effect), m.perform op = .ok effect →
      ∃ (operands : List Value) (below : Stack) (value : Value), operands.length = op.arity ∧
        m.stack = below.pushAll operands ∧ effect = .done { m with stack := below.push value } [] ∧ value.Canonical := by
  refine ⟨Value.of_single_integer_iff, Value.of_single_real_iff, fun op member m effect performed => ?_⟩
  obtain ⟨name, needed, results, rule, computes⟩ := numeric_computes op member
  obtain ⟨operands, below, pushed, length, same, made, done⟩ :=
    (values_performed_iff op name needed results rule m effect).mp performed
  obtain ⟨value, rfl, canonical⟩ := computes operands pushed made
  exact ⟨operands, below, value, length, same, done, canonical⟩

theorem negated_edge_canonical :
    let m : Machine := { Machine.ofScoping .dynamic with stack := Stack.empty.pushAll [.real (.ofBits 0x4f000000)] }
    let result : Value := .integer (-2147483648)
    Operator.neg ∈ Operator.numeric ∧
      m.perform .neg = .ok (.done { m with stack := Stack.empty.push result } []) ∧ result.Canonical := by
  have typed : Value.ofSingle (Single.neg (.ofBits 0x4f000000)) = .integer (-2147483648) := by decide +kernel
  have made : Arithmetic.neg (.real (.ofBits 0x4f000000)) = .ok (.integer (-2147483648)) := congrArg Except.ok typed
  have performed := unary_performed .neg _ _ (Machine.ofScoping .dynamic) .empty _ _ rfl made
  obtain ⟨_, _, value, _, _, same, canonical⟩ := results_canonical.2.2 .neg (by decide) _ _ performed
  have cells := congrArg (fun machine => machine.stack.cells) (Effect.done.inj same).1
  obtain rfl := (List.cons.inj cells).1
  exact ⟨by decide, performed, canonical⟩

end MiniPostScript
