import Mathlib.Data.List.Basic
import MiniPostScript.Proofs.Operator.Refusal

set_option autoImplicit false

namespace MiniPostScript

-- What can be wrong with operands that are as many as the operator needs.
def Operator.faults (op : Operator) : List Error :=
  match op with
  | .exch | .pop | .dup | .clear | .count | .endDict | .quit | .print | .printStack | .changeScoping | .lexical
  | .dynamic => []
  | .copy | .dict | .sqrt | .get | .getInterval | .forLoop | .repeatLoop => [.typeMismatch op.name, .outOfRange op.name]
  | .putInterval => [.typeMismatch op.name, .outOfRange op.name, .intervalOverflow]
  | .div | .mod | .idiv => [.typeMismatch op.name, .divisionByZero op.name]
  | _ => [.typeMismatch op.name]

def FailsAmong {Result : Type} (faults : List Error) (outcome : Except Error Result) : Prop :=
  ∀ error, outcome = .error error → error ∈ faults

section

variable {Result : Type} (faults : List Error)

theorem fails_ok (result : Result) : FailsAmong faults (.ok result) := fun _ failed => nomatch failed

theorem fails_error (error : Error) (listed : error ∈ faults) : FailsAmong faults (.error error : Except Error Result) := by
  intro other failed
  cases failed
  exact listed

theorem fails_mismatch (op : String) (rest : List Error) :
    FailsAmong (.typeMismatch op :: rest) (.error (.typeMismatch op) : Except Error Result) :=
  fails_error _ _ List.mem_cons_self

theorem fails_map {Mapped : Type} (f : Result → Mapped) (outcome : Except Error Result)
    (among : FailsAmong faults outcome) : FailsAmong faults (outcome.map f) := by
  cases outcome with
  | error error => exact fails_error faults error (among error rfl)
  | ok result => exact fails_ok faults (f result)

theorem fails_bind {Next : Type} (outcome : Except Error Result) (next : Result → Except Error Next)
    (among : FailsAmong faults outcome) (later : ∀ result, FailsAmong faults (next result)) :
    FailsAmong faults (outcome >>= next) := by
  cases outcome with
  | error error => exact fails_error faults error (among error rfl)
  | ok result => exact later result

end

namespace Arithmetic

theorem on_numbers_fails (op : String) (whole : Int → Int → Int) (real : Single → Single → Single) (a b : Value) :
    FailsAmong [.typeMismatch op] (onNumbers op whole real a b) := by
  rw [onNumbers.eq_def]
  split
  · split <;> exact fails_ok _ _
  · split
    · exact fails_ok _ _
    · exact fails_mismatch op _

theorem divided_fails (op : String) (divisor : Value) (outcome : Except Error Value)
    (among : FailsAmong [.typeMismatch op] outcome) :
    FailsAmong [.typeMismatch op, .divisionByZero op] (nonzeroDivisor op divisor >>= fun _ => outcome) := by
  refine fails_bind _ _ _ ?_ fun _ error failed => List.mem_append_left [Error.divisionByZero op] (among error failed)
  rw [nonzeroDivisor]
  split
  · exact fails_error _ _ (List.mem_cons_of_mem _ List.mem_cons_self)
  · exact fails_ok _ _

theorem div_fails (a b : Value) : FailsAmong [.typeMismatch "div", .divisionByZero "div"] (div a b) := by
  rw [div.eq_def]
  split
  · refine divided_fails "div" b _ ?_
    split
    · split <;> exact fails_ok _ _
    · exact fails_ok _ _
  · exact fails_mismatch "div" _

theorem on_number_fails (op : String) (whole : Int → Int) (real : Single → Single) (a : Value) :
    FailsAmong [.typeMismatch op] (onNumber op whole real a) := by
  rw [onNumber.eq_def]
  split
  · split <;> exact fails_ok _ _
  · exact fails_ok _ _
  · exact fails_mismatch op _

theorem sqrt_fails (a : Value) : FailsAmong [.typeMismatch "sqrt", .outOfRange "sqrt"] (sqrt a) := by
  rw [sqrt.eq_def]
  split
  · split
    · exact fails_error _ _ (by decide)
    · exact fails_ok _ _
  · split
    · exact fails_error _ _ (by decide)
    · exact fails_ok _ _
  · exact fails_mismatch "sqrt" _

end Arithmetic

namespace Comparison

theorem order_fails (op : String) (a b : Value) : FailsAmong [.typeMismatch op] (order op a b) := by
  rw [order.eq_def]
  split
  · exact fails_ok _ _
  · exact fails_ok _ _
  · split
    · split
      · exact fails_ok _ _
      · exact fails_mismatch op _
    · exact fails_mismatch op _

theorem equal_fails (op : String) (a b : Value) : FailsAmong [.typeMismatch op] (equal op a b) := by
  rw [equal.eq_def]
  split
  · exact fails_ok _ _
  · exact fails_ok _ _
  · exact fails_ok _ _
  · exact fails_ok _ _
  · split
    · exact fails_ok _ _
    · exact fails_mismatch op _

theorem and_fails (a b : Value) : FailsAmong [.typeMismatch "and"] (and a b) := by
  rw [and.eq_def]
  split
  · exact fails_ok _ _
  · exact fails_ok _ _
  · exact fails_mismatch "and" _

theorem or_fails (a b : Value) : FailsAmong [.typeMismatch "or"] (or a b) := by
  rw [or.eq_def]
  split
  · exact fails_ok _ _
  · exact fails_ok _ _
  · exact fails_mismatch "or" _

theorem not_fails (a : Value) : FailsAmong [.typeMismatch "not"] (not a) := by
  rw [not.eq_def]
  split
  · exact fails_ok _ _
  · exact fails_ok _ _
  · exact fails_mismatch "not" _

end Comparison

namespace Strings

theorem index_fails (op : String) (faults : List Error) (n : Integer) (listed : .outOfRange op ∈ faults) :
    FailsAmong faults (index op n) := by
  rw [index]
  split
  · exact fails_error _ _ listed
  · exact fails_ok _ _

theorem get_fails (a b : Value) : FailsAmong [.typeMismatch "get", .outOfRange "get"] (get a b) := by
  rw [get.eq_def]
  split
  · refine fails_bind _ _ _ (index_fails "get" _ _ (by decide)) fun place => ?_
    split
    · exact fails_ok _ _
    · exact fails_error _ _ (by decide)
  · exact fails_mismatch "get" _

theorem get_interval_fails (a b c : Value) :
    FailsAmong [.typeMismatch "getinterval", .outOfRange "getinterval"] (getInterval a b c) := by
  rw [getInterval.eq_def]
  split
  · refine fails_bind _ _ _ (index_fails "getinterval" _ _ (by decide)) fun start => ?_
    refine fails_bind _ _ _ (index_fails "getinterval" _ _ (by decide)) fun count => ?_
    split
    · exact fails_error _ _ (by decide)
    · exact fails_ok _ _
  · exact fails_mismatch "getinterval" _

theorem put_interval_fails (a b c : Value) :
    FailsAmong [.typeMismatch "putinterval", .outOfRange "putinterval", .intervalOverflow] (putInterval a b c) := by
  rw [putInterval.eq_def]
  split
  · refine fails_bind _ _ _ (index_fails "putinterval" _ _ (by decide)) fun start => ?_
    split
    · exact fails_error _ _ (by decide)
    · exact fails_ok _ _
  · exact fails_mismatch "putinterval" _

theorem length_fails (a : Value) : FailsAmong [.typeMismatch "length"] (length a) := by
  rw [length.eq_def]
  split
  · exact fails_ok _ _
  · exact fails_ok _ _
  · exact fails_mismatch "length" _

theorem max_length_fails (a : Value) : FailsAmong [.typeMismatch "maxlength"] (maxLength a) := by
  rw [maxLength.eq_def]
  split
  · exact fails_ok _ _
  · exact fails_mismatch "maxlength" _

end Strings

namespace Rule

def Finds (faults : List Error) (arity : Nat) (rule : Rule) : Prop :=
  ∀ below operands error given, operands.length = arity → rule.apply below operands = .error ⟨error, given⟩ →
    error ∈ faults

theorem values_finds (faults : List Error) (name : String) (needed : Nat)
    (results : List Value → Except Error (List Value))
    (among : ∀ operands, operands.length = needed → FailsAmong faults (results operands)) :
    (values name needed results).Finds faults needed := by
  intro below operands error given length refused
  simp only [apply] at refused
  cases failed : results operands with
  | ok pushed => simp [failed] at refused
  | error other =>
      have listed := among operands length other failed
      simp only [failed] at refused
      cases refused
      exact listed

theorem unary_finds (faults : List Error) (name : String) (f : Value → Except Error Value)
    (among : ∀ a, FailsAmong faults (f a)) : (unary name f).Finds faults 1 := by
  refine values_finds faults name 1 _ fun operands length => ?_
  obtain ⟨a, rfl⟩ := List.length_eq_one_iff.mp length
  exact fails_map faults _ _ (among a)

theorem binary_finds (faults : List Error) (name : String) (f : Value → Value → Except Error Value)
    (among : ∀ a b, FailsAmong faults (f a b)) : (binary name f).Finds faults 2 := by
  refine values_finds faults name 2 _ fun operands length => ?_
  obtain ⟨a, b, rfl⟩ := List.length_eq_two.mp length
  exact fails_map faults _ _ (among a b)

theorem ternary_finds (faults : List Error) (name : String) (f : Value → Value → Value → Except Error Value)
    (among : ∀ a b c, FailsAmong faults (f a b c)) : (ternary name f).Finds faults 3 := by
  refine values_finds faults name 3 _ fun operands length => ?_
  obtain ⟨a, b, c, rfl⟩ := List.length_eq_three.mp length
  exact fails_map faults _ _ (among a b c)

theorem acts_finds (faults : List Error) (name : String) (needed : Nat)
    (act : Stack → List Value → Except Refusal (Stack × Deed)) (refuses : Refuses faults act) :
    (acts name needed act).Finds faults needed :=
  fun below operands _ _ _ refused => (refuses below operands _ refused).2

end Rule

theorem rule_finds (op : Operator) : op.rule.Finds op.faults op.arity := by
  cases op with
  | exch =>
      intro below operands error given length refused
      obtain ⟨a, b, rfl, done⟩ := exch_applied below operands length
      cases done.symm.trans refused
  | dup =>
      intro below operands error given length refused
      obtain ⟨a, rfl, done⟩ := dup_applied below operands length
      cases done.symm.trans refused
  | pop => exact Rule.values_finds _ _ _ _ fun operands _ => fails_ok _ _
  | print =>
      intro below operands error given length refused
      obtain ⟨a, rfl⟩ := List.length_eq_one_iff.mp length
      cases refused
  | clear | count | endDict | quit | printStack | changeScoping | lexical | dynamic =>
      intro below operands error given length refused
      cases refused
  | add | sub | mul => exact Rule.binary_finds _ _ _ (Arithmetic.on_numbers_fails _ _ _)
  | div => exact Rule.binary_finds _ _ _ Arithmetic.div_fails
  | mod | idiv =>
      exact Rule.binary_finds _ _ _ fun a b => Arithmetic.divided_fails _ b _ (Arithmetic.on_numbers_fails _ _ _ a b)
  | abs | neg | ceil | floor | round => exact Rule.unary_finds _ _ _ (Arithmetic.on_number_fails _ _ _)
  | sqrt => exact Rule.unary_finds _ _ _ Arithmetic.sqrt_fails
  | length => exact Rule.unary_finds _ _ _ Strings.length_fails
  | maxLength => exact Rule.unary_finds _ _ _ Strings.max_length_fails
  | get => exact Rule.binary_finds _ _ _ Strings.get_fails
  | getInterval => exact Rule.ternary_finds _ _ _ Strings.get_interval_fails
  | putInterval => exact Rule.ternary_finds _ _ _ Strings.put_interval_fails
  | eq | ne => exact Rule.binary_finds _ _ _ fun a b => fails_map _ _ _ (Comparison.equal_fails _ a b)
  | gt | lt | ge | le => exact Rule.binary_finds _ _ _ fun a b => fails_map _ _ _ (Comparison.order_fails _ a b)
  | and => exact Rule.binary_finds _ _ _ Comparison.and_fails
  | or => exact Rule.binary_finds _ _ _ Comparison.or_fails
  | not => exact Rule.unary_finds _ _ _ Comparison.not_fails
  | copy => exact Rule.acts_finds _ _ _ _ Action.copy_refuses
  | dict => exact Rule.acts_finds _ _ _ _ Action.dict_refuses
  | beginDict => exact Rule.acts_finds _ _ _ _ Action.begin_dict_refuses
  | define => exact Rule.acts_finds _ _ _ _ Action.define_refuses
  | ifTrue => exact Rule.acts_finds _ _ _ _ Action.if_true_refuses
  | ifElse => exact Rule.acts_finds _ _ _ _ Action.if_else_refuses
  | forLoop => exact Rule.acts_finds _ _ _ _ Action.for_loop_refuses
  | repeatLoop => exact Rule.acts_finds _ _ _ _ Action.repeat_loop_refuses
  | exec => exact Rule.acts_finds _ _ _ _ Action.exec_refuses

theorem perform_error_listed (op : Operator) (s after : Stack) (error : Error)
    (failed : s.perform op = .error (error, after)) :
    (s.count < op.arity ∧ error = .stackUnderflow op.name op.arity s.count) ∨
      op.arity ≤ s.count ∧ error ∈ op.faults := by
  rcases perform_error_cases op s after error failed with
    ⟨few, same, _⟩ | ⟨operands, below, refusal, length, rfl, refused, rfl, _⟩
  · exact .inl ⟨few, same⟩
  · refine .inr ⟨?_, rule_finds op below operands _ _ length refused⟩
    rw [← length, Stack.count, Stack.pushAll, List.length_append, List.length_reverse]
    exact Nat.le_add_right _ _

-- The operator whose operands an error is about, by its name.
def Error.blamed? : Error → Option String
  | .stackUnderflow op _ _ => some op
  | .typeMismatch op => some op
  | .divisionByZero op => some op
  | .outOfRange op => some op
  | .undefined _ | .intervalOverflow | .nestingLimit _ | .emptyStack => none

theorem fault_cases (op : Operator) : ∀ error ∈ op.faults,
    error = .typeMismatch op.name ∨ error = .divisionByZero op.name ∨ error = .outOfRange op.name ∨
      op = .putInterval ∧ error = .intervalOverflow := by
  cases op <;> decide

theorem fault_blames (op : Operator) (error : Error) (name : String) (listed : error ∈ op.faults)
    (blamed : error.blamed? = some name) : name = op.name := by
  rcases fault_cases op error listed with rfl | rfl | rfl | ⟨_, rfl⟩
  · exact (Option.some.inj blamed).symm
  · exact (Option.some.inj blamed).symm
  · exact (Option.some.inj blamed).symm
  · cases blamed

theorem perform_error_own (op : Operator) (s after : Stack) (error : Error)
    (failed : s.perform op = .error (error, after)) :
    (∀ name, error ≠ .undefined name) ∧ ∀ limit, error ≠ .nestingLimit limit := by
  rcases perform_error_listed op s after error failed with ⟨_, rfl⟩ | ⟨_, listed⟩
  · exact ⟨fun _ => Error.noConfusion, fun _ => Error.noConfusion⟩
  · rcases fault_cases op error listed with rfl | rfl | rfl | ⟨_, rfl⟩
    all_goals exact ⟨fun _ => Error.noConfusion, fun _ => Error.noConfusion⟩

end MiniPostScript
