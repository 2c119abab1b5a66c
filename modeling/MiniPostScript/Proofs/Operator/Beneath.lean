import MiniPostScript.Proofs.Operator.Refusal

set_option autoImplicit false

namespace MiniPostScript

namespace Stack

def above (s base : Stack) : Stack := ⟨s.cells ++ base.cells⟩

theorem push_all_above (values : List Value) (s base : Stack) :
    (s.pushAll values).above base = (s.above base).pushAll values := by
  simp only [above, pushAll, List.append_assoc]

theorem copy_above (n : Nat) (s base : Stack) (enough : n ≤ s.count) :
    (s.copy n).above base = (s.above base).copy n := by
  simp only [above, copy, List.take_append_of_le_length enough, List.append_assoc]

def topInteger? (s : Stack) : Option Integer :=
  match s.cells with
  | .integer n :: _ => some n
  | _ => none

theorem top_integer_iff (s : Stack) (n : Integer) :
    s.topInteger? = some n ↔ ∃ below : Stack, s = below.push (.integer n) := by
  constructor
  · intro top
    obtain ⟨cells⟩ := s
    simp only [topInteger?] at top
    split at top
    · rename_i m below
      obtain rfl := Option.some.inj top
      exact ⟨⟨below⟩, rfl⟩
    · cases top
  · rintro ⟨below, rfl⟩
    rfl

end Stack

-- An operator on a stack spares what may lie beneath that stack.
structure Operator.Spares (op : Operator) (s : Stack) : Prop where
  clear : op ≠ .clear
  count : op ≠ .count
  printStack : op ≠ .printStack
  copy : op = .copy → ∀ (n : Integer) (below : Stack), s = below.push (.integer n) → n.toInt ≤ below.count

-- The count is tested and not quantified over: 32 bits hold finitely many, and all would be tried.
instance (op : Operator) (s : Stack) : Decidable (op.Spares s) :=
  decidable_of_iff
    (op ≠ .clear ∧ op ≠ .count ∧ op ≠ .printStack ∧
      (op = .copy → s.topInteger?.all (fun n => decide (n.toInt < (s.count : Int))) = true))
    ⟨fun ⟨clear, count, printStack, copy⟩ => ⟨clear, count, printStack, fun is n below same => by
        subst same
        exact Int.lt_add_one_iff.mp (of_decide_eq_true (copy is))⟩,
      fun spares => ⟨spares.clear, spares.count, spares.printStack, fun is => by
        refine (Option.all_eq_true _ _).mpr fun n top => decide_eq_true ?_
        obtain ⟨below, rfl⟩ := (Stack.top_integer_iff s n).mp top
        exact Int.lt_add_one_iff.mpr (spares.copy is n below rfl)⟩⟩

theorem values_above (name : String) (needed : Nat) (results : List Value → Except Error (List Value))
    (below base : Stack) (operands : List Value) :
    (Rule.values name needed results).apply (below.above base) operands =
      ((Rule.values name needed results).apply below operands).map fun done => (done.1.above base, done.2) := by
  simp only [Rule.apply]
  cases results operands with
  | ok pushed => simp only [Except.map, Stack.push_all_above]
  | error error => rfl

theorem copy_action_above (below base : Stack) (operands : List Value)
    (fits : ∀ n : Integer, operands = [.integer n] → n.toInt ≤ below.count) :
    Action.copy (below.above base) operands =
      (Action.copy below operands).map fun done => (done.1.above base, done.2) := by
  simp only [Action.copy]
  split
  · rename_i n
    have enough := fits n rfl
    by_cases negative : n.toInt < 0
    · rw [if_pos negative, if_pos negative]
      rfl
    · rw [if_neg negative, if_neg negative]
      simp only [Except.map, Stack.copy_above n.toInt.toNat below base (by omega)]
  · rfl

theorem apply_above (op : Operator) (below base : Stack) (operands : List Value)
    (length : operands.length = op.arity) (spares : op.Spares (below.pushAll operands)) :
    op.rule.apply (below.above base) operands =
      (op.rule.apply below operands).map fun done => (done.1.above base, done.2) := by
  cases op with
  | exch =>
      obtain ⟨a, b, rfl, done⟩ := exch_applied below operands length
      rw [done]
      rfl
  | dup =>
      obtain ⟨a, rfl, done⟩ := dup_applied below operands length
      rw [done]
      rfl
  | clear => exact absurd rfl spares.clear
  | count => exact absurd rfl spares.count
  | printStack => exact absurd rfl spares.printStack
  | copy =>
      refine copy_action_above below base operands ?_
      rintro n rfl
      exact spares.copy rfl n below rfl
  | dict =>
      simp only [Operator.rule, Rule.apply, Action.dict]
      split
      · split <;> rfl
      · rfl
  | beginDict | define | ifTrue | ifElse | exec | print =>
      simp only [Operator.rule, Rule.apply, Action.beginDict, Action.define, Action.ifTrue,
        Action.ifElse, Action.exec, Action.print]
      split <;> rfl
  | forLoop =>
      simp only [Operator.rule, Rule.apply, Action.forLoop]
      split
      · split <;> rfl
      · rfl
  | repeatLoop =>
      simp only [Operator.rule, Rule.apply, Action.repeatLoop]
      split
      · split
        · rfl
        · split <;> rfl
      · rfl
  | endDict | quit | changeScoping | lexical | dynamic => rfl
  | _ => exact values_above _ _ _ below base operands

theorem perform_above_ok (op : Operator) (s base stack : Stack) (deed : Deed) (spares : op.Spares s)
    (performed : s.perform op = .ok (stack, deed)) :
    (s.above base).perform op = .ok (stack.above base, deed) := by
  obtain ⟨operands, below, arity, rfl, applied⟩ := (perform_ok_iff op s stack deed).mp performed
  refine (perform_ok_iff op _ _ deed).mpr
    ⟨operands, below.above base, arity, Stack.push_all_above operands below base, ?_⟩
  rw [apply_above op below base operands arity spares, applied]
  rfl

theorem perform_above_error (op : Operator) (s base stack : Stack) (error : Error)
    (enough : op.arity ≤ s.count) (spares : op.Spares s)
    (failed : s.perform op = .error (error, stack)) :
    (s.above base).perform op = .error (error, stack.above base) := by
  obtain ⟨operands, below, arity, rfl⟩ := Stack.operands_below op.arity s enough
  rw [Stack.push_all_above]
  rw [perform_operands op below operands arity] at failed
  rw [perform_operands op _ operands arity, apply_above op below base operands arity spares]
  cases applied : op.rule.apply below operands with
  | ok done =>
      rw [applied] at failed
      cases failed
  | error refusal =>
      rw [applied] at failed
      cases failed
      have lifted := Stack.push_all_above refusal.operands below base
      exact congrArg (fun stack => Except.error (refusal.error, stack)) lifted.symm

end MiniPostScript
