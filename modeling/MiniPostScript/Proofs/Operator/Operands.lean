import MiniPostScript.Proofs.Operator.Results

set_option autoImplicit false

namespace MiniPostScript

namespace Operator

-- On such operands the operator fails with this error, whatever lies below, and changes nothing.
def Fails (op : Operator) (operands : List Value) (error : Error) : Prop :=
  ∀ (m : Machine) (below : Stack), ({ m with stack := below.pushAll operands } : Machine).perform op =
    .error (error, { m with stack := below.pushAll operands })

def Mismatches (op : Operator) (operands : List Value) : Prop := op.Fails operands (.typeMismatch op.name)

-- On such operands the operator comes to a value just when a condition holds, and fails otherwise.
structure AcceptsIff (op : Operator) (operands : List Value) (condition : Prop) : Prop where
  done : (∃ value, op.Pushes operands value) ↔ condition
  refused : (∃ error, op.Fails operands error) ↔ ¬condition

theorem pushes_unique (op : Operator) (operands : List Value) (value other : Value)
    (first : op.Pushes operands value) (second : op.Pushes operands other) : value = other := by
  have same := (first (.ofScoping .dynamic) .empty).symm.trans (second (.ofScoping .dynamic) .empty)
  have machines := (Effect.done.inj (Except.ok.inj same)).1
  exact (List.cons.inj (congrArg (fun machine => machine.stack.cells) machines)).1

theorem fails_unique (op : Operator) (operands : List Value) (error other : Error)
    (first : op.Fails operands error) (second : op.Fails operands other) : error = other := by
  have same := (first (.ofScoping .dynamic) .empty).symm.trans (second (.ofScoping .dynamic) .empty)
  exact congrArg Prod.fst (Except.error.inj same)

theorem pushes_not_fails (op : Operator) (operands : List Value) (value : Value) (error : Error)
    (pushes : op.Pushes operands value) : ¬op.Fails operands error := fun fails =>
  nomatch (pushes (.ofScoping .dynamic) .empty).symm.trans (fails (.ofScoping .dynamic) .empty)

section Outcome

variable (op : Operator) (name : String) (needed : Nat) (results : List Value → Except Error (List Value))
  (operands : List Value) (outcome : Except Error Value) (rule : op.rule = .values name needed results)
  (length : operands.length = needed) (made : results operands = outcome.map fun value => [value])

include rule length made

theorem outcome_pushes (value : Value) (done : outcome = .ok value) : op.Pushes operands value := by
  intro m below
  have arity := length.trans (values_arity op name needed results rule)
  have pushed : results operands = .ok [value] := by
    rw [made, done]
    rfl
  exact (values_performed_iff op name needed results rule _ _).mpr
    ⟨operands, below, [value], arity, rfl, pushed, rfl⟩

theorem outcome_fails (error : Error) (failed : outcome = .error error) : op.Fails operands error := by
  intro m below
  have arity := length.trans (values_arity op name needed results rule)
  have refused : op.rule.apply below operands = .error ⟨error, operands⟩ := by
    simp only [rule, Rule.apply, made, failed, Except.map]
  have performed := perform_operands op below operands arity
  rw [refused] at performed
  simp only [Machine.perform, performed]
  rfl

theorem outcome_pushes_iff (value : Value) : op.Pushes operands value ↔ outcome = .ok value := by
  constructor
  · intro pushes
    cases done : outcome with
    | error error =>
        have fails := op.outcome_fails name needed results operands outcome rule length made error done
        exact absurd fails (op.pushes_not_fails _ _ _ pushes)
    | ok other =>
        have same := op.outcome_pushes name needed results operands outcome rule length made other done
        rw [op.pushes_unique _ _ _ pushes same]
  · exact op.outcome_pushes name needed results operands outcome rule length made value

theorem outcome_fails_iff (error : Error) : op.Fails operands error ↔ outcome = .error error := by
  constructor
  · intro fails
    cases failed : outcome with
    | error other =>
        have same := op.outcome_fails name needed results operands outcome rule length made other failed
        rw [op.fails_unique _ _ _ fails same]
    | ok value =>
        have pushes := op.outcome_pushes name needed results operands outcome rule length made value failed
        exact absurd fails (op.pushes_not_fails _ _ _ pushes)
  · exact op.outcome_fails name needed results operands outcome rule length made error

theorem outcome_accepts (condition : Prop) (accepts : (∃ value, outcome = .ok value) ↔ condition) :
    op.AcceptsIff operands condition where
  done := by simpa only [op.outcome_pushes_iff name needed results operands outcome rule length made] using accepts
  refused := by
    rw [← accepts]
    cases decided : outcome with
    | error error =>
        have fails := op.outcome_fails name needed results operands outcome rule length made error decided
        simpa using ⟨_, fails⟩
    | ok value =>
        have pushes := op.outcome_pushes name needed results operands outcome rule length made value decided
        simpa using fun error => op.pushes_not_fails operands value error pushes

end Outcome

section Binary

variable (op : Operator) (name : String) (f : Value → Value → Except Error Value) (a b : Value)
  (rule : op.rule = .binary name f)

include rule

theorem binary_pushes_iff (value : Value) : op.Pushes [a, b] value ↔ f a b = .ok value :=
  op.outcome_pushes_iff _ _ _ [a, b] (f a b) rule rfl rfl value

theorem binary_fails_iff (error : Error) : op.Fails [a, b] error ↔ f a b = .error error :=
  op.outcome_fails_iff _ _ _ [a, b] (f a b) rule rfl rfl error

end Binary

end Operator

end MiniPostScript
