import MiniPostScript.Proofs.Operator.Failure
import MiniPostScript.Proofs.Operator.Faults
import MiniPostScript.Proofs.Run.Beneath

set_option autoImplicit false

namespace MiniPostScript

def Operator.control : List Operator := [.ifTrue, .ifElse, .forLoop, .repeatLoop, .exec]

theorem calls_for_control (halted : Bool) (op : Operator) (operands : List Value) (source : String) (passes : Passes)
    (calls : CallsFor halted op operands source passes) : op ∈ Operator.control := by
  cases calls <;> decide

namespace Run

variable (op : Operator) (r : Run)

inductive CallError : Error → Prop where
  | few (few : r.machine.stack.count < op.arity) :
      CallError (.stackUnderflow op.name op.arity r.machine.stack.count)
  | refused (error : Error) (listed : error ∈ op.faults) : CallError error
  | nested (control : op ∈ Operator.control) (full : r.limit ≤ r.depth) : CallError (.nestingLimit r.limit)

theorem call_error_cases (error : Error) (failed : (r.callOperator op).error? = some error) :
    (∃ after, r.machine.perform op = .error (error, after)) ∨
      ∃ after source passes, r.machine.perform op = .ok (.run after source passes) ∧
        error = .nestingLimit r.limit ∧ r.limit ≤ r.depth := by
  cases performed : r.machine.perform op with
  | error failure =>
      obtain ⟨reason, after⟩ := failure
      have same : reason = error := by simpa only [callOperator, performed, Option.some.injEq] using failed
      exact .inl ⟨after, by rw [same]⟩
  | ok effect =>
      obtain ⟨same, full⟩ := accepted_call_error op r effect error performed failed
      cases effect with
      | done after shown => simp only [callOperator, performed, reduceCtorEq] at failed
      | run after source passes => exact .inr ⟨after, source, passes, rfl, same, full⟩

theorem call_error (error : Error) (failed : (r.callOperator op).error? = some error) : CallError op r error := by
  rcases call_error_cases op r error failed with ⟨after, performed⟩ | ⟨after, source, passes, performed, rfl, full⟩
  · obtain ⟨stack, refused, _⟩ := machine_perform_refused op r.machine after error performed
    rcases perform_error_listed op r.machine.stack stack error refused with ⟨few, rfl⟩ | ⟨_, listed⟩
    · exact .few few
    · exact .refused error listed
  · obtain ⟨operands, below, calls, _⟩ := (perform_run_iff op r.machine after source passes).mp performed
    exact .nested (calls_for_control _ op operands source passes calls) full

theorem call_underflow (few : r.machine.stack.count < op.arity) :
    (r.callOperator op).error? = some (.stackUnderflow op.name op.arity r.machine.stack.count) := by
  simp only [callOperator, Machine.perform, perform_underflow op r.machine.stack few]

theorem call_entered (after : Machine) (source : String) (passes : Passes)
    (performed : r.machine.perform op = .ok (.run after source passes)) (room : r.depth < r.limit) :
    r.callOperator op =
      ⟨none, ({ r with machine := after }.alone.enter .block source passes).finish.onTop r.pending⟩ := by
  have enters : ¬{ r with machine := after }.limit ≤ { r with machine := after }.depth := Nat.not_le.mpr room
  rw [call_operator_run op r after source passes performed, callBlock, if_neg enters]

theorem block_error (entry : Entry) (source : String) (passes : Passes) (r : Run) :
    (r.callBlock entry source passes).error? = if r.limit ≤ r.depth then some (.nestingLimit r.limit) else none := by
  rw [callBlock]
  split <;> rfl

theorem call_error_shorten (activity : Activity) (rest : List String) (outer : List Activity) :
    ((r.shorten activity rest outer).callOperator op).error? = (r.callOperator op).error? := by
  have machine : (r.shorten activity rest outer).machine = r.machine := rfl
  rw [callOperator, callOperator, machine]
  cases r.machine.perform op with
  | error failure => rfl
  | ok effect =>
      cases effect with
      | done after shown => rfl
      | run after source passes =>
          have shortened := block_error .block source passes { r.shorten activity rest outer with machine := after }
          exact shortened.trans (block_error .block source passes { r with machine := after }).symm

theorem error_told (error : Error) (failed : (r.callOperator op).error? = some error) :
    .reported error ∈ (r.operate op).notices := by
  rcases call_error_cases op r error failed with ⟨after, performed⟩ | ⟨after, source, passes, performed, rfl, full⟩
  · simp only [operate, performed]
    exact List.mem_cons_self
  · simp only [operate, performed, carryOut, enter, if_pos full]
    exact List.mem_cons_self

theorem inner_error_told (i : Nat) (error : Error) (block : Run) (is : (step^[i] block).operator? = some op)
    (failed : ((step^[i] block).callOperator op).error? = some error) : .reported error ∈ block.finish.notices := by
  obtain ⟨activity, rest, outer, same⟩ := operator_step op (step^[i] block) is
  refine reported_finish _ i block ?_
  rw [same]
  exact error_told op _ error ((call_error_shorten op _ activity rest outer).trans failed)

-- What an error says of the operator that ends with it.
structure ErrorsOwn : Prop where
  underflow : ∀ name needed found, (r.callOperator op).error? = some (.stackUnderflow name needed found) ↔
    r.machine.stack.count < op.arity ∧ name = op.name ∧ needed = op.arity ∧ found = r.machine.stack.count
  named : ∀ error name, (r.callOperator op).error? = some error → error.blamed? = some name → name = op.name
  intervalOverflow : (r.callOperator op).error? = some .intervalOverflow → op = .putInterval
  nestingLimit : ∀ limit, (r.callOperator op).error? = some (.nestingLimit limit) → op ∈ Operator.control
  -- Once the block runs, whatever fails in it is told while it runs, and the operator ends without an error.
  inside : ∀ after source passes, r.machine.perform op = .ok (.run after source passes) → r.depth < r.limit →
    (r.callOperator op).error? = none ∧ (∃ n, step^[n] (r.operate op) = (r.callOperator op).after) ∧
    let block := { r with machine := after }.alone.enter .block source passes
    ∀ i inner error, (step^[i] block).operator? = some inner →
      ((step^[i] block).callOperator inner).error? = some error →
      .reported error ∈ (r.callOperator op).after.notices

theorem errors_own : ErrorsOwn op r where
  underflow name needed found := by
    constructor
    · intro failed
      generalize told : Error.stackUnderflow name needed found = error at failed
      cases call_error op r error failed with
      | few few =>
          cases told
          exact ⟨few, rfl, rfl, rfl⟩
      | refused error listed =>
          rcases fault_cases op error listed with rfl | rfl | rfl | ⟨_, rfl⟩ <;> cases told
      | nested control full => cases told
    · rintro ⟨few, rfl, rfl, rfl⟩
      exact call_underflow op r few
  named error name failed blamed := by
    cases call_error op r error failed with
    | few few => exact (Option.some.inj blamed).symm
    | refused error listed => exact fault_blames op error name listed blamed
    | nested control full => cases blamed
  intervalOverflow failed := by
    generalize told : Error.intervalOverflow = error at failed
    cases call_error op r error failed with
    | few few => cases told
    | refused error listed =>
        rcases fault_cases op error listed with rfl | rfl | rfl | ⟨put, _⟩
        · cases told
        · cases told
        · cases told
        · exact put
    | nested control full => cases told
  nestingLimit limit failed := by
    generalize told : Error.nestingLimit limit = error at failed
    cases call_error op r error failed with
    | few few => cases told
    | refused error listed =>
        rcases fault_cases op error listed with rfl | rfl | rfl | ⟨_, rfl⟩ <;> cases told
    | nested control full => exact control
  inside after source passes performed room := by
    have entered := call_entered op r after source passes performed room
    obtain ⟨n, reached⟩ := call_operator_reached op r
    refine ⟨congrArg Outcome.error? entered, ⟨n, ?_⟩, ?_⟩
    · rw [reached, entered]
      rfl
    · intro block i inner error is failed
      rw [entered]
      exact inner_error_told inner i error block is failed

theorem inner_underflow_told :
    let r : Run := ⟨1, ((Machine.ofScoping .dynamic).push (.integer 7)).push (.block "pop pop"), [], 0, [], []⟩
    (r.callOperator .exec).error? = none ∧
      .reported (.stackUnderflow "pop" 1 0) ∈ (r.callOperator .exec).after.notices := by
  intro r
  have performed : r.machine.perform .exec =
      .ok (.run ((Machine.ofScoping .dynamic).push (.integer 7)) "pop pop" (.times 0)) := rfl
  obtain ⟨ends, _, told⟩ := (errors_own .exec r).inside _ _ _ performed Nat.zero_lt_one
  exact ⟨ends, told 1 .pop _ (by decide +kernel) (by decide +kernel)⟩

end Run

end MiniPostScript
