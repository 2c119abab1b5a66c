import MiniPostScript.Proofs.Operator.Deeds
import MiniPostScript.Proofs.Operator.Faults
import MiniPostScript.Proofs.Run.Call

set_option autoImplicit false

namespace MiniPostScript

-- The operands on which an operator has a block run, with the block and its passes. A halted machine
-- begins no loop.
inductive CallsFor (halted : Bool) : Operator → List Value → String → Passes → Prop where
  | ifTrue (source : String) :
      CallsFor halted .ifTrue [.boolean true, .block source] source (.times 0)
  | ifElse (test : Bool) (yes no : String) :
      CallsFor halted .ifElse [.boolean test, .block yes, .block no] (if test then yes else no) (.times 0)
  | forLoop (first last step : Integer) (source : String) (moves : step.toInt ≠ 0)
      (starts : Passes.within first last step = true) (going : halted = false) :
      CallsFor halted .forLoop [.integer first, .integer last, .integer step, .block source] source
        (.counting first last step moves)
  | repeatLoop (n : Integer) (source : String) (more : Nat) (count : n.toInt = more + 1)
      (going : halted = false) :
      CallsFor halted .repeatLoop [.integer n, .block source] source (.times more)
  | exec (source : String) : CallsFor halted .exec [.block source] source (.times 0)

theorem calls_for_operands (halted : Bool) (op : Operator) (operands : List Value) (source : String)
    (passes : Passes) (calls : CallsFor halted op operands source passes) : operands ≠ [] := by
  cases calls <;> exact List.cons_ne_nil _ _

theorem effect_run (op : Operator) (operands : List Value) (deed : Deed) (m after : Machine)
    (source : String) (passes : Passes) (bids : Bids op operands deed)
    (runs : deed.effect m = .run after source passes) :
    after = m ∧ CallsFor m.halted op operands source passes := by
  cases bids with
  | ifTrue source => cases runs; exact ⟨rfl, .ifTrue source⟩
  | ifElse test yes no => cases runs; exact ⟨rfl, .ifElse test yes no⟩
  | exec source => cases runs; exact ⟨rfl, .exec source⟩
  | forLoop first last step source moves starts =>
      simp only [Deed.effect] at runs
      split at runs
      · cases runs
      · rename_i going
        cases runs
        exact ⟨rfl, .forLoop first last step source moves starts (by simpa using going)⟩
  | repeatLoop n source more count =>
      simp only [Deed.effect] at runs
      split at runs
      · cases runs
      · rename_i going
        cases runs
        exact ⟨rfl, .repeatLoop n source more count (by simpa using going)⟩
  | _ => cases runs

theorem calls_for_bids (op : Operator) (operands : List Value) (m : Machine) (source : String)
    (passes : Passes) (calls : CallsFor m.halted op operands source passes) :
    ∃ deed, Bids op operands deed ∧ deed.effect m = .run m source passes := by
  cases calls with
  | ifTrue source => exact ⟨_, .ifTrue source, rfl⟩
  | ifElse test yes no => exact ⟨_, .ifElse test yes no, rfl⟩
  | exec source => exact ⟨_, .exec source, rfl⟩
  | forLoop first last step source moves starts going =>
      exact ⟨_, .forLoop first last step source moves starts, by simp [Deed.effect, going]⟩
  | repeatLoop n source more count going =>
      exact ⟨_, .repeatLoop n source more count, by simp [Deed.effect, going]⟩

theorem perform_run_iff (op : Operator) (m after : Machine) (source : String) (passes : Passes) :
    m.perform op = .ok (.run after source passes) ↔ ∃ operands below,
      CallsFor m.halted op operands source passes ∧ m.stack = below.pushAll operands ∧
        after = { m with stack := below } := by
  constructor
  · intro performed
    rw [Machine.perform] at performed
    split at performed
    · rename_i stack deed done
      have runs : deed.effect { m with stack := stack } = .run after source passes := by
        simpa using performed
      rcases perform_deed op m.stack stack deed done with ⟨lines, rfl, _⟩ | ⟨operands, bids, same⟩
      · cases runs
      · obtain ⟨rfl, calls⟩ := effect_run op operands deed _ after source passes bids runs
        exact ⟨operands, stack, calls, same, rfl⟩
    · cases performed
  · rintro ⟨operands, below, calls, same, rfl⟩
    obtain ⟨deed, bids, runs⟩ := calls_for_bids op operands { m with stack := below } source passes calls
    have done := bids_perform op below operands deed bids
    simp only [Machine.perform, same, done, runs]

theorem push_all_grows (below : Stack) (operands : List Value) (some : operands ≠ []) :
    below ≠ below.pushAll operands := by
  intro same
  have lengths := congrArg Stack.count same
  have positive := List.length_pos_iff.mpr some
  simp only [Stack.count, Stack.pushAll, List.length_append, List.length_reverse] at lengths
  omega

namespace Run

theorem call_block_refused (entry : Entry) (source : String) (passes : Passes) (r : Run)
    (full : r.limit ≤ r.depth) :
    r.callBlock entry source passes = ⟨some (.nestingLimit r.limit), r⟩ := by
  rw [callBlock, if_pos full]

theorem call_block_error (entry : Entry) (source : String) (passes : Passes) (r : Run) (error : Error)
    (failed : (r.callBlock entry source passes).error? = some error) :
    error = .nestingLimit r.limit ∧ r.limit ≤ r.depth := by
  by_cases full : r.limit ≤ r.depth
  · rw [call_block_refused entry source passes r full] at failed
    exact ⟨(Option.some.inj failed).symm, full⟩
  · simp [callBlock, full] at failed

theorem call_operator_run (op : Operator) (r : Run) (after : Machine) (source : String) (passes : Passes)
    (performed : r.machine.perform op = .ok (.run after source passes)) :
    r.callOperator op = { r with machine := after }.callBlock .block source passes := by
  simp only [callOperator, performed]

theorem accepted_call_error (op : Operator) (r : Run) (effect : Effect) (error : Error)
    (performed : r.machine.perform op = .ok effect)
    (failed : (r.callOperator op).error? = some error) :
    error = .nestingLimit r.limit ∧ r.limit ≤ r.depth := by
  cases effect with
  | done after shown => simp [callOperator, performed] at failed
  | run after source passes =>
      rw [call_operator_run op r after source passes performed] at failed
      exact call_block_error .block source passes { r with machine := after } error failed

theorem failed_call_unchanged (op : Operator) (r : Run) :
    (∀ error, (r.callOperator op).error? = some error → (∀ limit, error ≠ .nestingLimit limit) →
      (r.callOperator op).after = r) ∧
    (∀ effect error, r.machine.perform op = .ok effect → (r.callOperator op).error? = some error →
      error = .nestingLimit r.limit ∧ r.limit ≤ r.depth) := by
  refine ⟨?_, accepted_call_error op r⟩
  intro error failed own
  cases performed : r.machine.perform op with
  | ok effect => exact absurd (accepted_call_error op r effect error performed failed).1 (own r.limit)
  | error failure =>
      have back := machine_perform_error op r.machine failure.2 failure.1 performed
      simp only [callOperator, performed]
      rw [back]

def ofOperands (limit : Nat) (operands : List Value) : Run where
  limit := limit
  machine := ⟨Stack.empty.pushAll operands, .ofGlobal (.empty 0), .dynamic, false⟩
  pending := []
  depth := 0
  homes := []
  notices := []

theorem zero_step_unchanged :
    let r := ofOperands 1 [.boolean true, .integer 1, .integer 5, .integer 0, .block "quit"]
    (r.callOperator .forLoop).error? = some (.outOfRange "for") ∧ (r.callOperator .forLoop).after = r :=
  ⟨rfl, (failed_call_unchanged .forLoop _).1 (.outOfRange "for") rfl (fun _ => Error.noConfusion)⟩

-- The operands have been taken before the block is refused, and nothing puts them back. The stack is
-- then never what it was before.
theorem nesting_limit_loses_operands (op : Operator) (r : Run) (limit : Nat) :
    (r.callOperator op).error? = some (.nestingLimit limit) ↔
      limit = r.limit ∧ r.limit ≤ r.depth ∧ ∃ operands below source passes,
        CallsFor r.machine.halted op operands source passes ∧
        r.machine.stack = below.pushAll operands ∧
        (r.callOperator op).after = { r with machine := { r.machine with stack := below } } ∧
        (r.callOperator op).after.machine.stack ≠ r.machine.stack := by
  constructor
  · intro failed
    cases performed : r.machine.perform op with
    | error failure =>
        have same : failure.1 = .nestingLimit limit := by simpa [callOperator, performed] using failed
        obtain ⟨stack, refused, _⟩ := machine_perform_refused op r.machine failure.2 failure.1 performed
        exact absurd same ((perform_error_own op r.machine.stack stack failure.1 refused).2 limit)
    | ok effect =>
        obtain ⟨same, full⟩ := accepted_call_error op r effect _ performed failed
        cases effect with
        | done after shown => simp [callOperator, performed] at failed
        | run after source passes =>
            obtain ⟨operands, below, calls, stack, rfl⟩ := (perform_run_iff op r.machine after source passes).mp performed
            have lost : (r.callOperator op).after = { r with machine := { r.machine with stack := below } } := by
              rw [call_operator_run op r _ source passes performed,
                call_block_refused _ _ _ { r with machine := { r.machine with stack := below } } full]
            refine ⟨Error.nestingLimit.inj same, full, operands, below, source, passes, calls, stack, lost, ?_⟩
            rw [lost, stack]
            exact push_all_grows below operands (calls_for_operands _ op operands source passes calls)
  · rintro ⟨rfl, full, operands, below, source, passes, calls, stack, _, _⟩
    have performed := (perform_run_iff op r.machine _ source passes).mpr ⟨operands, below, calls, stack, rfl⟩
    rw [call_operator_run op r _ source passes performed,
      call_block_refused _ _ _ { r with machine := { r.machine with stack := below } } full]

theorem refused_exec_loses_block :
    (ofOperands 0 [.integer 1, .block "2"]).callOperator .exec =
      ⟨some (.nestingLimit 0), ofOperands 0 [.integer 1]⟩ := rfl

end Run

end MiniPostScript
