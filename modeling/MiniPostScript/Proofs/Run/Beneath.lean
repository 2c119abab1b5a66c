import MiniPostScript.Proofs.Operator.Beneath
import MiniPostScript.Proofs.Run.Frames
import MiniPostScript.Proofs.Run.Lockstep
import MiniPostScript.Proofs.Run.Recursion

set_option autoImplicit false

namespace MiniPostScript

def Machine.above (m : Machine) (base : Stack) : Machine := { m with stack := m.stack.above base }

def Effect.above (base : Stack) : Effect → Effect
  | .done after shown => .done (after.above base) shown
  | .run after source passes => .run (after.above base) source passes

def Task.above (base : Stack) : Task → Task
  | .settled after told => .settled (after.above base) told
  | .entering after entry source passes => .entering (after.above base) entry source passes

theorem effect_above (deed : Deed) (m : Machine) (base : Stack) :
    deed.effect (m.above base) = (deed.effect m).above base := by
  cases deed with
  | loop source passes =>
      have halted : (m.above base).halted = m.halted := rfl
      rw [Deed.effect, Deed.effect, halted]
      split <;> rfl
  | _ => rfl

theorem operator_task_above (op : Operator) (m : Machine) (base : Stack)
    (enough : op.arity ≤ m.stack.count) (spares : op.Spares m.stack) :
    (m.above base).operatorTask op = (m.operatorTask op).above base := by
  have stack : (m.above base).stack = m.stack.above base := rfl
  rw [Machine.operatorTask, Machine.operatorTask, Machine.perform, Machine.perform, stack]
  cases performed : m.stack.perform op with
  | error failure =>
      rw [perform_above_error op m.stack base failure.2 failure.1 enough spares performed]
      rfl
  | ok result =>
      rw [perform_above_ok op m.stack base result.1 result.2 spares performed]
      have done := effect_above result.2 { m with stack := result.1 } base
      simp only [Machine.above] at done ⊢
      rw [done]
      cases result.2.effect { m with stack := result.1 } <;> rfl

namespace Run

def above (r : Run) (base : Stack) : Run := { r with machine := r.machine.above base }

-- The operator that the next step performs, if it is one, has its operands and keeps to them.
structure Shallow (r : Run) : Prop where
  enough : ∀ op, r.operator? = some op → op.arity ≤ r.machine.stack.count
  spares : ∀ op, r.operator? = some op → op.Spares r.machine.stack

theorem task_above (token : String) (base : Stack) (r : Run) (next : r.token? = some token)
    (shallow : r.Shallow) : (r.above base).task token = (r.task token).above base := by
  have lookup : (r.above base).lookup token = r.lookup token := rfl
  rw [task, task, lookup]
  cases is : constant? token with
  | some value => rfl
  | none =>
      cases found : r.lookup token with
      | none => rfl
      | some entry =>
          obtain ⟨value, home⟩ := entry
          cases value with
          | operator op =>
              have stands : r.operator? = some op := by
                simp only [operator?, next, Option.bind_some, operatorOf?, is, found]
              exact operator_task_above op r.machine base (shallow.enough op stands) (shallow.spares op stands)
          | _ => rfl

theorem undertake_above (task : Task) (base : Stack) (r : Run) :
    (r.above base).undertake (task.above base) = (r.undertake task).above base := by
  cases task with
  | settled after told => rfl
  | entering after entry source passes =>
      exact enter_mapped (fun r => r.above base) { r with machine := after } (fun _ _ _ => rfl) rfl (fun _ => rfl)
        entry source passes

theorem step_above (base : Stack) (r : Run) (shallow : r.Shallow) :
    (r.above base).step = r.step.above base := by
  refine step_mapped (fun r => r.above base) r rfl (fun _ _ _ => rfl) ?_
  intro token activities next
  have task : ({ r with pending := activities }.above base).task token =
      ({ r with pending := activities }.task token).above base := task_above token base r next shallow
  rw [execute_task, execute_task, task]
  exact undertake_above _ base { r with pending := activities }

theorem finish_above (base : Stack) (r : Run) (shallow : ∀ i, (step^[i] r).Shallow) :
    (r.above base).finish = r.finish.above base :=
  finish_mapped (fun r => r.above base) r (fun _ => rfl) fun n => step_above base _ (shallow n)

theorem underflow_reported (op : Operator) (r : Run) (is : r.operator? = some op)
    (few : r.machine.stack.count < op.arity) :
    .reported (.stackUnderflow op.name op.arity r.machine.stack.count) ∈ r.step.notices := by
  obtain ⟨activity, rest, outer, same⟩ := operator_step op r is
  rw [same, operate_error op (r.shorten activity rest outer) _ _ (perform_underflow op r.machine.stack few)]
  exact List.mem_cons_self

theorem reported_finish (notice : Notice) (n : Nat) (r : Run) (told : notice ∈ (step^[n] r).step.notices) :
    notice ∈ r.finish.notices := by
  have kept := (finish_notices (step^[n] r).step).subset told
  rwa [finish_step, finish_iterate] at kept

theorem stack_beneath_kept (line : String) (base : Stack) (r : Run)
    (enough : ∀ op needed found,
      .reported (.stackUnderflow op needed found) ∉ (r.begin line).finish.notices)
    (spares : ∀ i op, (step^[i] (r.begin line)).operator? = some op →
      op.Spares (step^[i] (r.begin line)).machine.stack) :
    let alone := (r.begin line).finish
    let above := ((r.above base).begin line).finish
    above.notices = alone.notices ∧ above.machine.stack = alone.machine.stack.above base ∧
      above.machine.scopes = alone.machine.scopes ∧ above.machine.scoping = alone.machine.scoping ∧
      above.machine.halted = alone.machine.halted := by
  intro alone above
  have shallow (i : Nat) : (step^[i] (r.begin line)).Shallow := by
    refine ⟨fun op is => ?_, spares i⟩
    by_cases few : (step^[i] (r.begin line)).machine.stack.count < op.arity
    · exact absurd (reported_finish _ i _ (underflow_reported op _ is few)) (enough _ _ _)
    · exact Nat.le_of_not_gt few
  have same : above = alone.above base := finish_above base (r.begin line) shallow
  rw [same]
  exact ⟨rfl, rfl, rfl, rfl, rfl⟩

theorem copy_above_name :
    let r : Run := ⟨1, (Machine.ofScoping .dynamic).push (.integer 4), [], 0, [], []⟩
    let line := "dup 1 copy { add true add } exec"
    let alone := (r.begin line).finish
    let above := ((r.above ⟨[.name "b"]⟩).begin line).finish
    alone.notices = [.reported (.typeMismatch "add")] ∧ above.notices = alone.notices ∧
      above.machine.stack = alone.machine.stack.above ⟨[.name "b"]⟩ := by
  intro r line alone above
  have idle : (step^[11] (r.begin line)).pending = [] := by decide +kernel
  have told : alone.notices = [.reported (.typeMismatch "add")] := by
    rw [show alone = step^[11] (r.begin line) from finish_at 11 _ idle]
    decide +kernel
  have spares (i : Nat) : ∀ op ∈ (step^[i] (r.begin line)).operator?,
      op.Spares (step^[i] (r.begin line)).machine.stack :=
    holds_until_idle (fun s => ∀ op ∈ s.operator?, op.Spares s.machine.stack) 11 _ idle
      (by decide +kernel) i
  obtain ⟨notices, stack, _⟩ := stack_beneath_kept line ⟨[.name "b"]⟩ r
    (fun op needed found => by rw [told]; simp) spares
  exact ⟨told, notices, stack⟩

end Run

end MiniPostScript
