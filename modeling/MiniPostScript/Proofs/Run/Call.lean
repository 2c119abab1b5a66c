import Mathlib.Logic.Function.Iterate
import MiniPostScript.Proofs.Run.Task

set_option autoImplicit false

namespace MiniPostScript

structure Outcome where
  error? : Option Error
  after : Run
deriving DecidableEq

def Outcome.settle (outcome : Outcome) : Run :=
  match outcome.error? with
  | none => outcome.after
  | some error => outcome.after.report error

namespace Run

def alone (r : Run) : Run := { r with pending := [] }

def onTop (outer : List Activity) (r : Run) : Run := { r with pending := r.pending ++ outer }

-- Runs a block, with all its passes, unless as many are running as may.
def callBlock (entry : Entry) (source : String) (passes : Passes) (r : Run) : Outcome :=
  if r.limit ≤ r.depth then ⟨some (.nestingLimit r.limit), r⟩
  else ⟨none, ((r.alone.enter entry source passes).finish).onTop r.pending⟩

-- Performs an operator together with the block that it has run, if there is one.
def callOperator (op : Operator) (r : Run) : Outcome :=
  match r.machine.perform op with
  | .error (error, machine) => ⟨some error, { r with machine := machine }⟩
  | .ok (.done after shown) => ⟨none, r.carryOut (.done after shown)⟩
  | .ok (.run after source passes) => { r with machine := after }.callBlock .block source passes

theorem alone_on_top (r : Run) : r.alone.onTop r.pending = r := rfl

theorem enter_on_top (entry : Entry) (source : String) (passes : Passes) (outer : List Activity)
    (r : Run) :
    (r.onTop outer).enter entry source passes = (r.enter entry source passes).onTop outer := by
  by_cases full : r.limit ≤ r.depth
  · have fullTop : (r.onTop outer).limit ≤ (r.onTop outer).depth := full
    rw [enter, enter, if_pos full, if_pos fullTop]
    rfl
  · have roomTop : ¬ (r.onTop outer).limit ≤ (r.onTop outer).depth := full
    rw [enter, enter, if_neg full, if_neg roomTop]
    rfl

theorem execute_on_top (token : String) (outer : List Activity) (r : Run) :
    (r.onTop outer).execute token = (r.execute token).onTop outer := by
  have same : (r.onTop outer).task token = r.task token := rfl
  rw [execute_task, execute_task, same]
  cases r.task token with
  | settled after told => rfl
  | entering after entry source passes =>
      exact enter_on_top entry source passes outer { r with machine := after }

theorem leave_on_top (outer : List Activity) (r : Run) (busy : r.pending ≠ []) :
    (r.onTop outer).leave = r.leave.onTop outer := by
  cases pending : r.pending with
  | nil => exact absurd pending busy
  | cons activity rest =>
      have pendingTop : (r.onTop outer).pending = activity :: (rest ++ outer) := by
        simp [onTop, pending]
      simp only [leave, pending, pendingTop]
      cases activity.entry <;> rfl

theorem step_on_top (outer : List Activity) (r : Run) (busy : r.pending ≠ []) :
    (r.onTop outer).step = r.step.onTop outer := by
  have pendingTop (activity : Activity) (rest : List Activity) (pending : r.pending = activity :: rest) :
      (r.onTop outer).pending = activity :: (rest ++ outer) := by simp [onTop, pending]
  have machineTop : (r.onTop outer).machine = r.machine := rfl
  cases r.move with
  | idle idle same => exact absurd idle busy
  | token activity rest token left pending runs tokens same =>
      rw [same, ← execute_on_top]
      simp only [step, pendingTop _ _ pending, machineTop, runs, tokens]
      rfl
  | again activity rest passes pending runs spent more same =>
      rw [same]
      simp only [step, pendingTop _ _ pending, machineTop, runs, spent, more]
      rfl
  | leave activity rest pending ended same =>
      rw [same, ← leave_on_top outer r busy]
      rcases ended with halted | ⟨spent, last⟩
      · simp [step, pendingTop _ _ pending, machineTop, halted]
      · simp [step, pendingTop _ _ pending, machineTop, spent, last]

theorem finish_on_top_reached (outer : List Activity) (r : Run) :
    ∃ n, step^[n] (r.onTop outer) = r.finish.onTop outer := by
  induction r using run_induction with
  | idle r none => exact ⟨0, by rw [finish_idle r none]; rfl⟩
  | busy r some ih =>
      obtain ⟨n, reached⟩ := ih
      refine ⟨n + 1, ?_⟩
      rw [Function.iterate_succ_apply, step_on_top outer r some, reached, finish_step]

theorem finish_reached (r : Run) : ∃ n, step^[n] r = r.finish := by
  have alone (r : Run) : r.onTop [] = r := by simp [onTop]
  simpa only [alone] using finish_on_top_reached [] r

theorem finish_iterate (n : Nat) (r : Run) : (step^[n] r).finish = r.finish := by
  induction n generalizing r with
  | zero => rfl
  | succ n ih => rw [Function.iterate_succ_apply, ih, finish_step]

theorem finish_at (n : Nat) (r : Run) (idle : (step^[n] r).pending = []) : r.finish = step^[n] r := by
  rw [← finish_iterate n r, finish_idle _ idle]

-- Nothing happens once nothing is pending, so what holds until then holds for good.
theorem holds_until_idle (holds : Run → Prop) (last : Nat) (r : Run)
    (idle : (step^[last] r).pending = []) (before : ∀ i < last + 1, holds (step^[i] r)) (n : Nat) :
    holds (step^[n] r) := by
  by_cases early : n < last + 1
  · exact before n early
  · have split : n - last + last = n := Nat.sub_add_cancel (by omega)
    have still : (step^[last] r).step = step^[last] r := by simp [step, idle]
    rw [← split, Function.iterate_add_apply, Function.iterate_fixed still]
    exact before last (Nat.lt_succ_self last)

theorem call_block_reached (entry : Entry) (source : String) (passes : Passes) (r : Run) :
    ∃ n, step^[n] (r.enter entry source passes) = (r.callBlock entry source passes).settle := by
  by_cases full : r.limit ≤ r.depth
  · refine ⟨0, ?_⟩
    simp only [enter, callBlock, if_pos full, Outcome.settle]
    rfl
  · obtain ⟨n, reached⟩ := finish_on_top_reached r.pending (r.alone.enter entry source passes)
    refine ⟨n, ?_⟩
    rw [← enter_on_top, alone_on_top] at reached
    simpa only [callBlock, if_neg full, Outcome.settle] using reached

theorem call_operator_reached (op : Operator) (r : Run) :
    ∃ n, step^[n] (r.operate op) = (r.callOperator op).settle := by
  cases performed : r.machine.perform op with
  | error failure => exact ⟨0, by simp only [operate, callOperator, performed]; rfl⟩
  | ok effect =>
      cases effect with
      | done after shown => exact ⟨0, by simp only [operate, callOperator, performed]; rfl⟩
      | run after source passes =>
          simp only [operate, callOperator, performed, carryOut]
          exact call_block_reached .block source passes { r with machine := after }

end Run

end MiniPostScript
