import MiniPostScript.Proofs.Run.Step

set_option autoImplicit false

namespace MiniPostScript

inductive Task where
  | settled (after : Machine) (told : List Notice)
  | entering (after : Machine) (entry : Entry) (source : String) (passes : Passes)

def Effect.task : Effect → Task
  | .done after shown => .settled after (shown.map .shown).reverse
  | .run after source passes => .entering after .block source passes

def Machine.operatorTask (op : Operator) (m : Machine) : Task :=
  match m.perform op with
  | .ok effect => effect.task
  | .error (error, after) => .settled after [.reported error]

def Scoping.entry (home : FrameId) : Scoping → Entry
  | .dynamic => .block
  | .lexical => .named home

def Machine.valueTask (value : Value) (home : FrameId) (m : Machine) : Task :=
  match value with
  | .operator op => m.operatorTask op
  | .block source => .entering m (m.scoping.entry home) source (.times 0)
  | value => .settled (m.push value) []

namespace Run

def task (token : String) (r : Run) : Task :=
  match constant? token with
  | some value => .settled (r.machine.push value) []
  | none =>
      match r.lookup token with
      | none => .settled r.machine [.reported (.undefined token)]
      | some (value, home) => r.machine.valueTask value home

def undertake (task : Task) (r : Run) : Run :=
  match task with
  | .settled after told => { r with machine := after, notices := told ++ r.notices }
  | .entering after entry source passes => { r with machine := after }.enter entry source passes

theorem operate_task (op : Operator) (r : Run) :
    r.operate op = r.undertake (r.machine.operatorTask op) := by
  rw [operate, Machine.operatorTask]
  cases r.machine.perform op with
  | error failure => rfl
  | ok effect => cases effect <;> rfl

theorem evaluate_task (value : Value) (home : FrameId) (r : Run) :
    r.evaluate value home = r.undertake (r.machine.valueTask value home) := by
  cases value with
  | operator op => exact operate_task op r
  | block source =>
      simp only [evaluate, enterNamed, Machine.valueTask, undertake]
      cases r.machine.scoping <;> rfl
  | _ => rfl

theorem execute_task (token : String) (r : Run) : r.execute token = r.undertake (r.task token) := by
  rw [execute, task]
  cases constant? token with
  | some value => rfl
  | none =>
      simp only [dispatch]
      cases r.lookup token with
      | none => rfl
      | some entry => exact evaluate_task entry.1 entry.2 r

theorem enter_notices (entry : Entry) (source : String) (passes : Passes) (r : Run) :
    r.notices <:+ (r.enter entry source passes).notices := by
  rw [enter]
  split
  · exact List.suffix_cons _ _
  · exact List.suffix_refl _

theorem execute_notices (token : String) (r : Run) : r.notices <:+ (r.execute token).notices := by
  rw [execute_task]
  cases r.task token with
  | settled after told => exact List.suffix_append told r.notices
  | entering after entry source passes => exact enter_notices entry source passes { r with machine := after }

theorem step_notices (r : Run) : r.notices <:+ r.step.notices := by
  cases r.move with
  | idle idle same => exact ⟨[], (congrArg notices same).symm⟩
  | token activity outer token rest pending runs left same =>
      rw [same]
      exact execute_notices token (r.shorten activity rest outer)
  | again activity outer passes pending runs spent more same =>
      exact ⟨[], (congrArg notices same).symm⟩
  | leave activity outer pending ended same =>
      exact ⟨[], ((congrArg notices same).trans (leave_notices r)).symm⟩

theorem finish_notices (r : Run) : r.notices <:+ r.finish.notices := by
  induction r using run_induction with
  | idle r none => exact ⟨[], (congrArg notices (finish_idle r none)).symm⟩
  | busy r some ih =>
      rw [finish_step] at ih
      exact (step_notices r).trans ih

end Run

end MiniPostScript
