import MiniPostScript.Proofs.Operator.Makes
import MiniPostScript.Proofs.Run.Frames
import MiniPostScript.Proofs.Run.Task

set_option autoImplicit false

namespace MiniPostScript

def Task.machine : Task → Machine
  | .settled after _ => after
  | .entering after _ _ _ => after

def Value.isOperator : Value → Bool
  | .operator _ => true
  | _ => false

theorem effect_stack (deed : Deed) (m : Machine) : (deed.effect m).task.machine.stack = m.stack := by
  cases deed with
  | loop source passes =>
      rw [Deed.effect]
      split <;> rfl
  | _ => rfl

namespace Run

theorem undertake_machine (task : Task) (r : Run) : (r.undertake task).machine = task.machine := by
  cases task with
  | settled after told => rfl
  | entering after entry source passes => exact enter_machine entry source passes { r with machine := after }

theorem step_machine (r : Run) :
    r.step.machine = match r.token? with
      | none => r.machine
      | some token => (r.task token).machine := by
  cases r.move with
  | idle idle same => simp only [same, token?, idle]
  | token activity outer token rest pending runs left same =>
      have next := token_left activity outer token rest r pending runs left
      rw [same, execute_task, undertake_machine, next]
      rfl
  | again activity outer passes pending runs spent more same =>
      rw [same, token_ended activity outer r pending (.inr spent)]
  | leave activity outer pending ended same =>
      rw [same, leave_machine, token_ended activity outer r pending (ended.imp_right And.left)]

inductive Origin (token : String) (r : Run) (value : Value) : Prop where
  | kept (member : value ∈ r.machine.stack.cells)
  | constant (is : constant? token = some value)
  | found (home : FrameId) (found : r.lookup token = some (value, home)) (data : value.isOperator = false)
  | made (op : Operator) (operands : List Value) (below : Stack) (is : r.operatorOf? token = some op)
      (stack : r.machine.stack = below.pushAll operands) (makes : Makes op operands value)

theorem operator_origin (token : String) (op : Operator) (r : Run) (is : r.operatorOf? token = some op) :
    ∀ value ∈ (r.machine.operatorTask op).machine.stack.cells, Origin token r value := by
  intro value member
  rw [Machine.operatorTask, Machine.perform] at member
  cases performed : r.machine.stack.perform op with
  | error failure =>
      have back := stack_perform_error op _ _ _ performed
      simp only [performed, back] at member
      exact .kept member
  | ok result =>
      obtain ⟨operands, below, stack, made⟩ := perform_makes op _ _ _ performed
      simp only [performed, effect_stack] at member
      rcases made value member with old | makes
      · refine .kept ?_
        rw [stack]
        exact List.mem_append_right _ old
      · exact .made op operands below is stack makes

theorem task_origin (token : String) (r : Run) :
    ∀ value ∈ (r.task token).machine.stack.cells, Origin token r value := by
  intro value member
  cases is : constant? token with
  | some constant =>
      simp only [task, is] at member
      rcases List.mem_cons.mp member with rfl | old
      · exact .constant is
      · exact .kept old
  | none =>
      cases found : r.lookup token with
      | none =>
          simp only [task, is, found] at member
          exact .kept member
      | some entry =>
          obtain ⟨bound, home⟩ := entry
          simp only [task, is, found] at member
          cases bound with
          | operator op => exact operator_origin token op r (by simp only [operatorOf?, is, found]) value member
          | block source => exact .kept member
          | _ =>
              rcases List.mem_cons.mp member with rfl | old
              · exact .found home found rfl
              · exact .kept old

theorem step_cells (r : Run) (value : Value) (member : value ∈ r.step.machine.stack.cells) :
    value ∈ r.machine.stack.cells ∨ ∃ token, r.token? = some token ∧ Origin token r value := by
  rw [step_machine] at member
  cases next : r.token? with
  | none =>
      rw [next] at member
      exact .inl member
  | some token =>
      rw [next] at member
      exact .inr ⟨token, rfl, task_origin token r value member⟩

end Run

theorem deed_bound (deed : Deed) (s : Scopes) (frame : FrameId) (key : String) (value : Value)
    (bound : ((deed.scopes s).contents frame).get? key = some value) :
    (s.contents frame).get? key = some value ∨ deed = .define key value ∨
      ∃ d : Dictionary, deed = .beginDict d ∧ d.get? key = some value := by
  cases deed with
  | beginDict d =>
      by_cases has : s.Has frame
      · rw [Deed.scopes, Scopes.contents_push d s frame has] at bound
        exact .inl bound
      · cases frame with
        | global => exact absurd trivial has
        | begun index =>
            have there := Scopes.bound_has (s.push d) _ key value bound
            have last : index = s.begun.size := by
              simp only [Scopes.Has, Scopes.push, Array.size_push] at has there
              omega
            subst last
            simp only [Deed.scopes, Scopes.contents, Scopes.push, Array.getElem?_push_size,
              Option.getD_some] at bound
            exact .inr (.inr ⟨d, rfl, bound⟩)
  | endDict =>
      rw [Deed.scopes, Scopes.contents_closed] at bound
      exact .inl bound
  | define name new =>
      rw [Deed.scopes, Scopes.contents_define] at bound
      by_cases top : frame = s.top
      · rw [if_pos top, Dictionary.get_insert] at bound
        by_cases same : key = name
        · rw [if_pos same] at bound
          exact .inr (.inl (by rw [same, Option.some.inj bound]))
        · rw [if_neg same] at bound
          exact .inl bound
      · rw [if_neg top] at bound
        exact .inl bound
  | _ => exact .inl bound

namespace Run

theorem step_bound (frame : FrameId) (key : String) (value : Value) (r : Run)
    (bound : (r.step.machine.scopes.contents frame).get? key = some value) :
    (r.machine.scopes.contents frame).get? key = some value ∨
      .name key ∈ r.machine.stack.cells ∧ value ∈ r.machine.stack.cells ∨
      ∃ d : Dictionary, .dictionary d ∈ r.machine.stack.cells ∧ d.get? key = some value := by
  rw [step_scopes] at bound
  cases is : r.deed? with
  | none =>
      rw [is] at bound
      exact .inl bound
  | some deed =>
      rw [is] at bound
      rcases deed_bound deed r.machine.scopes frame key value bound with old | new
      · exact .inl old
      · rcases deed_operands deed r is with ⟨lines, rfl, _⟩ | ⟨op, operands, below, _, bids, stack⟩
        · rcases new with new | ⟨d, new, _⟩ <;> cases new
        · have taken (operand : Value) (member : operand ∈ operands) : operand ∈ r.machine.stack.cells := by
            rw [stack]
            exact Stack.mem_push_all operand operands below member
          rcases new with rfl | ⟨d, rfl, inside⟩
          · cases bids
            exact .inr (.inl ⟨taken _ (by simp), taken _ (by simp)⟩)
          · cases bids
            exact .inr (.inr ⟨d, taken _ (by simp), inside⟩)

end Run

end MiniPostScript
