import MiniPostScript.Proofs.Operator.Refusal
import MiniPostScript.Run.Finish

set_option autoImplicit false

namespace MiniPostScript

namespace Run

def shorten (activity : Activity) (rest : List String) (outer : List Activity) (r : Run) : Run :=
  { r with pending := { activity with rest := rest } :: outer }

inductive Move (r : Run) : Prop where
  | idle (idle : r.pending = []) (same : r.step = r)
  | token (activity : Activity) (outer : List Activity) (token : String) (rest : List String)
      (pending : r.pending = activity :: outer) (runs : r.machine.halted = false)
      (left : activity.rest = token :: rest)
      (same : r.step = (r.shorten activity rest outer).execute token)
  | again (activity : Activity) (outer : List Activity) (passes : Passes)
      (pending : r.pending = activity :: outer) (runs : r.machine.halted = false)
      (spent : activity.rest = []) (more : activity.passes.next? = some passes)
      (same : r.step =
        { r with pending := { activity with rest := activity.body, passes := passes } :: outer })
  | leave (activity : Activity) (outer : List Activity) (pending : r.pending = activity :: outer)
      (ended : r.machine.halted = true ∨ activity.rest = [] ∧ activity.passes.next? = none)
      (same : r.step = r.leave)

theorem move (r : Run) : Move r := by
  cases pending : r.pending with
  | nil => exact .idle pending (by simp only [step, pending])
  | cons activity outer =>
      cases halted : r.machine.halted with
      | true => exact .leave activity outer pending (.inl halted) (by simp [step, pending, halted])
      | false =>
          cases left : activity.rest with
          | cons token rest =>
              exact .token activity outer token rest pending halted left
                (by simp [step, pending, halted, left, shorten])
          | nil =>
              cases more : activity.passes.next? with
              | none =>
                  exact .leave activity outer pending (.inr ⟨left, more⟩)
                    (by simp [step, pending, halted, left, more])
              | some passes =>
                  exact .again activity outer passes pending halted left more
                    (by simp [step, pending, halted, left, more])

theorem leave_same (r : Run) :
    r.leave = { r with pending := r.pending.tail, depth := r.leave.depth, homes := r.leave.homes } := by
  obtain ⟨limit, machine, pending, depth, homes, notices⟩ := r
  cases pending with
  | nil => rfl
  | cons activity outer =>
      obtain ⟨entry, rest, body, passes⟩ := activity
      cases entry <;> rfl

theorem leave_limit (r : Run) : r.leave.limit = r.limit := by rw [leave_same]

theorem leave_machine (r : Run) : r.leave.machine = r.machine := by rw [leave_same]

theorem leave_pending (r : Run) : r.leave.pending = r.pending.tail := by rw [leave_same]

theorem leave_notices (r : Run) : r.leave.notices = r.notices := by rw [leave_same]

def accomplish (stack : Stack) (deed : Deed) (r : Run) : Run :=
  r.carryOut (deed.effect { r.machine with stack := stack })

theorem operate_error (op : Operator) (r : Run) (error : Error) (stack : Stack)
    (failed : r.machine.stack.perform op = .error (error, stack)) :
    r.operate op = r.report error := by
  have back := stack_perform_error op _ _ _ failed
  subst back
  simp only [operate, Machine.perform, failed]

theorem operate_ok (op : Operator) (r : Run) (stack : Stack) (deed : Deed)
    (performed : r.machine.stack.perform op = .ok (stack, deed)) :
    r.operate op = r.accomplish stack deed := by
  simp only [operate, Machine.perform, performed, accomplish]

theorem execute_constant (token : String) (r : Run) (value : Value)
    (is : constant? token = some value) : r.execute token = r.push value := by
  simp only [execute, is]

theorem execute_undefined (token : String) (r : Run) (is : constant? token = none)
    (missing : r.lookup token = none) : r.execute token = r.report (.undefined token) := by
  simp only [execute, is, dispatch, missing]

theorem execute_found (token : String) (r : Run) (value : Value) (home : FrameId)
    (is : constant? token = none) (found : r.lookup token = some (value, home)) :
    r.execute token = r.evaluate value home := by
  simp only [execute, is, dispatch, found]

def operatorOf? (token : String) (r : Run) : Option Operator :=
  match constant? token, r.lookup token with
  | none, some (.operator op, _) => some op
  | _, _ => none

inductive Takes (token : String) (r : Run) : Prop where
  | pushes (value : Value) (other : r.operatorOf? token = none) (same : r.execute token = r.push value)
  | undefined (other : r.operatorOf? token = none)
      (same : r.execute token = r.report (.undefined token))
  | enters (source : String) (home : FrameId) (other : r.operatorOf? token = none)
      (is : constant? token = none) (found : r.lookup token = some (.block source, home))
      (same : r.execute token = r.enterNamed source home)
  | fails (op : Operator) (error : Error) (stack : Stack) (is : r.operatorOf? token = some op)
      (failed : r.machine.stack.perform op = .error (error, stack))
      (same : r.execute token = r.report error)
  | performs (op : Operator) (stack : Stack) (deed : Deed) (is : r.operatorOf? token = some op)
      (performed : r.machine.stack.perform op = .ok (stack, deed))
      (same : r.execute token = r.accomplish stack deed)

theorem takes (token : String) (r : Run) : Takes token r := by
  cases is : constant? token with
  | some value =>
      exact .pushes value (by simp only [operatorOf?, is]) (execute_constant token r value is)
  | none =>
      cases found : r.lookup token with
      | none =>
          exact .undefined (by simp only [operatorOf?, is, found]) (execute_undefined token r is found)
      | some entry =>
          obtain ⟨value, home⟩ := entry
          have whole := execute_found token r value home is found
          cases value with
          | operator op =>
              have stands : r.operatorOf? token = some op := by simp only [operatorOf?, is, found]
              cases performed : r.machine.stack.perform op with
              | error failure =>
                  exact .fails op failure.1 failure.2 stands performed
                    (whole.trans (operate_error op r failure.1 failure.2 performed))
              | ok result =>
                  exact .performs op result.1 result.2 stands performed
                    (whole.trans (operate_ok op r result.1 result.2 performed))
          | block source => exact .enters source home (by simp only [operatorOf?, is, found]) is found whole
          | _ => exact .pushes _ (by simp only [operatorOf?, is, found]) whole

end Run

end MiniPostScript
