import MiniPostScript.Proofs.Operator.Failure
import MiniPostScript.Proofs.Session.Reached

set_option autoImplicit false

namespace MiniPostScript

inductive Call where
  | block (source : String)
  | named (source : String) (home : FrameId)
  | loop (source : String) (passes : Passes)
  | dispatch (name : String)
  | operator (op : Operator)

-- Whether a call is for a block, and so may be refused.
def Call.Enters : Call → Prop
  | .block _ | .named _ _ | .loop _ _ => True
  | .dispatch _ | .operator _ => False

namespace Run

def running (r : Run) : Nat := r.entries.countP Entry.isBlock

def call : Call → Run → Outcome
  | .block source, r => r.callBlock .block source (.times 0)
  | .named source home, r => r.callNamed source home
  | .loop source passes, r => r.callPasses source passes
  | .dispatch name, r => r.callDispatch name
  | .operator op, r => r.callOperator op

def start : Call → Run → Run
  | .block source, r => r.enter .block source (.times 0)
  | .named source home, r => r.enter (.named home) source (.times 0)
  | .loop source passes, r => r.enter .block source passes
  | .dispatch name, r => r.dispatch name
  | .operator op, r => r.operate op

theorem call_reached (call : Call) (r : Run) : ∃ n, step^[n] (r.start call) = (r.call call).settle := by
  cases call with
  | block source => exact call_block_reached .block source (.times 0) r
  | named source home =>
      rw [Run.call, call_named]
      exact call_block_reached (.named home) source (.times 0) r
  | loop source passes =>
      rw [Run.call, call_passes]
      exact call_block_reached .block source passes r
  | dispatch name => exact call_dispatch_reached name r
  | operator op => exact call_operator_reached op r

theorem call_restored (call : Call) (r : Run) : Restored r (r.call call).after := by
  cases call with
  | block source => exact call_block_restored .block source (.times 0) r rfl
  | named source home => exact call_named_restored source home r
  | loop source passes =>
      rw [Run.call, call_passes]
      exact call_block_restored .block source passes r rfl
  | dispatch name => exact call_dispatch_restored name r
  | operator op => exact call_operator_restored op r

theorem enters_block (call : Call) (r : Run) (enters : call.Enters) :
    ∃ entry source passes, r.call call = r.callBlock entry source passes := by
  cases call with
  | block source => exact ⟨.block, source, .times 0, rfl⟩
  | named source home => exact ⟨.named home, source, .times 0, call_named source home r⟩
  | loop source passes => exact ⟨.block, source, passes, call_passes source passes r⟩
  | dispatch name => exact enters.elim
  | operator op => exact enters.elim

theorem enters_refused (call : Call) (r : Run) (enters : call.Enters) (full : r.limit ≤ r.depth) :
    r.call call = ⟨some (.nestingLimit r.limit), r⟩ := by
  obtain ⟨entry, source, passes, same⟩ := enters_block call r enters
  rw [same, call_block_refused entry source passes r full]

theorem enters_error (call : Call) (r : Run) (error : Error) (enters : call.Enters)
    (failed : (r.call call).error? = some error) :
    error = .nestingLimit r.limit ∧ r.limit ≤ r.depth := by
  obtain ⟨entry, source, passes, same⟩ := enters_block call r enters
  rw [same] at failed
  exact call_block_error entry source passes r error failed

theorem operator_call_loop (op : Operator) (r : Run) (operands : List Value) (below : Stack)
    (source : String) (passes : Passes)
    (calls : CallsFor r.machine.halted op operands source passes)
    (stack : r.machine.stack = below.pushAll operands) :
    r.call (.operator op) =
      { r with machine := { r.machine with stack := below } }.call (.loop source passes) := by
  have performed := (perform_run_iff op r.machine _ source passes).mpr
    ⟨operands, below, calls, stack, rfl⟩
  rw [Run.call, Run.call, call_passes, call_operator_run op r _ source passes performed]

theorem nesting_exact (settings : Settings) (r : Run) (reached : Reached settings r) :
    (r.depth = r.running ∧ r.running ≤ settings.maxDepth ∧
      r.homes = r.entries.filterMap Entry.home?) ∧
    ((r.pending = [] → r.depth = 0 ∧ r.homes = []) ∧ r.finish.depth = 0 ∧ r.finish.homes = []) ∧
    (∀ call, (∃ n, step^[n] (r.start call) = (r.call call).settle) ∧
      (r.call call).after.depth = r.depth ∧ (r.call call).after.homes = r.homes) ∧
    (∀ call : Call, call.Enters → ∀ error, (r.call call).error? = some error ↔
      error = .nestingLimit settings.maxDepth ∧ r.running = settings.maxDepth) ∧
    (∀ call : Call, call.Enters → (r.call call).error? ≠ none → (r.call call).after = r) ∧
    (∀ op operands below source passes, CallsFor r.machine.halted op operands source passes →
      r.machine.stack = below.pushAll operands →
      r.call (.operator op) =
        { r with machine := { r.machine with stack := below } }.call (.loop source passes)) := by
  have nested := reached_nested settings r reached
  have limit := reached_limit settings r reached
  have bounded := reached_depth settings r reached
  have counted : r.depth = r.running := nested.depth
  have full : r.limit ≤ r.depth ↔ r.running = settings.maxDepth := by omega
  refine ⟨⟨counted, by omega, ?_⟩, ?_, ?_, ?_, ?_, ?_⟩
  · rw [nested.homes, List.append_nil]
  · exact ⟨fun idle => idle_nested r idle nested, finish_nested 0 [] r nested⟩
  · intro call
    have restored := call_restored call r
    exact ⟨call_reached call r, restored.depth, restored.homes⟩
  · intro call enters error
    constructor
    · intro failed
      obtain ⟨rfl, reaches⟩ := enters_error call r error enters failed
      exact ⟨by rw [limit], full.mp reaches⟩
    · rintro ⟨rfl, running⟩
      rw [enters_refused call r enters (full.mpr running), limit]
  · intro call enters failed
    obtain ⟨error, refused⟩ := Option.ne_none_iff_exists'.mp failed
    obtain ⟨_, reaches⟩ := enters_error call r error enters refused
    rw [enters_refused call r enters reaches]
  · intro op operands below source passes
    exact operator_call_loop op r operands below source passes

theorem running_block_refuses :
    let r := step^[4] ((fresh ⟨.lexical, 1⟩).begin "/f { f } def f")
    r.running = 1 ∧ r.depth = 1 ∧ r.homes = r.entries.filterMap Entry.home? ∧
      (r.call (.loop "f" (.times 2))).error? = some (.nestingLimit 1) := by
  intro r
  have counted : (step^[4] ((fresh ⟨.lexical, 1⟩).begin "/f { f } def f")).running = 1 := by decide +kernel
  obtain ⟨⟨depth, _, homes⟩, _, _, refused, _⟩ :=
    nesting_exact ⟨.lexical, 1⟩ r (reached_iterate _ 4 _ (.begin _ _ rfl .fresh))
  exact ⟨counted, depth.trans counted, homes, (refused (.loop "f" (.times 2)) trivial _).mpr ⟨rfl, counted⟩⟩

end Run

end MiniPostScript
