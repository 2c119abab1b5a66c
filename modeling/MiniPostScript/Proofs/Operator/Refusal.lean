import MiniPostScript.Operator.Rule

set_option autoImplicit false

namespace MiniPostScript

namespace Rule

-- Whatever cells there are, a rule fails under this name if they are fewer than `needed`.
def Demands (name : String) (needed : Nat) : Rule → Prop
  | .values own count _ | .acts own count _ => own = name ∧ count = needed
  | .changes change => ∀ s : Stack, s.count < needed → change s = .error (.stackUnderflow name needed s.count)
  | .always _ => needed = 0

theorem demands_few (rule : Rule) (name : String) (needed : Nat) (s : Stack) (demands : rule.Demands name needed)
    (few : s.count < needed) : rule.perform s = .error (.stackUnderflow name needed s.count, s) := by
  cases rule with
  | values own count results | acts own count act =>
      obtain ⟨rfl, rfl⟩ := demands
      simp only [perform, take, (Stack.take_error_iff own count s _).mpr ⟨few, rfl⟩]
  | changes change =>
      have fails : change (s.pushAll []) = .error (.stackUnderflow name needed s.count) := demands s few
      simp only [perform, take, apply, fails]
      rfl
  | always act =>
      rw [demands] at few
      exact absurd few (Nat.not_lt_zero _)

theorem demands_enough (rule : Rule) (name : String) (needed : Nat) (below : Stack) (operands : List Value)
    (demands : rule.Demands name needed) (length : operands.length = needed) :
    rule.perform (below.pushAll operands) =
      (rule.apply below operands).mapError fun refusal => (refusal.error, below.pushAll refusal.operands) := by
  cases rule with
  | values own count results | acts own count act =>
      obtain ⟨rfl, rfl⟩ := demands
      simp only [perform, take, (Stack.take_ok_iff own count _ below operands).mpr ⟨length, rfl⟩]
  | changes change =>
      have whole : (below.pushAll operands).pushAll [] = below.pushAll operands := rfl
      simp only [perform, take, apply, whole]
      cases change (below.pushAll operands) <;> rfl
  | always act =>
      rw [demands] at length
      obtain rfl := List.length_eq_zero_iff.mp length
      rfl

end Rule

theorem rule_demands (op : Operator) : op.rule.Demands op.name op.arity := by
  cases op with
  | exch => exact Stack.exch_underflow
  | dup => exact Stack.dup_underflow
  | clear | count | endDict | quit | printStack | changeScoping | lexical | dynamic => exact rfl
  | _ => exact ⟨rfl, rfl⟩

theorem exch_applied (below : Stack) (operands : List Value) (length : operands.length = 2) :
    ∃ a b, operands = [a, b] ∧ Operator.exch.rule.apply below operands = .ok (below.pushAll [b, a], .display []) := by
  match operands, length with
  | [a, b], _ => exact ⟨a, b, rfl, rfl⟩

theorem dup_applied (below : Stack) (operands : List Value) (length : operands.length = 1) :
    ∃ a, operands = [a] ∧ Operator.dup.rule.apply below operands = .ok (below.pushAll [a, a], .display []) := by
  match operands, length with
  | [a], _ => exact ⟨a, rfl, rfl⟩

-- An action that refuses puts its operands back, and one of these errors is why.
def Refuses (faults : List Error) (act : Stack → List Value → Except Refusal (Stack × Deed)) : Prop :=
  ∀ below operands refusal, act below operands = .error refusal →
    refusal.operands = operands ∧ refusal.error ∈ faults

namespace Action

theorem copy_refuses : Refuses [.typeMismatch "copy", .outOfRange "copy"] copy := by
  intro below operands refusal refused
  simp only [copy] at refused
  split at refused
  · split at refused
    · cases refused
      exact ⟨rfl, List.mem_cons_of_mem _ List.mem_cons_self⟩
    · cases refused
  · cases refused
    exact ⟨rfl, List.mem_cons_self⟩

theorem dict_refuses : Refuses [.typeMismatch "dict", .outOfRange "dict"] dict := by
  intro below operands refusal refused
  simp only [dict] at refused
  split at refused
  · split at refused
    · cases refused
      exact ⟨rfl, List.mem_cons_of_mem _ List.mem_cons_self⟩
    · cases refused
  · cases refused
    exact ⟨rfl, List.mem_cons_self⟩

theorem begin_dict_refuses : Refuses [.typeMismatch "begin"] beginDict := by
  intro below operands refusal refused
  simp only [beginDict] at refused
  split at refused
  · cases refused
  · cases refused
    exact ⟨rfl, List.mem_cons_self⟩

theorem define_refuses : Refuses [.typeMismatch "def"] define := by
  intro below operands refusal refused
  simp only [define] at refused
  split at refused
  · cases refused
  · cases refused
    exact ⟨rfl, List.mem_cons_self⟩

theorem if_true_refuses : Refuses [.typeMismatch "if"] ifTrue := by
  intro below operands refusal refused
  simp only [ifTrue] at refused
  split at refused
  · cases refused
  · cases refused
    exact ⟨rfl, List.mem_cons_self⟩

theorem if_else_refuses : Refuses [.typeMismatch "ifelse"] ifElse := by
  intro below operands refusal refused
  simp only [ifElse] at refused
  split at refused
  · cases refused
  · cases refused
    exact ⟨rfl, List.mem_cons_self⟩

theorem for_loop_refuses : Refuses [.typeMismatch "for", .outOfRange "for"] forLoop := by
  intro below operands refusal refused
  simp only [forLoop] at refused
  split at refused
  · split at refused
    · cases refused
    · cases refused
      exact ⟨rfl, List.mem_cons_of_mem _ List.mem_cons_self⟩
  · cases refused
    exact ⟨rfl, List.mem_cons_self⟩

theorem repeat_loop_refuses : Refuses [.typeMismatch "repeat", .outOfRange "repeat"] repeatLoop := by
  intro below operands refusal refused
  simp only [repeatLoop] at refused
  split at refused
  · split at refused
    · cases refused
      exact ⟨rfl, List.mem_cons_of_mem _ List.mem_cons_self⟩
    · split at refused <;> cases refused
  · cases refused
    exact ⟨rfl, List.mem_cons_self⟩

theorem exec_refuses : Refuses [.typeMismatch "exec"] exec := by
  intro below operands refusal refused
  simp only [exec] at refused
  split at refused
  · cases refused
  · cases refused
    exact ⟨rfl, List.mem_cons_self⟩

theorem print_refuses : Refuses [.typeMismatch "print"] print := by
  intro below operands refusal refused
  simp only [print] at refused
  split at refused
  · cases refused
  · cases refused
    exact ⟨rfl, List.mem_cons_self⟩

end Action

def GivesBack (act : Stack → List Value → Except Refusal (Stack × Deed)) : Prop :=
  ∀ below operands refusal, act below operands = .error refusal → refusal.operands = operands

theorem values_gives_back (name : String) (needed : Nat) (results : List Value → Except Error (List Value)) :
    GivesBack (Rule.values name needed results).apply := by
  intro below operands refusal refused
  simp only [Rule.apply] at refused
  split at refused
  · cases refused
  · cases refused
    rfl

theorem changes_gives_back (change : Stack → Except Error Stack) : GivesBack (Rule.changes change).apply := by
  intro below operands refusal refused
  simp only [Rule.apply] at refused
  split at refused
  · cases refused
  · cases refused
    rfl

theorem acts_gives_back (faults : List Error) (name : String) (needed : Nat)
    (act : Stack → List Value → Except Refusal (Stack × Deed)) (refuses : Refuses faults act) :
    GivesBack (Rule.acts name needed act).apply :=
  fun below operands refusal refused => (refuses below operands refusal refused).1

theorem rule_gives_back (op : Operator) : GivesBack op.rule.apply := by
  cases op with
  | copy => exact acts_gives_back _ _ _ _ Action.copy_refuses
  | dict => exact acts_gives_back _ _ _ _ Action.dict_refuses
  | beginDict => exact acts_gives_back _ _ _ _ Action.begin_dict_refuses
  | define => exact acts_gives_back _ _ _ _ Action.define_refuses
  | ifTrue => exact acts_gives_back _ _ _ _ Action.if_true_refuses
  | ifElse => exact acts_gives_back _ _ _ _ Action.if_else_refuses
  | forLoop => exact acts_gives_back _ _ _ _ Action.for_loop_refuses
  | repeatLoop => exact acts_gives_back _ _ _ _ Action.repeat_loop_refuses
  | exec => exact acts_gives_back _ _ _ _ Action.exec_refuses
  | print => exact acts_gives_back _ _ _ _ Action.print_refuses
  | exch | dup => exact changes_gives_back _
  | clear | count | endDict | quit | printStack | changeScoping | lexical | dynamic =>
      intro below operands refusal refused
      cases refused
  | _ => exact values_gives_back _ _ _

theorem perform_underflow (op : Operator) (s : Stack) (few : s.count < op.arity) :
    s.perform op = .error (.stackUnderflow op.name op.arity s.count, s) :=
  op.rule.demands_few op.name op.arity s (rule_demands op) few

theorem perform_operands (op : Operator) (below : Stack) (operands : List Value) (length : operands.length = op.arity) :
    (below.pushAll operands).perform op =
      (op.rule.apply below operands).mapError fun refusal => (refusal.error, below.pushAll refusal.operands) :=
  op.rule.demands_enough op.name op.arity below operands (rule_demands op) length

theorem perform_ok_iff (op : Operator) (s after : Stack) (deed : Deed) :
    s.perform op = .ok (after, deed) ↔ ∃ operands below, operands.length = op.arity ∧
      s = below.pushAll operands ∧ op.rule.apply below operands = .ok (after, deed) := by
  constructor
  · intro performed
    rcases Nat.lt_or_ge s.count op.arity with few | enough
    · rw [perform_underflow op s few] at performed
      cases performed
    · obtain ⟨operands, below, length, rfl⟩ := Stack.operands_below op.arity s enough
      rw [perform_operands op below operands length] at performed
      refine ⟨operands, below, length, rfl, ?_⟩
      cases applied : op.rule.apply below operands with
      | ok result =>
          rw [applied] at performed
          cases performed
          rfl
      | error refusal =>
          rw [applied] at performed
          cases performed
  · rintro ⟨operands, below, length, rfl, applied⟩
    rw [perform_operands op below operands length, applied]
    rfl

theorem perform_error_cases (op : Operator) (s after : Stack) (error : Error)
    (failed : s.perform op = .error (error, after)) :
    (s.count < op.arity ∧ error = .stackUnderflow op.name op.arity s.count ∧ after = s) ∨
      ∃ operands below refusal, operands.length = op.arity ∧ s = below.pushAll operands ∧
        op.rule.apply below operands = .error refusal ∧ error = refusal.error ∧
        after = below.pushAll refusal.operands := by
  rcases Nat.lt_or_ge s.count op.arity with few | enough
  · rw [perform_underflow op s few] at failed
    cases failed
    exact .inl ⟨few, rfl, rfl⟩
  · obtain ⟨operands, below, length, rfl⟩ := Stack.operands_below op.arity s enough
    rw [perform_operands op below operands length] at failed
    cases applied : op.rule.apply below operands with
    | ok result =>
        rw [applied] at failed
        cases failed
    | error refusal =>
        rw [applied] at failed
        cases failed
        exact .inr ⟨operands, below, refusal, length, rfl, applied, rfl, rfl⟩

theorem stack_perform_error (op : Operator) (s after : Stack) (error : Error)
    (failed : s.perform op = .error (error, after)) : after = s := by
  rcases perform_error_cases op s after error failed with
    ⟨_, _, same⟩ | ⟨operands, below, refusal, _, same, refused, _, rfl⟩
  · exact same
  · rw [rule_gives_back op below operands refusal refused, same]

theorem machine_perform_refused (op : Operator) (m after : Machine) (error : Error)
    (failed : m.perform op = .error (error, after)) :
    ∃ stack, m.stack.perform op = .error (error, stack) ∧ after = { m with stack := stack } := by
  rw [Machine.perform] at failed
  split at failed
  · cases failed
  · rename_i reason stack refused
    cases failed
    exact ⟨stack, refused, rfl⟩

theorem machine_perform_error (op : Operator) (m after : Machine) (error : Error)
    (failed : m.perform op = .error (error, after)) : after = m := by
  obtain ⟨stack, refused, rfl⟩ := machine_perform_refused op m after error failed
  rw [stack_perform_error op m.stack stack error refused]

end MiniPostScript
