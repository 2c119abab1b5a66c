import MiniPostScript.Proofs.Run.Call
import MiniPostScript.Proofs.Run.Nesting

set_option autoImplicit false

namespace MiniPostScript

namespace Run

-- Takes up a line of input. The depth and the homes are those that the line before has left.
def begin (line : String) (r : Run) : Run :=
  { r with pending := [⟨.line, tokens line, tokens line, .times 0⟩], notices := [] }

def callNamed (source : String) (home : FrameId) (r : Run) : Outcome :=
  let called := { r with homes := home :: r.homes }.callBlock .block source (.times 0)
  ⟨called.error?, { called.after with homes := called.after.homes.tail }⟩

-- Runs a loop. Every pass is a call of its own, so every pass could be refused.
def callPasses (source : String) (passes : Passes) (r : Run) : Outcome :=
  let first := r.callBlock .block source (.times 0)
  if first.error?.isSome || first.after.machine.halted then first
  else match _more : passes.next? with
    | none => first
    | some next => first.after.callPasses source next
termination_by passes.remaining
decreasing_by exact Passes.next_remaining _ _ _more

def callValue (value : Value) (home : FrameId) (r : Run) : Outcome :=
  match value with
  | .operator op => r.callOperator op
  | .block source =>
      match r.machine.scoping with
      | .dynamic => r.callBlock .block source (.times 0)
      | .lexical => r.callBlock (.named home) source (.times 0)
  | value => ⟨none, r.push value⟩

def callDispatch (name : String) (r : Run) : Outcome :=
  match r.lookup name with
  | none => ⟨some (.undefined name), r⟩
  | some (value, home) => r.callValue value home

def callToken (token : String) (r : Run) : Outcome :=
  match constant? token with
  | some value => ⟨none, r.push value⟩
  | none => r.callDispatch token

def callTokens : List String → Run → Run
  | [], r => r
  | token :: rest, r =>
      if r.machine.halted then r else callTokens rest (r.callToken token).settle

structure Restored (before after : Run) : Prop where
  limit : after.limit = before.limit
  pending : after.pending = before.pending
  depth : after.depth = before.depth
  homes : after.homes = before.homes

theorem restored_refl (r : Run) : Restored r r := ⟨rfl, rfl, rfl, rfl⟩

theorem restored_trans (r s t : Run) (first : Restored r s) (second : Restored s t) : Restored r t where
  limit := second.limit.trans first.limit
  pending := second.pending.trans first.pending
  depth := second.depth.trans first.depth
  homes := second.homes.trans first.homes

theorem settle_restored (r : Run) (outcome : Outcome) (restored : Restored r outcome.after) :
    Restored r outcome.settle := by
  obtain ⟨error?, after⟩ := outcome
  cases error? with
  | none => exact restored
  | some error => exact ⟨restored.limit, restored.pending, restored.depth, restored.homes⟩

theorem step_limit (r : Run) : r.step.limit = r.limit := by
  cases r.move with
  | idle idle same => rw [same]
  | token activity outer token rest pending runs left same =>
      rw [same]
      cases execute_grows token (r.shorten activity rest outer) with
      | stays limit _ _ _ => exact limit
      | enters _ limit _ _ _ _ _ => exact limit
  | again activity outer passes pending runs spent more same => rw [same]
  | leave activity outer pending ended same => rw [same, leave_limit]

theorem finish_limit (r : Run) : r.finish.limit = r.limit := by
  induction r using run_induction with
  | idle r none => rw [finish_idle r none]
  | busy r some ih => rw [← finish_step, ih, step_limit]

theorem finish_nested (depth : Nat) (homes : List FrameId) (r : Run) (nested : Nested depth homes r) :
    r.finish.depth = depth ∧ r.finish.homes = homes := by
  obtain ⟨n, reached⟩ := finish_reached r
  have ends := iterate_nested depth homes n r nested
  rw [reached] at ends
  have none : r.finish.entries = [] := by rw [entries, finish_pending r]; rfl
  have depths := ends.depth
  have homes' := ends.homes
  rw [none] at depths homes'
  exact ⟨by simpa using depths, by simpa using homes'⟩

def inside (entry : Entry) (r : Run) : Run :=
  { r with pending := [], depth := r.depth + 1, homes := entry.home?.toList ++ r.homes }

theorem enter_alone (entry : Entry) (source : String) (passes : Passes) (r : Run)
    (room : ¬ r.limit ≤ r.depth) :
    r.alone.enter entry source passes =
      (r.inside entry).onTop [⟨entry, tokens source, tokens source, passes⟩] := by
  have alone : ¬ r.alone.limit ≤ r.alone.depth := room
  rw [enter, if_neg alone]
  rfl

theorem call_block_restored (entry : Entry) (source : String) (passes : Passes) (r : Run)
    (block : entry.isBlock = true) : Restored r (r.callBlock entry source passes).after := by
  by_cases full : r.limit ≤ r.depth
  · rw [callBlock, if_pos full]
    exact restored_refl r
  · have nested : Nested r.depth r.homes
        ((r.inside entry).onTop [⟨entry, tokens source, tokens source, passes⟩]) := by
      refine ⟨?_, ?_⟩
      · simp [entries, inside, onTop, block, Nat.add_comm]
      · cases entry <;> rfl
    obtain ⟨depth, homes⟩ := finish_nested r.depth r.homes _ nested
    rw [callBlock, if_neg full, enter_alone entry source passes r full]
    refine ⟨finish_limit _, ?_, depth, homes⟩
    simp only [onTop, finish_pending, List.nil_append]

theorem call_operator_restored (op : Operator) (r : Run) : Restored r (r.callOperator op).after := by
  rw [callOperator]
  cases r.machine.perform op with
  | error failure => exact ⟨rfl, rfl, rfl, rfl⟩
  | ok effect =>
      cases effect with
      | done after shown => exact ⟨rfl, rfl, rfl, rfl⟩
      | run after source passes =>
          have called := call_block_restored .block source passes { r with machine := after } rfl
          exact ⟨called.limit, called.pending, called.depth, called.homes⟩

theorem call_named_restored (source : String) (home : FrameId) (r : Run) :
    Restored r (r.callNamed source home).after := by
  have called := call_block_restored .block source (.times 0) { r with homes := home :: r.homes } rfl
  refine ⟨called.limit, called.pending, called.depth, ?_⟩
  rw [callNamed, called.homes]
  rfl

theorem call_value_restored (value : Value) (home : FrameId) (r : Run) :
    Restored r (r.callValue value home).after := by
  cases value with
  | operator op => exact call_operator_restored op r
  | block source =>
      simp only [callValue]
      split <;> exact call_block_restored _ source (.times 0) r rfl
  | _ => exact ⟨rfl, rfl, rfl, rfl⟩

theorem call_dispatch_restored (name : String) (r : Run) : Restored r (r.callDispatch name).after := by
  rw [callDispatch]
  cases r.lookup name with
  | none => exact restored_refl r
  | some found => exact call_value_restored found.1 found.2 r

theorem call_token_restored (token : String) (r : Run) : Restored r (r.callToken token).after := by
  rw [callToken]
  cases constant? token with
  | some value => exact ⟨rfl, rfl, rfl, rfl⟩
  | none => exact call_dispatch_restored token r

theorem call_tokens_halted (tokens : List String) (r : Run) (halted : r.machine.halted = true) :
    r.callTokens tokens = r := by
  cases tokens with
  | nil => rfl
  | cons token rest => rw [callTokens, if_pos halted]

theorem call_tokens_cons (token : String) (rest : List String) (r : Run) (runs : r.machine.halted = false) :
    r.callTokens (token :: rest) = (r.callToken token).settle.callTokens rest := by
  simp [callTokens, runs]

theorem call_tokens_restored (tokens : List String) (r : Run) : Restored r (r.callTokens tokens) := by
  induction tokens generalizing r with
  | nil => exact restored_refl r
  | cons token rest ih =>
      cases halted : r.machine.halted with
      | true =>
          rw [call_tokens_halted _ r halted]
          exact restored_refl r
      | false =>
          rw [call_tokens_cons token rest r halted]
          exact restored_trans r _ _ (settle_restored r _ (call_token_restored token r)) (ih _)

theorem call_tokens_append (tokens later : List String) (r : Run) :
    r.callTokens (tokens ++ later) = (r.callTokens tokens).callTokens later := by
  induction tokens generalizing r with
  | nil => rfl
  | cons token rest ih =>
      cases halted : r.machine.halted with
      | true => rw [call_tokens_halted _ r halted, call_tokens_halted _ r halted, call_tokens_halted _ r halted]
      | false => rw [List.cons_append, call_tokens_cons _ _ r halted, call_tokens_cons _ _ r halted, ih]

def close (entry : Entry) (r : Run) : Run :=
  match entry with
  | .line => r
  | .block => { r with depth := r.depth - 1 }
  | .named _ => { r with depth := r.depth - 1, homes := r.homes.tail }

theorem leave_last (activity : Activity) (r : Run) (idle : r.pending = []) :
    (r.onTop [activity]).leave = r.close activity.entry := by
  obtain ⟨limit, machine, pending, depth, homes, notices⟩ := r
  obtain ⟨entry, rest, body, passes⟩ := activity
  obtain rfl : pending = [] := idle
  cases entry <;> rfl

theorem close_idle (entry : Entry) (r : Run) (idle : r.pending = []) : (r.close entry).pending = [] := by
  cases entry <;> exact idle

theorem last_finish (activity : Activity) (r : Run) (idle : r.pending = [])
    (ended : r.machine.halted = true ∨ activity.rest = [] ∧ activity.passes.next? = none) :
    (r.onTop [activity]).finish = r.close activity.entry := by
  have pending : (r.onTop [activity]).pending = [activity] := by simp [onTop, idle]
  have machine : (r.onTop [activity]).machine = r.machine := rfl
  have leaves : (r.onTop [activity]).step = r.close activity.entry := by
    rw [← leave_last activity r idle]
    rcases ended with halted | ⟨spent, last⟩
    · simp [step, pending, machine, halted]
    · simp [step, pending, machine, spent, last]
  rw [← finish_step, leaves, finish_idle _ (close_idle activity.entry r idle)]

theorem call_value_reached (value : Value) (home : FrameId) (r : Run) :
    ∃ n, step^[n] (r.evaluate value home) = (r.callValue value home).settle := by
  cases value with
  | operator op => exact call_operator_reached op r
  | block source =>
      simp only [evaluate, enterNamed, callValue]
      cases r.machine.scoping <;> exact call_block_reached _ source (.times 0) r
  | _ => exact ⟨0, rfl⟩

theorem call_dispatch_reached (name : String) (r : Run) :
    ∃ n, step^[n] (r.dispatch name) = (r.callDispatch name).settle := by
  rw [dispatch, callDispatch]
  cases r.lookup name with
  | none => exact ⟨0, rfl⟩
  | some found => exact call_value_reached found.1 found.2 r

theorem call_token_reached (token : String) (r : Run) :
    ∃ n, step^[n] (r.execute token) = (r.callToken token).settle := by
  rw [execute, callToken]
  cases constant? token with
  | some value => exact ⟨0, rfl⟩
  | none => exact call_dispatch_reached token r

theorem call_token_finish (token : String) (r : Run) (idle : r.pending = []) :
    (r.execute token).finish = (r.callToken token).settle := by
  obtain ⟨n, reached⟩ := call_token_reached token r
  have restored := settle_restored r _ (call_token_restored token r)
  rw [← finish_iterate n, reached, finish_idle _ (restored.pending.trans idle)]

theorem pass_finish (entry : Entry) (rest body : List String) (passes : Passes) (r : Run)
    (idle : r.pending = []) :
    ∃ left, ((r.callTokens rest).machine.halted = true ∨ left = []) ∧
      (r.onTop [⟨entry, rest, body, passes⟩]).finish =
        ((r.callTokens rest).onTop [⟨entry, left, body, passes⟩]).finish := by
  induction rest generalizing r with
  | nil => exact ⟨[], .inr rfl, rfl⟩
  | cons token rest ih =>
      cases halted : r.machine.halted with
      | true =>
          rw [call_tokens_halted _ r halted]
          exact ⟨token :: rest, .inl halted, rfl⟩
      | false =>
          have restored := settle_restored r _ (call_token_restored token r)
          obtain ⟨left, ended, same⟩ := ih (r.callToken token).settle (restored.pending.trans idle)
          rw [call_tokens_cons token rest r halted]
          refine ⟨left, ended, ?_⟩
          rw [← same, ← call_token_finish token r idle]
          obtain ⟨n, reached⟩ := finish_on_top_reached [⟨entry, rest, body, passes⟩] (r.execute token)
          rw [← reached, finish_iterate, ← execute_on_top, ← finish_step]
          have pending : (r.onTop [⟨entry, token :: rest, body, passes⟩]).pending =
              [⟨entry, token :: rest, body, passes⟩] := by simp [onTop, idle]
          have machine : (r.onTop [⟨entry, token :: rest, body, passes⟩]).machine.halted = false := halted
          simp only [step, pending, machine]
          simp [onTop, idle]

theorem last_pass_finish (entry : Entry) (rest body : List String) (passes : Passes) (r : Run)
    (idle : r.pending = [])
    (ended : (r.callTokens rest).machine.halted = true ∨ passes.next? = none) :
    (r.onTop [⟨entry, rest, body, passes⟩]).finish = (r.callTokens rest).close entry := by
  obtain ⟨left, spent, same⟩ := pass_finish entry rest body passes r idle
  rw [same]
  refine last_finish _ _ ((call_tokens_restored rest r).pending.trans idle) ?_
  rcases spent with halted | spent
  · exact .inl halted
  · exact ended.imp_right fun last => ⟨spent, last⟩

theorem next_pass_finish (entry : Entry) (rest body : List String) (passes next : Passes) (r : Run)
    (idle : r.pending = []) (runs : (r.callTokens rest).machine.halted = false)
    (more : passes.next? = some next) :
    (r.onTop [⟨entry, rest, body, passes⟩]).finish =
      ((r.callTokens rest).onTop [⟨entry, body, body, next⟩]).finish := by
  obtain ⟨left, spent, same⟩ := pass_finish entry rest body passes r idle
  obtain rfl : left = [] := spent.resolve_left (by simp [runs])
  have idle' : (r.callTokens rest).pending = [] := (call_tokens_restored rest r).pending.trans idle
  rw [same, ← finish_step]
  simp [step, onTop, idle', runs, more]

theorem line_finish (line : String) (r : Run) :
    (r.begin line).finish = { r with pending := [], notices := [] }.callTokens (tokens line) :=
  last_pass_finish .line _ _ (.times 0) { r with pending := [], notices := [] } rfl (.inr rfl)

theorem call_block_body (entry : Entry) (source : String) (r : Run) (room : ¬ r.limit ≤ r.depth) :
    r.callBlock entry source (.times 0) =
      ⟨none, (((r.inside entry).callTokens (tokens source)).close entry).onTop r.pending⟩ := by
  rw [callBlock, if_neg room, enter_alone entry source (.times 0) r room,
    last_pass_finish entry _ _ (.times 0) (r.inside entry) rfl (.inr rfl)]

theorem call_named (source : String) (home : FrameId) (r : Run) :
    r.callNamed source home = r.callBlock (.named home) source (.times 0) := by
  by_cases full : r.limit ≤ r.depth
  · have fullHome : { r with homes := home :: r.homes }.limit ≤ { r with homes := home :: r.homes }.depth := full
    rw [callNamed, callBlock, callBlock, if_pos full, if_pos fullHome]
    rfl
  · rw [callNamed, call_block_body .block source { r with homes := home :: r.homes } full,
      call_block_body (.named home) source r full]
    rfl

theorem call_block_last (source : String) (passes : Passes) (r : Run)
    (ended : (r.callBlock .block source (.times 0)).after.machine.halted = true ∨ passes.next? = none) :
    r.callBlock .block source passes = r.callBlock .block source (.times 0) := by
  by_cases full : r.limit ≤ r.depth
  · rw [callBlock, callBlock, if_pos full, if_pos full]
  · rw [call_block_body .block source r full] at ended ⊢
    rw [callBlock, if_neg full, enter_alone .block source passes r full,
      last_pass_finish .block _ _ passes (r.inside .block) rfl ended]

-- A further pass finds the same room as the first one, because the depth has been put back.
theorem call_block_next (source : String) (passes next : Passes) (r : Run) (room : ¬ r.limit ≤ r.depth)
    (runs : (r.callBlock .block source (.times 0)).after.machine.halted = false)
    (more : passes.next? = some next) :
    r.callBlock .block source passes =
      (r.callBlock .block source (.times 0)).after.callBlock .block source next := by
  rw [call_block_body .block source r room] at runs ⊢
  have restored := call_tokens_restored (tokens source) (r.inside .block)
  generalize within : (r.inside .block).callTokens (tokens source) = inner at runs restored ⊢
  have deep : inner.depth - 1 + 1 = inner.depth := by rw [restored.depth]; rfl
  have again : (((inner.close .block).onTop r.pending).inside .block) = inner := by
    obtain ⟨limit, machine, pending, depth, homes, notices⟩ := inner
    obtain rfl : pending = [] := restored.pending
    simp only [inside, close, onTop, deep, Entry.home?, Option.toList_none, List.nil_append]
  have room' : ¬ ((inner.close .block).onTop r.pending).limit ≤ ((inner.close .block).onTop r.pending).depth := by
    simpa only [onTop, close, restored.limit, restored.depth, inside, Nat.add_sub_cancel] using room
  have pending : ((inner.close .block).onTop r.pending).pending = r.pending := by
    simp only [onTop, close, restored.pending, inside, List.nil_append]
  rw [callBlock, callBlock, if_neg room, if_neg room', enter_alone .block source passes r room,
    enter_alone .block source next _ room', again, pending,
    next_pass_finish .block _ _ passes next (r.inside .block) rfl (by rw [within]; exact runs) more, within]

theorem call_passes (source : String) (passes : Passes) (r : Run) :
    r.callPasses source passes = r.callBlock .block source passes := by
  fun_induction callPasses source passes r with
  | case1 passes r first ended =>
      by_cases full : r.limit ≤ r.depth
      · simp only [first, callBlock, if_pos full]
      · have accepted : first.error? = none := by simp only [first, callBlock, if_neg full]
        refine (call_block_last source passes r (.inl ?_)).symm
        simpa [accepted] using ended
  | case2 passes r first goes last => exact (call_block_last source passes r (.inr last)).symm
  | case3 passes r first goes next more ih =>
      by_cases full : r.limit ≤ r.depth
      · simp [first, callBlock, full] at goes
      · rw [ih]
        refine (call_block_next source passes next r full ?_ more).symm
        simp only [Bool.or_eq_true, not_or, Bool.not_eq_true] at goes
        exact goes.2

end Run

end MiniPostScript
