import MiniPostScript.Proofs.Operator.Failure
import MiniPostScript.Proofs.Run.Recursion
import MiniPostScript.Proofs.Value.Typed

set_option autoImplicit false

namespace MiniPostScript

namespace Passes

-- How often a counter comes by, in unbounded integers, on its way from a first value to a last one.
def number (counter last step : Int) : Nat := ((last - counter).fdiv step + 1).toNat

def all (passes : Passes) : List Passes :=
  passes :: match _more : passes.next? with
    | none => []
    | some next => next.all
termination_by passes.remaining
decreasing_by exact next_remaining _ _ _more

theorem all_last (passes : Passes) (last : passes.next? = none) : passes.all = [passes] := by
  rw [all]
  split
  · rfl
  · rename_i next more
    cases last.symm.trans more

theorem all_more (passes next : Passes) (more : passes.next? = some next) : passes.all = passes :: next.all := by
  rw [all]
  split
  · rename_i last
    cases last.symm.trans more
  · rename_i other same
    obtain rfl := Option.some.inj (same.symm.trans more)
    rfl

theorem all_some (passes : Passes) : 0 < passes.all.length := by
  rw [all]
  exact Nat.succ_pos _

theorem all_single (passes : Passes) : passes.all.length = 1 ↔ passes.next? = none := by
  cases more : passes.next? with
  | none => simp [all_last passes more]
  | some next => simp [all_more passes next more, Nat.ne_of_gt next.all_some]

theorem number_next (counter last step : Int) (moves : step ≠ 0) :
    number (counter + step) last step = number counter last step - 1 := by
  have back : (last - (counter + step)).fdiv step = (last - counter).fdiv step - 1 := by
    rw [← Int.sub_mul_fdiv_right (last - counter) 1 moves]
    congr 1
    omega
  rw [number, number, back]
  omega

theorem number_pos_iff (counter last step : Int) (moves : step ≠ 0) :
    0 < number counter last step ↔ (0 < step ∧ counter ≤ last) ∨ (step < 0 ∧ last ≤ counter) := by
  have reaches : 0 < number counter last step ↔ 0 ≤ (last - counter).fdiv step := by
    rw [number]
    omega
  rw [reaches]
  rcases Int.lt_or_gt_of_ne moves with down | up
  · rw [← Int.neg_fdiv_neg, Int.fdiv_eq_ediv_of_nonneg _ (by omega), Int.ediv_nonneg_iff_of_pos (by omega)]
    omega
  · rw [Int.fdiv_eq_ediv_of_nonneg _ (by omega), Int.ediv_nonneg_iff_of_pos up]
    omega

section

variable (counter last step : Integer) (moves : step.toInt ≠ 0)

include moves

theorem within_iff : within counter last step = true ↔ 0 < number counter.toInt last.toInt step.toInt := by
  rw [number_pos_iff _ _ _ moves, within]
  by_cases up : 0 < step.toInt
  · rw [if_pos up, decide_eq_true_iff]
    omega
  · rw [if_neg up, decide_eq_true_iff]
    omega

theorem counting_last (spent : number counter.toInt last.toInt step.toInt = 1) :
    (counting counter last step moves).next? = none := by
  have ended := number_next counter.toInt last.toInt step.toInt moves
  rw [next?]
  cases moved : Integer.ofInt? (counter.toInt + step.toInt) with
  | none => rfl
  | some next =>
      have exact := (Integer.of_int_some_iff _ next).mp moved
      have beyond : ¬within next last step = true := by
        rw [within_iff next last step moves, exact]
        omega
      simp only [if_neg beyond]

theorem counting_more (n : Nat) (left : number counter.toInt last.toInt step.toInt = n + 2) :
    ∃ next : Integer, next.toInt = counter.toInt + step.toInt ∧
      number next.toInt last.toInt step.toInt = n + 1 ∧
      (counting counter last step moves).next? = some (.counting next last step moves) := by
  have fewer := number_next counter.toInt last.toInt step.toInt moves
  have ahead := (number_pos_iff (counter.toInt + step.toInt) last.toInt step.toInt moves).mp (by omega)
  have low := counter.le_toInt
  have high := counter.toInt_lt
  have lowest := last.le_toInt
  have highest := last.toInt_lt
  obtain ⟨next, exact⟩ := Integer.of_range (counter.toInt + step.toInt) (by omega) (by omega)
  have inside : within next last step = true := by
    rw [within_iff next last step moves, exact]
    omega
  refine ⟨next, exact, by rw [exact]; omega, ?_⟩
  simp only [next?, (Integer.of_int_some_iff _ next).mpr exact, if_pos inside]

theorem counting_all (n : Nat) (counted : number counter.toInt last.toInt step.toInt = n + 1) :
    (counting counter last step moves).all.length = n + 1 ∧
    ∀ (k : Nat) (pass : Passes), (counting counter last step moves).all[k]? = some pass → ∃ now : Integer,
      now.toInt = counter.toInt + k * step.toInt ∧ pass = .counting now last step moves := by
  induction n generalizing counter with
  | zero =>
      rw [all_last _ (counting_last counter last step moves counted)]
      refine ⟨rfl, fun k pass here => ?_⟩
      obtain ⟨rfl, rfl⟩ : k = 0 ∧ pass = .counting counter last step moves := by
        simpa [List.getElem?_singleton, eq_comm] using here
      exact ⟨counter, by simp, rfl⟩
  | succ n ih =>
      obtain ⟨next, exact, left, more⟩ := counting_more counter last step moves n counted
      obtain ⟨length, each⟩ := ih next left
      rw [all_more _ _ more]
      refine ⟨by rw [List.length_cons, length], fun k pass here => ?_⟩
      cases k with
      | zero =>
          obtain rfl := Option.some.inj here
          exact ⟨counter, by simp, rfl⟩
      | succ k =>
          obtain ⟨now, same, is⟩ := each k pass here
          refine ⟨now, ?_, is⟩
          rw [same, exact, Int.natCast_succ, Int.add_mul, Int.one_mul]
          omega

end

theorem times_all (more : Nat) : (times more).all.length = more + 1 := by
  induction more with
  | zero => rw [all_last _ rfl, List.length_singleton]
  | succ more ih => rw [all_more _ (.times more) rfl, List.length_cons, ih]

def counting? (first last step : Integer) (moves : step.toInt ≠ 0) : Option Passes :=
  if within first last step then some (.counting first last step moves) else none

def times? : Nat → Option Passes
  | 0 => none
  | more + 1 => some (.times more)

def count (passes? : Option Passes) : Nat := passes?.elim 0 fun passes => passes.all.length

theorem counting_length (first last step : Integer) (moves : step.toInt ≠ 0) :
    count (counting? first last step moves) = number first.toInt last.toInt step.toInt := by
  have starts := within_iff first last step moves
  by_cases some : 0 < number first.toInt last.toInt step.toInt
  · obtain ⟨more, counted⟩ := Nat.exists_eq_succ_of_ne_zero (Nat.ne_of_gt some)
    rw [counting?, if_pos (starts.mpr some), counted]
    exact (counting_all first last step moves more counted).1
  · rw [counting?, if_neg (mt starts.mp some)]
    exact (Nat.eq_zero_of_not_pos some).symm

theorem times_length (n : Nat) : count (times? n) = n := by
  cases n with
  | zero => rfl
  | succ more => exact times_all more

end Passes

namespace Run

theorem call_block_accepted (source : String) (passes : Passes) (r : Run) (room : ¬r.limit ≤ r.depth) :
    (r.callBlock .block source passes).error? = none ∧
      ¬(r.callBlock .block source passes).after.limit ≤ (r.callBlock .block source passes).after.depth := by
  have restored := call_block_restored .block source passes r rfl
  rw [restored.limit, restored.depth]
  exact ⟨by rw [callBlock, if_neg room], room⟩

theorem call_block_even (source : String) (passes others : Passes) (r : Run)
    (even : passes.all.length = others.all.length) :
    r.callBlock .block source passes = r.callBlock .block source others := by
  by_cases full : r.limit ≤ r.depth
  · rw [call_block_refused .block source passes r full, call_block_refused .block source others r full]
  · cases halted : (r.callBlock .block source (.times 0)).after.machine.halted with
    | true =>
        rw [call_block_last source passes r (.inl halted), call_block_last source others r (.inl halted)]
    | false =>
        cases more : passes.next? with
        | none =>
            have alone := others.all_single.mp (even.symm.trans (passes.all_single.mpr more))
            rw [call_block_last source passes r (.inr more), call_block_last source others r (.inr alone)]
        | some next =>
            cases further : others.next? with
            | none => cases more.symm.trans (passes.all_single.mp (even.trans (others.all_single.mpr further)))
            | some other =>
                rw [Passes.all_more _ _ more, Passes.all_more _ _ further] at even
                rw [call_block_next source passes next r full halted more,
                  call_block_next source others other r full halted further]
                exact call_block_even source next other _ (Nat.succ.inj even)
termination_by passes.remaining
decreasing_by exact Passes.next_remaining _ _ more

-- The block has run so often, each time from where the time before has ended, and never on a halted machine.
inductive Ran (source : String) : Nat → Run → Run → Prop where
  | never (r : Run) : Ran source 0 r r
  | again (n : Nat) (r after : Run) (going : r.machine.halted = false)
      (accepted : (r.callBlock .block source (.times 0)).error? = none)
      (rest : Ran source n (r.callBlock .block source (.times 0)).after after) : Ran source (n + 1) r after

-- How a loop of `n` passes ends that has run its block `k` times.
inductive LoopEnds (n k : Nat) (r : Run) (outcome : Outcome) : Prop where
  | whole (all : k = n) (done : outcome.error? = none)
  | halted (fewer : k < n) (done : outcome.error? = none) (halted : outcome.after.machine.halted = true)
  | refused (never : k = 0) (passes : 0 < n) (full : r.limit ≤ r.depth)
      (failed : outcome = ⟨some (.nestingLimit r.limit), r⟩)

theorem call_block_ran (source : String) (passes : Passes) (r : Run) (going : r.machine.halted = false) :
    ∃ k, Ran source k r (r.callBlock .block source passes).after ∧
      LoopEnds passes.all.length k r (r.callBlock .block source passes) := by
  by_cases full : r.limit ≤ r.depth
  · rw [call_block_refused .block source passes r full]
    exact ⟨0, .never r, .refused rfl passes.all_some full rfl⟩
  · obtain ⟨accepted, room⟩ := call_block_accepted source (.times 0) r full
    have once := Ran.again 0 r _ going accepted (.never _)
    cases more : passes.next? with
    | none =>
        rw [call_block_last source passes r (.inr more)]
        exact ⟨1, once, .whole (passes.all_single.mpr more).symm accepted⟩
    | some next =>
        rw [Passes.all_more _ _ more, List.length_cons]
        cases halted : (r.callBlock .block source (.times 0)).after.machine.halted with
        | true =>
            rw [call_block_last source passes r (.inl halted)]
            exact ⟨1, once, .halted (Nat.succ_lt_succ next.all_some) accepted halted⟩
        | false =>
            obtain ⟨k, ran, ends⟩ := call_block_ran source next _ halted
            rw [call_block_next source passes next r full halted more]
            refine ⟨k + 1, .again k r _ going accepted ran, ?_⟩
            cases ends with
            | whole all done => exact .whole (congrArg Nat.succ all) done
            | halted fewer done halted => exact .halted (Nat.succ_lt_succ fewer) done halted
            | refused never some full failed => exact absurd full room
termination_by passes.remaining
decreasing_by exact Passes.next_remaining _ _ more

def callLoop (source : String) (passes? : Option Passes) (r : Run) : Outcome :=
  match passes? with
  | none => ⟨none, r⟩
  | some passes => if r.machine.halted then ⟨none, r⟩ else r.callBlock .block source passes

theorem call_loop_even (source : String) (passes? others? : Option Passes) (r : Run)
    (even : Passes.count passes? = Passes.count others?) :
    r.callLoop source passes? = r.callLoop source others? := by
  cases passes? with
  | none =>
      cases others? with
      | none => rfl
      | some others => exact absurd even (Nat.ne_of_lt others.all_some)
  | some passes =>
      cases others? with
      | none => exact absurd even (Nat.ne_of_gt passes.all_some)
      | some others =>
          simp only [callLoop]
          rw [call_block_even source passes others r even]

theorem call_loop_ran (source : String) (passes? : Option Passes) (r : Run) :
    ∃ k, Ran source k r (r.callLoop source passes?).after ∧
      LoopEnds (Passes.count passes?) k r (r.callLoop source passes?) := by
  cases passes? with
  | none => exact ⟨0, .never r, .whole rfl rfl⟩
  | some passes =>
      cases halted : r.machine.halted with
      | true =>
          simp only [callLoop, halted, if_true]
          exact ⟨0, .never r, .halted passes.all_some rfl halted⟩
      | false =>
          simp only [callLoop, halted, Bool.false_eq_true, if_false]
          exact call_block_ran source passes r halted

theorem operator_loop (op : Operator) (operands : List Value) (below : Stack) (source : String)
    (passes? : Option Passes) (r : Run) (arity : operands.length = op.arity)
    (stack : r.machine.stack = below.pushAll operands)
    (applies : op.rule.apply below operands = .ok (below, passes?.elim (.display []) (.loop source))) :
    r.callOperator op = { r with machine := { r.machine with stack := below } }.callLoop source passes? := by
  have performed := (perform_ok_iff op r.machine.stack below _).mpr ⟨operands, below, arity, stack, applies⟩
  simp only [callOperator, Machine.perform, performed]
  cases passes? with
  | none => rfl
  | some passes =>
      cases halted : r.machine.halted with
      | true =>
          simp only [Option.elim, Deed.effect, callLoop, if_true]
          rfl
      | false =>
          simp only [Option.elim, Deed.effect, callLoop, Bool.false_eq_true, if_false]

theorem call_for (first last step : Integer) (moves : step.toInt ≠ 0) (source : String) (below : Stack) (r : Run)
    (stack : r.machine.stack = below.pushAll [.integer first, .integer last, .integer step, .block source]) :
    r.callOperator .forLoop =
      { r with machine := { r.machine with stack := below } }.callLoop source
        (Passes.counting? first last step moves) := by
  refine operator_loop .forLoop _ below source _ r rfl stack ?_
  simp only [Operator.rule, Rule.apply, Action.forLoop, dif_pos moves, Passes.counting?]
  by_cases starts : Passes.within first last step = true
  · rw [if_pos starts, if_pos starts, Option.elim_some]
  · rw [if_neg starts, if_neg starts, Option.elim_none]

theorem call_repeat (count : Integer) (n : Nat) (counted : count.toInt = n) (source : String) (below : Stack) (r : Run)
    (stack : r.machine.stack = below.pushAll [.integer count, .block source]) :
    r.callOperator .repeatLoop =
      { r with machine := { r.machine with stack := below } }.callLoop source (Passes.times? n) := by
  have positive : ¬count.toInt < 0 := by omega
  have passes : count.toInt.toNat = n := by omega
  refine operator_loop .repeatLoop _ below source _ r rfl stack ?_
  simp only [Operator.rule, Rule.apply, Action.repeatLoop, if_neg positive, passes]
  cases n with
  | zero => rfl
  | succ more => rfl

-- `for` runs its block as often as counting in unbounded integers gives, and so does what `repeat`
-- does with that number. Only `quit` and the limit on nesting make it fewer.
theorem for_counts (first last step : Integer) (moves : step.toInt ≠ 0) (source : String) (below : Stack) (r : Run)
    (stack : r.machine.stack = below.pushAll [.integer first, .integer last, .integer step, .block source]) :
    let n := Passes.number first.toInt last.toInt step.toInt
    let taken := { r with machine := { r.machine with stack := below } }
    let outcome := r.callOperator .forLoop
    (∃ k, Ran source k taken outcome.after ∧ LoopEnds n k taken outcome) ∧
    (0 < n → (Passes.counting first last step moves).all.length = n ∧
      ∀ (k : Nat) (pass : Passes), (Passes.counting first last step moves).all[k]? = some pass → ∃ now : Integer,
        now.toInt = first.toInt + k * step.toInt ∧ pass = .counting now last step moves) ∧
    (n ≤ 2147483647 → ∃ count : Integer, count.toInt = n ∧ outcome =
      { r with machine := { r.machine with stack := below.pushAll [.integer count, .block source] } }.callOperator
        .repeatLoop) := by
  intro n taken outcome
  have called : outcome = taken.callLoop source (Passes.counting? first last step moves) :=
    call_for first last step moves source below r stack
  have length : Passes.count (Passes.counting? first last step moves) = n :=
    Passes.counting_length first last step moves
  refine ⟨?_, fun some => ?_, fun fits => ?_⟩
  · rw [called, ← length]
    exact call_loop_ran source (Passes.counting? first last step moves) taken
  · obtain ⟨more, counted⟩ := Nat.exists_eq_succ_of_ne_zero (Nat.ne_of_gt some)
    have whole := Passes.counting_all first last step moves more counted
    exact ⟨whole.1.trans counted.symm, whole.2⟩
  · obtain ⟨count, counted⟩ := Integer.of_range n (by omega) (by omega)
    refine ⟨count, counted, ?_⟩
    rw [called, call_repeat count n counted source below _ rfl]
    exact call_loop_even source _ _ taken (length.trans (Passes.times_length n).symm)

theorem counted_to_edge :
    let r := ofOperands 1 [.integer (-2147483648), .integer 2147483647, .integer 2147483647, .block "count"]
    Passes.number (-2147483648) 2147483647 2147483647 = 3 ∧
      r.callOperator .forLoop = (ofOperands 1 [.integer 3, .block "count"]).callOperator .repeatLoop := by
  intro r
  have number : Passes.number (-2147483648) 2147483647 2147483647 = 3 := by decide
  obtain ⟨_, _, alike⟩ := for_counts (-2147483648) 2147483647 2147483647 (by decide) "count" .empty r rfl
  obtain ⟨count, counted, same⟩ := alike (by decide)
  obtain rfl : count = 3 := Int32.toInt_inj.mp counted
  exact ⟨number, same⟩

end Run

end MiniPostScript
