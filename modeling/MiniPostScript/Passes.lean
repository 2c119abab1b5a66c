import MiniPostScript.Number.Integer

set_option autoImplicit false

namespace MiniPostScript

-- How often a body runs again after the pass in hand.
inductive Passes where
  | times (more : Nat)
  | counting (counter last step : Integer) (moves : step.toInt ≠ 0)
deriving DecidableEq

namespace Passes

def within (counter last step : Integer) : Bool :=
  if 0 < step.toInt then counter.toInt ≤ last.toInt else last.toInt ≤ counter.toInt

-- The passes after the next one, if there is a next one. A counter that would leave the range of
-- integers has gone past its last value.
def next? : Passes → Option Passes
  | .times 0 => none
  | .times (more + 1) => some (.times more)
  | .counting counter last step moves =>
      match Integer.ofInt? (counter.toInt + step.toInt) with
      | none => none
      | some counter =>
          if within counter last step then some (.counting counter last step moves) else none

def remaining : Passes → Nat
  | .times more => more
  | .counting counter last step _ =>
      if 0 < step.toInt then (last.toInt - counter.toInt).toNat else (counter.toInt - last.toInt).toNat

theorem next_remaining (passes next : Passes) (found : passes.next? = some next) :
    next.remaining < passes.remaining := by
  cases passes with
  | times more =>
      cases more with
      | zero => cases found
      | succ more =>
          obtain rfl := Option.some.inj found
          exact Nat.lt_succ_self more
  | counting counter last step moves =>
      simp only [next?] at found
      split at found
      · cases found
      · rename_i moved fits
        have moves_on := (Integer.of_int_some_iff _ _).mp fits
        split at found
        · rename_i inside
          obtain rfl := Option.some.inj found
          simp only [remaining]
          simp only [within] at inside
          by_cases up : 0 < step.toInt
          · simp only [if_pos up, decide_eq_true_eq] at inside ⊢
            omega
          · simp only [if_neg up, decide_eq_true_eq] at inside ⊢
            omega
        · cases found

end Passes

end MiniPostScript
