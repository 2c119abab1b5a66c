import MiniPostScript.Proofs.Run.Lockstep
import MiniPostScript.Proofs.Run.Recursion

set_option autoImplicit false

namespace MiniPostScript

namespace Run

def Unrefused (r : Run) : Prop := ∀ limit, .reported (.nestingLimit limit) ∉ r.notices

def raise (limit : Nat) (r : Run) : Run := { r with limit := limit }

theorem unrefused_earlier (r s : Run) (later : r.notices <:+ s.notices) (unrefused : s.Unrefused) :
    r.Unrefused :=
  fun limit reported => unrefused limit (later.subset reported)

theorem enter_raise (entry : Entry) (source : String) (passes : Passes) (limit : Nat) (r : Run)
    (higher : r.limit ≤ limit) (unrefused : (r.enter entry source passes).Unrefused) :
    (r.raise limit).enter entry source passes = (r.enter entry source passes).raise limit := by
  by_cases full : r.limit ≤ r.depth
  · rw [enter, if_pos full] at unrefused
    exact absurd List.mem_cons_self (unrefused r.limit)
  · have room : ¬ (r.raise limit).limit ≤ (r.raise limit).depth :=
      fun reaches => full (Nat.le_trans higher reaches)
    rw [enter, enter, if_neg full, if_neg room]
    rfl

theorem execute_raise (token : String) (limit : Nat) (r : Run) (higher : r.limit ≤ limit)
    (unrefused : (r.execute token).Unrefused) :
    (r.raise limit).execute token = (r.execute token).raise limit := by
  -- The limit has no part in what a token stands for.
  have same : (r.raise limit).task token = r.task token := rfl
  rw [execute_task] at unrefused
  rw [execute_task, execute_task, same]
  cases task : r.task token with
  | settled after told => rfl
  | entering after entry source passes =>
      rw [task] at unrefused
      exact enter_raise entry source passes limit { r with machine := after } higher unrefused

theorem step_raise (limit : Nat) (r : Run) (higher : r.limit ≤ limit) (unrefused : r.step.Unrefused) :
    (r.raise limit).step = r.step.raise limit := by
  refine step_abreast (fun r s => r.Unrefused → s = r.raise limit) r (r.raise limit)
    (same_abreast r (r.raise limit) rfl rfl) (fun _ => rfl) ?_ ?_ ?_ unrefused
  · intro entry entry' left body passes rest next xs ys pending pending' _
    obtain ⟨same, rfl⟩ := List.cons.inj (pending.symm.trans pending')
    obtain ⟨rfl, _⟩ := Activity.mk.inj same
    rfl
  · intro token xs ys next before now
    have earlier := unrefused_earlier _ _ (execute_notices token { r with pending := xs }) now
    rw [before earlier]
    exact execute_raise token limit { r with pending := xs } higher now
  · intro _
    exact leave_mapped (raise limit) r fun _ _ _ => rfl

theorem finish_raise (limit : Nat) (r : Run) (higher : r.limit ≤ limit)
    (unrefused : r.finish.Unrefused) : (r.raise limit).finish = r.finish.raise limit := by
  induction r using run_induction with
  | idle r none =>
      have still : (r.raise limit).pending = [] := none
      rw [finish_idle r none, finish_idle _ still]
  | busy r some ih =>
      rw [← finish_step] at unrefused
      have now := unrefused_earlier r.step _ (finish_notices r.step) unrefused
      have later := ih (by rwa [step_limit]) unrefused
      rw [← finish_step, step_raise limit r higher now, later, finish_step]

theorem limit_only_cuts_off (line : String) (limit : Nat) (r : Run) (higher : r.limit ≤ limit)
    (unrefused : ∀ cut, .reported (.nestingLimit cut) ∉ (r.begin line).finish.notices) :
    let low := (r.begin line).finish
    let high := ((r.raise limit).begin line).finish
    high.notices = low.notices ∧ high.machine = low.machine ∧ high.depth = low.depth ∧
      high.homes = low.homes := by
  intro low high
  have raised : high = low.raise limit := finish_raise limit (r.begin line) higher unrefused
  rw [raised]
  exact ⟨rfl, rfl, rfl, rfl⟩

def nestingMachine : Machine :=
  ⟨.empty, .ofGlobal (.ofList 0 [("f", .block "g x"), ("g", .block "x y"), ("x", .name "z")]), .lexical, false⟩

theorem nested_within_limit :
    let r : Run := ⟨2, nestingMachine, [], 0, [], []⟩
    (r.begin "f").finish.notices = [.reported (.undefined "y")] ∧
      ((r.raise 5).begin "f").finish.notices = (r.begin "f").finish.notices ∧
      ((r.raise 5).begin "f").finish.machine = (r.begin "f").finish.machine := by
  intro r
  have ends : (r.begin "f").finish = step^[8] (r.begin "f") :=
    finish_at 8 _ (by decide +kernel)
  have told : (r.begin "f").finish.notices = [.reported (.undefined "y")] := by
    rw [ends]
    decide +kernel
  obtain ⟨notices, machine, _⟩ := limit_only_cuts_off "f" 5 r (by decide) (by simp [told])
  exact ⟨told, notices, machine⟩

end Run

end MiniPostScript
