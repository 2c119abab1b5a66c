import MiniPostScript.Proofs.Run.Nesting
import MiniPostScript.Proofs.Run.Task

set_option autoImplicit false

namespace MiniPostScript

namespace Run

def ahead (r : Run) : List String := r.pending.flatMap fun activity => activity.rest ++ activity.body

theorem enter_ahead (entry : Entry) (source : String) (passes : Passes) (r : Run) (token : String)
    (member : token ∈ (r.enter entry source passes).ahead) : token ∈ r.ahead ∨ token ∈ tokens source := by
  by_cases full : r.limit ≤ r.depth
  · rw [enter, if_pos full] at member
    exact .inl member
  · rw [enter, if_neg full, ahead, List.flatMap_cons] at member
    rcases List.mem_append.mp member with new | old
    · exact .inr ((List.mem_append.mp new).elim id id)
    · exact .inl old

theorem leave_ahead (r : Run) : r.leave.ahead ⊆ r.ahead := by
  intro token member
  rw [ahead, leave_pending] at member
  obtain ⟨activity, outer, has⟩ := List.mem_flatMap.mp member
  exact List.mem_flatMap.mpr ⟨activity, List.mem_of_mem_tail outer, has⟩

theorem step_ahead (r : Run) (token : String) (member : token ∈ r.step.ahead) :
    token ∈ r.ahead ∨ ∃ source, token ∈ tokens source := by
  cases r.move with
  | idle idle same => exact .inl (same ▸ member)
  | token activity outer first rest pending runs left same =>
      have shorter : (r.shorten activity rest outer).ahead ⊆ r.ahead := by
        simp only [ahead, shorten, pending, left, List.flatMap_cons]
        exact List.subset_cons_self _ _
      rw [same, execute_task] at member
      cases task : (r.shorten activity rest outer).task first with
      | settled after told =>
          rw [task] at member
          exact .inl (shorter member)
      | entering after entry source passes =>
          rw [task] at member
          rcases enter_ahead entry source passes _ token member with old | new
          · exact .inl (shorter old)
          · exact .inr ⟨source, new⟩
  | again activity outer passes pending runs spent more same =>
      rw [same] at member
      simp only [ahead, pending, spent, List.flatMap_cons, List.nil_append, List.append_assoc] at member ⊢
      exact .inl ((List.mem_append.mp member).elim (List.mem_append_left _) id)
  | leave activity outer pending ended same =>
      rw [same] at member
      exact .inl (leave_ahead r member)

theorem token_ahead (r : Run) (token : String) (next : r.token? = some token) : token ∈ r.ahead := by
  cases pending : r.pending with
  | nil => simp [token?, pending] at next
  | cons activity outer =>
      rw [token?, pending] at next
      by_cases halted : r.machine.halted = true
      · simp [halted] at next
      · simp only [if_neg halted] at next
        simp only [ahead, pending, List.flatMap_cons, List.append_assoc]
        exact List.mem_append_left _ (List.mem_of_head? next)

end Run

end MiniPostScript
