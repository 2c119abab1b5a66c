import MiniPostScript.Proofs.Run.Values

set_option autoImplicit false

namespace MiniPostScript

def Deed.lines : Deed → List String
  | .display lines => lines
  | _ => []

theorem perform_lines (op : Operator) (s stack : Stack) (deed : Deed)
    (performed : s.perform op = .ok (stack, deed)) : s.Shows deed.lines := by
  rcases perform_deed op s stack deed performed with ⟨lines, rfl, shows⟩ | ⟨operands, bids, _⟩
  · exact shows
  · cases bids <;> exact s.shows_nothing

inductive Tells (limit : Nat) (m : Machine) (token : String) : Notice → Prop where
  | undefined : Tells limit m token (.reported (.undefined token))
  | refused (op : Operator) (error : Error) (stack : Stack)
      (failed : m.stack.perform op = .error (error, stack)) : Tells limit m token (.reported error)
  | shown (value : Value) (cell : value ∈ m.stack.cells) : Tells limit m token (.shown value.text)
  | full : Tells limit m token (.reported (.nestingLimit limit))

namespace Run

theorem enter_told (entry : Entry) (source : String) (passes : Passes) (r : Run) (notice : Notice)
    (told : notice ∈ (r.enter entry source passes).notices) :
    notice ∈ r.notices ∨ notice = .reported (.nestingLimit r.limit) := by
  by_cases full : r.limit ≤ r.depth
  · rw [enter, if_pos full] at told
    exact (List.mem_cons.mp told).symm
  · rw [enter, if_neg full] at told
    exact .inl told

theorem carry_out_told (deed : Deed) (m : Machine) (r : Run) (notice : Notice)
    (told : notice ∈ (r.carryOut (deed.effect m)).notices) :
    notice ∈ r.notices ∨ (∃ line ∈ deed.lines, notice = .shown line) ∨
      notice = .reported (.nestingLimit r.limit) := by
  have entered (source : String) (passes : Passes)
      (told : notice ∈ (r.carryOut (.run m source passes)).notices) :
      notice ∈ r.notices ∨ notice = .reported (.nestingLimit r.limit) :=
    enter_told .block source passes { r with machine := m } notice told
  cases deed with
  | display lines =>
      rcases List.mem_append.mp told with new | old
      · obtain ⟨line, shown, rfl⟩ := List.mem_map.mp (List.mem_reverse.mp new)
        exact .inr (.inl ⟨line, shown, rfl⟩)
      · exact .inl old
  | run source => exact (entered source (.times 0) told).imp_right .inr
  | loop source passes =>
      rw [Deed.effect] at told
      by_cases halted : m.halted = true
      · rw [if_pos halted] at told
        exact .inl told
      · rw [if_neg halted] at told
        exact (entered source passes told).imp_right .inr
  | _ => exact .inl told

theorem execute_told (token : String) (r : Run) (notice : Notice)
    (told : notice ∈ (r.execute token).notices) :
    notice ∈ r.notices ∨ Tells r.limit r.machine token notice := by
  cases r.takes token with
  | pushes value other same =>
      rw [same] at told
      exact .inl told
  | undefined other same =>
      rw [same] at told
      rcases List.mem_cons.mp told with rfl | old
      · exact .inr .undefined
      · exact .inl old
  | enters source home other is found same =>
      rw [same, enterNamed] at told
      have entered : notice ∈ r.notices ∨ notice = .reported (.nestingLimit r.limit) := by
        cases scoping : r.machine.scoping <;> rw [scoping] at told <;> exact enter_told _ _ _ r notice told
      rcases entered with old | rfl
      · exact .inl old
      · exact .inr .full
  | fails op error stack is failed same =>
      rw [same] at told
      rcases List.mem_cons.mp told with rfl | old
      · exact .inr (.refused op error stack failed)
      · exact .inl old
  | performs op stack deed is performed same =>
      rw [same] at told
      rcases carry_out_told deed _ r notice told with old | ⟨line, shown, rfl⟩ | rfl
      · exact .inl old
      · obtain ⟨value, cell, rfl⟩ := perform_lines op _ _ _ performed line shown
        exact .inr (.shown value cell)
      · exact .inr .full

theorem step_told (r : Run) (notice : Notice) (told : notice ∈ r.step.notices) :
    notice ∈ r.notices ∨ ∃ token, r.token? = some token ∧ Tells r.limit r.machine token notice := by
  cases r.move with
  | idle idle same => exact .inl (same ▸ told)
  | token activity outer token rest pending runs left same =>
      have next := token_left activity outer token rest r pending runs left
      rw [same] at told
      rcases execute_told token (r.shorten activity rest outer) notice told with old | tells
      · exact .inl old
      · exact .inr ⟨token, next, tells⟩
  | again activity outer passes pending runs spent more same =>
      rw [same] at told
      exact .inl told
  | leave activity outer pending ended same =>
      rw [same, leave_notices] at told
      exact .inl told

end Run

end MiniPostScript
