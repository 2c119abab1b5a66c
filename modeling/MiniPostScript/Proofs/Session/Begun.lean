import MiniPostScript.Proofs.Run.Frames
import MiniPostScript.Proofs.Session.Reached

set_option autoImplicit false

namespace MiniPostScript

namespace Scopes

-- Scopes that have come of others by beginning, defining in and ending frames above theirs.
structure Above (base s : Scopes) : Prop where
  has : ∀ frame, base.Has frame → s.Has frame
  contents : ∀ frame, base.Has frame → s.contents frame = base.contents frame
  frames : ∃ newer, s.frames = newer ++ base.frames ∧ ∀ frame ∈ newer, ¬ base.Has frame

section

variable (base s : Scopes)

theorem above_refl : Above base base where
  has := fun _ has => has
  contents := fun _ _ => rfl
  frames := ⟨[], rfl, fun _ none => nomatch none⟩

theorem above_push (d : Dictionary) (above : Above base s) : Above base (s.push d) where
  has := fun frame has => has_push d s frame (above.has frame has)
  contents := fun frame has => (contents_push d s frame (above.has frame has)).trans (above.contents frame has)
  frames := by
    obtain ⟨newer, frames, fresh⟩ := above.frames
    refine ⟨.begun s.begun.size :: newer, by rw [frames_push, frames, List.cons_append], fun frame member => ?_⟩
    rcases List.mem_cons.mp member with rfl | old
    · exact fun has => fresh_frame s _ (above.has _ has) rfl
    · exact fresh frame old

theorem above_top (above : Above base s) (deeper : base.depth < s.depth) :
    ∃ newer, s.frames = s.top :: (newer ++ base.frames) ∧ ∀ frame ∈ s.top :: newer, ¬ base.Has frame := by
  obtain ⟨newer, frames, fresh⟩ := above.frames
  obtain ⟨rest, top⟩ := top_frames s
  rw [← frames_length, ← frames_length, frames] at deeper
  cases newer with
  | nil => exact absurd deeper (Nat.lt_irrefl _)
  | cons first newer =>
      have same : first = s.top := (List.cons.inj (frames.symm.trans top)).1
      rw [← same]
      exact ⟨newer, frames, fresh⟩

theorem above_define (key : String) (value : Value) (above : Above base s) (deeper : base.depth < s.depth) :
    Above base (s.define key value) where
  has := fun frame has => has_define key value s frame (above.has frame has)
  contents := by
    intro frame has
    obtain ⟨newer, _, fresh⟩ := above_top base s above deeper
    have other : frame ≠ s.top := fun same => fresh s.top List.mem_cons_self (same ▸ has)
    rw [contents_define, if_neg other, above.contents frame has]
  frames := by
    rw [frames_define]
    exact above.frames

theorem above_closed (above : Above base s) (deeper : base.depth < s.depth) : Above base s.closed where
  has := fun frame has => (has_closed s frame).mpr (above.has frame has)
  contents := fun frame has => (contents_closed s frame).trans (above.contents frame has)
  frames := by
    obtain ⟨newer, frames, fresh⟩ := above_top base s above deeper
    have more : s.depth ≠ 1 := Nat.ne_of_gt (Nat.lt_of_le_of_lt (Nat.le_add_left 1 _) deeper)
    rw [frames_closed s more] at frames
    exact ⟨newer, (List.cons.inj frames).2, fun frame member => fresh frame (List.mem_cons_of_mem _ member)⟩

theorem above_deed (deed : Deed) (above : Above base s) (deeper : base.depth < s.depth) : Above base (deed.scopes s) := by
  cases deed with
  | beginDict d => exact above_push base s d above
  | endDict => exact above_closed base s above deeper
  | define key value => exact above_define base s key value above deeper
  | _ => exact above

theorem above_level (above : Above base s) (level : s.depth = base.depth) : s.frames = base.frames := by
  obtain ⟨newer, frames, _⟩ := above.frames
  rw [← frames_length, ← frames_length, frames, List.length_append] at level
  obtain rfl := List.length_eq_zero_iff.mp (Nat.add_eq_right.mp level)
  exact frames

end

end Scopes

namespace Run

theorem step_stays_above (base : Scopes) (r : Run) (above : base.Above r.machine.scopes)
    (deeper : base.depth < r.machine.scopes.depth) : base.Above r.step.machine.scopes := by
  rw [step_scopes]
  split
  · exact above
  · exact Scopes.above_deed base _ _ above deeper

theorem since_stays_above (base : Scopes) (past r : Run) (above : base.Above past.machine.scopes)
    (inside : Since (fun moment => base.depth < moment.machine.scopes.depth) past r) :
    base.Above r.machine.scopes := by
  induction inside with
  | start here => exact above
  | step r earlier here ih => exact step_stays_above base r ih (since_now _ past r earlier)
  | begin line r idle earlier here ih => exact ih

theorem depth_falls (r : Run) (falls : r.step.machine.scopes.depth < r.machine.scopes.depth) :
    r.operator? = some .endDict := by
  rw [step_scopes] at falls
  cases is : r.deed? with
  | none =>
      rw [is] at falls
      exact absurd falls (Nat.lt_irrefl _)
  | some deed =>
      rw [is] at falls
      cases deed with
      | endDict =>
          rcases deed_operands .endDict r is with ⟨lines, other, _⟩ | ⟨op, operands, below, stands, bids, _⟩
          · cases other
          · cases bids
            exact stands
      | beginDict d => exact absurd falls (Nat.not_lt_of_gt (Nat.lt_succ_self _))
      | define key value =>
          simp only [Deed.scopes, ← Scopes.frames_length, Scopes.frames_define] at falls
          exact absurd falls (Nat.lt_irrefl _)
      | _ => exact absurd falls (Nat.lt_irrefl _)

theorem begun_frame_confined (d : Dictionary) (r last : Run) (begins : r.deed? = some (.beginDict d))
    (inside : Since (fun moment => r.machine.scopes.depth < moment.machine.scopes.depth) r.step last)
    (ends : last.step.machine.scopes.depth = r.machine.scopes.depth) :
    last.operator? = some .endDict ∧
    last.step.machine.scopes.frames = r.machine.scopes.frames ∧
    (∀ frame, r.machine.scopes.Has frame →
      last.step.machine.scopes.contents frame = r.machine.scopes.contents frame) ∧
    last.step.machine.scopes.frames.getLast? = some .global := by
  have begun : r.machine.scopes.Above r.step.machine.scopes := by
    rw [step_scopes, begins]
    exact Scopes.above_push _ _ d (Scopes.above_refl _)
  have deeper := since_now _ r.step last inside
  have above := step_stays_above _ last (since_stays_above _ r.step last begun inside) deeper
  exact ⟨depth_falls last (ends ▸ deeper), Scopes.above_level _ _ above ends, above.contents, Scopes.frames_last _⟩

theorem begun_over_two_lines :
    let r := step^[8] ((fresh .default).begin "1 dict begin /x 2 def 1 dict begin /x 3 def nope")
    let next := (step^[5] r.step).begin "lexical 1 dict begin /x 4 def end end x"
    let last := step^[8] next
    last.operator? = some .endDict ∧
      last.step.machine.scopes.frames = [.begun 0, .global] ∧
      (last.step.machine.scopes.contents (.begun 0)).get? "x" = some (.integer 2) := by
  intro r next last
  obtain ⟨stands, stack, frames, bound⟩ : r.operator? = some .beginDict ∧
      r.machine.stack = Stack.empty.pushAll [.dictionary (.empty 1)] ∧
      r.machine.scopes.frames = [.begun 0, .global] ∧
      (r.machine.scopes.contents (.begun 0)).get? "x" = some (.integer 2) := by decide +kernel
  obtain ⟨first, idle, second, ends⟩ :
      (∀ i < 6, r.machine.scopes.depth < (step^[i] r.step).machine.scopes.depth) ∧ (step^[5] r.step).pending = [] ∧
      (∀ i < 9, r.machine.scopes.depth < (step^[i] next).machine.scopes.depth) ∧
      last.step.machine.scopes.depth = r.machine.scopes.depth := by decide +kernel
  have inside : Since (fun moment => r.machine.scopes.depth < moment.machine.scopes.depth) r.step last := by
    refine since_iterate _ 8 r.step next (.begin _ _ idle ?_ (second 0 (by decide))) fun i less => second (i + 1) (by omega)
    exact since_iterate _ 5 r.step r.step (.start (first 0 (by decide))) fun i less => first (i + 1) (by omega)
  obtain ⟨closes, same, contents, _⟩ := begun_frame_confined (.empty 1) r last
    (bids_deed .beginDict _ .empty _ r stands stack (.beginDict _)) inside ends
  have outer : FrameId.begun 0 ∈ r.machine.scopes.frames := by rw [frames]; exact List.mem_cons_self
  exact ⟨closes, same.trans frames, by rw [contents _ (Scopes.frames_has _ _ outer), bound]⟩

end Run

end MiniPostScript
