import MiniPostScript.Proofs.Run.Frames

set_option autoImplicit false

namespace MiniPostScript

namespace Run

theorem innermost_home (depth : Nat) (homes : List FrameId) (inner outer : List Entry) (home : FrameId)
    (r : Run) (nested : Nested depth homes r) (running : r.entries = inner ++ .named home :: outer)
    (unnamed : ∀ entry ∈ inner, entry.home? = none) : ∃ rest, r.homes = home :: rest := by
  have none : inner.filterMap Entry.home? = [] := List.filterMap_eq_nil_iff.mpr unnamed
  refine ⟨outer.filterMap Entry.home? ++ homes, ?_⟩
  rw [nested.homes, running, List.filterMap_append, none]
  rfl

end Run

end MiniPostScript
