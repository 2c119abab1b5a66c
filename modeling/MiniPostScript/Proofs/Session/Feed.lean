import Mathlib.Data.Nat.Find
import MiniPostScript.Proofs.Run.Recursion
import MiniPostScript.Session

set_option autoImplicit false

namespace MiniPostScript

theorem Run.begin_fresh (line : String) (r : Run) (depth : r.depth = 0) (homes : r.homes = []) :
    r.begin line = ofLine r.limit r.machine line := by
  rw [begin, ofLine, depth, homes]

theorem Run.of_line_finish (limit : Nat) (m : Machine) (line : String)
    (ended : m.halted = true ∨ tokens line = []) : (ofLine limit m line).finish = ⟨limit, m, [], 0, [], []⟩ :=
  last_finish ⟨.line, tokens line, tokens line, .times 0⟩ ⟨limit, m, [], 0, [], []⟩ rfl
    (ended.imp_right fun none => ⟨none, rfl⟩)

namespace Session

-- A halted session takes no line, and a line that was begun all the same would come to nothing.
theorem feed_finish (line : String) (s : Session) :
    let run := (Run.ofLine s.settings.maxDepth s.machine line).finish
    s.feed line = ({ s with machine := run.machine }, run.notices.reverse) := by
  by_cases halted : s.machine.halted = true
  · rw [feed, if_pos halted, Run.of_line_finish s.settings.maxDepth s.machine line (.inl halted)]
    rfl
  · rw [feed, if_neg halted]

theorem feed_fragments (line other : String) (s : Session)
    (same : Text.fragments line.toList = Text.fragments other.toList) : s.feed line = s.feed other := by
  have tokens : tokens line = tokens other := by rw [tokens, tokens, Token.split, Token.split, same]
  have begun : Run.ofLine s.settings.maxDepth s.machine line = Run.ofLine s.settings.maxDepth s.machine other := by
    rw [Run.ofLine, Run.ofLine, tokens]
  rw [feed, feed, begun]

theorem feed_blank (line : String) (s : Session) (blank : Text.fragments line.toList = []) :
    s.feed line = (s, []) := by
  have none : tokens line = [] := by
    rw [tokens, Token.split, blank]
    rfl
  rw [feed_finish, Run.of_line_finish s.settings.maxDepth s.machine line (.inr none)]
  rfl

theorem feed_at (n : Nat) (line : String) (s : Session)
    (idle : (Run.step^[n] (Run.ofLine s.settings.maxDepth s.machine line)).pending = []) :
    let run := Run.step^[n] (Run.ofLine s.settings.maxDepth s.machine line)
    s.feed line = ({ s with machine := run.machine }, run.notices.reverse) := by
  rw [feed_finish, Run.finish_at n _ idle]

theorem feed_ends (line : String) (s : Session) :
    let start := Run.ofLine s.settings.maxDepth s.machine line
    ∃ n, (∀ i < n, (Run.step^[i] start).pending ≠ []) ∧ (Run.step^[n] start).pending = [] ∧
      s.feed line =
        ({ s with machine := (Run.step^[n] start).machine }, (Run.step^[n] start).notices.reverse) := by
  intro start
  have ends : ∃ n, (Run.step^[n] start).pending = [] := by
    obtain ⟨n, reached⟩ := Run.finish_reached start
    exact ⟨n, by rw [reached, Run.finish_pending]⟩
  have idle := Nat.find_spec ends
  exact ⟨Nat.find ends, fun i earlier => Nat.find_min ends earlier, idle, feed_at _ line s idle⟩

def feedAll : List String → Session → Session × List (List Notice)
  | [], s => (s, [])
  | line :: rest, s =>
      let (after, told) := s.feed line
      let (last, more) := after.feedAll rest
      (last, told :: more)

-- What holds at every moment while lines are fed. A halted session takes no line.
def Throughout (holds : Run → Prop) : List String → Session → Prop
  | [], _ => True
  | line :: rest, s =>
      (s.machine.halted = false →
        ∀ n, holds (Run.step^[n] (Run.ofLine s.settings.maxDepth s.machine line))) ∧
      (s.feed line).1.Throughout holds rest

theorem throughout_append (holds : Run → Prop) (lines later : List String) (s : Session)
    (throughout : s.Throughout holds (lines ++ later)) : s.Throughout holds lines := by
  induction lines generalizing s with
  | nil => trivial
  | cons line rest ih => exact ⟨throughout.1, ih _ throughout.2⟩

end Session

end MiniPostScript
