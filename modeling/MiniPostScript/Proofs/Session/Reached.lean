import MiniPostScript.Proofs.Session.Feed

set_option autoImplicit false

namespace MiniPostScript

namespace Run

-- Before the first line, and after a reset.
def fresh (settings : Settings) : Run where
  limit := settings.maxDepth
  machine := .ofScoping settings.scoping
  pending := []
  depth := 0
  homes := []
  notices := []

inductive Reached (settings : Settings) : Run → Prop where
  | fresh : Reached settings (fresh settings)
  | begin (line : String) (r : Run) (idle : r.pending = []) (reached : Reached settings r) :
      Reached settings (r.begin line)
  | step (r : Run) (reached : Reached settings r) : Reached settings r.step

theorem reached_iterate (settings : Settings) (n : Nat) (r : Run) (reached : Reached settings r) :
    Reached settings (step^[n] r) := by
  induction n with
  | zero => exact reached
  | succ n ih =>
      rw [Function.iterate_succ_apply']
      exact .step _ ih

theorem reached_finish (settings : Settings) (r : Run) (reached : Reached settings r) :
    Reached settings r.finish := by
  obtain ⟨n, same⟩ := finish_reached r
  rw [← same]
  exact reached_iterate settings n r reached

theorem reached_limit (settings : Settings) (r : Run) (reached : Reached settings r) :
    r.limit = settings.maxDepth := by
  induction reached with
  | fresh => rfl
  | begin line r idle reached ih => exact ih
  | step r reached ih => rw [step_limit, ih]

theorem idle_nested (r : Run) (idle : r.pending = []) (nested : Nested 0 [] r) :
    r.depth = 0 ∧ r.homes = [] := by
  have none : r.entries = [] := by rw [entries, idle]; rfl
  have depth := nested.depth
  have homes := nested.homes
  rw [none] at depth homes
  exact ⟨depth, homes⟩

theorem reached_nested (settings : Settings) (r : Run) (reached : Reached settings r) : Nested 0 [] r := by
  induction reached with
  | fresh => exact ⟨rfl, rfl⟩
  | begin line r idle reached ih =>
      obtain ⟨depth, homes⟩ := idle_nested r idle ih
      exact ⟨depth, homes⟩
  | step r reached ih => exact step_nested 0 [] r ih

theorem step_depth (r : Run) (bounded : r.depth ≤ r.limit) : r.step.depth ≤ r.step.limit := by
  rw [step_limit]
  cases r.nests with
  | stays entries depth homes => rwa [depth]
  | enters entry block room entries depth homes found => omega
  | leaves entry entries depth homes => omega

theorem reached_depth (settings : Settings) (r : Run) (reached : Reached settings r) :
    r.depth ≤ r.limit := by
  induction reached with
  | fresh => exact Nat.zero_le _
  | begin line r idle reached ih => exact ih
  | step r reached ih => exact step_depth r ih

theorem begin_of_line (settings : Settings) (line : String) (r : Run) (idle : r.pending = [])
    (reached : Reached settings r) : r.begin line = ofLine settings.maxDepth r.machine line := by
  obtain ⟨depth, homes⟩ := idle_nested r idle (reached_nested settings r reached)
  rw [begin_fresh line r depth homes, reached_limit settings r reached]

inductive Since (holds : Run → Prop) (past : Run) : Run → Prop where
  | start (here : holds past) : Since holds past past
  | step (r : Run) (earlier : Since holds past r) (here : holds r.step) : Since holds past r.step
  | begin (line : String) (r : Run) (idle : r.pending = []) (earlier : Since holds past r)
      (here : holds (r.begin line)) : Since holds past (r.begin line)

theorem since_now (holds : Run → Prop) (past r : Run) (since : Since holds past r) : holds r := by
  cases since with
  | start here => exact here
  | step r earlier here => exact here
  | begin line r idle earlier here => exact here

theorem since_iterate (holds : Run → Prop) (n : Nat) (past r : Run) (since : Since holds past r)
    (all : ∀ i < n, holds (step^[i + 1] r)) : Since holds past (step^[n] r) := by
  induction n with
  | zero => exact since
  | succ n ih =>
      have here := all n (Nat.lt_succ_self n)
      rw [Function.iterate_succ_apply'] at here ⊢
      exact .step _ (ih fun i earlier => all i (Nat.lt_succ_of_lt earlier)) here

end Run

namespace Session

inductive Reached (settings : Settings) : Session → Prop where
  | new : Reached settings (.new settings)
  | feed (line : String) (s : Session) (reached : Reached settings s) : Reached settings (s.feed line).1
  | reset (s : Session) (reached : Reached settings s) : Reached settings s.reset

theorem session_reached (settings : Settings) (s : Session) (reached : Reached settings s) :
    s.settings = settings ∧ ∃ r, Run.Reached settings r ∧ r.pending = [] ∧ r.machine = s.machine := by
  induction reached with
  | new => exact ⟨rfl, Run.fresh settings, .fresh, rfl, rfl⟩
  | feed line s reached ih =>
      obtain ⟨same, r, before, idle, machine⟩ := ih
      rw [feed_finish]
      refine ⟨same, (r.begin line).finish, ?_, Run.finish_pending _, ?_⟩
      · exact Run.reached_finish settings _ (.begin line r idle before)
      · rw [Run.begin_of_line settings line r idle before, machine, same]
  | reset s reached ih =>
      rw [reset, ih.1]
      exact ⟨rfl, Run.fresh settings, .fresh, rfl, rfl⟩

theorem line_reached (settings : Settings) (s : Session) (line : String) (reached : Reached settings s) :
    Run.Reached settings (Run.ofLine settings.maxDepth s.machine line) := by
  obtain ⟨_, r, before, idle, machine⟩ := session_reached settings s reached
  rw [← machine, ← Run.begin_of_line settings line r idle before]
  exact .begin line r idle before

end Session

end MiniPostScript
