import MiniPostScript.Proofs.Lexical.Alike
import MiniPostScript.Proofs.Run.Call

set_option autoImplicit false

namespace MiniPostScript

namespace Run

section

variable (left right : FrameId) (outer outer' : List FrameId) (old old' : List Notice) (r s : Run)

theorem finish_alike (lexical : ∀ i, (step^[i] r).machine.scoping = .lexical)
    (alike : Alike left right outer outer' old old' r s) :
    Alike left right outer outer' old old' r.finish s.finish := by
  refine finish_abreast _ r s alike
    (fun n now => step_alike left right outer outer' old old' _ _ (lexical n) now) ?_
  intro r s alike idle
  have inside := alike.inside
  rw [idle] at inside
  exact inside_nil left right outer outer' _ _ _ inside

end

theorem ambient_scopes_unseen (left right : FrameId) (outer outer' : List FrameId) (source : String)
    (r s : Run) (limit : r.limit = s.limit) (depth : r.depth = s.depth)
    (homes : r.homes = left :: outer) (homes' : s.homes = right :: outer')
    (machines : r.machine.Alike left right s.machine)
    (lexical : ∀ n, (step^[n] (r.alone.enter .block source (.times 0))).machine.scoping = .lexical) :
    let a := r.callBlock .block source (.times 0)
    let b := s.callBlock .block source (.times 0)
    a.error? = b.error? ∧
    (∃ told, a.after.notices = told ++ r.notices ∧ b.after.notices = told ++ s.notices) ∧
    a.after.machine.Alike left right b.after.machine ∧
    a.after.machine.scopes.depth = b.after.machine.scopes.depth := by
  intro a b
  by_cases full : r.limit ≤ r.depth
  · have full' : s.limit ≤ s.depth := limit ▸ depth ▸ full
    have refused : a = ⟨some (.nestingLimit r.limit), r⟩ := by
      simp only [a, callBlock, if_pos full]
    have refused' : b = ⟨some (.nestingLimit s.limit), s⟩ := by
      simp only [b, callBlock, if_pos full']
    rw [refused, refused', limit]
    exact ⟨rfl, ⟨[], rfl, rfl⟩, machines, Scopes.alike_depth left right _ _ machines.scopes⟩
  · have room : ¬ s.limit ≤ s.depth := limit ▸ depth ▸ full
    have start : Alike left right outer outer' r.notices s.notices r.alone s.alone :=
      { limit := limit
        depth := depth
        machines := machines
        inside := by
          rw [show r.alone.homes = left :: outer from homes, show s.alone.homes = right :: outer' from homes']
          exact .nothing
        told := ⟨[], rfl, rfl⟩ }
    have entered := enter_alike left right outer outer' r.notices s.notices r.alone s.alone
      .block .block source (.times 0) .block start
    have ends := finish_alike left right outer outer' r.notices s.notices _ _ lexical entered
    have accepted : a = ⟨none, ((r.alone.enter .block source (.times 0)).finish).onTop r.pending⟩ := by
      simp only [a, callBlock, if_neg full]
    have accepted' : b = ⟨none, ((s.alone.enter .block source (.times 0)).finish).onTop s.pending⟩ := by
      simp only [b, callBlock, if_neg room]
    rw [accepted, accepted']
    exact ⟨rfl, ends.told, ends.machines, Scopes.alike_depth left right _ _ ends.machines.scopes⟩

def calledWith (ambient : Value) : Run where
  limit := 2
  machine := ⟨.empty, ((Scopes.ofGlobal (.empty 0)).push (.ofList 0 [("x", .name "home")])).push
    (.ofList 0 [("a", ambient)]), .lexical, false⟩
  pending := []
  depth := 1
  homes := [.begun 0]
  notices := []

theorem called_with_alike (ambient ambient' : Value) :
    (calledWith ambient).machine.Alike (.begun 0) (.begun 0) (calledWith ambient').machine where
  stack := rfl
  scopes :=
    { hasLeft := Nat.zero_lt_succ 1
      hasRight := Nat.zero_lt_succ 1
      positions := .cons Iff.rfl (.cons Iff.rfl (.cons Iff.rfl .nil))
      home := fun _ => rfl
      global := fun _ => rfl }
  scoping := rfl
  halted := rfl

theorem ambient_binding_unseen :
    let a := (calledWith (.name "here")).callBlock .block "a x" (.times 0)
    let b := (calledWith (.name "there")).callBlock .block "a x" (.times 0)
    a.error? = b.error? ∧
    (∃ told, a.after.notices = told ++ [] ∧ b.after.notices = told ++ []) ∧
    a.after.machine.Alike (.begun 0) (.begun 0) b.after.machine ∧
    a.after.machine.scopes.depth = b.after.machine.scopes.depth :=
  ambient_scopes_unseen (.begun 0) (.begun 0) [] [] "a x" _ _ rfl rfl rfl rfl
    (called_with_alike (.name "here") (.name "there"))
    (holds_until_idle (fun r => r.machine.scoping = .lexical) 3 _ (by decide +kernel)
      (by decide +kernel))

end Run

end MiniPostScript
