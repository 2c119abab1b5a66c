import MiniPostScript.Proofs.Lexical.Flat
import MiniPostScript.Proofs.Session.Feed

set_option autoImplicit false

namespace MiniPostScript

namespace Run

theorem finish_flat (r s : Run) (plain : ∀ i, (step^[i] r).Plain) (flat : Flat r s) :
    Flat r.finish s.finish := by
  refine finish_abreast Flat r s flat (fun n now => step_flat _ _ now (plain n)) ?_
  intro r s flat idle
  have pairs := flat.pending
  rw [idle] at pairs
  exact List.forall₂_nil_left_iff.mp pairs

theorem of_line_flat (limit : Nat) (m : Machine) (line : String) (flat : m.Flat) :
    Flat (ofLine limit m line) (ofLine limit m.lexically line) where
  limit := rfl
  machine := rfl
  flat := flat
  pending := .cons (.same .line .line _ _ _ .line) .nil
  depth := rfl
  homes := fun _ none => nomatch none
  notices := rfl

end Run

namespace Session

structure Flat (a b : Session) : Prop where
  maxDepth : b.settings.maxDepth = a.settings.maxDepth
  machine : b.machine = a.machine.lexically
  flat : a.machine.Flat

theorem feed_flat (line : String) (a b : Session) (flat : Flat a b)
    (plain : a.machine.halted = false →
      ∀ n, (Run.step^[n] (Run.ofLine a.settings.maxDepth a.machine line)).Plain) :
    (a.feed line).2 = (b.feed line).2 ∧ Flat (a.feed line).1 (b.feed line).1 := by
  have halted : b.machine.halted = a.machine.halted := by rw [flat.machine]; rfl
  rw [feed, feed, halted]
  cases runs : a.machine.halted with
  | true => exact ⟨rfl, flat⟩
  | false =>
      have ends := Run.finish_flat _ _ (plain runs) (Run.of_line_flat a.settings.maxDepth a.machine line flat.flat)
      rw [flat.maxDepth, flat.machine]
      exact ⟨congrArg List.reverse ends.notices.symm, flat.maxDepth, ends.machine, ends.flat⟩

theorem feed_all_flat (lines : List String) (a b : Session) (flat : Flat a b)
    (plain : a.Throughout Run.Plain lines) :
    (a.feedAll lines).2 = (b.feedAll lines).2 ∧ Flat (a.feedAll lines).1 (b.feedAll lines).1 := by
  induction lines generalizing a b with
  | nil => exact ⟨rfl, flat⟩
  | cons line rest ih =>
      obtain ⟨told, after⟩ := feed_flat line a b flat plain.1
      obtain ⟨more, last⟩ := ih _ _ after plain.2
      simp only [feedAll]
      exact ⟨by rw [told, more], last⟩

theorem new_flat (limit : Nat) : Flat (.new ⟨.dynamic, limit⟩) (.new ⟨.lexical, limit⟩) :=
  ⟨rfl, rfl, rfl, rfl⟩

theorem scopings_agree (limit : Nat) (lines earlier : List String)
    (plain : (new ⟨.dynamic, limit⟩).Throughout Run.Plain lines) (begun : earlier <+: lines) :
    let a := (new ⟨.dynamic, limit⟩).feedAll earlier
    let b := (new ⟨.lexical, limit⟩).feedAll earlier
    a.2 = b.2 ∧ a.1.machine.stack = b.1.machine.stack ∧
      a.1.machine.scopes.global = b.1.machine.scopes.global ∧
      a.1.machine.halted = b.1.machine.halted := by
  intro a b
  obtain ⟨later, rfl⟩ := begun
  have before := throughout_append Run.Plain earlier later _ plain
  obtain ⟨told, last⟩ := feed_all_flat earlier _ _ (new_flat limit) before
  have machine : b.1.machine = a.1.machine.lexically := last.machine
  rw [machine]
  exact ⟨told, rfl, rfl, rfl⟩

theorem errors_agree :
    let lines := ["/f { x f } def f"]
    let a := (new ⟨.dynamic, 1⟩).feedAll lines
    let b := (new ⟨.lexical, 1⟩).feedAll lines
    (new ⟨.dynamic, 1⟩).Throughout Run.Plain lines ∧ a.2 = b.2 ∧
      a.1.machine.stack = b.1.machine.stack ∧
      a.1.machine.scopes.global = b.1.machine.scopes.global ∧
      a.1.machine.halted = b.1.machine.halted := by
  intro lines a b
  have plain : (new ⟨.dynamic, 1⟩).Throughout Run.Plain ["/f { x f } def f"] :=
    ⟨fun _ => Run.holds_until_idle Run.Plain 8 _ (by decide +kernel) (by decide +kernel), trivial⟩
  exact ⟨plain, scopings_agree 1 lines lines plain (List.prefix_refl lines)⟩

end Session

end MiniPostScript
