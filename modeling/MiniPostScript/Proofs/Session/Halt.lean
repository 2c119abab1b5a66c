import MiniPostScript.Proofs.Run.Frames
import MiniPostScript.Proofs.Session.Feed

set_option autoImplicit false

namespace MiniPostScript

namespace Run

theorem halted_step (r : Run) (halted : r.machine.halted = true) :
    r.step.machine = r.machine ∧ r.step.notices = r.notices := by
  cases r.move with
  | idle idle same => exact ⟨congrArg machine same, congrArg notices same⟩
  | token activity outer token rest pending runs left same => cases halted.symm.trans runs
  | again activity outer passes pending runs spent more same => cases halted.symm.trans runs
  | leave activity outer pending ended same =>
      exact ⟨(congrArg machine same).trans (leave_machine r), (congrArg notices same).trans (leave_notices r)⟩

theorem halted_iterate (n : Nat) (r : Run) (halted : r.machine.halted = true) :
    (step^[n] r).machine = r.machine ∧ (step^[n] r).notices = r.notices := by
  induction n with
  | zero => exact ⟨rfl, rfl⟩
  | succ n ih =>
      obtain ⟨machine, notices⟩ := ih
      obtain ⟨machine', notices'⟩ := halted_step (step^[n] r) (by rw [machine, halted])
      rw [Function.iterate_succ_apply']
      exact ⟨machine'.trans machine, notices'.trans notices⟩

theorem quit_step (r : Run) (quits : r.operator? = some .quit) :
    r.step.machine = { r.machine with halted := true } ∧ r.step.notices = r.notices := by
  obtain ⟨activity, rest, outer, same⟩ := operator_step .quit r quits
  have performed := bids_perform .quit r.machine.stack [] .halt .quit
  rw [same, operate_ok .quit (r.shorten activity rest outer) _ _ performed]
  exact ⟨rfl, rfl⟩

theorem quit_iterate (n : Nat) (r : Run) (quits : r.operator? = some .quit) :
    (step^[n] r.step).machine = { r.machine with halted := true } ∧ (step^[n] r.step).notices = r.notices := by
  obtain ⟨machine, notices⟩ := quit_step r quits
  obtain ⟨machine', notices'⟩ := halted_iterate n r.step (by rw [machine])
  exact ⟨machine'.trans machine, notices'.trans notices⟩

theorem quit_later (i j : Nat) (r : Run) (quits : (step^[i] r).operator? = some .quit) (later : i < j) :
    (step^[j] r).machine = { (step^[i] r).machine with halted := true } ∧
      (step^[j] r).notices = (step^[i] r).notices := by
  obtain ⟨n, rfl⟩ := Nat.exists_eq_add_of_lt later
  have whole : step^[i + n + 1] r = step^[n] (step^[i] r).step := by
    rw [← Function.iterate_succ_apply, ← Function.iterate_add_apply, Nat.add_comm i n, Nat.add_right_comm]
  rw [whole]
  exact quit_iterate n _ quits

theorem quit_finish (i : Nat) (r : Run) (quits : (step^[i] r).operator? = some .quit) :
    r.finish.machine = { (step^[i] r).machine with halted := true } ∧
      r.finish.notices = (step^[i] r).notices := by
  obtain ⟨n, reached⟩ := finish_reached (step^[i] r).step
  rw [finish_step, finish_iterate] at reached
  rw [← reached]
  exact quit_iterate n _ quits

theorem accomplish_halts (stack : Stack) (deed : Deed) (r : Run) (runs : r.machine.halted = false)
    (halts : (r.accomplish stack deed).machine.halted = true) : deed = .halt := by
  cases deed with
  | halt => rfl
  | run source =>
      rw [accomplish, Deed.effect, carryOut, enter_machine] at halts
      cases runs.symm.trans halts
  | loop source passes =>
      have going : ¬ ({ r.machine with stack := stack } : Machine).halted = true := by simp [runs]
      rw [accomplish, Deed.effect, if_neg going, carryOut, enter_machine] at halts
      cases runs.symm.trans halts
  | _ => cases runs.symm.trans halts

theorem step_halts (r : Run) (runs : r.machine.halted = false) (halts : r.step.machine.halted = true) :
    r.operator? = some .quit := by
  cases r.does with
  | keeps none scopes scoping halted => cases runs.symm.trans (halted.symm.trans halts)
  | performs op stack deed activity rest outer performed is same =>
      rw [same] at halts
      obtain rfl := accomplish_halts stack deed (r.shorten activity rest outer) runs halts
      rcases deed_operands .halt r is with ⟨lines, other, _⟩ | ⟨op, operands, below, stands, bids, _⟩
      · cases other
      · cases bids
        exact stands

theorem iterate_halts (n : Nat) (r : Run) (runs : r.machine.halted = false)
    (halts : (step^[n] r).machine.halted = true) : ∃ i, (step^[i] r).operator? = some .quit := by
  induction n with
  | zero => cases runs.symm.trans halts
  | succ n ih =>
      rw [Function.iterate_succ_apply'] at halts
      cases before : (step^[n] r).machine.halted with
      | true => exact ih before
      | false => exact ⟨n, step_halts _ before halts⟩

end Run

namespace Session

theorem feed_halted (line : String) (s : Session) (halted : s.machine.halted = true) : s.feed line = (s, []) := by
  rw [feed, if_pos halted]

theorem feed_all_halted (lines : List String) (s : Session) (halted : s.machine.halted = true) :
    s.feedAll lines = (s, lines.map fun _ => []) := by
  induction lines with
  | nil => rfl
  | cons line rest ih => simp only [feedAll, feed_halted line s halted, ih, List.map_cons]

theorem feed_halted_iff (line : String) (s : Session) :
    (s.feed line).1.machine.halted = true ↔ s.machine.halted = true ∨
      ∃ i, (Run.step^[i] (Run.ofLine s.settings.maxDepth s.machine line)).operator? = some .quit := by
  constructor
  · intro halts
    cases runs : s.machine.halted with
    | true => exact .inl rfl
    | false =>
        obtain ⟨n, _, _, fed⟩ := feed_ends line s
        rw [fed] at halts
        exact .inr (Run.iterate_halts n _ runs halts)
  · rintro (halted | ⟨i, quits⟩)
    · rwa [feed_halted line s halted]
    · rw [feed_finish, (Run.quit_finish i _ quits).1]

theorem quit_freezes (s : Session) (line : String) (i : Nat)
    (quits : (Run.step^[i] (Run.ofLine s.settings.maxDepth s.machine line)).operator? = some .quit) :
    let start := Run.ofLine s.settings.maxDepth s.machine line
    let moment := Run.step^[i] start
    (∀ j, i < j → (Run.step^[j] start).machine = { moment.machine with halted := true } ∧
      (Run.step^[j] start).notices = moment.notices) ∧
    s.feed line = ({ s with machine := { moment.machine with halted := true } }, moment.notices.reverse) ∧
    ∀ lines, (s.feed line).1.feedAll lines = ((s.feed line).1, lines.map fun _ => []) := by
  intro start moment
  obtain ⟨machine, notices⟩ := Run.quit_finish i start quits
  have fed : s.feed line = ({ s with machine := { moment.machine with halted := true } }, moment.notices.reverse) := by
    rw [feed_finish, machine, notices]
  refine ⟨fun j later => Run.quit_later i j start quits later, fed, fun lines => ?_⟩
  exact feed_all_halted lines _ (by rw [fed])

theorem nested_quit_freezes :
    let s := Session.new ⟨.lexical, 9⟩
    let line := "/f { 1 { nope 2 quit 3 print nope } exec 4 } def 1 9 1 { f } for 5"
    let after := (s.feed line).1
    (s.feed line).2 = [.reported (.undefined "nope")] ∧
      after.machine.stack.toList = [.integer 1, .integer 2] ∧
      after.feedAll ["nope", "6 print"] = (after, [[], []]) := by
  intro s line after
  let moment := Run.step^[14] (Run.ofLine s.settings.maxDepth s.machine line)
  obtain ⟨quits, notices, stack⟩ : moment.operator? = some .quit ∧
      moment.notices = [.reported (.undefined "nope")] ∧
      moment.machine.stack.toList = [.integer 1, .integer 2] := by decide +kernel
  obtain ⟨_, fed, frozen⟩ := quit_freezes s line 14 quits
  have machine : after.machine = { moment.machine with halted := true } := congrArg (fun done => done.1.machine) fed
  -- Said of any machine, since for this one the two sides would be compared by running them.
  have operands (m : Machine) : ({ m with halted := true } : Machine).stack = m.stack := rfl
  refine ⟨?_, by rw [machine, operands, stack], frozen ["nope", "6 print"]⟩
  rw [fed]
  exact congrArg List.reverse notices

end Session

end MiniPostScript
