import Mathlib.Logic.Function.Iterate
import MiniPostScript.Proofs.Run.Step

set_option autoImplicit false

namespace MiniPostScript

def Entry.isBlock : Entry → Bool
  | .line => false
  | _ => true

namespace Run

def entries (r : Run) : List Entry := r.pending.map Activity.entry

def token? (r : Run) : Option String :=
  match r.pending with
  | [] => none
  | activity :: _ => if r.machine.halted then none else activity.rest.head?

theorem token_left (activity : Activity) (outer : List Activity) (token : String) (rest : List String)
    (r : Run) (pending : r.pending = activity :: outer) (runs : r.machine.halted = false)
    (left : activity.rest = token :: rest) : r.token? = some token := by
  simp [token?, pending, runs, left]

theorem token_ended (activity : Activity) (outer : List Activity) (r : Run)
    (pending : r.pending = activity :: outer) (ended : r.machine.halted = true ∨ activity.rest = []) :
    r.token? = none := by
  rcases ended with halted | spent
  · simp [token?, pending, halted]
  · simp [token?, pending, spent]

-- The next step finds the block of a name in a frame while scoping is lexical.
def Finds (name source : String) (home : FrameId) (r : Run) : Prop :=
  r.token? = some name ∧ constant? name = none ∧ r.machine.scoping = .lexical ∧
    r.lookup name = some (.block source, home)

theorem enter_entry (entry : Entry) (source : String) (passes : Passes) (r : Run) (inner : Activity)
    (entered : (r.enter entry source passes).pending = inner :: r.pending) : inner.entry = entry := by
  by_cases full : r.limit ≤ r.depth
  · rw [enter, if_pos full] at entered
    exact absurd entered.symm (List.cons_ne_self inner r.pending)
  · rw [enter, if_neg full] at entered
    rw [← (List.cons.inj entered).1]

theorem carry_out_entry (effect : Effect) (r : Run) (inner : Activity)
    (entered : (r.carryOut effect).pending = inner :: r.pending) : inner.entry = .block := by
  cases effect with
  | done after shown => exact absurd entered.symm (List.cons_ne_self inner r.pending)
  | run after source passes =>
      exact enter_entry .block source passes { r with machine := after } inner entered

theorem enter_named_entry (source : String) (frame home : FrameId) (r : Run) (inner : Activity)
    (entered : (r.enterNamed source frame).pending = inner :: r.pending)
    (named : inner.entry = .named home) : frame = home ∧ r.machine.scoping = .lexical := by
  cases scoping : r.machine.scoping with
  | dynamic =>
      simp only [enterNamed, scoping] at entered
      have block := enter_entry .block source _ r inner entered
      rw [named] at block
      cases block
  | lexical =>
      simp only [enterNamed, scoping] at entered
      have same := enter_entry (.named frame) source _ r inner entered
      rw [named] at same
      cases same
      exact ⟨rfl, rfl⟩

theorem execute_named (token : String) (home : FrameId) (r : Run) (inner : Activity)
    (entered : (r.execute token).pending = inner :: r.pending) (named : inner.entry = .named home) :
    constant? token = none ∧ r.machine.scoping = .lexical ∧
      ∃ source, r.lookup token = some (.block source, home) := by
  cases r.takes token with
  | enters source frame other is found same =>
      rw [same] at entered
      obtain ⟨rfl, lexical⟩ := enter_named_entry source frame home r inner entered named
      exact ⟨is, lexical, source, found⟩
  | performs op stack deed is performed same =>
      rw [same] at entered
      have block := carry_out_entry _ r inner entered
      rw [named] at block
      cases block
  | pushes _ _ same | undefined _ same | fails _ _ _ _ _ same =>
      rw [same] at entered
      exact absurd entered.symm (List.cons_ne_self inner r.pending)

inductive Nests (r : Run) : Prop where
  | stays (entries : r.step.entries = r.entries) (depth : r.step.depth = r.depth)
      (homes : r.step.homes = r.homes)
  | enters (entry : Entry) (block : entry.isBlock = true) (room : r.depth < r.limit)
      (entries : r.step.entries = entry :: r.entries) (depth : r.step.depth = r.depth + 1)
      (homes : r.step.homes = entry.home?.toList ++ r.homes)
      (found : ∀ home, entry = .named home → ∃ name source, r.Finds name source home)
  | leaves (entry : Entry) (entries : r.entries = entry :: r.step.entries)
      (depth : r.step.depth = r.depth - entry.isBlock.toNat)
      (homes : r.step.homes = r.homes.drop entry.home?.toList.length)

theorem nests (r : Run) : Nests r := by
  cases r.move with
  | idle idle same => exact .stays (by rw [same]) (by rw [same]) (by rw [same])
  | token activity outer token rest pending runs left same =>
      have whole : r.entries = (r.shorten activity rest outer).entries := by
        simp [entries, shorten, pending]
      have next := token_left activity outer token rest r pending runs left
      cases execute_grows token (r.shorten activity rest outer) with
      | stays limit same' depth homes =>
          rw [← same] at same' depth homes
          exact .stays (by rw [whole, entries, same', entries]) depth homes
      | enters inner limit block room entered depth homes =>
          refine .enters inner.entry ?_ room ?_ (by rw [same]; exact depth) (by rw [same]; exact homes) ?_
          · cases kind : inner.entry with
            | line => exact absurd kind block
            | _ => rfl
          · rw [whole, same, entries, entered]
            rfl
          · intro home named
            obtain ⟨is, lexical, source, found⟩ := execute_named token home _ inner entered named
            exact ⟨token, source, next, is, lexical, found⟩
  | again activity outer passes pending runs spent more same =>
      exact .stays (by rw [same]; simp [entries, pending]) (by rw [same]) (by rw [same])
  | leave activity outer pending ended same =>
      have left : r.step.pending = outer := by
        rw [same, leave, pending]
        cases kind : activity.entry <;> simp [kind]
      refine .leaves activity.entry (by simp [entries, pending, left]) ?_ ?_
      · rw [same, leave, pending]
        cases kind : activity.entry <;> simp [kind, Entry.isBlock]
      · rw [same, leave, pending]
        cases kind : activity.entry <;> simp [kind, Entry.home?]

-- The depth and the homes of a run, apart from those that it was begun with, belong to its entries.
structure Nested (depth : Nat) (homes : List FrameId) (r : Run) : Prop where
  depth : r.depth = r.entries.countP Entry.isBlock + depth
  homes : r.homes = r.entries.filterMap Entry.home? ++ homes

theorem of_line_nested (limit : Nat) (machine : Machine) (line : String) :
    Nested 0 [] (ofLine limit machine line) := ⟨rfl, rfl⟩

theorem step_nested (depth : Nat) (homes : List FrameId) (r : Run) (nested : Nested depth homes r) :
    Nested depth homes r.step := by
  cases r.nests with
  | stays entries' depth' homes' =>
      exact ⟨by rw [entries', depth', nested.depth], by rw [entries', homes', nested.homes]⟩
  | enters entry block room entries' depth' homes' found =>
      refine ⟨?_, ?_⟩
      · rw [entries', depth', nested.depth, List.countP_cons_of_pos block]
        omega
      · rw [entries', homes', nested.homes, List.filterMap_cons]
        cases entry.home? <;> rfl
  | leaves entry entries' depth' homes' =>
      have depthBefore := nested.depth
      have homesBefore := nested.homes
      rw [entries'] at depthBefore homesBefore
      refine ⟨?_, ?_⟩
      · rw [depth', depthBefore, List.countP_cons]
        cases entry.isBlock <;> simp
      · rw [homes', homesBefore, List.filterMap_cons]
        cases entry.home? <;> rfl

theorem iterate_nested (depth : Nat) (homes : List FrameId) (n : Nat) (r : Run)
    (nested : Nested depth homes r) : Nested depth homes (step^[n] r) := by
  induction n with
  | zero => exact nested
  | succ n ih =>
      rw [Function.iterate_succ_apply']
      exact step_nested depth homes _ ih

end Run

end MiniPostScript
