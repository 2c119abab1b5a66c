import MiniPostScript.Proofs.Operator.Deeds
import MiniPostScript.Proofs.Run.Nesting

set_option autoImplicit false

namespace MiniPostScript

def Deed.scopes : Deed → Scopes → Scopes
  | .beginDict d, s => s.push d
  | .endDict, s => s.closed
  | .define key value, s => s.define key value
  | _, s => s

def Deed.definition? : Deed → Option (String × Value)
  | .define key value => some (key, value)
  | _ => none

def Dictionary.insertAll (bindings : List (String × Value)) (d : Dictionary) : Dictionary :=
  bindings.foldl (fun d binding => d.insert binding.1 binding.2) d

theorem deed_contents (deed : Deed) (s : Scopes) (frame : FrameId) (has : s.Has frame) :
    (deed.scopes s).contents frame =
      (s.contents frame).insertAll (if frame = s.top then deed.definition?.toList else []) := by
  cases deed with
  | beginDict d =>
      simp only [Deed.scopes, Deed.definition?, Scopes.contents_push d s frame has]
      split <;> rfl
  | endDict =>
      simp only [Deed.scopes, Deed.definition?, Scopes.contents_closed]
      split <;> rfl
  | define key value =>
      simp only [Deed.scopes, Deed.definition?, Scopes.contents_define]
      split <;> rfl
  | _ =>
      simp only [Deed.scopes, Deed.definition?]
      split <;> rfl

namespace Run

def operator? (r : Run) : Option Operator := r.token?.bind fun token => r.operatorOf? token

def deed? (r : Run) : Option Deed :=
  match r.operator? with
  | none => none
  | some op =>
      match r.machine.stack.perform op with
      | .ok (_, deed) => some deed
      | .error _ => none

theorem deed_operands (deed : Deed) (r : Run) (is : r.deed? = some deed) :
    (∃ lines, deed = .display lines ∧ r.machine.stack.Shows lines) ∨
      ∃ op operands below, r.operator? = some op ∧ Bids op operands deed ∧
        r.machine.stack = Stack.pushAll operands below := by
  rw [deed?] at is
  split at is
  · cases is
  · rename_i op stands
    split at is
    · rename_i below done performed
      obtain rfl := Option.some.inj is
      rcases perform_deed op _ _ _ performed with lines | ⟨operands, bids, same⟩
      · exact .inl lines
      · exact .inr ⟨op, operands, below, stands, bids, same⟩
    · cases is

theorem bids_deed (op : Operator) (operands : List Value) (below : Stack) (deed : Deed) (r : Run)
    (stands : r.operator? = some op) (stack : r.machine.stack = below.pushAll operands) (bids : Bids op operands deed) :
    r.deed? = some deed := by
  simp only [deed?, stands, stack, bids_perform op below operands deed bids]

theorem operator_of_found (token : String) (op : Operator) (r : Run) (is : r.operatorOf? token = some op) :
    constant? token = none ∧ ∃ home, r.lookup token = some (.operator op, home) := by
  rw [operatorOf?] at is
  split at is
  · rename_i other home none found
    obtain rfl := Option.some.inj is
    exact ⟨none, home, found⟩
  · cases is

theorem operator_step (op : Operator) (r : Run) (is : r.operator? = some op) :
    ∃ activity rest outer, r.step = (r.shorten activity rest outer).operate op := by
  obtain ⟨token, next, stands⟩ := Option.bind_eq_some_iff.mp is
  obtain ⟨none, home, found⟩ := operator_of_found token op r stands
  cases pending : r.pending with
  | nil => simp [token?, pending] at next
  | cons activity outer =>
      cases runs : r.machine.halted with
      | true => simp [token?, pending, runs] at next
      | false =>
          obtain ⟨rest, left⟩ : ∃ rest, activity.rest = token :: rest := by
            simpa [token?, pending, runs, List.head?_eq_some_iff] using next
          refine ⟨activity, rest, outer, ?_⟩
          rw [step, pending]
          simp only [runs, left, Bool.false_eq_true, if_false]
          exact execute_found token (r.shorten activity rest outer) _ home none found

inductive Does (r : Run) : Prop where
  | performs (op : Operator) (stack : Stack) (deed : Deed) (activity : Activity) (rest : List String)
      (outer : List Activity) (performed : r.machine.stack.perform op = .ok (stack, deed))
      (is : r.deed? = some deed) (same : r.step = (r.shorten activity rest outer).accomplish stack deed)
  | keeps (none : r.deed? = none) (scopes : r.step.machine.scopes = r.machine.scopes)
      (scoping : r.step.machine.scoping = r.machine.scoping)
      (halted : r.step.machine.halted = r.machine.halted)

theorem enter_machine (entry : Entry) (source : String) (passes : Passes) (r : Run) :
    (r.enter entry source passes).machine = r.machine := by
  rw [enter]
  split <;> rfl

theorem enter_named_machine (source : String) (home : FrameId) (r : Run) :
    (r.enterNamed source home).machine = r.machine := by
  rw [enterNamed]
  split <;> exact enter_machine _ source _ r

theorem does (r : Run) : Does r := by
  have keeps (none : r.deed? = none) (machine : r.step.machine = r.machine) : Does r :=
    .keeps none (by rw [machine]) (by rw [machine]) (by rw [machine])
  have rests (next : r.token? = none) (machine : r.step.machine = r.machine) : Does r :=
    keeps (by simp only [deed?, operator?, next, Option.bind_none]) machine
  cases r.move with
  | idle idle same => exact rests (by simp only [token?, idle]) (by rw [same])
  | again activity outer passes pending runs spent more same =>
      exact rests (token_ended activity outer r pending (.inr spent)) (by rw [same])
  | leave activity outer pending ended same =>
      exact rests (token_ended activity outer r pending (ended.imp_right And.left)) (by rw [same, leave_machine])
  | token activity outer token rest pending runs left same =>
      have next : r.operator? = r.operatorOf? token := by
        rw [operator?, token_left activity outer token rest r pending runs left, Option.bind_some]
      cases (r.shorten activity rest outer).takes token with
      | pushes value other taken =>
          have none : r.deed? = none := by rw [deed?, next.trans other]
          refine .keeps none ?_ ?_ ?_ <;> rw [same, taken] <;> rfl
      | undefined other taken =>
          exact keeps (by rw [deed?, next.trans other]) (by rw [same, taken]; rfl)
      | enters source home other is found taken =>
          refine keeps (by rw [deed?, next.trans other]) ?_
          rw [same, taken]
          exact enter_named_machine source home (r.shorten activity rest outer)
      | fails op error stack is failed taken =>
          have failed : r.machine.stack.perform op = .error (error, stack) := failed
          exact keeps (by simp only [deed?, next.trans is, failed]) (by rw [same, taken]; rfl)
      | performs op stack deed is performed taken =>
          have performed : r.machine.stack.perform op = .ok (stack, deed) := performed
          exact .performs op stack deed activity rest outer performed
            (by simp only [deed?, next.trans is, performed]) (same.trans taken)

theorem accomplish_scopes (stack : Stack) (deed : Deed) (r : Run) :
    (r.accomplish stack deed).machine.scopes = deed.scopes r.machine.scopes := by
  cases deed with
  | endDict => exact Scopes.pop_closed r.machine.scopes
  | run source =>
      rw [accomplish, Deed.effect, carryOut, enter_machine]
      rfl
  | loop source passes =>
      rw [accomplish, Deed.effect]
      split
      · rfl
      · rw [carryOut, enter_machine]
        rfl
  | _ => rfl

theorem step_scopes (r : Run) :
    r.step.machine.scopes =
      match r.deed? with
      | none => r.machine.scopes
      | some deed => deed.scopes r.machine.scopes := by
  cases r.does with
  | performs op stack deed activity rest outer performed is same =>
      rw [is, same, accomplish_scopes]
      rfl
  | keeps none scopes scoping halted => rw [none, scopes]

def definitionIn? (frame : FrameId) (r : Run) : Option (String × Value) :=
  if frame = r.machine.scopes.top then r.deed?.bind Deed.definition? else none

theorem step_contents (frame : FrameId) (r : Run) (has : r.machine.scopes.Has frame) :
    r.step.machine.scopes.contents frame =
      (r.machine.scopes.contents frame).insertAll (r.definitionIn? frame).toList := by
  rw [step_scopes, definitionIn?]
  cases r.deed? with
  | none =>
      simp only [Option.bind_none, ite_self]
      rfl
  | some deed =>
      simp only [Option.bind_some, deed_contents deed r.machine.scopes frame has]
      split <;> rfl

theorem lookup_home (name : String) (home : FrameId) (rest : List FrameId) (r : Run)
    (lexical : r.machine.scoping = .lexical) (homes : r.homes = home :: rest) :
    r.lookup name =
      (r.machine.scopes.lookupIn name home <|> r.machine.scopes.lookupIn name .global) := by
  simp only [lookup, lexical, homes]

theorem found_bound (name : String) (value : Value) (home : FrameId) (r : Run)
    (found : r.lookup name = some (value, home)) :
    (r.machine.scopes.contents home).get? name = some value := by
  rw [lookup] at found
  split at found
  · rename_i frame rest _ _
    rw [Option.orElse_eq_orElse, Option.orElse_eq_or, Option.or_eq_some_iff] at found
    rcases found with here | ⟨_, here⟩
    all_goals
      obtain ⟨bound, rfl⟩ := (Scopes.lookup_in_iff _ _ _ _ _).mp here
      exact bound
  · exact Scopes.lookup_bound _ name home value found

end Run

end MiniPostScript
