import MiniPostScript.Proofs.Operator.Refusal

set_option autoImplicit false

namespace MiniPostScript

inductive Bids : Operator → List Value → Deed → Prop where
  | beginDict (d : Dictionary) : Bids .beginDict [.dictionary d] (.beginDict d)
  | endDict : Bids .endDict [] .endDict
  | define (key : String) (value : Value) : Bids .define [.name key, value] (.define key value)
  | ifTrue (source : String) : Bids .ifTrue [.boolean true, .block source] (.run source)
  | ifElse (test : Bool) (yes no : String) :
      Bids .ifElse [.boolean test, .block yes, .block no] (.run (if test then yes else no))
  | forLoop (first last step : Integer) (source : String) (moves : step.toInt ≠ 0)
      (starts : Passes.within first last step = true) :
      Bids .forLoop [.integer first, .integer last, .integer step, .block source]
        (.loop source (.counting first last step moves))
  | repeatLoop (n : Integer) (source : String) (more : Nat) (count : n.toInt = more + 1) :
      Bids .repeatLoop [.integer n, .block source] (.loop source (.times more))
  | exec (source : String) : Bids .exec [.block source] (.run source)
  | quit : Bids .quit [] .halt
  | changeScoping : Bids .changeScoping [] (.setScoping Scoping.other)
  | lexical : Bids .lexical [] (.setScoping fun _ => .lexical)
  | dynamic : Bids .dynamic [] (.setScoping fun _ => .dynamic)

namespace Stack

def Shows (s : Stack) (lines : List String) : Prop := ∀ line ∈ lines, ∃ value ∈ s.cells, line = value.text

theorem shows_nothing (s : Stack) : s.Shows [] := fun _ none => nomatch none

end Stack

theorem values_deed (name : String) (needed : Nat) (results : List Value → Except Error (List Value))
    (below stack : Stack) (operands : List Value) (deed : Deed)
    (applied : (Rule.values name needed results).apply below operands = .ok (stack, deed)) :
    deed = .display [] := by
  simp only [Rule.apply] at applied
  split at applied
  · cases applied; rfl
  · cases applied

theorem apply_deed (op : Operator) (below stack : Stack) (operands : List Value) (deed : Deed)
    (arity : operands.length = op.arity)
    (applied : op.rule.apply below operands = .ok (stack, deed)) :
    (∃ lines, deed = .display lines ∧ (below.pushAll operands).Shows lines) ∨
      Bids op operands deed ∧ stack = below := by
  have quiet : ∃ lines, Deed.display [] = .display lines ∧ (below.pushAll operands).Shows lines :=
    ⟨[], rfl, Stack.shows_nothing _⟩
  cases op with
  | exch =>
      obtain ⟨a, b, rfl, done⟩ := exch_applied below operands arity
      cases done.symm.trans applied
      exact .inl quiet
  | dup =>
      obtain ⟨a, rfl, done⟩ := dup_applied below operands arity
      cases done.symm.trans applied
      exact .inl quiet
  | beginDict =>
      simp only [Operator.rule, Rule.apply, Action.beginDict] at applied
      split at applied
      · rename_i d
        cases applied
        exact .inr ⟨.beginDict d, rfl⟩
      · cases applied
  | define =>
      simp only [Operator.rule, Rule.apply, Action.define] at applied
      split at applied
      · rename_i key value
        cases applied
        exact .inr ⟨.define key value, rfl⟩
      · cases applied
  | ifTrue =>
      simp only [Operator.rule, Rule.apply, Action.ifTrue] at applied
      split at applied
      · rename_i test source
        cases applied
        cases test with
        | true => exact .inr ⟨.ifTrue source, rfl⟩
        | false => exact .inl quiet
      · cases applied
  | ifElse =>
      simp only [Operator.rule, Rule.apply, Action.ifElse] at applied
      split at applied
      · rename_i test yes no
        cases applied
        exact .inr ⟨.ifElse test yes no, rfl⟩
      · cases applied
  | forLoop =>
      simp only [Operator.rule, Rule.apply, Action.forLoop] at applied
      split at applied
      · rename_i first last step source
        split at applied
        · rename_i moves
          cases applied
          by_cases starts : Passes.within first last step = true
          · rw [if_pos starts]
            exact .inr ⟨.forLoop first last step source moves starts, rfl⟩
          · rw [if_neg starts]
            exact .inl quiet
        · cases applied
      · cases applied
  | repeatLoop =>
      simp only [Operator.rule, Rule.apply, Action.repeatLoop] at applied
      split at applied
      · rename_i n source
        split at applied
        · cases applied
        · split at applied
          · cases applied
            exact .inl quiet
          · rename_i more count
            cases applied
            exact .inr ⟨.repeatLoop n source more (by omega), rfl⟩
      · cases applied
  | exec =>
      simp only [Operator.rule, Rule.apply, Action.exec] at applied
      split at applied
      · rename_i source
        cases applied
        exact .inr ⟨.exec source, rfl⟩
      · cases applied
  | endDict | quit | changeScoping | lexical | dynamic =>
      obtain rfl := List.length_eq_zero_iff.mp arity
      cases applied
      exact .inr ⟨by constructor, rfl⟩
  | copy | dict =>
      simp only [Operator.rule, Rule.apply, Action.copy, Action.dict] at applied
      split at applied
      · split at applied
        · cases applied
        · cases applied
          exact .inl quiet
      · cases applied
  | print =>
      simp only [Operator.rule, Rule.apply, Action.print] at applied
      split at applied
      · rename_i value
        cases applied
        refine .inl ⟨[value.text], rfl, fun line member => ⟨value, List.mem_cons_self, ?_⟩⟩
        exact List.mem_singleton.mp member
      · cases applied
  | clear | count =>
      cases applied
      exact .inl quiet
  | printStack =>
      cases applied
      refine .inl ⟨_, rfl, fun line member => ?_⟩
      obtain ⟨value, cell, same⟩ := List.mem_map.mp member
      exact ⟨value, List.mem_append_right _ cell, same.symm⟩
  | _ =>
      obtain rfl := values_deed _ _ _ below stack operands deed applied
      exact .inl quiet

theorem bids_arity (op : Operator) (operands : List Value) (deed : Deed) (bids : Bids op operands deed) :
    operands.length = op.arity := by
  cases bids <;> rfl

theorem bids_apply (op : Operator) (below : Stack) (operands : List Value) (deed : Deed)
    (bids : Bids op operands deed) : op.rule.apply below operands = .ok (below, deed) := by
  cases bids with
  | forLoop first last step source moves starts =>
      simp only [Operator.rule, Rule.apply, Action.forLoop, dif_pos moves, if_pos starts]
  | repeatLoop n source more count =>
      have positive : ¬ n.toInt < 0 := by omega
      have passes : n.toInt.toNat = more + 1 := by omega
      simp only [Operator.rule, Rule.apply, Action.repeatLoop, if_neg positive, passes]
  | _ => rfl

theorem perform_deed (op : Operator) (s stack : Stack) (deed : Deed)
    (performed : s.perform op = .ok (stack, deed)) :
    (∃ lines, deed = .display lines ∧ s.Shows lines) ∨
      ∃ operands, Bids op operands deed ∧ s = stack.pushAll operands := by
  obtain ⟨operands, below, arity, rfl, applied⟩ := (perform_ok_iff op s stack deed).mp performed
  rcases apply_deed op below stack operands deed arity applied with lines | ⟨bids, rfl⟩
  · exact .inl lines
  · exact .inr ⟨operands, bids, rfl⟩

theorem bids_perform (op : Operator) (below : Stack) (operands : List Value) (deed : Deed)
    (bids : Bids op operands deed) : (below.pushAll operands).perform op = .ok (below, deed) :=
  (perform_ok_iff op _ below deed).mpr
    ⟨operands, below, bids_arity op operands deed bids, rfl, bids_apply op below operands deed bids⟩

end MiniPostScript
