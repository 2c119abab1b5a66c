import MiniPostScript.Proofs.Run.Values
import MiniPostScript.Proofs.Session.Reached
import MiniPostScript.Proofs.Token.Literal

set_option autoImplicit false

namespace MiniPostScript

def Value.Shaped : Value → Prop
  | .operator _ => False
  | .dictionary d => ∃ n : Integer, 0 ≤ n.toInt ∧ d = .empty n.toInt.toNat
  | _ => True

theorem scalar_shaped (value : Value) (is : value.isScalar = true) : value.Shaped := by
  cases value with
  | integer | real | boolean => trivial
  | _ => cases is

theorem literal_shaped (token : String) (value : Value) (literal : Literal token value) : value.Shaped := by
  cases literal with
  | scalar value is => exact scalar_shaped value is
  | _ => trivial

theorem makes_shaped (op : Operator) (operands : List Value) (value : Value)
    (shaped : ∀ operand ∈ operands, operand.Shaped) (makes : Makes op operands value) : value.Shaped := by
  cases makes with
  | operand value member => exact shaped value member
  | scalar value is => exact scalar_shaped value is
  | string text drawn => trivial
  | dictionary n is taken size => exact ⟨n, size, rfl⟩

namespace Dictionary

theorem insert_all_get (entries : List (String × Value)) (d : Dictionary) (key : String) (value : Value)
    (found : (d.insertAll entries).get? key = some value) : d.get? key = some value ∨ (key, value) ∈ entries := by
  induction entries generalizing d with
  | nil => exact .inl found
  | cons first rest ih =>
      rcases ih (d.insert first.1 first.2) found with early | late
      · by_cases same : key = first.1
        · subst same
          rw [get_insert, if_pos rfl] at early
          obtain rfl := Option.some.inj early
          exact .inr List.mem_cons_self
        · rw [get_insert, if_neg same] at early
          exact .inl early
      · exact .inr (List.mem_cons_of_mem _ late)

theorem builtins_get (key : String) (value : Value) (found : builtins.get? key = some value) :
    ∃ op, (key, op) ∈ Operator.builtins ∧ value = .operator op := by
  rcases insert_all_get _ (empty _) key value found with none | member
  · cases none
  · obtain ⟨⟨name, op⟩, entry, same⟩ := List.mem_map.mp member
    cases same
    exact ⟨op, entry, rfl⟩

end Dictionary

namespace Machine

structure Shaped (m : Machine) : Prop where
  cells : ∀ value ∈ m.stack.cells, value.Shaped
  bound : ∀ frame key value, (m.scopes.contents frame).get? key = some value →
    value.Shaped ∨ frame = .global ∧ Dictionary.builtins.get? key = some value

theorem of_scoping_bound (scoping : Scoping) (frame : FrameId) (key : String) (value : Value)
    (bound : ((ofScoping scoping).scopes.contents frame).get? key = some value) :
    frame = .global ∧ Dictionary.builtins.get? key = some value := by
  cases frame with
  | global => exact ⟨rfl, bound⟩
  | begun index => exact absurd (Scopes.bound_has _ _ key value bound) (Nat.not_lt_zero index)

theorem of_scoping_shaped (scoping : Scoping) : (ofScoping scoping).Shaped where
  cells := fun _ none => nomatch none
  bound := fun frame key value bound => .inr (of_scoping_bound scoping frame key value bound)

end Machine

-- A value that lies on the stack or is bound in a frame, be the frame open or ended.
def Machine.Holds (m : Machine) (value : Value) : Prop :=
  value ∈ m.stack.cells ∨ ∃ frame key, (m.scopes.contents frame).get? key = some value

namespace Run

theorem origin_shaped (token : String) (r : Run) (value : Value) (shaped : r.machine.Shaped)
    (origin : Origin token r value) : value.Shaped := by
  cases origin with
  | kept member => exact shaped.cells value member
  | constant is => exact literal_shaped token value (constant_literal token value is)
  | found home found data =>
      rcases shaped.bound home token value (found_bound token value home r found) with shaped | ⟨_, builtin⟩
      · exact shaped
      · obtain ⟨op, _, rfl⟩ := Dictionary.builtins_get token value builtin
        cases data
  | made op operands below is stack makes =>
      refine makes_shaped op operands value (fun operand member => shaped.cells operand ?_) makes
      rw [stack]
      exact Stack.mem_push_all operand operands below member

theorem step_shaped (r : Run) (shaped : r.machine.Shaped) : r.step.machine.Shaped where
  cells := by
    intro value member
    rcases step_cells r value member with old | ⟨token, _, origin⟩
    · exact shaped.cells value old
    · exact origin_shaped token r value shaped origin
  bound := by
    intro frame key value bound
    rcases step_bound frame key value r bound with old | ⟨_, defined⟩ | ⟨d, begun, inside⟩
    · exact shaped.bound frame key value old
    · exact .inl (shaped.cells value defined)
    · obtain ⟨n, _, rfl⟩ := shaped.cells _ begun
      cases inside

theorem reached_shaped (settings : Settings) (r : Run) (reached : Reached settings r) : r.machine.Shaped := by
  induction reached with
  | fresh => exact Machine.of_scoping_shaped settings.scoping
  | begin line r idle reached ih => exact ih
  | step r reached ih => exact step_shaped r ih

-- A call of `dict` that makes a dictionary.
structure Declares (n : Integer) (d : Dictionary) (r : Run) : Prop where
  operator : r.operator? = some .dict
  size : 0 ≤ n.toInt
  empty : d = .empty n.toInt.toNat
  pushes : ∃ below : Stack, r.machine.stack = below.push (.integer n) ∧
    r.step.machine.stack = below.push (.dictionary d)

theorem dict_declares (n : Integer) (below : Stack) (r : Run) (is : r.operator? = some .dict)
    (size : 0 ≤ n.toInt) (stack : r.machine.stack = below.push (.integer n)) :
    r.Declares n (.empty n.toInt.toNat) := by
  refine ⟨is, size, rfl, below, stack, ?_⟩
  obtain ⟨activity, rest, outer, same⟩ := operator_step .dict r is
  have applied : Operator.dict.rule.apply below [.integer n] =
      .ok (below.push (.dictionary (.empty n.toInt.toNat)), .display []) := by
    simp only [Operator.rule, Rule.apply, Action.dict, if_neg (Int.not_lt.mpr size)]
  have performed := (perform_ok_iff .dict r.machine.stack _ _).mpr ⟨[.integer n], below, rfl, stack, applied⟩
  rw [same, operate_ok .dict (r.shorten activity rest outer) _ _ performed]
  rfl

theorem step_dictionary (d : Dictionary) (r : Run) (shaped : r.machine.Shaped)
    (held : r.step.machine.Holds (.dictionary d)) :
    r.machine.Holds (.dictionary d) ∨ ∃ n, r.Declares n d := by
  rcases held with member | ⟨frame, key, bound⟩
  · rcases step_cells r _ member with old | ⟨token, next, origin⟩
    · exact .inl (.inl old)
    · cases origin with
      | kept old => exact .inl (.inl old)
      | constant is => cases constant_literal token _ is with | scalar _ other => cases other
      | found home found data => exact .inl (.inr ⟨home, token, found_bound token _ home r found⟩)
      | made op operands below is stack makes =>
          cases makes with
          | operand _ member =>
              refine .inl (.inl ?_)
              rw [stack]
              exact Stack.mem_push_all _ operands below member
          | scalar _ other => cases other
          | dictionary n dict taken size =>
              subst dict taken
              have performs : r.operator? = some .dict := by rw [operator?, next]; exact is
              exact .inr ⟨n, dict_declares n below r performs size stack⟩
  · rcases step_bound frame key _ r bound with old | ⟨_, defined⟩ | ⟨outer, begun, inside⟩
    · exact .inl (.inr ⟨frame, key, old⟩)
    · exact .inl (.inl defined)
    · obtain ⟨n, _, rfl⟩ := shaped.cells _ begun
      cases inside

theorem dictionary_declared (settings : Settings) (d : Dictionary) (r : Run) (reached : Reached settings r)
    (held : r.machine.Holds (.dictionary d)) :
    ∃ n past, Reached settings past ∧ past.Declares n d ∧
      Since (fun moment => moment.machine.Holds (.dictionary d)) past.step r := by
  induction reached with
  | fresh =>
      rcases held with none | ⟨frame, key, bound⟩
      · cases none
      · obtain ⟨_, builtin⟩ := Machine.of_scoping_bound settings.scoping frame key _ bound
        obtain ⟨op, _, same⟩ := Dictionary.builtins_get key _ builtin
        cases same
  | begin line r idle reached ih =>
      obtain ⟨n, past, before, declares, since⟩ := ih held
      exact ⟨n, past, before, declares, .begin line r idle since held⟩
  | step r reached ih =>
      rcases step_dictionary d r (reached_shaped settings r reached) held with earlier | ⟨n, declares⟩
      · obtain ⟨n, past, before, declares, since⟩ := ih earlier
        exact ⟨n, past, before, declares, .step r since held⟩
      · exact ⟨n, r, reached, declares, .start held⟩

theorem empty_sizes (n : Integer) (below : Stack) (size : 0 ≤ n.toInt) :
    (below.push (.dictionary (.empty n.toInt.toNat))).perform .length =
        .ok (below.push (.integer 0), .display []) ∧
      (below.push (.dictionary (.empty n.toInt.toNat))).perform .maxLength =
        .ok (below.push (.integer n), .display []) := by
  have exact : Integer.ofSize n.toInt.toNat = n := by
    rw [Integer.ofSize, ← Int32.ofInt_eq_ofNat, Int.toNat_of_nonneg size, Int32.ofInt_toInt]
  have declared : Operator.maxLength.rule.apply below [.dictionary (.empty n.toInt.toNat)] =
      .ok (below.push (.integer (Integer.ofSize n.toInt.toNat)), .display []) := rfl
  rw [exact] at declared
  exact ⟨(perform_ok_iff .length _ _ _).mpr ⟨[.dictionary (.empty _)], below, rfl, rfl, rfl⟩,
    (perform_ok_iff .maxLength _ _ _).mpr ⟨[.dictionary (.empty _)], below, rfl, rfl, declared⟩⟩

theorem values_shaped (settings : Settings) (r : Run) (reached : Reached settings r) :
    (∀ op, .operator op ∉ r.machine.stack.cells) ∧
    (∀ frame name op, (r.machine.scopes.contents frame).get? name = some (.operator op) →
      frame = .global ∧ Dictionary.builtins.get? name = some (.operator op)) ∧
    (∀ d, r.machine.Holds (.dictionary d) → ∃ n past, Reached settings past ∧ past.Declares n d ∧
      Since (fun moment => moment.machine.Holds (.dictionary d)) past.step r) ∧
    (∀ (d : Dictionary) (below : Stack), r.machine.stack = below.push (.dictionary d) →
      r.machine.stack.perform .length = .ok (below.push (.integer 0), .display []) ∧
      ∃ n : Integer, n.toInt = d.capacity ∧
        r.machine.stack.perform .maxLength = .ok (below.push (.integer n), .display [])) := by
  have shaped := reached_shaped settings r reached
  refine ⟨fun op member => shaped.cells _ member, ?_, ?_, ?_⟩
  · intro frame name op bound
    exact (shaped.bound frame name _ bound).resolve_left id
  · intro d held
    exact dictionary_declared settings d r reached held
  · intro d below stack
    obtain ⟨n, size, rfl⟩ := shaped.cells (.dictionary d) (by rw [stack]; exact List.mem_cons_self)
    obtain ⟨length, maxLength⟩ := empty_sizes n below size
    rw [stack]
    exact ⟨length, n, (Int.toNat_of_nonneg size).symm, maxLength⟩

theorem begun_dictionary_empty :
    let r := step^[10] ((fresh .default).begin "/d 3 dict def d begin /x 1 def d")
    ∃ below : Stack, r.machine.stack = below.push (.dictionary (.empty 3)) ∧
      r.machine.stack.perform .length = .ok (below.push (.integer 0), .display []) ∧
      ∃ n past, Reached .default past ∧ past.Declares n (.empty 3) ∧
        Since (fun moment => moment.machine.Holds (.dictionary (.empty 3))) past.step r := by
  intro r
  have stack : r.machine.stack = Stack.empty.push (.dictionary (.empty 3)) := by decide +kernel
  obtain ⟨_, _, declared, sizes⟩ :=
    values_shaped .default r (reached_iterate .default 10 _ (.begin _ _ rfl .fresh))
  exact ⟨.empty, stack, (sizes (.empty 3) .empty stack).1,
    declared (.empty 3) (.inl (by rw [stack]; exact List.mem_cons_self))⟩

end Run

end MiniPostScript
