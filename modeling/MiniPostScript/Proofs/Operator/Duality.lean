import MiniPostScript.Proofs.Operator.Comparisons
import MiniPostScript.Proofs.Operator.Operands

set_option autoImplicit false

namespace MiniPostScript

namespace Single

theorem compare_swap (x y : Single) : y.compare? x = (x.compare? y).map Ordering.swap := by
  rw [compare?, compare?]
  cases x.position? with
  | none => cases y.position? <;> rfl
  | some p =>
      cases y.position? with
      | none => rfl
      | some q => exact congrArg some (Int.compare_swap p q).symm

theorem of_units_abs (negative : Bool) (magnitude : Nat) :
    (ofUnits negative magnitude).abs = ofUnits false magnitude := by
  rw [ofUnits, ofUnits, ofRatio, ofRatio]
  split <;> rfl

theorem sub_abs_comm (x y : Single) : (y.sub x).abs = (x.sub y).abs := by
  cases x with
  | nan => cases y <;> rfl
  | infinite a =>
      cases y with
      | nan => rfl
      | infinite b => cases a <;> cases b <;> rfl
      | finite b n => rfl
  | finite a m =>
      cases y with
      | nan => rfl
      | infinite b => rfl
      | finite b n =>
          have opposite : signed b (units n) - signed a (units m) = -(signed a (units m) - signed b (units n)) :=
            (Int.neg_sub _ _).symm
          simp only [sub, neg, add, signed_not, ← Int.sub_eq_add_neg, opposite, Int.neg_eq_zero, Int.natAbs_neg]
          split
          · rfl
          · rw [of_units_abs, of_units_abs]

end Single

namespace Comparison

theorem order_swap (op : String) (a b : Value) : order op b a = (order op a b).map Ordering.swap := by
  rw [order.eq_def op a b]
  split
  · rename_i m n
    exact congrArg Except.ok (Int.compare_swap m.toInt n.toInt).symm
  · exact congrArg Except.ok Std.OrientedOrd.eq_swap
  · rename_i integers strings
    rw [order]
    · cases a.toSingle? with
      | none => cases b.toSingle? <;> rfl
      | some x =>
          cases b.toSingle? with
          | none => rfl
          | some y =>
              simp only [x.compare_swap y]
              cases x.compare? y <;> rfl
    · exact fun n m second first => integers m n first second
    · exact fun t s second first => strings s t first second

theorem ordered_swap (op : String) (test turned : Ordering → Bool)
    (same : ∀ result, turned result.swap = test result) (a b : Value) :
    ordered op turned b a = (order op a b).map fun result => .boolean (test result) := by
  rw [ordered, order_swap op a b]
  cases order op a b with
  | error error => rfl
  | ok result => exact congrArg (fun test => Except.ok (Value.boolean test)) (same result)

theorem equal_comm (op : String) (a b : Value) : equal op b a = equal op a b := by
  rw [equal.eq_def op a b]
  split
  · exact congrArg Except.ok BEq.comm
  · exact congrArg Except.ok BEq.comm
  · exact congrArg Except.ok BEq.comm
  · exact congrArg Except.ok BEq.comm
  · rename_i integers strings booleans names
    rw [equal]
    · cases a.toSingle? with
      | none => cases b.toSingle? <;> rfl
      | some x =>
          cases b.toSingle? with
          | none => rfl
          | some y => simp only [x.sub_abs_comm y]
    · exact fun n m second first => integers m n first second
    · exact fun t s second first => strings s t first second
    · exact fun q p second first => booleans p q first second
    · exact fun t s second first => names s t first second

-- Whether two values can be compared does not depend on the comparison, only who then complains.
def Found {Finding : Type} (found : String → Except Error Finding) : Prop :=
  (∃ finding, ∀ op, found op = .ok finding) ∨ ∀ op, found op = .error (.typeMismatch op)

theorem order_found (a b : Value) : Found fun op => order op a b := by
  simp only [Found, order.eq_def]
  split
  · exact .inl ⟨_, fun _ => rfl⟩
  · exact .inl ⟨_, fun _ => rfl⟩
  · split
    · split
      · exact .inl ⟨_, fun _ => rfl⟩
      · exact .inr fun _ => rfl
    · exact .inr fun _ => rfl

theorem equal_found (a b : Value) : Found fun op => equal op a b := by
  simp only [Found, equal.eq_def]
  split
  · exact .inl ⟨_, fun _ => rfl⟩
  · exact .inl ⟨_, fun _ => rfl⟩
  · exact .inl ⟨_, fun _ => rfl⟩
  · exact .inl ⟨_, fun _ => rfl⟩
  · split
    · exact .inl ⟨_, fun _ => rfl⟩
    · exact .inr fun _ => rfl

end Comparison

namespace Operator

-- Two comparisons go together. Either both push a Boolean, and the first one tells the second, or both refuse the kinds
-- of their operands.
def Accords (op : Operator) (operands : List Value) (turn : Bool → Bool) (other : Operator) (others : List Value) :
    Prop :=
  (∃ test : Bool, op.Pushes operands (.boolean test) ∧ other.Pushes others (.boolean (turn test))) ∨
    op.Mismatches operands ∧ other.Mismatches others

theorem found_accords {Finding : Type} (found : String → Except Error Finding) (settled : Comparison.Found found)
    (test : Finding → Bool) (turn : Bool → Bool) (op other : Operator) (f g : Value → Value → Except Error Value)
    (a b c d : Value) (rule : op.rule = .binary op.name f) (otherRule : other.rule = .binary other.name g)
    (first : f a b = (found op.name).map fun finding => .boolean (test finding))
    (second : g c d = (found other.name).map fun finding => .boolean (turn (test finding))) :
    op.Accords [a, b] turn other [c, d] := by
  rcases settled with ⟨finding, same⟩ | mismatch
  · rw [same] at first second
    exact .inl ⟨test finding, op.binary_pushes _ f a b _ rule first, other.binary_pushes _ g c d _ otherRule second⟩
  · rw [mismatch] at first second
    exact .inr ⟨(op.binary_fails_iff _ f a b rule _).mpr first, (other.binary_fails_iff _ g c d otherRule _).mpr second⟩

end Operator

theorem comparisons_dual (a b : Value) :
    Operator.lt.Accords [a, b] id .gt [b, a] ∧ Operator.le.Accords [a, b] id .ge [b, a] ∧
    Operator.eq.Accords [a, b] id .eq [b, a] ∧ Operator.eq.Accords [a, b] not .ne [a, b] ∧
    Operator.lt.Accords [a, b] not .ge [a, b] := by
  have ordered := Operator.found_accords _ (Comparison.order_found a b)
  have equated := Operator.found_accords _ (Comparison.equal_found a b)
  refine ⟨?_, ?_, ?_, ?_, ?_⟩
  · refine ordered Ordering.isLT id .lt .gt _ _ a b b a rfl rfl rfl ?_
    exact Comparison.ordered_swap _ _ _ (fun result => by cases result <;> rfl) a b
  · refine ordered Ordering.isLE id .le .ge _ _ a b b a rfl rfl rfl ?_
    exact Comparison.ordered_swap _ _ _ (fun result => by cases result <;> rfl) a b
  · refine equated id id .eq .eq _ _ a b b a rfl rfl rfl ?_
    rw [Comparison.eq, Comparison.equal_comm _ a b]
    rfl
  · exact equated id not .eq .ne _ _ a b a b rfl rfl rfl rfl
  · refine ordered Ordering.isLT not .lt .ge _ _ a b a b rfl rfl rfl ?_
    have told : (fun result : Ordering => Value.boolean result.isGE) = fun result => .boolean !result.isLT :=
      funext fun result => by cases result <;> rfl
    exact congrArg (fun tell => (Comparison.order "ge" a b).map tell) told

end MiniPostScript
