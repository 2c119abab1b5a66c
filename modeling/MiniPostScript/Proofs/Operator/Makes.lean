import MiniPostScript.Proofs.Operator.Results

set_option autoImplicit false

namespace MiniPostScript

def Value.isScalar : Value → Bool
  | .integer _ | .real _ | .boolean _ => true
  | _ => false

inductive Makes (op : Operator) (operands : List Value) : Value → Prop where
  | operand (value : Value) (member : value ∈ operands) : Makes op operands value
  | scalar (value : Value) (is : value.isScalar = true) : Makes op operands value
  | string (text : String)
      (drawn : ∀ c ∈ text.toList, ∃ source, .string source ∈ operands ∧ c ∈ source.toList) :
      Makes op operands (.string text)
  | dictionary (n : Integer) (is : op = .dict) (taken : operands = [.integer n]) (size : 0 ≤ n.toInt) :
      Makes op operands (.dictionary (.empty n.toInt.toNat))

def Scalar (outcome : Except Error Value) : Prop := ∀ value, outcome = .ok value → value.isScalar = true

theorem scalar_error (error : Error) : Scalar (.error error) := fun _ made => nomatch made

theorem scalar_ok (value : Value) (is : value.isScalar = true) : Scalar (.ok value) := by
  intro made same
  rwa [← Except.ok.inj same]

theorem numeric_scalar (outcome : Except Error Value) (numeric : Numeric outcome) : Scalar outcome := by
  intro value made
  cases numeric value made <;> rfl

theorem map_scalar {α : Type} (outcome : Except Error α) (f : α → Value)
    (made : ∀ a, (f a).isScalar = true) : Scalar (outcome.map f) := by
  cases outcome with
  | error error => exact scalar_error error
  | ok a => exact scalar_ok (f a) (made a)

namespace Comparison

theorem ordered_scalar (op : String) (test : Ordering → Bool) (a b : Value) : Scalar (ordered op test a b) :=
  map_scalar _ _ fun _ => rfl

theorem eq_scalar (a b : Value) : Scalar (eq a b) := map_scalar _ _ fun _ => rfl

theorem ne_scalar (a b : Value) : Scalar (ne a b) := map_scalar _ _ fun _ => rfl

theorem and_scalar (a b : Value) : Scalar (and a b) := by
  rw [and.eq_def]
  split
  · exact scalar_ok _ rfl
  · exact scalar_ok _ rfl
  · exact scalar_error _

theorem or_scalar (a b : Value) : Scalar (or a b) := by
  rw [or.eq_def]
  split
  · exact scalar_ok _ rfl
  · exact scalar_ok _ rfl
  · exact scalar_error _

theorem not_scalar (a : Value) : Scalar (not a) := by
  rw [not.eq_def]
  split
  · exact scalar_ok _ rfl
  · exact scalar_ok _ rfl
  · exact scalar_error _

end Comparison

namespace Strings

theorem length_scalar (a : Value) : Scalar (length a) := by
  rw [length.eq_def]
  split
  · exact scalar_ok _ rfl
  · exact scalar_ok _ rfl
  · exact scalar_error _

theorem max_length_scalar (a : Value) : Scalar (maxLength a) := by
  rw [maxLength.eq_def]
  split
  · exact scalar_ok _ rfl
  · exact scalar_error _

theorem get_scalar (a b : Value) : Scalar (get a b) := by
  rw [get.eq_def]
  split
  · rename_i text place
    cases index "get" place with
    | error error => exact scalar_error error
    | ok place =>
        simp only [bind, Except.bind]
        split
        · exact scalar_ok _ rfl
        · exact scalar_error _
  · exact scalar_error _

theorem get_interval_makes (op : Operator) (a b c value : Value) (made : getInterval a b c = .ok value) :
    Makes op [a, b, c] value := by
  rw [getInterval.eq_def] at made
  split at made
  · rename_i text start count
    cases first : index "getinterval" start with
    | error error => simp [first, bind, Except.bind] at made
    | ok start =>
        cases second : index "getinterval" count with
        | error error => simp [first, second, bind, Except.bind] at made
        | ok count =>
            simp only [first, second, bind, Except.bind] at made
            split at made
            · cases made
            · cases made
              refine .string _ fun c member => ⟨text, by simp, ?_⟩
              rw [String.toList_ofList] at member
              exact List.mem_of_mem_drop (List.mem_of_mem_take member)
  · cases made

theorem put_interval_makes (op : Operator) (a b c value : Value) (made : putInterval a b c = .ok value) :
    Makes op [a, b, c] value := by
  rw [putInterval.eq_def] at made
  split at made
  · rename_i text start source
    cases first : index "putinterval" start with
    | error error => simp [first, bind, Except.bind] at made
    | ok start =>
        simp only [first, bind, Except.bind] at made
        split at made
        · cases made
        · cases made
          refine .string _ fun c member => ?_
          rw [String.toList_ofList, List.mem_append, List.mem_append] at member
          rcases member with (early | inner) | late
          · exact ⟨text, by simp, List.mem_of_mem_take early⟩
          · exact ⟨source, by simp, inner⟩
          · exact ⟨text, by simp, List.mem_of_mem_drop late⟩
  · cases made

end Strings

namespace Rule

def Accounted (op : Operator) (rule : Rule) : Prop :=
  ∀ below operands stack deed, rule.apply below operands = .ok (stack, deed) →
    ∀ value ∈ stack.cells, value ∈ below.cells ∨ Makes op operands value

theorem values_accounted (op : Operator) (name : String) (needed : Nat)
    (results : List Value → Except Error (List Value))
    (makes : ∀ operands pushed, results operands = .ok pushed → ∀ value ∈ pushed, Makes op operands value) :
    Accounted op (.values name needed results) := by
  intro below operands stack deed applied value member
  simp only [apply] at applied
  cases made : results operands with
  | error error => simp [made] at applied
  | ok pushed =>
      simp only [made] at applied
      cases applied
      rcases List.mem_append.mp member with new | old
      · exact .inr (makes operands pushed made value (List.mem_reverse.mp new))
      · exact .inl old

theorem mapped_accounted (op : Operator) (operands pushed : List Value) (outcome : Except Error Value)
    (makes : ∀ value, outcome = .ok value → Makes op operands value)
    (done : (outcome.map fun result => [result]) = .ok pushed) :
    ∀ value ∈ pushed, Makes op operands value := by
  obtain ⟨result, made, rfl⟩ := mapped_result outcome pushed done
  intro value member
  obtain rfl := List.mem_singleton.mp member
  exact makes value made

theorem unary_accounted (op : Operator) (name : String) (f : Value → Except Error Value)
    (makes : ∀ a value, f a = .ok value → Makes op [a] value) : Accounted op (unary name f) := by
  refine values_accounted op _ _ _ fun operands pushed done => ?_
  split at done
  · exact mapped_accounted op _ pushed _ (makes _) done
  · cases done

theorem binary_accounted (op : Operator) (name : String) (f : Value → Value → Except Error Value)
    (makes : ∀ a b value, f a b = .ok value → Makes op [a, b] value) : Accounted op (binary name f) := by
  refine values_accounted op _ _ _ fun operands pushed done => ?_
  split at done
  · exact mapped_accounted op _ pushed _ (makes _ _) done
  · cases done

theorem ternary_accounted (op : Operator) (name : String) (f : Value → Value → Value → Except Error Value)
    (makes : ∀ a b c value, f a b c = .ok value → Makes op [a, b, c] value) :
    Accounted op (ternary name f) := by
  refine values_accounted op _ _ _ fun operands pushed done => ?_
  split at done
  · exact mapped_accounted op _ pushed _ (makes _ _ _) done
  · cases done

theorem unary_scalar (op : Operator) (name : String) (f : Value → Except Error Value) (scalar : ∀ a, Scalar (f a)) :
    Accounted op (unary name f) :=
  unary_accounted op name f fun a value made => .scalar value (scalar a value made)

theorem binary_scalar (op : Operator) (name : String) (f : Value → Value → Except Error Value)
    (scalar : ∀ a b, Scalar (f a b)) : Accounted op (binary name f) :=
  binary_accounted op name f fun a b value made => .scalar value (scalar a b value made)

theorem unary_numeric (op : Operator) (name : String) (f : Value → Except Error Value) (numeric : ∀ a, Numeric (f a)) :
    Accounted op (unary name f) :=
  unary_scalar op name f fun a => numeric_scalar (f a) (numeric a)

theorem binary_numeric (op : Operator) (name : String) (f : Value → Value → Except Error Value)
    (numeric : ∀ a b, Numeric (f a b)) : Accounted op (binary name f) :=
  binary_scalar op name f fun a b => numeric_scalar (f a b) (numeric a b)

theorem changes_accounted (op : Operator) (change : Stack → Except Error Stack)
    (keeps : ∀ s after, change s = .ok after → ∀ value ∈ after.cells, value ∈ s.cells) :
    Accounted op (.changes change) := by
  intro below operands stack deed applied value member
  simp only [apply] at applied
  cases changed : change (below.pushAll operands) with
  | error error => simp [changed] at applied
  | ok after =>
      simp only [changed] at applied
      cases applied
      rcases List.mem_append.mp (keeps _ _ changed value member) with operand | old
      · exact .inr (.operand value (List.mem_reverse.mp operand))
      · exact .inl old

theorem exch_keeps (s after : Stack) (done : s.exch = .ok after) (value : Value) (member : value ∈ after.cells) :
    value ∈ s.cells := by
  rw [Stack.exch, Stack.require] at done
  split at done
  · cases done
  · cases done
    rw [Stack.exchanged.eq_def] at member
    split at member
    · rename_i upper lower below same
      rw [same]
      exact (List.Perm.swap upper lower below).mem_iff.mp member
    · exact member

theorem dup_keeps (s after : Stack) (done : s.dup = .ok after) (value : Value) (member : value ∈ after.cells) :
    value ∈ s.cells := by
  rw [Stack.dup] at done
  split at done
  · cases done
  · rename_i top found
    cases done
    rcases List.mem_cons.mp member with rfl | old
    · exact List.mem_of_head? found
    · exact old

theorem copy_accounted : Accounted .copy (.acts "copy" 1 Action.copy) := by
  intro below operands stack deed applied value member
  simp only [apply, Action.copy] at applied
  split at applied
  · split at applied
    · cases applied
    · cases applied
      rcases List.mem_append.mp member with copied | old
      · exact .inl (List.mem_of_mem_take copied)
      · exact .inl old
  · cases applied

theorem dict_accounted : Accounted .dict (.acts "dict" 1 Action.dict) := by
  intro below operands stack deed applied value member
  simp only [apply, Action.dict] at applied
  split at applied
  · rename_i n
    split at applied
    · cases applied
    · rename_i size
      cases applied
      rcases List.mem_cons.mp member with rfl | old
      · exact .inr (.dictionary n rfl rfl (Int.not_lt.mp size))
      · exact .inl old
  · cases applied

theorem beneath_accounted (op : Operator) (rule : Rule)
    (beneath : ∀ below operands stack deed, rule.apply below operands = .ok (stack, deed) → stack = below) :
    Accounted op rule := by
  intro below operands stack deed applied value member
  exact .inl (beneath below operands stack deed applied ▸ member)

end Rule

theorem rule_accounted (op : Operator) : op.rule.Accounted op := by
  cases op with
  | exch => exact Rule.changes_accounted _ _ Rule.exch_keeps
  | dup => exact Rule.changes_accounted _ _ Rule.dup_keeps
  | pop =>
      refine Rule.values_accounted _ _ _ _ fun operands pushed done => ?_
      cases done
      exact fun _ none => nomatch none
  | copy => exact Rule.copy_accounted
  | dict => exact Rule.dict_accounted
  | clear =>
      intro below operands stack deed applied value member
      cases applied
      cases member
  | count =>
      intro below operands stack deed applied value member
      cases applied
      rcases List.mem_cons.mp member with rfl | old
      · exact .inr (.scalar _ rfl)
      · exact .inl old
  | add | sub | mul => exact Rule.binary_numeric _ _ _ (Arithmetic.on_numbers_numeric _ _ _)
  | div => exact Rule.binary_numeric _ _ _ Arithmetic.div_numeric
  | mod => exact Rule.binary_numeric _ _ _ Arithmetic.mod_numeric
  | idiv => exact Rule.binary_numeric _ _ _ Arithmetic.idiv_numeric
  | abs | neg | ceil | floor | round => exact Rule.unary_numeric _ _ _ (Arithmetic.on_number_numeric _ _ _)
  | sqrt => exact Rule.unary_numeric _ _ _ Arithmetic.sqrt_numeric
  | length => exact Rule.unary_scalar _ _ _ Strings.length_scalar
  | maxLength => exact Rule.unary_scalar _ _ _ Strings.max_length_scalar
  | get => exact Rule.binary_scalar _ _ _ Strings.get_scalar
  | getInterval => exact Rule.ternary_accounted _ _ _ (Strings.get_interval_makes _)
  | putInterval => exact Rule.ternary_accounted _ _ _ (Strings.put_interval_makes _)
  | eq => exact Rule.binary_scalar _ _ _ Comparison.eq_scalar
  | ne => exact Rule.binary_scalar _ _ _ Comparison.ne_scalar
  | gt | lt | ge | le => exact Rule.binary_scalar _ _ _ (Comparison.ordered_scalar _ _)
  | and => exact Rule.binary_scalar _ _ _ Comparison.and_scalar
  | or => exact Rule.binary_scalar _ _ _ Comparison.or_scalar
  | not => exact Rule.unary_scalar _ _ _ Comparison.not_scalar
  | beginDict | define | ifTrue | ifElse | exec | print =>
      refine Rule.beneath_accounted _ _ fun below operands stack deed applied => ?_
      simp only [Operator.rule, Rule.apply, Action.beginDict, Action.define, Action.ifTrue,
        Action.ifElse, Action.exec, Action.print] at applied
      split at applied <;> cases applied
      rfl
  | forLoop =>
      refine Rule.beneath_accounted _ _ fun below operands stack deed applied => ?_
      simp only [Operator.rule, Rule.apply, Action.forLoop] at applied
      split at applied
      · split at applied <;> cases applied
        rfl
      · cases applied
  | repeatLoop =>
      refine Rule.beneath_accounted _ _ fun below operands stack deed applied => ?_
      simp only [Operator.rule, Rule.apply, Action.repeatLoop] at applied
      split at applied
      · split at applied
        · cases applied
        · split at applied <;> cases applied <;> rfl
      · cases applied
  | endDict | quit | printStack | changeScoping | lexical | dynamic =>
      refine Rule.beneath_accounted _ _ fun below operands stack deed applied => ?_
      cases applied
      rfl

theorem Stack.mem_push_all (value : Value) (operands : List Value) (below : Stack)
    (member : value ∈ operands) : value ∈ (below.pushAll operands).cells :=
  List.mem_append_left _ (List.mem_reverse.mpr member)

theorem perform_makes (op : Operator) (s stack : Stack) (deed : Deed)
    (performed : s.perform op = .ok (stack, deed)) :
    ∃ (operands : List Value) (below : Stack), s = below.pushAll operands ∧
      ∀ value ∈ stack.cells, value ∈ below.cells ∨ Makes op operands value := by
  obtain ⟨operands, below, _, same, applied⟩ := (perform_ok_iff op s stack deed).mp performed
  exact ⟨operands, below, same, rule_accounted op below operands stack deed applied⟩

end MiniPostScript
