import MiniPostScript.Proofs.Value.Bindings
import MiniPostScript.Value.Equality

set_option autoImplicit false

namespace MiniPostScript

namespace Single

theorem same_iff (x y : Single) : x.same y = true ↔ ∃ p, x.position? = some p ∧ y.position? = some p := by
  rw [same, beq_iff_eq, compare?]
  cases x.position? with
  | none => simp
  | some p =>
      cases y.position? with
      | none => simp
      | some q =>
          change some (compare p q) = some .eq ↔ _
          rw [Option.some.injEq, Int.compare_eq_eq]
          constructor
          · rintro rfl
            exact ⟨p, rfl, rfl⟩
          · rintro ⟨r, first, second⟩
            exact Option.some.inj (first.trans second.symm)

theorem same_symm (x y : Single) (same : x.same y = true) : y.same x = true := by
  obtain ⟨p, first, second⟩ := (same_iff x y).mp same
  exact (same_iff y x).mpr ⟨p, second, first⟩

theorem same_trans (x y z : Single) (left : x.same y = true) (right : y.same z = true) : x.same z = true := by
  obtain ⟨p, first, second⟩ := (same_iff x y).mp left
  obtain ⟨q, third, fourth⟩ := (same_iff y z).mp right
  obtain rfl := Option.some.inj (second.symm.trans third)
  exact (same_iff x z).mpr ⟨p, first, fourth⟩

theorem same_self (x : Single) : x.same x = true ↔ x ≠ .nan := by
  rw [same_iff]
  cases x with
  | nan => exact ⟨nofun, fun number => absurd rfl number⟩
  | infinite negative => exact ⟨fun _ => Single.noConfusion, fun _ => ⟨_, rfl, rfl⟩⟩
  | finite negative rank => exact ⟨fun _ => Single.noConfusion, fun _ => ⟨_, rfl, rfl⟩⟩

end Single

namespace Value

def Discrete : Value → Prop
  | .real _ | .dictionary _ => False
  | _ => True

theorem discrete_equal_iff (a b : Value) (discrete : a.Discrete) : a.equal b = true ↔ a = b := by
  cases a with
  | real x => cases discrete
  | dictionary d => cases discrete
  | _ => cases b <;> simp [equal]

theorem real_equal_iff (x : Single) (b : Value) : (real x).equal b = true ↔ ∃ y, b = .real y ∧ x.same y = true := by
  cases b <;> simp [equal]

theorem dictionary_equal_iff (m : Nat) (a : Bindings) (b : Value) : (dictionary (.mk m a)).equal b = true ↔
    ∃ other, b = .dictionary (.mk m other) ∧ a.equal other = true := by
  cases b with
  | dictionary e =>
      obtain ⟨n, other⟩ := e
      simp only [equal, Dictionary.equal, Bool.and_eq_true, beq_iff_eq]
      constructor
      · rintro ⟨rfl, inner⟩
        exact ⟨other, rfl, inner⟩
      · rintro ⟨_, same, inner⟩
        cases same
        exact ⟨rfl, inner⟩
  | _ => simp [equal]

end Value

namespace Bindings

theorem nil_equal_iff (b : Bindings) : nil.equal b = true ↔ b = .nil := by
  cases b <;> simp [equal]

theorem cons_equal_iff (key : String) (value : Value) (rest b : Bindings) : (cons key value rest).equal b = true ↔
    ∃ other more, b = .cons key other more ∧ value.equal other = true ∧ rest.equal more = true := by
  cases b with
  | nil => simp [equal]
  | cons k w more =>
      simp only [equal, Bool.and_eq_true, beq_iff_eq, and_assoc]
      constructor
      · rintro ⟨rfl, here, later⟩
        exact ⟨w, more, rfl, here, later⟩
      · rintro ⟨_, _, same, here, later⟩
        cases same
        exact ⟨rfl, here, later⟩

theorem equal_related (a b : Bindings) : a.equal b = true ↔ Related (fun v w => v.equal w = true) a b := by
  cases a with
  | nil =>
      cases b with
      | nil => exact iff_of_true rfl .nil
      | cons k w other => exact ⟨nofun, nofun⟩
  | cons j v rest =>
      cases b with
      | nil => exact ⟨nofun, nofun⟩
      | cons k w other =>
          have later := equal_related rest other
          simp only [equal, Bool.and_eq_true, beq_iff_eq, later, Related, toList, List.forall₂_cons]

end Bindings

mutual
theorem value_equal_symm (a b : Value) (equal : a.equal b = true) : b.equal a = true := by
  cases a with
  | real x =>
      obtain ⟨y, rfl, same⟩ := (Value.real_equal_iff x b).mp equal
      exact Single.same_symm x y same
  | dictionary d =>
      obtain ⟨m, inner⟩ := d
      obtain ⟨other, rfl, within⟩ := (Value.dictionary_equal_iff m inner b).mp equal
      exact (Value.dictionary_equal_iff m other _).mpr ⟨inner, rfl, bindings_equal_symm inner other within⟩
  | _ =>
      obtain rfl := (Value.discrete_equal_iff _ b (by trivial)).mp equal
      exact equal
theorem bindings_equal_symm (a b : Bindings) (equal : a.equal b = true) : b.equal a = true := by
  cases a with
  | nil =>
      obtain rfl := (Bindings.nil_equal_iff b).mp equal
      rfl
  | cons key value rest =>
      obtain ⟨other, more, rfl, here, later⟩ := (Bindings.cons_equal_iff key value rest b).mp equal
      exact (Bindings.cons_equal_iff key other more _).mpr
        ⟨value, rest, rfl, value_equal_symm value other here, bindings_equal_symm rest more later⟩
end

mutual
theorem value_equal_trans (a b c : Value) (left : a.equal b = true) (right : b.equal c = true) : a.equal c = true := by
  cases a with
  | real x =>
      obtain ⟨y, rfl, same⟩ := (Value.real_equal_iff x b).mp left
      obtain ⟨z, rfl, further⟩ := (Value.real_equal_iff y c).mp right
      exact Single.same_trans x y z same further
  | dictionary d =>
      obtain ⟨m, inner⟩ := d
      obtain ⟨other, rfl, within⟩ := (Value.dictionary_equal_iff m inner b).mp left
      obtain ⟨third, rfl, further⟩ := (Value.dictionary_equal_iff m other c).mp right
      exact (Value.dictionary_equal_iff m inner _).mpr ⟨third, rfl, bindings_equal_trans inner other third within further⟩
  | _ =>
      obtain rfl := (Value.discrete_equal_iff _ b (by trivial)).mp left
      exact right
theorem bindings_equal_trans (a b c : Bindings) (left : a.equal b = true) (right : b.equal c = true) :
    a.equal c = true := by
  cases a with
  | nil =>
      obtain rfl := (Bindings.nil_equal_iff b).mp left
      exact right
  | cons key value rest =>
      obtain ⟨other, more, rfl, here, later⟩ := (Bindings.cons_equal_iff key value rest b).mp left
      obtain ⟨third, last, rfl, there, further⟩ := (Bindings.cons_equal_iff key other more c).mp right
      exact (Bindings.cons_equal_iff key value rest _).mpr ⟨third, last, rfl, value_equal_trans value other third here there,
        bindings_equal_trans rest more last later further⟩
end

-- A value itself, or one that is bound in a dictionary within it.
inductive Value.Inside (inner : Value) : Value → Prop where
  | here : Value.Inside inner inner
  | bound (d : Dictionary) (name : String) (value : Value) (entry : (name, value) ∈ d.bindings.toList)
      (within : Value.Inside inner value) : Value.Inside inner (.dictionary d)

theorem Value.inside_plain_iff (inner a : Value) (is : ∀ d, a ≠ .dictionary d) : inner.Inside a ↔ inner = a := by
  constructor
  · intro within
    cases within with
    | here => rfl
    | bound d => exact absurd rfl (is d)
  · rintro rfl
    exact .here

theorem Value.inside_dictionary_iff (inner : Value) (d : Dictionary) (is : ∀ d, inner ≠ .dictionary d) :
    inner.Inside (.dictionary d) ↔ ∃ entry ∈ d.bindings.toList, inner.Inside entry.2 := by
  constructor
  · intro within
    cases within with
    | here => exact absurd rfl (is d)
    | bound _ name value entry within => exact ⟨(name, value), entry, within⟩
  · rintro ⟨⟨name, value⟩, entry, within⟩
    exact .bound d name value entry within

theorem Value.discrete_equal_self (a : Value) (discrete : a.Discrete) :
    a.equal a = true ↔ ¬(Value.real .nan).Inside a := by
  rw [inside_plain_iff]
  · refine iff_of_true ((discrete_equal_iff a a discrete).mpr rfl) ?_
    rintro rfl
    exact discrete
  · rintro d rfl
    exact discrete

mutual
theorem value_equal_self (a : Value) : a.equal a = true ↔ ¬(Value.real .nan).Inside a := by
  cases a with
  | real x =>
      rw [Value.inside_plain_iff (.real .nan) (.real x) nofun, Value.real.injEq]
      exact (Single.same_self x).trans (not_congr eq_comm)
  | dictionary d =>
      obtain ⟨m, inner⟩ := d
      rw [Value.inside_dictionary_iff (.real .nan) _ nofun, Value.equal, Dictionary.equal, beq_self_eq_true, Bool.true_and]
      exact bindings_equal_self inner
  | _ => exact Value.discrete_equal_self _ (by trivial)
theorem bindings_equal_self (a : Bindings) :
    a.equal a = true ↔ ¬∃ entry ∈ a.toList, (Value.real .nan).Inside entry.2 := by
  cases a with
  | nil => exact iff_of_true rfl (by simp [Bindings.toList])
  | cons key value rest =>
      rw [Bindings.equal, beq_self_eq_true, Bool.true_and, Bool.and_eq_true, value_equal_self value,
        bindings_equal_self rest, Bindings.toList]
      simp only [List.mem_cons, exists_eq_or_imp, not_or]
end

mutual
def Value.copy : Value → Value
  | .dictionary d => .dictionary d.copy
  | value => value
def Dictionary.copy : Dictionary → Dictionary
  | .mk capacity bindings => .mk capacity bindings.copy
def Bindings.copy : Bindings → Bindings
  | .nil => .nil
  | .cons key value rest => .cons key value.copy rest.copy
end

mutual
theorem value_copy_same (a : Value) : a.copy = a := by
  cases a with
  | dictionary d =>
      obtain ⟨m, inner⟩ := d
      rw [Value.copy, Dictionary.copy, bindings_copy_same inner]
  | _ => rfl
theorem bindings_copy_same (a : Bindings) : a.copy = a := by
  cases a with
  | nil => rfl
  | cons key value rest => rw [Bindings.copy, value_copy_same value, bindings_copy_same rest]
end

theorem equal_kinds (a b : Value) (equal : a.equal b = true) : a.kind = b.kind := by
  cases a with
  | real x =>
      obtain ⟨y, rfl, _⟩ := (Value.real_equal_iff x b).mp equal
      rfl
  | dictionary d =>
      obtain ⟨m, inner⟩ := d
      obtain ⟨other, rfl, _⟩ := (Value.dictionary_equal_iff m inner b).mp equal
      rfl
  | _ =>
      obtain rfl := (Value.discrete_equal_iff _ b (by trivial)).mp equal
      rfl

theorem sorted_equal_iff (d e : Dictionary) (left : d.bindings.Sorted) (right : e.bindings.Sorted) :
    d.equal e = true ↔ d.capacity = e.capacity ∧
      ∀ name, Option.Rel (fun v w => v.equal w = true) (d.get? name) (e.get? name) := by
  obtain ⟨m, a⟩ := d
  obtain ⟨n, b⟩ := e
  rw [Dictionary.equal, Bool.and_eq_true, beq_iff_eq, Bindings.equal_related, Bindings.sorted_related _ a b left right]
  rfl

theorem equality_laws (a b c : Value) :
    (a.equal b = true → b.equal a = true) ∧
    (a.equal b = true → b.equal c = true → a.equal c = true) ∧
    (a.equal a = true ↔ ¬(Value.real .nan).Inside a) ∧
    (a.copy.equal a = true ↔ ¬(Value.real .nan).Inside a) ∧
    (a.equal b = true → a.kind = b.kind) ∧
    ∀ m n entries others, (Value.dictionary (.ofList m entries)).equal (.dictionary (.ofList n others)) = true ↔
      m = n ∧ ∀ name, Option.Rel (fun v w => v.equal w = true) ((Dictionary.ofList m entries).get? name)
        ((Dictionary.ofList n others).get? name) := by
  refine ⟨value_equal_symm a b, value_equal_trans a b c, value_equal_self a, ?_, equal_kinds a b, ?_⟩
  · rw [value_copy_same]
    exact value_equal_self a
  · intro m n entries others
    rw [Value.equal, sorted_equal_iff _ _ (Dictionary.of_list_sorted m entries) (Dictionary.of_list_sorted n others),
      Dictionary.of_list_capacity, Dictionary.of_list_capacity]

theorem opposite_zeros_equal :
    let a := Value.dictionary (.ofList 2 [("x", .real (.finite false 0)), ("y", .integer 1)])
    let b := Value.dictionary (.ofList 2 [("y", .integer 1), ("x", .real (.finite true 0))])
    a ≠ b ∧ a.equal b = true ∧ b.equal a = true ∧ a.kind = b.kind ∧ ¬(Value.real .nan).Inside a := by
  intro a b
  have equal : a.equal b = true := by decide +kernel
  obtain ⟨symm, trans, self, _, kinds, _⟩ := equality_laws a b a
  exact ⟨by decide +kernel, equal, symm equal, kinds equal, self.mp (trans equal (symm equal))⟩

end MiniPostScript
