import MiniPostScript.Proofs.Number.Whole
import MiniPostScript.Proofs.Operator.Comparisons
import MiniPostScript.Proofs.Operator.Operands

set_option autoImplicit false

namespace MiniPostScript

namespace Value

-- A number is at most another one if it stands before it or at one place with it. Of two integers at one place it may
-- not be the greater one.
def AtMost (a b : Value) : Prop :=
  ∃ p q, a.place? = some p ∧ b.place? = some q ∧
    (p < q ∨ p = q ∧ ∀ m n : Integer, a = .integer m → b = .integer n → m.toInt ≤ n.toInt)

-- A real to which two different integers are rounded, the greater of them named first.
inductive Merges : Value → Value → Value → Prop where
  | intro (x : Single) (m n : Integer) (less : n.toInt < m.toInt)
      (greater : (Value.integer m).place? = (Value.real x).place?)
      (smaller : (Value.integer n).place? = (Value.real x).place?) :
      Merges (.real x) (.integer m) (.integer n)

theorem integer_place (n : Integer) :
    (integer n).place? = some (Single.signed (decide (n.toInt < 0)) (Single.wholeUnits n.toInt.natAbs)) := by
  rw [place?, toSingle?, Option.bind_some, Single.of_int_position]

theorem at_most_iff (a b : Value) (p q : Int) (first : a.place? = some p) (second : b.place? = some q) :
    a.AtMost b ↔ p < q ∨ p = q ∧ ∀ m n : Integer, a = .integer m → b = .integer n → m.toInt ≤ n.toInt := by
  constructor
  · rintro ⟨r, s, left, right, order⟩
    obtain rfl := Option.some.inj (first.symm.trans left)
    obtain rfl := Option.some.inj (second.symm.trans right)
    exact order
  · exact fun order => ⟨p, q, first, second, order⟩

theorem at_most_integers (m n : Integer) : (integer m).AtMost (.integer n) ↔ m.toInt ≤ n.toInt := by
  rw [at_most_iff _ _ _ _ (integer_place m) (integer_place n)]
  constructor
  · rintro (before | ⟨_, order⟩)
    · refine Int.not_lt.mp fun greater => Int.not_le.mpr before ?_
      exact Single.signed_whole_mono _ _ (Int.le_of_lt greater)
    · exact order m n rfl rfl
  · intro le
    refine (Int.lt_or_eq_of_le (Single.signed_whole_mono _ _ le)).imp_right fun same => ⟨same, ?_⟩
    rintro _ _ ⟨⟩ ⟨⟩
    exact le

theorem at_most_places (a b : Value) (p q : Int) (first : a.place? = some p) (second : b.place? = some q)
    (real : (∃ x, a = .real x) ∨ ∃ y, b = .real y) : a.AtMost b ↔ p ≤ q := by
  rw [at_most_iff a b p q first second, Int.le_iff_lt_or_eq]
  refine or_congr_right (and_iff_left ?_)
  rintro m n rfl rfl
  rcases real with ⟨_, other⟩ | ⟨_, other⟩ <;> cases other

theorem at_most_total (a b : Value) (p q : Int) (first : a.place? = some p) (second : b.place? = some q) :
    a.AtMost b ∨ b.AtMost a := by
  rw [at_most_iff a b p q first second, at_most_iff b a q p second first]
  rcases Int.lt_trichotomy p q with before | same | after
  · exact .inl (.inl before)
  · by_cases order : ∀ m n : Integer, a = .integer m → b = .integer n → m.toInt ≤ n.toInt
    · exact .inl (.inr ⟨same, order⟩)
    · refine .inr (.inr ⟨same.symm, ?_⟩)
      rintro n m rfl rfl
      refine Int.not_lt.mp fun less => order ?_
      rintro _ _ ⟨⟩ ⟨⟩
      exact Int.le_of_lt less
  · exact .inr (.inl after)

-- Places alone make a chain. At one place an integer in the middle passes the order on, and a real does not.
theorem at_most_trans (a b c : Value) (apart : ¬b.Merges a c) (first : a.AtMost b) (second : b.AtMost c) :
    a.AtMost c := by
  obtain ⟨p, q, left, middle, before⟩ := first
  obtain ⟨q', r, middle', right, after⟩ := second
  obtain rfl := Option.some.inj (middle.symm.trans middle')
  rw [at_most_iff a c p r left right]
  rcases before with before | ⟨rfl, below⟩
  · rcases after with after | ⟨rfl, _⟩
    · exact .inl (Int.lt_trans before after)
    · exact .inl before
  · rcases after with after | ⟨rfl, above⟩
    · exact .inl after
    · refine .inr ⟨rfl, ?_⟩
      rintro m n rfl rfl
      obtain ⟨x, single, _⟩ := Option.bind_eq_some_iff.mp middle
      rcases single_cases b x single with ⟨k, rfl⟩ | ⟨y, rfl⟩
      · exact Int.le_trans (below m k rfl rfl) (above k n rfl rfl)
      · exact Int.not_lt.mp fun less =>
          apart (.intro y m n less (left.trans middle.symm) (right.trans middle.symm))

theorem merges_broken (a b c : Value) (merges : b.Merges a c) : a.AtMost b ∧ b.AtMost c ∧ ¬a.AtMost c := by
  obtain ⟨x, m, n, less, greater, smaller⟩ := merges
  have left := integer_place m
  have right := integer_place n
  have same := Option.some.inj (left.symm.trans (greater.trans (smaller.symm.trans right)))
  rw [greater] at left
  rw [at_most_places _ _ _ _ (greater.trans left) left (.inr ⟨x, rfl⟩),
    at_most_places _ _ _ _ left right (.inl ⟨x, rfl⟩), at_most_integers]
  exact ⟨Int.le_refl _, Int.le_of_eq same, Int.not_le.mpr less⟩

theorem merges_large (a b c : Value) (merges : b.Merges a c) :
    ∃ m n : Integer, a = .integer m ∧ c = .integer n ∧ 16777216 ≤ m.toInt.natAbs ∧ 16777216 ≤ n.toInt.natAbs := by
  obtain ⟨x, m, n, less, greater, smaller⟩ := merges
  have same := smaller.trans greater.symm
  rw [integer_place, integer_place] at same
  have together := Int.not_lt.mpr (Int.le_of_eq (Option.some.inj same).symm)
  refine ⟨m, n, rfl, rfl, Nat.not_lt.mp fun few => ?_, Nat.not_lt.mp fun few => ?_⟩
  · exact together (Single.whole_apart _ _ less (.inr few))
  · exact together (Single.whole_apart _ _ less (.inl few))

end Value

namespace Comparison

theorem order_at_most (a b : Value) (p q : Int) (first : a.place? = some p) (second : b.place? = some q) :
    ∃ result, (∀ op, order op a b = .ok result) ∧ (result.isLE = true ↔ a.AtMost b) := by
  obtain ⟨x, left, here⟩ := Option.bind_eq_some_iff.mp first
  obtain ⟨y, right, there⟩ := Option.bind_eq_some_iff.mp second
  have singles (real : (∃ x, a = .real x) ∨ ∃ y, b = .real y) :
      ∃ result, (∀ op, order op a b = .ok result) ∧ (result.isLE = true ↔ a.AtMost b) := by
    have placed := Single.compare_positions x y p q here there
    refine ⟨_, fun op => (singles_compared a b x y left right real _ placed op).1, ?_⟩
    rw [Value.at_most_places a b p q first second real, Int.isLE_compare]
  rcases Value.single_cases a x left with ⟨m, rfl⟩ | real
  · rcases Value.single_cases b y right with ⟨n, rfl⟩ | real
    · refine ⟨_, fun _ => rfl, ?_⟩
      rw [Value.at_most_integers, Int.isLE_compare]
    · exact singles (.inr real)
  · exact singles (.inl real)

theorem le_pushes_iff (a b : Value) (p q : Int) (first : a.place? = some p) (second : b.place? = some q) :
    (Operator.le.Pushes [a, b] (.boolean true) ↔ a.AtMost b) ∧
      (Operator.le.Pushes [a, b] (.boolean false) ↔ ¬a.AtMost b) := by
  obtain ⟨result, placed, most⟩ := order_at_most a b p q first second
  have pushed := order_pushed a b result placed .le _ _ rfl
  have only (test : Bool) : Operator.le.Pushes [a, b] (.boolean test) ↔ result.isLE = test := by
    constructor
    · exact fun pushes => Value.boolean.inj (Operator.le.pushes_unique _ _ _ pushed pushes)
    · rintro rfl
      exact pushed
  exact ⟨(only true).trans most, (only false).trans (Bool.eq_false_iff.trans (not_congr most))⟩

end Comparison

theorem le_preorder (a b c : Value) (p q r : Int) (first : a.place? = some p) (second : b.place? = some q)
    (third : c.place? = some r) :
    (Operator.le.Pushes [a, b] (.boolean true) ∨ Operator.le.Pushes [b, a] (.boolean true)) ∧
    (¬b.Merges a c → Operator.le.Pushes [a, b] (.boolean true) → Operator.le.Pushes [b, c] (.boolean true) →
      Operator.le.Pushes [a, c] (.boolean true)) ∧
    (b.Merges a c → Operator.le.Pushes [a, b] (.boolean true) ∧ Operator.le.Pushes [b, c] (.boolean true) ∧
      Operator.le.Pushes [a, c] (.boolean false) ∧
      ∃ m n : Integer, a = .integer m ∧ c = .integer n ∧ 16777216 ≤ m.toInt.natAbs ∧ 16777216 ≤ n.toInt.natAbs) := by
  obtain ⟨start, _⟩ := Comparison.le_pushes_iff a b p q first second
  obtain ⟨back, _⟩ := Comparison.le_pushes_iff b a q p second first
  obtain ⟨next, _⟩ := Comparison.le_pushes_iff b c q r second third
  obtain ⟨across, refused⟩ := Comparison.le_pushes_iff a c p r first third
  rw [start, back, next, across, refused]
  refine ⟨Value.at_most_total a b p q first second, Value.at_most_trans a b c, fun merges => ?_⟩
  obtain ⟨above, below, broken⟩ := Value.merges_broken a b c merges
  exact ⟨above, below, broken, Value.merges_large a b c merges⟩

-- `2 ^ 24 + 1` lies halfway between two singles and is rounded to the lower one, which is `2 ^ 24`.
theorem merged_places :
    (Value.integer 16777216).place? = some (2 ^ 173 : Nat) ∧ (Value.integer 16777217).place? = some (2 ^ 173 : Nat) ∧
      (Value.real (.ofBits 0x4b800000)).place? = some (2 ^ 173 : Nat) := by
  decide +kernel

theorem merged_integers_passed :
    let a : Value := .integer 16777216
    let b : Value := .real (.ofBits 0x4b800000)
    let c : Value := .integer 16777217
    ¬b.Merges a c ∧ Operator.le.Pushes [a, b] (.boolean true) ∧ Operator.le.Pushes [b, c] (.boolean true) ∧
      Operator.le.Pushes [a, c] (.boolean true) := by
  obtain ⟨least, next, real⟩ := merged_places
  obtain ⟨_, chain, _⟩ := le_preorder _ _ _ _ _ _ least real next
  have apart : ¬(Value.real (.ofBits 0x4b800000)).Merges (.integer 16777216) (.integer 16777217) := by
    rintro ⟨_, _, _, less, _⟩
    exact absurd less (by decide)
  have above := (Comparison.le_pushes_iff _ _ _ _ least real).1.mpr
    ((Value.at_most_places _ _ _ _ least real (.inr ⟨_, rfl⟩)).mpr (Int.le_refl _))
  have below := (Comparison.le_pushes_iff _ _ _ _ real next).1.mpr
    ((Value.at_most_places _ _ _ _ real next (.inl ⟨_, rfl⟩)).mpr (Int.le_refl _))
  exact ⟨apart, above, below, chain apart above below⟩

theorem merged_integers_out_of_order :
    let a : Value := .integer 16777217
    let b : Value := .real (.ofBits 0x4b800000)
    let c : Value := .integer 16777216
    Operator.le.Pushes [a, b] (.boolean true) ∧ Operator.le.Pushes [b, c] (.boolean true) ∧
      ¬Operator.le.Pushes [a, c] (.boolean true) := by
  obtain ⟨least, next, real⟩ := merged_places
  have merges : (Value.real (.ofBits 0x4b800000)).Merges (.integer 16777217) (.integer 16777216) :=
    .intro _ _ _ (by decide) (next.trans real.symm) (least.trans real.symm)
  obtain ⟨above, below, broken⟩ := Value.merges_broken _ _ _ merges
  exact ⟨(Comparison.le_pushes_iff _ _ _ _ next real).1.mpr above,
    (Comparison.le_pushes_iff _ _ _ _ real least).1.mpr below,
    fun pushes => broken ((Comparison.le_pushes_iff _ _ _ _ next least).1.mp pushes)⟩

end MiniPostScript
