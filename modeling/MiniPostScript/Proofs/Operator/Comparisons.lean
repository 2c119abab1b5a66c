import MiniPostScript.Proofs.Number.Difference
import MiniPostScript.Proofs.Operator.Results

set_option autoImplicit false

namespace MiniPostScript

namespace Value

-- Where a number stands on the line, in units. An integer stands at the single nearest to it.
def place? (v : Value) : Option Int := v.toSingle?.bind Single.position?

-- Different numbers that equality does not tell apart. Two integers never are, however close.
structure Blurred (a b : Value) : Prop where
  real : (∃ x, a = .real x) ∨ ∃ y, b = .real y
  near : ∃ p q, a.place? = some p ∧ b.place? = some q ∧ p ≠ q ∧ (p - q).natAbs ≤ Comparison.reach

theorem blurred_iff (a b : Value) (p q : Int) (first : a.place? = some p) (second : b.place? = some q)
    (real : (∃ x, a = .real x) ∨ ∃ y, b = .real y) :
    a.Blurred b ↔ p ≠ q ∧ (p - q).natAbs ≤ Comparison.reach := by
  constructor
  · rintro ⟨_, r, s, left, right, near⟩
    obtain rfl := Option.some.inj (first.symm.trans left)
    obtain rfl := Option.some.inj (second.symm.trans right)
    exact near
  · exact fun near => ⟨real, p, q, first, second, near⟩

theorem single_cases (v : Value) (x : Single) (single : v.toSingle? = some x) :
    (∃ n, v = .integer n) ∨ ∃ x, v = .real x := by
  cases v with
  | integer n => exact .inl ⟨n, rfl⟩
  | real x => exact .inr ⟨x, rfl⟩
  | _ => cases single

theorem single_infinite (v : Value) (negative : Bool) (single : v.toSingle? = some (.infinite negative)) :
    v = .real (.infinite negative) := by
  rcases single_cases v _ single with ⟨n, rfl⟩ | ⟨x, rfl⟩
  · obtain ⟨rank, finite, _⟩ := Single.of_int_units n
    exact nomatch finite.symm.trans (Option.some.inj single)
  · rw [Option.some.inj single]

end Value

namespace Comparison

structure Verdict (a b : Value) (result : Ordering) (same : Bool) : Prop where
  placed : ∀ op, order op a b = .ok result
  equated : ∀ op, equal op a b = .ok same
  clear : ¬a.Blurred b → (same = true ↔ result = .eq)
  blurred : a.Blurred b → same = true ∧ result ≠ .eq

theorem integers_verdict (m n : Integer) :
    Verdict (.integer m) (.integer n) (compare m.toInt n.toInt) (m == n) where
  placed := fun _ => rfl
  equated := fun _ => rfl
  clear := by
    intro _
    rw [beq_iff_eq, Int.compare_eq_eq, Int32.toInt_inj]
  blurred := by
    rintro ⟨⟨_, same⟩ | ⟨_, same⟩, _⟩ <;> cases same

theorem singles_compared (a b : Value) (x y : Single) (first : a.toSingle? = some x) (second : b.toSingle? = some y)
    (real : (∃ x, a = .real x) ∨ ∃ y, b = .real y) (result : Ordering) (placed : x.compare? y = some result) :
    ∀ op, order op a b = .ok result ∧ equal op a b = .ok ((x.sub y).abs.less tolerance) := by
  intro op
  rcases real with ⟨_, rfl⟩ | ⟨_, rfl⟩
  all_goals
    rw [order, equal, first, second]
    · simp only [placed, and_self]
    all_goals nofun

theorem singles_verdict (a b : Value) (x y : Single) (p q : Int) (first : a.toSingle? = some x)
    (second : b.toSingle? = some y) (left : x.position? = some p) (right : y.position? = some q)
    (real : (∃ x, a = .real x) ∨ ∃ y, b = .real y)
    (apart : ∀ negative, ¬(x = .infinite negative ∧ y = .infinite negative)) :
    Verdict a b (compare p q) ((x.sub y).abs.less tolerance) := by
  have firstPlace : a.place? = some p := by rw [Value.place?, first, Option.bind_some, left]
  have secondPlace : b.place? = some q := by rw [Value.place?, second, Option.bind_some, right]
  have compared := singles_compared a b x y first second real _ (Single.compare_positions x y p q left right)
  have blurred := Value.blurred_iff a b p q firstPlace secondPlace real
  have close := Single.sub_close_iff x y p q left right apart
  refine ⟨fun op => (compared op).1, fun op => (compared op).2, fun clear => ?_, fun both => ?_⟩
  · rw [close, Int.compare_eq_eq]
    constructor
    · exact fun near => Decidable.byContradiction fun different => clear (blurred.mpr ⟨different, near⟩)
    · rintro rfl
      rw [Int.sub_self]
      exact Nat.zero_le _
  · obtain ⟨different, near⟩ := blurred.mp both
    exact ⟨close.mpr near, fun same => different (Int.compare_eq_eq.mp same)⟩

theorem verdict_exists (a b : Value) (p q : Int) (first : a.place? = some p) (second : b.place? = some q)
    (apart : ∀ negative, ¬(a = .real (.infinite negative) ∧ b = .real (.infinite negative))) :
    ∃ result same, Verdict a b result same := by
  obtain ⟨x, left, here⟩ := Option.bind_eq_some_iff.mp first
  obtain ⟨y, right, there⟩ := Option.bind_eq_some_iff.mp second
  have singles (real : (∃ x, a = .real x) ∨ ∃ y, b = .real y) : ∃ result same, Verdict a b result same := by
    refine ⟨_, _, singles_verdict a b x y p q left right here there real ?_⟩
    rintro negative ⟨rfl, rfl⟩
    exact apart negative ⟨Value.single_infinite a negative left, Value.single_infinite b negative right⟩
  rcases Value.single_cases a x left with ⟨m, rfl⟩ | real
  · rcases Value.single_cases b y right with ⟨n, rfl⟩ | real
    · exact ⟨_, _, integers_verdict m n⟩
    · exact singles (.inr real)
  · exact singles (.inl real)

theorem order_pushed (a b : Value) (result : Ordering) (placed : ∀ op, order op a b = .ok result) (op : Operator)
    (name : String) (test : Ordering → Bool) (rule : op.rule = .binary name (ordered name test)) :
    op.Pushes [a, b] (.boolean (test result)) := by
  refine op.binary_pushes name _ a b _ rule ?_
  rw [ordered, placed]
  rfl

theorem equality_pushed (a b : Value) (same : Bool) (equated : ∀ op, equal op a b = .ok same) :
    Operator.eq.Pushes [a, b] (.boolean same) := by
  refine Operator.eq.binary_pushes "eq" eq a b _ rfl ?_
  rw [eq, equated]
  rfl

end Comparison

-- Infinities of one sign are left out. Blurred numbers are equal, less or greater besides, and by that alone they are
-- at most or at least the other.
theorem comparisons_consistent (a b : Value) (p q : Int) (first : a.place? = some p) (second : b.place? = some q)
    (apart : ∀ negative, ¬(a = .real (.infinite negative) ∧ b = .real (.infinite negative))) :
    ∃ lt eq gt le ge : Bool, Operator.lt.Pushes [a, b] (.boolean lt) ∧ Operator.eq.Pushes [a, b] (.boolean eq) ∧
      Operator.gt.Pushes [a, b] (.boolean gt) ∧ Operator.le.Pushes [a, b] (.boolean le) ∧
      Operator.ge.Pushes [a, b] (.boolean ge) ∧
      (¬a.Blurred b → [lt, eq, gt].count true = 1 ∧ le = (lt || eq) ∧ ge = (gt || eq)) ∧
      (a.Blurred b → eq = true ∧ gt = !lt ∧ le = lt ∧ ge = gt) := by
  obtain ⟨result, same, verdict⟩ := Comparison.verdict_exists a b p q first second apart
  have pushed := Comparison.order_pushed a b result verdict.placed
  refine ⟨result.isLT, same, result.isGT, result.isLE, result.isGE, pushed .lt _ _ rfl,
    Comparison.equality_pushed a b same verdict.equated, pushed .gt _ _ rfl, pushed .le _ _ rfl,
    pushed .ge _ _ rfl, fun clear => ?_, fun blurred => ?_⟩
  · have agree := verdict.clear clear
    cases result <;> cases same <;> simp at agree ⊢
  · obtain ⟨rfl, different⟩ := verdict.blurred blurred
    cases result <;> simp at different ⊢

theorem close_places :
    (Value.integer 3).place? = some (3 * 2 ^ 149 : Nat) ∧
      (Value.real (.ofBits 0x4040002a)).place? = some (12582954 * 2 ^ 127 : Nat) := by
  decide +kernel

theorem close_numbers_compared :
    let a : Value := .integer 3
    let b : Value := .real (.ofBits 0x4040002a)
    a.Blurred b ∧ ∃ lt : Bool, Operator.lt.Pushes [a, b] (.boolean lt) ∧ Operator.eq.Pushes [a, b] (.boolean true) ∧
      Operator.gt.Pushes [a, b] (.boolean !lt) ∧ Operator.le.Pushes [a, b] (.boolean lt) ∧
      Operator.ge.Pushes [a, b] (.boolean !lt) := by
  obtain ⟨first, second⟩ := close_places
  have blurred : (Value.integer 3).Blurred (.real (.ofBits 0x4040002a)) :=
    ⟨.inr ⟨_, rfl⟩, _, _, first, second, by decide +kernel, by decide +kernel⟩
  obtain ⟨lt, eq, gt, le, ge, less, equal, greater, most, least, _, together⟩ :=
    comparisons_consistent _ _ _ _ first second (fun _ both => nomatch both.1)
  obtain ⟨rfl, rfl, rfl, rfl⟩ := together blurred
  exact ⟨blurred, _, less, equal, greater, most, least⟩

theorem close_number_less_and_equal :
    let a : Value := .integer 3
    let b : Value := .real (.ofBits 0x4040002a)
    (∃ p, a.place? = some p) ∧ (∃ q, b.place? = some q) ∧ Operator.lt.Pushes [a, b] (.boolean true) ∧
      Operator.eq.Pushes [a, b] (.boolean true) := by
  have less : (Single.ofInt 3).compare? (.ofBits 0x4040002a) = some .lt := by decide +kernel
  have close : ((Single.ofInt 3).sub (.ofBits 0x4040002a)).abs.less Comparison.tolerance = true := by decide +kernel
  have compared := Comparison.singles_compared (.integer 3) (.real (.ofBits 0x4040002a))
    (.ofInt 3) (.ofBits 0x4040002a) rfl rfl (.inr ⟨_, rfl⟩) _ less
  rw [close] at compared
  exact ⟨⟨_, close_places.1⟩, ⟨_, close_places.2⟩,
    Comparison.order_pushed _ _ _ (fun op => (compared op).1) .lt _ _ rfl,
    Comparison.equality_pushed _ _ _ fun op => (compared op).2⟩

end MiniPostScript
