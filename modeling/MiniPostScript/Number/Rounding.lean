set_option autoImplicit false

namespace MiniPostScript.Rounding

-- Halfway between two integers it is the even one.
def nearestQuotient (num den : Nat) : Nat :=
  let quotient := num / den
  let twice := 2 * (num % den)
  if twice < den then quotient
  else if den < twice then quotient + 1
  else quotient + quotient % 2

-- The exponent that leaves `precision` significant bits of `num / den`, never below zero.
def bitExponent (precision num den : Nat) : Nat :=
  (num / den).log2 + 1 - precision

def significand (precision num den : Nat) : Nat :=
  nearestQuotient num (den <<< bitExponent precision num den)

def floorRootFrom : Nat → Nat → Nat
  | 0, _ => 0
  | bits + 1, n =>
      let half := 2 * floorRootFrom bits (n / 4)
      if (half + 1) * (half + 1) ≤ n then half + 1 else half

def floorRoot (n : Nat) : Nat := floorRootFrom (n.log2 / 2 + 1) n

-- Twice the root of `n` when `n` is a square, else the odd number just above twice its floor. The
-- root of a number that is no square lies strictly between two integers, as does half the odd
-- number, so both round to the same place on every grid whose points and midpoints are integers.
def rootTwice (n : Nat) : Nat :=
  let root := floorRoot n
  if root * root = n then 2 * root else 2 * root + 1

theorem nearest_quotient_bounds (num den : Nat) (positive : 0 < den) :
    2 * (nearestQuotient num den * den) ≤ 2 * num + den ∧
      2 * num ≤ 2 * (nearestQuotient num den * den) + den := by
  have split := Nat.div_add_mod num den
  have small := Nat.mod_lt num positive
  have comm := Nat.mul_comm den (num / den)
  unfold nearestQuotient
  dsimp only
  split
  · omega
  · split
    · rw [Nat.add_mul, Nat.one_mul]
      omega
    · have parity : num / den % 2 = 0 ∨ num / den % 2 = 1 := by omega
      rcases parity with even | odd
      · rw [even, Nat.add_zero]
        omega
      · rw [odd, Nat.add_mul, Nat.one_mul]
        omega

theorem floor_root_from_bounds (bits n : Nat) (enough : n < 1 <<< (2 * bits)) :
    floorRootFrom bits n * floorRootFrom bits n ≤ n ∧
      n < (floorRootFrom bits n + 1) * (floorRootFrom bits n + 1) := by
  induction bits generalizing n with
  | zero => simp_all [floorRootFrom]
  | succ bits ih =>
      have quarter : n / 4 < 1 <<< (2 * bits) := by
        simp only [Nat.shiftLeft_eq, Nat.one_mul, Nat.mul_add, Nat.mul_one, Nat.pow_add] at enough ⊢
        omega
      obtain ⟨low, high⟩ := ih (n / 4) quarter
      generalize root : floorRootFrom bits (n / 4) = r at low high
      have below : 4 * (r * r) ≤ n := by omega
      have above : n < 4 * ((r + 1) * (r + 1)) := by omega
      have square : (2 * r + 1) * (2 * r + 1) = 4 * (r * r) + 4 * r + 1 := by grind
      have next : (2 * r + 1 + 1) * (2 * r + 1 + 1) = 4 * ((r + 1) * (r + 1)) := by grind
      have twice : 2 * r * (2 * r) = 4 * (r * r) := by grind
      simp only [floorRootFrom, root]
      split <;> omega

theorem floor_root_bounds (n : Nat) :
    floorRoot n * floorRoot n ≤ n ∧ n < (floorRoot n + 1) * (floorRoot n + 1) := by
  apply floor_root_from_bounds
  have bound : n < 2 ^ (n.log2 + 1) := Nat.lt_log2_self
  rw [Nat.shiftLeft_eq, Nat.one_mul]
  exact Nat.lt_of_lt_of_le bound (Nat.pow_le_pow_right (by omega) (by omega))

end MiniPostScript.Rounding
