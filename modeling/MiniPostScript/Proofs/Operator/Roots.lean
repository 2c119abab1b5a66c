import MiniPostScript.Proofs.Number.Root
import MiniPostScript.Proofs.Operator.Results

set_option autoImplicit false

namespace MiniPostScript

theorem Integer.root_exact (n : Integer) (size : Nat) (number : n.toInt = size) :
    root size = Rounding.floorRoot size := by
  have high := n.toInt_lt
  exact root_floor size (by omega)

theorem Arithmetic.sqrt_root (n : Integer) (size : Nat) (number : n.toInt = size) :
    ∃ r : Integer, r.toInt = Integer.root size ∧ sqrt (.integer n) = .ok (.integer r) := by
  have high := n.toInt_lt
  have fits : Integer.root size < 46341 := by
    rw [n.root_exact size number, ← Nat.not_le, Rounding.le_floor_root_iff]
    omega
  refine ⟨Integer.ofSize (Integer.root size), Int32.toInt_ofNat_of_lt (Nat.lt_trans fits (by decide)), ?_⟩
  rw [sqrt, number, if_neg (Int.not_lt.mpr (Int.natCast_nonneg size)), Int.toNat_natCast]

-- What is cut, in units of `2 ^ -60`, is the root rounded to 53 bits.
theorem integer_roots (n : Integer) (natural : 0 ≤ n.toInt) :
    ∃ r : Integer, Operator.sqrt.Pushes [.integer n] (.integer r) ∧
      0 ≤ r.toInt ∧ r.toInt * r.toInt ≤ n.toInt ∧ n.toInt < (r.toInt + 1) * (r.toInt + 1) ∧
      (0 < n.toInt → ∃ scale count, Rounding.NearestRoot 53 (n.toInt.toNat * (2 ^ 60) ^ 2) scale count ∧
        r.toInt = (count * 2 ^ scale / 2 ^ 60 : Nat)) := by
  obtain ⟨size, number⟩ := Int.eq_ofNat_of_zero_le natural
  obtain ⟨r, root, made⟩ := Arithmetic.sqrt_root n size number
  obtain ⟨low, high⟩ := Rounding.floor_root_bounds size
  rw [← n.root_exact size number] at low high
  refine ⟨r, Operator.unary_pushes .sqrt _ _ _ _ rfl made, ?_⟩
  rw [number, root, Int.toNat_natCast]
  refine ⟨Int.natCast_nonneg _, by exact_mod_cast low, by exact_mod_cast high, fun positive => ?_⟩
  obtain ⟨scale, count, nearest, cut⟩ := Integer.root_nearest size (Int.natCast_pos.mp positive)
  exact ⟨scale, count, nearest, congrArg Int.ofNat cut⟩

theorem root_below_square :
    0 ≤ (2147395599 : Integer).toInt ∧ (2147395599 : Integer).toInt + 1 = 46340 * 46340 ∧
      Operator.sqrt.Pushes [.integer 2147395599] (.integer 46339) ∧
      ∃ scale count, Rounding.NearestRoot 53 (2147395599 * (2 ^ 60) ^ 2) scale count ∧
        (46339 : Integer).toInt = (count * 2 ^ scale / 2 ^ 60 : Nat) := by
  obtain ⟨r, pushed, least, low, high, rounded⟩ := integer_roots 2147395599 (by decide)
  have number : (2147395599 : Integer).toInt = 2147395599 := rfl
  rw [number] at low high rounded
  have lower : 46339 ≤ r.toInt := by
    refine Int.not_lt.mp fun less => ?_
    have square := Int.mul_self_le_mul_self (Int.le_add_one least) less
    omega
  have upper : r.toInt ≤ 46339 := by
    refine Int.not_lt.mp fun more => ?_
    have square := Int.mul_self_le_mul_self (by decide) more
    omega
  obtain rfl : r = 46339 := Int32.toInt_inj.mp (Int.le_antisymm upper lower)
  exact ⟨by decide, by decide, pushed, rounded (by decide)⟩

end MiniPostScript
