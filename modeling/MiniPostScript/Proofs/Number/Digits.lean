import Mathlib.Algebra.Group.Nat.Defs
import MiniPostScript.Number.Decimal
import MiniPostScript.Number.Numeral

set_option autoImplicit false

namespace MiniPostScript

namespace Decimal

def Digits (text : List Char) : Prop := ∀ c ∈ text, c.isDigit = true

abbrev value (text : List Char) : Nat := Nat.ofDigitChars 10 text 0

theorem digits_append (front back : List Char) : Digits (front ++ back) ↔ Digits front ∧ Digits back :=
  List.forall_mem_append

theorem to_digits_digits (n : Nat) : Digits (Nat.toDigits 10 n) :=
  fun _ member => Nat.isDigit_of_mem_toDigits (by decide) (by decide) member

theorem value_append (front back : List Char) :
    value (front ++ back) = 10 ^ back.length * value front + value back := by
  rw [value, Nat.ofDigitChars_append, Nat.ofDigitChars_eq_ofDigitChars_zero]

theorem value_zeros (front : List Char) (zeros : Nat) :
    value (front ++ List.replicate zeros '0') = 10 ^ zeros * value front := by
  rw [value, Nat.ofDigitChars_append, Nat.ofDigitChars_replicate_zero]

theorem to_digits_split (high places low : Nat) (positive : 0 < high) (small : low < 10 ^ places) :
    ∃ ending, Nat.toDigits 10 (10 ^ places * high + low) = Nat.toDigits 10 high ++ ending ∧
      ending.length = places ∧ value ending = low := by
  induction places generalizing low with
  | zero =>
      obtain rfl : low = 0 := Nat.lt_one_iff.mp small
      exact ⟨[], by simp, rfl, rfl⟩
  | succ places ih =>
      obtain ⟨ending, same, length, is⟩ := ih (low / 10) (by rw [Nat.pow_succ] at small; omega)
      have digit : low % 10 < 10 := Nat.mod_lt _ (by decide)
      have front : 0 < 10 ^ places * high + low / 10 :=
        Nat.lt_of_lt_of_le (Nat.mul_pos (Nat.pow_pos (by decide)) positive) (Nat.le_add_right _ _)
      have number : 10 ^ (places + 1) * high + low = 10 * (10 ^ places * high + low / 10) + low % 10 := by
        rw [Nat.pow_succ', Nat.mul_assoc]
        omega
      have single : (Nat.toDigits 10 (low % 10)).length = 1 := by
        rw [Nat.toDigits_of_lt_base digit]
        rfl
      refine ⟨ending ++ Nat.toDigits 10 (low % 10), ?_, ?_, ?_⟩
      · rw [number, ← Nat.toDigits_append_toDigits (by decide) front digit, same, List.append_assoc]
      · rw [List.length_append, length, single]
      · rw [value_append, is, single, value, Nat.ofDigitChars_ten_toDigits, Nat.pow_one]
        exact Nat.div_add_mod low 10

theorem decimals_spec (scaled : Nat) :
    Digits (decimals scaled) ∧ (decimals scaled).length = 5 ∧ value (decimals scaled) = scaled % scale := by
  obtain ⟨ending, same, length, is⟩ :=
    to_digits_split 1 5 (scaled % scale) (by decide) (Nat.mod_lt _ (by decide))
  have cut : decimals scaled = ending := by
    rw [decimals]
    exact congrArg List.tail same
  have digits := to_digits_digits (10 ^ 5 * 1 + scaled % scale)
  rw [same, digits_append] at digits
  rw [cut]
  exact ⟨digits.2, length, is⟩

theorem zeros_dropped (first : Char) (rest : List Char) :
    ∃ kept zeros, dropFinalZeros (first :: rest) = first :: kept ∧ rest = kept ++ List.replicate zeros '0' ∧
      kept.getLast? ≠ some '0' := by
  let zeros := rest.reverse.takeWhile (· == '0')
  let others := rest.reverse.dropWhile (· == '0')
  have cut : zeros ++ others = rest.reverse := List.takeWhile_append_dropWhile
  have same : zeros = List.replicate zeros.length '0' := by
    refine List.eq_replicate_iff.mpr ⟨rfl, fun c member => ?_⟩
    exact eq_of_beq (List.all_eq_true.mp List.all_takeWhile c member)
  refine ⟨others.reverse, zeros.length, rfl, ?_, ?_⟩
  · rw [← List.reverse_reverse rest, ← cut, List.reverse_append, same, List.reverse_replicate, List.length_replicate]
  · intro last
    rw [List.getLast?_reverse] at last
    have other := List.head?_dropWhile_not (· == '0') rest.reverse
    rw [show (rest.reverse.dropWhile (· == '0')).head? = some '0' from last] at other
    exact absurd other (by decide)

structure Fraction (text : List Char) : Prop where
  digits : Digits text
  nonempty : text ≠ []
  most : text.length ≤ 5
  trimmed : text.getLast? = some '0' → text.length = 1

theorem decimals_fraction (scaled : Nat) :
    Fraction (dropFinalZeros (decimals scaled)) ∧
      ∃ zeros, decimals scaled = dropFinalZeros (decimals scaled) ++ List.replicate zeros '0' := by
  obtain ⟨digits, length, _⟩ := decimals_spec scaled
  cases shown : decimals scaled with
  | nil =>
      rw [shown] at length
      cases length
  | cons first rest =>
      rw [shown] at digits length
      obtain ⟨kept, zeros, dropped, same, last⟩ := zeros_dropped first rest
      have whole : first :: rest = (first :: kept) ++ List.replicate zeros '0' := by
        rw [List.cons_append, ← same]
      rw [whole, digits_append] at digits
      rw [whole, List.length_append] at length
      rw [dropped]
      refine ⟨⟨digits.1, List.cons_ne_nil _ _, by omega, fun zero => ?_⟩, zeros, whole⟩
      cases kept with
      | nil => rfl
      | cons second more => exact absurd zero last

theorem sign_split (negative : Bool) (digits rest : List Char) (all : Digits digits) (some : digits ≠ []) :
    Numeral.splitSign (sign negative ++ (digits ++ rest)) = (negative, digits ++ rest) := by
  obtain ⟨first, more, rfl⟩ := List.exists_cons_of_ne_nil some
  have digit := all first List.mem_cons_self
  cases negative with
  | true => rfl
  | false =>
      change Numeral.splitSign (first :: (more ++ rest)) = _
      rw [Numeral.splitSign.eq_def]
      split
      · rename_i same
        cases same
        exact absurd digit (by decide)
      · rename_i same
        cases same
        exact absurd digit (by decide)
      · rfl

theorem sign_alone (negative : Bool) (digits : List Char) (all : Digits digits) (some : digits ≠ []) :
    Numeral.splitSign (sign negative ++ digits) = (negative, digits) := by
  have split := sign_split negative digits [] all some
  rwa [List.append_nil] at split

theorem digits_cut (digits rest : List Char) (all : Digits digits) :
    Numeral.leadingDigits (digits ++ rest) = digits ++ Numeral.leadingDigits rest ∧
      Numeral.afterDigits (digits ++ rest) = Numeral.afterDigits rest :=
  ⟨List.takeWhile_append_of_pos all, List.dropWhile_append_of_pos all⟩

theorem digits_alone (digits : List Char) (all : Digits digits) :
    Numeral.leadingDigits digits = digits ∧ Numeral.afterDigits digits = [] := by
  obtain ⟨leading, after⟩ := digits_cut digits [] all
  rw [List.append_nil] at leading after
  exact ⟨leading.trans (List.append_nil _), after⟩

theorem integer_text_read (negative : Bool) (digits : List Char) (all : Digits digits) (some : digits ≠ []) :
    Numeral.ofText? (sign negative ++ digits) = Option.some ⟨negative, value digits, 0⟩ := by
  obtain ⟨whole, none⟩ := digits_alone digits all
  rw [Numeral.ofText?, sign_alone negative digits all some]
  simp [whole, none, some, Numeral.splitFraction, Numeral.exponent?]

theorem fixed_text_read (negative : Bool) (whole fraction : List Char) (all : Digits (whole ++ fraction))
    (some : whole ≠ []) :
    Numeral.ofText? (sign negative ++ whole ++ '.' :: fraction) =
      Option.some ⟨negative, value (whole ++ fraction), -fraction.length⟩ := by
  obtain ⟨front, back⟩ := (digits_append _ _).mp all
  obtain ⟨leading, after⟩ := digits_cut whole ('.' :: fraction) front
  obtain ⟨places, none⟩ := digits_alone fraction back
  have point : Numeral.leadingDigits ('.' :: fraction) = [] := rfl
  have kept : Numeral.afterDigits ('.' :: fraction) = '.' :: fraction := rfl
  rw [point, List.append_nil] at leading
  rw [kept] at after
  rw [Numeral.ofText?, List.append_assoc, sign_split negative whole _ front some]
  simp [leading, after, places, none, some, Numeral.splitFraction, Numeral.exponent?]

end Decimal

end MiniPostScript
