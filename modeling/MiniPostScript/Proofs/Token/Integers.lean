import MiniPostScript.Proofs.Number.Digits
import MiniPostScript.Proofs.Value.Typed
import MiniPostScript.Token.Constant

set_option autoImplicit false

namespace MiniPostScript

inductive Numeral.Mark : List Char → Bool → Prop where
  | none : Mark [] false
  | plus : Mark ['+'] false
  | minus : Mark ['-'] true

theorem Numeral.Mark.of_sign (negative : Bool) : Mark (Decimal.sign negative) negative := by
  cases negative with
  | false => exact .none
  | true => exact .minus

namespace Token

open Decimal (Digits value)
open Single (signed one)

theorem number_constant (text : List Char) (value : Value) (read : number? text = some value) :
    constant? (String.ofList text) = some value := by
  simp only [constant?, String.toList_ofList, read]
  rfl

theorem number_integer (text : List Char) (numeral : Numeral) (n : Integer)
    (read : Numeral.ofText? text = some numeral) (finite : numeral.toSingle.isFinite = true)
    (point : text.contains '.' = false) (exact : Integer.ofText? text = some n) :
    number? text = some (.integer n) := by
  simp only [number?, read, finite, point, exact, Bool.not_true, Bool.false_eq_true, if_false]

theorem unmatched_constant (text : List Char) (number : number? text = none)
    (first : ∀ c ∈ text.head?, c ∉ ['t', 'f', '(', '{', '/']) : constant? (String.ofList text) = none := by
  have word : boolean? text = none := by
    rw [boolean?.eq_def]
    split <;> simp at first ⊢
  have string : string? text = none := by
    cases text with
    | nil => rfl
    | cons c rest => simp_all [string?, between?]
  have block : block? text = none := by
    cases text with
    | nil => rfl
    | cons c rest => simp_all [block?, between?]
  have name : name? text = none := by
    rw [name?.eq_def]
    split <;> simp at first ⊢
  simp only [constant?, String.toList_ofList, number, word, string, block, name]
  rfl

section Signed

variable (mark digits : List Char) (negative : Bool) (is : Numeral.Mark mark negative) (all : Digits digits)

include is all

theorem digits_point : (mark ++ digits).contains '.' = false := by
  rw [← Bool.not_eq_true, List.contains_iff_mem, List.mem_append]
  rintro (sign | digit)
  · cases is <;> simp at sign
  · exact absurd (all '.' digit) (by decide)

variable (nonempty : digits ≠ [])

include nonempty

theorem mark_split : Numeral.splitSign (mark ++ digits) = (negative, digits) := by
  cases is with
  | none => exact Decimal.sign_alone false digits all nonempty
  | plus => rfl
  | minus => rfl

theorem digits_read : Numeral.ofText? (mark ++ digits) = some ⟨negative, value digits, 0⟩ := by
  have split := mark_split mark digits negative is all nonempty
  have alone := Decimal.sign_alone negative digits all nonempty
  rw [← Decimal.integer_text_read negative digits all nonempty]
  simp only [Numeral.ofText?, split, alone]

theorem digits_integer :
    Integer.ofText? (mark ++ digits) = Integer.ofInt? (signed negative (value digits)) := by
  have number : Numeral.isDigits digits = true := by
    rw [Numeral.isDigits, Bool.and_eq_true, List.all_eq_true]
    exact ⟨by simp [nonempty], all⟩
  simp only [Integer.ofText?, mark_split mark digits negative is all nonempty, number, if_true]

theorem digits_first : ∀ c ∈ (mark ++ digits).head?, c ∉ ['t', 'f', '(', '{', '/'] := by
  obtain ⟨first, rest, rfl⟩ := List.exists_cons_of_ne_nil nonempty
  have digit := all first List.mem_cons_self
  intro c head
  cases is with
  | none =>
      obtain rfl := Option.some.inj head
      intro member
      simp only [List.mem_cons, List.not_mem_nil, or_false] at member
      rcases member with rfl | rfl | rfl | rfl | rfl <;> exact absurd digit (by decide)
  | plus | minus =>
      obtain rfl := Option.some.inj head
      decide

theorem digits_single : ∃ numeral, Numeral.ofText? (mark ++ digits) = some numeral ∧
    numeral.toSingle = .ofRatio negative (value digits * one) 1 := by
  refine ⟨_, digits_read mark digits negative is all nonempty, ?_⟩
  change Single.ofRatio negative (value digits * 1 * one) 1 = _
  rw [Nat.mul_one]

theorem digits_infinite (large : 340282356779733661637539395458142568448 ≤ value digits) :
    number? (mark ++ digits) = none := by
  obtain ⟨numeral, read, single⟩ := digits_single mark digits negative is all nonempty
  have infinite : numeral.toSingle.isFinite = false := by
    rw [single, Single.whole_is_finite, decide_eq_false (Nat.not_lt.mpr large)]
  simp only [number?, read, infinite, Bool.not_false, if_true]

section Finite

variable (finite : value digits < 340282356779733661637539395458142568448)

include finite

theorem digits_exact (n : Integer) (same : n.toInt = signed negative (value digits)) :
    number? (mark ++ digits) = some (.integer n) := by
  obtain ⟨numeral, read, single⟩ := digits_single mark digits negative is all nonempty
  have exact : Integer.ofText? (mark ++ digits) = some n := by
    rw [digits_integer mark digits negative is all nonempty]
    exact (Integer.of_int_some_iff _ n).mpr same
  refine number_integer _ numeral n read ?_ (digits_point mark digits negative is all) exact
  rw [single, Single.whole_is_finite, decide_eq_true finite]

theorem digits_rounded (beyond : ∀ n : Integer, n.toInt ≠ signed negative (value digits)) :
    number? (mark ++ digits) = some (.ofSingle (.ofRatio negative (value digits * one) 1)) := by
  obtain ⟨numeral, read, single⟩ := digits_single mark digits negative is all nonempty
  simp only [number?, read, single, Single.whole_is_finite, decide_eq_true finite,
    digits_point mark digits negative is all, digits_integer mark digits negative is all nonempty,
    Integer.of_int_none _ beyond, Bool.not_true, Bool.false_eq_true, if_false]

end Finite

end Signed

end Token

-- The number that is written is `v`, and `2 ^ 128 - 2 ^ 103` is the middle between the greatest single and `2 ^ 128`.
theorem integer_tokens (mark digits : List Char) (negative : Bool) (is : Numeral.Mark mark negative)
    (all : Decimal.Digits digits) (nonempty : digits ≠ []) :
    let token := String.ofList (mark ++ digits)
    let v := Single.signed negative (Decimal.value digits)
    (∀ n : Integer, n.toInt = v → constant? token = some (.integer n)) ∧
    (-2147483776 ≤ v → v < -2147483648 → constant? token = some (.integer (-2147483648))) ∧
    (v < -2147483776 ∨ 2147483648 ≤ v → v.natAbs < 340282356779733661637539395458142568448 →
      constant? token = some (.real (.ofInt v))) ∧
    (340282356779733661637539395458142568448 ≤ v.natAbs → constant? token = none) := by
  intro token v
  have size : v.natAbs = Decimal.value digits := Single.signed_size negative _
  have sign : Decimal.value digits ≠ 0 → decide (v < 0) = negative := Single.signed_sign negative _
  refine ⟨fun n same => ?_, fun low high => ?_, fun beyond finite => ?_, fun infinite => ?_⟩
  · have most := n.nat_abs_le
    rw [same, size] at most
    exact Token.number_constant _ _ (Token.digits_exact mark digits negative is all nonempty (by omega) n same)
  · have outside (n : Integer) : n.toInt ≠ v := fun same => by
      have least := n.le_toInt
      omega
    have read := Token.digits_rounded mark digits negative is all nonempty (by omega) outside
    obtain rfl : negative = true := (sign (by omega)).symm.trans (decide_eq_true (by omega))
    rw [Value.whole_rounded_into_range _ (by omega) (by omega)] at read
    exact Token.number_constant _ _ read
  · have outside (n : Integer) : n.toInt ≠ v := fun same => by
      have least := n.le_toInt
      have most := n.toInt_lt
      omega
    have read := Token.digits_rounded mark digits negative is all nonempty (by omega) outside
    have far : negative = false ∧ 2147483648 ≤ Decimal.value digits ∨ 2147483776 < Decimal.value digits := by
      rcases beyond with below | above
      · exact .inr (by omega)
      · exact .inl ⟨(sign (by omega)).symm.trans (decide_eq_false (by omega)), by omega⟩
    rw [Value.whole_beyond_range negative _ far, ← Single.of_int_signed negative _ (by omega)] at read
    exact Token.number_constant _ _ read
  · rw [size] at infinite
    have none := Token.digits_infinite mark digits negative is all nonempty infinite
    exact Token.unmatched_constant _ none (Token.digits_first mark digits negative is all nonempty)

theorem least_token_exact :
    let digits := "0002147483648".toList
    Numeral.Mark ['-'] true ∧ Decimal.Digits digits ∧ digits ≠ [] ∧
      constant? "-0002147483648" = some (.integer (-2147483648)) := by
  have all : Decimal.Digits "0002147483648".toList := List.all_eq_true.mp (by decide +kernel)
  have exact := (integer_tokens ['-'] "0002147483648".toList true .minus all (by decide)).1
  exact ⟨.minus, all, by decide, exact (-2147483648) (by decide +kernel)⟩

theorem tokens_beyond_range_misread :
    Single.signed true (Decimal.value "2147483649".toList) = -2147483649 ∧
      constant? "-2147483649" = some (.integer (-2147483648)) ∧
    Decimal.value "340282356779733661637539395458142568448".toList = 340282356779733661637539395458142568448 ∧
      constant? "340282356779733661637539395458142568448" = none := by
  decide +kernel

end MiniPostScript
