import MiniPostScript.Proofs.Number.Decimals
import MiniPostScript.Proofs.Token.Integers
import MiniPostScript.Value.Display

set_option autoImplicit false

namespace MiniPostScript

namespace Decimal

-- A real is read as what was left of it after rounding, with or without the zeros that were dropped.
theorem fixed_text_single (negative : Bool) (scaled : Nat) :
    ∃ numeral, Numeral.ofText? (fixedText negative scaled) = some numeral ∧
      numeral.toSingle = .ofRatio negative (scaled * Single.one) scale := by
  obtain ⟨fraction, zeros, dropped⟩ := decimals_fraction scaled
  obtain ⟨_, length, low⟩ := decimals_spec scaled
  let whole := Nat.toDigits 10 (scaled / scale)
  let shown := dropFinalZeros (decimals scaled)
  have all : Digits (whole ++ shown) := (digits_append _ _).mpr ⟨to_digits_digits _, fraction.digits⟩
  have read := fixed_text_read negative whole shown all Nat.toDigits_ne_nil
  refine ⟨_, read, ?_⟩
  have places : 10 ^ zeros * 10 ^ shown.length = scale := by
    rw [dropped, List.length_append, List.length_replicate] at length
    rw [← Nat.pow_add, Nat.add_comm, length]
  have coefficient : 10 ^ zeros * value (whole ++ shown) = scaled := by
    rw [← value_zeros, List.append_assoc, ← dropped, value_append, length, low, value,
      Nat.ofDigitChars_ten_toDigits]
    exact Nat.div_add_mod scaled scale
  rw [Numeral.toSingle, Single.ofDecimal]
  apply Single.of_ratio_rank
  refine Single.nearest_rank_ratio _ _ _ _ (Nat.pow_pos (by decide)) (by decide) ?_
  have down : (-(shown.length : Int)).toNat = 0 := by omega
  have up : (- -(shown.length : Int)).toNat = shown.length := by omega
  rw [down, up]
  calc value (whole ++ shown) * 1 * Single.one * scale
      = value (whole ++ shown) * Single.one * (10 ^ zeros * 10 ^ shown.length) := by rw [places, Nat.mul_one]
    _ = 10 ^ zeros * value (whole ++ shown) * Single.one * 10 ^ shown.length := by ac_rfl
    _ = scaled * Single.one * 10 ^ shown.length := by rw [coefficient]

-- How reals are written: a sign if they are negative, digits, a point and decimals.
def Written (text : List Char) : Prop :=
  ∃ negative whole fraction, text = sign negative ++ whole ++ '.' :: fraction ∧ Digits whole ∧ whole ≠ [] ∧
    Fraction fraction

theorem fixed_text_written (negative : Bool) (scaled : Nat) : Written (fixedText negative scaled) :=
  ⟨negative, _, _, rfl, to_digits_digits _, Nat.toDigits_ne_nil, (decimals_fraction scaled).1⟩

theorem fixed_text_point (negative : Bool) (scaled : Nat) : (fixedText negative scaled).contains '.' = true := by
  rw [List.contains_iff_mem, fixedText]
  exact List.mem_append_right _ List.mem_cons_self

end Decimal

namespace Token

theorem number_real (text : List Char) (numeral : Numeral) (read : Numeral.ofText? text = some numeral)
    (finite : numeral.toSingle.isFinite = true) (point : text.contains '.' = true) :
    number? text = some (.real numeral.toSingle) := by
  simp only [number?, read, finite, point, Bool.not_true, Bool.false_eq_true, if_false, if_true]

theorem integer_read_back (n : Integer) : number? n.text = some (.integer n) := by
  have most := n.nat_abs_le
  have size : Decimal.value (Nat.toDigits 10 n.toInt.natAbs) = n.toInt.natAbs := Nat.ofDigitChars_ten_toDigits
  refine digits_exact _ _ _ (.of_sign _) (Decimal.to_digits_digits _) Nat.toDigits_ne_nil ?_ n ?_
  · rw [size]
    omega
  · rw [size, Single.signed_nat_abs]

theorem real_read_back (negative : Bool) (rank : Fin Single.finiteCount) :
    ∃ y, y.isFinite = true ∧ number? (Single.finite negative rank).text = some (.real y) ∧
      y.text = (Single.finite negative rank).text := by
  obtain ⟨finite, kept⟩ := Single.decimal_kept rank rank.isLt
  obtain ⟨numeral, read, single⟩ := Decimal.fixed_text_single negative (Single.steps rank)
  have nearest := single.trans (Single.of_ratio_finite negative _ _ finite)
  have isFinite : numeral.toSingle.isFinite = true := congrArg Single.isFinite nearest
  have point := Decimal.fixed_text_point negative (Single.steps rank)
  refine ⟨_, isFinite, number_real _ numeral read isFinite point, ?_⟩
  exact (congrArg Single.text nearest).trans (congrArg (Decimal.fixedText negative) kept)

end Token

theorem numbers_read_back :
    (∀ n : Integer, constant? (Value.integer n).text = some (.integer n)) ∧
    ∀ (negative : Bool) (rank : Fin Single.finiteCount),
      let x := Single.finite negative rank
      Decimal.Written x.text ∧ ∃ y, y.isFinite = true ∧ constant? (Value.real x).text = some (.real y) ∧
        (Value.real y).text = (Value.real x).text := by
  refine ⟨fun n => Token.number_constant _ _ (Token.integer_read_back n), fun negative rank => ?_⟩
  obtain ⟨y, finite, read, same⟩ := Token.real_read_back negative rank
  exact ⟨Decimal.fixed_text_written _ _, y, finite, Token.number_constant _ _ read, congrArg String.ofList same⟩

end MiniPostScript
