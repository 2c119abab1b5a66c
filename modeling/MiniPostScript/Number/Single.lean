import MiniPostScript.Number.Rounding

set_option autoImplicit false

namespace MiniPostScript

abbrev Single.octave : Nat := 8388608

-- How many finite magnitudes there are; also the rank that infinity would have.
abbrev Single.finiteCount : Nat := 255 * octave

-- A single-precision number. All that is not a number is one value.
inductive Single where
  | nan
  | infinite (negative : Bool)
  | finite (negative : Bool) (rank : Fin Single.finiteCount)
deriving DecidableEq, Repr, Inhabited

namespace Single

-- How many units of `2 ^ -149` make one.
abbrev one : Nat := 1 <<< 149

-- The magnitude of a rank, in units. In the first two octaves they agree; from there on the spacing
-- doubles with every octave.
def units (rank : Nat) : Nat :=
  if rank < octave then rank else (octave + rank % octave) <<< (rank / octave - 1)

def spacing (rank : Nat) : Nat := 1 <<< (rank / octave - 1)

def nearestRank (num den : Nat) : Nat :=
  Rounding.bitExponent 24 num den * octave + Rounding.significand 24 num den

-- The single of the given sign nearest to `num / den` units, infinite from halfway between the
-- greatest finite magnitude and `2 ^ 128` on.
def ofRatio (negative : Bool) (num den : Nat) : Single :=
  let rank := nearestRank num den
  if finite : rank < finiteCount then .finite negative ⟨rank, finite⟩ else .infinite negative

def zero (negative : Bool) : Single := .finite negative ⟨0, by decide⟩

def ofInt (n : Int) : Single := ofRatio (decide (n < 0)) (n.natAbs * one) 1

def ofDecimal (negative : Bool) (coefficient : Nat) (scale : Int) : Single :=
  ofRatio negative (coefficient * Nat.pow 10 scale.toNat * one) (Nat.pow 10 (-scale).toNat)

def isFinite : Single → Bool
  | .finite _ _ => true
  | _ => false

def signed (negative : Bool) (magnitude : Nat) : Int :=
  if negative then -(magnitude : Int) else magnitude

-- The place of a number on the line, in units. Infinity stands where the next magnitude after the
-- greatest finite one would stand. Both zeros stand at the same place.
def position? : Single → Option Int
  | .nan => none
  | .infinite negative => some (signed negative (units finiteCount))
  | .finite negative rank => some (signed negative (units rank))

def compare? (x y : Single) : Option Ordering :=
  match x.position?, y.position? with
  | some a, some b => some (compare a b)
  | _, _ => none

def same (x y : Single) : Bool := x.compare? y == some .eq

def less (x y : Single) : Bool := x.compare? y == some .lt

def toBits : Single → UInt32
  | .nan => 0x7fc00000
  | .infinite negative => UInt32.ofNat (negative.toNat <<< 31 + finiteCount)
  | .finite negative rank => UInt32.ofNat (negative.toNat <<< 31 + rank)

def ofBits (bits : UInt32) : Single :=
  let negative := decide (1 <<< 31 ≤ bits.toNat)
  let rank := bits.toNat % (1 <<< 31)
  if finite : rank < finiteCount then .finite negative ⟨rank, finite⟩
  else if rank = finiteCount then .infinite negative
  else .nan

theorem of_bits_to_bits (x : Single) : ofBits x.toBits = x := by
  rcases x with _ | negative | ⟨negative, rank, small⟩
  · rfl
  · cases negative <;> rfl
  · have bound : rank < 2139095040 := small
    have fits : negative.toNat <<< 31 + rank < 4294967296 := by
      cases negative <;> simp <;> omega
    have bits : (UInt32.ofNat (negative.toNat <<< 31 + rank)).toNat = negative.toNat <<< 31 + rank := by
      rw [UInt32.toNat_ofNat']
      exact Nat.mod_eq_of_lt fits
    have place : (negative.toNat <<< 31 + rank) % (1 <<< 31) = rank := by
      cases negative <;> simp <;> omega
    have sign : decide (1 <<< 31 ≤ negative.toNat <<< 31 + rank) = negative := by
      cases negative with
      | false =>
          refine decide_eq_false (Nat.not_le.mpr ?_)
          rw [Bool.toNat_false, Nat.zero_shiftLeft, Nat.zero_add]
          omega
      | true => exact decide_eq_true (Nat.le_add_right _ _)
    simp only [toBits, ofBits, bits, place, sign, small, dif_pos]

theorem units_small (rank : Nat) (small : rank < 2 * octave) : units rank = rank := by
  unfold units octave at *
  split
  · rfl
  · have first : rank / 8388608 - 1 = 0 := by omega
    rw [first, Nat.shiftLeft_zero]
    omega

theorem units_next (rank : Nat) : units (rank + 1) = units rank + spacing rank := by
  by_cases small : rank + 1 < 2 * octave
  · rw [octave] at small
    have first : rank / 8388608 - 1 = 0 := by omega
    rw [units_small rank (Nat.lt_of_succ_lt small), units_small _ small, spacing, first, Nat.shiftLeft_zero]
  · rw [octave] at small
    unfold units spacing octave
    rw [if_neg (by omega), if_neg (by omega), Nat.shiftLeft_eq, Nat.shiftLeft_eq, Nat.shiftLeft_eq]
    by_cases wraps : (rank + 1) % 8388608 = 0
    · have quotient : (rank + 1) / 8388608 - 1 = rank / 8388608 - 1 + 1 := by omega
      have rest : rank % 8388608 = 8388607 := by omega
      rw [quotient, wraps, rest, Nat.pow_succ]
      omega
    · have quotient : (rank + 1) / 8388608 = rank / 8388608 := by omega
      have rest : (rank + 1) % 8388608 = rank % 8388608 + 1 := by omega
      rw [quotient, rest, ← Nat.add_assoc, Nat.add_mul _ 1, Nat.one_mul]

theorem units_step (rank : Nat) : units rank < units (rank + 1) := by
  rw [units_next, spacing, Nat.shiftLeft_eq, Nat.one_mul]
  exact Nat.lt_add_of_pos_right (Nat.two_pow_pos _)

theorem units_increasing (low high : Nat) (less : low < high) : units low < units high := by
  induction high with
  | zero => omega
  | succ high ih =>
      by_cases same : low = high
      · exact same ▸ units_step low
      · exact Nat.lt_trans (ih (by omega)) (units_step high)

end Single

end MiniPostScript
