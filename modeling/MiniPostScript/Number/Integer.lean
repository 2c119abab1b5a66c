import MiniPostScript.Number.Rounding

set_option autoImplicit false

namespace MiniPostScript

abbrev Integer := Int32

namespace Integer

def ofInt? (n : Int) : Option Integer :=
  if -2147483648 ≤ n ∧ n < 2147483648 then some (Int32.ofInt n) else none

-- A size as an integer; sizes of `2 ^ 31` and more wrap around.
def ofSize (n : Nat) : Integer := Int32.ofNat n

-- The root of `n` rounded to 53 significant bits, then cut to its whole part.
def root (n : Nat) : Nat :=
  let twice := Rounding.rootTwice (n <<< 120)
  (Rounding.significand 53 twice 2 <<< Rounding.bitExponent 53 twice 2) >>> 60

theorem of_int_some_iff (n : Int) (w : Integer) : ofInt? n = some w ↔ w.toInt = n := by
  have low := w.le_toInt
  have high := w.toInt_lt
  rw [ofInt?]
  constructor
  · intro found
    split at found
    · rename_i fits
      obtain rfl := Option.some.inj found
      exact Int32.toInt_ofInt_of_le fits.1 fits.2
    · cases found
  · rintro rfl
    rw [if_pos ⟨low, high⟩, Int32.ofInt_toInt]

end Integer

end MiniPostScript
