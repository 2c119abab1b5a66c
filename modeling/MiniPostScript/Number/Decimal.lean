import MiniPostScript.Number.Single
import MiniPostScript.Number.Integer

set_option autoImplicit false

namespace MiniPostScript

namespace Decimal

abbrev scale : Nat := 100000

def sign (negative : Bool) : List Char := if negative then ['-'] else []

def integerText (n : Int) : List Char := sign (decide (n < 0)) ++ Nat.toDigits 10 n.natAbs

-- The leading one keeps the zeros after the point and is then cut off.
def decimals (scaled : Nat) : List Char := (Nat.toDigits 10 (scale + scaled % scale)).tail

def dropFinalZeros : List Char → List Char
  | [] => []
  | first :: rest => first :: (rest.reverse.dropWhile (· == '0')).reverse

def fixedText (negative : Bool) (scaled : Nat) : List Char :=
  sign negative ++ Nat.toDigits 10 (scaled / scale) ++ '.' :: dropFinalZeros (decimals scaled)

end Decimal

def Integer.text (n : Integer) : List Char := Decimal.integerText n.toInt

-- A single rounded to the nearest fifth decimal, a tie to the even one. The sign of zero is kept.
def Single.text : Single → List Char
  | .nan => ['N', 'a', 'N']
  | .infinite negative => Decimal.sign negative ++ ['i', 'n', 'f']
  | .finite negative rank =>
      Decimal.fixedText negative (Rounding.nearestQuotient (units rank * Decimal.scale) one)

end MiniPostScript
