import MiniPostScript.Number.Single
import MiniPostScript.Number.Integer

set_option autoImplicit false

namespace MiniPostScript

structure Numeral where
  negative : Bool
  coefficient : Nat
  scale : Int
deriving DecidableEq, Repr

namespace Numeral

def splitSign : List Char → Bool × List Char
  | '-' :: rest => (true, rest)
  | '+' :: rest => (false, rest)
  | text => (false, text)

def leadingDigits (text : List Char) : List Char := text.takeWhile Char.isDigit

def afterDigits (text : List Char) : List Char := text.dropWhile Char.isDigit

def isDigits (text : List Char) : Bool := !text.isEmpty && text.all Char.isDigit

def splitFraction : List Char → List Char × List Char
  | '.' :: rest => (leadingDigits rest, afterDigits rest)
  | text => ([], text)

-- An exponent stops growing once it has passed 65535, where every number is long zero or infinite.
def exponentValue (digits : List Char) : Nat :=
  digits.foldl (fun n c => if n < 65536 then 10 * n + (c.toNat - '0'.toNat) else n) 0

def exponent? : List Char → Option Int
  | [] => some 0
  | mark :: rest =>
      let (negative, digits) := splitSign rest
      if (mark = 'e' ∨ mark = 'E') ∧ isDigits digits then
        some (Single.signed negative (exponentValue digits))
      else none

def ofText? (text : List Char) : Option Numeral :=
  let (negative, body) := splitSign text
  let whole := leadingDigits body
  let (fraction, rest) := splitFraction (afterDigits body)
  if whole ++ fraction = [] then none
  else (exponent? rest).map fun exponent =>
    ⟨negative, Nat.ofDigitChars 10 (whole ++ fraction) 0, exponent - fraction.length⟩

def toSingle (numeral : Numeral) : Single :=
  .ofDecimal numeral.negative numeral.coefficient numeral.scale

end Numeral

def Integer.ofText? (text : List Char) : Option Integer :=
  let (negative, digits) := Numeral.splitSign text
  if Numeral.isDigits digits then
    Integer.ofInt? (Single.signed negative (Nat.ofDigitChars 10 digits 0))
  else none

end MiniPostScript
