import MiniPostScript.Number.Single

set_option autoImplicit false

namespace MiniPostScript.Single

def ofUnits (negative : Bool) (magnitude : Nat) : Single := ofRatio negative magnitude 1

def neg : Single → Single
  | .nan => .nan
  | .infinite negative => .infinite (!negative)
  | .finite negative rank => .finite (!negative) rank

def abs : Single → Single
  | .nan => .nan
  | .infinite _ => .infinite false
  | .finite _ rank => .finite false rank

-- Opposite infinities have no sum. A sum that vanishes is a negative zero only when both terms are
-- negative zeros.
def add : Single → Single → Single
  | .infinite a, .infinite b => if a = b then .infinite a else .nan
  | .infinite a, .finite _ _ => .infinite a
  | .finite _ _, .infinite b => .infinite b
  | .finite a m, .finite b n =>
      let sum := signed a (units m) + signed b (units n)
      if sum = 0 then zero (a && b) else ofUnits (decide (sum < 0)) sum.natAbs
  | _, _ => .nan

def sub (x y : Single) : Single := x.add y.neg

def mul : Single → Single → Single
  | .infinite a, .infinite b => .infinite (a != b)
  | .infinite a, .finite b n => if n.val = 0 then .nan else .infinite (a != b)
  | .finite a m, .infinite b => if m.val = 0 then .nan else .infinite (a != b)
  | .finite a m, .finite b n => ofRatio (a != b) (units m * units n) one
  | _, _ => .nan

def div : Single → Single → Single
  | .infinite a, .finite b _ => .infinite (a != b)
  | .finite a _, .infinite b => zero (a != b)
  | .finite a m, .finite b n =>
      if n.val = 0 then (if m.val = 0 then .nan else .infinite (a != b))
      else ofRatio (a != b) (units m * one) (units n)
  | _, _ => .nan

def rem : Single → Single → Single
  | .finite a m, .infinite _ => .finite a m
  | .finite a m, .finite _ n => if n.val = 0 then .nan else ofUnits a (units m % units n)
  | _, _ => .nan

def mapWhole (count : Bool → Nat → Nat) : Single → Single
  | .finite negative rank => ofUnits negative (count negative (units rank) * one)
  | x => x

def wholesBelow (magnitude : Nat) : Nat := magnitude / one

def wholesAbove (magnitude : Nat) : Nat := (magnitude + (one - 1)) / one

def trunc : Single → Single := mapWhole fun _ u => wholesBelow u

def floor : Single → Single := mapWhole fun negative u => if negative then wholesAbove u else wholesBelow u

def ceil : Single → Single := mapWhole fun negative u => if negative then wholesBelow u else wholesAbove u

-- A half goes away from zero.
def round : Single → Single := mapWhole fun _ u => (2 * u + one) / (2 * one)

def sqrt : Single → Single
  | .nan => .nan
  | .infinite negative => if negative then .nan else .infinite false
  | .finite negative rank =>
      if rank.val = 0 then .finite negative rank
      else if negative then .nan
      else ofRatio false (Rounding.rootTwice (units rank * one)) 2

def toInt? : Single → Option Int
  | .finite negative rank =>
      if units rank % one = 0 then some (signed negative (units rank / one)) else none
  | _ => none

end MiniPostScript.Single
