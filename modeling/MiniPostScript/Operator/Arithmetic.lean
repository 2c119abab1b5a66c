import MiniPostScript.Error
import MiniPostScript.Value

set_option autoImplicit false

namespace MiniPostScript.Arithmetic

-- Two integers give an exact integer if 32 bits hold it; all other results are computed on singles
-- and typed by their value.
def onNumbers (op : String) (whole : Int → Int → Int) (real : Single → Single → Single) (a b : Value) :
    Except Error Value :=
  match a, b with
  | .integer m, .integer n =>
      match Integer.ofInt? (whole m.toInt n.toInt) with
      | some result => .ok (.integer result)
      | none => .ok (.ofSingle (real (.ofInt m.toInt) (.ofInt n.toInt)))
  | _, _ =>
      match a.toSingle?, b.toSingle? with
      | some x, some y => .ok (.ofSingle (real x y))
      | _, _ => .error (.typeMismatch op)

def isZero (value : Value) : Bool :=
  match value.toSingle? with
  | some x => x.same (.zero false)
  | none => false

def nonzeroDivisor (op : String) (divisor : Value) : Except Error Unit :=
  if isZero divisor then .error (.divisionByZero op) else .ok ()

def add : Value → Value → Except Error Value := onNumbers "add" (· + ·) Single.add

def sub : Value → Value → Except Error Value := onNumbers "sub" (· - ·) Single.sub

def mul : Value → Value → Except Error Value := onNumbers "mul" (· * ·) Single.mul

def div (a b : Value) : Except Error Value :=
  match a.toSingle?, b.toSingle? with
  | some x, some y => do
      nonzeroDivisor "div" b
      match a, b with
      | .integer m, .integer n =>
          match if m.toInt.tmod n.toInt = 0 then Integer.ofInt? (m.toInt.tdiv n.toInt) else none with
          | some quotient => .ok (.integer quotient)
          | none => .ok (.ofSingle (x.div y))
      | _, _ => .ok (.ofSingle (x.div y))
  | _, _ => .error (.typeMismatch "div")

-- The divisor is looked at first, so a zero divisor wins over a dividend that is no number.
def mod (a b : Value) : Except Error Value := do
  nonzeroDivisor "mod" b
  onNumbers "mod" Int.tmod Single.rem a b

def idiv (a b : Value) : Except Error Value := do
  nonzeroDivisor "idiv" b
  onNumbers "idiv" Int.tdiv (fun x y => (x.div y).trunc) a b

def onNumber (op : String) (whole : Int → Int) (real : Single → Single) : Value → Except Error Value
  | .integer n =>
      match Integer.ofInt? (whole n.toInt) with
      | some result => .ok (.integer result)
      | none => .ok (.ofSingle (real (.ofInt n.toInt)))
  | .real x => .ok (.ofSingle (real x))
  | _ => .error (.typeMismatch op)

def abs : Value → Except Error Value := onNumber "abs" (fun n => n.natAbs) Single.abs

def neg : Value → Except Error Value := onNumber "neg" (fun n => -n) Single.neg

def ceil : Value → Except Error Value := onNumber "ceil" id Single.ceil

def floor : Value → Except Error Value := onNumber "floor" id Single.floor

def round : Value → Except Error Value := onNumber "round" id Single.round

def sqrt : Value → Except Error Value
  | .integer n =>
      if n.toInt < 0 then .error (.outOfRange "sqrt")
      else .ok (.integer (Integer.ofSize (Integer.root n.toInt.toNat)))
  | .real x => if x.less (.zero false) then .error (.outOfRange "sqrt") else .ok (.ofSingle x.sqrt)
  | _ => .error (.typeMismatch "sqrt")

end MiniPostScript.Arithmetic
