import MiniPostScript.Error
import MiniPostScript.Value

set_option autoImplicit false

namespace MiniPostScript.Comparison

-- Numbers closer than this count as equal: the single nearest to 0.0001.
def tolerance : Single := .ofDecimal false 1 (-4)

def equal (op : String) (a b : Value) : Except Error Bool :=
  match a, b with
  | .integer m, .integer n => .ok (m == n)
  | .string s, .string t => .ok (s == t)
  | .boolean p, .boolean q => .ok (p == q)
  | .name s, .name t => .ok (s == t)
  | _, _ =>
      match a.toSingle?, b.toSingle? with
      | some x, some y => .ok ((x.sub y).abs.less tolerance)
      | _, _ => .error (.typeMismatch op)

def order (op : String) (a b : Value) : Except Error Ordering :=
  match a, b with
  | .integer m, .integer n => .ok (compare m.toInt n.toInt)
  | .string s, .string t => .ok (compare s t)
  | _, _ =>
      match a.toSingle?, b.toSingle? with
      | some x, some y =>
          match x.compare? y with
          | some result => .ok result
          | none => .error (.typeMismatch op)
      | _, _ => .error (.typeMismatch op)

def ordered (op : String) (test : Ordering → Bool) (a b : Value) : Except Error Value :=
  (order op a b).map fun result => .boolean (test result)

def eq (a b : Value) : Except Error Value := (equal "eq" a b).map .boolean

def ne (a b : Value) : Except Error Value := (equal "ne" a b).map fun same => .boolean (!same)

def lt : Value → Value → Except Error Value := ordered "lt" Ordering.isLT

def gt : Value → Value → Except Error Value := ordered "gt" Ordering.isGT

def le : Value → Value → Except Error Value := ordered "le" Ordering.isLE

def ge : Value → Value → Except Error Value := ordered "ge" Ordering.isGE

def and : Value → Value → Except Error Value
  | .boolean p, .boolean q => .ok (.boolean (p && q))
  | .integer m, .integer n => .ok (.integer (m &&& n))
  | _, _ => .error (.typeMismatch "and")

def or : Value → Value → Except Error Value
  | .boolean p, .boolean q => .ok (.boolean (p || q))
  | .integer m, .integer n => .ok (.integer (m ||| n))
  | _, _ => .error (.typeMismatch "or")

def not : Value → Except Error Value
  | .boolean p => .ok (.boolean (!p))
  | .integer n => .ok (.integer (~~~n))
  | _ => .error (.typeMismatch "not")

end MiniPostScript.Comparison
