import MiniPostScript.Error
import MiniPostScript.Value

set_option autoImplicit false

namespace MiniPostScript.Strings

def index (op : String) (n : Integer) : Except Error Nat :=
  if n.toInt < 0 then .error (.outOfRange op) else .ok n.toInt.toNat

def get : Value → Value → Except Error Value
  | .string text, .integer place => do
      let place ← index "get" place
      match text.toList[place]? with
      | some c => .ok (.integer (Integer.ofSize c.toNat))
      | none => .error (.outOfRange "get")
  | _, _ => .error (.typeMismatch "get")

def getInterval : Value → Value → Value → Except Error Value
  | .string text, .integer start, .integer count => do
      let start ← index "getinterval" start
      let count ← index "getinterval" count
      if text.length < start + count then .error (.outOfRange "getinterval")
      else .ok (.string (String.ofList ((text.toList.drop start).take count)))
  | _, _, _ => .error (.typeMismatch "getinterval")

def putInterval : Value → Value → Value → Except Error Value
  | .string text, .integer start, .string source => do
      let start ← index "putinterval" start
      if text.length < start + source.length then .error .intervalOverflow
      else .ok (.string (String.ofList
        (text.toList.take start ++ source.toList ++ text.toList.drop (start + source.length))))
  | _, _, _ => .error (.typeMismatch "putinterval")

def length : Value → Except Error Value
  | .string text => .ok (.integer (Integer.ofSize text.length))
  | .dictionary d => .ok (.integer (Integer.ofSize d.size))
  | _ => .error (.typeMismatch "length")

def maxLength : Value → Except Error Value
  | .dictionary d => .ok (.integer (Integer.ofSize d.capacity))
  | _ => .error (.typeMismatch "maxlength")

end MiniPostScript.Strings
