import MiniPostScript.Number.Decimal
import MiniPostScript.Value

set_option autoImplicit false

namespace MiniPostScript

mutual
def Value.text : Value → String
  | .integer n => String.ofList n.text
  | .real x => String.ofList x.text
  | .boolean b => if b then "True" else "False"
  | .string text => text
  | .name text => text
  | .block source => source
  | .operator op => "--" ++ op.name ++ "--"
  | .dictionary d => d.text
def Dictionary.text : Dictionary → String
  | .mk _ bindings => "<<" ++ bindings.text ++ " >>"
def Bindings.text : Bindings → String
  | .nil => ""
  | .cons key value rest => " /" ++ key ++ " " ++ value.text ++ rest.text
end

end MiniPostScript
