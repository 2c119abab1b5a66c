set_option autoImplicit false

namespace MiniPostScript

inductive Error where
  | undefined (name : String)
  | stackUnderflow (op : String) (needed found : Nat)
  | typeMismatch (op : String)
  | divisionByZero (op : String)
  | outOfRange (op : String)
  | intervalOverflow
  | nestingLimit (limit : Nat)
  | emptyStack
deriving DecidableEq, Repr

def Error.message : Error → String
  | .undefined name => "undefined: '" ++ name ++ "' not found"
  | .stackUnderflow op needed found =>
      "stackunderflow: '" ++ op ++ "' needs " ++ needed.repr ++ " operand(s), found " ++ found.repr
  | .typeMismatch op => "typecheck: operand types not supported by '" ++ op ++ "'"
  | .divisionByZero op => "undefinedresult: division by zero in '" ++ op ++ "'"
  | .outOfRange op => "rangecheck: operand out of range in '" ++ op ++ "'"
  | .intervalOverflow => "rangecheck: putinterval source does not fit in destination"
  | .nestingLimit limit => "execstackoverflow: blocks nested deeper than " ++ limit.repr
  | .emptyStack => "stackunderflow: operand stack is empty"

end MiniPostScript
