import MiniPostScript.Number.Numeral
import MiniPostScript.Text.Blank
import MiniPostScript.Value

set_option autoImplicit false

namespace MiniPostScript

namespace Token

-- A numeral with a point is a real. One without is an integer if it is whole and 32 bits hold it;
-- written as digits alone it is read exactly, however few digits a single would keep. A numeral too
-- great for a single is no number.
def number? (token : List Char) : Option Value :=
  match Numeral.ofText? token with
  | none => none
  | some numeral =>
      let x := numeral.toSingle
      if !x.isFinite then none
      else if token.contains '.' then some (.real x)
      else match Integer.ofText? token with
        | some n => some (.integer n)
        | none => some (.ofSingle x)

def boolean? : List Char → Option Value
  | ['t', 'r', 'u', 'e'] => some (.boolean true)
  | ['f', 'a', 'l', 's', 'e'] => some (.boolean false)
  | _ => none

def between? (opening closing : Char) : List Char → Option (List Char)
  | [] => none
  | first :: rest =>
      if first = opening ∧ rest.getLast? = some closing then some rest.dropLast else none

def string? (token : List Char) : Option Value :=
  (between? '(' ')' token).map fun text => .string (String.ofList text)

def block? (token : List Char) : Option Value :=
  (between? '{' '}' token).map fun source => .block (String.ofList (Text.trim source))

def name? : List Char → Option Value
  | '/' :: text => some (.name (String.ofList text))
  | _ => none

end Token

def constant? (token : String) : Option Value :=
  let text := token.toList
  Token.number? text <|> Token.boolean? text <|> Token.string? text <|> Token.block? text
    <|> Token.name? text

end MiniPostScript
