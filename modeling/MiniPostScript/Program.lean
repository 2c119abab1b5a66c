import MiniPostScript.Session

set_option autoImplicit false

namespace MiniPostScript.Program

def linesFrom (pending : List Char) : List Char → List (List Char)
  | [] => if pending = [] then [] else [pending.reverse]
  | c :: rest =>
      if c = '\n' then
        let line := match pending with
          | '\r' :: before => before
          | before => before
        line.reverse :: linesFrom [] rest
      else linesFrom (c :: pending) rest

def lines (text : String) : List String := (linesFrom [] text.toList).map String.ofList

def answers (s : Session) : List String → List String
  | [] => []
  | line :: rest =>
      let (after, text) := s.respond line
      text :: answers after rest

-- Runs a program and gives all that it answers; a line with an empty answer leaves no trace.
def run (program : String) : String :=
  "\n".intercalate ((answers (.new .default) (lines program)).filter fun text => text ≠ "")

end MiniPostScript.Program
