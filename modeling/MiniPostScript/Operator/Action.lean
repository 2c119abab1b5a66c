import MiniPostScript.Machine
import MiniPostScript.Value.Display

set_option autoImplicit false

namespace MiniPostScript

-- Why an operator refuses, and the operands that it puts back, deepest first.
structure Refusal where
  error : Error
  operands : List Value
deriving DecidableEq

namespace Action

def copy (below : Stack) : List Value → Except Refusal (Stack × Deed)
  | [.integer n] =>
      if n.toInt < 0 then .error ⟨.outOfRange "copy", [.integer n]⟩
      else .ok (below.copy n.toInt.toNat, .display [])
  | operands => .error ⟨.typeMismatch "copy", operands⟩

def dict (below : Stack) : List Value → Except Refusal (Stack × Deed)
  | [.integer n] =>
      if n.toInt < 0 then .error ⟨.outOfRange "dict", [.integer n]⟩
      else .ok (below.push (.dictionary (.empty n.toInt.toNat)), .display [])
  | operands => .error ⟨.typeMismatch "dict", operands⟩

def beginDict (below : Stack) : List Value → Except Refusal (Stack × Deed)
  | [.dictionary d] => .ok (below, .beginDict d)
  | operands => .error ⟨.typeMismatch "begin", operands⟩

def define (below : Stack) : List Value → Except Refusal (Stack × Deed)
  | [.name key, value] => .ok (below, .define key value)
  | operands => .error ⟨.typeMismatch "def", operands⟩

def ifTrue (below : Stack) : List Value → Except Refusal (Stack × Deed)
  | [.boolean test, .block source] =>
      .ok (below, if test then .run source else .display [])
  | operands => .error ⟨.typeMismatch "if", operands⟩

def ifElse (below : Stack) : List Value → Except Refusal (Stack × Deed)
  | [.boolean test, .block yes, .block no] =>
      .ok (below, .run (if test then yes else no))
  | operands => .error ⟨.typeMismatch "ifelse", operands⟩

def forLoop (below : Stack) : List Value → Except Refusal (Stack × Deed)
  | [.integer first, .integer last, .integer step, .block source] =>
      if moves : step.toInt ≠ 0 then
        .ok (below, if Passes.within first last step then
            .loop source (.counting first last step moves)
          else .display [])
      else
        .error ⟨.outOfRange "for", [.integer first, .integer last, .integer step, .block source]⟩
  | operands => .error ⟨.typeMismatch "for", operands⟩

def repeatLoop (below : Stack) : List Value → Except Refusal (Stack × Deed)
  | [.integer n, .block source] =>
      if n.toInt < 0 then .error ⟨.outOfRange "repeat", [.integer n, .block source]⟩
      else match n.toInt.toNat with
        | 0 => .ok (below, .display [])
        | more + 1 => .ok (below, .loop source (.times more))
  | operands => .error ⟨.typeMismatch "repeat", operands⟩

def exec (below : Stack) : List Value → Except Refusal (Stack × Deed)
  | [.block source] => .ok (below, .run source)
  | operands => .error ⟨.typeMismatch "exec", operands⟩

def print (below : Stack) : List Value → Except Refusal (Stack × Deed)
  | [value] => .ok (below, .display [value.text])
  | operands => .error ⟨.typeMismatch "print", operands⟩

def clear (_ : Stack) : Stack × Deed := (.empty, .display [])

def count (s : Stack) : Stack × Deed := (s.push (.integer (Integer.ofSize s.count)), .display [])

def printStack (s : Stack) : Stack × Deed := (s, .display (s.cells.map Value.text))

end Action

end MiniPostScript
