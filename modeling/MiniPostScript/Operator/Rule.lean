import MiniPostScript.Operator.Action
import MiniPostScript.Operator.Arithmetic
import MiniPostScript.Operator.Comparison
import MiniPostScript.Operator.Strings

set_option autoImplicit false

namespace MiniPostScript

-- What an operator does, with the name it fails under and the number of operands it takes.
inductive Rule where
  | values (name : String) (needed : Nat) (results : List Value → Except Error (List Value))
  | acts (name : String) (needed : Nat) (act : Stack → List Value → Except Refusal (Stack × Deed))
  -- Changes the stack, and looks for operands on it by itself.
  | changes (change : Stack → Except Error Stack)
  | always (act : Stack → Stack × Deed)

namespace Rule

def unary (name : String) (f : Value → Except Error Value) : Rule :=
  .values name 1 fun
    | [a] => (f a).map fun result => [result]
    | _ => .error (.typeMismatch name)

def binary (name : String) (f : Value → Value → Except Error Value) : Rule :=
  .values name 2 fun
    | [a, b] => (f a b).map fun result => [result]
    | _ => .error (.typeMismatch name)

def ternary (name : String) (f : Value → Value → Value → Except Error Value) : Rule :=
  .values name 3 fun
    | [a, b, c] => (f a b c).map fun result => [result]
    | _ => .error (.typeMismatch name)

def deed (deed : Deed) : Rule := .always fun s => (s, deed)

def take (rule : Rule) (s : Stack) : Except Error (List Value × Stack) :=
  match rule with
  | .values name needed _ | .acts name needed _ => s.take name needed
  | .changes _ | .always _ => .ok ([], s)

-- What a rule makes of operands and the stack below them. Where results cannot be had, the operands
-- are put back as they were.
def apply (rule : Rule) (below : Stack) (operands : List Value) : Except Refusal (Stack × Deed) :=
  match rule with
  | .values _ _ results =>
      match results operands with
      | .ok pushed => .ok (below.pushAll pushed, .display [])
      | .error error => .error ⟨error, operands⟩
  | .acts _ _ act => act below operands
  | .changes change =>
      match change (below.pushAll operands) with
      | .ok after => .ok (after, .display [])
      | .error error => .error ⟨error, operands⟩
  | .always act => .ok (act below)

-- Gives the stack after it and what else is to be done, or an error and the stack that it leaves.
def perform (rule : Rule) (s : Stack) : Except (Error × Stack) (Stack × Deed) :=
  match rule.take s with
  | .error error => .error (error, s)
  | .ok (operands, below) =>
      (rule.apply below operands).mapError fun refusal => (refusal.error, below.pushAll refusal.operands)

end Rule

def Operator.rule : Operator → Rule
  | .exch => .changes Stack.exch
  | .pop => .values "pop" 1 fun _ => .ok []
  | .copy => .acts "copy" 1 Action.copy
  | .dup => .changes Stack.dup
  | .clear => .always Action.clear
  | .count => .always Action.count
  | .add => .binary "add" Arithmetic.add
  | .sub => .binary "sub" Arithmetic.sub
  | .mul => .binary "mul" Arithmetic.mul
  | .div => .binary "div" Arithmetic.div
  | .mod => .binary "mod" Arithmetic.mod
  | .idiv => .binary "idiv" Arithmetic.idiv
  | .abs => .unary "abs" Arithmetic.abs
  | .neg => .unary "neg" Arithmetic.neg
  | .ceil => .unary "ceil" Arithmetic.ceil
  | .floor => .unary "floor" Arithmetic.floor
  | .round => .unary "round" Arithmetic.round
  | .sqrt => .unary "sqrt" Arithmetic.sqrt
  | .dict => .acts "dict" 1 Action.dict
  | .length => .unary "length" Strings.length
  | .maxLength => .unary "maxlength" Strings.maxLength
  | .beginDict => .acts "begin" 1 Action.beginDict
  | .endDict => .deed .endDict
  | .define => .acts "def" 2 Action.define
  | .get => .binary "get" Strings.get
  | .getInterval => .ternary "getinterval" Strings.getInterval
  | .putInterval => .ternary "putinterval" Strings.putInterval
  | .eq => .binary "eq" Comparison.eq
  | .ne => .binary "ne" Comparison.ne
  | .gt => .binary "gt" Comparison.gt
  | .lt => .binary "lt" Comparison.lt
  | .ge => .binary "ge" Comparison.ge
  | .le => .binary "le" Comparison.le
  | .and => .binary "and" Comparison.and
  | .or => .binary "or" Comparison.or
  | .not => .unary "not" Comparison.not
  | .ifTrue => .acts "if" 2 Action.ifTrue
  | .ifElse => .acts "ifelse" 3 Action.ifElse
  | .forLoop => .acts "for" 4 Action.forLoop
  | .repeatLoop => .acts "repeat" 2 Action.repeatLoop
  | .exec => .acts "exec" 1 Action.exec
  | .quit => .deed .halt
  | .print => .acts "print" 1 Action.print
  | .printStack => .always Action.printStack
  | .changeScoping => .deed (.setScoping Scoping.other)
  | .lexical => .deed (.setScoping fun _ => .lexical)
  | .dynamic => .deed (.setScoping fun _ => .dynamic)

def Stack.perform (op : Operator) (s : Stack) : Except (Error × Stack) (Stack × Deed) := op.rule.perform s

def Machine.perform (op : Operator) (m : Machine) : Except (Error × Machine) Effect :=
  match m.stack.perform op with
  | .ok (stack, deed) => .ok (deed.effect { m with stack := stack })
  | .error (error, stack) => .error (error, { m with stack := stack })

end MiniPostScript
