set_option autoImplicit false

namespace MiniPostScript

inductive Operator where
  | exch | pop | copy | dup | clear | count
  | add | sub | mul | div | mod | idiv | abs | neg | ceil | floor | round | sqrt
  | dict | length | maxLength | beginDict | endDict | define
  | get | getInterval | putInterval
  | eq | ne | gt | lt | ge | le | and | or | not
  | ifTrue | ifElse | forLoop | repeatLoop | exec | quit
  | print | printStack
  | changeScoping | lexical | dynamic
deriving DecidableEq, Repr

namespace Operator

def name : Operator → String
  | .exch => "exch"
  | .pop => "pop"
  | .copy => "copy"
  | .dup => "dup"
  | .clear => "clear"
  | .count => "count"
  | .add => "add"
  | .sub => "sub"
  | .mul => "mul"
  | .div => "div"
  | .mod => "mod"
  | .idiv => "idiv"
  | .abs => "abs"
  | .neg => "neg"
  | .ceil => "ceil"
  | .floor => "floor"
  | .round => "round"
  | .sqrt => "sqrt"
  | .dict => "dict"
  | .length => "length"
  | .maxLength => "maxlength"
  | .beginDict => "begin"
  | .endDict => "end"
  | .define => "def"
  | .get => "get"
  | .getInterval => "getinterval"
  | .putInterval => "putinterval"
  | .eq => "eq"
  | .ne => "ne"
  | .gt => "gt"
  | .lt => "lt"
  | .ge => "ge"
  | .le => "le"
  | .and => "and"
  | .or => "or"
  | .not => "not"
  | .ifTrue => "if"
  | .ifElse => "ifelse"
  | .forLoop => "for"
  | .repeatLoop => "repeat"
  | .exec => "exec"
  | .quit => "quit"
  | .print => "print"
  | .printStack => "pstack"
  | .changeScoping => "changescoping"
  | .lexical => "lexical"
  | .dynamic => "dynamic"

def arity : Operator → Nat
  | .clear | .count | .endDict | .quit | .printStack | .changeScoping | .lexical | .dynamic => 0
  | .pop | .copy | .dup | .abs | .neg | .ceil | .floor | .round | .sqrt | .dict | .length
  | .maxLength | .beginDict | .not | .exec | .print => 1
  | .exch | .add | .sub | .mul | .div | .mod | .idiv | .define | .get | .eq | .ne | .gt | .lt | .ge
  | .le | .and | .or | .ifTrue | .repeatLoop => 2
  | .getInterval | .putInterval | .ifElse => 3
  | .forLoop => 4

def all : List Operator :=
  [.exch, .pop, .copy, .dup, .clear, .count,
   .add, .sub, .mul, .div, .mod, .idiv, .abs, .neg, .ceil, .floor, .round, .sqrt,
   .dict, .length, .maxLength, .beginDict, .endDict, .define,
   .get, .getInterval, .putInterval,
   .eq, .ne, .gt, .lt, .ge, .le, .and, .or, .not,
   .ifTrue, .ifElse, .forLoop, .repeatLoop, .exec, .quit,
   .print, .printStack,
   .changeScoping, .lexical, .dynamic]

def aliases : List (String × Operator) :=
  [("ceiling", .ceil), ("=", .print), ("==", .print), ("stack", .printStack)]

def builtins : List (String × Operator) := all.map (fun op => (op.name, op)) ++ aliases

def ofName? (text : String) : Option Operator := builtins.lookup text

theorem mem_all (op : Operator) : op ∈ all := by
  cases op <;> decide

theorem builtin_name (op : Operator) : ofName? op.name = some op := by
  cases op <;> decide

end Operator

end MiniPostScript
