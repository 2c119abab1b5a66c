import MiniPostScript.Passes
import MiniPostScript.Scopes
import MiniPostScript.Settings
import MiniPostScript.Stack

set_option autoImplicit false

namespace MiniPostScript

structure Machine where
  stack : Stack
  scopes : Scopes
  scoping : Scoping
  halted : Bool
deriving DecidableEq

namespace Machine

def ofScoping (scoping : Scoping) : Machine :=
  ⟨.empty, .ofGlobal .builtins, scoping, false⟩

def push (value : Value) (m : Machine) : Machine := { m with stack := m.stack.push value }

end Machine

-- What an operator does besides what it does to the stack.
inductive Deed where
  | display (lines : List String)
  | beginDict (d : Dictionary)
  | endDict
  | define (key : String) (value : Value)
  | halt
  | setScoping (choose : Scoping → Scoping)
  | run (source : String)
  | loop (source : String) (passes : Passes)

inductive Effect where
  | done (after : Machine) (shown : List String)
  | run (after : Machine) (source : String) (passes : Passes)
deriving DecidableEq

-- What comes of a deed. An end with only the global scope left has nothing to end, and a halted
-- machine begins no loop.
def Deed.effect : Deed → Machine → Effect
  | .display lines, m => .done m lines
  | .beginDict d, m => .done { m with scopes := m.scopes.push d } []
  | .endDict, m => .done { m with scopes := (m.scopes.pop?.map Prod.snd).getD m.scopes } []
  | .define key value, m => .done { m with scopes := m.scopes.define key value } []
  | .halt, m => .done { m with halted := true } []
  | .setScoping choose, m => .done { m with scoping := choose m.scoping } []
  | .run source, m => .run m source (.times 0)
  | .loop source passes, m => if m.halted then .done m [] else .run m source passes

end MiniPostScript
