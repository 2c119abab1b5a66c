import MiniPostScript.Operator.Rule
import MiniPostScript.Token
import MiniPostScript.Token.Constant

set_option autoImplicit false

namespace MiniPostScript

inductive Notice where
  | shown (text : String)
  | reported (error : Error)
deriving DecidableEq

def Notice.text : Notice → String
  | .shown text => text
  | .reported error => error.message

-- How an activity came about. A block entered by its name under lexical scoping has a home: the
-- frame in which the name was found.
inductive Entry where
  | line
  | block
  | named (home : FrameId)
deriving DecidableEq

def Entry.home? : Entry → Option FrameId
  | .named home => some home
  | _ => none

structure Activity where
  entry : Entry
  rest : List String
  body : List String
  passes : Passes
deriving DecidableEq

structure Run where
  limit : Nat
  machine : Machine
  pending : List Activity
  depth : Nat
  -- The homes of the named blocks that are running, innermost first.
  homes : List FrameId
  -- What the user has been told, the latest first.
  notices : List Notice
deriving DecidableEq

namespace Run

def ofLine (limit : Nat) (machine : Machine) (line : String) : Run where
  limit := limit
  machine := machine
  pending := [⟨.line, tokens line, tokens line, .times 0⟩]
  depth := 0
  homes := []
  notices := []

def report (error : Error) (r : Run) : Run := { r with notices := .reported error :: r.notices }

-- Looks a name up. Under lexical scoping a named block sees its home and the global frame; code
-- outside any named block, and all code under dynamic scoping, sees every open frame.
def lookup (name : String) (r : Run) : Option (Value × FrameId) :=
  match r.machine.scoping, r.homes with
  | .lexical, home :: _ =>
      r.machine.scopes.lookupIn name home <|> r.machine.scopes.lookupIn name .global
  | _, _ => r.machine.scopes.lookup name

def enter (entry : Entry) (source : String) (passes : Passes) (r : Run) : Run :=
  if r.limit ≤ r.depth then r.report (.nestingLimit r.limit)
  else
    let body := tokens source
    { r with
      pending := ⟨entry, body, body, passes⟩ :: r.pending
      depth := r.depth + 1
      homes := entry.home?.toList ++ r.homes }

def leave (r : Run) : Run :=
  match r.pending with
  | [] => r
  | activity :: outer =>
      match activity.entry with
      | .line => { r with pending := outer }
      | .block => { r with pending := outer, depth := r.depth - 1 }
      | .named _ => { r with pending := outer, depth := r.depth - 1, homes := r.homes.tail }

-- Carries out what an operator does. Operands are gone when the block they call for cannot be
-- entered.
def carryOut (effect : Effect) (r : Run) : Run :=
  match effect with
  | .done after shown =>
      { r with machine := after, notices := (shown.map .shown).reverse ++ r.notices }
  | .run after source passes => { r with machine := after }.enter .block source passes

def operate (op : Operator) (r : Run) : Run :=
  match r.machine.perform op with
  | .ok effect => r.carryOut effect
  | .error (error, machine) => { r with machine := machine }.report error

def push (value : Value) (r : Run) : Run := { r with machine := r.machine.push value }

def enterNamed (source : String) (home : FrameId) (r : Run) : Run :=
  match r.machine.scoping with
  | .dynamic => r.enter .block source (.times 0)
  | .lexical => r.enter (.named home) source (.times 0)

def evaluate (value : Value) (home : FrameId) (r : Run) : Run :=
  match value with
  | .operator op => r.operate op
  | .block source => r.enterNamed source home
  | value => r.push value

def dispatch (name : String) (r : Run) : Run :=
  match r.lookup name with
  | none => r.report (.undefined name)
  | some (value, home) => r.evaluate value home

def execute (token : String) (r : Run) : Run :=
  match constant? token with
  | some value => r.push value
  | none => r.dispatch token

def step (r : Run) : Run :=
  match r.pending with
  | [] => r
  | activity :: outer =>
      if r.machine.halted then r.leave
      else match activity.rest with
        | token :: rest => { r with pending := { activity with rest := rest } :: outer }.execute token
        | [] =>
            match activity.passes.next? with
            | some passes =>
                { r with pending := { activity with rest := activity.body, passes := passes } :: outer }
            | none => r.leave

end Run

end MiniPostScript
