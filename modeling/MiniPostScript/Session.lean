import MiniPostScript.Run.Finish

set_option autoImplicit false

namespace MiniPostScript

structure Session where
  settings : Settings
  machine : Machine
deriving DecidableEq

namespace Session

def new (settings : Settings) : Session := ⟨settings, .ofScoping settings.scoping⟩

-- Runs a line; gives the session after it and what the user was told meanwhile, in order. A halted
-- session takes no more lines.
def feed (line : String) (s : Session) : Session × List Notice :=
  if s.machine.halted then (s, [])
  else
    let run := (Run.ofLine s.settings.maxDepth s.machine line).finish
    ({ s with machine := run.machine }, run.notices.reverse)

def reset (s : Session) : Session := new s.settings

def count (s : Session) : Nat := s.machine.stack.count

def top (s : Session) : Except Error Value :=
  match s.machine.stack.top? with
  | some value => .ok value
  | none => .error .emptyStack

def prompt (s : Session) : String := "REPL(" ++ s.count.repr ++ ")> "

def respond (line : String) (s : Session) : Session × String :=
  let (after, notices) := s.feed line
  (after, "\n".intercalate (notices.map Notice.text))

end Session

end MiniPostScript
