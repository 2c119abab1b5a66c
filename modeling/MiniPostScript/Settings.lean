import MiniPostScript.Text.Blank

set_option autoImplicit false

namespace MiniPostScript

inductive Scoping where
  | dynamic
  | lexical
deriving DecidableEq, Repr

def Scoping.other : Scoping → Scoping
  | .dynamic => .lexical
  | .lexical => .dynamic

structure Settings where
  scoping : Scoping
  maxDepth : Nat
deriving DecidableEq, Repr

namespace Settings

def default : Settings := ⟨.dynamic, 512⟩

def scoping? (text : String) : Option Scoping :=
  match (Text.trim text.toList).map Char.toLower with
  | ['d', 'y', 'n', 'a', 'm', 'i', 'c'] => some .dynamic
  | ['l', 'e', 'x', 'i', 'c', 'a', 'l'] => some .lexical
  | _ => none

def maxDepth? (text : String) : Option Nat :=
  let digits := match Text.trim text.toList with
    | '+' :: rest => rest
    | rest => rest
  let depth := Nat.ofDigitChars 10 digits 0
  if !digits.isEmpty && digits.all Char.isDigit && 0 < depth && depth < UInt64.size then some depth
  else none

-- The settings that two texts ask for. What is absent or cannot be read keeps its default.
def ofTexts (scoping maxDepth : Option String) : Settings where
  scoping := (scoping.bind scoping?).getD default.scoping
  maxDepth := (maxDepth.bind maxDepth?).getD default.maxDepth

end Settings

end MiniPostScript
