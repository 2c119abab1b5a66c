import MiniPostScript.Text.Blank

set_option autoImplicit false

namespace MiniPostScript.Token

open Text

def opensBlock (word : List Char) : Bool := word.head? == some '{'

def closesBlock (word : List Char) : Bool := word.getLast? == some '}'

def opensString (word : List Char) : Bool := word.head? == some '('

def closesString (word : List Char) : Bool := word.getLast? == some ')'

-- Where a scan stands: outside any literal, or inside one whose fragments so far are `words`, the
-- last one first. A block also counts how many braces are open.
inductive Scan where
  | outside
  | inBlock (words : List (List Char)) (depth : Nat)
  | inString (words : List (List Char))
deriving DecidableEq

namespace Scan

def read (word : List Char) : Scan → Scan × Option (List Char)
  | .outside =>
      if opensBlock word then
        if closesBlock word then (.outside, some word) else (.inBlock [word] 1, none)
      else if opensString word && !closesString word then (.inString [word], none)
      else (.outside, some word)
  | .inBlock words depth =>
      let deeper := if opensBlock word then depth + 1 else depth
      let depth := if closesBlock word then deeper - 1 else deeper
      if depth = 0 then (.outside, some (spaced (word :: words).reverse))
      else (.inBlock (word :: words) depth, none)
  | .inString words =>
      if closesString word && !opensString word then
        (.outside, some (spaced (word :: words).reverse))
      else (.inString (word :: words), none)

def rest? : Scan → Option (List Char)
  | .outside => none
  | .inBlock words depth => some (spaced words.reverse ++ List.replicate depth '}')
  | .inString words => some (spaced words.reverse ++ [')'])

def tokens (scan : Scan) : List (List Char) → List (List Char)
  | [] => scan.rest?.toList
  | word :: words =>
      let (next, token) := scan.read word
      token.toList ++ next.tokens words

def after (scan : Scan) (words : List (List Char)) : Scan :=
  words.foldl (fun scan word => (scan.read word).1) scan

end Scan

def split (line : List Char) : List (List Char) := Scan.outside.tokens (fragments line)

end Token

def tokens (line : String) : List String := (Token.split line.toList).map String.ofList

end MiniPostScript
