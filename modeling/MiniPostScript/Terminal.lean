import MiniPostScript.Session

set_option autoImplicit false

namespace MiniPostScript.Terminal

-- What a line of bytes does to a session, and what is written for it. There is no answer to bytes
-- that are not UTF-8. The line may still have its line feed: white space around it means nothing.
def answer? (bytes : ByteArray) (s : Session) : Option (Session × String) :=
  match String.fromUTF8? bytes with
  | none => none
  | some line =>
      let (after, notices) := s.feed line
      some (after, String.join (notices.map fun notice => notice.text ++ "\n"))

def linesFrom (pending : List UInt8) : List UInt8 → List ByteArray
  | [] => if pending = [] then [] else [⟨pending.reverse.toArray⟩]
  | byte :: rest =>
      if byte = 10 then ⟨(byte :: pending).reverse.toArray⟩ :: linesFrom [] rest
      else linesFrom (byte :: pending) rest

def lines (input : List UInt8) : List ByteArray := linesFrom [] input

-- All that is written for the given lines, and the exit code: one when a line is not UTF-8, zero at
-- the end of input and after a halt.
def converse (s : Session) : List ByteArray → String × UInt8
  | [] => (s.prompt, 0)
  | line :: rest =>
      match answer? line s with
      | none => (s.prompt, 1)
      | some (after, text) =>
          let written := s.prompt ++ text
          if after.machine.halted then (written, 0)
          else
            let (later, code) := converse after rest
            (written ++ later, code)

def run (settings : Settings) (input : List UInt8) : String × UInt8 :=
  converse (.new settings) (lines input)

end MiniPostScript.Terminal
