import MiniPostScript.Terminal

set_option autoImplicit false

namespace MiniPostScript.CommandLine

partial def readLine (input : IO.FS.Stream) (line : ByteArray) : IO ByteArray := do
  let next ← input.read 1
  if next.isEmpty then return line
  let line := line ++ next
  if next.data.contains 10 then return line else readLine input line

partial def converse (input output : IO.FS.Stream) (session : Session) : IO UInt32 := do
  output.putStr session.prompt
  output.flush
  let line ← readLine input .empty
  if line.isEmpty then return 0
  match Terminal.answer? line session with
  | none =>
      IO.eprintln "standard input is not valid UTF-8"
      return 1
  | some (after, text) =>
      output.putStr text
      if after.machine.halted then return 0 else converse input output after

end MiniPostScript.CommandLine

open MiniPostScript in
def main : IO UInt32 := do
  let settings := Settings.ofTexts (← IO.getEnv "PSREPL_SCOPING") (← IO.getEnv "PSREPL_MAX_DEPTH")
  CommandLine.converse (← IO.getStdin) (← IO.getStdout) (.new settings)
