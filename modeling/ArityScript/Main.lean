import ArityScript.Interactive

/-!
# The command line

An interactive session on standard input and output, up to the end of the input
or the command to leave.
-/

namespace ArityScript.Interactive

def dropBreak (line : List Char) : List Char :=
  if line.getLast? = some '\n' then line.dropLast else line

/-- Reads and handles lines as long as the session runs. -/
partial def loop (state : State) (input output : IO.FS.Stream) : IO Ending := do
  output.putStr prompt
  output.flush
  let line ← input.getLine
  if line.isEmpty then return .regular
  match step? Text.revise? state (dropBreak line.toList) with
  | none => return .broken
  | some (shown, state) =>
      output.putStr shown
      if state.running then loop state input output else return .regular

end ArityScript.Interactive

def main : IO UInt32 := do
  let input ← IO.getStdin
  let output ← IO.getStdout
  output.putStr ArityScript.Interactive.banner
  let ending ← ArityScript.Interactive.loop ArityScript.Interactive.start input output
  return ending.status.toUInt32
