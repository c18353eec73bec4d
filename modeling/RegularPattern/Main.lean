import RegularPattern.Command.Response

/-!
# The program

Reads the arguments and, where they call for it, the standard input, and prints the answer.
-/

namespace RegularPattern

/-- Everything that is left in a stream. -/
partial def readAll (stream : IO.FS.Stream) (bytes : ByteArray) : IO ByteArray := do
  let chunk ← stream.read 65536
  if chunk.isEmpty then return bytes else readAll stream (bytes ++ chunk)

end RegularPattern

/-- Answers one call of the program. -/
def main (arguments : List String) : IO UInt32 := do
  let invocation := RegularPattern.Command.Invocation.ofArguments arguments
  let input ←
    if invocation.readsInput then RegularPattern.readAll (← IO.getStdin) .empty
    else pure .empty
  let response := invocation.respond input.toList
  IO.print response.stdout
  IO.eprint response.stderr
  return response.code.toUInt32
