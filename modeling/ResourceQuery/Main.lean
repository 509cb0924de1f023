import ResourceQuery.CommandLine

/-!
# The program

Runs the command line on the arguments and, where it asks for it, on the standard input.
-/

open ResourceQuery

/-- Reads the input, runs, and prints. -/
def main (args : List String) : IO UInt32 := do
  let input ← if CommandLine.readsInput args then (← IO.getStdin).readToEnd else pure ""
  let result := CommandLine.run args input
  IO.print result.output
  IO.eprint result.errors
  return result.code.toUInt32
