import Bracketing.CommandLine.Run

open Bracketing.CommandLine

def main (arguments : List String) : IO UInt32 := do
  let outcome := runIn (.lines "") arguments
  (← IO.getStdout).putStr outcome.stdout
  (← IO.getStderr).putStr outcome.errors
  return outcome.exit.toUInt32
