import Formula.CommandLine.Commands
import Std.Time.DateTime.Timestamp

/-!
# The program

Reads the command line, the input where it is wanted, the clock and chance, and prints what
the run leaves behind.
-/

namespace Formula.CommandLine

def drawChance : IO Float := do
  let n ← IO.rand 0 (Nat.pow 2 53 - 1)
  return n.toFloat / (Nat.pow 2 53).toFloat

def readClock : IO Time.Moment := do
  let now ← Std.Time.Timestamp.now
  match Time.Moment.ofNanos? now.toNanosecondsSinceUnixEpoch.val with
  | some m => return m
  | none => throw (IO.userError "the clock is out of range")

/-- Variables are read from the input unless it is a terminal. -/
def readInput (arguments : List String) : IO String := do
  let input ← IO.getStdin
  if readsInput arguments then
    if ← input.isTty then return "" else input.readToEnd
  else return ""

end Formula.CommandLine

open Formula.CommandLine in
def main (arguments : List String) : IO UInt32 := do
  let around : Formula.Surroundings := { now := ← readClock, chance := ← drawChance }
  let outcome := run around arguments (← readInput arguments)
  IO.print outcome.out
  IO.eprint outcome.err
  return UInt32.ofNat outcome.code
