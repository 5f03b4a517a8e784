/-!
# Settings

The limits of an evaluation and the name of the host that performs it, and the
longest time that anything is waited for.
-/

namespace SenderPolicy

/-- The limits of an evaluation and the name of the host that performs it. Times
are in milliseconds. -/
structure Settings where
  maxLookups : UInt32 := 10
  maxVoidLookups : UInt32 := 2
  /-- The most policies that may be waiting for an included one. -/
  maxIncludeDepth : UInt32 := 10
  queryTimeout : Nat := 5000
  evaluationTimeout : Nat := 20000
  /-- Whether records of type 99 are asked for too. -/
  asksType99 : Bool := false
  receiver : String := "unknown"
  deriving DecidableEq, Repr

/-- The settings that hold when none is given. -/
def Settings.standard : Settings := {}

/-- The longest time that anything is waited for: thirty years of 365 days, in
milliseconds. What is due later comes then. -/
def longestWait : Nat := 30 * 365 * 86400000

end SenderPolicy
