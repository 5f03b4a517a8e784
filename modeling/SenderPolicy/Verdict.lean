import SenderPolicy.Policy
import SenderPolicy.Text.CharClass
import SenderPolicy.Text.LowerCase

/-!
# Verdicts

The results that a verification can have, and their names.
-/

namespace SenderPolicy

/-- The result of a verification. -/
inductive Verdict where
  | pass
  | fail
  | softFail
  | neutral
  | tempError
  | permError
  | none
  | invalid
  deriving DecidableEq, Repr

namespace Verdict

/-- Every verdict. -/
def all : List Verdict :=
  [.pass, .fail, .softFail, .neutral, .tempError, .permError, .none, .invalid]

/-- The name of a verdict. -/
def name : Verdict → String
  | .pass => "pass"
  | .fail => "fail"
  | .softFail => "softfail"
  | .neutral => "neutral"
  | .tempError => "temperror"
  | .permError => "permerror"
  | .none => "none"
  | .invalid => "invalid"

/-- The verdict with the given name. -/
def ofName? (s : String) : Option Verdict := all.find? (·.name == s)

/-- The verdict with the given name in letters of any case, between blanks. -/
def parse? (s : String) : Option Verdict := ofName? (Text.lowerCaseAscii (Text.trim s))

end Verdict

/-- The verdict that a qualifier gives. -/
def Qualifier.verdict : Qualifier → Verdict
  | .pass => .pass
  | .fail => .fail
  | .softFail => .softFail
  | .neutral => .neutral

/-- A verdict is found under its own name. -/
theorem Verdict.ofName?_name (v : Verdict) : Verdict.ofName? v.name = some v := by
  cases v <;> decide

end SenderPolicy
