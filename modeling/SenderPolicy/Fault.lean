import SenderPolicy.Verdict

/-!
# Faults

What can go wrong in reading a policy, looking names up and evaluating, and
what verdict each fault leads to.

Main definitions:

- `ResponseCode`: the codes of negative answers;
- `Fault`, `Fault.message`, `Fault.verdict`: the causes, their texts and their
  verdicts.
-/

namespace SenderPolicy

/-- The code of an answer to a question. -/
structure ResponseCode where
  value : Nat
  deriving DecidableEq, Repr

namespace ResponseCode

/-- The question was answered. -/
def noError : ResponseCode := ⟨0⟩

/-- The name does not exist. -/
def nameError : ResponseCode := ⟨3⟩

/-- The meaning of a code. -/
def text (code : ResponseCode) : String :=
  match code.value with
  | 0 => "No Error"
  | 1 => "Form Error"
  | 2 => "Server Failure"
  | 3 => "Non-Existent Domain"
  | 4 => "Not Implemented"
  | 5 => "Query Refused"
  | 6 => "Name should not exist"
  | 7 => "RR Set should not exist"
  | 8 => "RR Set does not exist"
  | 9 => "Not authorized"
  | 10 => "Name not in zone"
  | 16 => "TSIG Failure"
  | 17 => "Key not recognized"
  | 18 => "Signature out of time window"
  | 19 => "Bad TKEY mode"
  | 20 => "Duplicate key name"
  | 21 => "Algorithm not supported"
  | 22 => "Bad truncation"
  | 23 => "Bad server cookie"
  | _ => "Unknown response code"

end ResponseCode

/-- Why something could not be done. -/
inductive Fault where
  | malformed
  | notPolicy
  | severalPolicies
  | invalidRequest (reason : String)
  /-- A question failed for a reason without a class of its own. -/
  | dns (reason : String)
  | notFound (code : ResponseCode)
  | serverFailure (code : ResponseCode)
  | timedOut
  | tooManyLookups
  | tooManyVoidLookups
  | tooDeep
  | cancelled
  deriving DecidableEq, Repr

namespace Fault

/-- The text of a fault. -/
def message : Fault → String
  | .malformed => "Failed to parse SPF record."
  | .notPolicy => "Invalid record."
  | .severalPolicies => "More than one SPF record published."
  | .invalidRequest reason => "Invalid parameters: " ++ reason ++ "."
  | .dns reason => "DNS resolution error: " ++ reason
  | .notFound code => "DNS record not found: " ++ code.text ++ "."
  | .serverFailure code => "DNS server failure: " ++ code.text ++ "."
  | .timedOut => "DNS query timed out."
  | .tooManyLookups => "Too many DNS lookups."
  | .tooManyVoidLookups => "Too many void DNS lookups."
  | .tooDeep => "Too many nested includes."
  | .cancelled => "SPF verification cancelled."

/-- The verdict on a request whose verification ends in a fault. -/
def verdict : Fault → Verdict
  | .notFound _ | .notPolicy => .none
  | .malformed | .severalPolicies | .tooManyLookups | .tooManyVoidLookups | .tooDeep => .permError
  | .invalidRequest _ => .invalid
  | .dns _ | .serverFailure _ | .timedOut | .cancelled => .tempError

/-- Whether a fault says that there is no answer. -/
def isNotFound : Fault → Bool
  | .notFound _ => true
  | _ => false

end Fault

end SenderPolicy
