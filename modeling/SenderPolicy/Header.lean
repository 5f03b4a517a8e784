import SenderPolicy.Evaluation
import SenderPolicy.Request

/-!
# Header fields

How an outcome is reported in the header of a message: in a field of its own, or
as one of the results of an authentication.

Main definitions:

- `Verdict.meaning`, `Verdict.comment`: a verdict with its meaning in words;
- `ReceivedSpf`: the field of a single outcome;
- `AuthenticationResults`: the field that lists results, one after another.
-/

namespace SenderPolicy

/-- What a verdict means for a mailbox and a client. -/
def Verdict.meaning (mailbox : String) (client : Address) : Verdict → String
  | .pass => "domain of " ++ mailbox ++ " designates " ++ client.text ++ " as permitted sender"
  | .fail =>
    "domain of " ++ mailbox ++ " does not designate " ++ client.text ++ " as permitted sender"
  | .softFail => "domain of " ++ mailbox ++ " reports soft fail for " ++ client.text
  | .neutral => "domain of " ++ mailbox ++ " reports neutral for " ++ client.text
  | .tempError => "temporary dns error validating " ++ mailbox
  | .permError => "unable to verify SPF record for " ++ mailbox
  | .none => "no SPF records found for " ++ mailbox
  | .invalid => "malformed SPF request for " ++ mailbox

/-- The name of a verdict, with a comment in which a host says what it means. -/
def Verdict.comment (host mailbox : String) (client : Address) (v : Verdict) : String :=
  v.name ++ " (" ++ host ++ ": " ++ v.meaning mailbox client ++ ")"

/-- The mailbox of a sender; the null sender stands for the postmaster of the
greeting. -/
def senderOrPostmaster (helo sender : String) : String :=
  if sender.isEmpty then Request.postmasterAt helo else sender

/-- The body of the field of a single outcome. -/
structure ReceivedSpf where
  body : String
  deriving DecidableEq, Repr

namespace ReceivedSpf

/-- The field that a host writes for a verdict. -/
def ofVerdict (v : Verdict) (client : Address) (helo sender host : String) : ReceivedSpf :=
  let mailbox := senderOrPostmaster helo sender
  ⟨v.comment host mailbox client ++ "\r\n\treceiver=" ++ host ++ "; client-ip=" ++ client.text
    ++ "; envelope-from=\"" ++ mailbox ++ "\"; helo=" ++ helo ++ ";"⟩

/-- The whole field. -/
def field (r : ReceivedSpf) : String := "Received-SPF: " ++ r.body ++ "\r\n"

end ReceivedSpf

/-- The field that lists the results of a host. -/
structure AuthenticationResults where
  host : String
  results : String
  deriving DecidableEq, Repr

namespace AuthenticationResults

/-- The field of a host without results. -/
def ofHost (host : String) : AuthenticationResults := ⟨host, ""⟩

/-- The field with one more result, for a mailbox and with a property at its end. -/
def add (r : AuthenticationResults) (v : Verdict) (client : Address) (mailbox property : String) :
    AuthenticationResults :=
  { r with results :=
      r.results ++ ";\r\n\tspf=" ++ v.comment r.host mailbox client ++ " " ++ property }

/-- The field with the result for the name in the greeting. -/
def addHelo (r : AuthenticationResults) (v : Verdict) (client : Address) (helo : String) :
    AuthenticationResults :=
  r.add v client (Request.postmasterAt helo) ("smtp.helo=" ++ helo)

/-- The field with the result for the sender. -/
def addSender (r : AuthenticationResults) (v : Verdict) (client : Address) (helo sender : String) :
    AuthenticationResults :=
  r.add v client (senderOrPostmaster helo sender)
    ("smtp.mailfrom=" ++ if sender.isEmpty then "<>" else sender)

/-- The host and the results. -/
def body (r : AuthenticationResults) : String := r.host ++ r.results

/-- The whole field; without results it says so. -/
def field (r : AuthenticationResults) : String :=
  "Authentication-Results: " ++ r.host ++ (if r.results.isEmpty then "; none" else r.results)
    ++ "\r\n"

end AuthenticationResults

end SenderPolicy
