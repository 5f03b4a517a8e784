import SenderPolicy.Address.Text
import SenderPolicy.Fault
import SenderPolicy.Pieces

/-!
# Requests

What is asked of a verification: whether a client may send for a domain. A
request is made from the texts of a mail session; a sender without a local part,
or none at all, is completed with `postmaster`.

Main definitions:

- `Request.forHelo`: the request on the name in the greeting;
- `Request.forSender`: the request on the sender;
- `Request.forDomain`, `Request.parse`: the request on a given domain, with the
  client as an address or as text.
-/

namespace SenderPolicy

/-- The identity to be verified. -/
structure Request where
  /-- The address of the client, never IPv4-mapped. -/
  client : Address
  domain : String
  helo : String
  sender : String
  deriving DecidableEq, Repr

namespace Request

/-- The mailbox that is responsible for a domain. -/
def postmasterAt (domain : String) : String := "postmaster@" ++ domain

/-- The request on the name in the greeting. -/
def forHelo (client : Address) (helo : String) : Request :=
  ⟨client.canonical, helo, helo, postmasterAt helo⟩

/-- Remove a pair of angle brackets around characters. -/
def dropBrackets (cs : List Char) : List Char :=
  match cs with
  | [] => []
  | first :: rest => if first = '<' && rest.getLast? = some '>' then rest.dropLast else cs

/-- The mailbox inside the text of a sender. -/
def mailbox (sender : String) : List Char := dropBrackets (Text.trim sender).toList

/-- The request on the sender. A null sender stands for the name in the
greeting. -/
def forSender (client : Address) (helo sender : String) : Request :=
  match mailbox sender with
  | [] => forHelo client helo
  | box =>
    match splitLast? (· = '@') box with
    | none =>
      ⟨client.canonical, String.ofList box, helo, postmasterAt (String.ofList box)⟩
    | some ([], domain) =>
      ⟨client.canonical, String.ofList domain, helo, postmasterAt (String.ofList domain)⟩
    | some (_, domain) =>
      ⟨client.canonical, String.ofList domain, helo, String.ofList box⟩

/-- Whether the text of a sender names no mailbox. -/
def isNullSender (sender : String) : Bool :=
  let trimmed := (Text.trim sender).toList
  trimmed.isEmpty || trimmed == ['<', '>']

/-- The fault of a request with neither a greeting nor a sender. -/
def missingIdentity : Fault :=
  .invalidRequest "either a HELO domain or an envelope sender is required"

/-- The fault of a request whose client is not an address. -/
def malformedClient : Fault := .invalidRequest "malformed client IP address"

/-- The request on a given domain. An empty domain is the one that the sender or
the greeting names; one of these two must be there. -/
def forDomain (client : Address) (domain helo sender : String) : Except Fault Request :=
  let domain := Text.trim domain
  let helo := Text.trim helo
  if helo.isEmpty && isNullSender sender then .error missingIdentity
  else
    let request := forSender client helo sender
    .ok (if domain.isEmpty then request else { request with domain := domain })

/-- The request on a given domain, with the client as text. -/
def parse (client domain helo sender : String) : Except Fault Request :=
  match Address.parse? (Text.trim client) with
  | none => .error malformedClient
  | some address => forDomain address domain helo sender

end Request

end SenderPolicy
