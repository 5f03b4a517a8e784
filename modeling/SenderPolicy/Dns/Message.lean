import SenderPolicy.Dns.Question
import SenderPolicy.Octets

/-!
# Messages of name servers

How the records in a message of a name server become an answer, and how the ways
in which no message comes become faults. The data of a text record are strings of
at most 255 octets, each after an octet with its length.

Main definitions:

- `Dns.CharacterString.encode`: strings with their lengths;
- `Dns.CharacterString.decode?`: the strings in the data of a record, unless a
  length exceeds what is left;
- `Dns.Failure`, `Dns.Failure.fault`: the ways in which a question fails;
- `Dns.Message`: a response code and records as published;
- `Dns.Message.records`: the answer that a message holds;
- `Dns.Question.reserved?`: the questions that are not put to any server;
- `Dns.Route.deliver`: whether messages arrive at all.
-/

namespace SenderPolicy.Dns

/-! ## Character-strings -/

namespace CharacterString

/-- Strings one after another, each after its length. -/
def encode (strings : List Octets) : Octets :=
  strings.flatMap fun s => UInt8.ofNat s.length :: s

/-- The strings in the data of a record. -/
def decode? : Octets → Option (List Octets)
  | [] => some []
  | size :: rest =>
    if rest.length < size.toNat then none
    else (decode? (rest.drop size.toNat)).map (rest.take size.toNat :: ·)
termination_by data => data.length
decreasing_by simp only [List.length_drop, List.length_cons]; omega

end CharacterString

/-! ## Messages -/

/-- The ways in which a question fails. -/
inductive Failure where
  | noRecords (code : ResponseCode)
  | timeout
  | noConnections
  | networkUnreachable
  | other (text : String)
  deriving DecidableEq, Repr

/-- The fault that a failure is. Only a name without records and a name that does
not exist count as having no answer. -/
def Failure.fault : Failure → Fault
  | .noRecords code =>
    if code = .noError || code = .nameError then .notFound code else .serverFailure code
  | .timeout => .timedOut
  | .noConnections => .dns "No connections available"
  | .networkUnreachable => .dns "proto error: io error: Network is unreachable (os error 101)"
  | .other text => .dns text

/-- The records of a kind as they are published. -/
abbrev Kind.Published : Kind → Type
  | .txt => List Octets
  | .spf => Octets
  | .mx => MailExchange
  | .a => IPv4
  | .aaaa => IPv6
  | .ptr => String

/-- A message of a name server on a question of a kind. -/
structure Message (k : Kind) where
  code : ResponseCode
  published : List k.Published

/-- A mail exchanger with its name in the form of answers. -/
def MailExchange.normalize (x : MailExchange) : MailExchange :=
  { x with exchange := DomainName.normalize x.exchange }

/-- What an answer holds of published records: texts are joined, data of type 99
that cannot be decoded and empty names are left out, names are normalised, and
mail exchangers are sorted. -/
def Kind.receive : (k : Kind) → List k.Published → List k.Datum
  | .txt, published => published.map List.flatten
  | .spf, published => published.filterMap fun data =>
      (CharacterString.decode? data).map List.flatten
  | .mx, published => sortByPreference (published.map MailExchange.normalize)
  | .a, published => published
  | .aaaa, published => published
  | .ptr, published => (published.map DomainName.normalize).filter (!·.isEmpty)

/-- The records that a message answers with. -/
def Message.records {k : Kind} (m : Message k) : Except Failure (List k.Datum) :=
  if m.code = .noError && !m.published.isEmpty then .ok (k.receive m.published)
  else .error (.noRecords m.code)

/-- The records of a question that is not put to any server: a loopback address
belongs to `localhost`. -/
def Question.reserved? : (q : Question) → Option (List q.kind.Datum)
  | ⟨.ptr, address⟩ => if address.isLoopback then some ["localhost"] else none
  | _ => none

/-- The way to a name server. -/
inductive Route where
  | connected
  | unreachable
  deriving DecidableEq, Repr

/-- The records that a question gets, where a server would send a message. -/
def Route.deliver (route : Route) (q : Question) (m : Message q.kind) :
    Except Fault (List q.kind.Datum) :=
  match q.reserved?, route with
  | some records, _ => .ok records
  | none, .connected => m.records.mapError Failure.fault
  | none, .unreachable => .error Failure.networkUnreachable.fault

end SenderPolicy.Dns
