import SenderPolicy.Dns.Message
import SenderPolicy.Settings

/-!
# Zones

A zone held in memory: the records of names and addresses, those that fail or
are slow, and answers that are given for single questions whatever the records
are.

Main definitions:

- `Dns.Zone`, `Dns.Zone.reply`: a zone and its replies;
- `Dns.Zone.Edit`, `Dns.Zone.apply`: the changes that can be made to a zone;
- `Dns.Zone.transport`: a zone as a transport.
-/

namespace SenderPolicy.Dns

/-- What records are about. -/
inductive Subject where
  | name (n : String)
  | address (a : Address)
  deriving DecidableEq, Repr

/-- What an owner of a kind is. -/
def Kind.subject : (k : Kind) → k.Owner → Subject
  | .txt, name => .name name
  | .spf, name => .name name
  | .mx, name => .name name
  | .a, name => .name name
  | .aaaa, name => .name name
  | .ptr, address => .address address

/-- What a question is about. -/
def Question.subject (q : Question) : Subject := q.kind.subject q.owner

/-- An answer given for a single question. -/
structure Override (k : Kind) where
  outcome : Except Fault (List k.Datum)
  delay : Nat

/-- A zone held in memory. -/
structure Zone where
  /-- The records of each question. -/
  records : (q : Question) → List q.kind.Datum
  faults : Subject → Option Fault
  delays : Subject → Nat
  /-- How long answers about a name or an address hold, in seconds. -/
  lifetimes : Subject → Int
  /-- The answers given for single questions. -/
  overrides : (q : Question) → Option (Override q.kind)

namespace Zone

/-- How long answers hold if nothing else is said. -/
def defaultLifetime : Int := 300

/-- The zone without records. -/
def empty : Zone where
  records := fun _ => []
  faults := fun _ => none
  delays := fun _ => 0
  lifetimes := fun _ => defaultLifetime
  overrides := fun _ => none

/-- The outcome of a question that is not overridden: a fault of its subject
comes before the records. -/
def outcome (z : Zone) (q : Question) : Except Fault (List q.kind.Datum) :=
  match z.faults q.subject with
  | some f => .error f
  | none => if (z.records q).isEmpty then .error (.notFound .nameError) else .ok (z.records q)

/-- The reply to a question at an instant. It comes after the longest wait at the
latest. -/
def reply (z : Zone) (now : Instant) (q : Question) : Reply q.kind.Datum :=
  let answer := fun records => Answer.mk records (now + z.lifetimes q.subject)
  match z.overrides q with
  | some o => ⟨o.outcome.map answer, min o.delay longestWait⟩
  | none => ⟨(z.outcome q).map answer, min (z.delays q.subject) longestWait⟩

/-- The zone as a transport. It does not look at the questions asked before. -/
def transport (z : Zone) (now : Instant) : Transport := fun _ q => z.reply now q

/-- Whether an answer is given for a single question. -/
def isOverridden (z : Zone) (q : Question) : Bool := (z.overrides q).isSome

/-! ## Changes -/

/-- The zone with the records of one question changed. -/
def modifyRecords (z : Zone) (q : Question) (f : List q.kind.Datum → List q.kind.Datum) : Zone :=
  { z with records := fun q' => if h : q = q' then h ▸ f (z.records q) else z.records q' }

/-- The zone with one more record at the end of those of a question. -/
def addRecord (z : Zone) (q : Question) (d : q.kind.Datum) : Zone :=
  z.modifyRecords q (· ++ [d])

/-- A change to a zone. Names may be written in any case and without a dot at
their end. -/
inductive Edit where
  /-- One more text of a name, joined from strings. -/
  | text (name : String) (strings : List Octets)
  /-- One more record of type 99 of a name. -/
  | type99 (name : String) (text : Octets)
  | address (name : String) (a : Address)
  | exchange (name : String) (x : MailExchange)
  | pointer (a : Address) (name : String)
  | fault (s : Subject) (f : Fault)
  | delay (name : String) (time : Nat)
  | lifetime (name : String) (time : Int)
  | override (q : Question) (o : Override q.kind)

/-- A subject with its name fully qualified. -/
def qualifySubject : Subject → Subject
  | .name n => .name (DomainName.qualify n)
  | .address a => .address a

/-- Add a mail exchanger and sort those of the name again. -/
def addExchange (z : Zone) (name : String) (x : MailExchange) : Zone :=
  z.modifyRecords ⟨.mx, name⟩ fun l => sortByPreference (l ++ [x.normalize])

/-- The zone after a change. -/
def apply (z : Zone) : Edit → Zone
  | .text name strings => z.addRecord ⟨.txt, DomainName.qualify name⟩ strings.flatten
  | .type99 name text => z.addRecord ⟨.spf, DomainName.qualify name⟩ text
  | .address name (.v4 a) => z.addRecord ⟨.a, DomainName.qualify name⟩ a
  | .address name (.v6 a) => z.addRecord ⟨.aaaa, DomainName.qualify name⟩ a
  | .exchange name x => z.addExchange (DomainName.qualify name) x
  | .pointer a name => z.addRecord ⟨.ptr, a⟩ (DomainName.normalize name)
  | .fault s f =>
    { z with faults := fun s' => if s' = qualifySubject s then some f else z.faults s' }
  | .delay name time =>
    { z with delays := fun s => if s = .name (DomainName.qualify name) then time else z.delays s }
  | .lifetime name time =>
    { z with lifetimes := fun s =>
        if s = .name (DomainName.qualify name) then time else z.lifetimes s }
  | .override q o =>
    let q' : Question := ⟨q.kind, q.kind.qualify q.owner⟩
    { z with overrides := fun p => if h : q' = p then h ▸ some o else z.overrides p }

/-- The zone after changes, made in order. -/
def applyAll (z : Zone) (edits : List Edit) : Zone := edits.foldl apply z

end Zone

end SenderPolicy.Dns
