import SenderPolicy.Dns.Zone
import SenderPolicy.Verification

/-!
# Sessions

A session performs commands one after another on one resolver: lookups and
verifications, and changes to the zone, the settings and the caches. The caches
stay from one command to the next.

Main definitions:

- `Command`, `Response`: what can be asked of a session and what it answers;
- `Session`: a zone, settings and caches;
- `Session.perform`: one command, with the questions that it asks.
-/

namespace SenderPolicy

open Dns

/-- What can be asked of a session. -/
inductive Command where
  | helo (client : Address) (helo : String)
  | sender (client : Address) (helo sender : String)
  | session (client : Address) (helo sender : String)
  | verify (client : Address) (domain helo sender : String)
  | verifyText (domain client sender helo : String)
  | verifyCancellable (client : Address) (domain helo sender : String) (cancelAt : Option Nat)
  | policy (domain : String)
  | records (q : Question)
  | hasAddress (name : String)
  | edit (edits : List Zone.Edit)
  | configure (settings : Settings)
  | setCaches (caches : Caches)

/-- What a session answers. -/
inductive Response where
  | outcome (o : Outcome)
  | policy (p : Policy)
  | records (k : Kind) (records : List k.Datum)
  | hasAddress (answer : Bool)
  | settings (s : Settings)
  | done

/-- A zone, settings and caches. -/
structure Session where
  zone : Zone
  settings : Settings
  caches : Caches

/-- What a command has led to. -/
structure Report where
  result : Except Fault Response
  /-- The questions asked, in order. -/
  questions : List Question
  /-- How many of them were answered from the records of the zone. -/
  zoneAnswers : Nat

namespace Session

/-- The instant at which everything happens: the time waited for replies does not
count against the lifetimes of answers. -/
def now : Instant := 0

/-- What the lookups of a session depend on. -/
def environment (s : Session) : Environment where
  transport := s.zone.transport now
  settings := s.settings
  clock := fun _ => now
  timestamp := 0
  alarm := .silent

/-- The result of a process on traffic, with its reasons to stop as faults. An
interruption outside of a verification does not happen; it would be a question
that was not answered in time. -/
def settle {ε α : Type} (toFault : ε → Fault) (respond : α → Response) (x : Process Traffic ε α)
    (t : Traffic) : Except Fault Response × Traffic :=
  match x.run t with
  | (.ok a, t') => (.ok (respond a), t')
  | (.error e, t') => (.error (toFault e), t')

/-- The fault of a lookup that stops. -/
def faultOfStop : Stop → Fault
  | .fault f => f
  | .interrupted _ => .timedOut

/-- The result of a verification. -/
def settleVerification (x : Verification Outcome) : Traffic → Except Fault Response × Traffic :=
  settle (fun e : Empty => nomatch e) .outcome x

/-- The result of a lookup. -/
def settleLookup {α : Type} (respond : α → Response) (x : Lookup α) :
    Traffic → Except Fault Response × Traffic :=
  settle faultOfStop respond x

/-- The result of a command that asks questions. -/
def answer (env : Environment) : Command → Traffic → Except Fault Response × Traffic
  | .helo client helo => settleVerification (verifyHelo env client helo)
  | .sender client helo sender => settleVerification (verifySender env client helo sender)
  | .session client helo sender => settleVerification (verifySession env client helo sender)
  | .verify client domain helo sender =>
    match Request.forDomain client domain helo sender with
    | .ok request => settleVerification (SenderPolicy.verify env request)
    | .error f => fun t => (.error f, t)
  | .verifyText domain client sender helo =>
    settleVerification (SenderPolicy.verifyText env domain client sender helo)
  | .verifyCancellable client domain helo sender cancelAt =>
    match Request.forDomain client domain helo sender with
    | .ok request =>
      let cancelAt := cancelAt.map (min · longestWait)
      settle id .outcome (SenderPolicy.verifyCancellable env request cancelAt)
    | .error f => fun t => (.error f, t)
  | .policy domain => settleLookup .policy (lookupPolicy env domain)
  | .records q => settleLookup (.records q.kind) (lookup env q.kind q.owner)
  | .hasAddress name => settleLookup .hasAddress (SenderPolicy.hasAddress env name)
  | .edit _ => fun t => (.ok .done, t)
  | .configure settings => fun t => (.ok (.settings settings), t)
  | .setCaches _ => fun t => (.ok .done, t)

/-- The session after a command that is not a question. -/
def change (s : Session) : Command → Session
  | .edit edits => { s with zone := s.zone.applyAll edits }
  | .configure settings => { s with settings := settings }
  | .setCaches caches => { s with caches := caches }
  | _ => s

/-- Perform a command. -/
def perform (s : Session) (c : Command) : Report × Session :=
  let (result, traffic) := answer s.environment c (.start s.caches)
  let asked := traffic.questions
  (⟨result, asked, asked.countP (!s.zone.isOverridden ·)⟩,
    ({ s with caches := traffic.caches }).change c)

/-- Perform commands one after another. -/
def performAll (s : Session) : List Command → List Report
  | [] => []
  | c :: rest =>
    let (report, s) := s.perform c
    report :: s.performAll rest

end Session

end SenderPolicy
