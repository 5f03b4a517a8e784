import SenderPolicy.Dns.Question
import SenderPolicy.Process
import SenderPolicy.Settings

/-!
# Looking names up

A question goes to the transport only if no cached answer holds. Each question
has a time in which to be answered, and an alarm may interrupt the waiting. An
empty answer counts as none, and only answers with records are cached.

Main definitions:

- `Environment`: what a lookup depends on;
- `Traffic`: what lookups change: the questions asked, the time waited, the
  caches;
- `Lookup`, `Lookup.attempt`: processes on traffic, and the handling of faults;
- `ask`: one question to the transport;
- `lookup`, `hasAddress`: a question answered from the caches or by asking.
-/

namespace SenderPolicy

open Dns

/-! ## Interruptions -/

/-- Why waiting is interrupted. -/
inductive Interruption where
  | expired
  | cancelled
  deriving DecidableEq, Repr

/-- When waiting is interrupted, counted in milliseconds from the start of a
verification. -/
structure Alarm where
  deadline : Option Nat := none
  cancelAt : Option Nat := none
  deriving DecidableEq, Repr

namespace Alarm

/-- No interruption. -/
def silent : Alarm := {}

/-- Whether the verification is called off by a moment, and not after its
deadline. -/
def isCalledOff (a : Alarm) (moment : Nat) : Bool :=
  a.cancelAt.any fun c => c ≤ moment && a.deadline.all (c ≤ ·)

/-- Whether the deadline is over at a moment. -/
def isOver (a : Alarm) (moment : Nat) : Bool := a.deadline.any (· < moment)

/-- The interruption that has happened by a moment, if any. -/
def ringing (a : Alarm) (moment : Nat) : Option Interruption :=
  if a.isCalledOff moment then some .cancelled
  else if a.isOver moment then some .expired
  else none

end Alarm

/-! ## Environment and traffic -/

/-- What lookups depend on. -/
structure Environment where
  transport : Transport
  settings : Settings
  /-- The instant of each reading of the clock, the first being number zero. -/
  clock : Nat → Instant
  /-- The time of the check, in seconds. -/
  timestamp : Nat
  alarm : Alarm

/-- A store for the answers of each kind that is cached. -/
structure Caches where
  txt : Store String (List Octets)
  mx : Store String (List MailExchange)
  a : Store String (List IPv4)
  aaaa : Store String (List IPv6)
  ptr : Store Address (List String)

namespace Caches

/-- Stores that keep nothing. -/
def disabled : Caches := ⟨.disabled, .disabled, .disabled, .disabled, .disabled⟩

/-- Empty caches of one capacity. -/
def ofCapacity (capacity : Nat) : Caches :=
  ⟨.cached (.empty capacity), .cached (.empty capacity), .cached (.empty capacity),
    .cached (.empty capacity), .cached (.empty capacity)⟩

/-- The store for a kind; answers of type 99 have none. -/
def store (c : Caches) : (k : Kind) → Store k.Owner (List k.Datum)
  | .txt => c.txt
  | .spf => .disabled
  | .mx => c.mx
  | .a => c.a
  | .aaaa => c.aaaa
  | .ptr => c.ptr

/-- The caches with another store for a kind. -/
def setStore (c : Caches) : (k : Kind) → Store k.Owner (List k.Datum) → Caches
  | .txt, s => { c with txt := s }
  | .spf, _ => c
  | .mx, s => { c with mx := s }
  | .a, s => { c with a := s }
  | .aaaa, s => { c with aaaa := s }
  | .ptr, s => { c with ptr := s }

end Caches

/-- What lookups change. -/
structure Traffic where
  /-- The questions asked, the latest first. -/
  log : List Question
  /-- The time waited, in milliseconds. -/
  waited : Nat
  /-- How often the clock has been read. -/
  readings : Nat
  caches : Caches

/-- The traffic at the start, with given caches. -/
def Traffic.start (caches : Caches) : Traffic := ⟨[], 0, 0, caches⟩

/-- The questions asked, in order. -/
def Traffic.questions (t : Traffic) : List Question := t.log.reverse

/-! ## Lookups -/

/-- Why a lookup stops. -/
inductive Stop where
  | fault (f : Fault)
  | interrupted (i : Interruption)
  deriving DecidableEq, Repr

/-- A process on traffic. -/
abbrev Lookup (α : Type) := Process Traffic Stop α

namespace Lookup

/-- Stop with a fault. -/
def fail {α : Type} (f : Fault) : Lookup α := Process.stop (.fault f)

/-- The value or the fault of a lookup. An interruption is not held up. -/
def attempt {α : Type} (x : Lookup α) : Lookup (Except Fault α) := fun t =>
  match x.run t with
  | (.ok a, t') => (.ok (.ok a), t')
  | (.error (.fault f), t') => (.ok (.error f), t')
  | (.error (.interrupted i), t') => (.error (.interrupted i), t')

/-- The value that has been computed, or its fault. -/
def ofExcept {α : Type} : Except Fault α → Lookup α
  | .ok a => pure a
  | .error f => fail f

end Lookup

/-- Wait for a time, unless interrupted. -/
def pause (alarm : Alarm) (time : Nat) : Lookup Unit := fun t =>
  match alarm.ringing (t.waited + time) with
  | some i => (.error (.interrupted i), { t with waited := t.waited + time })
  | none => (.ok (), { t with waited := t.waited + time })

/-- Ask the transport. A reply that takes longer than a question may is not
waited for, and an answer without records counts as none. -/
def ask (env : Environment) (q : Question) : Lookup (Answer q.kind.Datum) := do
  let reply := env.transport (← Process.state).log q
  Process.update fun t => { t with log := q :: t.log }
  pause env.alarm (min reply.delay env.settings.queryTimeout)
  if env.settings.queryTimeout < reply.delay then Lookup.fail .timedOut
  else
    let answer ← Lookup.ofExcept reply.outcome
    if answer.records.isEmpty then Lookup.fail (.notFound .noError) else pure answer

/-- The cached answer, if it holds. -/
def fromCache (env : Environment) (k : Kind) (owner : k.Owner) : Lookup (Option (List k.Datum)) :=
  fun t =>
    let found := (t.caches.store k).get (env.clock t.readings) owner
    (.ok found.1, { t with
      readings := t.readings + 1
      caches := t.caches.setStore k found.2 })

/-- Keep an answer. -/
def keep (k : Kind) (owner : k.Owner) (answer : Answer k.Datum) : Lookup Unit :=
  Process.update fun t =>
    { t with caches :=
        t.caches.setStore k ((t.caches.store k).insert owner answer.records answer.validUntil) }

/-- The records for a name or an address, which are never none. -/
def lookup (env : Environment) (k : Kind) (owner : k.Owner) : Lookup (List k.Datum) := do
  let owner := k.qualify owner
  match ← fromCache env k owner with
  | some records => pure records
  | none =>
    let answer ← ask env ⟨k, owner⟩
    keep k owner answer
    pure answer.records

/-- Whether a name has an IPv4 address. -/
def hasAddress (env : Environment) (name : String) : Lookup Bool := do
  match ← (lookup env .a name).attempt with
  | .ok _ => pure true
  | .error f => if f.isNotFound then pure false else Lookup.fail f

end SenderPolicy
