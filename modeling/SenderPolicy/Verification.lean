import SenderPolicy.Evaluation

/-!
# Verifications

The questions that a mail server asks of a policy. Each verification has a time
in which to end; one that does not end in it has a temporary error.

Main definitions:

- `verify`: the verification of a request;
- `verifyHelo`, `verifySender`: the two identities of a mail session;
- `verifySession`: the greeting first, and then the sender;
- `verifyText`: a request in texts, malformed or not;
- `verifyCancellable`: a verification that may be called off.
-/

namespace SenderPolicy

/-- A process on traffic that does not stop. -/
abbrev Verification (α : Type) := Process Traffic Empty α

/-- The check of a host with an alarm, counted from its start. -/
def checkWithin (env : Environment) (cancelAt : Option Nat) (request : Request) :
    Process Traffic Interruption Outcome := do
  let alarm : Alarm := ⟨some env.settings.evaluationTimeout, cancelAt⟩
  Process.update fun t => { t with waited := 0 }
  match alarm.ringing 0 with
  | some i => Process.stop i
  | none => checkHost { env with alarm := alarm } request

/-- The verification of a request. -/
def verify (env : Environment) (request : Request) : Verification Outcome := fun t =>
  match (checkWithin env none request).run t with
  | (.ok outcome, t') => (.ok outcome, t')
  | (.error _, t') => (.ok (.plain .tempError request.domain), t')

/-- The verification of a request that is called off after a time, if one is
given. -/
def verifyCancellable (env : Environment) (request : Request) (cancelAt : Option Nat) :
    Process Traffic Fault Outcome := fun t =>
  match (checkWithin env cancelAt request).run t with
  | (.ok outcome, t') => (.ok outcome, t')
  | (.error .expired, t') => (.ok (.plain .tempError request.domain), t')
  | (.error .cancelled, t') => (.error .cancelled, t')

/-- The verification of the name in the greeting. -/
def verifyHelo (env : Environment) (client : Address) (helo : String) : Verification Outcome :=
  verify env (.forHelo client helo)

/-- The verification of the sender. -/
def verifySender (env : Environment) (client : Address) (helo sender : String) :
    Verification Outcome :=
  verify env (.forSender client helo sender)

/-- The verification of the greeting, if it is a name, and of the sender. A
failure of the greeting decides, and so does the greeting when the domain of the
sender is the same. -/
def verifySession (env : Environment) (client : Address) (helo sender : String) :
    Verification Outcome := do
  let request := Request.forSender client helo sender
  if DomainName.isValid helo then do
    let outcome ← verifyHelo env client helo
    if outcome.verdict = .fail || request.domain == helo then pure outcome
    else verify env request
  else verify env request

/-- The verification of a request in texts. A malformed one is invalid, and
nothing is asked. -/
def verifyText (env : Environment) (domain client sender helo : String) :
    Verification Outcome :=
  match Request.parse client domain helo sender with
  | .ok request => verify env request
  | .error _ => pure (.plain .invalid domain)

end SenderPolicy
