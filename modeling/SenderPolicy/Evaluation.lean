import SenderPolicy.Evaluation.Machine

/-!
# The check of a host

The policy of the requested domain is found and evaluated. If the client may not
send, the policy on which that was decided may point to an explanation.

Main definitions:

- `Outcome`: a verdict with the domain and the explanation;
- `explain`: the explanation of a failure;
- `checkHost`: the whole check, which only an interruption leaves without an
  outcome.
-/

namespace SenderPolicy

/-- The outcome of a verification. -/
structure Outcome where
  verdict : Verdict
  domain : String
  explanation : Option String
  deriving DecidableEq, Repr

/-- The outcome with a verdict and no explanation. -/
def Outcome.plain (verdict : Verdict) (domain : String) : Outcome := ⟨verdict, domain, none⟩

/-- Expand the explanation to which a domain-spec points. -/
def expandExplanation (env : Environment) (request : Request) (domain : String)
    (target : MacroString) : Lookup (Option String) := do
  let name ← targetName env request domain target
  if DomainName.isValid name then do
    let text ← lookupExplanation env name
    return some (text.toText (← bindingsFor env request domain text))
  else return none

/-- The explanation to which a domain-spec points. Any fault on the way only
omits it. -/
def explain (env : Environment) (request : Request) (domain : String) (target : MacroString) :
    Lookup (Option String) := do
  match ← (expandExplanation env request domain target).attempt with
  | .ok explanation => return explanation
  | .error _ => return none

/-- The explanation of the end of an evaluation: only a failure has one. -/
def explainFinish (env : Environment) (request : Request) (finish : Finish) :
    Lookup (Option String) :=
  match finish.verdict, finish.policy.explanation? with
  | .fail, some target => explain env request finish.domain target
  | _, _ => pure none

/-- Find and evaluate the policy of the requested domain. -/
def evaluateRequest (env : Environment) (request : Request) : Evaluation Outcome :=
  if DomainName.isValid request.domain then do
    let policy ← Evaluation.ofLookup (lookupPolicy env request.domain)
    let finish ← Machine.evaluate env request policy request.domain
    let explanation ← Evaluation.ofLookup (explainFinish env request finish)
    return ⟨finish.verdict, request.domain, explanation⟩
  else return .plain .none request.domain

/-- The progress at the start of an evaluation. -/
def Progress.start (env : Environment) (traffic : Traffic) : Progress :=
  ⟨traffic, .ofSettings env.settings⟩

/-- The check of a host: its outcome, unless it is interrupted. -/
def checkHost (env : Environment) (request : Request) : Process Traffic Interruption Outcome :=
  fun t =>
    match (evaluateRequest env request).run (.start env t) with
    | (.ok outcome, p) => (.ok outcome, p.traffic)
    | (.error .noPolicy, p) => (.ok (.plain .permError request.domain), p.traffic)
    | (.error (.stopped (.fault f)), p) => (.ok (.plain f.verdict request.domain), p.traffic)
    | (.error (.stopped (.interrupted i)), p) => (.error i, p.traffic)

end SenderPolicy
