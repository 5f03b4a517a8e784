import SenderPolicy.Policy.Parser
import SenderPolicy.Resolver

/-!
# Finding policies

A domain's policy is the one text of its name that is marked as a policy. If
there is none, records of type 99 may be asked for in the same way.

Main definitions:

- `Policy.isMarked`, `Policy.select`: the choice among the texts of a name;
- `lookupPolicy`: the policy of a domain;
- `lookupExplanation`: the explanation text at a name.
-/

namespace SenderPolicy

/-- Whether a record is marked as a policy: it starts with the version, followed
by a space or by nothing. -/
def Policy.isMarked (record : Octets) : Bool :=
  Octets.eqIgnoreCase (record.take version.length) version
    && (record.drop version.length).head?.all (· = ' '.toUInt8)

/-- The policy among the texts of a name. -/
def Policy.select (records : List Octets) : Except Fault Policy :=
  match records.filter isMarked with
  | [] => .error .notPolicy
  | [record] => Policy.parse record
  | _ :: _ :: _ => .error .severalPolicies

/-- The records of a kind, where no answer counts as no records. -/
def lookupAll (env : Environment) (k : Dns.Kind) (owner : k.Owner) : Lookup (List k.Datum) := do
  match ← (lookup env k owner).attempt with
  | .ok records => pure records
  | .error f => if f.isNotFound then pure [] else Lookup.fail f

/-- The policy of a domain. -/
def lookupPolicy (env : Environment) (domain : String) : Lookup Policy := do
  match Policy.select (← lookupAll env .txt domain) with
  | .error .notPolicy =>
    if env.settings.asksType99 then
      Lookup.ofExcept (Policy.select (← lookupAll env .spf domain))
    else Lookup.fail .notPolicy
  | selected => Lookup.ofExcept selected

/-- The explanation at a name, which has to be its only text. -/
def lookupExplanation (env : Environment) (name : String) : Lookup MacroString := do
  match ← lookup env .txt name with
  | [record] =>
    match MacroString.parse? .explanation record with
    | some text => pure text
    | none => Lookup.fail .malformed
  | _ => Lookup.fail .severalPolicies

end SenderPolicy
