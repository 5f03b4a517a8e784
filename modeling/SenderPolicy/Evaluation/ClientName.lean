import SenderPolicy.MacroString.Expansion
import SenderPolicy.Request
import SenderPolicy.Resolver

/-!
# Names of the client

The address of a client has names, and a name is confirmed if it has that
address in turn. One of the confirmed names stands for the client in macro
strings; it is looked for each time that it is needed.

Main definitions:

- `resolvesNear`: whether a name has an address near that of the client;
- `confirmedNames`: the confirmed names among the first ten;
- `chooseName`, `validatedName`: the name that stands for the client;
- `targetName`: the name that a domain-spec stands for.
-/

namespace SenderPolicy

/-- How many names of a client are looked at. -/
def maxClientNames : Nat := 10

/-- Whether a name has an address that agrees with that of the client under the
mask of its family. -/
def resolvesNear (env : Environment) (client : Address) (mask4 : BitVec 32) (mask6 : BitVec 128)
    (name : String) : Lookup Bool :=
  match client with
  | .v4 a => do
    let records ← lookup env .a name
    return records.any fun r => agreeUnder mask4 a.bits r.bits
  | .v6 a => do
    let records ← lookup env .aaaa name
    return records.any fun r => agreeUnder mask6 a.bits r.bits

/-- The names that have exactly the address of the client, in lower case. A name
without addresses is left out. -/
def confirmNames (env : Environment) (client : Address) : List String → Lookup (List String)
  | [] => pure []
  | name :: rest => do
    match ← (resolvesNear env client (leadingMask 32 32) (leadingMask 128 128) name).attempt with
    | .ok true => return Text.lowerCase name :: (← confirmNames env client rest)
    | .ok false => confirmNames env client rest
    | .error f => if f.isNotFound then confirmNames env client rest else Lookup.fail f

/-- The confirmed names of the client. -/
def confirmedNames (env : Environment) (client : Address) : Lookup (List String) := do
  let names ← lookup env .ptr client
  confirmNames env client (names.take maxClientNames)

/-- What stands for a client without a confirmed name. -/
def unknownName : String := "unknown"

/-- The name among the confirmed ones that stands for the client: the domain
itself, or else the first below it, or else the first. -/
def chooseName (domain : String) (names : List String) : String :=
  let domain := Text.lowerCase domain
  ((names.find? (· == domain)).or
    ((names.find? (DomainName.isWithin domain)).or names.head?)).getD unknownName

/-- The name that stands for the client in the policy of a domain. -/
def validatedName (env : Environment) (client : Address) (domain : String) : Lookup String := do
  match ← (confirmedNames env client).attempt with
  | .ok names => return chooseName domain names
  | .error _ => return chooseName domain []

/-- The properties of a request in the policy of a domain. -/
def bindings (env : Environment) (request : Request) (domain validated : String) : Bindings where
  client := request.client
  sender := request.sender
  helo := request.helo
  domain := domain
  validatedName := validated
  receiver := env.settings.receiver
  timestamp := env.timestamp

/-- The properties for a macro string. The name of the client is looked for only
if it is needed. -/
def bindingsFor (env : Environment) (request : Request) (domain : String) (m : MacroString) :
    Lookup Bindings :=
  if m.needsValidatedName then do
    return bindings env request domain (← validatedName env request.client domain)
  else return bindings env request domain ""

/-- The name that a domain-spec stands for in the policy of a domain. -/
def targetName (env : Environment) (request : Request) (domain : String) (m : MacroString) :
    Lookup String := do
  return m.toName (← bindingsFor env request domain m)

/-- The name that an optional domain-spec stands for; without one it is the
domain. -/
def targetNameOr (env : Environment) (request : Request) (domain : String) :
    Option MacroString → Lookup String
  | none => pure domain
  | some m => targetName env request domain m

end SenderPolicy
