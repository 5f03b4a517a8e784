import SenderPolicy.Address.Text
import SenderPolicy.Fault
import SenderPolicy.MacroString.DomainSpec
import SenderPolicy.Policy
import SenderPolicy.Text.Utf8

/-!
# Reading policies

A policy record is the version followed by terms, with blanks between them. A
term is a directive or a modifier; it is a modifier when its name ends at an
equals sign.

Main definitions:

- `Term.parse?`: reading one term;
- `Policy.add?`: a policy with one more term, which may not repeat `redirect`
  or `exp`;
- `Policy.terms`, `Policy.parse`: reading a whole record.

Main results:

- `Policy.parse_of_version`: a record that starts with the version is read term
  by term.
-/

namespace SenderPolicy

/-- A term of a policy. -/
inductive Term where
  | directive (d : Directive)
  | modifier (m : Modifier)
  deriving DecidableEq, Repr

/-! ## Lengths of networks -/

namespace Cidr

/-- The number of bits of a network: one to three digits without a leading zero,
at most `limit`. -/
def parseLength? (limit : Nat) (digits : Octets) : Option Nat :=
  if digits.isEmpty || 3 < digits.length
      || (1 < digits.length && digits.head? = some '0'.toUInt8)
      || !digits.all Octet.isDigit || limit < digits.decimalValue then none
  else some digits.decimalValue

/-- What stands before and after the first two slashes in a row. -/
def splitDoubleSlash? : Octets → Option (Octets × Octets)
  | [] => none
  | b :: rest =>
    if b = '/'.toUInt8 && rest.head? = some '/'.toUInt8 then some ([], rest.tail)
    else (splitDoubleSlash? rest).map fun (before, after) => (b :: before, after)

/-- The lengths for both families after the first slash: `n4`, `n4//n6` or `/n6`. -/
def parseDual? (octets : Octets) : Option (Nat × Nat) :=
  if octets.head? = some '/'.toUInt8 then
    (parseLength? 128 octets.tail).map fun n6 => (32, n6)
  else match splitDoubleSlash? octets with
    | some (four, six) => do return (← parseLength? 32 four, ← parseLength? 128 six)
    | none => (parseLength? 32 octets).map fun n4 => (n4, 128)

end Cidr

/-! ## Terms -/

namespace Term

/-- The qualifier that an octet stands for. -/
def qualifier? (b : UInt8) : Option Qualifier :=
  if b = '+'.toUInt8 then some .pass
  else if b = '-'.toUInt8 then some .fail
  else if b = '~'.toUInt8 then some .softFail
  else if b = '?'.toUInt8 then some .neutral
  else none

/-- Read a qualifier at the front. -/
def takeQualifier : Octets → Option Qualifier × Octets
  | [] => (none, [])
  | b :: rest =>
    match qualifier? b with
    | some q => (some q, rest)
    | none => (none, b :: rest)

/-- Whether an octet ends the name of a term. -/
def endsName (b : UInt8) : Bool := b = ':'.toUInt8 || b = '/'.toUInt8 || b = '='.toUInt8

/-- Whether octets may name a modifier. -/
def isModifierName (name : Octets) : Bool :=
  (name.head?.map Octet.isAlpha).getD false
    && name.all fun b =>
      Octet.isAlphanum b || b = '-'.toUInt8 || b = '_'.toUInt8 || b = '.'.toUInt8

/-- What follows a colon, if anything does. -/
def afterColon? : Octets → Option Octets
  | [] => none
  | b :: rest => if b = ':'.toUInt8 && !rest.isEmpty then some rest else none

/-- The domain-spec of a mechanism that needs one. -/
def required? (arguments : Octets) : Option MacroString :=
  (afterColon? arguments).bind DomainSpec.parse?

/-- The domain-spec of a mechanism that may have one. -/
def optional? (arguments : Octets) : Option (Option MacroString) :=
  if arguments.isEmpty then some none else (required? arguments).map some

/-- Cut arguments before the first slash that comes after the last closing
brace: expansions may list a slash as a delimiter. -/
def splitCidr (arguments : Octets) : Octets × Option Octets :=
  match splitLast? (· = '}'.toUInt8) arguments with
  | none =>
    match splitFirst? (· = '/'.toUInt8) arguments with
    | some (domain, cidr) => (domain, some cidr)
    | none => (arguments, none)
  | some (before, after) =>
    match splitFirst? (· = '/'.toUInt8) after with
    | some (domain, cidr) => (before ++ '}'.toUInt8 :: domain, some cidr)
    | none => (arguments, none)

/-- An optional domain-spec and the masks for both families. -/
def hostArguments? (arguments : Octets) :
    Option (Option MacroString × BitVec 32 × BitVec 128) := do
  let (domain, cidr) := splitCidr arguments
  let target ← optional? domain
  let (n4, n6) ← match cidr with
    | none => some (32, 128)
    | some lengths => Cidr.parseDual? lengths
  return (target, leadingMask 32 n4, leadingMask 128 n6)

/-- The text of an address and the octets after the slash that follows it. -/
def networkArguments? (arguments : Octets) : Option (String × Option Octets) := do
  let body ← afterColon? arguments
  let (address, cidr) := match splitFirst? (· = '/'.toUInt8) body with
    | some (address, cidr) => (address, some cidr)
    | none => (body, none)
  return (String.ofList (← Utf8.decode? address), cidr)

/-- The mask that an optional length gives. -/
def mask? (w : Nat) : Option Octets → Option (BitVec w)
  | none => some (leadingMask w w)
  | some digits => (Cidr.parseLength? w digits).map (leadingMask w)

/-- Remove one slash at the front, if there is one. -/
def dropSlash : Octets → Octets
  | [] => []
  | b :: rest => if b = '/'.toUInt8 then rest else b :: rest

/-- The mechanism with a small name and arguments. -/
def mechanism? (name arguments : Octets) : Option Mechanism :=
  if name = .ofAscii ['a', 'l', 'l'] then
    if arguments.isEmpty then some .all else none
  else if name = .ofAscii ['i', 'n', 'c', 'l', 'u', 'd', 'e'] then
    (required? arguments).map .includePolicy
  else if name = .ofAscii ['e', 'x', 'i', 's', 't', 's'] then
    (required? arguments).map .existsName
  else if name = .ofAscii ['p', 't', 'r'] then
    (optional? arguments).map .ptr
  else if name = .ofAscii ['a'] then
    (hostArguments? arguments).map fun (target, mask4, mask6) => .a target mask4 mask6
  else if name = .ofAscii ['m', 'x'] then
    (hostArguments? arguments).map fun (target, mask4, mask6) => .mx target mask4 mask6
  else if name = .ofAscii ['i', 'p', '4'] then do
    let (address, cidr) ← networkArguments? arguments
    return .ip4 (← IPv4.parse? address) (← mask? 32 cidr)
  else if name = .ofAscii ['i', 'p', '6'] then do
    let (address, cidr) ← networkArguments? arguments
    return .ip6 (← IPv6.parse? address) (← mask? 128 (cidr.map dropSlash))
  else none

/-- The modifier with a name and a value. -/
def modifier? (name value : Octets) : Option Modifier :=
  if name.eqIgnoreCase (.ofAscii ['r', 'e', 'd', 'i', 'r', 'e', 'c', 't']) then
    (DomainSpec.parse? value).map .redirect
  else if name.eqIgnoreCase (.ofAscii ['e', 'x', 'p']) then
    (DomainSpec.parse? value).map .explanation
  else
    (MacroString.parse? .domainSpec value).map fun _ =>
      .unknown (Utf8.toText name) (Utf8.toText value)

/-- Read a term. -/
def parse? (term : Octets) : Option Term :=
  let (qualifier, body) := takeQualifier term
  let name := body.takeWhile (!endsName ·)
  let arguments := body.dropWhile (!endsName ·)
  if arguments.head? = some '='.toUInt8 then
    if qualifier.isNone && isModifierName name then
      (modifier? name arguments.tail).map .modifier
    else none
  else
    (mechanism? (Octets.lower name) arguments).map fun m =>
      .directive ⟨qualifier.getD .pass, m⟩

end Term

/-! ## Records -/

namespace Policy

/-- The version that a record starts with. -/
def version : Octets := .ofAscii ['v', '=', 's', 'p', 'f', '1']

/-- The terms of a record, the version among them. -/
def terms (record : Octets) : List Octets :=
  (pieces Octet.isBlank record).filter (!·.isEmpty)

/-- A policy with one more term at its end. A second `redirect` or `exp` is
refused. -/
def add? (p : Policy) : Term → Option Policy
  | .directive d => some { p with directives := p.directives ++ [d] }
  | .modifier m =>
    let repeated := match m with
      | .redirect _ => p.redirect?.isSome
      | .explanation _ => p.explanation?.isSome
      | .unknown _ _ => false
    if repeated then none else some { p with modifiers := p.modifiers ++ [m] }

/-- The policy with the given terms added one after another. -/
def ofTerms? : Policy → List Octets → Option Policy
  | p, [] => some p
  | p, term :: rest => do ofTerms? (← p.add? (← Term.parse? term)) rest

/-- Read a record. -/
def parse (record : Octets) : Except Fault Policy :=
  match terms record with
  | [] => .error .notPolicy
  | first :: rest =>
    if first.eqIgnoreCase version then
      match ofTerms? empty rest with
      | some p => .ok p
      | none => .error .malformed
    else .error .notPolicy

section Version

variable {record first : Octets} {rest : List Octets} (hterms : terms record = first :: rest)
  (hversion : first.eqIgnoreCase version = true)
include hterms hversion

/-- What follows the version is read term by term. -/
theorem parse_of_version :
    parse record = (ofTerms? empty rest).elim (.error .malformed) .ok := by
  rw [parse, hterms]
  dsimp only
  rw [if_pos hversion]
  cases ofTerms? empty rest <;> rfl

theorem parse_eq_ok_iff_of_version {p : Policy} :
    parse record = .ok p ↔ ofTerms? empty rest = some p := by
  rw [parse_of_version hterms hversion]
  cases ofTerms? empty rest <;> simp

end Version

end Policy

end SenderPolicy
