import SenderPolicy.MacroString.Parser

/-!
# Domain-specs

A domain-spec is a macro string that ends like a name: in a dot and a top
label, with or without a dot after it, or in an expansion.

Main definitions:

- `isTopLabel`: the labels that may end a name;
- `DomainSpec.endsWell`: the condition on the end of a macro string;
- `DomainSpec.parse?`: reading a domain-spec.
-/

namespace SenderPolicy

/-- Whether octets may be the last label of a name: letters, digits and inner
hyphens, not digits alone. -/
def isTopLabel (label : Octets) : Bool :=
  (label.head?.map Octet.isAlphanum).getD false
    && (label.getLast?.map Octet.isAlphanum).getD false
    && label.all (fun b => Octet.isAlphanum b || b = '-'.toUInt8)
    && label.any fun b => Octet.isAlpha b || b = '-'.toUInt8

namespace DomainSpec

/-- Whether a literal may end a name. Without one dot at its end it has a top
label after its last dot, or it is empty and comes after an expansion. -/
def literalEndsWell (followsExpansion : Bool) (text : Octets) : Bool :=
  let text := dropFinal '.'.toUInt8 text
  match splitLast? (· = '.'.toUInt8) text with
  | some (_, label) => isTopLabel label
  | none => followsExpansion && text.isEmpty

/-- Whether a macro string that is not empty ends like a name. -/
def endsWell (m : MacroString) : Bool :=
  match m.getLast? with
  | none => false
  | some (.expansion _) => true
  | some (.literal text) => literalEndsWell (1 < m.length) text

/-- Read a domain-spec. -/
def parse? (octets : Octets) : Option MacroString :=
  (MacroString.parse? .domainSpec octets).filter endsWell

end DomainSpec

end SenderPolicy
