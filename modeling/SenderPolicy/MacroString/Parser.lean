import SenderPolicy.MacroString

/-!
# Reading macro strings

A macro string is a sequence of literal octets, the escapes `%%`, `%_` and `%-`,
and expansions in braces: a letter, an optional count, an optional `r` and any
number of delimiters. In a domain-spec only visible ASCII may be literal; in an
explanation every octet may, and three more letters are known.

Main definitions:

- `Letter.ofOctet?`: the letters of each mode;
- `Expansion.parse?`: what stands between the braces;
- `MacroString.parse?`: a whole macro string, in its joined form.
-/

namespace SenderPolicy

/-- Where a macro string stands. -/
inductive MacroMode where
  | domainSpec
  | explanation
  deriving DecidableEq, Repr

/-- Whether an octet other than the percent sign may stand for itself. -/
def MacroMode.allowsLiteral (mode : MacroMode) (b : UInt8) : Bool :=
  mode == .explanation || (0x21 ≤ b && b ≤ 0x7E)

/-- The property that a small letter names. -/
def Letter.ofSmall? (mode : MacroMode) (b : UInt8) : Option Letter :=
  if b = 's'.toUInt8 then some .sender
  else if b = 'l'.toUInt8 then some .localPart
  else if b = 'o'.toUInt8 then some .senderDomain
  else if b = 'd'.toUInt8 then some .domain
  else if b = 'i'.toUInt8 then some .ip
  else if b = 'p'.toUInt8 then some .validatedName
  else if b = 'v'.toUInt8 then some .ipVersion
  else if b = 'h'.toUInt8 then some .helo
  else if mode = .explanation then
    if b = 'c'.toUInt8 then some .clientIp
    else if b = 'r'.toUInt8 then some .receiver
    else if b = 't'.toUInt8 then some .timestamp
    else none
  else none

/-- The property that a letter of either case names. -/
def Letter.ofOctet? (mode : MacroMode) (b : UInt8) : Option Letter :=
  Letter.ofSmall? mode (Octet.lower b)

namespace Expansion

/-- The greatest count of parts; a greater one counts as this. -/
def maxParts : Nat := UInt32.size - 1

/-- The octets that may be listed as delimiters. -/
def isDelimiter (b : UInt8) : Bool :=
  b = '.'.toUInt8 || b = '-'.toUInt8 || b = '+'.toUInt8 || b = ','.toUInt8 || b = '/'.toUInt8
    || b = '_'.toUInt8 || b = '='.toUInt8

/-- The count that digits spell. No digits mean that all parts are kept; a count
of zero is refused. -/
def parseCount? (digits : Octets) : Option UInt32 :=
  if digits.isEmpty then some 0
  else if digits.decimalValue = 0 then none
  else some (UInt32.ofNat (min digits.decimalValue maxParts))

/-- Read an `r` of either case at the front. -/
def takeReverse : Octets → Bool × Octets
  | [] => (false, [])
  | b :: rest => if Octet.lower b = 'r'.toUInt8 then (true, rest) else (false, b :: rest)

/-- The set of the listed delimiters, or the dot when none is listed. -/
def parseDelimiters? (listed : Octets) : Option Delimiters :=
  if !listed.all isDelimiter then none
  else if listed.isEmpty then some .dot
  else some (.ofOctets listed)

/-- Read what stands between the braces. A capital letter asks for escaping. -/
def parse? (mode : MacroMode) : Octets → Option Expansion
  | [] => none
  | b :: rest => do
    let letter ← Letter.ofOctet? mode b
    let parts ← parseCount? (rest.takeWhile Octet.isDigit)
    let (reverse, listed) := takeReverse (rest.dropWhile Octet.isDigit)
    let delimiters ← parseDelimiters? listed
    return ⟨letter, parts, reverse, Octet.isUpper b, delimiters⟩

end Expansion

namespace MacroString

/-- Where the reader stands. -/
inductive Place where
  /-- Between items. -/
  | text
  | percent
  /-- Inside braces, after the given octets, the latest first. -/
  | braces (read : Octets)

/-- The literal text of an escape. -/
def escaped? (b : UInt8) : Option Octets :=
  if b = '%'.toUInt8 then some (.ofAscii ['%'])
  else if b = '_'.toUInt8 then some (.ofAscii [' '])
  else if b = '-'.toUInt8 then some (.ofAscii ['%', '2', '0'])
  else none

/-- Read the items from a place on. -/
def parseFrom (mode : MacroMode) : Place → Octets → Option MacroString
  | .text, [] => some []
  | .percent, [] => none
  | .braces _, [] => none
  | .text, b :: rest =>
    if b = '%'.toUInt8 then parseFrom mode .percent rest
    else if mode.allowsLiteral b then (parseFrom mode .text rest).map (consLiteral [b])
    else none
  | .percent, b :: rest =>
    if b = '{'.toUInt8 then parseFrom mode (.braces []) rest
    else match escaped? b with
      | some text => (parseFrom mode .text rest).map (consLiteral text)
      | none => none
  | .braces read, b :: rest =>
    if b = '}'.toUInt8 then
      match Expansion.parse? mode read.reverse with
      | some e => (parseFrom mode .text rest).map (.expansion e :: ·)
      | none => none
    else parseFrom mode (.braces (b :: read)) rest

/-- Read a macro string. -/
def parse? (mode : MacroMode) (octets : Octets) : Option MacroString :=
  parseFrom mode .text octets

end MacroString

end SenderPolicy
