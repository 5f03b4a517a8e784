import SenderPolicy.Octets

/-!
# Macro strings

A macro string is literal text with places for the properties of a request. It
names the targets of a policy's terms and holds the explanation of a failure.

Main definitions:

- `Letter`: the properties that can be inserted;
- `Delimiters`: the set of octets at which a property is cut into parts;
- `Expansion`: a property with the way in which it is cut, reversed and escaped;
- `MacroString`: literals and expansions in order, with neighbouring literals
  joined.
-/

namespace SenderPolicy

/-- The properties of a request that a macro string can insert. -/
inductive Letter where
  | sender
  | localPart
  | senderDomain
  | domain
  /-- The address of the client, cut into octets or nibbles. -/
  | ip
  | validatedName
  | ipVersion
  | helo
  | clientIp
  | receiver
  | timestamp
  deriving DecidableEq, Repr

/-- A set of octets from `+` to `_`: bit `n` stands for the octet `'+' + n`. -/
structure Delimiters where
  bits : UInt64
  deriving DecidableEq, Repr

namespace Delimiters

/-- The octet of bit zero. -/
def firstOctet : UInt8 := '+'.toUInt8

/-- The last octet that can be a member. -/
def lastOctet : UInt8 := '_'.toUInt8

/-- The set without members. -/
def empty : Delimiters := ⟨0⟩

/-- The bit of an octet between the first and the last. -/
def bit (b : UInt8) : UInt64 := 1 <<< (b - firstOctet).toUInt64

/-- The set with one more member. -/
def insert (b : UInt8) (set : Delimiters) : Delimiters := ⟨set.bits ||| bit b⟩

/-- Whether an octet is a member. -/
def contains (set : Delimiters) (b : UInt8) : Bool :=
  firstOctet ≤ b && b ≤ lastOctet && set.bits &&& bit b != 0

/-- The set of the given octets. -/
def ofOctets (octets : Octets) : Delimiters := octets.foldl (fun set b => set.insert b) empty

/-- The dot alone, which is meant when no delimiter is given. -/
def dot : Delimiters := ofOctets ['.'.toUInt8]

end Delimiters

/-- A property and the way in which it is inserted. -/
structure Expansion where
  letter : Letter
  /-- How many parts are kept, counted from the right; zero keeps all. -/
  parts : UInt32
  /-- Whether the parts are reversed first. -/
  reverse : Bool
  escape : Bool
  /-- Where the property is cut. -/
  delimiters : Delimiters
  deriving DecidableEq, Repr

/-- An item of a macro string. -/
inductive Segment where
  | literal (octets : Octets)
  | expansion (e : Expansion)
  deriving DecidableEq, Repr

/-- A macro string: its items in order. -/
abbrev MacroString := List Segment

namespace MacroString

/-- The macro string with literal text put in front, joined to the literal that
stands there. -/
def consLiteral (text : Octets) : MacroString → MacroString
  | .literal more :: rest => .literal (text ++ more) :: rest
  | m => .literal text :: m

/-- Whether the confirmed name of the client is inserted anywhere. -/
def needsValidatedName (m : MacroString) : Bool :=
  m.any fun
    | .expansion e => e.letter == .validatedName
    | .literal _ => false

end MacroString

end SenderPolicy
