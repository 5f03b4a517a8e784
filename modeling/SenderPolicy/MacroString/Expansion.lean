import SenderPolicy.Address.Text
import SenderPolicy.MacroString
import SenderPolicy.Text.Utf8

/-!
# Expanding macro strings

Each expansion is replaced by a property of the request, cut, reversed,
shortened and escaped as it asks. The result is a name, which is cut to the
length that a name may have, or the text of an explanation.

Main definitions:

- `Bindings.value`: the properties of a request, as octets;
- `Expansion.transform`, `Expansion.apply`: a property as it is inserted;
- `MacroString.expand`: the octets of a macro string;
- `MacroString.toName`, `MacroString.toText`: the name or text that it stands for.
-/

namespace SenderPolicy

/-! ## Properties of a request -/

/-- What the letters stand for. -/
structure Bindings where
  client : Address
  sender : String
  helo : String
  domain : String
  validatedName : String
  receiver : String
  /-- The time of the check, in seconds. -/
  timestamp : Nat

/-- The octets of characters with a dot between each and the next. -/
def dotted (parts : List (List Char)) : Octets := Utf8.encode (joinChars '.' parts)

/-- The address cut into decimal octets or hexadecimal nibbles. -/
def Address.dottedDigits : Address → Octets
  | .v4 a => Utf8.encode a.chars
  | .v6 a => dotted (a.nibbles.map (Nat.toDigits 16))

/-- The reverse zone of an address. -/
def Address.reverseZone : Address → Octets
  | .v4 _ => .ofAscii ['i', 'n', '-', 'a', 'd', 'd', 'r']
  | .v6 _ => .ofAscii ['i', 'p', '6']

namespace Mailbox

/-- The local part that is meant when none is given. -/
def postmaster : Octets :=
  .ofAscii ['p', 'o', 's', 't', 'm', 'a', 's', 't', 'e', 'r']

/-- The part before the last `@`. -/
def localPart (mailbox : Octets) : Octets :=
  match splitLast? (· = '@'.toUInt8) mailbox with
  | some (before, _) => if before.isEmpty then postmaster else before
  | none => postmaster

/-- The part after the last `@`, or the whole if there is none. -/
def domainPart (mailbox : Octets) : Octets :=
  match splitLast? (· = '@'.toUInt8) mailbox with
  | some (_, after) => after
  | none => mailbox

end Mailbox

/-- The octets that a letter stands for. -/
def Bindings.value (b : Bindings) : Letter → Octets
  | .sender => Utf8.ofText b.sender
  | .localPart => Mailbox.localPart (Utf8.ofText b.sender)
  | .senderDomain => Mailbox.domainPart (Utf8.ofText b.sender)
  | .domain => Utf8.ofText b.domain
  | .ip => b.client.dottedDigits
  | .validatedName => Utf8.ofText b.validatedName
  | .ipVersion => b.client.reverseZone
  | .helo => Utf8.ofText b.helo
  | .clientIp => Utf8.ofText b.client.text
  | .receiver => Utf8.ofText b.receiver
  | .timestamp => .ofAscii (Nat.toDigits 10 b.timestamp)

/-! ## Inserting a property -/

/-- Whether an octet needs no escape. -/
def isUnreserved (b : UInt8) : Bool :=
  Octet.isAlphanum b || b = '-'.toUInt8 || b = '.'.toUInt8 || b = '_'.toUInt8 || b = '~'.toUInt8

/-- The octets with every reserved one written as a percent sign and two digits. -/
def percentEscape (octets : Octets) : Octets :=
  octets.flatMap fun b => if isUnreserved b then [b] else '%'.toUInt8 :: Octet.hex b

/-- The last `count` items of a list; zero keeps all. -/
def keepLast {α : Type} (count : Nat) (l : List α) : List α :=
  if 0 < count && count < l.length then l.drop (l.length - count) else l

namespace Expansion

/-- A property cut at the delimiters, reversed and shortened as asked, with dots
between the parts. -/
def transform (e : Expansion) (value : Octets) : Octets :=
  let parts := pieces e.delimiters.contains value
  let parts := if e.reverse then parts.reverse else parts
  let parts := keepLast e.parts.toNat parts
  ['.'.toUInt8].intercalate (if e.escape then parts.map percentEscape else parts)

/-- Whether an expansion asks for nothing. -/
def isPlain (e : Expansion) : Bool :=
  e.parts == 0 && !e.reverse && !e.escape && e.delimiters == .dot

/-- A property as it is inserted. An empty one, or one of which nothing is asked,
is inserted as it is. -/
def apply (e : Expansion) (value : Octets) : Octets :=
  if value.isEmpty || e.isPlain then value else e.transform value

end Expansion

/-! ## Whole macro strings -/

/-- The octets that a segment stands for. -/
def Segment.expand (b : Bindings) : Segment → Octets
  | .literal text => text
  | .expansion e => e.apply (b.value e.letter)

/-- The end of a text from the first place where at most `limit` octets are left;
`size` is the number of octets of the text. -/
def lastFitting (limit : Nat) : Nat → List Char → List Char
  | _, [] => []
  | size, c :: rest =>
    if size ≤ limit then c :: rest else lastFitting limit (size - c.utf8Size) rest

/-- A name cut to at most `limit` octets: whole labels are dropped at the front
as long as one boundary between labels leaves a name that fits, and otherwise
characters. -/
def cutToFit (limit : Nat) (name : List Char) : List Char :=
  if Utf8.size name ≤ limit then name
  else match splitFirst? (· = '.') (lastFitting (limit + 1) (Utf8.size name) name) with
    | some (_, labels) => labels
    | none => lastFitting limit (Utf8.size name) name

namespace MacroString

/-- The most octets of a name. -/
def maxNameSize : Nat := 253

/-- The octets that a macro string stands for. -/
def expand (b : Bindings) (m : MacroString) : Octets := m.flatMap (Segment.expand b)

/-- The characters that a macro string stands for. -/
def expandChars (b : Bindings) (m : MacroString) : List Char := Utf8.decodeLossy (m.expand b)

/-- The name that a macro string stands for, without dots at the end and cut to
the length of a name. -/
def toName (b : Bindings) (m : MacroString) : String :=
  String.ofList (cutToFit maxNameSize (dropTrailing (· = '.') (m.expandChars b)))

/-- The text that a macro string stands for. -/
def toText (b : Bindings) (m : MacroString) : String := String.ofList (m.expandChars b)

end MacroString

end SenderPolicy
