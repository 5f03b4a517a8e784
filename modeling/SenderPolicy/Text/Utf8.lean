import SenderPolicy.Octets

/-!
# Text as octets

Names and mailboxes are text, records are octets. Text is written as UTF-8;
reading accepts any octets and marks what is malformed.

Main definitions:

- `Utf8.encode`: the octets of a list of characters;
- `Utf8.read`: the characters of an octet string, with `none` for each maximal
  malformed part, read one octet at a time by `Utf8.step`;
- `Utf8.decodeLossy`, `Utf8.decode?`: malformed parts become the replacement
  character, or refuse the whole.
-/

namespace SenderPolicy.Utf8

/-- The octets of characters, one to four for each. -/
def encode (cs : List Char) : Octets := cs.flatMap String.utf8EncodeChar

/-- The octets of a text. -/
def ofText (s : String) : Octets := encode s.toList

/-- The number of octets of a list of characters. -/
def size (cs : List Char) : Nat := cs.foldr (fun c n => c.utf8Size + n) 0

/-- A character whose lead octet, and perhaps some of the octets after it, have
been read. -/
structure Partial where
  /-- How many octets are owed after the next one. -/
  owed : Nat
  /-- The bounds on the next octet. -/
  low : UInt8
  high : UInt8
  bits : Nat
  deriving DecidableEq, Repr

/-- What has been completed by an octet, and the character that it leaves
begun. -/
abbrev Step := List (Option Char) × Option Partial

/-- Read an octet at the start of a character. The bounds on the octet after it
rule out overlong forms, surrogates and numbers above U+10FFFF. -/
def lead (b : UInt8) : Step :=
  if b < 0x80 then ([some (Char.ofNat b.toNat)], none)
  else if b < 0xC2 then ([none], none)
  else if b < 0xE0 then ([], some ⟨0, 0x80, 0xBF, b.toNat - 0xC0⟩)
  else if b = 0xE0 then ([], some ⟨1, 0xA0, 0xBF, 0x0⟩)
  else if b = 0xED then ([], some ⟨1, 0x80, 0x9F, 0xD⟩)
  else if b < 0xF0 then ([], some ⟨1, 0x80, 0xBF, b.toNat - 0xE0⟩)
  else if b = 0xF0 then ([], some ⟨2, 0x90, 0xBF, 0x0⟩)
  else if b < 0xF4 then ([], some ⟨2, 0x80, 0xBF, b.toNat - 0xF0⟩)
  else if b = 0xF4 then ([], some ⟨2, 0x80, 0x8F, 0x4⟩)
  else ([none], none)

/-- Read an octet. One that cannot go on with the character begun ends a
malformed part and is read again as the start of a character. -/
def step : Option Partial → UInt8 → Step
  | none, b => lead b
  | some p, b =>
    if p.low ≤ b && b ≤ p.high then
      let bits := 64 * p.bits + (b.toNat - 0x80)
      match p.owed with
      | 0 => ([some (Char.ofNat bits)], none)
      | owed + 1 => ([], some ⟨owed, 0x80, 0xBF, bits⟩)
    else (none :: (lead b).1, (lead b).2)

/-- Read octets with the character `begun` already begun, if any. A character
left incomplete at the end is malformed. -/
def readFrom : Option Partial → Octets → List (Option Char)
  | none, [] => []
  | some _, [] => [none]
  | begun, b :: rest => (step begun b).1 ++ readFrom (step begun b).2 rest

/-- The characters of an octet string, with `none` for every maximal malformed
part. -/
def read (s : Octets) : List (Option Char) := readFrom none s

/-- The characters of an octet string, each malformed part replaced by U+FFFD. -/
def decodeLossy (s : Octets) : List Char := (read s).map (·.getD '\uFFFD')

/-- The characters of an octet string without malformed parts. -/
def decode? (s : Octets) : Option (List Char) := (read s).mapM id

/-- The text of an octet string, each malformed part replaced by U+FFFD. -/
def toText (s : Octets) : String := String.ofList (decodeLossy s)

end SenderPolicy.Utf8
