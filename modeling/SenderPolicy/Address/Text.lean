import SenderPolicy.Address

/-!
# Addresses as text

An IPv4 address is written as four decimal octets. An IPv6 address is written
in groups of lower-case hexadecimal digits, the longest run of two or more zero
groups as `::`, and an IPv4-mapped one with its IPv4 address at the end.

Reading takes the same forms and more: any one run of groups may be `::`, digits
may be capital, groups may have leading zeros, and the last two groups of any
address may be written as an IPv4 address.

Main definitions:

- `IPv4.text`, `IPv6.text`, `Address.text`: the written form;
- `IPv4.parse?`, `IPv6.parse?`, `Address.parse?`: reading a whole text.
-/

namespace SenderPolicy

/-! ## Writing -/

/-- Strings joined with a mark between them. -/
def joinChars (mark : Char) (parts : List (List Char)) : List Char :=
  [mark].intercalate parts

/-- The octets in decimal, with dots between them. -/
def IPv4.chars (a : IPv4) : List Char := joinChars '.' (a.octets.map (Nat.toDigits 10))

/-- The written form of an IPv4 address. -/
def IPv4.text (a : IPv4) : String := String.ofList a.chars

/-- The number of zeros at the front of a list. -/
def zerosAhead (l : List Nat) : Nat := (l.takeWhile (· = 0)).length

/-- The start and the length of the first longest run of zeros. -/
def longestZeroRun (l : List Nat) : Nat × Nat :=
  (List.range l.length).foldl
    (fun best i => if best.2 < zerosAhead (l.drop i) then (i, zerosAhead (l.drop i)) else best)
    (0, 0)

/-- Groups in hexadecimal, with colons between them. -/
def hexGroups (groups : List Nat) : List Char := joinChars ':' (groups.map (Nat.toDigits 16))

/-- The written form of an IPv6 address, as characters. -/
def IPv6.chars (a : IPv6) : List Char :=
  match a.mapped? with
  | some inner => [':', ':', 'f', 'f', 'f', 'f', ':'] ++ inner.chars
  | none =>
    let (start, count) := longestZeroRun a.groups
    if 1 < count then
      hexGroups (a.groups.take start) ++ [':', ':'] ++ hexGroups (a.groups.drop (start + count))
    else hexGroups a.groups

/-- The written form of an IPv6 address. -/
def IPv6.text (a : IPv6) : String := String.ofList a.chars

/-- The written form of an address. -/
def Address.text : Address → String
  | .v4 a => a.text
  | .v6 a => a.text

/-! ## Reading -/

/-- The number that decimal digits spell. -/
def decimalOfChars (digits : List Char) : Nat :=
  digits.foldl (fun n d => 10 * n + (d.toNat - '0'.toNat)) 0

/-- A hexadecimal digit, in either case. -/
def isHexDigit (c : Char) : Bool :=
  c.isDigit || ('a' ≤ c && c ≤ 'f') || ('A' ≤ c && c ≤ 'F')

/-- The value of a hexadecimal digit. -/
def hexDigitValue (c : Char) : Nat :=
  if c.isDigit then c.toNat - '0'.toNat else c.toLower.toNat - 'a'.toNat + 10

/-- The number that hexadecimal digits spell. -/
def hexOfChars (digits : List Char) : Nat :=
  digits.foldl (fun n d => 16 * n + hexDigitValue d) 0

/-- The rest of a text that starts with the given character. -/
def skipChar? (mark : Char) : List Char → Option (List Char)
  | [] => none
  | c :: rest => if c = mark then some rest else none

/-- Read a decimal octet: one to three digits without a leading zero, at most 255. -/
def readDecimalOctet? (cs : List Char) : Option (Nat × List Char) :=
  let digits := cs.takeWhile Char.isDigit
  if digits.isEmpty || 3 < digits.length || (1 < digits.length && digits.head? = some '0')
      || 255 < decimalOfChars digits then none
  else some (decimalOfChars digits, cs.dropWhile Char.isDigit)

/-- Read an IPv4 address at the front of a text. -/
def IPv4.read? (cs : List Char) : Option (IPv4 × List Char) := do
  let (a, cs) ← readDecimalOctet? cs
  let (b, cs) ← readDecimalOctet? (← skipChar? '.' cs)
  let (c, cs) ← readDecimalOctet? (← skipChar? '.' cs)
  let (d, cs) ← readDecimalOctet? (← skipChar? '.' cs)
  return (IPv4.ofOctets [a, b, c, d], cs)

/-- Read a group: one to four hexadecimal digits. -/
def readGroup? (cs : List Char) : Option (Nat × List Char) :=
  let digits := cs.takeWhile isHexDigit
  if digits.isEmpty || 4 < digits.length then none
  else some (hexOfChars digits, cs.dropWhile isHexDigit)

/-- Groups read from the front of a text. -/
structure GroupRun where
  /-- The groups, leading group first. -/
  groups : List Nat
  /-- Whether the last two groups were written as an IPv4 address. -/
  dotted : Bool
  rest : List Char

/-- Read up to `limit` groups with colons between them, and before the first
unless it stands at the start. An IPv4 address in the place of two groups ends
the run. -/
def readGroups (atStart : Bool) : Nat → List Char → GroupRun
  | 0, cs => ⟨[], false, cs⟩
  | limit + 1, cs =>
    match if atStart then some cs else skipChar? ':' cs with
    | none => ⟨[], false, cs⟩
    | some body =>
      match if 0 < limit then IPv4.read? body else none with
      | some (inner, rest) =>
        ⟨[ofWordDigits 8 (inner.octets.take 2), ofWordDigits 8 (inner.octets.drop 2)], true, rest⟩
      | none =>
        match readGroup? body with
        | none => ⟨[], false, cs⟩
        | some (group, rest) =>
          let run := readGroups false limit rest
          ⟨group :: run.groups, run.dotted, run.rest⟩

/-- Read an IPv6 address at the front of a text: eight groups, or fewer on both
sides of `::`, which stands for at least one group. -/
def IPv6.read? (cs : List Char) : Option (IPv6 × List Char) :=
  let front := readGroups true 8 cs
  if front.groups.length = 8 then some (IPv6.ofGroups front.groups, front.rest)
  else if front.dotted then none
  else do
    let body ← skipChar? ':' (← skipChar? ':' front.rest)
    let back := readGroups true (7 - front.groups.length) body
    let zeros := List.replicate (8 - front.groups.length - back.groups.length) 0
    return (IPv6.ofGroups (front.groups ++ zeros ++ back.groups), back.rest)

/-- The value read, if nothing of the text is left. -/
def whole? {α : Type} (result : Option (α × List Char)) : Option α :=
  match result with
  | some (a, []) => some a
  | _ => none

/-- Read an IPv4 address. -/
def IPv4.parse? (s : String) : Option IPv4 := whole? (IPv4.read? s.toList)

/-- Read an IPv6 address. -/
def IPv6.parse? (s : String) : Option IPv6 := whole? (IPv6.read? s.toList)

/-- Read an address of either family. -/
def Address.parse? (s : String) : Option Address :=
  (IPv4.parse? s).map .v4 <|> (IPv6.parse? s).map .v6

end SenderPolicy
