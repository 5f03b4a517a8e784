/-!
# JSON texts

Values of JSON as settings need them. Members keep their order and may repeat,
and only natural numbers keep their value.

Main definitions:

- `Json`: the values;
- `Json.parse?`: reading a whole text.
-/

namespace SenderPolicy

/-- A JSON value. -/
inductive Json where
  | null
  | bool (value : Bool)
  /-- A number; a value is known if it is written with digits alone. -/
  | number (natural : Option Nat)
  /-- A string; its text is known unless an escape stands for half a character. -/
  | string (text : Option (List Char))
  | array (items : List Json)
  | object (members : List (Option (List Char) × Json))

namespace Json

/-! ## White space, digits and words -/

/-- A space, a tab or the end of a line. -/
def isSpace (c : Char) : Bool := c = ' ' || c = '\t' || c = '\n' || c = '\r'

/-- The text after the white space at its front. -/
def skipSpace (cs : List Char) : List Char := cs.dropWhile isSpace

/-- The text after a word at its front. -/
def skipWord? : List Char → List Char → Option (List Char)
  | [], cs => some cs
  | _ :: _, [] => none
  | w :: word, c :: cs => if w = c then skipWord? word cs else none

/-- The value of digits in decimal. -/
def naturalOfDigits (digits : List Char) : Nat :=
  digits.foldl (fun n d => 10 * n + (d.toNat - '0'.toNat)) 0

/-- Read one or more digits. -/
def readDigits? (cs : List Char) : Option (List Char × List Char) :=
  let digits := cs.takeWhile Char.isDigit
  if digits.isEmpty then none else some (digits, cs.dropWhile Char.isDigit)

/-- Read a fraction, if there is one; the flag tells whether there was. -/
def readFraction? : List Char → Option (Bool × List Char)
  | [] => some (false, [])
  | c :: rest =>
    if c = '.' then (readDigits? rest).map fun (_, rest) => (true, rest)
    else some (false, c :: rest)

/-- The text after a sign at its front, if there is one. -/
def skipSign : List Char → List Char
  | [] => []
  | c :: rest => if c = '+' || c = '-' then rest else c :: rest

/-- Read an exponent, if there is one; the flag tells whether there was. -/
def readExponent? : List Char → Option (Bool × List Char)
  | [] => some (false, [])
  | c :: rest =>
    if c = 'e' || c = 'E' then (readDigits? (skipSign rest)).map fun (_, rest) => (true, rest)
    else some (false, c :: rest)

/-- Read a number. No digit may follow a leading zero. -/
def readNumber? (cs : List Char) : Option (Option Nat × List Char) := do
  let (negative, body) := match cs with
    | '-' :: rest => (true, rest)
    | _ => (false, cs)
  let (digits, rest) ← readDigits? body
  if digits.head? = some '0' && 1 < digits.length then none
  else
    let (hasFraction, rest) ← readFraction? rest
    let (hasExponent, rest) ← readExponent? rest
    if negative || hasFraction || hasExponent then return (none, rest)
    else return (some (naturalOfDigits digits), rest)

/-! ## Strings -/

/-- The value of a hexadecimal digit. -/
def hexValue? (c : Char) : Option Nat :=
  if c.isDigit then some (c.toNat - '0'.toNat)
  else if 'a' ≤ c && c ≤ 'f' then some (c.toNat - 'a'.toNat + 10)
  else if 'A' ≤ c && c ≤ 'F' then some (c.toNat - 'A'.toNat + 10)
  else none

/-- The number that four hexadecimal digits spell. -/
def hexUnit? (a b c d : Char) : Option Nat := do
  return 4096 * (← hexValue? a) + 256 * (← hexValue? b) + 16 * (← hexValue? c) + (← hexValue? d)

/-- The code of the character that an escape of one letter stands for. -/
def escapedCode? (c : Char) : Option Nat :=
  if c = '"' || c = '\\' || c = '/' then some c.toNat
  else if c = 'b' then some 0x08
  else if c = 'f' then some 0x0C
  else if c = 'n' then some 0x0A
  else if c = 'r' then some 0x0D
  else if c = 't' then some 0x09
  else none

/-- Put a code in front of those read after it. -/
def consCode (code : Nat) (result : Option (List Nat × List Char)) :
    Option (List Nat × List Char) :=
  result.map fun (codes, rest) => (code :: codes, rest)

/-- Read the codes of a string up to its closing quote. -/
def readCodes? : List Char → Option (List Nat × List Char)
  | [] => none
  | '"' :: rest => some ([], rest)
  | '\\' :: 'u' :: a :: b :: c :: d :: rest =>
    match hexUnit? a b c d with
    | some code => consCode code (readCodes? rest)
    | none => none
  | '\\' :: c :: rest =>
    match escapedCode? c with
    | some code => consCode code (readCodes? rest)
    | none => none
  | c :: rest => if c.toNat < 0x20 || c = '\\' then none else consCode c.toNat (readCodes? rest)

/-- The first half of a pair. -/
def isHighHalf (code : Nat) : Bool := 0xD800 ≤ code && code ≤ 0xDBFF

/-- The second half of a pair. -/
def isLowHalf (code : Nat) : Bool := 0xDC00 ≤ code && code ≤ 0xDFFF

/-- The characters of codes: pairs are joined, and a half by itself is refused. -/
def charsOfCodes? : List Nat → Option (List Char)
  | [] => some []
  | [code] => if isHighHalf code || isLowHalf code then none else some [Char.ofNat code]
  | high :: low :: rest =>
    if isHighHalf high then
      if isLowHalf low then
        (charsOfCodes? rest).map
          (Char.ofNat (0x10000 + 0x400 * (high - 0xD800) + (low - 0xDC00)) :: ·)
      else none
    else if isLowHalf high then none
    else (charsOfCodes? (low :: rest)).map (Char.ofNat high :: ·)

/-- Read a string after its opening quote. -/
def readString? (cs : List Char) : Option (Option (List Char) × List Char) :=
  (readCodes? cs).map fun (codes, rest) => (charsOfCodes? codes, rest)

/-! ## Values -/

/-- Read a value that is neither a list nor has members. -/
def readScalar? (cs : List Char) : Option (Json × List Char) :=
  match cs with
  | [] => none
  | c :: rest =>
    if c = '"' then (readString? rest).map fun (text, rest) => (.string text, rest)
    else if c = 'n' then (skipWord? ['n', 'u', 'l', 'l'] cs).map fun rest => (.null, rest)
    else if c = 't' then (skipWord? ['t', 'r', 'u', 'e'] cs).map fun rest => (.bool true, rest)
    else if c = 'f' then
      (skipWord? ['f', 'a', 'l', 's', 'e'] cs).map fun rest => (.bool false, rest)
    else (readNumber? cs).map fun (n, rest) => (.number n, rest)

mutual

/-- Read a value, with `depth` to bound the number of calls. -/
def readValue? : Nat → List Char → Option (Json × List Char)
  | 0, _ => none
  | depth + 1, cs =>
    match skipSpace cs with
    | '[' :: rest =>
      match skipSpace rest with
      | ']' :: rest => some (.array [], rest)
      | rest => (readItems? depth rest).map fun (items, rest) => (.array items, rest)
    | '{' :: rest =>
      match skipSpace rest with
      | '}' :: rest => some (.object [], rest)
      | rest => (readMembers? depth rest).map fun (members, rest) => (.object members, rest)
    | rest => readScalar? rest

/-- Read the values of a list up to its closing bracket. -/
def readItems? : Nat → List Char → Option (List Json × List Char)
  | 0, _ => none
  | depth + 1, cs => do
    let (item, rest) ← readValue? depth cs
    match skipSpace rest with
    | ']' :: rest => return ([item], rest)
    | ',' :: rest =>
      let (items, rest) ← readItems? depth rest
      return (item :: items, rest)
    | _ => none

/-- Read the members of an object up to its closing brace. -/
def readMembers? : Nat → List Char → Option (List (Option (List Char) × Json) × List Char)
  | 0, _ => none
  | depth + 1, cs => do
    match skipSpace cs with
    | '"' :: rest =>
      let (name, rest) ← readString? rest
      match skipSpace rest with
      | ':' :: rest =>
        let (value, rest) ← readValue? depth rest
        match skipSpace rest with
        | '}' :: rest => return ([(name, value)], rest)
        | ',' :: rest =>
          let (members, rest) ← readMembers? depth rest
          return ((name, value) :: members, rest)
        | _ => none
      | _ => none
    | _ => none

end

/-- Read a text that holds one value and nothing else. Every call but those for
the whole value and for its first item or member follows a character that has
been read, so twice the length bounds their number. -/
def parse? (text : String) : Option Json :=
  let cs := text.toList
  match readValue? (2 * cs.length + 2) cs with
  | some (value, rest) => if (skipSpace rest).isEmpty then some value else none
  | none => none

end Json

end SenderPolicy
