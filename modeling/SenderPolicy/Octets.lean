import SenderPolicy.Pieces

/-!
# Octet strings

Policy records are published as octets, mostly ASCII. This module holds the
octet classes that the record grammar names, the ASCII case map, and the two
number texts that are written octet by octet.

Main definitions:

- `Octets`, `Octets.ofAscii`: octet strings and the octets of ASCII characters;
- `Octet.isAlpha`, `Octet.isDigit`, `Octet.isAlphanum`, `Octet.isBlank`: the
  classes of the grammar, which know ASCII only;
- `Octets.lower`, `Octets.eqIgnoreCase`: comparison without regard to ASCII case.
-/

namespace SenderPolicy

/-- A finite sequence of octets. -/
abbrev Octets := List UInt8

namespace Octet

/-- An ASCII capital letter. -/
def isUpper (b : UInt8) : Bool := 0x41 ≤ b && b ≤ 0x5A

/-- An ASCII small letter. -/
def isLower (b : UInt8) : Bool := 0x61 ≤ b && b ≤ 0x7A

/-- An ASCII letter. -/
def isAlpha (b : UInt8) : Bool := isUpper b || isLower b

/-- An ASCII digit. -/
def isDigit (b : UInt8) : Bool := 0x30 ≤ b && b ≤ 0x39

/-- An ASCII letter or digit. -/
def isAlphanum (b : UInt8) : Bool := isAlpha b || isDigit b

/-- Space, tab, line feed, form feed or carriage return. -/
def isBlank (b : UInt8) : Bool :=
  b = 0x20 || b = 0x09 || b = 0x0A || b = 0x0C || b = 0x0D

/-- The small form of an ASCII capital; every other octet is kept. -/
def lower (b : UInt8) : UInt8 := if isUpper b then b + 0x20 else b

/-- The value of an ASCII digit. -/
def digitValue (b : UInt8) : Nat := b.toNat - 0x30

/-- The lower-case hexadecimal digit of a number below sixteen. -/
def ofNibble (n : Nat) : UInt8 :=
  if n < 10 then UInt8.ofNat (0x30 + n) else UInt8.ofNat (0x57 + n)

/-- The octet written as two lower-case hexadecimal digits. -/
def hex (b : UInt8) : List UInt8 := [ofNibble (b.toNat / 16), ofNibble (b.toNat % 16)]

theorem isAlpha_lower (b : UInt8) : isAlpha (lower b) = isAlpha b := by
  rw [Bool.eq_iff_iff]
  simp only [isAlpha, isUpper, isLower, lower, Bool.or_eq_true, Bool.and_eq_true, decide_eq_true_eq]
  grind

theorem lower_of_isAlpha_eq_false {b : UInt8} (h : isAlpha b = false) : lower b = b := by
  rw [isAlpha, Bool.or_eq_false_iff] at h
  simp [lower, h.1]

theorem isAlphanum_lower (b : UInt8) : isAlphanum (lower b) = isAlphanum b := by
  cases hb : isAlpha b with
  | false => rw [lower_of_isAlpha_eq_false hb]
  | true => simp [isAlphanum, isAlpha_lower, hb]

/-- What is the same of all letters does not tell cases apart. -/
theorem eq_lower {β : Type} {f : UInt8 → β} {v : β}
    (h : ∀ b, isAlpha b = true → f b = v) (b : UInt8) : f (lower b) = f b := by
  cases hb : isAlpha b with
  | false => rw [lower_of_isAlpha_eq_false hb]
  | true => rw [h b hb, h _ (by rw [isAlpha_lower, hb])]

/-- An octet that is no letter is the small form of itself only. -/
theorem decide_lower_eq {mark : UInt8} (h : isAlpha mark = false) :
    ∀ b, decide (lower b = mark) = decide (b = mark) := by
  apply eq_lower (f := fun b => decide (b = mark))
  intro b hb
  apply decide_eq_false
  rintro rfl
  rw [hb] at h
  cases h

end Octet

namespace Octets

/-- The octets of characters that are all ASCII. -/
def ofAscii (cs : List Char) : Octets := cs.map Char.toUInt8

/-- The octet string with its ASCII capitals made small. -/
def lower (s : Octets) : Octets := s.map Octet.lower

/-- Equality up to ASCII case. -/
def eqIgnoreCase (s t : Octets) : Bool := s.lower == t.lower

/-- The number that decimal digits spell. -/
def decimalValue (digits : Octets) : Nat :=
  digits.foldl (fun n d => 10 * n + Octet.digitValue d) 0

end Octets

end SenderPolicy
