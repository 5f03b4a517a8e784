import Mathlib.Data.List.Forall2
import SenderPolicy.MacroString.Expansion

/-!
# Percent encoding

A property that is inserted with escapes keeps its letters, digits and four marks. Every other octet
becomes a percent sign and two hexadecimal digits, the percent sign itself as well. So what is
written is of few octets, and can be read back.

Main definitions:

- `IsUnreserved`, `lowerHexDigits`: the octets that are kept, and the digits of the others;
- `PercentEncodes`: octets, and how they are written;
- `PercentEncoded`: what may be written;
- `percentDecode?`: reading it back.

Main results:

- `percentEncodes_percentEscape`: octets are written in percent encoding;
- `percentEncodes_intercalate`: parts may be written one by one;
- `PercentEncodes.encoded`, `PercentEncodes.decode`: what is written is in percent encoding, and is
  read back.
-/

namespace SenderPolicy

/-! ## Writing -/

/-- The octets that are kept: ASCII letters and digits, and four marks. -/
def IsUnreserved (b : UInt8) : Prop :=
  Octet.isAlphanum b = true ∨ b ∈ Octets.ofAscii ['-', '.', '_', '~']

/-- The hexadecimal digits, with small letters. -/
def lowerHexDigits : Octets :=
  .ofAscii ['0', '1', '2', '3', '4', '5', '6', '7', '8', '9', 'a', 'b', 'c', 'd', 'e', 'f']

/-- Octets, and how they are written: the unreserved ones as they are, and each of the others as a
percent sign and its two digits. -/
inductive PercentEncodes : Octets → Octets → Prop where
  | nil : PercentEncodes [] []
  | kept {b : UInt8} {s t : Octets} (hb : IsUnreserved b) (hrest : PercentEncodes s t) :
      PercentEncodes (b :: s) (b :: t)
  | escaped {b high low : UInt8} {s t : Octets} (hb : ¬ IsUnreserved b)
      (hhigh : lowerHexDigits[b.toNat / 16]? = some high)
      (hlow : lowerHexDigits[b.toNat % 16]? = some low) (hrest : PercentEncodes s t) :
      PercentEncodes (b :: s) ('%'.toUInt8 :: high :: low :: t)

/-- What may be written: unreserved octets, and percent signs with two digits after each. -/
inductive PercentEncoded : Octets → Prop where
  | nil : PercentEncoded []
  | kept {b : UInt8} {t : Octets} (hb : IsUnreserved b) (hrest : PercentEncoded t) :
      PercentEncoded (b :: t)
  | escaped {high low : UInt8} {t : Octets} (hhigh : high ∈ lowerHexDigits)
      (hlow : low ∈ lowerHexDigits) (hrest : PercentEncoded t) :
      PercentEncoded ('%'.toUInt8 :: high :: low :: t)

/-- The test for octets that need no escape is that of their ranges. -/
theorem isUnreserved_iff {b : UInt8} : isUnreserved b = true ↔ IsUnreserved b := by
  simp [isUnreserved, IsUnreserved, Octets.ofAscii, or_assoc]

/-- Numbers below sixteen are written with these digits. -/
theorem getElem?_lowerHexDigits :
    ∀ {n : Nat}, n < 16 → lowerHexDigits[n]? = some (Octet.ofNibble n) := by
  decide

/-- Octets are written in percent encoding. -/
theorem percentEncodes_percentEscape (s : Octets) : PercentEncodes s (percentEscape s) := by
  induction s with
  | nil => exact .nil
  | cons b s ih =>
    have hlt := b.toNat_lt
    unfold percentEscape
    rw [List.flatMap_cons]
    split
    next hb => exact .kept (isUnreserved_iff.1 hb) ih
    next hb =>
      exact .escaped (fun h => hb (isUnreserved_iff.2 h)) (getElem?_lowerHexDigits (by omega))
        (getElem?_lowerHexDigits (by omega)) ih

/-- What is escaped one after the other is escaped in all. -/
theorem PercentEncodes.append {s s' t t' : Octets} (h : PercentEncodes s t)
    (h' : PercentEncodes s' t') : PercentEncodes (s ++ s') (t ++ t') := by
  induction h with
  | nil => exact h'
  | kept hb _ ih => exact .kept hb ih
  | escaped hb hhigh hlow _ ih => exact .escaped hb hhigh hlow ih

/-- Parts that are written one by one, with dots between them, are written as a whole. -/
theorem percentEncodes_intercalate {parts written : List Octets}
    (h : List.Forall₂ PercentEncodes parts written) :
    PercentEncodes (['.'.toUInt8].intercalate parts) (['.'.toUInt8].intercalate written) := by
  have hdot : IsUnreserved '.'.toUInt8 := isUnreserved_iff.1 (by decide)
  induction h with
  | nil => exact .nil
  | cons hpart hrest ih =>
    cases hrest with
    | nil => simpa using hpart
    | cons hnext hrest =>
      rw [List.intercalate_cons_cons, List.intercalate_cons_cons]
      exact (hpart.append (.kept hdot .nil)).append ih

/-- What is written for octets is percent-encoded. -/
theorem PercentEncodes.encoded {s t : Octets} (h : PercentEncodes s t) : PercentEncoded t := by
  induction h with
  | nil => exact .nil
  | kept hb _ ih => exact .kept hb ih
  | escaped _ hhigh hlow _ ih =>
    exact .escaped (List.mem_of_getElem? hhigh) (List.mem_of_getElem? hlow) ih

/-! ## Reading -/

/-- The value of a hexadecimal digit in either case. -/
def Octet.hexValue? (b : UInt8) : Option Nat :=
  if isDigit b then some (b.toNat - 0x30)
  else if 0x61 ≤ lower b && lower b ≤ 0x66 then some ((lower b).toNat - 0x57)
  else none

/-- The octets that are meant. A percent sign without two digits after it means nothing. -/
def percentDecode? : Octets → Option Octets
  | [] => some []
  | b :: rest =>
    if b = '%'.toUInt8 then
      match rest with
      | high :: low :: rest => do
        let first ← Octet.hexValue? high
        let second ← Octet.hexValue? low
        return UInt8.ofNat (16 * first + second) :: (← percentDecode? rest)
      | _ => none
    else do return b :: (← percentDecode? rest)

/-- A digit has the value of its place. -/
theorem hexValue?_of_getElem? {n : Nat} {b : UInt8} (h : lowerHexDigits[n]? = some b) :
    Octet.hexValue? b = some n := by
  have hvalues : ∀ n < 16, lowerHexDigits[n]?.bind Octet.hexValue? = some n := by decide
  have hlt : n < 16 := (List.getElem?_eq_some_iff.1 h).1
  have hvalue := hvalues n hlt
  rwa [h] at hvalue

/-- A percent sign is reserved. -/
theorem not_isUnreserved_percent : ¬ IsUnreserved '%'.toUInt8 := by
  rw [← isUnreserved_iff]
  decide

/-- An octet that needs no escape is read as itself. -/
theorem percentDecode?_cons {b : UInt8} (hb : IsUnreserved b) (rest : Octets) :
    percentDecode? (b :: rest) = (percentDecode? rest).map (b :: ·) := by
  have hpercent : b ≠ '%'.toUInt8 := by
    rintro rfl
    exact not_isUnreserved_percent hb
  rw [percentDecode?.eq_def]
  simp only [hpercent, if_false]
  cases percentDecode? rest <;> rfl

/-- An escape is read as the octet that it was written for. -/
theorem percentDecode?_escape {b high low : UInt8}
    (hhigh : lowerHexDigits[b.toNat / 16]? = some high)
    (hlow : lowerHexDigits[b.toNat % 16]? = some low) (rest : Octets) :
    percentDecode? ('%'.toUInt8 :: high :: low :: rest) = (percentDecode? rest).map (b :: ·) := by
  have hoctet : UInt8.ofNat (16 * (b.toNat / 16) + b.toNat % 16) = b := by
    rw [Nat.div_add_mod, UInt8.ofNat_toNat]
  rw [percentDecode?, if_pos rfl]
  simp only [hexValue?_of_getElem? hhigh, hexValue?_of_getElem? hlow, Option.bind_eq_bind,
    Option.bind_some, hoctet]
  cases percentDecode? rest <;> rfl

/-- What is written is read back. -/
theorem PercentEncodes.decode {s t : Octets} (h : PercentEncodes s t) :
    percentDecode? t = some s := by
  induction h with
  | nil => rfl
  | kept hb _ ih => rw [percentDecode?_cons hb, ih, Option.map_some]
  | escaped _ hhigh hlow _ ih => rw [percentDecode?_escape hhigh hlow, ih, Option.map_some]

end SenderPolicy
