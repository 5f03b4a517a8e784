import Mathlib.Data.List.Basic
import Mathlib.Data.List.Induction
import SenderPolicy.Policy.Parser

/-!
# The lengths of networks

The length of a network is written in decimal after one slash or two, and stands for the mask
of that many leading bits. A length that is not written is that of a single address.

Main definitions:

- `Octets.decimal`, `Octets.IsNumeral`: the decimal digits of a number, and the digits that
  are those of a number;
- `LeadingBits`: the masks of the first bits of a word, bit by bit;
- `Cidr.LengthText`: a length as it is written.

Main results:

- `Octets.decimal_decimalValue`: digits without a leading zero are those of their number;
- `leadingBits_iff`: a mask is known by how many bits lead;
- `Cidr.parseLength?_eq_some_iff`, `Cidr.parseDual?_eq_some_iff`: the lengths that are read.
-/

namespace SenderPolicy

/-! ## Decimal digits -/

namespace Octets

/-- The decimal digits of a number, without leading zeros. -/
def decimal (n : Nat) : Octets := .ofAscii (Nat.toDigits 10 n)

/-- Digits, the first of which is not zero unless it is the only one. -/
structure IsNumeral (digits : Octets) : Prop where
  nonempty : digits ≠ []
  digit : ∀ b ∈ digits, Octet.isDigit b = true
  leading : digits.head? = some '0'.toUInt8 → digits.length = 1

theorem decimal_digit : ∀ {d : Nat}, d < 10 → decimal d = [UInt8.ofNat (0x30 + d)] := by decide

/-- The last digit of a number is written last. -/
theorem decimal_append {n d : Nat} (hn : 0 < n) (hd : d < 10) :
    decimal (10 * n + d) = decimal n ++ decimal d := by
  rw [decimal, ← Nat.toDigits_append_toDigits (by decide) hn hd, ofAscii, List.map_append]
  rfl

/-- A number is a digit, or a digit after another number. -/
theorem decimal_induction {P : Nat → Prop} (digit : ∀ d < 10, P d)
    (append : ∀ n d, 0 < n → d < 10 → P n → P (10 * n + d)) (n : Nat) : P n := by
  induction n using Nat.strongRecOn with
  | ind n ih =>
    by_cases hn : n < 10
    · exact digit n hn
    · have hstep := append (n / 10) (n % 10) (by omega) (by omega) (ih (n / 10) (by omega))
      rwa [show 10 * (n / 10) + n % 10 = n by omega] at hstep

/-- One more digit multiplies the value by ten. -/
theorem decimalValue_append (digits : Octets) (b : UInt8) :
    decimalValue (digits ++ [b]) = 10 * digits.decimalValue + Octet.digitValue b := by
  rw [decimalValue, List.foldl_append]
  rfl

/-- The octet of a digit has its value. -/
theorem digitValue_digit :
    ∀ {d : Nat}, d < 10 → Octet.isDigit (UInt8.ofNat (0x30 + d)) = true ∧
      Octet.digitValue (UInt8.ofNat (0x30 + d)) = d := by
  decide

/-- An octet that is a digit is that of its value. -/
theorem eq_digit_of_isDigit {b : UInt8} (h : Octet.isDigit b = true) :
    Octet.digitValue b < 10 ∧ b = UInt8.ofNat (0x30 + Octet.digitValue b) := by
  simp only [Octet.isDigit, Bool.and_eq_true, decide_eq_true_eq, UInt8.le_iff_toNat_le] at h
  have hbounds : (0x30 : UInt8).toNat = 48 ∧ (0x39 : UInt8).toNat = 57 := ⟨rfl, rfl⟩
  have hvalue : 0x30 + Octet.digitValue b = b.toNat := by
    unfold Octet.digitValue
    omega
  refine ⟨by omega, ?_⟩
  rw [hvalue, UInt8.ofNat_toNat]

/-- A number is read as it is written. -/
theorem decimalValue_decimal (n : Nat) : (decimal n).decimalValue = n := by
  induction n using decimal_induction with
  | digit d hd =>
    rw [decimal_digit hd, ← List.nil_append [_], decimalValue_append, (digitValue_digit hd).2]
    simp [decimalValue]
  | append n d hn hd ih =>
    rw [decimal_append hn hd, decimal_digit hd, decimalValue_append, ih, (digitValue_digit hd).2]

/-- The digits of a number are a numeral, and only those of zero start with a zero. -/
theorem isNumeral_decimal (n : Nat) :
    (decimal n).IsNumeral ∧ (0 < n → (decimal n).head? ≠ some '0'.toUInt8) := by
  induction n using decimal_induction with
  | digit d hd =>
    rw [decimal_digit hd]
    refine ⟨⟨by simp, ?_, fun _ => rfl⟩, fun hpos hzero => ?_⟩
    · intro b hb
      rw [List.mem_singleton.1 hb]
      exact (digitValue_digit hd).1
    · have hvalue := (digitValue_digit hd).2
      rw [Option.some.inj hzero] at hvalue
      exact absurd hvalue (Nat.ne_of_lt hpos)
  | append n d hn hd ih =>
    obtain ⟨hnumeral, hhead⟩ := ih
    have hfirst : (decimal n ++ decimal d).head? = (decimal n).head? :=
      List.head?_append_of_ne_nil _ hnumeral.nonempty
    rw [decimal_append hn hd, hfirst]
    refine ⟨⟨by simp [hnumeral.nonempty], ?_, ?_⟩, fun _ => hhead hn⟩
    · intro b hb
      rcases List.mem_append.1 hb with hb | hb
      · exact hnumeral.digit b hb
      · rw [decimal_digit hd, List.mem_singleton] at hb
        exact hb ▸ (digitValue_digit hd).1
    · rw [hfirst]
      exact fun hzero => absurd hzero (hhead hn)

/-- A numeral consists of the digits of its number. -/
theorem decimal_decimalValue {digits : Octets} (h : digits.IsNumeral) :
    decimal digits.decimalValue = digits := by
  induction digits using List.reverseRecOn with
  | nil => exact absurd rfl h.nonempty
  | append_singleton digits b ih =>
    obtain ⟨hlt, hb⟩ := eq_digit_of_isDigit (h.digit b (by simp))
    rw [decimalValue_append]
    cases digits with
    | nil =>
      rw [show decimalValue [] = 0 from rfl, Nat.mul_zero, Nat.zero_add, decimal_digit hlt, ← hb]
      rfl
    | cons c digits =>
      have hleading : c ≠ '0'.toUInt8 := by
        rintro rfl
        have hlength := h.leading rfl
        simp at hlength
      have hfront : decimal (decimalValue (c :: digits)) = c :: digits :=
        ih ⟨by simp, fun d hd => h.digit d (List.mem_append_left [b] hd),
          fun hzero => absurd (Option.some.inj hzero) hleading⟩
      have hpos : 0 < decimalValue (c :: digits) := by
        refine Nat.pos_of_ne_zero fun hzero => hleading ?_
        rw [hzero] at hfront
        exact (List.head_eq_of_cons_eq hfront).symm
      rw [decimal_append hpos hlt, hfront, decimal_digit hlt, ← hb]

/-- A number below a thousand has at most three digits. -/
theorem length_decimal_le_iff {n : Nat} : (decimal n).length ≤ 3 ↔ n < 1000 := by
  rw [decimal, ofAscii, List.length_map]
  exact Nat.length_toDigits_le_iff (by decide) (by decide)

end Octets

/-! ## Masks -/

/-- The mask whose first `n` bits are set, and no others. -/
def LeadingBits {w : Nat} (n : Nat) (mask : BitVec w) : Prop :=
  ∀ i < w, mask.getMsbD i = decide (i < n)

/-- The mask of leading bits has as many of them. -/
theorem leadingBits_leadingMask {w n : Nat} (h : n ≤ w) : LeadingBits n (leadingMask w n) := by
  intro i hi
  rw [leadingMask, BitVec.getMsbD_shiftLeft, BitVec.getMsbD_allOnes]
  congr 1
  rw [eq_iff_iff]
  omega

/-- A mask of leading bits is known by how many lead. -/
theorem leadingBits_iff {w n : Nat} (h : n ≤ w) {mask : BitVec w} :
    LeadingBits n mask ↔ mask = leadingMask w n := by
  constructor
  · intro hmask
    refine BitVec.eq_of_getMsbD_eq fun i hi => ?_
    rw [hmask i hi, leadingBits_leadingMask h i hi]
  · rintro rfl
    exact leadingBits_leadingMask h

/-! ## Lengths -/

namespace Cidr

/-- A length of at most `w` bits as it is written after `mark`. A length that is not written is
that of a single address. -/
inductive LengthText (w : Nat) (mark : Octets) : Nat → Octets → Prop where
  | omitted : LengthText w mark w []
  | given {n : Nat} (h : n ≤ w) : LengthText w mark n (mark ++ Octets.decimal n)

/-- A length that is written is not too great. -/
theorem LengthText.le {w n : Nat} {mark text : Octets} (h : LengthText w mark n text) : n ≤ w := by
  cases h with
  | omitted => exact Nat.le_refl w
  | given h => exact h

/-- A length that is written has at least a mark. -/
theorem LengthText.eq_of_nil {w n : Nat} {b : UInt8} {mark : Octets}
    (h : LengthText w (b :: mark) n []) : n = w := by
  generalize htext : ([] : Octets) = text at h
  cases h with
  | omitted => rfl
  | given => cases htext

/-- The lengths that are read are the decimal numbers up to the limit. -/
theorem parseLength?_eq_some_iff {limit : Nat} (hlimit : limit < 1000) {digits : Octets} {n : Nat} :
    parseLength? limit digits = some n ↔ n ≤ limit ∧ digits = Octets.decimal n := by
  unfold parseLength?
  split
  next hbad =>
    refine iff_of_false (by simp) ?_
    rintro ⟨hle, rfl⟩
    have hnumeral := (Octets.isNumeral_decimal n).1
    have hlength := Octets.length_decimal_le_iff.2 (Nat.lt_of_le_of_lt hle hlimit)
    have hdigits : (Octets.decimal n).all Octet.isDigit = true :=
      List.all_eq_true.2 hnumeral.digit
    simp only [Bool.or_eq_true, Bool.and_eq_true, decide_eq_true_eq, List.isEmpty_iff, hdigits,
      Bool.not_true, Octets.decimalValue_decimal] at hbad
    rcases hbad with (((hnil | hlong) | ⟨htwo, hzero⟩) | hdigit) | hbig
    · exact hnumeral.nonempty hnil
    · omega
    · have hone := hnumeral.leading hzero
      omega
    · cases hdigit
    · omega
  next hgood =>
    simp only [Bool.or_eq_true, Bool.and_eq_true, decide_eq_true_eq, List.isEmpty_iff, not_or,
      not_and, Bool.not_eq_true', Bool.not_eq_false, List.all_eq_true, Nat.not_lt] at hgood
    obtain ⟨⟨⟨⟨hnil, -⟩, hzero⟩, hdigit⟩, hle⟩ := hgood
    have hnumeral : Octets.IsNumeral digits := by
      refine ⟨hnil, hdigit, fun hhead => ?_⟩
      have hpos : 0 < digits.length := List.length_pos_iff.2 hnil
      by_contra hlength
      exact hzero (by omega) hhead
    rw [Option.some.injEq]
    constructor
    · rintro rfl
      exact ⟨hle, (Octets.decimal_decimalValue hnumeral).symm⟩
    · rintro ⟨-, rfl⟩
      exact Octets.decimalValue_decimal n

/-- There is no slash among digits. -/
theorem slash_notMem_decimal (n : Nat) : '/'.toUInt8 ∉ Octets.decimal n := by
  intro hmem
  exact absurd ((Octets.isNumeral_decimal n).1.digit _ hmem) (by decide)

/-- There is no brace in the text of a length. -/
theorem LengthText.brace_notMem {w n : Nat} {mark text : Octets} (h : LengthText w mark n text)
    (hmark : ∀ b ∈ mark, b = '/'.toUInt8) : '}'.toUInt8 ∉ text := by
  intro hmem
  cases h with
  | omitted => cases hmem
  | given h =>
    rcases List.mem_append.1 hmem with hmem | hmem
    · exact absurd (hmark _ hmem) (by decide)
    · exact absurd ((Octets.isNumeral_decimal n).1.digit _ hmem) (by decide)

/-- Two slashes are found after octets among which there is no slash. -/
theorem splitDoubleSlash?_append {before : Octets} (h : '/'.toUInt8 ∉ before) (after : Octets) :
    splitDoubleSlash? (before ++ '/'.toUInt8 :: '/'.toUInt8 :: after) = some (before, after) := by
  induction before with
  | nil => rfl
  | cons b before ih =>
    have hb : b ≠ '/'.toUInt8 := fun heq => h (heq ▸ List.mem_cons_self)
    rw [List.cons_append, splitDoubleSlash?, if_neg (by simp [hb]),
      ih fun hmem => h (List.mem_cons_of_mem b hmem)]
    rfl

/-- Where there is no slash there are no two slashes. -/
theorem splitDoubleSlash?_eq_none {octets : Octets} (h : '/'.toUInt8 ∉ octets) :
    splitDoubleSlash? octets = none := by
  induction octets with
  | nil => rfl
  | cons b octets ih =>
    have hb : b ≠ '/'.toUInt8 := fun heq => h (heq ▸ List.mem_cons_self)
    rw [splitDoubleSlash?, if_neg (by simp [hb]), ih fun hmem => h (List.mem_cons_of_mem b hmem)]
    rfl

/-- What stands before and after two slashes makes up the whole with them. -/
theorem eq_of_splitDoubleSlash? {octets before after : Octets}
    (h : splitDoubleSlash? octets = some (before, after)) :
    octets = before ++ '/'.toUInt8 :: '/'.toUInt8 :: after := by
  induction octets generalizing before with
  | nil => cases h
  | cons b octets ih =>
    unfold splitDoubleSlash? at h
    split at h
    next hslashes =>
      simp only [Bool.and_eq_true, decide_eq_true_eq] at hslashes
      obtain ⟨rfl, hhead⟩ := hslashes
      cases h
      cases octets with
      | nil => cases hhead
      | cons c octets =>
        cases hhead
        rfl
    next =>
      simp only [Option.map_eq_some_iff, Prod.mk.injEq, Prod.exists] at h
      obtain ⟨front, back, hsplit, rfl, rfl⟩ := h
      rw [ih hsplit]
      rfl

/-- Lengths that are read are written after one slash and after two. -/
theorem exists_texts_of_parseDual? {octets : Octets} {n4 n6 : Nat}
    (h : parseDual? octets = some (n4, n6)) : ∃ four six, '/'.toUInt8 :: octets = four ++ six ∧
      LengthText 32 ['/'.toUInt8] n4 four ∧ LengthText 128 ['/'.toUInt8, '/'.toUInt8] n6 six := by
  unfold parseDual? at h
  split at h
  next hhead =>
    cases octets with
    | nil => cases hhead
    | cons b octets =>
      cases hhead
      simp only [List.tail_cons, Option.map_eq_some_iff, Prod.mk.injEq] at h
      obtain ⟨n, hn, rfl, rfl⟩ := h
      obtain ⟨hle, rfl⟩ := (parseLength?_eq_some_iff (by decide)).1 hn
      exact ⟨[], _, rfl, .omitted, .given hle⟩
  next =>
    split at h
    next four six hsplit =>
      simp only [Option.bind_eq_bind, Option.bind_eq_some_iff, Option.pure_def,
        Option.some.injEq, Prod.mk.injEq] at h
      obtain ⟨n, hn, m, hm, rfl, rfl⟩ := h
      obtain ⟨hle4, rfl⟩ := (parseLength?_eq_some_iff (by decide)).1 hn
      obtain ⟨hle6, rfl⟩ := (parseLength?_eq_some_iff (by decide)).1 hm
      refine ⟨_, _, ?_, .given hle4, .given hle6⟩
      rw [eq_of_splitDoubleSlash? hsplit]
      rfl
    next =>
      simp only [Option.map_eq_some_iff, Prod.mk.injEq] at h
      obtain ⟨n, hn, rfl, rfl⟩ := h
      obtain ⟨hle, rfl⟩ := (parseLength?_eq_some_iff (by decide)).1 hn
      exact ⟨_, [], (List.append_nil _).symm, .given hle, .omitted⟩

/-- A length for the one family, and one for the other or none, are both read. -/
theorem parseDual?_decimal_append {n4 n6 : Nat} {six : Octets} (hle : n4 ≤ 32)
    (hsix : LengthText 128 ['/'.toUInt8, '/'.toUInt8] n6 six) :
    parseDual? (Octets.decimal n4 ++ six) = some (n4, n6) := by
  have hread4 := (parseLength?_eq_some_iff (by decide)).2 ⟨hle, rfl⟩
  have hslash := slash_notMem_decimal n4
  have hhead : (Octets.decimal n4 ++ six).head? ≠ some '/'.toUInt8 := by
    intro hhead
    rw [List.head?_append_of_ne_nil _ (Octets.isNumeral_decimal n4).1.nonempty] at hhead
    exact hslash (List.mem_of_mem_head? hhead)
  rw [parseDual?, if_neg hhead]
  cases hsix with
  | omitted =>
    rw [List.append_nil, splitDoubleSlash?_eq_none hslash]
    simp [hread4]
  | given hle6 =>
    have hread6 := (parseLength?_eq_some_iff (by decide)).2 ⟨hle6, rfl⟩
    have hsplit := splitDoubleSlash?_append hslash (Octets.decimal n6)
    simp [hsplit, hread4, hread6]

/-- What stands after the first slash is read if with that slash it is a length for the one
family, after one slash, and then a length for the other, after two. -/
theorem parseDual?_eq_some_iff {octets : Octets} {n4 n6 : Nat} :
    parseDual? octets = some (n4, n6) ↔ ∃ four six,
      '/'.toUInt8 :: octets = four ++ six ∧
        LengthText 32 ['/'.toUInt8] n4 four ∧ LengthText 128 ['/'.toUInt8, '/'.toUInt8] n6 six := by
  refine ⟨exists_texts_of_parseDual?, ?_⟩
  rintro ⟨four, six, heq, hfour, hsix⟩
  cases hfour with
  | omitted =>
    cases hsix with
    | omitted => cases heq
    | given hle =>
      obtain rfl : octets = '/'.toUInt8 :: Octets.decimal n6 := List.tail_eq_of_cons_eq heq
      have hread := (parseLength?_eq_some_iff (by decide)).2 ⟨hle, rfl⟩
      rw [parseDual?, if_pos (List.head?_cons), List.tail_cons, hread]
      rfl
  | given hle =>
    obtain rfl : octets = Octets.decimal n4 ++ six := List.tail_eq_of_cons_eq heq
    exact parseDual?_decimal_append hle hsix

end Cidr

end SenderPolicy
