import SenderPolicy.Proofs.Insertions
import SenderPolicy.Proofs.LabelSuffix
import SenderPolicy.Proofs.NameCut
import SenderPolicy.Proofs.NetworkLengths
import SenderPolicy.Proofs.Utf8Reading

/-!
# Addresses in names

A macro string can insert the address of the client as labels with dots between them: its four
octets in decimal, or its thirty-two nibbles in hexadecimal. In reverse these are the first labels
of the name by which the address is looked up. The labels are described here from the number of the
address, one digit after the other; they are written from its bits.

Main definitions:

- `digitsFromLast`: the digits of a number, the last first;
- `joinLabels`: labels with dots between them;
- `Address.reverseLabels`, `Address.reverseName`: the labels of an address in reverse, and the name
  that starts with them;
- `Expands`: what a macro string expands to, as it is written.

Main results:

- `wordDigits_eq`, `Address.dottedDigits_eq`: the digits of words and the labels of addresses are
  those of their numbers;
- `Address.reverseLabels_injective`: an address is known by its labels;
- `Expansion.apply_dottedDigits`: what is inserted for an address;
- `expand_reverseMacro`, `toName_reverseMacro`: the name of an address in reverse can be expanded
  to;
- `Address.expands_name`: what the macro strings for an address expand to.
-/

namespace SenderPolicy

/-! ## Digits of words -/

/-- As many digits of a number as are counted, the last digit first. -/
def digitsFromLast (base : Nat) : Nat → Nat → List Nat
  | 0, _ => []
  | count + 1, n => n % base :: digitsFromLast base count (n / base)

/-- A number has as many digits as it is written with. -/
theorem length_digitsFromLast (base count n : Nat) :
    (digitsFromLast base count n).length = count := by
  induction count generalizing n with
  | zero => rfl
  | succ count ih => rw [digitsFromLast, List.length_cons, ih]

/-- Every digit is less than the base. -/
theorem lt_of_mem_digitsFromLast {base count n d : Nat} (hbase : 0 < base)
    (hd : d ∈ digitsFromLast base count n) : d < base := by
  induction count generalizing n with
  | zero => cases hd
  | succ count ih =>
    rcases List.mem_cons.1 hd with rfl | hd
    · exact Nat.mod_lt n hbase
    · exact ih hd

/-- A number is known by what is written for its digits, if every digit is. -/
theorem eq_of_map_digitsFromLast {base count m n : Nat} {write : Nat → Octets}
    (hwrite : ∀ d < base, ∀ d' < base, write d = write d' → d = d') (hm : m < base ^ count)
    (hn : n < base ^ count)
    (h : (digitsFromLast base count m).map write = (digitsFromLast base count n).map write) :
    m = n := by
  induction count generalizing m n with
  | zero =>
    rw [Nat.pow_zero] at hm hn
    omega
  | succ count ih =>
    rw [Nat.pow_succ, Nat.mul_comm] at hm hn
    have hbase : 0 < base := Nat.pos_of_mul_pos_right (Nat.lt_of_le_of_lt (Nat.zero_le m) hm)
    obtain ⟨hfirst, hrest⟩ := List.cons.inj h
    have hlast := hwrite _ (Nat.mod_lt m hbase) _ (Nat.mod_lt n hbase) hfirst
    have hquotient := ih (Nat.div_lt_of_lt_mul hm) (Nat.div_lt_of_lt_mul hn) hrest
    rw [← Nat.div_add_mod m base, ← Nat.div_add_mod n base, hlast, hquotient]

/-- Each digit is cut from the number by its place. -/
theorem digitsFromLast_eq_map (base count n : Nat) :
    digitsFromLast base count n = (List.range count).map fun i => n / base ^ i % base := by
  induction count generalizing n with
  | zero => rfl
  | succ count ih =>
    rw [digitsFromLast, ih, List.range_succ_eq_map, List.map_cons, List.map_map, Nat.pow_zero,
      Nat.div_one]
    refine congrArg (_ :: ·) (List.map_congr_left fun i _ => ?_)
    rw [Function.comp_apply, Nat.pow_succ, Nat.mul_comm, Nat.div_div_eq_div_mul]

/-- The digits of a word are those of its number. -/
theorem wordDigits_eq {w : Nat} (width count : Nat) (word : BitVec w) :
    wordDigits width count word = (digitsFromLast (2 ^ width) count word.toNat).reverse := by
  have hdigit : ∀ i, wordDigit width word i = word.toNat / (2 ^ width) ^ i % 2 ^ width := by
    intro i
    rw [wordDigit, BitVec.extractLsb'_toNat, Nat.shiftRight_eq_div_pow, Nat.pow_mul]
  rw [wordDigits, digitsFromLast_eq_map, ← List.map_reverse]
  exact List.map_congr_left fun i _ => hdigit i

/-! ## Labels of addresses -/

/-- Labels with dots between them. -/
def joinLabels (labels : List Octets) : Octets := ['.'.toUInt8].intercalate labels

/-- What labels without dots are joined to is cut into them at its dots. -/
theorem pieces_joinLabels {labels : List Octets} (h : ∀ label ∈ labels, '.'.toUInt8 ∉ label)
    (hne : labels ≠ []) : pieces (· = '.'.toUInt8) (joinLabels labels) = labels := by
  rw [← cutAt_iff]
  simp only [decide_eq_true_eq]
  exact cutAt_intercalate h hne

/-- What holds of a dot and of the octets of the labels holds of what these are joined to. -/
theorem forall_mem_joinLabels {P : UInt8 → Prop} {labels : List Octets} (hdot : P '.'.toUInt8)
    (h : ∀ label ∈ labels, ∀ b ∈ label, P b) : ∀ b ∈ joinLabels labels, P b := by
  unfold joinLabels
  induction labels with
  | nil => exact List.forall_mem_nil _
  | cons label labels ih =>
    obtain ⟨hlabel, hrest⟩ := List.forall_mem_cons.1 h
    cases labels with
    | nil => simpa using hlabel
    | cons next labels =>
      rw [List.intercalate_cons_cons]
      simp only [List.forall_mem_append, List.forall_mem_singleton]
      exact ⟨⟨hlabel, hdot⟩, ih hrest⟩

/-- Labels of at most so many octets are joined to at most so many and a dot for each. -/
theorem length_joinLabels_le {k : Nat} {labels : List Octets}
    (h : ∀ label ∈ labels, label.length ≤ k) :
    (joinLabels labels).length ≤ labels.length * (k + 1) := by
  unfold joinLabels
  induction labels with
  | nil => exact Nat.zero_le _
  | cons label labels ih =>
    obtain ⟨hlabel, hrest⟩ := List.forall_mem_cons.1 h
    cases labels with
    | nil =>
      rw [List.intercalate_singleton, List.length_singleton]
      omega
    | cons next labels =>
      have hle := ih hrest
      rw [List.intercalate_cons_cons, List.length_append, List.length_append,
        List.length_singleton, List.length_cons, Nat.succ_mul]
      omega

/-- The hexadecimal digits of a number, in small letters. -/
def Octets.hexadecimal (n : Nat) : Octets := .ofAscii (Nat.toDigits 16 n)

/-- Numbers below sixteen have a single digit. -/
theorem Octets.hexadecimal_digit {n : Nat} (h : n < 16) :
    ∃ b, lowerHexDigits[n]? = some b ∧ hexadecimal n = [b] := by
  have hdigits : ∀ n < 16, lowerHexDigits[n]?.map (fun b => [b]) = some (hexadecimal n) := by
    decide
  obtain ⟨b, hb, hdigit⟩ := Option.map_eq_some_iff.1 (hdigits n h)
  exact ⟨b, hb, hdigit.symm⟩

/-- Decimal digits are hexadecimal digits. -/
theorem Octets.mem_lowerHexDigits_of_decimal {n : Nat} {b : UInt8} (h : b ∈ decimal n) :
    b ∈ lowerHexDigits := by
  have hdigits : ∀ d < 10, UInt8.ofNat (0x30 + d) ∈ lowerHexDigits := by decide
  obtain ⟨hlt, heq⟩ := eq_digit_of_isDigit ((isNumeral_decimal n).1.digit b h)
  rw [heq]
  exact hdigits _ hlt

namespace Address

/-- The labels of an address in reverse: the four octets of an IPv4 address in decimal, or the
thirty-two nibbles of an IPv6 address in hexadecimal, the last first. -/
def reverseLabels : Address → List Octets
  | .v4 a => (digitsFromLast 256 4 a.bits.toNat).map Octets.decimal
  | .v6 a => (digitsFromLast 16 32 a.bits.toNat).map Octets.hexadecimal

/-- The name by which an address is looked up in reverse. -/
def reverseName (a : Address) : Octets :=
  match a with
  | .v4 _ => joinLabels (a.reverseLabels ++ [.ofAscii "in-addr".toList, .ofAscii "arpa".toList])
  | .v6 _ => joinLabels (a.reverseLabels ++ [.ofAscii "ip6".toList, .ofAscii "arpa".toList])

end Address

/-- Characters joined with dots are written as labels joined with dots. -/
theorem Utf8.encode_joinChars (parts : List (List Char)) :
    encode (joinChars '.' parts) = joinLabels (parts.map encode) := by
  unfold joinChars joinLabels
  induction parts with
  | nil => rfl
  | cons part parts ih =>
    cases parts with
    | nil => simp
    | cons next parts =>
      rw [List.map_cons, List.map_cons] at *
      rw [List.intercalate_cons_cons, List.intercalate_cons_cons, encode_append, encode_append, ih]
      rfl

namespace Address

/-- The value of an address is its reverse labels, the last first. -/
theorem dottedDigits_eq (a : Address) : a.dottedDigits = joinLabels a.reverseLabels.reverse := by
  have hdecimal : ∀ n < 256, Utf8.encode (Nat.toDigits 10 n) = Octets.decimal n := by
    decide +kernel
  have hhexadecimal : ∀ n < 16, Utf8.encode (Nat.toDigits 16 n) = Octets.hexadecimal n := by
    decide +kernel
  cases a with
  | v4 a =>
    rw [dottedDigits, IPv4.chars, Utf8.encode_joinChars, IPv4.octets, wordDigits_eq, reverseLabels,
      ← List.map_reverse, List.map_map]
    refine congrArg joinLabels (List.map_congr_left fun n hn => hdecimal n ?_)
    exact lt_of_mem_digitsFromLast (by decide) (List.mem_reverse.1 hn)
  | v6 a =>
    rw [dottedDigits, dotted, Utf8.encode_joinChars, IPv6.nibbles, wordDigits_eq, reverseLabels,
      ← List.map_reverse, List.map_map]
    refine congrArg joinLabels (List.map_congr_left fun n hn => hhexadecimal n ?_)
    exact lt_of_mem_digitsFromLast (by decide) (List.mem_reverse.1 hn)

/-- The labels of an IPv6 address are single digits. -/
theorem exists_digit {a : IPv6} {label : Octets} (h : label ∈ (Address.v6 a).reverseLabels) :
    ∃ b ∈ lowerHexDigits, label = [b] := by
  obtain ⟨n, hn, rfl⟩ := List.mem_map.1 h
  obtain ⟨b, hb, heq⟩ := Octets.hexadecimal_digit (lt_of_mem_digitsFromLast (by decide) hn)
  exact ⟨b, List.mem_of_getElem? hb, heq⟩

/-- The labels of an address are made of hexadecimal digits. -/
theorem mem_lowerHexDigits {a : Address} {label : Octets} (h : label ∈ a.reverseLabels) :
    ∀ b ∈ label, b ∈ lowerHexDigits := by
  cases a with
  | v4 a =>
    obtain ⟨n, -, rfl⟩ := List.mem_map.1 h
    exact fun b => Octets.mem_lowerHexDigits_of_decimal
  | v6 a =>
    obtain ⟨b, hb, rfl⟩ := exists_digit h
    exact List.forall_mem_singleton.2 hb

/-- There is a label for each octet of an IPv4 address and each nibble of an IPv6 address. -/
theorem length_reverseLabels (a : Address) :
    a.reverseLabels.length = match a with | .v4 _ => 4 | .v6 _ => 32 := by
  cases a <;> rw [reverseLabels, List.length_map, length_digitsFromLast]

theorem length_label_le {a : Address} {label : Octets} (h : label ∈ a.reverseLabels) :
    label.length ≤ 3 := by
  cases a with
  | v4 a =>
    obtain ⟨n, hn, rfl⟩ := List.mem_map.1 h
    have hlt := lt_of_mem_digitsFromLast (by decide) hn
    exact Octets.length_decimal_le_iff.2 (Nat.lt_trans hlt (by decide))
  | v6 a =>
    obtain ⟨b, -, rfl⟩ := exists_digit h
    exact Nat.le_of_lt (show 1 < 3 by decide)

/-- No label has a dot in it. -/
theorem not_dot_mem {a : Address} {label : Octets} (h : label ∈ a.reverseLabels) :
    '.'.toUInt8 ∉ label :=
  fun hdot => absurd (mem_lowerHexDigits h _ hdot) (by decide)

theorem reverseLabels_ne_nil (a : Address) : a.reverseLabels ≠ [] := by
  have hlength := a.length_reverseLabels
  intro hnil
  rw [hnil] at hlength
  cases a <;> cases hlength

/-- An address is known by its labels. -/
theorem reverseLabels_injective {a a' : Address} (h : a.reverseLabels = a'.reverseLabels) :
    a = a' := by
  have hdecimal : ∀ m < 256, ∀ n < 256, Octets.decimal m = Octets.decimal n → m = n := by
    intro m _ n _ heq
    rw [← Octets.decimalValue_decimal m, heq, Octets.decimalValue_decimal]
  have hhexadecimal : ∀ m < 16, ∀ n < 16, Octets.hexadecimal m = Octets.hexadecimal n → m = n := by
    intro m hm n hn heq
    obtain ⟨b, hb, hdigit⟩ := Octets.hexadecimal_digit hm
    obtain ⟨b', hb', hdigit'⟩ := Octets.hexadecimal_digit hn
    rw [hdigit, hdigit', List.singleton_inj] at heq
    have hvalue := hexValue?_of_getElem? hb
    rw [heq, hexValue?_of_getElem? hb'] at hvalue
    exact (Option.some.inj hvalue).symm
  have hlength := congrArg List.length h
  rw [length_reverseLabels, length_reverseLabels] at hlength
  cases a with
  | v4 a =>
    cases a' with
    | v6 a' => cases hlength
    | v4 a' =>
      have htoNat : a.bits.toNat = a'.bits.toNat :=
        eq_of_map_digitsFromLast hdecimal a.bits.isLt a'.bits.isLt h
      rw [IPv4.bits_inj.1 (BitVec.eq_of_toNat_eq htoNat)]
  | v6 a =>
    cases a' with
    | v4 a' => cases hlength
    | v6 a' =>
      have htoNat : a.bits.toNat = a'.bits.toNat :=
        eq_of_map_digitsFromLast hhexadecimal a.bits.isLt a'.bits.isLt h
      rw [IPv6.bits_inj.1 (BitVec.eq_of_toNat_eq htoNat)]

end Address

/-! ## Macro strings -/

/-- A property of labels is cut into them at its dots. -/
theorem Expansion.apply_joinLabels {e : Expansion} {labels : List Octets}
    (hdelimiters : e.delimiters = .dot) (hescape : e.escape = false)
    (hlabels : ∀ label ∈ labels, '.'.toUInt8 ∉ label) (hne : labels ≠ []) :
    e.apply (joinLabels labels) =
      joinLabels (keepLast e.parts.toNat (if e.reverse then labels.reverse else labels)) := by
  rw [apply_eq_transform, transform, hdelimiters, hescape, Delimiters.contains_dot,
    pieces_joinLabels hlabels hne]
  rfl

/-- What is inserted for an address: its last labels, from the first on or in reverse. -/
theorem Expansion.apply_dottedDigits {e : Expansion} (hdelimiters : e.delimiters = .dot)
    (hescape : e.escape = false) (a : Address) :
    e.apply a.dottedDigits =
      joinLabels (keepLast e.parts.toNat
        (if e.reverse then a.reverseLabels else a.reverseLabels.reverse)) := by
  have hlabels : ∀ label ∈ a.reverseLabels.reverse, '.'.toUInt8 ∉ label :=
    fun label hlabel => Address.not_dot_mem (List.mem_reverse.1 hlabel)
  have hne : a.reverseLabels.reverse ≠ [] :=
    fun h => a.reverseLabels_ne_nil (List.reverse_eq_nil_iff.1 h)
  rw [a.dottedDigits_eq, apply_joinLabels hdelimiters hescape hlabels hne, List.reverse_reverse]

/-- A macro string as it is written, and what it expands to. -/
def Expands (mode : MacroMode) (b : Bindings) (text out : Octets) : Prop :=
  ∃ m, MacroString.parse? mode text = some m ∧ m.expand b = out

/-- A text expands in one way only. -/
theorem Expands.unique {mode : MacroMode} {b : Bindings} {text out out' : Octets}
    (h : Expands mode b text out) (h' : Expands mode b text out') : out = out' := by
  obtain ⟨m, hm, rfl⟩ := h
  obtain ⟨m', hm', rfl⟩ := h'
  rw [Option.some.inj (hm.symm.trans hm')]

/-- A single expansion expands to what is inserted for its property. -/
theorem expands_expansion {mode : MacroMode} {w : WrittenExpansion} (hw : w.Allowed mode)
    (b : Bindings) :
    Expands mode b (MacroItem.expansion w).spell (w.meaning.apply (b.value w.letter)) := by
  have hallowed : ∀ i ∈ [MacroItem.expansion w], i.Allowed mode := List.forall_mem_singleton.2 hw
  have hread := MacroString.parseFrom_spell hallowed
  have hexpand : MacroString.expand b [.expansion w.meaning] = w.meaning.apply (b.value w.letter) :=
    List.append_nil _
  refine ⟨_, ?_, hexpand⟩
  simpa [MacroString.parse?, MacroItem.units, MacroString.ofUnits] using hread

/-- The macro strings for an address expand to its last labels, as many as are counted, from the
first on or in reverse. -/
theorem expands_ip (mode : MacroMode) (b : Bindings) {digits : Octets} (reversal : Option Bool)
    (hdigits : ∀ d ∈ digits, Octet.isDigit d = true)
    (hcount : digits ≠ [] → ∃ d ∈ digits, d ≠ '0'.toUInt8) :
    Expands mode b (MacroItem.expansion ⟨.ip, false, digits, reversal, []⟩).spell
      (joinLabels (keepLast (min digits.decimalValue (2 ^ 32 - 1))
        (if reversal.isSome then b.client.reverseLabels else b.client.reverseLabels.reverse))) := by
  let w : WrittenExpansion := ⟨.ip, false, digits, reversal, []⟩
  have hw : w.Allowed mode := ⟨(by cases ·), hdigits, hcount, List.forall_mem_nil _⟩
  have happly := Expansion.apply_dottedDigits (e := w.meaning) rfl rfl b.client
  rw [w.toNat_parts] at happly
  rw [← show w.meaning.reverse = reversal.isSome from rfl, ← happly]
  exact expands_expansion hw b

/-- The reverse name is the labels and the zone of the family. -/
theorem Address.reverseName_eq (a : Address) : a.reverseName =
    joinLabels a.reverseLabels ++
      '.'.toUInt8 :: (a.reverseZone ++ Octets.ofAscii ".arpa".toList) := by
  have hjoin : ∀ zone : Octets,
      joinLabels (a.reverseLabels ++ [zone, Octets.ofAscii "arpa".toList]) =
        joinLabels a.reverseLabels ++ '.'.toUInt8 :: (zone ++ Octets.ofAscii ".arpa".toList) := by
    intro zone
    unfold joinLabels
    rw [intercalate_append_parts _ a.reverseLabels_ne_nil (List.cons_ne_nil zone _),
      List.intercalate_cons_cons, List.intercalate_singleton, List.append_assoc]
    rfl
  cases a <;> exact hjoin _

/-- The macro string for the name of an address in reverse. -/
def reverseMacro : MacroString :=
  [.expansion ⟨.ip, 0, true, false, .dot⟩, .literal (.ofAscii ['.']),
    .expansion ⟨.ipVersion, 0, false, false, .dot⟩, .literal (.ofAscii ".arpa".toList)]

/-- In both modes the text of the reverse name is read as the macro string of that name. -/
theorem parse?_reverseMacro (mode : MacroMode) :
    MacroString.parse? mode (.ofAscii "%{ir}.%{v}.arpa".toList) = some reverseMacro := by
  cases mode <;> decide +kernel

/-- It expands to that name. -/
theorem expand_reverseMacro (b : Bindings) : reverseMacro.expand b = b.client.reverseName := by
  have hlabels : Expansion.apply ⟨.ip, 0, true, false, .dot⟩ (b.value .ip) =
      joinLabels b.client.reverseLabels :=
    Expansion.apply_dottedDigits rfl rfl b.client
  have hzone : Expansion.apply ⟨.ipVersion, 0, false, false, .dot⟩ (b.value .ipVersion) =
      b.client.reverseZone := by
    have hplain : Expansion.isPlain ⟨.ipVersion, 0, false, false, .dot⟩ = true := by decide
    unfold Expansion.apply
    rw [hplain, Bool.or_true, if_pos rfl]
    rfl
  rw [Address.reverseName_eq]
  simp only [reverseMacro, MacroString.expand, List.flatMap_cons, List.flatMap_nil, Segment.expand,
    hlabels, hzone, List.append_nil]
  rfl

/-- The name of the address 192.0.2.3 in reverse. -/
example {b : Bindings} (h : b.client = .v4 ⟨0xC0000203⟩) :
    reverseMacro.expand b = .ofAscii "3.2.0.192.in-addr.arpa".toList := by
  rw [expand_reverseMacro, h]
  decide +kernel

/-- The name of an address in reverse is in ASCII, is short and ends in a letter. -/
theorem Address.reverseName_spec (a : Address) : (∀ b ∈ a.reverseName, b < 0x80) ∧
    a.reverseName.length ≤ 253 ∧ a.reverseName.getLast? = some 'a'.toUInt8 := by
  have hdigits : lowerHexDigits.all (· < 0x80) = true := by decide
  have hlabels : ∀ b ∈ joinLabels a.reverseLabels, b < 0x80 :=
    forall_mem_joinLabels (by decide) fun label hlabel b hb =>
      of_decide_eq_true (List.all_eq_true.1 hdigits b (mem_lowerHexDigits hlabel b hb))
  have hlength : (joinLabels a.reverseLabels).length ≤ a.reverseLabels.length * (3 + 1) :=
    length_joinLabels_le fun label hlabel => length_label_le hlabel
  have hcount : a.reverseLabels.length ≤ 32 := by
    rw [length_reverseLabels]
    cases a <;> exact Nat.le_of_ble_eq_true rfl
  have hzone : (a.reverseZone ++ Octets.ofAscii ".arpa".toList).all (· < 0x80) = true ∧
      (a.reverseZone ++ Octets.ofAscii ".arpa".toList).length ≤ 12 ∧
      (a.reverseZone ++ Octets.ofAscii ".arpa".toList).getLast? = some 'a'.toUInt8 := by
    cases a <;> simp only [reverseZone] <;> decide +kernel
  obtain ⟨hascii, hshort, hlast⟩ := hzone
  rw [reverseName_eq]
  refine ⟨?_, ?_, ?_⟩
  · simp only [List.forall_mem_append, List.forall_mem_cons]
    simp only [List.all_append, Bool.and_eq_true, List.all_eq_true, decide_eq_true_eq] at hascii
    exact ⟨hlabels, by decide, hascii⟩
  · rw [List.length_append, List.length_cons]
    omega
  · rw [List.getLast?_append, List.getLast?_cons, hlast]
    rfl

/-- The macro string of the reverse name stands for it, and none of it is cut. -/
theorem toName_reverseMacro (b : Bindings) :
    Utf8.ofText (reverseMacro.toName b) = b.client.reverseName := by
  obtain ⟨hascii, hfits, hlast⟩ := b.client.reverseName_spec
  rw [← expand_reverseMacro] at hascii hfits hlast ⊢
  exact MacroString.ofText_toName hascii hfits (by rw [hlast]; decide)

/-- The macro string for an address expands to its labels. -/
theorem expands_labels (mode : MacroMode) (b : Bindings) :
    Expands mode b (.ofAscii "%{i}".toList) (joinLabels b.client.reverseLabels.reverse) := by
  have hspell : Octets.ofAscii "%{i}".toList =
      (MacroItem.expansion ⟨.ip, false, [], none, []⟩).spell := by decide +kernel
  rw [hspell]
  exact expands_ip mode b none (List.forall_mem_nil _) fun h => absurd rfl h

/-- The macro string for an address in reverse expands to its labels in reverse. -/
theorem expands_reverseLabels (mode : MacroMode) (b : Bindings) :
    Expands mode b (.ofAscii "%{ir}".toList) (joinLabels b.client.reverseLabels) := by
  have hspell : Octets.ofAscii "%{ir}".toList =
      (MacroItem.expansion ⟨.ip, false, [], some false, []⟩).spell := by decide +kernel
  rw [hspell]
  exact expands_ip mode b (some false) (List.forall_mem_nil _) fun h => absurd rfl h

/-- With a count, it expands to the last of these. -/
theorem expands_lastLabels (mode : MacroMode) (b : Bindings) {digits : Octets}
    (hdigits : ∀ d ∈ digits, Octet.isDigit d = true) (hpos : 1 ≤ digits.decimalValue) :
    Expands mode b (.ofAscii ['%', '{', 'i'] ++ digits ++ .ofAscii ['r', '}'])
      (joinLabels (keepLast (min digits.decimalValue (2 ^ 32 - 1)) b.client.reverseLabels)) := by
  have hspell : Octets.ofAscii ['%', '{', 'i'] ++ digits ++ Octets.ofAscii ['r', '}'] =
      (MacroItem.expansion ⟨.ip, false, digits, some false, []⟩).spell := by
    simp only [MacroItem.spell, WrittenExpansion.body, List.append_assoc, List.cons_append]
    rfl
  have hcount : digits ≠ [] → ∃ d ∈ digits, d ≠ '0'.toUInt8 := by
    intro _
    by_contra hzero
    have hvalue := (Octets.decimalValue_eq_zero_iff hdigits).2 (by simpa using hzero)
    omega
  rw [hspell]
  exact expands_ip mode b (some false) hdigits hcount

/-- An address is known by what the macro string for it expands to. -/
theorem client_eq_of_expands {mode : MacroMode} {b b' : Bindings} {out : Octets}
    (h : Expands mode b (.ofAscii "%{i}".toList) out)
    (h' : Expands mode b' (.ofAscii "%{i}".toList) out) : b.client = b'.client := by
  have hdots : ∀ a : Address, ∀ label ∈ a.reverseLabels.reverse, '.'.toUInt8 ∉ label :=
    fun a label hlabel => Address.not_dot_mem (List.mem_reverse.1 hlabel)
  have hne : ∀ a : Address, a.reverseLabels.reverse ≠ [] :=
    fun a hnil => a.reverseLabels_ne_nil (List.reverse_eq_nil_iff.1 hnil)
  have heq := (h.unique (expands_labels mode b)).symm.trans (h'.unique (expands_labels mode b'))
  have hparts := congrArg (pieces (· = '.'.toUInt8)) heq
  rw [pieces_joinLabels (hdots _) (hne _), pieces_joinLabels (hdots _) (hne _)] at hparts
  exact Address.reverseLabels_injective (List.reverse_injective hparts)

/-- The macro string of the labels in reverse and the zone stands for the name by which the client
is looked up in reverse: its four octets in decimal, or its thirty-two nibbles in hexadecimal, the
last first, and the zone of its family. The labels alone tell the address. The labels of an IPv6
address are single digits, which can be reversed, and then the last of them can be kept. -/
theorem Address.expands_name (mode : MacroMode) (b : Bindings) :
    (∃ m, MacroString.parse? mode (.ofAscii "%{ir}.%{v}.arpa".toList) = some m ∧
      m.expand b = b.client.reverseName ∧ Utf8.ofText (m.toName b) = b.client.reverseName) ∧
    (∃ out, Expands mode b (.ofAscii "%{i}".toList) out) ∧
    (∀ b' out, Expands mode b (.ofAscii "%{i}".toList) out →
      Expands mode b' (.ofAscii "%{i}".toList) out → b.client = b'.client) ∧
    ∀ a, b.client = .v6 a → ∃ labels : List Octets, labels.length = 32 ∧
      (∀ label ∈ labels, ∃ d ∈ lowerHexDigits, label = [d]) ∧
      Expands mode b (.ofAscii "%{i}".toList) (joinLabels labels) ∧
      Expands mode b (.ofAscii "%{ir}".toList) (joinLabels labels.reverse) ∧
      ∀ digits, (∀ d ∈ digits, Octet.isDigit d = true) → 1 ≤ Octets.decimalValue digits →
        Expands mode b (.ofAscii ['%', '{', 'i'] ++ digits ++ .ofAscii ['r', '}'])
          (joinLabels (labels.reverse.drop (32 - min (Octets.decimalValue digits) 32))) := by
  refine ⟨⟨reverseMacro, parse?_reverseMacro mode, expand_reverseMacro b, toName_reverseMacro b⟩,
    ⟨_, expands_labels mode b⟩, fun b' out => client_eq_of_expands, fun a ha => ?_⟩
  have hlength : b.client.reverseLabels.length = 32 := by rw [ha, length_reverseLabels]
  refine ⟨b.client.reverseLabels.reverse, ?_, fun label hlabel => ?_, expands_labels mode b, ?_,
    fun digits hdigits hpos => ?_⟩
  · rw [List.length_reverse, hlength]
  · exact exists_digit (ha ▸ List.mem_reverse.1 hlabel)
  · rw [List.reverse_reverse]
    exact expands_reverseLabels mode b
  · have hlast := expands_lastLabels mode b hdigits hpos
    have hkept : keepLast (min digits.decimalValue (2 ^ 32 - 1)) b.client.reverseLabels =
        b.client.reverseLabels.drop (32 - min digits.decimalValue 32) := by
      unfold keepLast
      rw [hlength]
      split
      next hfew =>
        simp only [Bool.and_eq_true, decide_eq_true_eq] at hfew
        congr 1
        omega
      next hmany =>
        simp only [Bool.and_eq_true, decide_eq_true_eq] at hmany
        have hall : 32 - min digits.decimalValue 32 = 0 := by omega
        rw [hall, List.drop_zero]
    rwa [hkept, ← List.reverse_reverse b.client.reverseLabels] at hlast

end SenderPolicy
