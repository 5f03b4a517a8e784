import Mathlib.Algebra.Ring.Nat
import Mathlib.Data.List.Chain
import Mathlib.Data.List.TakeWhile
import SenderPolicy.MacroString.Parser

/-!
# The grammar of macro strings

A macro string is written as a sequence of items: octets that stand for themselves,
escapes, and expansions in braces. Reading one gives the octets and expansions that its
items stand for, in order, with each run of octets in one literal.

Main definitions:

- `WrittenExpansion`, `MacroItem`: the items as they are written, with their spelling, the
  mode in which they may stand, and what they stand for;
- `MacroString.units`, `MacroString.IsNormal`: what a macro string stands for, and the
  macro strings without empty or neighbouring literals.

Main results:

- `Delimiters.contains_ofOctets`: a set of delimiters holds the octets of which it is made;
- `MacroString.eq_ofUnits_iff`: a macro string in normal form is known by its units;
- `Expansion.parse?_eq_some_iff`: what stands between braces;
- `MacroString.parse?_iff_grammar`: the macro strings are those of the grammar, and are
  read in normal form.
-/

namespace SenderPolicy

/-! ## Sets of delimiters -/

namespace Delimiters

/-- The octets that can be members. -/
def CanHold (b : UInt8) : Prop := firstOctet ≤ b ∧ b ≤ lastOctet

/-- The place of an octet in the bits of a set. -/
def place (b : UInt8) : Nat := b.toNat - firstOctet.toNat

/-- Octets that can be members have places of their own, within a word. -/
theorem toNat_eq_place {b : UInt8} (h : CanHold b) :
    b.toNat = firstOctet.toNat + place b ∧ place b < 64 := by
  have hfirst : firstOctet.toNat ≤ b.toNat := UInt8.le_iff_toNat_le.1 h.1
  have hlast : b.toNat ≤ lastOctet.toNat := UInt8.le_iff_toNat_le.1 h.2
  have hends : firstOctet.toNat = 43 ∧ lastOctet.toNat = 95 := ⟨rfl, rfl⟩
  unfold place
  omega

/-- The bit of an octet is the one at its place. -/
theorem toBitVec_bit {b : UInt8} (h : CanHold b) :
    (bit b).toBitVec = BitVec.twoPow 64 (place b) := by
  have hplace : (b - firstOctet).toNat = place b := UInt8.toNat_sub_of_le _ _ h.1
  have hshift : (b - firstOctet).toUInt64.toBitVec.toNat % 64 = place b := by
    change (b - firstOctet).toNat % 64 = place b
    rw [hplace]
    exact Nat.mod_eq_of_lt (toNat_eq_place h).2
  rw [bit, UInt64.toBitVec_shiftLeft, BitVec.twoPow, BitVec.shiftLeft_eq', BitVec.toNat_umod]
  exact congrArg (1#64 <<< ·) hshift

/-- An octet is a member if it can be one, and the bit at its place is set. -/
theorem contains_iff {set : Delimiters} {b : UInt8} :
    set.contains b = true ↔ CanHold b ∧ set.bits.toBitVec.getLsbD (place b) = true := by
  simp only [contains, Bool.and_eq_true, decide_eq_true_eq, bne_iff_ne]
  refine and_congr_right fun h => ?_
  have hlt := (toNat_eq_place h).2
  rw [← UInt64.toBitVec_inj.ne, UInt64.toBitVec_and, toBitVec_bit h, BitVec.and_twoPow]
  split
  next hset =>
    rw [hset]
    refine iff_of_true (fun hzero => ?_) rfl
    have hbit := congrArg (BitVec.getLsbD · (place b)) hzero
    simp [hlt] at hbit
  next hset => exact iff_of_false (fun hne => hne rfl) hset

/-- A set with one more member holds that and what it held. -/
theorem contains_insert {set : Delimiters} {b c : UInt8} (hb : CanHold b) :
    (set.insert b).contains c = true ↔ c = b ∨ set.contains c = true := by
  have hplace := toNat_eq_place hb
  rw [contains_iff, contains_iff, insert, UInt64.toBitVec_or, toBitVec_bit hb, BitVec.getLsbD_or,
    BitVec.getLsbD_twoPow, Bool.or_eq_true, Bool.and_eq_true, decide_eq_true_eq, decide_eq_true_eq]
  constructor
  · rintro ⟨hc, hset | ⟨-, heq⟩⟩
    · exact .inr ⟨hc, hset⟩
    · left
      apply UInt8.toNat_inj.1
      rw [hplace.1, (toNat_eq_place hc).1, heq]
  · rintro (rfl | ⟨hc, hset⟩)
    · exact ⟨hb, .inr ⟨hplace.2, rfl⟩⟩
    · exact ⟨hc, .inl hset⟩

/-- A set made of octets holds these and no others. -/
theorem contains_ofOctets {octets : Octets} (h : ∀ b ∈ octets, CanHold b) {c : UInt8} :
    (ofOctets octets).contains c = true ↔ c ∈ octets := by
  have hfold : ∀ set : Delimiters,
      (octets.foldl (fun set b => set.insert b) set).contains c = true ↔
        c ∈ octets ∨ set.contains c = true := by
    induction octets with
    | nil => simp
    | cons b octets ih =>
      intro set
      rw [List.foldl_cons, ih fun d hd => h d (List.mem_cons_of_mem b hd),
        contains_insert (h b List.mem_cons_self), List.mem_cons]
      tauto
  have hempty : empty.contains c = false := by simp [contains, empty]
  rw [ofOctets, hfold empty, hempty]
  simp

end Delimiters

/-! ## Items as they are written -/

namespace Letter

/-- The small letter that names a property. -/
def small : Letter → UInt8
  | .sender => 's'.toUInt8
  | .localPart => 'l'.toUInt8
  | .senderDomain => 'o'.toUInt8
  | .domain => 'd'.toUInt8
  | .ip => 'i'.toUInt8
  | .validatedName => 'p'.toUInt8
  | .ipVersion => 'v'.toUInt8
  | .helo => 'h'.toUInt8
  | .clientIp => 'c'.toUInt8
  | .receiver => 'r'.toUInt8
  | .timestamp => 't'.toUInt8

/-- Whether a letter may stand in explanations only. -/
def isExplanatory : Letter → Bool
  | .clientIp | .receiver | .timestamp => true
  | _ => false

end Letter

/-- A small letter, or its capital. -/
def Octet.inCase (capital : Bool) (b : UInt8) : UInt8 := if capital then b - 0x20 else b

/-- The octets that may be listed as delimiters. -/
def delimiterOctets : Octets := .ofAscii ['.', '-', '+', ',', '/', '_', '=']

/-- An expansion as it is written between braces. -/
structure WrittenExpansion where
  letter : Letter
  capital : Bool
  digits : Octets
  /-- The mark of reversal, if there is one, and whether it is a capital. -/
  reversal : Option Bool
  delimiters : Octets

namespace WrittenExpansion

/-- What stands between the braces. -/
def body (w : WrittenExpansion) : Octets :=
  Octet.inCase w.capital w.letter.small ::
    (w.digits ++ (w.reversal.elim [] fun capital => [Octet.inCase capital 'r'.toUInt8]) ++
      w.delimiters)

/-- What may stand between the braces. -/
structure Allowed (mode : MacroMode) (w : WrittenExpansion) : Prop where
  letter : w.letter.isExplanatory = true → mode = .explanation
  digits : ∀ b ∈ w.digits, Octet.isDigit b = true
  /-- A count is not zero. -/
  count : w.digits ≠ [] → ∃ b ∈ w.digits, b ≠ '0'.toUInt8
  delimiters : ∀ b ∈ w.delimiters, b ∈ delimiterOctets

/-- The octets at which the property is cut: those listed, or the dot. -/
def cuts (w : WrittenExpansion) : Octets :=
  if w.delimiters = [] then ['.'.toUInt8] else w.delimiters

/-- The expansion that is meant. -/
def meaning (w : WrittenExpansion) : Expansion where
  letter := w.letter
  parts := UInt32.ofNat (min w.digits.decimalValue (UInt32.size - 1))
  reverse := w.reversal.isSome
  escape := w.capital
  delimiters := .ofOctets w.cuts

end WrittenExpansion

/-- What a macro string stands for at one place: an octet, or an expansion. -/
inductive MacroUnit where
  | octet (b : UInt8)
  | expansion (e : Expansion)

/-- An item of a macro string as it is written. -/
inductive MacroItem where
  | plain (b : UInt8)
  /-- Two percent signs, for one. -/
  | percent
  /-- A percent sign and an underscore, for a space. -/
  | space
  /-- A percent sign and a hyphen, for an escaped space. -/
  | escapedSpace
  | expansion (w : WrittenExpansion)

namespace MacroItem

/-- The octets of an item. -/
def spell : MacroItem → Octets
  | .plain b => [b]
  | .percent => .ofAscii ['%', '%']
  | .space => .ofAscii ['%', '_']
  | .escapedSpace => .ofAscii ['%', '-']
  | .expansion w => '%'.toUInt8 :: '{'.toUInt8 :: (w.body ++ ['}'.toUInt8])

/-- The items of each mode. -/
def Allowed (mode : MacroMode) : MacroItem → Prop
  | .plain b => b ≠ '%'.toUInt8 ∧ (mode = .domainSpec → 0x21 ≤ b ∧ b ≤ 0x7E)
  | .percent | .space | .escapedSpace => True
  | .expansion w => w.Allowed mode

/-- What an item stands for. -/
def units : MacroItem → List MacroUnit
  | .plain b => [.octet b]
  | .percent => (Octets.ofAscii ['%']).map .octet
  | .space => (Octets.ofAscii [' ']).map .octet
  | .escapedSpace => (Octets.ofAscii ['%', '2', '0']).map .octet
  | .expansion w => [.expansion w.meaning]

theorem spell_ne_nil (i : MacroItem) : i.spell ≠ [] := by cases i <;> exact List.cons_ne_nil _ _

theorem units_ne_nil (i : MacroItem) : i.units ≠ [] := by cases i <;> exact List.cons_ne_nil _ _

end MacroItem

/-! ## Normal form -/

/-- What a segment stands for, place by place. -/
def Segment.units : Segment → List MacroUnit
  | .literal text => text.map .octet
  | .expansion e => [.expansion e]

/-- Whether a segment is literal text. -/
def Segment.isLiteral : Segment → Bool
  | .literal _ => true
  | .expansion _ => false

namespace MacroString

/-- What a macro string stands for, place by place. -/
def units (m : MacroString) : List MacroUnit := m.flatMap Segment.units

/-- A macro string with every run of octets in one literal. -/
structure IsNormal (m : MacroString) : Prop where
  nonempty : ∀ text, .literal text ∈ m → text ≠ []
  separated : m.IsChain fun s s' => ¬ (s.isLiteral = true ∧ s'.isLiteral = true)

/-- The macro string in normal form that stands for given units. -/
def ofUnits : List MacroUnit → MacroString
  | [] => []
  | .octet b :: us => consLiteral [b] (ofUnits us)
  | .expansion e :: us => .expansion e :: ofUnits us

/-- Literal text may be put in front in two parts. -/
theorem consLiteral_append (s t : Octets) (m : MacroString) :
    consLiteral (s ++ t) m = consLiteral s (consLiteral t m) := by
  rcases m with _ | ⟨text | e, m⟩ <;> simp [consLiteral]

/-- Octets in front of units are one literal. -/
theorem ofUnits_octets {text : Octets} (h : text ≠ []) (us : List MacroUnit) :
    ofUnits (text.map .octet ++ us) = consLiteral text (ofUnits us) := by
  induction text with
  | nil => exact absurd rfl h
  | cons b text ih =>
    cases text with
    | nil => rfl
    | cons c text =>
      have hrest : ofUnits ((c :: text).map .octet ++ us) = consLiteral (c :: text) (ofUnits us) :=
        ih (by simp)
      rw [List.map_cons, List.cons_append, ofUnits, hrest, ← consLiteral_append]
      rfl

/-- Octets in front are units of their own. -/
theorem units_consLiteral (text : Octets) (m : MacroString) :
    (consLiteral text m).units = text.map .octet ++ m.units := by
  rcases m with _ | ⟨more | e, m⟩ <;> simp [consLiteral, units, Segment.units]

/-- A macro string that is made of units has these. -/
theorem units_ofUnits (us : List MacroUnit) : (ofUnits us).units = us := by
  induction us with
  | nil => rfl
  | cons u us ih =>
    cases u with
    | octet b => rw [ofUnits, units_consLiteral, ih]; rfl
    | expansion e =>
      rw [ofUnits, units, List.flatMap_cons, ← units, ih]
      rfl

/-- Text in front of a macro string in normal form leaves it in normal form. -/
theorem IsNormal.consLiteral {m : MacroString} (h : m.IsNormal) {text : Octets} (ht : text ≠ []) :
    (consLiteral text m).IsNormal := by
  rcases m with _ | ⟨more | e, m⟩
  · exact ⟨by simpa [MacroString.consLiteral] using ht, .singleton _⟩
  · refine ⟨fun text' hmem => ?_, ?_⟩
    · rcases List.mem_cons.1 hmem with heq | hmem
      · cases heq
        simp [ht]
      · exact h.nonempty text' (List.mem_cons_of_mem _ hmem)
    · have hchain := h.separated
      cases m with
      | nil => exact .singleton _
      | cons s m => exact List.isChain_cons_cons.2 (List.isChain_cons_cons.1 hchain)
  · refine ⟨fun text' hmem => ?_, ?_⟩
    · rcases List.mem_cons.1 hmem with heq | hmem
      · cases heq
        exact ht
      · exact h.nonempty text' hmem
    · exact List.isChain_cons_cons.2
        ⟨fun hboth => by simp [Segment.isLiteral] at hboth, h.separated⟩

/-- A transformer may be put in front of a normal form. -/
theorem IsNormal.consExpansion {m : MacroString} (h : m.IsNormal) (e : Expansion) :
    IsNormal (.expansion e :: m) where
  nonempty text hmem := by
    rcases List.mem_cons.1 hmem with heq | hmem
    · cases heq
    · exact h.nonempty text hmem
  separated := by
    cases m with
    | nil => exact .singleton _
    | cons s m =>
      exact List.isChain_cons_cons.2
        ⟨fun hboth => by simp [Segment.isLiteral] at hboth, h.separated⟩

/-- What is made of units is a normal form. -/
theorem isNormal_ofUnits (us : List MacroUnit) : (ofUnits us).IsNormal := by
  induction us with
  | nil => exact ⟨fun text hmem => by simp [ofUnits] at hmem, .nil⟩
  | cons u us ih =>
    cases u with
    | octet b => exact ih.consLiteral (List.cons_ne_nil b [])
    | expansion e => exact ih.consExpansion e

/-- What follows the first segment of a macro string in normal form. -/
theorem IsNormal.tail {s : Segment} {m : MacroString} (h : IsNormal (s :: m)) : m.IsNormal :=
  ⟨fun text hmem => h.nonempty text (List.mem_cons_of_mem s hmem), h.separated.tail⟩

/-- A normal form is made of its units. -/
theorem ofUnits_units {m : MacroString} (h : m.IsNormal) : ofUnits m.units = m := by
  induction m with
  | nil => rfl
  | cons s m ih =>
    have hrest : ofUnits (units m) = m := ih h.tail
    rw [units, List.flatMap_cons, ← units]
    cases s with
    | expansion e => exact congrArg (Segment.expansion e :: ·) hrest
    | literal text =>
      have htext : text ≠ [] := h.nonempty text List.mem_cons_self
      rw [Segment.units, ofUnits_octets htext, hrest]
      -- No other literal follows, so that nothing is joined to the text.
      rcases m with _ | ⟨more | e, m⟩
      · rfl
      · exact absurd ⟨rfl, rfl⟩ (List.isChain_cons_cons.1 h.separated).1
      · rfl

/-- A macro string in normal form is known by its units. -/
theorem eq_ofUnits_iff {m : MacroString} {us : List MacroUnit} :
    m = ofUnits us ↔ m.IsNormal ∧ m.units = us := by
  constructor
  · rintro rfl
    exact ⟨isNormal_ofUnits us, units_ofUnits us⟩
  · rintro ⟨hnormal, rfl⟩
    exact (ofUnits_units hnormal).symm

end MacroString

/-! ## Reading expansions -/

namespace Octet

/-- The octets whose small form is a given small letter are that letter in each case. -/
theorem lower_eq_iff {b c : UInt8} (hc : isLower c) :
    lower b = c ↔ ∃ capital, b = inCase capital c := by
  simp only [isLower, lower, isUpper, inCase, Bool.and_eq_true, decide_eq_true_eq,
    Bool.exists_bool] at hc ⊢
  grind

/-- Capitals are told from small letters. -/
theorem isUpper_inCase {c : UInt8} (hc : isLower c) (capital : Bool) :
    isUpper (inCase capital c) = capital := by
  simp only [isLower, Bool.and_eq_true, decide_eq_true_eq] at hc
  rw [Bool.eq_iff_iff]
  simp only [isUpper, inCase, Bool.and_eq_true]
  cases capital <;> grind

/-- A small letter is that of itself in either case. -/
theorem lower_inCase {c : UInt8} (hc : isLower c) (capital : Bool) :
    lower (inCase capital c) = c :=
  (lower_eq_iff hc).2 ⟨capital, rfl⟩

end Octet

namespace Letter

theorem isLower_small (l : Letter) : Octet.isLower l.small = true := by cases l <;> decide

/-- The letters of each mode. -/
theorem ofSmall?_eq_some_iff {mode : MacroMode} {b : UInt8} {l : Letter} :
    ofSmall? mode b = some l ↔ (l.isExplanatory = true → mode = .explanation) ∧ b = l.small := by
  constructor
  · fun_cases ofSmall? mode b
    all_goals intro h
    all_goals cases h
    all_goals refine ⟨fun hl => ?_, ‹_›⟩
    all_goals first | assumption | cases hl
  · rintro ⟨hmode, rfl⟩
    cases l <;> cases mode <;> first | rfl | cases hmode rfl

/-- An octet names a property by its letter, in either case, and some only in explanations. -/
theorem ofOctet?_eq_some_iff {mode : MacroMode} {b : UInt8} {l : Letter} :
    ofOctet? mode b = some l ↔ (l.isExplanatory = true → mode = .explanation) ∧
      ∃ capital, b = Octet.inCase capital l.small := by
  rw [ofOctet?, ofSmall?_eq_some_iff, Octet.lower_eq_iff l.isLower_small]

end Letter

/-- Digits spell zero if they are all zero. -/
theorem Octets.decimalValue_eq_zero_iff {digits : Octets}
    (h : ∀ b ∈ digits, Octet.isDigit b = true) :
    digits.decimalValue = 0 ↔ ∀ b ∈ digits, b = '0'.toUInt8 := by
  have hfold : ∀ n, digits.foldl (fun n d => 10 * n + Octet.digitValue d) n = 0 ↔
      n = 0 ∧ ∀ b ∈ digits, b = '0'.toUInt8 := by
    induction digits with
    | nil => simp
    | cons d digits ih =>
      intro n
      have hzero : Octet.digitValue d = 0 ↔ d = '0'.toUInt8 := by
        have hd := h d List.mem_cons_self
        simp only [Octet.isDigit, Bool.and_eq_true, decide_eq_true_eq, UInt8.le_iff_toNat_le] at hd
        have hlow : (0x30 : UInt8).toNat = 48 ∧ ('0'.toUInt8).toNat = 48 := ⟨rfl, rfl⟩
        rw [Octet.digitValue, ← UInt8.toNat_inj]
        omega
      rw [List.foldl_cons, ih fun b hb => h b (List.mem_cons_of_mem d hb), List.forall_mem_cons,
        ← hzero, ← and_assoc]
      refine and_congr_left fun _ => ?_
      omega
  exact (hfold 0).trans (and_iff_right rfl)

namespace Expansion

/-- The test for delimiters is membership among them. -/
theorem isDelimiter_iff {b : UInt8} : isDelimiter b = true ↔ b ∈ delimiterOctets := by
  simp [isDelimiter, delimiterOctets, Octets.ofAscii, or_assoc]

/-- Delimiters can be members of sets of delimiters. -/
theorem canHold_of_mem {b : UInt8} (h : b ∈ delimiterOctets) : Delimiters.CanHold b := by
  simp only [delimiterOctets, Octets.ofAscii, List.map_cons, List.map_nil, List.mem_cons,
    List.not_mem_nil, or_false] at h
  unfold Delimiters.CanHold
  rcases h with rfl | rfl | rfl | rfl | rfl | rfl | rfl <;> decide

/-- A count is not zero, and a large one is cut down to the greatest. -/
theorem parseCount?_eq_some_iff {digits : Octets} {n : UInt32}
    (h : ∀ b ∈ digits, Octet.isDigit b = true) :
    parseCount? digits = some n ↔ (digits ≠ [] → ∃ b ∈ digits, b ≠ '0'.toUInt8) ∧
      n = UInt32.ofNat (min digits.decimalValue (UInt32.size - 1)) := by
  cases digits with
  | nil => simp [parseCount?, Octets.decimalValue, eq_comm]
  | cons d digits =>
    have hzero := Octets.decimalValue_eq_zero_iff h
    unfold parseCount?
    rw [if_neg (by simp)]
    by_cases hvalue : Octets.decimalValue (d :: digits) = 0
    · rw [if_pos hvalue]
      refine iff_of_false (by simp) fun hcount => ?_
      obtain ⟨b, hb, hne⟩ := hcount.1 (by simp)
      exact hne (hzero.1 hvalue b hb)
    · have hsome : ∃ b ∈ d :: digits, b ≠ '0'.toUInt8 := by
        by_contra hall
        exact hvalue (hzero.2 fun b hb => by_contra fun hne => hall ⟨b, hb, hne⟩)
      rw [if_neg hvalue, Option.some.injEq, and_iff_right fun _ => hsome, eq_comm]
      rfl

/-- Delimiters are those that are listed, or the dot if none is. -/
theorem parseDelimiters?_eq_some_iff {listed : Octets} {set : Delimiters} :
    parseDelimiters? listed = some set ↔ (∀ b ∈ listed, b ∈ delimiterOctets) ∧
      set = .ofOctets (if listed = [] then ['.'.toUInt8] else listed) := by
  have hall : listed.all isDelimiter = true ↔ ∀ b ∈ listed, b ∈ delimiterOctets := by
    simp [List.all_eq_true, isDelimiter_iff]
  unfold parseDelimiters?
  rw [← hall]
  cases hlisted : listed.all isDelimiter with
  | false => simp
  | true =>
    cases listed with
    | nil => simp [eq_comm, Delimiters.dot]
    | cons b listed => simp [eq_comm]

/-- A mark of reversal is read if there is one, and what follows is left. -/
theorem takeReverse_append (reversal : Option Bool) {rest : Octets}
    (h : ∀ b ∈ rest.head?, Octet.lower b ≠ 'r'.toUInt8) :
    takeReverse ((reversal.elim [] fun capital => [Octet.inCase capital 'r'.toUInt8]) ++ rest) =
      (reversal.isSome, rest) := by
  cases reversal with
  | some capital => exact if_pos (Octet.lower_inCase (by decide) capital)
  | none =>
    cases rest with
    | nil => rfl
    | cons b rest => exact if_neg (h b rfl)

/-- What is read as a mark of reversal, and what is left, make up the whole. -/
theorem exists_reversal (octets : Octets) : ∃ reversal : Option Bool,
    octets = (reversal.elim [] fun capital => [Octet.inCase capital 'r'.toUInt8]) ++
        (takeReverse octets).2 ∧
      (takeReverse octets).1 = reversal.isSome := by
  cases octets with
  | nil => exact ⟨none, rfl, rfl⟩
  | cons b rest =>
    by_cases hb : Octet.lower b = 'r'.toUInt8
    · obtain ⟨capital, hcapital⟩ := (Octet.lower_eq_iff (by decide)).1 hb
      rw [takeReverse, if_pos hb]
      exact ⟨some capital, by rw [hcapital]; rfl, rfl⟩
    · rw [takeReverse, if_neg hb]
      exact ⟨none, rfl, rfl⟩

end Expansion

namespace WrittenExpansion

variable {mode : MacroMode} {w : WrittenExpansion}

/-- A delimiter is neither a digit nor a mark of reversal. -/
theorem not_digit_of_mem {b : UInt8} (h : b ∈ delimiterOctets) :
    Octet.isDigit b = false ∧ Octet.lower b ≠ 'r'.toUInt8 := by
  simp only [delimiterOctets, Octets.ofAscii, List.map_cons, List.map_nil, List.mem_cons,
    List.not_mem_nil, or_false] at h
  rcases h with rfl | rfl | rfl | rfl | rfl | rfl | rfl <;> decide

/-- The first delimiter is not taken for a reversal. -/
theorem Allowed.lower_head (h : w.Allowed mode) :
    ∀ b ∈ w.delimiters.head?, Octet.lower b ≠ 'r'.toUInt8 :=
  fun b hb => (not_digit_of_mem (h.delimiters b (List.mem_of_mem_head? hb))).2

/-- The digits of an expansion end where no digit follows. -/
theorem Allowed.span_digits (h : w.Allowed mode) :
    let tail := (w.reversal.elim [] fun capital => [Octet.inCase capital 'r'.toUInt8]) ++
      w.delimiters
    (w.digits ++ tail).takeWhile Octet.isDigit = w.digits ∧
      (w.digits ++ tail).dropWhile Octet.isDigit = tail := by
  intro tail
  have htail : ∀ b ∈ tail.head?, Octet.isDigit b = false := by
    intro b hb
    unfold tail at hb
    cases hreversal : w.reversal with
    | some capital =>
      rw [hreversal] at hb
      cases hb
      cases capital <;> decide
    | none =>
      rw [hreversal] at hb
      exact (not_digit_of_mem (h.delimiters b (List.mem_of_mem_head? hb))).1
  rw [List.takeWhile_append_of_pos h.digits, List.dropWhile_append_of_pos h.digits]
  generalize tail = rest at htail
  cases rest with
  | nil => simp
  | cons b rest => simp [htail b rfl]

/-- No brace stands between the braces. -/
theorem Allowed.ne_brace (h : w.Allowed mode) : ∀ b ∈ w.body, b ≠ '}'.toUInt8 := by
  have hcase : ∀ capital, ∀ l : Letter, Octet.inCase capital l.small ≠ '}'.toUInt8 := by
    rintro (_ | _) l <;> cases l <;> decide
  intro b hb hbrace
  simp only [body, List.mem_cons, List.mem_append] at hb
  rcases hb with rfl | (hb | hb) | hb
  · exact hcase _ _ hbrace
  · have hdigit := h.digits b hb
    rw [hbrace] at hdigit
    exact absurd hdigit (by decide)
  · cases hreversal : w.reversal with
    | none => simp [hreversal] at hb
    | some capital =>
      simp only [hreversal, Option.elim_some, List.mem_singleton] at hb
      exact hcase capital .receiver (hb ▸ hbrace)
  · have hdelimiter := h.delimiters b hb
    rw [hbrace] at hdelimiter
    exact absurd hdelimiter (by decide)

/-- The count of an allowed expansion is what its digits spell, as far as a word holds it. -/
theorem toNat_parts (w : WrittenExpansion) :
    w.meaning.parts.toNat = min w.digits.decimalValue (2 ^ 32 - 1) := by
  have hle : min w.digits.decimalValue (UInt32.size - 1) < UInt32.size :=
    Nat.lt_of_le_of_lt (Nat.min_le_right _ _) (by decide)
  exact UInt32.toNat_ofNat_of_lt' hle

/-- The property is cut at the octets that are listed, or at the dot. -/
theorem Allowed.contains_iff (h : w.Allowed mode) (b : UInt8) :
    w.meaning.delimiters.contains b = true ↔ b ∈ w.cuts := by
  apply Delimiters.contains_ofOctets
  intro c hc
  apply Expansion.canHold_of_mem
  unfold cuts at hc
  split at hc
  · rw [List.mem_singleton.1 hc]
    decide
  · exact h.delimiters c hc

end WrittenExpansion

/-- An expansion is read from what may stand between the braces, and means what that means. -/
theorem Expansion.parse?_eq_some_iff {mode : MacroMode} {octets : Octets} {e : Expansion} :
    Expansion.parse? mode octets = some e ↔
      ∃ w : WrittenExpansion, w.Allowed mode ∧ w.body = octets ∧ e = w.meaning := by
  constructor
  · intro h
    cases octets with
    | nil => cases h
    | cons b rest =>
      have hdigits : ∀ d ∈ rest.takeWhile Octet.isDigit, Octet.isDigit d = true :=
        fun d hd => List.mem_takeWhile_imp hd
      obtain ⟨reversal, hrest, hreverse⟩ := exists_reversal (rest.dropWhile Octet.isDigit)
      simp only [parse?, Option.bind_eq_bind, Option.bind_eq_some_iff] at h
      obtain ⟨letter, hletter, parts, hparts, set, hset, heq⟩ := h
      obtain ⟨hmode, capital, rfl⟩ := Letter.ofOctet?_eq_some_iff.1 hletter
      obtain ⟨hcount, rfl⟩ := (parseCount?_eq_some_iff hdigits).1 hparts
      obtain ⟨hlisted, rfl⟩ := parseDelimiters?_eq_some_iff.1 hset
      refine ⟨⟨letter, capital, rest.takeWhile Octet.isDigit, reversal,
        (takeReverse (rest.dropWhile Octet.isDigit)).2⟩, ⟨hmode, hdigits, hcount, hlisted⟩, ?_, ?_⟩
      · rw [WrittenExpansion.body, List.append_assoc, ← hrest, List.takeWhile_append_dropWhile]
      · cases heq
        rw [hreverse, Octet.isUpper_inCase letter.isLower_small]
        rfl
  · rintro ⟨w, hw, rfl, rfl⟩
    obtain ⟨htake, hdrop⟩ := hw.span_digits
    have hletter := Letter.ofOctet?_eq_some_iff.2 ⟨hw.letter, w.capital, rfl⟩
    have hcount := (parseCount?_eq_some_iff hw.digits).2 ⟨hw.count, rfl⟩
    have hset := parseDelimiters?_eq_some_iff.2 ⟨hw.delimiters, rfl⟩
    simp only [WrittenExpansion.body, List.append_assoc, parse?, hletter, htake, hdrop, hcount,
      takeReverse_append w.reversal hw.lower_head, hset,
      Octet.isUpper_inCase w.letter.isLower_small,
      Option.bind_eq_bind, Option.bind_some]
    rfl

/-! ## Reading macro strings -/

namespace MacroString

variable {mode : MacroMode}

/-- What has been read of an item at a place. -/
def Place.begun : Place → Octets
  | .text => []
  | .percent => ['%'.toUInt8]
  | .braces read => '%'.toUInt8 :: '{'.toUInt8 :: read.reverse

/-- An escape is an item that stands for its text. -/
theorem exists_item_of_escaped? {b : UInt8} {text : Octets} (h : escaped? b = some text) :
    ∃ i : MacroItem, i.Allowed mode ∧ i.spell = ['%'.toUInt8, b] ∧ i.units = text.map .octet ∧
      text ≠ [] := by
  revert h
  fun_cases escaped? b
  all_goals intro h
  all_goals cases h
  case case1 hb => exact ⟨.percent, trivial, by rw [hb]; rfl, rfl, by decide⟩
  case case2 hb => exact ⟨.space, trivial, by rw [hb]; rfl, rfl, by decide⟩
  case case3 hb => exact ⟨.escapedSpace, trivial, by rw [hb]; rfl, rfl, by decide⟩

/-- What is read from a place on is spelled by items, the first of which has begun. -/
theorem exists_items_of_parseFrom {place : Place} {octets : Octets} {m : MacroString}
    (h : parseFrom mode place octets = some m) :
    ∃ items : List MacroItem, (∀ i ∈ items, i.Allowed mode) ∧
      items.flatMap MacroItem.spell = place.begun ++ octets ∧
      m = ofUnits (items.flatMap MacroItem.units) := by
  fun_induction parseFrom mode place octets generalizing m with
  | case1 =>
    cases h
    exact ⟨[], by simp, rfl, rfl⟩
  | case4 rest ih => exact ih h
  | case5 b rest hb hliteral ih =>
    obtain ⟨m, hm, rfl⟩ := Option.map_eq_some_iff.1 h
    have hplain : (MacroItem.plain b).Allowed mode := by
      refine ⟨hb, fun hmode => ?_⟩
      subst hmode
      simpa [MacroMode.allowsLiteral] using hliteral
    obtain ⟨items, hitems, hspell, rfl⟩ := ih hm
    exact ⟨.plain b :: items, List.forall_mem_cons.2 ⟨hplain, hitems⟩,
      congrArg (b :: ·) hspell, rfl⟩
  | case7 rest ih => exact ih h
  | case8 b rest hbrace text hescaped ih =>
    obtain ⟨m, hm, rfl⟩ := Option.map_eq_some_iff.1 h
    obtain ⟨items, hitems, hrest, rfl⟩ := ih hm
    obtain ⟨i, hi, hspell, hunits, htext⟩ := exists_item_of_escaped? hescaped
    refine ⟨i :: items, List.forall_mem_cons.2 ⟨hi, hitems⟩, ?_, ?_⟩
    · rw [List.flatMap_cons, hspell, hrest]
      rfl
    · rw [List.flatMap_cons, hunits, ofUnits_octets htext]
  | case10 read rest e he ih =>
    obtain ⟨m, hm, rfl⟩ := Option.map_eq_some_iff.1 h
    obtain ⟨items, hitems, hrest, rfl⟩ := ih hm
    obtain ⟨w, hw, hbody, rfl⟩ := Expansion.parse?_eq_some_iff.1 he
    refine ⟨.expansion w :: items, List.forall_mem_cons.2 ⟨hw, hitems⟩, ?_, rfl⟩
    rw [List.flatMap_cons, hrest, MacroItem.spell, hbody]
    simp [Place.begun]
  | case12 b read rest hb ih =>
    obtain ⟨items, hitems, hspell, hm⟩ := ih h
    exact ⟨items, hitems, by simpa [Place.begun] using hspell, hm⟩
  | _ => cases h

/-- Between the braces everything is kept up to the closing one. -/
theorem parseFrom_braces {body : Octets} (hbody : ∀ b ∈ body, b ≠ '}'.toUInt8)
    (read rest : Octets) :
    parseFrom mode (.braces read) (body ++ '}'.toUInt8 :: rest) =
      (Expansion.parse? mode (read.reverse ++ body)).bind fun e =>
        (parseFrom mode .text rest).map (.expansion e :: ·) := by
  induction body generalizing read with
  | nil =>
    rw [List.nil_append, parseFrom, if_pos rfl, List.append_nil]
    cases Expansion.parse? mode read.reverse <;> rfl
  | cons b body ih =>
    rw [List.cons_append, parseFrom, if_neg (hbody b List.mem_cons_self),
      ih fun c hc => hbody c (List.mem_cons_of_mem b hc), List.reverse_cons, List.append_assoc]
    rfl

/-- An escape is read as its text. -/
theorem parseFrom_escape {b : UInt8} {text : Octets} (h : escaped? b = some text) (rest : Octets) :
    parseFrom mode .text ('%'.toUInt8 :: b :: rest) =
      (parseFrom mode .text rest).map (consLiteral text) := by
  have hbrace : b ≠ '{'.toUInt8 := by
    rintro rfl
    cases h
  rw [parseFrom, if_pos rfl, parseFrom, if_neg hbrace, h]

/-- Items are read as what they stand for. -/
theorem parseFrom_spell {items : List MacroItem} (h : ∀ i ∈ items, i.Allowed mode) :
    parseFrom mode .text (items.flatMap MacroItem.spell) =
      some (ofUnits (items.flatMap MacroItem.units)) := by
  induction items with
  | nil => rfl
  | cons i items ih =>
    have hrest := ih fun j hj => h j (List.mem_cons_of_mem i hj)
    have hi := h i List.mem_cons_self
    rw [List.flatMap_cons, List.flatMap_cons]
    cases i with
    | plain b =>
      have hliteral : mode.allowsLiteral b = true := by
        cases mode with
        | explanation => rfl
        | domainSpec => simpa [MacroMode.allowsLiteral] using hi.2 rfl
      change parseFrom mode .text (b :: items.flatMap MacroItem.spell) = _
      rw [parseFrom, if_neg hi.1, if_pos hliteral, hrest]
      rfl
    | percent =>
      change parseFrom mode .text ('%'.toUInt8 :: '%'.toUInt8 :: items.flatMap MacroItem.spell) = _
      rw [parseFrom_escape rfl, hrest, MacroItem.units, ofUnits_octets (by decide)]
      rfl
    | space =>
      change parseFrom mode .text ('%'.toUInt8 :: '_'.toUInt8 :: items.flatMap MacroItem.spell) = _
      rw [parseFrom_escape rfl, hrest, MacroItem.units, ofUnits_octets (by decide)]
      rfl
    | escapedSpace =>
      change parseFrom mode .text ('%'.toUInt8 :: '-'.toUInt8 :: items.flatMap MacroItem.spell) = _
      rw [parseFrom_escape rfl, hrest, MacroItem.units, ofUnits_octets (by decide)]
      rfl
    | expansion w =>
      change parseFrom mode .text ('%'.toUInt8 :: '{'.toUInt8 ::
        (w.body ++ ['}'.toUInt8] ++ items.flatMap MacroItem.spell)) = _
      rw [parseFrom, if_pos rfl, parseFrom, if_pos rfl, List.append_assoc, List.singleton_append,
        parseFrom_braces hi.ne_brace, List.reverse_nil, List.nil_append,
        Expansion.parse?_eq_some_iff.2 ⟨w, hi, rfl, rfl⟩, hrest]
      rfl

/-- The macro strings of a mode are the sequences of its items. They are read in normal form,
standing for what the items stand for in order; only the empty one is read as nothing. Counts
are what their digits spell, as far as a word holds it, and properties are cut at the octets
that are listed, or at the dot. -/
theorem parse?_iff_grammar (mode : MacroMode) (octets : Octets) :
    (∀ m, parse? mode octets = some m ↔ ∃ items : List MacroItem,
      (∀ i ∈ items, i.Allowed mode) ∧ items.flatMap MacroItem.spell = octets ∧
        m.IsNormal ∧ m.units = items.flatMap MacroItem.units) ∧
    (∀ m, parse? mode octets = some m → (m = [] ↔ octets = [])) ∧
    ∀ w : WrittenExpansion, w.Allowed mode →
      w.meaning.parts.toNat = min w.digits.decimalValue (2 ^ 32 - 1) ∧
        ∀ b, w.meaning.delimiters.contains b = true ↔ b ∈ w.cuts := by
  have hread : ∀ m, parse? mode octets = some m ↔ ∃ items : List MacroItem,
      (∀ i ∈ items, i.Allowed mode) ∧ items.flatMap MacroItem.spell = octets ∧
        m = ofUnits (items.flatMap MacroItem.units) := by
    intro m
    constructor
    · exact exists_items_of_parseFrom
    · rintro ⟨items, hitems, rfl, rfl⟩
      exact parseFrom_spell hitems
  refine ⟨fun m => ?_, fun m hm => ?_, fun w hw => ⟨w.toNat_parts, hw.contains_iff⟩⟩
  · simp only [hread, eq_ofUnits_iff]
  · obtain ⟨items, -, rfl, rfl⟩ := (hread m).1 hm
    cases items with
    | nil => exact iff_of_true rfl rfl
    | cons i items =>
      refine iff_of_false (fun hnil => ?_) fun hnil => ?_
      · have hunits := units_ofUnits ((i :: items).flatMap MacroItem.units)
        rw [hnil] at hunits
        exact i.units_ne_nil (List.append_eq_nil_iff.1 hunits.symm).1
      · exact i.spell_ne_nil (List.append_eq_nil_iff.1 hnil).1

end MacroString

end SenderPolicy
