import SenderPolicy.Proofs.MacroGrammar
import SenderPolicy.Proofs.PercentEncoding

/-!
# Inserting properties

A property is cut at the delimiters, its parts may be reversed, the last of them are kept, and dots
are put between these. If nothing is asked for, it is cut at its dots and joined with dots again,
and is inserted as it is. The delimiters are the bits of a word; those that are read have a bit
each.

Main definitions:

- `CutAt`, `Rightmost`: a list and its parts, and the last of its items;
- `Expansion.Inserts`: what is inserted for a property;
- `Delimiters.checkedBit?`, `Delimiters.checkedContains?`: the bit of an octet, and whether a set
  has it, where a word has no such bit in between.

Main results:

- `cutAt_iff`: lists have their parts in one way;
- `Expansion.apply_eq_transform`: a property that is inserted as it is could be cut as well;
- `Expansion.inserts_apply`: what is inserted for a property;
- `Expansion.apply_of_parseDelimiters?`: what is inserted where it is cut at delimiters that were
  read;
- `Expansion.apply_escapes`: what is inserted with escapes.
-/

namespace SenderPolicy

/-! ## Parts of a list -/

section

variable {α : Type}

/-- A list, and its parts between the items that are marks. -/
inductive CutAt (mark : α → Prop) : List α → List (List α) → Prop where
  | uncut {part : List α} (hpart : ∀ a ∈ part, ¬ mark a) : CutAt mark part [part]
  | cut {part rest : List α} {parts : List (List α)} {a : α} (hpart : ∀ b ∈ part, ¬ mark b)
      (ha : mark a) (hrest : CutAt mark rest parts) : CutAt mark (part ++ a :: rest) (part :: parts)

/-- The last items of a list: as many as are counted, or all if there are no more or none are
counted. -/
structure Rightmost (count : Nat) (l kept : List α) : Prop where
  suffix : kept <:+ l
  length : kept.length = if count = 0 then l.length else min count l.length

/-- Lists have their parts in one way. -/
theorem cutAt_iff {mark : α → Bool} {l : List α} {parts : List (List α)} :
    CutAt (mark · = true) l parts ↔ pieces mark l = parts := by
  constructor
  · intro h
    induction h with
    | uncut hpart => exact pieces_of_forall_not fun a ha => Bool.eq_false_iff.2 (hpart a ha)
    | @cut part rest parts a hpart ha _ ih =>
      have hrest : pieces mark (a :: rest) = [] :: parts := by simp [pieces, ha, ih]
      rw [pieces_append_of_forall_not (fun b hb => Bool.eq_false_iff.2 (hpart b hb)) hrest,
        List.append_nil]
  · rintro rfl
    induction l with
    | nil => exact .uncut (List.forall_mem_nil _)
    | cons a l ih =>
      obtain ⟨part, parts, hparts⟩ := exists_pieces_eq_cons mark l
      by_cases ha : mark a = true
      · have hcut : CutAt (mark · = true) ([] ++ a :: l) ([] :: pieces mark l) :=
          .cut (List.forall_mem_nil _) ha ih
        simpa [pieces, ha] using hcut
      · have hpieces : pieces mark (a :: l) = (a :: part) :: parts := by simp [pieces, ha, hparts]
        rw [hparts] at ih
        rw [hpieces]
        cases ih with
        | uncut hpart => exact .uncut (List.forall_mem_cons.2 ⟨ha, hpart⟩)
        | cut hpart hmark hrest =>
          rw [← List.cons_append]
          exact .cut (List.forall_mem_cons.2 ⟨ha, hpart⟩) hmark hrest

/-- Parts without marks are those of the list that they make up with marks between them. -/
theorem cutAt_intercalate {mark : α} {parts : List (List α)} (h : ∀ part ∈ parts, mark ∉ part)
    (hne : parts ≠ []) : CutAt (· = mark) ([mark].intercalate parts) parts := by
  induction parts with
  | nil => exact absurd rfl hne
  | cons part parts ih =>
    obtain ⟨hpart, hrest⟩ := List.forall_mem_cons.1 h
    have hmarks : ∀ a ∈ part, a ≠ mark := fun a ha heq => hpart (heq ▸ ha)
    cases parts with
    | nil =>
      rw [List.intercalate_singleton]
      exact .uncut hmarks
    | cons next parts =>
      rw [List.intercalate_cons_cons, List.append_assoc]
      exact .cut hmarks rfl (ih hrest (List.cons_ne_nil next parts))

/-- The parts that are kept are the rightmost ones. -/
theorem rightmost_keepLast (count : Nat) (l : List α) : Rightmost count l (keepLast count l) := by
  unfold keepLast
  split
  next h =>
    simp only [Bool.and_eq_true, decide_eq_true_eq] at h
    refine ⟨List.drop_suffix _ l, ?_⟩
    rw [List.length_drop, if_neg (by omega)]
    omega
  next h =>
    simp only [Bool.and_eq_true, decide_eq_true_eq] at h
    refine ⟨List.suffix_rfl, ?_⟩
    split <;> omega

end

/-! ## Bits of delimiters -/

namespace Delimiters

/-- The bit of an octet, if a word has such a bit. -/
def checkedBit? (b : UInt8) : Option UInt64 :=
  if firstOctet ≤ b ∧ b - firstOctet ≤ 63 then some (1 <<< (b - firstOctet).toUInt64) else none

/-- Whether an octet is a member, unless a bit is asked for that a word does not have. -/
def checkedContains? (set : Delimiters) (b : UInt8) : Option Bool :=
  if firstOctet ≤ b ∧ b ≤ lastOctet then (checkedBit? b).map (set.bits &&& · != 0) else some false

/-- A word has a bit for every octet that can be a member. -/
theorem checkedBit?_eq {b : UInt8} (h : CanHold b) : checkedBit? b = some (bit b) := by
  have hplace : (b - firstOctet).toNat = place b := UInt8.toNat_sub_of_le _ _ h.1
  have hlt := (toNat_eq_place h).2
  refine if_pos ⟨h.1, ?_⟩
  rw [UInt8.le_iff_toNat_le, hplace]
  exact Nat.le_of_lt_succ hlt

/-- No bit is asked for that a word does not have. -/
theorem checkedContains?_eq (set : Delimiters) (b : UInt8) :
    set.checkedContains? b = some (set.contains b) := by
  unfold checkedContains? contains
  split
  next h => simp [checkedBit?_eq h, h.1, h.2]
  next h =>
    have hrange : (decide (firstOctet ≤ b) && decide (b ≤ lastOctet)) = false := by simpa using h
    rw [hrange, Bool.false_and]

/-- The only member of the set that is used if none is given. -/
theorem contains_dot : dot.contains = fun b => decide (b = '.'.toUInt8) := by
  have hdot : ∀ c ∈ ['.'.toUInt8], CanHold c := by
    intro c hc
    rw [List.mem_singleton.1 hc]
    exact Expansion.canHold_of_mem (by decide)
  refine funext fun b => ?_
  rw [Bool.eq_iff_iff, decide_eq_true_eq]
  exact (contains_ofOctets hdot).trans List.mem_singleton

end Delimiters

/-! ## What is inserted -/

namespace Expansion

/-- What is inserted for a property that is cut at marks: of its parts, reversed or not, the last,
written as they are or in percent encoding, with dots between them. -/
def Inserts (mark : UInt8 → Prop) (count : Nat) (reverse escape : Bool) (value out : Octets) :
    Prop :=
  ∃ parts kept written : List Octets, CutAt mark value parts ∧
    Rightmost count (if reverse then parts.reverse else parts) kept ∧
    (if escape then List.Forall₂ PercentEncodes kept written else written = kept) ∧
    out = ['.'.toUInt8].intercalate written

/-- Nothing is inserted for a property that is empty. -/
theorem transform_nil (e : Expansion) : e.transform [] = [] := by
  have hkept : keepLast e.parts.toNat [([] : Octets)] = [[]] := by
    simp only [keepLast, List.length_singleton, Bool.and_eq_true, decide_eq_true_eq]
    exact if_neg (by omega)
  unfold transform
  cases e.reverse <;> cases e.escape <;> simp [pieces, hkept, percentEscape, List.intercalate]

/-- A property that is inserted as it is could be cut and joined again. -/
theorem apply_eq_transform (e : Expansion) (value : Octets) :
    e.apply value = e.transform value := by
  unfold apply
  split
  next h =>
    rw [Bool.or_eq_true, List.isEmpty_iff] at h
    rcases h with rfl | hplain
    · exact e.transform_nil.symm
    · simp only [isPlain, Bool.and_eq_true, beq_iff_eq, Bool.not_eq_true'] at hplain
      obtain ⟨⟨⟨hparts, hreverse⟩, hescape⟩, hdelimiters⟩ := hplain
      simp only [transform, hparts, hreverse, hescape, hdelimiters, Delimiters.contains_dot,
        keepLast]
      exact (intercalate_pieces '.'.toUInt8 value).symm
  next => rfl

/-- Every part is escaped by itself. -/
theorem forall₂_percentEscape (parts : List Octets) :
    List.Forall₂ PercentEncodes parts (parts.map percentEscape) := by
  apply List.forall₂_map_right_iff.2
  exact List.forall₂_same.2 fun part _ => percentEncodes_percentEscape part

/-- What is inserted for a property. -/
theorem inserts_apply (e : Expansion) (value : Octets) :
    Inserts (e.delimiters.contains · = true) e.parts.toNat e.reverse e.escape value
      (e.apply value) := by
  rw [apply_eq_transform]
  refine ⟨_, _, _, cutAt_iff.2 rfl, rightmost_keepLast _ _, ?_, rfl⟩
  split
  next => exact forall₂_percentEscape _
  next => rfl

/-- A property that is cut at delimiters that were read is cut at those that are listed, or at dots
if none is. Its parts are reversed if asked, the last of them are kept, if a count is given and
there are more, and they are written in percent encoding if asked, with dots between them. The
property may be inserted as it is where this is the same. Whether an octet is a delimiter is never
asked of a bit that a word does not have. -/
theorem apply_of_parseDelimiters? {listed : Octets} {set : Delimiters}
    (hset : parseDelimiters? listed = some set) (letter : Letter) (count : UInt32)
    (reverse escape : Bool) (value : Octets) :
    let e : Expansion := ⟨letter, count, reverse, escape, set⟩
    let cuts := if listed = [] then ['.'.toUInt8] else listed
    Inserts (· ∈ cuts) count.toNat reverse escape value (e.apply value) ∧
      e.transform value = e.apply value ∧
      (∀ b, set.contains b = true ↔ b ∈ cuts) ∧
      (∀ b, set.checkedContains? b = some (set.contains b)) ∧
      ∀ b ∈ cuts, Delimiters.checkedBit? b = some (Delimiters.bit b) := by
  intro e cuts
  obtain ⟨hlisted, hcuts⟩ := parseDelimiters?_eq_some_iff.1 hset
  have hhold : ∀ b ∈ cuts, Delimiters.CanHold b := by
    intro b hb
    apply canHold_of_mem
    unfold cuts at hb
    split at hb
    · rw [List.mem_singleton.1 hb]
      decide
    · exact hlisted b hb
  have hmem : ∀ b, set.contains b = true ↔ b ∈ cuts := by
    intro b
    rw [hcuts]
    exact Delimiters.contains_ofOctets hhold
  have hmark : (e.delimiters.contains · = true) = (· ∈ cuts) := funext fun b => propext (hmem b)
  have hinserts := e.inserts_apply value
  rw [hmark] at hinserts
  exact ⟨hinserts, (e.apply_eq_transform value).symm, hmem, set.checkedContains?_eq,
    fun b hb => Delimiters.checkedBit?_eq (hhold b hb)⟩

/-- At two delimiters, with the parts reversed and the last two kept in percent encoding. -/
theorem apply_of_parseDelimiters?_pair :
    let set : Delimiters := .ofOctets (.ofAscii ['-', '+'])
    let e : Expansion := ⟨.localPart, 2, true, true, set⟩
    parseDelimiters? (.ofAscii ['-', '+']) = some set ∧
      e.apply (.ofAscii "a b-c.d+e-f".toList) = .ofAscii "c.d.a%20b".toList ∧
      Inserts (· ∈ Octets.ofAscii ['-', '+']) 2 true true (.ofAscii "a b-c.d+e-f".toList)
        (.ofAscii "c.d.a%20b".toList) := by
  intro set e
  have hset : parseDelimiters? (.ofAscii ['-', '+']) = some set := by decide
  have happly : e.apply (.ofAscii "a b-c.d+e-f".toList) = .ofAscii "c.d.a%20b".toList := by
    decide +kernel
  have hinserts := (apply_of_parseDelimiters? hset .localPart 2 true true
    (.ofAscii "a b-c.d+e-f".toList)).1
  exact ⟨hset, happly, happly ▸ hinserts⟩

/-! ## Escapes -/

/-- The same expansion with escapes, or without. -/
def withEscape (escape : Bool) (e : Expansion) : Expansion := { e with escape := escape }

/-- With escapes, what is inserted without them is written in percent encoding. -/
theorem percentEncodes_apply (e : Expansion) (value : Octets) :
    PercentEncodes ((e.withEscape false).apply value) ((e.withEscape true).apply value) := by
  rw [apply_eq_transform, apply_eq_transform]
  exact percentEncodes_intercalate (forall₂_percentEscape _)

end Expansion

/-- The same expansion as it is written with a capital letter, or with a small one. -/
def WrittenExpansion.withCapital (capital : Bool) (w : WrittenExpansion) : WrittenExpansion :=
  { w with capital := capital }

namespace Expansion

/-- A capital letter asks for escapes. However the property is cut, reversed and shortened, what is
inserted then can be read back as what is inserted with the small letter, and has no octets but
unreserved ones and percent signs with two digits. -/
theorem apply_escapes :
    (∀ (e : Expansion) (value : Octets),
      percentDecode? ((e.withEscape true).apply value) = some ((e.withEscape false).apply value) ∧
        PercentEncoded ((e.withEscape true).apply value)) ∧
    ∀ (mode : MacroMode) (w : WrittenExpansion), w.Allowed mode → ∀ capital,
      parse? mode (w.withCapital capital).body = some (w.meaning.withEscape capital) := by
  constructor
  · intro e value
    exact ⟨(e.percentEncodes_apply value).decode, (e.percentEncodes_apply value).encoded⟩
  · intro mode w hw capital
    have hallowed : (w.withCapital capital).Allowed mode :=
      ⟨hw.letter, hw.digits, hw.count, hw.delimiters⟩
    exact parse?_eq_some_iff.2 ⟨_, hallowed, rfl, rfl⟩

end Expansion

end SenderPolicy
