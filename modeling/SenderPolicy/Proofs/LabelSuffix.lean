import Mathlib.Data.Nat.PSub
import SenderPolicy.Proofs.AsciiCase
import SenderPolicy.Proofs.SmallForm
import SenderPolicy.Proofs.Utf8Writing

/-!
# Names within a domain

Whether a name is within a domain is found out from octets, and means that the labels of the
domain are the last labels of the name, up to ASCII case. For that the octets of a dot and a domain
have to stand for a dot and that domain, wherever they are found at the end of a text.

Main definitions:

- `DomainName.smallLabels`: the labels of a name up to ASCII case.

Main results:

- `pieces_suffix_iff`: the last parts of a list are the parts of what stands after a mark;
- `Text.SmallForm.toLower`: a small form has no ASCII capitals;
- `DomainName.isWithin_iff`, `DomainName.isWithin_lowerCase`: names within a domain by labels;
- `DomainName.isWithin?_decides`: they are found without an index that fails.
-/

namespace SenderPolicy

/-! ## Last parts -/

section

variable {α : Type}

/-- Parts joined with others after them. -/
theorem intercalate_append_parts (a : α) {parts parts' : List (List α)} (h : parts ≠ [])
    (h' : parts' ≠ []) :
    [a].intercalate (parts ++ parts') = [a].intercalate parts ++ a :: [a].intercalate parts' := by
  induction parts with
  | nil => exact absurd rfl h
  | cons part rest ih =>
    cases rest with
    | nil =>
      obtain ⟨part', rest', rfl⟩ := List.exists_cons_of_ne_nil h'
      simp [List.intercalate_cons_cons]
    | cons next rest =>
      have hrest := ih (List.cons_ne_nil next rest)
      rw [List.cons_append] at hrest
      simp [List.intercalate_cons_cons, hrest]

variable [DecidableEq α] {a : α} {l r : List α}

/-- The parts around a mark are those before it and those after it. -/
theorem pieces_append_cons (a : α) (l r : List α) :
    pieces (· = a) (l ++ a :: r) = pieces (· = a) l ++ pieces (· = a) r := by
  induction l with
  | nil => simp [pieces]
  | cons b l ih =>
    obtain ⟨part, parts, hparts⟩ := exists_pieces_eq_cons (· = a) l
    by_cases hb : b = a <;> simp [pieces, hb, ih, hparts]

/-- The parts of a list are the last parts of those lists that are the same or end in it after
a mark. -/
theorem pieces_suffix_iff :
    pieces (· = a) r <:+ pieces (· = a) l ↔ l = r ∨ ∃ front, l = front ++ a :: r := by
  constructor
  · rintro ⟨parts, hparts⟩
    have hl := intercalate_pieces a l
    rw [← hparts] at hl
    by_cases hnil : parts = []
    · rw [hnil, List.nil_append, intercalate_pieces] at hl
      exact .inl hl.symm
    · rw [intercalate_append_parts a hnil (pieces_ne_nil _ r), intercalate_pieces] at hl
      exact .inr ⟨_, hl.symm⟩
  · rintro (rfl | ⟨front, rfl⟩)
    · exact List.suffix_rfl
    · rw [pieces_append_cons]
      exact List.suffix_append _ _

end

/-! ## Capitals -/

namespace Text

/-- What a character becomes has no ASCII capitals. -/
theorem Image.toLower {c d : Char} {small : List Char} (h : Image c small) (hd : d ∈ small) :
    d.toLower = d := by
  have hruns : ∀ run ∈ capitalRuns, 0x5A < run.image := by decide +kernel
  cases h with
  | sigma hs => rcases hs with rfl | rfl <;> (rw [List.mem_singleton.1 hd]; decide)
  | alone =>
    rcases lowerChar_cases c with ⟨-, h⟩ | ⟨-, h⟩ | h | ⟨run, hrun, -, -, h⟩
    · rw [h, List.mem_singleton] at hd
      rw [hd]
      exact eq_toLower (by decide) c
    · rw [h, List.mem_pair] at hd
      rcases hd with rfl | rfl <;> decide
    · have hcapitals : (capitals.all fun c => lowerChar c ≠ [c]) = true := by decide +kernel
      rw [h, List.mem_singleton] at hd
      rcases toLower_cases c with hc | hc
      · rw [hd, hc]
      · exact absurd h (of_decide_eq_true (List.all_eq_true.1 hcapitals c hc))
    · rw [h, List.mem_singleton] at hd
      rw [hd]
      exact toLower_ofNat (Nat.lt_add_right _ (hruns run hrun))

/-- A small form has no ASCII capitals. -/
theorem SmallForm.toLower {cs out : List Char} (h : SmallForm cs out) :
    ∀ c ∈ out, c.toLower = c := by
  induction h with
  | nil => exact List.forall_mem_nil _
  | cons himage _ ih =>
    intro c hc
    rcases List.mem_append.1 hc with hc | hc
    · exact himage.toLower hc
    · exact ih c hc

end Text

/-! ## Names within a domain -/

namespace DomainName

/-- The labels of a name up to ASCII case. -/
def smallLabels (name : String) : List (List Char) := (labels name).map (List.map Char.toLower)

/-- The labels of a name in small letters are its pieces between dots, without a final dot. -/
theorem smallLabels_eq_pieces (name : String) :
    smallLabels name = pieces (· = '.') ((dropFinal '.' name.toList).map Char.toLower) :=
  (pieces_toLower _).symm

/-- A name is within a domain if it ends in the labels of the domain, up to ASCII case. -/
theorem isWithin_iff {domain name : String} :
    isWithin domain name = true ↔ smallLabels domain <:+ smallLabels name := by
  rw [smallLabels_eq_pieces, smallLabels_eq_pieces, pieces_suffix_iff]
  unfold isWithin
  simp only [← Utf8.encode_toLower]
  generalize (dropFinal '.' name.toList).map Char.toLower = inner
  generalize (dropFinal '.' domain.toList).map Char.toLower = outer
  simp only [Bool.or_eq_true, Bool.and_eq_true, beq_iff_eq, decide_eq_true_eq]
  constructor
  · rintro (heq | ⟨-, hdrop⟩)
    · exact .inl (Utf8.encode_injective heq)
    · have hsuffix : Utf8.encode ('.' :: outer) <:+ Utf8.encode inner := by
        rw [show Utf8.encode ('.' :: outer) = '.'.toUInt8 :: Utf8.encode outer from rfl, ← hdrop]
        exact List.drop_suffix _ _
      obtain ⟨front, hfront⟩ := Utf8.encode_suffix_iff.1 hsuffix
      exact .inr ⟨front, hfront.symm⟩
  · rintro (rfl | ⟨front, rfl⟩)
    · exact .inl rfl
    · have hoctets : Utf8.encode (front ++ '.' :: outer) =
          Utf8.encode front ++ '.'.toUInt8 :: Utf8.encode outer := by
        rw [Utf8.encode_append]
        rfl
      refine .inr ⟨?_, ?_⟩
      · simp only [hoctets, List.length_append, List.length_cons]
        omega
      · rw [hoctets]
        apply List.drop_left'
        simp only [List.length_append, List.length_cons]
        omega

/-- A small form has its labels up to ASCII case. -/
theorem smallLabels_lowerCase (name : String) :
    smallLabels (Text.lowerCase name) = labels (Text.lowerCase name) := by
  refine (List.map_congr_left fun label hlabel => ?_).trans (List.map_id _)
  refine (List.map_congr_left fun c hc => ?_).trans (List.map_id _)
  have hmem := mem_of_mem_dropFinal (mem_of_mem_pieces hlabel hc)
  exact (Text.smallForm_lowerChars name.toList).toLower c (by simpa [Text.lowerCase] using hmem)

/-- A name in its small form is within a domain in its small form if it ends in its labels. -/
theorem isWithin_lowerCase {domain name : String} :
    isWithin (Text.lowerCase domain) (Text.lowerCase name) = true ↔
      labels (Text.lowerCase domain) <:+ labels (Text.lowerCase name) := by
  rw [isWithin_iff, smallLabels_lowerCase, smallLabels_lowerCase]

end DomainName

/-! ## Indices into names -/

namespace Utf8

/-- The octets of a text from an index on, unless the index is beyond the end or within the octets
of a character. -/
def from? (cs : List Char) (index : Nat) : Option Octets :=
  let rest := (encode cs).drop index
  if index ≤ size cs ∧ StartsCharacter rest then some rest else none

/-- The octet in front of an index, and the octets from there on. -/
theorem drop_eq_cons (cs : List Char) {index : Nat} (hpos : 0 < index) (hle : index ≤ size cs) :
    ∃ b, (encode cs)[index - 1]? = some b ∧
      (encode cs).drop (index - 1) = b :: (encode cs).drop index := by
  have hlt : index - 1 < (encode cs).length := by
    rw [length_encode]
    omega
  refine ⟨(encode cs)[index - 1], List.getElem?_eq_getElem hlt, ?_⟩
  rw [List.drop_eq_getElem_cons hlt, Nat.sub_add_cancel hpos]

/-- An index behind an octet of ASCII is one at which a character starts, or the end. -/
theorem from?_of_ascii {cs : List Char} {index : Nat} {b : UInt8} (hle : index ≤ size cs)
    (hb : b < 0x80) (h : (encode cs).drop (index - 1) = b :: (encode cs).drop index) :
    from? cs index = some ((encode cs).drop index) := by
  have hcut := List.take_append_drop (index - 1) (encode cs)
  rw [h] at hcut
  obtain ⟨ds, hds⟩ := exists_text_after_ascii hb hcut.symm
  exact if_pos ⟨hle, hds ▸ startsCharacter_encode ds⟩

end Utf8

namespace DomainName

/-- Whether a name is a domain or lies below it, where nothing is found if an index comes out
negative, or is not one into the name, or is one within a character. -/
def isWithin? (domain name : String) : Option Bool := do
  let inner := dropFinal '.' name.toList
  let outer := dropFinal '.' domain.toList
  if (Utf8.encode inner).eqIgnoreCase (Utf8.encode outer) then return true
  else if Utf8.size outer < Utf8.size inner then
    let start ← (Utf8.size inner).psub (Utf8.size outer)
    let octet ← (Utf8.encode inner)[← start.ppred]?
    if octet = '.'.toUInt8 then
      return (← Utf8.from? inner start).eqIgnoreCase (Utf8.encode outer)
    else return false
  else return false

/-- No index fails, since those that are used come of guards. -/
theorem isWithin?_eq_some (domain name : String) :
    isWithin? domain name = some (isWithin domain name) := by
  unfold isWithin? isWithin
  generalize dropFinal '.' name.toList = inner
  generalize dropFinal '.' domain.toList = outer
  simp only [Octets.eqIgnoreCase, Octets.lower, List.length_map, Utf8.length_encode]
  by_cases hsame : (Utf8.encode inner).map Octet.lower = (Utf8.encode outer).map Octet.lower
  · simp [hsame]
  by_cases hsize : Utf8.size outer < Utf8.size inner
  · have hpos : 0 < Utf8.size inner - Utf8.size outer := Nat.sub_pos_of_lt hsize
    have hle : Utf8.size inner - Utf8.size outer ≤ Utf8.size inner := Nat.sub_le _ _
    have hstart := Nat.psub_eq_sub (Nat.le_of_lt hsize)
    generalize Utf8.size inner - Utf8.size outer = start at *
    have hplace : start.ppred = some (start - 1) := Nat.ppred_eq_pred hpos
    obtain ⟨b, hb, hdrop⟩ := Utf8.drop_eq_cons inner hpos hle
    rw [← List.map_drop, hdrop]
    by_cases hdot : b = '.'.toUInt8
    · -- A character starts after a dot, or the name ends there.
      have hfrom := Utf8.from?_of_ascii hle (hdot ▸ by decide) hdrop
      have hlower : Octet.lower '.'.toUInt8 = '.'.toUInt8 := rfl
      simp [hsame, hsize, hstart, hplace, hb, hdot, hfrom, hlower]
    · have hlower : Octet.lower b ≠ '.'.toUInt8 := by
        simpa [hdot] using Octet.decide_lower_eq (show Octet.isAlpha '.'.toUInt8 = false from rfl) b
      simp [hsame, hsize, hstart, hplace, hb, hdot, hlower]
  · simp [hsame, hsize]

/-- Whether a name is a domain or lies below it is found for all names without an index that fails.
It is if the labels of the domain are the last labels of the name, up to ASCII case. -/
theorem isWithin?_decides (domain name : String) :
    isWithin? domain name = some (isWithin domain name) ∧
      (isWithin domain name = true ↔ smallLabels domain <:+ smallLabels name) :=
  ⟨isWithin?_eq_some domain name, isWithin_iff⟩

end DomainName

end SenderPolicy
