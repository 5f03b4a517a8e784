import Mathlib.Computability.Language
import SenderPolicy.MacroString.DomainSpec
import SenderPolicy.Proofs.MacroGrammar

/-!
# The grammar of domain-specs

A domain-spec is a macro string with an ending: a dot and a top label, or an expansion in
braces, and one dot may follow either. The end is checked on what has been read, where escapes
have become octets and the literals around them are joined. So the units of the items are cut
where their last expansion stands, and what is found there is traced back to the items: the
octets of a name stand for themselves, since a percent sign or a space comes of every escape.

Main definitions:

- `OptionalDot`, `TopLabel`, `DomainEnd`: the endings as they are written;
- `DomainSpecText`: the texts of the grammar;
- `Grammar.topLabel`: the language of top labels.

Main results:

- `isTopLabel_iff`, `isTopLabel_iff_mem`: the labels that may be last are those of the grammar;
- `DomainSpec.parse?_iff_text`: the domain-specs are the texts of the grammar, and are read as
  macro strings;
- `DomainSpec.parse?_escape`: nothing that ends in an escape is a domain-spec.
-/

namespace SenderPolicy

/-! ## Endings as they are written -/

/-- A dot, or nothing. -/
inductive OptionalDot : Octets → Prop
  | omitted : OptionalDot []
  | given : OptionalDot ['.'.toUInt8]

/-- The labels that may end a name: letters and digits with a letter among them, or with a
hyphen between the first and the last. -/
inductive TopLabel : Octets → Prop
  | lettered {front back : Octets} {letter : UInt8}
      (hfront : ∀ b ∈ front, Octet.isAlphanum b = true) (hletter : Octet.isAlpha letter = true)
      (hback : ∀ b ∈ back, Octet.isAlphanum b = true) : TopLabel (front ++ letter :: back)
  | hyphenated {front middle : Octets} {last : UInt8} (hne : front ≠ [])
      (hfront : ∀ b ∈ front, Octet.isAlphanum b = true)
      (hmiddle : ∀ b ∈ middle, Octet.isAlphanum b = true ∨ b = '-'.toUInt8)
      (hlast : Octet.isAlphanum last = true) :
      TopLabel (front ++ '-'.toUInt8 :: (middle ++ [last]))

/-- The endings of domain-specs: a dot and a top label, or an expansion, and a dot after it or
none. -/
inductive DomainEnd : Octets → Prop
  | topLabel {label dot : Octets} (hlabel : TopLabel label) (hdot : OptionalDot dot) :
      DomainEnd ('.'.toUInt8 :: (label ++ dot))
  | expansion {w : WrittenExpansion} {dot : Octets} (hw : w.Allowed .domainSpec)
      (hdot : OptionalDot dot) : DomainEnd ((MacroItem.expansion w).spell ++ dot)

/-- The texts of the grammar: items of a macro string, and an ending. -/
def DomainSpecText (octets : Octets) : Prop :=
  ∃ (items : List MacroItem) (ending : Octets), (∀ i ∈ items, i.Allowed .domainSpec) ∧
    DomainEnd ending ∧ octets = items.flatMap MacroItem.spell ++ ending

/-! ## Top labels -/

namespace TopLabel

variable {label : Octets}

/-- A top label is made of letters, digits and hyphens. -/
theorem mem (h : TopLabel label) {b : UInt8} (hb : b ∈ label) :
    Octet.isAlphanum b = true ∨ b = '-'.toUInt8 := by
  cases h with
  | lettered hfront hletter hback =>
    simp only [List.mem_append, List.mem_cons] at hb
    rcases hb with hb | rfl | hb
    · exact .inl (hfront b hb)
    · exact .inl (by simp [Octet.isAlphanum, hletter])
    · exact .inl (hback b hb)
  | hyphenated hne hfront hmiddle hlast =>
    simp only [List.mem_append, List.mem_cons, List.not_mem_nil, or_false] at hb
    rcases hb with hb | rfl | hb | rfl
    · exact .inl (hfront b hb)
    · exact .inr rfl
    · exact hmiddle b hb
    · exact .inl hlast

/-- A letter or digit ends a top label. -/
theorem exists_last (h : TopLabel label) :
    ∃ front last, label = front ++ [last] ∧ Octet.isAlphanum last = true := by
  cases h with
  | @lettered front back letter hfront hletter hback =>
    rcases List.eq_nil_or_concat back with rfl | ⟨back, last, rfl⟩
    · exact ⟨front, letter, rfl, by simp [Octet.isAlphanum, hletter]⟩
    · exact ⟨front ++ letter :: back, last, by simp, hback last (by simp)⟩
  | @hyphenated front middle last hne hfront hmiddle hlast =>
    exact ⟨front ++ '-'.toUInt8 :: middle, last, by simp, hlast⟩

/-- Neither dots nor what escapes stand for is found in a top label. -/
theorem not_mem (h : TopLabel label) :
    '.'.toUInt8 ∉ label ∧ '%'.toUInt8 ∉ label ∧ ' '.toUInt8 ∉ label := by
  refine ⟨fun hb => ?_, fun hb => ?_, fun hb => ?_⟩ <;>
    exact absurd (h.mem hb) (by decide)

end TopLabel

/-- The labels that may be last are those of the grammar. -/
theorem isTopLabel_iff {label : Octets} : isTopLabel label = true ↔ TopLabel label := by
  constructor
  · intro h
    simp only [isTopLabel, Bool.and_eq_true, List.all_eq_true, List.any_eq_true, Bool.or_eq_true,
      decide_eq_true_eq] at h
    obtain ⟨⟨⟨hhead, hlast⟩, hall⟩, b, hb, hmark⟩ := h
    by_cases hhyphen : '-'.toUInt8 ∈ label
    · obtain ⟨front, back, rfl, hfirst⟩ := List.eq_append_cons_of_mem hhyphen
      have hfront : ∀ c ∈ front, Octet.isAlphanum c = true := fun c hc =>
        (hall c (List.mem_append_left _ hc)).resolve_right fun heq => hfirst (heq ▸ hc)
      have hne : front ≠ [] := by
        rintro rfl
        rw [List.nil_append, List.head?_cons] at hhead
        exact absurd hhead (by decide)
      rcases List.eq_nil_or_concat back with rfl | ⟨middle, last, rfl⟩
      · rw [List.getLast?_concat] at hlast
        exact absurd hlast (by decide)
      · rw [List.concat_eq_append] at hall hlast ⊢
        refine .hyphenated hne hfront (fun c hc => hall c (by simp [hc])) ?_
        simpa [List.getLast?_append, List.getLast?_cons] using hlast
    · have halphanum : ∀ c ∈ label, Octet.isAlphanum c = true := fun c hc =>
        (hall c hc).resolve_right fun heq => hhyphen (heq ▸ hc)
      have hletter : Octet.isAlpha b = true := hmark.resolve_right fun heq => hhyphen (heq ▸ hb)
      obtain ⟨front, back, rfl⟩ := List.append_of_mem hb
      exact .lettered (fun c hc => halphanum c (by simp [hc])) hletter
        fun c hc => halphanum c (by simp [hc])
  · intro h
    have hhead : (label.head?.map Octet.isAlphanum).getD false = true := by
      cases h with
      | @lettered front back letter hfront hletter hback =>
        cases front with
        | nil => simp [Octet.isAlphanum, hletter]
        | cons b front => exact hfront b List.mem_cons_self
      | @hyphenated front middle last hne hfront hmiddle hlast =>
        cases front with
        | nil => exact absurd rfl hne
        | cons b front => exact hfront b List.mem_cons_self
    have hmark : ∃ b ∈ label, Octet.isAlpha b = true ∨ b = '-'.toUInt8 := by
      cases h with
      | lettered hfront hletter hback => exact ⟨_, by simp, .inl hletter⟩
      | hyphenated hne hfront hmiddle hlast => exact ⟨_, by simp, .inr rfl⟩
    have hall : ∀ b ∈ label, Octet.isAlphanum b = true ∨ b = '-'.toUInt8 := fun b => h.mem
    obtain ⟨front, last, rfl, hlast⟩ := h.exists_last
    simp only [isTopLabel, Bool.and_eq_true, List.all_eq_true, List.any_eq_true, Bool.or_eq_true,
      decide_eq_true_eq]
    exact ⟨⟨⟨hhead, by simpa using hlast⟩, hall⟩, hmark⟩

/-! ## The language of top labels -/

namespace Grammar

open scoped Computability

/-- The octets from one character to another, each by itself. -/
def between (first last : Char) : Language UInt8 :=
  {text | ∃ b, first.toUInt8 ≤ b ∧ b ≤ last.toUInt8 ∧ text = [b]}

/-- An ASCII letter. -/
def alpha : Language UInt8 := between 'A' 'Z' + between 'a' 'z'

/-- An ASCII letter or digit. -/
def alphanum : Language UInt8 := alpha + between '0' '9'

/-- A hyphen. -/
def hyphen : Language UInt8 := between '-' '-'

/-- The rule `( *alphanum ALPHA *alphanum ) / ( 1*alphanum "-" *( alphanum / "-" ) alphanum )`. -/
def topLabel : Language UInt8 :=
  alphanum∗ * alpha * alphanum∗ + alphanum * alphanum∗ * hyphen * (alphanum + hyphen)∗ * alphanum

variable {text : Octets}

theorem mem_alpha : text ∈ alpha ↔ ∃ b, Octet.isAlpha b = true ∧ text = [b] := by
  simp only [Octet.isAlpha, Octet.isUpper, Octet.isLower, Bool.or_eq_true, Bool.and_eq_true,
    decide_eq_true_eq, or_and_right, exists_or, and_assoc]
  rfl

/-- The texts of alphanum are single letters and digits. -/
theorem mem_alphanum : text ∈ alphanum ↔ ∃ b, Octet.isAlphanum b = true ∧ text = [b] := by
  have hdigit : text ∈ between '0' '9' ↔ ∃ b, Octet.isDigit b = true ∧ text = [b] := by
    simp only [Octet.isDigit, Bool.and_eq_true, decide_eq_true_eq, and_assoc]
    rfl
  simp only [Octet.isAlphanum, Bool.or_eq_true, or_and_right, exists_or, ← mem_alpha, ← hdigit]
  rfl

theorem mem_hyphen : text ∈ hyphen ↔ text = ['-'.toUInt8] := by
  constructor
  · rintro ⟨b, hle, hge, rfl⟩
    rw [UInt8.le_antisymm hge hle]
  · rintro rfl
    exact ⟨_, UInt8.le_refl _, UInt8.le_refl _, rfl⟩

/-- The texts of octets of a class are those that repeat it. -/
theorem mem_kstar_iff {l : Language UInt8} {P : UInt8 → Prop}
    (h : ∀ {text}, text ∈ l ↔ ∃ b, P b ∧ text = [b]) : text ∈ l∗ ↔ ∀ b ∈ text, P b := by
  constructor
  · rintro ⟨parts, rfl, hparts⟩ b hb
    obtain ⟨part, hpart, hmem⟩ := List.mem_flatten.1 hb
    obtain ⟨c, hc, rfl⟩ := h.1 (hparts part hpart)
    rwa [List.mem_singleton.1 hmem]
  · intro hall
    have htext : text = (text.map fun b => [b]).flatten := by
      rw [← List.flatMap_def, List.flatMap_singleton']
    refine Language.mem_kstar.2 ⟨_, htext, fun part hpart => ?_⟩
    obtain ⟨b, hb, rfl⟩ := List.mem_map.1 hpart
    exact h.2 ⟨b, hall b hb, rfl⟩

/-- Repeated, they are the texts of letters and digits. -/
theorem mem_alphanum_kstar : text ∈ alphanum∗ ↔ ∀ b ∈ text, Octet.isAlphanum b = true :=
  mem_kstar_iff mem_alphanum

/-- With hyphens among them, they are the texts of letters, digits and hyphens. -/
theorem mem_alphanum_add_hyphen_kstar :
    text ∈ (alphanum + hyphen)∗ ↔ ∀ b ∈ text, Octet.isAlphanum b = true ∨ b = '-'.toUInt8 := by
  apply mem_kstar_iff
  intro text
  rw [Language.mem_add, mem_alphanum, mem_hyphen]
  simp only [or_and_right, exists_or, exists_eq_left]

/-- The top labels are the words of the language. -/
theorem mem_topLabel_iff {label : Octets} : label ∈ topLabel ↔ TopLabel label := by
  constructor
  · rintro (h | h)
    · obtain ⟨_, ⟨front, hfront, _, hone, rfl⟩, back, hback, rfl⟩ := h
      obtain ⟨letter, hletter, rfl⟩ := mem_alpha.1 hone
      have hlabel := TopLabel.lettered (mem_alphanum_kstar.1 hfront) hletter
        (mem_alphanum_kstar.1 hback)
      simpa using hlabel
    · obtain ⟨_, ⟨_, ⟨_, ⟨_, hone, front, hfront, rfl⟩, _, hhyphen, rfl⟩, middle, hmiddle, rfl⟩,
        _, hend, rfl⟩ := h
      obtain ⟨first, hfirst, rfl⟩ := mem_alphanum.1 hone
      obtain ⟨last, hlast, rfl⟩ := mem_alphanum.1 hend
      rw [mem_hyphen.1 hhyphen]
      have hlabel := TopLabel.hyphenated (List.cons_ne_nil first front)
        (List.forall_mem_cons.2 ⟨hfirst, mem_alphanum_kstar.1 hfront⟩)
        (mem_alphanum_add_hyphen_kstar.1 hmiddle) hlast
      simpa using hlabel
  · intro h
    cases h with
    | @lettered front back letter hfront hletter hback =>
      have hword := Language.append_mem_mul (Language.append_mem_mul
        (mem_alphanum_kstar.2 hfront) (mem_alpha.2 ⟨letter, hletter, rfl⟩))
        (mem_alphanum_kstar.2 hback)
      rw [topLabel, Language.mem_add]
      exact .inl (by simpa using hword)
    | @hyphenated front middle last hne hfront hmiddle hlast =>
      obtain ⟨first, front, rfl⟩ := List.exists_cons_of_ne_nil hne
      rw [List.forall_mem_cons] at hfront
      have hword := Language.append_mem_mul (Language.append_mem_mul (Language.append_mem_mul
        (Language.append_mem_mul (mem_alphanum.2 ⟨first, hfront.1, rfl⟩)
          (mem_alphanum_kstar.2 hfront.2)) (mem_hyphen.2 rfl))
        (mem_alphanum_add_hyphen_kstar.2 hmiddle)) (mem_alphanum.2 ⟨last, hlast, rfl⟩)
      rw [topLabel, Language.mem_add]
      exact .inr (by simpa using hword)

end Grammar

/-- The labels that may be last are the words that the rule for top labels describes, with the
letters and digits of ASCII. -/
theorem isTopLabel_iff_mem (label : Octets) :
    isTopLabel label = true ↔ label ∈ Grammar.topLabel := by
  rw [isTopLabel_iff, Grammar.mem_topLabel_iff]

/-! ## Literals at the end -/

/-- Without its final dot a text is followed by a dot or by nothing. -/
theorem exists_optionalDot (text : Octets) :
    ∃ dot, OptionalDot dot ∧ text = dropFinal '.'.toUInt8 text ++ dot := by
  by_cases hlast : text.getLast? = some '.'.toUInt8
  · obtain ⟨front, rfl⟩ := List.getLast?_eq_some_iff.1 hlast
    exact ⟨_, .given, by rw [dropFinal_append]⟩
  · exact ⟨[], .omitted, by rw [dropFinal_of_ne hlast, List.append_nil]⟩

/-- A dot may follow what does not end in one. -/
theorem dropFinal_optionalDot {text dot : Octets} (h : OptionalDot dot)
    (htext : text.getLast? ≠ some '.'.toUInt8) : dropFinal '.'.toUInt8 (text ++ dot) = text := by
  cases h with
  | omitted => rw [List.append_nil, dropFinal_of_ne htext]
  | given => exact dropFinal_append _ text

namespace DomainSpec

/-- A literal ends well if a dot, a top label and perhaps a dot end it, or if at most a dot is
left of it after an expansion. -/
theorem literalEndsWell_iff {follows : Bool} {text : Octets} :
    literalEndsWell follows text = true ↔
      (∃ front label dot, TopLabel label ∧ OptionalDot dot ∧
        text = front ++ '.'.toUInt8 :: (label ++ dot)) ∨ follows = true ∧ OptionalDot text := by
  constructor
  · intro h
    obtain ⟨dot, hdot, htext⟩ := exists_optionalDot text
    unfold literalEndsWell at h
    dsimp only at h
    split at h
    next before label hsplit =>
      have hcore := (splitLast?_eq_some_iff.1 hsplit).1
      refine .inl ⟨before, label, dot, isTopLabel_iff.1 h, hdot, ?_⟩
      rw [htext, hcore, List.append_assoc, List.cons_append]
    next =>
      rw [Bool.and_eq_true, List.isEmpty_iff] at h
      rw [h.2, List.nil_append] at htext
      exact .inr ⟨h.1, htext ▸ hdot⟩
  · rintro (⟨front, label, dot, hlabel, hdot, rfl⟩ | ⟨rfl, hdot⟩)
    · have hlast : (front ++ '.'.toUInt8 :: label).getLast? ≠ some '.'.toUInt8 := by
        obtain ⟨init, last, rfl, -⟩ := hlabel.exists_last
        have hne : last ≠ '.'.toUInt8 := fun heq => hlabel.not_mem.1 (by simp [heq])
        simpa [List.getLast?_append, List.getLast?_cons] using hne
      have hcore : dropFinal '.'.toUInt8 (front ++ '.'.toUInt8 :: (label ++ dot)) =
          front ++ '.'.toUInt8 :: label := by
        rw [← dropFinal_optionalDot hdot hlast, List.append_assoc, List.cons_append]
      have hsplit : splitLast? (· = '.'.toUInt8) (front ++ '.'.toUInt8 :: label) =
          some (front, label) := splitLast?_eq_some_iff.2 ⟨rfl, hlabel.not_mem.1⟩
      simp only [literalEndsWell, hcore, hsplit]
      exact isTopLabel_iff.2 hlabel
    · cases hdot <;> rfl

end DomainSpec

/-! ## The end of a macro string -/

namespace MacroString

/-- Text in front of a segment list is joined to its first literal only, so what follows an
expansion stays as it is. -/
theorem consLiteral_append_expansion (text : Octets) (m m' : MacroString) (e : Expansion) :
    consLiteral text (m ++ .expansion e :: m') = consLiteral text m ++ .expansion e :: m' := by
  rcases m with _ | ⟨more | e', m⟩ <;> rfl

/-- No literal reaches across an expansion. -/
theorem ofUnits_append_expansion (us us' : List MacroUnit) (e : Expansion) :
    ofUnits (us ++ .expansion e :: us') = ofUnits us ++ .expansion e :: ofUnits us' := by
  induction us with
  | nil => rfl
  | cons u us ih =>
    cases u with
    | octet b => rw [List.cons_append, ofUnits, ih, consLiteral_append_expansion, ofUnits]
    | expansion e' =>
      rw [List.cons_append, ofUnits, ih, ofUnits]
      rfl

/-- Units are octets alone, or end in octets after their last expansion. -/
theorem exists_final_octets (us : List MacroUnit) :
    ∃ text : Octets, us = text.map .octet ∨
      ∃ us' e, us = us' ++ .expansion e :: text.map .octet := by
  induction us with
  | nil => exact ⟨[], .inl rfl⟩
  | cons u us ih =>
    obtain ⟨text, rfl | ⟨us', e, rfl⟩⟩ := ih
    · cases u with
      | octet b => exact ⟨b :: text, .inl rfl⟩
      | expansion e => exact ⟨text, .inr ⟨[], e, rfl⟩⟩
    · exact ⟨text, .inr ⟨u :: us', e, rfl⟩⟩

end MacroString

namespace DomainSpec

open MacroString

/-- Octets alone are judged as one literal. -/
theorem endsWell_octets (text : Octets) :
    endsWell (ofUnits (text.map .octet)) = literalEndsWell false text := by
  cases text with
  | nil => rfl
  | cons b text =>
    have hunits := ofUnits_octets (List.cons_ne_nil b text) []
    rw [List.append_nil] at hunits
    rw [hunits]
    rfl

/-- The octets after the last expansion are judged as a literal that follows one. -/
theorem endsWell_expansion (us : List MacroUnit) (e : Expansion) (text : Octets) :
    endsWell (ofUnits (us ++ .expansion e :: text.map .octet)) = literalEndsWell true text := by
  rw [ofUnits_append_expansion]
  cases text with
  | nil =>
    simp only [endsWell, List.map_nil, ofUnits, List.getLast?_concat]
    rfl
  | cons b text =>
    have hunits := ofUnits_octets (List.cons_ne_nil b text) []
    rw [List.append_nil] at hunits
    rw [hunits]
    simp [endsWell, MacroString.ofUnits, MacroString.consLiteral]

/-- What units end well: octets with a top label at their end, or an expansion that at most a dot
follows. -/
theorem endsWell_ofUnits_iff {us : List MacroUnit} :
    endsWell (ofUnits us) = true ↔
      (∃ us' label dot, TopLabel label ∧ OptionalDot dot ∧
        us = us' ++ .octet '.'.toUInt8 :: (label ++ dot).map .octet) ∨
      ∃ us' e dot, OptionalDot dot ∧ us = us' ++ .expansion e :: dot.map .octet := by
  constructor
  · intro h
    obtain ⟨text, rfl | ⟨us, e, rfl⟩⟩ := exists_final_octets us
    · rw [endsWell_octets, literalEndsWell_iff] at h
      obtain ⟨front, label, dot, hlabel, hdot, rfl⟩ | ⟨hfollows, -⟩ := h
      · exact .inl ⟨front.map .octet, label, dot, hlabel, hdot, by simp⟩
      · cases hfollows
    · rw [endsWell_expansion, literalEndsWell_iff] at h
      obtain ⟨front, label, dot, hlabel, hdot, rfl⟩ | ⟨-, hdot⟩ := h
      · exact .inl ⟨us ++ .expansion e :: front.map .octet, label, dot, hlabel, hdot, by simp⟩
      · exact .inr ⟨us, e, text, hdot, rfl⟩
  · rintro (⟨us, label, dot, hlabel, hdot, rfl⟩ | ⟨us, e, dot, hdot, rfl⟩)
    · have hends : ∀ follows front,
          literalEndsWell follows (front ++ '.'.toUInt8 :: (label ++ dot)) = true :=
        fun _ front => literalEndsWell_iff.2 (.inl ⟨front, label, dot, hlabel, hdot, rfl⟩)
      obtain ⟨front, rfl | ⟨us, e, rfl⟩⟩ := exists_final_octets us
      · rw [← hends false front, ← endsWell_octets, ← List.map_cons, ← List.map_append]
      · rw [← hends true front, ← endsWell_expansion us e, List.append_assoc, List.cons_append,
          ← List.map_cons, ← List.map_append]
    · rw [endsWell_expansion, literalEndsWell_iff]
      exact .inr ⟨rfl, hdot⟩

end DomainSpec

/-! ## From what is meant to what is written -/

namespace MacroItem

/-- Octets that no escape begins with stand for themselves. -/
theorem eq_plain_of_units {items : List MacroItem} {name : Octets} (hpercent : '%'.toUInt8 ∉ name)
    (hspace : ' '.toUInt8 ∉ name) (h : items.flatMap units = name.map .octet) :
    items = name.map .plain := by
  induction items generalizing name with
  | nil => rw [List.map_eq_nil_iff.1 h.symm, List.map_nil]
  | cons i items ih =>
    rw [List.flatMap_cons] at h
    cases name with
    | nil => exact absurd (List.append_eq_nil_iff.1 h).1 i.units_ne_nil
    | cons b name =>
      rw [List.mem_cons, not_or] at hpercent hspace
      cases i with
      | plain c =>
        obtain ⟨hhead, htail⟩ := List.cons.inj h
        rw [ih hpercent.2 hspace.2 htail, MacroUnit.octet.inj hhead, List.map_cons]
      | percent => exact absurd (MacroUnit.octet.inj (List.cons.inj h).1) hpercent.1
      | space => exact absurd (MacroUnit.octet.inj (List.cons.inj h).1) hspace.1
      | escapedSpace => exact absurd (MacroUnit.octet.inj (List.cons.inj h).1) hpercent.1
      | expansion w => cases (List.cons.inj h).1

/-- A dot stands for itself. -/
theorem eq_plain_of_dot_mem {i : MacroItem} (h : .octet '.'.toUInt8 ∈ i.units) :
    i = .plain '.'.toUInt8 := by
  cases i with
  | plain b =>
    rw [MacroUnit.octet.inj (List.mem_singleton.1 h)]
  | expansion w => cases List.mem_singleton.1 h
  | _ =>
    simp only [units, Octets.ofAscii, List.map_cons, List.map_nil, List.mem_cons,
      MacroUnit.octet.injEq, List.not_mem_nil, or_false] at h
    exact absurd h (by decide)

/-- A name after a dot, at the end of what items stand for, is written as it is. -/
theorem exists_items_of_dot {items : List MacroItem} {us : List MacroUnit} {name : Octets}
    (hpercent : '%'.toUInt8 ∉ name) (hspace : ' '.toUInt8 ∉ name)
    (h : items.flatMap units = us ++ .octet '.'.toUInt8 :: name.map .octet) :
    ∃ front, items = front ++ ('.'.toUInt8 :: name).map .plain ∧ front.flatMap units = us := by
  induction items generalizing us with
  | nil => simp at h
  | cons i items ih =>
    rw [List.flatMap_cons, List.append_eq_append_iff] at h
    obtain ⟨rest, rfl, hrest⟩ | ⟨beyond, hbeyond, hrest⟩ := h
    · obtain ⟨front, rfl, hfront⟩ := ih hrest
      exact ⟨i :: front, rfl, by rw [List.flatMap_cons, hfront]⟩
    · cases beyond with
      | nil =>
        have hnone : items.flatMap units = [] ++ .octet '.'.toUInt8 :: name.map .octet := hrest.symm
        obtain ⟨front, rfl, hfront⟩ := ih hnone
        exact ⟨i :: front, rfl, by rw [List.flatMap_cons, hfront, hbeyond, List.append_nil,
          List.append_nil]⟩
      | cons u beyond =>
        -- The dot is among the units of the first item, so it is all of them.
        obtain ⟨rfl, htail⟩ := List.cons.inj hrest
        have hi : i = .plain '.'.toUInt8 := eq_plain_of_dot_mem (by simp [hbeyond])
        subst hi
        have hone : us = [] ∧ beyond = [] := by
          have hlength := congrArg List.length hbeyond
          simp only [units, List.length_append, List.length_cons, List.length_nil] at hlength
          exact ⟨List.eq_nil_of_length_eq_zero (by omega), List.eq_nil_of_length_eq_zero (by omega)⟩
        rw [hone.2] at htail
        refine ⟨[], ?_, hone.1.symm⟩
        rw [eq_plain_of_units hpercent hspace htail.symm, List.nil_append, List.map_cons]

/-- An expansion at the end of what items stand for is written there. -/
theorem exists_items_of_expansion {items : List MacroItem} {us : List MacroUnit} {e : Expansion}
    (h : items.flatMap units = us ++ [.expansion e]) :
    ∃ front w, items = front ++ [.expansion w] := by
  rcases List.eq_nil_or_concat items with rfl | ⟨front, i, rfl⟩
  · simp at h
  · rw [List.concat_eq_append] at h ⊢
    have hlast := congrArg List.getLast? h
    rw [List.flatMap_append, List.flatMap_singleton, List.getLast?_append, List.getLast?_concat]
      at hlast
    cases i with
    | expansion w => exact ⟨front, w, rfl⟩
    | _ => cases hlast

/-- Octets are written as they are, and stand for themselves. -/
theorem flatMap_plain (octets : Octets) : (octets.map plain).flatMap spell = octets ∧
    (octets.map plain).flatMap units = octets.map .octet := by
  induction octets with
  | nil => exact ⟨rfl, rfl⟩
  | cons b octets ih => exact ⟨congrArg (b :: ·) ih.1, congrArg (MacroUnit.octet b :: ·) ih.2⟩

end MacroItem

namespace OptionalDot

/-- A dot at the end is allowed in a domain-spec. -/
theorem allowed {dot : Octets} (h : OptionalDot dot) :
    ∀ i ∈ dot.map MacroItem.plain, i.Allowed .domainSpec := by
  cases h with
  | omitted => simp
  | given =>
    intro i hi
    rw [List.mem_singleton.1 hi]
    exact ⟨by decide, fun _ => by decide⟩

theorem not_mem {dot : Octets} (h : OptionalDot dot) : '%'.toUInt8 ∉ dot ∧ ' '.toUInt8 ∉ dot := by
  cases h <;> exact ⟨by decide, by decide⟩

end OptionalDot

/-- The octets of a top label may stand in a domain-spec. -/
theorem TopLabel.allowed {label : Octets} (h : TopLabel label) :
    ∀ i ∈ label.map MacroItem.plain, i.Allowed .domainSpec := by
  intro i hi
  obtain ⟨b, hb, rfl⟩ := List.mem_map.1 hi
  refine ⟨fun heq => h.not_mem.2.1 (heq ▸ hb), fun _ => ?_⟩
  rcases h.mem hb with hb | rfl
  · simp only [Octet.isAlphanum, Octet.isAlpha, Octet.isUpper, Octet.isLower, Octet.isDigit,
      Bool.or_eq_true, Bool.and_eq_true, decide_eq_true_eq] at hb
    grind
  · decide

/-! ## Reading domain-specs -/

namespace DomainEnd

/-- An ending is written in items, and what these stand for ends well after all others. -/
theorem exists_items {ending : Octets} (h : DomainEnd ending) :
    ∃ items : List MacroItem, (∀ i ∈ items, i.Allowed .domainSpec) ∧
      items.flatMap MacroItem.spell = ending ∧
      ∀ us, DomainSpec.endsWell (.ofUnits (us ++ items.flatMap MacroItem.units)) = true := by
  cases h with
  | @topLabel label dot hlabel hdot =>
    obtain ⟨hspell, hunits⟩ := MacroItem.flatMap_plain ('.'.toUInt8 :: (label ++ dot))
    refine ⟨('.'.toUInt8 :: (label ++ dot)).map .plain, ?_, hspell, fun us => ?_⟩
    · rw [List.map_cons, List.map_append, List.forall_mem_cons, List.forall_mem_append]
      exact ⟨OptionalDot.given.allowed _ List.mem_cons_self, hlabel.allowed, hdot.allowed⟩
    · rw [hunits, DomainSpec.endsWell_ofUnits_iff]
      exact .inl ⟨us, label, dot, hlabel, hdot, rfl⟩
  | @expansion w dot hw hdot =>
    obtain ⟨hspell, hunits⟩ := MacroItem.flatMap_plain dot
    refine ⟨.expansion w :: dot.map .plain, List.forall_mem_cons.2 ⟨hw, hdot.allowed⟩, ?_,
      fun us => ?_⟩
    · rw [List.flatMap_cons, hspell]
    · rw [List.flatMap_cons, hunits, DomainSpec.endsWell_ofUnits_iff]
      exact .inr ⟨us, w.meaning, dot, hdot, rfl⟩

/-- A letter, a digit, a dot or a closing brace ends an ending. -/
theorem exists_last {ending : Octets} (h : DomainEnd ending) :
    ∃ front last, ending = front ++ [last] ∧
      (Octet.isAlphanum last = true ∨ last = '.'.toUInt8 ∨ last = '}'.toUInt8) := by
  have hdotted : ∀ {text dot : Octets}, OptionalDot dot → (∃ front last, text = front ++ [last] ∧
      (Octet.isAlphanum last = true ∨ last = '}'.toUInt8)) →
      ∃ front last, text ++ dot = front ++ [last] ∧
        (Octet.isAlphanum last = true ∨ last = '.'.toUInt8 ∨ last = '}'.toUInt8) := by
    rintro text dot hdot ⟨front, last, rfl, hlast⟩
    cases hdot with
    | omitted => exact ⟨front, last, List.append_nil _, hlast.imp_right .inr⟩
    | given => exact ⟨front ++ [last], '.'.toUInt8, rfl, .inr (.inl rfl)⟩
  cases h with
  | @topLabel label dot hlabel hdot =>
    obtain ⟨front, last, heq, hlast⟩ := hlabel.exists_last
    exact hdotted hdot ⟨'.'.toUInt8 :: front, last, congrArg ('.'.toUInt8 :: ·) heq, .inl hlast⟩
  | @expansion w dot hw hdot =>
    exact hdotted hdot ⟨'%'.toUInt8 :: '{'.toUInt8 :: w.body, '}'.toUInt8, rfl, .inr rfl⟩

end DomainEnd

namespace DomainSpec

variable {octets : Octets}

/-- The texts of the grammar are read. -/
theorem exists_parse?_eq_some (h : DomainSpecText octets) : ∃ m, parse? octets = some m := by
  obtain ⟨items, ending, hitems, hending, rfl⟩ := h
  obtain ⟨last, hlast, rfl, hends⟩ := hending.exists_items
  have hall : ∀ i ∈ items ++ last, i.Allowed .domainSpec :=
    List.forall_mem_append.2 ⟨hitems, hlast⟩
  have hread := MacroString.parseFrom_spell hall
  rw [List.flatMap_append, List.flatMap_append] at hread
  exact ⟨_, Option.filter_eq_some_iff.2 ⟨hread, hends _⟩⟩

/-- What is read is a text of the grammar. -/
theorem text_of_parse? {m : MacroString} (h : parse? octets = some m) : DomainSpecText octets := by
  obtain ⟨hread, hends⟩ := Option.filter_eq_some_iff.1 h
  obtain ⟨items, hitems, hspell, rfl⟩ := MacroString.exists_items_of_parseFrom hread
  have hspell : octets = items.flatMap MacroItem.spell := hspell.symm
  obtain ⟨us, label, dot, hlabel, hdot, hunits⟩ | ⟨us, e, dot, hdot, hunits⟩ :=
    endsWell_ofUnits_iff.1 hends
  · obtain ⟨front, rfl, -⟩ := MacroItem.exists_items_of_dot
      (List.not_mem_append hlabel.not_mem.2.1 hdot.not_mem.1)
      (List.not_mem_append hlabel.not_mem.2.2 hdot.not_mem.2) hunits
    refine ⟨front, _, fun i hi => hitems i (List.mem_append_left _ hi), .topLabel hlabel hdot, ?_⟩
    rw [hspell, List.flatMap_append, (MacroItem.flatMap_plain _).1]
  · -- At most a dot follows the expansion.
    have hsplit : ∃ front w, items = front ++ .expansion w :: dot.map .plain := by
      cases hdot with
      | omitted => exact MacroItem.exists_items_of_expansion hunits
      | given =>
        have hdotted : items.flatMap MacroItem.units =
            (us ++ [.expansion e]) ++ .octet '.'.toUInt8 :: [].map .octet := by
          rw [hunits, List.append_assoc]
          rfl
        obtain ⟨before, rfl, hbefore⟩ :=
          MacroItem.exists_items_of_dot List.not_mem_nil List.not_mem_nil hdotted
        obtain ⟨front, w, rfl⟩ := MacroItem.exists_items_of_expansion hbefore
        exact ⟨front, w, List.append_assoc _ _ _⟩
    obtain ⟨front, w, rfl⟩ := hsplit
    have hw : w.Allowed .domainSpec := hitems (.expansion w) (by simp)
    refine ⟨front, _, fun i hi => hitems i (List.mem_append_left _ hi), .expansion hw hdot, ?_⟩
    rw [hspell, List.flatMap_append, List.flatMap_cons, (MacroItem.flatMap_plain _).1]

/-- The domain-specs are the texts of the grammar: a macro string, and after it a dot and a top
label or an expansion in braces, with or without one dot at the end. They are read as the macro
strings that they are. -/
theorem parse?_iff_text (octets : Octets) :
    ((parse? octets).isSome = true ↔ DomainSpecText octets) ∧
      ∀ m, parse? octets = some m → MacroString.parse? .domainSpec octets = some m := by
  refine ⟨⟨fun h => ?_, fun h => ?_⟩, fun m h => (Option.filter_eq_some_iff.1 h).1⟩
  · obtain ⟨m, hm⟩ := Option.isSome_iff_exists.1 h
    exact text_of_parse? hm
  · exact Option.isSome_iff_exists.2 (exists_parse?_eq_some h)

/-- The spellings of the escapes. -/
def escapes : List Octets := [MacroItem.percent, .space, .escapedSpace].map MacroItem.spell

/-- Nothing that ends in an escape is a domain-spec. -/
theorem parse?_escape (front : Octets) {escape : Octets} (h : escape ∈ escapes) :
    parse? (front ++ escape) = none := by
  by_contra hsome
  obtain ⟨m, hm⟩ := Option.ne_none_iff_exists'.1 hsome
  obtain ⟨items, ending, -, hending, heq⟩ := text_of_parse? hm
  obtain ⟨init, last, rfl, hlast⟩ := hending.exists_last
  have hend := congrArg List.getLast? heq
  rw [← List.append_assoc, List.getLast?_concat] at hend
  simp only [escapes, MacroItem.spell, Octets.ofAscii, List.map_cons, List.map_nil, List.mem_cons,
    List.not_mem_nil, or_false] at h
  rcases h with rfl | rfl | rfl <;>
    · simp only [List.getLast?_append, List.getLast?_cons_cons, List.getLast?_singleton,
        Option.some_or, Option.some.injEq] at hend
      subst hend
      exact absurd hlast (by decide)

/-- An escape is no ending of a domain-spec, though it is an expansion of macro strings like those
in braces. -/
theorem parse?_refuses_escape :
    ¬ ∀ octets : Octets, (parse? octets).isSome = true ↔
      DomainSpecText octets ∨ ∃ (items : List MacroItem) (escape : Octets),
        (∀ i ∈ items, i.Allowed .domainSpec) ∧ escape ∈ escapes ∧
          octets = items.flatMap MacroItem.spell ++ escape := by
  intro hall
  have hplain : (MacroItem.plain 'a'.toUInt8).Allowed .domainSpec :=
    ⟨by decide, fun _ => by decide⟩
  have hescape : MacroItem.percent.spell ∈ escapes := List.mem_cons_self
  have hread := (hall ('a'.toUInt8 :: MacroItem.percent.spell)).2
    (.inr ⟨[.plain 'a'.toUInt8], _, List.forall_mem_singleton.2 hplain, hescape, rfl⟩)
  rw [show parse? ('a'.toUInt8 :: MacroItem.percent.spell) = none from
    parse?_escape ['a'.toUInt8] hescape] at hread
  cases hread

end DomainSpec

end SenderPolicy
