import Mathlib.Data.List.TakeWhile
import SenderPolicy.MacroString.Expansion
import SenderPolicy.Proofs.Utf8Reading
import SenderPolicy.Proofs.Utf8Writing

/-!
# Names cut to fit

A macro string stands for a name of any length, and a name has at most 253 octets. A longer one is
cut at the front: right after a dot, as long as what follows some dot fits, and else at a character.
The dot to cut at is looked for among the octets that fit and the one before these, since that one
may be the dot. Names are cut here by characters; what is left is described by octets.

Main definitions:

- `WithoutFinalDots`: a text and what it is without dots at its end;
- `LongestFitting`: the longest end of a text that fits;
- `FollowsDot`, `CutTo`: what follows a dot in a name, and what a name is cut to.

Main results:

- `longestFitting_lastFitting`: what is kept of a text is the longest end that fits;
- `cutTo_cutToFit`: names are cut at dots, or else at characters;
- `CutTo.suffix`, `CutTo.fits`, `CutTo.ne_nil`, `CutTo.startsCharacter`: what is left is an end of
  the name that fits, is not empty and starts at a character;
- `MacroString.toName_cuts`: what macro strings stand for, cut to a name.
-/

namespace SenderPolicy

/-! ## Dots at the end -/

/-- A text, and what it is without the dots at its end. -/
structure WithoutFinalDots (text name : List Char) : Prop where
  dots : ∃ n, text = name ++ List.replicate n '.'
  last : name.getLast? ≠ some '.'

/-- All dots at the end are removed, and nothing else. -/
theorem withoutFinalDots_dropTrailing (text : List Char) :
    WithoutFinalDots text (dropTrailing (· = '.') text) where
  dots := by
    have hdots : text.reverse.takeWhile (· = '.') =
        List.replicate (text.reverse.takeWhile (· = '.')).length '.' := by
      refine List.eq_replicate_iff.2 ⟨rfl, fun c hc => ?_⟩
      simpa using List.mem_takeWhile_imp hc
    have hsplit := congrArg List.reverse
      (List.takeWhile_append_dropWhile (p := (· = '.')) (l := text.reverse))
    rw [List.reverse_append, List.reverse_reverse, hdots, List.reverse_replicate] at hsplit
    exact ⟨_, hsplit.symm⟩
  last := by
    unfold dropTrailing
    rw [List.getLast?_reverse]
    intro hhead
    have hkept := List.head?_dropWhile_not (p := (· = '.')) text.reverse
    rw [hhead] at hkept
    simp at hkept

/-! ## The longest end that fits -/

/-- The longest end of a text that has at most `limit` octets. -/
structure LongestFitting (limit : Nat) (cs ending : List Char) : Prop where
  suffix : ending <:+ cs
  fits : Utf8.size ending ≤ limit
  longest : ∀ rest, rest <:+ cs → Utf8.size rest ≤ limit → rest <:+ ending

/-- What is kept of a text is the longest end that fits. -/
theorem longestFitting_lastFitting (limit : Nat) (cs : List Char) :
    LongestFitting limit cs (lastFitting limit (Utf8.size cs) cs) := by
  induction cs with
  | nil => exact ⟨List.suffix_rfl, Nat.zero_le limit, fun rest hrest _ => hrest⟩
  | cons c cs ih =>
    unfold lastFitting
    split
    next hfits => exact ⟨List.suffix_rfl, hfits, fun rest hrest _ => hrest⟩
    next hlong =>
      rw [Utf8.size_cons, Nat.add_sub_cancel_left]
      refine ⟨ih.suffix.trans (List.suffix_cons c cs), ih.fits, fun rest hrest hfits => ?_⟩
      rcases List.suffix_cons_iff.1 hrest with rfl | hrest
      · exact absurd hfits hlong
      · exact ih.longest rest hrest hfits

/-- A list that starts at a mark and is an end of another ends what follows the first mark there. -/
theorem suffix_of_first_mark {α : Type} {mark : α} {before after rest : List α}
    (hbefore : mark ∉ before) (h : mark :: rest <:+ before ++ mark :: after) : rest <:+ after := by
  obtain ⟨front, h⟩ := h
  rcases List.append_eq_append_iff.1 h with ⟨middle, rfl, hmiddle⟩ | ⟨middle, rfl, hmiddle⟩
  · cases middle with
    | nil => exact (List.cons.inj hmiddle).2 ▸ List.suffix_rfl
    | cons a middle =>
      have ha : mark = a := (List.cons.inj hmiddle).1
      exact absurd (List.mem_append_right front (ha ▸ List.mem_cons_self)) hbefore
  · cases middle with
    | nil => exact (List.cons.inj hmiddle).2 ▸ List.suffix_rfl
    | cons a middle =>
      have hafter : after = middle ++ mark :: rest := (List.cons.inj hmiddle).2
      exact hafter ▸ (List.suffix_cons mark rest).trans (List.suffix_append middle _)

/-! ## Where names are cut -/

/-- What follows a dot in the octets of a name. -/
def FollowsDot (name rest : Octets) : Prop := '.'.toUInt8 :: rest <:+ name

/-- What a name is cut to, if it is to have at most `limit` octets. -/
inductive CutTo (limit : Nat) (name : Octets) : Octets → Prop where
  | whole (hfits : name.length ≤ limit) : CutTo limit name name
  /-- What follows a dot and fits, and is the longest of that kind. -/
  | atDot {rest : Octets} (hlong : limit < name.length) (hdot : FollowsDot name rest)
      (hfits : rest.length ≤ limit)
      (hlongest : ∀ other, FollowsDot name other → other.length ≤ limit →
        other.length ≤ rest.length) : CutTo limit name rest
  /-- If nothing that follows a dot fits, the longest end that starts at a character and fits. -/
  | atCharacter {rest : Octets} (hlong : limit < name.length)
      (hnone : ∀ other, FollowsDot name other → limit < other.length)
      (hsuffix : rest <:+ name) (hstarts : Utf8.StartsCharacter rest)
      (hfits : rest.length ≤ limit)
      (hlongest : ∀ other, other <:+ name → Utf8.StartsCharacter other → other.length ≤ limit →
        other.length ≤ rest.length) : CutTo limit name rest

/-- The octets that follow a dot in a text are those of what follows a dot there. -/
theorem followsDot_encode_iff {cs : List Char} {rest : Octets} :
    FollowsDot (Utf8.encode cs) rest ↔ ∃ ds, rest = Utf8.encode ds ∧ '.' :: ds <:+ cs := by
  have hdot : ∀ ds, Utf8.encode ('.' :: ds) = '.'.toUInt8 :: Utf8.encode ds := fun _ => rfl
  constructor
  · intro h
    have hstarts : Utf8.StartsCharacter ('.'.toUInt8 :: rest) := by
      intro b hb
      cases hb
      unfold Utf8.GoesOn
      decide
    obtain ⟨ds, hds, heq⟩ := Utf8.exists_suffix_of_startsCharacter h hstarts
    obtain ⟨ds, rfl, hrest⟩ := Utf8.exists_of_encode_eq_cons (by decide) heq.symm
    exact ⟨ds, hrest, hds⟩
  · rintro ⟨ds, rfl, hds⟩
    exact (Utf8.encode_suffix_iff.2 hds : Utf8.encode ('.' :: ds) <:+ Utf8.encode cs)

/-- Something follows every dot of a text that does not end in one. -/
theorem not_followsDot_nil {cs : List Char} (hlast : cs.getLast? ≠ some '.') :
    ¬ FollowsDot (Utf8.encode cs) [] := by
  intro h
  obtain ⟨ds, hds, hsuffix⟩ := followsDot_encode_iff.1 h
  obtain rfl : ds = [] := Utf8.encode_injective hds.symm
  obtain ⟨front, rfl⟩ := hsuffix
  exact hlast List.getLast?_concat

/-- Names are cut after a dot, as long as what follows some dot fits, and else at a character. -/
theorem cutTo_cutToFit (limit : Nat) (cs : List Char) :
    CutTo limit (Utf8.encode cs) (Utf8.encode (cutToFit limit cs)) := by
  unfold cutToFit
  split
  next hfits => exact .whole ((Utf8.length_encode cs).symm ▸ hfits)
  next hlong =>
    have hlong : limit < (Utf8.encode cs).length := by
      rw [Utf8.length_encode]
      omega
    -- With its dot, what follows a dot and fits is an end with one octet more than fit.
    have hdotted : ∀ ds, '.' :: ds <:+ cs → Utf8.size ds ≤ limit →
        '.' :: ds <:+ lastFitting (limit + 1) (Utf8.size cs) cs := by
      intro ds hds hfits
      apply (longestFitting_lastFitting (limit + 1) cs).longest _ hds
      rw [Utf8.size_cons, show ('.').utf8Size = 1 from rfl]
      omega
    have hwindow := longestFitting_lastFitting (limit + 1) cs
    generalize lastFitting (limit + 1) (Utf8.size cs) cs = window at hdotted hwindow ⊢
    cases hsplit : splitFirst? (· = '.') window with
    | some halves =>
      obtain ⟨before, after⟩ := halves
      obtain ⟨rfl, hfirst⟩ := splitFirst?_eq_some_iff.1 hsplit
      have hfits : Utf8.size after ≤ limit := by
        have hsize := hwindow.fits
        rw [Utf8.size_append, Utf8.size_cons, show ('.').utf8Size = 1 from rfl] at hsize
        omega
      have hdot : '.' :: after <:+ cs := (List.suffix_append before _).trans hwindow.suffix
      refine .atDot hlong (followsDot_encode_iff.2 ⟨after, rfl, hdot⟩) ?_ ?_
      · rw [Utf8.length_encode]
        exact hfits
      · intro other hother hle
        obtain ⟨ds, rfl, hds⟩ := followsDot_encode_iff.1 hother
        rw [Utf8.length_encode] at hle
        have hsuffix := suffix_of_first_mark hfirst (hdotted ds hds hle)
        exact (Utf8.encode_suffix_iff.2 hsuffix).length_le
    | none =>
      have hkept := longestFitting_lastFitting limit cs
      have hno : '.' ∉ window := splitFirst?_eq_none_iff_notMem.1 hsplit
      refine .atCharacter hlong ?_ (Utf8.encode_suffix_iff.2 hkept.suffix)
        (Utf8.startsCharacter_encode _) ?_ ?_
      · intro other hother
        obtain ⟨ds, rfl, hds⟩ := followsDot_encode_iff.1 hother
        rw [Utf8.length_encode]
        by_contra hfits
        exact hno ((hdotted ds hds (Nat.le_of_not_lt hfits)).subset List.mem_cons_self)
      · rw [Utf8.length_encode]
        exact hkept.fits
      · intro other hother hstarts hle
        obtain ⟨ds, hds, rfl⟩ := Utf8.exists_suffix_of_startsCharacter hother hstarts
        rw [Utf8.length_encode] at hle
        exact (Utf8.encode_suffix_iff.2 (hkept.longest ds hds hle)).length_le

/-- The dot to cut at may be right in front of the octets that fit. -/
example : cutToFit 4 "a.bcde".toList = "bcde".toList := by decide +kernel

/-! ## What is left -/

namespace CutTo

variable {limit : Nat} {name rest : Octets}

/-- What is left when a name is cut is the end of it. -/
theorem suffix (h : CutTo limit name rest) : rest <:+ name := by
  cases h with
  | whole => exact List.suffix_rfl
  | atDot _ hdot => exact (List.suffix_cons _ rest).trans hdot
  | atCharacter _ _ hsuffix => exact hsuffix

/-- What is left fits. -/
theorem fits (h : CutTo limit name rest) : rest.length ≤ limit := by
  cases h <;> assumption

/-- A name that fits is left as it is. -/
theorem eq_of_fits (h : CutTo limit name rest) (hfits : name.length ≤ limit) : rest = name := by
  cases h with
  | whole => rfl
  | atDot hlong => exact absurd hfits (Nat.not_le_of_lt hlong)
  | atCharacter hlong => exact absurd hfits (Nat.not_le_of_lt hlong)

/-- A name that does not fit is not left as it is. -/
theorem ne (h : CutTo limit name rest) (hlong : limit < name.length) : rest ≠ name := by
  rintro rfl
  exact absurd h.fits (Nat.not_le_of_lt hlong)

/-- What is left starts where a character of the name does. -/
theorem startsCharacter {cs : List Char} (h : CutTo limit (Utf8.encode cs) rest) :
    Utf8.StartsCharacter rest := by
  cases h with
  | whole => exact Utf8.startsCharacter_encode cs
  | atDot _ hdot =>
    obtain ⟨ds, rfl, -⟩ := followsDot_encode_iff.1 hdot
    exact Utf8.startsCharacter_encode ds
  | atCharacter _ _ _ hstarts => exact hstarts

/-- Something is left of a name, if it does not end in a dot and there is room for a character. -/
theorem ne_nil {cs : List Char} (h : CutTo limit (Utf8.encode cs) rest) (hlimit : 4 ≤ limit)
    (hlast : cs.getLast? ≠ some '.') (hne : cs ≠ []) : rest ≠ [] := by
  cases h with
  | whole => exact fun hnil => hne (Utf8.encode_injective hnil)
  | atDot _ hdot =>
    rintro rfl
    exact not_followsDot_nil hlast hdot
  | atCharacter _ _ _ _ _ hlongest =>
    -- The last character fits.
    obtain ⟨front, c, rfl⟩ : ∃ front c, cs = front ++ [c] :=
      ⟨_, _, (List.dropLast_concat_getLast hne).symm⟩
    have hsuffix : Utf8.encode [c] <:+ Utf8.encode (front ++ [c]) :=
      Utf8.encode_suffix_iff.2 (List.suffix_append front [c])
    have hsize : (Utf8.encode [c]).length = c.utf8Size := Utf8.length_encode [c]
    have hfits : (Utf8.encode [c]).length ≤ limit :=
      hsize ▸ Nat.le_trans c.utf8Size_le_four hlimit
    have hle := hlongest _ hsuffix (Utf8.startsCharacter_encode [c]) hfits
    have hpos := c.utf8Size_pos
    rintro rfl
    rw [hsize, List.length_nil] at hle
    omega

/-- What is left does not end in a dot, if the name does not. -/
theorem getLast?_ne_dot {cs : List Char} (h : CutTo limit (Utf8.encode cs) rest)
    (hlast : cs.getLast? ≠ some '.') : rest.getLast? ≠ some '.'.toUInt8 := by
  intro hdot
  obtain ⟨front, rfl⟩ := List.getLast?_eq_some_iff.1 hdot
  have hend : FollowsDot (Utf8.encode cs) [] := (List.suffix_append front _).trans h.suffix
  exact not_followsDot_nil hlast hend

end CutTo

namespace MacroString

/-- What is left of the characters that a macro string expands to, without the dots at their end. -/
theorem cutTo_toName (b : Bindings) (m : MacroString) :
    CutTo 253 (Utf8.encode (dropTrailing (· = '.') (m.expandChars b)))
      (Utf8.ofText (m.toName b)) := by
  unfold toName Utf8.ofText
  rw [String.toList_ofList]
  exact cutTo_cutToFit 253 _

/-- A macro string stands for what it expands to, if this is in ASCII, fits and does not end in a
dot. -/
theorem ofText_toName {b : Bindings} {m : MacroString} (hascii : ∀ c ∈ m.expand b, c < 0x80)
    (hfits : (m.expand b).length ≤ 253) (hlast : (m.expand b).getLast? ≠ some '.'.toUInt8) :
    Utf8.ofText (m.toName b) = m.expand b := by
  have hoctets : Utf8.encode (m.expandChars b) = m.expand b := Utf8.encode_decodeLossy hascii
  obtain ⟨n, hdots⟩ := (withoutFinalDots_dropTrailing (m.expandChars b)).dots
  cases n with
  | zero =>
    rw [List.replicate_zero, List.append_nil] at hdots
    have hcut := cutTo_toName b m
    rw [← hdots, hoctets] at hcut
    exact hcut.eq_of_fits hfits
  | succ n =>
    rw [hdots, List.replicate_succ', ← List.append_assoc, Utf8.encode_append] at hoctets
    rw [← hoctets, show Utf8.encode ['.'] = ['.'.toUInt8] from rfl] at hlast
    exact absurd List.getLast?_concat hlast

/-- A macro string stands for the characters that it expands to, without the dots at their end, if
these have at most 253 octets. Else it stands for the longest that fits of what follows a dot there,
or if none fits, for the longest end that fits and starts at a character. In any case it stands for
an end of them that fits, does not end in a dot and is not empty unless nothing but dots was
expanded to. -/
theorem toName_cuts (b : Bindings) (m : MacroString) :
    ∃ name, WithoutFinalDots (m.expandChars b) name ∧
      CutTo 253 (Utf8.encode name) (Utf8.ofText (m.toName b)) ∧
      Utf8.ofText (m.toName b) <:+ Utf8.encode name ∧
      Utf8.StartsCharacter (Utf8.ofText (m.toName b)) ∧
      (Utf8.ofText (m.toName b)).length ≤ 253 ∧
      (253 < (Utf8.encode name).length → Utf8.ofText (m.toName b) ≠ Utf8.encode name) ∧
      (Utf8.ofText (m.toName b)).getLast? ≠ some '.'.toUInt8 ∧
      (name ≠ [] → Utf8.ofText (m.toName b) ≠ []) := by
  have hname := withoutFinalDots_dropTrailing (m.expandChars b)
  have hcut := cutTo_toName b m
  exact ⟨_, hname, hcut, hcut.suffix, hcut.startsCharacter, hcut.fits, hcut.ne,
    hcut.getLast?_ne_dot hname.last, hcut.ne_nil (by decide) hname.last⟩

end MacroString

end SenderPolicy
