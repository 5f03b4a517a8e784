import Mathlib.Data.List.Forall2
import SenderPolicy.DomainName
import SenderPolicy.Proofs.Utf8Writing

/-!
# The small form of a name

A text is made small character by character, and a dot stays a dot. So the small form of a name
has the labels of the name, each in its small form. Three characters have small forms that take
more octets than they do themselves; a name without these does not grow.

Main definitions:

- `Text.Image`, `Text.SmallForm`: what becomes of a character and of a text;
- `Text.growing`: the characters whose small form takes more octets;
- `DomainName.IsAbsolute`, `DomainName.Fits`: names in the form in which they are asked about,
  and names within the limits of length.

Main results:

- `Text.size_image_le`: a character that is not growing does not grow;
- `Text.SmallForm.pieces`: the labels of a small form are those of the text;
- `DomainName.isAbsolute_qualify`, `DomainName.fits_qualify`: what holds of a valid name in the
  form in which it is looked up.
-/

namespace SenderPolicy

/-! ## Octets of characters -/

namespace Utf8

/-- The octets that the character of a code point takes. -/
def sizeOf (n : Nat) : Nat :=
  if n < 0x80 then 1 else if n < 0x800 then 2 else if n < 0x10000 then 3 else 4

theorem sizeOf_mono {m n : Nat} (h : m ≤ n) : sizeOf m ≤ sizeOf n := by
  unfold sizeOf
  repeat' split
  all_goals omega

/-- The room for a character depends on its code point only. -/
theorem utf8Size_eq (c : Char) : c.utf8Size = sizeOf c.toNat := by
  have hval : c.toNat = c.val.toNat := rfl
  unfold Char.utf8Size sizeOf
  simp only [UInt32.le_iff_toNat_le, hval]
  repeat' split
  all_goals simp_all
  all_goals omega

/-- The character of a code point, and what stands for a number that is none. -/
theorem toNat_ofNat (n : Nat) : (Char.ofNat n).toNat = n ∨ (Char.ofNat n).toNat = 0 := by
  by_cases hn : n.isValidChar
  · exact .inl (congrArg Char.toNat (dif_pos hn))
  · exact .inr (congrArg Char.toNat (dif_neg hn))

/-- A number that is no code point stands for a character of one octet. -/
theorem utf8Size_ofNat_le (n : Nat) : (Char.ofNat n).utf8Size ≤ sizeOf n := by
  rw [utf8Size_eq]
  rcases toNat_ofNat n with hn | hn
  · exact Nat.le_of_eq (congrArg sizeOf hn)
  · rw [hn]
    exact sizeOf_mono (Nat.zero_le n)

end Utf8

namespace Text

/-! ## Small forms -/

/-- The characters whose small form takes more octets than they do. -/
def growing : List Char := ['\u0130', '\u023A', '\u023E']

/-- What a character becomes in the small form of a text. -/
inductive Image : Char → List Char → Prop where
  | alone (c : Char) : Image c (lowerChar c)
  | sigma {s : Char} : s = '\u03C2' ∨ s = '\u03C3' → Image '\u03A3' [s]

/-- The runs of capitals, their code points and those of their images. -/
theorem capitalRuns_spec : ∀ run ∈ capitalRuns, 0x2E < run.image ∧
    (Utf8.sizeOf (run.image + (run.last - run.first)) ≤ Utf8.sizeOf run.first ∨
      run.first = run.last ∧ (run.first = 0x23A ∨ run.first = 0x23E)) := by
  decide +kernel

/-- The small form of an ASCII character has its size, and is a dot for a dot only. -/
theorem toLower_ascii {c : Char} (hc : c.toNat < 0x80) :
    c.toLower.toNat < 0x80 ∧ (c.toLower = '.' ↔ c = '.') := by
  have hdot : ∀ d : Char, d = '.' ↔ d.toNat = 0x2E := fun d =>
    ⟨fun h => by rw [h]; rfl, fun h => Char.toNat_inj.1 h⟩
  rw [hdot, hdot]
  by_cases hupper : c.val ≥ 'A'.val ∧ c.val ≤ 'Z'.val
  · have hlower : c.toLower.toNat = c.toNat + 32 := by
      unfold Char.toLower
      rw [dif_pos hupper]
      have hle : c.val.toNat ≤ 90 := UInt32.le_iff_toNat_le.1 hupper.2
      simp only [Char.toNat, UInt32.toNat_add]
      have h32 : ('a'.val - 'A'.val).toNat = 32 := rfl
      omega
    have hge : 65 ≤ c.toNat := UInt32.le_iff_toNat_le.1 hupper.1
    have hle : c.toNat ≤ 90 := UInt32.le_iff_toNat_le.1 hupper.2
    omega
  · have hsame : c.toLower = c := by
      unfold Char.toLower
      rw [dif_neg hupper]
    rw [hsame]
    exact ⟨hc, Iff.rfl⟩

/-- The ways in which a character by itself is made small. -/
theorem lowerChar_cases (c : Char) :
    (c.toNat < 0x80 ∧ lowerChar c = [c.toLower]) ∨ (c = '\u0130' ∧ lowerChar c = ['i', '\u0307']) ∨
      lowerChar c = [c] ∨ ∃ run ∈ capitalRuns, run.first ≤ c.toNat ∧ c.toNat ≤ run.last ∧
        lowerChar c = [Char.ofNat (run.image + (c.toNat - run.first))] := by
  unfold lowerChar
  by_cases hascii : c.toNat < 0x80
  · rw [if_pos hascii]
    exact .inl ⟨hascii, rfl⟩
  · rw [if_neg hascii]
    right
    unfold lowerBeyondAscii
    by_cases hdotted : c = '\u0130'
    · rw [if_pos hdotted]
      exact .inl ⟨hdotted, rfl⟩
    · rw [if_neg hdotted]
      right
      cases hfind : capitalRuns.find? (·.contains c.toNat) with
      | none => exact .inl rfl
      | some run =>
        have hcontains := List.find?_some hfind
        simp only [CapitalRun.contains, Bool.and_eq_true, decide_eq_true_eq] at hcontains
        exact .inr ⟨run, List.mem_of_find?_eq_some hfind, hcontains.1.1, hcontains.1.2, rfl⟩

/-- What a character becomes is not empty, and is a dot for a dot only. -/
theorem Image.dot {c : Char} {small : List Char} (h : Image c small) :
    small ≠ [] ∧ (c = '.' → small = ['.']) ∧ (c ≠ '.' → '.' ∉ small) := by
  cases h with
  | sigma hs => rcases hs with rfl | rfl <;> decide
  | alone =>
    have hdot : c = '.' → lowerChar c = ['.'] := fun hc => by
      rw [hc]
      rfl
    rcases lowerChar_cases c with ⟨hascii, h⟩ | ⟨rfl, h⟩ | h | ⟨run, hrun, -, -, h⟩
    · refine ⟨by simp [h], hdot, fun hc hmem => hc ?_⟩
      rw [h, List.mem_singleton] at hmem
      exact (toLower_ascii hascii).2.1 hmem.symm
    · exact ⟨by simp [h], hdot, fun _ => by rw [h]; decide⟩
    · refine ⟨by simp [h], hdot, fun hc hmem => hc ?_⟩
      rw [h, List.mem_singleton] at hmem
      exact hmem.symm
    · refine ⟨by simp [h], hdot, fun _ hmem => ?_⟩
      rw [h, List.mem_singleton] at hmem
      have himage := (capitalRuns_spec run hrun).1
      have hnat : ('.' : Char).toNat = 0x2E := rfl
      rw [hmem] at hnat
      rcases Utf8.toNat_ofNat (run.image + (c.toNat - run.first)) with heq | heq <;> omega

/-- A character that is not growing takes at least as many octets as what it becomes. -/
theorem Image.size_le {c : Char} {small : List Char} (h : Image c small) (hc : c ∉ growing) :
    Utf8.size small ≤ c.utf8Size := by
  cases h with
  | sigma hs => rcases hs with rfl | rfl <;> decide
  | alone =>
    have hsingle : ∀ d, Utf8.size [d] = d.utf8Size := fun d => Nat.add_zero _
    rcases lowerChar_cases c with ⟨hascii, h⟩ | ⟨rfl, -⟩ | h | ⟨run, hrun, hfirst, hlast, h⟩
    · rw [h, hsingle, Utf8.utf8Size_eq, Utf8.utf8Size_eq]
      have hone : ∀ n, n < 0x80 → Utf8.sizeOf n = 1 := fun n hn => if_pos hn
      exact Nat.le_of_eq ((hone _ (toLower_ascii hascii).1).trans (hone _ hascii).symm)
    · exact absurd (by decide) hc
    · exact Nat.le_of_eq (by rw [h, hsingle])
    · rw [h, hsingle]
      rcases (capitalRuns_spec run hrun).2 with hle | ⟨heq, hgrows⟩
      · calc (Char.ofNat (run.image + (c.toNat - run.first))).utf8Size
            ≤ Utf8.sizeOf (run.image + (c.toNat - run.first)) := Utf8.utf8Size_ofNat_le _
          _ ≤ Utf8.sizeOf (run.image + (run.last - run.first)) := Utf8.sizeOf_mono (by omega)
          _ ≤ Utf8.sizeOf run.first := hle
          _ ≤ Utf8.sizeOf c.toNat := Utf8.sizeOf_mono hfirst
          _ = c.utf8Size := (Utf8.utf8Size_eq c).symm
      · -- The run holds one of the growing characters only.
        refine absurd ?_ hc
        have hcode : c.toNat = 0x23A ∨ c.toNat = 0x23E := by omega
        rcases hcode with hcode | hcode
        · rw [show c = '\u023A' from Char.toNat_inj.1 hcode]
          decide
        · rw [show c = '\u023E' from Char.toNat_inj.1 hcode]
          decide

/-- A text and its small form: each character has become one of its images. -/
inductive SmallForm : List Char → List Char → Prop where
  | nil : SmallForm [] []
  | cons {c : Char} {small cs out : List Char} :
      Image c small → SmallForm cs out → SmallForm (c :: cs) (small ++ out)

/-- The small letters of a text are a small form of it wherever the text begins. -/
theorem smallForm_lowerCharsFrom (afterCased : Bool) (cs : List Char) :
    SmallForm cs (lowerCharsFrom afterCased cs) := by
  induction cs generalizing afterCased with
  | nil => exact .nil
  | cons c cs ih =>
    unfold lowerCharsFrom
    refine .cons ?_ (ih _)
    split
    next hsigma =>
      rw [hsigma]
      apply Image.sigma
      split <;> simp
    next => exact .alone c

theorem smallForm_lowerChars (cs : List Char) : SmallForm cs (lowerChars cs) :=
  smallForm_lowerCharsFrom false cs

namespace SmallForm

variable {cs ds out : List Char}

/-- Only nothing becomes nothing. -/
theorem eq_nil_iff (h : SmallForm cs out) : out = [] ↔ cs = [] := by
  cases h with
  | nil => simp
  | cons himage _ => simp [himage.dot.1]

/-- Without a character that grows, a small form takes no more room than the text. -/
theorem size_le (h : SmallForm cs out) (hcs : ∀ c ∈ cs, c ∉ growing) :
    Utf8.size out ≤ Utf8.size cs := by
  induction h with
  | nil => exact Nat.le_refl _
  | cons himage _ ih =>
    have hhead := himage.size_le (hcs _ List.mem_cons_self)
    have htail := ih fun c hc => hcs c (List.mem_cons_of_mem _ hc)
    rw [Utf8.size_append, Utf8.size_cons]
    omega

/-- The small form of a text with a dot at its end has a dot at its end. -/
theorem of_append_dot (h : SmallForm (cs ++ ['.']) out) : ∃ out', out = out' ++ ['.'] ∧
    SmallForm cs out' := by
  induction cs generalizing out with
  | nil =>
    cases h with
    | cons himage hrest =>
      cases hrest
      exact ⟨[], by simp [himage.dot.2.1 rfl], .nil⟩
  | cons c cs ih =>
    cases h with
    | cons himage hrest =>
      obtain ⟨rest, rfl, hform⟩ := ih hrest
      exact ⟨_ ++ rest, by simp, .cons himage hform⟩

/-- No dot comes to stand at the end. -/
theorem getLast?_ne_dot (h : SmallForm cs out) (hcs : cs.getLast? ≠ some '.') :
    out.getLast? ≠ some '.' := by
  induction h with
  | nil => exact hcs
  | @cons c small cs out himage hrest ih =>
    cases hrest with
    | nil =>
      intro hlast
      rw [List.append_nil] at hlast
      have hc : c ≠ '.' := by simpa using hcs
      exact himage.dot.2.2 hc (List.mem_of_getLast? hlast)
    | @cons d small' cs out hd hrest =>
      have hout : small' ++ out ≠ [] := by simp [hd.dot.1]
      rw [List.getLast?_append_of_ne_nil _ hout]
      exact ih (by simpa [List.getLast?_cons_cons] using hcs)

/-- The labels of a small form are the small forms of the labels. -/
theorem pieces (h : SmallForm cs out) :
    List.Forall₂ SmallForm (SenderPolicy.pieces (· = '.') cs)
      (SenderPolicy.pieces (· = '.') out) := by
  induction h with
  | nil => exact .cons .nil .nil
  | @cons c small cs out himage hrest ih =>
    by_cases hdot : c = '.'
    · subst hdot
      rw [himage.dot.2.1 rfl]
      simpa [SenderPolicy.pieces] using List.Forall₂.cons .nil ih
    · obtain ⟨label, labels, hcs⟩ := exists_pieces_eq_cons (· = '.') cs
      obtain ⟨label', labels', hout⟩ := exists_pieces_eq_cons (· = '.') out
      rw [hcs, hout] at ih
      have hsmall : ∀ d ∈ small, decide (d = '.') = false := fun d hd =>
        decide_eq_false fun heq => himage.dot.2.2 hdot (heq ▸ hd)
      have hfront : SenderPolicy.pieces (· = '.') (c :: cs) = (c :: label) :: labels :=
        pieces_append_of_forall_not (l := [c]) (by simpa using hdot) hcs
      rw [hfront, pieces_append_of_forall_not hsmall hout]
      cases ih with
      | cons hlabel hlabels => exact .cons (.cons himage hlabel) hlabels

end SmallForm

end Text

/-! ## Names in questions -/

namespace DomainName

/-- A name in the form in which it is asked about: with a dot at its end, at least two labels
before it, and no empty label. -/
structure IsAbsolute (name : String) : Prop where
  dot : name.toList.getLast? = some '.'
  labels : 2 ≤ (labels name).length
  nonempty : ∀ label ∈ DomainName.labels name, label ≠ []

/-- A name within the limits of length, its final dot included. -/
structure Fits (name : String) : Prop where
  label : ∀ label ∈ labels name, Utf8.size label ≤ maxLabelSize
  whole : Utf8.size name.toList ≤ maxSize + 1

/-- What a valid name has: labels that are not empty and not too long, and not too many. -/
theorem of_isValid {name : String} (h : isValid name = true) :
    Utf8.size (dropFinal '.' name.toList) ≤ maxSize ∧ 2 ≤ (labels name).length ∧
      ∀ label ∈ labels name, label ≠ [] ∧ Utf8.size label ≤ maxLabelSize := by
  simp only [isValid, Bool.and_eq_true, decide_eq_true_eq, List.all_eq_true, Bool.not_eq_true',
    List.isEmpty_eq_false_iff, List.contains_iff_mem] at h
  obtain ⟨⟨⟨⟨-, hsize⟩, -⟩, hdot⟩, hlabels⟩ := h
  exact ⟨hsize, two_le_length_pieces (decide_eq_true rfl) hdot, hlabels⟩

/-- The form in which a name is looked up: the small form of the name without its final dot,
and a dot. -/
theorem exists_smallForm (name : String) : ∃ out, (qualify name).toList = out ++ ['.'] ∧
    Text.SmallForm (dropFinal '.' name.toList) out := by
  have hform := Text.smallForm_lowerChars name.toList
  by_cases hlast : name.toList.getLast? = some '.'
  · obtain ⟨front, hfront⟩ : ∃ front, name.toList = front ++ ['.'] :=
      List.getLast?_eq_some_iff.1 hlast
    rw [hfront] at hform
    obtain ⟨out, hout, hfrontForm⟩ := hform.of_append_dot
    refine ⟨out, ?_, ?_⟩
    · simp [qualify, hfront, hout]
    · simpa [hfront] using hfrontForm
  · refine ⟨Text.lowerChars name.toList, by simp [qualify, hlast], ?_⟩
    rwa [dropFinal_of_ne hlast]

/-- The labels of a name in the form in which it is looked up are the small forms of its
labels. -/
theorem labels_qualify (name : String) :
    List.Forall₂ Text.SmallForm (labels name) (labels (qualify name)) := by
  obtain ⟨out, hout, hform⟩ := exists_smallForm name
  have hlabels := hform.pieces
  simpa [labels, hout] using hlabels

/-- Each label in the form in which a name is looked up is the small form of one of its labels. -/
theorem exists_label {name : String} {small : List Char} (h : small ∈ labels (qualify name)) :
    ∃ label ∈ labels name, Text.SmallForm label small := by
  have hforms := labels_qualify name
  generalize labels (qualify name) = smalls at h hforms
  generalize labels name = whole at hforms ⊢
  induction hforms with
  | nil => cases h
  | cons hform _ ih =>
    rcases List.mem_cons.1 h with rfl | h
    · exact ⟨_, List.mem_cons_self, hform⟩
    · obtain ⟨label, hlabel, hsmall⟩ := ih h
      exact ⟨label, List.mem_cons_of_mem _ hlabel, hsmall⟩

/-- A valid name is looked up with a dot at its end and without empty labels. -/
theorem isAbsolute_qualify {name : String} (h : isValid name = true) :
    IsAbsolute (qualify name) := by
  obtain ⟨-, hcount, hlabels⟩ := of_isValid h
  refine ⟨?_, (labels_qualify name).length_eq ▸ hcount, fun small hsmall hnil => ?_⟩
  · obtain ⟨out, hout, -⟩ := exists_smallForm name
    simp [hout]
  · obtain ⟨label, hlabel, hform⟩ := exists_label hsmall
    exact (hlabels label hlabel).1 (hform.eq_nil_iff.1 hnil)

/-- A valid name without growing characters is looked up within the limits of length. -/
theorem fits_qualify {name : String} (h : isValid name = true)
    (hgrowing : ∀ c ∈ name.toList, c ∉ Text.growing) : Fits (qualify name) := by
  obtain ⟨hsize, -, hlabels⟩ := of_isValid h
  have hkept : ∀ c ∈ dropFinal '.' name.toList, c ∉ Text.growing :=
    fun c hc => hgrowing c (mem_of_mem_dropFinal hc)
  constructor
  · intro small hsmall
    obtain ⟨label, hlabel, hform⟩ := exists_label hsmall
    have hle := hform.size_le fun c hc => hkept c (mem_of_mem_pieces hlabel hc)
    exact Nat.le_trans hle (hlabels label hlabel).2
  · obtain ⟨out, hout, hform⟩ := exists_smallForm name
    have hle := hform.size_le hkept
    have hdot : Utf8.size ['.'] = 1 := by decide
    rw [hout, Utf8.size_append, hdot]
    omega

end DomainName

end SenderPolicy
