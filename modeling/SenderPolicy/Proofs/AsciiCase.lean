import SenderPolicy.Proofs.SmallForm
import SenderPolicy.Proofs.Utf8Reading

/-!
# ASCII case

The small forms of the ASCII capitals stand at the same places in a text as the capitals do. No
property on which names and their octets are cut, measured or compared tells the two apart.

Main definitions:

- `Text.capitals`: the ASCII capitals;
- `Text.CaseEq`: texts that are the same up to ASCII case.

Main results:

- `Utf8.encode_toLower`, `Utf8.decodeLossy_lower`: writing and reading keep texts the same up to
  case;
- `Text.CaseEq.lowerCase`, `DomainName.isValid_caseEq`, `DomainName.qualify_caseEq`: names that
  are the same up to case are valid together, and are looked up in the same form.
-/

namespace SenderPolicy

/-! ## Characters -/

namespace Text

/-- The ASCII capitals. -/
def capitals : List Char :=
  ['A', 'B', 'C', 'D', 'E', 'F', 'G', 'H', 'I', 'J', 'K', 'L', 'M', 'N', 'O', 'P', 'Q', 'R', 'S',
    'T', 'U', 'V', 'W', 'X', 'Y', 'Z']

/-- A character that is its own small form, or else a capital. -/
theorem toLower_cases (c : Char) : c.toLower = c ∨ c ∈ capitals := by
  by_cases hupper : c.val ≥ 'A'.val ∧ c.val ≤ 'Z'.val
  · right
    have hge : 65 ≤ c.toNat := UInt32.le_iff_toNat_le.1 hupper.1
    have hlt : c.toNat < 91 := Nat.lt_succ_of_le (UInt32.le_iff_toNat_le.1 hupper.2)
    have hmem : ∀ n < 91, 65 ≤ n → Char.ofNat n ∈ capitals := by decide +kernel
    rw [← Char.ofNat_toNat c]
    exact hmem c.toNat hlt hge
  · left
    unfold Char.toLower
    rw [dif_neg hupper]

/-- What does not tell capitals from their small forms does not tell cases apart. -/
theorem eq_toLower {β : Type} [DecidableEq β] {f : Char → β}
    (h : (capitals.all fun c => f c.toLower = f c) = true) (c : Char) : f c.toLower = f c := by
  rcases toLower_cases c with hc | hc
  · rw [hc]
  · exact of_decide_eq_true (List.all_eq_true.1 h c hc)

/-- No number beyond the capitals stands for one of them. -/
theorem toLower_ofNat {n : Nat} (h : 0x5A < n) : (Char.ofNat n).toLower = Char.ofNat n := by
  rcases toLower_cases (Char.ofNat n) with hkept | hcapital
  · exact hkept
  · have hrange : (capitals.all fun c => 0 < c.toNat && c.toNat ≤ 0x5A) = true := by decide
    have hbounds := List.all_eq_true.1 hrange _ hcapital
    simp only [Bool.and_eq_true, decide_eq_true_eq] at hbounds
    rcases Utf8.toNat_ofNat n with heq | heq <;> omega

/-- The ASCII case of a character does not matter to whether it is a letter or a digit. -/
theorem isAlphanumeric_toLower : ∀ c : Char, isAlphanumeric c.toLower = isAlphanumeric c :=
  eq_toLower (by decide +kernel)

/-- Nor does it matter to whether the character has a case. -/
theorem isCased_toLower : ∀ c : Char, isCased c.toLower = isCased c :=
  eq_toLower (by decide +kernel)

/-- Nor to whether it is passed over next to one that has. -/
theorem isCaseIgnorable_toLower : ∀ c : Char, isCaseIgnorable c.toLower = isCaseIgnorable c :=
  eq_toLower (by decide +kernel)

/-- Letters that differ in ASCII case have the same small form. -/
theorem lowerChar_toLower : ∀ c : Char, lowerChar c.toLower = lowerChar c :=
  eq_toLower (by decide +kernel)

theorem utf8Size_toLower : ∀ c : Char, c.toLower.utf8Size = c.utf8Size :=
  eq_toLower (by decide +kernel)

/-- A character that is no letter is the small form of itself only. -/
theorem toLower_eq_iff {mark : Char}
    (h : (capitals.all fun c => c != mark && c.toLower != mark) = true)
    (c : Char) : c.toLower = mark ↔ c = mark := by
  rcases toLower_cases c with hc | hc
  · rw [hc]
  · have hother := List.all_eq_true.1 h c hc
    rw [Bool.and_eq_true, bne_iff_ne, bne_iff_ne] at hother
    exact iff_of_false hother.2 hother.1

/-- Only the dot has the small form of a dot. -/
theorem toLower_eq_dot : ∀ c : Char, c.toLower = '.' ↔ c = '.' := toLower_eq_iff (by decide)

/-! ## Small forms of texts -/

theorem startsCased_toLower (cs : List Char) :
    startsCased (cs.map Char.toLower) = startsCased cs := by
  have hignorable : isCaseIgnorable ∘ Char.toLower = isCaseIgnorable :=
    funext isCaseIgnorable_toLower
  have hcased : isCased ∘ Char.toLower = isCased := funext isCased_toLower
  simp only [startsCased, List.dropWhile_map, hignorable, List.head?_map, Option.map_map, hcased]

/-- Characters that differ in ASCII case have the same small forms in a text. -/
theorem lowerCharsFrom_toLower (afterCased : Bool) (cs : List Char) :
    lowerCharsFrom afterCased (cs.map Char.toLower) = lowerCharsFrom afterCased cs := by
  have hsigma : ∀ c : Char, c.toLower = '\u03A3' ↔ c = '\u03A3' := toLower_eq_iff (by decide)
  induction cs generalizing afterCased with
  | nil => rfl
  | cons c cs ih =>
    simp only [List.map_cons, lowerCharsFrom, hsigma, startsCased_toLower, lowerChar_toLower,
      isCaseIgnorable_toLower, isCased_toLower, ih]

/-- The small form of a text does not depend on ASCII case. -/
theorem lowerChars_toLower (cs : List Char) : lowerChars (cs.map Char.toLower) = lowerChars cs :=
  lowerCharsFrom_toLower false cs

/-- Texts that are the same up to ASCII case. -/
def CaseEq (s s' : String) : Prop := lowerCaseAscii s = lowerCaseAscii s'

instance (s s' : String) : Decidable (CaseEq s s') := inferInstanceAs (Decidable (_ = _))

/-- Characters that differ in ASCII case make texts that do. -/
theorem caseEq_ofList {cs cs' : List Char} (h : cs.map Char.toLower = cs'.map Char.toLower) :
    CaseEq (String.ofList cs) (String.ofList cs') := by
  simp [CaseEq, lowerCaseAscii, h]

namespace CaseEq

variable {s s' : String} (h : CaseEq s s')
include h

/-- Texts that differ in ASCII case have the same small letters. -/
theorem toLower : s.toList.map Char.toLower = s'.toList.map Char.toLower :=
  String.ofList_injective h

/-- What does not depend on ASCII case is the same of both texts. -/
theorem congr {β : Type} {f : List Char → β} (hf : ∀ cs, f (cs.map Char.toLower) = f cs) :
    f s.toList = f s'.toList := by
  rw [← hf, h.toLower, hf]

/-- They have the same small form. -/
theorem lowerCase : Text.lowerCase s = Text.lowerCase s' :=
  congrArg String.ofList (h.congr lowerChars_toLower)

end CaseEq

end Text

/-! ## Names -/

namespace DomainName

open Text

theorem size_toLower (cs : List Char) : Utf8.size (cs.map Char.toLower) = Utf8.size cs := by
  induction cs with
  | nil => rfl
  | cons c cs ih =>
    simp only [Utf8.size, List.map_cons, List.foldr_cons, utf8Size_toLower] at ih ⊢
    rw [ih]

/-- A name is cut into labels alike without regard to case. -/
theorem pieces_toLower : ∀ cs : List Char,
    pieces (· = '.') (cs.map Char.toLower) = (pieces (· = '.') cs).map (List.map Char.toLower) :=
  pieces_map fun c => decide_eq_decide.2 (toLower_eq_dot c)

variable {name name' : String} (h : CaseEq name name')
include h

/-- Names that are the same up to ASCII case are valid together. -/
theorem isValid_caseEq : isValid name = isValid name' := by
  have hdrop : ∀ cs : List Char,
      dropFinal '.' (cs.map Char.toLower) = (dropFinal '.' cs).map Char.toLower :=
    fun cs => dropFinal_map toLower_eq_dot cs
  have hdot : ∀ cs : List Char, (cs.map Char.toLower).contains '.' = cs.contains '.' := by
    intro cs
    rw [Bool.eq_iff_iff]
    simp [toLower_eq_dot]
  apply h.congr (f := fun cs =>
    let kept := dropFinal '.' cs
    !kept.isEmpty && Utf8.size kept ≤ maxSize && kept.any isAlphanumeric && kept.contains '.'
      && (pieces (· = '.') kept).all fun label => !label.isEmpty && Utf8.size label ≤ maxLabelSize)
  intro cs
  simp only [hdrop, pieces_toLower, hdot, List.isEmpty_map, size_toLower, List.any_map,
    List.all_map,
    Function.comp_def, isAlphanumeric_toLower]

/-- Names that are the same up to ASCII case are looked up in the same form. -/
theorem qualify_caseEq : qualify name = qualify name' := by
  apply h.congr (f := fun cs =>
    String.ofList (lowerChars cs ++ if cs.getLast? = some '.' then [] else ['.']))
  intro cs
  simp [lowerChars_toLower, List.getLast?_map, toLower_eq_dot]

end DomainName

/-! ## Octets -/

/-- The octets that are no capitals are kept. -/
theorem Octet.lower_ofNat {n : Nat} (hn : n < 256) (h : n < 65 ∨ 90 < n) :
    lower (UInt8.ofNat n) = UInt8.ofNat n := by
  have htoNat : (UInt8.ofNat n).toNat = n := UInt8.toNat_ofNat_of_lt' hn
  have hends : (0x41 : UInt8).toNat = 65 ∧ (0x5A : UInt8).toNat = 90 := ⟨rfl, rfl⟩
  have hupper : isUpper (UInt8.ofNat n) = false := by
    simp only [isUpper, Bool.and_eq_false_iff, decide_eq_false_iff_not, UInt8.le_iff_toNat_le,
      htoNat]
    omega
  simp [lower, hupper]

namespace Utf8

open Text

/-- The octets of a small form are the small forms of the octets. -/
theorem utf8EncodeChar_toLower (c : Char) :
    String.utf8EncodeChar c.toLower = Octets.lower (String.utf8EncodeChar c) := by
  rcases toLower_cases c with hc | hc
  · have hcapital : ¬ (65 ≤ c.toNat ∧ c.toNat ≤ 90) := by
      rintro ⟨hge, hle⟩
      have hchanged : ∀ n < 91, 65 ≤ n → (Char.ofNat n).toLower ≠ Char.ofNat n := by
        decide +kernel
      exact hchanged c.toNat (by omega) hge (by rw [Char.ofNat_toNat, hc])
    have hkept : ∀ n < 256, n < 65 ∨ 90 < n → Octet.lower (UInt8.ofNat n) = UInt8.ofNat n :=
      fun n => Octet.lower_ofNat
    have hval : c.val.toNat = c.toNat := rfl
    rw [hc]
    unfold String.utf8EncodeChar
    rw [hval]
    dsimp only
    repeat' split
    all_goals simp only [Octets.lower, List.map_cons, List.map_nil, List.cons.injEq, and_true]
    all_goals simp (disch := omega) only [hkept, and_self]
  · have hcapitals : (capitals.all fun c =>
        String.utf8EncodeChar c.toLower = Octets.lower (String.utf8EncodeChar c)) = true := by
      decide +kernel
    exact of_decide_eq_true (List.all_eq_true.1 hcapitals c hc)

/-- Small letters are written as the small octets of the text. -/
theorem encode_toLower (cs : List Char) : encode (cs.map Char.toLower) = (encode cs).lower := by
  induction cs with
  | nil => rfl
  | cons c cs ih =>
    simp only [encode, Octets.lower, List.map_cons, List.flatMap_cons, List.map_append] at ih ⊢
    rw [ih, utf8EncodeChar_toLower, Octets.lower]

/-- Reading an octet in its small form completes the small forms of characters. -/
theorem step_lower {begun : Option Partial} (h : Begun begun) (b : UInt8) :
    step begun (Octet.lower b) =
      ((step begun b).1.map (Option.map Char.toLower), (step begun b).2) := by
  by_cases hb : b < 0x80
  · have hascii : ∀ n < 128, (Octet.lower (UInt8.ofNat n)).toNat < 128 ∧
        Char.ofNat (Octet.lower (UInt8.ofNat n)).toNat = (Char.ofNat n).toLower := by
      decide +kernel
    obtain ⟨hlt, hlower⟩ := hascii b.toNat (UInt8.lt_iff_toNat_lt.1 hb)
    rw [UInt8.ofNat_toNat] at hlt hlower
    rw [step_ascii h hb, step_ascii h (UInt8.lt_iff_toNat_lt.2 hlt), hlower]
    cases begun <;> rfl
  · have hbeyond : 0x80 ≤ b := UInt8.not_lt.1 hb
    have hkept : Octet.lower b = b := by
      have hlt := b.toNat_lt
      have hle : 128 ≤ b.toNat := UInt8.le_iff_toNat_le.1 hbeyond
      rw [← UInt8.ofNat_toNat (x := b)]
      exact Octet.lower_ofNat hlt (.inr (by omega))
    have hsame : ∀ o ∈ (step begun b).1, o.map Char.toLower = o := by
      intro o ho
      cases o with
      | none => rfl
      | some c =>
        obtain ⟨n, hn, rfl⟩ := step_beyond h hbeyond _ ho c rfl
        exact congrArg some (toLower_ofNat (Nat.lt_of_lt_of_le (by decide) hn))
    rw [hkept, List.map_congr_left hsame, List.map_id']

/-- Small octets are read as the small letters of the text, whatever character has begun. -/
theorem readFrom_lower {begun : Option Partial} (h : Begun begun) (s : Octets) :
    readFrom begun s.lower = (readFrom begun s).map (Option.map Char.toLower) := by
  induction s generalizing begun with
  | nil => cases begun <;> rfl
  | cons b s ih =>
    have hrest := ih (begun_step h b)
    have hstep := step_lower h b
    simp only [Octets.lower] at hrest ⊢
    cases begun <;> simp [readFrom, hstep, hrest]

/-- The characters of octets in small form are the small forms of the characters. -/
theorem decodeLossy_lower (s : Octets) :
    decodeLossy s.lower = (decodeLossy s).map Char.toLower := by
  have hmap : ∀ o : Option Char,
      (o.map Char.toLower).getD '\uFFFD' = (o.getD '\uFFFD').toLower := by
    intro o
    cases o <;> rfl
  simp [decodeLossy, read, readFrom_lower begun_none, Function.comp_def, hmap]

end Utf8

end SenderPolicy
