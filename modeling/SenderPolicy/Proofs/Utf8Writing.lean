import SenderPolicy.Text.Utf8

/-!
# Writing text as octets

The first octet of a character is told from the octets that go on with it. So the octets of a text
can be cut between two characters only, unless they are cut in front of an octet that goes on with
a character.

Main definitions:

- `Utf8.GoesOn`: the octets that go on with a character;
- `Utf8.StartsCharacter`: octets in front of which a text can be cut.

Main results:

- `Utf8.encode_injective`: texts of the same octets are the same;
- `Utf8.exists_of_encode_eq_cons`: an octet of ASCII in front of a text is a character of its own;
- `Utf8.exists_suffix_of_startsCharacter`: octets at the end of a text that start a character are
  a text;
- `Utf8.exists_text_after_ascii`: what comes after an octet of ASCII is a text;
- `Utf8.encode_suffix_iff`: a text ends in another if its octets end in those of the other.
-/

namespace SenderPolicy.Utf8

/-! ## Sizes -/

theorem size_cons (c : Char) (cs : List Char) : size (c :: cs) = c.utf8Size + size cs := rfl

theorem size_append (cs ds : List Char) : size (cs ++ ds) = size cs + size ds := by
  induction cs with
  | nil => simp [size]
  | cons c cs ih => rw [List.cons_append, size_cons, ih, size_cons, Nat.add_assoc]

theorem encode_cons (c : Char) (cs : List Char) :
    encode (c :: cs) = String.utf8EncodeChar c ++ encode cs :=
  List.flatMap_cons

/-- Texts that follow one another are written one after the other. -/
theorem encode_append (cs ds : List Char) : encode (cs ++ ds) = encode cs ++ encode ds :=
  List.flatMap_append

/-- A text is written with as many octets as its size. -/
theorem length_encode (cs : List Char) : (encode cs).length = size cs := by
  induction cs with
  | nil => rfl
  | cons c cs ih =>
    rw [encode_cons, List.length_append, String.length_utf8EncodeChar, ih, size_cons]

/-! ## Where characters start -/

/-- The octets that go on with a character. -/
def GoesOn (b : UInt8) : Prop := 0x80 ≤ b ∧ b < 0xC0

/-- Octets that do not go on with a character that has begun before them. -/
def StartsCharacter (s : Octets) : Prop := ∀ b ∈ s.head?, ¬ GoesOn b

instance : DecidablePred GoesOn := fun b => inferInstanceAs (Decidable (0x80 ≤ b ∧ b < 0xC0))

instance : DecidablePred StartsCharacter := fun s =>
  inferInstanceAs (Decidable (∀ b ∈ s.head?, ¬ GoesOn b))

/-- Texts of the same octets are the same. -/
theorem encode_injective {cs ds : List Char} (h : encode cs = encode ds) : cs = ds := by
  apply String.ofList_injective
  rw [← String.toByteArray_inj, String.toByteArray_ofList, String.toByteArray_ofList]
  unfold List.utf8Encode
  exact congrArg _ h

/-- The octets of a character after its first go on with it, and the first does not. A first octet
of ASCII is all of its character. -/
theorem exists_lead (c : Char) : ∃ lead more, String.utf8EncodeChar c = lead :: more ∧
    ¬ GoesOn lead ∧ (∀ b ∈ more, GoesOn b) ∧
    (lead < 0x80 → more = [] ∧ Char.ofNat lead.toNat = c) := by
  have hlead : ∀ n, 0xC0 ≤ n → n < 256 →
      ¬ GoesOn (UInt8.ofNat n) ∧ ¬ UInt8.ofNat n < 0x80 := by
    intro n hle hlt
    unfold GoesOn
    simp only [UInt8.le_iff_toNat_le, UInt8.lt_iff_toNat_lt, UInt8.toNat_ofNat_of_lt' hlt,
      UInt8.reduceToNat]
    omega
  have hmore : ∀ n, 0x80 ≤ n → n < 0xC0 → GoesOn (UInt8.ofNat n) := by
    intro n hle hlt
    unfold GoesOn
    rw [UInt8.le_iff_toNat_le, UInt8.lt_iff_toNat_lt,
      UInt8.toNat_ofNat_of_lt' (show n < 256 by omega)]
    exact ⟨hle, hlt⟩
  unfold String.utf8EncodeChar
  dsimp only
  split
  next hascii =>
    have htoNat : (UInt8.ofNat c.val.toNat).toNat = c.val.toNat :=
      UInt8.toNat_ofNat_of_lt' (show c.val.toNat < 256 by omega)
    refine ⟨_, _, rfl, fun hgoes => ?_, by simp, fun _ => ⟨rfl, ?_⟩⟩
    · have hle := UInt8.le_iff_toNat_le.1 hgoes.1
      simp only [htoNat, UInt8.reduceToNat] at hle
      omega
    · rw [htoNat]
      exact Char.ofNat_toNat c
  -- The first octet of a character beyond ASCII lies beyond those that go on with one.
  repeat' split
  all_goals refine ⟨_, _, rfl, (hlead _ (by omega) (by omega)).1, ?_,
    fun h => absurd h (hlead _ (by omega) (by omega)).2⟩
  all_goals simp only [List.mem_cons, List.not_mem_nil, or_false]
  · rintro b rfl
    exact hmore _ (by omega) (by omega)
  · rintro b (rfl | rfl) <;> exact hmore _ (by omega) (by omega)
  · rintro b (rfl | rfl | rfl) <;> exact hmore _ (by omega) (by omega)

/-- The octets of a text start a character, if there are any. -/
theorem startsCharacter_encode (cs : List Char) : StartsCharacter (encode cs) := by
  cases cs with
  | nil => exact fun b hb => by cases hb
  | cons c cs =>
    obtain ⟨lead, more, hc, hlead, -, -⟩ := exists_lead c
    rw [encode_cons, hc]
    intro b hb
    cases hb
    exact hlead

/-- A text whose first octet is in ASCII starts with the character of that octet. -/
theorem exists_of_encode_eq_cons {cs : List Char} {b : UInt8} {rest : Octets} (hb : b < 0x80)
    (h : encode cs = b :: rest) : ∃ ds, cs = Char.ofNat b.toNat :: ds ∧ rest = encode ds := by
  cases cs with
  | nil => cases h
  | cons c ds =>
    obtain ⟨lead, more, hc, -, -, hascii⟩ := exists_lead c
    rw [encode_cons, hc] at h
    obtain ⟨rfl, hrest⟩ := List.cons.inj h
    obtain ⟨rfl, rfl⟩ := hascii hb
    exact ⟨ds, rfl, hrest.symm⟩

/-- An octet of ASCII in a text is a character of it. -/
theorem mem_of_mem_encode {cs : List Char} {b : UInt8} (hb : b < 0x80) (h : b ∈ encode cs) :
    Char.ofNat b.toNat ∈ cs := by
  obtain ⟨c, hc, hmem⟩ := List.mem_flatMap.1 h
  obtain ⟨lead, more, hoctets, -, hmore, hascii⟩ := exists_lead c
  rw [hoctets] at hmem
  rcases List.mem_cons.1 hmem with rfl | hmem
  · exact (hascii hb).2 ▸ hc
  · exact absurd hb (UInt8.not_lt.2 (hmore b hmem).1)

/-- Octets at the end of a text that start a character are those of a text at its end. -/
theorem exists_suffix_of_startsCharacter {cs : List Char} {s : Octets} (h : s <:+ encode cs)
    (hs : StartsCharacter s) : ∃ ds, ds <:+ cs ∧ s = encode ds := by
  obtain ⟨front, h⟩ := h
  induction cs generalizing front with
  | nil => exact ⟨[], List.suffix_rfl, (List.append_eq_nil_iff.1 h).2⟩
  | cons c cs ih =>
    rw [encode_cons] at h
    rcases List.append_eq_append_iff.1 h with ⟨middle, hc, hrest⟩ | ⟨middle, rfl, hrest⟩
    · -- The cut is in the octets of the first character, so at one of their ends.
      obtain ⟨lead, more, hoctets, -, hmore, -⟩ := exists_lead c
      cases front with
      | nil => exact ⟨c :: cs, List.suffix_rfl, h⟩
      | cons b front =>
        cases middle with
        | nil => exact ⟨cs, List.suffix_cons c cs, hrest⟩
        | cons b' middle =>
          have hrest' : more = front ++ b' :: middle :=
            (List.cons.inj (hoctets.symm.trans hc)).2
          refine absurd (hmore b' (hrest' ▸ List.mem_append_right front List.mem_cons_self)) ?_
          exact hs b' (hrest ▸ rfl)
    · obtain ⟨ds, hds, heq⟩ := ih _ hrest.symm
      exact ⟨ds, hds.trans (List.suffix_cons c cs), heq⟩

/-- What comes after an octet of ASCII in a text is a text. -/
theorem exists_text_after_ascii {cs : List Char} {front rest : Octets} {b : UInt8} (hb : b < 0x80)
    (h : encode cs = front ++ b :: rest) : ∃ ds, rest = encode ds := by
  have hstarts : StartsCharacter (b :: rest) := by
    intro c hc hgoes
    cases hc
    exact absurd hb (UInt8.not_lt.2 hgoes.1)
  obtain ⟨ds, -, hds⟩ := exists_suffix_of_startsCharacter ⟨front, h.symm⟩ hstarts
  obtain ⟨ds', -, hrest⟩ := exists_of_encode_eq_cons hb hds.symm
  exact ⟨ds', hrest⟩

/-- A text ends in another if its octets end in those of the other. -/
theorem encode_suffix_iff {cs ds : List Char} : encode ds <:+ encode cs ↔ ds <:+ cs := by
  constructor
  · intro h
    obtain ⟨ds', hds', heq⟩ := exists_suffix_of_startsCharacter h (startsCharacter_encode ds)
    exact encode_injective heq ▸ hds'
  · rintro ⟨front, rfl⟩
    exact ⟨encode front, (encode_append front ds).symm⟩

end SenderPolicy.Utf8
