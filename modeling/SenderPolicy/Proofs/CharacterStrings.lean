import Mathlib.Data.List.Basic
import SenderPolicy.Dns.Message

/-!
# Strings in the data of records

The data of a record of type 99 is read as strings by the lengths in it. Writing strings and reading
data are inverse to one another, and data is refused only if it ends within a string. So a policy
reads the same in a record of type 99 and in a text record with the same strings.

Main definitions:

- `CharacterString.Overruns`: data that ends before a string does;
- `CharacterString.withoutLengths`: data without the octets that are lengths.

Main results:

- `CharacterString.data_induction`: data is taken apart string by string;
- `CharacterString.decode?_encode_append`: strings at the start of data are read first;
- `CharacterString.encode_of_decode?`: the strings that are read are those that are written;
- `CharacterString.decode?_eq_none_iff`: the data that is refused;
- `CharacterString.receive_spf_encode`: the texts of records of type 99 and of text records;
- `CharacterString.decode?_iff_encode`: strings and their data, and the texts that answers hold.
-/

namespace SenderPolicy.Dns.CharacterString

/-- Some length in the data, read in sequence, is more than what is left. -/
def Overruns (data : Octets) : Prop :=
  ∃ (strings : List Octets) (size : UInt8) (rest : Octets), (∀ s ∈ strings, s.length ≤ 255) ∧
    data = encode strings ++ size :: rest ∧ rest.length < size.toNat

/-- Data without the octets that are lengths, where the given number of octets is still to come of a
string that has begun. -/
def withoutLengths : Nat → Octets → Octets
  | _, [] => []
  | 0, size :: rest => withoutLengths size.toNat rest
  | owed + 1, b :: rest => b :: withoutLengths owed rest

/-- The first string is written before the others, after its length. -/
theorem encode_cons (s : Octets) (strings : List Octets) :
    encode (s :: strings) = UInt8.ofNat s.length :: (s ++ encode strings) :=
  List.flatMap_cons

/-! ## Reading and writing -/

/-- What holds of data without octets, of data that ends before its first string does, and of a
string in front of data of which it holds, holds of all data. -/
theorem data_induction {motive : Octets → Prop} (nil : motive [])
    (short : ∀ (size : UInt8) (rest : Octets), rest.length < size.toNat → motive (size :: rest))
    (string : ∀ s rest : Octets, s.length ≤ 255 → motive rest →
      motive (UInt8.ofNat s.length :: (s ++ rest))) (data : Octets) : motive data := by
  fun_induction decode? data with
  | case1 => exact nil
  | case2 size rest hless => exact short size rest hless
  | case3 size rest hleft ih =>
    have hsize : (rest.take size.toNat).length = size.toNat := by
      rw [List.length_take]
      omega
    have hle : (rest.take size.toNat).length ≤ 255 := by
      rw [hsize]
      exact Nat.le_of_lt_succ size.toNat_lt
    have hstring := string (rest.take size.toNat) (rest.drop size.toNat) hle ih
    rwa [hsize, UInt8.ofNat_toNat, List.take_append_drop] at hstring

/-- A string at the start of data is read first. -/
theorem decode?_string {s : Octets} (hs : s.length ≤ 255) (rest : Octets) :
    decode? (UInt8.ofNat s.length :: (s ++ rest)) = (decode? rest).map (s :: ·) := by
  have hsize : (UInt8.ofNat s.length).toNat = s.length :=
    UInt8.toNat_ofNat_of_lt' (Nat.lt_succ_of_le hs)
  have hleft : ¬ (s ++ rest).length < s.length := by
    rw [List.length_append]
    omega
  rw [decode?, hsize, if_neg hleft, List.take_left, List.drop_left]

/-- Strings at the start of data are read first. -/
theorem decode?_encode_append {strings : List Octets} (h : ∀ s ∈ strings, s.length ≤ 255)
    (rest : Octets) : decode? (encode strings ++ rest) = (decode? rest).map (strings ++ ·) := by
  induction strings with
  | nil => exact Option.map_id'.symm
  | cons s strings ih =>
    obtain ⟨hs, hstrings⟩ := List.forall_mem_cons.1 h
    rw [encode_cons, List.cons_append, List.append_assoc, decode?_string hs, ih hstrings,
      Option.map_map]
    rfl

/-- Strings that are short enough are read as they were written. -/
theorem decode?_encode {strings : List Octets} (h : ∀ s ∈ strings, s.length ≤ 255) :
    decode? (encode strings) = some strings := by
  have hread := decode?_encode_append h []
  simpa [decode?] using hread

/-- The strings that are read are those that are written. -/
theorem encode_of_decode? {data : Octets} {strings : List Octets}
    (h : decode? data = some strings) :
    (∀ s ∈ strings, s.length ≤ 255) ∧ encode strings = data := by
  induction data using data_induction generalizing strings with
  | nil =>
    rw [decode?] at h
    cases h
    exact ⟨List.forall_mem_nil _, rfl⟩
  | short size rest hless =>
    rw [decode?, if_pos hless] at h
    cases h
  | string s rest hs ih =>
    rw [decode?_string hs] at h
    obtain ⟨strings, hstrings, rfl⟩ := Option.map_eq_some_iff.1 h
    obtain ⟨hlengths, hrest⟩ := ih hstrings
    exact ⟨List.forall_mem_cons.2 ⟨hs, hlengths⟩, by rw [encode_cons, hrest]⟩

/-- Data is refused if it ends before a string does. -/
theorem decode?_eq_none_iff {data : Octets} : decode? data = none ↔ Overruns data := by
  constructor
  · intro h
    induction data using data_induction with
    | nil =>
      rw [decode?] at h
      cases h
    | short size rest hless => exact ⟨[], size, rest, List.forall_mem_nil _, rfl, hless⟩
    | string s rest hs ih =>
      rw [decode?_string hs, Option.map_eq_none_iff] at h
      obtain ⟨strings, size, rest', hlengths, rfl, hless⟩ := ih h
      refine ⟨s :: strings, size, rest', List.forall_mem_cons.2 ⟨hs, hlengths⟩, ?_, hless⟩
      rw [encode_cons, List.cons_append, List.append_assoc]
  · rintro ⟨strings, size, rest, hlengths, rfl, hless⟩
    rw [decode?_encode_append hlengths, decode?, if_pos hless, Option.map_none]

/-! ## Texts -/

/-- The octets of a string are kept, and the octet after them is a length. -/
theorem withoutLengths_append (s rest : Octets) :
    withoutLengths s.length (s ++ rest) = s ++ withoutLengths 0 rest := by
  induction s with
  | nil => rfl
  | cons b s ih => exact congrArg (b :: ·) ih

/-- Without the lengths the strings follow one after another. -/
theorem withoutLengths_encode {strings : List Octets} (h : ∀ s ∈ strings, s.length ≤ 255) :
    withoutLengths 0 (encode strings) = strings.flatten := by
  induction strings with
  | nil => rfl
  | cons s strings ih =>
    obtain ⟨hs, hstrings⟩ := List.forall_mem_cons.1 h
    rw [encode_cons, withoutLengths, UInt8.toNat_ofNat_of_lt' (Nat.lt_succ_of_le hs),
      withoutLengths_append, ih hstrings, List.flatten_cons]

/-- Records of type 99 hold the same texts as text records with the same strings. -/
theorem receive_spf_encode {published : List (List Octets)}
    (h : ∀ strings ∈ published, ∀ s ∈ strings, s.length ≤ 255) :
    Kind.spf.receive (published.map encode) = Kind.txt.receive published := by
  have hread : ∀ strings ∈ published,
      (decode? (encode strings)).map List.flatten = some strings.flatten := by
    intro strings hstrings
    rw [decode?_encode (h strings hstrings), Option.map_some]
  calc
    Kind.spf.receive (published.map encode)
    _ = (published.map encode).filterMap fun data => (decode? data).map List.flatten := rfl
    _ = published.filterMap fun strings => (decode? (encode strings)).map List.flatten :=
      List.filterMap_map
    _ = published.map List.flatten := List.filterMap_eq_map_iff_forall_eq_some.2 hread

/-- Strings of at most 255 octets are read from the data that they are written as, and from no other
data; and data is refused exactly if a length in it is more than what is left. The text of a record
of type 99 is its data without the lengths, and is that of a text record with the same strings. -/
theorem decode?_iff_encode :
    (∀ (data : Octets) (strings : List Octets), decode? data = some strings ↔
      (∀ s ∈ strings, s.length ≤ 255) ∧ encode strings = data) ∧
    (∀ data : Octets, decode? data = none ↔ Overruns data) ∧
    (∀ (data : Octets) (strings : List Octets), decode? data = some strings →
      Kind.spf.receive [data] = [withoutLengths 0 data] ∧
        Kind.txt.receive [strings] = [withoutLengths 0 data]) ∧
    ∀ published : List (List Octets), (∀ strings ∈ published, ∀ s ∈ strings, s.length ≤ 255) →
      Kind.spf.receive (published.map encode) = Kind.txt.receive published := by
  refine ⟨fun data strings => ⟨encode_of_decode?, ?_⟩, fun data => decode?_eq_none_iff,
    fun data strings hread => ?_, fun published => receive_spf_encode⟩
  · rintro ⟨hlengths, rfl⟩
    exact decode?_encode hlengths
  · obtain ⟨hlengths, rfl⟩ := encode_of_decode? hread
    rw [withoutLengths_encode hlengths]
    have htexts := @receive_spf_encode [strings] (List.forall_mem_singleton.2 hlengths)
    exact ⟨htexts, rfl⟩

end SenderPolicy.Dns.CharacterString
