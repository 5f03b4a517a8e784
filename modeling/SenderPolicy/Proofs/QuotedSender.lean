import SenderPolicy.Header

/-!
# The sender between quotation marks

The field of an outcome gives the sender between quotation marks, as it is. Between these a reader
takes a quotation mark for the end and a backslash for an escape. So the sender is read back from
the field exactly if each of its characters stands for itself there; a quotation mark in it ends
the value, and the rest of the sender is read as what follows.

Main definitions:

- `Quoted.Plain`, `Quoted.Escapable`: the characters that stand for themselves between quotation
  marks, and those that may follow a backslash;
- `Quoted.Spells`, `QuotedString`: what is written between quotation marks, and with them;
- `Quoted.read?`, `QuotedString.read?`: reading it from the front of a text;
- `ReceivedSpf.CarriesSender`: a field from which the sender is read back.

Main results:

- `QuotedString.read?_eq_some_iff`: the quoted strings at the front of a text are read, and only
  they;
- `Quoted.spells_self_iff`: the texts that can be quoted as they are;
- `ReceivedSpf.carriesSender_iff`: the senders that are read back;
- `QuotedString.read?_of_mark`: a quotation mark ends the value.
-/

namespace SenderPolicy

/-! ## Quoted strings -/

namespace Quoted

/-- The characters that may follow a backslash: all but the two that end lines. -/
def Escapable (c : Char) : Prop := c ≠ '\r' ∧ c ≠ '\n'

/-- The characters that stand for themselves between quotation marks. The null character has to be
escaped, as the quotation mark and the backslash have. -/
def Plain (c : Char) : Prop := Escapable c ∧ c ≠ '"' ∧ c ≠ '\\' ∧ c ≠ '\x00'

instance : DecidablePred Escapable := fun c => inferInstanceAs (Decidable (c ≠ '\r' ∧ c ≠ '\n'))

instance : DecidablePred Plain := fun c =>
  inferInstanceAs (Decidable (Escapable c ∧ c ≠ '"' ∧ c ≠ '\\' ∧ c ≠ '\x00'))

/-- What is written between quotation marks on a line, and what it stands for. -/
inductive Spells : List Char → List Char → Prop where
  | nil : Spells [] []
  | plain {c : Char} {written content : List Char} (hc : Plain c) (h : Spells written content) :
      Spells (c :: written) (c :: content)
  | escaped {c : Char} {written content : List Char} (hc : Escapable c)
      (h : Spells written content) : Spells ('\\' :: c :: written) (c :: content)

/-- Read up to a quotation mark: what stands in front of it, and the text after it. -/
def read? : List Char → Option (List Char × List Char)
  | [] => none
  | '"' :: rest => some ([], rest)
  | '\\' :: c :: rest => if Escapable c then (read? rest).map (Prod.map (c :: ·) id) else none
  | c :: rest => if Plain c then (read? rest).map (Prod.map (c :: ·) id) else none

variable {text written content after : List Char}

/-- A character that needs no escape is read as itself. -/
theorem read?_plain {c : Char} (hc : Plain c) (text : List Char) :
    read? (c :: text) = (read? text).map (Prod.map (c :: ·) id) := by
  obtain ⟨-, hmark, hescape, -⟩ := id hc
  rw [read?, if_pos hc]
  · exact hmark
  · exact fun _ _ h => absurd h hescape

/-- What is written is read, up to the quotation mark after it. -/
theorem Spells.read? (h : Spells written content) (after : List Char) :
    read? (written ++ '"' :: after) = some (content, after) := by
  induction h with
  | nil => rfl
  | plain hc _ ih => simp [read?_plain hc, ih]
  | escaped hc _ ih => simp [Quoted.read?, hc, ih]

/-- One more character is read in front of what has been read. -/
theorem map_cons_eq_some_iff {c : Char} {found : Option (List Char × List Char)} :
    found.map (Prod.map (c :: ·) id) = some (content, after) ↔
      ∃ rest, content = c :: rest ∧ found = some (rest, after) := by
  cases found with
  | none => simp
  | some found => grind [Prod.map]

/-- What is read has been written in front of a quotation mark. -/
theorem exists_of_read? (h : read? text = some (content, after)) :
    ∃ written, text = written ++ '"' :: after ∧ Spells written content := by
  fun_induction read? text generalizing content with
  | case1 => simp at h
  | case2 rest =>
    obtain ⟨rfl, rfl⟩ := by simpa using h
    exact ⟨[], rfl, .nil⟩
  | case3 c rest hc ih =>
    obtain ⟨content, rfl, hread⟩ := map_cons_eq_some_iff.1 h
    obtain ⟨written, rfl, hspells⟩ := ih hread
    exact ⟨'\\' :: c :: written, rfl, .escaped hc hspells⟩
  | case5 c rest hmark hescape hc ih =>
    obtain ⟨content, rfl, hread⟩ := map_cons_eq_some_iff.1 h
    obtain ⟨written, rfl, hspells⟩ := ih hread
    exact ⟨c :: written, rfl, .plain hc hspells⟩
  | case4 | case6 => simp at h

/-- A text stands for no more characters than it has. -/
theorem Spells.length_le (h : Spells written content) : content.length ≤ written.length := by
  induction h with
  | nil => simp
  | plain _ _ ih => simpa using ih
  | escaped _ _ ih =>
    simp only [List.length_cons]
    omega

/-- If it stands for as many, nothing in it is escaped. -/
theorem Spells.forall_plain (h : Spells written content)
    (hlength : content.length = written.length) : ∀ c ∈ written, Plain c := by
  induction h with
  | nil => simp
  | plain hc _ ih => exact List.forall_mem_cons.2 ⟨hc, ih (by simpa using hlength)⟩
  | escaped _ hspells _ =>
    have hle := hspells.length_le
    simp only [List.length_cons] at hlength
    omega

/-- The texts that stand for themselves are those of plain characters. -/
theorem spells_self_iff : Spells written written ↔ ∀ c ∈ written, Plain c := by
  constructor
  · exact fun h => h.forall_plain rfl
  · intro h
    induction written with
    | nil => exact .nil
    | cons c written ih =>
      rw [List.forall_mem_cons] at h
      exact .plain h.1 (ih h.2)

end Quoted

/-- A quoted string on a line, and what it stands for. -/
def QuotedString (text content : List Char) : Prop :=
  ∃ written, text = '"' :: (written ++ ['"']) ∧ Quoted.Spells written content

namespace QuotedString

open Quoted

variable {text content after : List Char}

/-- Read a quoted string at the front of a text: what it stands for, and the text after it. -/
def read? : List Char → Option (List Char × List Char)
  | '"' :: rest => Quoted.read? rest
  | _ => none

/-- The quoted strings at the front of a text are read, and only they. -/
theorem read?_eq_some_iff : read? text = some (content, after) ↔
    ∃ value, text = value ++ after ∧ QuotedString value content := by
  constructor
  · intro h
    unfold read? at h
    split at h
    · obtain ⟨written, rfl, hspells⟩ := exists_of_read? h
      exact ⟨'"' :: (written ++ ['"']), by simp, written, rfl, hspells⟩
    · simp at h
  · rintro ⟨value, rfl, written, rfl, hspells⟩
    simpa [read?] using hspells.read? after

/-- A text between quotation marks is a quoted string that stands for it if it is plain. -/
theorem marks_iff : QuotedString ('"' :: (content ++ ['"'])) content ↔ ∀ c ∈ content, Plain c := by
  rw [← spells_self_iff]
  constructor
  · rintro ⟨written, heq, hspells⟩
    have hwritten : written = content := by simpa using heq.symm
    exact hwritten ▸ hspells
  · exact fun h => ⟨content, rfl, h⟩

/-- The first quotation mark between quotation marks is taken for the last. What comes after it
is not in the value. -/
theorem read?_of_mark {front : List Char} (hfront : ∀ c ∈ front, Plain c)
    (back after : List Char) :
    read? ('"' :: (front ++ '"' :: back ++ '"' :: after)) = some (front, back ++ '"' :: after) :=
  read?_eq_some_iff.2 ⟨'"' :: (front ++ ['"']), by simp, marks_iff.2 hfront⟩

end QuotedString

/-! ## The field -/

namespace ReceivedSpf

section

variable (v : Verdict) (client : Address) (helo sender host : String)

/-- What stands in front of the sender in the field of a verdict: the comment, the host and the
client. -/
def opening : String :=
  v.comment host (senderOrPostmaster helo sender) client ++ "\r\n\treceiver=" ++ host ++
    "; client-ip=" ++ client.text ++ "; "

/-- The value of the sender in the field, between its key and the next, is a quoted string that
stands for the sender, and whatever comes after it, the sender is read there. -/
def CarriesSender : Prop :=
  ∃ value : String,
    (ofVerdict v client helo sender host).body =
        opening v client helo sender host ++ "envelope-from=" ++ value ++ "; helo=" ++ helo ++ ";" ∧
      QuotedString value.toList (senderOrPostmaster helo sender).toList ∧
      ∀ after, QuotedString.read? (value.toList ++ after) =
        some ((senderOrPostmaster helo sender).toList, after)

end

variable {v : Verdict} {client : Address} {helo sender host : String}

/-- The value of the sender in the field is the sender between quotation marks. -/
theorem body_eq_iff {value : String} :
    (ofVerdict v client helo sender host).body =
        opening v client helo sender host ++ "envelope-from=" ++ value ++ "; helo=" ++ helo ++ ";" ↔
      value.toList = '"' :: ((senderOrPostmaster helo sender).toList ++ ['"']) := by
  have hbody : (ofVerdict v client helo sender host).body = opening v client helo sender host ++
      "envelope-from=" ++ ("\"" ++ senderOrPostmaster helo sender ++ "\"") ++ "; helo=" ++ helo ++
        ";" := by
    have hstart : "; envelope-from=\"" = "; " ++ ("envelope-from=" ++ "\"") := rfl
    have hend : "\"; helo=" = "\"" ++ "; helo=" := rfl
    simp only [ofVerdict, opening, hstart, hend, String.append_assoc]
  rw [hbody]
  simp only [String.append_left_inj, String.append_right_inj]
  rw [← String.toList_inj, eq_comm]
  simp

/-- The sender is read back from the field if all its characters are plain, and in no other case. -/
theorem carriesSender_iff (v : Verdict) (client : Address) (helo sender host : String) :
    CarriesSender v client helo sender host ↔
      ∀ c ∈ (senderOrPostmaster helo sender).toList, Quoted.Plain c := by
  constructor
  · rintro ⟨value, hbody, hquoted, -⟩
    rw [body_eq_iff.1 hbody] at hquoted
    exact QuotedString.marks_iff.1 hquoted
  · intro h
    have hquoted := QuotedString.marks_iff.2 h
    refine ⟨.ofList _, body_eq_iff.2 (String.toList_ofList), ?_, fun after => ?_⟩
    · rwa [String.toList_ofList]
    · rw [String.toList_ofList]
      exact QuotedString.read?_eq_some_iff.2 ⟨_, rfl, hquoted⟩

/-- Not every sender of one line is read back: the value of one whose local part is quoted ends
where the local part begins. -/
theorem not_forall_carriesSender :
    ¬ ∀ (v : Verdict) (client : Address) (helo sender host : String),
      (∀ text ∈ [helo, sender, host], '\r' ∉ text.toList ∧ '\n' ∉ text.toList) →
        CarriesSender v client helo sender host := by
  intro hall
  let sender := "\"john doe\"@example.org"
  obtain ⟨value, hbody, -, hread⟩ :=
    hall .pass (.v4 (.ofOctets [192, 0, 2, 1])) "mail.example.org" sender "mx.example.org"
      (by decide)
  have hmailbox : (senderOrPostmaster "mail.example.org" sender).toList =
      [] ++ '"' :: "john doe\"@example.org".toList := by decide
  have hwhole := hread []
  rw [body_eq_iff.1 hbody, hmailbox, List.append_nil] at hwhole
  have hends := QuotedString.read?_of_mark (List.forall_mem_nil Quoted.Plain)
    "john doe\"@example.org".toList []
  exact absurd (hwhole.symm.trans hends) (by decide)

end ReceivedSpf

end SenderPolicy
