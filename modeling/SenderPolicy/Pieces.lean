/-!
# Cutting lists at marked elements

Records, names and mailboxes are all read by cutting a sequence at the places
where a given element stands.

Main definitions:

- `pieces`: the parts between the marked elements, empty parts kept;
- `splitFirst?` and `splitLast?`: what stands before and after the first or
  the last marked element.

Main results:

- `intercalate_pieces`: joining the parts with the marks put back gives the
  sequence, when all marks are the same element.
- `splitFirst?_eq_some` and `splitLast?_eq_some`: the two halves and the mark
  make up the sequence;
- `splitFirst?_append` and `splitLast?_append`: a sequence is cut where its
  first or its last mark stands;
- `splitFirst?_eq_some_iff` and `splitLast?_eq_some_iff`: a sequence is cut
  where an element stands first or last, when all marks are that element.
-/

namespace SenderPolicy

variable {α : Type}

/-- The parts of a list between the elements that satisfy `mark`. There is one
part more than there are marks, and parts may be empty. -/
def pieces (mark : α → Bool) : List α → List (List α)
  | [] => [[]]
  | a :: rest =>
    if mark a then [] :: pieces mark rest
    else match pieces mark rest with
      | [] => [[a]]
      | part :: parts => (a :: part) :: parts

/-- What stands before and after the first element that satisfies `mark`. -/
def splitFirst? (mark : α → Bool) : List α → Option (List α × List α)
  | [] => none
  | a :: rest =>
    if mark a then some ([], rest)
    else (splitFirst? mark rest).map fun (before, after) => (a :: before, after)

/-- What stands before and after the last element that satisfies `mark`. -/
def splitLast? (mark : α → Bool) : List α → Option (List α × List α)
  | [] => none
  | a :: rest =>
    match splitLast? mark rest with
    | some (before, after) => some (a :: before, after)
    | none => if mark a then some ([], rest) else none

/-- Remove one final `mark`, if the list ends in one. -/
def dropFinal [DecidableEq α] (mark : α) : List α → List α
  | [] => []
  | [a] => if a = mark then [] else [a]
  | a :: b :: rest => a :: dropFinal mark (b :: rest)

/-- Remove every element at the end that satisfies `mark`. -/
def dropTrailing (mark : α → Bool) (l : List α) : List α :=
  (l.reverse.dropWhile mark).reverse

/-- There is always at least one part. -/
theorem pieces_ne_nil (mark : α → Bool) (l : List α) : pieces mark l ≠ [] := by
  cases l with
  | nil => simp [pieces]
  | cons a rest =>
    unfold pieces
    split
    · simp
    · split <;> simp

theorem exists_pieces_eq_cons (mark : α → Bool) (l : List α) :
    ∃ part parts, pieces mark l = part :: parts :=
  List.exists_cons_of_ne_nil (pieces_ne_nil mark l)

/-- What has no marks in it belongs to the first part. -/
theorem pieces_append_of_forall_not {mark : α → Bool} {l r part : List α} {parts : List (List α)}
    (hl : ∀ a ∈ l, mark a = false) (hr : pieces mark r = part :: parts) :
    pieces mark (l ++ r) = (l ++ part) :: parts := by
  induction l with
  | nil => exact hr
  | cons a l ih =>
    have ha : mark a = false := hl a List.mem_cons_self
    have hrest := ih fun b hb => hl b (List.mem_cons_of_mem a hb)
    simp [pieces, ha, hrest]

/-- A list without marks is a single part. -/
theorem pieces_of_forall_not {mark : α → Bool} {l : List α} (h : ∀ a ∈ l, mark a = false) :
    pieces mark l = [l] := by
  have hpieces := pieces_append_of_forall_not h (show pieces mark [] = [[]] from rfl)
  rwa [List.append_nil] at hpieces

/-- The parts hold elements of the list. -/
theorem mem_of_mem_pieces {mark : α → Bool} {l part : List α} {a : α}
    (hpart : part ∈ pieces mark l) (ha : a ∈ part) : a ∈ l := by
  induction l generalizing part with
  | nil =>
    rw [List.mem_singleton.1 hpart] at ha
    cases ha
  | cons b rest ih =>
    obtain ⟨first, others, hrest⟩ := exists_pieces_eq_cons mark rest
    unfold pieces at hpart
    rw [hrest] at ih
    split at hpart
    · rcases List.mem_cons.1 hpart with rfl | hpart
      · cases ha
      · exact List.mem_cons_of_mem b (ih (hrest ▸ hpart) ha)
    · rw [hrest] at hpart
      rcases List.mem_cons.1 hpart with rfl | hpart
      · rcases List.mem_cons.1 ha with rfl | ha
        · exact List.mem_cons_self
        · exact List.mem_cons_of_mem b (ih List.mem_cons_self ha)
      · exact List.mem_cons_of_mem b (ih (List.mem_cons_of_mem first hpart) ha)

/-- A list with a mark has at least two parts. -/
theorem two_le_length_pieces {mark : α → Bool} {l : List α} {a : α} (ha : mark a = true)
    (hmem : a ∈ l) : 2 ≤ (pieces mark l).length := by
  have hpos : ∀ l : List α, 0 < (pieces mark l).length :=
    fun l => List.length_pos_iff.2 (pieces_ne_nil mark l)
  induction l with
  | nil => cases hmem
  | cons b rest ih =>
    by_cases hb : mark b = true
    · have := hpos rest
      simp only [pieces, hb, if_true, List.length_cons]
      omega
    · have hrest : a ∈ rest := by
        rcases List.mem_cons.1 hmem with rfl | hrest
        · exact absurd ha hb
        · exact hrest
      obtain ⟨part, parts, hparts⟩ := exists_pieces_eq_cons mark rest
      have hlength := ih hrest
      simpa [pieces, hb, hparts] using hlength

/-- The last of the parts that a mark at the end makes is empty. -/
theorem pieces_append_mark {mark : α → Bool} {a : α} (ha : mark a = true) (l : List α) :
    pieces mark (l ++ [a]) = pieces mark l ++ [[]] := by
  induction l with
  | nil => simp [pieces, ha]
  | cons b rest ih =>
    obtain ⟨part, parts, hparts⟩ := exists_pieces_eq_cons mark rest
    by_cases hb : mark b = true <;> simp [pieces, ih, hb, hparts]

/-- What is no mark belongs to the last part when it stands at the end. -/
theorem exists_pieces_append_singleton {mark : α → Bool} {a : α} (ha : mark a = false)
    (l : List α) : ∃ parts last, pieces mark l = parts ++ [last] ∧
      pieces mark (l ++ [a]) = parts ++ [last ++ [a]] := by
  induction l with
  | nil => exact ⟨[], [], rfl, by simp [pieces, ha]⟩
  | cons b rest ih =>
    obtain ⟨parts, last, hrest, hmore⟩ := ih
    by_cases hb : mark b = true
    · exact ⟨[] :: parts, last, by simp [pieces, hb, hrest], by simp [pieces, hb, hmore]⟩
    · cases parts with
      | nil => exact ⟨[], b :: last, by simp [pieces, hb, hrest], by simp [pieces, hb, hmore]⟩
      | cons part parts =>
        exact ⟨(b :: part) :: parts, last, by simp [pieces, hb, hrest], by simp [pieces, hb, hmore]⟩

/-- One mark at the end is removed. -/
@[simp] theorem dropFinal_append [DecidableEq α] (mark : α) (l : List α) :
    dropFinal mark (l ++ [mark]) = l := by
  induction l with
  | nil => simp [dropFinal]
  | cons a rest ih =>
    cases rest with
    | nil => simp [dropFinal]
    | cons b rest => simpa [dropFinal] using ih

/-- A list that does not end in the mark is kept. -/
theorem dropFinal_of_ne [DecidableEq α] {mark : α} {l : List α} (h : l.getLast? ≠ some mark) :
    dropFinal mark l = l := by
  induction l with
  | nil => rfl
  | cons a rest ih =>
    cases rest with
    | nil =>
      have ha : a ≠ mark := by simpa using h
      simp [dropFinal, ha]
    | cons b rest =>
      have hrest := ih (by simpa [List.getLast?_cons_cons] using h)
      simp [dropFinal, hrest]

/-- Nothing but a mark is removed. -/
theorem mem_of_mem_dropFinal [DecidableEq α] {mark a : α} {l : List α}
    (h : a ∈ dropFinal mark l) : a ∈ l := by
  by_cases hlast : l.getLast? = some mark
  · obtain ⟨front, rfl⟩ := List.getLast?_eq_some_iff.1 hlast
    rw [dropFinal_append] at h
    exact List.mem_append_left _ h
  · rwa [dropFinal_of_ne hlast] at h

section Map

variable {β : Type} {f : α → β} {mark : α → Bool} {mark' : β → Bool}
  (hmark : ∀ a, mark' (f a) = mark a) (l : List α)
include hmark

/-- A list is cut alike after its elements are changed, if none becomes or ceases to be a mark. -/
theorem pieces_map : pieces mark' (l.map f) = (pieces mark l).map (List.map f) := by
  induction l with
  | nil => rfl
  | cons a rest ih =>
    obtain ⟨part, parts, hparts⟩ := exists_pieces_eq_cons mark rest
    rw [hparts] at ih
    by_cases ha : mark a = true <;> simp [pieces, hmark, ha, hparts, ih]

theorem splitFirst?_map : splitFirst? mark' (l.map f) =
    (splitFirst? mark l).map (Prod.map (List.map f) (List.map f)) := by
  induction l with
  | nil => rfl
  | cons a rest ih =>
    by_cases ha : mark a = true <;> simp [splitFirst?, hmark, ha, ih, Function.comp_def]

theorem splitLast?_map : splitLast? mark' (l.map f) =
    (splitLast? mark l).map (Prod.map (List.map f) (List.map f)) := by
  induction l with
  | nil => rfl
  | cons a rest ih =>
    simp only [List.map_cons, splitLast?, ih, hmark]
    cases splitLast? mark rest with
    | none => by_cases ha : mark a = true <;> simp [ha]
    | some halves => rfl

theorem dropTrailing_map : dropTrailing mark' (l.map f) = (dropTrailing mark l).map f := by
  have hcomp : mark' ∘ f = mark := funext hmark
  simp only [dropTrailing, ← List.map_reverse, List.dropWhile_map, hcomp]

end Map

/-- One mark at the end is removed before or after the other elements are changed. -/
theorem dropFinal_map {β : Type} [DecidableEq α] [DecidableEq β] {f : α → β} {mark : α}
    {mark' : β} (hmark : ∀ a, f a = mark' ↔ a = mark) (l : List α) :
    dropFinal mark' (l.map f) = (dropFinal mark l).map f := by
  by_cases hlast : l.getLast? = some mark
  · obtain ⟨front, rfl⟩ := List.getLast?_eq_some_iff.1 hlast
    rw [List.map_append, List.map_singleton, (hmark mark).2 rfl, dropFinal_append, dropFinal_append]
  · have hlast' : (l.map f).getLast? ≠ some mark' := by
      simpa [List.getLast?_map, hmark] using hlast
    rw [dropFinal_of_ne hlast, dropFinal_of_ne hlast']

/-- Joining the parts around `a` with `a` gives the list back. -/
theorem intercalate_pieces [DecidableEq α] (a : α) (l : List α) :
    [a].intercalate (pieces (· = a) l) = l := by
  induction l with
  | nil => simp [pieces, List.intercalate]
  | cons b rest ih =>
    obtain ⟨part, parts, hp⟩ := exists_pieces_eq_cons (· = a) rest
    by_cases hb : b = a
    · subst hb
      simp only [pieces, decide_true, if_true]
      rw [hp] at ih ⊢
      simpa [List.intercalate] using ih
    · simp only [pieces, hb, decide_false, Bool.false_eq_true, if_false, hp]
      rw [hp] at ih
      cases parts <;> simp_all [List.intercalate]

/-- The halves around the first mark hold no mark on the left, and with the
mark between them they are the list. -/
theorem splitFirst?_eq_some {mark : α → Bool} {l before after : List α}
    (h : splitFirst? mark l = some (before, after)) :
    ∃ a, mark a = true ∧ (∀ b ∈ before, mark b = false) ∧ l = before ++ a :: after := by
  induction l generalizing before after with
  | nil => simp [splitFirst?] at h
  | cons c rest ih =>
    unfold splitFirst? at h
    split at h
    next hc =>
      simp only [Option.some.injEq, Prod.mk.injEq] at h
      obtain ⟨rfl, rfl⟩ := h
      exact ⟨c, hc, by simp, rfl⟩
    next hc =>
      simp only [Option.map_eq_some_iff, Prod.mk.injEq, Prod.exists] at h
      obtain ⟨b', a', hs, rfl, rfl⟩ := h
      obtain ⟨m, hm, hb, rfl⟩ := ih hs
      refine ⟨m, hm, ?_, rfl⟩
      intro b hmem
      rcases List.mem_cons.1 hmem with rfl | hmem
      · simpa using hc
      · exact hb b hmem

/-- No first mark is found exactly when there is no mark. -/
theorem splitFirst?_eq_none_iff {mark : α → Bool} {l : List α} :
    splitFirst? mark l = none ↔ ∀ a ∈ l, mark a = false := by
  induction l with
  | nil => simp [splitFirst?]
  | cons a rest ih =>
    by_cases ha : mark a = true <;> simp_all [splitFirst?]

/-- A list is cut at a mark before which there is none. -/
theorem splitFirst?_append {mark : α → Bool} {before : List α} {a : α} (ha : mark a = true)
    (hbefore : ∀ b ∈ before, mark b = false) (after : List α) :
    splitFirst? mark (before ++ a :: after) = some (before, after) := by
  induction before with
  | nil => exact if_pos ha
  | cons b before ih =>
    have hb : ¬ mark b = true := by simp [hbefore b List.mem_cons_self]
    rw [List.cons_append, splitFirst?, if_neg hb,
      ih fun c hc => hbefore c (List.mem_cons_of_mem b hc)]
    rfl

/-- No last mark is found exactly when there is no mark. -/
theorem splitLast?_eq_none_iff {mark : α → Bool} {l : List α} :
    splitLast? mark l = none ↔ ∀ a ∈ l, mark a = false := by
  induction l with
  | nil => simp [splitLast?]
  | cons a rest ih =>
    cases hrest : splitLast? mark rest with
    | none =>
      have hnot := ih.1 hrest
      by_cases ha : mark a = true <;> simp_all [splitLast?]
    | some halves =>
      have hmark : ¬ ∀ b ∈ rest, mark b = false := fun h => by simp [ih.2 h] at hrest
      simp only [splitLast?, hrest, List.forall_mem_cons]
      exact iff_of_false (by simp) fun h => hmark h.2

/-- The halves around the last mark hold no mark on the right, and with the
mark between them they are the list. -/
theorem splitLast?_eq_some {mark : α → Bool} {l before after : List α}
    (h : splitLast? mark l = some (before, after)) :
    ∃ a, mark a = true ∧ (∀ b ∈ after, mark b = false) ∧ l = before ++ a :: after := by
  induction l generalizing before after with
  | nil => simp [splitLast?] at h
  | cons c rest ih =>
    unfold splitLast? at h
    split at h
    next b' a' hs =>
      simp only [Option.some.injEq, Prod.mk.injEq] at h
      obtain ⟨rfl, rfl⟩ := h
      obtain ⟨m, hm, ha, rfl⟩ := ih hs
      exact ⟨m, hm, ha, rfl⟩
    next hs =>
      split at h
      next hc =>
        simp only [Option.some.injEq, Prod.mk.injEq] at h
        obtain ⟨rfl, rfl⟩ := h
        exact ⟨c, hc, splitLast?_eq_none_iff.1 hs, rfl⟩
      next => simp at h

/-- A list is cut at a mark after which there is none. -/
theorem splitLast?_append {mark : α → Bool} {after : List α} {a : α} (ha : mark a = true)
    (hafter : ∀ b ∈ after, mark b = false) (before : List α) :
    splitLast? mark (before ++ a :: after) = some (before, after) := by
  induction before with
  | nil =>
    have hnone : splitLast? mark after = none := splitLast?_eq_none_iff.2 hafter
    simp [splitLast?, hnone, ha]
  | cons b before ih => rw [List.cons_append, splitLast?, ih]

section Element

variable [DecidableEq α] {a : α} {l before after : List α}

/-- What is marked as one element is that element. -/
theorem forall_not_mark_iff : (∀ b ∈ l, decide (b = a) = false) ↔ a ∉ l := by
  simp only [decide_eq_false_iff_not]
  constructor
  · exact fun h hmem => h a hmem rfl
  · rintro h b hb rfl
    exact h hb

theorem splitFirst?_eq_none_iff_notMem : splitFirst? (· = a) l = none ↔ a ∉ l :=
  splitFirst?_eq_none_iff.trans forall_not_mark_iff

/-- A list is cut where an element stands first. -/
theorem splitFirst?_eq_some_iff :
    splitFirst? (· = a) l = some (before, after) ↔ l = before ++ a :: after ∧ a ∉ before := by
  constructor
  · intro h
    obtain ⟨b, hb, hbefore, rfl⟩ := splitFirst?_eq_some h
    obtain rfl : b = a := of_decide_eq_true hb
    exact ⟨rfl, forall_not_mark_iff.1 hbefore⟩
  · rintro ⟨rfl, hbefore⟩
    exact splitFirst?_append (by simp) (forall_not_mark_iff.2 hbefore) after

theorem splitLast?_eq_none_iff_notMem : splitLast? (· = a) l = none ↔ a ∉ l :=
  splitLast?_eq_none_iff.trans forall_not_mark_iff

/-- A list is cut where an element stands last. -/
theorem splitLast?_eq_some_iff :
    splitLast? (· = a) l = some (before, after) ↔ l = before ++ a :: after ∧ a ∉ after := by
  constructor
  · intro h
    obtain ⟨b, hb, hafter, rfl⟩ := splitLast?_eq_some h
    obtain rfl : b = a := of_decide_eq_true hb
    exact ⟨rfl, forall_not_mark_iff.1 hafter⟩
  · rintro ⟨rfl, hafter⟩
    exact splitLast?_append (by simp) (forall_not_mark_iff.2 hafter) before

end Element

end SenderPolicy
