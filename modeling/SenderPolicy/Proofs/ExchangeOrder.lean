import Mathlib.Data.List.Sort
import SenderPolicy.Dns.Zone

/-!
# The order of mail exchangers

A zone sorts the mail exchangers of a name again after each one that is added, and those in a
message are sorted once. The lists are the same, since mail exchangers have only one order in which
the preferred come first and the equally preferred come as they arrived. So the invariant of a zone
is that its list is in that order, and what one more mail exchanger does to it is all there is to
prove about a zone.

Main definitions:

- `StablySorted`: mail exchangers in the order of preference, and otherwise of arrival;
- `Zone.Edit.exchange?`: the mail exchanger that a change adds to a name.

Main results:

- `StablySorted.unique`: there is only one such order;
- `stablySorted_sortByPreference`: sorting gives it;
- `Zone.records_mx_apply`, `Zone.stablySorted_applyAll`: the mail exchangers of a name after one
  change to a zone, and after many;
- `Zone.exchanges_eq_receive`: a zone holds what a message with the same records is received as.
-/

namespace SenderPolicy.Dns

/-! ## Stable orders -/

/-- Mail exchangers in order of preference. The equally preferred are in the order of arrival. -/
structure StablySorted (arrived held : List MailExchange) : Prop where
  perm : held.Perm arrived
  ascending : held.Pairwise (·.preference ≤ ·.preference)
  inOrder : ∀ p, held.filter (·.preference = p) = arrived.filter (·.preference = p)

namespace StablySorted

variable {arrived held held' : List MailExchange}

theorem nil : StablySorted [] [] := ⟨.refl _, .nil, fun _ => rfl⟩

/-- The first in order of preference is preferred. -/
theorem first_preferred {x y : MailExchange} {rest : List MailExchange}
    (h : (x :: rest).Pairwise (·.preference ≤ ·.preference)) (hy : y ∈ x :: rest) :
    x.preference ≤ y.preference := by
  rcases List.mem_cons.1 hy with rfl | hmem
  · exact UInt16.le_refl _
  · exact List.rel_of_pairwise_cons h hmem

/-- Lists in order of preference are the same if they have the same exchangers of each preference,
in the same order. -/
theorem eq_of_filter_eq (h : held.Pairwise (·.preference ≤ ·.preference))
    (h' : held'.Pairwise (·.preference ≤ ·.preference))
    (heq : ∀ p, held.filter (·.preference = p) = held'.filter (·.preference = p)) :
    held = held' := by
  induction held generalizing held' with
  | nil =>
    cases held' with
    | nil => rfl
    | cons y rest' => simpa using heq y.preference
  | cons x rest ih =>
    cases held' with
    | nil => simpa using heq x.preference
    | cons y rest' =>
      -- Each of the two that come first is found in the other list, so neither is preferred.
      have hx : x ∈ (y :: rest').filter (·.preference = x.preference) := by
        simp [← heq x.preference]
      have hy : y ∈ (x :: rest).filter (·.preference = y.preference) := by
        simp [heq y.preference]
      have hsame : x.preference = y.preference :=
        UInt16.le_antisymm (first_preferred h (List.mem_of_mem_filter hy))
          (first_preferred h' (List.mem_of_mem_filter hx))
      have hfirst : x = y := by
        have hhead := congrArg List.head? (heq x.preference)
        simpa [hsame] using hhead
      subst hfirst
      have hrest : ∀ p, rest.filter (·.preference = p) = rest'.filter (·.preference = p) := by
        intro p
        have hp := heq p
        by_cases hxp : x.preference = p <;> simpa [hxp] using hp
      exact congrArg (x :: ·) (ih h.tail h'.tail hrest)

/-- There is one such order only. -/
theorem unique (h : StablySorted arrived held) (h' : StablySorted arrived held') :
    held = held' :=
  eq_of_filter_eq h.ascending h'.ascending fun p => (h.inOrder p).trans (h'.inOrder p).symm

end StablySorted

/-! ## Sorting -/

/-- Whether an exchanger may come before another. -/
def MailExchange.MayPrecede (x y : MailExchange) : Prop := x.preference ≤ y.preference

namespace MailExchange.MayPrecede

instance : DecidableRel MayPrecede :=
  fun x y => inferInstanceAs (Decidable (x.preference ≤ y.preference))

instance : Std.Total MayPrecede := ⟨fun x y => UInt16.le_total x.preference y.preference⟩

instance : IsTrans MailExchange MayPrecede := ⟨fun _ _ _ => UInt16.le_trans⟩

end MailExchange.MayPrecede

theorem sortByPreference_eq_insertionSort (l : List MailExchange) :
    sortByPreference l = l.insertionSort MailExchange.MayPrecede := by
  have hinsert : ∀ x l, insertByPreference x l = l.orderedInsert MailExchange.MayPrecede x := by
    intro x l
    induction l with
    | nil => rfl
    | cons y rest ih =>
      rw [insertByPreference, ih]
      rfl
  rw [sortByPreference, List.insertionSort, funext fun x => funext (hinsert x)]

/-- Sorting gives the stable order. -/
theorem stablySorted_sortByPreference (l : List MailExchange) :
    StablySorted l (sortByPreference l) := by
  rw [sortByPreference_eq_insertionSort]
  have hperm := List.perm_insertionSort MailExchange.MayPrecede l
  refine ⟨hperm, List.pairwise_insertionSort MailExchange.MayPrecede l, fun p => ?_⟩
  -- The exchangers of one preference are in order already, so they are found in this order.
  have hordered : (l.filter (·.preference = p)).Pairwise MailExchange.MayPrecede := by
    refine List.pairwise_of_forall_mem_list fun x hx y hy => ?_
    simp only [List.mem_filter, decide_eq_true_eq] at hx hy
    simp [MailExchange.MayPrecede, hx.2, hy.2]
  have hsublist := (List.sublist_insertionSort hordered List.filter_sublist).filter
    (·.preference = p)
  simp only [List.filter_filter, Bool.and_self] at hsublist
  exact (hsublist.eq_of_length (hperm.filter _).length_eq.symm).symm

/-- One more exchanger at the end of those that are in order is put into its place. -/
theorem StablySorted.insert {arrived held : List MailExchange} (h : StablySorted arrived held)
    (x : MailExchange) : StablySorted (arrived ++ [x]) (sortByPreference (held ++ [x])) := by
  have hsorted := stablySorted_sortByPreference (held ++ [x])
  refine ⟨hsorted.perm.trans (h.perm.append_right [x]), hsorted.ascending, fun p => ?_⟩
  rw [hsorted.inOrder p, List.filter_append, h.inOrder p, List.filter_append]

/-! ## The exchangers of a zone -/

namespace Zone

/-- The mail exchanger that a change adds to a name, which is given fully qualified. -/
def Edit.exchange? (name : String) : Edit → Option MailExchange
  | .exchange n x => if DomainName.qualify n = name then some x else none
  | _ => none

/-- The records that are modified become what the modification makes of them. -/
theorem records_modifyRecords_self (z : Zone) (q : Question)
    (f : List q.kind.Datum → List q.kind.Datum) :
    (z.modifyRecords q f).records q = f (z.records q) := by
  simp [modifyRecords]

/-- The other records stay as they are. -/
theorem records_modifyRecords_of_ne (z : Zone) {q q' : Question} (h : q ≠ q')
    (f : List q.kind.Datum → List q.kind.Datum) :
    (z.modifyRecords q f).records q' = z.records q' := by
  simp [modifyRecords, h]

/-- The mail exchangers of a name change only if one is added to it. Then they are sorted again. -/
theorem records_mx_apply (z : Zone) (e : Edit) (name : String) :
    (z.apply e).records ⟨.mx, name⟩ = match e.exchange? name with
      | some x => sortByPreference (z.records ⟨.mx, name⟩ ++ [x.normalize])
      | none => z.records ⟨.mx, name⟩ := by
  cases e with
  | exchange n x =>
    by_cases hname : DomainName.qualify n = name
    · subst hname
      simp [apply, addExchange, records_modifyRecords_self, Edit.exchange?]
    · simp [apply, addExchange, records_modifyRecords_of_ne, Edit.exchange?, hname]
  | address n a =>
    cases a <;> simp [apply, addRecord, records_modifyRecords_of_ne, Edit.exchange?]
  | text | type99 | pointer =>
    simp [apply, addRecord, records_modifyRecords_of_ne, Edit.exchange?]
  | fault | delay | lifetime | override => rfl

/-- The mail exchangers of a name stay in the stable order, whatever is changed in a zone. -/
theorem stablySorted_applyAll {z : Zone} {name : String} {arrived : List MailExchange}
    (h : StablySorted (arrived.map .normalize) (z.records ⟨.mx, name⟩)) (edits : List Edit) :
    StablySorted ((arrived ++ edits.filterMap (Edit.exchange? name)).map .normalize)
      ((z.applyAll edits).records ⟨.mx, name⟩) := by
  induction edits generalizing z arrived with
  | nil => simpa [applyAll] using h
  | cons e edits ih =>
    have hstep := records_mx_apply z e name
    cases he : e.exchange? name with
    | none =>
      simp only [he] at hstep
      rw [← hstep] at h
      simpa [applyAll, he] using ih h
    | some x =>
      simp only [he] at hstep
      have hmore : StablySorted ((arrived ++ [x]).map .normalize)
          ((z.apply e).records ⟨.mx, name⟩) := by
        rw [hstep, List.map_append]
        exact h.insert x.normalize
      simpa [applyAll, he] using ih hmore

/-- A zone holds the mail exchangers of a name in the order of preference, and otherwise in the
order in which they were added, whatever else has been changed. They are what the same records are
received as when they come in one message. -/
theorem exchanges_eq_receive (edits : List Edit) (name : String) :
    let z := Zone.empty.applyAll edits
    let published := edits.filterMap (Edit.exchange? name)
    z.records ⟨.mx, name⟩ = Kind.mx.receive published ∧
      StablySorted (published.map .normalize) (z.records ⟨.mx, name⟩) := by
  intro z published
  have hstart : StablySorted (([] : List MailExchange).map .normalize)
      (Zone.empty.records ⟨.mx, name⟩) := .nil
  have hsorted : StablySorted (published.map .normalize) (z.records ⟨.mx, name⟩) :=
    stablySorted_applyAll hstart edits
  exact ⟨hsorted.unique (stablySorted_sortByPreference (published.map .normalize)), hsorted⟩

end Zone

end SenderPolicy.Dns
