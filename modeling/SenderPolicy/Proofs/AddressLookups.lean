import SenderPolicy.Proofs.ClientNames
import SenderPolicy.Proofs.Tally

/-!
# Lookups of addresses

Mechanisms that compare the client with several names look up the addresses of these one after the
other. What they come to is told from the list of these lookups: the first of them that decides,
and what is charged for those that are made.

Main definitions:

- `FirstAt`: the first element of a list with a property;
- `Address.agrees`: addresses of one family that agree under its mask;
- `AddressLookup`, `addressLookups`: the lookups of the addresses of names;
- `Budget.Charged`: budgets that differ by charges only;
- `CountsVoid`, `AnswerDecides`: what a term comes to without an answer, and from what its lookup
  comes to.

Main results:

- `FirstAt.unique`: there is one first element;
- `resolvesNear_eq`: a name has an address near that of the client if one that is found agrees;
- `AnswerDecides.of_orVoid`: the first of the lookups of a term decides.
-/

namespace SenderPolicy

/-! ## The first element with a property -/

/-- The first element of a list with a property, after those before it. -/
structure FirstAt {α : Type} (P : α → Prop) (l before : List α) (a : α) : Prop where
  starts : before ++ [a] <+: l
  not_before : ∀ b ∈ before, ¬ P b
  holds : P a

namespace FirstAt

variable {α : Type} {P : α → Prop} {l before before' made : List α} {a b : α}

theorem head (h : P a) (l : List α) : FirstAt P (a :: l) [] a :=
  ⟨List.prefix_append [a] l, List.forall_mem_nil _, h⟩

theorem cons (hb : ¬ P b) (h : FirstAt P l before a) : FirstAt P (b :: l) (b :: before) a :=
  ⟨List.cons_prefix_cons.2 ⟨rfl, h.starts⟩, List.forall_mem_cons.2 ⟨hb, h.not_before⟩, h.holds⟩

theorem mem (h : FirstAt P l before a) : a ∈ l := h.starts.subset (by simp)

/-- What starts the list and goes beyond the elements before holds the first element. -/
theorem mem_of_prefix (h : FirstAt P l before a) (hmade : made <+: l)
    (hlength : before.length < made.length) : a ∈ made := by
  have hstarts : before ++ [a] <+: made :=
    List.prefix_of_prefix_length_le h.starts hmade (by simpa using Nat.succ_le_of_lt hlength)
  exact hstarts.subset (by simp)

/-- There is one first element. -/
theorem unique (h : FirstAt P l before a) (h' : FirstAt P l before' b) :
    before = before' ∧ a = b := by
  have hle : ∀ {before before' : List α} {a b : α}, FirstAt P l before a → FirstAt P l before' b →
      before'.length ≤ before.length := by
    intro before before' a b h h'
    by_contra hlt
    have hmem := h.mem_of_prefix ((List.prefix_append before' [b]).trans h'.starts) (by omega)
    exact h'.not_before a hmem h.holds
  have hlength : (before ++ [a]).length = (before' ++ [b]).length := by
    have hle₁ := hle h h'
    have hle₂ := hle h' h
    simp only [List.length_append, List.length_singleton]
    omega
  have heq : before ++ [a] = before' ++ [b] :=
    (List.prefix_of_prefix_length_le h.starts h'.starts (Nat.le_of_eq hlength)).eq_of_length hlength
  simpa using List.append_inj' heq rfl

end FirstAt

/-! ## Addresses near the client -/

/-- Whether two addresses are of one family and agree under the mask of that family. -/
def Address.agrees (mask4 : BitVec 32) (mask6 : BitVec 128) : Address → Address → Bool
  | .v4 a, .v4 b => agreeUnder mask4 a.bits b.bits
  | .v6 a, .v6 b => agreeUnder mask6 a.bits b.bits
  | _, _ => false

section

variable (env : Environment) (client : Address)

/-- A name has an address near that of the client if one of those that are found agrees. -/
theorem resolvesNear_eq (mask4 : BitVec 32) (mask6 : BitVec 128) (name : String) :
    resolvesNear env client mask4 mask6 name =
      (do return (← addresses env client name).any (client.agrees mask4 mask6)) := by
  cases client <;>
    simp only [resolvesNear, addresses, bind_assoc, pure_bind, List.any_map] <;> rfl

/-! ## Lookups one after the other -/

/-- A lookup of the addresses of a name: what it comes to, and the traffic after it. -/
structure AddressLookup where
  name : String
  outcome : Except Stop (List Address)
  traffic : Traffic

namespace AddressLookup

/-- A lookup that is stopped, and not because there is no answer. -/
def Fails (l : AddressLookup) : Prop := ∃ e, l.outcome = .error e ∧ ¬ e.IsMissing

/-- A lookup that finds an address near the client. -/
def Finds (near : Address → Prop) (l : AddressLookup) : Prop :=
  ∃ found, l.outcome = .ok found ∧ ∃ a ∈ found, near a

section

variable (name : String) (t : Traffic)

/-- A lookup that stops fails unless it says that there is no answer. -/
@[simp]
theorem fails_error (e : Stop) : Fails ⟨name, .error e, t⟩ ↔ ¬ e.IsMissing := by
  simp [Fails]

/-- A lookup that finds addresses does not fail. -/
@[simp]
theorem not_fails_ok (found : List Address) : ¬ Fails ⟨name, .ok found, t⟩ := by
  simp [Fails]

@[simp]
theorem not_finds_error (near : Address → Prop) (e : Stop) : ¬ Finds near ⟨name, .error e, t⟩ := by
  simp [Finds]

/-- A lookup finds an address if one of those that it gives is near. -/
@[simp]
theorem finds_ok (near : Address → Prop) (found : List Address) :
    Finds near ⟨name, .ok found, t⟩ ↔ ∃ a ∈ found, near a := by
  simp [Finds]

end

/-- What finds an address does not fail. -/
theorem Finds.not_fails {near : Address → Prop} {l : AddressLookup} (h : l.Finds near) :
    ¬ l.Fails := by
  rintro ⟨e, he, -⟩
  obtain ⟨found, hfound, -⟩ := h
  cases he.symm.trans hfound

end AddressLookup

/-- The lookups of the addresses of names, one after the other. -/
def addressLookups : List String → Traffic → List AddressLookup
  | [], _ => []
  | name :: rest, t =>
    let looked := (addresses env client name).run t
    ⟨name, looked.1, looked.2⟩ :: addressLookups rest looked.2

end

/-- The traffic after lookups that have been made. -/
def trafficAfter (t : Traffic) (made : List AddressLookup) : Traffic :=
  (made.getLast?.map AddressLookup.traffic).getD t

@[simp]
theorem trafficAfter_nil (t : Traffic) : trafficAfter t [] = t := rfl

@[simp]
theorem trafficAfter_cons (t : Traffic) (l : AddressLookup) (made : List AddressLookup) :
    trafficAfter t (l :: made) = trafficAfter l.traffic made := by
  cases made with
  | nil => rfl
  | cons l' made => simp [trafficAfter, List.getLast?_cons]

/-! ## Charges -/

namespace Budget

/-- A budget after so many charges, in which nothing else has changed. -/
structure Charged (n : Nat) (b b' : Budget) : Prop where
  lookups : b'.lookups.toNat = b.lookups.toNat + n
  same : b' = { b with lookups := b'.lookups }

namespace Charged

variable {m n : Nat} {b b' b'' : Budget}

theorem refl (b : Budget) : Charged 0 b b := ⟨rfl, rfl⟩

/-- Charges add up. -/
theorem trans (h : Charged m b b') (h' : Charged n b' b'') : Charged (m + n) b b'' := by
  refine ⟨by rw [h'.lookups, h.lookups, Nat.add_assoc], ?_⟩
  rw [h'.same, h.same]

/-- What is charged is taken from what is left. -/
theorem remaining (h : Charged n b b') : b'.remaining = b.remaining - n := by
  have hmax : b'.maxLookups = b.maxLookups := by rw [h.same]
  rw [Budget.remaining, Budget.remaining, hmax, h.lookups, Nat.sub_add_eq]

end Charged

/-- There is room for a lookup if something is left. -/
theorem lookups_lt_iff (b : Budget) : b.lookups < b.maxLookups ↔ 0 < b.remaining := by
  rw [UInt32.lt_iff_toNat_lt, remaining]
  omega

/-- A charge adds one if anything is left. -/
theorem exists_charge {b : Budget} (h : 0 < b.remaining) :
    ∃ b', b.charge = .ok b' ∧ Charged 1 b b' := by
  rw [← lookups_lt_iff] at h
  exact ⟨_, if_pos h, toNat_add_one h, rfl⟩

/-- A charge is refused if nothing is left. -/
theorem charge_eq_error {b : Budget} (h : b.remaining = 0) :
    b.charge = .error .tooManyLookups := by
  refine if_neg fun hlt => ?_
  rw [lookups_lt_iff] at hlt
  omega

end Budget

/-- A mechanism whose test starts with a charge is charged once, if anything is left, and goes on
with the rest of the test. -/
theorem Mechanism.exists_run_matches {env : Environment} {request : Request}
    {domain name : String} {m : Mechanism} {rest : Evaluation Bool} {p : Progress} {t : Traffic}
    (hleft : p.budget.lookups < p.budget.maxLookups)
    (htarget : (targetNameOr env request domain m.target?).run p.traffic = (.ok name, t))
    (htest : m.test env request name = charge >>= fun _ => rest) :
    ∃ b, p.budget.Charged 1 b ∧ (m.matches env request domain).run p = rest.run ⟨t, b⟩ := by
  obtain ⟨b, hcharge, hcharged⟩ := Budget.exists_charge (p.budget.lookups_lt_iff.1 hleft)
  refine ⟨b, hcharged, ?_⟩
  unfold Mechanism.matches
  rw [Process.run_bind, Evaluation.run_ofLookup, htarget]
  dsimp only [Except.mapError]
  rw [htest, Process.run_bind, run_charge, hcharge]

/-! ## Answers that are missing -/

/-- What a term comes to that has no answer: this is counted, and the term does not match, unless
too many answers have been missing. -/
inductive CountsVoid (p : Progress) : Except Abort Bool × Progress → Prop where
  | allowed :
      p.budget.voidLookups + 1 ≤ p.budget.maxVoidLookups →
      CountsVoid p (.ok false, { p with budget := p.budget.addVoid })
  | tooMany :
      p.budget.maxVoidLookups < p.budget.voidLookups + 1 →
      CountsVoid p (.error (.stopped (.fault .tooManyVoidLookups)),
        { p with budget := p.budget.addVoid })

section

variable {α : Type} {x : Lookup α} {fallback : α} {f : α → Evaluation Bool} {p : Progress}
  {t : Traffic}

/-- A term goes on with the answer that it has. -/
theorem run_orVoid_ok {a : α} (h : x.run p.traffic = (.ok a, t)) :
    (orVoid x fallback >>= f).run p = (f a).run ⟨t, p.budget⟩ := by
  simp [orVoid, Evaluation.run_ofLookup, Lookup.run_attempt, h, Except.mapError]

/-- What is known already is gone on with. -/
theorem run_orVoid_pure (a : α) : (orVoid (pure a) fallback >>= f).run p = (f a).run p :=
  run_orVoid_ok (x := pure a) rfl

/-- A term is stopped with its lookup, unless the answer is missing. -/
theorem run_orVoid_error {e : Stop} (h : x.run p.traffic = (.error e, t)) (he : ¬ e.IsMissing) :
    (orVoid x fallback >>= f).run p = (.error (.stopped e), ⟨t, p.budget⟩) := by
  cases e with
  | fault g =>
    rw [Stop.isMissing_fault_iff] at he
    simp [orVoid, Evaluation.run_ofLookup, Lookup.run_attempt, h, Except.mapError, he,
      Evaluation.fail]
  | interrupted i =>
    simp [orVoid, Evaluation.run_ofLookup, Lookup.run_attempt, h, Except.mapError]

/-- A term without an answer counts as such, if it does not match with the fallback. -/
theorem countsVoid_orVoid {e : Stop} (h : x.run p.traffic = (.error e, t)) (he : e.IsMissing)
    (hf : ∀ p, (f fallback).run p = (.ok false, p)) :
    CountsVoid ⟨t, p.budget⟩ ((orVoid x fallback >>= f).run p) := by
  obtain ⟨code, rfl⟩ := he
  have hrun : (orVoid x fallback >>= f).run p =
      (chargeVoid >>= fun _ => f fallback).run ⟨t, p.budget⟩ := by
    simp [orVoid, Evaluation.run_ofLookup, Lookup.run_attempt, h, Except.mapError,
      Fault.isNotFound]
  have hover : p.budget.addVoid.isOverVoid =
      decide (p.budget.maxVoidLookups < p.budget.voidLookups + 1) := rfl
  rw [hrun, Process.run_bind, run_chargeVoid, hover]
  by_cases hlt : p.budget.maxVoidLookups < p.budget.voidLookups + 1
  · rw [decide_eq_true hlt]
    exact .tooMany hlt
  · rw [decide_eq_false hlt, if_neg (by simp)]
    dsimp only
    rw [hf]
    exact .allowed (UInt32.not_lt.1 hlt)

end

/-- What a term comes to after its charge, from what its lookup comes to: a missing answer counts as
one, another fault is passed on, and with an answer the term goes on. -/
inductive AnswerDecides {α : Type} (b : Budget)
    (goesOn : Traffic → α → Except Abort Bool × Progress → Prop)
    (looked : Except Stop α × Traffic) : Except Abort Bool × Progress → Prop where
  | missing {e : Stop} {ran : Except Abort Bool × Progress} :
      looked.1 = .error e → e.IsMissing → CountsVoid ⟨looked.2, b⟩ ran →
      AnswerDecides b goesOn looked ran
  | refused {e : Stop} :
      looked.1 = .error e → ¬ e.IsMissing →
      AnswerDecides b goesOn looked (.error (.stopped e), ⟨looked.2, b⟩)
  | answered {a : α} {ran : Except Abort Bool × Progress} :
      looked.1 = .ok a → goesOn looked.2 a ran → AnswerDecides b goesOn looked ran

namespace AnswerDecides

variable {α β : Type} {b : Budget} {goesOn : Traffic → α → Except Abort Bool × Progress → Prop}

/-- With an answer a term comes to what it goes on with. -/
theorem of_ok {looked : Except Stop α × Traffic} {ran : Except Abort Bool × Progress}
    (h : AnswerDecides b goesOn looked ran) {a : α} (ha : looked.1 = .ok a) :
    goesOn looked.2 a ran := by
  cases h with
  | missing he => cases ha.symm.trans he
  | refused he => cases ha.symm.trans he
  | answered ha' hran =>
    cases ha.symm.trans ha'
    exact hran

/-- The first of the lookups of a term decides, if the term does not match with the fallback. -/
theorem of_orVoid {x : Lookup α} {g : α → Lookup β} {fallback : β} {f : β → Evaluation Bool}
    {t : Traffic} (hf : ∀ p, (f fallback).run p = (.ok false, p))
    (hgoesOn : ∀ a t', goesOn t' a ((orVoid (g a) fallback >>= f).run ⟨t', b⟩)) :
    AnswerDecides b goesOn (x.run t) ((orVoid (x >>= g) fallback >>= f).run ⟨t, b⟩) := by
  rcases hx : x.run t with ⟨e | a, t'⟩
  · have hbind : (x >>= g).run t = (.error e, t') := by rw [Process.run_bind, hx]
    by_cases he : e.IsMissing
    · exact .missing rfl he (countsVoid_orVoid (p := ⟨t, b⟩) hbind he hf)
    · rw [run_orVoid_error hbind he]
      exact .refused rfl he
  · have hrun : (orVoid (x >>= g) fallback >>= f).run ⟨t, b⟩ =
        (orVoid (g a) fallback >>= f).run ⟨t', b⟩ := by
      simp [orVoid, Evaluation.run_ofLookup, Lookup.run_attempt, hx]
    rw [hrun]
    exact .answered rfl (hgoesOn a t')

end AnswerDecides

end SenderPolicy
