import SenderPolicy.Proofs.MacroGrammar
import SenderPolicy.Proofs.Run
import SenderPolicy.Proofs.TermGrammar

/-!
# The domain-specs of a policy

The domain-specs of a policy stand in its terms, and each has been read as one. What has been read
cuts the properties of a request at no letters.

Main definitions:

- `Policy.domainSpecs`: the domain-specs of a policy;
- `MacroString.IsDomainSpec`: those that have been read;
- `MacroString.KeepsLetters`: macro strings that never cut a property at a letter.

Main results:

- `MacroString.keepsLetters_of_parse?`: macro strings that have been read keep letters;
- `Policy.domainSpecs_of_parse`: the domain-specs of a policy that has been read have been read;
- `parse_of_lookupPolicy`: a policy that is found has been read.
-/

namespace SenderPolicy

/-! ## The domain-specs of a policy -/

/-- The domain-spec of a mechanism, if it has one. -/
def Mechanism.domainSpec? : Mechanism → Option MacroString
  | .includePolicy target => some target
  | m => m.target?

/-- The domain-spec of a modifier, if it has one. -/
def Modifier.domainSpec? : Modifier → Option MacroString
  | .redirect target | .explanation target => some target
  | .unknown _ _ => none

/-- The domain-spec of a term, if it has one. -/
def Term.domainSpec? : Term → Option MacroString
  | .directive d => d.mechanism.domainSpec?
  | .modifier m => m.domainSpec?

namespace Policy

/-- The domain-specs of a policy. -/
def domainSpecs (p : Policy) : List MacroString :=
  p.directives.filterMap (·.mechanism.domainSpec?) ++ p.modifiers.filterMap Modifier.domainSpec?

variable {p : Policy} {target : MacroString}

/-- The domain-spec of a directive is one of the policy. -/
theorem mem_domainSpecs_of_directive {d : Directive} (hd : d ∈ p.directives)
    (h : d.mechanism.domainSpec? = some target) : target ∈ p.domainSpecs :=
  List.mem_append_left _ (List.mem_filterMap.2 ⟨d, hd, h⟩)

theorem mem_domainSpecs_of_modifier {m : Modifier} (hm : m ∈ p.modifiers)
    (h : m.domainSpec? = some target) : target ∈ p.domainSpecs :=
  List.mem_append_right _ (List.mem_filterMap.2 ⟨m, hm, h⟩)

/-- A policy names the target of its redirection. -/
theorem mem_domainSpecs_of_redirect (h : p.redirect? = some target) : target ∈ p.domainSpecs := by
  obtain ⟨m, hm, hspec⟩ := List.exists_of_findSome?_eq_some h
  apply mem_domainSpecs_of_modifier hm
  cases m <;> simp_all [Modifier.domainSpec?]

/-- So it does the target of its explanation. -/
theorem mem_domainSpecs_of_explanation (h : p.explanation? = some target) :
    target ∈ p.domainSpecs := by
  obtain ⟨m, hm, hspec⟩ := List.exists_of_findSome?_eq_some h
  apply mem_domainSpecs_of_modifier hm
  cases m <;> simp_all [Modifier.domainSpec?]

end Policy

/-! ## Where properties are cut -/

/-- An expansion cuts its property at no letters. -/
def Expansion.KeepsLetters (e : Expansion) : Prop :=
  ∀ b, Octet.isAlpha b = true → e.delimiters.contains b = false

namespace MacroString

/-- No expansion of a macro string cuts its property at a letter. -/
def KeepsLetters (m : MacroString) : Prop := ∀ e, .expansion e ∈ m → e.KeepsLetters

/-- The transformers of a macro string are among its units. -/
theorem mem_units {m : MacroString} {e : Expansion} (h : .expansion e ∈ m) :
    .expansion e ∈ m.units :=
  List.mem_flatMap.2 ⟨_, h, List.mem_singleton.2 rfl⟩

/-- Macro strings that have been read cut properties at no letters. -/
theorem keepsLetters_of_parse? {mode : MacroMode} {octets : Octets} {m : MacroString}
    (h : parse? mode octets = some m) : m.KeepsLetters := by
  obtain ⟨items, hitems, -, rfl⟩ := exists_items_of_parseFrom h
  intro e he b hb
  have hunit := mem_units he
  rw [units_ofUnits] at hunit
  obtain ⟨i, hi, hmem⟩ := List.mem_flatMap.1 hunit
  cases i with
  | expansion w =>
    cases List.mem_singleton.1 hmem
    have hw : w.Allowed mode := hitems _ hi
    have hcuts : ∀ c ∈ w.cuts, Octet.isAlpha c = false := by
      have hdelimiters : (delimiterOctets.all (!Octet.isAlpha ·)) = true := by decide
      intro c hc
      unfold WrittenExpansion.cuts at hc
      split at hc
      · rw [List.mem_singleton.1 hc]
        rfl
      · simpa using List.all_eq_true.1 hdelimiters c (hw.delimiters c hc)
    by_contra hcontains
    rw [Bool.not_eq_false, hw.contains_iff] at hcontains
    rw [hcuts b hcontains] at hb
    cases hb
  | _ => simp [MacroItem.units] at hmem

end MacroString

/-! ## Policies that have been read -/

/-- A domain-spec that has been read. -/
def MacroString.IsDomainSpec (m : MacroString) : Prop := ∃ octets, DomainSpec.parse? octets = some m

/-- The delimiters in a domain-spec are no letters. -/
theorem MacroString.IsDomainSpec.keepsLetters {m : MacroString} (h : m.IsDomainSpec) :
    m.KeepsLetters := by
  obtain ⟨octets, hparse⟩ := h
  exact keepsLetters_of_parse? (Option.filter_eq_some_iff.1 hparse).1

/-- The text of a target is that of a domain-spec. -/
theorem TargetText.isDomainSpec {m : MacroString} {octets : Octets}
    (h : TargetText (some m) octets) : m.IsDomainSpec := by
  cases h with
  | given hparse => exact ⟨_, hparse⟩

/-- The domain-spec of a mechanism as it is written has been read. -/
theorem MechanismText.isDomainSpec {mechanism : Mechanism} {name arguments : Octets}
    {m : MacroString} (h : MechanismText mechanism name arguments)
    (hm : mechanism.domainSpec? = some m) : m.IsDomainSpec := by
  have hhost : ∀ {target mask4 mask6}, HostText target mask4 mask6 arguments →
      target = some m → m.IsDomainSpec := by
    rintro target mask4 mask6 ⟨hdomain, -, -, -, -, -⟩ rfl
    exact hdomain.isDomainSpec
  cases h with
  | includePolicy hparse =>
    cases hm
    exact ⟨_, hparse⟩
  | existsName hparse =>
    cases hm
    exact ⟨_, hparse⟩
  | ptr htarget =>
    cases hm
    exact htarget.isDomainSpec
  | a h => exact hhost h hm
  | mx h => exact hhost h hm
  | _ => cases hm

/-- The domain-spec of a modifier as it is written has been read. -/
theorem ModifierText.isDomainSpec {modifier : Modifier} {name value : Octets} {m : MacroString}
    (h : ModifierText modifier name value) (hm : modifier.domainSpec? = some m) :
    m.IsDomainSpec := by
  cases h with
  | redirect hname hparse =>
    cases hm
    exact ⟨_, hparse⟩
  | explanation hname hparse =>
    cases hm
    exact ⟨_, hparse⟩
  | unknown => cases hm

/-- What is read as the domain-spec of a term is one. -/
theorem Term.isDomainSpec {term : Octets} {t : Term} {m : MacroString}
    (h : Term.parse? term = some t) (hm : t.domainSpec? = some m) : m.IsDomainSpec := by
  have hspelled := Term.spelledBy_of_parse? h
  cases t with
  | directive d =>
    obtain ⟨-, name, arguments, -, -, htext⟩ := hspelled
    exact htext.isDomainSpec hm
  | modifier modifier =>
    obtain ⟨name, value, -, -, htext⟩ := hspelled
    exact htext.isDomainSpec hm

namespace Policy

/-- A term adds no domain-spec but its own. -/
theorem domainSpecs_of_add? {p q : Policy} {t : Term} {m : MacroString}
    (h : p.add? t = some q) (hm : m ∈ q.domainSpecs) :
    m ∈ p.domainSpecs ∨ t.domainSpec? = some m := by
  cases t with
  | directive d =>
    cases h
    simp only [domainSpecs, List.filterMap_append, List.mem_append, List.mem_filterMap,
      List.mem_singleton, exists_eq_left, Term.domainSpec?] at hm ⊢
    rcases hm with (hold | hnew) | hmodifier
    · exact .inl (.inl hold)
    · exact .inr hnew
    · exact .inl (.inr hmodifier)
  | modifier modifier =>
    simp only [add?, Option.ite_none_left_eq_some, Option.some.injEq] at h
    obtain ⟨-, rfl⟩ := h
    simp only [domainSpecs, List.filterMap_append, List.mem_append, List.mem_filterMap,
      List.mem_singleton, exists_eq_left, Term.domainSpec?] at hm ⊢
    rcases hm with hdirective | hold | hnew
    · exact .inl (.inl hdirective)
    · exact .inl (.inr hold)
    · exact .inr hnew

/-- Reading more terms adds domain-specs only. -/
theorem domainSpecs_of_ofTerms? {p q : Policy} {terms : List Octets}
    (hp : ∀ m ∈ p.domainSpecs, m.IsDomainSpec) (h : ofTerms? p terms = some q) :
    ∀ m ∈ q.domainSpecs, m.IsDomainSpec := by
  induction terms generalizing p with
  | nil =>
    cases h
    exact hp
  | cons term rest ih =>
    simp only [ofTerms?, Option.bind_eq_bind, Option.bind_eq_some_iff] at h
    obtain ⟨t, hparse, r, hadd, hrest⟩ := h
    refine ih (fun m hm => ?_) hrest
    rcases domainSpecs_of_add? hadd hm with hold | hnew
    · exact hp m hold
    · exact Term.isDomainSpec hparse hnew

/-- The domain-specs of a policy that has been read have been read. -/
theorem domainSpecs_of_parse {record : Octets} {p : Policy} (h : parse record = .ok p) :
    ∀ m ∈ p.domainSpecs, m.IsDomainSpec := by
  unfold parse at h
  split at h
  · cases h
  · split at h
    · split at h
      next q hterms =>
        cases h
        exact domainSpecs_of_ofTerms? (by simp [domainSpecs, empty]) hterms
      next => cases h
    · cases h

/-- The policy that is selected is read from one of the records. -/
theorem parse_of_select {records : List Octets} {p : Policy} (h : select records = .ok p) :
    ∃ record, parse record = .ok p := by
  unfold select at h
  split at h
  · cases h
  · exact ⟨_, h⟩
  · cases h

end Policy

theorem Lookup.eq_of_run_ofExcept {α : Type} {r : Except Fault α} {a : α} {t t' : Traffic}
    (h : (Lookup.ofExcept r).run t = (.ok a, t')) : r = .ok a := by
  cases r <;> cases h
  rfl

/-- A policy that is found has been read. -/
theorem parse_of_lookupPolicy {env : Environment} {name : String} {t t' : Traffic}
    {policy : Policy} (h : (lookupPolicy env name).run t = (.ok policy, t')) :
    ∃ record, Policy.parse record = .ok policy := by
  obtain ⟨records, t₁, -, hselect⟩ := Process.run_bind_eq_ok h
  split at hselect
  · split at hselect
    · obtain ⟨records', t₂, -, hselect⟩ := Process.run_bind_eq_ok hselect
      exact Policy.parse_of_select (Lookup.eq_of_run_ofExcept hselect)
    · cases hselect
  · exact Policy.parse_of_select (Lookup.eq_of_run_ofExcept hselect)

end SenderPolicy
