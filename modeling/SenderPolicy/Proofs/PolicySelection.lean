import SenderPolicy.Proofs.Asked
import SenderPolicy.Proofs.PublishedPolicy

/-!
# The selection of a policy

The policy of a domain is the one record among its texts that is marked as a policy. Only if none
of them is, and settings say so, the same selection is made among its records of type 99. A
selected record may be malformed, but it is never taken for something else; so the fault that
there is no policy says that no record was marked.

Main definitions:

- `Policy.Marked`: the records that are marked as a policy;
- `Policy.Selected`: what the records of a name come to, or the reason why there are none;
- `Policy.Searched`: what the texts and the records of type 99 come to.

Main results:

- `lookupPolicy_selects`: what looking for the policy of a domain comes to.
-/

namespace SenderPolicy

/-! ## Marked records -/

namespace Policy

/-- A record that is marked as a policy: the version in any case, and then a space or nothing. -/
def Marked (record : Octets) : Prop :=
  ∃ tag rest, record = tag ++ rest ∧ tag.lower = version ∧
    (rest = [] ∨ ∃ more, rest = ' '.toUInt8 :: more)

/-- The test for the version is that of its spellings. -/
theorem isMarked_iff {record : Octets} : isMarked record = true ↔ Marked record := by
  have hversion : version.lower = version := by decide
  simp only [isMarked, Octets.eqIgnoreCase, hversion, Bool.and_eq_true, beq_iff_eq]
  constructor
  · rintro ⟨htag, hend⟩
    refine ⟨_, _, (List.take_append_drop version.length record).symm, htag, ?_⟩
    cases hrest : record.drop version.length with
    | nil => exact .inl rfl
    | cons b more =>
      rw [hrest] at hend
      exact .inr ⟨more, by rw [of_decide_eq_true hend]⟩
  · rintro ⟨tag, rest, rfl, htag, hrest⟩
    have hlength : tag.length = version.length := by
      rw [← htag, Octets.lower, List.length_map]
    rw [← hlength, List.take_left, List.drop_left]
    refine ⟨htag, ?_⟩
    rcases hrest with rfl | ⟨more, rfl⟩ <;> simp

instance : DecidablePred Marked := fun _ => decidable_of_iff _ isMarked_iff

/-- The marked ones among the records of a name. -/
def marked (records : List Octets) : List Octets := records.filter fun record => Marked record

/-- The marked records are found in their order. -/
theorem marked_eq_filter (records : List Octets) : marked records = records.filter isMarked :=
  List.filter_congr fun record _ => by rw [Bool.eq_iff_iff, decide_eq_true_iff, isMarked_iff]

theorem mem_marked {record : Octets} {records : List Octets} :
    record ∈ marked records ↔ record ∈ records ∧ Marked record := by
  rw [marked, List.mem_filter, decide_eq_true_iff]

/-- A marked record is read as a policy, or refused as malformed. -/
theorem Marked.parse_cases {record : Octets} (h : Marked record) :
    (∃ policy, parse record = .ok policy) ∨ parse record = .error .malformed := by
  cases hparse : parse record with
  | ok policy => exact .inl ⟨policy, rfl⟩
  | error f =>
    cases parse_of_isMarked (isMarked_iff.2 h) hparse
    exact .inr rfl

theorem marked_of_marked_eq {records : List Octets} {record : Octets}
    (h : marked records = [record]) : Marked record :=
  (mem_marked.1 (h ▸ List.mem_singleton_self record)).2

/-! ## The selection among records -/

/-- There is no answer, or no record of it is marked. -/
def Unmarked : Except Stop (List Octets) → Prop
  | .ok records => marked records = []
  | .error e => e.IsMissing

/-- What the records of a name come to, or the reason why there are none: a single marked record
is read. -/
inductive Selected : Except Stop (List Octets) → Except Stop Policy → Prop where
  | stopped {e : Stop} : ¬ e.IsMissing → Selected (.error e) (.error e)
  | unmarked {found : Except Stop (List Octets)} :
      Unmarked found → Selected found (.error (.fault .notPolicy))
  | single {records : List Octets} {record : Octets} :
      marked records = [record] → Selected (.ok records) ((parse record).mapError .fault)
  | several {records : List Octets} :
      2 ≤ (marked records).length → Selected (.ok records) (.error (.fault .severalPolicies))

/-- Records come to what is selected among them. -/
theorem selected_select (records : List Octets) :
    Selected (.ok records) ((select records).mapError .fault) := by
  unfold select
  rw [← marked_eq_filter]
  cases hmarked : marked records with
  | nil => exact .unmarked hmarked
  | cons record others =>
    cases others with
    | nil => exact .single hmarked
    | cons other others => exact .several (by simp [hmarked])

/-- Where no record is marked there is no policy, and nowhere else, unless the lookup was stopped
for that reason itself. -/
theorem Selected.notPolicy_iff {found : Except Stop (List Octets)} {r : Except Stop Policy}
    (h : Selected found r) : r = .error (.fault .notPolicy) ↔
      Unmarked found ∨ found = .error (.fault .notPolicy) := by
  cases h with
  | stopped hmissing => simp [Unmarked, hmissing]
  | unmarked hunmarked => simp [hunmarked]
  | single hmarked =>
    rcases (marked_of_marked_eq hmarked).parse_cases with ⟨policy, hparse⟩ | hparse <;>
      simp [hparse, Except.mapError, Unmarked, hmarked]
  | @several records hmarked =>
    have hsome : marked records ≠ [] := List.ne_nil_of_length_pos (by omega)
    simp [Unmarked, hsome]

/-- A missing answer never comes of a selection. -/
theorem Selected.not_isMissing {found : Except Stop (List Octets)} {r : Except Stop Policy}
    (h : Selected found r) (code : ResponseCode) : r ≠ .error (.fault (.notFound code)) := by
  cases h with
  | stopped hmissing =>
    rintro ⟨rfl⟩
    exact hmissing ⟨code, rfl⟩
  | unmarked => simp
  | single hmarked =>
    rcases (marked_of_marked_eq hmarked).parse_cases with ⟨policy, hparse⟩ | hparse <;>
      simp [hparse, Except.mapError]
  | several => simp

/-- What the texts of a domain and its records of type 99 come to, each with the traffic after
they were looked up. The latter count only if no text is marked and settings ask for them. -/
inductive Searched (asksType99 : Bool) (txt spf : Except Stop (List Octets) × Traffic) :
    Except Stop Policy × Traffic → Prop where
  | texts {r : Except Stop Policy} :
      ¬ (Unmarked txt.1 ∧ asksType99 = true) → Selected txt.1 r →
      Searched asksType99 txt spf (r, txt.2)
  | type99 {r : Except Stop Policy} :
      Unmarked txt.1 → asksType99 = true → Selected spf.1 r →
      Searched asksType99 txt spf (r, spf.2)

namespace Searched

variable {asksType99 : Bool} {txt spf : Except Stop (List Octets) × Traffic}
  {r : Except Stop Policy × Traffic}

/-- Nothing is found if nothing was marked, or if a lookup was stopped for that reason itself. -/
theorem notPolicy_iff (h : Searched asksType99 txt spf r) :
    r.1 = .error (.fault .notPolicy) ↔
      txt.1 = .error (.fault .notPolicy) ∨ Unmarked txt.1 ∧
        (asksType99 = true → Unmarked spf.1 ∨ spf.1 = .error (.fault .notPolicy)) := by
  cases h with
  | texts hsettled hselected =>
    rw [hselected.notPolicy_iff, or_comm]
    refine or_congr_right ⟨fun hunmarked => ⟨hunmarked, fun hasks => ?_⟩, And.left⟩
    exact absurd ⟨hunmarked, hasks⟩ hsettled
  | type99 hunmarked hasks hselected =>
    have hlooked : txt.1 ≠ .error (.fault .notPolicy) := by
      intro heq
      rw [heq] at hunmarked
      obtain ⟨code, hcode⟩ := hunmarked
      cases hcode
    rw [hselected.notPolicy_iff]
    simp [hlooked, hunmarked, hasks]

/-- A missing answer never comes of a search. -/
theorem not_isMissing (h : Searched asksType99 txt spf r) (code : ResponseCode) :
    r.1 ≠ .error (.fault (.notFound code)) := by
  cases h with
  | texts _ hselected => exact hselected.not_isMissing code
  | type99 _ _ hselected => exact hselected.not_isMissing code

end Searched

end Policy

/-! ## The search for a policy -/

/-- What is known already is the outcome of its lookup. -/
theorem Lookup.run_ofExcept {α : Type} (r : Except Fault α) (t : Traffic) :
    (Lookup.ofExcept r).run t = (r.mapError .fault, t) := by
  cases r <;> rfl

section

variable (env : Environment) (t : Traffic)

/-- All records are those that are looked up, and none where there is no answer. -/
theorem lookupAll_cases (k : Dns.Kind) (owner : k.Owner) :
    ∃ t', (∃ records, (lookup env k owner).run t = (.ok records, t') ∧
        (lookupAll env k owner).run t = (.ok records, t')) ∨
      ∃ e, (lookup env k owner).run t = (.error e, t') ∧
        (e.IsMissing ∧ (lookupAll env k owner).run t = (.ok [], t') ∨
          ¬ e.IsMissing ∧ (lookupAll env k owner).run t = (.error e, t')) := by
  unfold lookupAll
  rw [Process.run_bind, Lookup.run_attempt]
  rcases (lookup env k owner).run t with ⟨(f | i) | records, t'⟩
  · refine ⟨t', .inr ⟨_, rfl, ?_⟩⟩
    rw [Stop.isMissing_fault_iff]
    cases hf : f.isNotFound with
    | true => exact .inl ⟨rfl, by simp [hf]⟩
    | false => exact .inr ⟨by simp, by simp [hf]; rfl⟩
  · exact ⟨t', .inr ⟨_, rfl, .inr ⟨Stop.not_isMissing_interrupted i, rfl⟩⟩⟩
  · exact ⟨t', .inl ⟨records, rfl, rfl⟩⟩

/-- Selecting among all records of a name is a selection from what their lookup comes to. -/
theorem selected_lookupAll (owner : String) : ∃ r,
    (do
      let records ← lookupAll env .spf owner
      Lookup.ofExcept (Policy.select records) : Lookup Policy).run t =
        (r, ((lookup env .spf owner).run t).2) ∧
      Policy.Selected ((lookup env .spf owner).run t).1 r := by
  obtain ⟨t', ⟨records, hrun, hall⟩ | ⟨e, hrun, ⟨hmissing, hall⟩ | ⟨hmissing, hall⟩⟩⟩ :=
    lookupAll_cases env t .spf owner
  all_goals rw [hrun, Process.run_bind, hall]
  · exact ⟨_, Lookup.run_ofExcept _ t', Policy.selected_select records⟩
  · exact ⟨_, Lookup.run_ofExcept _ t', .unmarked hmissing⟩
  · exact ⟨_, rfl, .stopped hmissing⟩

/-- The search for a policy looks at the texts first, and then perhaps at the records of type 99. -/
theorem searched_lookupPolicy (domain : String) :
    Policy.Searched env.settings.asksType99 ((lookup env .txt domain).run t)
      ((lookup env .spf domain).run ((lookup env .txt domain).run t).2)
      ((lookupPolicy env domain).run t) := by
  -- Without a marked text the search goes on with type 99, or ends.
  have honward : ∀ txt : Except Stop (List Octets) × Traffic, Policy.Unmarked txt.1 →
      Policy.Searched env.settings.asksType99 txt ((lookup env .spf domain).run txt.2)
        ((if env.settings.asksType99 then do
            let records ← lookupAll env .spf domain
            Lookup.ofExcept (Policy.select records)
          else Lookup.fail .notPolicy : Lookup Policy).run txt.2) := by
    intro txt hunmarked
    split
    next hasks =>
      obtain ⟨r, hrun, hselected⟩ := selected_lookupAll env txt.2 domain
      rw [hrun]
      exact .type99 hunmarked hasks hselected
    next hasks => exact .texts (fun h => hasks h.2) (.unmarked hunmarked)
  unfold lookupPolicy
  obtain ⟨t', ⟨records, hrun, hall⟩ | ⟨e, hrun, ⟨hmissing, hall⟩ | ⟨hmissing, hall⟩⟩⟩ :=
    lookupAll_cases env t .txt domain
  all_goals rw [hrun, Process.run_bind, hall]
  · have hselected := Policy.selected_select records
    have hnotPolicy := hselected.notPolicy_iff
    dsimp only
    split
    next hselect =>
      rw [hselect] at hnotPolicy
      exact honward (.ok records, t') ((hnotPolicy.1 rfl).resolve_right (by simp))
    next hselect =>
      have hmarked : ¬ Policy.Unmarked (.ok records) := by
        intro hunmarked
        have hfault := hnotPolicy.2 (.inl hunmarked)
        cases hread : Policy.select records with
        | ok policy => simp [hread, Except.mapError] at hfault
        | error f =>
          rw [hread] at hfault
          cases hfault
          exact hselect hread
      rw [Lookup.run_ofExcept]
      exact .texts (fun h => hmarked h.1) hselected
  · exact honward (.error e, t') hmissing
  · exact .texts (fun h => hmissing h.1) (.stopped hmissing)

end

/-- Looking for the policy of a domain comes to what is selected among its texts, or, if none of
them is marked and settings say so, among its records of type 99, which are asked for in no other
case. There is no policy if and only if nothing was marked; but a lookup may be stopped by that
very fault, if the transport answers with it, and such a stop is passed on like any other. -/
theorem lookupPolicy_selects (env : Environment) (domain : String) (t : Traffic) :
    let txt := (lookup env .txt domain).run t
    let spf := (lookup env .spf domain).run txt.2
    let r := (lookupPolicy env domain).run t
    Policy.Searched env.settings.asksType99 txt spf r ∧
      (¬ (Policy.Unmarked txt.1 ∧ env.settings.asksType99 = true) → Asked (·.kind = .txt) t r.2) ∧
      (∀ record, Policy.Marked record → Policy.parse record ≠ .error .notPolicy) ∧
      (r.1 = .error (.fault .notPolicy) ↔
        txt.1 = .error (.fault .notPolicy) ∨ Policy.Unmarked txt.1 ∧
          (env.settings.asksType99 = true →
            Policy.Unmarked spf.1 ∨ spf.1 = .error (.fault .notPolicy))) ∧
      ∀ code, r.1 ≠ .error (.fault (.notFound code)) := by
  intro txt spf r
  have hsearched : Policy.Searched env.settings.asksType99 txt spf r :=
    searched_lookupPolicy env t domain
  have htexts : Process.Moves id (Asked fun q => q.kind = .txt) (lookup env .txt domain) :=
    Process.Moves.lookup rfl
  refine ⟨hsearched, ?_, ?_, hsearched.notPolicy_iff, hsearched.not_isMissing⟩
  · intro hsettled
    generalize r = r at hsearched ⊢
    cases hsearched with
    | texts => exact htexts t
    | type99 hunmarked hasks => exact absurd ⟨hunmarked, hasks⟩ hsettled
  · intro record hmarked hparse
    rcases hmarked.parse_cases with ⟨policy, hread⟩ | hread <;>
      rw [hread] at hparse <;> cases hparse

end SenderPolicy
