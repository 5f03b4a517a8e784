import SenderPolicy.Proofs.Reports

/-!
# Published policies

Whether a domain publishes a policy, told from the records that there are, and what comes
of looking for it: a policy, or the fault that there is none, or the reason for an error.

Main definitions:

- `Environment.found`: the records that there are, in the cache or by asking;
- `LacksPolicy`, `PublishesNoPolicy`: records and domains without a policy.

Main results:

- `Policy.parse_of_isMarked`: a record that is marked as a policy is never taken for
  something else;
- `lookup_eq_found`: a lookup comes to the records that there are;
- `seeks_lookupPolicy`: a policy is missing exactly if the domain publishes none.
-/

namespace SenderPolicy

/-- A fault that makes the verdict an error. -/
def Fault.IsError (f : Fault) : Prop := f.verdict = .tempError ∨ f.verdict = .permError

/-! ## Records of policies -/

/-- Blanks have no small form of their own. -/
theorem Octet.lower_of_isBlank {b : UInt8} (h : isBlank b) : lower b = b := by
  simp only [isBlank, Bool.or_eq_true, decide_eq_true_eq] at h
  rcases h with (((rfl | rfl) | rfl) | rfl) | rfl <;> rfl

/-- What is the same up to case has the same blanks. -/
theorem Octets.isBlank_of_eqIgnoreCase {s t : Octets} (h : s.eqIgnoreCase t)
    (ht : ∀ b ∈ t.lower, Octet.isBlank b = false) : ∀ b ∈ s, Octet.isBlank b = false := by
  intro b hb
  rw [← Bool.not_eq_true]
  intro hblank
  have hmem : b ∈ s.lower := by
    rw [← Octet.lower_of_isBlank hblank]
    exact List.mem_map_of_mem hb
  rw [eq_of_beq h] at hmem
  rw [ht b hmem] at hblank
  cases hblank

/-- The part before the first mark. -/
theorem exists_pieces_append {α : Type} {mark : α → Bool} {before after : List α}
    (hbefore : ∀ a ∈ before, mark a = false) (hafter : ∀ a ∈ after.head?, mark a = true) :
    ∃ parts, pieces mark (before ++ after) = before :: parts := by
  induction before with
  | nil =>
    cases after with
    | nil => exact ⟨[], rfl⟩
    | cons a after =>
      refine ⟨pieces mark after, ?_⟩
      rw [List.nil_append, pieces, if_pos (hafter a rfl)]
  | cons a before ih =>
    obtain ⟨parts, hparts⟩ := ih fun b hb => hbefore b (List.mem_cons_of_mem a hb)
    refine ⟨parts, ?_⟩
    rw [List.cons_append, pieces, hbefore a List.mem_cons_self, hparts]
    rfl

namespace Policy

/-- The first term of a marked record is the version. -/
theorem exists_terms_of_isMarked {record : Octets} (h : isMarked record) :
    ∃ first rest, terms record = first :: rest ∧ first.eqIgnoreCase version := by
  unfold isMarked at h
  rw [Bool.and_eq_true] at h
  obtain ⟨hversion, hend⟩ := h
  have hletters : version.lower.all (!Octet.isBlank ·) = true := by decide
  have hblanks : ∀ b ∈ record.take version.length, Octet.isBlank b = false :=
    Octets.isBlank_of_eqIgnoreCase hversion fun b hb => by
      simpa using List.all_eq_true.1 hletters b hb
  have hnext : ∀ b ∈ (record.drop version.length).head?, Octet.isBlank b = true := by
    intro b hb
    rw [Option.mem_def] at hb
    rw [hb, Option.all_some, decide_eq_true_eq] at hend
    rw [hend]
    rfl
  -- The mark ends at a blank or at the end of the record, and holds no blank itself.
  obtain ⟨parts, hparts⟩ := exists_pieces_append hblanks hnext
  rw [List.take_append_drop] at hparts
  have hne : (record.take version.length).isEmpty = false := by
    cases htake : record.take version.length with
    | nil =>
      rw [htake] at hversion
      cases hversion
    | cons b rest => rfl
  refine ⟨record.take version.length, parts.filter (!·.isEmpty), ?_, hversion⟩
  rw [terms, hparts, List.filter_cons_of_pos (by rw [hne]; rfl)]

/-- A marked record is read as a policy, or else malformed. -/
theorem parse_of_isMarked {record : Octets} {f : Fault} (h : isMarked record)
    (hparse : parse record = .error f) : f = .malformed := by
  obtain ⟨first, rest, hterms, hversion⟩ := exists_terms_of_isMarked h
  rw [parse_of_version hterms hversion] at hparse
  cases hread : ofTerms? empty rest with
  | none =>
    rw [hread] at hparse
    cases hparse
    rfl
  | some p =>
    rw [hread] at hparse
    cases hparse

/-- No record is marked, or else a policy is selected, or none because of a permanent
error. -/
theorem select_cases (records : List Octets) :
    (∀ r ∈ records, ¬ isMarked r) ∧ select records = .error .notPolicy ∨
      (∃ r ∈ records, isMarked r) ∧
        ((∃ policy, select records = .ok policy) ∨
          ∃ f, select records = .error f ∧ f.verdict = .permError) := by
  unfold select
  cases hmarked : records.filter isMarked with
  | nil => exact .inl ⟨List.filter_eq_nil_iff.1 hmarked, rfl⟩
  | cons record others =>
    have hrecord : record ∈ records ∧ isMarked record = true :=
      List.mem_filter.1 (hmarked ▸ List.mem_cons_self)
    refine .inr ⟨⟨record, hrecord⟩, ?_⟩
    cases others with
    | cons other others => exact .inr ⟨.severalPolicies, rfl, rfl⟩
    | nil =>
      dsimp only
      cases hparse : parse record with
      | ok policy => exact .inl ⟨policy, rfl⟩
      | error f =>
        cases parse_of_isMarked hrecord.2 hparse
        exact .inr ⟨.malformed, rfl, rfl⟩

end Policy

/-! ## Records that are found -/

section

variable {env : Environment}

/-- The records with which a question is answered after others, or the fault. -/
def Environment.answer (env : Environment) (history : List Dns.Question) (q : Dns.Question) :
    Except Fault (List q.kind.Datum) :=
  match env.fault? history q with
  | some f => .error f
  | none => (env.transport history q).outcome.map Dns.Answer.records

/-- The records that there are for a name or an address: those in the cache while they
hold, or else those with which the question is answered. -/
def Environment.found (env : Environment) (t : Traffic) (k : Dns.Kind) (owner : k.Owner) :
    Except Fault (List k.Datum) :=
  match ((t.caches.store k).get (env.clock t.readings) (k.qualify owner)).1 with
  | some records => .ok records
  | none => env.answer t.log ⟨k, k.qualify owner⟩

variable (env) in
/-- A lookup comes to the records that there are, unless it is interrupted. -/
theorem lookup_eq_found (t : Traffic) (k : Dns.Kind) (owner : k.Owner) :
    (∃ i, ((lookup env k owner).run t).1 = .error (.interrupted i)) ∨
      ((lookup env k owner).run t).1 = (env.found t k owner).mapError .fault := by
  rw [run_lookup, Environment.found]
  dsimp only
  cases ((t.caches.store k).get (env.clock t.readings) (k.qualify owner)).1 with
  | some records => exact .inr rfl
  | none =>
    dsimp only
    rw [Process.run_bind, run_ask, Environment.answer]
    dsimp only
    cases env.alarm.ringing _ with
    | some i => exact .inl ⟨i, rfl⟩
    | none =>
      cases hfault : env.fault? t.log ⟨k, k.qualify owner⟩ with
      | some f => exact .inr rfl
      | none =>
        obtain ⟨answer, houtcome⟩ := Environment.outcome_of_fault? hfault
        dsimp only
        rw [houtcome]
        exact .inr rfl

/-- With a transport that classifies its failures, a fault is a missing answer or
transient. -/
theorem classes_of_found (hclass : env.transport.Classifies) {t : Traffic} {k : Dns.Kind}
    {owner : k.Owner} {f : Fault} (h : env.found t k owner = .error f) :
    f.isNotFound ∨ f.isTransient := by
  unfold Environment.found at h
  split at h
  · cases h
  · unfold Environment.answer at h
    cases hfault : env.fault? t.log ⟨k, k.qualify owner⟩ with
    | some f' =>
      rw [hfault] at h
      cases h
      exact Environment.classes_of_fault? hclass hfault
    | none =>
      obtain ⟨answer, houtcome⟩ := Environment.outcome_of_fault? hfault
      rw [hfault] at h
      dsimp only at h
      rw [houtcome] at h
      cases h

/-- Records, where a missing answer counts as no records. -/
def missingAsNone {δ : Type} : Except Fault (List δ) → Except Fault (List δ)
  | .ok records => .ok records
  | .error f => if f.isNotFound then .ok [] else .error f

variable (env) in
/-- All records of a name or an address are those that there are, and none if there is no
answer, unless the lookup is interrupted. -/
theorem lookupAll_eq_found (t : Traffic) (k : Dns.Kind) (owner : k.Owner) :
    ((lookupAll env k owner).run t).2 = ((lookup env k owner).run t).2 ∧
      ((∃ i, ((lookupAll env k owner).run t).1 = .error (.interrupted i)) ∨
        ((lookupAll env k owner).run t).1 =
          (missingAsNone (env.found t k owner)).mapError .fault) := by
  have hfound := lookup_eq_found env t k owner
  unfold lookupAll
  rw [Process.run_bind, Lookup.run_attempt]
  rcases hrun : (lookup env k owner).run t with ⟨r, t'⟩
  rw [hrun] at hfound
  rcases hfound with ⟨i, hr⟩ | hr
  · cases hr
    exact ⟨rfl, .inl ⟨i, rfl⟩⟩
  · cases hrecords : env.found t k owner with
    | ok records =>
      rw [hrecords] at hr
      cases hr
      exact ⟨rfl, .inr rfl⟩
    | error f =>
      rw [hrecords] at hr
      cases hr
      dsimp only [missingAsNone]
      cases f.isNotFound <;> exact ⟨rfl, .inr rfl⟩

/-! ## Policies that are found -/

/-- There is no answer, or no record of it is marked as a policy. -/
def LacksPolicy : Except Fault (List Octets) → Prop
  | .ok records => ∀ r ∈ records, ¬ Policy.isMarked r
  | .error f => f.isNotFound

/-- A domain publishes no policy if its texts lack one, and so do its records of type 99,
if they are asked for. -/
def PublishesNoPolicy (env : Environment) (domain : String) (t : Traffic) : Prop :=
  LacksPolicy (env.found t .txt domain) ∧
    (env.settings.asksType99 = true →
      LacksPolicy (env.found ((lookup env .txt domain).run t).2 .spf domain))

/-- What comes of looking for the records of a name: the lookup does not succeed, or no
record is a policy, or one is, or none is because of a permanent error. -/
inductive Selects (missing : Prop) : Except Stop (List Octets) → Prop where
  | interrupted (i : Interruption) : Selects missing (.error (.interrupted i))
  | failed {f : Fault} : f.isTransient → ¬ missing → Selects missing (.error (.fault f))
  | unmarked {records : List Octets} :
      Policy.select records = .error .notPolicy → missing → Selects missing (.ok records)
  | policy {records : List Octets} {policy : Policy} :
      Policy.select records = .ok policy → ¬ missing → Selects missing (.ok records)
  | refused {records : List Octets} {f : Fault} :
      Policy.select records = .error f → f.verdict = .permError → ¬ missing →
      Selects missing (.ok records)

/-- No record is a policy exactly if there is no answer, or no record is marked. -/
theorem selects_of_found {found : Except Fault (List Octets)} {r : Except Stop (List Octets)}
    (hclass : ∀ f, found = .error f → f.isNotFound ∨ f.isTransient)
    (hr : (∃ i, r = .error (.interrupted i)) ∨ r = (missingAsNone found).mapError .fault) :
    Selects (LacksPolicy found) r := by
  rcases hr with ⟨i, rfl⟩ | rfl
  · exact .interrupted i
  cases found with
  | ok records =>
    rcases Policy.select_cases records with ⟨hnone, hselect⟩ | ⟨⟨r, hr, hmarked⟩, hselect⟩
    · exact .unmarked hselect hnone
    · have hmarks : ¬ LacksPolicy (.ok records) := fun hnone => hnone r hr hmarked
      rcases hselect with ⟨policy, hselect⟩ | ⟨f, hselect, hf⟩
      · exact .policy hselect hmarks
      · exact .refused hselect hf hmarks
  | error f =>
    dsimp only [missingAsNone]
    split
    next hmissing => exact .unmarked rfl hmissing
    next hfound => exact .failed ((hclass f rfl).resolve_left hfound) hfound

/-- What comes of looking for the policy of a domain. -/
inductive Seeks (missing : Prop) : Except Stop Policy → Prop where
  | found (policy : Policy) : ¬ missing → Seeks missing (.ok policy)
  | missing : missing → Seeks missing (.error (.fault .notPolicy))
  | failed {f : Fault} : f.IsError → ¬ missing → Seeks missing (.error (.fault f))
  | interrupted (i : Interruption) : Seeks missing (.error (.interrupted i))

/-- What counts as missing may be said in another way. -/
theorem Seeks.congr {missing missing' : Prop} {r : Except Stop Policy} (h : Seeks missing r)
    (hmissing : missing ↔ missing') : Seeks missing' r :=
  propext hmissing ▸ h

/-- Selecting among the records of type 99 is the end of looking for a policy. -/
theorem seeks_type99 (hclass : env.transport.Classifies) (t : Traffic) (domain : String) :
    Seeks (LacksPolicy (env.found t .spf domain))
      ((do
        let records ← lookupAll env .spf domain
        Lookup.ofExcept (Policy.select records) : Lookup Policy).run t).1 := by
  rw [Process.run_bind]
  have hselects : Selects (LacksPolicy (env.found t .spf domain))
      ((lookupAll env .spf domain).run t).1 :=
    selects_of_found (fun f => classes_of_found hclass) (lookupAll_eq_found env t .spf domain).2
  rcases hrun : (lookupAll env .spf domain).run t with ⟨r, t'⟩
  rw [hrun] at hselects
  generalize LacksPolicy (env.found t .spf domain) = missing at hselects
  cases hselects with
  | interrupted i => exact .interrupted i
  | failed hf hfound => exact .failed (.inl (Fault.verdict_of_isTransient hf)) hfound
  | unmarked hselect hmissing =>
    dsimp only
    rw [hselect]
    exact .missing hmissing
  | policy hselect hfound =>
    dsimp only
    rw [hselect]
    exact .found _ hfound
  | refused hselect hf hfound =>
    dsimp only
    rw [hselect]
    exact .failed (.inr hf) hfound

variable (env) in
/-- A policy is missing exactly if the domain publishes none. -/
theorem seeks_lookupPolicy (hclass : env.transport.Classifies) (t : Traffic)
    (domain : String) :
    Seeks (PublishesNoPolicy env domain t) ((lookupPolicy env domain).run t).1 := by
  obtain ⟨htraffic, htexts⟩ := lookupAll_eq_found env t .txt domain
  have hselects : Selects (LacksPolicy (env.found t .txt domain))
      ((lookupAll env .txt domain).run t).1 :=
    selects_of_found (fun f => classes_of_found hclass) htexts
  unfold lookupPolicy PublishesNoPolicy
  rw [Process.run_bind, ← htraffic]
  rcases hrun : (lookupAll env .txt domain).run t with ⟨r, t'⟩
  rw [hrun] at hselects
  dsimp only at hselects ⊢
  generalize LacksPolicy (env.found t .txt domain) = missing at hselects
  cases hselects with
  | interrupted i => exact .interrupted i
  | failed hf hfound =>
    exact .failed (.inl (Fault.verdict_of_isTransient hf)) fun h => hfound h.1
  | unmarked hselect hmissing =>
    dsimp only
    rw [hselect]
    dsimp only
    split
    next hasks => exact (seeks_type99 hclass t' domain).congr (by simp [hmissing, hasks])
    next hasks => exact .missing ⟨hmissing, fun h => absurd h hasks⟩
  | policy hselect hfound =>
    dsimp only
    rw [hselect]
    exact .found _ fun h => hfound h.1
  | refused hselect hf hfound =>
    dsimp only
    rw [hselect]
    -- A permanent error is not the fault after which type 99 is asked for.
    split
    next heq =>
      cases heq
      cases hf
    · exact .failed (.inr hf) fun h => hfound h.1

end

end SenderPolicy
