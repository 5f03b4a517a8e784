import SenderPolicy.Proofs.FixedZone
import SenderPolicy.Proofs.Redirection

/-!
# Explanations

A policy may say where the explanation of a failure is published. This has no bearing on the
verdict: it is the same when the terms that say so are removed from any of the policies. Only
a failure is explained, and only by the policy on which it was given at the top level.

Main definitions:

- `Policy.DropsExplanations`, `Dns.Table.DropsExplanations`: records and zones without some
  of the terms that point to explanations;
- `Policy.DecidesAlike`: policies that give the same verdicts.

Main results:

- `Policy.parse_of_drops`: a policy without these terms decides alike;
- `coupling_of_drops`: evaluations on the two zones follow one another;
- `verify_explanation`: the verdict and the explanation of a verification.
-/

namespace SenderPolicy

open Dns
open Process (Simulates)

/-! ## Records without explanations -/

namespace Policy

/-- Policies with the same directives and the same redirection. -/
structure DecidesAlike (p p' : Policy) : Prop where
  directives : p.directives = p'.directives
  redirect : p.redirect? = p'.redirect?

/-- Whether a term says where an explanation is published. -/
def isExplanation (term : Octets) : Bool :=
  match Term.parse? term with
  | some (.modifier (.explanation _)) => true
  | _ => false

/-- A record that is a policy, and the same without the terms that say where an explanation is
published. Blanks may differ. -/
structure DropsExplanations (record record' : Octets) : Prop where
  marked : isMarked record = true
  marked' : isMarked record' = true
  parses : ∃ p, parse record = .ok p
  terms : (terms record').tail = (terms record).tail.filter (!isExplanation ·)

/-- The redirection of a policy with one more modifier at its end. -/
theorem redirect?_append (p : Policy) (m : Modifier) :
    redirect? { p with modifiers := p.modifiers ++ [m] } =
      p.redirect?.or (redirect? ⟨[], [m]⟩) := by
  simp only [redirect?, List.findSome?_append]

/-- A term that points to an explanation may be left out. -/
theorem DecidesAlike.drop {p p' q : Policy} {target : MacroString} (h : DecidesAlike p p')
    (hadd : p.add? (.modifier (.explanation target)) = some q) : DecidesAlike q p' := by
  simp only [add?, Option.ite_none_left_eq_some, Option.some.injEq] at hadd
  obtain ⟨-, rfl⟩ := hadd
  refine ⟨h.directives, ?_⟩
  rw [redirect?_append, ← h.redirect]
  exact Option.or_none

/-- Any other term is added to both policies. -/
theorem DecidesAlike.add {p p' q : Policy} {t : Term} (h : DecidesAlike p p')
    (hadd : p.add? t = some q) (ht : ∀ target, t ≠ .modifier (.explanation target)) :
    ∃ q', p'.add? t = some q' ∧ DecidesAlike q q' := by
  cases t with
  | directive d =>
    cases hadd
    exact ⟨_, rfl, congrArg (· ++ [d]) h.directives, h.redirect⟩
  | modifier m =>
    have halike : DecidesAlike { p with modifiers := p.modifiers ++ [m] }
        { p' with modifiers := p'.modifiers ++ [m] } := by
      refine ⟨h.directives, ?_⟩
      rw [redirect?_append, redirect?_append, h.redirect]
    cases m with
    | explanation target => exact absurd rfl (ht target)
    | unknown name value =>
      cases hadd
      exact ⟨_, rfl, halike⟩
    | redirect target =>
      simp only [add?, Option.ite_none_left_eq_some, Option.some.injEq] at hadd ⊢
      obtain ⟨hnew, rfl⟩ := hadd
      exact ⟨_, ⟨h.redirect ▸ hnew, rfl⟩, halike⟩

/-- Without the terms that point to explanations, policies decide alike. -/
theorem DecidesAlike.ofTerms {p p' q : Policy} {terms : List Octets} (h : DecidesAlike p p')
    (hterms : ofTerms? p terms = some q) :
    ∃ q', ofTerms? p' (terms.filter (!isExplanation ·)) = some q' ∧ DecidesAlike q q' := by
  induction terms generalizing p p' with
  | nil =>
    cases hterms
    exact ⟨p', rfl, h⟩
  | cons term rest ih =>
    simp only [ofTerms?, Option.bind_eq_bind, Option.bind_eq_some_iff] at hterms
    obtain ⟨t, hparse, r, hadd, hrest⟩ := hterms
    by_cases hexplains : ∃ target, t = .modifier (.explanation target)
    · obtain ⟨target, rfl⟩ := hexplains
      have hterm : isExplanation term = true := by simp [isExplanation, hparse]
      rw [List.filter_cons_of_neg (by simp [hterm])]
      exact ih (h.drop hadd) hrest
    · have hother : ∀ target, t ≠ .modifier (.explanation target) := fun u hu => hexplains ⟨u, hu⟩
      have hterm : isExplanation term = false := by
        unfold isExplanation
        rw [hparse]
        split
        next u hu => exact absurd (Option.some.inj hu) (hother u)
        next => rfl
      obtain ⟨r', hadd', halike⟩ := h.add hadd hother
      rw [List.filter_cons_of_pos (by simp [hterm])]
      simp only [ofTerms?, hparse, hadd', Option.bind_eq_bind, Option.bind_some]
      exact ih halike hrest

/-- A record without the terms that point to explanations is a policy that decides alike. -/
theorem parse_of_drops {record record' : Octets} (h : DropsExplanations record record') :
    ∃ p p', parse record = .ok p ∧ parse record' = .ok p' ∧ DecidesAlike p p' := by
  obtain ⟨first, rest, hterms, hfirst⟩ := exists_terms_of_isMarked h.marked
  obtain ⟨first', rest', hterms', hfirst'⟩ := exists_terms_of_isMarked h.marked'
  obtain ⟨p, hparse⟩ := h.parses
  have hrest : rest' = rest.filter (!isExplanation ·) := by
    have hdrops := h.terms
    rwa [hterms, hterms'] at hdrops
  have hread : ofTerms? empty rest = some p :=
    (parse_eq_ok_iff_of_version hterms hfirst).1 hparse
  obtain ⟨p', hread', halike⟩ := DecidesAlike.ofTerms ⟨rfl, rfl⟩ hread
  rw [← hrest] at hread'
  exact ⟨p, p', hparse, (parse_eq_ok_iff_of_version hterms' hfirst').2 hread', halike⟩

/-- Records that are the same, or differ in terms that point to explanations. -/
def MayDrop (record record' : Octets) : Prop :=
  record = record' ∨ DropsExplanations record record'

/-- Records are the same as they are. -/
instance : Std.Refl MayDrop := ⟨fun _ => .inl rfl⟩

/-- Among records without explanations a policy is selected that decides alike. -/
theorem select_of_drops {records records' : List Octets}
    (h : List.Forall₂ MayDrop records records') :
    EndsAlike DecidesAlike (select records) (select records') := by
  have hmarked : List.Forall₂ MayDrop (records.filter isMarked) (records'.filter isMarked) := by
    apply List.rel_filter _ h
    rintro record record' (rfl | hdrops)
    · rfl
    · simp [hdrops.marked, hdrops.marked']
  unfold select
  generalize records.filter isMarked = marked at hmarked
  generalize records'.filter isMarked = marked' at hmarked
  cases hmarked with
  | nil => exact .stopped _
  | cons hrecord hmore =>
    cases hmore with
    | cons => exact .stopped _
    | nil =>
      rcases hrecord with rfl | hdrops
      · exact .refl (fun _ => ⟨rfl, rfl⟩) _
      · obtain ⟨p, p', hparse, hparse', halike⟩ := parse_of_drops hdrops
        dsimp only
        rw [hparse, hparse']
        exact .value halike

end Policy

/-! ## Zones without explanations -/

/-- A zone, and the same with records without explanations in the place of some policies. -/
structure Dns.Table.DropsExplanations (table table' : Table) : Prop where
  txt : ∀ name, EndsAlike (List.Forall₂ Policy.MayDrop) (table ⟨.txt, name⟩) (table' ⟨.txt, name⟩)
  spf : ∀ name, EndsAlike (List.Forall₂ Policy.MayDrop) (table ⟨.spf, name⟩) (table' ⟨.spf, name⟩)
  other : ∀ q : Question, q.kind ≠ .txt → q.kind ≠ .spf → table q = table' q

/-- Related records are none in one zone exactly if they are in the other. -/
theorem Dns.Table.answer_alike {table table' : Table} {q : Question}
    {V : q.kind.Datum → q.kind.Datum → Prop}
    (h : EndsAlike (List.Forall₂ V) (table q) (table' q)) :
    EndsAlike (List.Forall₂ V) (table.answer q) (table'.answer q) := by
  unfold Table.answer
  generalize table q = r at h
  generalize table' q = r' at h
  cases h with
  | stopped f => exact .stopped f
  | value hrecords =>
    cases hrecords with
    | nil => exact .stopped _
    | cons hrecord hmore => exact .value (.cons hrecord hmore)

/-- Missing answers count as no records in both. -/
theorem missingAsNone_alike {δ δ' : Type} {V : δ → δ' → Prop} {r : Except Fault (List δ)}
    {r' : Except Fault (List δ')} (h : EndsAlike (List.Forall₂ V) r r') :
    EndsAlike (List.Forall₂ V) (missingAsNone r) (missingAsNone r') := by
  cases h with
  | value hrecords => exact .value hrecords
  | stopped f =>
    unfold missingAsNone
    dsimp only
    split
    · exact .value .nil
    · exact .stopped f

namespace Dns.Table.DropsExplanations

variable {table table' : Table} (h : table.DropsExplanations table')
include h

/-- Tables that differ in explanations only find the same, except among texts. -/
theorem find {k : Kind} (hk : k ≠ .txt) (hk' : k ≠ .spf) (owner : k.Owner) :
    table.find k owner = table'.find k owner := by
  unfold Table.find Table.answer
  rw [h.other ⟨k, k.qualify owner⟩ hk hk']

/-- The policies of a domain decide alike. -/
theorem policy (asksType99 : Bool) (domain : String) :
    EndsAlike Policy.DecidesAlike (table.policy asksType99 domain)
      (table'.policy asksType99 domain) := by
  have htxt : EndsAlike (List.Forall₂ Policy.MayDrop) (missingAsNone (table.find .txt domain))
      (missingAsNone (table'.find .txt domain)) :=
    missingAsNone_alike (answer_alike (q := ⟨.txt, _⟩) (h.txt _))
  have hspf : EndsAlike (List.Forall₂ Policy.MayDrop) (missingAsNone (table.find .spf domain))
      (missingAsNone (table'.find .spf domain)) :=
    missingAsNone_alike (answer_alike (q := ⟨.spf, _⟩) (h.spf _))
  apply htxt.bind
  intro records records' hrecords
  have hselect := Policy.select_of_drops hrecords
  generalize Policy.select records = selected at hselect
  generalize Policy.select records' = selected' at hselect
  cases hselect with
  | value halike => exact .value halike
  | stopped f =>
    split
    · split
      · exact hspf.bind fun _ _ => Policy.select_of_drops
      · exact .stopped _
    · exact .stopped f

end Dns.Table.DropsExplanations

/-! ## Evaluations without explanations -/

section

variable {table table' : Table} {env env' : Environment}
  (hdrops : table.DropsExplanations table') (hsettings : env'.settings = env.settings)
  (htimestamp : env'.timestamp = env.timestamp) (hserves : env.transport.Serves table)
  (hserves' : env'.transport.Serves table') (request : Request)
include hdrops hsettings htimestamp hserves hserves'

/-- Hosts are the same on both zones. -/
theorem hostCoupling_of_drops : HostCoupling env env'
    (fun t t' => t.Steady table env ∧ t'.Steady table' env') Eq never where
  receiver := by rw [hsettings]
  timestamp := htimestamp.symm
  lookup k hk hk' owner := by
    apply (finds_lookup hserves k owner).simulates (finds_lookup hserves' k owner)
    rw [hdrops.find hk hk' owner]
    exact .refl (fun _ => rfl) _
  charge := simulates_charge_eq
  chargeVoid := simulates_chargeVoid_eq

omit htimestamp in
/-- The policies of a domain decide alike on both zones. -/
theorem simulates_lookupPolicy_of_drops (domain : String) :
    Simulates (fun t t' => t.Steady table env ∧ t'.Steady table' env') Policy.DecidesAlike never
      (lookupPolicy env domain) (lookupPolicy env' domain) := by
  apply (finds_lookupPolicy hserves domain).simulates (finds_lookupPolicy hserves' domain)
  rw [hsettings]
  exact hdrops.policy _ domain

/-- Evaluations on the two zones follow one another, step by step. -/
theorem coupling_of_drops : StepCoupling env env' request request
    (fun t t' => t.Steady table env ∧ t'.Steady table' env') Eq never
    (fun policy domain policy' domain' => policy.DecidesAlike policy' ∧ domain = domain') where
  directives hplace := hplace.1.directives
  redirect hplace := hplace.1.redirect
  charge := simulates_charge_eq
  depth := .inl (by rw [hsettings])
  matching := by
    rintro policy domain policy' _ ⟨-, rfl⟩ d -
    have hhost := hostCoupling_of_drops hdrops hsettings htimestamp hserves hserves'
    apply Mechanism.simulates_matches (hhost.targetNameOr request domain _)
    rintro name _ rfl
    exact hhost.test request _ name
  target := by
    rintro policy domain policy' _ ⟨-, rfl⟩ target -
    have hhost := hostCoupling_of_drops hdrops hsettings htimestamp hserves hserves'
    apply simulates_fetchTarget (P := fun policy domain policy' domain' =>
      policy.DecidesAlike policy' ∧ domain = domain') (hhost.targetName request domain target)
    rintro name _ rfl
    refine .ite ?_ (.stop _)
    apply Simulates.bind (Evaluation.simulates_ofLookup (Lookup.simulates_attempt_of
      (simulates_lookupPolicy_of_drops hdrops hsettings hserves hserves' name)))
    intro r r' hr
    cases hr with
    | value halike => exact .pure ⟨halike, rfl⟩
    | stopped f => exact .ite (.stop _) (.stop _)

variable (env env') in
/-- Evaluations of a request on the two zones come to the same verdict. -/
theorem simulates_evaluateRequest_of_drops :
    Simulates (Progress.Related (fun t t' => t.Steady table env ∧ t'.Steady table' env') Eq)
      (fun o o' : Outcome => o.verdict = o'.verdict) never (evaluateRequest env request)
      (evaluateRequest env' request) := by
  have hcoupling := coupling_of_drops hdrops hsettings htimestamp hserves hserves' request
  refine .ite ?_ (.pure rfl)
  apply Simulates.bind (Evaluation.simulates_ofLookup
    (simulates_lookupPolicy_of_drops hdrops hsettings hserves hserves' request.domain))
  intro policy policy' halike
  apply Simulates.bind (hcoupling.evaluate ⟨halike, rfl⟩)
  intro finish finish' hfinish
  -- The explanations may differ, but neither interrupts the verification.
  have hexplain : Simulates (fun t t' => t.Steady table env ∧ t'.Steady table' env')
      (fun _ _ => True) never (explainFinish env request finish)
      (explainFinish env' request finish') :=
    (finds_explainFinish hserves request finish).simulates
      (finds_explainFinish hserves' request finish') (.value trivial)
  apply Simulates.bind (Evaluation.simulates_ofLookup hexplain)
  intro _ _ _
  exact .pure hfinish.verdict

/-- Verifications on the two zones come to the same verdict. -/
theorem verdict_of_drops {t t' : Traffic} (ht : t.caches.Reflect table)
    (ht' : t'.caches.Reflect table') :
    (outcomeFrom t' (verify env' request)).verdict =
      (outcomeFrom t (verify env request)).verdict := by
  have hstart : Progress.Related
      (fun t t' => t.Steady table env.timed ∧ t'.Steady table' env'.timed) Eq
      (.start env.timed { t with waited := 0 }) (.start env'.timed { t' with waited := 0 }) :=
    ⟨⟨ht.steady_timed, ht'.steady_timed⟩, congrArg Budget.ofSettings hsettings.symm⟩
  have hends := simulates_evaluateRequest_of_drops env.timed env'.timed hdrops hsettings htimestamp
    hserves hserves' request _ _ hstart
  rw [outcomeFrom_verify, outcomeFrom_verify]
  rcases hrun : (evaluateRequest env.timed request).run (.start env.timed { t with waited := 0 })
    with ⟨r, p⟩
  rcases hrun' : (evaluateRequest env'.timed request).run
    (.start env'.timed { t' with waited := 0 }) with ⟨r', p'⟩
  rw [hrun, hrun'] at hends
  obtain ⟨e, he, -⟩ | ⟨hr, -⟩ := hends
  · exact he.elim
  · cases hr with
    | value hverdict => exact hverdict.symm
    | stopped e => rfl

end

/-! ## Explanations of failures -/

/-- No evaluation that ends early is a failure. -/
theorem Abort.verdict_ne_fail (e : Abort) : e.verdict ≠ .fail := by
  intro h
  rcases e with (f | i) | _
  · cases f <;> cases h
  · cases h
  · cases h

/-- On a fixed zone nothing interrupts the evaluation of a policy. -/
theorem steady_of_evaluate {table : Table} {env : Environment}
    (hserves : env.transport.Serves table) (request : Request) {p p₁ p₂ : Progress}
    (hp : p.traffic.Steady table env) {policy : Policy} {finish : Finish}
    (hpolicy : (Evaluation.ofLookup (lookupPolicy env request.domain)).run p = (.ok policy, p₁))
    (hfinish : (Machine.evaluate env request policy request.domain).run p₁ = (.ok finish, p₂)) :
    p₂.traffic.Steady table env := by
  have hcoupling := coupling_of_serves env env rfl rfl hserves hserves
  have hstart : Progress.Related (fun t t' => t.Steady table env ∧ t'.Steady table env) Eq p p :=
    ⟨⟨hp, hp⟩, rfl⟩
  have hnext := ((Evaluation.simulates_ofLookup
    (hcoupling.lookupPolicy request.domain)).eq_of_never hstart).2
  rw [hpolicy] at hnext
  have hend := ((hcoupling.evaluate request policy request.domain).eq_of_never hnext).2
  rw [hfinish] at hend
  exact hend.1.1

/-- A failure on a fixed zone is explained by the last policy at the top level, and nothing
else is explained. -/
theorem explanation_of_evaluateRequest {table : Table} {env : Environment}
    (hserves : env.transport.Serves table) (request : Request) {p p' : Progress}
    (hp : p.traffic.Steady table env) {outcome : Outcome}
    (h : (evaluateRequest env request).run p = (.ok outcome, p')) :
    (outcome.verdict ≠ .fail → outcome.explanation = none) ∧
    (outcome.verdict = .fail → ∃ first last : Current, first.domain = request.domain ∧
      (Evaluation.ofLookup (lookupPolicy env request.domain)).run p =
        (.ok first.policy, first.progress) ∧
      Relation.ReflTransGen (Current.Turns env request) first last ∧
      (last.decide env request).1 = .ok (some .fail) ∧
      outcome.explanation =
        last.policy.explanation?.bind (table.explanation env request last.domain)) := by
  unfold evaluateRequest at h
  split at h
  next hvalid =>
    obtain ⟨policy, p₁, hpolicy, h⟩ := Process.run_bind_eq_ok h
    obtain ⟨finish, p₂, hfinish, h⟩ := Process.run_bind_eq_ok h
    obtain ⟨explanation, p₃, hexplain, h⟩ := Process.run_bind_eq_ok h
    cases h
    have hsteady := steady_of_evaluate hserves request hp hpolicy hfinish
    have hfound := (finds_explainFinish hserves request finish p₂.traffic hsteady).1
    rw [Evaluation.run_ofLookup, hfound] at hexplain
    cases hexplain
    dsimp only
    refine ⟨fun hverdict => if_neg hverdict, fun hverdict => ?_⟩
    rw [if_pos hverdict]
    -- The verdict is given on the last policy at the top level, by one of its own directives.
    rw [Machine.evaluate_eq_check] at hfinish
    obtain ⟨last, hturns, hlast, hname, found, hdecide, hfail⟩ :=
      exists_turns_of_check (c := ⟨policy, request.domain, p₁⟩) hfinish
    refine ⟨_, last, rfl, hpolicy, hturns, ?_, by rw [hlast, hname]⟩
    rw [hverdict] at hfail
    rw [hdecide]
    rcases found with _ | (_ | _ | _ | _) <;> first | rfl | cases hfail
  next =>
    cases h
    exact ⟨fun _ => rfl, fun hverdict => by cases hverdict⟩

/-- On a zone that does not change and answers without delay, the verdict is the same when
terms that point to explanations are removed from any of the policies. Only a failure has an
explanation: the only text of the name to which the last policy at the top level points, if
this name is valid and the text can be read, expanded for the domain of that policy. -/
theorem verify_explanation {table : Table} {env : Environment}
    (hserves : env.transport.Serves table) (request : Request) {t : Traffic}
    (ht : t.caches.Reached table) :
    let outcome := outcomeFrom t (verify env request)
    (∀ table' env' t', table.DropsExplanations table' → env'.transport.Serves table' →
      env'.settings = env.settings → env'.timestamp = env.timestamp → t'.caches.Reached table' →
      (outcomeFrom t' (verify env' request)).verdict = outcome.verdict) ∧
    (outcome.verdict ≠ .fail → outcome.explanation = none) ∧
    (outcome.verdict = .fail → ∃ first last : Current, first.domain = request.domain ∧
      (Evaluation.ofLookup (lookupPolicy env.timed request.domain)).run
        (.start env.timed { t with waited := 0 }) = (.ok first.policy, first.progress) ∧
      Relation.ReflTransGen (Current.Turns env.timed request) first last ∧
      (last.decide env.timed request).1 = .ok (some .fail) ∧
      ∀ text, outcome.explanation = some text ↔ ∃ target record m,
        last.policy.explanation? = some target ∧
        DomainName.isValid (table.targetName env request last.domain target) = true ∧
        table.find .txt (table.targetName env request last.domain target) = .ok [record] ∧
        MacroString.parse? .explanation record = some m ∧
        text = m.toText (table.bindings env request last.domain m) ∧
        (table.bindings env request last.domain m).domain = last.domain) := by
  intro outcome
  have hsteady : Traffic.Steady table env.timed { t with waited := 0 } := ht.reflect.steady_timed
  refine ⟨fun table' env' t' hdrops hserves' hsettings htimestamp ht' => ?_, ?_⟩
  · exact verdict_of_drops hdrops hsettings htimestamp hserves hserves' request ht.reflect
      ht'.reflect
  · have houtcome : outcome = _ := outcomeFrom_verify env request t
    rcases hrun : (evaluateRequest env.timed request).run (.start env.timed { t with waited := 0 })
      with ⟨e | o, p⟩
    · rw [hrun] at houtcome
      rw [houtcome]
      exact ⟨fun _ => rfl, fun h => absurd h e.verdict_ne_fail⟩
    · rw [hrun] at houtcome
      have htimed : env.timed.transport.Serves table := hserves
      obtain ⟨hnone, hfail⟩ := explanation_of_evaluateRequest htimed request hsteady hrun
      rw [houtcome]
      refine ⟨hnone, fun h => ?_⟩
      obtain ⟨first, last, hdomain, hpolicy, hturns, hdecide, hexplanation⟩ := hfail h
      refine ⟨first, last, hdomain, hpolicy, hturns, hdecide, fun text => ?_⟩
      simp only [hexplanation, Option.bind_eq_some_iff, Table.explanation_eq_some_iff,
        Table.targetName_timed, Table.bindings_timed]
      constructor
      · rintro ⟨target, htarget, hvalid, record, m, hrecord, hparse, htext⟩
        exact ⟨target, record, m, htarget, hvalid, hrecord, hparse, htext, rfl⟩
      · rintro ⟨target, record, m, htarget, hvalid, hrecord, hparse, htext, -⟩
        exact ⟨target, htarget, hvalid, record, m, hrecord, hparse, htext⟩

/-- A zone in which a policy turns to another, and both point to explanations. -/
def refusingTable (policy : Octets) : Table
  | ⟨.txt, name⟩ =>
    if name = "example.org." then
      .ok [.ofAscii "v=spf1 redirect=_spf.example.org exp=no.example.org".toList]
    else if name = "_spf.example.org." then .ok [policy]
    else .ok [.ofAscii "%{i} is not for %{d}".toList]
  | _ => .error (.notFound .nameError)

/-- The refusing tables differ in the explanation only. -/
theorem refusingTable_drops {policy policy' : Octets}
    (h : Policy.DropsExplanations policy policy') :
    (refusingTable policy).DropsExplanations (refusingTable policy') where
  txt name := by
    unfold refusingTable
    dsimp only
    split
    · exact .refl (fun _ => List.forall₂_refl _) _
    · split
      · exact .value (.cons (.inr h) .nil)
      · exact .refl (fun _ => List.forall₂_refl _) _
  spf name := .stopped _
  other q hk hk' := by
    obtain ⟨k, owner⟩ := q
    cases k with
    | txt => exact absurd rfl hk
    | _ => rfl

/-- An environment on a fixed zone. -/
def Dns.Table.environment (table : Table) : Environment where
  transport := table.transport
  settings := .standard
  clock _ := 0
  timestamp := 0
  alarm := .silent

/-- The explanation is that of the policy to which the first one turns. Without it there is
the same verdict. -/
theorem verify_explanation_refusing :
    let policy : Octets := .ofAscii "v=spf1 -all exp=why.example.org".toList
    let policy' : Octets := .ofAscii "v=spf1 -all".toList
    let env := (refusingTable policy).environment
    let env' := (refusingTable policy').environment
    let request : Request := .forHelo (.v4 ⟨0xC0000201⟩) "example.org"
    let t : Traffic := .start .disabled
    let outcome := outcomeFrom t (verify env request)
    env.transport.Serves (refusingTable policy) ∧ t.caches.Reached (refusingTable policy) ∧
      (refusingTable policy).DropsExplanations (refusingTable policy') ∧
      outcome = ⟨.fail, "example.org", some "192.0.2.1 is not for _spf.example.org"⟩ ∧
      (outcomeFrom t (verify env' request)).verdict = outcome.verdict ∧
      ∃ first last : Current, Relation.ReflTransGen (Current.Turns env.timed request) first last ∧
        (last.decide env.timed request).1 = .ok (some .fail) ∧
        ∃ target, last.policy.explanation? = some target := by
  intro policy policy' env env' request t outcome
  have hserves : env.transport.Serves (refusingTable policy) := Table.serves_transport _
  have hreached : t.caches.Reached (refusingTable policy) := .fresh Caches.isFresh_disabled
  have houtcome :
      outcome = ⟨.fail, "example.org", some "192.0.2.1 is not for _spf.example.org"⟩ := by
    unfold outcome
    rw [outcomeFrom_verify, Recursive.evaluateRequest_eq_requestBy]
    decide +kernel
  have hdrops : Policy.DropsExplanations policy policy' :=
    ⟨by decide, by decide, ⟨_, rfl⟩, by decide +kernel⟩
  have hzones := refusingTable_drops hdrops
  obtain ⟨hsame, -, hexplained⟩ := verify_explanation hserves request hreached
  have hverdict := hsame _ env' t hzones (Table.serves_transport _) rfl rfl
    (.fresh Caches.isFresh_disabled)
  obtain ⟨first, last, -, -, hturns, hdecide, htext⟩ :=
    hexplained (congrArg Outcome.verdict houtcome)
  obtain ⟨target, -, -, htarget, -⟩ := (htext _).1 (congrArg Outcome.explanation houtcome)
  exact ⟨hserves, hreached, hzones, houtcome, hverdict, first, last, hturns, hdecide, target,
    htarget⟩

end SenderPolicy
