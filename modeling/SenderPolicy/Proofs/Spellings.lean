import SenderPolicy.Proofs.Coupling
import SenderPolicy.Proofs.DomainSpecs

/-!
# Spellings of a name

A name may be spelled in several ways between which no lookup and no comparison can tell. Two
requests that differ in spellings only go through the same policies, as long as the targets of
these policies are spellings of the same names, too.

Main definitions:

- `DomainName.Interchangeable`: spellings of the same name;
- `Respelling`: what the evaluation of a request needs to be followed by that of another one that
  spells its names in another way.

Main results:

- `DomainName.Interchangeable.test`, `DomainName.Interchangeable.lookupPolicy`: tests of and
  lookups for the same name are the same;
- `Respelling.steps`: every step is followed;
- `Respelling.verify`: both verifications end with the same traffic, budget and verdict, and with
  explanations made from the same text.
-/

namespace SenderPolicy

open Process (Simulates)

/-! ## The same name -/

/-- Questions with the same owner in its qualified form are the same lookup. -/
theorem lookup_congr (env : Environment) {k : Dns.Kind} {owner owner' : k.Owner}
    (h : k.qualify owner = k.qualify owner') : lookup env k owner = lookup env k owner' := by
  unfold lookup
  rw [h]

namespace DomainName

/-- Spellings of the same name: they are valid together, looked up in the same form, and have the
same names below them. -/
structure Interchangeable (name name' : String) : Prop where
  valid : isValid name = isValid name'
  qualify : qualify name = qualify name'
  within : isWithin (Text.lowerCase name) = isWithin (Text.lowerCase name')

namespace Interchangeable

variable {name name' : String} (h : Interchangeable name name') (env : Environment)
include h

/-- The same policy is found. -/
theorem lookupPolicy : lookupPolicy env name = lookupPolicy env name' := by
  have htxt := lookup_congr env (k := .txt) h.qualify
  have hspf := lookup_congr env (k := .spf) h.qualify
  unfold SenderPolicy.lookupPolicy lookupAll
  rw [htxt, hspf]

/-- Spellings of one name have the same policy. -/
theorem fetchPolicy : fetchPolicy env name = fetchPolicy env name' := by
  unfold SenderPolicy.fetchPolicy
  rw [h.valid, h.lookupPolicy]

/-- The same explanation is found. -/
theorem lookupExplanation : lookupExplanation env name = lookupExplanation env name' := by
  unfold SenderPolicy.lookupExplanation
  rw [lookup_congr env (k := .txt) h.qualify]

/-- Spellings of one name have the same addresses. -/
theorem resolvesNear (client : Address) (mask4 : BitVec 32) (mask6 : BitVec 128) :
    resolvesNear env client mask4 mask6 name = resolvesNear env client mask4 mask6 name' := by
  unfold SenderPolicy.resolvesNear
  rw [lookup_congr env (k := .a) h.qualify, lookup_congr env (k := .aaaa) h.qualify]

/-- A mechanism is tested in the same way. -/
theorem test (m : Mechanism) {request request' : Request}
    (hclient : request.client = request'.client) :
    m.test env request name = m.test env request' name' := by
  have hresolves := h.resolvesNear env
  have ha := lookup_congr env (k := .a) h.qualify
  have hmx := lookup_congr env (k := .mx) h.qualify
  cases m <;>
    simp only [Mechanism.test, hclient, h.valid, h.within, matchesAddress, hresolves,
      matchesExistence, hasAddress, ha, hmx]

end Interchangeable

end DomainName

/-! ## Requests with other spellings -/

/-- A policy names the targets to which it leads. -/
theorem Policy.LeadsTo.mem_domainSpecs {p : Policy} {target : MacroString} (h : p.LeadsTo target) :
    target ∈ p.domainSpecs := by
  cases h with
  | inclusion hd => exact mem_domainSpecs_of_directive hd rfl
  | redirect hredirect => exact mem_domainSpecs_of_redirect hredirect

/-- What is found as an explanation has been read as one. -/
theorem parse?_of_lookupExplanation {env : Environment} {name : String} {t t' : Traffic}
    {text : MacroString} (h : (lookupExplanation env name).run t = (.ok text, t')) :
    ∃ octets, MacroString.parse? .explanation octets = some text := by
  obtain ⟨records, t₁, -, htext⟩ := Process.run_bind_eq_ok h
  split at htext
  next octets =>
    split at htext
    next m hparse =>
      cases htext
      exact ⟨octets, hparse⟩
    next => cases htext
  next => cases htext

/-- Explanations made from the same text, with properties that correspond. -/
def MadeAlike (V : MacroString → Bindings → Bindings → Prop) (e e' : String) : Prop :=
  ∃ text b b', V text b b' ∧ e = text.toText b ∧ e' = text.toText b'

/-- Outcomes of two requests: each with its domain, with the same verdict and explanations made
alike. -/
structure Outcome.Alike (V : MacroString → Bindings → Bindings → Prop) (request request' : Request)
    (o o' : Outcome) : Prop where
  verdict : o.verdict = o'.verdict
  domain : o.domain = request.domain
  domain' : o'.domain = request'.domain
  explanation : Option.Rel (MadeAlike V) o.explanation o'.explanation

/-- What the evaluation of a request needs to be followed by that of another one that spells its
names in another way. Policies are evaluated at places, with two spellings of a domain; their
targets are names with two spellings, at which places are found again. -/
structure Respelling (env : Environment) (request request' : Request)
    (place : Policy → String → String → Prop) (spelled : String → String → Prop)
    (V : MacroString → Bindings → Bindings → Prop) : Prop where
  client : request.client = request'.client
  domain : ∀ {policy domain domain'}, place policy domain domain' →
    DomainName.Interchangeable domain domain'
  name : ∀ {name name'}, spelled name name' → DomainName.Interchangeable name name'
  target : ∀ {policy domain domain'}, place policy domain domain' → ∀ m ∈ policy.domainSpecs,
    Simulates Eq spelled never (targetName env request domain m) (targetName env request' domain' m)
  found : ∀ {name name'}, spelled name name' → ∀ t policy t',
    (lookupPolicy env name).run t = (.ok policy, t') → place policy name name'
  text : ∀ {policy domain domain'}, place policy domain domain' → ∀ octets text,
    MacroString.parse? .explanation octets = some text → Simulates Eq (V text) never
      (bindingsFor env request domain text) (bindingsFor env request' domain' text)

namespace Respelling

variable {env : Environment} {request request' : Request}
  {place : Policy → String → String → Prop} {spelled : String → String → Prop}
  {V : MacroString → Bindings → Bindings → Prop}
  (h : Respelling env request request' place spelled V)
include h

/-- A mechanism is tested for spellings of the same name. -/
theorem targetNameOr {policy : Policy} {domain domain' : String}
    (hplace : place policy domain domain') {d : Directive} (hd : d ∈ policy.directives) :
    Simulates Eq DomainName.Interchangeable never
      (targetNameOr env request domain d.mechanism.target?)
      (targetNameOr env request' domain' d.mechanism.target?) := by
  cases htarget : d.mechanism.target? with
  | none => exact .pure (h.domain hplace)
  | some m =>
    have hspec : d.mechanism.domainSpec? = some m := by
      cases hmechanism : d.mechanism <;> simp_all [Mechanism.target?, Mechanism.domainSpec?]
    exact (h.target hplace m (Policy.mem_domainSpecs_of_directive hd hspec)).mono
      (fun _ _ hname => h.name hname) fun _ he => he

/-- The same policy is fetched at spellings of the same name. -/
theorem fetchPolicy {name name' : String} (hname : spelled name name') :
    Simulates Eq (fun policy policy' => policy = policy' ∧ place policy name name') never
      (fetchPolicy env name) (fetchPolicy env name') := by
  rw [← (h.name hname).fetchPolicy env]
  apply Simulates.refl_of_run
  intro p policy p' hrun
  exact h.found hname _ policy p'.traffic (lookupPolicy_of_fetchPolicy hrun)

/-- Every step is followed. -/
theorem steps : StepCoupling env env request request' Eq Eq never
    (fun policy domain policy' domain' => policy = policy' ∧ place policy domain domain') where
  directives hplace := congrArg Policy.directives hplace.1
  redirect hplace := congrArg Policy.redirect? hplace.1
  charge := by
    rw [Progress.related_eq]
    exact .refl _
  depth := .inl rfl
  matching := by
    rintro policy domain _ domain' ⟨rfl, hplace⟩ d hd
    apply Mechanism.simulates_matches (h.targetNameOr hplace hd)
    intro name name' hname
    rw [Progress.related_eq, ← hname.test env d.mechanism h.client]
    exact .refl _
  target := by
    rintro policy domain _ domain' ⟨rfl, hplace⟩ target htarget
    apply simulates_fetchTarget
      (P := fun policy domain policy' domain' => policy = policy' ∧ place policy domain domain')
      (h.target hplace target htarget.mem_domainSpecs)
    intro name name' hname
    rw [Progress.related_eq]
    exact h.fetchPolicy hname

/-- The explanations of failures at the same place are made alike. -/
theorem explainFinish {verdict : Verdict} {policy : Policy} {domain domain' : String}
    (hplace : place policy domain domain') :
    Simulates Eq (Option.Rel (MadeAlike V)) never
      (explainFinish env request ⟨verdict, policy, domain⟩)
      (explainFinish env request' ⟨verdict, policy, domain'⟩) := by
  unfold SenderPolicy.explainFinish
  dsimp only
  split
  next target hexplanation =>
    have hexpand : Simulates Eq (Option.Rel (MadeAlike V)) never
        (expandExplanation env request domain target)
        (expandExplanation env request' domain' target) := by
      apply Simulates.bind (h.target hplace target
        (Policy.mem_domainSpecs_of_explanation hexplanation))
      intro name name' hname
      have hsame := h.name hname
      rw [hsame.valid, hsame.lookupExplanation]
      refine .ite ?_ (.pure .none)
      apply Simulates.bind (.refl_of_run fun t text t' hrun => parse?_of_lookupExplanation hrun)
      rintro text _ ⟨rfl, octets, hparse⟩
      apply Simulates.bind (h.text hplace octets text hparse)
      intro b b' hb
      exact .pure (.some ⟨text, b, b', hb, rfl, rfl⟩)
    apply Simulates.bind (Lookup.simulates_attempt_of hexpand)
    intro r r' hr
    cases hr with
    | value hexplanation => exact .pure hexplanation
    | stopped f => exact .pure .none
  next => exact .pure .none

/-- The evaluation of a policy, with what explains its end, is followed at the same place. -/
theorem conclude {policy : Policy} (hplace : place policy request.domain request'.domain) :
    Simulates Eq (Outcome.Alike V request request') never
      (do
        let finish ← Machine.evaluate env request policy request.domain
        let explanation ← Evaluation.ofLookup (SenderPolicy.explainFinish env request finish)
        return ⟨finish.verdict, request.domain, explanation⟩)
      (do
        let finish ← Machine.evaluate env request' policy request'.domain
        let explanation ← Evaluation.ofLookup (SenderPolicy.explainFinish env request' finish)
        return ⟨finish.verdict, request'.domain, explanation⟩) := by
  have hevaluate : Simulates (Progress.Related Eq Eq) _ never
      (Machine.evaluate env request policy request.domain)
      (Machine.evaluate env request' policy request'.domain) := h.steps.evaluate ⟨rfl, hplace⟩
  rw [Progress.related_eq] at hevaluate
  apply Simulates.bind hevaluate
  rintro ⟨verdict, policy, domain⟩ ⟨_, _, domain'⟩ ⟨rfl, rfl, hplace⟩
  have hexplain : Simulates (Progress.Related Eq Eq) (Option.Rel (MadeAlike V)) never
      (Evaluation.ofLookup (SenderPolicy.explainFinish env request ⟨verdict, policy, domain⟩))
      (Evaluation.ofLookup (SenderPolicy.explainFinish env request' ⟨verdict, policy, domain'⟩)) :=
    Evaluation.simulates_ofLookup (h.explainFinish hplace)
  rw [Progress.related_eq] at hexplain
  apply Simulates.bind hexplain
  intro explanation explanation' hexplanation
  exact .pure ⟨rfl, rfl, rfl, hexplanation⟩

/-- Evaluations of the two requests end alike, and with the same progress. -/
theorem run_evaluateRequest
    (hdomain : DomainName.Interchangeable request.domain request'.domain) {p : Progress}
    (hfirst : ∀ policy t, (lookupPolicy env request.domain).run p.traffic = (.ok policy, t) →
      place policy request.domain request'.domain) :
    EndsAlike (Outcome.Alike V request request') ((evaluateRequest env request).run p).1
        ((evaluateRequest env request').run p).1 ∧
      ((evaluateRequest env request).run p).2 = ((evaluateRequest env request').run p).2 := by
  unfold evaluateRequest
  rw [← hdomain.valid, ← hdomain.lookupPolicy env]
  split
  · rw [Process.run_bind, Process.run_bind, Evaluation.run_ofLookup]
    rcases hfound : (lookupPolicy env request.domain).run p.traffic with ⟨e | policy, t⟩
    · exact ⟨.stopped _, rfl⟩
    · rcases h.conclude (hfirst policy t hfound) { p with traffic := t } _ rfl with
        ⟨e, he, -⟩ | hends
      · exact he.elim
      · exact hends
  · exact ⟨.value ⟨rfl, rfl, rfl, .none⟩, rfl⟩

end Respelling

/-- Verifications of the two requests end with the same traffic and budget, and alike. -/
theorem Respelling.verify {env : Environment} {request request' : Request}
    {place : Policy → String → String → Prop} {spelled : String → String → Prop}
    {V : MacroString → Bindings → Bindings → Prop}
    (h : Respelling env.timed request request' place spelled V)
    (hdomain : DomainName.Interchangeable request.domain request'.domain) {t : Traffic}
    (hfirst : ∀ policy t', (lookupPolicy env.timed request.domain).run { t with waited := 0 } =
      (.ok policy, t') → place policy request.domain request'.domain) :
    progressAtEnd env request t = progressAtEnd env request' t ∧
      ((SenderPolicy.verify env request).run t).2 = ((SenderPolicy.verify env request').run t).2 ∧
      Outcome.Alike V request request' (outcomeFrom t (SenderPolicy.verify env request))
        (outcomeFrom t (SenderPolicy.verify env request')) := by
  obtain ⟨hends, hprogress⟩ :=
    h.run_evaluateRequest hdomain (p := .start env.timed { t with waited := 0 }) hfirst
  have hsame : progressAtEnd env request t = progressAtEnd env request' t := hprogress
  refine ⟨hsame, ?_, ?_⟩
  · rw [traffic_verify, traffic_verify, hsame]
  · rw [outcomeFrom_verify, outcomeFrom_verify]
    generalize ((evaluateRequest env.timed request).run _).1 = r at hends ⊢
    generalize ((evaluateRequest env.timed request').run _).1 = r' at hends ⊢
    cases hends with
    | value halike => exact halike
    | stopped e => exact ⟨rfl, rfl, rfl, .none⟩

end SenderPolicy
