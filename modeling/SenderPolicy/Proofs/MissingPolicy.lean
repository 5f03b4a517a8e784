import SenderPolicy.Proofs.PublishedPolicy
import SenderPolicy.Proofs.Recursion

/-!
# Missing policies

A missing answer and a missing policy both mean that there is nothing to say. They may
come up at any place of an evaluation, but they become the verdict only at the place where
the policy of the domain itself is looked for. Everywhere else they are handled, or turned
into an error.

Main definitions:

- `Process.EndsWith`: what the values and the reasons to stop of a process are;
- `Stop.IsReply`, `Abort.IsError`: the reasons for which lookups and evaluations stop;
- `SaysNothing`: domains of which there is nothing to be said.

Main results:

- `Process.EndsWith.runFrom`: from any state of the machine, a run ends with the verdict of
  a qualifier or with an error;
- `says_evaluateRequest`: an evaluation says nothing exactly if there is nothing to be said;
- `verify_none_iff`: when a verification says nothing, and when it is invalid.
-/

namespace SenderPolicy

/-! ## Reasons to stop -/

section Reasons

variable {σ ε α β : Type}

namespace Process

/-- A process that ends with a value of one sort, or stops for a reason of one sort. -/
def EndsWith (S : ε → Prop) (V : α → Prop) (x : Process σ ε α) : Prop :=
  ∀ s, match (x.run s).1 with
    | .ok a => V a
    | .error e => S e

namespace EndsWith

variable {S : ε → Prop} {V : α → Prop} {W : β → Prop}

theorem pure {a : α} (h : V a) : EndsWith S V (Pure.pure a : Process σ ε α) := fun _ => h

theorem stop {e : ε} (h : S e) : EndsWith S V (Process.stop e : Process σ ε α) := fun _ => h

/-- A process that follows another ends in one of its ways, or in a way in which the other
stops. -/
theorem bind {x : Process σ ε α} {f : α → Process σ ε β} (hx : EndsWith S V x)
    (hf : ∀ a, V a → EndsWith S W (f a)) : EndsWith S W (x >>= f) := by
  intro s
  have hs := hx s
  rw [Process.run_bind]
  rcases hrun : x.run s with ⟨e | a, s'⟩ <;> rw [hrun] at hs
  · exact hs
  · exact hf a hs s'

theorem ite {c : Prop} [Decidable c] {x y : Process σ ε α} (hx : c → EndsWith S V x)
    (hy : ¬ c → EndsWith S V y) : EndsWith S V (if c then x else y) := by
  split
  next h => exact hx h
  next h => exact hy h

end EndsWith

end Process

end Reasons

open Process (EndsWith)

/-- What a question may be the reason for: its answer is missing, or it failed in a way
that may pass, or waiting for its answer was interrupted. -/
def Stop.IsReply : Stop → Prop
  | .fault f => f.isNotFound ∨ f.isTransient
  | .interrupted _ => True

/-- The same, but for a missing answer. -/
def Stop.IsFailure : Stop → Prop
  | .fault f => f.isTransient
  | .interrupted _ => True

/-- An interruption, or the reason for an error. -/
def Abort.IsError : Abort → Prop
  | .stopped (.fault f) => f.IsError
  | .stopped (.interrupted _) | .noPolicy => True

/-! ## Evaluations -/

namespace Process.EndsWith

variable {α β : Type} {env : Environment} {request : Request}

/-- A lookup whose fault is handled has that fault as its value. -/
theorem attempt {S S' : Stop → Prop} {V : α → Prop} {x : Lookup α} (hx : EndsWith S V x)
    (hinterrupted : ∀ i, S' (.interrupted i)) :
    EndsWith S' (fun r => match r with
      | .ok a => V a
      | .error f => S (.fault f)) x.attempt := by
  intro t
  have ht := hx t
  rw [Lookup.run_attempt]
  rcases hrun : x.run t with ⟨(f | i) | a, t'⟩ <;> rw [hrun] at ht
  · exact ht
  · exact hinterrupted i
  · exact ht

/-- A lookup stops an evaluation for the same reasons. -/
theorem ofLookup {S : Stop → Prop} {S' : Abort → Prop} {V : α → Prop} {x : Lookup α}
    (hx : EndsWith S V x) (hS : ∀ e, S e → S' (.stopped e)) :
    EndsWith S' V (Evaluation.ofLookup x) := by
  intro p
  have ht := hx p.traffic
  rw [Evaluation.run_ofLookup]
  rcases hrun : (x.run p.traffic).1 with e | a <;> rw [hrun] at ht
  · exact hS e ht
  · exact ht

/-- A lookup that no fault stops can only be interrupted. -/
theorem quiet {x : Lookup α} (hx : Reports.Quiet x) :
    EndsWith Abort.IsError (fun _ => True) (Evaluation.ofLookup x) := by
  intro p
  have hfault := hx p.traffic
  rw [Evaluation.run_ofLookup]
  rcases hrun : (x.run p.traffic).1 with (f | i) | a
  · exact absurd hrun (hfault f)
  · trivial
  · trivial

/-- A charge that is refused is an error. -/
theorem charge : EndsWith Abort.IsError (fun _ => True) charge := by
  intro p
  rw [run_charge]
  cases hcharge : p.budget.charge with
  | ok b => trivial
  | error f =>
    unfold Budget.charge at hcharge
    split at hcharge <;> cases hcharge
    exact .inr rfl

/-- So is a missing answer too many. -/
theorem chargeVoid : EndsWith Abort.IsError (fun _ => True) chargeVoid := by
  intro p
  rw [run_chargeVoid]
  cases p.budget.addVoid.isOverVoid with
  | true => exact .inr rfl
  | false => trivial

/-- Passing on a failure is an error. -/
theorem fail {f : Fault} (h : f.isTransient) :
    EndsWith Abort.IsError (fun _ => True) (Evaluation.fail f : Evaluation α) :=
  stop (.inl (Fault.verdict_of_isTransient h))

/-- A missing answer may be handled, if failures are passed on. -/
theorem handle {x : Lookup α} {k : Except Fault α → Evaluation β} {y : Evaluation β}
    (hx : EndsWith Stop.IsReply (fun _ => True) x)
    (hok : ∀ a, EndsWith Abort.IsError (fun _ => True) (k (.ok a)))
    (hfault : ∀ f, k (.error f) = if f.isNotFound then y else Evaluation.fail f)
    (hy : EndsWith Abort.IsError (fun _ => True) y) :
    EndsWith Abort.IsError (fun _ => True) (Evaluation.ofLookup x.attempt >>= k) := by
  have hinterrupted : ∀ e, (∃ i, e = Stop.interrupted i) → Abort.IsError (.stopped e) := by
    rintro _ ⟨i, rfl⟩
    trivial
  apply bind (ofLookup (attempt hx fun i => ⟨i, rfl⟩) hinterrupted)
  intro r hr
  cases r with
  | ok a => exact hok a
  | error f =>
    rw [hfault]
    exact ite (fun _ => hy) fun hfound => fail (hr.resolve_left hfound)

section

variable (hclass : env.transport.Classifies)
include hclass

/-- A lookup stops with a reply. -/
theorem lookup (k : Dns.Kind) (owner : k.Owner) :
    EndsWith Stop.IsReply (fun _ => True) (lookup env k owner) := by
  intro t
  rcases lookup_eq_found env t k owner with ⟨i, hr⟩ | hr <;> rw [hr]
  · trivial
  · cases hfound : env.found t k owner with
    | ok records => trivial
    | error f => exact classes_of_found hclass hfound

theorem resolvesNear (client : Address) (mask4 : BitVec 32) (mask6 : BitVec 128)
    (name : String) :
    EndsWith Stop.IsReply (fun _ => True) (resolvesNear env client mask4 mask6 name) := by
  cases client with
  | v4 a => exact bind (lookup hclass .a name) fun _ _ => pure trivial
  | v6 a => exact bind (lookup hclass .aaaa name) fun _ _ => pure trivial

theorem confirmNames (client : Address) (names : List String) :
    EndsWith Stop.IsReply (fun _ => True) (confirmNames env client names) := by
  induction names with
  | nil => exact pure trivial
  | cons name rest ih =>
    unfold SenderPolicy.confirmNames
    apply bind (attempt (resolvesNear hclass client _ _ name) fun _ => trivial)
    intro r hr
    cases r with
    | ok near =>
      cases near with
      | true => exact bind ih fun _ _ => pure trivial
      | false => exact ih
    | error f => exact ite (fun _ => ih) fun _ => stop hr

theorem confirmedNames (client : Address) :
    EndsWith Stop.IsReply (fun _ => True) (confirmedNames env client) :=
  bind (lookup hclass .ptr client) fun _ _ => confirmNames hclass client _

/-- Whether a name has an address is known, unless the question fails. -/
theorem hasAddress (name : String) :
    EndsWith Stop.IsFailure (fun _ => True) (hasAddress env name) := by
  apply bind (attempt (lookup hclass .a name) fun _ => trivial)
  intro r hr
  cases r with
  | ok records => exact pure trivial
  | error f => exact ite (fun _ => pure trivial) fun hfound => stop (hr.resolve_left hfound)

omit hclass in
/-- A lookup that counts missing answers ends an evaluation with errors only. -/
theorem orVoid {x : Lookup α} (fallback : α) (hx : EndsWith Stop.IsReply (fun _ => True) x) :
    EndsWith Abort.IsError (fun _ => True) (orVoid x fallback) :=
  handle hx (fun _ => pure trivial) (fun _ => rfl) (bind chargeVoid fun _ _ => pure trivial)

/-- The match of mail exchangers ends it with errors only. -/
theorem matchesExchange (client : Address) (mask4 : BitVec 32) (mask6 : BitVec 128)
    (l : List Dns.MailExchange) :
    EndsWith Abort.IsError (fun _ => True) (matchesExchange env client mask4 mask6 l) := by
  induction l with
  | nil => exact pure trivial
  | cons x rest ih =>
    unfold SenderPolicy.matchesExchange
    refine ite (fun _ => ih) fun _ => bind charge fun _ _ => ?_
    refine handle (resolvesNear hclass client mask4 mask6 x.exchange) (fun near => ?_)
      (fun _ => rfl) ih
    cases near with
    | true => exact pure trivial
    | false => exact ih

/-- So does that of the existence of a name. -/
theorem matchesExistence (name : String) :
    EndsWith Abort.IsError (fun _ => True) (matchesExistence env name) := by
  apply bind (ofLookup (hasAddress hclass name) ?_)
  · intro found _
    exact ite (fun _ => pure trivial) fun _ => bind chargeVoid fun _ _ => pure trivial
  · rintro (f | i) hf
    · exact .inl (Fault.verdict_of_isTransient hf)
    · trivial

/-- So does every mechanism. -/
theorem test (m : Mechanism) (name : String) :
    EndsWith Abort.IsError (fun _ => True) (m.test env request name) := by
  cases m with
  | all => exact pure trivial
  | includePolicy target => exact pure trivial
  | ip4 net mask => exact pure trivial
  | ip6 net mask => exact pure trivial
  | a target mask4 mask6 =>
    refine bind charge fun _ _ => ite (fun _ => ?_) fun _ => pure trivial
    exact orVoid false (resolvesNear hclass _ _ _ name)
  | mx target mask4 mask6 =>
    refine bind charge fun _ _ => ite (fun _ => ?_) fun _ => pure trivial
    apply bind (orVoid [] (lookup hclass .mx name))
    intro l _
    exact matchesExchange hclass _ _ _ l
  | ptr target =>
    apply bind charge
    intro _ _
    exact bind (orVoid [] (confirmedNames hclass _)) fun _ _ => pure trivial
  | existsName target =>
    refine bind charge fun _ _ => ite (fun _ => ?_) fun _ => pure trivial
    exact matchesExistence hclass name

/-- A target without a policy is an error, not a missing policy. -/
theorem fetchPolicy (name : String) :
    EndsWith Abort.IsError (fun _ => True) (fetchPolicy env name) := by
  refine ite (fun _ => ?_) fun _ => stop trivial
  intro p
  have hseeks := seeks_lookupPolicy env hclass p.traffic name
  rw [Process.run_bind, Evaluation.run_ofLookup, Lookup.run_attempt]
  rcases hrun : (lookupPolicy env name).run p.traffic with ⟨r, t⟩
  rw [hrun] at hseeks
  dsimp only at hseeks
  cases hseeks with
  | found policy h => trivial
  | missing h => trivial
  | interrupted i => trivial
  | @failed f hf h =>
    -- The reason for an error is passed on as it is, and not taken for a missing policy.
    have hnone : f.verdict ≠ .none := by
      rcases hf with hf | hf <;> rw [hf] <;> decide
    dsimp only [Except.mapError]
    rw [if_neg hnone]
    exact hf

omit hclass in
/-- So does the first part of a step. -/
theorem prepare (m : Machine) :
    EndsWith Abort.IsError (fun _ => True) (m.prepare env request) := by
  unfold Machine.prepare
  split
  · split
    · exact bind charge fun _ _ => quiet (.targetName _ _)
    · exact pure trivial
  · refine bind charge fun _ _ => ite (fun _ => stop (.inr rfl)) fun _ => ?_
    exact quiet (.targetName _ _)
  · exact quiet (.targetNameOr _ _)

/-- So does the second part of a step. -/
theorem conclude (m : Machine) (name : String) :
    EndsWith Abort.IsError (fun _ => True) (m.conclude env request name) := by
  unfold Machine.conclude
  split
  · split
    · exact bind (fetchPolicy hclass name) fun _ _ => pure trivial
    · exact pure trivial
  · exact bind (fetchPolicy hclass name) fun _ _ => pure trivial
  · exact bind (test hclass _ name) fun _ _ => ite (fun _ => pure trivial) fun _ => pure trivial

variable (env request) in
/-- Whatever a step comes upon, it leads on, or it stops with an error. -/
theorem step (m : Machine) :
    EndsWith Abort.IsError (fun _ => True) (m.step env request) := by
  rw [Machine.step_eq_bind]
  exact bind (prepare m) fun name _ => conclude hclass m name

/-- From any state of the machine, a run ends with the verdict of a qualifier, or it stops
with an error. -/
theorem runFrom (m : Machine) :
    EndsWith Abort.IsError (fun finish => ∃ q : Qualifier, finish.verdict = q.verdict)
      (m.runFrom env request) := by
  intro p
  induction m, p using Machine.run_induction env request with
  | step m p ih =>
    have hstep := step env request hclass m p
    have hrest : Process.run (m.runFrom env request) p = _ := Machine.runFrom_eq_bind m p
    rw [hrest, Process.run_bind]
    rcases hrun : (m.step env request).run p with ⟨e | t, p'⟩
    · rw [hrun] at hstep
      exact hstep
    · cases t with
      | next m' => exact ih m' p' hrun
      | done finish => exact Machine.qualifier_of_step hrun

end

end Process.EndsWith

/-! ## Verifications -/

section

variable {env : Environment} {request : Request}

/-- Nothing is to be said of a domain that is not valid, or publishes no policy. -/
def SaysNothing (env : Environment) (domain : String) (t : Traffic) : Prop :=
  DomainName.isValid domain = false ∨ PublishesNoPolicy env domain t

/-- How the evaluation of a request ends, if there is nothing to be said, and if there is. -/
inductive Says (nothing : Prop) : Except Abort Outcome → Prop where
  | invalidDomain (domain : String) : nothing → Says nothing (.ok (.plain .none domain))
  | noPolicy : nothing → Says nothing (.error (.stopped (.fault .notPolicy)))
  | answered {outcome : Outcome} {q : Qualifier} :
      ¬ nothing → outcome.verdict = q.verdict → Says nothing (.ok outcome)
  | failed {e : Abort} : ¬ nothing → e.IsError → Says nothing (.error e)
  | interrupted (i : Interruption) : Says nothing (.error (.stopped (.interrupted i)))

/-- An evaluation that ends with an error or a verdict of a qualifier does not say that there is
no policy. -/
theorem Says.of_endsWith {nothing : Prop} {x : Evaluation Outcome} (h : ¬ nothing)
    (hx : EndsWith Abort.IsError
      (fun outcome => ∃ q : Qualifier, outcome.verdict = q.verdict) x) (p : Progress) :
    Says nothing (x.run p).1 := by
  have hends := hx p
  rcases hrun : (x.run p).1 with e | outcome <;> rw [hrun] at hends
  · exact .failed h hends
  · obtain ⟨q, hq⟩ := hends
    exact .answered h hq

/-- Once a policy is found, its evaluation gives the verdict of a qualifier or an error. -/
theorem Process.EndsWith.evaluation (hclass : env.transport.Classifies) (policy : Policy) :
    EndsWith Abort.IsError (fun outcome => ∃ q : Qualifier, outcome.verdict = q.verdict)
      (do
        let finish ← Machine.evaluate env request policy request.domain
        let explanation ← Evaluation.ofLookup (explainFinish env request finish)
        return ⟨finish.verdict, request.domain, explanation⟩ : Evaluation Outcome) := by
  apply bind (runFrom hclass _)
  rintro finish ⟨q, hq⟩
  exact bind (quiet (.explainFinish finish)) fun _ _ => pure ⟨q, hq⟩

variable (env request) in
/-- The evaluation of a request says nothing exactly if there is nothing to be said. -/
theorem says_evaluateRequest (hclass : env.transport.Classifies) (p : Progress) :
    Says (SaysNothing env request.domain p.traffic) ((evaluateRequest env request).run p).1 := by
  unfold evaluateRequest SaysNothing
  split
  next hvalid =>
    have hseeks := seeks_lookupPolicy env hclass p.traffic request.domain
    rw [Process.run_bind, Evaluation.run_ofLookup, hvalid]
    simp only [Bool.true_eq_false, false_or]
    rcases hrun : (lookupPolicy env request.domain).run p.traffic with ⟨r, t⟩
    rw [hrun] at hseeks
    generalize PublishesNoPolicy env request.domain p.traffic = missing at hseeks
    dsimp only at hseeks
    cases hseeks with
    | missing h => exact .noPolicy h
    | failed hf h => exact .failed h hf
    | interrupted i => exact .interrupted i
    | found policy h =>
      exact .of_endsWith h (.evaluation hclass policy) _
  next hvalid => exact .invalidDomain _ (.inl (by simpa using hvalid))

/-- So a verdict says nothing exactly if there is nothing to be said, and it is never
invalid. -/
theorem Says.verdict_iff {nothing : Prop} {r : Except Abort Outcome} {outcome : Outcome}
    (h : Says nothing r) (hsettle : settleOutcome request r = .ok outcome) :
    (outcome.verdict = .none ↔ nothing) ∧ outcome.verdict ≠ .invalid := by
  cases h with
  | invalidDomain domain h =>
    cases hsettle
    exact ⟨iff_of_true rfl h, by simp [Outcome.plain]⟩
  | noPolicy h =>
    cases hsettle
    exact ⟨iff_of_true rfl h, by simp [Outcome.plain, Fault.verdict]⟩
  | @answered _ q h hverdict =>
    cases hsettle
    rw [hverdict]
    cases q <;> simp [Qualifier.verdict, h]
  | @failed e h herror =>
    rcases e with (f | i) | _ <;> cases hsettle
    · rcases herror with hf | hf <;> simp [Outcome.plain, hf, h]
    · simp [Outcome.plain, h]
  | interrupted i => cases hsettle

variable (env request) in
/-- Of a domain that is not valid nothing is said, and nothing is asked. -/
theorem run_verify_of_invalid (h : DomainName.isValid request.domain = false) (t : Traffic) :
    (verify env request).run t = (.ok (.plain .none request.domain), { t with waited := 0 }) := by
  rw [run_verify, run_checkHost, evaluateRequest, h]
  rfl

/-- A verification says nothing only if there is nothing to be said, and always then if it
ends in time. It is never invalid. -/
theorem verify_verdict_iff (hclass : env.transport.Classifies) (request : Request) (t : Traffic) :
    ∃ outcome t', (verify env request).run t = (.ok outcome, t') ∧ outcome.verdict ≠ .invalid ∧
      (outcome.verdict = .none → SaysNothing env.timed request.domain { t with waited := 0 }) ∧
      ((∀ i, ((checkWithin env none request).run t).1 ≠ .error i) →
        SaysNothing env.timed request.domain { t with waited := 0 } → outcome.verdict = .none) := by
  have hsays := says_evaluateRequest env.timed request hclass
    (.start env.timed { t with waited := 0 })
  rw [run_verify, run_checkWithin, run_checkHost]
  generalize (evaluateRequest env.timed request).run (.start env.timed { t with waited := 0 }) = s
    at hsays ⊢
  obtain ⟨r, p⟩ := s
  cases hsettle : settleOutcome request r with
  | error i =>
    refine ⟨_, _, rfl, ?_, fun h => ?_, fun h => absurd rfl (h i)⟩
    · simp [Outcome.plain]
    · cases h
  | ok outcome =>
    obtain ⟨hiff, hinvalid⟩ := hsays.verdict_iff hsettle
    exact ⟨outcome, _, rfl, hinvalid, hiff.1, fun _ => hiff.2⟩

end

/-- What it means that a verification says nothing, or is invalid. It says nothing of a
domain that is not valid, and asks nothing then. If it ends in time, it says nothing of
another domain exactly if that publishes no policy; and once a policy is found, nothing
that is missing later has that effect. Only a request in texts may be invalid: it is so
exactly if it cannot be read, and then nothing is asked. -/
theorem verify_none_iff (env : Environment) (t : Traffic) (hclass : env.transport.Classifies) :
    (∀ request, ∃ outcome t', (verify env request).run t = (.ok outcome, t') ∧
      outcome.verdict ≠ .invalid ∧
      (DomainName.isValid request.domain = false → outcome.verdict = .none ∧ t'.log = t.log) ∧
      ((∀ i, ((checkWithin env none request).run t).1 ≠ .error i) →
        (outcome.verdict = .none ↔ DomainName.isValid request.domain = false ∨
          PublishesNoPolicy env.timed request.domain { t with waited := 0 })) ∧
      ∀ policy t₁, DomainName.isValid request.domain = true →
        (lookupPolicy env.timed request.domain).run { t with waited := 0 } = (.ok policy, t₁) →
        outcome.verdict ≠ .none) ∧
    ∀ domain client sender helo, ∃ outcome t',
      (verifyText env domain client sender helo).run t = (.ok outcome, t') ∧
      (outcome.verdict = .invalid ↔ ∃ f, Request.parse client domain helo sender = .error f) ∧
      (outcome.verdict = .invalid → t' = t) := by
  constructor
  · intro request
    obtain ⟨outcome, t', hrun, hinvalid, hnone, hnothing⟩ := verify_verdict_iff hclass request t
    refine ⟨outcome, t', hrun, hinvalid, fun hdomain => ?_, fun hdeadline => ?_,
      fun policy t₁ hdomain hpolicy h => ?_⟩
    · rw [run_verify_of_invalid env request hdomain] at hrun
      cases hrun
      exact ⟨rfl, rfl⟩
    · exact ⟨hnone, hnothing hdeadline⟩
    · have hseeks := seeks_lookupPolicy env.timed hclass { t with waited := 0 }
        request.domain
      rw [hpolicy] at hseeks
      cases hseeks with
      | found _ hpublishes =>
        rcases hnone h with hvalid | hmissing
        · rw [hdomain] at hvalid
          cases hvalid
        · exact hpublishes hmissing
  · intro domain client sender helo
    unfold verifyText
    cases hparse : Request.parse client domain helo sender with
    | ok request =>
      obtain ⟨outcome, t', hrun, hinvalid, -⟩ := verify_verdict_iff hclass request t
      refine ⟨outcome, t', hrun, ⟨fun h => absurd h hinvalid, ?_⟩, fun h => absurd h hinvalid⟩
      rintro ⟨f, h⟩
      cases h
    | error f => exact ⟨_, t, rfl, ⟨fun _ => ⟨f, rfl⟩, fun _ => rfl⟩, fun _ => rfl⟩

/-- An environment in which the first question finds a policy with an inclusion, and
nothing else exists. -/
def strandedEnvironment : Environment where
  transport history q :=
    match history, q with
    | [], ⟨.txt, _⟩ => ⟨.ok ⟨[Octets.ofAscii "v=spf1 include:example.org -all".toList], 300⟩, 20⟩
    | _, _ => ⟨.error (.notFound .nameError), 20⟩
  settings := .standard
  clock _ := 0
  timestamp := 0
  alarm := .silent

/-- An inclusion of a name that does not exist is no reason to say nothing. -/
theorem verify_none_iff_stranded :
    let request : Request := .forHelo (.v4 ⟨0xC0000201⟩) "example.com"
    let t : Traffic := .start (.ofCapacity 16)
    strandedEnvironment.transport.Classifies ∧ DomainName.isValid request.domain = true ∧
      (∀ i, ((checkWithin strandedEnvironment none request).run t).1 ≠ .error i) ∧
      ∃ outcome t', (verify strandedEnvironment request).run t = (.ok outcome, t') ∧
        outcome.verdict ≠ .invalid ∧ outcome.verdict ≠ .none ∧
        ¬ PublishesNoPolicy strandedEnvironment.timed request.domain { t with waited := 0 } := by
  intro request t
  have hclass : strandedEnvironment.transport.Classifies := by
    intro history q f h
    unfold strandedEnvironment at h
    dsimp only at h
    split at h <;> cases h
    exact .inl rfl
  have hvalid : DomainName.isValid request.domain = true := by decide +kernel
  have hcheck : ((checkWithin strandedEnvironment none request).run t).1 =
      .ok (.plain .permError "example.com") := by
    rw [run_checkWithin, run_checkHost, Recursive.evaluateRequest_eq_requestBy]
    decide +kernel
  have hdeadline : ∀ i, ((checkWithin strandedEnvironment none request).run t).1 ≠ .error i := by
    intro i h
    rw [hcheck] at h
    cases h
  have hpolicy : ∃ policy t₁, (lookupPolicy strandedEnvironment.timed request.domain).run
      { t with waited := 0 } = (.ok policy, t₁) := ⟨_, _, rfl⟩
  obtain ⟨policy, t₁, hpolicy⟩ := hpolicy
  obtain ⟨outcome, t', hrun, hinvalid, -, hiff, hfound⟩ :=
    (verify_none_iff strandedEnvironment t hclass).1 request
  have hnone : outcome.verdict ≠ .none := hfound policy t₁ hvalid hpolicy
  exact ⟨hclass, hvalid, hdeadline, outcome, t', hrun, hinvalid, hnone,
    fun h => hnone ((hiff hdeadline).2 (.inr h))⟩

end SenderPolicy
