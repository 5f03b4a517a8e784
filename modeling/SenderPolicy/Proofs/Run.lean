import SenderPolicy.Verification

/-!
# Runs

A run makes steps until one of them ends it.

Main definitions:

- `settleOutcome`: the outcome of a request after the end of its evaluation;
- `Machine.onward`: what follows a step;
- `Machine.Move`: what a step can do;
- `Environment.timed`: the environment of a verification;
- `Environment.fault?`: the fault with which a question is answered;
- `Stop.IsMissing`: the reasons to stop that say that there is no answer.

Main results:

- `run_checkHost`, `run_verify`: the check of a host is the evaluation of its
  request, and a verification is that check with a deadline;
- `outcomeFrom_verify`: the outcome of a verification from the end of its evaluation;
- `run_ask`, `run_lookup`: what asking a question and looking something up come to;
- `Machine.runFrom_eq_bind`: a run is a step and what follows it;
- `Machine.run_induction`: what each step leads back to holds of every run;
- `Machine.move_of_step`: a step does nothing else;
- `Machine.qualifier_of_step`: the verdict on a policy is that of a qualifier.
-/

namespace SenderPolicy

/-- The outcome of a request after the end of its evaluation. An interruption
leaves it without one. -/
def settleOutcome (request : Request) : Except Abort Outcome → Except Interruption Outcome
  | .ok outcome => .ok outcome
  | .error .noPolicy => .ok (.plain .permError request.domain)
  | .error (.stopped (.fault f)) => .ok (.plain f.verdict request.domain)
  | .error (.stopped (.interrupted i)) => .error i

/-- The check of a host is the evaluation of its request. -/
theorem run_checkHost (env : Environment) (request : Request) (t : Traffic) :
    (checkHost env request).run t =
      (settleOutcome request ((evaluateRequest env request).run (.start env t)).1,
        ((evaluateRequest env request).run (.start env t)).2.traffic) := by
  change checkHost env request t = _
  unfold checkHost
  rcases (evaluateRequest env request).run (.start env t) with ⟨((f | i) | _) | outcome, p⟩ <;> rfl

/-- The environment of a verification, whose alarm rings at the deadline. -/
def Environment.timed (env : Environment) : Environment :=
  { env with alarm := ⟨some env.settings.evaluationTimeout, none⟩ }

/-- A check with a deadline is the check of a host from the start of the time. -/
theorem run_checkWithin (env : Environment) (request : Request) (t : Traffic) :
    (checkWithin env none request).run t =
      (checkHost env.timed request).run { t with waited := 0 } := by
  have hsilent : env.timed.alarm.ringing 0 = none := by
    simp [Environment.timed, Alarm.ringing, Alarm.isCalledOff, Alarm.isOver]
  unfold checkWithin
  rw [Process.run_bind, Process.run_update]
  simp only [Environment.timed] at hsilent ⊢
  rw [hsilent]

/-- A verification is the check of a host, and a temporary error if the deadline has
passed. -/
theorem run_verify (env : Environment) (request : Request) (t : Traffic) :
    (verify env request).run t =
      match (checkHost env.timed request).run { t with waited := 0 } with
      | (.ok outcome, t') => (.ok outcome, t')
      | (.error _, t') => (.ok (.plain .tempError request.domain), t') := by
  rw [← run_checkWithin]
  rfl

/-- What a verification that starts with given traffic comes to. -/
def outcomeFrom (t : Traffic) (x : Verification Outcome) : Outcome :=
  match x.run t with
  | (.ok outcome, _) => outcome
  | (.error e, _) => nomatch e

/-- The verdict on a request whose evaluation ends early. -/
def Abort.verdict : Abort → Verdict
  | .noPolicy => .permError
  | .stopped (.fault f) => f.verdict
  | .stopped (.interrupted _) => .tempError

/-- The outcome of a verification is that of its evaluation, or the verdict on its end. -/
theorem outcomeFrom_verify (env : Environment) (request : Request) (t : Traffic) :
    outcomeFrom t (verify env request) =
      match ((evaluateRequest env.timed request).run
          (.start env.timed { t with waited := 0 })).1 with
      | .ok outcome => outcome
      | .error e => .plain e.verdict request.domain := by
  unfold outcomeFrom
  rw [run_verify, run_checkHost]
  rcases (evaluateRequest env.timed request).run (.start env.timed { t with waited := 0 }) with
    ⟨((f | i) | _) | outcome, p⟩ <;> rfl

/-- The traffic and the budget with which the evaluation of a verification ends. -/
def progressAtEnd (env : Environment) (request : Request) (t : Traffic) : Progress :=
  ((evaluateRequest env.timed request).run (.start env.timed { t with waited := 0 })).2

/-- A verification ends with the traffic of its evaluation. -/
theorem traffic_verify (env : Environment) (request : Request) (t : Traffic) :
    ((verify env request).run t).2 = (progressAtEnd env request t).traffic := by
  unfold progressAtEnd
  rw [run_verify, run_checkHost]
  rcases (evaluateRequest env.timed request).run (.start env.timed { t with waited := 0 }) with
    ⟨((f | i) | _) | outcome, p⟩ <;> rfl

/-! ## Questions -/

/-- The fault with which a question is answered, if it is, after the questions asked
before. A reply that takes too long is a fault, and so is one without records. -/
def Environment.fault? (env : Environment) (history : List Dns.Question) (q : Dns.Question) :
    Option Fault :=
  let reply := env.transport history q
  if env.settings.queryTimeout < reply.delay then some .timedOut
  else
    match reply.outcome with
    | .error f => some f
    | .ok answer => if answer.records.isEmpty then some (.notFound .noError) else none

/-- Without a fault there is an answer. -/
theorem Environment.outcome_of_fault? {env : Environment} {history : List Dns.Question}
    {q : Dns.Question} (h : env.fault? history q = none) :
    ∃ answer, (env.transport history q).outcome = .ok answer := by
  unfold fault? at h
  cases houtcome : (env.transport history q).outcome with
  | ok answer => exact ⟨answer, rfl⟩
  | error f =>
    dsimp only at h
    rw [houtcome] at h
    split at h <;> cases h

/-- A pause rings if the waiting reaches an alarm, and time passes either way. -/
theorem run_pause (alarm : Alarm) (time : Nat) (t : Traffic) :
    (pause alarm time).run t =
      (match alarm.ringing (t.waited + time) with
        | some i => .error (.interrupted i)
        | none => .ok (), { t with waited := t.waited + time }) := by
  simp only [Process.run, pause]
  cases alarm.ringing (t.waited + time) <;> rfl

/-- Asking adds the question to the log. It comes to an interruption of the waiting, or
to the fault with which the question is answered, or to the answer. -/
theorem run_ask (env : Environment) (q : Dns.Question) (t : Traffic) :
    (ask env q).run t =
      let reply := env.transport t.log q
      let waited := t.waited + min reply.delay env.settings.queryTimeout
      (match env.alarm.ringing waited, env.fault? t.log q with
        | some i, _ => .error (.interrupted i)
        | none, some f => .error (.fault f)
        | none, none => reply.outcome.mapError .fault,
        { t with log := q :: t.log, waited := waited }) := by
  unfold ask Environment.fault?
  simp only [Process.run_bind, Process.run_state, Process.run_update, run_pause]
  cases env.alarm.ringing _ with
  | some i => rfl
  | none =>
    dsimp only
    split
    · rfl
    · rcases (env.transport t.log q).outcome with f | answer
      · rfl
      · simp only [Lookup.ofExcept, Process.run_bind, Process.run_pure]
        split <;> rfl

/-- A lookup reads the clock and the cache. Only if nothing that still holds is found
there, it asks, and keeps the answer. -/
theorem run_lookup (env : Environment) (k : Dns.Kind) (owner : k.Owner) (t : Traffic) :
    (lookup env k owner).run t =
      let found := (t.caches.store k).get (env.clock t.readings) (k.qualify owner)
      let t' := { t with readings := t.readings + 1, caches := t.caches.setStore k found.2 }
      match found.1 with
      | some records => (.ok records, t')
      | none => (do
          let answer ← ask env ⟨k, k.qualify owner⟩
          keep k (k.qualify owner) answer
          return answer.records : Lookup (List k.Datum)).run t' := by
  unfold lookup
  rw [Process.run_bind]
  dsimp only [fromCache, Process.run]
  cases ((t.caches.store k).get (env.clock t.readings) (k.qualify owner)).1 <;> rfl

/-! ## Lookups in evaluations -/

/-- A reason to stop that says that there is no answer. -/
def Stop.IsMissing (e : Stop) : Prop := ∃ code, e = .fault (.notFound code)

/-- Of the faults only a missing answer says that there is none. -/
theorem Stop.isMissing_fault_iff {f : Fault} : (Stop.fault f).IsMissing ↔ f.isNotFound = true := by
  unfold IsMissing
  cases f <;> simp [Fault.isNotFound]

theorem Stop.not_isMissing_interrupted (i : Interruption) : ¬ (Stop.interrupted i).IsMissing := by
  rintro ⟨code, h⟩
  cases h

/-- Handling a fault changes nothing else. -/
theorem Lookup.run_attempt {α : Type} (x : Lookup α) (t : Traffic) :
    x.attempt.run t = match x.run t with
      | (.ok a, t') => (.ok (.ok a), t')
      | (.error (.fault f), t') => (.ok (.error f), t')
      | (.error (.interrupted i), t') => (.error (.interrupted i), t') :=
  rfl

/-- A lookup as part of an evaluation changes the traffic only. -/
theorem Evaluation.run_ofLookup {α : Type} (x : Lookup α) (p : Progress) :
    (ofLookup x).run p = ((x.run p.traffic).1.mapError .stopped,
      { p with traffic := (x.run p.traffic).2 }) := by
  simp only [ofLookup, Process.run_within]
  rcases x.run p.traffic with ⟨e | a, t⟩ <;> rfl

/-- Lookups that follow one another do so as part of an evaluation, too. -/
theorem Evaluation.ofLookup_bind {α β : Type} (x : Lookup α) (f : α → Lookup β) :
    ofLookup (x >>= f) = ofLookup x >>= fun a => ofLookup (f a) := by
  apply Process.ext_run
  intro p
  simp only [run_ofLookup, Process.run_bind]
  rcases x.run p.traffic with ⟨e | a, t⟩ <;> rfl

/-- Lookups do not touch the budget. -/
theorem Evaluation.budget_ofLookup {α : Type} (x : Lookup α) (p : Progress) :
    ((ofLookup x).run p).2.budget = p.budget := by
  rw [run_ofLookup]

/-- Fetching a policy does not touch the budget. -/
theorem budget_fetchPolicy (env : Environment) (target : String) (p : Progress) :
    ((fetchPolicy env target).run p).2.budget = p.budget := by
  unfold fetchPolicy
  split
  · rw [Process.run_bind, Evaluation.run_ofLookup, Lookup.run_attempt]
    rcases (lookupPolicy env target).run p.traffic with ⟨(f | i) | policy, t⟩
    · dsimp only [Except.mapError]
      split <;> rfl
    · rfl
    · rfl
  · rfl

/-- A policy that is fetched is found by its lookup. -/
theorem lookupPolicy_of_fetchPolicy {env : Environment} {name : String} {policy : Policy}
    {p p' : Progress} (h : (fetchPolicy env name).run p = (.ok policy, p')) :
    (lookupPolicy env name).run p.traffic = (.ok policy, p'.traffic) := by
  unfold fetchPolicy at h
  split at h
  · rw [Process.run_bind, Evaluation.run_ofLookup, Lookup.run_attempt] at h
    rcases hfound : (lookupPolicy env name).run p.traffic with ⟨(f | i) | found, t⟩ <;>
      rw [hfound] at h <;> dsimp only [Except.mapError] at h
    · split at h <;> cases h
    · cases h
    · cases h
      rfl
  · cases h

namespace Process

/-- A process that gives its value is one that gives a value, and then another. -/
theorem run_bind_eq_ok {σ ε α β : Type} {x : Process σ ε α} {f : α → Process σ ε β} {s s' : σ}
    {b : β} (h : (x >>= f).run s = (.ok b, s')) :
    ∃ a t, x.run s = (.ok a, t) ∧ (f a).run t = (.ok b, s') := by
  rw [Process.run_bind] at h
  rcases hx : x.run s with ⟨e | a, t⟩
  · simp [hx] at h
  · exact ⟨a, t, rfl, by simpa [hx] using h⟩

end Process

namespace Machine

variable (env : Environment) (request : Request)

/-- What follows a step: the rest of the run, if there is one. -/
def onward : Transition → Evaluation Finish
  | .next m => m.runFrom env request
  | .done finish => pure finish

variable {env request}

/-- A run is a step and what follows it. -/
theorem runFrom_eq_bind (m : Machine) (p : Progress) :
    m.runFrom env request p = (m.step env request >>= onward env request).run p := by
  rw [runFrom, Process.run_bind]
  split
  next m' p' hstep => rw [hstep]; rfl
  next f p' hstep => rw [hstep]; rfl
  next e p' hstep => rw [hstep]

variable (env request) in
/-- To prove something of the runs from every state, it is enough to prove it of
each state from whatever its step leads to. -/
theorem run_induction {motive : Machine → Progress → Prop}
    (step : ∀ m p,
      (∀ m' p', (m.step env request).run p = (.ok (.next m'), p') → motive m' p') → motive m p)
    (m : Machine) (p : Progress) : motive m p := by
  induction m, p using runFrom.induct env request with
  | case1 m p m' p' hstep ih =>
    apply step m p
    intro m'' p'' h
    obtain ⟨rfl, rfl⟩ : m' = m'' ∧ p' = p'' := by simpa [hstep] using h
    exact ih
  | case2 m p f p' hstep =>
    exact step m p fun m'' p'' h => by simp [hstep] at h
  | case3 m p e p' hstep =>
    exact step m p fun m'' p'' h => by simp [hstep] at h

/-! ## Moves -/

variable (env request) in
/-- Steps follow one another for so long only. -/
theorem wellFounded_steps : WellFounded fun c' c : Machine × Progress =>
    (c.1.step env request).run c.2 = (.ok (.next c'.1), c'.2) := by
  refine Subrelation.wf (fun h => step_decreases h) (InvImage.wf
    (fun c : Machine × Progress => (c.2.budget.remaining, c.1.weight)) ?_)
  exact (Prod.lex Nat.lt_wfRel Nat.lt_wfRel).wf

/-- What a step can do, and what that takes from the budget. -/
inductive Move (env : Environment) (m : Machine) (p : Progress) : Transition → Progress → Prop where
  | included {qualifier : Qualifier} {target : MacroString} {rest : List Directive}
      {policy : Policy} {name : String} {p' : Progress} :
      m.todo = ⟨qualifier, .includePolicy target⟩ :: rest →
      m.stack.length < env.settings.maxIncludeDepth.toNat →
      p'.budget.remaining < p.budget.remaining →
      Move env m p (.next (enter policy name (⟨m.policy, m.domain, qualifier, rest⟩ :: m.stack))) p'
  | redirected {target : MacroString} {policy : Policy} {name : String} {p' : Progress} :
      m.todo = [] → m.policy.redirect? = some target →
      p'.budget.remaining < p.budget.remaining →
      Move env m p (.next (enter policy name m.stack)) p'
  | skipped {qualifier : Qualifier} {mechanism : Mechanism} {rest : List Directive}
      {p' : Progress} :
      m.todo = ⟨qualifier, mechanism⟩ :: rest → (∀ target, mechanism ≠ .includePolicy target) →
      p'.budget.remaining ≤ p.budget.remaining →
      Move env m p (.next { m with todo := rest }) p'
  | matched {qualifier : Qualifier} {mechanism : Mechanism} {rest : List Directive}
      {p' : Progress} :
      m.todo = ⟨qualifier, mechanism⟩ :: rest → (∀ target, mechanism ≠ .includePolicy target) →
      p'.budget.remaining ≤ p.budget.remaining →
      Move env m p (leave qualifier.verdict m.policy m.domain m.stack) p'
  | ended :
      m.todo = [] → m.policy.redirect? = none →
      Move env m p (leave .neutral m.policy m.domain m.stack) p

/-- A followed inclusion suspends the policy at hand. -/
theorem of_suspend {m : Machine} {qualifier : Qualifier} {target : MacroString}
    {rest : List Directive} {p p' : Progress} {t : Transition}
    (h : (m.suspend env request qualifier target rest).run p = (.ok t, p')) :
    m.stack.length < env.settings.maxIncludeDepth.toNat ∧
      p'.budget.remaining < p.budget.remaining ∧
      ∃ policy name,
        t = .next (enter policy name (⟨m.policy, m.domain, qualifier, rest⟩ :: m.stack)) := by
  have hlt := remaining_of_charge (.ite (.fail _) (.bind (.ofLookup _) fun _ =>
    .bind (thrifty_fetchPolicy _ _) fun _ => .pure _)) h
  obtain ⟨_, q, _, h⟩ := Process.run_bind_eq_ok h
  split at h
  · cases h
  next hdepth =>
    obtain ⟨name, _, _, h⟩ := Process.run_bind_eq_ok h
    obtain ⟨policy, _, _, h⟩ := Process.run_bind_eq_ok h
    cases h
    exact ⟨by omega, hlt, policy, name, rfl⟩

/-- A followed redirection replaces the policy at hand. -/
theorem of_redirect {m : Machine} {target : MacroString} {p p' : Progress} {t : Transition}
    (h : (m.redirect env request target).run p = (.ok t, p')) :
    p'.budget.remaining < p.budget.remaining ∧
      ∃ policy name, t = .next (enter policy name m.stack) := by
  have hlt := remaining_of_charge (.bind (.ofLookup _) fun _ =>
    .bind (thrifty_fetchPolicy _ _) fun _ => .pure _) h
  obtain ⟨_, q, _, h⟩ := Process.run_bind_eq_ok h
  obtain ⟨name, _, _, h⟩ := Process.run_bind_eq_ok h
  obtain ⟨policy, _, _, h⟩ := Process.run_bind_eq_ok h
  cases h
  exact ⟨hlt, policy, name, rfl⟩

/-- A step that leads on, or ends the run with a verdict, is one of the moves. -/
theorem move_of_step {m : Machine} {p p' : Progress} {t : Transition}
    (h : (m.step env request).run p = (.ok t, p')) : Move env m p t p' := by
  unfold step at h
  split at h
  next htodo =>
    split at h
    next target hredirect =>
      obtain ⟨hlt, policy, name, rfl⟩ := of_redirect h
      exact .redirected htodo hredirect hlt
    next hredirect =>
      cases h
      exact .ended htodo hredirect
  next qualifier target rest htodo =>
    obtain ⟨hdepth, hlt, policy, name, rfl⟩ := of_suspend h
    exact .included htodo hdepth hlt
  next qualifier mechanism rest hother htodo =>
    obtain ⟨b, q, hmatch, h⟩ := Process.run_bind_eq_ok h
    have hle := mechanism.thrifty_matches env request m.domain p
    rw [hmatch] at hle
    have hm : ∀ target, mechanism ≠ .includePolicy target := fun target hmech =>
      hother target (by rw [hmech])
    cases b with
    | true =>
      cases h
      exact .matched htodo hm hle
    | false =>
      cases h
      exact .skipped htodo hm hle

/-- Leaving policies leads back into a suspended one, unless all are left. -/
theorem leave_eq_next {v : Verdict} {policy : Policy} {domain : String} {stack : List Frame}
    {m : Machine} (h : leave v policy domain stack = .next m) :
    ∃ popped f rest, stack = popped ++ f :: rest ∧ m = ⟨f.policy, f.domain, f.rest, rest⟩ := by
  induction stack generalizing v policy domain with
  | nil => simp [leave] at h
  | cons f stack ih =>
    unfold leave at h
    split at h
    · obtain ⟨popped, f', rest, rfl, rfl⟩ := ih h
      exact ⟨f :: popped, f', rest, rfl, rfl⟩
    · cases h
      exact ⟨[], f, stack, rfl, rfl⟩

/-- Leaving policies from the verdict of a qualifier gives that of a qualifier. -/
theorem qualifier_of_leave {q : Qualifier} {policy : Policy} {domain : String}
    {stack : List Frame} {finish : Finish}
    (h : leave q.verdict policy domain stack = .done finish) :
    ∃ q' : Qualifier, finish.verdict = q'.verdict := by
  induction stack generalizing q policy domain with
  | nil =>
    cases h
    exact ⟨q, rfl⟩
  | cons f stack ih =>
    unfold leave at h
    split at h
    · exact ih h
    · cases h

/-- A step that ends the run gives the verdict of a qualifier. -/
theorem qualifier_of_step {m : Machine} {p p' : Progress} {finish : Finish}
    (h : (m.step env request).run p = (.ok (.done finish), p')) :
    ∃ q : Qualifier, finish.verdict = q.verdict := by
  have hmove := move_of_step h
  generalize ht : Transition.done finish = t at hmove
  cases hmove with
  | included => cases ht
  | redirected => cases ht
  | skipped => cases ht
  | matched => exact qualifier_of_leave ht.symm
  | ended => exact qualifier_of_leave (q := .neutral) ht.symm

end Machine

end SenderPolicy
