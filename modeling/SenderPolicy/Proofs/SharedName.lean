import Mathlib.Data.List.DropRight
import SenderPolicy.Proofs.ClientNames
import SenderPolicy.Proofs.Journal

/-!
# A client name that is kept

An evaluation may keep the name of the client from one macro string to the next. It looks
for the name, and stores it, just before it expands a macro string that inserts it, and
each expansion takes the name that is stored, whatever put it there. Inclusions and
redirections leave the stored name as it is.

The evaluation also keeps, apart from its own account of them, which policies it has fetched for
which domains and when, as long as they are at hand or suspended.

Main definitions:

- `Visit`, `Use`, `Memory`: a policy that was fetched, an expansion, and what an evaluation keeps;
- `visitsAfter`: the policies that are visited after a step;
- `Keeping.bindingsFor`: the properties for a macro string, with the stored name;
- `Keeping.prepare`, `Keeping.step`, `Keeping.runFrom`: the name for a term, a step and a run;
- `Keeping.evaluateRequest`, `Keeping.checkHost`: whole evaluations.

Main results:

- `Keeping.run_bindingsFor`: what is kept of an expansion;
- `Keeping.observes_expand`: expansions do not depend on what is stored;
- `Keeping.observes_step`, `Keeping.observes_checkHost`: the memory changes nothing, whatever
  is stored at the start.
-/

namespace SenderPolicy

variable {α β : Type}

/-! ## What is kept -/

/-- A policy that was fetched for a domain, with the traffic before and after. -/
structure Visit where
  policy : Policy
  domain : String
  before : Traffic
  after : Traffic

/-- The expansion of a macro string. -/
structure Use where
  /-- The visit during which the macro string was expanded. -/
  visit : Option Visit
  text : MacroString
  /-- The traffic when the macro string was reached. -/
  before : Traffic
  /-- The properties that were inserted, the stored name among them. -/
  inserted : Bindings
  /-- The traffic when the macro string was expanded. -/
  after : Traffic

/-- What an evaluation keeps; the latest comes first. -/
structure Memory where
  /-- The name of the client that was stored last. -/
  stored : String
  /-- The visits to the policy at hand and to those that are suspended. -/
  visits : List Visit
  /-- The macro strings that were reached. -/
  reached : List MacroString
  /-- The macro strings that were expanded. -/
  uses : List Use
  /-- The mechanisms that were evaluated. -/
  evaluated : List Mechanism

namespace Memory

/-- Nothing but a name. -/
def holding (stored : String) : Memory := ⟨stored, [], [], [], []⟩

def reach (m : MacroString) (w : Memory) : Memory := { w with reached := m :: w.reached }

def store (v : String) (w : Memory) : Memory := { w with stored := v }

def use (u : Use) (w : Memory) : Memory := { w with uses := u :: w.uses }

/-- Keep the mechanism at which a machine looks, if there is one. -/
def evaluate (m : Machine) (w : Memory) : Memory :=
  { w with evaluated := (m.todo.head?.map Directive.mechanism).toList ++ w.evaluated }

end Memory

/-- The next term leads to another policy: it is an inclusion or a redirection. -/
def Machine.turns (m : Machine) : Bool :=
  match m.todo with
  | [] => m.policy.redirect?.isSome
  | ⟨_, .includePolicy _⟩ :: _ => true
  | _ => false

/-- The policy at which a step arrives. -/
def Transition.policy : Transition → Policy
  | .next m => m.policy
  | .done f => f.policy

/-- The visits after a step of a machine. A policy that was fetched for the name that the step is
about is visited from then on. Of the earlier visits the outermost stay: those to the policies that
are suspended after the step, and the one to which the machine comes back. -/
def visitsAfter (m : Machine) (name : String) (p : Progress) (r : Except Abort Transition)
    (p' : Progress) (visits : List Visit) : List Visit :=
  match r with
  | .ok t =>
    if m.turns then ⟨t.policy, name, p.traffic, p'.traffic⟩ :: visits.rtake t.depth
    else visits.rtake (t.depth + 1)
  | .error _ => visits

namespace Memory

/-- Visit the policy that was found for the requested domain, and no other. -/
def begin (domain : String) (p : Progress) (r : Except Abort Policy) (p' : Progress)
    (w : Memory) : Memory :=
  { w with visits := r.toOption.toList.map fun policy => ⟨policy, domain, p.traffic, p'.traffic⟩ }

/-- Visit the policies at which a step of a machine arrives. -/
def follow (m : Machine) (name : String) (p : Progress) (r : Except Abort Transition)
    (p' : Progress) (w : Memory) : Memory :=
  { w with visits := visitsAfter m name p r p' w.visits }

end Memory

namespace Process

variable {σ ε ω : Type}

/-- A process that leaves the notes as they are. -/
def beside (x : Process σ ε α) : Process (σ × ω) ε α := x.observe fun _ _ _ w => w

/-- A process beside a memory is observed as it is without. -/
theorem Observes.beside (x : Process σ ε α) : Observes (x.beside : Process (σ × ω) ε α) x :=
  .observe _ x

/-- Beside the notes a process runs as ever, and it does not change them. -/
theorem run_of_beside {x : Process σ ε α} {s s' : σ × ω} {r : Except ε α}
    (h : x.beside.run s = (r, s')) : x.run s.1 = (r, s'.1) ∧ s'.2 = s.2 := by
  cases h
  exact ⟨rfl, rfl⟩

end Process

/-! ## Evaluations that keep the name -/

namespace Keeping

/-- The value or the fault of a lookup. -/
def attempt (x : Process (Traffic × Memory) Stop α) :
    Process (Traffic × Memory) Stop (Except Fault α) := fun s =>
  match x.run s with
  | (.ok a, s') => (.ok (.ok a), s')
  | (.error (.fault f), s') => (.ok (.error f), s')
  | (.error (.interrupted i), s') => (.error (.interrupted i), s')

/-- A lookup as part of an evaluation. -/
def ofLookup (x : Process (Traffic × Memory) Stop α) : Process (Progress × Memory) Abort α :=
  Process.within (fun s => (s.1.traffic, s.2)) (fun s p => ({ p.1 with traffic := s.1 }, s.2))
    .stopped x

section Definitions

variable (env : Environment) (request : Request)

/-- The properties for a macro string in the policy of a domain. The name of the client is looked
for and stored only if it is needed; the one that is stored is taken. -/
def bindingsFor (domain : String) (m : MacroString) :
    Process (Traffic × Memory) Stop Bindings := do
  let before ← Process.state
  Process.update fun s => (s.1, s.2.reach m)
  if m.needsValidatedName then
    let v ← (validatedName env request.client domain).beside
    Process.update fun s => (s.1, s.2.store v)
  let b := bindings env request domain (← Process.state).2.stored
  Process.update fun s => (s.1, s.2.use ⟨s.2.visits.head?, m, before.1, b, s.1⟩)
  return b

/-- The name that a domain-spec stands for in the policy of a domain. -/
def targetName (domain : String) (m : MacroString) : Process (Traffic × Memory) Stop String := do
  return m.toName (← bindingsFor env request domain m)

/-- The name that an optional domain-spec stands for in the policy of a domain. -/
def targetNameOr (domain : String) : Option MacroString → Process (Traffic × Memory) Stop String
  | none => pure domain
  | some m => targetName env request domain m

/-- Expand the explanation to which a domain-spec points in the policy of a domain. -/
def expandExplanation (domain : String) (target : MacroString) :
    Process (Traffic × Memory) Stop (Option String) := do
  let name ← targetName env request domain target
  if DomainName.isValid name then do
    let text ← (lookupExplanation env name).beside
    return some (text.toText (← bindingsFor env request domain text))
  else return none

/-- The explanation to which a domain-spec points in the policy of a domain. -/
def explain (domain : String) (target : MacroString) :
    Process (Traffic × Memory) Stop (Option String) := do
  match ← attempt (expandExplanation env request domain target) with
  | .ok explanation => return explanation
  | .error _ => return none

/-- The explanation of the end of an evaluation. -/
def explainFinish (finish : Finish) : Process (Traffic × Memory) Stop (Option String) :=
  match finish.verdict, finish.policy.explanation? with
  | .fail, some target => explain env request finish.domain target
  | _, _ => pure none

/-- Find the name that the next term is about. -/
def prepare (m : Machine) : Process (Progress × Memory) Abort String :=
  match m.todo with
  | [] =>
    match m.policy.redirect? with
    | some target => do
      charge.beside
      ofLookup (targetName env request m.domain target)
    | none => pure m.domain
  | ⟨_, .includePolicy target⟩ :: _ => do
    charge.beside
    if env.settings.maxIncludeDepth.toNat ≤ m.stack.length then (Evaluation.fail .tooDeep).beside
    else ofLookup (targetName env request m.domain target)
  | ⟨_, mechanism⟩ :: _ =>
    ofLookup (targetNameOr env request m.domain mechanism.target?)

/-- Look at the next directive, or leave the policy if there is none. No more names are
inserted once that of the term is found. -/
def step (m : Machine) : Process (Progress × Memory) Abort Transition := do
  let name ← prepare env request m
  (m.conclude env request name).observe fun p r p' w => (w.evaluate m).follow m name p r p'

end Definitions

/-! ## The memory changes nothing -/

open Process (Observes)

variable {env : Environment} {request : Request}

/-- A macro string that inserts the name takes the one that was looked for just before, and
another takes what happens to be stored. -/
theorem run_bindingsFor (domain : String) (m : MacroString) (t : Traffic) (w : Memory) :
    (bindingsFor env request domain m).run (t, w) =
      if m.needsValidatedName then
        match (validatedName env request.client domain).run t with
        | (.ok v, t') =>
          let b := bindings env request domain v
          (.ok b, (t', ((w.reach m).store v).use ⟨w.visits.head?, m, t, b, t'⟩))
        | (.error e, t') => (.error e, (t', w.reach m))
      else
        let b := bindings env request domain w.stored
        (.ok b, (t, (w.reach m).use ⟨w.visits.head?, m, t, b, t⟩)) := by
  unfold bindingsFor
  rw [Process.run_bind, Process.run_state]
  dsimp only
  rw [Process.run_bind, Process.run_update]
  dsimp only
  by_cases hneeds : m.needsValidatedName = true
  · rw [if_pos hneeds, if_pos hneeds]
    simp only [Process.run_bind, Process.beside, Process.run_observe]
    rcases (validatedName env request.client domain).run t with ⟨e | v, t'⟩ <;> rfl
  · rw [if_neg hneeds, if_neg hneeds]
    rfl

/-- Expansions do not depend on what is stored: a macro string that does not insert the name
stands for the same octets whatever it is. -/
theorem observes_expand (f : Octets → β) (domain : String) (m : MacroString) :
    Observes (do return f (m.expand (← bindingsFor env request domain m)))
      (do return f (m.expand (← SenderPolicy.bindingsFor env request domain m))) := by
  rintro ⟨t, w⟩
  rw [Process.run_bind, Process.run_bind, run_bindingsFor]
  unfold SenderPolicy.bindingsFor
  by_cases hneeds : m.needsValidatedName = true
  · rw [if_pos hneeds, if_pos hneeds, Process.run_bind]
    rcases (validatedName env request.client domain).run t with ⟨e | v, t'⟩ <;> rfl
  · have hinserts : ¬ m.InsertsClientName := by rwa [← MacroString.needsValidatedName_iff]
    have hexpand : m.expand (bindings env request domain w.stored) =
        m.expand (bindings env request domain "") :=
      MacroString.expand_of_not_insertsClientName hinserts (bindings env request domain "") w.stored
    rw [if_neg hneeds, if_neg hneeds]
    dsimp only [Process.run_pure]
    rw [hexpand]
    rfl

/-- The name of a target is the same with a memory. -/
theorem observes_targetName (domain : String) (m : MacroString) :
    Observes (targetName env request domain m) (SenderPolicy.targetName env request domain m) :=
  observes_expand (fun octets => String.ofList (cutToFit MacroString.maxNameSize
    (dropTrailing (· = '.') (Utf8.decodeLossy octets)))) domain m

theorem observes_targetNameOr (domain : String) (m : Option MacroString) :
    Observes (targetNameOr env request domain m)
      (SenderPolicy.targetNameOr env request domain m) := by
  cases m with
  | none => exact .pure domain
  | some m => exact observes_targetName domain m

theorem run_attempt (x : Process (Traffic × Memory) Stop α) (s : Traffic × Memory) :
    (attempt x).run s = match x.run s with
      | (.ok a, s') => (.ok (.ok a), s')
      | (.error (.fault f), s') => (.ok (.error f), s')
      | (.error (.interrupted i), s') => (.error (.interrupted i), s') :=
  rfl

theorem observes_attempt {x : Process (Traffic × Memory) Stop α} {y : Lookup α}
    (h : Observes x y) : Observes (attempt x) y.attempt := by
  intro s
  have hs := h s
  rw [Lookup.run_attempt, ← hs, run_attempt]
  rcases x.run s with ⟨(f | i) | a, s'⟩ <;> rfl

theorem observes_ofLookup {x : Process (Traffic × Memory) Stop α} {y : Lookup α}
    (h : Observes x y) : Observes (ofLookup x) (Evaluation.ofLookup y) := by
  rintro ⟨p, w⟩
  have hs := h (p.traffic, w)
  rw [Evaluation.run_ofLookup, ← hs]
  unfold ofLookup
  rw [Process.run_within]
  rcases x.run (p.traffic, w) with ⟨e | a, s'⟩ <;> rfl

/-- An explanation is the same with a memory. -/
theorem observes_explain (domain : String) (target : MacroString) :
    Observes (explain env request domain target)
      (SenderPolicy.explain env request domain target) := by
  have hexpand : Observes (expandExplanation env request domain target)
      (SenderPolicy.expandExplanation env request domain target) := by
    apply Observes.bind (observes_targetName domain target)
    intro name
    refine .ite (.bind (.beside _) fun text => ?_) (.pure none)
    exact observes_expand (fun octets => some (String.ofList (Utf8.decodeLossy octets))) _ text
  apply Observes.bind (observes_attempt hexpand)
  intro r
  cases r <;> exact .pure _

theorem observes_explainFinish (finish : Finish) :
    Observes (explainFinish env request finish)
      (SenderPolicy.explainFinish env request finish) := by
  obtain ⟨verdict, policy, domain⟩ := finish
  unfold explainFinish SenderPolicy.explainFinish
  dsimp only
  cases verdict with
  | fail =>
    cases policy.explanation? with
    | none => exact .pure none
    | some target => exact observes_explain domain target
  | _ => exact .pure none

/-- What precedes a step is the same with a memory. -/
theorem observes_prepare (m : Machine) :
    Observes (prepare env request m) (m.prepare env request) := by
  obtain ⟨policy, domain, todo, stack⟩ := m
  have htarget : ∀ target, Observes (ofLookup (targetName env request domain target))
      (Evaluation.ofLookup (SenderPolicy.targetName env request domain target)) :=
    fun target => observes_ofLookup (observes_targetName domain target)
  match todo with
  | [] =>
    unfold prepare Machine.prepare
    dsimp only
    cases policy.redirect? with
    | none => exact .pure _
    | some target => exact .bind (.beside _) fun _ => htarget target
  | ⟨qualifier, mechanism⟩ :: rest =>
    cases mechanism with
    | includePolicy target =>
      exact .bind (.beside _) fun _ => .ite (.beside _) (htarget target)
    | _ => exact observes_ofLookup (observes_targetNameOr domain _)

/-- So is the step of the machine. -/
theorem observes_step (m : Machine) : Observes (step env request m) (m.step env request) := by
  rw [Machine.step_eq_bind]
  exact .bind (observes_prepare m) fun name => .observe _ _

/-! ## Runs -/

/-- A step that leads on is one of the machine. -/
theorem step_decreases {m m' : Machine} {s s' : Progress × Memory}
    (h : (step env request m).run s = (.ok (.next m'), s')) : m.Decreases s.1 m' s'.1 := by
  have hstep : Process.forget ((step env request m).run s) = (m.step env request).run s.1 :=
    observes_step m s
  rw [h] at hstep
  exact Machine.step_decreases hstep.symm

variable (env request) in
/-- All steps from a state on. -/
def runFrom (m : Machine) (s : Progress × Memory) : Except Abort Finish × (Progress × Memory) :=
  match _ : (step env request m).run s with
  | (.ok (.next m'), s') => runFrom m' s'
  | (.ok (.done f), s') => (.ok f, s')
  | (.error e, s') => (.error e, s')
termination_by (s.1.budget.remaining, m.weight)
decreasing_by exact step_decreases ‹_›

variable (env request) in
/-- Find and evaluate the policy of the requested domain. -/
def evaluateRequest : Process (Progress × Memory) Abort Outcome :=
  if DomainName.isValid request.domain then do
    let policy ← (Evaluation.ofLookup (lookupPolicy env request.domain)).observe fun p r p' w =>
      w.begin request.domain p r p'
    let finish ← runFrom env request (.enter policy request.domain [])
    let explanation ← ofLookup (explainFinish env request finish)
    return ⟨finish.verdict, request.domain, explanation⟩
  else return .plain .none request.domain

variable (env request) in
/-- The check of a host, from what is kept of earlier ones. -/
def checkHost : Process (Traffic × Memory) Interruption Outcome := fun s =>
  let r := (evaluateRequest env request).run (.start env s.1, s.2)
  (settleOutcome request r.1, (r.2.1.traffic, r.2.2))

/-- A run that remembers is the run of the machine once its memory is forgotten. -/
theorem forget_runFrom (m : Machine) (s : Progress × Memory) :
    Process.forget (runFrom env request m s) = m.runFrom env request s.1 := by
  obtain ⟨p, w⟩ := s
  induction m, p using Machine.run_induction env request generalizing w with
  | step m p ih =>
    have hstep : Process.forget ((step env request m).run (p, w)) = (m.step env request).run p :=
      observes_step m (p, w)
    rw [runFrom, Machine.runFrom_eq_bind, Process.run_bind, ← hstep]
    split
    next m' s' hrun =>
      rw [hrun] at hstep ⊢
      exact ih m' s'.1 hstep.symm s'.2
    next f s' hrun =>
      rw [hrun]
      rfl
    next e s' hrun =>
      rw [hrun]
      rfl

/-- Whatever is stored at the start, the memory does not change an evaluation. -/
theorem observes_evaluateRequest :
    Observes (evaluateRequest env request) (SenderPolicy.evaluateRequest env request) := by
  unfold evaluateRequest SenderPolicy.evaluateRequest
  refine .ite (.bind (.observe _ _) fun policy => ?_) (.pure _)
  have hrun : Observes (runFrom env request (.enter policy request.domain []))
      (Machine.evaluate env request policy request.domain) := forget_runFrom _
  apply Observes.bind hrun
  intro finish
  exact .bind (observes_ofLookup (observes_explainFinish finish)) fun explanation => .pure _

/-- Whatever is stored at the start, the memory does not change the check of a host. -/
theorem observes_checkHost :
    Observes (checkHost env request) (SenderPolicy.checkHost env request) := by
  rintro ⟨t, w⟩
  have h : Process.forget ((evaluateRequest env request).run (.start env t, w)) =
      (SenderPolicy.evaluateRequest env request).run (.start env t) :=
    observes_evaluateRequest (.start env t, w)
  rw [run_checkHost, ← h]
  rfl

end Keeping

end SenderPolicy
