import SenderPolicy.Evaluation.Mechanism

/-!
# The evaluation of a policy

A policy is evaluated directive by directive. An inclusion suspends the policy
at hand and evaluates another; only a pass of the other makes the inclusion
match. A redirection takes the place of the policy at hand. The suspended
policies form a stack.

Main definitions:

- `Machine`, `Frame`: the policy at hand, the directives still to be looked at,
  and the suspended policies;
- `Machine.leave`: what a verdict on the policy at hand leads to;
- `Machine.step`, `Machine.runFrom`: one step and all steps.

Main results:

- `Machine.step_decreases`: each step takes from the budget or looks at a
  directive or leaves a policy, so that the steps come to an end.
-/

namespace SenderPolicy

/-- A policy that is suspended at an inclusion. -/
structure Frame where
  policy : Policy
  domain : String
  qualifier : Qualifier
  rest : List Directive

/-- The state of the evaluation of a policy. -/
structure Machine where
  policy : Policy
  domain : String
  /-- Its directives that are still to be looked at. -/
  todo : List Directive
  /-- The suspended policies, the innermost first. -/
  stack : List Frame

/-- The end of the evaluation: a verdict, and the policy on which it was given. -/
structure Finish where
  verdict : Verdict
  policy : Policy
  domain : String

/-- What a step leads to. -/
inductive Transition where
  | next (m : Machine)
  | done (f : Finish)

/-- The policy at a target. A target without one ends the evaluation. -/
def fetchPolicy (env : Environment) (target : String) : Evaluation Policy :=
  if DomainName.isValid target then do
    match ← Evaluation.ofLookup (lookupPolicy env target).attempt with
    | .ok policy => pure policy
    | .error f => if f.verdict = .none then Process.stop .noPolicy else Evaluation.fail f
  else Process.stop .noPolicy

namespace Machine

/-- The machine at the start of a policy. -/
def enter (policy : Policy) (domain : String) (stack : List Frame) : Machine :=
  ⟨policy, domain, policy.directives, stack⟩

/-- What a verdict on the policy at hand leads to. A pass makes the inclusion
match, and its qualifier is the verdict on the policy that includes; any other
verdict lets that policy go on after the inclusion. -/
def leave (v : Verdict) (policy : Policy) (domain : String) : List Frame → Transition
  | [] => .done ⟨v, policy, domain⟩
  | f :: stack =>
    if v = .pass then leave f.qualifier.verdict f.policy f.domain stack
    else .next ⟨f.policy, f.domain, f.rest, stack⟩

/-- Suspend the policy at hand and enter the one that an inclusion names. -/
def suspend (env : Environment) (request : Request) (m : Machine) (qualifier : Qualifier)
    (target : MacroString) (rest : List Directive) : Evaluation Transition := do
  charge
  if env.settings.maxIncludeDepth.toNat ≤ m.stack.length then Evaluation.fail .tooDeep
  else
    let name ← Evaluation.ofLookup (targetName env request m.domain target)
    let policy ← fetchPolicy env name
    return .next (enter policy name (⟨m.policy, m.domain, qualifier, rest⟩ :: m.stack))

/-- Put the policy that a redirection names in the place of the one at hand. -/
def redirect (env : Environment) (request : Request) (m : Machine) (target : MacroString) :
    Evaluation Transition := do
  charge
  let name ← Evaluation.ofLookup (targetName env request m.domain target)
  let policy ← fetchPolicy env name
  return .next (enter policy name m.stack)

/-- Look at the next directive, or leave the policy if there is none. -/
def step (env : Environment) (request : Request) (m : Machine) : Evaluation Transition :=
  match m.todo with
  | [] =>
    match m.policy.redirect? with
    | some target => m.redirect env request target
    | none => pure (leave .neutral m.policy m.domain m.stack)
  | ⟨qualifier, .includePolicy target⟩ :: rest => m.suspend env request qualifier target rest
  | ⟨qualifier, mechanism⟩ :: rest => do
    if ← mechanism.matches env request m.domain then
      return leave qualifier.verdict m.policy m.domain m.stack
    else return .next { m with todo := rest }

/-! ## The end of the evaluation -/

/-- The directives of suspended policies still to be looked at, and the suspended
policies still to be left. -/
def pending : List Frame → Nat
  | [] => 0
  | f :: stack => f.rest.length + 1 + pending stack

@[simp] theorem pending_nil : pending [] = 0 := rfl

@[simp] theorem pending_cons (f : Frame) (stack : List Frame) :
    pending (f :: stack) = f.rest.length + 1 + pending stack := rfl

/-- The directives still to be looked at, those of suspended policies included,
and the suspended policies still to be left. -/
def weight (m : Machine) : Nat := m.todo.length + pending m.stack

/-- Leaving a policy takes from the weight of those that are suspended. -/
theorem weight_of_leave {v : Verdict} {policy : Policy} {domain : String} {stack : List Frame}
    {m : Machine} (h : leave v policy domain stack = .next m) :
    m.weight < pending stack := by
  induction stack generalizing v policy domain with
  | nil => simp [leave] at h
  | cons f stack ih =>
    unfold leave at h
    split at h
    · have := ih h
      simp only [pending_cons]
      omega
    · cases h
      simp only [weight, pending_cons]
      omega

/-- The order in which the evaluation comes down: what is left of the budget
first, the weight second. -/
def Decreases (m : Machine) (p : Progress) (m' : Machine) (p' : Progress) : Prop :=
  Prod.Lex (· < ·) (· < ·) (p'.budget.remaining, m'.weight) (p.budget.remaining, m.weight)

/-- It is enough that the weight is less, if the budget is not more. -/
theorem decreases_of_weight {m m' : Machine} {p p' : Progress}
    (hb : p'.budget.remaining ≤ p.budget.remaining) (hw : m'.weight < m.weight) :
    m.Decreases p m' p' := by
  rcases Nat.lt_or_eq_of_le hb with hlt | heq
  · exact Prod.Lex.left _ _ hlt
  · unfold Decreases
    rw [heq]
    exact Prod.Lex.right _ hw

/-- A process that is charged first leaves less of the budget, if it does not
stop. -/
theorem remaining_of_charge {α : Type} {x : Evaluation α} (hx : Thrifty x) {p p' : Progress}
    {a : α} (h : (do charge; x).run p = (.ok a, p')) :
    p'.budget.remaining < p.budget.remaining := by
  rw [Process.run_bind, run_charge] at h
  cases hc : p.budget.charge with
  | error f => simp [hc] at h
  | ok b =>
    have hb := Budget.remaining_charge hc
    rw [hc] at h
    have hle := hx { p with budget := b }
    change x.run { p with budget := b } = _ at h
    rw [h] at hle
    simp only at hle
    omega

/-- Fetching a policy takes nothing from the budget. -/
theorem thrifty_fetchPolicy (env : Environment) (target : String) :
    Thrifty (fetchPolicy env target) := by
  refine .ite (.bind (.ofLookup _) fun r => ?_) (.stop _)
  cases r with
  | ok policy => exact .pure policy
  | error f => exact .ite (.stop _) (.fail f)

/-- Every step that does not end the evaluation comes down in the order. -/
theorem step_decreases {env : Environment} {request : Request} {m m' : Machine}
    {p p' : Progress} (h : (m.step env request).run p = (.ok (.next m'), p')) :
    m.Decreases p m' p' := by
  unfold step at h
  split at h
  next htodo =>
    split at h
    next target _ =>
      exact Prod.Lex.left _ _ (remaining_of_charge
        (.bind (.ofLookup _) fun _ => .bind (thrifty_fetchPolicy _ _) fun _ => .pure _) h)
    next =>
      simp only [Process.run_pure, Prod.mk.injEq, Except.ok.injEq] at h
      obtain ⟨hl, rfl⟩ := h
      refine decreases_of_weight (Nat.le_refl _) ?_
      have := weight_of_leave hl
      simp only [weight] at this ⊢
      omega
  next qualifier target rest _ =>
    exact Prod.Lex.left _ _ (remaining_of_charge
      (.ite (.fail _) (.bind (.ofLookup _) fun _ => .bind (thrifty_fetchPolicy _ _) fun _ =>
        .pure _)) h)
  next qualifier mechanism rest _ htodo =>
    simp only [Process.run_bind] at h
    have hle := mechanism.thrifty_matches env request m.domain p
    rcases hm : (mechanism.matches env request m.domain).run p with ⟨e | b, q⟩
    · simp [hm] at h
    · rw [hm] at h hle
      simp only at h hle
      have hw : m.weight = rest.length + 1 + pending m.stack := by
        simp [weight, htodo]
      cases b with
      | true =>
        simp only [if_true, Process.run_pure, Prod.mk.injEq, Except.ok.injEq] at h
        obtain ⟨hl, rfl⟩ := h
        refine decreases_of_weight hle ?_
        have := weight_of_leave hl
        omega
      | false =>
        simp only [Bool.false_eq_true, if_false, Process.run_pure, Prod.mk.injEq,
          Except.ok.injEq, Transition.next.injEq] at h
        obtain ⟨rfl, rfl⟩ := h
        refine decreases_of_weight hle ?_
        rw [hw]
        simp only [weight]
        omega

/-- All steps from a state on. -/
def runFrom (env : Environment) (request : Request) (m : Machine) (p : Progress) :
    Except Abort Finish × Progress :=
  match _ : (m.step env request).run p with
  | (.ok (.next m'), p') => m'.runFrom env request p'
  | (.ok (.done f), p') => (.ok f, p')
  | (.error e, p') => (.error e, p')
termination_by (p.budget.remaining, m.weight)
decreasing_by exact step_decreases ‹_›

/-- The evaluation of a policy for its domain. -/
def evaluate (env : Environment) (request : Request) (policy : Policy) (domain : String) :
    Evaluation Finish :=
  (enter policy domain []).runFrom env request

end Machine

end SenderPolicy
