import SenderPolicy.Proofs.Observation

/-!
# Metered evaluations

The budget of an evaluation is read after every charge, after every missing answer that is
counted, and after every step. So there is a reading for each value that the counts take,
within a mechanism, too, together with the number of suspended policies.

Main definitions:

- `Reading`, `Metered`: what is read, and evaluations with readings taken of them;
- `Metered.advance`, `Metered.step`: what a step leads to, and a step, with their readings;
- `meter`, `meteredRequest`: the readings of an evaluation.

Main results:

- `Metered.observes_step`, `forget_meteredRequest`: readings change nothing.
-/

namespace SenderPolicy

variable {α β : Type}

/-! ## Readings -/

/-- The budget at one moment, and the number of policies that are suspended then. -/
structure Reading where
  budget : Budget
  depth : Nat

/-- A process of an evaluation with readings taken of it, the latest first. -/
abbrev Metered (α : Type) := Process (Progress × List Reading) Abort α

namespace Metered

/-- A part of an evaluation, and a reading at a depth when it has ended. -/
def read (depth : Nat) (x : Evaluation α) : Metered α :=
  x.observe fun _ _ p' w => ⟨p'.budget, depth⟩ :: w

/-- A part of an evaluation without readings. -/
def unread (x : Evaluation α) : Metered α := x.observe fun _ _ _ w => w

section Definitions

variable (env : Environment) (request : Request) (depth : Nat)

/-- The value of a lookup, where a missing answer is counted, and read. -/
def orVoid (x : Lookup α) (fallback : α) : Metered α := do
  match ← unread (Evaluation.ofLookup x.attempt) with
  | .ok a => pure a
  | .error f =>
    if f.isNotFound then do
      read depth chargeVoid
      pure fallback
    else unread (Evaluation.fail f)

/-- Whether one of the mail exchangers matches, with the charge of each read. -/
def matchesExchange (client : Address) (mask4 : BitVec 32) (mask6 : BitVec 128) :
    List Dns.MailExchange → Metered Bool
  | [] => pure false
  | x :: rest =>
    if x.exchange.isEmpty then matchesExchange client mask4 mask6 rest
    else do
      read depth charge
      match ← unread (Evaluation.ofLookup
        (resolvesNear env client mask4 mask6 x.exchange).attempt) with
      | .ok true => pure true
      | .ok false => matchesExchange client mask4 mask6 rest
      | .error f =>
        if f.isNotFound then matchesExchange client mask4 mask6 rest
        else unread (Evaluation.fail f)

/-- Whether a name has an address at all, with a missing answer read. -/
def matchesExistence (name : String) : Metered Bool := do
  if ← unread (Evaluation.ofLookup (hasAddress env name)) then pure true
  else do
    read depth chargeVoid
    pure false

/-- Whether a mechanism about a name matches, with all that it counts read. -/
def test (name : String) : Mechanism → Metered Bool
  | .all => pure true
  | .includePolicy _ => pure false
  | .ip4 net mask => pure (request.client.inNetwork4 net mask)
  | .ip6 net mask => pure (request.client.inNetwork6 net mask)
  | .a _ mask4 mask6 => do
    read depth charge
    if DomainName.isValid name then
      orVoid depth (resolvesNear env request.client mask4 mask6 name) false
    else pure false
  | .mx _ mask4 mask6 => do
    read depth charge
    if DomainName.isValid name then do
      let exchanges ← orVoid depth (lookup env .mx name) []
      matchesExchange env depth request.client mask4 mask6 exchanges
    else pure false
  | .ptr _ => do
    read depth charge
    let names ← orVoid depth (confirmedNames env request.client) []
    pure (names.any (DomainName.isWithin (Text.lowerCase name)))
  | .existsName _ => do
    read depth charge
    if DomainName.isValid name then matchesExistence env depth name
    else pure false

/-- Suspend the policy at hand, with the charge read. -/
def suspend (m : Machine) (qualifier : Qualifier) (target : MacroString)
    (rest : List Directive) : Metered Transition := do
  read m.stack.length charge
  if env.settings.maxIncludeDepth.toNat ≤ m.stack.length then unread (Evaluation.fail .tooDeep)
  else
    let name ← unread (Evaluation.ofLookup (targetName env request m.domain target))
    let policy ← unread (fetchPolicy env name)
    return .next (.enter policy name (⟨m.policy, m.domain, qualifier, rest⟩ :: m.stack))

/-- Replace the policy at hand, with the charge read. -/
def redirect (m : Machine) (target : MacroString) : Metered Transition := do
  read m.stack.length charge
  let name ← unread (Evaluation.ofLookup (targetName env request m.domain target))
  let policy ← unread (fetchPolicy env name)
  return .next (.enter policy name m.stack)

/-- What a step leads to, with all that it counts read. -/
def advance (m : Machine) : Metered Transition :=
  match m.todo with
  | [] =>
    match m.policy.redirect? with
    | some target => redirect env request m target
    | none => pure (Machine.leave .neutral m.policy m.domain m.stack)
  | ⟨qualifier, .includePolicy target⟩ :: rest => suspend env request m qualifier target rest
  | ⟨qualifier, mechanism⟩ :: rest => do
    let name ← unread (Evaluation.ofLookup (targetNameOr env request m.domain mechanism.target?))
    if ← test env request m.stack.length name mechanism then
      return Machine.leave qualifier.verdict m.policy m.domain m.stack
    else return .next { m with todo := rest }

/-- A step, with a last reading at the depth to which it leads. -/
def step (m : Machine) : Metered Transition := do
  let t ← advance env request m
  read t.depth (pure t)

end Definitions

/-! ## Readings change nothing -/

open Process (Observes)

variable {env : Environment} {request : Request}

/-- A reading does not change a part of an evaluation. -/
theorem observes_read (depth : Nat) (x : Evaluation α) : Observes (read depth x) x :=
  .observe _ x

theorem observes_unread (x : Evaluation α) : Observes (unread x) x := .observe _ x

theorem observes_orVoid (depth : Nat) (x : Lookup α) (fallback : α) :
    Observes (orVoid depth x fallback) (SenderPolicy.orVoid x fallback) := by
  apply Observes.bind (observes_unread _)
  intro r
  cases r with
  | ok a => exact .pure a
  | error f =>
    exact Observes.ite (.bind (observes_read _ _) fun _ => .pure fallback) (observes_unread _)

theorem observes_matchesExchange (depth : Nat) (client : Address) (mask4 : BitVec 32)
    (mask6 : BitVec 128) (l : List Dns.MailExchange) :
    Observes (matchesExchange env depth client mask4 mask6 l)
      (SenderPolicy.matchesExchange env client mask4 mask6 l) := by
  induction l with
  | nil => exact .pure false
  | cons x rest ih =>
    unfold matchesExchange SenderPolicy.matchesExchange
    refine Observes.ite ih (.bind (observes_read _ _) fun _ => ?_)
    refine .bind (observes_unread _) fun r => ?_
    cases r with
    | ok near =>
      cases near with
      | true => exact .pure true
      | false => exact ih
    | error f => exact Observes.ite ih (observes_unread _)

theorem observes_matchesExistence (depth : Nat) (name : String) :
    Observes (matchesExistence env depth name) (SenderPolicy.matchesExistence env name) := by
  apply Observes.bind (observes_unread _)
  intro found
  exact Observes.ite (.pure true) (.bind (observes_read _ _) fun _ => .pure false)

/-- Readings do not change the test of a mechanism. -/
theorem observes_test (depth : Nat) (name : String) (m : Mechanism) :
    Observes (test env request depth name m) (m.test env request name) := by
  cases m with
  | all => exact .pure true
  | includePolicy target => exact .pure false
  | ip4 net mask => exact .pure _
  | ip6 net mask => exact .pure _
  | a target mask4 mask6 =>
    apply Observes.bind (observes_read _ _)
    intro _
    exact Observes.ite (observes_orVoid _ _ _) (.pure false)
  | mx target mask4 mask6 =>
    apply Observes.bind (observes_read _ _)
    intro _
    refine Observes.ite (.bind (observes_orVoid _ _ _) fun l => ?_) (.pure false)
    exact observes_matchesExchange _ _ _ _ l
  | ptr target =>
    apply Observes.bind (observes_read _ _)
    intro _
    exact .bind (observes_orVoid _ _ _) fun names => .pure _
  | existsName target =>
    apply Observes.bind (observes_read _ _)
    intro _
    exact Observes.ite (observes_matchesExistence _ _) (.pure false)

/-- Nor do they change inclusions. -/
theorem observes_suspend (m : Machine) (qualifier : Qualifier) (target : MacroString)
    (rest : List Directive) :
    Observes (suspend env request m qualifier target rest)
      (m.suspend env request qualifier target rest) := by
  apply Observes.bind (observes_read _ _)
  intro _
  refine Observes.ite (observes_unread _) (.bind (observes_unread _) fun name => ?_)
  exact .bind (observes_unread _) fun policy => .pure _

theorem observes_redirect (m : Machine) (target : MacroString) :
    Observes (redirect env request m target) (m.redirect env request target) := by
  apply Observes.bind (observes_read _ _)
  intro _
  exact .bind (observes_unread _) fun name => .bind (observes_unread _) fun policy => .pure _

/-- Nor what a step leads to. -/
theorem observes_advance (m : Machine) :
    Observes (advance env request m) (m.step env request) := by
  obtain ⟨policy, domain, todo, stack⟩ := m
  match todo with
  | [] =>
    unfold advance Machine.step
    dsimp only
    cases policy.redirect? with
    | none => exact .pure _
    | some target => exact observes_redirect _ _
  | ⟨qualifier, mechanism⟩ :: rest =>
    have hother : Observes
        (do
          let name ← unread (Evaluation.ofLookup
            (targetNameOr env request domain mechanism.target?))
          if ← test env request stack.length name mechanism then
            return Machine.leave qualifier.verdict policy domain stack
          else return .next ⟨policy, domain, rest, stack⟩)
        (do
          if ← mechanism.matches env request domain then
            return Machine.leave qualifier.verdict policy domain stack
          else return .next ⟨policy, domain, rest, stack⟩) := by
      unfold Mechanism.matches
      rw [Process.bind_assoc]
      apply Observes.bind (observes_unread _)
      intro name
      apply Observes.bind (observes_test _ _ _)
      intro b
      exact Observes.ite (.pure _) (.pure _)
    cases mechanism with
    | includePolicy target => exact observes_suspend _ _ _ _
    | _ => exact hother

/-- Readings do not change a step. -/
theorem observes_step (m : Machine) : Observes (step env request m) (m.step env request) := by
  have h : Observes (step env request m) (m.step env request >>= pure) :=
    .bind (observes_advance m) fun t => observes_read _ (pure t)
  rwa [bind_pure] at h

end Metered

/-! ## Readings of an evaluation -/

/-- Note all readings of an evaluation, the latest first. -/
def meter (env : Environment) (request : Request) : Observer (List Reading) where
  found _ _ _ w := w
  step m p _ _ w := ((Metered.step env request m).run (p, w)).2.2
  explained _ _ _ w := w

/-- The evaluation of a request with all its readings, from the one at the start. -/
def meteredRequest (env : Environment) (request : Request) (t : Traffic) :
    Except Abort Outcome × (Progress × List Reading) :=
  (observeRequest env request (meter env request)).run
    (.start env t, [⟨.ofSettings env.settings, 0⟩])

/-- Readings do not change the evaluation of a request. -/
theorem forget_meteredRequest (env : Environment) (request : Request) (t : Traffic) :
    Process.forget (meteredRequest env request t) =
      (evaluateRequest env request).run (.start env t) :=
  observes_observeRequest env request _ _

end SenderPolicy
