import Mathlib.Order.Nat
import SenderPolicy.Proofs.Run

/-!
# The recursive evaluation

The machine keeps suspended policies on a stack. The evaluation is defined here a
second time, by recursion: an inclusion evaluates the included policy to its end
and then goes on, and a redirection evaluates the other policy instead.

Main definitions:

- `Recursive.walk`: the directives of a policy in order, with an evaluator for the
  policies that they turn to;
- `Recursive.check`: the evaluator that is its own evaluator of those policies;
- `Recursive.requestBy`: the evaluation of a request by an evaluator of policies.

Main results:

- `Recursive.isRecursive_iff`: the recursion has one solution, which is `check`;
- `Machine.step_resume`: what a machine computes is kept by each of its steps;
- `Machine.evaluate_eq_check`: the machine computes `check`;
- `Recursive.checkHost_eq_recursive`: so does the check of a host, with the same
  outcome, questions and budget.
-/

namespace SenderPolicy

namespace Recursive

/-- Evaluators of policies: of a policy with its domain, at a depth of
inclusion. -/
abbrev PolicyEvaluator := (depth : Nat) → Policy → (domain : String) → Evaluation Finish

/-- Go through directives in order. The first that matches decides by its
qualifier. An inclusion is charged, is refused at the greatest depth, and matches
if the policy at its target ends with a pass; whatever aborts the evaluation of
that policy aborts this one. If nothing matches, a redirection is charged and the
policy at its target decides; without one the verdict is neutral. -/
def walk (env : Environment) (request : Request) (nested : PolicyEvaluator) (depth : Nat)
    (policy : Policy) (domain : String) : List Directive → Evaluation Finish
  | [] =>
    match policy.redirect? with
    | some target => do
      charge
      let name ← Evaluation.ofLookup (targetName env request domain target)
      let other ← fetchPolicy env name
      nested depth other name
    | none => return ⟨.neutral, policy, domain⟩
  | ⟨qualifier, .includePolicy target⟩ :: rest => do
    charge
    if env.settings.maxIncludeDepth.toNat ≤ depth then Evaluation.fail .tooDeep
    else
      let name ← Evaluation.ofLookup (targetName env request domain target)
      let included ← fetchPolicy env name
      let inner ← nested (depth + 1) included name
      if inner.verdict = .pass then return ⟨qualifier.verdict, policy, domain⟩
      else walk env request nested depth policy domain rest
  | ⟨qualifier, mechanism⟩ :: rest => do
    if ← mechanism.matches env request domain then return ⟨qualifier.verdict, policy, domain⟩
    else walk env request nested depth policy domain rest

/-- The evaluators that evaluate the policies turned to as they evaluate any
policy. -/
def IsRecursive (env : Environment) (request : Request) (E : PolicyEvaluator) : Prop :=
  ∀ depth policy domain,
    E depth policy domain = walk env request E depth policy domain policy.directives

/-- The recursion down to a number of levels. -/
def checkUpTo (env : Environment) (request : Request) : Nat → PolicyEvaluator
  | 0 => fun _ _ _ => Evaluation.fail .tooManyLookups
  | n + 1 => fun depth policy domain =>
    walk env request (checkUpTo env request n) depth policy domain policy.directives

/-- The recursive evaluation of a policy. Each level is charged, so that there are
no more of them than the budget allows. -/
def check (env : Environment) (request : Request) : PolicyEvaluator :=
  fun depth policy domain p =>
    (checkUpTo env request (p.budget.remaining + 1) depth policy domain).run p

/-- Find the policy of the requested domain, evaluate it, and explain a failure. -/
def requestBy (env : Environment) (request : Request) (E : PolicyEvaluator) :
    Evaluation Outcome :=
  if DomainName.isValid request.domain then do
    let policy ← Evaluation.ofLookup (lookupPolicy env request.domain)
    let finish ← E 0 policy request.domain
    let explanation ← Evaluation.ofLookup (explainFinish env request finish)
    return ⟨finish.verdict, request.domain, explanation⟩
  else return .plain .none request.domain

/-! ## The recursion has one solution -/

section

variable {env : Environment} {request : Request} {α β : Type}

/-- Two processes that run alike and add nothing to what is left of the budget,
wherever no more than {lit}`n` is left. -/
def AlikeUpTo (n : Nat) (x y : Evaluation α) : Prop :=
  ∀ p, p.budget.remaining ≤ n →
    x.run p = y.run p ∧ (x.run p).2.budget.remaining ≤ p.budget.remaining

namespace AlikeUpTo

/-- A thrifty process runs as it does. -/
theorem of_thrifty {n : Nat} {x : Evaluation α} (hx : Thrifty x) : AlikeUpTo n x x :=
  fun p _ => ⟨rfl, hx p⟩

theorem mono {m n : Nat} {x y : Evaluation α} (h : AlikeUpTo n x y) (hmn : m ≤ n) :
    AlikeUpTo m x y :=
  fun p hp => h p (hp.trans hmn)

theorem bind {n : Nat} {x y : Evaluation α} {f g : α → Evaluation β}
    (hx : AlikeUpTo n x y) (hf : ∀ a, AlikeUpTo n (f a) (g a)) :
    AlikeUpTo n (x >>= f) (y >>= g) := by
  intro p hp
  obtain ⟨heq, hle⟩ := hx p hp
  rw [Process.run_bind, Process.run_bind, ← heq]
  rcases hrun : x.run p with ⟨e | a, q⟩
  · rw [hrun] at hle
    exact ⟨rfl, hle⟩
  · rw [hrun] at hle
    obtain ⟨heq', hle'⟩ := hf a q (hle.trans hp)
    exact ⟨heq', hle'.trans hle⟩

theorem ite {n : Nat} {c : Prop} [Decidable c] {x x' y y' : Evaluation α}
    (hx : AlikeUpTo n x x') (hy : AlikeUpTo n y y') :
    AlikeUpTo n (if c then x else y) (if c then x' else y') := by
  split <;> assumption

/-- Less is left after a charge, so that processes which follow one need to be
alike only there. -/
theorem charge {n : Nat} {x y : Evaluation α} (h : ∀ m < n, AlikeUpTo m x y) :
    AlikeUpTo n (do charge; x) (do charge; y) := by
  intro p hp
  rw [Process.run_bind, Process.run_bind, run_charge]
  cases hc : p.budget.charge with
  | error f => exact ⟨rfl, le_rfl⟩
  | ok b =>
    have hb := Budget.remaining_charge hc
    obtain ⟨heq, hle⟩ := h b.remaining (by omega) { p with budget := b } le_rfl
    refine ⟨heq, hle.trans ?_⟩
    change b.remaining ≤ p.budget.remaining
    omega

end AlikeUpTo

/-- Evaluators that are alike wherever less is left are told apart by no policy. -/
theorem alike_walk {n : Nat} {E E' : PolicyEvaluator}
    (h : ∀ m < n, ∀ depth policy domain,
      AlikeUpTo m (E depth policy domain) (E' depth policy domain))
    (depth : Nat) (policy : Policy) (domain : String) (todo : List Directive) :
    AlikeUpTo n (walk env request E depth policy domain todo)
      (walk env request E' depth policy domain todo) := by
  induction todo with
  | nil =>
    unfold walk
    cases policy.redirect? with
    | none => exact .of_thrifty (.pure _)
    | some target =>
      apply AlikeUpTo.charge
      intro m hm
      apply AlikeUpTo.bind (.of_thrifty (.ofLookup _))
      intro name
      apply AlikeUpTo.bind (.of_thrifty (Machine.thrifty_fetchPolicy env name))
      intro other
      exact h m hm depth other name
  | cons d rest ih =>
    obtain ⟨qualifier, mechanism⟩ := d
    by_cases hm : ∃ target, mechanism = .includePolicy target
    · obtain ⟨target, rfl⟩ := hm
      unfold walk
      refine .charge fun m hm => .ite (.of_thrifty (.fail _)) ?_
      apply AlikeUpTo.bind (.of_thrifty (.ofLookup _))
      intro name
      apply AlikeUpTo.bind (.of_thrifty (Machine.thrifty_fetchPolicy env name))
      intro included
      apply AlikeUpTo.bind (h m hm (depth + 1) included name)
      intro inner
      exact .ite (.of_thrifty (.pure _)) (ih.mono hm.le)
    · have hother : ∀ target, mechanism ≠ .includePolicy target := fun t ht => hm ⟨t, ht⟩
      simp only [walk]
      apply AlikeUpTo.bind (.of_thrifty (mechanism.thrifty_matches env request domain))
      intro b
      exact .ite (.of_thrifty (.pure _)) ih

/-- Evaluators that solve the recursion are alike, whatever is left. -/
theorem alike_of_isRecursive {E E' : PolicyEvaluator} (hE : IsRecursive env request E)
    (hE' : IsRecursive env request E') (n depth : Nat) (policy : Policy) (domain : String) :
    AlikeUpTo n (E depth policy domain) (E' depth policy domain) := by
  induction n using Nat.strong_induction_on generalizing depth policy domain with
  | _ n ih =>
    rw [hE, hE']
    exact alike_walk ih depth policy domain policy.directives

/-- As many levels as may be charged are enough. -/
theorem alike_checkUpTo {n k k' : Nat} (hk : n < k) (hk' : n < k') (depth : Nat)
    (policy : Policy) (domain : String) :
    AlikeUpTo n (checkUpTo env request k depth policy domain)
      (checkUpTo env request k' depth policy domain) := by
  induction n using Nat.strong_induction_on generalizing k k' depth policy domain with
  | _ n ih =>
    obtain ⟨k, rfl⟩ := Nat.exists_eq_add_of_lt hk
    obtain ⟨k', rfl⟩ := Nat.exists_eq_add_of_lt hk'
    refine alike_walk (fun m hm depth policy domain => ?_) depth policy domain policy.directives
    exact ih m hm (by omega) (by omega) depth policy domain

/-- The evaluation of a policy goes as deep as it has to. -/
theorem alike_check {n k : Nat} (hk : n < k) (depth : Nat) (policy : Policy) (domain : String) :
    AlikeUpTo n (checkUpTo env request k depth policy domain)
      (check env request depth policy domain) := by
  intro p hp
  exact alike_checkUpTo (Nat.lt_of_le_of_lt hp hk) (Nat.lt_succ_self _) depth policy domain p le_rfl

/-- The evaluation of a policy solves the recursion. -/
theorem isRecursive_check (env : Environment) (request : Request) :
    IsRecursive env request (check env request) := by
  intro depth policy domain
  apply Process.ext_run
  intro p
  have halike : AlikeUpTo p.budget.remaining
      (walk env request (checkUpTo env request p.budget.remaining) depth policy domain
        policy.directives)
      (walk env request (check env request) depth policy domain policy.directives) :=
    alike_walk (fun m hm depth policy domain => alike_check hm depth policy domain)
      depth policy domain policy.directives
  exact (halike p le_rfl).1

/-- The recursion has one solution, the evaluation of a policy. -/
theorem isRecursive_iff (E : PolicyEvaluator) :
    IsRecursive env request E ↔ E = check env request := by
  constructor
  · intro hE
    funext depth policy domain
    apply Process.ext_run
    intro p
    exact (alike_of_isRecursive hE (isRecursive_check env request) p.budget.remaining depth policy
      domain p le_rfl).1
  · rintro rfl
    exact isRecursive_check env request

end

end Recursive

/-! ## The machine computes the recursion -/

namespace Machine

open Recursive

variable (env : Environment) (request : Request)

/-- What the end of the policy at hand means for the suspended ones. A pass makes
the inclusion match; otherwise the directives after it are gone through, in the
policy that includes and for its domain. -/
def unwind : List Frame → Finish → Evaluation Finish
  | [], finish => pure finish
  | f :: stack, finish =>
    if finish.verdict = .pass then unwind stack ⟨f.qualifier.verdict, f.policy, f.domain⟩
    else do
      let finish ← walk env request (check env request) stack.length f.policy f.domain f.rest
      unwind stack finish

/-- What a machine stands for: the rest of the policy at hand, evaluated by
recursion, and then the suspended policies. -/
def meaning (m : Machine) : Evaluation Finish := do
  let finish ← walk env request (check env request) m.stack.length m.policy m.domain m.todo
  unwind env request m.stack finish

/-- What is left to be computed after a step. -/
def resume : Transition → Evaluation Finish
  | .next m => meaning env request m
  | .done finish => pure finish

variable {env request}

/-- Leaving a policy is what its end means for the suspended ones. -/
theorem resume_leave (v : Verdict) (policy : Policy) (domain : String) (stack : List Frame) :
    resume env request (leave v policy domain stack) =
      unwind env request stack ⟨v, policy, domain⟩ := by
  induction stack generalizing v policy domain with
  | nil => rfl
  | cons f stack ih =>
    unfold leave unwind
    by_cases hv : v = .pass
    · rw [if_pos hv, if_pos hv]
      exact ih _ _ _
    · rw [if_neg hv, if_neg hv]
      rfl

/-- A machine at the start of a policy stands for the evaluation of that policy. -/
theorem meaning_enter (policy : Policy) (domain : String) (stack : List Frame) :
    meaning env request (enter policy domain stack) = (do
      let finish ← check env request stack.length policy domain
      unwind env request stack finish) := by
  rw [isRecursive_check env request]
  rfl

/-- A step at the end of a policy keeps what the machine stands for. -/
theorem step_resume_nil (policy : Policy) (domain : String) (stack : List Frame) :
    (do let t ← step env request ⟨policy, domain, [], stack⟩; resume env request t) =
      meaning env request ⟨policy, domain, [], stack⟩ := by
  unfold step meaning walk
  cases policy.redirect? with
  | none => simp only [pure_bind, resume_leave]
  | some target => simp only [Machine.redirect, bind_assoc, pure_bind, resume, meaning_enter]

/-- A step at an inclusion keeps what the machine stands for. -/
theorem step_resume_include (policy : Policy) (domain : String) (qualifier : Qualifier)
    (target : MacroString) (rest : List Directive) (stack : List Frame) :
    (do
      let t ← step env request ⟨policy, domain, ⟨qualifier, .includePolicy target⟩ :: rest, stack⟩
      resume env request t) =
      meaning env request ⟨policy, domain, ⟨qualifier, .includePolicy target⟩ :: rest, stack⟩ := by
  unfold step meaning walk suspend
  by_cases hdeep : env.settings.maxIncludeDepth.toNat ≤ stack.length
  · simp only [if_pos hdeep, bind_assoc]
    rfl
  · simp only [if_neg hdeep, bind_assoc, pure_bind, resume, meaning_enter, List.length_cons]
    congr! 8 with _ name included finish
    simp only [unwind]
    split
    · rw [pure_bind]
    · rfl

/-- A step at any other directive keeps what the machine stands for. -/
theorem step_resume_other (policy : Policy) (domain : String) (qualifier : Qualifier)
    {mechanism : Mechanism} (hm : ∀ target, mechanism ≠ .includePolicy target)
    (rest : List Directive) (stack : List Frame) :
    (do
      let t ← step env request ⟨policy, domain, ⟨qualifier, mechanism⟩ :: rest, stack⟩
      resume env request t) =
      meaning env request ⟨policy, domain, ⟨qualifier, mechanism⟩ :: rest, stack⟩ := by
  simp only [step, meaning, walk, bind_assoc]
  congr 1
  funext matched
  cases matched with
  | true => simp only [if_true, pure_bind, resume_leave]
  | false => simp only [Bool.false_eq_true, if_false, pure_bind]; rfl

/-- A step keeps what the machine stands for. -/
theorem step_resume (m : Machine) :
    (do let t ← m.step env request; resume env request t) = meaning env request m := by
  obtain ⟨policy, domain, todo, stack⟩ := m
  rcases todo with _ | ⟨⟨qualifier, mechanism⟩, rest⟩
  · exact step_resume_nil policy domain stack
  · by_cases hm : ∃ target, mechanism = .includePolicy target
    · obtain ⟨target, rfl⟩ := hm
      exact step_resume_include policy domain qualifier target rest stack
    · exact step_resume_other policy domain qualifier (fun target h => hm ⟨target, h⟩) rest stack

/-- All steps together compute what the machine stands for. -/
theorem runFrom_eq_meaning (m : Machine) (p : Progress) :
    m.runFrom env request p = (meaning env request m).run p := by
  induction m, p using run_induction env request with
  | step m p ih =>
    rw [runFrom_eq_bind, ← step_resume, Process.run_bind, Process.run_bind]
    rcases hstep : (m.step env request).run p with ⟨e | t, p'⟩
    · rfl
    · cases t with
      | next m' => exact ih m' p' hstep
      | done finish => rfl

/-- The machine computes the recursive evaluation of a policy. -/
theorem evaluate_eq_check (policy : Policy) (domain : String) :
    evaluate env request policy domain = check env request 0 policy domain := by
  apply Process.ext_run
  intro p
  calc
    (enter policy domain []).runFrom env request p
        = (meaning env request (enter policy domain [])).run p := runFrom_eq_meaning _ p
    _ = (check env request 0 policy domain >>= pure).run p := by
      rw [meaning_enter]
      rfl
    _ = (check env request 0 policy domain).run p := by rw [bind_pure]

end Machine

namespace Recursive

/-- The evaluation of a request is the recursive one. -/
theorem evaluateRequest_eq_requestBy (env : Environment) (request : Request) :
    evaluateRequest env request = requestBy env request (check env request) := by
  unfold evaluateRequest requestBy
  simp only [Machine.evaluate_eq_check]

/-- The check of a host computes the recursive evaluation of its request: the same
end, from which the outcome follows, after the same questions, with the same
caches and the same budget. The recursion has no other solution. -/
theorem checkHost_eq_recursive (env : Environment) (request : Request) (t : Traffic) :
    let start := Progress.start env t
    let recursive := (requestBy env request (check env request)).run start
    (∀ E, IsRecursive env request E ↔ E = check env request) ∧
      (evaluateRequest env request).run start = recursive ∧
      (checkHost env request).run t =
        (settleOutcome request recursive.1, recursive.2.traffic) := by
  refine ⟨fun E => isRecursive_iff E, ?_, ?_⟩
  · rw [evaluateRequest_eq_requestBy]
  · rw [run_checkHost, evaluateRequest_eq_requestBy]

end Recursive

end SenderPolicy
