import Mathlib.Logic.Relation
import SenderPolicy.Proofs.Recursion

/-!
# Policies at the top level

The policy that is evaluated at the top level is the one of the requested domain at first. A
redirection puts another in its place, when none of its own directives matches. Inclusions
leave it where it is. The verdict is that of the first matching directive of the last one.

Main definitions:

- `Recursive.firstMatch`: the qualifier of the first directive that matches;
- `Current`, `Current.Turns`: policies at the top level, and what takes their place.

Main results:

- `Recursive.walk_eq_firstMatch`: a policy is decided by its own directives, or else by
  what takes its place;
- `Recursive.exists_turns_of_check`: an evaluation ends on the last policy at the top level.
-/

namespace SenderPolicy

namespace Recursive

section

variable (env : Environment) (request : Request) (nested : PolicyEvaluator) (depth : Nat)

/-- The qualifier of the first directive that matches, with an evaluator for included
policies. -/
def firstMatch (domain : String) : List Directive → Evaluation (Option Qualifier)
  | [] => pure none
  | ⟨qualifier, .includePolicy target⟩ :: rest => do
    charge
    if env.settings.maxIncludeDepth.toNat ≤ depth then Evaluation.fail .tooDeep
    else
      let name ← Evaluation.ofLookup (targetName env request domain target)
      let included ← fetchPolicy env name
      let inner ← nested (depth + 1) included name
      if inner.verdict = .pass then return some qualifier else firstMatch domain rest
  | ⟨qualifier, mechanism⟩ :: rest => do
    if ← mechanism.matches env request domain then return some qualifier
    else firstMatch domain rest

/-- The policy to which a redirection turns, with its name. -/
def turn (domain : String) (target : MacroString) : Evaluation (String × Policy) := do
  charge
  let name ← Evaluation.ofLookup (targetName env request domain target)
  let other ← fetchPolicy env name
  return (name, other)

variable {env request nested depth}

/-- A policy is decided by its own directives; if none of them matches, by the policy to
which it turns, if it turns to one. -/
theorem walk_eq_firstMatch (policy : Policy) (domain : String) (todo : List Directive) :
    walk env request nested depth policy domain todo = (do
      match ← firstMatch env request nested depth domain todo with
      | some qualifier => return ⟨qualifier.verdict, policy, domain⟩
      | none =>
        match policy.redirect? with
        | some target => do
          let (name, other) ← turn env request domain target
          nested depth other name
        | none => return ⟨.neutral, policy, domain⟩) := by
  induction todo with
  | nil =>
    unfold walk firstMatch turn
    cases policy.redirect? with
    | none => simp only [pure_bind]
    | some target => simp only [bind_assoc, pure_bind]
  | cons d rest ih =>
    obtain ⟨qualifier, mechanism⟩ := d
    by_cases hm : ∃ target, mechanism = .includePolicy target
    · obtain ⟨target, rfl⟩ := hm
      unfold walk firstMatch
      rw [ih, bind_assoc]
      congr 1
      funext _
      by_cases hdeep : env.settings.maxIncludeDepth.toNat ≤ depth
      · simp only [if_pos hdeep]
        rfl
      · simp only [if_neg hdeep, bind_assoc]
        congr 1
        funext name
        congr 1
        funext included
        congr 1
        funext inner
        by_cases hpass : inner.verdict = .pass
        · simp only [if_pos hpass, pure_bind]
        · simp only [if_neg hpass]
    · have hother : ∀ target, mechanism ≠ .includePolicy target := fun t ht => hm ⟨t, ht⟩
      simp only [walk, firstMatch, ih, bind_assoc]
      congr 1
      funext matched
      cases matched with
      | true => simp only [if_true, pure_bind]
      | false => simp only [Bool.false_eq_true, if_false]

/-- Evaluating a policy adds nothing to what is left of the budget. -/
theorem thrifty_check (depth : Nat) (policy : Policy) (domain : String) :
    Thrifty (check env request depth policy domain) := by
  intro p
  have halike : AlikeUpTo p.budget.remaining
      (checkUpTo env request (p.budget.remaining + 1) depth policy domain)
      (check env request depth policy domain) :=
    alike_check (Nat.lt_succ_self _) depth policy domain
  obtain ⟨heq, hle⟩ := halike p le_rfl
  rwa [heq] at hle

/-- Nor does looking for the first match. -/
theorem thrifty_firstMatch (domain : String) (todo : List Directive) :
    Thrifty (firstMatch env request (check env request) depth domain todo) := by
  induction todo with
  | nil => exact .pure none
  | cons d rest ih =>
    obtain ⟨qualifier, mechanism⟩ := d
    by_cases hm : ∃ target, mechanism = .includePolicy target
    · obtain ⟨target, rfl⟩ := hm
      unfold firstMatch
      refine .bind .charge fun _ => .ite (.fail _) (.bind (.ofLookup _) fun name => ?_)
      refine .bind (Machine.thrifty_fetchPolicy env name) fun included => ?_
      exact .bind (thrifty_check _ _ _) fun inner => .ite (.pure _) ih
    · have hother : ∀ target, mechanism ≠ .includePolicy target := fun t ht => hm ⟨t, ht⟩
      simp only [firstMatch]
      exact .bind (mechanism.thrifty_matches env request domain) fun _ => .ite (.pure _) ih

end

end Recursive

/-- A policy that is evaluated at the top level, its domain, and the progress at its start. -/
structure Current where
  policy : Policy
  domain : String
  progress : Progress

open Recursive

section

variable (env : Environment) (request : Request)

/-- What comes of the directives of the policy at the top level: the qualifier of the first
that matches. -/
def Current.decide (c : Current) : Except Abort (Option Qualifier) × Progress :=
  (firstMatch env request (check env request) 0 c.domain c.policy.directives).run c.progress

/-- One policy takes the place of another at the top level: no directive of the other matches,
and it has a redirection to this one. -/
inductive Current.Turns : Current → Current → Prop where
  | redirect {c : Current} {target : MacroString} {name : String} {other : Policy}
      {p p' : Progress} :
      c.decide env request = (.ok none, p) → c.policy.redirect? = some target →
      (turn env request c.domain target).run p = (.ok (name, other), p') →
      Turns c ⟨other, name, p'⟩

variable {env request}

/-- An evaluation ends on the last policy at the top level, with the verdict of its first
matching directive. -/
theorem exists_turns_of_check {c : Current} {finish : Finish} {p : Progress}
    (h : (check env request 0 c.policy c.domain).run c.progress = (.ok finish, p)) :
    ∃ last : Current, Relation.ReflTransGen (Current.Turns env request) c last ∧
      last.policy = finish.policy ∧ last.domain = finish.domain ∧
      ∃ found : Option Qualifier, last.decide env request = (.ok found, p) ∧
        finish.verdict = (found.map Qualifier.verdict).getD .neutral := by
  -- Each redirection is charged, so that less is left of the budget for the next policy.
  induction hn : c.progress.budget.remaining using Nat.strong_induction_on generalizing c with
  | _ n ih =>
    rw [isRecursive_check env request, walk_eq_firstMatch] at h
    obtain ⟨found, q, hfound, hrest⟩ := Process.run_bind_eq_ok h
    have hdecide : c.decide env request = (.ok found, q) := hfound
    cases found with
    | some qualifier =>
      cases hrest
      exact ⟨c, .refl, rfl, rfl, some qualifier, hdecide, rfl⟩
    | none =>
      dsimp only at hrest
      cases hredirect : c.policy.redirect? with
      | none =>
        rw [hredirect] at hrest
        cases hrest
        exact ⟨c, .refl, rfl, rfl, none, hdecide, rfl⟩
      | some target =>
        rw [hredirect] at hrest
        obtain ⟨⟨name, other⟩, q', hturn, hother⟩ := Process.run_bind_eq_ok hrest
        have hless : q'.budget.remaining < n := by
          have hthrifty : Thrifty (firstMatch env request (check env request) 0 c.domain
              c.policy.directives) := thrifty_firstMatch _ _
          have hle := hthrifty c.progress
          rw [hfound] at hle
          have hlt := Machine.remaining_of_charge (.bind (.ofLookup _) fun name =>
            .bind (Machine.thrifty_fetchPolicy env name) fun _ => .pure _) hturn
          dsimp only at hle
          omega
        obtain ⟨last, hlast, hend⟩ := ih _ hless (c := ⟨other, name, q'⟩) hother rfl
        exact ⟨last, .head (.redirect hdecide hredirect hturn) hlast, hend⟩

end

end SenderPolicy
