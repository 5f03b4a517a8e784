import SenderPolicy.Proofs.Run

/-!
# Observed evaluations

An observer of an evaluation takes notes of what happens, and changes nothing. It
sees the policy of the requested domain being found, each step of the machine, and
the explanation being found.

Main definitions:

- `Process.observe`: a process with notes taken of it;
- `Process.Observes`: a process with notes is another one, when they are forgotten;
- `Transition.depth`: how many policies are suspended after a step;
- `Observer`: what is noted of an evaluation;
- `Machine.observeFrom`, `Machine.observe`, `observeRequest`: observed runs and
  evaluations.

Main results:

- `Machine.observeFrom_forget`, `observes_observeRequest`: observers change nothing;
- `Machine.observeFrom_invariant`: what each step keeps holds when a run ends;
- `observeRequest_cases`: the ways in which an evaluation ends.
-/

namespace SenderPolicy

/-! ## Notes -/

namespace Process

variable {σ ε ω α β : Type}

/-- A process with notes taken of its result, and of the states before and after
it. -/
def observe (note : σ → Except ε α → σ → ω → ω) (x : Process σ ε α) : Process (σ × ω) ε α :=
  fun s =>
    let r := x.run s.1
    (r.1, (r.2, note s.1 r.1 r.2 s.2))

/-- An observed process runs as ever, and adds its note. -/
@[simp]
theorem run_observe (note : σ → Except ε α → σ → ω → ω) (x : Process σ ε α) (s : σ × ω) :
    (x.observe note).run s =
      ((x.run s.1).1, ((x.run s.1).2, note s.1 (x.run s.1).1 (x.run s.1).2 s.2)) :=
  rfl

/-- The result and the state, without the notes. -/
def forget (r : Except ε α × (σ × ω)) : Except ε α × σ := (r.1, r.2.1)

/-- A process is another one, when the notes are forgotten. -/
def Observes (x : Process (σ × ω) ε α) (y : Process σ ε α) : Prop :=
  ∀ s, forget (x.run s) = y.run s.1

namespace Observes

theorem observe (note : σ → Except ε α → σ → ω → ω) (x : Process σ ε α) :
    Observes (x.observe note) x :=
  fun _ => rfl

theorem pure (a : α) : Observes (Pure.pure a : Process (σ × ω) ε α) (Pure.pure a) :=
  fun _ => rfl

/-- Processes that follow one another are the observed ones if all of them are. -/
theorem bind {x : Process (σ × ω) ε α} {y : Process σ ε α} {f : α → Process (σ × ω) ε β}
    {g : α → Process σ ε β} (hx : Observes x y) (hf : ∀ a, Observes (f a) (g a)) :
    Observes (x >>= f) (y >>= g) := by
  intro s
  have h := hx s
  rw [run_bind, run_bind, ← h]
  rcases x.run s with ⟨e | a, s'⟩
  · rfl
  · exact hf a s'

theorem ite {c : Prop} [Decidable c] {x y : Process (σ × ω) ε α} {x' y' : Process σ ε α}
    (hx : Observes x x') (hy : Observes y y') :
    Observes (if c then x else y) (if c then x' else y') := by
  split <;> assumption

end Observes

end Process

/-- The number of policies that are suspended after a step. -/
def Transition.depth : Transition → Nat
  | .next m => m.stack.length
  | .done _ => 0

/-- Leaving policies leads no deeper. -/
theorem Machine.depth_leave (v : Verdict) (policy : Policy) (domain : String) (stack : List Frame) :
    (leave v policy domain stack).depth ≤ stack.length := by
  cases h : leave v policy domain stack with
  | done f => exact Nat.zero_le _
  | next m =>
    obtain ⟨popped, f, rest, rfl, rfl⟩ := leave_eq_next h
    simp only [Transition.depth, List.length_append, List.length_cons]
    omega

/-- What is noted of finding the policy of the requested domain, of each step, and of
finding the explanation: notes follow from what was there before and after. -/
structure Observer (ω : Type) where
  found : Progress → Except Abort Policy → Progress → ω → ω
  step : Machine → Progress → Except Abort Transition → Progress → ω → ω
  explained : Progress → Except Abort (Option String) → Progress → ω → ω

/-! ## Observed runs -/

namespace Machine

variable (env : Environment) (request : Request) {ω : Type} (o : Observer ω)

/-- All steps from a state on, with notes taken of them. -/
def observeFrom (m : Machine) (s : Progress × ω) : Except Abort Finish × (Progress × ω) :=
  match _ : (m.step env request).run s.1 with
  | (.ok (.next m'), p') => m'.observeFrom (p', o.step m s.1 (.ok (.next m')) p' s.2)
  | (.ok (.done f), p') => (.ok f, (p', o.step m s.1 (.ok (.done f)) p' s.2))
  | (.error e, p') => (.error e, (p', o.step m s.1 (.error e) p' s.2))
termination_by (s.1.budget.remaining, m.weight)
decreasing_by exact step_decreases ‹_›

/-- The evaluation of a policy for its domain, with notes taken of it. -/
def observe (policy : Policy) (domain : String) : Process (Progress × ω) Abort Finish :=
  (enter policy domain []).observeFrom env request o

variable {env request o}

/-- Observers do not change a run. -/
theorem observeFrom_forget (m : Machine) (s : Progress × ω) :
    Process.forget (m.observeFrom env request o s) = m.runFrom env request s.1 := by
  obtain ⟨p, w⟩ := s
  induction m, p using run_induction env request generalizing w with
  | step m p ih =>
    rw [observeFrom, runFrom_eq_bind, Process.run_bind]
    split
    next m' p' hstep =>
      rw [ih m' p' hstep, hstep]
      rfl
    next f p' hstep =>
      rw [hstep]
      rfl
    next e p' hstep =>
      rw [hstep]
      rfl

/-- If the steps of a run keep something, and its last step gives something else,
then that holds when the run has ended. -/
theorem observeFrom_invariant (I : Machine → Progress → ω → Prop)
    (Q : Except Abort Finish → Progress → ω → Prop)
    (next : ∀ m p w m' p', I m p w → (m.step env request).run p = (.ok (.next m'), p') →
      I m' p' (o.step m p (.ok (.next m')) p' w))
    (done : ∀ m p w f p', I m p w → (m.step env request).run p = (.ok (.done f), p') →
      Q (.ok f) p' (o.step m p (.ok (.done f)) p' w))
    (error : ∀ m p w e p', I m p w → (m.step env request).run p = (.error e, p') →
      Q (.error e) p' (o.step m p (.error e) p' w))
    {m : Machine} {p : Progress} {w : ω} (h : I m p w) :
    Q (m.observeFrom env request o (p, w)).1 (m.observeFrom env request o (p, w)).2.1
      (m.observeFrom env request o (p, w)).2.2 := by
  induction m, p using run_induction env request generalizing w with
  | step m p ih =>
    rw [observeFrom]
    split
    next m' p' hstep => exact ih m' p' hstep (next m p w m' p' h hstep)
    next f p' hstep => exact done m p w f p' h hstep
    next e p' hstep => exact error m p w e p' h hstep

/-- Observers do not change the evaluation of a policy. -/
theorem observes_observe (policy : Policy) (domain : String) :
    Process.Observes (observe env request o policy domain) (evaluate env request policy domain) :=
  fun s => observeFrom_forget _ s

end Machine

/-! ## Observed requests -/

/-- Find and evaluate the policy of the requested domain, with notes taken. -/
def observeRequest (env : Environment) (request : Request) {ω : Type} (o : Observer ω) :
    Process (Progress × ω) Abort Outcome :=
  if DomainName.isValid request.domain then do
    let policy ← (Evaluation.ofLookup (lookupPolicy env request.domain)).observe o.found
    let finish ← Machine.observe env request o policy request.domain
    let explanation ← (Evaluation.ofLookup (explainFinish env request finish)).observe o.explained
    return ⟨finish.verdict, request.domain, explanation⟩
  else return .plain .none request.domain

/-- Observers do not change the evaluation of a request. -/
theorem observes_observeRequest (env : Environment) (request : Request) {ω : Type}
    (o : Observer ω) :
    Process.Observes (observeRequest env request o) (evaluateRequest env request) := by
  unfold observeRequest evaluateRequest
  split
  · apply Process.Observes.bind (.observe _ _)
    intro policy
    apply Process.Observes.bind (Machine.observes_observe policy request.domain)
    intro finish
    exact .bind (.observe _ _) fun explanation => .pure _
  · exact .pure _

/-- The ways in which the evaluation of a request ends: at once, without a policy,
within the policy, or after it with an explanation. -/
theorem observeRequest_cases {env : Environment} {request : Request} {ω : Type} {o : Observer ω}
    {p : Progress} {w : ω} (Q : Except Abort Outcome → Progress → ω → Prop)
    (refused : DomainName.isValid request.domain = false →
      Q (.ok (.plain .none request.domain)) p w)
    (missing : ∀ e p',
      (Evaluation.ofLookup (lookupPolicy env request.domain)).run p = (.error e, p') →
      Q (.error e) p' (o.found p (.error e) p' w))
    (aborted : ∀ policy p' e s,
      (Evaluation.ofLookup (lookupPolicy env request.domain)).run p = (.ok policy, p') →
      (Machine.observe env request o policy request.domain).run
        (p', o.found p (.ok policy) p' w) = (.error e, s) →
      Q (.error e) s.1 s.2)
    (finished : ∀ policy p' finish s x q,
      (Evaluation.ofLookup (lookupPolicy env request.domain)).run p = (.ok policy, p') →
      (Machine.observe env request o policy request.domain).run
        (p', o.found p (.ok policy) p' w) = (.ok finish, s) →
      (Evaluation.ofLookup (explainFinish env request finish)).run s.1 = (x, q) →
      Q (x.map fun explanation => ⟨finish.verdict, request.domain, explanation⟩) q
        (o.explained s.1 x q s.2)) :
    Q ((observeRequest env request o).run (p, w)).1 ((observeRequest env request o).run (p, w)).2.1
      ((observeRequest env request o).run (p, w)).2.2 := by
  unfold observeRequest
  split
  · rw [Process.run_bind, Process.run_observe]
    rcases hlookup : (Evaluation.ofLookup (lookupPolicy env request.domain)).run p with
      ⟨e | policy, p'⟩
    · exact missing e p' hlookup
    · dsimp only
      rw [Process.run_bind]
      rcases hrun : (Machine.observe env request o policy request.domain).run
        (p', o.found p (.ok policy) p' w) with ⟨e | finish, s⟩
      · exact aborted policy p' e s hlookup hrun
      · dsimp only
        rw [Process.run_bind, Process.run_observe]
        rcases hexplain : (Evaluation.ofLookup (explainFinish env request finish)).run s.1 with
          ⟨e | x, q⟩ <;>
          exact finished policy p' finish s _ q hlookup hrun hexplain
  next hvalid => exact refused (by simpa using hvalid)

end SenderPolicy
