import Mathlib.Data.List.Forall2
import SenderPolicy.Proofs.Run

/-!
# Evaluations side by side

An evaluation is compared with another one of the same request, in another
environment or after another past. The two run side by side from related states: they
ask for the same names in the same order, and end alike.

Main definitions:

- `EndsAlike`: ends that correspond;
- `Process.Simulates`: a process that another one follows to its end, unless it stops
  for an excused reason;
- `StepCoupling`: what the steps on policies need to be followed by steps on policies that are
  related to them at their domains;
- `HostCoupling`: what the search for addresses and names of hosts needs;
- `Coupling`: what one evaluation needs to be followed by another.

Main results:

- `Process.Simulates.bind`: processes that follow one another are followed;
- `Machine.simulates_run`: a run is followed if its steps are;
- `StepCoupling.evaluate`: the evaluation of a policy is followed by that of a related one;
- `Coupling.evaluateRequest`: the evaluation of a request is followed by another one.
-/

namespace SenderPolicy

/-! ## Processes -/

section Processes

variable {σ τ ε α β γ δ : Type}

/-- Ends that correspond: related values, or the same reason to stop. -/
inductive EndsAlike (V : α → β → Prop) : Except ε α → Except ε β → Prop where
  | value {a : α} {b : β} : V a b → EndsAlike V (.ok a) (.ok b)
  | stopped (e : ε) : EndsAlike V (.error e) (.error e)

/-- Ends with the same value or reason are the same. -/
theorem EndsAlike.eq {r r' : Except ε α} (h : EndsAlike Eq r r') : r = r' := by
  cases h with
  | value hab => rw [hab]
  | stopped e => rfl

/-- Ends that correspond do so if more values are related. -/
theorem EndsAlike.mono {V V' : α → β → Prop} {r : Except ε α} {r' : Except ε β}
    (h : EndsAlike V r r') (hV : ∀ a b, V a b → V' a b) : EndsAlike V' r r' := by
  cases h with
  | value hab => exact .value (hV _ _ hab)
  | stopped e => exact .stopped e

/-- An end corresponds to itself. -/
theorem EndsAlike.refl {V : α → α → Prop} (hV : ∀ a, V a a) (r : Except ε α) :
    EndsAlike V r r := by
  cases r with
  | ok a => exact .value (hV a)
  | error e => exact .stopped e

/-- What follows ends that correspond has to correspond for related values only. -/
theorem EndsAlike.bind {V : α → β → Prop} {W : γ → δ → Prop} {r : Except ε α} {r' : Except ε β}
    {f : α → Except ε γ} {g : β → Except ε δ} (h : EndsAlike V r r')
    (hf : ∀ a b, V a b → EndsAlike W (f a) (g b)) : EndsAlike W (r.bind f) (r'.bind g) := by
  cases h with
  | value hab => exact hf _ _ hab
  | stopped e => exact .stopped e

/-- No reason to stop is excused. -/
def never (_ : ε) : Prop := False

namespace Process

/-- From related states, the second process ends as the first does, and the states are
related again, unless the first stops for an excused reason. -/
def Simulates (R : σ → σ → Prop) (V : α → β → Prop) (excused : ε → Prop)
    (x : Process σ ε α) (y : Process σ ε β) : Prop :=
  ∀ s s', R s s' →
    (∃ e, excused e ∧ (x.run s).1 = .error e) ∨
      EndsAlike V (x.run s).1 (y.run s').1 ∧ R (x.run s).2 (y.run s').2

namespace Simulates

variable {R : σ → σ → Prop} {V : α → β → Prop} {W : γ → δ → Prop} {excused : ε → Prop}

theorem pure {a : α} {b : β} (h : V a b) :
    Simulates R V excused (Pure.pure a : Process σ ε α) (Pure.pure b) :=
  fun _ _ hs => .inr ⟨.value h, hs⟩

theorem stop (e : ε) :
    Simulates R V excused (Process.stop e : Process σ ε α) (Process.stop e) :=
  fun _ _ hs => .inr ⟨.stopped e, hs⟩

/-- From the same state a process runs as it does. -/
theorem refl (x : Process σ ε α) : Simulates Eq Eq excused x x := by
  rintro s _ rfl
  exact .inr ⟨.refl (fun _ => rfl) _, rfl⟩

/-- A process runs as it does, and what holds of all its values holds of the value. -/
theorem refl_of_run {x : Process σ ε α} {Q : α → Prop}
    (h : ∀ s a s', x.run s = (.ok a, s') → Q a) :
    Simulates Eq (fun a b => a = b ∧ Q a) excused x x := by
  rintro s _ rfl
  rcases hrun : x.run s with ⟨e | a, s'⟩
  · exact .inr ⟨.stopped e, rfl⟩
  · exact .inr ⟨.value ⟨rfl, h s a s' hrun⟩, rfl⟩

/-- A process that stops for an excused reason is followed by any other. -/
theorem excuse {e : ε} (he : excused e) (y : Process σ ε β) :
    Simulates R V excused (Process.stop e) y :=
  fun _ _ _ => .inl ⟨e, he, rfl⟩

/-- Processes that follow alike ones are alike if they are so for corresponding values. -/
theorem bind {x : Process σ ε α} {y : Process σ ε β} {f : α → Process σ ε γ}
    {g : β → Process σ ε δ} (hx : Simulates R V excused x y)
    (hf : ∀ a b, V a b → Simulates R W excused (f a) (g b)) :
    Simulates R W excused (x >>= f) (y >>= g) := by
  intro s s' hs
  have hends := hx s s' hs
  rw [run_bind, run_bind]
  rcases hrun : x.run s with ⟨r, t⟩
  rcases hrun' : y.run s' with ⟨r', t'⟩
  rw [hrun, hrun'] at hends
  rcases hends with ⟨e, he, hr⟩ | ⟨hr, ht⟩
  · cases hr
    exact .inl ⟨e, he, rfl⟩
  · cases hr with
    | stopped e => exact .inr ⟨.stopped e, ht⟩
    | value hab => exact hf _ _ hab t t' ht

/-- What follows has to be followed for each value only, if the values are the same. -/
theorem bind_eq {x y : Process σ ε α} {f : α → Process σ ε γ} {g : α → Process σ ε δ}
    (hx : Simulates R Eq excused x y) (hf : ∀ a, Simulates R W excused (f a) (g a)) :
    Simulates R W excused (x >>= f) (y >>= g) := by
  apply bind hx
  rintro a _ rfl
  exact hf a

theorem ite {c : Prop} [Decidable c] {x y : Process σ ε α} {x' y' : Process σ ε β}
    (hx : Simulates R V excused x x') (hy : Simulates R V excused y y') :
    Simulates R V excused (if c then x else y) (if c then x' else y') := by
  split <;> assumption

/-- The same holds of values that are related in a weaker way, and with more excuses. -/
theorem mono {V' : α → β → Prop} {excused' : ε → Prop} {x : Process σ ε α}
    {y : Process σ ε β} (h : Simulates R V excused x y) (hV : ∀ a b, V a b → V' a b)
    (hexcused : ∀ e, excused e → excused' e) : Simulates R V' excused' x y := by
  intro s s' hs
  rcases h s s' hs with ⟨e, he, hr⟩ | ⟨hr, ht⟩
  · exact .inl ⟨e, hexcused e he, hr⟩
  · exact .inr ⟨hr.mono hV, ht⟩

/-- Without excuses, processes with the same values end in the same way. -/
theorem eq_of_never {x y : Process σ ε α} (h : Simulates R Eq never x y) {s s' : σ}
    (hs : R s s') : (x.run s).1 = (y.run s').1 ∧ R (x.run s).2 (y.run s').2 := by
  rcases h s s' hs with ⟨e, he, -⟩ | ⟨hr, ht⟩
  · exact he.elim
  · exact ⟨hr.eq, ht⟩

end Simulates

end Process

end Processes

open Process (Simulates)

/-- Handling the fault of a lookup is followed by handling that of another: the values are
related, or the faults are the same. -/
theorem Lookup.simulates_attempt_of {α β : Type} {R : Traffic → Traffic → Prop}
    {V : α → β → Prop} {x : Lookup α} {y : Lookup β} (h : Simulates R V never x y) :
    Simulates R (EndsAlike V) never x.attempt y.attempt := by
  intro t t' ht
  have hends := h t t' ht
  rw [run_attempt, run_attempt]
  rcases hx : x.run t with ⟨r, q⟩
  rcases hy : y.run t' with ⟨r', q'⟩
  rw [hx, hy] at hends
  obtain ⟨e, he, -⟩ | ⟨hr, ht⟩ := hends
  · exact he.elim
  · cases hr with
    | value hab => exact .inr ⟨.value (.value hab), ht⟩
    | stopped e =>
      cases e with
      | fault f => exact .inr ⟨.value (.stopped f), ht⟩
      | interrupted i => exact .inr ⟨.stopped _, ht⟩

/-- Faults are held up alike. -/
theorem Lookup.simulates_attempt {α : Type} {R : Traffic → Traffic → Prop} {x y : Lookup α}
    (h : Simulates R Eq never x y) : Simulates R Eq never x.attempt y.attempt :=
  (Lookup.simulates_attempt_of h).mono (fun _ _ hr => hr.eq) fun _ he => he

/-- Progress is related if the traffic is and the budgets are. -/
def Progress.Related (R : Traffic → Traffic → Prop) (B : Budget → Budget → Prop)
    (p p' : Progress) : Prop :=
  R p.traffic p'.traffic ∧ B p.budget p'.budget

/-- Progress is the same if the traffic and the budget are. -/
theorem Progress.related_eq : Progress.Related Eq Eq = Eq := by
  funext ⟨t, b⟩ ⟨t', b'⟩
  simp [Related]

/-- Lookups that follow one another do so as parts of evaluations. -/
theorem Evaluation.simulates_ofLookup {α β : Type} {R : Traffic → Traffic → Prop}
    {B : Budget → Budget → Prop} {excused : Abort → Prop} {V : α → β → Prop} {x : Lookup α}
    {y : Lookup β} (h : Simulates R V never x y) :
    Simulates (Progress.Related R B) V excused (ofLookup x) (ofLookup y) := by
  intro p p' hp
  have hends := h p.traffic p'.traffic hp.1
  rw [run_ofLookup, run_ofLookup]
  rcases hx : x.run p.traffic with ⟨r, t⟩
  rcases hy : y.run p'.traffic with ⟨r', t'⟩
  rw [hx, hy] at hends
  obtain ⟨e, he, -⟩ | ⟨hr, ht⟩ := hends
  · exact he.elim
  · cases hr with
    | value hab => exact .inr ⟨.value hab, ht, hp.2⟩
    | stopped e => exact .inr ⟨.stopped _, ht, hp.2⟩

/-! ## Runs -/

/-- Transitions that correspond: to related machines, or to related ends. -/
inductive Transition.Alike (M : Machine → Machine → Prop) (F : Finish → Finish → Prop) :
    Transition → Transition → Prop where
  | next {m m' : Machine} : M m m' → Alike M F (.next m) (.next m')
  | done {f f' : Finish} : F f f' → Alike M F (.done f) (.done f')

/-- A run is followed if the steps from related machines are. -/
theorem Machine.simulates_run {env env' : Environment} {request request' : Request}
    {R : Progress → Progress → Prop} {M : Machine → Machine → Prop}
    {F : Finish → Finish → Prop} {excused : Abort → Prop}
    (hstep : ∀ m m', M m m' → Simulates R (Transition.Alike M F) excused
      (m.step env request) (m'.step env' request'))
    {m m' : Machine} (hm : M m m') :
    Simulates R F excused (m.runFrom env request) (m'.runFrom env' request') := by
  intro p p' hp
  change (∃ e, excused e ∧ (m.runFrom env request p).1 = .error e) ∨
    EndsAlike F (m.runFrom env request p).1 (m'.runFrom env' request' p').1 ∧
      R (m.runFrom env request p).2 (m'.runFrom env' request' p').2
  -- Along the first run, whose steps come to an end, with the second run in any related state.
  induction m, p using run_induction env request generalizing m' p' with
  | step m p ih =>
    have hends := hstep m m' hm p p' hp
    rw [runFrom_eq_bind, runFrom_eq_bind, Process.run_bind, Process.run_bind]
    rcases hrun : (m.step env request).run p with ⟨r, q⟩
    rcases hrun' : (m'.step env' request').run p' with ⟨r', q'⟩
    rw [hrun, hrun'] at hends
    rcases hends with ⟨e, he, hr⟩ | ⟨hr, hq⟩
    · cases hr
      exact .inl ⟨e, he, rfl⟩
    · cases hr with
      | stopped e => exact .inr ⟨.stopped e, hq⟩
      | value ht =>
        cases ht with
        | next hnext => exact ih _ _ hrun hnext _ hq
        | done hdone => exact .inr ⟨.value hdone, hq⟩

/-! ## Related places -/

/-- Fetch the policy to which a domain-spec leads, with the name at which it is found. -/
def fetchTarget (env : Environment) (request : Request) (domain : String) (target : MacroString) :
    Evaluation (Policy × String) := do
  let name ← Evaluation.ofLookup (targetName env request domain target)
  let policy ← fetchPolicy env name
  return (policy, name)

/-- A policy leads to a target by an inclusion or by a redirection. -/
inductive Policy.LeadsTo (policy : Policy) (target : MacroString) : Prop where
  | inclusion {qualifier : Qualifier} :
      ⟨qualifier, .includePolicy target⟩ ∈ policy.directives → LeadsTo policy target
  | redirect : policy.redirect? = some target → LeadsTo policy target

section

variable {P : Policy → String → Policy → String → Prop}

variable (P) in
/-- Suspended policies that correspond: they are related at their domains, and go on with the
same of their directives. -/
structure Frame.Alike (f f' : Frame) : Prop where
  place : P f.policy f.domain f'.policy f'.domain
  qualifier : f.qualifier = f'.qualifier
  rest : f.rest = f'.rest
  own : f.rest ⊆ f.policy.directives

variable (P) in
/-- Machines that correspond: their policies are related at their domains, those of suspended
policies, too, and the same of their directives are still to be looked at. -/
structure Machine.Alike (m m' : Machine) : Prop where
  place : P m.policy m.domain m'.policy m'.domain
  todo : m.todo = m'.todo
  own : m.todo ⊆ m.policy.directives
  stack : List.Forall₂ (Frame.Alike P) m.stack m'.stack

variable (P) in
/-- The same verdict, given on policies that are related at their domains. -/
structure Finish.Alike (f f' : Finish) : Prop where
  verdict : f.verdict = f'.verdict
  place : P f.policy f.domain f'.policy f'.domain

/-- The same verdict on related policies leads to machines or ends that correspond. -/
theorem Machine.leave_alike (v : Verdict) {policy policy' : Policy} {domain domain' : String}
    {stack stack' : List Frame} (hplace : P policy domain policy' domain')
    (hstack : List.Forall₂ (Frame.Alike P) stack stack') :
    Transition.Alike (Machine.Alike P) (Finish.Alike P) (leave v policy domain stack)
      (leave v policy' domain' stack') := by
  induction hstack generalizing v policy policy' domain domain' with
  | nil => exact .done ⟨rfl, hplace⟩
  | cons hframe hstack ih =>
    unfold leave
    rw [← hframe.qualifier, ← hframe.rest]
    split
    · exact ih _ hframe.place
    · exact .next ⟨hframe.place, rfl, hframe.own, hstack⟩

/-- What the steps of one evaluation need to be followed by those of another on policies that
are related at their domains: the same terms match, what is found at the targets is related, and
the counts end alike, unless the first stops for an excused reason. -/
structure StepCoupling (env env' : Environment) (request request' : Request)
    (R : Traffic → Traffic → Prop) (B : Budget → Budget → Prop) (excused : Abort → Prop)
    (P : Policy → String → Policy → String → Prop) : Prop where
  directives : ∀ {policy domain policy' domain'}, P policy domain policy' domain' →
    policy.directives = policy'.directives
  redirect : ∀ {policy domain policy' domain'}, P policy domain policy' domain' →
    policy.redirect? = policy'.redirect?
  charge : Simulates (Progress.Related R B) Eq excused charge charge
  /-- The limits of inclusion are the same, or it is excused to reach the smaller one. -/
  depth : env.settings.maxIncludeDepth = env'.settings.maxIncludeDepth ∨
    env.settings.maxIncludeDepth ≤ env'.settings.maxIncludeDepth ∧
      excused (.stopped (.fault .tooDeep))
  matching : ∀ {policy domain policy' domain'}, P policy domain policy' domain' →
    ∀ d ∈ policy.directives, Simulates (Progress.Related R B) Eq excused
      (d.mechanism.matches env request domain) (d.mechanism.matches env' request' domain')
  target : ∀ {policy domain policy' domain'}, P policy domain policy' domain' →
    ∀ target, policy.LeadsTo target → Simulates (Progress.Related R B)
      (fun found found' => P found.1 found.2 found'.1 found'.2) excused
      (fetchTarget env request domain target) (fetchTarget env' request' domain' target)

namespace StepCoupling

variable {env env' : Environment} {request request' : Request} {R : Traffic → Traffic → Prop}
  {B : Budget → Budget → Prop} {excused : Abort → Prop} {policy policy' : Policy}
  {domain domain' : String} {m m' : Machine}
  (h : StepCoupling env env' request request' R B excused P)
include h

/-- A machine at the start of a policy corresponds to one at the start of a related policy. -/
theorem enter {stack stack' : List Frame} (hplace : P policy domain policy' domain')
    (hstack : List.Forall₂ (Frame.Alike P) stack stack') :
    Machine.Alike P (.enter policy domain stack) (.enter policy' domain' stack') :=
  ⟨hplace, h.directives hplace, fun _ hd => hd, hstack⟩

/-- Entering the policy at a target is followed. -/
theorem enterTarget (hplace : P policy domain policy' domain') {target : MacroString}
    (htarget : policy.LeadsTo target) {stack stack' : List Frame}
    (hstack : List.Forall₂ (Frame.Alike P) stack stack') :
    Simulates (Progress.Related R B) (Transition.Alike (Machine.Alike P) (Finish.Alike P)) excused
      (do
        let name ← Evaluation.ofLookup (targetName env request domain target)
        let policy ← fetchPolicy env name
        return .next (Machine.enter policy name stack))
      (do
        let name ← Evaluation.ofLookup (targetName env' request' domain' target)
        let policy ← fetchPolicy env' name
        return .next (Machine.enter policy name stack')) := by
  have hentered : Simulates (Progress.Related R B)
      (Transition.Alike (Machine.Alike P) (Finish.Alike P)) excused
      (fetchTarget env request domain target >>= fun found =>
        return .next (Machine.enter found.1 found.2 stack))
      (fetchTarget env' request' domain' target >>= fun found =>
        return .next (Machine.enter found.1 found.2 stack')) := by
    apply Simulates.bind (h.target hplace target htarget)
    intro found found' hfound
    exact .pure (.next (h.enter hfound hstack))
  simpa only [fetchTarget, Process.bind_assoc, pure_bind] using hentered

/-- Following an inclusion is followed. -/
theorem suspend (hm : m.Alike P m') {qualifier : Qualifier} {target : MacroString}
    {rest : List Directive} (htodo : m.todo = ⟨qualifier, .includePolicy target⟩ :: rest) :
    Simulates (Progress.Related R B) (Transition.Alike (Machine.Alike P) (Finish.Alike P)) excused
      (m.suspend env request qualifier target rest)
      (m'.suspend env' request' qualifier target rest) := by
  have hown : ⟨qualifier, .includePolicy target⟩ ∈ m.policy.directives ∧
      rest ⊆ m.policy.directives := by
    rw [← List.cons_subset, ← htodo]
    exact hm.own
  apply Simulates.bind_eq h.charge
  intro _
  have hframe : Frame.Alike P ⟨m.policy, m.domain, qualifier, rest⟩
      ⟨m'.policy, m'.domain, qualifier, rest⟩ := ⟨hm.place, rfl, rfl, hown.2⟩
  have htarget := h.enterTarget hm.place (.inclusion hown.1) (.cons hframe hm.stack)
  rw [← hm.stack.length_eq]
  rcases h.depth with heq | ⟨hle, hexcused⟩
  · rw [heq]
    exact .ite (.stop _) htarget
  · by_cases hdeep : env.settings.maxIncludeDepth.toNat ≤ m.stack.length
    · rw [if_pos hdeep]
      exact .excuse hexcused _
    · have hle' : env.settings.maxIncludeDepth.toNat ≤ env'.settings.maxIncludeDepth.toNat :=
        UInt32.le_iff_toNat_le.1 hle
      have hdeep' : ¬ env'.settings.maxIncludeDepth.toNat ≤ m.stack.length := by omega
      rw [if_neg hdeep, if_neg hdeep']
      exact htarget

/-- Every step is followed. -/
theorem step (hm : m.Alike P m') :
    Simulates (Progress.Related R B) (Transition.Alike (Machine.Alike P) (Finish.Alike P)) excused
      (m.step env request) (m'.step env' request') := by
  unfold Machine.step
  rw [← hm.todo, ← h.redirect hm.place]
  split
  · split
    next target htarget =>
      exact .bind_eq h.charge fun _ => h.enterTarget hm.place (.redirect htarget) hm.stack
    next => exact .pure (Machine.leave_alike _ hm.place hm.stack)
  next htodo => exact h.suspend hm htodo
  next qualifier mechanism rest _ htodo =>
    have hown : ⟨qualifier, mechanism⟩ ∈ m.policy.directives ∧ rest ⊆ m.policy.directives := by
      rw [← List.cons_subset, ← htodo]
      exact hm.own
    apply Simulates.bind_eq (h.matching hm.place _ hown.1)
    intro matched
    apply Simulates.ite
    · exact .pure (Machine.leave_alike _ hm.place hm.stack)
    · exact .pure (.next ⟨hm.place, rfl, hown.2, hm.stack⟩)

/-- The evaluation of a policy is followed by that of a related one. -/
theorem evaluate (hplace : P policy domain policy' domain') :
    Simulates (Progress.Related R B) (Finish.Alike P) excused
      (Machine.evaluate env request policy domain)
      (Machine.evaluate env' request' policy' domain') :=
  Machine.simulates_run (fun _ _ hm => h.step hm) (h.enter hplace .nil)

end StepCoupling

end

/-! ### Names at places -/

section

variable {env env' : Environment} {request request' : Request} {R : Traffic → Traffic → Prop}
  {B : Budget → Budget → Prop} {excused : Abort → Prop} {N : String → String → Prop}
  {domain domain' : String}

/-- A mechanism matches alike if the names of its target are related, and its tests for related
names are followed. -/
theorem Mechanism.simulates_matches {m : Mechanism}
    (hname : Simulates R N never (targetNameOr env request domain m.target?)
      (targetNameOr env' request' domain' m.target?))
    (htest : ∀ name name', N name name' → Simulates (Progress.Related R B) Eq excused
      (m.test env request name) (m.test env' request' name')) :
    Simulates (Progress.Related R B) Eq excused (m.matches env request domain)
      (m.matches env' request' domain') := by
  apply Simulates.bind (Evaluation.simulates_ofLookup hname)
  intro name name' hname
  exact htest name name' hname

/-- What is found at a target is related if the names are, and what is found at related names. -/
theorem simulates_fetchTarget {P : Policy → String → Policy → String → Prop}
    {target : MacroString}
    (hname : Simulates R N never (targetName env request domain target)
      (targetName env' request' domain' target))
    (hfetch : ∀ name name', N name name' → Simulates (Progress.Related R B)
      (fun policy policy' => P policy name policy' name') excused (fetchPolicy env name)
      (fetchPolicy env' name')) :
    Simulates (Progress.Related R B)
      (fun found found' => P found.1 found.2 found'.1 found'.2) excused
      (fetchTarget env request domain target) (fetchTarget env' request' domain' target) := by
  apply Simulates.bind (Evaluation.simulates_ofLookup hname)
  intro name name' hname
  apply Simulates.bind (hfetch name name' hname)
  intro policy policy' hplace
  exact .pure hplace

end

/-! ## Evaluations of one request -/

/-- What the search for hosts needs in one environment to be followed by that in another:
lookups of anything but texts end alike, and so do the counts, unless the first stops for an
excused reason. -/
structure HostCoupling (env env' : Environment) (R : Traffic → Traffic → Prop)
    (B : Budget → Budget → Prop) (excused : Abort → Prop) : Prop where
  receiver : env.settings.receiver = env'.settings.receiver
  timestamp : env.timestamp = env'.timestamp
  lookup : ∀ (k : Dns.Kind), k ≠ .txt → k ≠ .spf → ∀ owner : k.Owner,
    Simulates R Eq never (lookup env k owner) (lookup env' k owner)
  charge : Simulates (Progress.Related R B) Eq excused charge charge
  chargeVoid : Simulates (Progress.Related R B) Eq excused chargeVoid chargeVoid

namespace HostCoupling

variable {env env' : Environment} {R : Traffic → Traffic → Prop} {B : Budget → Budget → Prop}
  {excused : Abort → Prop} (h : HostCoupling env env' R B excused) (request : Request)
include h

/-! ### Lookups -/

/-- Names are resolved alike in coupled environments. -/
theorem resolvesNear (client : Address) (mask4 : BitVec 32) (mask6 : BitVec 128)
    (name : String) : Simulates R Eq never (resolvesNear env client mask4 mask6 name)
      (resolvesNear env' client mask4 mask6 name) := by
  cases client with
  | v4 a => exact .bind_eq (h.lookup .a nofun nofun name) fun _ => .pure rfl
  | v6 a => exact .bind_eq (h.lookup .aaaa nofun nofun name) fun _ => .pure rfl

theorem confirmNames (client : Address) (names : List String) :
    Simulates R Eq never (confirmNames env client names) (confirmNames env' client names) := by
  induction names with
  | nil => exact .pure rfl
  | cons name rest ih =>
    unfold SenderPolicy.confirmNames
    apply Simulates.bind_eq (Lookup.simulates_attempt (h.resolvesNear client _ _ name))
    intro r
    cases r with
    | ok near =>
      cases near with
      | true => exact .bind_eq ih fun _ => .pure rfl
      | false => exact ih
    | error f => exact .ite ih (.stop _)

theorem confirmedNames (client : Address) :
    Simulates R Eq never (confirmedNames env client) (confirmedNames env' client) :=
  .bind_eq (h.lookup .ptr nofun nofun client) fun _ => h.confirmNames client _

/-- The same name of the client is found. -/
theorem validatedName (client : Address) (domain : String) :
    Simulates R Eq never (validatedName env client domain) (validatedName env' client domain) := by
  apply Simulates.bind_eq (Lookup.simulates_attempt (h.confirmedNames client))
  intro r
  cases r <;> exact .pure rfl

/-- The same properties stand for the letters. -/
theorem bindings_eq (domain validated : String) :
    bindings env request domain validated = bindings env' request domain validated := by
  unfold bindings
  rw [h.receiver, h.timestamp]

/-- Macro strings get the same properties. -/
theorem bindingsFor (domain : String) (m : MacroString) :
    Simulates R Eq never (bindingsFor env request domain m)
      (bindingsFor env' request domain m) := by
  refine .ite (.bind_eq (h.validatedName _ domain) fun validated => .pure ?_) (.pure ?_)
  · exact h.bindings_eq request domain validated
  · exact h.bindings_eq request domain ""

theorem targetName (domain : String) (m : MacroString) :
    Simulates R Eq never (targetName env request domain m) (targetName env' request domain m) :=
  .bind_eq (h.bindingsFor request domain m) fun _ => .pure rfl

theorem targetNameOr (domain : String) (target : Option MacroString) :
    Simulates R Eq never (targetNameOr env request domain target)
      (targetNameOr env' request domain target) := by
  cases target with
  | none => exact .pure rfl
  | some target => exact h.targetName request domain target

theorem hasAddress (name : String) :
    Simulates R Eq never (hasAddress env name) (hasAddress env' name) := by
  apply Simulates.bind_eq (Lookup.simulates_attempt (h.lookup .a nofun nofun name))
  intro r
  cases r with
  | ok records => exact .pure rfl
  | error f => exact .ite (.pure rfl) (.stop _)

/-! ### Terms -/

omit h in
theorem fail {α : Type} (f : Fault) :
    Simulates (Progress.Related R B) Eq excused (Evaluation.fail f : Evaluation α)
      (Evaluation.fail f) :=
  .stop _

/-- Missing answers are counted alike, if the budgets count alike. -/
theorem orVoid {α : Type} {x y : Lookup α} (fallback : α) (hx : Simulates R Eq never x y) :
    Simulates (Progress.Related R B) Eq excused (orVoid x fallback) (orVoid y fallback) := by
  apply Simulates.bind_eq (Evaluation.simulates_ofLookup (Lookup.simulates_attempt hx))
  intro r
  cases r with
  | ok a => exact .pure rfl
  | error f => exact .ite (.bind_eq h.chargeVoid fun _ => .pure rfl) (fail f)

/-- Mail exchangers match alike. -/
theorem matchesExchange (client : Address) (mask4 : BitVec 32) (mask6 : BitVec 128)
    (l : List Dns.MailExchange) :
    Simulates (Progress.Related R B) Eq excused (matchesExchange env client mask4 mask6 l)
      (matchesExchange env' client mask4 mask6 l) := by
  induction l with
  | nil => exact .pure rfl
  | cons x rest ih =>
    unfold SenderPolicy.matchesExchange
    refine .ite ih (.bind_eq h.charge fun _ => ?_)
    apply Simulates.bind_eq (Evaluation.simulates_ofLookup (Lookup.simulates_attempt
      (h.resolvesNear client mask4 mask6 x.exchange)))
    intro r
    cases r with
    | ok near =>
      cases near with
      | true => exact .pure rfl
      | false => exact ih
    | error f => exact .ite ih (fail f)

theorem matchesExistence (name : String) :
    Simulates (Progress.Related R B) Eq excused (matchesExistence env name)
      (matchesExistence env' name) := by
  apply Simulates.bind_eq (Evaluation.simulates_ofLookup (h.hasAddress name))
  intro found
  exact .ite (.pure rfl) (.bind_eq h.chargeVoid fun _ => .pure rfl)

/-- Mechanisms match alike for one name. -/
theorem test (m : Mechanism) (name : String) :
    Simulates (Progress.Related R B) Eq excused (m.test env request name)
      (m.test env' request name) := by
  cases m with
  | all => exact .pure rfl
  | includePolicy target => exact .pure rfl
  | ip4 net mask => exact .pure rfl
  | ip6 net mask => exact .pure rfl
  | a target mask4 mask6 =>
    refine .bind_eq h.charge fun _ => .ite ?_ (.pure rfl)
    exact h.orVoid false (h.resolvesNear _ _ _ name)
  | mx target mask4 mask6 =>
    refine .bind_eq h.charge fun _ => .ite (.bind_eq ?_ fun l => ?_) (.pure rfl)
    · exact h.orVoid [] (h.lookup .mx nofun nofun name)
    · exact h.matchesExchange _ _ _ l
  | ptr target =>
    apply Simulates.bind_eq h.charge
    intro _
    exact .bind_eq (h.orVoid [] (h.confirmedNames _)) fun _ => .pure rfl
  | existsName target =>
    exact .bind_eq h.charge fun _ => .ite (h.matchesExistence name) (.pure rfl)

end HostCoupling

/-- What an evaluation in one environment needs to be followed by one of the same request
in another: the two look for the same things, their lookups end alike, and so do their
counts, unless the first stops for an excused reason. -/
structure Coupling (env env' : Environment) (R : Traffic → Traffic → Prop)
    (B : Budget → Budget → Prop) (excused : Abort → Prop) : Prop where
  asksType99 : env.settings.asksType99 = env'.settings.asksType99
  receiver : env.settings.receiver = env'.settings.receiver
  timestamp : env.timestamp = env'.timestamp
  lookup : ∀ (k : Dns.Kind) (owner : k.Owner),
    Simulates R Eq never (lookup env k owner) (lookup env' k owner)
  charge : Simulates (Progress.Related R B) Eq excused charge charge
  chargeVoid : Simulates (Progress.Related R B) Eq excused chargeVoid chargeVoid
  /-- The limits of inclusion are the same, or it is excused to reach the smaller one. -/
  depth : env.settings.maxIncludeDepth = env'.settings.maxIncludeDepth ∨
    env.settings.maxIncludeDepth ≤ env'.settings.maxIncludeDepth ∧
      excused (.stopped (.fault .tooDeep))

namespace Coupling

variable {env env' : Environment} {R : Traffic → Traffic → Prop} {B : Budget → Budget → Prop}
  {excused : Abort → Prop} (h : Coupling env env' R B excused) (request : Request)
include h

/-- The search for hosts is followed. -/
theorem host : HostCoupling env env' R B excused where
  receiver := h.receiver
  timestamp := h.timestamp
  lookup k _ _ owner := h.lookup k owner
  charge := h.charge
  chargeVoid := h.chargeVoid

theorem lookupAll (k : Dns.Kind) (owner : k.Owner) :
    Simulates R Eq never (lookupAll env k owner) (lookupAll env' k owner) := by
  apply Simulates.bind_eq (Lookup.simulates_attempt (h.lookup k owner))
  intro r
  cases r with
  | ok records => exact .pure rfl
  | error f => exact .ite (.pure rfl) (.stop _)

omit h in
theorem ofExcept {α : Type} (r : Except Fault α) :
    Simulates R Eq never (Lookup.ofExcept r) (Lookup.ofExcept r) := by
  cases r with
  | ok a => exact .pure rfl
  | error f => exact .stop _

/-- The same policy is found. -/
theorem lookupPolicy (domain : String) :
    Simulates R Eq never (lookupPolicy env domain) (lookupPolicy env' domain) := by
  unfold SenderPolicy.lookupPolicy
  rw [← h.asksType99]
  apply Simulates.bind_eq (h.lookupAll .txt domain)
  intro records
  split
  · exact .ite (.bind_eq (h.lookupAll .spf domain) fun _ => ofExcept _) (.stop _)
  · exact ofExcept _

theorem lookupExplanation (name : String) :
    Simulates R Eq never (lookupExplanation env name) (lookupExplanation env' name) := by
  apply Simulates.bind_eq (h.lookup .txt name)
  intro records
  split
  · split
    · exact .pure rfl
    · exact .stop _
  · exact .stop _

theorem explainFinish (finish : Finish) :
    Simulates R Eq never (explainFinish env request finish)
      (explainFinish env' request finish) := by
  unfold SenderPolicy.explainFinish
  split
  next target _ _ =>
    have hexpand : Simulates R Eq never (expandExplanation env request finish.domain target)
        (expandExplanation env' request finish.domain target) := by
      refine .bind_eq (h.host.targetName request _ target) fun name => .ite ?_ (.pure rfl)
      apply Simulates.bind_eq (h.lookupExplanation name)
      intro text
      exact .bind_eq (h.host.bindingsFor request _ text) fun _ => .pure rfl
    apply Simulates.bind_eq (Lookup.simulates_attempt hexpand)
    intro r
    cases r <;> exact .pure rfl
  · exact .pure rfl

theorem fetchPolicy (name : String) :
    Simulates (Progress.Related R B) Eq excused (fetchPolicy env name) (fetchPolicy env' name) := by
  refine .ite ?_ (.stop _)
  apply Simulates.bind_eq (Evaluation.simulates_ofLookup (Lookup.simulates_attempt
    (h.lookupPolicy name)))
  intro r
  cases r with
  | ok policy => exact .pure rfl
  | error f => exact .ite (.stop _) (.stop _)

/-- The steps of the same evaluation are followed. -/
theorem steps : StepCoupling env env' request request R B excused
    (fun policy domain policy' domain' => policy = policy' ∧ domain = domain') where
  directives hplace := congrArg Policy.directives hplace.1
  redirect hplace := congrArg Policy.redirect? hplace.1
  charge := h.charge
  depth := h.depth
  matching := by
    rintro policy domain _ _ ⟨rfl, rfl⟩ d -
    apply Mechanism.simulates_matches (h.host.targetNameOr request domain _)
    rintro name _ rfl
    exact h.host.test request _ name
  target := by
    rintro policy domain _ _ ⟨rfl, rfl⟩ target -
    apply simulates_fetchTarget
      (P := fun policy domain policy' domain' => policy = policy' ∧ domain = domain')
      (h.host.targetName request domain target)
    rintro name _ rfl
    exact (h.fetchPolicy name).mono (fun _ _ hpolicy => ⟨hpolicy, rfl⟩) fun _ he => he

/-- The evaluation of a policy is followed. -/
theorem evaluate (policy : Policy) (domain : String) :
    Simulates (Progress.Related R B) Eq excused (Machine.evaluate env request policy domain)
      (Machine.evaluate env' request policy domain) := by
  refine ((h.steps request).evaluate ⟨rfl, rfl⟩).mono ?_ fun _ he => he
  rintro ⟨v, policy, domain⟩ ⟨v', policy', domain'⟩ ⟨hverdict, hpolicy, hdomain⟩
  cases hverdict
  cases hpolicy
  cases hdomain
  rfl

/-- The evaluation of a request is followed. -/
theorem evaluateRequest :
    Simulates (Progress.Related R B) Eq excused (evaluateRequest env request)
      (evaluateRequest env' request) := by
  refine .ite ?_ (.pure rfl)
  apply Simulates.bind_eq (Evaluation.simulates_ofLookup (h.lookupPolicy _))
  intro policy
  apply Simulates.bind_eq (h.evaluate request policy _)
  intro finish
  exact .bind_eq (Evaluation.simulates_ofLookup (h.explainFinish request finish)) fun _ => .pure rfl

end Coupling

end SenderPolicy
