import Mathlib.Data.Int.Order.Basic
import Mathlib.Order.Nat
import SenderPolicy.Proofs.Run

/-!
# How many questions are asked

A policy may make the host that checks it ask questions of others, and how many is
up to the policy. Questions are tied here to the charges of the budget: a term that
is charged asks at most eleven questions before it is charged, for the confirmed
name of the client, and at most eleven after it. The policy of the requested domain
and the explanation are looked for at no charge.

Main definitions:

- `Asks`: the lookups that ask a number of questions at most;
- `Spends`: the processes whose questions are paid for by what they take from the
  budget, up to a rest that depends on how they end.

Main results:

- `Asks.targetName`, `Asks.lookupPolicy`, `Asks.explainFinish`: bounds on lookups;
- `Spends.step`, `Spends.run`: every step is paid for by its charges, and so is a run;
- `verify_asks_le`: the bound on a verification.
-/

namespace SenderPolicy

variable {α β : Type} {env : Environment} {request : Request}

/-! ## Lookups -/

/-- A lookup only adds to the questions asked, and adds a number of them at most. -/
def Asks (n : Nat) (x : Lookup α) : Prop :=
  ∀ t, ∃ asked, (x.run t).2.log = asked ++ t.log ∧ asked.length ≤ n

namespace Asks

variable {m n : Nat}

/-- A lookup that leaves the questions as they are asks none. -/
theorem of_log_eq {x : Lookup α} (h : ∀ t, (x.run t).2.log = t.log) : Asks n x :=
  fun t => ⟨[], h t, Nat.zero_le n⟩

theorem pure (a : α) : Asks n (Pure.pure a : Lookup α) := of_log_eq fun _ => rfl

theorem fail (f : Fault) : Asks n (Lookup.fail f : Lookup α) := of_log_eq fun _ => rfl

theorem mono {x : Lookup α} (h : Asks m x) (hmn : m ≤ n) : Asks n x := by
  intro t
  obtain ⟨asked, hlog, hle⟩ := h t
  exact ⟨asked, hlog, hle.trans hmn⟩

/-- What follows a lookup may ask what that has left over. -/
theorem bind {x : Lookup α} {f : α → Lookup β} (hmn : m ≤ n) (hx : Asks m x)
    (hf : ∀ a, Asks (n - m) (f a)) : Asks n (x >>= f) := by
  intro t
  obtain ⟨asked, hlog, hle⟩ := hx t
  rw [Process.run_bind]
  rcases hrun : x.run t with ⟨e | a, t'⟩
  · rw [hrun] at hlog
    exact ⟨asked, hlog, hle.trans hmn⟩
  · rw [hrun] at hlog
    obtain ⟨asked', hlog', hle'⟩ := hf a t'
    refine ⟨asked' ++ asked, ?_, ?_⟩
    · rw [hlog', hlog, List.append_assoc]
    · rw [List.length_append]
      omega

theorem ite {c : Prop} [Decidable c] {x y : Lookup α} (hx : Asks n x) (hy : Asks n y) :
    Asks n (if c then x else y) := by
  split <;> assumption

/-- Handling a fault asks nothing. -/
theorem attempt {x : Lookup α} (h : Asks n x) : Asks n x.attempt := by
  intro t
  obtain ⟨asked, hlog, hle⟩ := h t
  refine ⟨asked, ?_, hle⟩
  rw [← hlog, Lookup.run_attempt]
  rcases x.run t with ⟨(f | i) | a, t'⟩ <;> rfl

theorem ofExcept (r : Except Fault α) : Asks n (Lookup.ofExcept r) := by
  cases r with
  | ok a => exact pure a
  | error f => exact fail f

/-- To ask is one question. -/
theorem ask (q : Dns.Question) : Asks 1 (ask env q) := by
  intro t
  refine ⟨[q], ?_, le_rfl⟩
  rw [run_ask]
  rfl

/-- A lookup asks at most one question. -/
theorem lookup (k : Dns.Kind) (owner : k.Owner) : Asks 1 (lookup env k owner) := by
  unfold SenderPolicy.lookup
  apply bind (Nat.zero_le 1) (of_log_eq fun _ => rfl)
  intro found
  cases found with
  | some records => exact pure records
  | none =>
    exact bind le_rfl (ask _) fun answer => bind le_rfl (of_log_eq fun _ => rfl) fun _ => pure _

/-- The addresses of a name are one question. -/
theorem resolvesNear (client : Address) (mask4 : BitVec 32) (mask6 : BitVec 128)
    (name : String) : Asks 1 (resolvesNear env client mask4 mask6 name) := by
  cases client with
  | v4 a => exact bind le_rfl (lookup .a name) fun _ => pure _
  | v6 a => exact bind le_rfl (lookup .aaaa name) fun _ => pure _

/-- Confirming names asks at most one question for each. -/
theorem confirmNames (client : Address) (names : List String) :
    Asks names.length (confirmNames env client names) := by
  induction names with
  | nil => exact pure []
  | cons name rest ih =>
    unfold SenderPolicy.confirmNames
    apply bind (Nat.le_add_left 1 _) (resolvesNear client _ _ name).attempt
    intro r
    match r with
    | .ok true => exact bind le_rfl ih fun _ => pure _
    | .ok false => exact ih
    | .error f => exact ih.ite (fail f)

/-- The confirmed names of the client take a question, and one more for each of the
first ten names. -/
theorem confirmedNames (client : Address) : Asks 11 (confirmedNames env client) := by
  refine bind (by omega) (lookup .ptr client) fun names => (confirmNames client _).mono ?_
  exact List.length_take_le maxClientNames names

/-- The name of the client takes a reverse lookup and the addresses of ten names. -/
theorem validatedName (client : Address) (domain : String) :
    Asks 11 (validatedName env client domain) := by
  apply bind le_rfl (confirmedNames client).attempt
  intro r
  cases r <;> exact pure _

/-- So do the properties for a macro string. -/
theorem bindingsFor (domain : String) (m : MacroString) :
    Asks 11 (bindingsFor env request domain m) :=
  ite (bind le_rfl (validatedName _ _) fun _ => pure _) (pure _)

/-- So does the name that a domain-spec stands for. -/
theorem targetName (domain : String) (m : MacroString) :
    Asks 11 (targetName env request domain m) :=
  bind le_rfl (bindingsFor domain m) fun _ => pure _

theorem targetNameOr (domain : String) (m : Option MacroString) :
    Asks 11 (targetNameOr env request domain m) := by
  cases m with
  | none => exact pure domain
  | some m => exact targetName domain m

theorem lookupAll (k : Dns.Kind) (owner : k.Owner) : Asks 1 (lookupAll env k owner) := by
  apply bind le_rfl (lookup k owner).attempt
  intro r
  cases r with
  | ok records => exact pure records
  | error f => exact (pure []).ite (fail f)

/-- The policy of a domain takes at most two questions. -/
theorem lookupPolicy (domain : String) : Asks 2 (lookupPolicy env domain) := by
  unfold SenderPolicy.lookupPolicy
  apply bind (by omega) (lookupAll .txt domain)
  intro records
  split
  · exact (bind le_rfl (lookupAll .spf domain) fun _ => ofExcept _).ite (fail _)
  · exact ofExcept _

theorem hasAddress (name : String) : Asks 1 (hasAddress env name) := by
  apply bind le_rfl (lookup .a name).attempt
  intro r
  cases r with
  | ok records => exact pure true
  | error f => exact (pure false).ite (fail f)

theorem lookupExplanation (name : String) : Asks 1 (lookupExplanation env name) := by
  apply bind le_rfl (lookup .txt name)
  intro records
  split
  · split
    · exact pure _
    · exact fail _
  · exact fail _

/-- The explanation of a failure takes at most one question, and twice those for the
confirmed names of the client. -/
theorem explain (domain : String) (target : MacroString) :
    Asks 23 (explain env request domain target) := by
  have hexpand : Asks 23 (expandExplanation env request domain target) := by
    refine bind (by omega) (targetName domain target) fun name => ite ?_ (pure none)
    apply bind (by omega) (lookupExplanation name)
    intro text
    exact bind le_rfl (bindingsFor domain text) fun _ => pure _
  apply bind le_rfl hexpand.attempt
  intro r
  cases r <;> exact pure _

/-- A failure is explained by two expansions and one question. -/
theorem explainFinish (finish : Finish) : Asks 23 (explainFinish env request finish) := by
  unfold SenderPolicy.explainFinish
  split
  · exact explain _ _
  · exact pure none

end Asks

/-! ## Evaluations -/

/-- The questions that a charge pays for. -/
def questionsPerCharge : Nat := 22

/-- Questions asked in the course of some progress are paid for by what it takes from
the budget, up to a rest. A negative rest is left for what follows. -/
def PaidFor (rest : Int) (p p' : Progress) : Prop :=
  ∃ asked, p'.traffic.log = asked ++ p.traffic.log ∧
    (asked.length + questionsPerCharge * p'.budget.remaining : Int) ≤
      questionsPerCharge * p.budget.remaining + rest

/-- The questions of a process are paid for up to one rest if it ends with a value,
and up to another if it stops. -/
def Settles (rest restIfStopped : Int) (p : Progress) : Except Abort α × Progress → Prop
  | (.ok _, p') => PaidFor rest p p'
  | (.error _, p') => PaidFor restIfStopped p p'

/-- A process whose questions are paid for, from any progress. -/
def Spends (rest restIfStopped : Int) (x : Evaluation α) : Prop :=
  ∀ p, Settles rest restIfStopped p (x.run p)

theorem PaidFor.mono {a b : Int} {p p' : Progress} (h : PaidFor a p p') (hab : a ≤ b) :
    PaidFor b p p' := by
  obtain ⟨asked, hlog, hle⟩ := h
  refine ⟨asked, hlog, ?_⟩
  omega

/-- Nothing asked and nothing taken is paid for. -/
theorem PaidFor.refl {a : Int} (ha : 0 ≤ a) {p p' : Progress}
    (hlog : p'.traffic.log = p.traffic.log) (hbudget : p'.budget.remaining = p.budget.remaining) :
    PaidFor a p p' := by
  refine ⟨[], hlog, ?_⟩
  rw [hbudget, List.length_nil]
  omega

/-- What is asked one time after the other is paid for in all. -/
theorem PaidFor.trans {a b : Int} {p p' p'' : Progress} (h : PaidFor a p p')
    (h' : PaidFor b p' p'') : PaidFor (a + b) p p'' := by
  obtain ⟨asked, hlog, hle⟩ := h
  obtain ⟨asked', hlog', hle'⟩ := h'
  refine ⟨asked' ++ asked, ?_, ?_⟩
  · rw [hlog', hlog, List.append_assoc]
  · rw [List.length_append]
    push_cast
    omega

namespace Spends

variable {a b c : Int}

theorem pure (v : α) (ha : 0 ≤ a) : Spends a b (Pure.pure v : Evaluation α) :=
  fun _ => .refl ha rfl rfl

theorem stop (e : Abort) (hb : 0 ≤ b) : Spends a b (Process.stop e : Evaluation α) :=
  fun _ => .refl hb rfl rfl

theorem fail (f : Fault) (hb : 0 ≤ b) : Spends a b (Evaluation.fail f : Evaluation α) :=
  fun _ => .refl hb rfl rfl

/-- What follows a process may have what that has left over. -/
theorem bind {x : Evaluation α} {f : α → Evaluation β} (hx : Spends a c x)
    (hf : ∀ v, Spends (b - a) (c - a) (f v)) : Spends b c (x >>= f) := by
  intro p
  have hp := hx p
  rw [Process.run_bind]
  rcases hrun : x.run p with ⟨e | v, p'⟩
  · rw [hrun] at hp
    exact hp
  · rw [hrun] at hp
    have hp' := hf v p'
    dsimp only at hp ⊢
    rcases hrun' : (f v).run p' with ⟨e | w, p''⟩
    · rw [hrun'] at hp'
      exact (hp.trans hp').mono (by omega)
    · rw [hrun'] at hp'
      exact (hp.trans hp').mono (by omega)

theorem mono {a' b' : Int} {x : Evaluation α} (h : Spends a b x) (ha : a ≤ a') (hb : b ≤ b') :
    Spends a' b' x := by
  intro p
  have hp := h p
  rcases hrun : x.run p with ⟨e | v, p'⟩ <;> rw [hrun] at hp
  · exact hp.mono hb
  · exact hp.mono ha

theorem ite {d : Prop} [Decidable d] {x y : Evaluation α} (hx : Spends a b x)
    (hy : Spends a b y) : Spends a b (if d then x else y) := by
  split <;> assumption

/-- Lookups take nothing from the budget. -/
theorem ofLookup {n : Nat} {x : Lookup α} (h : Asks n x) (ha : n ≤ a) (hb : n ≤ b) :
    Spends a b (Evaluation.ofLookup x) := by
  intro p
  obtain ⟨asked, hlog, hle⟩ := h p.traffic
  rw [Evaluation.run_ofLookup]
  rcases hrun : x.run p.traffic with ⟨e | v, t⟩ <;>
  · rw [hrun] at hlog
    refine ⟨asked, hlog, ?_⟩
    dsimp only
    omega

/-- A charge pays for the questions that a charge pays for. -/
theorem charge (hb : 0 ≤ b) : Spends (-questionsPerCharge) b charge := by
  intro p
  rw [run_charge]
  cases hc : p.budget.charge with
  | error f => exact .refl hb rfl rfl
  | ok budget =>
    have hremaining := Budget.remaining_charge hc
    refine ⟨[], rfl, ?_⟩
    dsimp only [List.length_nil, questionsPerCharge]
    omega

/-- Counting a missing answer asks nothing. -/
theorem chargeVoid (ha : 0 ≤ a) (hb : 0 ≤ b) : Spends a b chargeVoid := by
  intro p
  rw [run_chargeVoid]
  by_cases hover : p.budget.addVoid.isOverVoid
  · rw [if_pos hover]
    exact .refl hb rfl rfl
  · rw [if_neg hover]
    exact .refl ha rfl rfl

/-- A lookup spends the questions that it asks. -/
theorem orVoid {n : Nat} {x : Lookup α} (fallback : α) (h : Asks n x) (ha : n ≤ a)
    (hb : n ≤ b) : Spends a b (orVoid x fallback) := by
  apply bind (ofLookup h.attempt (le_refl (n : Int)) hb)
  intro r
  cases r with
  | ok v => exact pure v (by omega)
  | error f =>
    refine ite ?_ (fail f (by omega))
    exact bind (chargeVoid le_rfl (by omega)) fun _ => pure fallback (by omega)

/-- The address of a name is one question beyond its charge. -/
theorem matchesExistence (name : String) : Spends 1 1 (matchesExistence env name) := by
  refine bind (ofLookup (Asks.hasAddress name) le_rfl le_rfl) fun r => ite (pure _ le_rfl) ?_
  exact bind (chargeVoid le_rfl le_rfl) fun _ => pure _ le_rfl

/-- The charge for each exchanger pays for the question about it. -/
theorem matchesExchange (client : Address) (mask4 : BitVec 32) (mask6 : BitVec 128)
    (l : List Dns.MailExchange) (ha : 0 ≤ a) (hb : 0 ≤ b) :
    Spends a b (matchesExchange env client mask4 mask6 l) := by
  induction l generalizing a b with
  | nil => exact pure false ha
  | cons x rest ih =>
    unfold SenderPolicy.matchesExchange
    refine ite (ih ha hb) (bind (charge hb) fun _ => ?_)
    have hasks : Asks 1 (resolvesNear env client mask4 mask6 x.exchange).attempt :=
      (Asks.resolvesNear client mask4 mask6 x.exchange).attempt
    simp only [questionsPerCharge]
    apply bind (ofLookup hasks le_rfl (by omega))
    intro r
    match r with
    | .ok true => exact pure true (by omega)
    | .ok false => exact ih (by omega) (by omega)
    | .error f => exact ite (ih (by omega) (by omega)) (fail f (by omega))

/-- A term is paid for by its charge, if it asks no more than eleven questions
before it, for the name that it is about, and no more than eleven after it. -/
theorem term {x : Lookup String} {y : String → Evaluation Bool} (hx : Asks 11 x)
    (hy : ∀ name, Spends 11 22 (y name)) :
    Spends 0 11 (do
      let name ← Evaluation.ofLookup x
      SenderPolicy.charge
      y name) := by
  apply bind (ofLookup hx le_rfl le_rfl)
  intro name
  exact bind (charge le_rfl) fun _ => hy name

/-- A mechanism about no name asks nothing. -/
theorem nameless {domain : String} {v : Bool} : Spends 0 11 (do
    let _ ← Evaluation.ofLookup (SenderPolicy.targetNameOr env request domain none)
    Pure.pure v) :=
  bind (ofLookup (n := 0) (Asks.pure domain) le_rfl (by omega)) fun _ => pure v le_rfl

/-- Every mechanism is paid for by its charges. -/
theorem mechanism (m : Mechanism) (domain : String) :
    Spends 0 11 (m.matches env request domain) := by
  cases m with
  | all => exact nameless
  | includePolicy target => exact nameless
  | ip4 net mask => exact nameless
  | ip6 net mask => exact nameless
  | a target mask4 mask6 =>
    refine term (Asks.targetNameOr domain target) fun name => ite ?_ (pure false (by omega))
    exact orVoid false (Asks.resolvesNear _ _ _ name) (by omega) (by omega)
  | mx target mask4 mask6 =>
    refine term (Asks.targetNameOr domain target) fun name => ite ?_ (pure false (by omega))
    apply bind (orVoid [] (Asks.lookup .mx name) (le_refl (1 : Int)) (by omega))
    intro l
    exact matchesExchange _ _ _ l (by omega) (by omega)
  | ptr target =>
    apply term (Asks.targetNameOr domain target)
    intro name
    apply bind (orVoid [] (Asks.confirmedNames _) (le_refl (11 : Int)) (by omega))
    intro l
    exact pure _ (by omega)
  | existsName target =>
    refine term (Asks.targetNameOr domain (some target)) fun name =>
      ite ?_ (pure false (by omega))
    exact (matchesExistence name).mono (by omega) (by omega)

/-- A policy is two questions. -/
theorem fetchPolicy (name : String) : Spends 2 2 (fetchPolicy env name) := by
  refine ite (bind (ofLookup (Asks.lookupPolicy name).attempt le_rfl le_rfl) fun r => ?_)
    (stop _ (by omega))
  cases r with
  | ok policy => exact pure policy le_rfl
  | error f => exact ite (stop _ le_rfl) (fail f le_rfl)

/-- Finding the policy at a target is paid for by a charge. -/
theorem target {m : MacroString} {domain : String} {f : String → Policy → Transition} :
    Spends questionsPerCharge 33 (do
      let name ← Evaluation.ofLookup (targetName env request domain m)
      let policy ← SenderPolicy.fetchPolicy env name
      return f name policy) := by
  apply bind (ofLookup (Asks.targetName domain m) (le_refl (11 : Int)) (by omega))
  intro name
  refine bind ((fetchPolicy name).mono le_rfl (by omega)) fun policy => pure _ ?_
  simp only [questionsPerCharge]
  omega

/-- Every step is paid for by its charges. -/
theorem step (m : Machine) : Spends 0 11 (m.step env request) := by
  unfold Machine.step
  split
  · split
    · exact bind (charge (by omega)) fun _ => target
    · exact pure _ le_rfl
  · exact bind (charge (by omega)) fun _ => ite (fail _ (by omega)) target
  · exact bind (mechanism _ _) fun _ => ite (pure _ le_rfl) (pure _ le_rfl)

/-- A run is paid for by the charges of its steps. -/
theorem run (m : Machine) (p : Progress) : Settles 0 11 p (m.runFrom env request p) := by
  induction m, p using Machine.run_induction env request with
  | step m p ih =>
    rw [Machine.runFrom_eq_bind, Process.run_bind]
    have hstep : Spends 0 11 (m.step env request) := step m
    replace hstep := hstep p
    rcases hrun : (m.step env request).run p with ⟨e | t, p'⟩ <;> rw [hrun] at hstep
    · exact hstep
    · cases t with
      | done finish => exact hstep
      | next m' =>
        have hrest := ih m' p' hrun
        dsimp only [Machine.onward, Process.run] at hstep ⊢
        rcases hnext : m'.runFrom env request p' with ⟨e | finish, p''⟩ <;> rw [hnext] at hrest
        · exact hstep.trans hrest
        · exact hstep.trans hrest

/-- Charges pay for an evaluation but for the names of the client at its end. -/
theorem evaluate (policy : Policy) (domain : String) :
    Spends 0 11 (Machine.evaluate env request policy domain) :=
  fun p => run (Machine.enter policy domain []) p

/-- The evaluation of a request is paid for, apart from finding the first policy and
the explanation. -/
theorem evaluateRequest : Spends 25 25 (evaluateRequest env request) := by
  refine ite ?_ (pure _ (by omega))
  apply bind (ofLookup (Asks.lookupPolicy _) (le_refl (2 : Int)) (by omega))
  intro policy
  apply bind ((evaluate policy _).mono le_rfl (by omega))
  intro finish
  exact bind (ofLookup (Asks.explainFinish finish) (le_refl (23 : Int)) le_rfl) fun _ =>
    pure _ le_rfl

end Spends

/-! ## Verifications -/

/-- The check of a host asks no more questions than the most charges pay for, and
twenty-five. -/
theorem checkHost_asks_le (env : Environment) (request : Request) (t : Traffic) :
    ∃ asked, ((checkHost env request).run t).2.log = asked ++ t.log ∧
      asked.length ≤ 22 * env.settings.maxLookups.toNat + 25 := by
  have hspends : Spends 25 25 (evaluateRequest env request) := Spends.evaluateRequest
  have hpaid : PaidFor 25 (.start env t)
      ((evaluateRequest env request).run (.start env t)).2 := by
    have h := hspends (.start env t)
    rcases hrun : (evaluateRequest env request).run (.start env t) with ⟨e | o, p⟩ <;>
      rwa [hrun] at h
  obtain ⟨asked, hlog, hle⟩ := hpaid
  rw [run_checkHost]
  refine ⟨asked, hlog, ?_⟩
  have hstart : (Progress.start env t).budget.remaining = env.settings.maxLookups.toNat :=
    Nat.sub_zero _
  rw [hstart, questionsPerCharge] at hle
  omega

/-- A verification sends no more than twenty-two questions for each lookup that the
settings allow, and twenty-five, whatever is in the caches and whatever is answered. -/
theorem verify_asks_le (env : Environment) (request : Request) (t : Traffic) :
    ∃ asked, ((verify env request).run t).2.log = asked ++ t.log ∧
      asked.length ≤ 22 * env.settings.maxLookups.toNat + 25 := by
  obtain ⟨asked, hlog, hle⟩ := checkHost_asks_le env.timed request { t with waited := 0 }
  refine ⟨asked, ?_, hle⟩
  rw [run_verify, ← hlog]
  rcases (checkHost env.timed request).run { t with waited := 0 } with ⟨e | o, t'⟩ <;> rfl

end SenderPolicy
