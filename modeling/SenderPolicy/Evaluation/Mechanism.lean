import SenderPolicy.Evaluation.Budget
import SenderPolicy.Evaluation.ClientName
import SenderPolicy.Policy.Lookup

/-!
# Matching clients

Whether a mechanism other than an inclusion matches the client. Terms that ask
questions are charged to the budget before they ask; the names of the client are
looked for at no charge.

Main definitions:

- `Progress`, `Evaluation`: traffic and budget, and processes on them;
- `charge`, `chargeVoid`: counting a term and a missing answer;
- `Mechanism.test`, `Mechanism.matches`: whether a mechanism matches the client.

Main results:

- `Thrifty`: the processes that never add to what is left of the budget;
- `Mechanism.thrifty_matches`: matching is one of them.
-/

namespace SenderPolicy

/-! ## Processes of an evaluation -/

/-- What an evaluation changes. -/
structure Progress where
  traffic : Traffic
  budget : Budget

/-- Why an evaluation ends early. -/
inductive Abort where
  | stopped (s : Stop)
  /-- The target of an inclusion or redirection has no policy. -/
  | noPolicy
  deriving DecidableEq, Repr

/-- A process on the progress of an evaluation. -/
abbrev Evaluation (α : Type) := Process Progress Abort α

namespace Evaluation

/-- End early with a fault. -/
def fail {α : Type} (f : Fault) : Evaluation α := Process.stop (.stopped (.fault f))

/-- A lookup as part of an evaluation. -/
def ofLookup {α : Type} (x : Lookup α) : Evaluation α :=
  Process.within Progress.traffic (fun t p => { p with traffic := t }) .stopped x

end Evaluation

/-- Charge a term that asks questions. -/
def charge : Evaluation Unit := fun p =>
  match p.budget.charge with
  | .ok b => (.ok (), { p with budget := b })
  | .error f => (.error (.stopped (.fault f)), p)

@[simp] theorem run_charge (p : Progress) : charge.run p = match p.budget.charge with
    | .ok b => (.ok (), { p with budget := b })
    | .error f => (.error (.stopped (.fault f)), p) := rfl

/-- Count a question without an answer. -/
def chargeVoid : Evaluation Unit := fun p =>
  let b := p.budget.addVoid
  (if b.isOverVoid then .error (.stopped (.fault .tooManyVoidLookups)) else .ok (),
    { p with budget := b })

@[simp] theorem run_chargeVoid (p : Progress) : chargeVoid.run p =
    if p.budget.addVoid.isOverVoid then
      (.error (.stopped (.fault .tooManyVoidLookups)), { p with budget := p.budget.addVoid })
    else (.ok (), { p with budget := p.budget.addVoid }) := by
  simp only [Process.run, chargeVoid]
  split <;> rfl

/-! ## Mechanisms that ask questions -/

/-- The value of a lookup, where no answer counts as a missing one and gives
`fallback`. -/
def orVoid {α : Type} (x : Lookup α) (fallback : α) : Evaluation α := do
  match ← Evaluation.ofLookup x.attempt with
  | .ok a => pure a
  | .error f =>
    if f.isNotFound then do
      chargeVoid
      pure fallback
    else Evaluation.fail f

/-- Whether a name has an address near that of the client. -/
def matchesAddress (env : Environment) (client : Address) (mask4 : BitVec 32)
    (mask6 : BitVec 128) (name : String) : Evaluation Bool :=
  orVoid (resolvesNear env client mask4 mask6 name) false

/-- Whether one of the mail exchangers has an address near that of the client.
Each exchanger with a name is charged; one without addresses is passed over. -/
def matchesExchange (env : Environment) (client : Address) (mask4 : BitVec 32)
    (mask6 : BitVec 128) : List Dns.MailExchange → Evaluation Bool
  | [] => pure false
  | x :: rest =>
    if x.exchange.isEmpty then matchesExchange env client mask4 mask6 rest
    else do
      charge
      match ← Evaluation.ofLookup (resolvesNear env client mask4 mask6 x.exchange).attempt with
      | .ok true => pure true
      | .ok false => matchesExchange env client mask4 mask6 rest
      | .error f =>
        if f.isNotFound then matchesExchange env client mask4 mask6 rest
        else Evaluation.fail f

/-- Whether a name has an address at all. -/
def matchesExistence (env : Environment) (name : String) : Evaluation Bool := do
  if ← Evaluation.ofLookup (hasAddress env name) then pure true
  else do
    chargeVoid
    pure false

/-- The domain-spec of a mechanism whose name has to be known before it is tested. -/
def Mechanism.target? : Mechanism → Option MacroString
  | .all | .includePolicy _ | .ip4 _ _ | .ip6 _ _ => none
  | .a target _ _ | .mx target _ _ | .ptr target => target
  | .existsName target => some target

/-- Whether a mechanism about a name matches the client. An inclusion is decided by
the policy that it includes, not here. -/
def Mechanism.test (env : Environment) (request : Request) (name : String) :
    Mechanism → Evaluation Bool
  | .all => pure true
  | .includePolicy _ => pure false
  | .ip4 net mask => pure (request.client.inNetwork4 net mask)
  | .ip6 net mask => pure (request.client.inNetwork6 net mask)
  | .a _ mask4 mask6 => do
    charge
    if DomainName.isValid name then matchesAddress env request.client mask4 mask6 name
    else pure false
  | .mx _ mask4 mask6 => do
    charge
    if DomainName.isValid name then do
      let exchanges ← orVoid (lookup env .mx name) []
      matchesExchange env request.client mask4 mask6 exchanges
    else pure false
  | .ptr _ => do
    charge
    let names ← orVoid (confirmedNames env request.client) []
    pure (names.any (DomainName.isWithin (Text.lowerCase name)))
  | .existsName _ => do
    charge
    if DomainName.isValid name then matchesExistence env name
    else pure false

/-- Whether a mechanism matches the client in the policy of a domain. -/
def Mechanism.matches (env : Environment) (request : Request) (domain : String)
    (m : Mechanism) : Evaluation Bool := do
  let name ← Evaluation.ofLookup (targetNameOr env request domain m.target?)
  m.test env request name

/-! ## Thrift -/

/-- A process that never adds to what is left of the budget. -/
def Thrifty {α : Type} (x : Evaluation α) : Prop :=
  ∀ p, (x.run p).2.budget.remaining ≤ p.budget.remaining

namespace Thrifty

variable {α β : Type}

theorem pure (a : α) : Thrifty (Pure.pure a : Evaluation α) := fun _ => Nat.le_refl _

theorem fail (f : Fault) : Thrifty (Evaluation.fail f : Evaluation α) := fun _ => Nat.le_refl _

theorem stop (e : Abort) : Thrifty (Process.stop e : Evaluation α) := fun _ => Nat.le_refl _

theorem bind {x : Evaluation α} {f : α → Evaluation β} (hx : Thrifty x)
    (hf : ∀ a, Thrifty (f a)) : Thrifty (x >>= f) := by
  intro p
  have hxp := hx p
  simp only [Process.run_bind]
  rcases h : x.run p with ⟨r | a, p'⟩
  · simpa [h] using hxp
  · exact Nat.le_trans (hf a p') (by simpa [h] using hxp)

theorem ofLookup (x : Lookup α) : Thrifty (Evaluation.ofLookup x) := by
  intro p
  simp only [Evaluation.ofLookup, Process.run_within]
  rcases x.run p.traffic with ⟨r | a, t⟩ <;> exact Nat.le_refl _

theorem ite {c : Prop} [Decidable c] {x y : Evaluation α} (hx : Thrifty x) (hy : Thrifty y) :
    Thrifty (if c then x else y) := by
  split <;> assumption

/-- A charge takes from what is left, or takes nothing and stops. -/
theorem charge : Thrifty charge := by
  intro p
  rw [run_charge]
  split
  next b hb =>
    have := Budget.remaining_charge hb
    simp only
    omega
  next => exact Nat.le_refl _

theorem chargeVoid : Thrifty chargeVoid := fun _ => Nat.le_refl _

theorem orVoid (x : Lookup α) (fallback : α) : Thrifty (orVoid x fallback) := by
  refine bind (ofLookup _) fun r => ?_
  cases r with
  | ok a => exact pure a
  | error f => exact ite (bind chargeVoid fun _ => pure _) (fail f)

theorem matchesExchange (env : Environment) (client : Address) (mask4 : BitVec 32)
    (mask6 : BitVec 128) (l : List Dns.MailExchange) :
    Thrifty (matchesExchange env client mask4 mask6 l) := by
  induction l with
  | nil => exact pure false
  | cons x rest ih =>
    unfold SenderPolicy.matchesExchange
    refine ite ih (bind charge fun _ => bind (ofLookup _) fun r => ?_)
    match r with
    | .ok true => exact pure true
    | .ok false => exact ih
    | .error f => exact ite ih (fail f)

theorem matchesExistence (env : Environment) (name : String) :
    Thrifty (matchesExistence env name) := by
  unfold SenderPolicy.matchesExistence
  exact bind (ofLookup _) fun r => ite (pure true) (bind chargeVoid fun _ => pure false)

end Thrifty

/-- Testing never adds to what is left of the budget. -/
theorem Mechanism.thrifty_test (env : Environment) (request : Request) (name : String)
    (m : Mechanism) : Thrifty (m.test env request name) := by
  cases m with
  | all => exact .pure true
  | includePolicy target => exact .pure false
  | ip4 net mask => exact .pure _
  | ip6 net mask => exact .pure _
  | a target mask4 mask6 => exact .bind .charge fun _ => .ite (.orVoid _ _) (.pure false)
  | mx target mask4 mask6 =>
    exact .bind .charge fun _ =>
      .ite (.bind (.orVoid _ _) fun _ => .matchesExchange _ _ _ _ _) (.pure false)
  | ptr target => exact .bind .charge fun _ => .bind (.orVoid _ _) fun _ => .pure _
  | existsName target => exact .bind .charge fun _ => .ite (.matchesExistence _ _) (.pure false)

/-- Matching never adds to what is left of the budget. -/
theorem Mechanism.thrifty_matches (env : Environment) (request : Request) (domain : String)
    (m : Mechanism) : Thrifty (m.matches env request domain) :=
  .bind (.ofLookup _) fun name => m.thrifty_test env request name

end SenderPolicy
