import Mathlib.Order.Defs.Unbundled
import SenderPolicy.Proofs.Journal

/-!
# Questions of a kind

The questions that are asked in the course of a process. Only the names of the client are
found by a reverse lookup, and they are looked for by one mechanism alone, and for macro
strings that insert one of them. Policies, explanations and the targets of mechanisms are
asked for at valid names only.

Main definitions:

- `Process.Moves`: processes that move a part of the state along a relation;
- `Asked`: what is asked between two moments;
- `Mechanism.Asks`: what a mechanism may ask.

Main results:

- `Process.Moves.bind_of_run`: processes that follow one another move along the same relation;
- `Moves.lookupPolicy`, `Moves.test`, `Moves.prepare`, `Moves.conclude`: what lookups,
  mechanisms and the two parts of steps ask.
-/

namespace SenderPolicy

variable {α β : Type}

/-! ## Processes along a relation -/

namespace Process

variable {σ τ ε : Type}

/-- A process moves a part of the state along a relation, however it ends. -/
def Moves (part : σ → τ) (R : τ → τ → Prop) (x : Process σ ε α) : Prop :=
  ∀ s, R (part s) (part (x.run s).2)

namespace Moves

variable {part : σ → τ} {R : τ → τ → Prop}

theorem pure [Std.Refl R] (a : α) : Moves part R (Pure.pure a : Process σ ε α) :=
  fun s => Std.Refl.refl (part s)

theorem stop [Std.Refl R] (e : ε) : Moves part R (Process.stop e : Process σ ε α) :=
  fun s => Std.Refl.refl (part s)

/-- What follows a process has to move from where that ends only, and for the value it gives. -/
theorem bind_at (part : σ → τ) [IsTrans τ R] {x : Process σ ε α} {f : α → Process σ ε β} {s : σ}
    (hx : R (part s) (part (x.run s).2))
    (hf : ∀ a s', x.run s = (.ok a, s') → R (part s') (part ((f a).run s').2)) :
    R (part s) (part ((x >>= f).run s).2) := by
  rw [run_bind]
  rcases hrun : x.run s with ⟨e | a, s'⟩ <;> rw [hrun] at hx
  · exact hx
  · exact trans_of R hx (hf a s' hrun)

/-- What follows has to move for the values only that a process gives. -/
theorem bind_of_run [IsTrans τ R] {x : Process σ ε α} {f : α → Process σ ε β}
    (hx : Moves part R x) (hf : ∀ a s s', x.run s = (.ok a, s') → Moves part R (f a)) :
    Moves part R (x >>= f) :=
  fun s => bind_at part (hx s) fun a s' hrun => hf a s s' hrun s'

/-- Processes that follow one another move along a relation if all of them do. -/
theorem bind [IsTrans τ R] {x : Process σ ε α} {f : α → Process σ ε β} (hx : Moves part R x)
    (hf : ∀ a, Moves part R (f a)) : Moves part R (x >>= f) :=
  hx.bind_of_run fun a _ _ _ => hf a

theorem ite {c : Prop} [Decidable c] {x y : Process σ ε α} (hx : Moves part R x)
    (hy : Moves part R y) : Moves part R (if c then x else y) := by
  split <;> assumption

end Moves

end Process

/-! ## Questions -/

/-- The questions asked between two moments, which are of some kind. -/
def Asked (P : Dns.Question → Prop) (t t' : Traffic) : Prop :=
  ∃ asked, t'.log = asked ++ t.log ∧ ∀ q ∈ asked, P q

namespace Asked

variable {P Q : Dns.Question → Prop} {t t' t'' : Traffic}

theorem of_log_eq (h : t'.log = t.log) : Asked P t t' := ⟨[], h, by simp⟩

instance : Std.Refl (Asked P) := ⟨fun _ => of_log_eq rfl⟩

/-- What is asked one time after the other is asked in all. -/
theorem trans (h : Asked P t t') (h' : Asked P t' t'') : Asked P t t'' := by
  obtain ⟨asked, hlog, hasked⟩ := h
  obtain ⟨asked', hlog', hasked'⟩ := h'
  refine ⟨asked' ++ asked, by rw [hlog', hlog, List.append_assoc], ?_⟩
  intro q hq
  exact (List.mem_append.1 hq).elim (hasked' q) (hasked q)

instance : IsTrans Traffic (Asked P) := ⟨fun _ _ _ => trans⟩

/-- Questions are added to the log. -/
theorem log_suffix (h : Asked P t t') : t.log <:+ t'.log := by
  obtain ⟨asked, hlog, -⟩ := h
  exact ⟨asked, hlog.symm⟩

theorem mono (h : Asked P t t') (hPQ : ∀ q, P q → Q q) : Asked Q t t' := by
  obtain ⟨asked, hlog, hasked⟩ := h
  exact ⟨asked, hlog, fun q hq => hPQ q (hasked q hq)⟩

end Asked

namespace Process.Moves

variable {P : Dns.Question → Prop} {env : Environment} {request : Request}

/-- A lookup that asks nothing. -/
theorem of_log_eq {x : Lookup α} (h : ∀ t, (x.run t).2.log = t.log) : Moves id (Asked P) x :=
  fun t => Asked.of_log_eq (h t)

/-- Holding a fault up asks nothing more. -/
theorem attempt {R : Traffic → Traffic → Prop} {x : Lookup α} (h : Moves id R x) :
    Moves id R x.attempt := by
  intro t
  have ht := h t
  rw [Lookup.run_attempt]
  rcases hrun : x.run t with ⟨(f | i) | a, t'⟩ <;> rw [hrun] at ht <;> exact ht

theorem ofLookup {R : Traffic → Traffic → Prop} {x : Lookup α} (h : Moves id R x) :
    Moves Progress.traffic R (Evaluation.ofLookup x) := by
  intro p
  rw [Evaluation.run_ofLookup]
  exact h p.traffic

theorem ofExcept (r : Except Fault α) : Moves id (Asked P) (Lookup.ofExcept r) := by
  cases r with
  | ok a => exact pure a
  | error f => exact stop _

/-- A lookup asks the question that it is about, or nothing. -/
theorem lookup {k : Dns.Kind} {owner : k.Owner} (h : P ⟨k, k.qualify owner⟩) :
    Moves id (Asked P) (lookup env k owner) := by
  have hask : Moves id (Asked P) (ask env ⟨k, k.qualify owner⟩) := by
    intro t
    rw [run_ask]
    exact ⟨[⟨k, k.qualify owner⟩], rfl, by simpa using h⟩
  unfold SenderPolicy.lookup
  apply bind (of_log_eq fun _ => rfl)
  intro found
  cases found with
  | some records => exact pure records
  | none => exact bind hask fun answer => bind (of_log_eq fun _ => rfl) fun _ => pure _

/-! ### Lookups -/

/-- The address of a name may be asked for. -/
def AllowsAddress (P : Dns.Question → Prop) (name : String) : Prop :=
  P ⟨.a, DomainName.qualify name⟩ ∧ P ⟨.aaaa, DomainName.qualify name⟩

/-- The texts of a name may be asked for, those of type 99 among them. -/
def AllowsTexts (P : Dns.Question → Prop) (name : String) : Prop :=
  P ⟨.txt, DomainName.qualify name⟩ ∧ P ⟨.spf, DomainName.qualify name⟩

/-- Whether a name has a near address is asked about its addresses. -/
theorem resolvesNear {name : String} (h : AllowsAddress P name) (client : Address)
    (mask4 : BitVec 32) (mask6 : BitVec 128) :
    Moves id (Asked P) (resolvesNear env client mask4 mask6 name) := by
  cases client with
  | v4 a => exact bind (lookup (k := .a) h.1) fun _ => pure _
  | v6 a => exact bind (lookup (k := .aaaa) h.2) fun _ => pure _

theorem hasAddress {name : String} (h : P ⟨.a, DomainName.qualify name⟩) :
    Moves id (Asked P) (hasAddress env name) := by
  apply bind (attempt (lookup (k := .a) h))
  intro r
  cases r with
  | ok records => exact pure true
  | error f => exact (pure false).ite (stop _)

theorem lookupAll {k : Dns.Kind} {owner : k.Owner} (h : P ⟨k, k.qualify owner⟩) :
    Moves id (Asked P) (lookupAll env k owner) := by
  apply bind (attempt (lookup h))
  intro r
  cases r with
  | ok records => exact pure records
  | error f => exact (pure []).ite (stop _)

/-- A policy is looked for among the texts of its domain. -/
theorem lookupPolicy {domain : String} (h : AllowsTexts P domain) :
    Moves id (Asked P) (lookupPolicy env domain) := by
  unfold SenderPolicy.lookupPolicy
  apply bind (lookupAll (k := .txt) h.1)
  intro records
  split
  · exact (bind (lookupAll (k := .spf) h.2) fun _ => ofExcept _).ite (stop _)
  · exact ofExcept _

/-- An explanation is looked for among the texts of a name. -/
theorem lookupExplanation {name : String} (h : P ⟨.txt, DomainName.qualify name⟩) :
    Moves id (Asked P) (lookupExplanation env name) := by
  apply bind (lookup (k := .txt) h)
  intro records
  split
  · split
    · exact pure _
    · exact stop _
  · exact stop _

/-- Only the policies of valid names are asked for. -/
theorem fetchPolicy {name : String} (h : DomainName.isValid name = true → AllowsTexts P name) :
    Moves Progress.traffic (Asked P) (fetchPolicy env name) := by
  unfold SenderPolicy.fetchPolicy
  split
  next hvalid =>
    apply bind (ofLookup (lookupPolicy (h hvalid)).attempt)
    intro r
    cases r with
    | ok policy => exact pure policy
    | error f => exact ite (stop _) (stop _)
  next => exact stop _

/-! ### Names of the client -/

section

variable (haddress : ∀ name, AllowsAddress P name)
include haddress

/-- Confirming names asks for the addresses of each. -/
theorem confirmNames (client : Address) (names : List String) :
    Moves id (Asked P) (confirmNames env client names) := by
  induction names with
  | nil => exact pure []
  | cons name rest ih =>
    unfold SenderPolicy.confirmNames
    apply bind (resolvesNear (haddress name) client _ _).attempt
    intro r
    match r with
    | .ok true => exact bind ih fun _ => pure _
    | .ok false => exact ih
    | .error f => exact ih.ite (stop _)

/-- The names of the client take a question about its address. -/
theorem confirmedNames {client : Address} (h : P ⟨.ptr, client⟩) :
    Moves id (Asked P) (confirmedNames env client) :=
  bind (lookup (k := .ptr) h) fun _ => confirmNames haddress client _

/-- The name of a client is found by its reverse lookup and the addresses of its names. -/
theorem validatedName {client : Address} (h : P ⟨.ptr, client⟩) (domain : String) :
    Moves id (Asked P) (validatedName env client domain) := by
  apply bind (confirmedNames haddress h).attempt
  intro r
  cases r <;> exact pure _

/-- The properties for a macro string ask for the names of the client at most. -/
theorem bindingsFor (h : P ⟨.ptr, request.client⟩) (domain : String) (m : MacroString) :
    Moves id (Asked P) (bindingsFor env request domain m) :=
  ite (bind (validatedName haddress h domain) fun _ => pure _) (pure _)

/-- So does the name that a domain-spec stands for. -/
theorem targetName (h : P ⟨.ptr, request.client⟩) (domain : String) (m : MacroString) :
    Moves id (Asked P) (targetName env request domain m) :=
  bind (bindingsFor haddress h domain m) fun _ => pure _

theorem targetNameOr (h : P ⟨.ptr, request.client⟩) (domain : String) (m : Option MacroString) :
    Moves id (Asked P) (targetNameOr env request domain m) := by
  cases m with
  | none => exact pure domain
  | some m => exact targetName haddress h domain m

/-- An explanation is looked for at a valid name. -/
theorem explainFinish (h : P ⟨.ptr, request.client⟩)
    (htext : ∀ name, DomainName.isValid name = true → P ⟨.txt, DomainName.qualify name⟩)
    (finish : Finish) : Moves id (Asked P) (explainFinish env request finish) := by
  have hexpand : ∀ target,
      Moves id (Asked P) (expandExplanation env request finish.domain target) := by
    intro target
    apply bind (targetName haddress h finish.domain target)
    intro name
    split
    next hvalid =>
      apply bind (lookupExplanation (htext name hvalid))
      intro text
      exact bind (bindingsFor haddress h finish.domain text) fun _ => pure _
    next => exact pure none
  unfold SenderPolicy.explainFinish
  split
  · apply bind (hexpand _).attempt
    intro r
    cases r <;> exact pure _
  · exact pure none

end

/-! ### Mechanisms and steps -/

/-- A charge asks nothing. -/
theorem charge : Moves Progress.traffic (Asked P) charge := by
  intro p
  rw [run_charge]
  split <;> exact Asked.of_log_eq rfl

theorem chargeVoid : Moves Progress.traffic (Asked P) chargeVoid := fun _ => Asked.of_log_eq rfl

theorem orVoid {x : Lookup α} (h : Moves id (Asked P) x) (fallback : α) :
    Moves Progress.traffic (Asked P) (orVoid x fallback) := by
  apply bind (ofLookup h.attempt)
  intro r
  cases r with
  | ok a => exact pure a
  | error f => exact ite (bind chargeVoid fun _ => pure fallback) (stop _)

/-- Mail exchangers are matched by asking for their addresses. -/
theorem matchesExchange (haddress : ∀ name, AllowsAddress P name) (client : Address)
    (mask4 : BitVec 32) (mask6 : BitVec 128) (l : List Dns.MailExchange) :
    Moves Progress.traffic (Asked P) (matchesExchange env client mask4 mask6 l) := by
  induction l with
  | nil => exact pure false
  | cons x rest ih =>
    unfold SenderPolicy.matchesExchange
    refine ite ih (bind charge fun _ =>
      bind (ofLookup (resolvesNear (haddress x.exchange) client mask4 mask6).attempt) fun r => ?_)
    cases r with
    | ok near =>
      cases near with
      | true => exact pure true
      | false => exact ih
    | error f => exact ite ih (stop _)

theorem matchesExistence {name : String} (h : P ⟨.a, DomainName.qualify name⟩) :
    Moves Progress.traffic (Asked P) (matchesExistence env name) :=
  bind (ofLookup (hasAddress h)) fun _ => ite (pure true) (bind chargeVoid fun _ => pure false)

end Process.Moves

/-- The questions that a mechanism may ask in its test for a client, given its name. Those about
the hosts that it finds are about any name. -/
inductive Mechanism.Asks (client : Address) (name : String) : Mechanism → Dns.Question → Prop where
  | a4 {target : Option MacroString} {mask4 : BitVec 32} {mask6 : BitVec 128} :
      DomainName.isValid name = true →
      Asks client name (.a target mask4 mask6) ⟨.a, DomainName.qualify name⟩
  | a6 {target : Option MacroString} {mask4 : BitVec 32} {mask6 : BitVec 128} :
      DomainName.isValid name = true →
      Asks client name (.a target mask4 mask6) ⟨.aaaa, DomainName.qualify name⟩
  | mx {target : Option MacroString} {mask4 : BitVec 32} {mask6 : BitVec 128} :
      DomainName.isValid name = true →
      Asks client name (.mx target mask4 mask6) ⟨.mx, DomainName.qualify name⟩
  | exchange {target : Option MacroString} {mask4 : BitVec 32} {mask6 : BitVec 128}
      {q : Dns.Question} : q.kind = .a ∨ q.kind = .aaaa →
      Asks client name (.mx target mask4 mask6) q
  | ptr {target : Option MacroString} : Asks client name (.ptr target) ⟨.ptr, client⟩
  | clientName {target : Option MacroString} {q : Dns.Question} : q.kind = .a ∨ q.kind = .aaaa →
      Asks client name (.ptr target) q
  | existsName {target : MacroString} : DomainName.isValid name = true →
      Asks client name (.existsName target) ⟨.a, DomainName.qualify name⟩

/-- Only one mechanism asks for the names of the client. -/
theorem Mechanism.Asks.eq_ptr {client : Address} {name : String} {m : Mechanism} {q : Dns.Question}
    (h : m.Asks client name q) (hq : q.kind = .ptr) : ∃ target, m = .ptr target := by
  cases h with
  | ptr => exact ⟨_, rfl⟩
  | clientName => exact ⟨_, rfl⟩
  | exchange hkind => rcases hkind with hkind | hkind <;> rw [hq] at hkind <;> cases hkind
  | _ => cases hq

namespace Process.Moves

variable {P : Dns.Question → Prop} {env : Environment} {request : Request}

/-- A test asks what its mechanism may ask. -/
theorem test {name : String} {m : Mechanism} (h : ∀ q, m.Asks request.client name q → P q) :
    Moves Progress.traffic (Asked P) (m.test env request name) := by
  cases m with
  | all => exact pure true
  | includePolicy target => exact pure false
  | ip4 net mask => exact pure _
  | ip6 net mask => exact pure _
  | a target mask4 mask6 =>
    apply bind charge
    intro _
    split
    next hvalid => exact orVoid (resolvesNear ⟨h _ (.a4 hvalid), h _ (.a6 hvalid)⟩ _ _ _) false
    next => exact pure false
  | mx target mask4 mask6 =>
    apply bind charge
    intro _
    split
    next hvalid =>
      apply bind (orVoid (lookup (k := .mx) (h _ (.mx hvalid))) [])
      intro exchanges
      exact matchesExchange (fun _ => ⟨h _ (.exchange (.inl rfl)), h _ (.exchange (.inr rfl))⟩)
        _ _ _ exchanges
    next => exact pure false
  | ptr target =>
    apply bind charge
    intro _
    have hnames : Moves id (Asked P) (SenderPolicy.confirmedNames env request.client) :=
      confirmedNames (fun _ => ⟨h _ (.clientName (.inl rfl)), h _ (.clientName (.inr rfl))⟩)
        (h _ .ptr)
    exact bind (orVoid hnames []) fun _ => pure _
  | existsName target =>
    apply bind charge
    intro _
    split
    next hvalid => exact matchesExistence (h _ (.existsName hvalid))
    next => exact pure false

/-- The first part of a step asks for the names of the client only. -/
theorem prepare (haddress : ∀ name, AllowsAddress P name) (h : P ⟨.ptr, request.client⟩)
    (m : Machine) : Moves Progress.traffic (Asked P) (m.prepare env request) := by
  have htarget : ∀ domain text, Moves Progress.traffic (Asked P)
      (Evaluation.ofLookup (SenderPolicy.targetName env request domain text)) :=
    fun domain text => ofLookup (targetName haddress h domain text)
  obtain ⟨policy, domain, todo, stack⟩ := m
  match todo with
  | [] =>
    unfold Machine.prepare
    dsimp only
    cases policy.redirect? with
    | none => exact pure _
    | some target => exact bind charge fun _ => htarget domain target
  | ⟨qualifier, mechanism⟩ :: rest =>
    cases mechanism with
    | includePolicy target => exact bind charge fun _ => ite (stop _) (htarget domain target)
    | _ => exact ofLookup (targetNameOr haddress h domain _)

/-- The second part of a step asks for the policy at a valid name, or what its mechanism may
ask. -/
theorem conclude {m : Machine} {name : String}
    (htexts : DomainName.isValid name = true → AllowsTexts P name)
    (htest : ∀ d ∈ m.todo.head?, ∀ q, d.mechanism.Asks request.client name q → P q) :
    Moves Progress.traffic (Asked P) (m.conclude env request name) := by
  obtain ⟨policy, domain, todo, stack⟩ := m
  match todo with
  | [] =>
    unfold Machine.conclude
    dsimp only
    cases policy.redirect? with
    | none => exact pure _
    | some target => exact bind (fetchPolicy htexts) fun _ => pure _
  | ⟨qualifier, mechanism⟩ :: rest =>
    have htest' : Moves Progress.traffic (Asked P) (mechanism.test env request name) :=
      test (htest _ rfl)
    cases mechanism with
    | includePolicy target => exact bind (fetchPolicy htexts) fun _ => pure _
    | _ => exact bind htest' fun _ => ite (pure _) (pure _)

end Process.Moves

end SenderPolicy
