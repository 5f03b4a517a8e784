import SenderPolicy.Proofs.CacheTransparency
import SenderPolicy.Proofs.PublishedPolicy

/-!
# Lookups on a fixed zone

On a zone that does not change and answers without delay, what a lookup comes to is a
function of what the zone says. The functions are given here for the policy of a domain, the
name of the client, the name that a domain-spec stands for, and explanations.

Main definitions:

- `Finds`: lookups that come to a given result, whenever they are made;
- `Dns.Table.validatedName`, `Dns.Table.targetName`, `Dns.Table.policy`,
  `Dns.Table.explanation`: what a zone says on names, policies and explanations.

Main results:

- `Finds.bind`: results of lookups that follow one another;
- `finds_targetName`, `finds_lookupPolicy`, `finds_explainFinish`: the lookups of an
  evaluation come to what the zone says.
-/

namespace SenderPolicy

open Dns
open Process (Simulates)

/-! ## What a zone says -/

namespace Dns.Table

variable (table : Table)

/-- The transport that answers as a zone says, at once and for good. -/
def transport : Transport := fun _ q =>
  ⟨(table q).map fun records => ⟨records, 0⟩, 0⟩

/-- The transport of a table serves it. -/
theorem serves_transport : table.transport.Serves table := by
  intro history q
  refine ⟨rfl, ?_⟩
  change ((table q).map _).map _ = table q
  cases table q <;> rfl

/-- The records for a name or an address. -/
def find (k : Kind) (owner : k.Owner) : Except Fault (List k.Datum) :=
  table.answer ⟨k, k.qualify owner⟩

/-- Whether a name has exactly the address of the client. -/
def hasClient (client : Address) (name : String) : Except Fault Bool :=
  match client with
  | .v4 a => (table.find .a name).map fun records => decide (a ∈ records)
  | .v6 a => (table.find .aaaa name).map fun records => decide (a ∈ records)

/-- The names that have the address of the client, in lower case. A name without an answer is
left out, and another fault is passed on. -/
def confirm (client : Address) : List String → Except Fault (List String)
  | [] => .ok []
  | name :: rest =>
    match table.hasClient client name with
    | .ok true => (confirm client rest).map (Text.lowerCase name :: ·)
    | .ok false => confirm client rest
    | .error f => if f.isNotFound then confirm client rest else .error f

/-- The confirmed names of the client. -/
def confirmedNames (client : Address) : Except Fault (List String) :=
  (table.find .ptr client).bind fun names => table.confirm client (names.take maxClientNames)

/-- The name that stands for the client in the policy of a domain. -/
def validatedName (client : Address) (domain : String) : String :=
  match table.confirmedNames client with
  | .ok names => chooseName domain names
  | .error _ => unknownName

variable (env : Environment) (request : Request)

/-- The properties of a request in the policy of a domain, for a macro string. -/
def bindings (domain : String) (m : MacroString) : Bindings :=
  SenderPolicy.bindings env request domain
    (if m.needsValidatedName then table.validatedName request.client domain else "")

/-- The name that a domain-spec stands for in the policy of a domain. -/
def targetName (domain : String) (m : MacroString) : String :=
  m.toName (table.bindings env request domain m)

/-- The policy of a domain. -/
def policy (asksType99 : Bool) (domain : String) : Except Fault Policy :=
  (missingAsNone (table.find .txt domain)).bind fun records =>
    match Policy.select records with
    | .error .notPolicy =>
      if asksType99 then (missingAsNone (table.find .spf domain)).bind Policy.select
      else .error .notPolicy
    | selected => selected

/-- The only text of a name, if it can be read as an explanation. -/
def explanationText (name : String) : Except Fault MacroString :=
  (table.find .txt name).bind fun
    | [record] =>
      match MacroString.parse? .explanation record with
      | some text => .ok text
      | none => .error .malformed
    | _ => .error .severalPolicies

/-- The explanation to which a domain-spec points in the policy of a domain, if it points to a
valid name with an explanation. -/
def explanation (domain : String) (target : MacroString) : Option String :=
  let name := table.targetName env request domain target
  if DomainName.isValid name then
    (table.explanationText name).toOption.map fun text =>
      text.toText (table.bindings env request domain text)
  else none

/-- The deadline of a verification has no bearing on the properties of a request. -/
theorem bindings_timed (domain : String) (m : MacroString) :
    table.bindings env.timed request domain m = table.bindings env request domain m := rfl

/-- What a domain-spec stands for does not depend on the alarm. -/
theorem targetName_timed (domain : String) (m : MacroString) :
    table.targetName env.timed request domain m = table.targetName env request domain m := by
  rw [targetName, bindings_timed, targetName]

variable {table env request} in
/-- There is an explanation exactly if the name is valid, and has one text, which can be read;
it is expanded for the domain of the policy. -/
theorem explanation_eq_some_iff {domain : String} {target : MacroString} {text : String} :
    table.explanation env request domain target = some text ↔
      DomainName.isValid (table.targetName env request domain target) = true ∧
        ∃ record m, table.find .txt (table.targetName env request domain target) = .ok [record] ∧
          MacroString.parse? .explanation record = some m ∧
          text = m.toText (table.bindings env request domain m) := by
  unfold explanation explanationText
  dsimp only
  generalize table.targetName env request domain target = name
  by_cases hvalid : DomainName.isValid name = true
  · rw [if_pos hvalid, and_iff_right hvalid]
    cases table.find .txt name with
    | error f => simp [Except.bind, Except.toOption]
    | ok records =>
      match records with
      | [] => simp [Except.bind, Except.toOption]
      | _ :: _ :: _ => simp [Except.bind, Except.toOption]
      | [record] =>
        cases hparse : MacroString.parse? .explanation record with
        | none => simp [Except.bind, Except.toOption, hparse]
        | some m => simp [Except.bind, Except.toOption, hparse, eq_comm]
  · simp [hvalid]

end Dns.Table

/-! ## Results of lookups -/

section

variable {α β : Type} {table : Table} {env : Environment}

/-- Lookups that come to a result from all steady traffic, and leave it steady. -/
def Finds (table : Table) (env : Environment) (x : Lookup α) (r : Except Fault α) : Prop :=
  ∀ t : Traffic, t.Steady table env →
    (x.run t).1 = r.mapError .fault ∧ (x.run t).2.Steady table env

namespace Finds

theorem pure (a : α) : Finds table env (Pure.pure a) (.ok a) := fun _ ht => ⟨rfl, ht⟩

theorem fail (f : Fault) : Finds table env (Lookup.fail f : Lookup α) (.error f) :=
  fun _ ht => ⟨rfl, ht⟩

theorem ofExcept (r : Except Fault α) : Finds table env (Lookup.ofExcept r) r := by
  cases r with
  | ok a => exact pure a
  | error f => exact fail f

/-- What follows has to be known for the value only that is found. -/
theorem bind {x : Lookup α} {r : Except Fault α} {f : α → Lookup β} {g : α → Except Fault β}
    (hx : Finds table env x r) (hf : ∀ a, r = .ok a → Finds table env (f a) (g a)) :
    Finds table env (x >>= f) (r.bind g) := by
  intro t ht
  obtain ⟨hr, ht'⟩ := hx t ht
  rw [Process.run_bind]
  rcases hrun : x.run t with ⟨s, t'⟩
  rw [hrun] at hr ht'
  cases r with
  | error e =>
    cases hr
    exact ⟨rfl, ht'⟩
  | ok a =>
    cases hr
    exact hf a rfl t' ht'

theorem map {x : Lookup α} {r : Except Fault α} (hx : Finds table env x r) (f : α → β) :
    Finds table env (do return f (← x)) (r.map f) := by
  have hbind := hx.bind (f := fun a => Pure.pure (f a)) (g := fun a => .ok (f a))
    fun a _ => pure (f a)
  cases r <;> exact hbind

theorem attempt {x : Lookup α} {r : Except Fault α} (hx : Finds table env x r) :
    Finds table env x.attempt (.ok r) := by
  intro t ht
  obtain ⟨hr, ht'⟩ := hx t ht
  rw [Lookup.run_attempt]
  rcases hrun : x.run t with ⟨s, t'⟩
  rw [hrun] at hr ht'
  cases r <;> cases hr <;> exact ⟨rfl, ht'⟩

theorem ite {c : Prop} [Decidable c] {x y : Lookup α} {r s : Except Fault α}
    (hx : Finds table env x r) (hy : Finds table env y s) :
    Finds table env (if c then x else y) (if c then r else s) := by
  split <;> assumption

/-- Handling the fault of a lookup goes on with its result. -/
theorem handle {x : Lookup α} {r : Except Fault α} {f : Except Fault α → Lookup β}
    {s : Except Fault β} (hx : Finds table env x r) (hf : Finds table env (f r) s) :
    Finds table env (do f (← x.attempt)) s := by
  intro t ht
  obtain ⟨hr, ht'⟩ := hx.attempt t ht
  rw [Process.run_bind]
  rcases hrun : x.attempt.run t with ⟨s, t'⟩
  rw [hrun] at hr ht'
  cases hr
  exact hf t' ht'

/-- Lookups with related results follow one another. -/
theorem simulates {table' : Table} {env' : Environment} {V : α → β → Prop} {x : Lookup α}
    {y : Lookup β} {r : Except Fault α} {r' : Except Fault β} (hx : Finds table env x r)
    (hy : Finds table' env' y r') (hr : EndsAlike V r r') :
    Simulates (fun t t' => t.Steady table env ∧ t'.Steady table' env') V never x y := by
  rintro t t' ⟨ht, ht'⟩
  obtain ⟨hxr, hxt⟩ := hx t ht
  obtain ⟨hyr, hyt⟩ := hy t' ht'
  rw [hxr, hyr]
  refine .inr ⟨?_, hxt, hyt⟩
  cases hr with
  | value hab => exact .value hab
  | stopped f => exact .stopped _

end Finds

/-! ## Lookups of an evaluation -/

variable (hserves : env.transport.Serves table) (request : Request)
include hserves

/-- A lookup finds what the table says. -/
theorem finds_lookup (k : Kind) (owner : k.Owner) :
    Finds table env (lookup env k owner) (table.find k owner) :=
  fun _ ht => lookup_of_serves hserves ht k owner

/-- Whether a name resolves to the client is found in the table. -/
theorem finds_resolvesNear (client : Address) (name : String) :
    Finds table env (resolvesNear env client (leadingMask 32 32) (leadingMask 128 128) name)
      (table.hasClient client name) := by
  cases client with
  | v4 a =>
    unfold resolvesNear Table.hasClient
    simp only [any_agreeUnder IPv4.bits_inj]
    exact (finds_lookup hserves .a name).map _
  | v6 a =>
    unfold resolvesNear Table.hasClient
    simp only [any_agreeUnder IPv6.bits_inj]
    exact (finds_lookup hserves .aaaa name).map _

/-- The confirmed names of a list are those of the table. -/
theorem finds_confirmNames (client : Address) (names : List String) :
    Finds table env (confirmNames env client names) (table.confirm client names) := by
  induction names with
  | nil => exact .pure []
  | cons name rest ih =>
    unfold confirmNames Table.confirm
    refine (finds_resolvesNear hserves client name).handle ?_
    cases table.hasClient client name with
    | ok confirmed =>
      cases confirmed with
      | true => exact ih.map _
      | false => exact ih
    | error f => exact .ite ih (.fail f)

theorem finds_confirmedNames (client : Address) :
    Finds table env (confirmedNames env client) (table.confirmedNames client) :=
  (finds_lookup hserves .ptr client).bind fun _ _ => finds_confirmNames hserves client _

/-- The name of the client is the one that the table has for the domain. -/
theorem finds_validatedName (client : Address) (domain : String) :
    Finds table env (validatedName env client domain)
      (.ok (table.validatedName client domain)) := by
  unfold validatedName Table.validatedName
  refine (finds_confirmedNames hserves client).handle ?_
  cases table.confirmedNames client with
  | ok names => exact .pure _
  | error f => exact .pure _

/-- The properties for a macro string are those of the table. -/
theorem finds_bindingsFor (domain : String) (m : MacroString) :
    Finds table env (bindingsFor env request domain m)
      (.ok (table.bindings env request domain m)) := by
  unfold bindingsFor Table.bindings
  split
  · exact (finds_validatedName hserves _ domain).map _
  · exact .pure _

/-- A domain-spec stands for the name that the table gives it. -/
theorem finds_targetName (domain : String) (m : MacroString) :
    Finds table env (targetName env request domain m)
      (.ok (table.targetName env request domain m)) :=
  (finds_bindingsFor hserves request domain m).map _

theorem finds_lookupAll (k : Kind) (owner : k.Owner) :
    Finds table env (lookupAll env k owner) (missingAsNone (table.find k owner)) := by
  unfold lookupAll
  refine (finds_lookup hserves k owner).handle ?_
  cases table.find k owner with
  | ok records => exact .pure records
  | error f => exact .ite (.pure []) (.fail f)

/-- The policy that is found is the one that the table publishes. -/
theorem finds_lookupPolicy (domain : String) :
    Finds table env (lookupPolicy env domain) (table.policy env.settings.asksType99 domain) := by
  unfold lookupPolicy Table.policy
  refine (finds_lookupAll hserves .txt domain).bind fun records _ => ?_
  cases hselect : Policy.select records with
  | ok policy => exact .ofExcept (.ok policy)
  | error f =>
    cases f with
    | notPolicy =>
      apply Finds.ite
      · exact (finds_lookupAll hserves .spf domain).bind fun records _ => .ofExcept _
      · exact .fail _
    | _ => exact .ofExcept (.error _)

/-- So is the text of an explanation. -/
theorem finds_lookupExplanation (name : String) :
    Finds table env (lookupExplanation env name) (table.explanationText name) := by
  unfold lookupExplanation Table.explanationText
  refine (finds_lookup hserves .txt name).bind fun records _ => ?_
  match records with
  | [] => exact .fail _
  | _ :: _ :: _ => exact .fail _
  | [record] =>
    cases hparse : MacroString.parse? .explanation record with
    | some text => simpa only [hparse] using .pure text
    | none => simpa only [hparse] using .fail _

/-- Expanding an explanation fails where the name has none. -/
theorem finds_expandExplanation (domain : String) (target : MacroString) :
    Finds table env (expandExplanation env request domain target)
      (if DomainName.isValid (table.targetName env request domain target) then
        (table.explanationText (table.targetName env request domain target)).bind fun text =>
          .ok (some (text.toText (table.bindings env request domain text)))
      else .ok none) := by
  have htext : ∀ name, Finds table env (do
      let text ← lookupExplanation env name
      return some (text.toText (← bindingsFor env request domain text)))
      ((table.explanationText name).bind fun text =>
        .ok (some (text.toText (table.bindings env request domain text)))) := by
    intro name
    apply (finds_lookupExplanation hserves name).bind
    intro text _
    exact (finds_bindingsFor hserves request domain text).map fun b => some (text.toText b)
  have hname := finds_targetName hserves request domain target
  generalize table.targetName env request domain target = name at hname ⊢
  apply hname.bind (g := fun name =>
    if DomainName.isValid name then (table.explanationText name).bind fun text =>
      .ok (some (text.toText (table.bindings env request domain text)))
    else .ok none)
  intro name _
  exact .ite (htext name) (.pure none)

/-- A failure is explained as the table says. -/
theorem finds_explain (domain : String) (target : MacroString) :
    Finds table env (explain env request domain target)
      (.ok (table.explanation env request domain target)) := by
  unfold explain
  refine (finds_expandExplanation hserves request domain target).handle ?_
  unfold Table.explanation
  dsimp only
  generalize table.targetName env request domain target = name
  by_cases hvalid : DomainName.isValid name = true
  · rw [if_pos hvalid, if_pos hvalid]
    cases table.explanationText name with
    | ok text => exact Finds.pure (some _)
    | error f => exact Finds.pure none
  · rw [if_neg hvalid, if_neg hvalid]
    exact Finds.pure none

/-- The explanation of the end of an evaluation. -/
theorem finds_explainFinish (finish : Finish) :
    Finds table env (explainFinish env request finish)
      (.ok (if finish.verdict = .fail then
        finish.policy.explanation?.bind (table.explanation env request finish.domain)
      else none)) := by
  unfold explainFinish
  by_cases hverdict : finish.verdict = .fail
  · rw [hverdict, if_pos rfl]
    cases finish.policy.explanation? with
    | none => exact Finds.pure none
    | some target =>
      rw [Option.bind_some]
      exact finds_explain hserves request finish.domain target
  · rw [if_neg hverdict]
    split
    next h _ => exact absurd h hverdict
    next => exact Finds.pure none

end

end SenderPolicy
