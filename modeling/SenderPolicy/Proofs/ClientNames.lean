import Mathlib.Data.List.Basic
import SenderPolicy.Proofs.Run

/-!
# The name that stands for a client

The name that stands for a client in the policy of a domain is told here from what the
reverse lookup of its address and the forward lookups of its names come to, one after the
other. Only macro strings that insert the name depend on it.

Main definitions:

- `Prefers`: the choice among confirmed names;
- `Confirms`: the names that resolve back to the client;
- `Chooses`: the name that stands for a client at some time.

Main results:

- `prefers_iff`: there is one choice, which is the name that is chosen;
- `chooses_of_run`: what looking for the name comes to;
- `MacroString.expand_congr_of_not_inserts`: other macro strings do not depend on it.
-/

namespace SenderPolicy

/-! ## The choice among confirmed names -/

/-- A name is within itself. -/
@[simp]
theorem DomainName.isWithin_self (name : String) : isWithin name name = true := by
  simp [isWithin]

/-- The name that is preferred in the policy of a domain: the domain itself, or else the
first below it, or else the first. The domain itself is compared in lower case, and as it is
spelled: one with a dot at its end is not taken for the same name without it. -/
inductive Prefers (domain : String) : List String → String → Prop where
  | itself {names : List String} :
      Text.lowerCase domain ∈ names → Prefers domain names (Text.lowerCase domain)
  | below {before after : List String} {name : String} :
      Text.lowerCase domain ∉ before ++ name :: after →
      (∀ other ∈ before, DomainName.isWithin (Text.lowerCase domain) other = false) →
      DomainName.isWithin (Text.lowerCase domain) name = true →
      Prefers domain (before ++ name :: after) name
  | first {name : String} {rest : List String} :
      (∀ other ∈ name :: rest, DomainName.isWithin (Text.lowerCase domain) other = false) →
      Prefers domain (name :: rest) name
  | unknown : Prefers domain [] unknownName

/-- The domain itself is chosen if it is confirmed, and otherwise the first name below it, or
the first. -/
theorem chooseName_eq_ite (domain : String) (names : List String) :
    chooseName domain names =
      if Text.lowerCase domain ∈ names then Text.lowerCase domain
      else ((names.find? (DomainName.isWithin (Text.lowerCase domain))).or names.head?).getD
        unknownName := by
  unfold chooseName
  dsimp only
  by_cases hmem : Text.lowerCase domain ∈ names
  · obtain ⟨name, hname⟩ := Option.isSome_iff_exists.1
      (List.find?_isSome (p := (· == Text.lowerCase domain)).2 ⟨_, hmem, beq_self_eq_true _⟩)
    have heq : (name == Text.lowerCase domain) = true :=
      List.find?_some (p := (· == Text.lowerCase domain)) hname
    rw [if_pos hmem, hname, eq_of_beq heq]
    rfl
  · have hnone : names.find? (· == Text.lowerCase domain) = none := by
      rw [List.find?_eq_none]
      intro name hname heq
      exact hmem (eq_of_beq heq ▸ hname)
    rw [if_neg hmem, hnone, Option.none_or]

/-- The chosen name is preferred. -/
theorem prefers_chooseName (domain : String) (names : List String) :
    Prefers domain names (chooseName domain names) := by
  rw [chooseName_eq_ite]
  split
  next hmem => exact .itself hmem
  next hmem =>
    cases hbelow : names.find? (DomainName.isWithin (Text.lowerCase domain)) with
    | some name =>
      obtain ⟨hname, before, after, rfl, hbefore⟩ := List.find?_eq_some_iff_append.1 hbelow
      exact .below hmem (by simpa using hbefore) hname
    | none =>
      cases names with
      | nil => exact .unknown
      | cons name rest => exact .first (by simpa using hbelow)

/-- There is one preferred name, and it is the one that is chosen. -/
theorem prefers_iff {domain name : String} {names : List String} :
    Prefers domain names name ↔ name = chooseName domain names := by
  constructor
  · intro h
    rw [chooseName_eq_ite]
    cases h with
    | itself hmem => rw [if_pos hmem]
    | @below before after _ hmem hbefore hname =>
      have hbelow : (before ++ name :: after).find?
          (DomainName.isWithin (Text.lowerCase domain)) = some name :=
        List.find?_eq_some_iff_append.2 ⟨hname, before, after, rfl, by simpa using hbefore⟩
      rw [if_neg hmem, hbelow]
      rfl
    | @first _ rest hnone =>
      have hmem : Text.lowerCase domain ∉ name :: rest := fun hmem => by
        simpa using hnone _ hmem
      have hbelow : (name :: rest).find? (DomainName.isWithin (Text.lowerCase domain)) = none := by
        simpa using hnone
      rw [if_neg hmem, hbelow]
      rfl
    | unknown => rfl
  · rintro rfl
    exact prefers_chooseName domain names

example : chooseName "Example.org" ["mail.example.org", "example.org"] = "example.org" := by
  decide +kernel

/-! ## Names that resolve back to the client -/

section

variable (env : Environment) (client : Address)

/-- The addresses of a name, in the family of the client. -/
def addresses (name : String) : Lookup (List Address) :=
  match client with
  | .v4 _ => do return (← lookup env .a name).map .v4
  | .v6 _ => do return (← lookup env .aaaa name).map .v6

/-- What the forward lookups of names come to, made one after the other: the names that have
the address of the client, in lower case. A name without an answer is left out; any other fault
ends the lookups. -/
inductive Confirms : List String → Traffic → Except Fault (List String) → Traffic → Prop where
  | nil {t : Traffic} : Confirms [] t (.ok []) t
  | same {name : String} {rest : List String} {found : List Address} {t t₁ t₂ : Traffic}
      {r : Except Fault (List String)} :
      (addresses env client name).run t = (.ok found, t₁) → client ∈ found →
      Confirms rest t₁ r t₂ → Confirms (name :: rest) t (r.map (Text.lowerCase name :: ·)) t₂
  | other {name : String} {rest : List String} {found : List Address} {t t₁ t₂ : Traffic}
      {r : Except Fault (List String)} :
      (addresses env client name).run t = (.ok found, t₁) → client ∉ found →
      Confirms rest t₁ r t₂ → Confirms (name :: rest) t r t₂
  | absent {name : String} {rest : List String} {code : ResponseCode} {t t₁ t₂ : Traffic}
      {r : Except Fault (List String)} :
      (addresses env client name).run t = (.error (.fault (.notFound code)), t₁) →
      Confirms rest t₁ r t₂ → Confirms (name :: rest) t r t₂
  | failed {name : String} {rest : List String} {f : Fault} {t t₁ : Traffic} :
      (addresses env client name).run t = (.error (.fault f), t₁) → f.isNotFound = false →
      Confirms (name :: rest) t (.error f) t₁

/-- The name that stands for the client in the policy of a domain: the preferred one among the
confirmed ones of its first ten names. It is unknown if a lookup fails. -/
inductive Chooses (domain : String) (t : Traffic) : String → Traffic → Prop where
  | unnamed {f : Fault} {t' : Traffic} :
      (lookup env .ptr client).run t = (.error (.fault f), t') →
      Chooses domain t unknownName t'
  | failed {names : List String} {f : Fault} {t₁ t' : Traffic} :
      (lookup env .ptr client).run t = (.ok names, t₁) →
      Confirms env client (names.take 10) t₁ (.error f) t' → Chooses domain t unknownName t'
  | preferred {names confirmed : List String} {v : String} {t₁ t' : Traffic} :
      (lookup env .ptr client).run t = (.ok names, t₁) →
      Confirms env client (names.take 10) t₁ (.ok confirmed) t' → Prefers domain confirmed v →
      Chooses domain t v t'

variable {env client}

/-- A name resolves back to the client if it has exactly its address. -/
theorem resolvesNear_eq_addresses (name : String) :
    resolvesNear env client (leadingMask 32 32) (leadingMask 128 128) name =
      (do return decide (client ∈ (← addresses env client name))) := by
  cases client with
  | v4 a =>
    unfold resolvesNear addresses
    simp only [any_agreeUnder IPv4.bits_inj, bind_assoc, pure_bind]
    simp
  | v6 a =>
    unfold resolvesNear addresses
    simp only [any_agreeUnder IPv6.bits_inj, bind_assoc, pure_bind]
    simp

/-- What confirming names comes to, unless it is interrupted. -/
theorem confirms_of_run {names : List String} {t t' : Traffic} {r : Except Fault (List String)}
    (h : (confirmNames env client names).run t = (r.mapError .fault, t')) :
    Confirms env client names t r t' := by
  induction names generalizing t r with
  | nil =>
    cases r <;> cases h
    exact .nil
  | cons name rest ih =>
    rw [confirmNames, resolvesNear_eq_addresses, Process.run_bind, Lookup.run_attempt,
      Process.run_bind] at h
    rcases hfound : (addresses env client name).run t with ⟨(f | i) | found, t₁⟩ <;>
      rw [hfound] at h <;> dsimp only [Process.run_pure] at h
    · by_cases hf : f.isNotFound = true
      · rw [if_pos hf] at h
        cases f with
        | notFound code => exact .absent hfound (ih h)
        | _ => cases hf
      · rw [if_neg hf] at h
        cases r <;> cases h
        exact .failed hfound (by simpa using hf)
    · cases r <;> cases h
    · by_cases hmem : client ∈ found
      · rw [decide_eq_true hmem] at h
        dsimp only at h
        rw [Process.run_bind] at h
        rcases hrest : (confirmNames env client rest).run t₁ with ⟨(f | i) | confirmed, t₂⟩ <;>
          rw [hrest] at h <;> cases r <;> cases h
        · exact .same (r := .error f) hfound hmem (ih hrest)
        · exact .same (r := .ok confirmed) hfound hmem (ih hrest)
      · rw [decide_eq_false hmem] at h
        exact .other hfound hmem (ih h)

/-- What looking for the name of the client comes to, unless it is interrupted. -/
theorem chooses_of_run {domain v : String} {t t' : Traffic}
    (h : (validatedName env client domain).run t = (.ok v, t')) :
    Chooses env client domain t v t' := by
  unfold validatedName confirmedNames at h
  rw [Process.run_bind, Lookup.run_attempt, Process.run_bind] at h
  rcases hnames : (lookup env .ptr client).run t with ⟨(f | i) | names, t₁⟩ <;> rw [hnames] at h
  · cases h
    exact .unnamed hnames
  · cases h
  · dsimp only at h
    rcases hconfirmed : (confirmNames env client (names.take maxClientNames)).run t₁ with
      ⟨(f | i) | confirmed, t₂⟩ <;> rw [hconfirmed] at h <;> cases h
    · exact .failed hnames (confirms_of_run (r := .error f) hconfirmed)
    · exact .preferred hnames (confirms_of_run (r := .ok confirmed) hconfirmed)
        (prefers_chooseName _ _)

end

/-! ## Macro strings that insert the name -/

/-- The other properties do not depend on the name of the client. -/
theorem Bindings.value_of_ne {l : Letter} (h : l ≠ .validatedName) (b : Bindings) (v : String) :
    ({ b with validatedName := v } : Bindings).value l = b.value l := by
  cases l with
  | validatedName => exact absurd rfl h
  | _ => rfl

namespace MacroString

/-- A macro string inserts the name of the client somewhere. -/
def InsertsClientName (m : MacroString) : Prop :=
  ∃ e : Expansion, .expansion e ∈ m ∧ e.letter = .validatedName

theorem needsValidatedName_iff {m : MacroString} :
    m.needsValidatedName = true ↔ m.InsertsClientName := by
  unfold needsValidatedName InsertsClientName
  rw [List.any_eq_true]
  constructor
  · rintro ⟨segment, hmem, h⟩
    cases segment with
    | literal octets => simp at h
    | expansion e => exact ⟨e, hmem, eq_of_beq h⟩
  · rintro ⟨e, hmem, h⟩
    exact ⟨.expansion e, hmem, beq_iff_eq.2 h⟩

/-- A macro string that does not insert the name of the client stands for the same octets
whatever the name is. -/
theorem expand_of_not_insertsClientName {m : MacroString} (h : ¬ m.InsertsClientName)
    (b : Bindings) (v : String) : m.expand { b with validatedName := v } = m.expand b := by
  unfold expand
  apply List.flatMap_congr
  intro segment hmem
  cases segment with
  | literal octets => rfl
  | expansion e =>
    have hletter : e.letter ≠ .validatedName := fun heq => h ⟨e, hmem, heq⟩
    change e.apply _ = e.apply _
    rw [Bindings.value_of_ne hletter]

end MacroString

end SenderPolicy
