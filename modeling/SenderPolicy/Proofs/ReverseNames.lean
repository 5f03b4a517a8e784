import SenderPolicy.Proofs.AddressLookups
import SenderPolicy.Proofs.LabelSuffix

/-!
# Names found by the address of the client

The reverse lookup of the client gives names, and of these the first ten are looked up in turn, all
of them before any is compared with the target. So a failure of any of these lookups ends the
mechanism, whatever the others find.

Main definitions:

- `Confirmed`: what confirming names comes to from their lookups;
- `NamesDecide`: what the mechanism comes to from the names of the client.

Main results:

- `confirmed_confirmNames`, `namesDecide_orVoid`: confirming and comparing names comes to that;
- `Mechanism.matches_ptr`: what the mechanism comes to.
-/

namespace SenderPolicy

/-- What confirming names comes to, from the lookups of their addresses: the first lookup that fails
is passed on, and otherwise those names are confirmed whose lookups find the client. -/
inductive Confirmed (client : Address) (t : Traffic) (lookups : List AddressLookup) :
    Except Stop (List String) × Traffic → Prop where
  | failed {before : List AddressLookup} {l : AddressLookup} {e : Stop} :
      FirstAt AddressLookup.Fails lookups before l → l.outcome = .error e →
      Confirmed client t lookups (.error e, l.traffic)
  | names {confirmed : List String} :
      (∀ l ∈ lookups, ¬ l.Fails) →
      (∀ v, v ∈ confirmed ↔ ∃ l ∈ lookups, l.Finds (· = client) ∧ v = Text.lowerCase l.name) →
      Confirmed client t lookups (.ok confirmed, trafficAfter t lookups)

namespace Confirmed

variable {client : Address} {l : AddressLookup} {lookups : List AddressLookup} {t : Traffic}
  {ran : Except Stop (List String) × Traffic}

/-- A name is confirmed before the others if its lookup finds the client. -/
theorem same (hl : l.Finds (· = client)) (h : Confirmed client l.traffic lookups ran) :
    Confirmed client t (l :: lookups) (ran.1.map (Text.lowerCase l.name :: ·), ran.2) := by
  cases h with
  | failed hfirst he => exact .failed (hfirst.cons hl.not_fails) he
  | @names confirmed hnone hmem =>
    rw [← trafficAfter_cons t l lookups]
    refine .names (List.forall_mem_cons.2 ⟨hl.not_fails, hnone⟩) fun v => ?_
    rw [List.mem_cons, hmem, List.exists_mem_cons_iff]
    exact or_congr_left ⟨fun hv => ⟨hl, hv⟩, And.right⟩

/-- A name is left out if its lookup does not fail, and does not find the client. -/
theorem other (hl : ¬ l.Fails) (hclient : ¬ l.Finds (· = client))
    (h : Confirmed client l.traffic lookups ran) : Confirmed client t (l :: lookups) ran := by
  cases h with
  | failed hfirst he => exact .failed (hfirst.cons hl) he
  | @names confirmed hnone hmem =>
    rw [← trafficAfter_cons t l lookups]
    refine .names (List.forall_mem_cons.2 ⟨hl, hnone⟩) fun v => ?_
    rw [hmem, List.exists_mem_cons_iff]
    exact (or_iff_right fun hv => hclient hv.1).symm

end Confirmed

section

variable (env : Environment) (client : Address)

/-- Confirming names comes to what their lookups say. -/
theorem confirmed_confirmNames (names : List String) (t : Traffic) :
    Confirmed client t (addressLookups env client names t)
      ((confirmNames env client names).run t) := by
  induction names generalizing t with
  | nil => exact .names (List.forall_mem_nil _) (by simp [addressLookups])
  | cons name rest ih =>
    rw [confirmNames, addressLookups, resolvesNear_eq_addresses, Process.run_bind,
      Lookup.run_attempt, Process.run_bind]
    rcases (addresses env client name).run t with ⟨(f | i) | found, t₁⟩ <;>
      dsimp only [Process.run_pure]
    · by_cases hf : f.isNotFound = true
      · rw [if_pos hf]
        exact .other (by simp [Stop.isMissing_fault_iff, hf]) (by simp) (ih t₁)
      · have hfails : AddressLookup.Fails ⟨name, .error (.fault f), t₁⟩ := by
          simpa [Stop.isMissing_fault_iff] using hf
        rw [if_neg hf]
        exact .failed (.head hfails _) rfl
    · have hfails : AddressLookup.Fails ⟨name, .error (.interrupted i), t₁⟩ := by
        simp [Stop.not_isMissing_interrupted]
      exact .failed (.head hfails _) rfl
    · by_cases hmem : client ∈ found
      · have hfinds : AddressLookup.Finds (· = client) ⟨name, .ok found, t₁⟩ := by simpa using hmem
        have hrest := ih t₁
        rw [decide_eq_true hmem]
        dsimp only
        rw [Process.run_bind]
        rcases hrun : (confirmNames env client rest).run t₁ with ⟨e | confirmed, t₂⟩ <;>
          rw [hrun] at hrest <;> exact .same hfinds hrest
      · have hfinds : ¬ AddressLookup.Finds (· = client) ⟨name, .ok found, t₁⟩ := by
          simpa using hmem
        rw [decide_eq_false hmem]
        exact .other (by simp) hfinds (ih t₁)

end

/-! ## The mechanism -/

/-- What the mechanism comes to from the names of the client. The first of the lookups of ten names
that fails is passed on; if none does, one name has to be confirmed and within the target. -/
inductive NamesDecide (env : Environment) (client : Address) (target : String) (b : Budget)
    (t : Traffic) (names : List String) : Except Abort Bool × Progress → Prop where
  | failed {before : List AddressLookup} {l : AddressLookup} {e : Stop} :
      FirstAt AddressLookup.Fails (addressLookups env client (names.take 10) t) before l →
      l.outcome = .error e →
      NamesDecide env client target b t names (.error (.stopped e), ⟨l.traffic, b⟩)
  | compared {lookups : List AddressLookup} {matched : Bool} :
      lookups = addressLookups env client (names.take 10) t → (∀ l ∈ lookups, ¬ l.Fails) →
      (matched = true ↔ ∃ l ∈ lookups, l.Finds (· = client) ∧
        DomainName.labels (Text.lowerCase target) <:+ DomainName.labels (Text.lowerCase l.name)) →
      NamesDecide env client target b t names (.ok matched, ⟨trafficAfter t lookups, b⟩)

/-- The first lookup that fails ends the mechanism, whatever the others find. -/
theorem NamesDecide.eq_error {env : Environment} {client : Address} {target : String} {b : Budget}
    {t : Traffic} {names : List String} {ran : Except Abort Bool × Progress}
    (h : NamesDecide env client target b t names ran) {before : List AddressLookup}
    {l : AddressLookup} {e : Stop}
    (hfirst : FirstAt AddressLookup.Fails (addressLookups env client (names.take 10) t) before l)
    (he : l.outcome = .error e) : ran.1 = .error (.stopped e) := by
  cases h with
  | failed hfirst' he' =>
    obtain ⟨-, rfl⟩ := hfirst.unique hfirst'
    cases he.symm.trans he'
    rfl
  | compared hlookups hnone => exact absurd hfirst.holds (hnone l (hlookups ▸ hfirst.mem))

section

variable {env : Environment} {request : Request} {domain name : String} {m? : Option MacroString}
  {p : Progress} {t : Traffic}

/-- Comparing the names of the client with the target comes to what their lookups say. -/
theorem namesDecide_orVoid (names : List String) (b : Budget) :
    NamesDecide env request.client name b t names
      ((orVoid (confirmNames env request.client (names.take 10)) [] >>= fun names =>
        pure (names.any (DomainName.isWithin (Text.lowerCase name)))).run ⟨t, b⟩) := by
  have hconfirmed := confirmed_confirmNames env request.client (names.take 10) t
  generalize hran : (confirmNames env request.client (names.take 10)).run t = ran at hconfirmed
  cases hconfirmed with
  | failed hfirst he =>
    obtain ⟨e', he', hmissing⟩ := hfirst.holds
    cases he.symm.trans he'
    rw [run_orVoid_error hran hmissing]
    exact .failed hfirst he
  | names hnone hmem =>
    rw [run_orVoid_ok hran]
    refine .compared rfl hnone ?_
    simp only [List.any_eq_true, hmem]
    constructor
    · rintro ⟨_, ⟨l, hl, hfinds, rfl⟩, hwithin⟩
      exact ⟨l, hl, hfinds, DomainName.isWithin_lowerCase.1 hwithin⟩
    · rintro ⟨l, hl, hfinds, hsuffix⟩
      exact ⟨_, ⟨l, hl, hfinds, rfl⟩, DomainName.isWithin_lowerCase.2 hsuffix⟩

/-- What the mechanism comes to, for any answers, if anything is left to charge. -/
theorem Mechanism.matches_ptr (hleft : p.budget.lookups < p.budget.maxLookups)
    (htarget : (targetNameOr env request domain m?).run p.traffic = (.ok name, t)) :
    ∃ b, p.budget.Charged 1 b ∧
      AnswerDecides b (NamesDecide env request.client name b)
        ((lookup env .ptr request.client).run t)
        (((Mechanism.ptr m?).matches env request domain).run p) := by
  obtain ⟨b, hcharged, hrun⟩ := Mechanism.exists_run_matches (m := .ptr m?) hleft htarget rfl
  refine ⟨b, hcharged, ?_⟩
  rw [hrun, confirmedNames]
  exact .of_orVoid (fun _ => rfl) fun names t' => namesDecide_orVoid names b

end

/-- An environment in which the client has two names. The addresses of the first are the client's,
and those of the other are not told in time. -/
def tardyEnvironment : Environment where
  transport _ q :=
    match q with
    | ⟨.ptr, _⟩ => ⟨.ok ⟨["mail.example.org", "mail.example.net"], 300⟩, 0⟩
    | ⟨.a, "mail.example.org."⟩ => ⟨.ok ⟨[⟨0xC0000201⟩], 300⟩, 0⟩
    | ⟨.a, "mail.example.net."⟩ => ⟨.error .timedOut, 0⟩
    | _ => ⟨.error (.notFound .nameError), 0⟩
  settings := .standard
  clock _ := 0
  timestamp := 0
  alarm := .silent

/-- A failure of the second lookup is the outcome, although the first name is within the target. -/
theorem Mechanism.matches_ptr_timedOut :
    let env := tardyEnvironment
    let request : Request := .forHelo (.v4 ⟨0xC0000201⟩) "example.org"
    let p : Progress := ⟨.start .disabled, ⟨0, 0, 10, 2⟩⟩
    p.budget.lookups < p.budget.maxLookups ∧
      (targetNameOr env request "example.org" none).run p.traffic = (.ok "example.org", p.traffic) ∧
      (((Mechanism.ptr none).matches env request "example.org").run p).1 =
        .error (.stopped (.fault .timedOut)) := by
  intro env request p
  have hleft : p.budget.lookups < p.budget.maxLookups := by decide
  have htarget : (targetNameOr env request "example.org" none).run p.traffic =
      (.ok "example.org", p.traffic) := rfl
  obtain ⟨t, t', hlookups⟩ : ∃ t t', addressLookups env request.client
      (["mail.example.org", "mail.example.net"].take 10)
      ((lookup env .ptr request.client).run p.traffic).2 =
        [⟨"mail.example.org", .ok [.v4 ⟨0xC0000201⟩], t⟩,
          ⟨"mail.example.net", .error (.fault .timedOut), t'⟩] := ⟨_, _, rfl⟩
  have hfails : AddressLookup.Fails ⟨"mail.example.net", .error (.fault .timedOut), t'⟩ := by
    simp [Stop.IsMissing]
  have hfirst := FirstAt.cons (AddressLookup.not_fails_ok "mail.example.org" t [.v4 ⟨0xC0000201⟩])
    (FirstAt.head hfails [])
  rw [← hlookups] at hfirst
  obtain ⟨b, -, hdecide⟩ := @Mechanism.matches_ptr env request "example.org" "example.org" none p
    p.traffic hleft htarget
  exact ⟨hleft, htarget, (hdecide.of_ok rfl).eq_error hfirst rfl⟩

end SenderPolicy
