import SenderPolicy.Proofs.Journal
import SenderPolicy.Proofs.QuestionBound

/-!
# How faults are passed on

A fault of a question goes through many hands before it becomes a verdict: each may
take it for a missing answer, for a missing policy, or pass it on. A process reports
its faults if it stops with a transient fault exactly when a question on whose answer
a verdict rests has failed in that way, and stops at once then.

Main definitions:

- `Fault.isTransient`, `Dns.Transport.Classifies`: failures that may pass, and
  transports that tell them from missing answers;
- `Inquiry.IsFatal`, `Unscathed`: failures on which a verdict rests, and journals
  without them;
- `Concludes`: how the end of a process fits its journal;
- `Reports`: the processes whose ends fit their journals.

Main results:

- `Reports.handle`: a handler of faults may not hold transient ones up;
- `Reports.lookupPolicy`, `Reports.test`: finding policies and testing mechanisms
  report their faults;
- `Reports.prepare`, `Reports.conclude`: so do the two parts of a step.
-/

namespace SenderPolicy

variable {α β : Type}

/-! ## Classes of faults -/

/-- Whether a fault may pass by itself. -/
def Fault.isTransient : Fault → Bool
  | .dns _ | .serverFailure _ | .timedOut => true
  | _ => false

/-- A transient fault is a temporary error. -/
theorem Fault.verdict_of_isTransient {f : Fault} (h : f.isTransient) :
    f.verdict = .tempError := by
  cases f <;> first | rfl | cases h

/-- A transient fault does not say that there is no answer. -/
theorem Fault.not_isNotFound_of_isTransient {f : Fault} (h : f.isTransient) :
    ¬ f.isNotFound = true := by
  rw [Bool.not_eq_true]
  cases f <;> first | rfl | cases h

/-- A missing answer is no error at all. -/
theorem Fault.verdict_of_isNotFound {f : Fault} (h : f.isNotFound) : f.verdict = .none := by
  cases f <;> first | rfl | cases h

/-- A transport that classifies its failures: each is a missing answer or transient. -/
def Dns.Transport.Classifies (transport : Dns.Transport) : Prop :=
  ∀ history q f, (transport history q).outcome = .error f → f.isNotFound ∨ f.isTransient

/-- With such a transport, every fault of a question has one of the two classes. -/
theorem Environment.classes_of_fault? {env : Environment} (hclass : env.transport.Classifies)
    {history : List Dns.Question} {q : Dns.Question} {f : Fault}
    (h : env.fault? history q = some f) : f.isNotFound ∨ f.isTransient := by
  unfold fault? at h
  dsimp only at h
  split at h
  · cases h
    exact .inr rfl
  · split at h
    next f' houtcome =>
      cases h
      exact hclass history q f houtcome
    · split at h
      · cases h
        exact .inl rfl
      · cases h

/-- No reason to select no policy is a temporary error. -/
theorem Policy.verdict_of_select {records : List Octets} {f : Fault}
    (h : select records = .error f) : f.verdict ≠ .tempError := by
  unfold select at h
  split at h
  · cases h
    decide
  · unfold parse at h
    repeat' split at h
    all_goals cases h
    all_goals decide
  · cases h
    decide

/-- Too many lookups are a permanent error. -/
theorem Budget.verdict_of_charge {b : Budget} {f : Fault} (h : b.charge = .error f) :
    f.verdict ≠ .tempError := by
  unfold charge at h
  split at h
  · cases h
  · cases h
    decide

/-! ## Ends and journals -/

/-- A transient failure of a question on which a verdict rests. -/
def Inquiry.IsFatal (i : Inquiry) : Prop :=
  i.purpose.isDecisive = true ∧ ∃ f, i.fault? = some f ∧ f.isTransient = true

/-- A journal without fatal inquiries. -/
def Unscathed (w : List Inquiry) : Prop := ∀ i ∈ w, ¬ i.IsFatal

/-- Without a fault that is a temporary error, an inquiry is not fatal. -/
theorem unscathed_singleton {i : Inquiry}
    (h : ∀ f, i.fault? = some f → f.verdict ≠ .tempError) : Unscathed [i] := by
  intro j hj
  cases List.mem_singleton.1 hj
  rintro ⟨-, f, hf, htransient⟩
  exact h f hf (Fault.verdict_of_isTransient htransient)

theorem Unscathed.append {later earlier : List Inquiry} (hl : Unscathed later)
    (he : Unscathed earlier) : Unscathed (later ++ earlier) :=
  List.forall_mem_append.2 ⟨hl, he⟩

/-- Nothing is fatal of what no verdict rests on. -/
theorem unscathed_annotate {env : Environment} {purpose : Purpose}
    (h : purpose.isDecisive = false) (history asked : List Dns.Question) :
    Unscathed (annotate env purpose history asked) := by
  intro i hi hfatal
  have hdecisive := hfatal.1
  rw [purpose_of_mem_annotate hi, h] at hdecisive
  cases hdecisive

/-- The end of a process fits its journal: a fatal inquiry is the last one, and its
fault is the reason to stop; without one, the reason is no temporary error. -/
inductive Concludes : List Inquiry → Except Abort α → Prop where
  | value {w : List Inquiry} (a : α) : Unscathed w → Concludes w (.ok a)
  | noPolicy {w : List Inquiry} : Unscathed w → Concludes w (.error .noPolicy)
  | refused {w : List Inquiry} {f : Fault} :
      f.verdict ≠ .tempError → Unscathed w → Concludes w (.error (.stopped (.fault f)))
  | failed {i : Inquiry} {earlier : List Inquiry} {f : Fault} :
      i.IsFatal → f.isTransient → Unscathed earlier →
      Concludes (i :: earlier) (.error (.stopped (.fault f)))
  | interrupted (w : List Inquiry) (i : Interruption) :
      Concludes w (.error (.stopped (.interrupted i)))

namespace Concludes

/-- What ends without a fatal inquiry may have been preceded by others. -/
theorem after {later earlier : List Inquiry} {r : Except Abort α} (h : Concludes later r)
    (he : Unscathed earlier) : Concludes (later ++ earlier) r := by
  cases h with
  | value a hl => exact .value a (hl.append he)
  | noPolicy hl => exact .noPolicy (hl.append he)
  | refused hf hl => exact .refused hf (hl.append he)
  | failed hi hf hl => exact .failed hi hf (hl.append he)
  | interrupted w i => exact .interrupted _ i

/-- There is no fatal inquiry where there is a value. -/
theorem unscathed {w : List Inquiry} {a : α} (h : Concludes w (.ok a : Except Abort α)) :
    Unscathed w := by
  cases h with
  | value a hw => exact hw

/-- A fault is transient, or else no temporary error, and then no inquiry was fatal. -/
theorem of_fault {w : List Inquiry} {f : Fault}
    (h : Concludes w (.error (.stopped (.fault f)) : Except Abort α)) :
    f.isTransient = true ∨ f.verdict ≠ .tempError ∧ Unscathed w := by
  cases h with
  | refused hf hw => exact .inr ⟨hf, hw⟩
  | failed hi hf hw => exact .inl hf

/-- A reason to stop does not depend on what the value would have been. -/
theorem error {w : List Inquiry} {e : Abort} (h : Concludes w (.error e : Except Abort α)) :
    Concludes w (.error e : Except Abort β) := by
  cases h with
  | noPolicy hw => exact .noPolicy hw
  | refused hf hw => exact .refused hf hw
  | failed hi hf hw => exact .failed hi hf hw
  | interrupted w i => exact .interrupted w i

/-- The value does not matter. -/
theorem map {w : List Inquiry} {r : Except Abort α} (h : Concludes w r) (f : α → β) :
    Concludes w (r.map f) := by
  cases r with
  | ok a => exact .value (f a) h.unscathed
  | error e => exact h.error

/-- A fatal inquiry is the last one. -/
theorem eq_nil_of_isFatal {w later earlier : List Inquiry} {i : Inquiry} {r : Except Abort α}
    (h : Concludes w r) (hr : ∀ j, r ≠ .error (.stopped (.interrupted j)))
    (hw : w = later ++ i :: earlier) (hi : i.IsFatal) : later = [] := by
  have habsurd : ¬ Unscathed w := fun hunscathed => hunscathed i (by simp [hw]) hi
  cases h with
  | value a hu => exact absurd hu habsurd
  | noPolicy hu => exact absurd hu habsurd
  | refused hf hu => exact absurd hu habsurd
  | failed hj hf hu =>
    cases later with
    | nil => rfl
    | cons k later =>
      obtain ⟨-, rfl⟩ := List.cons_eq_cons.1 hw
      exact absurd hi (hu i (by simp))
  | interrupted w j => exact absurd rfl (hr j)

end Concludes

/-! ## Processes that end as their journals say -/

/-- A process whose end fits its journal, where it asks for one purpose. -/
def Reports (env : Environment) (purpose : Purpose) (x : Evaluation α) : Prop :=
  ∀ p, ∃ asked, (x.run p).2.traffic.log = asked ++ p.traffic.log ∧
    Concludes (annotate env purpose p.traffic.log asked) (x.run p).1

namespace Reports

variable {env : Environment} {request : Request} {purpose : Purpose}

theorem pure (a : α) : Reports env purpose (Pure.pure a : Evaluation α) :=
  fun _ => ⟨[], rfl, .value a (List.forall_mem_nil _)⟩

theorem noPolicy : Reports env purpose (Process.stop .noPolicy : Evaluation α) :=
  fun _ => ⟨[], rfl, .noPolicy (List.forall_mem_nil _)⟩

theorem fail {f : Fault} (h : f.verdict ≠ .tempError) :
    Reports env purpose (Evaluation.fail f : Evaluation α) :=
  fun _ => ⟨[], rfl, .refused h (List.forall_mem_nil _)⟩

/-- What follows questions none of which was fatal. -/
theorem after {x : Evaluation α} (hx : Reports env purpose x) {p : Progress}
    {history asked : List Dns.Question} (hlog : p.traffic.log = asked ++ history)
    (hw : Unscathed (annotate env purpose history asked)) :
    ∃ asked', (x.run p).2.traffic.log = asked' ++ history ∧
      Concludes (annotate env purpose history asked') (x.run p).1 := by
  obtain ⟨later, hlater, hc⟩ := hx p
  refine ⟨later ++ asked, ?_, ?_⟩
  · rw [hlater, hlog, List.append_assoc]
  · rw [annotate_append, ← hlog]
    exact hc.after hw

/-- A fault of the first process is its report, one of the second comes after a stretch without a
failure. -/
theorem bind {x : Evaluation α} {f : α → Evaluation β} (hx : Reports env purpose x)
    (hf : ∀ a, Reports env purpose (f a)) : Reports env purpose (x >>= f) := by
  intro p
  obtain ⟨asked, hlog, hc⟩ := hx p
  rw [Process.run_bind]
  rcases hrun : x.run p with ⟨e | a, q⟩
  · rw [hrun] at hlog hc
    exact ⟨asked, hlog, hc.error⟩
  · rw [hrun] at hlog hc
    exact (hf a).after hlog hc.unscathed

theorem ite {c : Prop} [Decidable c] {x y : Evaluation α} (hx : Reports env purpose x)
    (hy : Reports env purpose y) : Reports env purpose (if c then x else y) := by
  split <;> assumption

/-- A charge that fails is a permanent error. -/
theorem charge : Reports env purpose charge := by
  intro p
  rw [run_charge]
  cases hc : p.budget.charge with
  | ok b => exact ⟨[], rfl, .value () (List.forall_mem_nil _)⟩
  | error f => exact ⟨[], rfl, .refused (Budget.verdict_of_charge hc) (List.forall_mem_nil _)⟩

theorem chargeVoid : Reports env purpose chargeVoid := by
  intro p
  rw [run_chargeVoid]
  split
  · exact ⟨[], rfl, .refused (by decide) (List.forall_mem_nil _)⟩
  · exact ⟨[], rfl, .value () (List.forall_mem_nil _)⟩

/-- Faults may be handled in any way that fits the journal, apart from transient ones,
which have to be passed on. -/
theorem handle {x : Lookup α} {k : Except Fault α → Evaluation β}
    (hx : Reports env purpose (Evaluation.ofLookup x))
    (hok : ∀ a, Reports env purpose (k (.ok a)))
    (htransient : ∀ f, f.isTransient → k (.error f) = Evaluation.fail f)
    (hother : ∀ f, f.verdict ≠ .tempError → Reports env purpose (k (.error f))) :
    Reports env purpose (Evaluation.ofLookup x.attempt >>= k) := by
  intro p
  obtain ⟨asked, hlog, hc⟩ := hx p
  rw [Evaluation.run_ofLookup] at hlog hc
  rw [Process.run_bind, Evaluation.run_ofLookup, Lookup.run_attempt]
  rcases hrun : x.run p.traffic with ⟨(f | i) | a, t⟩ <;> rw [hrun] at hlog hc
  · rcases hc.of_fault with hf | ⟨hf, hw⟩
    · dsimp only [Except.mapError]
      rw [htransient f hf]
      exact ⟨asked, hlog, hc.error⟩
    · exact (hother f hf).after hlog hw
  · exact ⟨asked, hlog, .interrupted _ i⟩
  · exact (hok a).after hlog hc.unscathed

/-- A missing answer may be handled, if every other fault is passed on. -/
theorem handle_missing {x : Lookup α} {k : Except Fault α → Evaluation β} {y : Evaluation β}
    (hx : Reports env purpose (Evaluation.ofLookup x))
    (hok : ∀ a, Reports env purpose (k (.ok a)))
    (hfault : ∀ f, k (.error f) = if f.isNotFound then y else Evaluation.fail f)
    (hy : Reports env purpose y) :
    Reports env purpose (Evaluation.ofLookup x.attempt >>= k) := by
  refine handle hx hok (fun f hf => ?_) (fun f hf => ?_)
  · rw [hfault, if_neg (Fault.not_isNotFound_of_isTransient hf)]
  · rw [hfault]
    exact ite hy (fail hf)

/-- A process that asks nothing and gives a value. -/
theorem silent {x : Lookup α} (h : ∀ t, ∃ a t', x.run t = (.ok a, t') ∧ t'.log = t.log) :
    Reports env purpose (Evaluation.ofLookup x) := by
  intro p
  obtain ⟨a, t, hrun, hlog⟩ := h p.traffic
  rw [Evaluation.run_ofLookup, hrun]
  exact ⟨[], hlog, .value a (List.forall_mem_nil _)⟩

/-! ## Lookups on which a verdict rests -/

section Lookups

variable (hclass : env.transport.Classifies) (hpurpose : purpose.isDecisive = true)
include hclass hpurpose

/-- A lookup that fails does so at its last question. -/
theorem ask (q : Dns.Question) : Reports env purpose (Evaluation.ofLookup (ask env q)) := by
  intro p
  rw [Evaluation.run_ofLookup, run_ask]
  refine ⟨[q], rfl, ?_⟩
  dsimp only [annotate, List.nil_append]
  cases env.alarm.ringing _ with
  | some i => exact .interrupted _ i
  | none =>
    cases hfault : env.fault? p.traffic.log q with
    | none =>
      obtain ⟨answer, houtcome⟩ := Environment.outcome_of_fault? hfault
      rw [houtcome]
      exact .value answer (unscathed_singleton fun f hf => by cases hf)
    | some f =>
      rcases Environment.classes_of_fault? hclass hfault with hf | hf
      · have hverdict : f.verdict ≠ .tempError := by
          rw [Fault.verdict_of_isNotFound hf]
          decide
        exact .refused hverdict (unscathed_singleton fun f' hf' => by cases hf'; exact hverdict)
      · exact .failed ⟨hpurpose, f, rfl, hf⟩ hf (List.forall_mem_nil _)

theorem lookup (k : Dns.Kind) (owner : k.Owner) :
    Reports env purpose (Evaluation.ofLookup (lookup env k owner)) := by
  unfold SenderPolicy.lookup
  rw [Evaluation.ofLookup_bind]
  refine bind (silent fun t => ⟨_, _, rfl, rfl⟩) fun found => ?_
  cases found with
  | some records => exact pure records
  | none =>
    dsimp only
    rw [Evaluation.ofLookup_bind]
    apply bind (ask hclass hpurpose _)
    intro answer
    rw [Evaluation.ofLookup_bind]
    exact bind (silent fun t => ⟨_, _, rfl, rfl⟩) fun _ => pure answer.records

theorem resolvesNear (client : Address) (mask4 : BitVec 32) (mask6 : BitVec 128)
    (name : String) :
    Reports env purpose (Evaluation.ofLookup (resolvesNear env client mask4 mask6 name)) := by
  unfold SenderPolicy.resolvesNear
  cases client with
  | v4 a =>
    dsimp only
    rw [Evaluation.ofLookup_bind]
    exact bind (lookup hclass hpurpose .a name) fun _ => pure _
  | v6 a =>
    dsimp only
    rw [Evaluation.ofLookup_bind]
    exact bind (lookup hclass hpurpose .aaaa name) fun _ => pure _

/-- A failure while a name is confirmed stops the confirming. -/
theorem confirmNames (client : Address) (names : List String) :
    Reports env purpose (Evaluation.ofLookup (confirmNames env client names)) := by
  induction names with
  | nil => exact pure []
  | cons name rest ih =>
    unfold SenderPolicy.confirmNames
    rw [Evaluation.ofLookup_bind]
    refine handle_missing (resolvesNear hclass hpurpose client _ _ name) (fun near => ?_)
      (fun f => apply_ite _ _ _ _) ih
    cases near with
    | true =>
      dsimp only
      rw [Evaluation.ofLookup_bind]
      exact bind ih fun _ => pure _
    | false => exact ih

theorem confirmedNames (client : Address) :
    Reports env purpose (Evaluation.ofLookup (confirmedNames env client)) := by
  unfold SenderPolicy.confirmedNames
  rw [Evaluation.ofLookup_bind]
  exact bind (lookup hclass hpurpose .ptr client) fun _ => confirmNames hclass hpurpose client _

theorem lookupAll (k : Dns.Kind) (owner : k.Owner) :
    Reports env purpose (Evaluation.ofLookup (lookupAll env k owner)) := by
  unfold SenderPolicy.lookupAll
  rw [Evaluation.ofLookup_bind]
  exact handle_missing (lookup hclass hpurpose k owner) (fun records => pure records)
    (fun f => apply_ite _ _ _ _) (pure [])

theorem hasAddress (name : String) :
    Reports env purpose (Evaluation.ofLookup (hasAddress env name)) := by
  unfold SenderPolicy.hasAddress
  rw [Evaluation.ofLookup_bind]
  exact handle_missing (lookup hclass hpurpose .a name) (fun _ => pure true)
    (fun f => apply_ite _ _ _ _) (pure false)

omit hclass hpurpose in
/-- Selecting a policy is never a temporary error. -/
theorem select (records : List Octets) :
    Reports env purpose (Evaluation.ofLookup (Lookup.ofExcept (Policy.select records))) := by
  cases h : Policy.select records with
  | ok policy => exact pure policy
  | error f => exact fail (Policy.verdict_of_select h)

/-- A failure while the texts of a domain are fetched is reported. -/
theorem lookupPolicy (domain : String) :
    Reports env purpose (Evaluation.ofLookup (lookupPolicy env domain)) := by
  unfold SenderPolicy.lookupPolicy
  rw [Evaluation.ofLookup_bind]
  apply bind (lookupAll hclass hpurpose .txt domain)
  intro records
  split
  · split
    · rw [Evaluation.ofLookup_bind]
      exact bind (lookupAll hclass hpurpose .spf domain) fun _ => select _
    · exact fail (by decide)
  · exact select records

/-! ## Terms -/

/-- A missing policy is no failure, and every other fault is reported. -/
theorem fetchPolicy (name : String) : Reports env purpose (fetchPolicy env name) := by
  refine ite (handle (lookupPolicy hclass hpurpose name) (fun policy => pure policy)
    (fun f hf => ?_) (fun f hf => ite noPolicy (fail hf))) noPolicy
  have hverdict : f.verdict ≠ .none := by
    rw [Fault.verdict_of_isTransient hf]
    decide
  exact if_neg hverdict

omit hclass hpurpose in
/-- Counting a missing answer hides no failure. -/
theorem orVoid {x : Lookup α} (fallback : α)
    (hx : Reports env purpose (Evaluation.ofLookup x)) :
    Reports env purpose (orVoid x fallback) :=
  handle_missing hx (fun a => pure a) (fun _ => rfl) (bind chargeVoid fun _ => pure fallback)

theorem matchesExchange (client : Address) (mask4 : BitVec 32) (mask6 : BitVec 128)
    (l : List Dns.MailExchange) :
    Reports env purpose (matchesExchange env client mask4 mask6 l) := by
  induction l with
  | nil => exact pure false
  | cons x rest ih =>
    unfold SenderPolicy.matchesExchange
    refine ite ih (bind charge fun _ => ?_)
    refine handle_missing (resolvesNear hclass hpurpose client mask4 mask6 x.exchange)
      (fun near => ?_) (fun _ => rfl) ih
    cases near with
    | true => exact pure true
    | false => exact ih

theorem matchesExistence (name : String) : Reports env purpose (matchesExistence env name) :=
  bind (hasAddress hclass hpurpose name) fun _ =>
    ite (pure true) (bind chargeVoid fun _ => pure false)

/-- No mechanism hides a failure of the transport. -/
theorem test (m : Mechanism) (name : String) :
    Reports env purpose (m.test env request name) := by
  cases m with
  | all => exact pure true
  | includePolicy target => exact pure false
  | ip4 net mask => exact pure _
  | ip6 net mask => exact pure _
  | a target mask4 mask6 =>
    refine bind charge fun _ => ite ?_ (pure false)
    exact orVoid false (resolvesNear hclass hpurpose _ _ _ name)
  | mx target mask4 mask6 =>
    refine bind charge fun _ => ite (bind ?_ fun l => ?_) (pure false)
    · exact orVoid [] (lookup hclass hpurpose .mx name)
    · exact matchesExchange hclass hpurpose _ _ _ l
  | ptr target =>
    refine bind charge fun _ => bind ?_ fun names => pure _
    exact orVoid [] (confirmedNames hclass hpurpose _)
  | existsName target =>
    refine bind charge fun _ => ite ?_ (pure false)
    exact matchesExistence hclass hpurpose name

/-- The second part of a step ends as its journal says. -/
theorem conclude (m : Machine) (name : String) :
    Reports env purpose (m.conclude env request name) := by
  unfold Machine.conclude
  split
  · split
    · exact bind (fetchPolicy hclass hpurpose name) fun _ => pure _
    · exact pure _
  · exact bind (fetchPolicy hclass hpurpose name) fun _ => pure _
  · exact bind (test hclass hpurpose _ name) fun _ => ite (pure _) (pure _)

end Lookups

/-! ## Lookups on which no verdict rests -/

/-- A lookup that no fault stops. -/
def Quiet (x : Lookup α) : Prop := ∀ t f, (x.run t).1 ≠ .error (.fault f)

theorem Quiet.pure (a : α) : Quiet (Pure.pure a : Lookup α) := fun _ _ h => by cases h

/-- Any fault is held up by handling it. -/
theorem Quiet.attempt (x : Lookup α) : Quiet x.attempt := by
  intro t f h
  rw [Lookup.run_attempt] at h
  rcases hrun : x.run t with ⟨(f' | i) | a, t'⟩ <;> rw [hrun] at h <;> cases h

theorem Quiet.bind {x : Lookup α} {f : α → Lookup β} (hx : Quiet x)
    (hf : ∀ a, Quiet (f a)) : Quiet (x >>= f) := by
  intro t g h
  have hxt := hx t g
  rw [Process.run_bind] at h
  rcases hrun : x.run t with ⟨e | a, t'⟩ <;> rw [hrun] at h hxt
  · cases h
    exact hxt rfl
  · exact hf a t' g h

/-- Failures on the way to a validated name are held up. -/
theorem Quiet.validatedName (client : Address) (domain : String) :
    Quiet (validatedName env client domain) :=
  .bind (.attempt _) fun r => by cases r <;> exact .pure _

theorem Quiet.bindingsFor (domain : String) (m : MacroString) :
    Quiet (bindingsFor env request domain m) := by
  unfold SenderPolicy.bindingsFor
  split
  · exact .bind (.validatedName _ _) fun _ => .pure _
  · exact .pure _

theorem Quiet.targetName (domain : String) (m : MacroString) :
    Quiet (targetName env request domain m) :=
  .bind (.bindingsFor domain m) fun _ => .pure _

theorem Quiet.targetNameOr (domain : String) (m : Option MacroString) :
    Quiet (targetNameOr env request domain m) := by
  cases m with
  | none => exact .pure domain
  | some m => exact .targetName domain m

/-- The explanation of a failure fails quietly. -/
theorem Quiet.explainFinish (finish : Finish) : Quiet (explainFinish env request finish) := by
  unfold SenderPolicy.explainFinish
  split
  · exact .bind (.attempt _) fun r => by cases r <;> exact .pure _
  · exact .pure none

/-- A lookup that no fault stops ends as its journal says, if no verdict rests on what
it asks. -/
theorem quiet {n : Nat} {x : Lookup α} (hpurpose : purpose.isDecisive = false)
    (hasks : Asks n x) (hx : Quiet x) : Reports env purpose (Evaluation.ofLookup x) := by
  intro p
  obtain ⟨asked, hlog, -⟩ := hasks p.traffic
  have hfault := hx p.traffic
  rw [Evaluation.run_ofLookup]
  refine ⟨asked, hlog, ?_⟩
  rcases hrun : x.run p.traffic with ⟨(f | i) | a, t⟩
  · rw [hrun] at hfault
    exact absurd rfl (hfault f)
  · exact .interrupted _ i
  · exact .value a (unscathed_annotate hpurpose _ asked)

/-- The first part of a step ends as its journal says. -/
theorem prepare (m : Machine) : Reports env .clientName (m.prepare env request) := by
  unfold Machine.prepare
  split
  · split
    · exact bind charge fun _ => quiet rfl (Asks.targetName _ _) (.targetName _ _)
    · exact pure _
  · refine bind charge fun _ => ite (fail (by decide)) ?_
    exact quiet rfl (Asks.targetName _ _) (.targetName _ _)
  · exact quiet rfl (Asks.targetNameOr _ _) (.targetNameOr _ _)

end Reports

end SenderPolicy
