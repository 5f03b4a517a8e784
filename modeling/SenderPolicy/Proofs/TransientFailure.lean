import SenderPolicy.Proofs.Reports

/-!
# Transient failures

If a question on whose answer the verdict rests fails in a way that may pass, the
verdict is a temporary error, and nothing is asked after it; there is no temporary
error without such a failure. Questions for the name of the client in macro strings
and for explanations may fail as they like.

Main definitions:

- `Recounts`: journals that record what was asked and fit the end.

Main results:

- `Recounts.of_step`, `Recounts.of_run`, `Recounts.of_request`: the journals of steps, of
  runs and of whole evaluations do;
- `verify_tempError_iff`: when a verification ends with a temporary error.
-/

namespace SenderPolicy

variable {α : Type}

/-! ## Runs -/

/-- A journal records what was asked, and the end fits it. -/
structure Recounts (env : Environment) (history : List Dns.Question) (r : Except Abort α)
    (p : Progress) (w : List Inquiry) : Prop where
  record : IsRecord env history w p.traffic.log
  concludes : Concludes w r

variable {env : Environment} {request : Request} {history : List Dns.Question}

/-- What a process adds to a journal without fatal inquiries. -/
theorem Recounts.of_reports {purpose : Purpose} {x : Evaluation α} (hx : Reports env purpose x)
    {p : Progress} {w : List Inquiry} (hrecord : IsRecord env history w p.traffic.log)
    (hw : Unscathed w) :
    Recounts env history (x.run p).1 (x.run p).2 (inquiries env purpose p (x.run p).2 ++ w) := by
  obtain ⟨asked, hlog, hc⟩ := hx p
  rw [inquiries_of_log hlog]
  refine ⟨?_, hc.after hw⟩
  rw [hlog]
  exact hrecord.annotate purpose asked

/-- What a step adds to a journal without fatal inquiries. -/
theorem Recounts.of_step (hclass : env.transport.Classifies) (m : Machine) {p : Progress}
    {w : List Inquiry} (hrecord : IsRecord env history w p.traffic.log) (hw : Unscathed w)
    {r : Except Abort Transition} {p' : Progress} (h : (m.step env request).run p = (r, p')) :
    Recounts env history r p' ((journalist env request).step m p r p' w) := by
  have hfirst : Reports env .clientName (m.prepare env request) := Reports.prepare m
  replace hfirst := Recounts.of_reports hfirst hrecord hw
  rw [Machine.step_eq_bind, Process.run_bind] at h
  dsimp only [journalist]
  rcases hrun : (m.prepare env request).run p with ⟨e | name, q⟩ <;> rw [hrun] at h hfirst
  · cases h
    have hnothing : inquiries env m.purpose p' p' = [] :=
      inquiries_of_log (List.nil_append _).symm
    rw [hnothing]
    exact ⟨hfirst.record, hfirst.concludes.error⟩
  · have hsecond : Reports env m.purpose (m.conclude env request name) :=
      Reports.conclude hclass m.isDecisive_purpose m name
    replace hsecond := Recounts.of_reports hsecond hfirst.record hfirst.concludes.unscathed
    dsimp only at h hsecond
    rw [h] at hsecond
    exact hsecond

/-- No qualifier gives a temporary error. -/
theorem Qualifier.verdict_ne_tempError (q : Qualifier) : q.verdict ≠ .tempError := by
  cases q <;> decide

/-- No step gives a temporary error as the verdict of a policy. -/
theorem Machine.verdict_of_step {m : Machine} {p p' : Progress} {finish : Finish}
    (h : (m.step env request).run p = (.ok (.done finish), p')) :
    finish.verdict ≠ .tempError := by
  obtain ⟨q, hq⟩ := qualifier_of_step h
  rw [hq]
  exact q.verdict_ne_tempError

/-- The journal of a run recounts it, and the run does not give a temporary error as
its verdict. -/
theorem Recounts.of_run (hclass : env.transport.Classifies) {m : Machine} {p : Progress}
    {w : List Inquiry} (hrecord : IsRecord env history w p.traffic.log) (hw : Unscathed w)
    {r : Except Abort Finish} {s : Progress × List Inquiry}
    (h : m.observeFrom env request (journalist env request) (p, w) = (r, s)) :
    Recounts env history r s.1 s.2 ∧ ∀ finish, r = .ok finish → finish.verdict ≠ .tempError := by
  obtain ⟨rfl, rfl⟩ := Prod.mk.inj h
  refine Machine.observeFrom_invariant
    (fun _ p w => IsRecord env history w p.traffic.log ∧ Unscathed w)
    (fun r p w => Recounts env history r p w ∧
      ∀ finish, r = .ok finish → finish.verdict ≠ .tempError) ?_ ?_ ?_ ⟨hrecord, hw⟩
  · intro m p w m' p' hinv hstep
    have h := Recounts.of_step hclass m hinv.1 hinv.2 hstep
    exact ⟨h.record, h.concludes.unscathed⟩
  · intro m p w finish p' hinv hstep
    have h := Recounts.of_step hclass m hinv.1 hinv.2 hstep
    refine ⟨⟨h.record, .value finish h.concludes.unscathed⟩, fun finish' heq => ?_⟩
    cases heq
    exact Machine.verdict_of_step hstep
  · intro m p w e p' hinv hstep
    have h := Recounts.of_step hclass m hinv.1 hinv.2 hstep
    exact ⟨⟨h.record, h.concludes.error⟩, fun finish heq => by cases heq⟩

variable (env request) in
/-- The journal of a request recounts its evaluation, which does not give a temporary
error as its verdict. -/
theorem Recounts.of_request (hclass : env.transport.Classifies) (p : Progress) :
    let s := (observeRequest env request (journalist env request)).run (p, [])
    Recounts env p.traffic.log s.1 s.2.1 s.2.2 ∧
      ∀ outcome, s.1 = .ok outcome → outcome.verdict ≠ .tempError := by
  have hfound : Recounts env p.traffic.log
      ((Evaluation.ofLookup (lookupPolicy env request.domain)).run p).1
      ((Evaluation.ofLookup (lookupPolicy env request.domain)).run p).2
      (inquiries env .policy p
        ((Evaluation.ofLookup (lookupPolicy env request.domain)).run p).2 ++ []) :=
    .of_reports (.lookupPolicy hclass rfl request.domain) .nil (List.forall_mem_nil _)
  refine observeRequest_cases (fun r q w => Recounts env p.traffic.log r q w ∧
    ∀ outcome, r = .ok outcome → outcome.verdict ≠ .tempError) ?_ ?_ ?_ ?_
  · intro _
    refine ⟨⟨.nil, .value _ (List.forall_mem_nil _)⟩, fun outcome heq => ?_⟩
    cases heq
    simp [Outcome.plain]
  · intro e p' hlookup
    rw [hlookup] at hfound
    exact ⟨⟨hfound.record, hfound.concludes.error⟩, fun outcome heq => by cases heq⟩
  · intro policy p' e s hlookup hrun
    rw [hlookup] at hfound
    obtain ⟨hrun, -⟩ := Recounts.of_run hclass hfound.record hfound.concludes.unscathed hrun
    exact ⟨⟨hrun.record, hrun.concludes.error⟩, fun outcome heq => by cases heq⟩
  · intro policy p' finish s x q hlookup hrun hexplain
    rw [hlookup] at hfound
    obtain ⟨hrun, hverdict⟩ := Recounts.of_run hclass hfound.record hfound.concludes.unscathed hrun
    have hlast :
        Reports env .explanation (Evaluation.ofLookup (explainFinish env request finish)) :=
      .quiet rfl (Asks.explainFinish finish) (.explainFinish finish)
    replace hlast := Recounts.of_reports hlast hrun.record hrun.concludes.unscathed
    rw [hexplain] at hlast
    refine ⟨⟨hlast.record, hlast.concludes.map _⟩, fun outcome heq => ?_⟩
    cases x with
    | error e => cases heq
    | ok explanation =>
      cases heq
      exact hverdict finish rfl

/-! ## Verifications -/

/-- The verdict is a temporary error exactly if an inquiry was fatal. -/
theorem Concludes.tempError_iff {w : List Inquiry} {r : Except Abort Outcome}
    (h : Concludes w r) (hverdict : ∀ outcome, r = .ok outcome → outcome.verdict ≠ .tempError)
    {outcome : Outcome} (hsettle : settleOutcome request r = .ok outcome) :
    outcome.verdict = .tempError ↔ ∃ i ∈ w, i.IsFatal := by
  have hnone : ∀ {w : List Inquiry}, Unscathed w → ¬ ∃ i ∈ w, i.IsFatal :=
    fun hw ⟨i, hi, hfatal⟩ => hw i hi hfatal
  cases h with
  | value a hw =>
    cases hsettle
    exact iff_of_false (hverdict _ rfl) (hnone hw)
  | noPolicy hw =>
    cases hsettle
    exact iff_of_false (by simp [Outcome.plain]) (hnone hw)
  | refused hf hw =>
    cases hsettle
    exact iff_of_false hf (hnone hw)
  | failed hi hf hw =>
    cases hsettle
    exact iff_of_true (Fault.verdict_of_isTransient hf) ⟨_, List.mem_cons_self, hi⟩
  | interrupted w i => cases hsettle

/-- A verification that ends in time has a temporary error exactly if a question on
whose answer the verdict rests failed in a way that may pass, and that question is the
last one asked. Failures of other questions do not count. -/
theorem verify_tempError_iff (env : Environment) (request : Request) (t : Traffic)
    (hclass : env.transport.Classifies)
    (hdeadline : ∀ i, ((checkWithin env none request).run t).1 ≠ .error i) :
    ∃ outcome t', (verify env request).run t = (.ok outcome, t') ∧
      IsRecord env t.log (journal env request t) t'.log ∧
      (outcome.verdict = .tempError ↔ ∃ i ∈ journal env request t, i.IsFatal) ∧
      ∀ later i earlier,
        journal env request t = later ++ i :: earlier → i.IsFatal → later = [] := by
  have hforget := observes_observeRequest env.timed request (journalist env.timed request)
    (.start env.timed { t with waited := 0 }, [])
  obtain ⟨hrecounts, hverdict⟩ := Recounts.of_request env.timed request hclass
    (.start env.timed { t with waited := 0 })
  rw [run_checkWithin, run_checkHost, ← hforget] at hdeadline
  rw [run_verify, run_checkHost, ← hforget, journal]
  generalize (observeRequest env.timed request (journalist env.timed request)).run
    (.start env.timed { t with waited := 0 }, []) = s at hdeadline hrecounts hverdict ⊢
  obtain ⟨r, p, w⟩ := s
  dsimp only [Process.forget] at hdeadline hrecounts hverdict ⊢
  cases hsettle : settleOutcome request r with
  | error i => exact absurd hsettle (hdeadline i)
  | ok outcome =>
    refine ⟨outcome, p.traffic, rfl, hrecounts.record.of_timed,
      hrecounts.concludes.tempError_iff hverdict hsettle, fun later i earlier hw hi => ?_⟩
    refine hrecounts.concludes.eq_nil_of_isFatal (fun j hr => ?_) hw hi
    rw [hr] at hdeadline
    exact hdeadline j rfl

/-- An environment in which servers refuse to answer. -/
def refusingEnvironment : Environment where
  transport _ _ := ⟨.error (.serverFailure ⟨5⟩), 20⟩
  settings := .standard
  clock _ := 0
  timestamp := 0
  alarm := .silent

/-- A server that refuses to tell the policy is the reason for a temporary error. -/
theorem verify_tempError_iff_refused :
    let request : Request := .forHelo (.v4 ⟨0xC0000201⟩) "example.com"
    let t : Traffic := .start (.ofCapacity 16)
    refusingEnvironment.transport.Classifies ∧
      (∀ i, ((checkWithin refusingEnvironment none request).run t).1 ≠ .error i) ∧
      ∃ outcome t', (verify refusingEnvironment request).run t = (.ok outcome, t') ∧
        IsRecord refusingEnvironment t.log (journal refusingEnvironment request t) t'.log ∧
        (outcome.verdict = .tempError ↔
          ∃ i ∈ journal refusingEnvironment request t, i.IsFatal) ∧
        ∀ later i earlier,
          journal refusingEnvironment request t = later ++ i :: earlier → i.IsFatal →
            later = [] := by
  have hclass : refusingEnvironment.transport.Classifies := by
    intro history q f h
    cases h
    exact .inr rfl
  have hrun : ((checkWithin refusingEnvironment none
      (.forHelo (.v4 ⟨0xC0000201⟩) "example.com")).run (.start (.ofCapacity 16))).1 =
      .ok (.plain .tempError "example.com") := by rfl
  have hdeadline : ∀ i, ((checkWithin refusingEnvironment none
      (.forHelo (.v4 ⟨0xC0000201⟩) "example.com")).run (.start (.ofCapacity 16))).1 ≠ .error i := by
    intro i h
    rw [hrun] at h
    cases h
  exact ⟨hclass, hdeadline, verify_tempError_iff refusingEnvironment _ _ hclass hdeadline⟩

end SenderPolicy
