import SenderPolicy.Proofs.Coupling
import SenderPolicy.Proofs.Recursion

/-!
# Larger limits

The limits of an evaluation only cut it short: they are never the reason why something
matches or does not. An evaluation that comes to its end below its limits is therefore
the same under larger ones.

Main definitions:

- `Settings.AllowsMore`: settings that differ in larger limits only;
- `Abort.isLimit`: the ends that a limit enforces;
- `evaluationEnd`: the end of the evaluation that a verification performs.

Main results:

- `coupling_of_allowsMore`: under larger limits an evaluation follows the first one;
- `verify_of_allowsMore`: a verification is the same under larger limits.
-/

namespace SenderPolicy

open Process (Simulates)

/-- Settings with the same or larger limits, and the same otherwise. -/
structure Settings.AllowsMore (s s' : Settings) : Prop where
  same : s' = { s with
    maxLookups := s'.maxLookups
    maxVoidLookups := s'.maxVoidLookups
    maxIncludeDepth := s'.maxIncludeDepth }
  maxLookups : s.maxLookups ≤ s'.maxLookups
  maxVoidLookups : s.maxVoidLookups ≤ s'.maxVoidLookups
  maxIncludeDepth : s.maxIncludeDepth ≤ s'.maxIncludeDepth

/-- Whether a fault says that a limit is exceeded. -/
def Fault.isLimit : Fault → Bool
  | .tooManyLookups | .tooManyVoidLookups | .tooDeep => true
  | _ => false

/-- Whether an evaluation ends early because a limit is exceeded. -/
def Abort.isLimit : Abort → Bool
  | .stopped (.fault f) => f.isLimit
  | _ => false

/-- A limit that is exceeded is a permanent error. -/
theorem Fault.verdict_of_isLimit {f : Fault} (h : f.isLimit) : f.verdict = .permError := by
  cases f <;> first | rfl | cases h

/-- The end of the evaluation that a verification performs. -/
def evaluationEnd (env : Environment) (request : Request) (t : Traffic) : Except Abort Outcome :=
  ((evaluateRequest env.timed request).run (.start env.timed { t with waited := 0 })).1

/-- Budgets with the same counts, of which the second has larger limits. -/
structure Budget.Covers (b b' : Budget) : Prop where
  lookups : b'.lookups = b.lookups
  voidLookups : b'.voidLookups = b.voidLookups
  maxLookups : b.maxLookups ≤ b'.maxLookups
  maxVoidLookups : b.maxVoidLookups ≤ b'.maxVoidLookups

/-- A charge that may be made below one limit may be made below a larger one. -/
theorem Budget.Covers.charge {b b' c : Budget} (h : b.Covers b') (hc : b.charge = .ok c) :
    ∃ c', b'.charge = .ok c' ∧ c.Covers c' := by
  unfold Budget.charge at hc ⊢
  split at hc
  next hlt =>
    cases hc
    have hlt' : b'.lookups < b'.maxLookups := by
      rw [h.lookups]
      exact UInt32.lt_of_lt_of_le hlt h.maxLookups
    refine ⟨{ b' with lookups := b'.lookups + 1 }, if_pos hlt', ?_⟩
    exact ⟨congrArg (· + 1) h.lookups, h.voidLookups, h.maxLookups, h.maxVoidLookups⟩
  next => cases hc

/-- A missing answer more is counted in both. -/
theorem Budget.Covers.addVoid {b b' : Budget} (h : b.Covers b') : b.addVoid.Covers b'.addVoid :=
  ⟨h.lookups, congrArg (· + 1) h.voidLookups, h.maxLookups, h.maxVoidLookups⟩

/-- What is not above one limit is not above a larger one. -/
theorem Budget.Covers.isOverVoid {b b' : Budget} (h : b.Covers b')
    (hover : b.isOverVoid = false) : b'.isOverVoid = false := by
  simp only [Budget.isOverVoid, decide_eq_false_iff_not, UInt32.not_lt] at hover ⊢
  rw [h.voidLookups]
  exact UInt32.le_trans hover h.maxVoidLookups

section

variable {env : Environment} {s : Settings}

/-- A charge runs alike under larger limits, unless it exceeds the smaller ones. -/
theorem simulates_charge :
    Simulates (Progress.Related Eq Budget.Covers) Eq (fun e => e.isLimit = true)
      charge charge := by
  rintro p p' ⟨ht, hb⟩
  rw [run_charge, run_charge]
  cases hc : p.budget.charge with
  | error f =>
    have hf : f = .tooManyLookups := by
      unfold Budget.charge at hc
      split at hc <;> cases hc
      rfl
    exact .inl ⟨_, by rw [hf]; rfl, rfl⟩
  | ok b =>
    obtain ⟨b', hc', hb'⟩ := hb.charge hc
    rw [hc']
    exact .inr ⟨.value rfl, ht, hb'⟩

/-- So does counting a missing answer. -/
theorem simulates_chargeVoid :
    Simulates (Progress.Related Eq Budget.Covers) Eq (fun e => e.isLimit = true)
      chargeVoid chargeVoid := by
  rintro p p' ⟨ht, hb⟩
  rw [run_chargeVoid, run_chargeVoid]
  cases hover : p.budget.addVoid.isOverVoid with
  | true => exact .inl ⟨_, rfl, rfl⟩
  | false =>
    rw [hb.addVoid.isOverVoid hover]
    exact .inr ⟨.value rfl, ht, hb.addVoid⟩

/-- Under larger limits an evaluation follows the first one, unless that exceeds a limit. -/
theorem coupling_of_allowsMore (h : env.settings.AllowsMore s) :
    Coupling env.timed { env with settings := s }.timed Eq Budget.Covers
      (fun e => e.isLimit = true) where
  asksType99 := by
    rw [h.same]
    rfl
  receiver := by
    rw [h.same]
    rfl
  timestamp := rfl
  lookup k owner := by
    have hlookup : lookup { env with settings := s }.timed k owner = lookup env.timed k owner := by
      rw [h.same]
      rfl
    rw [hlookup]
    exact .refl _
  charge := simulates_charge
  chargeVoid := simulates_chargeVoid
  depth := .inr ⟨h.maxIncludeDepth, rfl⟩

/-- Budgets at the start have the same counts. -/
theorem covers_ofSettings (h : env.settings.AllowsMore s) :
    (Budget.ofSettings env.settings).Covers (.ofSettings s) :=
  ⟨rfl, rfl, h.maxLookups, h.maxVoidLookups⟩

/-- A verification whose evaluation does not exceed a limit is the same under larger
ones. -/
theorem verify_eq_of_allowsMore (h : env.settings.AllowsMore s) (request : Request) (t : Traffic)
    (hend : ∀ e, evaluationEnd env request t = .error e → e.isLimit = false) :
    (verify { env with settings := s } request).run t = (verify env request).run t := by
  have hstart : Progress.Related Eq Budget.Covers (.start env.timed { t with waited := 0 })
      (.start { env with settings := s }.timed { t with waited := 0 }) :=
    ⟨rfl, covers_ofSettings h⟩
  rw [run_verify, run_verify, run_checkHost, run_checkHost]
  rcases (coupling_of_allowsMore h).evaluateRequest request _ _ hstart with
    ⟨e, he, hr⟩ | ⟨hr, ht, -⟩
  · rw [hend e hr] at he
    cases he
  · rw [hr.eq, ht]

/-- A limit that is exceeded gives a permanent error. -/
theorem verdict_of_limit {request : Request} {t t' : Traffic} {e : Abort} {outcome : Outcome}
    (hend : evaluationEnd env request t = .error e) (he : e.isLimit = true)
    (hverify : (verify env request).run t = (.ok outcome, t')) : outcome.verdict = .permError := by
  rw [run_verify, run_checkHost] at hverify
  unfold evaluationEnd at hend
  rw [hend] at hverify
  rcases e with (f | i) | _
  · cases hverify
    exact Fault.verdict_of_isLimit he
  · cases he
  · cases he

end

/-- A verification that ends without exceeding a limit is the same under settings which
differ in larger limits only: it has the same outcome, and asks the same questions in the
same order. Only a permanent error can be the work of a limit. -/
theorem verify_of_allowsMore (env : Environment) (s : Settings) (request : Request)
    (t : Traffic) (h : env.settings.AllowsMore s) :
    ((∀ e, evaluationEnd env request t = .error e → e.isLimit = false) →
      (verify { env with settings := s } request).run t = (verify env request).run t) ∧
    ∀ outcome t', (verify env request).run t = (.ok outcome, t') → outcome.verdict ≠ .permError →
      (verify { env with settings := s } request).run t = (.ok outcome, t') := by
  refine ⟨verify_eq_of_allowsMore h request t, fun outcome t' hverify hverdict => ?_⟩
  rw [← hverify]
  apply verify_eq_of_allowsMore h request t
  intro e hend
  rw [← Bool.not_eq_true]
  intro he
  exact hverdict (verdict_of_limit hend he hverify)

/-- An environment in which every name has the policy that its own address may send, and
one term may ask. -/
def grantingEnvironment : Environment where
  transport _ q :=
    match q with
    | ⟨.txt, _⟩ => ⟨.ok ⟨[Octets.ofAscii "v=spf1 a -all".toList], 300⟩, 0⟩
    | ⟨.a, _⟩ => ⟨.ok ⟨[⟨0xC0000201⟩], 300⟩, 0⟩
    | _ => ⟨.error (.notFound .nameError), 0⟩
  settings := { Settings.standard with maxLookups := 1 }
  clock _ := 0
  timestamp := 0
  alarm := .silent

/-- The address of a name passes at a limit of one term, and at the usual limit, too. -/
theorem verify_of_allowsMore_granting :
    let request : Request := .forHelo (.v4 ⟨0xC0000201⟩) "example.com"
    let t : Traffic := .start (.ofCapacity 16)
    grantingEnvironment.settings.AllowsMore .standard ∧
      (∀ e, evaluationEnd grantingEnvironment request t = .error e → e.isLimit = false) ∧
      (verify { grantingEnvironment with settings := .standard } request).run t =
        (verify grantingEnvironment request).run t := by
  have hallows : grantingEnvironment.settings.AllowsMore .standard :=
    ⟨rfl, by decide, by decide, by decide⟩
  have hend : evaluationEnd grantingEnvironment (.forHelo (.v4 ⟨0xC0000201⟩) "example.com")
      (.start (.ofCapacity 16)) = .ok (.plain .pass "example.com") := by
    unfold evaluationEnd
    rw [Recursive.evaluateRequest_eq_requestBy]
    rfl
  have hlimit : ∀ e, evaluationEnd grantingEnvironment
      (.forHelo (.v4 ⟨0xC0000201⟩) "example.com") (.start (.ofCapacity 16)) = .error e →
      e.isLimit = false := by
    intro e he
    rw [hend] at he
    cases he
  exact ⟨hallows, hlimit,
    (verify_of_allowsMore grantingEnvironment .standard _ _ hallows).1 hlimit⟩

end SenderPolicy
