import SenderPolicy.Proofs.Meter

/-!
# Tallies

What the readings of an evaluation say of its budget. They start without counts, and go on
by single charges and single missing answers; and each missing answer is counted on the
credit of a charge that was made before it. So nothing is counted more often than the
limits allow, and no count can run over.

Main definitions:

- `Reading.Precedes`, `Reading.Sound`: what may happen between two readings, and what
  holds of each;
- `Tally`: what may be read one after another;
- `Tallies`: processes whose readings continue tallies.

Main results:

- `Tally.sound`, `Tally.induction`: the last reading is sound, and each precedes the next;
- `Tallies.advance`: the readings of a step continue a tally;
- `tallied_evaluation`: those of an evaluation are a tally from its start to its end;
- `readings_sound`: what that says of the budget at every moment.
-/

namespace SenderPolicy

variable {α β : Type}

/-! ## Counting -/

namespace Budget

/-- What is below something else does not run over. -/
theorem toNat_add_one {a b : UInt32} (h : a < b) : (a + 1).toNat = a.toNat + 1 := by
  have hlt : a.toNat < b.toNat := UInt32.lt_iff_toNat_lt.1 h
  have hb := b.toNat_lt
  have hone : (1 : UInt32).toNat = 1 := rfl
  rw [UInt32.toNat_add, hone]
  omega

/-- A charge that may be made adds one, and changes nothing else. -/
theorem of_charge {b b' : Budget} (h : b.charge = .ok b') :
    b.lookups < b.maxLookups ∧ b' = { b with lookups := b.lookups + 1 } := by
  unfold charge at h
  split at h
  next hlt =>
    cases h
    exact ⟨hlt, rfl⟩
  next => cases h

end Budget

/-! ## Tallies -/

/-- What may happen from one reading to the next: one term more is charged, or one missing
answer more is counted, or policies are entered or left, which changes no count. -/
inductive Reading.Precedes : Reading → Reading → Prop where
  | charged {b : Budget} {n : UInt32} (depth : Nat) :
      n.toNat = b.lookups.toNat + 1 → Precedes ⟨b, depth⟩ ⟨{ b with lookups := n }, depth⟩
  | missed {b : Budget} {n : UInt32} (depth : Nat) :
      n.toNat = b.voidLookups.toNat + 1 → Precedes ⟨b, depth⟩ ⟨{ b with voidLookups := n }, depth⟩
  | moved (b : Budget) (depth depth' : Nat) : Precedes ⟨b, depth⟩ ⟨b, depth'⟩

/-- No fewer terms are counted later. -/
theorem Reading.Precedes.lookups_le {r r' : Reading} (h : r.Precedes r') :
    r.budget.lookups ≤ r'.budget.lookups := by
  cases h with
  | charged depth hone => exact UInt32.le_iff_toNat_le.2 (by dsimp only; omega)
  | missed depth hone => exact UInt32.le_refl _
  | moved b depth depth' => exact UInt32.le_refl _

/-- What holds of every reading. -/
structure Reading.Sound (s : Settings) (r : Reading) : Prop where
  maxLookups : r.budget.maxLookups = s.maxLookups
  maxVoidLookups : r.budget.maxVoidLookups = s.maxVoidLookups
  voidLookups : r.budget.voidLookups ≤ r.budget.lookups
  lookups : r.budget.lookups ≤ s.maxLookups
  depth : r.depth ≤ min s.maxIncludeDepth.toNat r.budget.lookups.toNat

/-- What may be read one after another under some settings, up to a budget and a depth.
Nothing is read any more once too many answers are missing. -/
inductive Tally (s : Settings) : Budget → Nat → List Reading → Prop where
  | start : Tally s (.ofSettings s) 0 [⟨.ofSettings s, 0⟩]
  | charged {b b' : Budget} {depth : Nat} {w : List Reading} :
      Tally s b depth w → b.isOverVoid = false → b.charge = .ok b' →
      Tally s b' depth (⟨b', depth⟩ :: w)
  | missed {b : Budget} {depth : Nat} {w : List Reading} :
      Tally s b depth w → b.isOverVoid = false → b.voidLookups < b.lookups →
      Tally s b.addVoid depth (⟨b.addVoid, depth⟩ :: w)
  | moved {b : Budget} {depth depth' : Nat} {w : List Reading} :
      Tally s b depth w → b.isOverVoid = false →
      depth' ≤ min s.maxIncludeDepth.toNat b.lookups.toNat →
      Tally s b depth' (⟨b, depth'⟩ :: w)

namespace Tally

variable {s : Settings} {b : Budget} {depth : Nat} {w : List Reading}

/-- The budget and the depth are those of the last reading. -/
theorem exists_eq_cons (h : Tally s b depth w) : ∃ earlier, w = ⟨b, depth⟩ :: earlier := by
  cases h <;> exact ⟨_, rfl⟩

/-- The last reading is sound. -/
theorem sound (h : Tally s b depth w) : Reading.Sound s ⟨b, depth⟩ := by
  induction h with
  | start =>
    exact ⟨rfl, rfl, UInt32.le_refl _, UInt32.le_iff_toNat_le.2 (Nat.zero_le _), Nat.zero_le _⟩
  | @charged b b' depth w _ _ hcharge ih =>
    obtain ⟨hlt, rfl⟩ := Budget.of_charge hcharge
    have hone := Budget.toNat_add_one hlt
    have hmax := ih.maxLookups
    have hvoid := UInt32.le_iff_toNat_le.1 ih.voidLookups
    have hdepth := ih.depth
    have hlt' := UInt32.lt_iff_toNat_lt.1 hlt
    dsimp only at hmax hvoid hdepth
    refine ⟨hmax, ih.maxVoidLookups, UInt32.le_iff_toNat_le.2 ?_,
      UInt32.le_iff_toNat_le.2 ?_, ?_⟩ <;> dsimp only <;> rw [hone]
    · omega
    · rw [← hmax]
      omega
    · omega
  | @missed b depth w _ _ hlt ih =>
    -- The count is below that of the lookups before, so that it does not run over.
    have hone : b.addVoid.voidLookups.toNat = _ := Budget.toNat_add_one hlt
    have hlt' := UInt32.lt_iff_toNat_lt.1 hlt
    refine ⟨ih.maxLookups, ih.maxVoidLookups, UInt32.le_iff_toNat_le.2 ?_, ih.lookups, ih.depth⟩
    dsimp only
    rw [hone]
    exact hlt'
  | moved _ _ hdepth ih =>
    exact ⟨ih.maxLookups, ih.maxVoidLookups, ih.voidLookups, ih.lookups, hdepth⟩

/-- What holds at the start, and is kept from one reading to the next, holds of every
tally. -/
theorem induction {motive : List Reading → Prop} (start : motive [⟨.ofSettings s, 0⟩])
    (next : ∀ b depth r w, Tally s b depth w → b.isOverVoid = false →
      Reading.Precedes ⟨b, depth⟩ r → r.Sound s → motive w → motive (r :: w))
    (h : Tally s b depth w) : motive w := by
  have hsound := h.sound
  induction h with
  | start => exact start
  | charged h hover hcharge ih =>
    obtain ⟨hlt, rfl⟩ := Budget.of_charge hcharge
    exact next _ _ _ _ h hover (.charged _ (Budget.toNat_add_one hlt)) hsound (ih h.sound)
  | missed h hover hlt ih =>
    exact next _ _ _ _ h hover (.missed _ (Budget.toNat_add_one hlt)) hsound (ih h.sound)
  | moved h hover hdepth ih => exact next _ _ _ _ h hover (.moved _ _ _) hsound (ih h.sound)

/-- Every reading is sound. -/
theorem forall_sound (h : Tally s b depth w) : ∀ r ∈ w, r.Sound s := by
  refine h.induction (motive := fun w => ∀ r ∈ w, r.Sound s) ?_ ?_
  · exact List.forall_mem_singleton.2 (sound .start)
  · exact fun _ _ r w _ _ _ hr hw => List.forall_mem_cons.2 ⟨hr, hw⟩

/-- The first reading is that of the start. -/
theorem getLast?_eq (h : Tally s b depth w) : w.getLast? = some ⟨.ofSettings s, 0⟩ := by
  refine h.induction (motive := fun w => w.getLast? = some ⟨.ofSettings s, 0⟩) rfl ?_
  intro _ _ r w _ _ _ _ hw
  rw [List.getLast?_cons, hw]
  rfl

/-- Of two readings in a row, the first precedes the second. -/
theorem precedes (h : Tally s b depth w) : ∀ later r' r earlier,
    w = later ++ r' :: r :: earlier → r.Precedes r' := by
  refine h.induction (motive := fun w => ∀ later r' r earlier,
    w = later ++ r' :: r :: earlier → r.Precedes r') ?_ ?_
  · intro later r' r earlier heq
    have hlength := congrArg List.length heq
    simp only [List.length_cons, List.length_append, List.length_nil] at hlength
    omega
  · intro b depth r₁ w h _ hnext _ hw later r' r earlier heq
    cases later with
    | nil =>
      obtain ⟨before, rfl⟩ := h.exists_eq_cons
      cases heq
      exact hnext
    | cons r₂ later => exact hw later r' r earlier (List.cons_eq_cons.1 heq).2

/-- No later reading has counted fewer terms. -/
theorem pairwise_lookups (h : Tally s b depth w) :
    w.Pairwise fun later earlier => earlier.budget.lookups ≤ later.budget.lookups := by
  refine h.induction (motive := fun w => w.Pairwise fun later earlier =>
    earlier.budget.lookups ≤ later.budget.lookups) (List.pairwise_singleton _ _) ?_
  intro b depth r₁ w h _ hnext _ hw
  obtain ⟨earlier, rfl⟩ := h.exists_eq_cons
  refine List.pairwise_cons.2 ⟨List.forall_mem_cons.2 ⟨hnext.lookups_le, fun r hr => ?_⟩, hw⟩
  exact UInt32.le_trans ((List.pairwise_cons.1 hw).1 r hr) hnext.lookups_le

/-- A budget that is not over has no more missing answers than there may be. -/
theorem voidLookups_le (h : Tally s b depth w) (hover : b.isOverVoid = false) :
    b.voidLookups ≤ s.maxVoidLookups := by
  rw [← h.sound.maxVoidLookups]
  simpa only [Budget.isOverVoid, decide_eq_false_iff_not, UInt32.not_lt] using hover

/-- Before the last reading there were no more missing answers than there may be. -/
theorem voidLookups_le_of_mem_tail (h : Tally s b depth w) :
    ∀ r ∈ w.tail, r.budget.voidLookups ≤ s.maxVoidLookups := by
  refine h.induction (motive := fun w => ∀ r ∈ w.tail,
    r.budget.voidLookups ≤ s.maxVoidLookups) (List.forall_mem_nil _) ?_
  intro b depth r₁ w h hover _ _ hw
  have hlast := h.voidLookups_le hover
  obtain ⟨earlier, rfl⟩ := h.exists_eq_cons
  exact List.forall_mem_cons.2 ⟨hlast, hw⟩

end Tally

/-! ## Processes that continue tallies -/

/-- How a metered process ends: its readings continue a tally, and not too many answers
are missing, unless it stops for that reason. A value comes with what is said of it. -/
inductive Balanced (s : Settings) (depth : Nat) (Q : α → Budget → Prop) :
    Except Abort α × (Progress × List Reading) → Prop where
  | value {a : α} {p : Progress} {w : List Reading} :
      Tally s p.budget depth w → p.budget.isOverVoid = false → Q a p.budget →
      Balanced s depth Q (.ok a, (p, w))
  | stopped {e : Abort} {p : Progress} {w : List Reading} :
      Tally s p.budget depth w → p.budget.isOverVoid = false →
      Balanced s depth Q (.error e, (p, w))
  | exceeded {p : Progress} {w : List Reading} :
      Tally s p.budget depth w →
      Balanced s depth Q (.error (.stopped (.fault .tooManyVoidLookups)), (p, w))

/-- A process that continues every tally at a depth, if something holds of the budget
before it. -/
def Tallies (s : Settings) (depth : Nat) (P : Budget → Prop) (Q : α → Budget → Prop)
    (x : Metered α) : Prop :=
  ∀ p w, Tally s p.budget depth w → p.budget.isOverVoid = false → P p.budget →
    Balanced s depth Q (x.run (p, w))

/-- A charge is left for a missing answer, or for entering a policy. -/
structure HasCredit (depth : Nat) (b : Budget) : Prop where
  voidLookups : b.voidLookups < b.lookups
  depth : depth < b.lookups.toNat

namespace Tallies

open Metered

variable {s : Settings} {depth : Nat} {P P' : Budget → Prop} {Q : α → Budget → Prop}
  {R : β → Budget → Prop}

theorem pure {a : α} (h : ∀ b, P b → Q a b) : Tallies s depth P Q (Pure.pure a) :=
  fun _ _ htally hover hp => .value htally hover (h _ hp)

theorem stop (e : Abort) : Tallies s depth P Q (Process.stop e : Metered α) :=
  fun _ _ htally hover _ => .stopped htally hover

/-- The tally after one process is the tally before the next. -/
theorem bind {x : Metered α} {f : α → Metered β} (hx : Tallies s depth P Q x)
    (hf : ∀ a, Tallies s depth (Q a) R (f a)) : Tallies s depth P R (x >>= f) := by
  intro p w htally hover hp
  have hends := hx p w htally hover hp
  rw [Process.run_bind]
  rcases hrun : x.run (p, w) with ⟨r, q, v⟩
  rw [hrun] at hends
  cases hends with
  | value htally hover hq => exact hf _ q v htally hover hq
  | stopped htally hover => exact .stopped htally hover
  | exceeded htally => exact .exceeded htally

theorem ite {c : Prop} [Decidable c] {x y : Metered α} (hx : Tallies s depth P Q x)
    (hy : ¬ c → Tallies s depth P Q y) : Tallies s depth P Q (if c then x else y) := by
  split
  · exact hx
  next h => exact hy h

/-- It may be known more before. -/
theorem weaken {x : Metered α} (hx : Tallies s depth P Q x) (h : ∀ b, P' b → P b) :
    Tallies s depth P' Q x :=
  fun p w htally hover hp => hx p w htally hover (h _ hp)

/-- What does not touch the budget needs no reading. -/
theorem unread {x : Evaluation α} (h : ∀ p, (x.run p).2.budget = p.budget) :
    Tallies s depth P (fun _ => P) (unread x) := by
  intro p w htally hover hp
  have hbudget := h p
  rw [Metered.unread, Process.run_observe]
  rcases hrun : x.run p with ⟨e | a, q⟩
  · rw [hrun] at hbudget
    rw [← hbudget] at htally hover
    exact .stopped htally hover
  · rw [hrun] at hbudget
    rw [← hbudget] at htally hover hp
    exact .value htally hover hp

theorem lookup (x : Lookup α) :
    Tallies s depth P (fun _ => P) (Metered.unread (Evaluation.ofLookup x)) :=
  unread (Evaluation.budget_ofLookup x)

theorem fail (f : Fault) :
    Tallies s depth P Q (Metered.unread (Evaluation.fail f) : Metered α) :=
  stop _

/-- A charge leaves a credit. -/
theorem charge : Tallies s depth P (fun _ => HasCredit depth) (read depth charge) := by
  intro p w htally hover _
  rw [Metered.read, Process.run_observe, run_charge]
  cases hcharge : p.budget.charge with
  | error f =>
    -- What is read after a charge that is refused is the same as before.
    dsimp only
    exact .stopped (htally.moved hover htally.sound.depth) hover
  | ok b =>
    have hnext := htally.charged hover hcharge
    obtain ⟨hlt, rfl⟩ := Budget.of_charge hcharge
    have hone := Budget.toNat_add_one hlt
    have hvoid := UInt32.le_iff_toNat_le.1 htally.sound.voidLookups
    have hdepth := htally.sound.depth
    dsimp only at hvoid hdepth
    refine .value hnext hover ⟨UInt32.lt_iff_toNat_lt.2 ?_, ?_⟩ <;> dsimp only <;> rw [hone]
    · omega
    · omega

/-- A missing answer may be counted on credit. -/
theorem chargeVoid :
    Tallies s depth (HasCredit depth) (fun _ _ => True) (read depth chargeVoid) := by
  intro p w htally hover hcredit
  have hnext := htally.missed hover hcredit.voidLookups
  rw [Metered.read, Process.run_observe, run_chargeVoid]
  cases hcount : p.budget.addVoid.isOverVoid with
  | true => exact .exceeded hnext
  | false => exact .value hnext hcount trivial

/-! ### Terms -/

section Terms

variable {env : Environment} {request : Request}

/-- A missing answer is counted against credit that is there. -/
theorem orVoid (x : Lookup α) (fallback : α) :
    Tallies s depth (HasCredit depth) (fun _ _ => True) (Metered.orVoid depth x fallback) := by
  apply bind (lookup x.attempt)
  intro r
  cases r with
  | ok a => exact pure fun _ _ => trivial
  | error f => exact ite (bind chargeVoid fun _ => pure fun _ _ => trivial) fun _ => fail f

/-- Mail exchangers are charged one by one. -/
theorem matchesExchange (client : Address) (mask4 : BitVec 32) (mask6 : BitVec 128)
    (l : List Dns.MailExchange) :
    Tallies s depth (fun _ => True) (fun _ _ => True)
      (Metered.matchesExchange env depth client mask4 mask6 l) := by
  induction l with
  | nil => exact pure fun _ _ => trivial
  | cons x rest ih =>
    unfold Metered.matchesExchange
    refine ite ih fun _ => bind charge fun _ => bind (lookup _) fun r => ?_
    cases r with
    | ok near =>
      cases near with
      | true => exact pure fun _ _ => trivial
      | false => exact ih.weaken fun _ _ => trivial
    | error f => exact ite (ih.weaken fun _ _ => trivial) fun _ => fail f

theorem matchesExistence (name : String) :
    Tallies s depth (HasCredit depth) (fun _ _ => True)
      (Metered.matchesExistence env depth name) := by
  apply bind (lookup _)
  intro found
  refine ite (pure fun _ _ => trivial) fun _ => ?_
  exact bind chargeVoid fun _ => pure fun _ _ => trivial

/-- Every mechanism charges before it counts a missing answer. -/
theorem test (name : String) (m : Mechanism) :
    Tallies s depth (fun _ => True) (fun _ _ => True) (Metered.test env request depth name m) := by
  cases m with
  | all => exact pure fun _ _ => trivial
  | includePolicy target => exact pure fun _ _ => trivial
  | ip4 net mask => exact pure fun _ _ => trivial
  | ip6 net mask => exact pure fun _ _ => trivial
  | a target mask4 mask6 =>
    apply bind charge
    intro _
    exact ite (orVoid _ _) fun _ => pure fun _ _ => trivial
  | mx target mask4 mask6 =>
    apply bind charge
    intro _
    refine ite (bind (orVoid _ _) fun l => ?_) fun _ => pure fun _ _ => trivial
    exact matchesExchange _ _ _ l
  | ptr target =>
    apply bind charge
    intro _
    exact bind (orVoid _ _) fun names => pure fun _ _ => trivial
  | existsName target =>
    apply bind charge
    intro _
    exact ite (matchesExistence name) fun _ => pure fun _ _ => trivial

/-! ### Steps -/

/-- The depth to which a transition leads is permitted. -/
def Permits (s : Settings) (t : Transition) (b : Budget) : Prop :=
  t.depth ≤ min s.maxIncludeDepth.toNat b.lookups.toNat

/-- No deeper than before is permitted. -/
theorem shallow {t : Transition} (h : t.depth ≤ depth) :
    Tallies s depth P (Permits s) (Pure.pure t) :=
  fun _ _ htally hover _ => .value htally hover (Nat.le_trans h htally.sound.depth)

/-- An included policy is entered within the limits. -/
theorem suspend (m : Machine) (qualifier : Qualifier) (target : MacroString)
    (rest : List Directive) :
    Tallies env.settings m.stack.length (fun _ => True) (Permits env.settings)
      (Metered.suspend env request m qualifier target rest) := by
  apply bind charge
  intro _
  refine ite (fail _) fun hdepth => bind (lookup _) fun name => ?_
  apply bind (unread (budget_fetchPolicy env name))
  intro policy
  -- The credit of the charge pays for one policy more on the stack.
  refine pure fun b hcredit => ?_
  have hlookups := hcredit.depth
  simp only [Permits, Transition.depth, Machine.enter, List.length_cons]
  omega

theorem redirect (m : Machine) (target : MacroString) :
    Tallies env.settings m.stack.length (fun _ => True) (Permits env.settings)
      (Metered.redirect env request m target) := by
  apply bind charge
  intro _
  apply bind (lookup _)
  intro name
  apply bind (unread (budget_fetchPolicy env name))
  intro policy
  exact shallow (Nat.le_refl _)

variable (env request) in
/-- A step leads to a depth that is permitted. -/
theorem advance (m : Machine) :
    Tallies env.settings m.stack.length (fun _ => True) (Permits env.settings)
      (Metered.advance env request m) := by
  unfold Metered.advance
  split
  · split
    · exact redirect _ _
    · exact shallow (Machine.depth_leave _ _ _ _)
  · exact suspend _ _ _ _
  · apply bind (lookup _)
    intro name
    apply bind (test name _)
    intro b
    exact ite (shallow (Machine.depth_leave _ _ _ _)) fun _ => shallow (Nat.le_refl _)

end Terms

end Tallies

/-! ## Steps and runs -/

/-- How a run of the machine goes on: its readings are a tally up to where it has come,
and not too many answers are missing, unless it stops for that reason. -/
structure Tallied (s : Settings) (r : Except Abort α) (depth : Nat) (p : Progress)
    (w : List Reading) : Prop where
  tally : Tally s p.budget depth w
  notOver : r ≠ .error (.stopped (.fault .tooManyVoidLookups)) → p.budget.isOverVoid = false

variable {env : Environment} {request : Request}

/-- The readings of a step continue a tally, to the depth to which the step leads. -/
theorem Tallied.of_step {m : Machine} {p p' : Progress} {w : List Reading}
    {r : Except Abort Transition} (htally : Tally env.settings p.budget m.stack.length w)
    (hover : p.budget.isOverVoid = false) (h : (m.step env request).run p = (r, p')) :
    Tallied env.settings r (match r with | .ok t => t.depth | .error _ => m.stack.length) p'
      ((Metered.step env request m).run (p, w)).2.2 := by
  have hforget : Process.forget ((Metered.step env request m).run (p, w)) = (r, p') := by
    rw [Metered.observes_step]
    exact h
  have hends := Tallies.advance env request m p w htally hover trivial
  unfold Metered.step at hforget ⊢
  rw [Process.run_bind] at hforget ⊢
  rcases hrun : (Metered.advance env request m).run (p, w) with ⟨r', q, v⟩
  rw [hrun] at hends hforget
  cases hends with
  | value hnext hover' hpermits =>
    cases hforget
    exact ⟨hnext.moved hover' hpermits, fun _ => hover'⟩
  | stopped hnext hover' =>
    cases hforget
    exact ⟨hnext, fun _ => hover'⟩
  | exceeded hnext =>
    cases hforget
    exact ⟨hnext, fun h => absurd rfl h⟩

/-- The readings of a run continue a tally to its end. -/
theorem Tallied.of_run {m : Machine} {p : Progress} {w : List Reading}
    (htally : Tally env.settings p.budget m.stack.length w)
    (hover : p.budget.isOverVoid = false) :
    let s := m.observeFrom env request (meter env request) (p, w)
    ∃ depth, Tallied env.settings s.1 depth s.2.1 s.2.2 := by
  refine Machine.observeFrom_invariant
    (fun m p w => Tally env.settings p.budget m.stack.length w ∧ p.budget.isOverVoid = false)
    (fun r p w => ∃ depth, Tallied env.settings r depth p w) ?_ ?_ ?_ ⟨htally, hover⟩
  · intro m p w m' p' hinv hstep
    have h := Tallied.of_step hinv.1 hinv.2 hstep
    exact ⟨h.tally, h.notOver (by simp)⟩
  · intro m p w finish p' hinv hstep
    have h := Tallied.of_step hinv.1 hinv.2 hstep
    exact ⟨_, h.tally, fun _ => h.notOver (by simp)⟩
  · intro m p w e p' hinv hstep
    have h := Tallied.of_step hinv.1 hinv.2 hstep
    exact ⟨_, h.tally, fun he => h.notOver fun heq => he (by cases heq; rfl)⟩

/-! ## Evaluations of requests -/

/-- At the start there are not too many missing answers. -/
theorem isOverVoid_ofSettings (s : Settings) : (Budget.ofSettings s).isOverVoid = false := by
  simp [Budget.isOverVoid, Budget.ofSettings]

/-- The readings of an evaluation are a tally from its start to its end. -/
theorem tallied_evaluation (env : Environment) (request : Request) (t : Traffic) :
    let s := meteredRequest env request t
    ∃ depth, Tallied env.settings s.1 depth s.2.1 s.2.2 := by
  have hover := isOverVoid_ofSettings env.settings
  have hfound : ∀ {r p'},
      (Evaluation.ofLookup (lookupPolicy env request.domain)).run (.start env t) = (r, p') →
      p'.budget = .ofSettings env.settings := by
    intro r p' h
    have hbudget := Evaluation.budget_ofLookup (lookupPolicy env request.domain) (.start env t)
    rwa [h] at hbudget
  -- Finding the policy reads nothing, so that a run starts from the first reading.
  have hrun : ∀ {policy p' s},
      (Evaluation.ofLookup (lookupPolicy env request.domain)).run (.start env t) =
        (.ok policy, p') →
      (Machine.observe env request (meter env request) policy request.domain).run
        (p', [⟨.ofSettings env.settings, 0⟩]) = s →
      ∃ depth, Tallied env.settings s.1 depth s.2.1 s.2.2 := by
    rintro policy p' _ hlookup rfl
    rw [← hfound hlookup] at hover
    refine Tallied.of_run ?_ hover
    rw [hfound hlookup]
    exact .start
  refine observeRequest_cases (fun r p w => ∃ depth, Tallied env.settings r depth p w) ?_ ?_ ?_ ?_
  · exact fun _ => ⟨0, .start, fun _ => hover⟩
  · intro e p' hlookup
    rw [← hfound hlookup] at hover
    refine ⟨0, ?_, fun _ => hover⟩
    rw [hfound hlookup]
    exact .start
  · intro policy p' e s hlookup hobserve
    obtain ⟨depth, htally, hlast⟩ := hrun hlookup hobserve
    exact ⟨depth, htally, fun h => hlast fun heq => h (by cases heq; rfl)⟩
  · intro policy p' finish s x q hlookup hobserve hexplain
    obtain ⟨depth, htally, hlast⟩ := hrun hlookup hobserve
    have hbudget := Evaluation.budget_ofLookup (explainFinish env request finish) s.1
    rw [hexplain] at hbudget
    dsimp only at hbudget htally hlast
    rw [← hbudget] at htally hlast
    exact ⟨depth, htally, fun _ => hlast (by simp)⟩

/-- The budget of an evaluation at every moment. It starts with no counts, and is changed
by single charges and single missing answers only; entering, leaving and redirecting change
no count. There are never more missing answers than terms charged, nor more of these than
there may be; no more policies are suspended than there may be, or than terms were charged.
There are no more missing answers than there may be, either, until the evaluation fails for
that reason. -/
theorem readings_sound (env : Environment) (request : Request) (t : Traffic) :
    let s := meteredRequest env request t
    Process.forget s = (evaluateRequest env request).run (.start env t) ∧
      (checkHost env request).run t = (settleOutcome request s.1, s.2.1.traffic) ∧
      s.2.2.getLast? = some ⟨.ofSettings env.settings, 0⟩ ∧
      (∃ depth earlier, s.2.2 = ⟨s.2.1.budget, depth⟩ :: earlier) ∧
      (∀ later r' r earlier, s.2.2 = later ++ r' :: r :: earlier → r.Precedes r') ∧
      s.2.2.Pairwise (fun later earlier => earlier.budget.lookups ≤ later.budget.lookups) ∧
      (∀ r ∈ s.2.2, r.Sound env.settings) ∧
      (∀ r ∈ s.2.2.tail, r.budget.voidLookups ≤ env.settings.maxVoidLookups) ∧
      (s.1 ≠ .error (.stopped (.fault .tooManyVoidLookups)) →
        s.2.1.budget.voidLookups ≤ env.settings.maxVoidLookups) := by
  intro s
  have hforget := forget_meteredRequest env request t
  obtain ⟨depth, htally, hover⟩ := tallied_evaluation env request t
  obtain ⟨earlier, hlast⟩ := htally.exists_eq_cons
  refine ⟨hforget, ?_, htally.getLast?_eq, ⟨depth, earlier, hlast⟩, htally.precedes,
    htally.pairwise_lookups, htally.forall_sound, htally.voidLookups_le_of_mem_tail,
    fun h => htally.voidLookups_le (hover h)⟩
  rw [run_checkHost, ← hforget]
  rfl

end SenderPolicy
