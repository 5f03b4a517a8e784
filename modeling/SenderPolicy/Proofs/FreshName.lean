import Mathlib.Data.List.Forall2
import SenderPolicy.Proofs.Asked
import SenderPolicy.Proofs.DomainSpecs
import SenderPolicy.Proofs.SharedName

/-!
# The inserted name is never out of date

A name of the client that is kept from one macro string to the next is never taken for
another domain than the one for which it was chosen: each macro string that inserts it is
expanded right after it was looked for, and for the domain for which the policy that writes the
macro string was fetched. That policy is the one which this evaluation is visiting, so it is
neither one that was left nor one that is suspended. Without such a macro string and without the
mechanism that asks for the names of the client, nothing is asked about its address.

Main definitions:

- `Visit.Since`: visits of an evaluation that has started at some moment;
- `Transition.Visited`: the policies of a machine are the visited ones, frame by frame;
- `Use.Written`, `Use.Sound`: what holds of every expansion;
- `Keeping.Accounts`: what holds from one moment to a later one.

Main results:

- `Machine.visited_leave`, `Machine.visited_conclude`: every step visits the policies of the
  machine;
- `Keeping.accounts_step`, `Keeping.accounts_runFrom`: steps and runs expand soundly;
- `checkHost_inserts_chosen_name`: the inserted name is the one chosen for the visited policy.
-/

namespace SenderPolicy

variable {α β : Type} {env : Environment} {request : Request} {start : Traffic}

/-! ## Visited policies -/

/-- A visit of an evaluation that has started at some moment: the policy was fetched since, for
the domain of the visit. -/
structure Visit.Since (env : Environment) (start : Traffic) (v : Visit) : Prop where
  started : start.log <:+ v.before.log
  fetched : (lookupPolicy env v.domain).run v.before = (.ok v.policy, v.after)

/-- A visit is one to a policy for a domain, which was fetched before the present moment. The
directives still to be looked at are its own. -/
structure Visit.Serves (env : Environment) (start now : Traffic) (v : Visit) (policy : Policy)
    (domain : String) (todo : List Directive) : Prop where
  since : v.Since env start
  past : v.after.log <:+ now.log
  policy : v.policy = policy
  domain : v.domain = domain
  todo : todo ⊆ v.policy.directives

/-- A suspended policy is visited. -/
def Frame.Visited (env : Environment) (start now : Traffic) (f : Frame) (v : Visit) : Prop :=
  v.Serves env start now f.policy f.domain f.rest

/-- The policy at which a step arrives is visited, and those that are suspended then, one by one.
No other visits are left. -/
inductive Transition.Visited (env : Environment) (start now : Traffic) :
    Transition → List Visit → Prop where
  | next {v : Visit} {visits : List Visit} {policy : Policy} {domain : String}
      {todo : List Directive} {stack : List Frame} :
      v.Serves env start now policy domain todo →
      List.Forall₂ (Frame.Visited env start now) stack visits →
      Visited env start now (.next ⟨policy, domain, todo, stack⟩) (v :: visits)
  | done {v : Visit} {verdict : Verdict} {policy : Policy} {domain : String} :
      v.Serves env start now policy domain [] →
      Visited env start now (.done ⟨verdict, policy, domain⟩) [v]

section

variable {now later : Traffic}

open Process (Moves)

/-- What is fetched in an evaluation is fetched after its start. -/
theorem Visit.Since.start_suffix {v : Visit} (h : v.Since env start) :
    start.log <:+ v.after.log := by
  have hasked : Asked (fun _ => True) v.before ((lookupPolicy env v.domain).run v.before).2 :=
    Moves.lookupPolicy ⟨trivial, trivial⟩ v.before
  rw [h.fetched] at hasked
  exact h.started.trans hasked.log_suffix

/-- A visit that goes on goes on later. -/
theorem Visit.Serves.mono {v : Visit} {policy : Policy} {domain : String} {todo : List Directive}
    (h : v.Serves env start now policy domain todo) (hlater : now.log <:+ later.log) :
    v.Serves env start later policy domain todo :=
  { h with past := h.past.trans hlater }

/-- Visits go on when time goes by. -/
theorem Frame.visited_mono {stack : List Frame} {visits : List Visit}
    (h : List.Forall₂ (Frame.Visited env start now) stack visits) (hlater : now.log <:+ later.log) :
    List.Forall₂ (Frame.Visited env start later) stack visits :=
  h.imp fun _ _ hserves => hserves.mono hlater

theorem Transition.Visited.mono {t : Transition} {visits : List Visit}
    (h : t.Visited env start now visits) (hlater : now.log <:+ later.log) :
    t.Visited env start later visits := by
  cases h with
  | next hv hstack => exact .next (hv.mono hlater) (Frame.visited_mono hstack hlater)
  | done hv => exact .done (hv.mono hlater)

/-- The outermost elements of a list do not depend on the first one, if it is not among them. -/
theorem rtake_cons_of_le {n : Nat} {a : α} {l : List α} (h : n ≤ l.length) :
    (a :: l).rtake n = l.rtake n := by
  rw [List.rtake, List.rtake, List.length_cons, Nat.succ_sub h, List.drop_succ_cons]

/-- All elements of a list are its outermost ones. -/
theorem rtake_length (l : List α) : l.rtake l.length = l := by
  rw [List.rtake, Nat.sub_self, List.drop_zero]

/-- The policy at hand is visited. -/
theorem Transition.Visited.exists_visit {m : Machine} {visits : List Visit}
    (h : (Transition.next m).Visited env start now visits) :
    ∃ v suspended, visits = v :: suspended ∧ v.Serves env start now m.policy m.domain m.todo := by
  cases h with
  | next hv _ => exact ⟨_, _, rfl, hv⟩

namespace Machine

/-- Policies that are left are not visited any more, and the others still are. -/
theorem visited_leave {verdict : Verdict} {policy : Policy} {domain : String} {stack : List Frame}
    {v : Visit} {visits : List Visit} {todo : List Directive}
    (hv : v.Serves env start now policy domain todo)
    (hstack : List.Forall₂ (Frame.Visited env start now) stack visits) :
    (leave verdict policy domain stack).Visited env start now
      ((v :: visits).rtake ((leave verdict policy domain stack).depth + 1)) := by
  induction hstack generalizing v verdict policy domain todo with
  | nil => exact .done { hv with todo := List.nil_subset _ }
  | @cons f v' stack visits hf hrest ih =>
    unfold leave
    split
    · have hle : (leave f.qualifier.verdict f.policy f.domain stack).depth ≤ visits.length :=
        (depth_leave _ _ _ _).trans_eq hrest.length_eq
      rw [rtake_cons_of_le (Nat.succ_le_succ hle)]
      exact ih hf
    · have hdepth : stack.length + 1 = (v' :: visits).length := congrArg (· + 1) hrest.length_eq
      change Transition.Visited env start now _ ((v :: v' :: visits).rtake (stack.length + 1))
      rw [hdepth, rtake_cons_of_le le_rfl, rtake_length]
      exact .next hf hrest

/-- A machine at the start of a policy that was just fetched visits it. -/
theorem visited_enter {policy : Policy} {name : String} {stack : List Frame}
    {visits : List Visit} {before : Traffic} (hstart : start.log <:+ before.log)
    (hfetched : (lookupPolicy env name).run before = (.ok policy, now))
    (hstack : List.Forall₂ (Frame.Visited env start now) stack visits) :
    (Transition.next (enter policy name stack)).Visited env start now
      (⟨policy, name, before, now⟩ :: visits) :=
  .next ⟨⟨hstart, hfetched⟩, List.suffix_rfl, rfl, rfl, fun _ hd => hd⟩ hstack

/-- The second part of a step visits the policies at which the machine arrives. -/
theorem visited_conclude {m : Machine} {name : String} {t : Transition} {p p' : Progress}
    {visits : List Visit} (hm : (Transition.next m).Visited env start p.traffic visits)
    (hpast : p.traffic.log <:+ p'.traffic.log)
    (h : (m.conclude env request name).run p = (.ok t, p')) :
    t.Visited env start p'.traffic (visitsAfter m name p (.ok t) p' visits) := by
  cases hm with
  | @next v visits policy domain todo stack hv hstack =>
  have hstart : start.log <:+ p.traffic.log := hv.since.start_suffix.trans hv.past
  have hv' : v.Serves env start p'.traffic policy domain todo := hv.mono hpast
  have hstack' : List.Forall₂ (Frame.Visited env start p'.traffic) stack visits :=
    Frame.visited_mono hstack hpast
  have hlength : stack.length = visits.length := hstack.length_eq
  have hall : (v :: visits).rtake (stack.length + 1) = v :: visits := by
    rw [hlength]
    exact rtake_length (v :: visits)
  have hrest : (v :: visits).rtake stack.length = visits := by
    rw [rtake_cons_of_le hlength.le, hlength, rtake_length]
  match todo with
  | [] =>
    unfold conclude at h
    dsimp only at h
    cases hredirect : policy.redirect? with
    | none =>
      rw [hredirect] at h
      cases h
      simp only [visitsAfter, turns, hredirect, Option.isSome_none, Bool.false_eq_true, if_false]
      exact visited_leave hv' hstack'
    | some target =>
      rw [hredirect] at h
      obtain ⟨fetched, q, hfetch, h⟩ := Process.run_bind_eq_ok h
      cases h
      simp only [visitsAfter, turns, hredirect, Option.isSome_some, if_true]
      change Transition.Visited env start _ _ (_ :: (v :: visits).rtake stack.length)
      rw [hrest]
      exact visited_enter hstart (lookupPolicy_of_fetchPolicy hfetch) hstack'
  | ⟨qualifier, mechanism⟩ :: rest =>
    have hsuspended : v.Serves env start p'.traffic policy domain rest :=
      { hv' with todo := fun d hd => hv'.todo (List.mem_cons_of_mem _ hd) }
    cases mechanism with
    | includePolicy target =>
      obtain ⟨fetched, q, hfetch, h⟩ := Process.run_bind_eq_ok h
      cases h
      simp only [visitsAfter, turns, if_true]
      change Transition.Visited env start _ _ (_ :: (v :: visits).rtake (stack.length + 1))
      rw [hall]
      exact visited_enter hstart (lookupPolicy_of_fetchPolicy hfetch) (.cons hsuspended hstack')
    | _ =>
      obtain ⟨b, q, htest, h⟩ := Process.run_bind_eq_ok h
      simp only [visitsAfter, turns, Bool.false_eq_true, if_false]
      cases b with
      | true =>
        cases h
        exact visited_leave hv' hstack'
      | false =>
        cases h
        change Transition.Visited env start _ _ ((v :: visits).rtake (stack.length + 1))
        rw [hall]
        exact .next hsuspended hstack'

end Machine

end

/-! ## Expansions -/

/-- What is expanded during a visit is written in the visited policy, or is the explanation that
was found, right before, where that policy points. -/
inductive Use.Written (env : Environment) (uses : List Use) (v : Visit) (u : Use) : Prop where
  | spec : u.text ∈ v.policy.domainSpecs → Written env uses v u
  | explanation {pointer : Use} :
      pointer ∈ uses → pointer.visit = some v → v.policy.explanation? = some pointer.text →
      (lookupExplanation env (pointer.text.toName pointer.inserted)).run pointer.after =
        (.ok u.text, u.before) → Written env uses v u

/-- An expansion during a visit is sound if it is that of a macro string of the visited policy,
with the properties of the request for the domain of the visit. The name that is inserted was
chosen for that domain since the macro string was reached; nothing was asked if none is
inserted. -/
structure Use.Sound (env : Environment) (request : Request) (start : Traffic) (uses : List Use)
    (v : Visit) (u : Use) : Prop where
  visit : u.visit = some v
  since : v.Since env start
  past : v.after.log <:+ u.before.log
  written : u.Written env uses v
  inserted : u.inserted = bindings env request v.domain u.inserted.validatedName
  fresh : u.text.InsertsClientName →
    Chooses env request.client v.domain u.before u.inserted.validatedName u.after
  idle : ¬ u.text.InsertsClientName → u.after = u.before

theorem Use.Written.mono {uses uses' : List Use} {v : Visit} {u : Use} (h : u.Written env uses v)
    (huses : uses ⊆ uses') : u.Written env uses' v := by
  cases h with
  | spec h => exact .spec h
  | explanation hmem hvisit hpointer hfound =>
    exact .explanation (huses hmem) hvisit hpointer hfound

/-- More expansions do not make one unsound. -/
theorem Use.Sound.mono {uses uses' : List Use} {v : Visit} {u : Use}
    (h : u.Sound env request start uses v) (huses : uses ⊆ uses') :
    u.Sound env request start uses' v :=
  { h with written := h.written.mono huses }

/-- Something was reached for which the names of the client are needed. -/
def Memory.WantsNames (w : Memory) : Prop :=
  (∃ m ∈ w.reached, m.InsertsClientName) ∨ ∃ target, .ptr target ∈ w.evaluated

namespace Keeping

/-- From one moment to a later one nothing was asked about the address of the client unless its
names are needed, and all expansions are sound. -/
structure Accounts (env : Environment) (request : Request) (start : Traffic)
    (s s' : Traffic × Memory) : Prop where
  asked : Asked (fun q => q.kind = .ptr → s'.2.WantsNames) s.1 s'.1
  uses : ∃ later, s'.2.uses = later ++ s.2.uses ∧
    ∀ u ∈ later, ∃ v, u.Sound env request start s'.2.uses v
  wants : s.2.WantsNames → s'.2.WantsNames

namespace Accounts

variable {s s' s'' : Traffic × Memory}

theorem refl (s : Traffic × Memory) : Accounts env request start s s :=
  ⟨.of_log_eq rfl, ⟨[], rfl, by simp⟩, id⟩

theorem trans (h : Accounts env request start s s') (h' : Accounts env request start s' s'') :
    Accounts env request start s s'' := by
  obtain ⟨later, hlater, hsound⟩ := h.uses
  obtain ⟨latest, hlatest, hsound'⟩ := h'.uses
  refine ⟨(h.asked.mono fun q hq hkind => h'.wants (hq hkind)).trans h'.asked, ?_, ?_⟩
  · refine ⟨latest ++ later, by rw [hlatest, hlater, List.append_assoc], fun u hu => ?_⟩
    rcases List.mem_append.1 hu with hu | hu
    · exact hsound' u hu
    · obtain ⟨v, hv⟩ := hsound u hu
      exact ⟨v, hv.mono (hlatest ▸ List.subset_append_right _ _)⟩
  · exact fun hw => h'.wants (h.wants hw)

/-- What asks nothing about the address of the client, and expands nothing, may happen at any
time. -/
theorem of_asked {t t' : Traffic} {w w' : Memory} (h : Asked (·.kind ≠ .ptr) t t')
    (huses : w'.uses = w.uses) (hwants : w.WantsNames → w'.WantsNames) :
    Accounts env request start (t, w) (t', w') :=
  ⟨h.mono fun _ hne heq => absurd heq hne, ⟨[], huses, by simp⟩, hwants⟩

/-- A sound expansion accounts for itself. -/
theorem of_use {t t' : Traffic} {w w' : Memory} {v : Visit} {u : Use}
    (h : Asked (fun q => q.kind = .ptr → w'.WantsNames) t t') (huses : w'.uses = u :: w.uses)
    (hu : u.Sound env request start w.uses v) (hwants : w.WantsNames → w'.WantsNames) :
    Accounts env request start (t, w) (t', w') := by
  refine ⟨h, ⟨[u], huses, ?_⟩, hwants⟩
  rw [List.forall_mem_singleton]
  exact ⟨v, hu.mono (huses ▸ List.subset_cons_self u w.uses)⟩

instance : IsTrans (Traffic × Memory) (Accounts env request start) := ⟨fun _ _ _ => trans⟩

end Accounts

/-- A visit is on, with others suspended. -/
structure Visits (v : Visit) (suspended : List Visit) (s : Traffic × Memory) : Prop where
  visits : s.2.visits = v :: suspended
  past : v.after.log <:+ s.1.log

/-- What happens during a visit: all expansions are sound, and the visit goes on. -/
def During (env : Environment) (request : Request) (start : Traffic) (v : Visit)
    (suspended : List Visit) (s s' : Traffic × Memory) : Prop :=
  Visits v suspended s → Accounts env request start s s' ∧ Visits v suspended s'

instance {v : Visit} {suspended : List Visit} :
    Std.Refl (During env request start v suspended) :=
  ⟨fun s h => ⟨.refl s, h⟩⟩

instance {v : Visit} {suspended : List Visit} :
    IsTrans (Traffic × Memory) (During env request start v suspended) where
  trans s s' s'' h h' hvisits := by
    obtain ⟨haccounts, hvisits'⟩ := h hvisits
    obtain ⟨haccounts', hvisits''⟩ := h' hvisits'
    exact ⟨haccounts.trans haccounts', hvisits''⟩

open Process (Moves)

/-- The traffic and the memory of an evaluation. -/
def moment (s : Progress × Memory) : Traffic × Memory := (s.1.traffic, s.2)

section

variable {v : Visit} {suspended : List Visit}

/-- What asks nothing about the address of the client may happen during any visit. -/
theorem During.of_asked {t t' : Traffic} {w : Memory} (h : Asked (·.kind ≠ .ptr) t t') :
    During env request start v suspended (t, w) (t', w) :=
  fun hvisits =>
    ⟨.of_asked h rfl id, hvisits.visits, hvisits.past.trans h.log_suffix⟩

/-- Holding a fault up happens during the same visit. -/
theorem during_attempt {x : Process (Traffic × Memory) Stop α}
    (h : Moves id (During env request start v suspended) x) :
    Moves id (During env request start v suspended) (attempt x) := by
  intro s
  have hs := h s
  rw [run_attempt]
  rcases hrun : x.run s with ⟨(f | i) | a, s'⟩ <;> rw [hrun] at hs <;> exact hs

theorem during_ofLookup {x : Process (Traffic × Memory) Stop α}
    (h : Moves id (During env request start v suspended) x) :
    Moves moment (During env request start v suspended) (ofLookup x) := by
  intro s
  have hs : During env request start v suspended (moment s) (x.run (moment s)).2 := h (moment s)
  unfold ofLookup
  rw [Process.run_within]
  rcases hrun : x.run (s.1.traffic, s.2) with ⟨e | a, r⟩ <;> rw [moment, hrun] at hs <;> exact hs

/-- What asks nothing about the address of the client expands nothing, either, beside the
memory. -/
theorem during_beside {x : Lookup α} (h : Moves id (Asked (·.kind ≠ .ptr)) x) :
    Moves id (During env request start v suspended) x.beside :=
  fun s => .of_asked (h s.1)

theorem during_beside_evaluation {x : Evaluation α}
    (h : Moves Progress.traffic (Asked (·.kind ≠ .ptr)) x) :
    Moves moment (During env request start v suspended) x.beside :=
  fun s => .of_asked (h s.1)

/-! ### Macro strings -/

/-- What was wanted is still wanted when another macro string is reached. -/
theorem wantsNames_reach {m : MacroString} {w : Memory} (h : w.WantsNames) :
    (w.reach m).WantsNames :=
  h.imp_left fun ⟨m', hm', hinserts⟩ => ⟨m', List.mem_cons_of_mem m hm', hinserts⟩

/-- A macro string that is written in the visited policy is expanded soundly. -/
theorem during_bindingsFor_at (hv : v.Since env start) {m : MacroString} {s : Traffic × Memory}
    (hm : ∀ u : Use, u.text = m → u.before = s.1 → u.Written env s.2.uses v) :
    During env request start v suspended s ((bindingsFor env request v.domain m).run s).2 := by
  obtain ⟨t, w⟩ := s
  rintro ⟨hvisits, hpast⟩
  have hvisit : w.visits.head? = some v := congrArg List.head? hvisits
  rw [run_bindingsFor]
  by_cases hneeds : m.needsValidatedName = true
  · have hinserts : m.InsertsClientName := MacroString.needsValidatedName_iff.1 hneeds
    have hwants : (w.reach m).WantsNames := .inl ⟨m, List.mem_cons_self, hinserts⟩
    have hasked : Asked (fun _ => True) t ((validatedName env request.client v.domain).run t).2 :=
      Moves.validatedName (fun _ => ⟨trivial, trivial⟩) trivial v.domain t
    rw [if_pos hneeds]
    rcases hrun : (validatedName env request.client v.domain).run t with ⟨e | name, t'⟩ <;>
      rw [hrun] at hasked <;>
      refine ⟨?_, hvisits, hpast.trans hasked.log_suffix⟩
    · exact ⟨hasked.mono fun _ _ _ => hwants, ⟨[], rfl, by simp⟩, fun _ => hwants⟩
    · exact .of_use (hasked.mono fun _ _ _ => hwants) rfl
        ⟨hvisit, hv, hpast, hm _ rfl rfl, rfl, fun _ => chooses_of_run hrun,
          fun h => absurd hinserts h⟩
        fun _ => hwants
  · have hinserts : ¬ m.InsertsClientName := by rwa [← MacroString.needsValidatedName_iff]
    rw [if_neg hneeds]
    let u : Use := ⟨w.visits.head?, m, t, bindings env request v.domain w.stored, t⟩
    have hu : u.Sound env request start w.uses v :=
      ⟨hvisit, hv, hpast, hm u rfl rfl, rfl, fun h => absurd h hinserts, fun _ => rfl⟩
    exact ⟨.of_use (.of_log_eq rfl) rfl hu wantsNames_reach, hvisits, hpast⟩

/-- A domain-spec of the visited policy is expanded soundly. -/
theorem during_targetName (hv : v.Since env start) {m : MacroString}
    (hm : m ∈ v.policy.domainSpecs) :
    Moves id (During env request start v suspended) (targetName env request v.domain m) := by
  refine .bind (fun s => during_bindingsFor_at hv fun u htext _ => .spec ?_) fun _ => .pure _
  rwa [htext]

/-- Whatever expands to the name of a domain-spec during a visit keeps the expansion. -/
theorem exists_use_of_targetName {m : MacroString} {name : String} {s s' : Traffic × Memory}
    (hs : Visits v suspended s)
    (hrun : (targetName env request v.domain m).run s = (.ok name, s')) :
    ∃ u ∈ s'.2.uses, u.visit = some v ∧ u.text = m ∧ m.toName u.inserted = name ∧
      u.after = s'.1 := by
  obtain ⟨t, w⟩ := s
  have hvisit : w.visits.head? = some v := congrArg List.head? hs.visits
  obtain ⟨b, r, hbindings, hname⟩ := Process.run_bind_eq_ok hrun
  cases hname
  rw [run_bindingsFor] at hbindings
  split at hbindings
  · rcases hchosen : (validatedName env request.client v.domain).run t with ⟨e | name, t'⟩ <;>
      rw [hchosen] at hbindings <;> cases hbindings
    exact ⟨_, List.mem_cons_self, hvisit, rfl, rfl, rfl⟩
  · cases hbindings
    exact ⟨_, List.mem_cons_self, hvisit, rfl, rfl, rfl⟩

/-- What is found where the visited policy points is expanded soundly. -/
theorem during_expandExplanation (hv : v.Since env start) {target : MacroString}
    (htarget : v.policy.explanation? = some target) :
    Moves id (During env request start v suspended)
      (expandExplanation env request v.domain target) := by
  intro s hs
  have hpointer : Moves id (During env request start v suspended)
      (targetName env request v.domain target) :=
    during_targetName hv (Policy.mem_domainSpecs_of_explanation htarget)
  refine Moves.bind_at id (hpointer s) (fun name s₁ hname => ?_) hs
  obtain ⟨u, hu, hvisit, rfl, rfl, hafter⟩ := exists_use_of_targetName hs hname
  split
  · have hlookup : Moves id (During env request start v suspended)
        (lookupExplanation env (u.text.toName u.inserted)).beside :=
      during_beside (Moves.lookupExplanation (by simp))
    refine Moves.bind_at id (hlookup s₁) fun text s₂ htext => ?_
    obtain ⟨hfound, hkept⟩ := Process.run_of_beside htext
    have hwritten : ∀ u' : Use, u'.text = text → u'.before = s₂.1 → u'.Written env s₂.2.uses v := by
      rintro u' rfl hbefore
      rw [← hafter, ← hbefore] at hfound
      exact .explanation (hkept ▸ hu) hvisit htarget hfound
    exact Moves.bind_at id (during_bindingsFor_at hv hwritten)
      fun _ s₃ _ => Std.Refl.refl s₃
  · exact Std.Refl.refl s₁

/-- The explanation of the visited policy is expanded soundly, or given up. -/
theorem during_explain (hv : v.Since env start) {target : MacroString}
    (htarget : v.policy.explanation? = some target) :
    Moves id (During env request start v suspended) (explain env request v.domain target) := by
  apply Moves.bind (during_attempt (during_expandExplanation hv htarget))
  intro r
  cases r <;> exact .pure _

/-- The explanation at the end of the visited policy is expanded soundly. -/
theorem during_explainFinish {finish : Finish} (hv : v.Since env start)
    (hpolicy : v.policy = finish.policy) (hdomain : v.domain = finish.domain) :
    Moves id (During env request start v suspended) (explainFinish env request finish) := by
  obtain ⟨verdict, policy, domain⟩ := finish
  obtain rfl : v.policy = policy := hpolicy
  obtain rfl : v.domain = domain := hdomain
  unfold explainFinish
  dsimp only
  cases verdict with
  | fail =>
    cases htarget : v.policy.explanation? with
    | none => exact .pure none
    | some target => exact during_explain hv htarget
  | _ => exact .pure none

/-! ### Steps and runs -/

/-- The name for a term of the visited policy is found by sound expansions. -/
theorem during_prepare {now : Traffic} {m : Machine}
    (hv : v.Serves env start now m.policy m.domain m.todo) :
    Moves moment (During env request start v suspended) (prepare env request m) := by
  obtain ⟨policy, domain, todo, stack⟩ := m
  obtain ⟨hsince, -, rfl, rfl, htodo⟩ := hv
  have htarget : ∀ target, target ∈ v.policy.domainSpecs →
      Moves moment (During env request start v suspended)
        (ofLookup (targetName env request v.domain target)) :=
    fun target h => during_ofLookup (during_targetName hsince h)
  have hcharge : Moves moment (During env request start v suspended) charge.beside :=
    during_beside_evaluation Moves.charge
  match todo with
  | [] =>
    unfold prepare
    dsimp only
    cases hredirect : v.policy.redirect? with
    | none => exact .pure _
    | some target =>
      exact .bind hcharge fun _ => htarget target (Policy.mem_domainSpecs_of_redirect hredirect)
  | ⟨qualifier, mechanism⟩ :: rest =>
    have hd : ⟨qualifier, mechanism⟩ ∈ v.policy.directives := htodo List.mem_cons_self
    have hother : Moves moment (During env request start v suspended)
        (ofLookup (targetNameOr env request v.domain mechanism.target?)) := by
      cases htext : mechanism.target? with
      | none => exact during_ofLookup (.pure _)
      | some target =>
        refine htarget target (Policy.mem_domainSpecs_of_directive hd ?_)
        cases mechanism with
        | includePolicy => cases htext
        | _ => exact htext
    cases mechanism with
    | includePolicy target =>
      exact .bind hcharge fun _ =>
        .ite (during_beside_evaluation (.stop _))
          (htarget target (Policy.mem_domainSpecs_of_directive hd rfl))
    | _ => exact hother

end

/-- The questions of the second part of a step are those of its mechanism, which is kept. -/
theorem accounts_conclude (m : Machine) (name : String) :
    Moves moment (Accounts env request start) ((m.conclude env request name).observe
      fun p r p' w => (w.evaluate m).follow m name p r p') := by
  rintro ⟨p, w⟩
  have hwants : w.WantsNames → (w.evaluate m).WantsNames := by
    rintro (h | ⟨target, h⟩)
    · exact .inl h
    · exact .inr ⟨target, List.mem_append_right _ h⟩
  have hasked : Asked (fun q => q.kind = .ptr → (w.evaluate m).WantsNames) p.traffic
      ((m.conclude env request name).run p).2.traffic := by
    refine Moves.conclude (fun _ => ⟨by simp, by simp⟩) ?_ p
    intro d hd q hasks hkind
    obtain ⟨target, htarget⟩ := hasks.eq_ptr hkind
    refine .inr ⟨target, List.mem_append_left _ ?_⟩
    rw [Option.mem_def.1 hd, Option.map_some, htarget]
    exact List.mem_cons_self
  exact ⟨hasked, ⟨[], rfl, by simp⟩, hwants⟩

/-- The policies of a machine are still visited when the name for its next term is found, which
takes sound expansions only. -/
theorem accounts_prepare {m : Machine} {s : Progress × Memory}
    (hm : (Transition.next m).Visited env start s.1.traffic s.2.visits) :
    let s' := ((prepare env request m).run s).2
    Accounts env request start (moment s) (moment s') ∧
      (Transition.next m).Visited env start s'.1.traffic s'.2.visits := by
  intro s'
  obtain ⟨v, suspended, hvisits, hv⟩ := hm.exists_visit
  obtain ⟨haccounts, hvisits', -⟩ := during_prepare hv s ⟨hvisits, hv.past⟩
  refine ⟨haccounts, ?_⟩
  have hsame : s'.2.visits = s.2.visits := hvisits'.trans hvisits.symm
  rw [hsame]
  exact hm.mono haccounts.asked.log_suffix

/-- Every step of a visited machine expands soundly. -/
theorem accounts_step {m : Machine} {s : Progress × Memory}
    (hm : (Transition.next m).Visited env start s.1.traffic s.2.visits) :
    Accounts env request start (moment s) (moment ((step env request m).run s).2) :=
  Moves.bind_at moment (accounts_prepare hm).1
    fun name s' _ => accounts_conclude m name s'

/-- Every step of a visited machine arrives at visited policies. -/
theorem visited_step {m : Machine} {t : Transition} {s s' : Progress × Memory}
    (hm : (Transition.next m).Visited env start s.1.traffic s.2.visits)
    (h : (step env request m).run s = (.ok t, s')) :
    t.Visited env start s'.1.traffic s'.2.visits := by
  obtain ⟨name, ⟨p, w⟩, hprepare, hconclude⟩ := Process.run_bind_eq_ok h
  have hm' : (Transition.next m).Visited env start p.traffic w.visits := by
    have hprepared : (Transition.next m).Visited env start
        ((prepare env request m).run s).2.1.traffic ((prepare env request m).run s).2.2.visits :=
      (accounts_prepare hm).2
    rwa [hprepare] at hprepared
  have haccounts : Moves moment (Accounts env request start) _ := accounts_conclude m name
  have hpast := (haccounts (p, w)).asked.log_suffix
  rw [Process.run_observe] at hconclude hpast
  rcases hrun : (m.conclude env request name).run p with ⟨r, p'⟩
  rw [hrun] at hconclude hpast
  cases hconclude
  exact Machine.visited_conclude hm' hpast hrun

/-- Every run from a visited machine expands soundly, and ends at a visited policy. -/
theorem accounts_runFrom {m : Machine} {s : Progress × Memory}
    (hm : (Transition.next m).Visited env start s.1.traffic s.2.visits) :
    Accounts env request start (moment s) (moment (runFrom env request m s).2) ∧
      ∀ f s', runFrom env request m s = (.ok f, s') →
        (Transition.done f).Visited env start s'.1.traffic s'.2.visits := by
  obtain ⟨p, w⟩ := s
  induction m, p using Machine.run_induction env request generalizing w with
  | step m p ih =>
    have hstep : Accounts env request start (moment (p, w))
        (moment ((step env request m).run (p, w)).2) := accounts_step hm
    have hvisited : ∀ t s', (step env request m).run (p, w) = (.ok t, s') →
        t.Visited env start s'.1.traffic s'.2.visits := fun _ _ => visited_step hm
    have hplain : Process.forget ((step env request m).run (p, w)) = (m.step env request).run p :=
      observes_step m (p, w)
    rw [runFrom]
    split
    next m' s' hrun =>
      rw [hrun] at hstep hplain
      obtain ⟨haccounts, hends⟩ := ih m' s'.1 hplain.symm s'.2 (hvisited _ _ hrun)
      exact ⟨hstep.trans haccounts, hends⟩
    next f s' hrun =>
      rw [hrun] at hstep
      refine ⟨hstep, fun f' s'' h => ?_⟩
      cases h
      exact hvisited _ _ hrun
    next e s' hrun =>
      rw [hrun] at hstep
      exact ⟨hstep, fun f' s'' h => by cases h⟩

/-- The policy that is found for the requested domain is visited at the start. -/
theorem visited_begin {policy : Policy} {s s' : Progress × Memory}
    (h : ((Evaluation.ofLookup (lookupPolicy env request.domain)).observe
      fun p r p' w => w.begin request.domain p r p').run s = (.ok policy, s')) :
    (Transition.next (.enter policy request.domain [])).Visited env s.1.traffic s'.1.traffic
      s'.2.visits := by
  rw [Process.run_observe, Evaluation.run_ofLookup] at h
  rcases hfound : (lookupPolicy env request.domain).run s.1.traffic with ⟨e | found, t⟩ <;>
    rw [hfound] at h <;> cases h
  exact Machine.visited_enter List.suffix_rfl hfound .nil

/-- The explanation at the end of a visited policy is expanded soundly. -/
theorem accounts_explainFinish {f : Finish} {s : Progress × Memory}
    (hf : (Transition.done f).Visited env start s.1.traffic s.2.visits) :
    Accounts env request start (moment s)
      (moment ((ofLookup (explainFinish env request f)).run s).2) := by
  generalize hvisits : s.2.visits = visits at hf
  cases hf with
  | done hv =>
    exact (during_ofLookup (during_explainFinish hv.since hv.policy hv.domain) s
      ⟨hvisits, hv.past⟩).1

/-- Every evaluation of a request expands soundly. -/
theorem accounts_evaluateRequest (s : Progress × Memory) :
    Accounts env request s.1.traffic (moment s)
      (moment ((evaluateRequest env request).run s).2) := by
  unfold evaluateRequest
  split
  · have hasked : Asked (·.kind ≠ .ptr) s.1.traffic
        ((Evaluation.ofLookup (lookupPolicy env request.domain)).run s.1).2.traffic :=
      Moves.ofLookup (Moves.lookupPolicy ⟨by simp, by simp⟩) s.1
    refine Moves.bind_at moment (.of_asked hasked rfl id) fun policy s₁ hfound => ?_
    have hbegin := visited_begin hfound
    refine Moves.bind_at moment (accounts_runFrom hbegin).1 fun f s₂ hf => ?_
    have hend := (accounts_runFrom hbegin).2 f s₂ hf
    exact Moves.bind_at moment (accounts_explainFinish hend)
      fun _ s₃ _ => Accounts.refl (moment s₃)
  · exact Accounts.refl _

/-- Every check of a host expands soundly. -/
theorem accounts_checkHost (s : Traffic × Memory) :
    Accounts env request s.1 s ((checkHost env request).run s).2 :=
  accounts_evaluateRequest (.start env s.1, s.2)

end Keeping

/-! ## The check of a host -/

/-- Let the check of a host keep the name of the client from one macro string to the next,
whatever name it has at the start: its outcome and its traffic are those of the check that
looks for the name each time. Every macro string that is expanded is expanded during a visit to a
policy which this check has fetched for the domain of the visit, and it is one of that policy. If
it inserts the name, that was chosen for this domain since the macro string was reached; any other
stands for the same octets whatever the name is. If none that inserts the name was reached, and
the mechanism that asks for the names of the client was not evaluated, then nothing was asked
about its address. -/
theorem checkHost_inserts_chosen_name (env : Environment) (request : Request) (t : Traffic)
    (kept : String) :
    let r := (Keeping.checkHost env request).run (t, .holding kept)
    Process.forget r = (checkHost env request).run t ∧
      (∀ u ∈ r.2.2.uses, ∃ v, u.Sound env request t r.2.2.uses v) ∧
      (∀ m : MacroString, ¬ m.InsertsClientName → ∀ (b : Bindings) (v : String),
        m.expand { b with validatedName := v } = m.expand b) ∧
      (¬ r.2.2.WantsNames → Asked (·.kind ≠ .ptr) t r.2.1) := by
  intro r
  have haccounts : Keeping.Accounts env request t (t, .holding kept) r.2 :=
    Keeping.accounts_checkHost (t, .holding kept)
  obtain ⟨later, hlater, hsound⟩ := haccounts.uses
  have huses : r.2.2.uses = later := by
    rw [hlater]
    exact List.append_nil later
  refine ⟨Keeping.observes_checkHost (t, .holding kept), ?_, ?_, ?_⟩
  · rwa [← huses] at hsound
  · exact fun m hm b v => MacroString.expand_of_not_insertsClientName hm b v
  · exact fun hwants => haccounts.asked.mono fun q hq hkind => hwants (hq hkind)

end SenderPolicy
