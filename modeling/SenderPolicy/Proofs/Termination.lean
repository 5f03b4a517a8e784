import Mathlib.Algebra.Ring.Nat
import Mathlib.Data.List.Forall2
import SenderPolicy.Proofs.Observation

/-!
# The end of an evaluation

A ledger is kept of an evaluation: which policies are entered, which of their
directives are looked at, how many policies are left, and how many turns the loop
takes. Each following of an inclusion or redirection is charged to the budget, so
that few policies are entered; each directive of an entered policy is looked at
once at most, and these looks and the leavings are all the turns there are.

Main definitions:

- `Ledger`, `Ledger.note`: the ledger, and what a step adds to it;
- `Ledger.Consistent`: what the ledger says of a machine;
- `Ledger.Kept`, `Ledger.Settled`: what holds of it before each step and at the end.

Main results:

- `Ledger.Kept.next`: each step keeps the ledger;
- `Ledger.Kept.done`, `Ledger.Kept.error`: the last one leaves it settled;
- `evaluation_ends`: the bounds on all evaluations of requests.
-/

namespace SenderPolicy

/-- A look at a directive, at its place in the policy of an entry. -/
structure Look where
  entry : Nat
  position : Nat
  directive : Directive

/-- A ledger of an evaluation. Entries are numbered in order, from zero. -/
structure Ledger where
  entered : List Policy
  /-- The entries that are not left yet, the one at hand first. -/
  live : List Nat
  /-- The looks at directives, the latest first. -/
  looks : List Look
  left : Nat
  /-- How many turns the loop has taken: one for each look at a directive, or at
  the end of the directives, and one for each policy left. -/
  turns : Nat

namespace Ledger

/-- The ledger before any policy is entered. -/
def empty : Ledger := ⟨[], [], [], 0, 0⟩

/-- The ledger at the start of a policy. -/
def start (policy : Policy) : Ledger := ⟨[policy], [0], [], 0, 0⟩

/-- A turn: a look at the next directive, or at the end of the directives. -/
def look (m : Machine) (l : Ledger) : Ledger :=
  { l with
    looks := match m.todo, l.live with
      | d :: _, i :: _ => ⟨i, m.policy.directives.length - m.todo.length, d⟩ :: l.looks
      | _, _ => l.looks
    turns := l.turns + 1 }

/-- A policy is entered, and the one at hand suspended. -/
def enter (policy : Policy) (l : Ledger) : Ledger :=
  { l with entered := l.entered ++ [policy], live := l.entered.length :: l.live }

/-- A policy is entered in the place of the one at hand. -/
def replace (policy : Policy) (l : Ledger) : Ledger :=
  { l with entered := l.entered ++ [policy], live := l.entered.length :: l.live.tail }

/-- A number of policies are left, one in each turn. -/
def leave (count : Nat) (l : Ledger) : Ledger :=
  { l with live := l.live.drop count, left := l.left + count, turns := l.turns + count }

/-- What a step from one machine to another adds to the ledger, apart from the look:
an inclusion or a redirection that leads on was followed, and anything else leaves
the policies that are no longer there. -/
def proceed (m m' : Machine) (l : Ledger) : List Directive → Ledger
  | ⟨_, .includePolicy _⟩ :: _ => l.enter m'.policy
  | _ :: _ => l.leave (m.stack.length - m'.stack.length)
  | [] =>
    if m.policy.redirect?.isSome then l.replace m'.policy
    else l.leave (m.stack.length - m'.stack.length)

/-- What a step adds to the ledger. A verdict on the whole leaves all policies. -/
def note (m : Machine) (r : Except Abort Transition) (l : Ledger) : Ledger :=
  match r with
  | .error _ => l.look m
  | .ok (.done _) => (l.look m).leave (m.stack.length + 1)
  | .ok (.next m') => (l.look m).proceed m m' m.todo

/-- Keeping the ledger of an evaluation. -/
def observer : Observer Ledger where
  found _ r _ l := match r with
    | .ok policy => start policy
    | .error _ => l
  step m _ r _ l := l.note m r
  explained _ _ _ l := l

/-! ## Consistency -/

/-- The policies at hand and suspended, with what is left of their directives. -/
def pending (m : Machine) : List (Policy × List Directive) :=
  (m.policy, m.todo) :: m.stack.map fun f => (f.policy, f.rest)

/-- What the ledger says of a policy with directives left: it has been entered, and
none of those directives has been looked at. -/
structure Account (l : Ledger) (i : Nat) (e : Policy × List Directive) : Prop where
  policy : l.entered[i]? = some e.1
  /-- The directives that are left are its last ones. -/
  suffix : e.2 <:+ e.1.directives
  /-- The directives looked at come before them. -/
  before : ∀ look ∈ l.looks, look.entry = i → look.position + e.2.length < e.1.directives.length

/-- What holds of the ledger at any time: no directive of an entry is looked at again,
the looks are at directives of entries, and no more policies are left than entered. -/
structure Sound (l : Ledger) : Prop where
  nodup : (l.looks.map fun look => (look.entry, look.position)).Nodup
  valid : ∀ look ∈ l.looks, ∃ policy, l.entered[look.entry]? = some policy ∧
    policy.directives[look.position]? = some look.directive
  left_le : l.left + l.live.length ≤ l.entered.length

/-- What the ledger says of a machine. -/
structure Consistent (l : Ledger) (m : Machine) : Prop extends Sound l where
  /-- The entries not left yet are those of the policies at hand and suspended. -/
  accounts : List.Forall₂ l.Account l.live (pending m)
  live_nodup : l.live.Nodup

/-- How many turns the entered policies allow, apart from leaving policies: one for
each directive, and one for the end of the directives. -/
def allowance (l : Ledger) : Nat :=
  (l.entered.map fun policy => policy.directives.length).sum + l.entered.length

/-- What holds of the ledger before each step. -/
structure Kept (env : Environment) (l : Ledger) (m : Machine) (p : Progress) : Prop
    extends Consistent l m where
  /-- The turns that are still needed are allowed. -/
  turns_le : l.turns + m.weight + 1 ≤ l.allowance + l.left
  /-- A policy was entered for each charge, at most. -/
  entered_le : l.entered.length + p.budget.remaining ≤ env.settings.maxLookups.toNat + 1

/-- What holds of the ledger at the end. -/
structure Settled (env : Environment) (l : Ledger) : Prop extends Sound l where
  turns_le : l.turns ≤ l.allowance + l.left
  entered_le : l.entered.length ≤ env.settings.maxLookups.toNat + 1

/-! ### Keeping the ledger consistent -/

/-- More entries do not change what the ledger says of the earlier ones. -/
theorem getElem?_append_of_some {α : Type} {l t : List α} {i : Nat} {a : α}
    (h : l[i]? = some a) : (l ++ t)[i]? = some a := by
  have hi : i < l.length := (List.getElem?_eq_some_iff.1 h).1
  rw [List.getElem?_append_left hi, h]

/-- Policies that are entered later leave the account of an earlier one as it is. -/
theorem Account.append {l l' : Ledger} {t : List Policy} {i : Nat}
    {e : Policy × List Directive} (h : l.Account i e) (hentered : l'.entered = l.entered ++ t)
    (hlooks : l'.looks = l.looks) : l'.Account i e where
  policy := by
    rw [hentered]
    exact getElem?_append_of_some h.policy
  suffix := h.suffix
  before := by
    rw [hlooks]
    exact h.before

/-- The entries of the machine are as many as its policies. -/
theorem Consistent.live_length {l : Ledger} {m : Machine} (h : l.Consistent m) :
    l.live.length = m.stack.length + 1 := by
  have := h.accounts.length_eq
  simpa [pending] using this

/-- The entries of the machine have been made. -/
theorem Consistent.live_lt {l : Ledger} {m : Machine} (h : l.Consistent m) :
    ∀ i ∈ l.live, i < l.entered.length := by
  have hentered : List.Forall₂ (fun i e => i < l.entered.length ∧ l.Account i e) l.live
      (pending m) :=
    h.accounts.imp fun i e he => ⟨(List.getElem?_eq_some_iff.1 he.policy).1, he⟩
  exact ((List.forall₂_and_left l.live (pending m)).1 hentered).1

/-- Looks stay at directives of entries when more policies are entered. -/
theorem Sound.valid_append {l l' : Ledger} {t : List Policy} (h : l.Sound)
    (hentered : l'.entered = l.entered ++ t) (hlooks : l'.looks = l.looks) :
    ∀ look ∈ l'.looks, ∃ policy, l'.entered[look.entry]? = some policy ∧
      policy.directives[look.position]? = some look.directive := by
  intro look hlook
  rw [hlooks] at hlook
  obtain ⟨policy, hpolicy, hdirective⟩ := h.valid look hlook
  rw [hentered]
  exact ⟨policy, getElem?_append_of_some hpolicy, hdirective⟩

/-- The account of a policy that has just been entered. -/
theorem account_entered {l : Ledger} {m : Machine} (h : l.Consistent m) {l' : Ledger}
    {policy : Policy} (hentered : l'.entered = l.entered ++ [policy])
    (hlooks : l'.looks = l.looks) :
    l'.Account l.entered.length (policy, policy.directives) where
  policy := by
    rw [hentered]
    simp
  suffix := List.suffix_rfl
  before := by
    intro look hlook hentry
    rw [hlooks] at hlook
    obtain ⟨p, hp, _⟩ := h.valid look hlook
    have hlt := (List.getElem?_eq_some_iff.1 hp).1
    omega

/-- A policy entered at an inclusion keeps the ledger consistent. -/
theorem Consistent.enter {l : Ledger} {m : Machine} (h : l.Consistent m) (policy : Policy)
    (name : String) (qualifier : Qualifier) :
    (l.enter policy).Consistent
      (Machine.enter policy name (⟨m.policy, m.domain, qualifier, m.todo⟩ :: m.stack)) where
  nodup := h.nodup
  valid := h.valid_append rfl rfl
  left_le := by
    have := h.left_le
    simp only [Ledger.enter, List.length_append, List.length_cons, List.length_nil]
    omega
  accounts := by
    refine .cons (account_entered h rfl rfl) ?_
    exact h.accounts.imp fun i e he => he.append rfl rfl
  live_nodup := by
    refine List.nodup_cons.2 ⟨fun hmem => ?_, h.live_nodup⟩
    exact Nat.lt_irrefl _ (h.live_lt _ hmem)

/-- A policy entered at a redirection keeps the ledger consistent. -/
theorem Consistent.replace {l : Ledger} {m : Machine} (h : l.Consistent m) (policy : Policy)
    (name : String) : (l.replace policy).Consistent (Machine.enter policy name m.stack) where
  nodup := h.nodup
  valid := h.valid_append rfl rfl
  left_le := by
    have := h.left_le
    have hlen := h.live_length
    simp only [Ledger.replace, List.length_append, List.length_cons, List.length_nil,
      List.length_tail]
    omega
  accounts := by
    refine .cons (account_entered h rfl rfl) ?_
    have htail := List.forall₂_drop 1 h.accounts
    rw [List.drop_one] at htail
    exact htail.imp fun i e he => he.append rfl rfl
  live_nodup := by
    refine List.nodup_cons.2 ⟨fun hmem => ?_, h.live_nodup.tail⟩
    exact Nat.lt_irrefl _ (h.live_lt _ (List.mem_of_mem_tail hmem))

/-- Leaving policies keeps the ledger sound. -/
theorem Consistent.sound_leave {l : Ledger} {m : Machine} (h : l.Consistent m) {count : Nat}
    (hcount : count ≤ m.stack.length + 1) : (l.leave count).Sound where
  nodup := h.nodup
  valid := h.valid
  left_le := by
    have := h.left_le
    have hlen := h.live_length
    simp only [Ledger.leave, List.length_drop]
    omega

/-- Going back into a suspended policy keeps the ledger consistent. -/
theorem Consistent.leave {l : Ledger} {m : Machine} (h : l.Consistent m) {popped : List Frame}
    {f : Frame} {rest : List Frame} (hstack : m.stack = popped ++ f :: rest) :
    (l.leave (popped.length + 1)).Consistent ⟨f.policy, f.domain, f.rest, rest⟩ where
  toSound := h.sound_leave (by simp [hstack])
  accounts := by
    have hdrop := List.forall₂_drop (popped.length + 1) h.accounts
    have hpending : (pending m).drop (popped.length + 1) =
        pending ⟨f.policy, f.domain, f.rest, rest⟩ := by
      simp [pending, hstack]
    rw [hpending] at hdrop
    exact hdrop.imp fun i e he => ⟨he.policy, he.suffix, he.before⟩
  live_nodup := h.live_nodup.sublist (List.drop_sublist _ _)

/-- A look at the end of the directives keeps the ledger consistent. -/
theorem Consistent.look_nil {l : Ledger} {m : Machine} (h : l.Consistent m)
    (htodo : m.todo = []) : (l.look m).Consistent m := by
  have hlooks : (l.look m).looks = l.looks := by simp [look, htodo]
  exact {
    nodup := by rw [hlooks]; exact h.nodup
    valid := by rw [hlooks]; exact h.valid
    left_le := h.left_le
    accounts := h.accounts.imp fun i e he => ⟨he.policy, he.suffix, by rw [hlooks]; exact he.before⟩
    live_nodup := h.live_nodup }

/-- A look at a directive keeps the ledger consistent, and that directive is behind
the machine then. -/
theorem Consistent.look_cons {l : Ledger} {m : Machine} (h : l.Consistent m) {d : Directive}
    {rest : List Directive} (htodo : m.todo = d :: rest) :
    (l.look m).Consistent { m with todo := rest } := by
  obtain ⟨i, live, hi, hrest, hlive⟩ := List.forall₂_cons_right_iff.1 h.accounts
  obtain ⟨before, hdirectives⟩ : m.todo <:+ m.policy.directives := hi.suffix
  rw [htodo] at hdirectives
  have hposition : m.policy.directives.length - m.todo.length = before.length := by
    rw [← hdirectives, htodo, List.length_append]
    omega
  have hlooks : (l.look m).looks = ⟨i, before.length, d⟩ :: l.looks := by
    simp only [look, hlive, htodo]
    rw [← hposition, htodo]
  have hnodup := h.live_nodup
  rw [hlive] at hnodup
  exact {
    nodup := by
      rw [hlooks, List.map_cons]
      refine List.nodup_cons.2 ⟨fun hmem => ?_, h.nodup⟩
      obtain ⟨look, hlook, heq⟩ := List.mem_map.1 hmem
      obtain ⟨hentry, hposition⟩ := Prod.mk.inj heq
      have hlt := hi.before look hlook hentry
      rw [← hdirectives, htodo, List.length_append, hposition] at hlt
      exact Nat.lt_irrefl _ hlt
    valid := by
      rw [hlooks]
      refine List.forall_mem_cons.2 ⟨⟨m.policy, hi.policy, ?_⟩, h.valid⟩
      rw [← hdirectives]
      simp
    left_le := h.left_le
    accounts := by
      change List.Forall₂ _ l.live _
      rw [hlive]
      refine .cons ⟨hi.policy, ?_, ?_⟩ ?_
      · rw [← hdirectives]
        exact (List.suffix_cons d rest).trans (List.suffix_append before _)
      · rw [hlooks]
        refine List.forall_mem_cons.2 ⟨fun _ => ?_, fun look hlook hentry => ?_⟩
        · rw [← hdirectives]
          simp
        · have hlt := hi.before look hlook hentry
          rw [htodo, List.length_cons] at hlt
          exact Nat.lt_of_succ_lt hlt
      · have hne : ∀ j ∈ live, j ≠ i := fun j hj hji => (List.nodup_cons.1 hnodup).1 (hji ▸ hj)
        apply ((List.forall₂_and_left live _).2 ⟨hne, hrest⟩).imp
        intro j e he
        refine ⟨he.2.policy, he.2.suffix, ?_⟩
        rw [hlooks]
        exact List.forall_mem_cons.2 ⟨fun hij => (he.1 hij.symm).elim, he.2.before⟩
    live_nodup := h.live_nodup }

/-! ### Each step -/

section

variable {env : Environment} {request : Request} {l : Ledger} {m m' : Machine} {p p' : Progress}

/-- Following an inclusion keeps the ledger. -/
theorem Kept.included (h : l.Kept env m p) {qualifier : Qualifier} {target : MacroString}
    {rest : List Directive} {policy : Policy} {name : String}
    (htodo : m.todo = ⟨qualifier, .includePolicy target⟩ :: rest)
    (hlt : p'.budget.remaining < p.budget.remaining) :
    (l.note m (.ok (.next (Machine.enter policy name
      (⟨m.policy, m.domain, qualifier, rest⟩ :: m.stack))))).Kept env
      (Machine.enter policy name (⟨m.policy, m.domain, qualifier, rest⟩ :: m.stack)) p' := by
  have hnote : ∀ m', l.note m (.ok (.next m')) = (l.look m).enter m'.policy := by
    intro m'
    simp only [note, htodo, proceed]
  rw [hnote]
  have hturns := h.turns_le
  have hentered := h.entered_le
  refine ⟨(h.look_cons htodo).enter policy name qualifier, ?_, ?_⟩
  · simp only [Machine.weight, htodo, List.length_cons, allowance] at hturns
    simp only [Machine.weight, Machine.pending_cons, Machine.enter, Ledger.enter, look, allowance,
      List.map_append, List.map_cons, List.map_nil, List.sum_append, List.sum_cons, List.sum_nil,
      List.length_append, List.length_cons, List.length_nil]
    omega
  · simp only [Machine.enter, Ledger.enter, look, List.length_append, List.length_cons,
      List.length_nil]
    omega

/-- Following a redirection keeps the ledger. -/
theorem Kept.redirected (h : l.Kept env m p) {target : MacroString} {policy : Policy}
    {name : String} (htodo : m.todo = []) (hredirect : m.policy.redirect? = some target)
    (hlt : p'.budget.remaining < p.budget.remaining) :
    (l.note m (.ok (.next (Machine.enter policy name m.stack)))).Kept env
      (Machine.enter policy name m.stack) p' := by
  have hnote : ∀ m', l.note m (.ok (.next m')) = (l.look m).replace m'.policy := by
    intro m'
    simp only [note, htodo, proceed, hredirect, Option.isSome_some, if_true]
  rw [hnote]
  have hturns := h.turns_le
  have hentered := h.entered_le
  refine ⟨(h.look_nil htodo).replace policy name, ?_, ?_⟩
  · simp only [Machine.weight, htodo, List.length_nil, allowance] at hturns
    simp only [Machine.weight, Machine.enter, Ledger.replace, look, allowance, List.map_append,
      List.map_cons, List.map_nil, List.sum_append, List.sum_cons, List.sum_nil,
      List.length_append, List.length_cons, List.length_nil]
    omega
  · simp only [Machine.enter, Ledger.replace, look, List.length_append, List.length_cons,
      List.length_nil]
    omega

/-- A look at a directive that is no inclusion leaves policies, or none. -/
theorem note_other {qualifier : Qualifier} {mechanism : Mechanism} {rest : List Directive}
    (htodo : m.todo = ⟨qualifier, mechanism⟩ :: rest)
    (hm : ∀ target, mechanism ≠ .includePolicy target) :
    l.note m (.ok (.next m')) = (l.look m).leave (m.stack.length - m'.stack.length) := by
  change (l.look m).proceed m m' m.todo = _
  rw [htodo]
  unfold proceed
  split
  next heq =>
    cases heq
    exact (hm _ rfl).elim
  next => rfl
  next heq => cases heq

/-- A look at the end of a policy without redirection leaves policies. -/
theorem note_ended (htodo : m.todo = []) (hredirect : m.policy.redirect? = none) :
    l.note m (.ok (.next m')) = (l.look m).leave (m.stack.length - m'.stack.length) := by
  simp only [note, htodo, proceed, hredirect, Option.isSome_none, Bool.false_eq_true, if_false]

/-- Passing over a directive keeps the ledger. -/
theorem Kept.skipped (h : l.Kept env m p) {qualifier : Qualifier} {mechanism : Mechanism}
    {rest : List Directive} (htodo : m.todo = ⟨qualifier, mechanism⟩ :: rest)
    (hm : ∀ target, mechanism ≠ .includePolicy target)
    (hle : p'.budget.remaining ≤ p.budget.remaining) :
    (l.note m (.ok (.next { m with todo := rest }))).Kept env { m with todo := rest } p' := by
  have hnote : l.note m (.ok (.next { m with todo := rest })) = l.look m := by
    rw [note_other htodo hm]
    simp [leave]
  rw [hnote]
  have hturns := h.turns_le
  have hentered := h.entered_le
  refine ⟨h.look_cons htodo, ?_, ?_⟩
  · simp only [Machine.weight, htodo, List.length_cons, allowance] at hturns
    simp only [Machine.weight, look, allowance]
    omega
  · simp only [look]
    omega

/-- Leaving policies after a look keeps the ledger. -/
theorem Kept.left (h : l.Kept env m p) {v : Verdict} {todo : List Directive}
    (hlook : (l.look m).Consistent { m with todo := todo })
    (hleave : Machine.leave v m.policy m.domain m.stack = .next m')
    (hle : p'.budget.remaining ≤ p.budget.remaining) :
    ((l.look m).leave (m.stack.length - m'.stack.length)).Kept env m' p' := by
  have hweight := Machine.weight_of_leave hleave
  obtain ⟨popped, f, rest, hstack, rfl⟩ := Machine.leave_eq_next hleave
  have hcount : m.stack.length - rest.length = popped.length + 1 := by
    rw [hstack, List.length_append, List.length_cons]
    omega
  have hturns := h.turns_le
  have hentered := h.entered_le
  rw [hcount]
  refine ⟨hlook.leave hstack, ?_, ?_⟩
  · simp only [Machine.weight, allowance] at hturns hweight
    simp only [Machine.weight, Ledger.leave, look, allowance]
    omega
  · simp only [Ledger.leave, look]
    omega

/-- Each step keeps the ledger. -/
theorem Kept.next (h : l.Kept env m p)
    (hstep : (m.step env request).run p = (.ok (.next m'), p')) :
    (l.note m (.ok (.next m'))).Kept env m' p' := by
  generalize ht : Transition.next m' = t at hstep
  cases Machine.move_of_step hstep with
  | included htodo hdepth hlt =>
    cases ht
    exact h.included htodo hlt
  | redirected htodo hredirect hlt =>
    cases ht
    exact h.redirected htodo hredirect hlt
  | skipped htodo hm hle =>
    cases ht
    exact h.skipped htodo hm hle
  | matched htodo hm hle =>
    rw [← ht, note_other htodo hm]
    exact h.left (h.look_cons htodo) ht.symm hle
  | ended htodo hredirect =>
    rw [← ht, note_ended htodo hredirect]
    exact h.left (h.look_nil htodo) ht.symm (Nat.le_refl _)

/-- A look leaves a sound ledger. -/
theorem Kept.sound_look (h : l.Kept env m p) : (l.look m).Sound := by
  rcases htodo : m.todo with _ | ⟨d, rest⟩
  · exact (h.look_nil htodo).toSound
  · exact (h.look_cons htodo).toSound

/-- A step that fails leaves the ledger settled. -/
theorem Kept.error (h : l.Kept env m p) (e : Abort) : (l.note m (.error e)).Settled env where
  toSound := h.sound_look
  turns_le := by
    have hturns := h.turns_le
    simp only [note, look, allowance] at hturns ⊢
    omega
  entered_le := by
    have hentered := h.entered_le
    simp only [note, look]
    omega

/-- A verdict on the whole leaves the ledger settled. -/
theorem Kept.done (h : l.Kept env m p) (f : Finish) : (l.note m (.ok (.done f))).Settled env where
  toSound := by
    rcases htodo : m.todo with _ | ⟨d, rest⟩
    · exact (h.look_nil htodo).sound_leave (Nat.le_refl _)
    · exact (h.look_cons htodo).sound_leave (Nat.le_refl _)
  turns_le := by
    have hturns := h.turns_le
    simp only [note, look, leave, allowance] at hturns ⊢
    omega
  entered_le := by
    have hentered := h.entered_le
    simp only [note, look, leave]
    omega

/-! ### Whole evaluations -/

/-- The ledger at the start of the first policy. -/
theorem kept_start (policy : Policy) (domain : String)
    (hp : p.budget.remaining ≤ env.settings.maxLookups.toNat) :
    (start policy).Kept env (Machine.enter policy domain []) p where
  nodup := List.nodup_nil
  valid := by simp [start]
  left_le := Nat.le_refl _
  accounts := .cons ⟨rfl, List.suffix_rfl, by simp [start]⟩ .nil
  live_nodup := by simp [start]
  turns_le := by simp [start, Machine.enter, Machine.weight, allowance]
  entered_le := by
    simp only [start, List.length_singleton]
    omega

/-- The ledger is settled when a run from the first policy has ended. -/
theorem settled_run (request : Request) (policy : Policy) (domain : String)
    (hp : p.budget.remaining ≤ env.settings.maxLookups.toNat) :
    ((Machine.observe env request observer policy domain).run (p, start policy)).2.2.Settled env :=
  Machine.observeFrom_invariant (fun m p l => Kept env l m p) (fun _ _ l => Settled env l)
    (fun _ _ _ _ _ h hstep => h.next hstep) (fun _ _ _ f _ h _ => h.done f)
    (fun _ _ _ e _ h _ => h.error e) (kept_start policy domain hp)

/-- The ledger without entries is settled. -/
theorem settled_empty (env : Environment) : empty.Settled env where
  nodup := List.nodup_nil
  valid := by simp [empty]
  left_le := Nat.le_refl _
  turns_le := Nat.le_refl _
  entered_le := Nat.zero_le _

/-- The ledger is settled when the evaluation of a request has ended. -/
theorem settled_request (env : Environment) (request : Request) (t : Traffic) :
    ((observeRequest env request observer).run (.start env t, .empty)).2.2.Settled env := by
  have hrun : ∀ policy p' r s, (Evaluation.ofLookup (lookupPolicy env request.domain)).run
      (.start env t) = (.ok policy, p') →
      (Machine.observe env request observer policy request.domain).run
        (p', start policy) = (r, s) → s.2.Settled env := by
    intro policy p' r s hlookup h
    have hbudget := Evaluation.budget_ofLookup (lookupPolicy env request.domain) (.start env t)
    rw [hlookup] at hbudget
    have hle : p'.budget.remaining ≤ env.settings.maxLookups.toNat := by
      rw [hbudget]
      exact Nat.sub_le _ _
    have hsettled := settled_run request policy request.domain hle
    rwa [h] at hsettled
  apply observeRequest_cases (fun _ _ l => Settled env l)
  · intro _
    exact settled_empty env
  · intro e p' _
    exact settled_empty env
  · intro policy p' e s hlookup h
    exact hrun policy p' _ s hlookup h
  · intro policy p' finish s x q hlookup h _
    exact hrun policy p' _ s hlookup h

end

end Ledger

/-- Every evaluation of a request ends. Steps do not follow one another for ever,
and the ledger that is kept of the evaluation, which it does not change, says how
many there are: one policy is entered at the start and at most one more for each
charge; no directive of an entered policy is looked at twice; and the turns of the
loop are no more than the directives of the entered policies, the policies entered
and the policies left. -/
theorem evaluation_ends (env : Environment) (request : Request) (t : Traffic) :
    let run := (observeRequest env request Ledger.observer).run (.start env t, .empty)
    let ledger := run.2.2
    (WellFounded fun c' c : Machine × Progress =>
        (c.1.step env request).run c.2 = (.ok (.next c'.1), c'.2)) ∧
      Process.forget run = (evaluateRequest env request).run (.start env t) ∧
      ledger.entered.length ≤ env.settings.maxLookups.toNat + 1 ∧
      (ledger.looks.map fun look => (look.entry, look.position)).Nodup ∧
      (∀ look ∈ ledger.looks, ∃ policy, ledger.entered[look.entry]? = some policy ∧
        policy.directives[look.position]? = some look.directive) ∧
      ledger.turns ≤ (ledger.entered.map fun policy => policy.directives.length).sum +
        ledger.entered.length + ledger.left ∧
      ledger.left ≤ ledger.entered.length := by
  intro run ledger
  have h : ledger.Settled env := Ledger.settled_request env request t
  refine ⟨Machine.wellFounded_steps env request, ?_, h.entered_le, h.nodup, h.valid, h.turns_le, ?_⟩
  · exact observes_observeRequest env request Ledger.observer (.start env t, .empty)
  · have := h.left_le
    omega

end SenderPolicy
