import Mathlib.Data.Finset.Image
import SenderPolicy.Proofs.KeptAnswers
import SenderPolicy.Proofs.Recursion

/-!
# Questions that are asked once

A verification asks no question again that has been answered with records, if answers last and
the caches have room for thirty-two answers more than there may be charges. For each charge pays
for one question at most, apart from those about the names of the client. These are asked for
again and again, but they are the first ten that are cached at the start, and the first ten of one
answer: when the address of the client has been answered with names, that answer is kept.

Main definitions:

- `Span.Leads`: lookups that lead from one condition of the traffic to another;
- `Intact`, `Fits`: moments at which all answers have been kept, and there is room for more;
- `Costs`, `Pays`: lookups that look up a number of new questions, and processes whose charges
  pay for those that they look up.

Main results:

- `Costs.lookup`, `Costs.confirmedNames`: a lookup costs one question, and the names of the client
  cost none;
- `Pays.step`, `Pays.run`: every step is paid for by its charges, and so is a run;
- `verify_fetches_once`: what a verification has fetched it does not ask for again.
-/

namespace SenderPolicy

open Dns

variable {α β : Type} {s : Span} {client : Address} {request : Request} {size : Nat}

/-! ## Lookups from one condition to another -/

/-- A lookup that leads from one condition of the traffic to another, within a span. -/
def Span.Leads (s : Span) (P Q : Traffic → Prop) (x : Lookup α) : Prop :=
  ∀ t, (t.Before s.last → P t) → (x.run t).2.Before s.last → s.Leaves Q (x.run t)

/-- What follows from a condition of the traffic is left, too. -/
theorem Span.Leaves.imp {P Q : Traffic → Prop} {r : Except Stop α × Traffic} (h : s.Leaves P r)
    (himp : P r.2 → Q r.2) : s.Leaves Q r := by
  rcases r with ⟨(f | i) | a, t⟩
  · exact himp h
  · exact h
  · exact himp h

namespace Span.Leads

variable {P Q R : Traffic → Prop}

theorem pure (a : α) : s.Leads P P (Pure.pure a : Lookup α) := fun _ h => h

theorem fail (f : Fault) : s.Leads P P (Lookup.fail f : Lookup α) := fun _ h => h

/-- What follows a lookup starts where that has led to, and so does what follows a fault. -/
theorem bind {x : Lookup α} {f : α → Lookup β} (hx : s.Leads P Q x) (hf : ∀ a, s.Leads Q R (f a))
    (hfault : ∀ t, Q t → R t) : s.Leads P R (x >>= f) := by
  intro t ht
  have hleaves := hx t ht
  rw [Process.run_bind]
  rcases hrun : x.run t with ⟨(f | i) | a, t'⟩ <;> rw [hrun] at hleaves
  · exact fun hlast => hfault _ (hleaves hlast)
  · exact hleaves
  · exact hf a t' hleaves

/-- A condition may be strengthened before a lookup and weakened after it. -/
theorem imp {P' Q' : Traffic → Prop} {x : Lookup α} (h : s.Leads P Q x) (hP : ∀ t, P' t → P t)
    (hQ : ∀ t, Q t → Q' t) : s.Leads P' Q' x :=
  fun t ht hlast => (h t (fun hbefore => hP t (ht hbefore)) hlast).imp (hQ _)

theorem ite {c : Prop} [Decidable c] {x y : Lookup α} (hx : s.Leads P Q x)
    (hy : s.Leads P Q y) : s.Leads P Q (if c then x else y) := by
  split <;> assumption

theorem attempt {x : Lookup α} (h : s.Leads P Q x) : s.Leads P Q x.attempt := by
  intro t ht
  have hleaves := h t ht
  rw [Lookup.run_attempt]
  rcases hrun : x.run t with ⟨(f | i) | a, t'⟩ <;> rw [hrun] at hleaves <;> exact hleaves

/-- A lookup that leads from a moment of the span on. -/
theorem of_lookup {k : Kind} {owner : k.Owner}
    (h : ∀ t, P t → ((lookup s.env k owner).run t).2.Before s.last →
      s.Leaves Q ((lookup s.env k owner).run t)) : s.Leads P Q (lookup s.env k owner) := by
  intro t ht hlast
  have hbefore : Traffic.Before t _ := moves_before_lookup s.env k owner t
  exact h t (ht (trans_of Traffic.Before hbefore hlast)) hlast

end Span.Leads

/-! ## The names of the client -/

/-- The question by which a name of a client is confirmed. -/
def addressQuestion (client : Address) (name : String) : Question :=
  match client with
  | .v4 _ => ⟨.a, DomainName.qualify name⟩
  | .v6 _ => ⟨.aaaa, DomainName.qualify name⟩

/-- The questions by which the names of a client are confirmed, as far as they are looked at. -/
def addressQuestions (client : Address) (names : List String) : Finset Question :=
  ((names.take maxClientNames).map (addressQuestion client)).toFinset

/-- Each name that is looked at is confirmed by one of the questions. -/
theorem addressQuestion_mem {names : List String} {name : String}
    (h : name ∈ names.take maxClientNames) :
    addressQuestion client name ∈ addressQuestions client names :=
  List.mem_toFinset.2 (List.mem_map_of_mem h)

/-- No more questions confirm names than names are looked at. -/
theorem card_addressQuestions_le (client : Address) (names : List String) :
    (addressQuestions client names).card ≤ maxClientNames := by
  refine (List.toFinset_card_le _).trans ?_
  rw [List.length_map]
  exact List.length_take_le _ _

/-- The names of a client that are cached are confirmed by given questions. -/
def Caches.NamesIn (c : Caches) (client : Address) (touched : Finset Question) : Prop :=
  ∀ cache e, c.store .ptr = .cached cache → cache.find? client = some e →
    addressQuestions client e.value ⊆ touched

namespace Caches

variable {c : Caches} {touched touched' : Finset Question} {k : Kind} {owner : k.Owner}

/-- More questions confirm the same names. -/
theorem NamesIn.mono (h : c.NamesIn client touched) (hsubset : touched ⊆ touched') :
    c.NamesIn client touched' :=
  fun cache e hstore hfind => (h cache e hstore hfind).trans hsubset

/-- Reading adds no names. -/
theorem NamesIn.read (h : c.NamesIn client touched) {now : Instant} :
    (c.read k owner now).NamesIn client touched := by
  intro cache e hstore hfind
  by_cases hk : Kind.ptr = k
  · subst hk
    cases hptr : c.store .ptr with
    | disabled =>
      rw [Caches.read, hptr] at hstore
      cases hstore
    | cached cache' =>
      rw [store_read_self hptr] at hstore
      cases hstore
      exact h _ e hptr (Cache.find?_of_find?_get hfind)
  · rw [Caches.read, store_setStore_of_ne hk] at hstore
    exact h cache e hstore hfind

/-- Keeping an answer of another kind leaves the cached names as they are. -/
theorem NamesIn.keep (h : c.NamesIn client touched) (hk : k ≠ .ptr) {answer : Answer k.Datum} :
    (c.keep k owner answer).NamesIn client touched := by
  intro cache e hstore hfind
  rw [Caches.keep, store_setStore_of_ne hk.symm] at hstore
  exact h cache e hstore hfind

/-- When the names of a client are kept, they are those that were given. -/
theorem namesIn_keep {answer : Answer String} (hroom : c.HasRoom size) (hsize : 0 < size)
    (hnames : addressQuestions client answer.records ⊆ touched) :
    (c.keep .ptr client answer).NamesIn client touched := by
  intro cache e hstore hfind
  obtain ⟨cache', hstore', hle⟩ := hroom .ptr Kind.noConfusion
  rw [store_keep_self hstore'] at hstore
  cases hstore
  rw [Cache.find?_insert_self (hsize.trans_le hle)] at hfind
  cases hfind
  exact hnames

end Caches

/-- What a lookup finds is in its cache afterwards. -/
theorem exists_find?_of_lookup {env : Environment} {k : Kind} {owner : k.Owner} {t t' : Traffic}
    {records : List k.Datum} (hroom : t.caches.HasRoom size) (hsize : 0 < size) (hk : k ≠ .spf)
    (h : (lookup env k owner).run t = (.ok records, t')) :
    ∃ cache e, t'.caches.store k = .cached cache ∧ cache.find? (k.qualify owner) = some e ∧
      e.value = records := by
  obtain ⟨_, hfound, hrun⟩ | ⟨-, _, ⟨answer, -, -, hrun⟩ | ⟨_, -, hrun⟩⟩ :=
    lookup_cases env k owner t
  all_goals
    rw [hrun] at h
    cases h
  · obtain ⟨cache, hstore, -⟩ := hroom k hk
    rw [hstore] at hfound
    obtain ⟨e, hfind, hnow, hvalue⟩ := Cache.get_eq_some_iff.1 hfound
    exact ⟨_, e, Caches.store_read_self hstore, Cache.find?_get_of_le hfind hnow, hvalue⟩
  · obtain ⟨cache, hstore, hle⟩ := hroom.read k hk
    exact ⟨_, _, Caches.store_keep_self hstore, Cache.find?_insert_self (hsize.trans_le hle), rfl⟩

/-! ## Room for answers -/

/-- A moment of a span at which all answers are kept, and the caches have room for a number of
answers besides those to given questions. Among these are the question for the names of the client
and those about its names. If the names have not been fetched, there is room for new ones. -/
structure Intact (s : Span) (client : Address) (size : Nat) (touched : Finset Question) (n : Nat)
    (t : Traffic) : Prop extends KeepsAnswers s size touched t where
  reverse : ⟨.ptr, client⟩ ∈ touched
  names : t.caches.NamesIn client touched
  room_le : touched.card + n < size
  room_le_of_not_fetched : ¬ Fetched s.env s.start.log t.log ⟨.ptr, client⟩ →
    touched.card + n + maxClientNames < size

namespace Intact

variable {touched : Finset Question} {n : Nat} {t : Traffic}

theorem mono {n' : Nat} (h : Intact s client size touched n' t) (hle : n ≤ n') :
    Intact s client size touched n t :=
  { h with
    room_le := by have := h.room_le; omega
    room_le_of_not_fetched := fun hnot => by have := h.room_le_of_not_fetched hnot; omega }

/-- There is room for one question less when one more is looked up. -/
theorem touch (h : Intact s client size touched (n + 1) t) (q : Question) :
    Intact s client size (insert q touched) n t := by
  have hsubset : touched ⊆ insert q touched := Finset.subset_insert q touched
  have hcard : (insert q touched).card ≤ touched.card + 1 := Finset.card_insert_le q touched
  exact {
    toKeepsAnswers := h.toKeepsAnswers.mono hsubset
    reverse := hsubset h.reverse
    names := h.names.mono hsubset
    room_le := by have := h.room_le; omega
    room_le_of_not_fetched := fun hnot => by have := h.room_le_of_not_fetched hnot; omega }

/-- If all answers are kept, and no names are new, there is as much room. -/
theorem of_keeps {t' : Traffic} (h : Intact s client size touched n t) (hlog : t.log <:+ t'.log)
    (hkeeps : KeepsAnswers s size touched t') (hnames : t'.caches.NamesIn client touched) :
    Intact s client size touched n t' where
  toKeepsAnswers := hkeeps
  reverse := h.reverse
  names := hnames
  room_le := h.room_le
  room_le_of_not_fetched hnot :=
    h.room_le_of_not_fetched fun hfetched => hnot (hfetched.mono hlog)

/-- A lookup of one of the given questions leaves all answers, and as much room. -/
theorem lookup (h : Intact s client size touched n t) {k : Kind} {owner : k.Owner}
    (hk : k ≠ .ptr) (howner : k ≠ .spf → ⟨k, k.qualify owner⟩ ∈ touched)
    (hlast : ((SenderPolicy.lookup s.env k owner).run t).2.Before s.last) :
    s.Leaves (Intact s client size touched n) ((SenderPolicy.lookup s.env k owner).run t) := by
  have hcard : touched.card < size := (Nat.le_add_right _ n).trans_lt h.room_le
  have hlog : t.log <:+ ((SenderPolicy.lookup s.env k owner).run t).2.log :=
    (moves_before_lookup s.env k owner t).1
  have hnames : ((SenderPolicy.lookup s.env k owner).run t).2.caches.NamesIn client touched := by
    obtain ⟨_, -, hrun⟩ | ⟨-, _, ⟨_, -, -, hrun⟩ | ⟨_, -, hrun⟩⟩ := lookup_cases s.env k owner t
    all_goals rw [hrun]
    · exact h.names.read
    · exact h.names.read.keep hk
    · exact h.names.read
  exact (h.toKeepsAnswers.lookup hcard howner hlast).imp fun hkeeps =>
    h.of_keeps hlog hkeeps hnames

/-- If the names of the client have just been given, there is as much room besides the questions
about these names. -/
theorem of_given (h : Intact s client size touched n t) {names : List String} {t' : Traffic}
    (hlog : t'.log = ⟨.ptr, client⟩ :: t.log) (hkeeps : KeepsAnswers s size touched t')
    (hnone : s.env.fault? t.log ⟨.ptr, client⟩ = none)
    (hnames : t'.caches.NamesIn client (touched ∪ addressQuestions client names)) :
    Intact s client size (touched ∪ addressQuestions client names) n t' := by
  -- The names are given for the first time, so the room that is set aside for them is there.
  have hroom := h.room_le_of_not_fetched (hkeeps.once [] _ _ hlog Kind.noConfusion)
  have hnew := card_addressQuestions_le client names
  have hunion := Finset.card_union_le touched (addressQuestions client names)
  have hfetched : Fetched s.env s.start.log t'.log ⟨.ptr, client⟩ := by
    rw [hlog]
    exact fetched_cons_iff.2 (.inl ⟨rfl, h.before.1, hnone⟩)
  exact {
    toKeepsAnswers := hkeeps.mono Finset.subset_union_left
    reverse := Finset.mem_union_left _ h.reverse
    names := hnames
    room_le := by omega
    room_le_of_not_fetched := absurd hfetched }

/-- A lookup of the names of the client leaves all answers, and as much room: names are given only
once. -/
theorem lookup_ptr (h : Intact s client size touched n t)
    (hlast : ((SenderPolicy.lookup s.env .ptr client).run t).2.Before s.last) :
    s.Leaves (fun t' => ∃ touched', Intact s client size touched' n t')
      ((SenderPolicy.lookup s.env .ptr client).run t) := by
  have hcard : touched.card < size := (Nat.le_add_right _ n).trans_lt h.room_le
  have hlog : t.log <:+ ((SenderPolicy.lookup s.env .ptr client).run t).2.log :=
    (moves_before_lookup s.env .ptr client t).1
  have hkeeps := h.toKeepsAnswers.lookup (k := .ptr) hcard (fun _ => h.reverse) hlast
  refine hkeeps.imp fun hkeeps => ?_
  obtain ⟨_, -, hrun⟩ | ⟨-, _, ⟨answer, hgiven, hrecords, hrun⟩ | ⟨_, -, hrun⟩⟩ :=
    lookup_cases s.env .ptr client t
  all_goals
    rw [hrun] at hkeeps hlog
    rw [hrun]
  · exact ⟨touched, h.of_keeps hlog hkeeps h.names.read⟩
  · obtain ⟨hnone, -⟩ := Environment.fault?_of_given? hgiven hrecords
    refine ⟨touched ∪ addressQuestions client answer.records, h.of_given rfl hkeeps hnone ?_⟩
    exact Caches.namesIn_keep h.room.read (Nat.zero_lt_of_lt hcard) Finset.subset_union_right
  · exact ⟨touched, h.of_keeps hlog hkeeps h.names.read⟩

end Intact

/-- All answers are kept, and there is room for a number of them besides those to some questions. -/
def Fits (s : Span) (client : Address) (size n : Nat) (t : Traffic) : Prop :=
  ∃ touched, Intact s client size touched n t

theorem Fits.mono {n n' : Nat} {t : Traffic} (h : Fits s client size n' t) (hle : n ≤ n') :
    Fits s client size n t := by
  obtain ⟨touched, h⟩ := h
  exact ⟨touched, h.mono hle⟩

/-- Where all answers fit, none has been fetched again. -/
theorem Fits.once {n : Nat} {t : Traffic} (h : Fits s client size n t) :
    AsksOnce s.env s.start.log t.log := by
  obtain ⟨touched, h⟩ := h
  exact h.once

/-- There is room at the start for all but the names of the client that are cached, and ten more. -/
theorem fits_start {n : Nat} (client : Address) (hroom : s.start.caches.HasRoom size)
    (hsize : n + 21 < size) : Fits s client size n s.start := by
  obtain ⟨cache, hstore, -⟩ := hroom .ptr Kind.noConfusion
  let names : List String := (cache.find? client).elim [] (·.value)
  let touched : Finset Question := insert ⟨.ptr, client⟩ (addressQuestions client names)
  have hcard : touched.card ≤ maxClientNames + 1 :=
    (Finset.card_insert_le _ _).trans (Nat.succ_le_succ (card_addressQuestions_le client names))
  have hten : maxClientNames = 10 := rfl
  refine ⟨touched, .start touched hroom, Finset.mem_insert_self _ _, ?_, by omega,
    fun _ => by omega⟩
  intro cache' e hstore' hfind
  rw [hstore] at hstore'
  cases hstore'
  have hnames : names = e.value := by simp only [names, hfind, Option.elim_some]
  exact hnames ▸ Finset.subset_insert _ _

/-! ## What lookups cost -/

/-- A lookup that takes the room of a number of answers at most. -/
def Costs (s : Span) (client : Address) (size m : Nat) (x : Lookup α) : Prop :=
  ∀ n, s.Leads (Fits s client size (n + m)) (Fits s client size n) x

namespace Costs

variable {m n : Nat}

theorem pure (a : α) : Costs s client size n (Pure.pure a : Lookup α) :=
  fun n' => (Span.Leads.pure a).imp (fun _ hfits => hfits.mono (Nat.le_add_right n' n)) fun _ => id

theorem fail (f : Fault) : Costs s client size n (Lookup.fail f : Lookup α) :=
  fun n' => (Span.Leads.fail f).imp (fun _ hfits => hfits.mono (Nat.le_add_right n' n)) fun _ => id

/-- What follows a lookup may take the room that is left. -/
theorem bind {x : Lookup α} {f : α → Lookup β} (hmn : m ≤ n) (hx : Costs s client size m x)
    (hf : ∀ a, Costs s client size (n - m) (f a)) : Costs s client size n (x >>= f) := by
  intro n'
  have hleads := hx (n' + (n - m))
  rw [Nat.add_assoc, Nat.sub_add_cancel hmn] at hleads
  exact hleads.bind (fun a => hf a n') fun _ hfits => hfits.mono (Nat.le_add_right _ _)

theorem ite {c : Prop} [Decidable c] {x y : Lookup α} (hx : Costs s client size n x)
    (hy : Costs s client size n y) : Costs s client size n (if c then x else y) := by
  split <;> assumption

theorem attempt {x : Lookup α} (h : Costs s client size n x) : Costs s client size n x.attempt :=
  fun n' => (h n').attempt

theorem ofExcept (r : Except Fault α) : Costs s client size n (Lookup.ofExcept r) := by
  cases r with
  | ok a => exact pure a
  | error f => exact fail f

/-- A lookup takes the room of one answer. -/
theorem lookup {k : Kind} (hk : k ≠ .ptr) (owner : k.Owner) :
    Costs s client size 1 (lookup s.env k owner) := by
  refine fun n => .of_lookup fun t ⟨touched, h⟩ hlast => ?_
  have hleaves := (h.touch ⟨k, k.qualify owner⟩).lookup hk
    (fun _ => Finset.mem_insert_self _ _) hlast
  exact hleaves.imp fun h => ⟨_, h⟩

/-- Answers of type 99 are not kept, and take no room. -/
theorem lookup_spf (name : String) :
    Costs s client size 0 (SenderPolicy.lookup s.env .spf name) := by
  refine fun n => .of_lookup fun t ⟨touched, h⟩ hlast => ?_
  exact (h.lookup Kind.noConfusion (absurd rfl) hlast).imp fun h => ⟨touched, h⟩

/-- The addresses of a name are one answer. -/
theorem resolvesNear (client' : Address) (mask4 : BitVec 32) (mask6 : BitVec 128)
    (name : String) : Costs s client size 1 (resolvesNear s.env client' mask4 mask6 name) := by
  cases client' with
  | v4 a => exact bind le_rfl (lookup (k := .a) Kind.noConfusion name) fun _ => pure _
  | v6 a => exact bind le_rfl (lookup (k := .aaaa) Kind.noConfusion name) fun _ => pure _

/-! ### The names of the client -/

/-- All answers are kept, there is room for a number of them, and it does not take more to confirm
some names of the client. -/
def FitsNames (s : Span) (client : Address) (size : Nat) (names : List String) (n : Nat)
    (t : Traffic) : Prop :=
  ∃ touched, Intact s client size touched n t ∧ addressQuestions client names ⊆ touched

section

variable {names : List String} {name : String}

/-- Confirming one of the names leaves as much room. -/
theorem leads_lookup_address (hname : name ∈ names.take maxClientNames) {k : Kind} (hk : k ≠ .ptr)
    {owner : k.Owner} (hq : addressQuestion client name = ⟨k, k.qualify owner⟩) :
    s.Leads (FitsNames s client size names n) (FitsNames s client size names n)
      (SenderPolicy.lookup s.env k owner) := by
  refine .of_lookup fun t ⟨touched, h, hnames⟩ hlast => ?_
  have hmem := hnames (addressQuestion_mem hname)
  exact (h.lookup hk (fun _ => hq ▸ hmem) hlast).imp fun h => ⟨touched, h, hnames⟩

/-- To confirm one of the names of the client takes no room besides that for all of them. -/
theorem leads_resolvesNear (hname : name ∈ names.take maxClientNames) (mask4 : BitVec 32)
    (mask6 : BitVec 128) :
    s.Leads (FitsNames s client size names n) (FitsNames s client size names n)
      (SenderPolicy.resolvesNear s.env client mask4 mask6 name) := by
  cases client with
  | v4 a =>
    have hlookup : s.Leads (FitsNames s (.v4 a) size names n) (FitsNames s (.v4 a) size names n)
        (SenderPolicy.lookup s.env .a name) := leads_lookup_address hname Kind.noConfusion rfl
    exact hlookup.bind (fun _ => .pure _) fun _ => id
  | v6 a =>
    have hlookup : s.Leads (FitsNames s (.v6 a) size names n) (FitsNames s (.v6 a) size names n)
        (SenderPolicy.lookup s.env .aaaa name) := leads_lookup_address hname Kind.noConfusion rfl
    exact hlookup.bind (fun _ => .pure _) fun _ => id

/-- Confirming some of the names leaves as much room. -/
theorem leads_confirmNames {rest : List String} (hrest : rest ⊆ names.take maxClientNames) :
    s.Leads (FitsNames s client size names n) (FitsNames s client size names n)
      (confirmNames s.env client rest) := by
  induction rest with
  | nil => exact .pure []
  | cons name rest ih =>
    obtain ⟨hname, hrest⟩ := List.cons_subset.1 hrest
    have hlater := ih hrest
    unfold confirmNames
    apply (leads_resolvesNear hname _ _).attempt.bind _ fun _ => id
    intro r
    cases r with
    | error f => exact hlater.ite (.fail f)
    | ok near =>
      cases near with
      | true => exact hlater.bind (fun _ => .pure _) fun _ => id
      | false => exact hlater

end

/-- When the names of the client have been found, it takes no more to confirm them. -/
theorem fitsNames_of_lookup {touched : Finset Question} {t t' : Traffic} {names : List String}
    (h : Intact s client size touched n t) (hlast : t'.Before s.last)
    (hrun : (SenderPolicy.lookup s.env .ptr client).run t = (.ok names, t')) :
    FitsNames s client size names n t' := by
  have hsize : 0 < size := Nat.zero_lt_of_lt h.room_le
  obtain ⟨cache, e, hstore, hfind, rfl⟩ := exists_find?_of_lookup h.room hsize Kind.noConfusion hrun
  have hleaves : s.Leaves _ _ := h.lookup_ptr (by rwa [hrun])
  rw [hrun] at hleaves
  obtain ⟨touched', h'⟩ := hleaves
  exact ⟨touched', h', h'.names cache e hstore hfind⟩

/-- The confirmed names of the client cost nothing. -/
theorem confirmedNames : Costs s client size 0 (confirmedNames s.env client) := by
  intro n t ht
  unfold SenderPolicy.confirmedNames
  rw [Process.run_bind]
  have hbefore : Traffic.Before t ((SenderPolicy.lookup s.env .ptr client).run t).2 :=
    moves_before_lookup s.env .ptr client t
  rcases hrun : (SenderPolicy.lookup s.env .ptr client).run t with ⟨e | names, t'⟩ <;>
    rw [hrun] at hbefore
  · intro hlast
    obtain ⟨touched, h⟩ := ht (trans_of Traffic.Before hbefore hlast)
    have hleaves : s.Leaves _ _ := h.lookup_ptr (by rwa [hrun])
    rw [hrun] at hleaves
    cases e <;> exact hleaves
  · -- Confirming the names looks up none but questions for which there is room already.
    have hconfirm : s.Leads (FitsNames s client size names n)
        (Fits s client size n) (confirmNames s.env client (names.take maxClientNames)) :=
      (leads_confirmNames (List.Subset.refl _)).imp (fun _ => id) fun _ ⟨touched, h, _⟩ =>
        ⟨touched, h⟩
    refine hconfirm t' fun hlast => ?_
    obtain ⟨touched, h⟩ := ht (trans_of Traffic.Before hbefore hlast)
    exact fitsNames_of_lookup h hlast hrun

/-- The name of the client takes no room besides that for its names. -/
theorem validatedName (domain : String) :
    Costs s client size 0 (validatedName s.env client domain) := by
  apply bind le_rfl confirmedNames.attempt
  intro r
  cases r <;> exact pure _

/-! ### Other lookups -/

/-- Nor do the properties for a macro string. -/
theorem bindingsFor (domain : String) (m : MacroString) :
    Costs s request.client size 0 (bindingsFor s.env request domain m) :=
  ite (bind le_rfl (validatedName _) fun _ => pure _) (pure _)

/-- Nor does the name that a domain-spec stands for. -/
theorem targetName (domain : String) (m : MacroString) :
    Costs s request.client size 0 (targetName s.env request domain m) :=
  bind le_rfl (bindingsFor domain m) fun _ => pure _

theorem targetNameOr (domain : String) (m : Option MacroString) :
    Costs s request.client size 0 (targetNameOr s.env request domain m) := by
  cases m with
  | none => exact pure domain
  | some m => exact targetName domain m

/-- Handling an answer without records takes no more room. -/
theorem lookupAll {k : Kind} {owner : k.Owner}
    (h : Costs s client size n (SenderPolicy.lookup s.env k owner)) :
    Costs s client size n (lookupAll s.env k owner) := by
  apply bind le_rfl h.attempt
  intro r
  cases r with
  | ok records => exact pure records
  | error f => exact (pure []).ite (fail f)

/-- The policy of a domain takes the room of one answer. -/
theorem lookupPolicy (domain : String) : Costs s client size 1 (lookupPolicy s.env domain) := by
  unfold SenderPolicy.lookupPolicy
  apply bind le_rfl (lookupAll (lookup (k := .txt) Kind.noConfusion domain))
  intro records
  split
  · exact (bind le_rfl (lookupAll (lookup_spf domain)) fun _ => ofExcept _).ite (fail _)
  · exact ofExcept _

theorem hasAddress (name : String) : Costs s client size 1 (hasAddress s.env name) := by
  apply bind le_rfl (lookup (k := .a) Kind.noConfusion name).attempt
  intro r
  cases r with
  | ok records => exact pure true
  | error f => exact (pure false).ite (fail f)

/-- An explanation is one answer. -/
theorem lookupExplanation (name : String) :
    Costs s client size 1 (lookupExplanation s.env name) := by
  apply bind le_rfl (lookup (k := .txt) Kind.noConfusion name)
  intro records
  split
  · split
    · exact pure _
    · exact fail _
  · exact fail _

/-- The explanation of a failure takes the room of one answer. -/
theorem explain (domain : String) (target : MacroString) :
    Costs s request.client size 1 (explain s.env request domain target) := by
  have hexpand : Costs s request.client size 1 (expandExplanation s.env request domain target) := by
    refine bind (Nat.zero_le 1) (targetName domain target) fun name => ite ?_ (pure none)
    apply bind le_rfl (lookupExplanation name)
    intro text
    exact bind le_rfl (bindingsFor domain text) fun _ => pure _
  apply bind le_rfl hexpand.attempt
  intro r
  cases r <;> exact pure _

theorem explainFinish (finish : Finish) :
    Costs s request.client size 1 (explainFinish s.env request finish) := by
  unfold SenderPolicy.explainFinish
  split
  · exact explain _ _
  · exact pure none

end Costs

/-! ## Evaluations -/

/-- What holds at the end of a part of an evaluation: there is room for the charges that are left,
and some answers more. If it ends early, nothing that has been answered was asked again. -/
def Paid (s : Span) (client : Address) (size b : Nat) : Except Abort α × Progress → Prop
  | (.ok _, p) => Fits s client size (p.budget.remaining + b) p.traffic
  | (.error _, p) => AsksOnce s.env s.start.log p.traffic.log

/-- Where everything is paid for, no answer has been fetched again. -/
theorem Paid.once {b : Nat} {r : Except Abort α × Progress} (h : Paid s client size b r) :
    AsksOnce s.env s.start.log r.2.traffic.log := by
  rcases r with ⟨e | a, p⟩
  · exact h
  · exact Fits.once h

/-- A part of an evaluation whose charges pay for what it looks up. The room for some answers more
becomes that for others. -/
def Pays (s : Span) (client : Address) (size a b : Nat) (x : Evaluation α) : Prop :=
  ∀ p, (p.traffic.Before s.last → Fits s client size (p.budget.remaining + a) p.traffic) →
    (x.run p).2.traffic.Before s.last → Paid s client size b (x.run p)

namespace Pays

variable {a b c : Nat}

theorem pure (v : α) (hab : b ≤ a) : Pays s client size a b (Pure.pure v : Evaluation α) :=
  fun _ h hlast => (h hlast).mono (Nat.add_le_add_left hab _)

/-- To stop pays for everything. -/
theorem stop (e : Abort) : Pays s client size a b (Process.stop e : Evaluation α) :=
  fun _ h hlast => (h hlast).once

theorem fail (f : Fault) : Pays s client size a b (Evaluation.fail f : Evaluation α) := stop _

/-- Parts of an evaluation pay one after the other. -/
theorem bind {x : Evaluation α} {f : α → Evaluation β} (hx : Pays s client size a c x)
    (hf : ∀ v, Pays s client size c b (f v)) : Pays s client size a b (x >>= f) := by
  intro p hp
  have hpays := hx p hp
  rw [Process.run_bind]
  rcases hrun : x.run p with ⟨e | v, p'⟩ <;> rw [hrun] at hpays
  · exact hpays
  · exact hf v p' hpays

theorem ite {d : Prop} [Decidable d] {x y : Evaluation α} (hx : Pays s client size a b x)
    (hy : Pays s client size a b y) : Pays s client size a b (if d then x else y) := by
  split <;> assumption

/-- A lookup takes the room that it costs. -/
theorem ofLookup {n : Nat} {x : Lookup α} (h : Costs s client size n x) (hn : b + n ≤ a) :
    Pays s client size a b (Evaluation.ofLookup x) := by
  intro p hp
  have hleaves := h (p.budget.remaining + b) p.traffic fun hbefore => (hp hbefore).mono (by omega)
  rw [Evaluation.run_ofLookup]
  rcases hrun : x.run p.traffic with ⟨(f | i) | v, t⟩ <;> rw [hrun] at hleaves
  · exact fun hlast => Fits.once (hleaves hlast)
  · exact hleaves
  · exact hleaves

/-- A charge pays for one answer. -/
theorem charge : Pays s client size a (a + 1) charge := by
  intro p hp
  rw [run_charge]
  cases hc : p.budget.charge with
  | error f => exact fun hlast => (hp hlast).once
  | ok budget =>
    have hremaining := Budget.remaining_charge hc
    exact fun hlast => (hp hlast).mono (by dsimp only; omega)

theorem chargeVoid : Pays s client size a a chargeVoid := by
  intro p hp
  rw [run_chargeVoid]
  by_cases hover : p.budget.addVoid.isOverVoid
  · rw [if_pos hover]
    exact fun hlast => (hp hlast).once
  · rw [if_neg hover]
    exact hp

/-- Room for some answers more pays for a lookup that takes as much. -/
theorem orVoid {n : Nat} {x : Lookup α} (fallback : α) (h : Costs s client size n x)
    (hn : b + n ≤ a) : Pays s client size a b (orVoid x fallback) := by
  apply bind (ofLookup h.attempt hn)
  intro r
  cases r with
  | ok v => exact pure v le_rfl
  | error f => exact ite (bind chargeVoid fun _ => pure fallback le_rfl) (fail f)

/-- Room for one answer pays for the address of a name. -/
theorem matchesExistence (name : String) :
    Pays s client size (a + 1) a (matchesExistence s.env name) := by
  refine bind (ofLookup (Costs.hasAddress name) le_rfl) fun r => ite (pure _ le_rfl) ?_
  exact bind chargeVoid fun _ => pure _ le_rfl

/-- The charge for each exchanger pays for its addresses. -/
theorem matchesExchange (client' : Address) (mask4 : BitVec 32) (mask6 : BitVec 128)
    (l : List MailExchange) :
    Pays s client size a a (matchesExchange s.env client' mask4 mask6 l) := by
  induction l with
  | nil => exact pure false le_rfl
  | cons x rest ih =>
    unfold SenderPolicy.matchesExchange
    refine ite ih (bind charge fun _ => ?_)
    apply bind (ofLookup (Costs.resolvesNear client' mask4 mask6 x.exchange).attempt le_rfl)
    intro r
    cases r with
    | error f => exact ite ih (fail f)
    | ok near =>
      cases near with
      | true => exact pure true le_rfl
      | false => exact ih

/-- The charge of a mechanism pays for what it looks up. -/
theorem test (m : Mechanism) (name : String) :
    Pays s request.client size a a (m.test s.env request name) := by
  cases m with
  | all => exact pure _ le_rfl
  | includePolicy target => exact pure _ le_rfl
  | ip4 net mask => exact pure _ le_rfl
  | ip6 net mask => exact pure _ le_rfl
  | a target mask4 mask6 =>
    refine bind charge fun _ => ite ?_ (pure false (Nat.le_succ a))
    exact orVoid false (Costs.resolvesNear _ _ _ name) le_rfl
  | mx target mask4 mask6 =>
    refine bind charge fun _ => ite ?_ (pure false (Nat.le_succ a))
    apply bind (orVoid [] (Costs.lookup (k := .mx) Kind.noConfusion name) le_rfl)
    exact fun l => matchesExchange _ _ _ l
  | ptr target =>
    refine bind charge fun _ => ?_
    exact bind (orVoid [] Costs.confirmedNames (Nat.le_succ a)) fun l => pure _ le_rfl
  | existsName target =>
    exact bind charge fun _ => ite (matchesExistence name) (pure false (Nat.le_succ a))

/-- The target of a mechanism costs nothing. -/
theorem mechanism (m : Mechanism) (domain : String) :
    Pays s request.client size a a (m.matches s.env request domain) :=
  bind (ofLookup (Costs.targetNameOr domain _) le_rfl) fun name => test m name

/-- Room for one answer pays for a policy. -/
theorem fetchPolicy (name : String) : Pays s client size (a + 1) a (fetchPolicy s.env name) := by
  refine ite (bind (ofLookup (Costs.lookupPolicy name).attempt le_rfl) fun r => ?_) (stop _)
  cases r with
  | ok policy => exact pure policy le_rfl
  | error f => exact ite (stop _) (fail f)

/-- The policy at a target takes the room of one answer. -/
theorem target {m : MacroString} {domain : String} {f : String → Policy → Transition} :
    Pays s request.client size (a + 1) a (do
      let name ← Evaluation.ofLookup (targetName s.env request domain m)
      let policy ← SenderPolicy.fetchPolicy s.env name
      return f name policy) :=
  bind (ofLookup (Costs.targetName domain m) le_rfl) fun name =>
    bind (fetchPolicy name) fun _ => pure _ le_rfl

/-- Every step is paid for by its charges. -/
theorem step (m : Machine) : Pays s request.client size a a (m.step s.env request) := by
  unfold Machine.step
  split
  · split
    · exact bind charge fun _ => target
    · exact pure _ le_rfl
  · exact bind charge fun _ => ite (fail _) target
  · exact bind (mechanism _ _) fun _ => ite (pure _ le_rfl) (pure _ le_rfl)

/-- A run is paid for by the charges of its steps. -/
theorem run (m : Machine) (p : Progress)
    (hp : p.traffic.Before s.last →
      Fits s request.client size (p.budget.remaining + a) p.traffic)
    (hlast : (m.runFrom s.env request p).2.traffic.Before s.last) :
    Paid s request.client size a (m.runFrom s.env request p) := by
  induction m, p using Machine.run_induction s.env request with
  | step m p ih =>
    rw [Machine.runFrom_eq_bind, Process.run_bind] at hlast ⊢
    have hstep : Pays s request.client size a a (m.step s.env request) := step m
    replace hstep := hstep p hp
    rcases hrun : (m.step s.env request).run p with ⟨e | t, p'⟩ <;> rw [hrun] at hstep hlast
    · exact hstep hlast
    · cases t with
      | done finish => exact hstep hlast
      | next m' => exact ih m' p' hrun hstep hlast

/-- An evaluation pays for itself. -/
theorem evaluate (policy : Policy) (domain : String) :
    Pays s request.client size a a (Machine.evaluate s.env request policy domain) :=
  fun p => run (Machine.enter policy domain []) p

/-- The evaluation of a request takes the room of two answers more than there are charges: for the
policy of the domain, and for the explanation. -/
theorem evaluateRequest : Pays s request.client size 2 0 (evaluateRequest s.env request) := by
  refine ite ?_ (pure _ (Nat.zero_le 2))
  apply bind (ofLookup (Costs.lookupPolicy _) (le_refl (1 + 1)))
  intro policy
  apply bind (evaluate policy _)
  intro finish
  exact bind (ofLookup (Costs.explainFinish finish) le_rfl) fun _ => pure _ le_rfl

end Pays

/-! ## Verifications -/

/-- No question is asked again in a verification when it has been answered with records, if the
answers that are given in the course of it last to its end, and the caches have room for thirty-two
answers more than there may be charges, whatever they hold at the start. Questions of type 99 are
left out. -/
theorem verify_fetches_once (env : Environment) (request : Request) (t : Traffic)
    (hroom : t.caches.HasRoom (env.settings.maxLookups.toNat + 32))
    (hlast : env.AnswersLast t ((verify env request).run t).2) :
    t.log <:+ ((verify env request).run t).2.log ∧
      AsksOnce env t.log ((verify env request).run t).2.log := by
  let s : Span := ⟨env.timed, { t with waited := 0 }, ((verify env request).run t).2, hlast⟩
  let size : Nat := env.settings.maxLookups.toNat + 32
  have hbefore : Traffic.Before t ((verify env request).run t).2 := by
    rw [traffic_verify]
    exact Process.Moves.evaluateRequest_of_lookup (moves_before_lookup env.timed) request
      (.start env.timed { t with waited := 0 })
  have hstart : Fits s request.client size ((Progress.start s.env s.start).budget.remaining + 2)
      s.start := fits_start request.client hroom (by
    have hremaining : (Progress.start s.env s.start).budget.remaining =
      env.settings.maxLookups.toNat := Nat.sub_zero _
    omega)
  have hpaid : Paid s request.client size 0
      ((evaluateRequest s.env request).run (.start s.env s.start)) := by
    refine Pays.evaluateRequest _ (fun _ => hstart) ?_
    have hend : s.last = (progressAtEnd env request t).traffic := traffic_verify env request t
    rw [hend]
    exact Std.Refl.refl (progressAtEnd env request t).traffic
  refine ⟨hbefore.1, ?_⟩
  rw [traffic_verify]
  exact hpaid.once

/-- Answers of a zone hold for its lifetimes. -/
theorem validUntil_of_reply {z : Zone} {now : Instant} {q : Question} {answer : Answer q.kind.Datum}
    (h : (z.reply now q).outcome = .ok answer) :
    answer.validUntil = now + z.lifetimes q.subject := by
  have of_map {r : Except Fault (List q.kind.Datum)}
      (hr : r.map (Answer.mk · (now + z.lifetimes q.subject)) = .ok answer) :
      answer.validUntil = now + z.lifetimes q.subject := by
    cases r with
    | error f => cases hr
    | ok records =>
      cases hr
      rfl
  unfold Zone.reply at h
  dsimp only at h
  split at h
  · exact of_map h
  · exact of_map h

/-- As no time passes in a session, all answers last in it. -/
theorem answersLast_environment {session : Session}
    (h : ∀ subject, 0 ≤ session.zone.lifetimes subject) (t t' : Traffic) :
    session.environment.AnswersLast t t' := by
  intro later q earlier answer _ _ houtcome n _ _
  change Session.now ≤ answer.validUntil
  rw [validUntil_of_reply houtcome]
  exact Int.le_add_of_nonneg_right (h q.subject)

/-- A zone with a policy that looks for the names of the client twice. -/
def repeatingZone : Zone :=
  Zone.empty.applyAll
    [.text "example.com" [Octets.ofAscii "v=spf1 ptr exists:%{p}.example.com -all".toList],
      .pointer (.v4 ⟨0xC0000201⟩) "mx.example.net",
      .address "mx.example.net" (.v4 ⟨0xC0000201⟩)]

/-- The names of the client are asked for once, and so is the address of the one that there is. -/
theorem verify_fetches_once_repeating :
    let env := Session.environment ⟨repeatingZone, .standard, .disabled⟩
    let client : Address := .v4 ⟨0xC0000201⟩
    let request : Request := .forHelo client "example.com"
    let t := Traffic.start (.ofCapacity 42)
    let last := ((verify env request).run t).2
    t.caches.HasRoom (env.settings.maxLookups.toNat + 32) ∧ env.AnswersLast t last ∧
      AsksOnce env t.log last.log ∧
      last.questions = [⟨.txt, "example.com."⟩, ⟨.ptr, client⟩, ⟨.a, "mx.example.net."⟩,
        ⟨.a, "mx.example.net.example.com."⟩] := by
  intro env client request t last
  have hroom : t.caches.HasRoom (env.settings.maxLookups.toNat + 32) := by
    intro k hk
    cases k <;> first | exact ⟨_, rfl, le_rfl⟩ | exact absurd rfl hk
  have hlifetimes : ∀ subject, (0 : Int) ≤ repeatingZone.lifetimes subject :=
    fun _ => Int.natCast_nonneg 300
  have hlast : env.AnswersLast t last := answersLast_environment hlifetimes t last
  have hquestions : last.questions = [⟨.txt, "example.com."⟩, ⟨.ptr, client⟩,
      ⟨.a, "mx.example.net."⟩, ⟨.a, "mx.example.net.example.com."⟩] := by
    have hend : last = (progressAtEnd env request t).traffic := traffic_verify env request t
    rw [hend, progressAtEnd, Recursive.evaluateRequest_eq_requestBy]
    decide +kernel
  exact ⟨hroom, hlast, (verify_fetches_once env request t hroom hlast).2, hquestions⟩

end SenderPolicy
