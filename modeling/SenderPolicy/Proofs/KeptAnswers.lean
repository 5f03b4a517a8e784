import Mathlib.Data.Finset.Preimage
import SenderPolicy.Proofs.CacheCoherence

/-!
# Answers that are kept

An answer that is given in the course of some lookups is kept to their end, if it holds so long
and the caches have room for more owners than are looked up. For the entries in front of it are
those of other owners that were looked up after it, and each of these stands there once. So no
question is asked again after it has been answered with records.

Main definitions:

- `Caches.Holds`: caches that hold a lasting answer behind given owners only;
- `Fetched`, `AsksOnce`: the questions that were answered with records, and logs in which none of
  them is asked again;
- `Span`: a part of a history in which answers last;
- `KeepsAnswers`: moments of a span up to which all answers with records have been kept.

Main results:

- `Caches.Holds.read`, `Caches.Holds.keep`: what is held is held after other owners are used;
- `KeepsAnswers.lookup`: a lookup that is not interrupted keeps all answers.
-/

namespace SenderPolicy

open Dns
open Process (Moves)

/-! ## Answers in caches -/

/-- The owners of the questions of a kind. -/
noncomputable def owners (touched : Finset Question) (k : Kind) : Finset k.Owner :=
  touched.preimage (Question.mk k) fun _ _ _ _ h => by cases h; rfl

theorem mem_owners {touched : Finset Question} {k : Kind} {owner : k.Owner} :
    owner ∈ owners touched k ↔ ⟨k, owner⟩ ∈ touched :=
  Finset.mem_preimage

/-- There are no more owners than questions. -/
theorem card_owners_le (touched : Finset Question) (k : Kind) :
    (owners touched k).card ≤ touched.card :=
  Finset.card_le_card_of_injOn (Question.mk k) (fun _ h => mem_owners.1 h)
    fun _ _ _ _ h => by cases h; rfl

namespace Caches

variable {c : Caches} {k k' : Kind} {owner : k.Owner} {now : Instant} {size : Nat}
  {answer : Answer k.Datum}

/-- The stores of other kinds stay when one is replaced. -/
theorem store_setStore_of_ne (h : k' ≠ k) (s : Store k.Owner (List k.Datum)) :
    (c.setStore k s).store k' = c.store k' := by
  cases k <;> cases k' <;> first | rfl | exact absurd rfl h

/-- Every kind but one has a store of its own. -/
theorem store_setStore_self {cache : Cache k.Owner (List k.Datum)} (h : c.store k = .cached cache)
    (s : Store k.Owner (List k.Datum)) : (c.setStore k s).store k = s := by
  cases k <;> first | rfl | cases h

/-- Reading a store looks up in its cache. -/
theorem store_read_self {cache : Cache k.Owner (List k.Datum)} (h : c.store k = .cached cache) :
    (c.read k owner now).store k = .cached (cache.get now owner).2 := by
  rw [read, store_setStore_self h, h, Store.get]

/-- Keeping an answer inserts it into the cache. -/
theorem store_keep_self {cache : Cache k.Owner (List k.Datum)} (h : c.store k = .cached cache) :
    (c.keep k owner answer).store k =
      .cached (cache.insert owner answer.records answer.validUntil) := by
  rw [keep, store_setStore_self h, h, Store.insert]

/-- The store of each kind that is cached has room for a number of answers. -/
def HasRoom (c : Caches) (size : Nat) : Prop :=
  ∀ k, k ≠ .spf → ∃ cache, c.store k = .cached cache ∧ size ≤ cache.capacity

/-- Reading a store leaves room as it is. -/
theorem HasRoom.read (h : c.HasRoom size) : (c.read k owner now).HasRoom size := by
  intro k' hk'
  obtain ⟨cache, hstore, hsize⟩ := h k' hk'
  by_cases hk : k' = k
  · subst hk
    exact ⟨_, store_read_self hstore, by rwa [Cache.capacity_get]⟩
  · exact ⟨cache, by rw [Caches.read, store_setStore_of_ne hk, hstore], hsize⟩

/-- So does keeping an answer. -/
theorem HasRoom.keep (h : c.HasRoom size) : (c.keep k owner answer).HasRoom size := by
  intro k' hk'
  obtain ⟨cache, hstore, hsize⟩ := h k' hk'
  by_cases hk : k' = k
  · subst hk
    exact ⟨_, store_keep_self hstore, hsize⟩
  · exact ⟨cache, by rw [Caches.keep, store_setStore_of_ne hk, hstore], hsize⟩

/-- Caches hold an answer to a question that lasts, and only given owners have been used after its
owner. -/
def Holds (lasting : Instant → Prop) (touched : Finset Question) (c : Caches) (q : Question) :
    Prop :=
  ∃ cache e, c.store q.kind = .cached cache ∧ cache.find? q.owner = some e ∧
    lasting e.validUntil ∧ HeldAfter (owners touched q.kind) q.owner cache.keys

variable {lasting : Instant → Prop} {touched : Finset Question} {q : Question}

/-- More owners may have been used. -/
theorem Holds.mono {touched' : Finset Question} (h : c.Holds lasting touched q)
    (hsubset : touched ⊆ touched') : c.Holds lasting touched' q := by
  obtain ⟨cache, e, hstore, hfind, hlasts, hheld⟩ := h
  exact ⟨cache, e, hstore, hfind, hlasts,
    hheld.mono fun _ howner => mem_owners.2 (hsubset (mem_owners.1 howner))⟩

/-- An answer that is held is found. -/
theorem Holds.found (h : c.Holds lasting touched ⟨k, owner⟩) (hnow : ∀ v, lasting v → now ≤ v) :
    ∃ records, ((c.store k).get now owner).1 = some records := by
  obtain ⟨cache, e, hstore, hfind, hlasts, -⟩ := h
  refine ⟨e.value, ?_⟩
  rw [hstore]
  exact Cache.get_eq_some_iff.2 ⟨e, hfind, hnow _ hlasts, rfl⟩

/-- Reading leaves what is held. -/
theorem Holds.read (h : c.Holds lasting touched q) (hnow : ∀ v, lasting v → now ≤ v)
    (howner : k ≠ .spf → ⟨k, owner⟩ ∈ touched) : (c.read k owner now).Holds lasting touched q := by
  obtain ⟨cache, e, hstore, hfind, hlasts, hheld⟩ := h
  obtain ⟨k', owner'⟩ := q
  by_cases hk : k' = k
  · subst hk
    have hkind : k' ≠ .spf := by
      rintro rfl
      cases hstore
    obtain ⟨hfind', hheld'⟩ :=
      Cache.heldAfter_get hheld hfind (hnow _ hlasts) (mem_owners.2 (howner hkind))
    exact ⟨_, e, store_read_self hstore, hfind', hlasts, hheld'⟩
  · exact ⟨cache, e, by rw [Caches.read, store_setStore_of_ne hk, hstore], hfind, hlasts, hheld⟩

/-- Keeping another answer leaves what is held, if there is room for all owners. -/
theorem Holds.keep (h : c.Holds lasting touched q) (hne : q ≠ ⟨k, owner⟩)
    (howner : k ≠ .spf → ⟨k, owner⟩ ∈ touched) (hroom : c.HasRoom size)
    (hcard : touched.card < size) : (c.keep k owner answer).Holds lasting touched q := by
  obtain ⟨cache, e, hstore, hfind, hlasts, hheld⟩ := h
  obtain ⟨k', owner'⟩ := q
  by_cases hk : k' = k
  · subst hk
    have hkind : k' ≠ .spf := by
      rintro rfl
      cases hstore
    obtain ⟨cache', hstore', hsize⟩ := hroom k' hkind
    rw [hstore] at hstore'
    cases hstore'
    have hother : owner ≠ owner' := fun heq => hne (by rw [heq])
    have hcount : (owners touched k').card < cache.capacity :=
      ((card_owners_le touched k').trans_lt hcard).trans_le hsize
    obtain ⟨hfind', hheld'⟩ :=
      Cache.heldAfter_insert hheld hfind hother (mem_owners.2 (howner hkind)) hcount
    exact ⟨_, e, store_keep_self hstore, hfind', hlasts, hheld'⟩
  · exact ⟨cache, e, by rw [Caches.keep, store_setStore_of_ne hk, hstore], hfind, hlasts, hheld⟩

/-- An answer that is kept is held, if it lasts. -/
theorem holds_keep (touched : Finset Question) (hk : k ≠ .spf) (hroom : c.HasRoom size)
    (hsize : 0 < size) (hlasts : lasting answer.validUntil) :
    (c.keep k owner answer).Holds lasting touched ⟨k, owner⟩ := by
  obtain ⟨cache, hstore, hle⟩ := hroom k hk
  have hpos : 0 < cache.capacity := hsize.trans_le hle
  refine ⟨_, _, store_keep_self hstore, Cache.find?_insert_self hpos, hlasts, ?_⟩
  obtain ⟨n, hn⟩ := Nat.exists_eq_succ_of_ne_zero hpos.ne'
  rw [Cache.keys_insert, hn, List.take_succ_cons]
  exact heldAfter_cons _ _ _

end Caches

/-! ## Spans of a history -/

/-- The order of the moments of a history. Questions are only added, and readings, too. -/
def Traffic.Before (t t' : Traffic) : Prop := t.log <:+ t'.log ∧ t.readings ≤ t'.readings

instance : Std.Refl Traffic.Before := ⟨fun _ => ⟨List.suffix_rfl, le_rfl⟩⟩

instance : IsTrans Traffic Traffic.Before := ⟨fun _ _ _ h h' => ⟨h.1.trans h'.1, h.2.trans h'.2⟩⟩

/-- A lookup leads to a later moment. -/
theorem moves_before_lookup (env : Environment) (k : Kind) (owner : k.Owner) :
    Moves id Traffic.Before (lookup env k owner) := by
  intro t
  obtain ⟨_, -, hrun⟩ | ⟨-, _, ⟨_, -, -, hrun⟩ | ⟨_, -, hrun⟩⟩ := lookup_cases env k owner t
  all_goals rw [hrun]
  · exact ⟨List.suffix_rfl, Nat.le_succ _⟩
  · exact ⟨List.suffix_cons _ _, Nat.le_succ _⟩
  · exact ⟨List.suffix_cons _ _, Nat.le_succ _⟩

/-- Something that is valid until an instant is valid at all readings between two moments. -/
def Environment.Lasts (env : Environment) (start last : Traffic) (validUntil : Instant) : Prop :=
  ∀ n, start.readings ≤ n → n < last.readings → env.clock n ≤ validUntil

/-- The answers that are given between two moments are valid at all readings between them. -/
def Environment.AnswersLast (env : Environment) (start last : Traffic) : Prop :=
  ∀ later q earlier answer, last.log = later ++ q :: earlier → start.log <:+ earlier →
    (env.transport earlier q).outcome = .ok answer → env.Lasts start last answer.validUntil

/-- A question that has been asked since a start and answered with records. -/
def Fetched (env : Environment) (start log : List Question) (q : Question) : Prop :=
  ∃ later earlier, log = later ++ q :: earlier ∧ start <:+ earlier ∧ env.fault? earlier q = none

/-- No question, if its answers may be kept, is asked again since a start when it has been answered
with records. -/
def AsksOnce (env : Environment) (start log : List Question) : Prop :=
  ∀ later q earlier, log = later ++ q :: earlier → q.kind ≠ .spf → ¬ Fetched env start earlier q

section

variable {env : Environment} {start log : List Question} {q q' : Question}

/-- A question has been fetched if it is the latest and was answered, or has been fetched
before. -/
theorem fetched_cons_iff : Fetched env start (q' :: log) q ↔
    (q = q' ∧ start <:+ log ∧ env.fault? log q = none) ∨ Fetched env start log q := by
  constructor
  · rintro ⟨_ | ⟨_, later⟩, earlier, hlog, hstart, hfault⟩
    · cases hlog
      exact .inl ⟨rfl, hstart, hfault⟩
    · cases hlog
      exact .inr ⟨later, earlier, rfl, hstart, hfault⟩
  · rintro (⟨rfl, hstart, hfault⟩ | ⟨later, earlier, rfl, hstart, hfault⟩)
    · exact ⟨[], log, rfl, hstart, hfault⟩
    · exact ⟨q' :: later, earlier, rfl, hstart, hfault⟩

/-- What has been fetched stays fetched. -/
theorem Fetched.mono {log' : List Question} (h : Fetched env start log q) (hlog : log <:+ log') :
    Fetched env start log' q := by
  obtain ⟨later, earlier, rfl, hstart, hfault⟩ := h
  obtain ⟨newer, rfl⟩ := hlog
  exact ⟨newer ++ later, earlier, (List.append_assoc _ _ _).symm, hstart, hfault⟩

/-- At the start nothing has been fetched. -/
theorem not_fetched_self : ¬ Fetched env start start q := by
  rintro ⟨later, earlier, hlog, hstart, -⟩
  have hlength := hstart.length_le
  rw [hlog, List.length_append, List.length_cons] at hlength
  omega

theorem asksOnce_self : AsksOnce env start start := by
  rintro later q earlier rfl - ⟨later', earlier', rfl, hstart, -⟩
  have hlength := hstart.length_le
  simp only [List.length_append, List.length_cons] at hlength
  omega

/-- One more question is asked once if it has not been fetched. -/
theorem AsksOnce.cons (h : AsksOnce env start log)
    (hq : q.kind ≠ .spf → ¬ Fetched env start log q) :
    AsksOnce env start (q :: log) := by
  rintro (_ | ⟨_, later⟩) q' earlier hlog
  · cases hlog
    exact hq
  · cases hlog
    exact h later q' earlier rfl

end

/-- A part of a history, from a start to an end, in which answers last. -/
structure Span where
  env : Environment
  start : Traffic
  last : Traffic
  lasting : env.AnswersLast start last

namespace Span

variable {s : Span}

/-- What is valid at all readings of a span. -/
abbrev Lasts (s : Span) : Instant → Prop := s.env.Lasts s.start s.last

/-- What holds at the end of a lookup: a condition, unless it is interrupted. Then nothing that has
been answered was asked again. -/
def Leaves (s : Span) {α : Type} (P : Traffic → Prop) : Except Stop α × Traffic → Prop
  | (.error (.interrupted _), t) => AsksOnce s.env s.start.log t.log
  | (_, t) => P t

/-- What lasts is valid at a moment of the span at which the clock is still to be read. -/
theorem clock_le {t t' : Traffic} (ht : s.start.Before t) (ht' : t'.Before s.last)
    (hread : t'.readings = t.readings + 1) {v : Instant} (hv : s.Lasts v) :
    s.env.clock t.readings ≤ v := by
  have hlast := ht'.2
  rw [hread] at hlast
  exact hv _ ht.2 hlast

end Span

/-! ## Keeping answers -/

/-- A moment of a span up to which no question was asked again, and all answers with records have
been kept. The caches have room for a number of answers, and of the questions only given ones have
been looked up since. -/
structure KeepsAnswers (s : Span) (size : Nat) (touched : Finset Question) (t : Traffic) :
    Prop where
  before : s.start.Before t
  once : AsksOnce s.env s.start.log t.log
  room : t.caches.HasRoom size
  held : ∀ q, q.kind ≠ .spf → Fetched s.env s.start.log t.log q → t.caches.Holds s.Lasts touched q

namespace KeepsAnswers

variable {s : Span} {size : Nat} {touched touched' : Finset Question} {t : Traffic}

theorem mono (h : KeepsAnswers s size touched t) (hsubset : touched ⊆ touched') :
    KeepsAnswers s size touched' t :=
  { h with held := fun q hk hq => (h.held q hk hq).mono hsubset }

/-- At the start no answers have to be kept. -/
theorem start (touched : Finset Question) (h : s.start.caches.HasRoom size) :
    KeepsAnswers s size touched s.start where
  before := Std.Refl.refl _
  once := asksOnce_self
  room := h
  held _ _ hq := absurd hq not_fetched_self

/-- A lookup of one of the given questions keeps all answers, unless it is interrupted. -/
theorem lookup (h : KeepsAnswers s size touched t) (hcard : touched.card < size) {k : Kind}
    {owner : k.Owner} (howner : k ≠ .spf → ⟨k, k.qualify owner⟩ ∈ touched)
    (hlast : ((SenderPolicy.lookup s.env k owner).run t).2.Before s.last) :
    s.Leaves (KeepsAnswers s size touched) ((SenderPolicy.lookup s.env k owner).run t) := by
  have hbefore : Traffic.Before t ((SenderPolicy.lookup s.env k owner).run t).2 :=
    moves_before_lookup s.env k owner t
  replace hbefore := trans_of Traffic.Before h.before hbefore
  obtain ⟨records, -, hrun⟩ | ⟨hmiss, waited, hasked⟩ := lookup_cases s.env k owner t
  · rw [hrun] at hlast hbefore ⊢
    have hnow : ∀ v, s.Lasts v → s.env.clock t.readings ≤ v :=
      fun _ hv => Span.clock_le h.before hlast rfl hv
    exact ⟨hbefore, h.once, h.room.read, fun q hk hq => (h.held q hk hq).read hnow howner⟩
  · have hread : ((SenderPolicy.lookup s.env k owner).run t).2.readings = t.readings + 1 := by
      obtain ⟨_, -, -, hrun⟩ | ⟨_, -, hrun⟩ := hasked <;> rw [hrun]
    have hnow : ∀ v, s.Lasts v → s.env.clock t.readings ≤ v :=
      fun _ hv => Span.clock_le h.before hlast hread hv
    -- an answer that was kept would have been found
    have hnew : k ≠ .spf → ¬ Fetched s.env s.start.log t.log ⟨k, k.qualify owner⟩ := by
      intro hk hq
      obtain ⟨records, hfound⟩ := (h.held _ hk hq).found hnow
      rw [hmiss] at hfound
      cases hfound
    have honce := h.once.cons (q := ⟨k, k.qualify owner⟩) hnew
    obtain ⟨answer, hgiven, hrecords, hrun⟩ | ⟨e, hrefuses, hrun⟩ := hasked
    · rw [hrun] at hlast hbefore ⊢
      refine ⟨hbefore, honce, h.room.read.keep, fun q hk hq => ?_⟩
      obtain ⟨-, houtcome⟩ := Environment.fault?_of_given? hgiven hrecords
      obtain ⟨later, hlog⟩ := hlast.1
      by_cases hne : q = ⟨k, k.qualify owner⟩
      · subst hne
        refine Caches.holds_keep touched hk h.room.read (Nat.zero_lt_of_lt hcard) ?_
        exact s.lasting later _ _ answer hlog.symm h.before.1 houtcome
      · have hfetched := (fetched_cons_iff.1 hq).resolve_left fun hsame => hne hsame.1
        exact ((h.held q hk hfetched).read hnow howner).keep hne howner h.room.read hcard
    · rw [hrun] at hlast hbefore ⊢
      cases e with
      | interrupted i => exact honce
      | fault f =>
        refine ⟨hbefore, honce, h.room.read, fun q hk hq => ?_⟩
        have hfetched := (fetched_cons_iff.1 hq).resolve_left fun ⟨hsame, _, hnone⟩ => by
          rw [hsame, hrefuses.fault f rfl] at hnone
          cases hnone
        exact (h.held q hk hfetched).read hnow howner

end KeepsAnswers

end SenderPolicy
