import Mathlib.Data.Finset.Card
import SenderPolicy.Cache

/-!
# The order of use

The entries of a cache stand in order of use, and an insertion that finds no room gives up the
last. So a key is given up only after as many others as the cache can hold have been used since
it was used itself: the keys in front of it are different, and each has been used since.

Keys are used by insertions, and by lookups that find a value. A lookup that finds an entry which
holds no longer removes it and uses nothing.

Main definitions:

- `HeldAfter`: a key in order of use, behind given keys only;
- `Cache.Access`, `Cache.after`: the operations on a cache, and the cache after a history of them;
- `Cache.usedSince`, `Cache.lastInserted?`: what a history says of a key;
- `Cache.Laws`: the laws of a cache that gives up the least recently used key.

Main results:

- `HeldAfter.use`, `HeldAfter.take`: what one use and one loss at the end do to the order;
- `Cache.retained_after`: what is kept after a history;
- `Cache.laws_after`: the laws hold after every history.
-/

namespace SenderPolicy

/-! ## Keys in order of use -/

section Order

variable {κ : Type} {used : Finset κ} {key k : κ} {keys : List κ}

/-- Among keys in order of use, the latest first, a key stands behind keys of a given set only,
and behind each at most once. -/
def HeldAfter (used : Finset κ) (key : κ) (keys : List κ) : Prop :=
  ∃ newer older, keys = newer ++ key :: older ∧ key ∉ newer ∧ newer.Nodup ∧ ∀ k ∈ newer, k ∈ used

/-- The latest used key stands behind none. -/
theorem heldAfter_cons (used : Finset κ) (key : κ) (older : List κ) :
    HeldAfter used key (key :: older) :=
  ⟨[], older, rfl, List.not_mem_nil, List.nodup_nil, by simp⟩

namespace HeldAfter

/-- More keys may have been used. -/
theorem mono {used' : Finset κ} (h : HeldAfter used key keys) (hused : used ⊆ used') :
    HeldAfter used' key keys := by
  obtain ⟨newer, older, hkeys, hkey, hnodup, hnewer⟩ := h
  exact ⟨newer, older, hkeys, hkey, hnodup, fun k hk => hused (hnewer k hk)⟩

/-- A key that is not lost at the end is held as before. -/
theorem take (h : HeldAfter used key keys) {size : Nat} (hmem : key ∈ keys.take size) :
    HeldAfter used key (keys.take size) := by
  obtain ⟨newer, older, rfl, hkey, hnodup, hnewer⟩ := h
  rcases Nat.lt_or_ge newer.length size with hlt | hge
  · obtain ⟨rest, rfl⟩ : ∃ rest, size = newer.length + (rest + 1) :=
      ⟨size - newer.length - 1, by omega⟩
    rw [List.take_length_add_append, List.take_succ_cons]
    exact ⟨newer, _, rfl, hkey, hnodup, hnewer⟩
  · rw [List.take_append_of_le_length hge] at hmem
    exact absurd (List.mem_of_mem_take hmem) hkey

/-- Before the last key stand all the others. -/
theorem mem_of_last (h : HeldAfter used key keys) (hnodup : keys.Nodup)
    (hlast : keys.getLast? = some key) (hk : k ∈ keys) (hne : k ≠ key) : k ∈ used := by
  obtain ⟨newer, older, rfl, -, -, hnewer⟩ := h
  have hnone : older = [] := by
    rcases List.eq_nil_or_concat older with hnil | ⟨between, last, rfl⟩
    · exact hnil
    · have hend : last = key := by
        simpa [List.getLast?_append, List.getLast?_cons] using hlast
      rw [hend] at hnodup
      exact absurd (List.nodup_append.1 hnodup).2.1 (by simp)
  rw [hnone, List.mem_append, List.mem_singleton] at hk
  exact hnewer k (hk.resolve_right hne)

variable [DecidableEq κ]

/-- A key is held after another is removed. -/
theorem filter (h : HeldAfter used key keys) (hne : k ≠ key) :
    HeldAfter used key (keys.filter (· ≠ k)) := by
  obtain ⟨newer, older, rfl, hkey, hnodup, hnewer⟩ := h
  refine ⟨newer.filter (· ≠ k), older.filter (· ≠ k), ?_, ?_, hnodup.filter _, ?_⟩
  · rw [List.filter_append, List.filter_cons_of_pos (by simpa using hne.symm)]
  · exact fun hmem => hkey (List.mem_filter.1 hmem).1
  · exact fun k' hk' => hnewer k' (List.mem_filter.1 hk').1

/-- A key is held after another is used, and that one stands before it. -/
theorem use (h : HeldAfter used key keys) (hne : k ≠ key) :
    HeldAfter (insert k used) key (k :: keys.filter (· ≠ k)) := by
  obtain ⟨newer, older, hkeys, hkey, hnodup, hnewer⟩ := h.filter hne
  have hfresh : k ∉ newer := by
    intro hk
    have hmem : k ∈ keys.filter (· ≠ k) := by
      rw [hkeys]
      exact List.mem_append_left _ hk
    simp at hmem
  refine ⟨k :: newer, older, by rw [hkeys, List.cons_append], ?_, ?_, ?_⟩
  · exact List.not_mem_cons_of_ne_of_not_mem hne.symm hkey
  · exact List.nodup_cons.2 ⟨hfresh, hnodup⟩
  · exact List.forall_mem_cons.2 ⟨Finset.mem_insert_self k used,
      fun k' hk' => Finset.mem_insert_of_mem (hnewer k' hk')⟩

/-- A key is lost at the end only if there are as many keys before it as are left. -/
theorem le_card_of_not_mem_take (h : HeldAfter used key keys) {size : Nat}
    (hlost : key ∉ keys.take size) : size ≤ used.card := by
  obtain ⟨newer, older, rfl, hkey, hnodup, hnewer⟩ := h
  have hle : size ≤ newer.length := by
    by_contra hlt
    obtain ⟨rest, rfl⟩ : ∃ rest, size = newer.length + (rest + 1) :=
      ⟨size - newer.length - 1, by omega⟩
    rw [List.take_length_add_append, List.take_succ_cons] at hlost
    exact hlost (by simp)
  calc size ≤ newer.length := hle
    _ = newer.toFinset.card := (List.toFinset_card_of_nodup hnodup).symm
    _ ≤ used.card := Finset.card_le_card fun k hk => hnewer k (List.mem_toFinset.1 hk)

end HeldAfter

end Order

/-! ## Single operations -/

namespace Cache

variable {κ ν : Type} [DecidableEq κ] {c : Cache κ ν} {now validUntil : Instant} {key k : κ}
  {value : ν} {e : Entry κ ν}

theorem mem_keys_of_find? (h : c.find? key = some e) : key ∈ c.keys :=
  List.mem_map.2 ⟨e, List.mem_of_find?_eq_some h, key_of_find? h⟩

/-- No entry is found under a key that is not there. -/
theorem find?_eq_none_iff : c.find? key = none ↔ key ∉ c.keys := by
  simp [find?, keys, List.find?_eq_none]

/-- The other entries stand under the other keys. -/
theorem map_key_others (key : κ) (c : Cache κ ν) :
    (c.others key).map (·.key) = c.keys.filter (· ≠ key) := by
  simp [keys, others, List.filter_map, Function.comp_def]

/-- A value is found if it stands under the key and holds. -/
theorem get_eq_some_iff :
    (c.get now key).1 = some value ↔
      ∃ e, c.find? key = some e ∧ now ≤ e.validUntil ∧ e.value = value := by
  obtain ⟨hfind, hget⟩ | ⟨e, hfind, hnow, hget, -⟩ | ⟨e, hfind, hnow, hget, -⟩ :=
    get_cases now key c
  · simp [hget, hfind]
  · simp [hget, hfind, hnow]
  · simp [hget, hfind, hnow]

/-- A lookup does not change the capacity. -/
@[simp] theorem capacity_get (now : Instant) (key : κ) (c : Cache κ ν) :
    (c.get now key).2.capacity = c.capacity := by
  unfold get RecencyMap.get
  cases c.map.find? key with
  | none => rfl
  | some e =>
    dsimp only
    split <;> rfl

/-- Nor does an insertion. -/
@[simp] theorem capacity_insert (key : κ) (value : ν) (validUntil : Instant) (c : Cache κ ν) :
    (c.insert key value validUntil).capacity = c.capacity := rfl

/-- A key under which a value is found becomes the latest used. -/
theorem keys_get_of_some (h : (c.get now key).1 = some value) :
    (c.get now key).2.keys = key :: c.keys.filter (· ≠ key) := by
  obtain ⟨-, hget⟩ | ⟨e, hfind, -, -, hget⟩ | ⟨e, -, -, hget, -⟩ := get_cases now key c
  · rw [hget] at h
    cases h
  · rw [keys, hget, List.map_cons, map_key_others, key_of_find? hfind]
  · rw [hget] at h
    cases h

/-- A key under which no value is found is not there any more. -/
theorem keys_get_of_none (h : (c.get now key).1 = none) :
    (c.get now key).2.keys = c.keys.filter (· ≠ key) := by
  obtain ⟨hfind, hget⟩ | ⟨e, -, -, hget, -⟩ | ⟨e, -, -, -, hget⟩ := get_cases now key c
  · rw [hget, List.filter_eq_self.2]
    intro k hk
    have hne : k ≠ key := fun heq => find?_eq_none_iff.1 hfind (heq ▸ hk)
    simpa using hne
  · rw [hget] at h
    cases h
  · rw [keys, hget, map_key_others]

/-- The entries under other keys are found as before. -/
theorem find?_others (hne : k ≠ key) : (c.others k).find? (·.key = key) = c.find? key := by
  unfold others find?
  rw [List.find?_filter]
  congr 1
  funext e
  by_cases hkey : e.key = key <;> simp [hkey, hne.symm]

/-- A lookup leaves the entries under other keys. -/
theorem find?_get_of_ne (hne : k ≠ key) : (c.get now k).2.find? key = c.find? key := by
  obtain ⟨-, hget⟩ | ⟨e, hfind, -, -, hget⟩ | ⟨e, -, -, -, hget⟩ := get_cases now k c
  · rw [hget]
  · have hkey : ¬ e.key = key := key_of_find? hfind ▸ hne
    rw [find?, hget, List.find?_cons_of_neg (by simpa using hkey), find?_others hne]
  · rw [find?, hget, find?_others hne]

/-- An entry that holds is still there when it has been looked up. -/
theorem find?_get_of_le (h : c.find? key = some e) (hnow : now ≤ e.validUntil) :
    (c.get now key).2.find? key = some e := by
  obtain ⟨hfind, -⟩ | ⟨e', hfind, -, -, hget⟩ | ⟨e', hfind, hnot, -⟩ := get_cases now key c
  · rw [h] at hfind
    cases hfind
  · rw [h] at hfind
    cases hfind
    rw [find?, hget, List.find?_cons_of_pos (by simpa using key_of_find? h)]
  · rw [h] at hfind
    cases hfind
    exact absurd hnow hnot

/-- A lookup changes no entry. -/
theorem find?_of_find?_get (h : (c.get now k).2.find? key = some e) : c.find? key = some e := by
  by_cases hk : k = key
  · subst hk
    cases hget : (c.get now k).1 with
    | none =>
      have hmem := mem_keys_of_find? h
      rw [keys_get_of_none hget] at hmem
      simp at hmem
    | some value =>
      obtain ⟨e', hfind, hnow, -⟩ := get_eq_some_iff.1 hget
      rw [find?_get_of_le hfind hnow] at h
      rw [hfind, h]
  · rwa [find?_get_of_ne hk] at h

/-- What is inserted is found if it is kept at all. -/
theorem find?_insert_self (hcapacity : 0 < c.capacity) :
    (c.insert key value validUntil).find? key = some ⟨key, value, validUntil⟩ := by
  obtain ⟨n, hn⟩ := Nat.exists_eq_succ_of_ne_zero hcapacity.ne'
  rw [find?, entries_insert, hn, List.take_succ_cons, List.find?_cons_of_pos (by simp)]

/-- An insertion replaces no entry under another key. -/
theorem find?_of_find?_insert (hne : k ≠ key)
    (h : (c.insert k value validUntil).find? key = some e) : c.find? key = some e := by
  have hprefix := List.take_prefix c.capacity (⟨k, value, validUntil⟩ :: c.others k)
  rw [find?, entries_insert] at h
  have hfind := List.IsPrefix.find?_eq_some hprefix h
  rwa [List.find?_cons_of_neg (by simpa using hne), find?_others hne] at hfind

/-- A key that another insertion leaves is found with the entry that it had. -/
theorem find?_insert_of_mem (hne : k ≠ key) (h : c.find? key = some e)
    (hmem : key ∈ (c.insert k value validUntil).keys) :
    (c.insert k value validUntil).find? key = some e := by
  cases hfind : (c.insert k value validUntil).find? key with
  | none => exact absurd hmem (find?_eq_none_iff.1 hfind)
  | some e' => rw [← h, find?_of_find?_insert hne hfind]

/-- An insertion leaves no key twice. -/
theorem nodup_keys_insert (h : c.keys.Nodup) : (c.insert key value validUntil).keys.Nodup := by
  rw [keys_insert]
  have hall : (key :: c.keys.filter (· ≠ key)).Nodup :=
    List.nodup_cons.2 ⟨by simp, h.filter _⟩
  exact hall.sublist (List.take_sublist _ _)

/-- Nor does a lookup. -/
theorem nodup_keys_get (h : c.keys.Nodup) : (c.get now key).2.keys.Nodup := by
  cases hget : (c.get now key).1 with
  | none =>
    rw [keys_get_of_none hget]
    exact h.filter _
  | some value =>
    rw [keys_get_of_some hget]
    exact List.nodup_cons.2 ⟨by simp, h.filter _⟩

/-- A lookup that finds an entry which holds no longer removes it, and no other. -/
theorem mem_entries_get_of_expired (hnodup : c.keys.Nodup) (hfind : c.find? key = some e)
    (hnow : ¬ now ≤ e.validUntil) {e' : Entry κ ν} :
    e' ∈ (c.get now key).2.entries ↔ e' ∈ c.entries ∧ e' ≠ e := by
  have hget : (c.get now key).2.entries = c.others key := by
    obtain ⟨hnone, -⟩ | ⟨e', hsome, hholds, -⟩ | ⟨e', -, -, -, hget⟩ := get_cases now key c
    · rw [hfind] at hnone
      cases hnone
    · rw [hfind] at hsome
      cases hsome
      exact absurd hholds hnow
    · exact hget
  have hkey : e' ∈ c.entries → (e'.key = key ↔ e' = e) := fun hmem =>
    ⟨fun hkey => List.inj_on_of_nodup_map hnodup hmem (List.mem_of_find?_eq_some hfind)
      (hkey.trans (key_of_find? hfind).symm), fun heq => heq ▸ key_of_find? hfind⟩
  rw [hget, others, List.mem_filter, decide_eq_true_eq]
  exact and_congr_right fun hmem => not_congr (hkey hmem)

/-- Every other lookup leaves the keys as they are. -/
theorem mem_keys_get_of_holding (h : ∀ e, c.find? key = some e → now ≤ e.validUntil) :
    k ∈ (c.get now key).2.keys ↔ k ∈ c.keys := by
  cases hfind : c.find? key with
  | none =>
    obtain ⟨-, hget⟩ | ⟨e, hsome, -⟩ | ⟨e, hsome, -⟩ := get_cases now key c
    · rw [hget]
    all_goals
      rw [hfind] at hsome
      cases hsome
  | some e =>
    have hkey := mem_keys_of_find? hfind
    rw [keys_get_of_some (get_eq_some_iff.2 ⟨e, hfind, h e hfind, rfl⟩)]
    by_cases hk : k = key
    · simp [hk, hkey]
    · simp [hk]

/-- An insertion gives up no other key but the last, and only to make room for a new one. -/
theorem getLast?_of_removed (hsize : c.size ≤ c.capacity) (hk : k ∈ c.keys) (hne : k ≠ key)
    (hremoved : k ∉ (c.insert key value validUntil).keys) :
    c.size = c.capacity ∧ key ∉ c.keys ∧ c.keys.getLast? = some k := by
  have hlength : c.keys.length = c.size := by simp [keys, size]
  rw [keys_insert] at hremoved
  have hkept : k ∈ key :: c.keys.filter (· ≠ key) := by simp [hk, hne]
  have hlong : c.capacity < (key :: c.keys.filter (· ≠ key)).length := by
    by_contra hshort
    rw [List.take_of_length_le (by omega)] at hremoved
    exact hremoved hkept
  have hfilter : (c.keys.filter (· ≠ key)).length ≤ c.keys.length := List.length_filter_le _ _
  rw [List.length_cons] at hlong
  have hall : c.keys.filter (· ≠ key) = c.keys :=
    List.filter_sublist.eq_of_length (by omega)
  have hkey : key ∉ c.keys := by
    intro hmem
    rw [← hall] at hmem
    simp at hmem
  refine ⟨by omega, hkey, ?_⟩
  obtain hnil | ⟨newer, last, hkeys⟩ := List.eq_nil_or_concat c.keys
  · rw [hnil] at hk
    cases hk
  · rw [List.concat_eq_append] at hkeys
    have hcapacity : c.capacity = newer.length + 1 := by
      have hcount := congrArg List.length hkeys
      rw [List.length_append, List.length_singleton] at hcount
      omega
    rw [hall, hkeys, hcapacity, List.take_succ_cons, List.take_left, List.mem_cons, not_or]
      at hremoved
    rw [hkeys, List.mem_append, List.mem_singleton] at hk
    rw [hkeys, List.getLast?_concat, hk.resolve_left hremoved.2]

/-- An entry that holds is kept among used keys when one of them is looked up. -/
theorem heldAfter_get {used : Finset κ} (hheld : HeldAfter used key c.keys)
    (hfind : c.find? key = some e) (hnow : now ≤ e.validUntil) (hk : k ∈ used) :
    (c.get now k).2.find? key = some e ∧ HeldAfter used key (c.get now k).2.keys := by
  by_cases hne : k = key
  · subst hne
    refine ⟨find?_get_of_le hfind hnow, ?_⟩
    rw [keys_get_of_some (get_eq_some_iff.2 ⟨e, hfind, hnow, rfl⟩)]
    exact heldAfter_cons _ _ _
  · refine ⟨by rw [find?_get_of_ne hne, hfind], ?_⟩
    cases hget : (c.get now k).1 with
    | none =>
      rw [keys_get_of_none hget]
      exact hheld.filter hne
    | some value =>
      have hused := hheld.use hne
      rw [Finset.insert_eq_of_mem hk] at hused
      rwa [keys_get_of_some hget]

/-- An entry is kept among used keys when another of them is inserted, if there is room for all. -/
theorem heldAfter_insert {used : Finset κ} (hheld : HeldAfter used key c.keys)
    (hfind : c.find? key = some e) (hne : k ≠ key) (hk : k ∈ used)
    (hroom : used.card < c.capacity) :
    (c.insert k value validUntil).find? key = some e ∧
      HeldAfter used key (c.insert k value validUntil).keys := by
  have hused := hheld.use hne
  rw [Finset.insert_eq_of_mem hk] at hused
  have hmem : key ∈ (c.insert k value validUntil).keys := by
    by_contra hlost
    rw [keys_insert] at hlost
    exact absurd (hused.le_card_of_not_mem_take hlost) (by omega)
  refine ⟨find?_insert_of_mem hne hfind hmem, ?_⟩
  rw [keys_insert] at hmem ⊢
  exact hused.take hmem

/-! ## Histories -/

/-- An operation on a cache. -/
inductive Access (κ ν : Type) where
  | insert (key : κ) (value : ν) (validUntil : Instant)
  | get (now : Instant) (key : κ)

namespace Access

/-- The cache after an operation. -/
def apply : Access κ ν → Cache κ ν → Cache κ ν
  | .insert key value validUntil, c => c.insert key value validUntil
  | .get now key, c => (c.get now key).2

/-- The key that an operation on a cache uses: one that is inserted, or whose value is found. -/
def used? : Access κ ν → Cache κ ν → Option κ
  | .insert key _ _, _ => some key
  | .get now key, c => if (c.get now key).1.isSome then some key else none

/-- The instant at which an operation reads the clock. -/
def instant? : Access κ ν → Option Instant
  | .insert _ _ _ => none
  | .get now _ => some now

end Access

/-- The cache after a history of operations, the latest first, from an empty cache on. -/
def after (capacity : Nat) : List (Access κ ν) → Cache κ ν
  | [] => empty capacity
  | a :: earlier => a.apply (after capacity earlier)

/-- The other keys that have been used since a key was used last. -/
def usedSince (capacity : Nat) (key : κ) : List (Access κ ν) → Finset κ
  | [] => ∅
  | a :: earlier =>
    match a.used? (after capacity earlier) with
    | none => usedSince capacity key earlier
    | some k => if k = key then ∅ else Insert.insert k (usedSince capacity key earlier)

/-- What was inserted last under a key, and how long it holds. -/
def lastInserted? (key : κ) : List (Access κ ν) → Option (ν × Instant)
  | [] => none
  | .insert k value validUntil :: earlier =>
    if k = key then some (value, validUntil) else lastInserted? key earlier
  | .get _ _ :: earlier => lastInserted? key earlier

/-- The instants at which the clock was read, the latest first. -/
def instants (history : List (Access κ ν)) : List Instant := history.filterMap Access.instant?

/-- The clock never goes back in a history. -/
def Timely (history : List (Access κ ν)) : Prop := (instants history).Pairwise (· ≥ ·)

section History

variable (capacity : Nat) (history : List (Access κ ν))

@[simp] theorem capacity_after : (after capacity history : Cache κ ν).capacity = capacity := by
  induction history with
  | nil => rfl
  | cons a earlier ih => cases a <;> simp [after, Access.apply, ih]

/-- No history exceeds the capacity. -/
theorem size_after_le : (after capacity history : Cache κ ν).size ≤ capacity := by
  induction history with
  | nil => exact Nat.zero_le _
  | cons a earlier ih =>
    cases a with
    | insert key value validUntil =>
      have hsize := size_insert_le key value validUntil (after capacity earlier)
      rwa [capacity_after] at hsize
    | get now key => exact (size_get_le now key _).trans ih

theorem size_after_le_capacity :
    (after capacity history : Cache κ ν).size ≤ (after capacity history : Cache κ ν).capacity := by
  rw [capacity_after]
  exact size_after_le capacity history

/-- No history puts a key in twice. -/
theorem nodup_keys_after : (after capacity history : Cache κ ν).keys.Nodup := by
  induction history with
  | nil => exact List.nodup_nil
  | cons a earlier ih =>
    cases a with
    | insert key value validUntil => exact nodup_keys_insert ih
    | get now key => exact nodup_keys_get ih

/-- An entry is what was inserted last under its key. -/
theorem lastInserted?_of_find? {key : κ} {e : Entry κ ν}
    (h : (after capacity history).find? key = some e) :
    lastInserted? key history = some (e.value, e.validUntil) := by
  induction history with
  | nil => cases h
  | cons a earlier ih =>
    cases a with
    | insert k value validUntil =>
      by_cases hk : k = key
      · subst hk
        rw [lastInserted?, if_pos rfl]
        rcases Nat.eq_zero_or_pos capacity with rfl | hpos
        · simp [after, Access.apply, entries_insert, find?] at h
        · rw [after, Access.apply, find?_insert_self (by simpa using hpos)] at h
          cases h
          rfl
      · rw [lastInserted?, if_neg hk]
        exact ih (find?_of_find?_insert hk h)
    | get now k =>
      rw [lastInserted?]
      exact ih (find?_of_find?_get h)

/-- Only keys that have been used since stand before a key. -/
theorem heldAfter_usedSince {key : κ} (h : key ∈ (after capacity history : Cache κ ν).keys) :
    HeldAfter (usedSince capacity key history) key (after capacity history).keys := by
  induction history with
  | nil => cases h
  | cons a earlier ih =>
    cases a with
    | insert k value validUntil =>
      rw [after, Access.apply, keys_insert] at h ⊢
      by_cases hk : k = key
      · subst hk
        exact (heldAfter_cons _ k _).take h
      · have hearlier : key ∈ (after capacity earlier).keys :=
          (List.mem_filter.1 (List.mem_of_ne_of_mem (Ne.symm hk) (List.mem_of_mem_take h))).1
        have hused := (ih hearlier).use hk
        rw [usedSince, Access.used?]
        simpa only [if_neg hk] using hused.take h
    | get now k =>
      rw [after, Access.apply] at h ⊢
      cases hget : ((after capacity earlier).get now k).1 with
      | none =>
        rw [keys_get_of_none hget] at h ⊢
        obtain ⟨hearlier, hne⟩ := List.mem_filter.1 h
        have hk : key ≠ k := by simpa using hne
        simpa [usedSince, Access.used?, hget] using (ih hearlier).filter hk.symm
      | some value =>
        rw [keys_get_of_some hget] at h ⊢
        by_cases hk : k = key
        · subst hk
          exact heldAfter_cons _ k _
        · have hearlier : key ∈ (after capacity earlier).keys :=
            (List.mem_filter.1 (List.mem_of_ne_of_mem (Ne.symm hk) h)).1
          simpa [usedSince, Access.used?, hget, hk] using (ih hearlier).use hk

/-- What was inserted last under a key is kept while it holds, until as many other keys have been
used as there is room for. -/
theorem retained_after {key : κ} {value : ν} {validUntil : Instant}
    (hlast : lastInserted? key history = some (value, validUntil))
    (hholds : ∀ now ∈ instants history, now ≤ validUntil)
    (hroom : (usedSince capacity key history).card < capacity) :
    (after capacity history).find? key = some ⟨key, value, validUntil⟩ := by
  induction history with
  | nil => cases hlast
  | cons a earlier ih =>
    cases a with
    | insert k v u =>
      by_cases hk : k = key
      · subst hk
        rw [lastInserted?, if_pos rfl] at hlast
        cases hlast
        exact find?_insert_self (by rw [capacity_after]; omega)
      · rw [lastInserted?, if_neg hk] at hlast
        simp only [usedSince, Access.used?, if_neg hk] at hroom
        have hsubset := Finset.subset_insert k (usedSince capacity key earlier)
        have hfind := ih hlast hholds ((Finset.card_le_card hsubset).trans_lt hroom)
        have hheld := (heldAfter_usedSince capacity earlier (mem_keys_of_find? hfind)).mono hsubset
        exact (heldAfter_insert hheld hfind hk (Finset.mem_insert_self _ _)
          (by rwa [capacity_after])).1
    | get now k =>
      rw [lastInserted?] at hlast
      have hnow : now ≤ validUntil := hholds now List.mem_cons_self
      have hbefore : ∀ now ∈ instants earlier, now ≤ validUntil :=
        fun now' hmem => hholds now' (List.mem_cons_of_mem _ hmem)
      -- Only a lookup that finds the key itself makes room; then it has been found.
      have hfind : (after capacity earlier).find? key = some ⟨key, value, validUntil⟩ := by
        cases hget : ((after capacity earlier).get now k).1 with
        | none => exact ih hlast hbefore (by simpa [usedSince, Access.used?, hget] using hroom)
        | some v =>
          by_cases hk : k = key
          · subst hk
            obtain ⟨e, hfind, -⟩ := get_eq_some_iff.1 hget
            have hentry := lastInserted?_of_find? capacity earlier hfind
            rw [hlast] at hentry
            cases hentry
            rw [hfind, ← key_of_find? hfind]
          · simp only [usedSince, Access.used?, hget, Option.isSome_some, if_true,
              if_neg hk] at hroom
            exact ih hlast hbefore ((Finset.card_le_card (Finset.subset_insert _ _)).trans_lt hroom)
      rw [after, Access.apply]
      by_cases hk : k = key
      · exact hk ▸ find?_get_of_le (hk ▸ hfind) hnow
      · rw [find?_get_of_ne hk, hfind]

/-- The laws of a cache after a history of operations. -/
structure Laws : Prop where
  /-- There are never more entries than there is room for. -/
  size_le : (after capacity history : Cache κ ν).size ≤ capacity
  /-- What is found was inserted last under its key, and holds. -/
  sound : ∀ now key value, ((after capacity history : Cache κ ν).get now key).1 = some value →
    ∃ validUntil, lastInserted? key history = some (value, validUntil) ∧ now ≤ validUntil
  /-- What was inserted last under a key is found while it holds and fewer other keys have been
  used since than there is room for, as long as the clock does not go back. -/
  retained : ∀ now key value validUntil, Timely (.get now key :: history) →
    lastInserted? key history = some (value, validUntil) → now ≤ validUntil →
      (usedSince capacity key history).card < capacity →
        ((after capacity history : Cache κ ν).get now key).1 = some value
  /-- A lookup that finds an entry which holds no longer removes it, and no other. -/
  expired : ∀ now key e, (after capacity history : Cache κ ν).find? key = some e →
    ¬ now ≤ e.validUntil → ∀ e', e' ∈ ((after capacity history).get now key).2.entries ↔
      e' ∈ (after capacity history).entries ∧ e' ≠ e
  /-- Every other lookup leaves the keys as they are. -/
  unchanged : ∀ now key, (∀ e, (after capacity history : Cache κ ν).find? key = some e →
    now ≤ e.validUntil) → ∀ k, k ∈ ((after capacity history : Cache κ ν).get now key).2.keys ↔
      k ∈ (after capacity history : Cache κ ν).keys
  /-- An insertion gives up at most one other key. -/
  one : ∀ key value validUntil k k', k ∈ (after capacity history : Cache κ ν).keys →
    k' ∈ (after capacity history : Cache κ ν).keys → k ≠ key → k' ≠ key →
      k ∉ ((after capacity history).insert key value validUntil).keys →
        k' ∉ ((after capacity history).insert key value validUntil).keys → k = k'
  /-- It gives one up only if there is no room, and then every other key in the cache has been used
  since that one was used last. -/
  leastRecent : ∀ key value validUntil k, k ∈ (after capacity history : Cache κ ν).keys → k ≠ key →
    k ∉ ((after capacity history).insert key value validUntil).keys →
      (after capacity history : Cache κ ν).size = capacity ∧
        ∀ k' ∈ (after capacity history : Cache κ ν).keys, k' ≠ k →
          k' ∈ usedSince capacity k history

/-- The laws of a cache that gives up the least recently used key hold after every history of
insertions and lookups, for every capacity. -/
theorem laws_after : Laws capacity history where
  size_le := size_after_le capacity history
  sound now key value h := by
    obtain ⟨e, hfind, hnow, rfl⟩ := get_eq_some_iff.1 h
    exact ⟨e.validUntil, lastInserted?_of_find? capacity history hfind, hnow⟩
  retained now key value validUntil htimely hlast hnow hroom := by
    have hbefore : ∀ earlier ∈ instants history, earlier ≤ now := (List.pairwise_cons.1 htimely).1
    have hfind : (after capacity history).find? key = some ⟨key, value, validUntil⟩ :=
      retained_after capacity history hlast (fun t ht => (hbefore t ht).trans hnow) hroom
    exact get_eq_some_iff.2 ⟨_, hfind, hnow, rfl⟩
  expired now key e hfind hnow e' :=
    mem_entries_get_of_expired (nodup_keys_after capacity history) hfind hnow
  unchanged now key h k := mem_keys_get_of_holding h
  one key value validUntil k k' hk hk' hne hne' hremoved hremoved' := by
    have hsize := size_after_le_capacity capacity history
    have hlast := (getLast?_of_removed hsize hk hne hremoved).2.2
    rw [(getLast?_of_removed hsize hk' hne' hremoved').2.2] at hlast
    exact (Option.some.inj hlast).symm
  leastRecent key value validUntil k hk hne hremoved := by
    have hsize := size_after_le_capacity capacity history
    obtain ⟨hfull, -, hlast⟩ := getLast?_of_removed hsize hk hne hremoved
    rw [capacity_after] at hfull
    exact ⟨hfull, fun k' => (heldAfter_usedSince capacity history hk).mem_of_last
      (nodup_keys_after capacity history) hlast⟩

example : (after 2 [.insert 3 30 60, .get 0 1, .insert 2 20 60, .insert 1 10 60] :
    Cache Nat Nat).keys = [3, 1] := by decide

end History

end Cache

end SenderPolicy
