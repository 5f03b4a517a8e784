import SenderPolicy.RecencyMap

/-!
# Caches of answers

A cache holds at most a given number of values, each until a given instant. It keeps them in
a map in order of use, so that the entry to give up when there are too many is the last. An
entry that is found to hold no longer is removed.

Main definitions:

- `Cache`, `Cache.entries`: a map of values with the instants until which they hold;
- `Cache.get`, `Cache.insert`: the two operations;
- `Cache.keys`: the keys in order of use;
- `Store`: a cache, or none at all.

Main results:

- `Cache.get_cases`: the three ways in which a lookup ends;
- `Cache.keys_insert`: an inserted key comes first, and only the end is given up;
- `Cache.size_insert_le`, `Cache.size_get_le`: no operation exceeds the capacity.
-/

namespace SenderPolicy

/-- A point in time, in seconds. -/
abbrev Instant := Int

/-- A value, with the last instant at which it holds. -/
structure Timed (ν : Type) where
  value : ν
  validUntil : Instant
  deriving Repr

/-- Values in order of use, each until some instant. -/
structure Cache (κ ν : Type) where
  map : RecencyMap κ (Timed ν)
  deriving Repr

/-- A value under a key, with the last instant at which it holds. -/
structure Cache.Entry (κ ν : Type) where
  key : κ
  value : ν
  validUntil : Instant
  deriving Repr

namespace Cache

variable {κ ν : Type} [DecidableEq κ]

/-- The cache without entries. -/
def empty (capacity : Nat) : Cache κ ν := ⟨.empty capacity⟩

/-- How many entries there may be. -/
def capacity (c : Cache κ ν) : Nat := c.map.capacity

/-- A value and its instant under a key, as an entry of a cache. -/
def Entry.ofPair (e : κ × Timed ν) : Entry κ ν := ⟨e.1, e.2.value, e.2.validUntil⟩

/-- The entries in order of use, the latest first. -/
def entries (c : Cache κ ν) : List (Entry κ ν) := c.map.entries.map .ofPair

/-- The number of entries. -/
def size (c : Cache κ ν) : Nat := c.entries.length

/-- The keys in order of use. -/
def keys (c : Cache κ ν) : List κ := c.entries.map (·.key)

/-- The entry under a key. -/
def find? (c : Cache κ ν) (key : κ) : Option (Entry κ ν) := c.entries.find? (·.key = key)

/-- The entries under other keys. -/
def others (c : Cache κ ν) (key : κ) : List (Entry κ ν) := c.entries.filter (·.key ≠ key)

/-- The value under a key at an instant. Its entry becomes the latest used, or
is removed if it holds no longer. -/
def get (now : Instant) (key : κ) (c : Cache κ ν) : Option ν × Cache κ ν :=
  match c.map.get key with
  | (none, m) => (none, ⟨m⟩)
  | (some item, m) =>
    if now ≤ item.validUntil then (some item.value, ⟨m⟩) else (none, ⟨m.remove key⟩)

/-- Put a value under a key, in place of what is there. Its entry becomes the
latest used; what exceeds the capacity is given up. -/
def insert (key : κ) (value : ν) (validUntil : Instant) (c : Cache κ ν) : Cache κ ν :=
  ⟨c.map.insert key ⟨value, validUntil⟩⟩

/-! ## Entries -/

theorem find?_eq_map (c : Cache κ ν) (key : κ) :
    c.find? key = (c.map.find? key).map .ofPair :=
  List.find?_map

theorem others_eq_map (c : Cache κ ν) (key : κ) :
    c.others key = (c.map.others key).map .ofPair :=
  List.filter_map

/-- An inserted entry comes first, and only the end is given up. -/
theorem entries_insert (key : κ) (value : ν) (validUntil : Instant) (c : Cache κ ν) :
    (c.insert key value validUntil).entries =
      (⟨key, value, validUntil⟩ :: c.others key).take c.capacity := by
  rw [others_eq_map, entries, insert, RecencyMap.entries_insert, List.map_take]
  rfl

/-- The three ways in which a lookup ends: nothing is there, the entry holds and becomes the
latest, or it holds no longer and is removed. -/
theorem get_cases (now : Instant) (key : κ) (c : Cache κ ν) :
    (c.find? key = none ∧ c.get now key = (none, c)) ∨
    (∃ e, c.find? key = some e ∧ now ≤ e.validUntil ∧ (c.get now key).1 = some e.value ∧
      (c.get now key).2.entries = e :: c.others key) ∨
    ∃ e, c.find? key = some e ∧ ¬ now ≤ e.validUntil ∧ (c.get now key).1 = none ∧
      (c.get now key).2.entries = c.others key := by
  rw [find?_eq_map, others_eq_map]
  unfold get
  cases hfind : c.map.find? key with
  | none =>
    rw [RecencyMap.get_of_find?_eq_none hfind]
    exact .inl ⟨rfl, rfl⟩
  | some e =>
    have hremove : ((c.map.get key).2.remove key) = c.map.remove key := RecencyMap.remove_get hfind
    rw [RecencyMap.get_of_find? hfind] at hremove ⊢
    dsimp only at hremove ⊢
    rw [hremove]
    by_cases hnow : now ≤ e.2.validUntil
    · rw [if_pos hnow]
      exact .inr (.inl ⟨.ofPair e, rfl, hnow, rfl, rfl⟩)
    · rw [if_neg hnow]
      exact .inr (.inr ⟨.ofPair e, rfl, hnow, rfl, rfl⟩)

/-- An entry that is found under a key stands under it. -/
theorem key_of_find? {c : Cache κ ν} {key : κ} {e : Entry κ ν} (h : c.find? key = some e) :
    e.key = key := by
  simpa using List.find?_some h

/-- An inserted key comes first, and only the end is given up. -/
theorem keys_insert (key : κ) (value : ν) (validUntil : Instant) (c : Cache κ ν) :
    (c.insert key value validUntil).keys =
      (key :: c.keys.filter (· ≠ key)).take c.capacity := by
  simp [keys, entries_insert, others, List.map_take, List.filter_map, Function.comp_def]

/-- Inserting never exceeds the capacity. -/
theorem size_insert_le (key : κ) (value : ν) (validUntil : Instant) (c : Cache κ ν) :
    (c.insert key value validUntil).size ≤ c.capacity := by
  rw [size, entries_insert, List.length_take]
  exact Nat.min_le_left _ _

/-- Looking up never adds an entry. -/
theorem size_get_le (now : Instant) (key : κ) (c : Cache κ ν) :
    (c.get now key).2.size ≤ c.size := by
  have hothers : ∀ e, c.find? key = some e → (c.others key).length < c.entries.length :=
    fun e he => List.length_filter_lt_length_iff_exists.2
      ⟨e, List.mem_of_find?_eq_some he, by simp [key_of_find? he]⟩
  obtain ⟨-, hget⟩ | ⟨e, hfind, -, -, hget⟩ | ⟨e, hfind, -, -, hget⟩ := get_cases now key c
  · exact Nat.le_of_eq (by rw [hget])
  · rw [size, hget, List.length_cons]
    exact hothers e hfind
  · rw [size, hget]
    exact Nat.le_of_lt (hothers e hfind)

end Cache

/-- A cache, or nothing that would keep an answer. -/
inductive Store (κ ν : Type) where
  | disabled
  | cached (c : Cache κ ν)
  deriving Repr

namespace Store

variable {κ ν : Type} [DecidableEq κ]

/-- The number of entries. -/
def size : Store κ ν → Nat
  | .disabled => 0
  | .cached c => c.size

/-- The value under a key at an instant. -/
def get (now : Instant) (key : κ) : Store κ ν → Option ν × Store κ ν
  | .disabled => (none, .disabled)
  | .cached c => ((c.get now key).1, .cached (c.get now key).2)

/-- Put a value under a key. -/
def insert (key : κ) (value : ν) (validUntil : Instant) : Store κ ν → Store κ ν
  | .disabled => .disabled
  | .cached c => .cached (c.insert key value validUntil)

end Store

end SenderPolicy
