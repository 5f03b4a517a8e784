/-!
# Maps in order of use

A map of limited size, with its entries in order of use, the latest first. Reading a value
uses its key, and so does inserting one. An insertion that finds no room gives up the entry
that was used least recently. Maps know nothing of time.

Main definitions:

- `RecencyMap`: entries in order of use;
- `RecencyMap.get`, `RecencyMap.insert`, `RecencyMap.remove`: the operations.

Main results, which are the laws that caches rely on:

- `RecencyMap.get_of_find?`: reading a value brings its entry to the front, and changes no other;
- `RecencyMap.entries_insert`: an inserted entry comes first, and only the end is given up;
- `RecencyMap.remove_get`: it makes no difference to a removal that the entry was read before.
-/

namespace SenderPolicy

/-- A map of limited size. -/
structure RecencyMap (κ ν : Type) where
  capacity : Nat
  /-- The entries in order of use, the latest first. -/
  entries : List (κ × ν)
  deriving Repr

namespace RecencyMap

variable {κ ν : Type} [DecidableEq κ]

/-- The map without entries. -/
def empty (capacity : Nat) : RecencyMap κ ν := ⟨capacity, []⟩

/-- The entry under a key. -/
def find? (m : RecencyMap κ ν) (key : κ) : Option (κ × ν) := m.entries.find? (·.1 = key)

/-- The entries under other keys. -/
def others (m : RecencyMap κ ν) (key : κ) : List (κ × ν) := m.entries.filter (·.1 ≠ key)

/-- The value under a key, whose entry becomes the latest used. -/
def get (key : κ) (m : RecencyMap κ ν) : Option ν × RecencyMap κ ν :=
  match m.find? key with
  | none => (none, m)
  | some e => (some e.2, { m with entries := e :: m.others key })

/-- Put a value under a key, in place of what is there. Its entry becomes the latest used; what
exceeds the capacity is given up. -/
def insert (key : κ) (value : ν) (m : RecencyMap κ ν) : RecencyMap κ ν :=
  { m with entries := ((key, value) :: m.others key).take m.capacity }

/-- Remove the entry under a key. -/
def remove (key : κ) (m : RecencyMap κ ν) : RecencyMap κ ν :=
  { m with entries := m.others key }

variable {m : RecencyMap κ ν} {key : κ} {e : κ × ν}

theorem get_of_find?_eq_none (h : m.find? key = none) : m.get key = (none, m) := by
  rw [get, h]

/-- Reading a value brings its entry to the front, and changes no other. -/
theorem get_of_find? (h : m.find? key = some e) :
    m.get key = (some e.2, { m with entries := e :: m.others key }) := by
  rw [get, h]

/-- An inserted entry comes first, and only the end is given up. -/
theorem entries_insert (key : κ) (value : ν) (m : RecencyMap κ ν) :
    (m.insert key value).entries = ((key, value) :: m.others key).take m.capacity :=
  rfl

/-- It makes no difference to a removal that the entry was read before. -/
theorem remove_get (h : m.find? key = some e) : (m.get key).2.remove key = m.remove key := by
  have hkey : e.1 = key := by simpa using List.find?_some h
  rw [get_of_find? h]
  simp [remove, others, hkey]

end RecencyMap

end SenderPolicy
