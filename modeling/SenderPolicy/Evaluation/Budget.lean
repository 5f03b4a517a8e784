import SenderPolicy.Fault
import SenderPolicy.Settings

/-!
# The budget of an evaluation

An evaluation may ask only so many questions, and only so many of them without
an answer. The counts are words of 32 bits, like the limits.

Main definitions:

- `Budget`, `Budget.remaining`: the counts and limits, and what is left;
- `Budget.charge`, `Budget.addVoid`, `Budget.isOverVoid`: counting.

Main results:

- `Budget.remaining_charge`: a charge takes one from what is left;
- `Budget.remaining_addVoid`: answers that are missing take nothing.
-/

namespace SenderPolicy

/-- Counts and limits of an evaluation. -/
structure Budget where
  lookups : UInt32
  voidLookups : UInt32
  maxLookups : UInt32
  maxVoidLookups : UInt32
  deriving DecidableEq, Repr

namespace Budget

/-- The budget at the start. -/
def ofSettings (s : Settings) : Budget := ⟨0, 0, s.maxLookups, s.maxVoidLookups⟩

/-- How many more terms may ask questions. -/
def remaining (b : Budget) : Nat := b.maxLookups.toNat - b.lookups.toNat

/-- The budget after one more term, if there may be one. -/
def charge (b : Budget) : Except Fault Budget :=
  if b.lookups < b.maxLookups then .ok { b with lookups := b.lookups + 1 }
  else .error .tooManyLookups

/-- The budget after one more question without an answer. -/
def addVoid (b : Budget) : Budget := { b with voidLookups := b.voidLookups + 1 }

/-- Whether too many questions are without an answer. -/
def isOverVoid (b : Budget) : Bool := b.maxVoidLookups < b.voidLookups

/-- A charge takes one from what is left. -/
theorem remaining_charge {b b' : Budget} (h : b.charge = .ok b') :
    b'.remaining + 1 = b.remaining := by
  unfold charge at h
  split at h
  next hlt =>
    cases h
    have hlt' : b.lookups.toNat < b.maxLookups.toNat := UInt32.lt_iff_toNat_lt.1 hlt
    have hmax := b.maxLookups.toNat_lt
    have hadd : (b.lookups + 1).toNat = b.lookups.toNat + 1 := by
      rw [UInt32.toNat_add]
      have : (1 : UInt32).toNat = 1 := rfl
      omega
    simp only [remaining, hadd]
    omega
  next => cases h

/-- Missing answers take nothing from what is left. -/
@[simp] theorem remaining_addVoid (b : Budget) : b.addVoid.remaining = b.remaining := rfl

end Budget

end SenderPolicy
