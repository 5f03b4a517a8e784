import Mathlib.Algebra.Ring.Nat
import SenderPolicy.Text.Utf8

/-!
# Reading around ASCII

The octets that go on with a character beyond ASCII lie beyond ASCII themselves. So an ASCII
octet always ends what stands before it and stands for its own character. Other octets never
stand for an ASCII character.

Main definitions:

- `Utf8.Begun`: the characters that reading can have begun.

Main results:

- `Utf8.begun_step`: what an octet leaves begun lies beyond ASCII;
- `Utf8.step_beyond`: so does what an octet beyond ASCII completes;
- `Utf8.read_append_ascii`: what stands before and after an ASCII octet is read by itself;
- `Utf8.mem_of_decode?`: an ASCII character that was not read was not written;
- `Utf8.encode_decodeLossy`: octets of ASCII that are read are those that are written again.
-/

namespace SenderPolicy.Utf8

/-- A character has been begun that lies beyond ASCII: no ASCII octet goes on with it, and it
cannot become an ASCII character. -/
structure Partial.BeyondAscii (p : Partial) : Prop where
  low : 0x80 ≤ p.low
  least : 0x80 ≤ 64 ^ p.owed * (64 * p.bits + (p.low.toNat - 0x80))

/-- What reading can have begun. -/
def Begun (begun : Option Partial) : Prop := ∀ p ∈ begun, p.BeyondAscii

theorem begun_none : Begun none := by
  intro p hp
  cases hp

/-- A character beyond ASCII that is under way has begun. -/
theorem begun_some {p : Partial} (h : p.BeyondAscii) : Begun (some p) := by
  intro q hq
  cases hq
  exact h

/-- A first octet begins a character beyond ASCII, or none. -/
theorem begun_lead (b : UInt8) : Begun (lead b).2 := by
  unfold lead
  repeat' split
  all_goals first
    | exact begun_none
    | (apply begun_some; constructor
       · dsimp only; decide
       · simp_all only [UInt8.lt_iff_toNat_lt, ← UInt8.toNat_inj, UInt8.reduceToNat]; omega)

/-- What an octet leaves begun lies beyond ASCII. -/
theorem begun_step {begun : Option Partial} (h : Begun begun) (b : UInt8) :
    Begun (step begun b).2 := by
  cases begun with
  | none => exact begun_lead b
  | some p =>
    simp only [step]
    split
    next hrange =>
      cases howed : p.owed with
      | zero => exact begun_none
      | succ owed =>
        have hleast := (h p rfl).least
        have hlow : p.low.toNat ≤ b.toNat := UInt8.le_iff_toNat_le.1 (by simp_all)
        rw [howed, Nat.pow_succ, Nat.mul_assoc] at hleast
        refine begun_some ⟨UInt8.le_refl 0x80, Nat.le_trans hleast (Nat.mul_le_mul_left _ ?_)⟩
        dsimp only
        omega
    · exact begun_lead b

/-- An ASCII octet ends the character begun before it, and stands for its own. -/
theorem step_ascii {begun : Option Partial} (h : Begun begun) {b : UInt8} (hb : b < 0x80) :
    step begun b = (readFrom begun [] ++ [some (Char.ofNat b.toNat)], none) := by
  have hlead : lead b = ([some (Char.ofNat b.toNat)], none) := if_pos hb
  cases begun with
  | none => exact hlead
  | some p =>
    have hlow : ¬ p.low ≤ b := fun hle =>
      UInt8.lt_irrefl b (UInt8.lt_of_lt_of_le hb (UInt8.le_trans (h p rfl).low hle))
    simp [step, hlow, hlead, readFrom]

/-- An octet beyond ASCII completes nothing but characters beyond ASCII. -/
theorem step_beyond {begun : Option Partial} (h : Begun begun) {b : UInt8} (hb : 0x80 ≤ b) :
    ∀ o ∈ (step begun b).1, ∀ c ∈ o, ∃ n, 0x80 ≤ n ∧ c = Char.ofNat n := by
  have hlead : ∀ o ∈ (lead b).1, o = none := by
    have hbeyond : ¬ b < 0x80 := UInt8.not_lt.2 hb
    unfold lead
    rw [if_neg hbeyond]
    repeat' split
    all_goals simp
  cases begun with
  | none =>
    intro o ho c hc
    cases (hlead o ho).symm.trans hc
  | some p =>
    simp only [step]
    split
    next hrange =>
      cases howed : p.owed with
      | succ owed => simp
      | zero =>
        have hleast := (h p rfl).least
        have hlow : p.low.toNat ≤ b.toNat := UInt8.le_iff_toNat_le.1 (by simp_all)
        rw [howed] at hleast
        intro o ho c hc
        rw [List.mem_singleton.1 ho, Option.mem_some_iff] at hc
        exact ⟨64 * p.bits + (b.toNat - 0x80), by omega, hc.symm⟩
    · intro o ho c hc
      rcases List.mem_cons.1 ho with rfl | ho
      · cases hc
      · cases (hlead o ho).symm.trans hc

/-- An ASCII octet ends the character before it and is read on its own. -/
theorem readFrom_append_ascii {begun : Option Partial} (h : Begun begun) (s : Octets) {b : UInt8}
    (hb : b < 0x80) (t : Octets) :
    readFrom begun (s ++ b :: t) = readFrom begun s ++ some (Char.ofNat b.toNat) :: read t := by
  induction s generalizing begun with
  | nil =>
    cases begun <;> simp [readFrom, step_ascii h hb, read]
  | cons c s ih =>
    have hrest := ih (begun_step h c)
    cases begun <;> simp [readFrom, hrest]

/-- What stands before an ASCII octet and what stands after it are read by themselves. -/
theorem read_append_ascii (s : Octets) {b : UInt8} (hb : b < 0x80) (t : Octets) :
    read (s ++ b :: t) = read s ++ some (Char.ofNat b.toNat) :: read t :=
  readFrom_append_ascii begun_none s hb t

/-- Each ASCII octet of a text stands for one of its characters. -/
theorem mem_of_decode? {s : Octets} {cs : List Char} (h : decode? s = some cs) {b : UInt8}
    (hb : b < 0x80) (hmem : b ∈ s) : Char.ofNat b.toNat ∈ cs := by
  obtain ⟨before, after, rfl⟩ := List.append_of_mem hmem
  rw [decode?, read_append_ascii before hb, List.mapM_append] at h
  simp only [List.mapM_cons, id_eq, Option.bind_eq_bind, Option.bind_eq_some_iff,
    Option.pure_def, Option.some.injEq] at h
  obtain ⟨front, -, back, ⟨c, rfl, rest, -, rfl⟩, rfl⟩ := h
  simp

/-- Octets of ASCII are read as their characters, and written again as they were. -/
theorem encode_decodeLossy {s : Octets} (h : ∀ b ∈ s, b < 0x80) : encode (decodeLossy s) = s := by
  have hwrite : ∀ n < 128, String.utf8EncodeChar (Char.ofNat n) = [UInt8.ofNat n] := by
    decide +kernel
  induction s with
  | nil => rfl
  | cons b s ih =>
    obtain ⟨hb, hs⟩ := List.forall_mem_cons.1 h
    have hread : decodeLossy (b :: s) = Char.ofNat b.toNat :: decodeLossy s := by
      rw [decodeLossy, show read (b :: s) = _ from read_append_ascii [] hb s]
      rfl
    have hchar := hwrite b.toNat (UInt8.lt_iff_toNat_lt.1 hb)
    rw [UInt8.ofNat_toNat] at hchar
    rw [hread, encode, List.flatMap_cons, hchar, ← encode, ih hs]
    rfl

end SenderPolicy.Utf8
