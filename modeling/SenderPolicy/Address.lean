/-!
# Addresses

IPv4 and IPv6 addresses as words, their octets, groups and nibbles, and the
networks that a mask of leading bits describes.

Main definitions:

- `IPv4`, `IPv6`, `Address`: a word of 32 or 128 bits, or either of them;
- `IPv6.mapped?`, `Address.canonical`: the IPv4 address inside an IPv4-mapped one;
- `leadingMask`: the mask of the first bits of a word;
- `Address.inNetwork4`, `Address.inNetwork6`: membership in a published network;
- `Address.isLoopback`: the addresses by which a host calls itself.
-/

namespace SenderPolicy

/-- An IPv4 address. -/
structure IPv4 where
  /-- The address as a word, the first octet leading. -/
  bits : BitVec 32
  deriving DecidableEq, Repr

/-- An IPv6 address. -/
structure IPv6 where
  /-- The address as a word, the first group leading. -/
  bits : BitVec 128
  deriving DecidableEq, Repr

/-- The address of a client. -/
inductive Address where
  | v4 (a : IPv4)
  | v6 (a : IPv6)
  deriving DecidableEq, Repr

/-- The `i`-th digit of a word in base `2 ^ width`, counted from the end. -/
def wordDigit {w : Nat} (width : Nat) (word : BitVec w) (i : Nat) : Nat :=
  (word.extractLsb' (width * i) width).toNat

/-- The first `count` digits of a word in base `2 ^ width`, leading digit first. -/
def wordDigits {w : Nat} (width count : Nat) (word : BitVec w) : List Nat :=
  (List.range count).reverse.map (wordDigit width word)

/-- The number with the given digits in base `2 ^ width`, leading digit first. -/
def ofWordDigits (width : Nat) (digits : List Nat) : Nat :=
  digits.foldl (fun n d => (n <<< width) + d) 0

namespace IPv4

/-- The four octets of an address. -/
def octets (a : IPv4) : List Nat := wordDigits 8 4 a.bits

/-- The address with the given octets. -/
def ofOctets (octets : List Nat) : IPv4 := ⟨BitVec.ofNat 32 (ofWordDigits 8 octets)⟩

end IPv4

namespace IPv6

/-- The eight groups of sixteen bits of an address. -/
def groups (a : IPv6) : List Nat := wordDigits 16 8 a.bits

/-- The thirty-two nibbles of an address. -/
def nibbles (a : IPv6) : List Nat := wordDigits 4 32 a.bits

/-- The address with the given groups. -/
def ofGroups (groups : List Nat) : IPv6 := ⟨BitVec.ofNat 128 (ofWordDigits 16 groups)⟩

/-- The IPv4 address inside an address of `::ffff:0:0/96`. -/
def mapped? (a : IPv6) : Option IPv4 :=
  if a.bits >>> 32 = 0xFFFF#128 then some ⟨a.bits.setWidth 32⟩ else none

end IPv6

/-- The mask of the first `n` of `w` bits. -/
def leadingMask (w n : Nat) : BitVec w := BitVec.allOnes w <<< (w - n)

/-- Whether two words have the same bits under a mask. -/
def agreeUnder {w : Nat} (mask a b : BitVec w) : Bool := a &&& mask == b &&& mask

namespace Address

/-- The address with an IPv4-mapped one replaced by the IPv4 address inside. -/
def canonical : Address → Address
  | .v4 a => .v4 a
  | .v6 a => match a.mapped? with
    | some inner => .v4 inner
    | none => .v6 a

/-- Whether an address lies in an IPv4 network. An IPv4-mapped address counts
as the IPv4 address inside. -/
def inNetwork4 (net : IPv4) (mask : BitVec 32) : Address → Bool
  | .v4 a => agreeUnder mask a.bits net.bits
  | .v6 a => match a.mapped? with
    | some inner => agreeUnder mask inner.bits net.bits
    | none => false

/-- Whether an address lies in an IPv6 network. An IPv4-mapped address lies in
none. -/
def inNetwork6 (net : IPv6) (mask : BitVec 128) : Address → Bool
  | .v4 _ => false
  | .v6 a => match a.mapped? with
    | some _ => false
    | none => agreeUnder mask a.bits net.bits

/-- Whether an address is one by which a host calls itself: an address of
`127.0.0.0/8`, or `::1`. -/
def isLoopback : Address → Bool
  | .v4 a => a.bits >>> 24 = 127#32
  | .v6 a => a.bits = 1#128

end Address

/-- All bits lead. -/
theorem leadingMask_self (w : Nat) : leadingMask w w = BitVec.allOnes w := by
  simp [leadingMask]

/-- Under the full mask only equal words agree. -/
theorem agreeUnder_allOnes {w : Nat} (a b : BitVec w) :
    agreeUnder (BitVec.allOnes w) a b = decide (a = b) := by
  simp [agreeUnder, BitVec.and_allOnes, Bool.beq_eq_decide_eq]

theorem IPv4.bits_inj {a b : IPv4} : a.bits = b.bits ↔ a = b :=
  ⟨fun h => by cases a; cases b; exact congrArg IPv4.mk h, congrArg IPv4.bits⟩

theorem IPv6.bits_inj {a b : IPv6} : a.bits = b.bits ↔ a = b :=
  ⟨fun h => by cases a; cases b; exact congrArg IPv6.mk h, congrArg IPv6.bits⟩

/-- The IPv4 address inside an IPv4-mapped one is its last 32 bits. -/
theorem IPv6.mapped?_eq_some_iff {a : IPv6} {b : IPv4} :
    a.mapped? = some b ↔ a = ⟨0xFFFF#96 ++ b.bits⟩ := by
  obtain ⟨word⟩ := a
  obtain ⟨inner⟩ := b
  have hinner := inner.isLt
  have hmark : (0xFFFF#128).toNat = 0xFFFF := rfl
  have happend : (0xFFFF#96 ++ inner).toNat = 0xFFFF * 2 ^ 32 + inner.toNat := by
    rw [BitVec.toNat_append, ← Nat.shiftLeft_add_eq_or_of_lt hinner, Nat.shiftLeft_eq]
    rfl
  have hword : (word >>> 32 = 0xFFFF#128 ∧ word.setWidth 32 = inner) ↔
      word = 0xFFFF#96 ++ inner := by
    simp only [← BitVec.toNat_inj, happend, BitVec.toNat_ushiftRight, BitVec.toNat_setWidth,
      Nat.shiftRight_eq_div_pow]
    omega
  simp only [mapped?, Option.ite_none_right_eq_some, Option.some.injEq, IPv4.mk.injEq, mk.injEq,
    hword]

/-- Under the full mask an address agrees with those that are equal to it. -/
theorem any_agreeUnder {α : Type} [DecidableEq α] {w : Nat} {bits : α → BitVec w}
    (hbits : ∀ {a b : α}, bits a = bits b ↔ a = b) (a : α) (records : List α) :
    (records.any fun r => agreeUnder (leadingMask w w) (bits a) (bits r)) =
      decide (a ∈ records) := by
  rw [Bool.eq_iff_iff]
  simp [leadingMask_self, agreeUnder_allOnes, hbits]

end SenderPolicy
