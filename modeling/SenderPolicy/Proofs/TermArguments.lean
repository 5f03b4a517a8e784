import Mathlib.Data.List.TakeWhile
import SenderPolicy.Proofs.NetworkLengths
import SenderPolicy.Proofs.Utf8Reading

/-!
# The arguments of mechanisms

A mechanism may name a domain, after a colon, and lengths of networks, after slashes; or it
names an address and a length. A slash may also be a delimiter of an expansion, so the lengths
of a host begin at the first slash after which no brace is closed. Addresses have no slash.

Main definitions:

- `TargetText`, `HostText`, `NetworkText`: the arguments as they are written;
- `SlashesEnclosed`: the domains whose slashes all stand in expansions;
- `ReadsNoSlash`: readers of addresses pass no slash.

Main results:

- `Term.splitCidr_eq_iff`: where the lengths of a host begin;
- `Term.optional?_eq_some_iff`, `Term.hostArguments?_eq_some_iff`,
  `Term.network?_eq_some_iff`: the arguments that are read.
-/

namespace SenderPolicy

/-! ## Arguments as they are written -/

/-- A domain-spec after a colon, or none. -/
inductive TargetText : Option MacroString → Octets → Prop where
  | omitted : TargetText none []
  | given {m : MacroString} {spec : Octets} (h : DomainSpec.parse? spec = some m) :
      TargetText (some m) (':'.toUInt8 :: spec)

/-- No slash stands after the last closing brace, and none at all where no brace is closed. -/
def SlashesEnclosed (octets : Octets) : Prop :=
  ∀ before after, octets = before ++ '/'.toUInt8 :: after → '}'.toUInt8 ∈ after

/-- An optional domain-spec and optional lengths for both families, with the masks of these. -/
inductive HostText : Option MacroString → BitVec 32 → BitVec 128 → Octets → Prop where
  | mk {target : Option MacroString} {domain four six : Octets} {n4 n6 : Nat} {mask4 : BitVec 32}
      {mask6 : BitVec 128} (hdomain : TargetText target domain) (henclosed : SlashesEnclosed domain)
      (hfour : Cidr.LengthText 32 ['/'.toUInt8] n4 four)
      (hsix : Cidr.LengthText 128 ['/'.toUInt8, '/'.toUInt8] n6 six)
      (hmask4 : LeadingBits n4 mask4) (hmask6 : LeadingBits n6 mask6) :
      HostText target mask4 mask6 (domain ++ (four ++ six))

/-- An address after a colon and an optional length after one of some marks, with its mask. -/
inductive NetworkText {α : Type} (address? : String → Option α) {w : Nat} (marks : List Octets) :
    α → BitVec w → Octets → Prop where
  | mk {octets lengths mark : Octets} {chars : List Char} {net : α} {n : Nat} {mask : BitVec w}
      (hchars : Utf8.decode? octets = some chars) (hnet : address? (String.ofList chars) = some net)
      (hmark : mark ∈ marks) (hlength : Cidr.LengthText w mark n lengths)
      (hmask : LeadingBits n mask) :
      NetworkText address? marks net mask (':'.toUInt8 :: (octets ++ lengths))

/-! ## Addresses -/

/-- There is no slash in what has been read when `rest` is left. -/
def ReadsNoSlash (chars rest : List Char) : Prop :=
  ∃ passed, chars = passed ++ rest ∧ '/' ∉ passed

namespace ReadsNoSlash

theorem refl (chars : List Char) : ReadsNoSlash chars chars := ⟨[], by simp⟩

theorem trans {a b c : List Char} (h : ReadsNoSlash a b) (h' : ReadsNoSlash b c) :
    ReadsNoSlash a c := by
  obtain ⟨front, rfl, hfront⟩ := h
  obtain ⟨back, rfl, hback⟩ := h'
  exact ⟨front ++ back, by simp, by simp [hfront, hback]⟩

/-- Characters that are dropped have no slash among them if the slash is kept. -/
theorem dropWhile {p : Char → Bool} (hp : p '/' = false) (chars : List Char) :
    ReadsNoSlash chars (chars.dropWhile p) := by
  refine ⟨chars.takeWhile p, List.takeWhile_append_dropWhile.symm, fun hmem => ?_⟩
  have hslash := List.mem_takeWhile_imp hmem
  simp [hp] at hslash

theorem skipChar {mark : Char} (hmark : mark ≠ '/') {chars rest : List Char}
    (h : skipChar? mark chars = some rest) : ReadsNoSlash chars rest := by
  cases chars with
  | nil => cases h
  | cons c chars =>
    simp only [skipChar?, Option.ite_none_right_eq_some, Option.some.injEq] at h
    obtain ⟨rfl, rfl⟩ := h
    exact ⟨[c], by simp, by simp [hmark.symm]⟩

/-- A number of an IPv4 address has no slash in it. -/
theorem decimalOctet {chars rest : List Char} {n : Nat}
    (h : readDecimalOctet? chars = some (n, rest)) : ReadsNoSlash chars rest := by
  simp only [readDecimalOctet?, Option.ite_none_left_eq_some, Option.some.injEq,
    Prod.mk.injEq] at h
  rw [← h.2.2]
  exact dropWhile (by decide) chars

/-- Nor has an IPv4 address. -/
theorem ipv4 {chars rest : List Char} {a : IPv4} (h : IPv4.read? chars = some (a, rest)) :
    ReadsNoSlash chars rest := by
  simp only [IPv4.read?, Option.bind_eq_bind, Option.bind_eq_some_iff, Prod.exists,
    Option.pure_def, Option.some.injEq, Prod.mk.injEq] at h
  obtain ⟨_, as, ha, as', ha', _, bs, hb, bs', hb', _, cs, hc, cs', hc', _, ds, hd, -, rfl⟩ := h
  have hdot : '.' ≠ '/' := by decide
  have hfirst : ReadsNoSlash chars as' := (decimalOctet ha).trans (skipChar hdot ha')
  have hsecond : ReadsNoSlash as' bs' := (decimalOctet hb).trans (skipChar hdot hb')
  have hthird : ReadsNoSlash bs' cs' := (decimalOctet hc).trans (skipChar hdot hc')
  exact ((hfirst.trans hsecond).trans hthird).trans (decimalOctet hd)

theorem group {chars rest : List Char} {n : Nat} (h : readGroup? chars = some (n, rest)) :
    ReadsNoSlash chars rest := by
  simp only [readGroup?, Option.ite_none_left_eq_some, Option.some.injEq, Prod.mk.injEq] at h
  rw [← h.2.2]
  exact dropWhile (by decide) chars

theorem groups (atStart : Bool) (limit : Nat) (chars : List Char) :
    ReadsNoSlash chars (readGroups atStart limit chars).rest := by
  induction limit generalizing atStart chars with
  | zero => exact refl chars
  | succ limit ih =>
    unfold readGroups
    split
    next => exact refl chars
    next body hbody =>
      have hcolon : ReadsNoSlash chars body := by
        cases atStart with
        | true =>
          cases hbody
          exact refl chars
        | false => exact skipChar (by decide) hbody
      split
      next inner rest hinner =>
        simp only [Option.ite_none_right_eq_some] at hinner
        exact hcolon.trans (ipv4 hinner.2)
      next =>
        split
        next => exact refl chars
        next group rest hgroup =>
          exact (hcolon.trans (ReadsNoSlash.group hgroup)).trans (ih false rest)

/-- An IPv6 address has no slash in it, either. -/
theorem ipv6 {chars rest : List Char} {a : IPv6} (h : IPv6.read? chars = some (a, rest)) :
    ReadsNoSlash chars rest := by
  have hcolon : ':' ≠ '/' := by decide
  have hfront := groups true 8 chars
  simp only [IPv6.read?] at h
  split at h
  · cases h
    exact hfront
  · split at h
    · cases h
    · simp only [Option.bind_eq_bind, Option.bind_eq_some_iff, Option.pure_def, Option.some.injEq,
        Prod.mk.injEq] at h
      obtain ⟨one, hone, two, htwo, -, rfl⟩ := h
      exact ((hfront.trans (skipChar hcolon hone)).trans (skipChar hcolon htwo)).trans
        (groups true _ two)

/-- There is no slash in a text that is read as a whole, and such a text is not empty. -/
theorem whole {α : Type} {read? : List Char → Option (α × List Char)}
    (hread : ∀ {chars rest a}, read? chars = some (a, rest) → ReadsNoSlash chars rest)
    {chars : List Char} {a : α} (h : whole? (read? chars) = some a) : '/' ∉ chars := by
  unfold whole? at h
  split at h
  next b hb =>
    obtain ⟨passed, rfl, hpassed⟩ := hread hb
    simpa using hpassed
  next => cases h

end ReadsNoSlash

namespace Term

/-! ## Arguments -/

/-- What follows a first slash, with that slash. -/
def slashed : Option Octets → Octets
  | none => []
  | some rest => '/'.toUInt8 :: rest

/-- What follows a colon is an argument if there is any of it. -/
theorem afterColon?_eq_some_iff {arguments rest : Octets} :
    afterColon? arguments = some rest ↔ arguments = ':'.toUInt8 :: rest ∧ rest ≠ [] := by
  cases arguments with
  | nil => simp [afterColon?]
  | cons b octets =>
    simp only [afterColon?, Option.ite_none_right_eq_some, Bool.and_eq_true, decide_eq_true_eq,
      Bool.not_eq_true', List.isEmpty_eq_false_iff, Option.some.injEq, List.cons.injEq]
    constructor
    · rintro ⟨⟨rfl, hne⟩, rfl⟩
      exact ⟨⟨rfl, rfl⟩, hne⟩
    · rintro ⟨⟨rfl, rfl⟩, hne⟩
      exact ⟨⟨rfl, hne⟩, rfl⟩

/-- A domain-spec is not empty. -/
theorem ne_nil_of_domainSpec {spec : Octets} {m : MacroString}
    (h : DomainSpec.parse? spec = some m) : spec ≠ [] := by
  rintro rfl
  have hnone : DomainSpec.parse? [] = none := rfl
  rw [hnone] at h
  cases h

/-- An argument that must be there is a domain-spec behind a colon. -/
theorem required?_eq_some_iff {arguments : Octets} {m : MacroString} :
    required? arguments = some m ↔
      ∃ spec, arguments = ':'.toUInt8 :: spec ∧ DomainSpec.parse? spec = some m := by
  simp only [required?, Option.bind_eq_some_iff, afterColon?_eq_some_iff]
  constructor
  · rintro ⟨spec, ⟨rfl, -⟩, h⟩
    exact ⟨spec, rfl, h⟩
  · rintro ⟨spec, rfl, h⟩
    exact ⟨spec, ⟨rfl, ne_nil_of_domainSpec h⟩, h⟩

/-- One that may be left out is the text of a target. -/
theorem optional?_eq_some_iff {arguments : Octets} {target : Option MacroString} :
    optional? arguments = some target ↔ TargetText target arguments := by
  cases arguments with
  | nil =>
    rw [optional?, if_pos (List.isEmpty_nil), Option.some.injEq]
    constructor
    · rintro rfl
      exact .omitted
    · intro h
      cases h
      rfl
  | cons b octets =>
    rw [optional?, if_neg (by simp), Option.map_eq_some_iff]
    simp only [required?_eq_some_iff]
    constructor
    · rintro ⟨m, ⟨spec, heq, h⟩, rfl⟩
      rw [heq]
      exact .given h
    · intro h
      cases h with
      | given h => exact ⟨_, ⟨octets, rfl, h⟩, rfl⟩

/-- After the last closing brace the slashes are those of lengths. -/
theorem slashesEnclosed_append_iff {before after : Octets} (hafter : '}'.toUInt8 ∉ after) :
    SlashesEnclosed (before ++ '}'.toUInt8 :: after) ↔ '/'.toUInt8 ∉ after := by
  constructor
  · intro h hmem
    obtain ⟨front, back, rfl⟩ := List.append_of_mem hmem
    have hback := h (before ++ '}'.toUInt8 :: front) back (by simp)
    exact hafter (by simp [hback])
  · intro h front back heq
    rcases List.append_eq_append_iff.1 heq with ⟨middle, rfl, hmiddle⟩ | ⟨middle, rfl, hmiddle⟩
    · cases middle with
      | nil => cases hmiddle
      | cons c middle =>
        cases hmiddle
        simp at h
    · cases middle with
      | nil => cases hmiddle
      | cons c middle =>
        cases hmiddle
        simp

/-- Where no brace is closed every slash is that of a length. -/
theorem slashesEnclosed_iff {octets : Octets} (hbrace : '}'.toUInt8 ∉ octets) :
    SlashesEnclosed octets ↔ '/'.toUInt8 ∉ octets := by
  constructor
  · intro h hmem
    obtain ⟨front, back, rfl⟩ := List.append_of_mem hmem
    have hback := h front back rfl
    exact hbrace (by simp [hback])
  · rintro h front back rfl
    simp at h

/-- What stands before the first slash and, if there is one, what stands after it. -/
def cutSlash (octets : Octets) : Octets × Option Octets :=
  match splitFirst? (· = '/'.toUInt8) octets with
  | some (before, after) => (before, some after)
  | none => (octets, none)

/-- Arguments are cut at their first slash. -/
theorem cutSlash_eq_iff {octets before : Octets} {after : Option Octets} :
    cutSlash octets = (before, after) ↔
      octets = before ++ slashed after ∧ '/'.toUInt8 ∉ before := by
  constructor
  · intro h
    unfold cutSlash at h
    split at h
    next hsplit =>
      cases h
      exact splitFirst?_eq_some_iff.1 hsplit
    next hsplit =>
      cases h
      exact ⟨by simp [slashed], splitFirst?_eq_none_iff_notMem.1 hsplit⟩
  · rintro ⟨rfl, hbefore⟩
    cases after with
    | none =>
      rw [slashed, List.append_nil, cutSlash, splitFirst?_eq_none_iff_notMem.2 hbefore]
    | some after => rw [slashed, cutSlash, splitFirst?_eq_some_iff.2 ⟨rfl, hbefore⟩]

/-- Arguments with a closing brace are cut at the first slash after the last one. -/
theorem splitCidr_eq (arguments : Octets) :
    splitCidr arguments = match splitLast? (· = '}'.toUInt8) arguments with
      | none => cutSlash arguments
      | some (before, after) =>
        (before ++ '}'.toUInt8 :: (cutSlash after).1, (cutSlash after).2) := by
  unfold splitCidr cutSlash
  cases hlast : splitLast? (· = '}'.toUInt8) arguments with
  | none => rfl
  | some halves =>
    obtain ⟨before, after⟩ := halves
    have harguments := (splitLast?_eq_some_iff.1 hlast).1
    cases hfirst : splitFirst? (· = '/'.toUInt8) after with
    | none => simp [hfirst, harguments]
    | some cut => simp [hfirst]

/-- The lengths of a host begin at the first slash after which no brace is closed. -/
theorem splitCidr_eq_iff {arguments domain : Octets} {cidr : Option Octets}
    (hcidr : '}'.toUInt8 ∉ slashed cidr) :
    splitCidr arguments = (domain, cidr) ↔
      arguments = domain ++ slashed cidr ∧ SlashesEnclosed domain := by
  rw [splitCidr_eq]
  split
  next hsplit =>
    have hbrace : '}'.toUInt8 ∉ arguments := splitLast?_eq_none_iff_notMem.1 hsplit
    rw [cutSlash_eq_iff]
    refine and_congr_right ?_
    rintro rfl
    exact (slashesEnclosed_iff fun hmem => hbrace (List.mem_append_left _ hmem)).symm
  next before after hsplit =>
    obtain ⟨rfl, hafter⟩ := splitLast?_eq_some_iff.1 hsplit
    constructor
    · intro h
      obtain ⟨front, back, hcut⟩ : ∃ front back, cutSlash after = (front, back) := ⟨_, _, rfl⟩
      rw [hcut] at h
      obtain ⟨rfl, rfl⟩ := Prod.mk.inj h
      obtain ⟨heq, hslash⟩ := cutSlash_eq_iff.1 hcut
      refine ⟨by rw [List.append_assoc, List.cons_append, ← heq], ?_⟩
      refine (slashesEnclosed_append_iff fun hmem => hafter ?_).2 hslash
      rw [heq]
      exact List.mem_append_left _ hmem
    · rintro ⟨heq, henclosed⟩
      rcases List.append_eq_append_iff.1 heq with ⟨middle, rfl, hmiddle⟩ | ⟨middle, -, hmiddle⟩
      · cases middle with
        | nil => exact absurd (by simp [← show _ = slashed cidr from hmiddle]) hcidr
        | cons c middle =>
          obtain ⟨rfl, hrest⟩ := List.cons_eq_cons.1 hmiddle
          have hnot : '}'.toUInt8 ∉ middle := fun hmem =>
            hafter (hrest ▸ List.mem_append_left _ hmem)
          have hslash := (slashesEnclosed_append_iff hnot).1 henclosed
          rw [cutSlash_eq_iff.2 ⟨hrest, hslash⟩]
      · exact absurd (by simp [hmiddle]) hcidr

/-- The lengths that follow a first slash, if there is one. -/
def lengths? : Option Octets → Option (Nat × Nat)
  | none => some (32, 128)
  | some lengths => Cidr.parseDual? lengths

/-- Two prefix lengths are read if the text is one of each family, and either may be left out. -/
theorem lengths?_eq_some_iff {cidr : Option Octets} {n4 n6 : Nat} :
    lengths? cidr = some (n4, n6) ↔ ∃ four six, slashed cidr = four ++ six ∧
      Cidr.LengthText 32 ['/'.toUInt8] n4 four ∧
        Cidr.LengthText 128 ['/'.toUInt8, '/'.toUInt8] n6 six := by
  cases cidr with
  | some lengths => exact Cidr.parseDual?_eq_some_iff
  | none =>
    constructor
    · intro h
      cases h
      exact ⟨[], [], rfl, .omitted, .omitted⟩
    · rintro ⟨four, six, htext, hfour, hsix⟩
      obtain ⟨rfl, rfl⟩ := List.append_eq_nil_iff.1 htext.symm
      rw [hfour.eq_of_nil, hsix.eq_of_nil]
      rfl

/-- Lengths that are written begin with a slash. -/
theorem exists_slashed {n4 n6 : Nat} {four six : Octets}
    (hfour : Cidr.LengthText 32 ['/'.toUInt8] n4 four)
    (hsix : Cidr.LengthText 128 ['/'.toUInt8, '/'.toUInt8] n6 six) :
    ∃ cidr, slashed cidr = four ++ six := by
  cases hfour with
  | given => exact ⟨some (_ ++ six), rfl⟩
  | omitted =>
    cases hsix with
    | given => exact ⟨some ('/'.toUInt8 :: _), rfl⟩
    | omitted => exact ⟨none, rfl⟩

/-- The arguments of a host are an optional domain-spec and optional lengths. -/
theorem hostArguments?_eq_some_iff {arguments : Octets} {target : Option MacroString}
    {mask4 : BitVec 32} {mask6 : BitVec 128} :
    hostArguments? arguments = some (target, mask4, mask6) ↔
      HostText target mask4 mask6 arguments := by
  have hread : hostArguments? arguments =
      (optional? (splitCidr arguments).1).bind fun target =>
        (lengths? (splitCidr arguments).2).map fun n =>
          (target, leadingMask 32 n.1, leadingMask 128 n.2) := by
    unfold hostArguments? lengths?
    obtain ⟨domain, cidr⟩ := splitCidr arguments
    cases htarget : optional? domain with
    | none => simp [htarget]
    | some target =>
      cases cidr with
      | none => simp [htarget]
      | some lengths => cases hdual : Cidr.parseDual? lengths <;> simp [htarget, hdual]
  constructor
  · intro h
    simp only [hread, Option.bind_eq_some_iff, Option.map_eq_some_iff, Prod.exists,
      Prod.mk.injEq] at h
    obtain ⟨_, htarget, n4, n6, hlengths, rfl, rfl, rfl⟩ := h
    obtain ⟨four, six, htext, hfour, hsix⟩ := lengths?_eq_some_iff.1 hlengths
    have hbrace : '}'.toUInt8 ∉ slashed (splitCidr arguments).2 := by
      rw [htext, List.mem_append, not_or]
      exact ⟨hfour.brace_notMem (by simp), hsix.brace_notMem (by simp)⟩
    obtain ⟨heq, henclosed⟩ := (splitCidr_eq_iff hbrace).1 rfl
    rw [heq, htext]
    exact .mk (optional?_eq_some_iff.1 htarget) henclosed hfour hsix
      (leadingBits_leadingMask hfour.le) (leadingBits_leadingMask hsix.le)
  · rintro ⟨hdomain, henclosed, hfour, hsix, hmask4, hmask6⟩
    obtain ⟨cidr, htext⟩ := exists_slashed hfour hsix
    have hlengths := lengths?_eq_some_iff.2 ⟨_, _, htext, hfour, hsix⟩
    have hbrace : '}'.toUInt8 ∉ slashed cidr := by
      rw [htext, List.mem_append, not_or]
      exact ⟨hfour.brace_notMem (by simp), hsix.brace_notMem (by simp)⟩
    have hsplit := (splitCidr_eq_iff hbrace).2 ⟨rfl, henclosed⟩
    rw [htext] at hsplit
    simp [hread, hsplit, optional?_eq_some_iff.2 hdomain, hlengths,
      (leadingBits_iff hfour.le).1 hmask4, (leadingBits_iff hsix.le).1 hmask6]

/-- The address stands between the colon and the first slash. -/
theorem networkArguments?_eq (arguments : Octets) :
    networkArguments? arguments = (afterColon? arguments).bind fun body =>
      (Utf8.decode? (cutSlash body).1).map fun chars =>
        (String.ofList chars, (cutSlash body).2) := by
  unfold networkArguments? cutSlash
  cases afterColon? arguments with
  | none => rfl
  | some body =>
    cases hfirst : splitFirst? (· = '/'.toUInt8) body with
    | none => cases hchars : Utf8.decode? body <;> simp [hfirst, hchars]
    | some cut => cases hchars : Utf8.decode? cut.1 <;> simp [hfirst, hchars]

/-- The marks of a length, and what finds its digits after the first slash. -/
structure Marking (marks : List Octets) (digits : Octets → Octets) : Prop where
  nonempty : marks ≠ []
  slash : ∀ mark ∈ marks, ∃ rest, mark = '/'.toUInt8 :: rest
  finds : ∀ (n : Nat) (rest : Octets), digits rest = Octets.decimal n ↔
    ∃ mark ∈ marks, '/'.toUInt8 :: rest = mark ++ Octets.decimal n

theorem marking_id : Marking [['/'.toUInt8]] id where
  nonempty := by simp
  slash := by simp
  finds := by simp

/-- Of two slashes the second is dropped. -/
theorem marking_dropSlash : Marking [['/'.toUInt8], ['/'.toUInt8, '/'.toUInt8]] dropSlash where
  nonempty := by simp
  slash := by simp
  finds n rest := by
    have hslash := Cidr.slash_notMem_decimal n
    cases rest with
    | nil => simp [dropSlash]
    | cons b rest =>
      by_cases hb : b = '/'.toUInt8
      · subst hb
        have hne : Octets.decimal n ≠ '/'.toUInt8 :: rest := by
          intro heq
          exact hslash (heq ▸ List.mem_cons_self)
        simp [dropSlash, hne.symm]
      · simp [dropSlash, hb]

/-- The network that an address and an optional length give. -/
def network? {α : Type} (address? : String → Option α) (w : Nat) (digits : Octets → Octets)
    (arguments : Octets) : Option (α × BitVec w) :=
  (networkArguments? arguments).bind fun (address, cidr) =>
    (address? address).bind fun net => (mask? w (cidr.map digits)).map fun mask => (net, mask)

section Network

variable {α : Type} {address? : String → Option α} {w : Nat} {marks : List Octets}
  {digits : Octets → Octets}

/-- The mask of an optional length. -/
theorem mask?_eq_some_iff (hw : w < 1000) (hmarks : Marking marks digits) {cidr : Option Octets}
    {mask : BitVec w} :
    mask? w (cidr.map digits) = some mask ↔ ∃ n, LeadingBits n mask ∧
      ∃ mark ∈ marks, Cidr.LengthText w mark n (slashed cidr) := by
  cases cidr with
  | none =>
    have hleading : LeadingBits w (leadingMask w w) := leadingBits_leadingMask (Nat.le_refl w)
    rw [Option.map_none, mask?, Option.some.injEq]
    constructor
    · rintro rfl
      obtain ⟨mark, hmark⟩ := List.exists_mem_of_ne_nil marks hmarks.nonempty
      exact ⟨w, hleading, mark, hmark, .omitted⟩
    · rintro ⟨n, hmask, mark, hmark, htext⟩
      obtain ⟨rest, rfl⟩ := hmarks.slash mark hmark
      obtain rfl : n = w := htext.eq_of_nil
      exact ((leadingBits_iff (Nat.le_refl n)).1 hmask).symm
  | some rest =>
    rw [Option.map_some, mask?, Option.map_eq_some_iff]
    simp only [Cidr.parseLength?_eq_some_iff hw]
    constructor
    · rintro ⟨n, ⟨hle, hread⟩, rfl⟩
      obtain ⟨mark, hmark, htext⟩ := (hmarks.finds n rest).1 hread
      refine ⟨n, leadingBits_leadingMask hle, mark, hmark, ?_⟩
      rw [slashed, htext]
      exact .given hle
    · rintro ⟨n, hmask, mark, hmark, htext⟩
      rw [slashed] at htext
      generalize hrest : '/'.toUInt8 :: rest = text at htext
      cases htext with
      | omitted => cases hrest
      | given hle =>
        have hdigits := (hmarks.finds n rest).2 ⟨mark, hmark, hrest⟩
        exact ⟨n, ⟨hle, hdigits⟩, ((leadingBits_iff hle).1 hmask).symm⟩

/-- The parts of which a network is read. -/
theorem network?_eq_some_iff_exists {arguments : Octets} {net : α} {mask : BitVec w} :
    network? address? w digits arguments = some (net, mask) ↔ ∃ body chars,
      arguments = ':'.toUInt8 :: body ∧ body ≠ [] ∧
        Utf8.decode? (cutSlash body).1 = some chars ∧ address? (String.ofList chars) = some net ∧
          mask? w ((cutSlash body).2.map digits) = some mask := by
  simp only [network?, networkArguments?_eq, Option.bind_eq_some_iff, Option.map_eq_some_iff,
    afterColon?_eq_some_iff, Prod.exists, Prod.mk.injEq]
  constructor
  · rintro ⟨_, _, ⟨body, ⟨rfl, hbody⟩, chars, hchars, rfl, rfl⟩, _, hnet, _, hmask, rfl, rfl⟩
    exact ⟨body, chars, rfl, hbody, hchars, hnet, hmask⟩
  · rintro ⟨body, chars, rfl, hbody, hchars, hnet, hmask⟩
    exact ⟨_, _, ⟨body, ⟨rfl, hbody⟩, chars, hchars, rfl, rfl⟩, net, hnet, mask, hmask, rfl, rfl⟩

/-- The address and the optional length are told apart by the first slash, as addresses have
none. -/
theorem network?_eq_some_iff (hw : w < 1000) (hmarks : Marking marks digits)
    (haddress : ∀ {chars net}, address? (String.ofList chars) = some net →
      '/' ∉ chars ∧ chars ≠ []) {arguments : Octets} {net : α} {mask : BitVec w} :
    network? address? w digits arguments = some (net, mask) ↔
      NetworkText address? marks net mask arguments := by
  rw [network?_eq_some_iff_exists]
  constructor
  · rintro ⟨body, chars, rfl, -, hchars, hnet, hmask⟩
    obtain ⟨octets, cidr, hcut⟩ : ∃ octets cidr, cutSlash body = (octets, cidr) := ⟨_, _, rfl⟩
    rw [hcut] at hchars hmask
    obtain ⟨n, hleading, mark, hmark, htext⟩ := (mask?_eq_some_iff hw hmarks).1 hmask
    rw [(cutSlash_eq_iff.1 hcut).1]
    exact .mk hchars hnet hmark htext hleading
  · intro h
    cases h with
    | @mk octets lengths mark chars _ n _ hchars hnet hmark htext hleading =>
    obtain ⟨hslash, hnonempty⟩ := haddress hnet
    have hoctets : '/'.toUInt8 ∉ octets := fun hmem =>
      hslash (Utf8.mem_of_decode? hchars (by decide) hmem)
    have hbody : octets ≠ [] := by
      rintro rfl
      cases hchars
      exact hnonempty rfl
    obtain ⟨cidr, rfl⟩ : ∃ cidr, slashed cidr = lengths := by
      cases htext with
      | omitted => exact ⟨none, rfl⟩
      | given =>
        obtain ⟨rest, rfl⟩ := hmarks.slash mark hmark
        exact ⟨some (rest ++ Octets.decimal n), rfl⟩
    have hcut : cutSlash (octets ++ slashed cidr) = (octets, cidr) :=
      cutSlash_eq_iff.2 ⟨rfl, hoctets⟩
    have hmask := (mask?_eq_some_iff hw hmarks).2 ⟨n, hleading, mark, hmark, htext⟩
    refine ⟨_, chars, rfl, by simp [hbody], ?_⟩
    rw [hcut]
    exact ⟨hchars, hnet, hmask⟩

/-- A mechanism made of a network is read where the network is. -/
theorem network?_map_eq_some_iff {build : α → BitVec w → Mechanism} {arguments : Octets}
    {m : Mechanism} :
    (do
      let (address, cidr) ← networkArguments? arguments
      return build (← address? address) (← mask? w (cidr.map digits))) = some m ↔
      ∃ net mask, network? address? w digits arguments = some (net, mask) ∧ m = build net mask := by
  unfold network?
  cases networkArguments? arguments with
  | none => simp
  | some found =>
    obtain ⟨address, cidr⟩ := found
    cases hnet : address? address with
    | none => simp [hnet]
    | some net => cases hmask : mask? w (cidr.map digits) <;> simp [hnet, hmask, eq_comm]

end Network

/-- There is no slash in an IPv4 address. -/
theorem ip4_chars {chars : List Char} {net : IPv4}
    (h : IPv4.parse? (String.ofList chars) = some net) : '/' ∉ chars ∧ chars ≠ [] := by
  rw [IPv4.parse?, String.toList_ofList] at h
  refine ⟨ReadsNoSlash.whole ReadsNoSlash.ipv4 h, ?_⟩
  rintro rfl
  cases h

/-- There is no slash in an IPv6 address. -/
theorem ip6_chars {chars : List Char} {net : IPv6}
    (h : IPv6.parse? (String.ofList chars) = some net) : '/' ∉ chars ∧ chars ≠ [] := by
  rw [IPv6.parse?, String.toList_ofList] at h
  refine ⟨ReadsNoSlash.whole ReadsNoSlash.ipv6 h, ?_⟩
  rintro rfl
  cases h

end Term

end SenderPolicy
