import SenderPolicy.Proofs.ExchangeWalk
import SenderPolicy.Proofs.TermGrammar

/-!
# Agreement in a prefix

A term publishes the length of a network, or one for each family. An address is in the network if
its first bits, as many as the length says, are those of the address that is published or found.

Main definitions:

- `SameFirst`, `Address.SharesPrefix`: words and addresses with the same first bits;
- `Address.IsIPv4`: the IPv4 address that an address is, or has inside;
- `PublishesNetwork`, `PublishesLengths`: the network and the lengths that a term publishes;
- `AddressesDecide`: what comparing the addresses of a name comes to;
- `Mechanism.Compares`, `Mechanism.LooksUp`: mechanisms that compare the client at once, and those
  about whose names lookups decide.

Main results:

- `agreeUnder_iff`: words agree under a mask of leading bits if those bits are the same;
- `PublishesNetwork.unique`, `PublishesLengths.unique`: a term publishes its lengths in one way;
- `Directive.compares_prefixes`: directives that compare addresses compare their first bits.
-/

namespace SenderPolicy

/-! ## First bits -/

/-- Two words have the same first `n` bits. -/
def SameFirst {w : Nat} (n : Nat) (a b : BitVec w) : Prop := ∀ i < n, a.getMsbD i = b.getMsbD i

/-- Words can be compared in their first bits. -/
instance {w : Nat} (n : Nat) (a b : BitVec w) : Decidable (SameFirst n a b) :=
  inferInstanceAs (Decidable (∀ i < n, a.getMsbD i = b.getMsbD i))

/-- Words agree under a mask of leading bits if those bits are the same in both. -/
theorem agreeUnder_iff {w n : Nat} {mask : BitVec w} (hmask : LeadingBits n mask) (hn : n ≤ w)
    (a b : BitVec w) : agreeUnder mask a b = true ↔ SameFirst n a b := by
  have hbit : ∀ (c : BitVec w), ∀ i < w, (c &&& mask).getMsbD i = (c.getMsbD i && decide (i < n)) :=
    fun c i hi => by rw [BitVec.getMsbD_and, hmask i hi]
  rw [agreeUnder, beq_iff_eq]
  constructor
  · intro h i hi
    have hmasked := congrArg (·.getMsbD i) h
    have hw : i < w := Nat.lt_of_lt_of_le hi hn
    simpa [hbit a i hw, hbit b i hw, hi] using hmasked
  · intro h
    refine BitVec.eq_of_getMsbD_eq fun i hi => ?_
    rw [hbit a i hi, hbit b i hi]
    by_cases hlt : i < n
    · rw [h i hlt]
    · simp [hlt]

namespace Address

/-- Two addresses are of one family and have the same first bits, as many as the length for that
family says. -/
def SharesPrefix (n4 n6 : Nat) : Address → Address → Prop
  | .v4 a, .v4 b => SameFirst n4 a.bits b.bits
  | .v6 a, .v6 b => SameFirst n6 a.bits b.bits
  | _, _ => False

/-- Addresses agree under masks of leading bits if they share that prefix. -/
theorem agrees_iff {n4 n6 : Nat} {mask4 : BitVec 32} {mask6 : BitVec 128}
    (h4 : LeadingBits n4 mask4) (hn4 : n4 ≤ 32) (h6 : LeadingBits n6 mask6) (hn6 : n6 ≤ 128)
    (a b : Address) : a.agrees mask4 mask6 b = true ↔ a.SharesPrefix n4 n6 b := by
  cases a <;> cases b <;>
    simp [agrees, SharesPrefix, agreeUnder_iff h4 hn4, agreeUnder_iff h6 hn6]

/-- An address is an IPv4 address, or an IPv4-mapped one with the IPv4 address inside. -/
inductive IsIPv4 : Address → IPv4 → Prop where
  | plain (a : IPv4) : IsIPv4 (.v4 a) a
  | mapped (a : IPv4) : IsIPv4 (.v6 ⟨0xFFFF#96 ++ a.bits⟩) a

end Address

theorem Address.isIPv4_v4_iff {a b : IPv4} : IsIPv4 (.v4 a) b ↔ b = a := by
  constructor
  · rintro ⟨⟩
    rfl
  · rintro rfl
    exact .plain b

/-- An IPv6 address is an IPv4 address if it is mapped from that. -/
theorem Address.isIPv4_v6_iff {a : IPv6} {b : IPv4} : IsIPv4 (.v6 a) b ↔ a.mapped? = some b := by
  rw [IPv6.mapped?_eq_some_iff]
  constructor
  · rintro ⟨⟩
    rfl
  · rintro rfl
    exact .mapped b

/-- An address is in an IPv4 network if it is an IPv4 address, possibly inside another, whose first
bits are those of the network. -/
theorem Address.inNetwork4_iff {n : Nat} {mask : BitVec 32} (hmask : LeadingBits n mask)
    (hn : n ≤ 32) (net : IPv4) (client : Address) :
    client.inNetwork4 net mask = true ↔
      ∃ a, client.IsIPv4 a ∧ SameFirst n a.bits net.bits := by
  cases client with
  | v4 a => simp [inNetwork4, isIPv4_v4_iff, agreeUnder_iff hmask hn]
  | v6 a => cases hmapped : a.mapped? <;>
      simp [inNetwork4, isIPv4_v6_iff, hmapped, agreeUnder_iff hmask hn]

/-- An address is in an IPv6 network if it is an IPv6 address without an IPv4 address inside, and
its first bits are those of the network. -/
theorem Address.inNetwork6_iff {n : Nat} {mask : BitVec 128} (hmask : LeadingBits n mask)
    (hn : n ≤ 128) (net : IPv6) (client : Address) :
    client.inNetwork6 net mask = true ↔
      ∃ a, client = .v6 a ∧ (∀ b, ¬ client.IsIPv4 b) ∧ SameFirst n a.bits net.bits := by
  cases client with
  | v4 a => simp [inNetwork6]
  | v6 a => cases hmapped : a.mapped? <;>
      simp [inNetwork6, isIPv4_v6_iff, hmapped, agreeUnder_iff hmask hn]

/-! ## Published lengths -/

/-- The address and the length of a network that a term publishes after a colon. A length that is
not written is that of a single address. -/
inductive PublishesNetwork {α : Type} (address? : String → Option α) (w : Nat)
    (marks : List Octets) (net : α) : Nat → Octets → Prop where
  | mk {front octets lengths mark : Octets} {chars : List Char} {n : Nat}
      (hfront : ':'.toUInt8 ∉ front) (hchars : Utf8.decode? octets = some chars)
      (hnet : address? (String.ofList chars) = some net) (hmark : mark ∈ marks)
      (hlength : Cidr.LengthText w mark n lengths) :
      PublishesNetwork address? w marks net n (front ++ ':'.toUInt8 :: (octets ++ lengths))

/-- The lengths for both families that a term publishes at its end. A slash before them stands in
an expansion. -/
inductive PublishesLengths : Nat → Nat → Octets → Prop where
  | mk {front four six : Octets} {n4 n6 : Nat} (hfront : SlashesEnclosed front)
      (hfour : Cidr.LengthText 32 ['/'.toUInt8] n4 four)
      (hsix : Cidr.LengthText 128 ['/'.toUInt8, '/'.toUInt8] n6 six) :
      PublishesLengths n4 n6 (front ++ (four ++ six))

/-- The arguments of a mechanism stand after its name, where there is neither a colon nor a
slash. -/
theorem Directive.SpelledBy.exists_arguments {d : Directive} {term : Octets}
    (h : d.SpelledBy term) : ∃ front name arguments, term = front ++ arguments ∧
      ':'.toUInt8 ∉ front ∧ '/'.toUInt8 ∉ front ∧ MechanismText d.mechanism name arguments := by
  obtain ⟨q, m⟩ := d
  obtain ⟨sign, name, arguments, rfl, hsign, hmechanism⟩ := h
  have hword := (Term.mechanismText_word hmechanism).1.2
  have hname : ∀ b ∈ name, Octet.isAlphanum b = true := fun b hb => by
    rw [← Octet.isAlphanum_lower]
    exact List.all_eq_true.1 hword _ (List.mem_map_of_mem hb)
  have hfront : ∀ b, Octet.isAlphanum b = false → (∀ q : Qualifier, b ≠ q.mark) →
      b ∉ sign ++ name := by
    intro b hb hmark hmem
    dsimp only at hsign
    rcases List.mem_append.1 hmem with hmem | hmem
    · cases hsign with
      | omitted => cases hmem
      | given => exact hmark _ (List.mem_singleton.1 hmem)
    · rw [hname b hmem] at hb
      cases hb
  have hmarks : ∀ q : Qualifier, ':'.toUInt8 ≠ q.mark ∧ '/'.toUInt8 ≠ q.mark := by
    intro q
    cases q <;> decide
  refine ⟨sign ++ name, _, arguments, (List.append_assoc _ _ _).symm, ?_, ?_, hmechanism⟩
  · exact hfront _ rfl fun q => (hmarks q).1
  · exact hfront _ rfl fun q => (hmarks q).2

/-- Octets without slashes may stand before others. -/
theorem SlashesEnclosed.prepend {front octets : Octets} (h : SlashesEnclosed octets)
    (hfront : '/'.toUInt8 ∉ front) : SlashesEnclosed (front ++ octets) := by
  intro before after heq
  rcases List.append_eq_append_iff.1 heq with ⟨middle, rfl, hmiddle⟩ | ⟨middle, rfl, hmiddle⟩
  · exact h middle after hmiddle
  · cases middle with
    | nil => exact h [] after hmiddle.symm
    | cons b middle =>
      obtain ⟨rfl, -⟩ := List.cons.inj hmiddle
      simp at hfront

/-- Octets are cut in one way at their first colon. -/
theorem eq_of_append_colon {front front' rest rest' : Octets} (hfront : ':'.toUInt8 ∉ front)
    (hfront' : ':'.toUInt8 ∉ front')
    (h : front ++ ':'.toUInt8 :: rest = front' ++ ':'.toUInt8 :: rest') : rest = rest' := by
  have hcut : ∀ {front rest : Octets}, ':'.toUInt8 ∉ front →
      splitFirst? (· = ':'.toUInt8) (front ++ ':'.toUInt8 :: rest) = some (front, rest) :=
    fun hfront => splitFirst?_eq_some_iff.2 ⟨rfl, hfront⟩
  have hsome := (hcut hfront).symm.trans ((congrArg _ h).trans (hcut hfront'))
  exact congrArg Prod.snd (Option.some.inj hsome)

/-- A mask has so many leading bits or so many others, but not both. -/
theorem LeadingBits.unique {w n n' : Nat} {mask : BitVec w} (h : LeadingBits n mask)
    (h' : LeadingBits n' mask) (hn : n ≤ w) (hn' : n' ≤ w) : n = n' := by
  have hle : ∀ {n n' : Nat}, LeadingBits n mask → LeadingBits n' mask → n ≤ w → n ≤ n' := by
    intro n n' h h' hn
    by_contra hlt
    have hbit := (h n' (by omega)).symm.trans (h' n' (by omega))
    simp only [Nat.lt_irrefl, decide_false, decide_eq_false_iff_not] at hbit
    omega
  exact Nat.le_antisymm (hle h h' hn) (hle h' h hn')

namespace PublishesNetwork

variable {α : Type} {address? : String → Option α} {w n n' : Nat} {marks : List Octets} {net : α}
  {digits : Octets → Octets} {term : Octets}

/-- The network of a directive is published by its term. -/
theorem exists_of_networkText {mask : BitVec w} {front arguments : Octets}
    (h : NetworkText address? marks net mask arguments) (hfront : ':'.toUInt8 ∉ front) :
    ∃ n, PublishesNetwork address? w marks net n (front ++ arguments) ∧ LeadingBits n mask ∧
      n ≤ w := by
  obtain ⟨hchars, hnet, hmark, hlength, hmask⟩ := h
  exact ⟨_, .mk hfront hchars hnet hmark hlength, hmask, hlength.le⟩

variable (hw : w < 1000) (hmarks : Term.Marking marks digits)
  (haddress : ∀ {chars net}, address? (String.ofList chars) = some net → '/' ∉ chars ∧ chars ≠ [])
include hw hmarks haddress

/-- The network that a term publishes is read from its first colon on. -/
theorem exists_network? (h : PublishesNetwork address? w marks net n term) :
    ∃ front rest, term = front ++ ':'.toUInt8 :: rest ∧ ':'.toUInt8 ∉ front ∧ n ≤ w ∧
      Term.network? address? w digits (':'.toUInt8 :: rest) = some (net, leadingMask w n) := by
  obtain ⟨hfront, hchars, hnet, hmark, hlength⟩ := h
  refine ⟨_, _, rfl, hfront, hlength.le, (Term.network?_eq_some_iff hw hmarks haddress).2 ?_⟩
  exact .mk hchars hnet hmark hlength (leadingBits_leadingMask hlength.le)

/-- A term publishes one length of a network. -/
theorem unique (h : PublishesNetwork address? w marks net n term)
    (h' : PublishesNetwork address? w marks net n' term) : n = n' := by
  obtain ⟨front, rest, rfl, hfront, hle, hread⟩ := h.exists_network? hw hmarks haddress
  obtain ⟨front', rest', hterm, hfront', hle', hread'⟩ := h'.exists_network? hw hmarks haddress
  rw [eq_of_append_colon hfront hfront' hterm, hread'] at hread
  have hmask : leadingMask w n' = leadingMask w n := congrArg Prod.snd (Option.some.inj hread)
  refine (leadingBits_leadingMask hle).unique ?_ hle hle'
  rw [← hmask]
  exact leadingBits_leadingMask hle'

end PublishesNetwork

/-- An IPv4 network whose length is written after a slash. -/
def PublishesNetwork4 : IPv4 → Nat → Octets → Prop :=
  PublishesNetwork IPv4.parse? 32 [['/'.toUInt8]]

/-- An IPv6 network whose length is written after one slash or two. -/
def PublishesNetwork6 : IPv6 → Nat → Octets → Prop :=
  PublishesNetwork IPv6.parse? 128 [['/'.toUInt8], ['/'.toUInt8, '/'.toUInt8]]

/-- A term publishes an IPv4 network with one length only. -/
theorem PublishesNetwork4.unique {net : IPv4} {n n' : Nat} {term : Octets}
    (h : PublishesNetwork4 net n term) (h' : PublishesNetwork4 net n' term) : n = n' :=
  PublishesNetwork.unique (by decide) Term.marking_id Term.ip4_chars h h'

theorem PublishesNetwork6.unique {net : IPv6} {n n' : Nat} {term : Octets}
    (h : PublishesNetwork6 net n term) (h' : PublishesNetwork6 net n' term) : n = n' :=
  PublishesNetwork.unique (by decide) Term.marking_dropSlash Term.ip6_chars h h'

/-- The lengths of a directive are published by its term. -/
theorem exists_publishesLengths {target : Option MacroString} {mask4 : BitVec 32}
    {mask6 : BitVec 128} {front arguments : Octets} (h : HostText target mask4 mask6 arguments)
    (hfront : '/'.toUInt8 ∉ front) : ∃ n4 n6, PublishesLengths n4 n6 (front ++ arguments) ∧
      ∀ client : Address, (client.agrees mask4 mask6 · = true) = client.SharesPrefix n4 n6 := by
  obtain ⟨-, henclosed, hfour, hsix, hmask4, hmask6⟩ := h
  rw [← List.append_assoc]
  refine ⟨_, _, .mk (henclosed.prepend hfront) hfour hsix, fun client => ?_⟩
  funext a
  exact propext (Address.agrees_iff hmask4 hfour.le hmask6 hsix.le client a)

/-- The lengths at the end of a term are read as those that it publishes. -/
theorem PublishesLengths.lengths? {n4 n6 : Nat} {term : Octets} (h : PublishesLengths n4 n6 term) :
    Term.lengths? (Term.splitCidr term).2 = some (n4, n6) := by
  obtain ⟨hfront, hfour, hsix⟩ := h
  obtain ⟨cidr, hcidr⟩ := Term.exists_slashed hfour hsix
  have hbrace : '}'.toUInt8 ∉ Term.slashed cidr := by
    rw [hcidr, List.mem_append, not_or]
    exact ⟨hfour.brace_notMem (by simp), hsix.brace_notMem (by simp)⟩
  rw [← hcidr, (Term.splitCidr_eq_iff hbrace).2 ⟨rfl, hfront⟩]
  exact Term.lengths?_eq_some_iff.2 ⟨_, _, hcidr, hfour, hsix⟩

/-- A term publishes one length for each family. -/
theorem PublishesLengths.unique {n4 n6 n4' n6' : Nat} {term : Octets}
    (h : PublishesLengths n4 n6 term) (h' : PublishesLengths n4' n6' term) :
    n4 = n4' ∧ n6 = n6' :=
  Prod.mk.inj (Option.some.inj (h.lengths?.symm.trans h'.lengths?))

/-! ## Addresses of a name -/

/-- What comparing the addresses of a name with the client comes to: one has to be near it. -/
inductive AddressesDecide (near : Address → Prop) (b : Budget) (t : Traffic)
    (found : List Address) : Except Abort Bool × Progress → Prop where
  | compared {matched : Bool} :
      (matched = true ↔ ∃ a ∈ found, near a) → AddressesDecide near b t found (.ok matched, ⟨t, b⟩)

section

variable {env : Environment} {request : Request} {domain name : String} {m? : Option MacroString}
  {p : Progress} {t : Traffic}

/-- The mechanism charges once, and then the addresses of the name decide. -/
theorem Mechanism.addressesDecide (mask4 : BitVec 32) (mask6 : BitVec 128)
    (hleft : p.budget.lookups < p.budget.maxLookups)
    (htarget : (targetNameOr env request domain m?).run p.traffic = (.ok name, t))
    (hname : DomainName.isValid name = true) :
    ∃ b, p.budget.Charged 1 b ∧
      AnswerDecides b (AddressesDecide (request.client.agrees mask4 mask6 · = true) b)
        ((addresses env request.client name).run t)
        (((Mechanism.a m? mask4 mask6).matches env request domain).run p) := by
  obtain ⟨b, hcharged, hrun⟩ := Mechanism.exists_run_matches (m := .a m? mask4 mask6) hleft htarget
    (show _ = charge >>= fun _ =>
        orVoid (resolvesNear env request.client mask4 mask6 name) false >>= pure by
      simp [Mechanism.test, hname, matchesAddress])
  refine ⟨b, hcharged, ?_⟩
  rw [hrun, resolvesNear_eq]
  refine .of_orVoid (fun _ => rfl) fun found t' => ?_
  rw [run_orVoid_pure]
  exact .compared List.any_eq_true

end

/-! ## Directives -/

namespace Mechanism

/-- A mechanism that compares the client at once, without any lookup. -/
def Compares (m : Mechanism) (inside : Address → Prop) : Prop :=
  ∀ env request domain p, ∃ matched,
    (m.matches env request domain).run p = (.ok matched, p) ∧
      (matched = true ↔ inside request.client)

/-- A mechanism that charges once for itself, and about whose valid name lookups decide. -/
def LooksUp (m : Mechanism) (decides : Environment → Address → String → Budget → Traffic →
    Except Abort Bool × Progress → Prop) : Prop :=
  ∀ env request domain name p t, p.budget.lookups < p.budget.maxLookups →
    (targetNameOr env request domain m.target?).run p.traffic = (.ok name, t) →
    DomainName.isValid name = true →
    ∃ b, p.budget.Charged 1 b ∧
      decides env request.client name b t ((m.matches env request domain).run p)

end Mechanism

section

variable {term : Octets} {q : Qualifier}

/-- An IPv4 network is compared with the client. -/
theorem compares_ip4 {net : IPv4} {mask : BitVec 32}
    (h : Term.parse? term = some (.directive ⟨q, .ip4 net mask⟩)) :
    ∃ n, PublishesNetwork4 net n term ∧ (Mechanism.ip4 net mask).Compares fun client =>
      ∃ a, client.IsIPv4 a ∧ SameFirst n a.bits net.bits := by
  have hspelled : Directive.SpelledBy ⟨q, .ip4 net mask⟩ term := Term.spelledBy_of_parse? h
  obtain ⟨front, name, arguments, rfl, hfront, -, hmechanism⟩ := hspelled.exists_arguments
  cases hmechanism with
  | ip4 hnetwork =>
    obtain ⟨n, hpublishes, hmask, hn⟩ := PublishesNetwork.exists_of_networkText hnetwork hfront
    refine ⟨n, hpublishes, fun env request domain p => ⟨_, rfl, ?_⟩⟩
    exact request.client.inNetwork4_iff hmask hn net

/-- An IPv6 network is compared with the client. -/
theorem compares_ip6 {net : IPv6} {mask : BitVec 128}
    (h : Term.parse? term = some (.directive ⟨q, .ip6 net mask⟩)) :
    ∃ n, PublishesNetwork6 net n term ∧ (Mechanism.ip6 net mask).Compares fun client =>
      ∃ a, client = .v6 a ∧ (∀ b, ¬ client.IsIPv4 b) ∧ SameFirst n a.bits net.bits := by
  have hspelled : Directive.SpelledBy ⟨q, .ip6 net mask⟩ term := Term.spelledBy_of_parse? h
  obtain ⟨front, name, arguments, rfl, hfront, -, hmechanism⟩ := hspelled.exists_arguments
  cases hmechanism with
  | ip6 hnetwork =>
    obtain ⟨n, hpublishes, hmask, hn⟩ := PublishesNetwork.exists_of_networkText hnetwork hfront
    refine ⟨n, hpublishes, fun env request domain p => ⟨_, rfl, ?_⟩⟩
    exact request.client.inNetwork6_iff hmask hn net

variable {m? : Option MacroString} {mask4 : BitVec 32} {mask6 : BitVec 128}

/-- A host publishes its lengths, and its masks compare so many first bits. -/
theorem exists_lengths_of_parse? {m : Mechanism}
    (h : Term.parse? term = some (.directive ⟨q, m⟩))
    (hm : m = .a m? mask4 mask6 ∨ m = .mx m? mask4 mask6) :
    ∃ n4 n6, PublishesLengths n4 n6 term ∧
      ∀ client : Address, (client.agrees mask4 mask6 · = true) = client.SharesPrefix n4 n6 := by
  have hspelled : Directive.SpelledBy ⟨q, m⟩ term := Term.spelledBy_of_parse? h
  obtain ⟨front, name, arguments, rfl, -, hfront, hmechanism⟩ := hspelled.exists_arguments
  rcases hm with rfl | rfl
  · cases hmechanism with
    | a hhost => exact exists_publishesLengths hhost hfront
  · cases hmechanism with
    | mx hhost => exact exists_publishesLengths hhost hfront

/-- The addresses of a name are compared with the client. -/
theorem looksUp_a (h : Term.parse? term = some (.directive ⟨q, .a m? mask4 mask6⟩)) :
    ∃ n4 n6, PublishesLengths n4 n6 term ∧
      (Mechanism.a m? mask4 mask6).LooksUp fun env client name b t =>
        AnswerDecides b (AddressesDecide (client.SharesPrefix n4 n6) b)
          ((addresses env client name).run t) := by
  obtain ⟨n4, n6, hpublishes, hshares⟩ := exists_lengths_of_parse? h (.inl rfl)
  refine ⟨n4, n6, hpublishes, fun env request domain name p t hleft htarget hname => ?_⟩
  dsimp only
  rw [← hshares]
  exact Mechanism.addressesDecide mask4 mask6 hleft htarget hname

/-- The addresses of mail exchangers are compared with the client. -/
theorem looksUp_mx (h : Term.parse? term = some (.directive ⟨q, .mx m? mask4 mask6⟩)) :
    ∃ n4 n6, PublishesLengths n4 n6 term ∧
      (Mechanism.mx m? mask4 mask6).LooksUp fun env client name b t =>
        AnswerDecides b (ExchangesDecide env client (client.SharesPrefix n4 n6) b)
          ((lookup env .mx name).run t) := by
  obtain ⟨n4, n6, hpublishes, hshares⟩ := exists_lengths_of_parse? h (.inr rfl)
  refine ⟨n4, n6, hpublishes, fun env request domain name p t hleft htarget hname => ?_⟩
  dsimp only
  rw [← hshares]
  exact Mechanism.exchangesDecide mask4 mask6 hleft htarget hname

end

/-- A directive that compares addresses publishes its lengths, and compares so many first bits of
the client with those of its network, or of the addresses that it finds. An IPv4 network is also
compared with an IPv4 address inside an IPv6 address, which is in no IPv6 network. -/
theorem Directive.compares_prefixes (term : Octets) (q : Qualifier) :
    (∀ net mask, Term.parse? term = some (.directive ⟨q, .ip4 net mask⟩) →
      (∃ n, PublishesNetwork4 net n term) ∧ ∀ n, PublishesNetwork4 net n term →
        (Mechanism.ip4 net mask).Compares fun client =>
          ∃ a, client.IsIPv4 a ∧ SameFirst n a.bits net.bits) ∧
    (∀ net mask, Term.parse? term = some (.directive ⟨q, .ip6 net mask⟩) →
      (∃ n, PublishesNetwork6 net n term) ∧ ∀ n, PublishesNetwork6 net n term →
        (Mechanism.ip6 net mask).Compares fun client =>
          ∃ a, client = .v6 a ∧ (∀ b, ¬ client.IsIPv4 b) ∧ SameFirst n a.bits net.bits) ∧
    (∀ m? mask4 mask6, Term.parse? term = some (.directive ⟨q, .a m? mask4 mask6⟩) →
      (∃ n4 n6, PublishesLengths n4 n6 term) ∧ ∀ n4 n6, PublishesLengths n4 n6 term →
        (Mechanism.a m? mask4 mask6).LooksUp fun env client name b t =>
          AnswerDecides b (AddressesDecide (client.SharesPrefix n4 n6) b)
            ((addresses env client name).run t)) ∧
    (∀ m? mask4 mask6, Term.parse? term = some (.directive ⟨q, .mx m? mask4 mask6⟩) →
      (∃ n4 n6, PublishesLengths n4 n6 term) ∧ ∀ n4 n6, PublishesLengths n4 n6 term →
        (Mechanism.mx m? mask4 mask6).LooksUp fun env client name b t =>
          AnswerDecides b (ExchangesDecide env client (client.SharesPrefix n4 n6) b)
            ((lookup env .mx name).run t)) := by
  refine ⟨fun net mask h => ?_, fun net mask h => ?_, fun m? mask4 mask6 h => ?_,
    fun m? mask4 mask6 h => ?_⟩
  · obtain ⟨n, hpublishes, hcompares⟩ := compares_ip4 h
    exact ⟨⟨n, hpublishes⟩, fun n' h' => h'.unique hpublishes ▸ hcompares⟩
  · obtain ⟨n, hpublishes, hcompares⟩ := compares_ip6 h
    exact ⟨⟨n, hpublishes⟩, fun n' h' => h'.unique hpublishes ▸ hcompares⟩
  · obtain ⟨n4, n6, hpublishes, hlooksUp⟩ := looksUp_a h
    refine ⟨⟨n4, n6, hpublishes⟩, fun n4' n6' h' => ?_⟩
    obtain ⟨rfl, rfl⟩ := h'.unique hpublishes
    exact hlooksUp
  · obtain ⟨n4, n6, hpublishes, hlooksUp⟩ := looksUp_mx h
    refine ⟨⟨n4, n6, hpublishes⟩, fun n4' n6' h' => ?_⟩
    obtain ⟨rfl, rfl⟩ := h'.unique hpublishes
    exact hlooksUp

/-- A client with an IPv4 address inside is in the IPv4 network of that address, and in no IPv6
network, not even that of all addresses. -/
theorem Directive.compares_prefixes_mapped :
    let client : Address := .v6 ⟨0xFFFF#96 ++ 0xC000024D#32⟩
    let request : Request :=
      ⟨client, "example.org", "mail.example.org", "postmaster@example.org"⟩
    let inside : Mechanism := .ip4 ⟨0xC0000200⟩ (leadingMask 32 24)
    let outside : Mechanism := .ip6 ⟨0⟩ (leadingMask 128 0)
    Term.parse? (.ofAscii "ip4:192.0.2.0/24".toList) = some (.directive ⟨.pass, inside⟩) ∧
      Term.parse? (.ofAscii "ip6:::/0".toList) = some (.directive ⟨.pass, outside⟩) ∧
      ∀ env domain p, (inside.matches env request domain).run p = (.ok true, p) ∧
        (outside.matches env request domain).run p = (.ok false, p) := by
  intro client request inside outside
  have hinside : Term.parse? (.ofAscii "ip4:192.0.2.0/24".toList) =
      some (.directive ⟨.pass, inside⟩) := by rfl
  have houtside : Term.parse? (.ofAscii "ip6:::/0".toList) =
      some (.directive ⟨.pass, outside⟩) := by rfl
  have hnetwork4 : PublishesNetwork4 ⟨0xC0000200⟩ 24 (.ofAscii "ip4:192.0.2.0/24".toList) :=
    @PublishesNetwork.mk _ _ _ _ _ (.ofAscii "ip4".toList) (.ofAscii "192.0.2.0".toList)
      _ _ "192.0.2.0".toList _ (by decide) rfl rfl (List.mem_singleton_self _) (.given (by decide))
  have hnetwork6 : PublishesNetwork6 ⟨0⟩ 0 (.ofAscii "ip6:::/0".toList) :=
    @PublishesNetwork.mk _ _ _ _ _ (.ofAscii "ip6".toList) (.ofAscii "::".toList)
      _ ['/'.toUInt8] "::".toList _ (by decide) rfl rfl List.mem_cons_self (.given (by decide))
  refine ⟨hinside, houtside, fun env domain p => ?_⟩
  obtain ⟨matched, hrun, hiff⟩ :=
    ((Directive.compares_prefixes _ .pass).1 _ _ hinside).2 24 hnetwork4
    env request domain p
  obtain ⟨other, hother, hnot⟩ := ((Directive.compares_prefixes _ .pass).2.1 _ _ houtside).2 0
    hnetwork6 env request domain p
  have hmatched : matched = true := hiff.2 ⟨⟨0xC000024D⟩, .mapped _, by decide⟩
  have hunmatched : other = false := by
    by_contra htrue
    obtain ⟨a, -, hno, -⟩ := hnot.1 (by simpa using htrue)
    exact hno _ (.mapped _)
  rw [hrun, hother, hmatched, hunmatched]
  exact ⟨rfl, rfl⟩

end SenderPolicy
