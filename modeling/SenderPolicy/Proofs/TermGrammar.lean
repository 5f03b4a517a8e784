import SenderPolicy.Proofs.TermArguments

/-!
# The grammar of terms

A directive is an optional qualifier, the name of a mechanism in any case, and the arguments of
that mechanism. A modifier is a name, an equals sign and a value.

Main definitions:

- `QualifierText`, `MechanismText`, `ModifierText`: qualifiers, mechanisms and modifiers as they
  are written;
- `Directive.SpelledBy`, `Modifier.SpelledBy`: the terms that spell a directive or a modifier.

Main results:

- `Term.mechanism?_eq_some_iff`, `Term.modifier?_eq_some_iff`: the mechanisms and modifiers that
  are read;
- `Term.parse?_iff_spelled`: a term is read as the directive or modifier that it spells, and a
  record with a term that spells none is malformed.
-/

namespace SenderPolicy

/-! ## Terms as they are written -/

/-- The octet of a qualifier. -/
def Qualifier.mark : Qualifier → UInt8
  | .pass => '+'.toUInt8
  | .fail => '-'.toUInt8
  | .softFail => '~'.toUInt8
  | .neutral => '?'.toUInt8

/-- A qualifier as it is written; one that is not written is the pass. -/
inductive QualifierText : Qualifier → Octets → Prop where
  | omitted : QualifierText .pass []
  | given (q : Qualifier) : QualifierText q [q.mark]

/-- The small name of a mechanism and its arguments as they are written. -/
inductive MechanismText : Mechanism → Octets → Octets → Prop where
  | all : MechanismText .all (.ofAscii ['a', 'l', 'l']) []
  | includePolicy {m : MacroString} {spec : Octets} (h : DomainSpec.parse? spec = some m) :
      MechanismText (.includePolicy m) (.ofAscii ['i', 'n', 'c', 'l', 'u', 'd', 'e'])
        (':'.toUInt8 :: spec)
  | existsName {m : MacroString} {spec : Octets} (h : DomainSpec.parse? spec = some m) :
      MechanismText (.existsName m) (.ofAscii ['e', 'x', 'i', 's', 't', 's'])
        (':'.toUInt8 :: spec)
  | ptr {target : Option MacroString} {arguments : Octets} (h : TargetText target arguments) :
      MechanismText (.ptr target) (.ofAscii ['p', 't', 'r']) arguments
  | a {target : Option MacroString} {mask4 : BitVec 32} {mask6 : BitVec 128} {arguments : Octets}
      (h : HostText target mask4 mask6 arguments) :
      MechanismText (.a target mask4 mask6) (.ofAscii ['a']) arguments
  | mx {target : Option MacroString} {mask4 : BitVec 32} {mask6 : BitVec 128} {arguments : Octets}
      (h : HostText target mask4 mask6 arguments) :
      MechanismText (.mx target mask4 mask6) (.ofAscii ['m', 'x']) arguments
  | ip4 {net : IPv4} {mask : BitVec 32} {arguments : Octets}
      (h : NetworkText IPv4.parse? [['/'.toUInt8]] net mask arguments) :
      MechanismText (.ip4 net mask) (.ofAscii ['i', 'p', '4']) arguments
  | ip6 {net : IPv6} {mask : BitVec 128} {arguments : Octets}
      (h : NetworkText IPv6.parse? [['/'.toUInt8], ['/'.toUInt8, '/'.toUInt8]] net mask arguments) :
      MechanismText (.ip6 net mask) (.ofAscii ['i', 'p', '6']) arguments

/-- A term that spells a directive. -/
def Directive.SpelledBy (d : Directive) (term : Octets) : Prop :=
  ∃ sign name arguments, term = sign ++ (name ++ arguments) ∧ QualifierText d.qualifier sign ∧
    MechanismText d.mechanism name.lower arguments

/-- A name that a modifier may have: a letter, and then letters, digits, hyphens, underscores
and dots. -/
def NamesModifier (name : Octets) : Prop :=
  ∃ b rest, name = b :: rest ∧ Octet.isAlpha b = true ∧
    ∀ c ∈ rest, Octet.isAlphanum c = true ∨ c ∈ Octets.ofAscii ['-', '_', '.']

/-- The name of a modifier and its value as they are written. -/
inductive ModifierText : Modifier → Octets → Octets → Prop where
  | redirect {name value : Octets} {m : MacroString}
      (hname : name.lower = .ofAscii ['r', 'e', 'd', 'i', 'r', 'e', 'c', 't'])
      (hvalue : DomainSpec.parse? value = some m) : ModifierText (.redirect m) name value
  | explanation {name value : Octets} {m : MacroString}
      (hname : name.lower = .ofAscii ['e', 'x', 'p'])
      (hvalue : DomainSpec.parse? value = some m) : ModifierText (.explanation m) name value
  | unknown {name value : Octets} {m : MacroString}
      (hredirect : name.lower ≠ .ofAscii ['r', 'e', 'd', 'i', 'r', 'e', 'c', 't'])
      (hexplanation : name.lower ≠ .ofAscii ['e', 'x', 'p'])
      (hvalue : MacroString.parse? .domainSpec value = some m) :
      ModifierText (.unknown (Utf8.toText name) (Utf8.toText value)) name value

/-- A term that spells a modifier. -/
def Modifier.SpelledBy (m : Modifier) (term : Octets) : Prop :=
  ∃ name value, term = name ++ '='.toUInt8 :: value ∧ NamesModifier name ∧
    ModifierText m name value

namespace Term

/-! ## Mechanisms and modifiers -/

/-- The arguments of an IPv4 network are its address and prefix length. -/
theorem ip4_eq_some_iff {arguments : Octets} {m : Mechanism} :
    (do
      let (address, cidr) ← networkArguments? arguments
      return .ip4 (← IPv4.parse? address) (← mask? 32 cidr)) = some m ↔
      ∃ net mask, NetworkText IPv4.parse? [['/'.toUInt8]] net mask arguments ∧
        m = .ip4 net mask := by
  have hread := @network?_map_eq_some_iff IPv4 IPv4.parse? 32 id .ip4 arguments m
  simpa only [Option.map_id_fun, id_eq,
    network?_eq_some_iff (w := 32) (by decide) marking_id ip4_chars]
    using hread

/-- Those of an IPv6 network may have two slashes before the length. -/
theorem ip6_eq_some_iff {arguments : Octets} {m : Mechanism} :
    (do
      let (address, cidr) ← networkArguments? arguments
      return .ip6 (← IPv6.parse? address) (← mask? 128 (cidr.map dropSlash))) = some m ↔
      ∃ net mask, NetworkText IPv6.parse? [['/'.toUInt8], ['/'.toUInt8, '/'.toUInt8]] net mask
        arguments ∧ m = .ip6 net mask := by
  have hread := @network?_map_eq_some_iff IPv6 IPv6.parse? 128 dropSlash .ip6 arguments m
  simpa only [network?_eq_some_iff (w := 128) (by decide) marking_dropSlash ip6_chars] using hread

/-- The mechanisms are read from their names and arguments. -/
theorem mechanism?_eq_some_iff {name arguments : Octets} {m : Mechanism} :
    mechanism? name arguments = some m ↔ MechanismText m name arguments := by
  constructor
  · fun_cases mechanism? name arguments
    all_goals intro h
    all_goals subst_vars
    case case1 hempty =>
      cases h
      rw [List.isEmpty_iff.1 hempty]
      exact .all
    case case3 =>
      obtain ⟨target, htarget, rfl⟩ := Option.map_eq_some_iff.1 h
      obtain ⟨spec, rfl, hspec⟩ := required?_eq_some_iff.1 htarget
      exact .includePolicy hspec
    case case4 =>
      obtain ⟨target, htarget, rfl⟩ := Option.map_eq_some_iff.1 h
      obtain ⟨spec, rfl, hspec⟩ := required?_eq_some_iff.1 htarget
      exact .existsName hspec
    case case5 =>
      obtain ⟨target, htarget, rfl⟩ := Option.map_eq_some_iff.1 h
      exact .ptr (optional?_eq_some_iff.1 htarget)
    case case6 =>
      obtain ⟨host, hhost, rfl⟩ := Option.map_eq_some_iff.1 h
      exact .a (hostArguments?_eq_some_iff.1 hhost)
    case case7 =>
      obtain ⟨host, hhost, rfl⟩ := Option.map_eq_some_iff.1 h
      exact .mx (hostArguments?_eq_some_iff.1 hhost)
    case case8 =>
      obtain ⟨net, mask, hnetwork, rfl⟩ := ip4_eq_some_iff.1 h
      exact .ip4 hnetwork
    case case9 =>
      obtain ⟨net, mask, hnetwork, rfl⟩ := ip6_eq_some_iff.1 h
      exact .ip6 hnetwork
    all_goals cases h
  · intro h
    cases h with
    | all => rfl
    | includePolicy hspec =>
      exact Option.map_eq_some_iff.2 ⟨_, required?_eq_some_iff.2 ⟨_, rfl, hspec⟩, rfl⟩
    | existsName hspec =>
      exact Option.map_eq_some_iff.2 ⟨_, required?_eq_some_iff.2 ⟨_, rfl, hspec⟩, rfl⟩
    | ptr htarget => exact Option.map_eq_some_iff.2 ⟨_, optional?_eq_some_iff.2 htarget, rfl⟩
    | a hhost => exact Option.map_eq_some_iff.2 ⟨_, hostArguments?_eq_some_iff.2 hhost, rfl⟩
    | mx hhost => exact Option.map_eq_some_iff.2 ⟨_, hostArguments?_eq_some_iff.2 hhost, rfl⟩
    | ip4 hnetwork => exact ip4_eq_some_iff.2 ⟨_, _, hnetwork, rfl⟩
    | ip6 hnetwork => exact ip6_eq_some_iff.2 ⟨_, _, hnetwork, rfl⟩

/-- The modifiers are read from their names and values. -/
theorem modifier?_eq_some_iff {name value : Octets} {m : Modifier} :
    modifier? name value = some m ↔ ModifierText m name value := by
  have hredirect : name.eqIgnoreCase (.ofAscii ['r', 'e', 'd', 'i', 'r', 'e', 'c', 't']) = true ↔
      name.lower = .ofAscii ['r', 'e', 'd', 'i', 'r', 'e', 'c', 't'] := by
    rw [Octets.eqIgnoreCase, beq_iff_eq]
    rfl
  have hexplanation : name.eqIgnoreCase (.ofAscii ['e', 'x', 'p']) = true ↔
      name.lower = .ofAscii ['e', 'x', 'p'] := by
    rw [Octets.eqIgnoreCase, beq_iff_eq]
    rfl
  simp only [modifier?, hredirect, hexplanation]
  constructor
  · intro h
    split at h
    next hname =>
      obtain ⟨target, htarget, rfl⟩ := Option.map_eq_some_iff.1 h
      exact .redirect hname htarget
    next hnotRedirect =>
      split at h
      next hname =>
        obtain ⟨target, htarget, rfl⟩ := Option.map_eq_some_iff.1 h
        exact .explanation hname htarget
      next hnotExplanation =>
        obtain ⟨target, htarget, rfl⟩ := Option.map_eq_some_iff.1 h
        exact .unknown hnotRedirect hnotExplanation htarget
  · intro h
    cases h with
    | redirect hname hvalue => rw [if_pos hname, hvalue, Option.map_some]
    | explanation hname hvalue =>
      have hne : name.lower ≠ .ofAscii ['r', 'e', 'd', 'i', 'r', 'e', 'c', 't'] := by
        rw [hname]
        decide
      rw [if_neg hne, if_pos hname, hvalue, Option.map_some]
    | unknown hnotRedirect hnotExplanation hvalue =>
      rw [if_neg hnotRedirect, if_neg hnotExplanation, hvalue, Option.map_some]

/-! ## Terms -/

/-- A letter or a digit neither stands for a qualifier nor ends a name. -/
theorem qualifier?_of_isAlphanum {b : UInt8} (h : Octet.isAlphanum b = true) :
    qualifier? b = none ∧ endsName b = false := by
  have hne : ∀ c, Octet.isAlphanum c = false → b ≠ c := by
    rintro c hc rfl
    simp [hc] at h
  constructor
  · simp [qualifier?, hne '+'.toUInt8 rfl, hne '-'.toUInt8 rfl, hne '~'.toUInt8 rfl,
      hne '?'.toUInt8 rfl]
  · simp [endsName, hne ':'.toUInt8 rfl, hne '/'.toUInt8 rfl, hne '='.toUInt8 rfl]

/-- A qualifier is read from its mark only. -/
theorem qualifier?_eq_some_iff {b : UInt8} {q : Qualifier} :
    qualifier? b = some q ↔ b = q.mark := by
  constructor
  · fun_cases qualifier? b
    all_goals intro h
    all_goals cases h
    all_goals assumption
  · rintro rfl
    cases q <;> rfl

/-- What is read as a qualifier, and what is left, make up the whole. -/
theorem exists_sign (term : Octets) : ∃ sign, term = sign ++ (takeQualifier term).2 ∧
    QualifierText ((takeQualifier term).1.getD .pass) sign ∧
      ((takeQualifier term).1 = none → sign = []) := by
  cases term with
  | nil => exact ⟨[], rfl, .omitted, fun _ => rfl⟩
  | cons b rest =>
    cases hq : qualifier? b with
    | none =>
      simp only [takeQualifier, hq]
      exact ⟨[], rfl, .omitted, fun _ => rfl⟩
    | some q =>
      simp only [takeQualifier, hq]
      rw [qualifier?_eq_some_iff.1 hq]
      exact ⟨[q.mark], rfl, .given q, fun hnone => by cases hnone⟩

/-- A qualifier is read if there is one, and what follows is left. -/
theorem takeQualifier_append {q : Qualifier} {sign rest : Octets} (h : QualifierText q sign)
    (hrest : ∀ b ∈ rest.head?, qualifier? b = none) :
    ((takeQualifier (sign ++ rest)).1.getD .pass = q) ∧ (takeQualifier (sign ++ rest)).2 = rest ∧
      (sign = [] → (takeQualifier (sign ++ rest)).1 = none) := by
  cases h with
  | given =>
    have hq : qualifier? q.mark = some q := qualifier?_eq_some_iff.2 rfl
    simp [takeQualifier, hq]
  | omitted =>
    cases rest with
    | nil => simp [takeQualifier]
    | cons b rest => simp [takeQualifier, hrest b rfl]

/-- A name ends at the first octet that ends names. -/
theorem span_name {name arguments : Octets} (hname : ∀ b ∈ name, endsName b = false)
    (harguments : ∀ b ∈ arguments.head?, endsName b = true) :
    (name ++ arguments).takeWhile (!endsName ·) = name ∧
      (name ++ arguments).dropWhile (!endsName ·) = arguments := by
  have hinside : ∀ b ∈ name, (!endsName b) = true := fun b hb => by simp [hname b hb]
  rw [List.takeWhile_append_of_pos hinside, List.dropWhile_append_of_pos hinside]
  cases arguments with
  | nil => simp
  | cons b arguments => simp [harguments b rfl]

/-- The name of a mechanism is a word of letters and digits, and its arguments, if it has any,
begin with a colon or a slash. -/
theorem mechanismText_word {m : Mechanism} {name arguments : Octets}
    (h : MechanismText m name arguments) :
    (name ≠ [] ∧ name.all Octet.isAlphanum = true) ∧
      ∀ b ∈ arguments.head?, b = ':'.toUInt8 ∨ b = '/'.toUInt8 := by
  have htarget : ∀ {target text}, TargetText target text →
      ∀ b ∈ text.head?, b = ':'.toUInt8 ∨ b = '/'.toUInt8 := by
    intro target text htext b hb
    cases htext with
    | omitted => cases hb
    | given => exact .inl (Option.some.inj hb).symm
  have hhost : ∀ {target mask4 mask6 text}, HostText target mask4 mask6 text →
      ∀ b ∈ text.head?, b = ':'.toUInt8 ∨ b = '/'.toUInt8 := by
    intro target mask4 mask6 text htext b hb
    obtain ⟨hdomain, -, hfour, hsix, -, -⟩ := htext
    obtain ⟨cidr, hcidr⟩ := exists_slashed hfour hsix
    rw [← hcidr] at hb
    cases hdomain with
    | given => exact .inl (Option.some.inj hb).symm
    | omitted =>
      cases cidr with
      | none => cases hb
      | some lengths => exact .inr (Option.some.inj hb).symm
  have hnetwork : ∀ {α : Type} {address? : String → Option α} {w : Nat} {marks net}
      {mask : BitVec w} {text}, NetworkText address? marks net mask text →
      ∀ b ∈ text.head?, b = ':'.toUInt8 ∨ b = '/'.toUInt8 := by
    intro α address? w marks net mask text htext b hb
    obtain ⟨-, -, -, -, -⟩ := htext
    exact .inl (Option.some.inj hb).symm
  cases h with
  | all => exact ⟨by decide, fun b hb => by cases hb⟩
  | includePolicy => exact ⟨by decide, fun b hb => .inl (Option.some.inj hb).symm⟩
  | existsName => exact ⟨by decide, fun b hb => .inl (Option.some.inj hb).symm⟩
  | ptr h => exact ⟨by decide, htarget h⟩
  | a h => exact ⟨by decide, hhost h⟩
  | mx h => exact ⟨by decide, hhost h⟩
  | ip4 h => exact ⟨by decide, hnetwork h⟩
  | ip6 h => exact ⟨by decide, hnetwork h⟩

/-- What a mechanism spells is read as the directive that it is. -/
theorem parse?_of_mechanismText {q : Qualifier} {m : Mechanism} {sign name arguments : Octets}
    (hsign : QualifierText q sign) (hmechanism : MechanismText m name.lower arguments) :
    parse? (sign ++ (name ++ arguments)) = some (.directive ⟨q, m⟩) := by
  obtain ⟨⟨hne, hword⟩, hhead⟩ := mechanismText_word hmechanism
  have hname : ∀ b ∈ name, Octet.isAlphanum b = true := fun b hb => by
    rw [← Octet.isAlphanum_lower]
    exact List.all_eq_true.1 hword _ (List.mem_map_of_mem hb)
  obtain ⟨c, rest, rfl⟩ : ∃ c rest, name = c :: rest :=
    List.exists_cons_of_ne_nil fun hnil => hne (by rw [hnil]; rfl)
  have hfirst : ∀ b ∈ (c :: rest ++ arguments).head?, qualifier? b = none := by
    intro b hb
    cases hb
    exact (qualifier?_of_isAlphanum (hname c List.mem_cons_self)).1
  have hends : ∀ b ∈ arguments.head?, endsName b = true := fun b hb => by
    rcases hhead b hb with rfl | rfl <;> rfl
  have hnotEquals : arguments.head? ≠ some '='.toUInt8 := fun hequals => by
    rcases hhead _ hequals with heq | heq <;> exact absurd heq (by decide)
  obtain ⟨hq, hbody, -⟩ := takeQualifier_append hsign hfirst
  obtain ⟨htake, hdrop⟩ := span_name
    (fun b hb => (qualifier?_of_isAlphanum (hname b hb)).2) hends
  simp only [parse?, hq, hbody, htake, hdrop, if_neg hnotEquals,
    mechanism?_eq_some_iff.2 hmechanism, Option.map_some]

/-- The check of a name decides whether it may name a modifier. -/
theorem isModifierName_iff {name : Octets} : isModifierName name = true ↔ NamesModifier name := by
  cases name with
  | nil => exact iff_of_false (by decide) fun ⟨_, _, h, _⟩ => by cases h
  | cons b rest =>
    have hmark : ∀ c, c ∈ Octets.ofAscii ['-', '_', '.'] ↔
        c = '-'.toUInt8 ∨ c = '_'.toUInt8 ∨ c = '.'.toUInt8 := by simp [Octets.ofAscii]
    simp only [isModifierName, NamesModifier, hmark, List.head?_cons, Option.map_some,
      Option.getD_some, Bool.and_eq_true, List.all_eq_true, Bool.or_eq_true, decide_eq_true_eq,
      List.forall_mem_cons]
    constructor
    · rintro ⟨hb, -, hrest⟩
      exact ⟨b, rest, rfl, hb, fun c hc => by simpa [or_assoc] using hrest c hc⟩
    · rintro ⟨_, _, heq, hb, hrest⟩
      obtain ⟨rfl, rfl⟩ := List.cons_eq_cons.1 heq
      refine ⟨hb, .inl (.inl (.inl ?_)), fun c hc => by simpa [or_assoc] using hrest c hc⟩
      simp [Octet.isAlphanum, hb]

/-- What a modifier spells is read as that modifier. -/
theorem parse?_of_modifierText {m : Modifier} {name value : Octets} (hname : NamesModifier name)
    (hmodifier : ModifierText m name value) :
    parse? (name ++ '='.toUInt8 :: value) = some (.modifier m) := by
  have hallowed := isModifierName_iff.2 hname
  obtain ⟨b, rest, rfl, hb, hrest⟩ := hname
  have hletter : Octet.isAlphanum b = true := by simp [Octet.isAlphanum, hb]
  have hfirst : ∀ c ∈ (b :: rest ++ '='.toUInt8 :: value).head?, qualifier? c = none := by
    intro c hc
    cases hc
    exact (qualifier?_of_isAlphanum hletter).1
  have hinside : ∀ c ∈ b :: rest, endsName c = false := by
    refine List.forall_mem_cons.2 ⟨(qualifier?_of_isAlphanum hletter).2, fun c hc => ?_⟩
    rcases hrest c hc with hword | hmark
    · exact (qualifier?_of_isAlphanum hword).2
    · simp only [Octets.ofAscii, List.map_cons, List.map_nil, List.mem_cons, List.not_mem_nil,
        or_false] at hmark
      rcases hmark with rfl | rfl | rfl <;> rfl
  obtain ⟨-, hbody, hnone⟩ := takeQualifier_append .omitted hfirst
  obtain ⟨htake, hdrop⟩ :=
    @span_name (b :: rest) ('='.toUInt8 :: value) hinside (by simp [endsName])
  rw [List.nil_append] at hbody hnone
  simp only [parse?, hbody, hnone, htake, hdrop, hallowed, List.head?_cons, List.tail_cons,
    modifier?_eq_some_iff.2 hmodifier, Option.map_some, Option.isNone_none, Bool.and_self, if_true]

/-- What is read is what the term spells. -/
theorem spelledBy_of_parse? {term : Octets} {t : Term} (h : parse? term = some t) :
    match t with
    | .directive d => d.SpelledBy term
    | .modifier m => m.SpelledBy term := by
  obtain ⟨sign, hterm, hsign, hnone⟩ := exists_sign term
  obtain ⟨o, body, htake⟩ : ∃ o body, takeQualifier term = (o, body) := ⟨_, _, rfl⟩
  rw [htake] at hterm hsign hnone
  have hspan : body = body.takeWhile (!endsName ·) ++ body.dropWhile (!endsName ·) :=
    List.takeWhile_append_dropWhile.symm
  simp only [parse?, htake] at h
  split at h
  next hequals =>
    simp only [Option.ite_none_right_eq_some, Bool.and_eq_true, Option.isNone_iff_eq_none,
      Option.map_eq_some_iff] at h
    obtain ⟨⟨hunsigned, hname⟩, m, hm, rfl⟩ := h
    have hvalue : body.dropWhile (!endsName ·) =
        '='.toUInt8 :: (body.dropWhile (!endsName ·)).tail :=
      List.eq_cons_of_mem_head? hequals
    refine ⟨_, _, ?_, isModifierName_iff.1 hname, modifier?_eq_some_iff.1 hm⟩
    rw [← hvalue, ← hspan, hterm, hnone hunsigned, List.nil_append]
  next =>
    obtain ⟨m, hm, rfl⟩ := Option.map_eq_some_iff.1 h
    refine ⟨sign, _, _, ?_, hsign, mechanism?_eq_some_iff.1 hm⟩
    rw [← hspan]
    exact hterm

end Term

/-- No policy is made of terms one of which cannot be read. -/
theorem Policy.ofTerms?_eq_none {term : Octets} (hnone : Term.parse? term = none)
    {terms : List Octets} (hterm : term ∈ terms) (p : Policy) : p.ofTerms? terms = none := by
  induction terms generalizing p with
  | nil => cases hterm
  | cons first rest ih =>
    rw [Policy.ofTerms?]
    rcases List.mem_cons.1 hterm with rfl | hrest
    · simp [hnone]
    · cases hread : Term.parse? first with
      | none => rfl
      | some t =>
        cases hadd : p.add? t with
        | none => simp [hadd]
        | some p' => simpa [hadd] using ih hrest p'

/-- A term is read as a directive if it spells that directive, and as a modifier if it spells
that modifier. A record that has a term of neither kind is malformed. -/
theorem Term.parse?_iff_spelled (term : Octets) :
    (∀ d, Term.parse? term = some (.directive d) ↔ d.SpelledBy term) ∧
    (∀ m, Term.parse? term = some (.modifier m) ↔ m.SpelledBy term) ∧
    ∀ record first rest, Policy.terms record = first :: rest →
      first.eqIgnoreCase Policy.version = true → term ∈ rest →
      (∀ d : Directive, ¬ d.SpelledBy term) → (∀ m : Modifier, ¬ m.SpelledBy term) →
        Policy.parse record = .error .malformed := by
  refine ⟨fun d => ⟨Term.spelledBy_of_parse?, ?_⟩, fun m => ⟨Term.spelledBy_of_parse?, ?_⟩, ?_⟩
  · rintro ⟨sign, name, arguments, rfl, hsign, hmechanism⟩
    exact Term.parse?_of_mechanismText hsign hmechanism
  · rintro ⟨name, value, rfl, hname, hmodifier⟩
    exact Term.parse?_of_modifierText hname hmodifier
  · intro record first rest hterms hversion hterm hdirective hmodifier
    have hnone : Term.parse? term = none := by
      cases hparse : Term.parse? term with
      | none => rfl
      | some t =>
        have hspelled := Term.spelledBy_of_parse? hparse
        cases t with
        | directive d => exact absurd hspelled (hdirective d)
        | modifier m => exact absurd hspelled (hmodifier m)
    rw [Policy.parse, hterms]
    simp only [hversion, if_true, Policy.ofTerms?_eq_none hnone hterm]

end SenderPolicy
