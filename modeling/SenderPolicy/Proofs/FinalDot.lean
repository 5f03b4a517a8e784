import SenderPolicy.Proofs.ClientNames
import SenderPolicy.Proofs.Insertions
import SenderPolicy.Proofs.Recursion
import SenderPolicy.Proofs.SmallForm
import SenderPolicy.Proofs.Spellings
import SenderPolicy.Proofs.Utf8Reading

/-!
# A dot at the end of the requested domain

A domain may be requested with a dot at its end, and is then looked up as without it. But the dot
is kept where the domain is inserted in a macro string, and where it is compared with the confirmed
names of the client. It makes no difference if the policy of the domain inserts the domain at the
ends of names only, uncut, and no name of the client.

Main definitions:

- `MacroString.ignoresFinalDot`: the macro strings that stand for the same name with the dot and
  without it.

Main results:

- `DomainName.interchangeable_finalDot`: lookups and comparisons of names do not tell the dot;
- `MacroString.toName_finalDot`: nor do these macro strings;
- `verify_finalDot`: nor do verifications for policies with no others;
- `verify_finalDot_refused`: other policies do.
-/

namespace SenderPolicy

open Process (Simulates)

/-! ## Names -/

namespace Text

/-- A dot at the end has no case. -/
theorem startsCased_append_dot (cs : List Char) : startsCased (cs ++ ['.']) = startsCased cs := by
  have hdot : isCaseIgnorable '.' = true := by decide +kernel
  unfold startsCased
  rw [List.dropWhile_append]
  split
  next hempty => simp [List.isEmpty_iff.1 hempty, hdot]
  next hne =>
    obtain ⟨c, rest, hrest⟩ := List.exists_cons_of_ne_nil (fun h => hne (List.isEmpty_iff.2 h))
    simp [hrest]

/-- The small form of a text with a dot at its end has it there, too. -/
theorem lowerCharsFrom_append_dot (afterCased : Bool) (cs : List Char) :
    lowerCharsFrom afterCased (cs ++ ['.']) = lowerCharsFrom afterCased cs ++ ['.'] := by
  induction cs generalizing afterCased with
  | nil => rfl
  | cons c cs ih => simp [lowerCharsFrom, startsCased_append_dot, ih]

/-- A dot at the end is kept in the small form of a text. -/
theorem lowerChars_append_dot (cs : List Char) :
    lowerChars (cs ++ ['.']) = lowerChars cs ++ ['.'] :=
  lowerCharsFrom_append_dot false cs

end Text

namespace DomainName

/-- Lookups and comparisons do not tell a name from the same with a dot at its end. -/
theorem interchangeable_finalDot {name : String} (h : name.toList.getLast? ≠ some '.') :
    Interchangeable name (name ++ ".") := by
  have hchars : (name ++ ".").toList = name.toList ++ ['.'] := by simp
  have hsmall : (Text.lowerChars name.toList).getLast? ≠ some '.' :=
    (Text.smallForm_lowerChars name.toList).getLast?_ne_dot h
  constructor
  · simp only [isValid, labels, hchars, dropFinal_append, dropFinal_of_ne h]
  · simp [qualify, hchars, h, Text.lowerChars_append_dot]
  · funext inner
    simp only [isWithin, Text.lowerCase, String.toList_ofList, hchars, Text.lowerChars_append_dot,
      dropFinal_append, dropFinal_of_ne hsmall]

end DomainName

/-! ## Insertions -/

/-- The octet of the dot. -/
def dotOctet : UInt8 := '.'.toUInt8

/-- A dot at the end of a text is one octet more. -/
theorem ofText_append_dot (s : String) : Utf8.ofText (s ++ ".") = Utf8.ofText s ++ [dotOctet] := by
  have hdot : String.utf8EncodeChar '.' = [dotOctet] := by decide
  simp [Utf8.ofText, Utf8.encode, hdot]

/-- That octet is read as the dot, whatever is before it. -/
theorem decodeLossy_append_dot (s : Octets) :
    Utf8.decodeLossy (s ++ [dotOctet]) = Utf8.decodeLossy s ++ ['.'] := by
  have hread := Utf8.read_append_ascii s (b := dotOctet) (by decide) []
  have hchar : Char.ofNat dotOctet.toNat = '.' := by decide
  have hnil : Utf8.read [] = [] := rfl
  simp [Utf8.decodeLossy, hread, hchar, hnil]

/-- Dots at the end do not count in names. -/
theorem dropTrailing_decodeLossy {dots : Octets} (h : ∀ b ∈ dots, b = dotOctet) (front : Octets) :
    dropTrailing (· = '.') (Utf8.decodeLossy (front ++ dots)) =
      dropTrailing (· = '.') (Utf8.decodeLossy front) := by
  induction dots generalizing front with
  | nil => rw [List.append_nil]
  | cons b dots ih =>
    cases h b List.mem_cons_self
    rw [List.append_cons, ih fun c hc => h c (List.mem_cons_of_mem _ hc)]
    simp [decodeLossy_append_dot, dropTrailing]

/-- The last item is always kept. -/
theorem exists_keepLast {α : Type} (count : Nat) (l : List α) :
    ∃ kept, ∀ a, keepLast count (l ++ [a]) = kept ++ [a] := by
  unfold keepLast
  by_cases hcount : 0 < count ∧ count < l.length + 1
  · refine ⟨l.drop (l.length + 1 - count), fun a => ?_⟩
    have hle : l.length + 1 - count ≤ l.length := by omega
    simp [hcount, List.drop_append_of_le_length hle]
  · refine ⟨l, fun a => if_neg ?_⟩
    simpa using hcount

/-- A dot at the end of the last part is one at the end of the whole. -/
theorem intercalate_append_dot (parts : List Octets) (last : Octets) :
    [dotOctet].intercalate (parts ++ [last ++ [dotOctet]]) =
      [dotOctet].intercalate (parts ++ [last]) ++ [dotOctet] := by
  induction parts with
  | nil => simp [List.intercalate]
  | cons part parts ih =>
    cases parts <;> simp_all [List.intercalate]

/-- An empty part at the end adds the dot before it. -/
theorem intercalate_append_nil {parts : List Octets} (h : parts ≠ []) :
    [dotOctet].intercalate (parts ++ [[]]) = [dotOctet].intercalate parts ++ [dotOctet] := by
  induction parts with
  | nil => exact absurd rfl h
  | cons part parts ih =>
    cases parts <;> simp_all [List.intercalate]

/-- A dot is not escaped. -/
theorem percentEscape_append_dot (octets : Octets) :
    percentEscape (octets ++ [dotOctet]) = percentEscape octets ++ [dotOctet] := by
  have hdot : isUnreserved dotOctet = true := by decide
  simp [percentEscape, hdot]

namespace Expansion

/-- Whether a dot at the end of a property is still at the end when the property is inserted: it is
not reversed, and it is kept whole or not cut at dots. -/
def keepsFinalDot (e : Expansion) : Bool :=
  !e.reverse && (e.parts == 0 || !e.delimiters.contains dotOctet)

/-- A transformer that keeps a final dot leaves it at the end. -/
theorem transform_append_dot {e : Expansion} (h : e.keepsFinalDot = true) (value : Octets) :
    e.transform (value ++ [dotOctet]) = e.transform value ++ [dotOctet] := by
  simp only [keepsFinalDot, Bool.and_eq_true, Bool.not_eq_true', Bool.or_eq_true, beq_iff_eq] at h
  obtain ⟨hreverse, hkept⟩ := h
  have hempty : percentEscape [] = [] := rfl
  have hmark : '.'.toUInt8 = dotOctet := rfl
  unfold transform
  simp only [hreverse, Bool.false_eq_true, if_false, hmark]
  by_cases hcut : e.delimiters.contains dotOctet = true
  · -- The dot makes one more part, which is empty and is kept with all the others.
    have hparts : e.parts.toNat = 0 := by
      rcases hkept with hzero | hcut'
      · rw [hzero]
        rfl
      · rw [hcut] at hcut'
        cases hcut'
    have hne := pieces_ne_nil e.delimiters.contains value
    rw [pieces_append_mark hcut, hparts]
    cases e.escape <;> simp [keepLast, hempty, intercalate_append_nil, hne]
  · -- The dot belongs to the last part, which is kept.
    obtain ⟨parts, last, hplain, hdotted⟩ :=
      exists_pieces_append_singleton (Bool.not_eq_true _ ▸ hcut) value
    obtain ⟨kept, hlast⟩ := exists_keepLast e.parts.toNat parts
    rw [hplain, hdotted, hlast, hlast]
    cases e.escape <;> simp [percentEscape_append_dot, intercalate_append_dot]

/-- So does its expansion. -/
theorem apply_append_dot {e : Expansion} (h : e.keepsFinalDot = true) (value : Octets) :
    e.apply (value ++ [dotOctet]) = e.apply value ++ [dotOctet] := by
  rw [apply_eq_transform, apply_eq_transform, transform_append_dot h]

end Expansion

/-! ## Macro strings -/

/-- Whether a segment is nothing but dots. -/
def Segment.isDots : Segment → Bool
  | .literal text => text.all (· = dotOctet)
  | .expansion _ => false

/-- Octets that are the same but for dots at the end. -/
def Octets.SameButDots (s s' : Octets) : Prop :=
  ∃ front dots dots', (∀ b ∈ dots, b = dotOctet) ∧ (∀ b ∈ dots', b = dotOctet) ∧
    s = front ++ dots ∧ s' = front ++ dots'

/-- The same octets may be put in front. -/
theorem Octets.SameButDots.prepend {s s' : Octets} (h : s.SameButDots s') (front : Octets) :
    SameButDots (front ++ s) (front ++ s') := by
  obtain ⟨middle, dots, dots', hdots, hdots', rfl, rfl⟩ := h
  exact ⟨front ++ middle, dots, dots', hdots, hdots', by simp, by simp⟩

/-- The properties of a request with another domain. -/
def Bindings.withDomain (b : Bindings) (domain : String) : Bindings := { b with domain := domain }

namespace MacroString

/-- Whether a macro string stands for the same name with a dot at the end of the domain and without
it: the domain is inserted with dots only after it, and the name of the client not at all. -/
def ignoresFinalDot : MacroString → Bool
  | [] => true
  | .literal _ :: rest => ignoresFinalDot rest
  | .expansion e :: rest =>
    if e.letter = .domain then e.keepsFinalDot && rest.all Segment.isDots
    else e.letter != .validatedName && ignoresFinalDot rest

variable {m : MacroString}

/-- A segment of dots is literal. -/
theorem isDots_cases {segment : Segment} (h : segment.isDots = true) :
    ∃ text, segment = .literal text ∧ ∀ b ∈ text, b = dotOctet := by
  cases segment with
  | literal text => exact ⟨text, rfl, by simpa [Segment.isDots] using h⟩
  | expansion e => cases h

/-- The name of the client is not needed. -/
theorem needsValidatedName_of_ignoresFinalDot (h : m.ignoresFinalDot = true) :
    m.needsValidatedName = false := by
  fun_induction ignoresFinalDot m with
  | case1 => rfl
  | case2 text rest ih => exact ih h
  | case3 e rest hdomain =>
    rw [Bool.and_eq_true, List.all_eq_true] at h
    have hrest : needsValidatedName rest = false := by
      apply List.any_eq_false.2
      intro segment hsegment
      obtain ⟨text, rfl, -⟩ := isDots_cases (h.2 segment hsegment)
      simp
    simpa [needsValidatedName, hdomain] using hrest
  | case4 e rest hdomain ih =>
    rw [Bool.and_eq_true, bne_iff_ne] at h
    simpa [needsValidatedName, h.1] using ih h.2

/-- Segments of dots stand for dots. -/
theorem expand_of_isDots (h : m.all Segment.isDots = true) (b : Bindings) :
    ∀ c ∈ m.expand b, c = dotOctet := by
  intro c hc
  obtain ⟨segment, hsegment, hmem⟩ := List.mem_flatMap.1 hc
  obtain ⟨text, rfl, hdots⟩ := isDots_cases (List.all_eq_true.1 h segment hsegment)
  exact hdots c hmem

/-- A dot at the end of the domain makes a difference of dots at the end at most. -/
theorem expand_finalDot (h : m.ignoresFinalDot = true) (b : Bindings) :
    (m.expand b).SameButDots (m.expand (b.withDomain (b.domain ++ "."))) := by
  fun_induction ignoresFinalDot m with
  | case1 => exact ⟨[], [], [], by simp, by simp, rfl, rfl⟩
  | case2 text rest ih => exact (ih h).prepend text
  | case3 e rest hdomain =>
    rw [Bool.and_eq_true] at h
    have hdots := expand_of_isDots h.2
    refine ⟨e.apply (Utf8.ofText b.domain), expand b rest,
      dotOctet :: expand (b.withDomain (b.domain ++ ".")) rest, hdots b,
      List.forall_mem_cons.2 ⟨rfl, hdots _⟩, ?_, ?_⟩
    · simp [expand, Segment.expand, hdomain, Bindings.value]
    · simp [expand, Segment.expand, hdomain, Bindings.value, Bindings.withDomain,
        ofText_append_dot, Expansion.apply_append_dot h.1]
  | case4 e rest hdomain ih =>
    rw [Bool.and_eq_true] at h
    have hvalue : (b.withDomain (b.domain ++ ".")).value e.letter = b.value e.letter := by
      cases hletter : e.letter <;> first | rfl | exact absurd hletter hdomain
    have hprepend := (ih h.2).prepend (e.apply (b.value e.letter))
    simpa [expand, Segment.expand, hvalue] using hprepend

/-- These macro strings stand for the same name with the dot and without it. -/
theorem toName_finalDot (h : m.ignoresFinalDot = true) (b : Bindings) :
    m.toName (b.withDomain (b.domain ++ ".")) = m.toName b := by
  obtain ⟨front, dots, dots', hdots, hdots', hplain, hdotted⟩ := expand_finalDot h b
  simp only [toName, expandChars, hplain, hdotted, dropTrailing_decodeLossy hdots,
    dropTrailing_decodeLossy hdots']

end MacroString

/-! ## Requests -/

/-- The request on a domain with a dot at its end. -/
def Request.withFinalDot (request : Request) : Request :=
  { request with domain := request.domain ++ "." }

/-- Properties of a request on a domain and on the same with a dot at its end: they are the same,
or those in the policy of the requested domain, where the names of the client may differ. -/
inductive Bindings.DotAlike (request : Request) : Bindings → Bindings → Prop where
  | same (b : Bindings) : DotAlike request b b
  | requested {b : Bindings} (h : b.domain = request.domain) (validated : String) :
      DotAlike request b
        { b with domain := request.domain ++ ".", validatedName := validated }

/-- A policy whose domain-specs stand for the same names with a dot at the end of the domain and
without it. -/
def Policy.IgnoresFinalDot (policy : Policy) : Prop :=
  ∀ m ∈ policy.domainSpecs, m.ignoresFinalDot = true

/-- The same policies are evaluated with the dot and without it. -/
theorem Request.respelling_finalDot (env : Environment) {request : Request}
    (h : request.domain.toList.getLast? ≠ some '.') :
    Respelling env request request.withFinalDot
      (fun policy name name' => name = name' ∨
        policy.IgnoresFinalDot ∧ name = request.domain ∧ name' = request.domain ++ ".")
      Eq (fun _ b b' => b.DotAlike request b') where
  client := rfl
  domain := by
    rintro policy name name' (rfl | ⟨-, rfl, rfl⟩)
    · exact ⟨rfl, rfl, rfl⟩
    · exact DomainName.interchangeable_finalDot h
  name := by
    rintro name _ rfl
    exact ⟨rfl, rfl, rfl⟩
  target := by
    rintro policy name name' (rfl | ⟨hpolicy, rfl, rfl⟩) m hm
    · exact .refl _
    · have hname := MacroString.toName_finalDot (hpolicy m hm)
        (bindings env request request.domain "")
      have hneeds := MacroString.needsValidatedName_of_ignoresFinalDot (hpolicy m hm)
      unfold targetName bindingsFor
      rw [hneeds]
      exact .pure hname.symm
  found := by
    rintro name _ rfl t policy t' -
    exact .inl rfl
  text := by
    rintro policy name name' (rfl | ⟨-, rfl, rfl⟩) octets text -
    · have hsame :
          bindingsFor env request.withFinalDot name text = bindingsFor env request name text :=
        rfl
      rw [hsame]
      apply (Simulates.refl _).mono _ fun _ he => he
      rintro b _ rfl
      exact .same b
    · have hnames : Simulates Eq (fun _ _ => True) never
          (validatedName env request.client request.domain)
          (validatedName env request.client (request.domain ++ ".")) := by
        apply Simulates.bind_eq (.refl _)
        intro r
        cases r <;> exact .pure trivial
      apply Simulates.ite
      · apply Simulates.bind hnames
        intro name name' _
        exact .pure (.requested rfl name')
      · exact .pure (.requested rfl "")

/-! ## Verifications -/

/-- If the policy of the requested domain stands for the same names with the dot and without it,
both verifications ask the same questions and end with the same counts, the same caches and the same
verdict. Explanations are the same text, in which the domain has its dot or not. -/
theorem verify_finalDot (env : Environment) (t : Traffic) {request : Request}
    (hdomain : request.domain.toList.getLast? ≠ some '.')
    (hpolicy : ∀ policy t', (lookupPolicy env.timed request.domain).run { t with waited := 0 } =
      (.ok policy, t') → policy.IgnoresFinalDot) :
    let outcome := outcomeFrom t (verify env request)
    let outcome' := outcomeFrom t (verify env request.withFinalDot)
    ((verify env request).run t).2 = ((verify env request.withFinalDot).run t).2 ∧
    (progressAtEnd env request t).budget = (progressAtEnd env request.withFinalDot t).budget ∧
    outcome.verdict = outcome'.verdict ∧
    Option.Rel (fun e e' => ∃ text b b', Bindings.DotAlike request b b' ∧
        e = MacroString.toText b text ∧ e' = MacroString.toText b' text)
      outcome.explanation outcome'.explanation := by
  intro outcome outcome'
  obtain ⟨hprogress, htraffic, halike⟩ := (Request.respelling_finalDot env.timed hdomain).verify
    (DomainName.interchangeable_finalDot hdomain) (t := t)
    fun policy t' hrun => .inr ⟨hpolicy policy t' hrun, rfl, rfl⟩
  refine ⟨htraffic, congrArg Progress.budget hprogress, halike.verdict, ?_⟩
  exact halike.explanation

/-- An environment in which all names have one policy, and the client has two names. -/
def namedEnvironment (policy : Octets) : Environment where
  transport _ q :=
    match q with
    | ⟨.txt, _⟩ => ⟨.ok ⟨[policy], 300⟩, 0⟩
    | ⟨.ptr, _⟩ => ⟨.ok ⟨["mail.example.org", "example.org"], 300⟩, 0⟩
    | ⟨.a, name⟩ =>
      if name ∈ ["mail.example.org.", "example.org.", "example.org.d.example.net.",
          "example.org.p.example.net."] then ⟨.ok ⟨[⟨0xC0000201⟩], 300⟩, 0⟩
      else ⟨.error (.notFound .nameError), 0⟩
    | _ => ⟨.error (.notFound .nameError), 0⟩
  settings := .standard
  clock _ := 0
  timestamp := 0
  alarm := .silent

/-- Where the domain is inserted at the end of a name, the client passes with the dot, too. -/
theorem verify_finalDot_passed :
    let env := namedEnvironment (.ofAscii "v=spf1 exists:%{i}.%{d} a -all".toList)
    let request : Request := .forHelo (.v4 ⟨0xC0000201⟩) "example.org"
    let t : Traffic := .start .disabled
    request.domain.toList.getLast? ≠ some '.' ∧
      (∀ policy t', (lookupPolicy env.timed request.domain).run { t with waited := 0 } =
        (.ok policy, t') → policy.IgnoresFinalDot) ∧
      (outcomeFrom t (verify env request)).verdict = .pass ∧
      (outcomeFrom t (verify env request.withFinalDot)).verdict = .pass := by
  intro env request t
  have hdomain : request.domain.toList.getLast? ≠ some '.' := by decide +kernel
  have hfound : (((lookupPolicy env.timed request.domain).run { t with waited := 0 }).1.toOption.all
      fun policy => policy.domainSpecs.all MacroString.ignoresFinalDot) = true := by decide +kernel
  have hpolicy : ∀ policy t', (lookupPolicy env.timed request.domain).run { t with waited := 0 } =
      (.ok policy, t') → policy.IgnoresFinalDot := by
    intro policy t' hrun
    rw [hrun] at hfound
    exact List.all_eq_true.1 hfound
  have hpass : (outcomeFrom t (verify env request)).verdict = .pass := by
    rw [outcomeFrom_verify, Recursive.evaluateRequest_eq_requestBy]
    decide +kernel
  obtain ⟨-, -, hsame, -⟩ := verify_finalDot env t hdomain hpolicy
  exact ⟨hdomain, hpolicy, hpass, hsame ▸ hpass⟩

/-- Where the domain is inserted before other labels, or the name of the client is, a client that
passes is refused when the domain has a dot at its end. -/
theorem verify_finalDot_refused :
    let request : Request := .forHelo (.v4 ⟨0xC0000201⟩) "example.org"
    let t : Traffic := .start .disabled
    DomainName.isValid request.domain = true ∧
      ∀ policy ∈ ["v=spf1 exists:%{d}.d.example.net -all",
          "v=spf1 exists:%{p}.p.example.net -all"],
        let env := namedEnvironment (.ofAscii policy.toList)
        (outcomeFrom t (verify env request)).verdict = .pass ∧
          (outcomeFrom t (verify env request.withFinalDot)).verdict = .fail := by
  intro request t
  refine ⟨by decide +kernel, ?_⟩
  intro policy hpolicy env
  rw [outcomeFrom_verify, outcomeFrom_verify, Recursive.evaluateRequest_eq_requestBy,
    Recursive.evaluateRequest_eq_requestBy]
  revert policy
  decide +kernel

end SenderPolicy
