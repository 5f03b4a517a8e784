import SenderPolicy.Proofs.AsciiCase
import SenderPolicy.Proofs.Insertions
import SenderPolicy.Proofs.Recursion
import SenderPolicy.Proofs.Spellings

/-!
# Requests in capitals

It makes no difference to a verification whether the letters of the domain, of the name in the
greeting and of the sender are small or capital. Only the texts that copy them show it.

Main definitions:

- `Bindings.CaseEq`, `Request.CaseEq`: properties and requests that are the same up to case.

Main results:

- `MacroString.caseEq_toName`, `MacroString.caseEq_toText`: what macro strings stand for is the
  same up to case;
- `verify_caseEq`: so are verifications.
-/

namespace SenderPolicy

open Process (Simulates)

/-! ## Octets of properties -/

namespace Octets

/-- The octets of texts that are the same up to case are so, too. -/
theorem lower_ofText {s s' : String} (h : Text.CaseEq s s') :
    (Utf8.ofText s).lower = (Utf8.ofText s').lower := by
  simp only [Utf8.ofText, ← Utf8.encode_toLower, h.toLower]

/-- Joining with dots has no case of its own. -/
theorem lower_intercalate_dot (parts : List Octets) :
    lower (['.'.toUInt8].intercalate parts) = ['.'.toUInt8].intercalate (parts.map lower) := by
  have hdot : Octet.lower '.'.toUInt8 = '.'.toUInt8 := rfl
  induction parts with
  | nil => rfl
  | cons part parts ih =>
    cases parts with
    | nil => simp [List.intercalate]
    | cons next parts => simpa [List.intercalate, lower, hdot] using ih

/-- Octets are escaped with small digits, so the small letters of what is written are those of the
octets. -/
theorem lower_percentEscape (octets : Octets) :
    (percentEscape octets).lower = percentEscape octets.lower := by
  have hdigit : ∀ n < 16, Octet.lower (Octet.ofNibble n) = Octet.ofNibble n := by decide
  have hunreserved : ∀ b, isUnreserved (Octet.lower b) = isUnreserved b := by
    apply Octet.eq_lower (v := true)
    intro b hb
    simp [isUnreserved, Octet.isAlphanum, hb]
  induction octets with
  | nil => rfl
  | cons b octets ih =>
    simp only [percentEscape, lower, List.flatMap_cons, List.map_append, List.map_cons,
      hunreserved] at ih ⊢
    rw [ih]
    cases hb : isUnreserved b with
    | true => rfl
    | false =>
      have hletter : Octet.isAlpha b = false := by
        simp only [isUnreserved, Octet.isAlphanum, Bool.or_eq_false_iff] at hb
        exact hb.1.1.1.1.1
      have hlt := b.toNat_lt
      have hpercent : Octet.lower '%'.toUInt8 = '%'.toUInt8 := rfl
      simp [Octet.lower_of_isAlpha_eq_false hletter, Octet.hex, hpercent,
        hdigit (b.toNat / 16) (by omega), hdigit (b.toNat % 16) (by omega)]

end Octets

namespace Mailbox

/-- A mailbox is cut at the same sign in either case. -/
theorem splitLast?_lower (mailbox : Octets) : splitLast? (· = '@'.toUInt8) mailbox.lower =
    (splitLast? (· = '@'.toUInt8) mailbox).map (Prod.map Octets.lower Octets.lower) :=
  splitLast?_map (Octet.decide_lower_eq rfl) mailbox

theorem lower_localPart (mailbox : Octets) :
    (localPart mailbox).lower = localPart mailbox.lower := by
  unfold localPart
  rw [splitLast?_lower]
  cases splitLast? (· = '@'.toUInt8) mailbox with
  | none => rfl
  | some halves =>
    simp only [Option.map_some, Prod.map_fst, Octets.lower, List.isEmpty_map]
    split <;> rfl

theorem lower_domainPart (mailbox : Octets) :
    (domainPart mailbox).lower = domainPart mailbox.lower := by
  unfold domainPart
  rw [splitLast?_lower]
  cases splitLast? (· = '@'.toUInt8) mailbox <;> rfl

end Mailbox

/-! ## Expansions -/

/-- The parts that are kept do not depend on what is in them. -/
theorem keepLast_map {α β : Type} (f : α → β) (count : Nat) (l : List α) :
    keepLast count (l.map f) = (keepLast count l).map f := by
  unfold keepLast
  rw [List.length_map]
  split
  · rw [List.map_drop]
  · rfl

namespace Expansion

/-- A property is inserted in the same way in either case. -/
theorem lower_transform {e : Expansion} (h : e.KeepsLetters) (value : Octets) :
    (e.transform value).lower = e.transform value.lower := by
  have hpieces : pieces e.delimiters.contains value.lower =
      (pieces e.delimiters.contains value).map Octets.lower := by
    apply pieces_map
    exact Octet.eq_lower h
  have hescape : Octets.lower ∘ percentEscape = percentEscape ∘ Octets.lower :=
    funext Octets.lower_percentEscape
  unfold transform
  rw [Octets.lower_intercalate_dot, hpieces]
  cases e.reverse <;> cases e.escape <;>
    simp [← List.map_reverse, keepLast_map, hescape]

/-- A transformer without letters among its delimiters does the same to small letters. -/
theorem lower_apply {e : Expansion} (h : e.KeepsLetters) (value : Octets) :
    (e.apply value).lower = e.apply value.lower := by
  rw [apply_eq_transform, apply_eq_transform, lower_transform h]

end Expansion

/-- Properties of requests that are the same up to case. -/
structure Bindings.CaseEq (b b' : Bindings) : Prop where
  client : b.client = b'.client
  sender : Text.CaseEq b.sender b'.sender
  helo : Text.CaseEq b.helo b'.helo
  domain : Text.CaseEq b.domain b'.domain
  validatedName : b.validatedName = b'.validatedName
  receiver : b.receiver = b'.receiver
  timestamp : b.timestamp = b'.timestamp

/-- Properties that differ in case have values that do. -/
theorem Bindings.CaseEq.lower_value {b b' : Bindings} (h : b.CaseEq b') (l : Letter) :
    (b.value l).lower = (b'.value l).lower := by
  cases l with
  | sender => exact Octets.lower_ofText h.sender
  | localPart =>
    simp only [Bindings.value, Mailbox.lower_localPart, Octets.lower_ofText h.sender]
  | senderDomain =>
    simp only [Bindings.value, Mailbox.lower_domainPart, Octets.lower_ofText h.sender]
  | domain => exact Octets.lower_ofText h.domain
  | helo => exact Octets.lower_ofText h.helo
  | _ => simp only [Bindings.value, h.client, h.validatedName, h.receiver, h.timestamp]

/-! ## Macro strings -/

theorem lastFitting_toLower (limit size : Nat) (cs : List Char) :
    lastFitting limit size (cs.map Char.toLower) =
      (lastFitting limit size cs).map Char.toLower := by
  induction cs generalizing size with
  | nil => rfl
  | cons c cs ih =>
    simp only [List.map_cons, lastFitting, Text.utf8Size_toLower, ih]
    split <;> rfl

/-- A name is cut at the same dot in small letters. -/
theorem cutToFit_toLower (limit : Nat) (cs : List Char) :
    cutToFit limit (cs.map Char.toLower) = (cutToFit limit cs).map Char.toLower := by
  have hsplit : ∀ cs : List Char, splitFirst? (· = '.') (cs.map Char.toLower) =
      (splitFirst? (· = '.') cs).map (Prod.map (List.map Char.toLower) (List.map Char.toLower)) :=
    splitFirst?_map fun c => decide_eq_decide.2 (Text.toLower_eq_dot c)
  unfold cutToFit
  rw [DomainName.size_toLower, lastFitting_toLower, lastFitting_toLower, hsplit]
  split
  · rfl
  · cases splitFirst? (· = '.') (lastFitting (limit + 1) (Utf8.size cs) cs) <;> rfl

namespace MacroString

variable {m : MacroString} {b b' : Bindings} (hm : m.KeepsLetters) (h : b.CaseEq b')
include hm h

/-- A macro string stands for octets that differ in case if the properties do. -/
theorem lower_expand : (m.expand b).lower = (m.expand b').lower := by
  induction m with
  | nil => rfl
  | cons segment m ih =>
    have hrest := ih fun e he => hm e (List.mem_cons_of_mem _ he)
    have hsegment : (segment.expand b).lower = (segment.expand b').lower := by
      cases segment with
      | literal text => rfl
      | expansion e =>
        have he : e.KeepsLetters := hm e List.mem_cons_self
        simp only [Segment.expand, Expansion.lower_apply he, h.lower_value]
    simp only [Octets.lower, expand, List.flatMap_cons, List.map_append] at hrest hsegment ⊢
    rw [hrest, hsegment]

/-- So does it for characters. -/
theorem toLower_expandChars :
    (m.expandChars b).map Char.toLower = (m.expandChars b').map Char.toLower := by
  unfold expandChars
  rw [← Utf8.decodeLossy_lower, lower_expand hm h, Utf8.decodeLossy_lower]

/-- The names for which a macro string stands are the same up to case. -/
theorem caseEq_toName : Text.CaseEq (m.toName b) (m.toName b') := by
  have hdrop : ∀ cs : List Char, dropTrailing (· = '.') (cs.map Char.toLower) =
      (dropTrailing (· = '.') cs).map Char.toLower :=
    dropTrailing_map fun c => decide_eq_decide.2 (Text.toLower_eq_dot c)
  apply Text.caseEq_ofList
  rw [← cutToFit_toLower, ← hdrop, toLower_expandChars hm h, hdrop, cutToFit_toLower]

/-- The texts for which a macro string stands are the same up to case. -/
theorem caseEq_toText : Text.CaseEq (m.toText b) (m.toText b') :=
  Text.caseEq_ofList (toLower_expandChars hm h)

end MacroString

/-! ## Requests -/

/-- Requests that are the same up to case. -/
structure Request.CaseEq (request request' : Request) : Prop where
  client : request.client = request'.client
  domain : Text.CaseEq request.domain request'.domain
  helo : Text.CaseEq request.helo request'.helo
  sender : Text.CaseEq request.sender request'.sender

/-- Names that differ in case are asked for alike. -/
theorem DomainName.interchangeable_of_caseEq {name name' : String} (h : Text.CaseEq name name') :
    Interchangeable name name' where
  valid := isValid_caseEq h
  qualify := qualify_caseEq h
  within := by rw [h.lowerCase]

/-- The same name is chosen for the client. -/
theorem validatedName_caseEq (env : Environment) (client : Address) {domain domain' : String}
    (h : Text.CaseEq domain domain') :
    validatedName env client domain = validatedName env client domain' := by
  unfold validatedName chooseName
  rw [h.lowerCase]

/-- Names that are made of two requests in the same way: their domains, and what a domain-spec
stands for in the policies of such names. -/
inductive Request.Counterparts (env : Environment) (request request' : Request) :
    String → String → Prop where
  | domain : Counterparts env request request' request.domain request'.domain
  | target {name name' : String} (h : Counterparts env request request' name name')
      (m : MacroString) (hm : m.IsDomainSpec) (validated : String) :
      Counterparts env request request' (m.toName (bindings env request name validated))
        (m.toName (bindings env request' name' validated))

/-- Properties of two requests in the policies of names that are made in the same way. -/
def Request.CounterpartBindings (env : Environment) (request request' : Request)
    (b b' : Bindings) : Prop :=
  ∃ name name' validated, Counterparts env request request' name name' ∧
    b = bindings env request name validated ∧ b' = bindings env request' name' validated

/-- The deadline of a verification has no part in the properties of requests. -/
theorem Request.CounterpartBindings.of_timed {env : Environment} {request request' : Request}
    {b b' : Bindings} (h : CounterpartBindings env.timed request request' b b') :
    CounterpartBindings env request request' b b' := by
  have hnames : ∀ name name', Counterparts env.timed request request' name name' →
      Counterparts env request request' name name' := by
    intro name name' hname
    induction hname with
    | domain => exact .domain
    | target _ m hm validated ih => exact ih.target m hm validated
  obtain ⟨name, name', validated, hname, hb, hb'⟩ := h
  exact ⟨name, name', validated, hnames name name' hname, hb, hb'⟩

namespace Request.CaseEq

variable {request request' : Request} (h : request.CaseEq request') {env : Environment}
include h

/-- Requests that differ in case have properties that do, for the same name of the client. -/
theorem bindings {name name' : String} (hname : Text.CaseEq name name') (validated : String) :
    (bindings env request name validated).CaseEq
      (SenderPolicy.bindings env request' name' validated) where
  client := h.client
  sender := h.sender
  helo := h.helo
  domain := hname
  validatedName := rfl
  receiver := rfl
  timestamp := rfl

/-- Names that are made in the same way are the same up to case. -/
theorem counterparts {name name' : String} (hname : Counterparts env request request' name name') :
    Text.CaseEq name name' := by
  induction hname with
  | domain => exact h.domain
  | target _ m hm validated ih =>
    exact MacroString.caseEq_toName hm.keepsLetters (h.bindings ih validated)

/-- Properties of counterparts differ in case only. -/
theorem counterpartBindings {b b' : Bindings}
    (hb : CounterpartBindings env request request' b b') : b.CaseEq b' := by
  obtain ⟨name, name', validated, hname, rfl, rfl⟩ := hb
  exact h.bindings (h.counterparts hname) validated

/-- The same name of the client is found for both, with the same questions. -/
theorem bindingsFor {name name' : String} (hname : Counterparts env request request' name name')
    (m : MacroString) :
    Simulates Eq (fun b b' => ∃ validated, b = SenderPolicy.bindings env request name validated ∧
        b' = SenderPolicy.bindings env request' name' validated) never
      (bindingsFor env request name m) (bindingsFor env request' name' m) := by
  unfold SenderPolicy.bindingsFor
  rw [← h.client, ← validatedName_caseEq env request.client (h.counterparts hname)]
  apply Simulates.ite
  · exact .bind_eq (.refl _) fun validated => .pure ⟨validated, rfl, rfl⟩
  · exact .pure ⟨"", rfl, rfl⟩

/-- The same policies are evaluated for both requests. -/
theorem respelling : Respelling env request request'
    (fun policy name name' =>
      (∀ m ∈ policy.domainSpecs, m.IsDomainSpec) ∧ Counterparts env request request' name name')
    (Counterparts env request request')
    (fun text b b' => text.KeepsLetters ∧ CounterpartBindings env request request' b b') where
  client := h.client
  domain hplace := DomainName.interchangeable_of_caseEq (h.counterparts hplace.2)
  name hname := DomainName.interchangeable_of_caseEq (h.counterparts hname)
  target hplace m hm := by
    apply Simulates.bind (h.bindingsFor hplace.2 m)
    rintro _ _ ⟨validated, rfl, rfl⟩
    exact .pure (hplace.2.target m (hplace.1 m hm) validated)
  found hname t policy t' hrun := by
    obtain ⟨record, hparse⟩ := parse_of_lookupPolicy hrun
    exact ⟨Policy.domainSpecs_of_parse hparse, hname⟩
  text hplace octets text hparse := by
    apply (h.bindingsFor hplace.2 text).mono _ fun _ he => he
    rintro b b' ⟨validated, hb, hb'⟩
    exact ⟨MacroString.keepsLetters_of_parse? hparse, _, _, validated, hplace.2, hb, hb'⟩

end Request.CaseEq

/-! ## Verifications -/

/-- Verifications of requests that are the same up to case ask the same questions in the same
order, and end with the same counts, the same caches and the same verdict. Explanations are the
same text with the properties of either request, and so the same up to case. -/
theorem verify_caseEq (env : Environment) (t : Traffic) {request request' : Request}
    (h : request.CaseEq request') :
    let outcome := outcomeFrom t (verify env request)
    let outcome' := outcomeFrom t (verify env request')
    ((verify env request).run t).2 = ((verify env request').run t).2 ∧
    (progressAtEnd env request t).budget = (progressAtEnd env request' t).budget ∧
    outcome.verdict = outcome'.verdict ∧
    outcome.domain = request.domain ∧ outcome'.domain = request'.domain ∧
    Option.Rel (fun e e' => Text.CaseEq e e' ∧ ∃ text b b',
        Request.CounterpartBindings env request request' b b' ∧
          e = MacroString.toText b text ∧ e' = MacroString.toText b' text)
      outcome.explanation outcome'.explanation := by
  intro outcome outcome'
  have hdomain := DomainName.interchangeable_of_caseEq h.domain
  have hrespelling : Respelling env.timed request request' _ _ _ := h.respelling
  obtain ⟨hprogress, htraffic, halike⟩ := hrespelling.verify hdomain (t := t) (by
    intro policy t' hrun
    obtain ⟨record, hparse⟩ := parse_of_lookupPolicy hrun
    exact ⟨Policy.domainSpecs_of_parse hparse, .domain⟩)
  refine ⟨htraffic, congrArg Progress.budget hprogress, halike.verdict, halike.domain,
    halike.domain', ?_⟩
  have hexplanation := halike.explanation
  generalize outcome.explanation = e at hexplanation ⊢
  generalize outcome'.explanation = e' at hexplanation ⊢
  cases hexplanation with
  | none => exact .none
  | some hmade =>
    obtain ⟨text, b, b', ⟨hkeeps, hb⟩, rfl, rfl⟩ := hmade
    have hcase := h.counterpartBindings hb
    exact .some ⟨MacroString.caseEq_toText hkeeps hcase, text, b, b', hb.of_timed, rfl, rfl⟩

/-- An environment in which the policy of every name refuses all clients, and says why. -/
def explainingEnvironment : Environment where
  transport _ q :=
    match q with
    | ⟨.txt, "why.example.org."⟩ => ⟨.ok ⟨[Octets.ofAscii "%{s} is not welcome".toList], 300⟩, 0⟩
    | ⟨.txt, _⟩ => ⟨.ok ⟨[Octets.ofAscii "v=spf1 -all exp=why.%{d}".toList], 300⟩, 0⟩
    | _ => ⟨.error (.notFound .nameError), 0⟩
  settings := .standard
  clock _ := 0
  timestamp := 0
  alarm := .silent

/-- A sender in capitals and one in small letters are refused after the same questions, and
each finds its own name in the explanation. -/
theorem verify_caseEq_refusing :
    let request : Request := ⟨.v4 ⟨0xC0000201⟩, "Example.ORG", "MX", "Ann@Example.ORG"⟩
    let request' : Request := ⟨.v4 ⟨0xC0000201⟩, "example.org", "mx", "ann@example.org"⟩
    let t : Traffic := .start (.ofCapacity 16)
    request.CaseEq request' ∧
      ((verify explainingEnvironment request).run t).2 =
        ((verify explainingEnvironment request').run t).2 ∧
      outcomeFrom t (verify explainingEnvironment request) =
        ⟨.fail, "Example.ORG", some "Ann@Example.ORG is not welcome"⟩ ∧
      outcomeFrom t (verify explainingEnvironment request') =
        ⟨.fail, "example.org", some "ann@example.org is not welcome"⟩ := by
  intro request request' t
  have hcase : request.CaseEq request' := ⟨rfl, by decide, by decide, by decide⟩
  refine ⟨hcase, (verify_caseEq explainingEnvironment t hcase).1, ?_, ?_⟩
  all_goals
    rw [outcomeFrom_verify, Recursive.evaluateRequest_eq_requestBy]
    decide +kernel

end SenderPolicy
