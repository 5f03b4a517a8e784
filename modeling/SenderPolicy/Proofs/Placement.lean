import Mathlib.Data.List.Basic
import Mathlib.Data.List.TakeWhile
import SenderPolicy.Proofs.TermGrammar

/-!
# The place of terms

The terms of a record stand anywhere in it, as long as there are blanks between them. Its directives
are read in their order, while its modifiers may stand in any order and anywhere among the
directives.

Main definitions:

- `Spaced`: terms, and a record of these terms;
- `Term.isModifier`: the terms whose name ends at an equals sign;
- `Policy.gather`: the directives and the modifiers of terms, each in order;
- `Policy.NamesOnce`: policies without a second redirection or a second explanation;
- `Policy.Rearranged`: terms with the same modifiers in other places.

Main results:

- `Policy.terms_eq_iff`: a record has the terms that stand in it with blanks between them;
- `Policy.ofTerms?_gather`: terms are a policy if each can be read and none repeats another;
- `Policy.parse_of_spaced`: what a record is read as, wherever its modifiers stand.
-/

namespace SenderPolicy

/-! ## Records of terms -/

/-- Terms, and a record of these terms: there are blanks between them, and perhaps before the first
and after the last. -/
inductive Spaced : List Octets → Octets → Prop where
  | blank {gap : Octets} (hgap : ∀ b ∈ gap, Octet.isBlank b = true) : Spaced [] gap
  | term {gap term rest : Octets} {terms : List Octets} (hgap : ∀ b ∈ gap, Octet.isBlank b = true)
      (hne : term ≠ []) (hterm : ∀ b ∈ term, Octet.isBlank b = false)
      (hnext : ∀ b ∈ rest.head?, Octet.isBlank b = true) (hrest : Spaced terms rest) :
      Spaced (term :: terms) (gap ++ (term ++ rest))

namespace Policy

/-- Blanks before the first term are passed over. -/
theorem terms_blank_append {gap : Octets} (hgap : ∀ b ∈ gap, Octet.isBlank b = true)
    (record : Octets) : terms (gap ++ record) = terms record := by
  induction gap with
  | nil => rfl
  | cons b gap ih =>
    have hb : Octet.isBlank b = true := hgap b List.mem_cons_self
    rw [← ih fun c hc => hgap c (List.mem_cons_of_mem b hc)]
    simp [terms, pieces, hb]

/-- The first term ends where the first blank stands. -/
theorem terms_term_append {term rest : Octets} (hne : term ≠ [])
    (hterm : ∀ b ∈ term, Octet.isBlank b = false)
    (hnext : ∀ b ∈ rest.head?, Octet.isBlank b = true) :
    terms (term ++ rest) = term :: terms rest := by
  obtain ⟨parts, hparts⟩ : ∃ parts, pieces Octet.isBlank rest = [] :: parts := by
    cases rest with
    | nil => exact ⟨[], rfl⟩
    | cons b rest => exact ⟨pieces Octet.isBlank rest, if_pos (hnext b rfl)⟩
  have hpieces := pieces_append_of_forall_not hterm hparts
  simp [terms, hpieces, hparts, hne]

/-- A record has the terms that it is written with, whatever spaces are between them. -/
theorem terms_of_spaced {terms record} (h : Spaced terms record) : Policy.terms record = terms := by
  induction h with
  | @blank gap hgap =>
    have hterms := terms_blank_append hgap []
    rwa [List.append_nil] at hterms
  | term hgap hne hterm hnext _ ih =>
    rw [terms_blank_append hgap, terms_term_append hne hterm hnext, ih]

/-- Every record is one of some terms. -/
theorem exists_spaced (record : Octets) : ∃ terms, Spaced terms record := by
  induction record with
  | nil => exact ⟨[], .blank (List.forall_mem_nil _)⟩
  | cons b rest ih =>
    obtain ⟨terms, hrest⟩ := ih
    by_cases hb : Octet.isBlank b = true
    · cases hrest with
      | blank hgap => exact ⟨[], .blank (List.forall_mem_cons.2 ⟨hb, hgap⟩)⟩
      | term hgap hne hterm hnext hrest =>
        exact ⟨_, .term (List.forall_mem_cons.2 ⟨hb, hgap⟩) hne hterm hnext hrest⟩
    · have hword : ∀ c ∈ [b], Octet.isBlank c = false := by simpa using hb
      by_cases hnext : ∀ c ∈ rest.head?, Octet.isBlank c = true
      · exact ⟨[b] :: terms,
          .term (List.forall_mem_nil _) (List.cons_ne_nil b []) hword hnext hrest⟩
      · -- The octet belongs to the term that starts right after it.
        cases hrest with
        | blank hgap => exact absurd (fun c hc => hgap c (List.mem_of_mem_head? hc)) hnext
        | @term gap term rest terms hgap hne hterm hnext' hrest =>
          cases gap with
          | cons g gap =>
            refine absurd (fun c hc => ?_) hnext
            cases hc
            exact hgap g List.mem_cons_self
          | nil =>
            have hmore : ∀ c ∈ b :: term, Octet.isBlank c = false :=
              List.forall_mem_cons.2 ⟨hword b List.mem_cons_self, hterm⟩
            exact ⟨(b :: term) :: terms,
              .term (List.forall_mem_nil _) (List.cons_ne_nil b term) hmore hnext' hrest⟩

/-- A record has the terms that stand in it with blanks between them. -/
theorem terms_eq_iff {record : Octets} {terms : List Octets} :
    Policy.terms record = terms ↔ Spaced terms record := by
  constructor
  · rintro rfl
    obtain ⟨terms, h⟩ := exists_spaced record
    rwa [terms_of_spaced h]
  · exact terms_of_spaced

end Policy

/-! ## Terms as they are read -/

namespace Modifier

/-- Whether a modifier is a redirection. -/
def isRedirect : Modifier → Bool
  | .redirect _ => true
  | _ => false

/-- Whether a modifier points to an explanation. -/
def isExplanation : Modifier → Bool
  | .explanation _ => true
  | _ => false

end Modifier

namespace Term

/-- Whether the name of a term ends at an equals sign. Such a term can only be a modifier, and the
others can only be directives. -/
def isModifier (term : Octets) : Bool := term.find? endsName == some '='.toUInt8

/-- The directive that a term is read as. -/
def readDirective? (term : Octets) : Option Directive :=
  match parse? term with
  | some (.directive d) => some d
  | _ => none

/-- The modifier that a term is read as. -/
def readModifier? (term : Octets) : Option Modifier :=
  match parse? term with
  | some (.modifier m) => some m
  | _ => none

/-- Whether a term is read as a modifier of a kind. -/
def readsAs (kind : Modifier → Bool) (term : Octets) : Bool :=
  ((readModifier? term).map kind).getD false

/-- A qualifier does not end a name. -/
theorem find?_takeQualifier (term : Octets) :
    (takeQualifier term).2.find? endsName = term.find? endsName := by
  cases term with
  | nil => rfl
  | cons b rest =>
    rw [takeQualifier]
    split
    next q hq =>
      have hb : endsName b = false := by
        rw [qualifier?_eq_some_iff.1 hq]
        cases q <;> rfl
      simp [hb]
    next => rfl

/-- What is read as a modifier has a name that ends at an equals sign, and what is read as a
directive has none. -/
theorem isModifier_of_parse? {term : Octets} {t : Term} (h : parse? term = some t) :
    isModifier term = match t with
      | .directive _ => false
      | .modifier _ => true := by
  have hname : term.find? endsName = ((takeQualifier term).2.dropWhile (!endsName ·)).head? := by
    rw [← find?_takeQualifier, List.find?_eq_head?_dropWhile_not]
  unfold isModifier
  rw [hname]
  unfold parse? at h
  dsimp only at h
  split at h
  next hequals =>
    split at h
    · obtain ⟨m, -, rfl⟩ := Option.map_eq_some_iff.1 h
      simp [hequals]
    · cases h
  next hequals =>
    obtain ⟨m, -, rfl⟩ := Option.map_eq_some_iff.1 h
    simpa using hequals

/-- A modifier is not read as a directive. -/
theorem readDirective?_of_isModifier {term : Octets} (h : isModifier term = true) :
    readDirective? term = none := by
  unfold readDirective?
  split
  next d hparse =>
    rw [isModifier_of_parse? hparse] at h
    cases h
  next => rfl

/-- Any other term is not read as a modifier. -/
theorem readModifier?_of_not_isModifier {term : Octets} (h : isModifier term = false) :
    readModifier? term = none := by
  unfold readModifier?
  split
  next m hparse =>
    rw [isModifier_of_parse? hparse] at h
    cases h
  next => rfl

end Term

/-! ## What is found first -/

section FindSome

variable {α β : Type} {f : α → Option β} {kind : α → Bool} (hkind : ∀ a, (f a).isSome = kind a)
include hkind

/-- Nothing is found if there is nothing of the kind that can be found. -/
theorem findSome?_eq_none_iff_countP {l : List α} :
    l.findSome? f = none ↔ l.countP kind = 0 := by
  rw [List.findSome?_eq_none_iff, List.countP_eq_zero]
  refine forall₂_congr fun a _ => ?_
  rw [← hkind, Bool.not_eq_true, Option.isSome_eq_false_iff, Option.isNone_iff_eq_none]

/-- What is found first does not depend on the order if nothing else can be found. -/
theorem findSome?_eq_of_perm {l l' : List α} (h : l.Perm l') (hone : l.countP kind ≤ 1) :
    l.findSome? f = l'.findSome? f := by
  obtain rfl : (fun a => (f a).isSome) = kind := funext hkind
  rw [← List.length_filterMap_eq_countP] at hone
  have hperm : (l.filterMap f).Perm (l'.filterMap f) := h.filterMap f
  have heq : l.filterMap f = l'.filterMap f := by
    rcases hl : l.filterMap f with _ | ⟨b, _ | ⟨c, rest⟩⟩
    · rw [hl] at hperm
      exact hperm.nil_eq
    · rw [hl] at hperm
      exact List.singleton_perm.1 hperm
    · simp [hl] at hone
  rw [← List.head?_filterMap, heq, List.head?_filterMap]

end FindSome

/-! ## Policies of terms -/

namespace Policy

/-- The directives and the modifiers that terms are read as, each in order. -/
def gather (terms : List Octets) : Policy :=
  ⟨terms.filterMap Term.readDirective?, terms.filterMap Term.readModifier?⟩

/-- Neither a redirection nor an explanation is given twice. -/
structure NamesOnce (p : Policy) : Prop where
  redirect : p.modifiers.countP Modifier.isRedirect ≤ 1
  explanation : p.modifiers.countP Modifier.isExplanation ≤ 1

/-- A policy redirects unless it has no such modifier. -/
theorem redirect?_eq_none_iff {p : Policy} :
    p.redirect? = none ↔ p.modifiers.countP Modifier.isRedirect = 0 :=
  findSome?_eq_none_iff_countP fun m => by cases m <;> rfl

theorem explanation?_eq_none_iff {p : Policy} :
    p.explanation? = none ↔ p.modifiers.countP Modifier.isExplanation = 0 :=
  findSome?_eq_none_iff_countP fun m => by cases m <;> rfl

/-- With one more modifier nothing is given twice if the modifier gives what was not given. -/
theorem namesOnce_append_iff {p : Policy} (hp : p.NamesOnce) (m : Modifier) :
    NamesOnce { p with modifiers := p.modifiers ++ [m] } ↔
      (m.isRedirect = true → p.redirect? = none) ∧
        (m.isExplanation = true → p.explanation? = none) := by
  have hcount : ∀ kind : Modifier → Bool, p.modifiers.countP kind ≤ 1 →
      ((p.modifiers ++ [m]).countP kind ≤ 1 ↔ (kind m = true → p.modifiers.countP kind = 0)) := by
    intro kind hone
    rw [List.countP_append, List.countP_singleton]
    by_cases hkind : kind m = true
    · simp [hkind]
    · simp [hkind, hone]
  rw [redirect?_eq_none_iff, explanation?_eq_none_iff, ← hcount _ hp.redirect,
    ← hcount _ hp.explanation]
  exact ⟨fun h => ⟨h.redirect, h.explanation⟩, fun h => ⟨h.1, h.2⟩⟩

/-- A modifier is added to a policy unless it gives a redirection or an explanation again. -/
theorem add?_modifier_eq_some_iff {p q : Policy} (hp : p.NamesOnce) (m : Modifier) :
    p.add? (.modifier m) = some q ↔
      NamesOnce { p with modifiers := p.modifiers ++ [m] } ∧
        q = { p with modifiers := p.modifiers ++ [m] } := by
  rw [namesOnce_append_iff hp, @eq_comm _ q]
  cases m with
  | redirect target => simp [add?, Modifier.isRedirect, Modifier.isExplanation]
  | explanation target => simp [add?, Modifier.isRedirect, Modifier.isExplanation]
  | unknown name value => simp [add?, Modifier.isRedirect, Modifier.isExplanation]

/-- A term is added to a policy unless it gives a redirection or an explanation again. -/
theorem add?_gather {front : List Octets} {term : Octets} {t : Term} {q : Policy}
    (hparse : Term.parse? term = some t) (hfront : (gather front).NamesOnce) :
    (gather front).add? t = some q ↔
      (gather (front ++ [term])).NamesOnce ∧ q = gather (front ++ [term]) := by
  cases t with
  | directive d =>
    have hgather : gather (front ++ [term]) =
        { gather front with directives := (gather front).directives ++ [d] } := by
      simp [gather, Term.readDirective?, Term.readModifier?, hparse]
    rw [hgather]
    have honce : NamesOnce { gather front with directives := (gather front).directives ++ [d] } :=
      ⟨hfront.redirect, hfront.explanation⟩
    rw [and_iff_right honce]
    exact ⟨fun h => (Option.some.inj h).symm, fun h => congrArg some h.symm⟩
  | modifier m =>
    have hgather : gather (front ++ [term]) =
        { gather front with modifiers := (gather front).modifiers ++ [m] } := by
      simp [gather, Term.readDirective?, Term.readModifier?, hparse]
    rw [hgather]
    exact add?_modifier_eq_some_iff hfront m

/-- Nothing is given twice by fewer terms. -/
theorem NamesOnce.of_append {front terms : List Octets}
    (h : (gather (front ++ terms)).NamesOnce) : (gather front).NamesOnce := by
  obtain ⟨hredirect, hexplanation⟩ := h
  simp only [gather, List.filterMap_append, List.countP_append] at hredirect hexplanation
  exact ⟨Nat.le_trans (Nat.le_add_right _ _) hredirect,
    Nat.le_trans (Nat.le_add_right _ _) hexplanation⟩

/-- Terms are added to those of a policy if each can be read and nothing is given twice. -/
theorem ofTerms?_gather {front terms : List Octets} {q : Policy}
    (hfront : (gather front).NamesOnce) :
    ofTerms? (gather front) terms = some q ↔ (∀ term ∈ terms, ∃ t, Term.parse? term = some t) ∧
      (gather (front ++ terms)).NamesOnce ∧ q = gather (front ++ terms) := by
  induction terms generalizing front with
  | nil => simp [ofTerms?, hfront, eq_comm]
  | cons term rest ih =>
    have happend : front ++ term :: rest = (front ++ [term]) ++ rest := by simp
    rw [happend, List.forall_mem_cons, ofTerms?]
    cases hparse : Term.parse? term with
    | none => simp
    | some t =>
      simp only [Option.bind_eq_bind, Option.bind_some, Option.bind_eq_some_iff,
        add?_gather hparse hfront]
      constructor
      · rintro ⟨p, ⟨honce, rfl⟩, hrest⟩
        obtain ⟨hterms, hwhole⟩ := (ih honce).1 hrest
        exact ⟨⟨⟨t, rfl⟩, hterms⟩, hwhole⟩
      · rintro ⟨⟨-, hterms⟩, honce, rfl⟩
        have hfirst := honce.of_append
        exact ⟨_, ⟨hfirst, rfl⟩, (ih hfirst).2 ⟨hterms, honce, rfl⟩⟩

/-- Terms are a policy if each can be read and nothing is given twice. -/
theorem parse_eq_ok_iff {record first : Octets} {rest : List Octets} {p : Policy}
    (hrecord : Spaced (first :: rest) record) (hversion : first.eqIgnoreCase version = true) :
    parse record = .ok p ↔ (∀ term ∈ rest, ∃ t, Term.parse? term = some t) ∧
      (gather rest).NamesOnce ∧ p = gather rest := by
  have hempty : (gather []).NamesOnce := ⟨Nat.zero_le 1, Nat.zero_le 1⟩
  rw [parse_eq_ok_iff_of_version (terms_eq_iff.2 hrecord) hversion]
  exact @ofTerms?_gather [] rest p hempty

/-- A record that is no policy although its first term is the version is malformed. -/
theorem parse_of_not_ok {record first : Octets} {rest : List Octets}
    (hrecord : Spaced (first :: rest) record) (hversion : first.eqIgnoreCase version = true)
    (hnot : ¬ ∃ p, parse record = .ok p) : parse record = .error .malformed := by
  rw [parse_of_version (terms_eq_iff.2 hrecord) hversion] at hnot ⊢
  cases hread : ofTerms? empty rest with
  | none => rfl
  | some p =>
    rw [hread] at hnot
    exact absurd ⟨p, rfl⟩ hnot

/-! ## Modifiers in other places -/

/-- Only the modifiers among terms count for a kind of modifiers. -/
theorem namesOnce_gather_iff {terms : List Octets} :
    (gather terms).NamesOnce ↔ terms.countP (Term.readsAs Modifier.isRedirect) ≤ 1 ∧
      terms.countP (Term.readsAs Modifier.isExplanation) ≤ 1 := by
  have hcount : ∀ kind : Modifier → Bool, (gather terms).modifiers.countP kind =
      terms.countP (Term.readsAs kind) := fun kind => List.countP_filterMap
  rw [← hcount, ← hcount]
  exact ⟨fun h => ⟨h.redirect, h.explanation⟩, fun h => ⟨h.1, h.2⟩⟩

/-- The directives of terms are those of the terms that are no modifiers. -/
theorem directives_gather (terms : List Octets) : (gather terms).directives =
    (terms.filter (!Term.isModifier ·)).filterMap Term.readDirective? := by
  rw [List.filterMap_filter]
  refine List.filterMap_congr fun term _ => ?_
  cases hterm : Term.isModifier term with
  | false => rfl
  | true => exact Term.readDirective?_of_isModifier hterm

/-- The modifiers of terms are those of the terms that are modifiers. -/
theorem modifiers_gather (terms : List Octets) : (gather terms).modifiers =
    (terms.filter Term.isModifier).filterMap Term.readModifier? := by
  rw [List.filterMap_filter]
  refine List.filterMap_congr fun term _ => ?_
  cases hterm : Term.isModifier term with
  | true => rfl
  | false => exact Term.readModifier?_of_not_isModifier hterm

/-- Terms with the same directives in the same order and the same modifiers, which may stand in any
order and anywhere among the directives. -/
structure Rearranged (terms terms' : List Octets) : Prop where
  directives : terms.filter (!Term.isModifier ·) = terms'.filter (!Term.isModifier ·)
  modifiers : (terms.filter Term.isModifier).Perm (terms'.filter Term.isModifier)

namespace Rearranged

variable {terms terms' : List Octets} (h : Rearranged terms terms')
include h

/-- Terms that are rearranged are the same terms. -/
theorem perm : terms.Perm terms' := by
  have hrest : (terms.filter fun t => !Term.isModifier t).Perm
      (terms'.filter fun t => !Term.isModifier t) := .of_eq h.directives
  calc
    terms.Perm _ := (List.filter_append_perm Term.isModifier terms).symm
    List.Perm _ _ := h.modifiers.append hrest
    List.Perm _ terms' := List.filter_append_perm Term.isModifier terms'

/-- The directives are gathered in the same order. -/
theorem directives_gather : (gather terms).directives = (gather terms').directives := by
  rw [Policy.directives_gather, Policy.directives_gather, h.directives]

/-- The same modifiers are gathered, in any order. -/
theorem modifiers_gather : (gather terms).modifiers.Perm (gather terms').modifiers := by
  rw [Policy.modifiers_gather, Policy.modifiers_gather]
  exact h.modifiers.filterMap _

theorem symm : Rearranged terms' terms := ⟨h.directives.symm, h.modifiers.symm⟩

/-- Modifiers that stand once do so when they are rearranged. -/
theorem namesOnce (honce : (gather terms).NamesOnce) : (gather terms').NamesOnce :=
  ⟨h.modifiers_gather.countP_eq _ ▸ honce.redirect,
    h.modifiers_gather.countP_eq _ ▸ honce.explanation⟩

end Rearranged

/-- Where modifiers stand once their order does not matter to the redirection. -/
theorem redirect?_eq_of_perm {p p' : Policy} (h : p.modifiers.Perm p'.modifiers)
    (hp : p.NamesOnce) : p.redirect? = p'.redirect? :=
  findSome?_eq_of_perm (fun m => by cases m <;> rfl) h hp.redirect

theorem explanation?_eq_of_perm {p p' : Policy} (h : p.modifiers.Perm p'.modifiers)
    (hp : p.NamesOnce) : p.explanation? = p'.explanation? :=
  findSome?_eq_of_perm (fun m => by cases m <;> rfl) h hp.explanation

/-- A policy is still a policy when its modifiers stand elsewhere, and gives the same. -/
theorem parse_of_rearranged {record record' first first' : Octets} {rest rest' : List Octets}
    {p : Policy} (hrecord : Spaced (first :: rest) record)
    (hversion : first.eqIgnoreCase version = true) (hrecord' : Spaced (first' :: rest') record')
    (hversion' : first'.eqIgnoreCase version = true) (h : Rearranged rest rest')
    (hparse : parse record = .ok p) :
    ∃ p', parse record' = .ok p' ∧ p.directives = p'.directives ∧ p.redirect? = p'.redirect? ∧
      p.explanation? = p'.explanation? := by
  obtain ⟨hterms, honce, rfl⟩ := (parse_eq_ok_iff hrecord hversion).1 hparse
  have hterms' : ∀ term ∈ rest', ∃ t, Term.parse? term = some t :=
    fun term hterm => hterms term (h.perm.mem_iff.2 hterm)
  refine ⟨gather rest', ?_, h.directives_gather, ?_, ?_⟩
  · exact (parse_eq_ok_iff hrecord' hversion').2 ⟨hterms', h.namesOnce honce, rfl⟩
  · exact redirect?_eq_of_perm h.modifiers_gather honce
  · exact explanation?_eq_of_perm h.modifiers_gather honce

/-- A record that starts with the version is a policy if each of its other terms can be read, and at
most one of these is a redirection and at most one points to an explanation; otherwise it is
malformed. With the modifiers in any other order and place, and with any other blanks between the
terms, a malformed record remains malformed, and a policy keeps its directives, its redirection and
its explanation. -/
theorem parse_of_spaced {record first : Octets} {rest : List Octets}
    (hrecord : Spaced (first :: rest) record) (hversion : first.eqIgnoreCase version = true) :
    ((∃ p, parse record = .ok p) ↔ (∀ term ∈ rest, ∃ t, Term.parse? term = some t) ∧
      rest.countP (Term.readsAs Modifier.isRedirect) ≤ 1 ∧
      rest.countP (Term.readsAs Modifier.isExplanation) ≤ 1) ∧
    ((¬ ∃ p, parse record = .ok p) → parse record = .error .malformed) ∧
    ∀ {record' first' : Octets} {rest' : List Octets}, Spaced (first' :: rest') record' →
      first'.eqIgnoreCase version = true → Rearranged rest rest' →
        (parse record = .error .malformed ∧ parse record' = .error .malformed) ∨
          ∃ p p', parse record = .ok p ∧ parse record' = .ok p' ∧ p.directives = p'.directives ∧
            p.redirect? = p'.redirect? ∧ p.explanation? = p'.explanation? := by
  refine ⟨?_, parse_of_not_ok hrecord hversion, ?_⟩
  · rw [← namesOnce_gather_iff]
    constructor
    · rintro ⟨p, hparse⟩
      obtain ⟨hterms, honce, -⟩ := (parse_eq_ok_iff hrecord hversion).1 hparse
      exact ⟨hterms, honce⟩
    · rintro ⟨hterms, honce⟩
      exact ⟨_, (parse_eq_ok_iff hrecord hversion).2 ⟨hterms, honce, rfl⟩⟩
  · intro record' first' rest' hrecord' hversion' h
    by_cases hok : ∃ p, parse record = .ok p
    · obtain ⟨p, hparse⟩ := hok
      obtain ⟨p', hparse', halike⟩ :=
        parse_of_rearranged hrecord hversion hrecord' hversion' h hparse
      exact .inr ⟨p, p', hparse, hparse', halike⟩
    · have hok' : ¬ ∃ p', parse record' = .ok p' := by
        rintro ⟨p', hparse'⟩
        obtain ⟨p, hparse, -⟩ :=
          parse_of_rearranged hrecord' hversion' hrecord hversion h.symm hparse'
        exact hok ⟨p, hparse⟩
      exact .inl ⟨parse_of_not_ok hrecord hversion hok, parse_of_not_ok hrecord' hversion' hok'⟩

/-- The redirection may stand before the directives or after them, and the pointer to an explanation
between them. -/
theorem parse_of_spaced_moved :
    let record := Octets.ofAscii "v=spf1 redirect=r.example a x=y -all exp=e.example".toList
    let record' := Octets.ofAscii "\tV=SPF1 a  exp=e.example\nx=y -all redirect=r.example ".toList
    let rest := (terms record).tail
    let rest' := (terms record').tail
    Spaced (version :: rest) record ∧ version.eqIgnoreCase version = true ∧
      Spaced (Octets.ofAscii "V=SPF1".toList :: rest') record' ∧
      (Octets.ofAscii "V=SPF1".toList).eqIgnoreCase version = true ∧ Rearranged rest rest' ∧
      ∃ p p', parse record = .ok p ∧ parse record' = .ok p' ∧ p.directives = p'.directives ∧
        p.redirect? = p'.redirect? ∧ p.explanation? = p'.explanation? := by
  intro record record' rest rest'
  have hrecord : Spaced (version :: rest) record := terms_eq_iff.1 (by decide +kernel)
  have hversion : version.eqIgnoreCase version = true := by decide
  have hrecord' : Spaced (Octets.ofAscii "V=SPF1".toList :: rest') record' :=
    terms_eq_iff.1 (by decide +kernel)
  have hversion' : (Octets.ofAscii "V=SPF1".toList).eqIgnoreCase version = true := by decide
  have hrest : Rearranged rest rest' := ⟨by decide +kernel, by decide +kernel⟩
  refine ⟨hrecord, hversion, hrecord', hversion', hrest, ?_⟩
  have hok : parse record ≠ .error .malformed := by decide +kernel
  exact ((parse_of_spaced hrecord hversion).2.2 hrecord' hversion' hrest).resolve_left
    fun h => hok h.1

end Policy

end SenderPolicy
