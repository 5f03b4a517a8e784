import SenderPolicy.Proofs.Asked
import SenderPolicy.Proofs.SmallForm

/-!
# Names that are asked about

Texts and mail exchangers are asked for at valid names only, and so are the addresses of the
targets of mechanisms. A name is looked at before it is made small, though, and three characters
grow when they are made small: a valid name that has one of these may be asked about in a form
whose labels are too long.

Main definitions:

- `Probe`, `probes`: the questions of a check, with the mechanisms in whose tests they are asked;
- `Probe.AsksOfTarget`: the questions about a requested domain, a target or an explanation;
- `Dns.Question.IsAboutValid`: the questions about the absolute form of a valid name.

Main results:

- `Probed.of_step`, `Probed.of_run`: what holds of the probes of steps and runs;
- `checkHost_asks_about_valid`: every such question is about a valid name, in absolute form, and
  within the limits of length unless the name has a growing character;
- `checkHost_asks_overlong`: with such a character it may have a label that is too long.
-/

namespace SenderPolicy

variable {α : Type}

/-! ## Probes -/

/-- A question of a check, with the mechanism in whose test it is asked, if it is asked there. -/
structure Probe where
  question : Dns.Question
  mechanism? : Option Mechanism

/-- The mechanisms that ask for addresses of their target. -/
def Mechanism.SeeksTarget : Mechanism → Prop
  | .a _ _ _ | .existsName _ => True
  | _ => False

/-- A question about the requested domain, a target or an explanation: texts and mail
exchangers, and addresses if they are those of a target. -/
def Probe.AsksOfTarget (i : Probe) : Prop :=
  i.question.kind = .txt ∨ i.question.kind = .spf ∨ i.question.kind = .mx ∨
    ((i.question.kind = .a ∨ i.question.kind = .aaaa) ∧ ∃ m ∈ i.mechanism?, m.SeeksTarget)

/-- A question is about the form in which a valid name is looked up. -/
def Dns.Question.IsAboutValid (q : Dns.Question) : Prop :=
  ∃ name, DomainName.isValid name = true ∧ q.kind.ownerText q.owner = DomainName.qualify name

/-- The probes for the questions asked in the course of some progress. -/
def newProbes (mechanism? : Option Mechanism) (p p' : Progress) : List Probe :=
  (p'.traffic.log.take (p'.traffic.log.length - p.traffic.log.length)).map (⟨·, mechanism?⟩)

/-- Note the questions of an evaluation, the latest first. What the second part of a step asks
is for the test of its mechanism. -/
def prober (env : Environment) (request : Request) : Observer (List Probe) where
  found p _ p' w := newProbes none p p' ++ w
  step m p _ p' w :=
    let q := ((m.prepare env request).run p).2
    newProbes (m.todo.head?.map Directive.mechanism) q p' ++ (newProbes none p q ++ w)
  explained p _ p' w := newProbes none p p' ++ w

/-- The questions of the check of a host, the latest first. -/
def probes (env : Environment) (request : Request) (t : Traffic) : List Probe :=
  ((observeRequest env request (prober env request)).run (.start env t, [])).2.2

/-! ## What is asked -/

variable {env : Environment} {request : Request} {history : List Dns.Question}

/-- The probes are all questions asked after `history`, and those about targets are about valid
names. -/
structure Probed (history : List Dns.Question) (w : List Probe) (t : Traffic) : Prop where
  log : t.log = w.map Probe.question ++ history
  valid : ∀ i ∈ w, i.AsksOfTarget → i.question.IsAboutValid

/-- Probing goes on with questions that are about valid names where it matters. -/
theorem Probed.after {w : List Probe} {p p' : Progress} (h : Probed history w p.traffic)
    (mechanism? : Option Mechanism)
    (hasked : Asked (fun q => Probe.AsksOfTarget ⟨q, mechanism?⟩ → q.IsAboutValid)
      p.traffic p'.traffic) :
    Probed history (newProbes mechanism? p p' ++ w) p'.traffic := by
  obtain ⟨asked, hlog, hvalid⟩ := hasked
  have hnew : newProbes mechanism? p p' = asked.map (⟨·, mechanism?⟩) := by
    rw [newProbes, hlog, List.length_append, Nat.add_sub_cancel, List.take_left]
  rw [hnew]
  constructor
  · simp [hlog, h.log, Function.comp_def]
  · intro i hi
    rcases List.mem_append.1 hi with hi | hi
    · obtain ⟨q, hq, rfl⟩ := List.mem_map.1 hi
      exact hvalid q hq
    · exact h.valid i hi

/-- Addresses of other hosts and names of the client are not asked for as those of a target. -/
theorem not_asksOfTarget {q : Dns.Question} {mechanism? : Option Mechanism}
    (hq : q.kind = .a ∨ q.kind = .aaaa ∨ q.kind = .ptr)
    (hm : q.kind = .ptr ∨ ∀ m ∈ mechanism?, ¬ m.SeeksTarget) :
    ¬ Probe.AsksOfTarget ⟨q, mechanism?⟩ := by
  rintro (h | h | h | ⟨haddress, m, hmem, hseeks⟩)
  · change q.kind = .txt at h
    simp [h] at hq
  · change q.kind = .spf at h
    simp [h] at hq
  · change q.kind = .mx at h
    simp [h] at hq
  · rcases hm with hptr | hnone
    · change q.kind = .a ∨ q.kind = .aaaa at haddress
      simp [hptr] at haddress
    · exact hnone m hmem hseeks

/-- The texts of a valid name are asked for at a valid name. -/
theorem isAboutValid_txt {name : String} (h : DomainName.isValid name = true) :
    Dns.Question.IsAboutValid ⟨.txt, DomainName.qualify name⟩ :=
  ⟨name, h, rfl⟩

/-- So are its records of type 99. -/
theorem isAboutValid_spf {name : String} (h : DomainName.isValid name = true) :
    Dns.Question.IsAboutValid ⟨.spf, DomainName.qualify name⟩ :=
  ⟨name, h, rfl⟩

/-- What the test of a mechanism asks about its target is about a valid name. -/
theorem Mechanism.Asks.isAboutValid {client : Address} {name : String} {m : Mechanism}
    {q : Dns.Question} (h : m.Asks client name q) (hq : Probe.AsksOfTarget ⟨q, some m⟩) :
    q.IsAboutValid := by
  cases h with
  | a4 hvalid => exact ⟨name, hvalid, rfl⟩
  | a6 hvalid => exact ⟨name, hvalid, rfl⟩
  | mx hvalid => exact ⟨name, hvalid, rfl⟩
  | existsName hvalid => exact ⟨name, hvalid, rfl⟩
  | exchange hkind =>
    refine absurd hq (not_asksOfTarget (by tauto) (.inr ?_))
    simp [Mechanism.SeeksTarget]
  | ptr => exact absurd hq (not_asksOfTarget (by simp) (.inl rfl))
  | clientName hkind =>
    refine absurd hq (not_asksOfTarget (by tauto) (.inr ?_))
    simp [Mechanism.SeeksTarget]

/-- Outside the tests of mechanisms the policies and explanations of valid names are asked for,
and the names of the client. -/
abbrev MayAsk (q : Dns.Question) : Prop := Probe.AsksOfTarget ⟨q, none⟩ → q.IsAboutValid

/-- The addresses of every name may be asked for. -/
theorem mayAsk_address (name : String) : Process.Moves.AllowsAddress MayAsk name :=
  ⟨fun h => absurd h (not_asksOfTarget (by simp) (by simp)),
    fun h => absurd h (not_asksOfTarget (by simp) (by simp))⟩

/-- So may the names of the client. -/
theorem mayAsk_client (client : Address) : MayAsk ⟨.ptr, client⟩ :=
  fun h => absurd h (not_asksOfTarget (by simp) (by simp))

theorem mayAsk_texts {name : String} (h : DomainName.isValid name = true) :
    Process.Moves.AllowsTexts MayAsk name :=
  ⟨fun _ => isAboutValid_txt h, fun _ => isAboutValid_spf h⟩

/-! ## Steps and runs -/

/-- The probes of a step. -/
theorem Probed.of_step {m : Machine} {p p' : Progress} {w : List Probe}
    (h : Probed history w p.traffic) {r : Except Abort Transition}
    (hstep : (m.step env request).run p = (r, p')) :
    Probed history ((prober env request).step m p r p' w) p'.traffic := by
  have hfirst : Asked MayAsk p.traffic ((m.prepare env request).run p).2.traffic :=
    Process.Moves.prepare mayAsk_address (mayAsk_client request.client) m p
  replace hfirst := h.after none hfirst
  rw [Machine.step_eq_bind, Process.run_bind] at hstep
  dsimp only [prober]
  rcases hrun : (m.prepare env request).run p with ⟨e | name, q⟩ <;> rw [hrun] at hstep hfirst
  · cases hstep
    exact hfirst.after _ (.of_log_eq rfl)
  · have hsecond : Asked (fun question =>
        Probe.AsksOfTarget ⟨question, m.todo.head?.map Directive.mechanism⟩ →
          question.IsAboutValid) q.traffic ((m.conclude env request name).run q).2.traffic := by
      refine Process.Moves.conclude (fun hvalid => ?_) (fun d hd question hasks htarget => ?_) q
      · exact ⟨fun _ => isAboutValid_txt hvalid, fun _ => isAboutValid_spf hvalid⟩
      · rw [Option.mem_def.1 hd] at htarget
        exact hasks.isAboutValid htarget
    dsimp only at hstep hfirst ⊢
    rw [hstep] at hsecond
    exact hfirst.after _ hsecond

/-- The probes of a run. -/
theorem Probed.of_run {m : Machine} {p : Progress} {w : List Probe}
    (h : Probed history w p.traffic) {r : Except Abort Finish} {s : Progress × List Probe}
    (hrun : m.observeFrom env request (prober env request) (p, w) = (r, s)) :
    Probed history s.2 s.1.traffic := by
  obtain ⟨-, rfl⟩ := Prod.mk.inj hrun
  refine Machine.observeFrom_invariant (fun _ p w => Probed history w p.traffic)
    (fun _ p w => Probed history w p.traffic) ?_ ?_ ?_ h
  · exact fun _ _ _ _ _ h hstep => h.of_step hstep
  · exact fun _ _ _ _ _ h hstep => h.of_step hstep
  · exact fun _ _ _ _ _ h hstep => h.of_step hstep

/-- The probes of a request. -/
theorem Probed.of_request (env : Environment) (request : Request) (p : Progress) :
    let s := (observeRequest env request (prober env request)).run (p, [])
    Probed p.traffic.log s.2.2 s.2.1.traffic := by
  have hstart : Probed p.traffic.log [] p.traffic := ⟨rfl, by simp⟩
  by_cases hvalid : DomainName.isValid request.domain = true
  · have hfound : ∀ {r p'},
        (Evaluation.ofLookup (lookupPolicy env request.domain)).run p = (r, p') →
        Probed p.traffic.log (newProbes none p p' ++ []) p'.traffic := by
      intro r p' hrun
      have hasked : Asked MayAsk p.traffic
          ((Evaluation.ofLookup (lookupPolicy env request.domain)).run p).2.traffic :=
        Process.Moves.ofLookup (Process.Moves.lookupPolicy (mayAsk_texts hvalid)) p
      rw [hrun] at hasked
      exact hstart.after none hasked
    refine observeRequest_cases (fun _ q w => Probed p.traffic.log w q.traffic) ?_ ?_ ?_ ?_
    · exact fun _ => hstart
    · exact fun e p' hlookup => hfound hlookup
    · exact fun policy p' e s hlookup hrun => (hfound hlookup).of_run hrun
    · intro policy p' finish s x q hlookup hrun hexplain
      have hasked : Asked MayAsk s.1.traffic
          ((Evaluation.ofLookup (explainFinish env request finish)).run s.1).2.traffic :=
        Process.Moves.ofLookup (Process.Moves.explainFinish mayAsk_address
          (mayAsk_client request.client) (fun name h => (mayAsk_texts h).1) finish) s.1
      rw [hexplain] at hasked
      exact ((hfound hlookup).of_run hrun).after none hasked
  · unfold observeRequest
    rw [if_neg hvalid]
    exact hstart

/-! ## The check of a host -/

/-- The probes of a check are all of its questions. Those about the requested domain, about a
target or an explanation are about a valid name in absolute form: with a dot at its end, two
labels or more and no empty one. Its labels and the whole are within the limits of length unless
the name has one of the characters that grow when they are made small, since only the name is
looked at and not its small form. -/
theorem checkHost_asks_about_valid (env : Environment) (request : Request) (t : Traffic) :
    ((checkHost env request).run t).2.log =
        (probes env request t).map Probe.question ++ t.log ∧
      ∀ i ∈ probes env request t, i.AsksOfTarget →
        ∃ name, DomainName.isValid name = true ∧
          i.question.kind.ownerText i.question.owner = DomainName.qualify name ∧
          DomainName.IsAbsolute (DomainName.qualify name) ∧
          ((∀ c ∈ name.toList, c ∉ Text.growing) → DomainName.Fits (DomainName.qualify name)) := by
  have hprobed := Probed.of_request env request (.start env t)
  have hforget := observes_observeRequest env request (prober env request) (.start env t, [])
  constructor
  · rw [run_checkHost, ← hforget]
    exact hprobed.log
  · intro i hi htarget
    obtain ⟨name, hvalid, htext⟩ := hprobed.valid i hi htarget
    exact ⟨name, hvalid, htext, DomainName.isAbsolute_qualify hvalid,
      DomainName.fits_qualify hvalid⟩

/-- An environment in which no name has records. -/
def emptyEnvironment : Environment where
  transport _ _ := ⟨.error (.notFound .noError), 20⟩
  settings := .standard
  clock _ := 0
  timestamp := 0
  alarm := .silent

/-- A label of thirty-one dotted capitals takes sixty-two octets, and is asked about in a form
of ninety-three. -/
theorem checkHost_asks_overlong :
    let name := String.ofList (List.replicate 31 '\u0130' ++ ['.', 'o', 'r', 'g'])
    DomainName.isValid name = true ∧
      ∃ i ∈ probes emptyEnvironment (.forHelo (.v4 ⟨0xC0000201⟩) name) (.start .disabled),
        i.AsksOfTarget ∧ ¬ DomainName.Fits (i.question.kind.ownerText i.question.owner) := by
  intro name
  have hvalid : DomainName.isValid name = true := by decide +kernel
  have hprobes : probes emptyEnvironment (.forHelo (.v4 ⟨0xC0000201⟩) name) (.start .disabled) =
      [⟨⟨.txt, DomainName.qualify name⟩, none⟩] := by
    have hrequested : DomainName.isValid (Request.forHelo (.v4 ⟨0xC0000201⟩) name).domain = true :=
      hvalid
    unfold probes observeRequest
    rw [if_pos hrequested]
    rfl
  have hlong : ¬ ∀ label ∈ DomainName.labels (DomainName.qualify name),
      Utf8.size label ≤ DomainName.maxLabelSize := by
    decide +kernel
  refine ⟨hvalid, _, hprobes ▸ List.mem_singleton_self _, .inl rfl, ?_⟩
  exact fun hfits => hlong hfits.label

end SenderPolicy
