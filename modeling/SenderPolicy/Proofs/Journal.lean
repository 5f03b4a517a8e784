import SenderPolicy.Proofs.Observation

/-!
# Journals

A journal of a verification says of each question what it was asked for and how it
fared. A step of the machine is taken apart for this: it first finds the name that
its term is about, and then does what the term says about that name.

Main definitions:

- `Purpose`, `Inquiry`: what questions are asked for, and questions with their fate;
- `Machine.prepare`, `Machine.conclude`: the two parts of a step;
- `journal`: the journal of a verification.

Main results:

- `Machine.step_eq_bind`: a step is its two parts;
- `IsRecord`: journals hold every question asked, and its fate is the one that it had.
-/

namespace SenderPolicy

/-! ## Inquiries -/

/-- What a question is asked for. -/
inductive Purpose where
  /-- The policy of the requested domain, or of the target of an inclusion or redirection. -/
  | policy
  | mechanism
  /-- The confirmed name of the client, for a macro string. -/
  | clientName
  | explanation
  deriving DecidableEq, Repr

/-- Whether a verdict rests on the answer. -/
def Purpose.isDecisive : Purpose → Bool
  | .policy | .mechanism => true
  | .clientName | .explanation => false

/-- A question with what it was asked for and how it fared. -/
structure Inquiry where
  purpose : Purpose
  question : Dns.Question
  fault? : Option Fault

/-- The inquiries for one purpose, where `history` was asked before. -/
def annotate (env : Environment) (purpose : Purpose) (history : List Dns.Question) :
    List Dns.Question → List Inquiry
  | [] => []
  | q :: asked =>
    ⟨purpose, q, env.fault? (asked ++ history) q⟩ :: annotate env purpose history asked

/-- The inquiries made in the course of some progress, for one purpose. -/
def inquiries (env : Environment) (purpose : Purpose) (p p' : Progress) : List Inquiry :=
  annotate env purpose p.traffic.log
    (p'.traffic.log.take (p'.traffic.log.length - p.traffic.log.length))

/-- The inquiries are those about the questions that were added. -/
theorem inquiries_of_log {env : Environment} {purpose : Purpose} {p p' : Progress}
    {asked : List Dns.Question} (h : p'.traffic.log = asked ++ p.traffic.log) :
    inquiries env purpose p p' = annotate env purpose p.traffic.log asked := by
  rw [inquiries, h, List.length_append, Nat.add_sub_cancel, List.take_left]

/-- What is asked for in one go has one purpose. -/
theorem purpose_of_mem_annotate {env : Environment} {purpose : Purpose}
    {history asked : List Dns.Question} {i : Inquiry}
    (h : i ∈ annotate env purpose history asked) : i.purpose = purpose := by
  induction asked with
  | nil => simp [annotate] at h
  | cons q asked ih =>
    rcases List.mem_cons.1 h with rfl | h
    · rfl
    · exact ih h

/-- Inquiries may be noted in two goes. -/
theorem annotate_append (env : Environment) (purpose : Purpose)
    (history earlier later : List Dns.Question) :
    annotate env purpose history (later ++ earlier) =
      annotate env purpose (earlier ++ history) later ++ annotate env purpose history earlier := by
  induction later with
  | nil => rfl
  | cons q later ih =>
    simp only [List.cons_append, annotate, ih, List.append_assoc]

/-! ## Records -/

/-- A journal records what was asked after `history`, up to `log`: it holds every
question, with the fault with which that was answered at the time. -/
inductive IsRecord (env : Environment) (history : List Dns.Question) :
    List Inquiry → List Dns.Question → Prop where
  | nil : IsRecord env history [] history
  | cons {w : List Inquiry} {log : List Dns.Question} (purpose : Purpose) (q : Dns.Question) :
      IsRecord env history w log →
      IsRecord env history (⟨purpose, q, env.fault? log q⟩ :: w) (q :: log)

namespace IsRecord

variable {env : Environment} {history log : List Dns.Question} {w : List Inquiry}

/-- The questions of a record are those that were asked. -/
theorem log_eq (h : IsRecord env history w log) : log = w.map Inquiry.question ++ history := by
  induction h with
  | nil => rfl
  | cons purpose q _ ih => rw [List.map_cons, List.cons_append, ← ih]

/-- Each fault in a record is the one with which the question was answered. -/
theorem fault?_eq {later earlier : List Inquiry} {i : Inquiry}
    (h : IsRecord env history (later ++ i :: earlier) log) :
    i.fault? = env.fault? (earlier.map Inquiry.question ++ history) i.question := by
  induction later generalizing log with
  | nil =>
    cases h with
    | cons purpose q h => rw [h.log_eq]
  | cons j later ih =>
    cases h with
    | cons purpose q h => exact ih h

/-- A record that is continued is a record. -/
theorem annotate (h : IsRecord env history w log) (purpose : Purpose)
    (asked : List Dns.Question) :
    IsRecord env history (annotate env purpose log asked ++ w) (asked ++ log) := by
  induction asked with
  | nil => exact h
  | cons q asked ih => exact ih.cons purpose q

/-- A deadline does not change how questions fare. -/
theorem of_timed (h : IsRecord env.timed history w log) : IsRecord env history w log := by
  induction h with
  | nil => exact .nil
  | cons purpose q _ ih => exact ih.cons purpose q

end IsRecord

/-! ## The parts of a step -/

namespace Machine

variable (env : Environment) (request : Request)

/-- Find the name that the next term is about. Inclusions and redirections are
charged first. -/
def prepare (m : Machine) : Evaluation String :=
  match m.todo with
  | [] =>
    match m.policy.redirect? with
    | some target => do
      charge
      Evaluation.ofLookup (targetName env request m.domain target)
    | none => pure m.domain
  | ⟨_, .includePolicy target⟩ :: _ => do
    charge
    if env.settings.maxIncludeDepth.toNat ≤ m.stack.length then Evaluation.fail .tooDeep
    else Evaluation.ofLookup (targetName env request m.domain target)
  | ⟨_, mechanism⟩ :: _ =>
    Evaluation.ofLookup (targetNameOr env request m.domain mechanism.target?)

/-- Do what the next term says about its name. -/
def conclude (m : Machine) (name : String) : Evaluation Transition :=
  match m.todo with
  | [] =>
    match m.policy.redirect? with
    | some _ => do
      let policy ← fetchPolicy env name
      return .next (enter policy name m.stack)
    | none => pure (leave .neutral m.policy m.domain m.stack)
  | ⟨qualifier, .includePolicy _⟩ :: rest => do
    let policy ← fetchPolicy env name
    return .next (enter policy name (⟨m.policy, m.domain, qualifier, rest⟩ :: m.stack))
  | ⟨qualifier, mechanism⟩ :: rest => do
    if ← mechanism.test env request name then
      return leave qualifier.verdict m.policy m.domain m.stack
    else return .next { m with todo := rest }

/-- What the second part of a step asks questions for. -/
def purpose (m : Machine) : Purpose :=
  match m.todo with
  | [] | ⟨_, .includePolicy _⟩ :: _ => .policy
  | _ :: _ => .mechanism

variable {env request}

/-- A verdict rests on what the second part of a step asks. -/
theorem isDecisive_purpose (m : Machine) : m.purpose.isDecisive = true := by
  unfold purpose
  split <;> rfl

/-- A step is its two parts. -/
theorem step_eq_bind (m : Machine) :
    m.step env request = m.prepare env request >>= m.conclude env request := by
  obtain ⟨policy, domain, todo, stack⟩ := m
  match todo with
  | [] =>
    unfold step prepare conclude
    dsimp only
    cases policy.redirect? with
    | none => rfl
    | some target =>
      rw [Process.bind_assoc]
      rfl
  | ⟨qualifier, mechanism⟩ :: rest =>
    cases mechanism with
    | includePolicy target =>
      unfold step prepare conclude
      dsimp only
      rw [suspend, Process.bind_assoc]
      congr 1
      funext _
      split <;> rfl
    | _ => exact Process.bind_assoc _ _ _

end Machine

/-! ## Journals -/

/-- Note the inquiries of an evaluation, the latest first. -/
def journalist (env : Environment) (request : Request) : Observer (List Inquiry) where
  found p _ p' w := inquiries env .policy p p' ++ w
  step m p _ p' w :=
    let q := ((m.prepare env request).run p).2
    inquiries env m.purpose q p' ++ (inquiries env .clientName p q ++ w)
  explained p _ p' w := inquiries env .explanation p p' ++ w

/-- The inquiries of a verification, the latest first. -/
def journal (env : Environment) (request : Request) (t : Traffic) : List Inquiry :=
  ((observeRequest env.timed request (journalist env.timed request)).run
    (.start env.timed { t with waited := 0 }, [])).2.2

end SenderPolicy
