import SenderPolicy.Proofs.Asked
import SenderPolicy.Proofs.CacheTransparency
import SenderPolicy.Proofs.LeastRecentlyUsed

/-!
# Coherent caches

Whatever a resolver has done before, what a lookup finds is an answer that the transport has
given to the same question, with records in it: just now, or earlier and not yet expired. The
zone, the settings, the clock and the stores may change from one lookup to the next.

The history of a resolver is a sequence of lookups and commands, each in an environment of its
own. What it has been given follows from its log: the answers of the environment at hand to the
questions that were added. Each entry of a cache is one of these answers, and only lookups that end
well add to the caches. Evaluations do nothing else to the traffic than lookups do, so this holds at
every moment of a verification.

Main definitions:

- `Environment.answer?`, `Environment.given?`: the answer of the transport to a question, and the
  one that is given at a moment;
- `Environment.gave`: the answers to the questions in a log;
- `Environment.Proceeds`: what commands do one after the other;
- `Course`: the histories of a resolver, with the answers that it was given;
- `Answered`: the answers that may be used at a moment;
- `Session.given`, `Session.givenAll`: what a session is given in the course of its commands.

Main results:

- `lookup_cases`: the ways in which a lookup ends;
- `Process.Moves.answer`: commands move traffic as lookups do;
- `Environment.keeps_of_proceeds`: what a command adds to the caches was given to its questions;
- `Course.caches_coherent`: caches hold nothing but what was given;
- `Course.coherent`: caches are coherent after every history;
- `Session.course_performAll`, `Session.caches_after`: sessions are such histories.
-/

namespace SenderPolicy

open Dns
open Process (Moves Simulates)

/-! ## Single lookups -/

/-- The answer that the transport gives to a question after others, if the reply has one and is in
time. -/
def Environment.answer? (env : Environment) (log : List Question) (q : Question) :
    Option (Answer q.kind.Datum) :=
  let reply := env.transport log q
  if env.settings.queryTimeout < reply.delay then none else reply.outcome.toOption

/-- The answer that a question is given at a moment, if the waiting for it is not interrupted. -/
def Environment.given? (env : Environment) (q : Question) (t : Traffic) :
    Option (Answer q.kind.Datum) :=
  if (env.alarm.ringing (t.waited + (env.transport t.log q).delay)).isSome then none
  else env.answer? t.log q

/-- An answer that is given is one of the transport. -/
theorem Environment.answer?_of_given? {env : Environment} {q : Question} {t : Traffic}
    {answer : Answer q.kind.Datum} (h : env.given? q t = some answer) :
    env.answer? t.log q = some answer := by
  unfold given? at h
  split at h
  · cases h
  · exact h

/-- An answer with records that is given is without fault. -/
theorem Environment.fault?_of_given? {env : Environment} {q : Question} {t : Traffic}
    {answer : Answer q.kind.Datum} (h : env.given? q t = some answer)
    (hrecords : answer.records ≠ []) :
    env.fault? t.log q = none ∧ (env.transport t.log q).outcome = .ok answer := by
  have hanswer : env.answer? t.log q = some answer := answer?_of_given? h
  unfold answer? at hanswer
  dsimp only at hanswer
  split at hanswer
  · cases hanswer
  next hintime =>
    have houtcome : (env.transport t.log q).outcome = .ok answer := by
      cases houtcome : (env.transport t.log q).outcome with
      | error f => simp [houtcome, Except.toOption] at hanswer
      | ok answer' =>
        rw [houtcome] at hanswer
        cases hanswer
        rfl
    refine ⟨?_, houtcome⟩
    simp [fault?, hintime, houtcome, hrecords]

/-- A reason to stop for a question that is not answered with records at a moment. An answer without
records says that there is none, and a fault is the one with which the question is answered. -/
structure Environment.Refuses (env : Environment) (q : Question) (t : Traffic) (e : Stop) :
    Prop where
  given : ∀ answer, env.given? q t = some answer →
    answer.records = [] ∧ e = .fault (.notFound .noError)
  fault : ∀ f, e = .fault f → env.fault? t.log q = some f

/-- Asking ends with the answer that is given, if that has records, and otherwise with a reason to
stop. -/
theorem ask_cases (env : Environment) (q : Question) (t : Traffic) :
    ∃ waited,
      (∃ answer, env.given? q t = some answer ∧ answer.records ≠ [] ∧
        (ask env q).run t = (.ok answer, { t with log := q :: t.log, waited := waited })) ∨
      ∃ e, env.Refuses q t e ∧
        (ask env q).run t = (.error e, { t with log := q :: t.log, waited := waited }) := by
  refine ⟨t.waited + min (env.transport t.log q).delay env.settings.queryTimeout, ?_⟩
  rw [run_ask]
  dsimp only
  by_cases hlate : env.settings.queryTimeout < (env.transport t.log q).delay
  · have hgiven : env.given? q t = none := by simp [Environment.given?, Environment.answer?, hlate]
    have hfault : env.fault? t.log q = some .timedOut := by simp [Environment.fault?, hlate]
    rw [hfault]
    cases env.alarm.ringing (t.waited + min (env.transport t.log q).delay env.settings.queryTimeout)
    · exact .inr ⟨_, ⟨by simp [hgiven], by simp [hfault]⟩, rfl⟩
    · exact .inr ⟨_, ⟨by simp [hgiven], by simp⟩, rfl⟩
  · rw [Nat.min_eq_left (Nat.le_of_not_lt hlate)]
    cases hring : env.alarm.ringing (t.waited + (env.transport t.log q).delay) with
    | some i =>
      have hgiven : env.given? q t = none := by simp [Environment.given?, hring]
      exact .inr ⟨_, ⟨by simp [hgiven], by simp⟩, rfl⟩
    | none =>
      have hgiven : env.given? q t = (env.transport t.log q).outcome.toOption := by
        simp [Environment.given?, Environment.answer?, hlate, hring]
      cases houtcome : (env.transport t.log q).outcome with
      | error f =>
        have hfault : env.fault? t.log q = some f := by
          simp [Environment.fault?, hlate, houtcome]
        rw [houtcome] at hgiven
        rw [hfault]
        exact .inr ⟨_, ⟨by simp [hgiven, Except.toOption], by simp [hfault]⟩, rfl⟩
      | ok answer =>
        rw [houtcome] at hgiven
        by_cases hrecords : answer.records = []
        · have hfault : env.fault? t.log q = some (.notFound .noError) := by
            simp [Environment.fault?, hlate, houtcome, hrecords]
          rw [hfault]
          refine .inr ⟨_, ⟨?_, by simp [hfault]⟩, rfl⟩
          simp [hgiven, Except.toOption, hrecords]
        · have hfault : env.fault? t.log q = none := by
            simp [Environment.fault?, hlate, houtcome, hrecords]
          rw [hfault]
          exact .inl ⟨answer, hgiven, hrecords, rfl⟩

/-- The caches when a lookup has read them. -/
def Caches.read (c : Caches) (k : Kind) (owner : k.Owner) (now : Instant) : Caches :=
  c.setStore k ((c.store k).get now owner).2

/-- The caches when an answer is kept. -/
def Caches.keep (c : Caches) (k : Kind) (owner : k.Owner) (answer : Answer k.Datum) : Caches :=
  c.setStore k ((c.store k).insert owner answer.records answer.validUntil)

/-- The ways in which a lookup ends: with what is found in a cache, with an answer that it is
given and keeps, or with a reason to stop. -/
theorem lookup_cases (env : Environment) (k : Kind) (owner : k.Owner) (t : Traffic) :
    let name := k.qualify owner
    let now := env.clock t.readings
    let c := t.caches.read k name now
    (∃ records, ((t.caches.store k).get now name).1 = some records ∧
      (lookup env k owner).run t =
        (.ok records, { t with readings := t.readings + 1, caches := c })) ∨
    ((t.caches.store k).get now name).1 = none ∧ ∃ waited,
      (∃ answer, env.given? ⟨k, name⟩ t = some answer ∧ answer.records ≠ [] ∧
        (lookup env k owner).run t =
          (.ok answer.records,
            ⟨⟨k, name⟩ :: t.log, waited, t.readings + 1, c.keep k name answer⟩)) ∨
      ∃ e, env.Refuses ⟨k, name⟩ t e ∧
        (lookup env k owner).run t =
          (.error e, ⟨⟨k, name⟩ :: t.log, waited, t.readings + 1, c⟩) := by
  intro name now c
  have hlookup := run_lookup env k owner t
  dsimp only at hlookup
  cases hfound : ((t.caches.store k).get now name).1 with
  | some records =>
    rw [hfound] at hlookup
    exact .inl ⟨records, rfl, hlookup⟩
  | none =>
    let t' : Traffic := { t with readings := t.readings + 1, caches := c }
    have hasks : (lookup env k owner).run t = (do
        let answer ← ask env ⟨k, name⟩
        SenderPolicy.keep k name answer
        return answer.records : Lookup (List k.Datum)).run t' := by
      rw [hfound] at hlookup
      exact hlookup
    rw [hasks, Process.run_bind]
    refine .inr ⟨rfl, ?_⟩
    obtain ⟨waited, ⟨answer, hgiven, hrecords, hrun⟩ | ⟨e, hrefuses, hrun⟩⟩ :=
      ask_cases env ⟨k, name⟩ t'
    · rw [hrun]
      exact ⟨waited, .inl ⟨answer, hgiven, hrecords, rfl⟩⟩
    · rw [hrun]
      exact ⟨waited, .inr ⟨e, ⟨hrefuses.given, hrefuses.fault⟩, rfl⟩⟩

/-! ## Evaluations as sequences of lookups -/

namespace Process.Moves

variable {α ε : Type} {R : Traffic → Traffic → Prop} {env : Environment}

/-- Settling the result of a process moves as the process does. -/
theorem settle {x : Process Traffic ε α} (h : Moves id R x) (toFault : ε → Fault)
    (respond : α → Response) :
    Moves id R (Session.settle toFault respond x : Process Traffic Fault Response) := by
  intro t
  have ht := h t
  change R t (Session.settle toFault respond x t).2
  unfold Session.settle
  rcases hrun : x.run t with ⟨e | a, t'⟩ <;> rwa [hrun] at ht

/-- Settling a verification moves as the verification does. -/
theorem settleVerification {x : Verification Outcome} (h : Moves id R x) :
    Moves id R (Session.settleVerification x : Process Traffic Fault Response) :=
  settle h _ _

/-- If lookups move along a relation, an evaluation runs as it does and moves along it. -/
theorem coupling_of_lookup [IsTrans Traffic R]
    (h : ∀ k owner, Moves id R (SenderPolicy.lookup env k owner)) (t₀ : Traffic) :
    Coupling env env (fun t t' => t = t' ∧ R t₀ t) Eq never where
  asksType99 := rfl
  receiver := rfl
  timestamp := rfl
  lookup k owner := by
    rintro t _ ⟨rfl, ht⟩
    exact .inr ⟨.refl (fun _ => rfl) _, rfl, trans_of R ht (h k owner t)⟩
  charge := simulates_charge_eq
  chargeVoid := simulates_chargeVoid_eq
  depth := .inl rfl

variable [Std.Refl R]

/-- What runs as it does and moves from every start moves along the relation. -/
theorem of_simulates {x : Lookup α}
    (h : ∀ t₀, Simulates (fun t t' => t = t' ∧ R t₀ t) Eq never x x) : Moves id R x :=
  fun t => ((h t).eq_of_never ⟨rfl, Std.Refl.refl t⟩).2.2

variable [IsTrans Traffic R]

/-- Evaluations move traffic as lookups do. -/
theorem evaluateRequest_of_lookup
    (h : ∀ k owner, Moves id R (SenderPolicy.lookup env k owner)) (request : Request) :
    Moves Progress.traffic R (evaluateRequest env request) := by
  intro p
  have hcoupled := (coupling_of_lookup h p.traffic).evaluateRequest request
  exact (hcoupled.eq_of_never ⟨⟨rfl, Std.Refl.refl _⟩, rfl⟩).2.1.2

/-- If lookups move along a relation, the check of a host does. -/
theorem checkHost (h : ∀ k owner, Moves id R (SenderPolicy.lookup env k owner))
    (request : Request) : Moves id R (SenderPolicy.checkHost env request) := by
  intro t
  rw [run_checkHost]
  exact evaluateRequest_of_lookup h request (.start env t)

section

variable (hreset : ∀ t, R t { t with waited := 0 })
  (hlookup : ∀ alarm k owner, Moves id R (SenderPolicy.lookup { env with alarm := alarm } k owner))
include hreset hlookup

/-- So does a check with an alarm, if setting the waiting back moves along the relation, too. -/
theorem checkWithin (cancelAt : Option Nat) (request : Request) :
    Moves id R (checkWithin env cancelAt request) := by
  unfold SenderPolicy.checkWithin
  refine bind hreset fun _ => ?_
  split
  · exact stop _
  · exact checkHost (hlookup _) request

/-- So do verifications of a request. -/
theorem verify (request : Request) : Moves id R (verify env request) := by
  intro t
  have hcheck := checkWithin hreset hlookup none request t
  change R t (SenderPolicy.verify env request t).2
  unfold SenderPolicy.verify
  rcases hrun : (SenderPolicy.checkWithin env none request).run t with ⟨e | outcome, t'⟩ <;>
    rwa [hrun] at hcheck

/-- So do those that may be called off. -/
theorem verifyCancellable (request : Request) (cancelAt : Option Nat) :
    Moves id R (verifyCancellable env request cancelAt) := by
  intro t
  have hcheck := checkWithin hreset hlookup cancelAt request t
  change R t (SenderPolicy.verifyCancellable env request cancelAt t).2
  unfold SenderPolicy.verifyCancellable
  rcases hrun : (SenderPolicy.checkWithin env cancelAt request).run t with
    ⟨(_ | _) | outcome, t'⟩ <;> rwa [hrun] at hcheck

/-- So do those of a mail session. -/
theorem verifySession (client : Address) (helo sender : String) :
    Moves id R (verifySession env client helo sender) := by
  refine ite (bind (verify hreset hlookup _) fun outcome => ?_) (verify hreset hlookup _)
  exact ite (pure outcome) (verify hreset hlookup _)

/-- Every command moves traffic as lookups do. -/
theorem answer (cmd : Command) :
    Moves id R (Session.answer env cmd : Process Traffic Fault Response) := by
  have hcoupling := coupling_of_lookup (hlookup env.alarm)
  cases cmd with
  | helo client helo => exact settleVerification (verify hreset hlookup _)
  | sender client helo sender => exact settleVerification (verify hreset hlookup _)
  | session client helo sender => exact settleVerification (verifySession hreset hlookup _ _ _)
  | verify client domain helo sender =>
    unfold Session.answer
    dsimp only
    split
    · exact settleVerification (verify hreset hlookup _)
    · exact fun t => Std.Refl.refl t
  | verifyText domain client sender helo =>
    have hverify : Moves id R (verifyText env domain client sender helo) := by
      unfold verifyText
      split
      · exact verify hreset hlookup _
      · exact pure _
    exact settleVerification hverify
  | verifyCancellable client domain helo sender cancelAt =>
    unfold Session.answer
    dsimp only
    split
    · exact settle (verifyCancellable hreset hlookup _ _) _ _
    · exact fun t => Std.Refl.refl t
  | policy domain => exact settle (of_simulates fun t => (hcoupling t).lookupPolicy domain) _ _
  | records q => exact settle (hlookup env.alarm q.kind q.owner) _ _
  | hasAddress name => exact settle (of_simulates fun t => (hcoupling t).host.hasAddress name) _ _
  | edit edits => exact fun t => Std.Refl.refl t
  | configure settings => exact fun t => Std.Refl.refl t
  | setCaches caches => exact fun t => Std.Refl.refl t

end

end Process.Moves

/-! ## Histories of a resolver -/

/-- A value that is found stands in an entry under its key that holds still. -/
theorem Store.exists_holding_of_get {κ ν : Type} [DecidableEq κ] {s : Store κ ν} {now : Instant}
    {key : κ} {value : ν} (h : (s.get now key).1 = some value) :
    ∃ e ∈ s.entries, e.key = key ∧ e.value = value ∧ now ≤ e.validUntil := by
  cases s with
  | disabled => cases h
  | cached c =>
    obtain ⟨e, hfind, hnow, hvalue⟩ := Cache.get_eq_some_iff.1 h
    exact ⟨e, List.mem_of_find?_eq_some hfind, Cache.key_of_find? hfind, hvalue, hnow⟩

/-- A question and an answer that it was given. -/
structure Given where
  question : Question
  answer : Answer question.kind.Datum

/-- The answers that a transport has given to questions which follow those of a log, both with the
latest first. -/
def Environment.gave (env : Environment) (log : List Question) : List Question → List Given
  | [] => []
  | q :: asked =>
    (env.answer? (asked ++ log) q).toList.map (fun answer => ⟨q, answer⟩) ++ env.gave log asked

namespace Environment

variable {env : Environment}

/-- What was given to questions that follow one another was given to the earlier ones, and then to
the later ones. -/
theorem gave_append (log asked asked' : List Question) :
    env.gave log (asked' ++ asked) = env.gave (asked ++ log) asked' ++ env.gave log asked := by
  induction asked' with
  | nil => rfl
  | cons q asked' ih => simp only [List.cons_append, gave, ih, List.append_assoc]

/-- An alarm changes nothing in what the transport gives. -/
theorem gave_alarm (alarm : Alarm) (log asked : List Question) :
    { env with alarm := alarm }.gave log asked = env.gave log asked := by
  induction asked with
  | nil => rfl
  | cons q asked ih => exact congrArg (_ ++ ·) ih

/-- An answer that is given to the next question is given by the transport. -/
theorem gave_singleton {q : Question} {t : Traffic} {answer : Answer q.kind.Datum}
    (h : env.given? q t = some answer) : env.gave t.log [q] = [⟨q, answer⟩] := by
  have hanswer : env.answer? t.log q = some answer := answer?_of_given? h
  simp [gave, hanswer]

end Environment

/-- What happens in one environment when a command is performed: something is looked up, with some
alarm, or the waiting begins anew. -/
inductive Environment.Proceeds (env : Environment) : Traffic → Traffic → Prop
  | lookup {t : Traffic} (alarm : Alarm) (k : Kind) (owner : k.Owner) :
      Proceeds env t ((SenderPolicy.lookup { env with alarm := alarm } k owner).run t).2
  | reset {t : Traffic} : Proceeds env t { t with waited := 0 }

/-- The histories of a resolver, with the answers that it was given by the transports, the latest
first. Each lookup and each command is performed in an environment of its own, with another zone,
other settings and another time, and what it is given are the answers of this environment to the
questions that it adds to the log. In between the log may be emptied and the waiting begin anew, and
a store may be replaced by one without entries. -/
inductive Course : List Given → Traffic → Prop
  | start {t : Traffic} : t.caches.IsFresh → Course [] t
  | lookup {past : List Given} {t t' : Traffic} {asked : List Question} (env : Environment)
      (k : Kind) (owner : k.Owner) : Course past t → ((lookup env k owner).run t).2 = t' →
      t'.log = asked ++ t.log → Course (env.gave t.log asked ++ past) t'
  | command {past : List Given} {t t' : Traffic} {asked : List Question} (env : Environment)
      (cmd : Command) : Course past t → (Session.answer env cmd t).2 = t' →
      t'.log = asked ++ t.log → Course (env.gave t.log asked ++ past) t'
  | between {past : List Given} {t t' : Traffic} :
      Course past t → t'.caches = t.caches → Course past t'
  | replace {past : List Given} {t : Traffic} (k : Kind) {s : Store k.Owner (List k.Datum)} :
      Course past t → s.entries = [] → Course past { t with caches := t.caches.setStore k s }

/-- The records that may answer a question: those of an answer that it is given now, if it is
asked, and otherwise those of an earlier answer to it that has not expired. -/
def Answered (past : List Given) (env : Environment) (q : Question) (t t' : Traffic)
    (records : List q.kind.Datum) : Prop :=
  (t'.log = q :: t.log ∧ ∃ validUntil, env.given? q t = some ⟨records, validUntil⟩) ∨
    t'.log = t.log ∧ ∃ validUntil, ⟨q, records, validUntil⟩ ∈ past ∧
      env.clock t.readings ≤ validUntil

/-- Caches that hold nothing but answers that were given, with records. -/
def Caches.Coherent (past : List Given) (c : Caches) : Prop :=
  ∀ k, ∀ e ∈ (c.store k).entries,
    e.value ≠ [] ∧ ⟨⟨k, e.key⟩, e.value, e.validUntil⟩ ∈ past

namespace Caches

variable {past : List Given} {c : Caches} {k : Kind} {owner : k.Owner} {now : Instant}

/-- Reading a cache adds nothing. -/
theorem mem_of_mem_read {k' : Kind} {e : Cache.Entry k'.Owner (List k'.Datum)}
    (h : e ∈ ((c.read k owner now).store k').entries) : e ∈ (c.store k').entries :=
  forall_mem_setStore (P := fun k' e => e ∈ (c.store k').entries) (fun _ _ he => he)
    (fun _ he => Store.mem_of_mem_get he) k' e h

/-- What is found in coherent caches is an answer that was given and has not expired. -/
theorem Coherent.get (h : c.Coherent past) {records : List k.Datum}
    (hfound : ((c.store k).get now owner).1 = some records) :
    records ≠ [] ∧ ∃ validUntil, ⟨⟨k, owner⟩, records, validUntil⟩ ∈ past ∧ now ≤ validUntil := by
  obtain ⟨e, he, rfl, rfl, hnow⟩ := Store.exists_holding_of_get hfound
  exact ⟨(h k e he).1, e.validUntil, (h k e he).2, hnow⟩

end Caches

/-- What is in the caches was there at an earlier moment, or is an answer with records that the
transport has given to a question since. -/
def Environment.Keeps (env : Environment) (asked : List Question) (t t' : Traffic) : Prop :=
  ∀ k, ∀ e ∈ (t'.caches.store k).entries, e ∈ (t.caches.store k).entries ∨
    e.value ≠ [] ∧ ⟨⟨k, e.key⟩, e.value, e.validUntil⟩ ∈ env.gave t.log asked

namespace Environment

variable {env : Environment} {t t' t'' : Traffic} {asked asked' : List Question}

/-- A lookup adds to the caches only what it is given. -/
theorem keeps_lookup (env : Environment) (k : Kind) (owner : k.Owner) (t : Traffic) :
    ∃ asked, ((SenderPolicy.lookup env k owner).run t).2.log = asked ++ t.log ∧
      env.Keeps asked t ((SenderPolicy.lookup env k owner).run t).2 := by
  obtain ⟨records, -, hrun⟩ | ⟨-, waited, ⟨answer, hgiven, hrecords, hrun⟩ | ⟨e, -, hrun⟩⟩ :=
    lookup_cases env k owner t
  all_goals rw [hrun]
  · exact ⟨[], rfl, fun k' e he => .inl (Caches.mem_of_mem_read he)⟩
  · have hgave : env.gave t.log [⟨k, k.qualify owner⟩] = [⟨⟨k, k.qualify owner⟩, answer⟩] :=
      gave_singleton hgiven
    refine ⟨[⟨k, k.qualify owner⟩], rfl, Caches.forall_mem_setStore ?_ fun e he => ?_⟩
    · exact fun k' e he => .inl (Caches.mem_of_mem_read he)
    · rcases Store.mem_of_mem_insert he with rfl | he
      · exact .inr ⟨hrecords, hgave ▸ List.mem_cons_self⟩
      · exact .inl (Caches.mem_of_mem_read he)
  · exact ⟨[⟨k, k.qualify owner⟩], rfl, fun k' e he => .inl (Caches.mem_of_mem_read he)⟩

/-- What was given one time after the other was given in all. -/
theorem Keeps.trans (h : env.Keeps asked t t') (hlog : t'.log = asked ++ t.log)
    (h' : env.Keeps asked' t' t'') : env.Keeps (asked' ++ asked) t t'' := by
  intro k e he
  rw [gave_append, ← hlog]
  rcases h' k e he with he | ⟨hne, hgave⟩
  · rcases h k e he with he | ⟨hne, hgave⟩
    · exact .inl he
    · exact .inr ⟨hne, List.mem_append_right _ hgave⟩
  · exact .inr ⟨hne, List.mem_append_left _ hgave⟩

/-- Caches stay coherent with what is given. -/
theorem Keeps.coherent_gave {past : List Given} (h : env.Keeps asked t t')
    (hcoherent : t.caches.Coherent past) : t'.caches.Coherent (env.gave t.log asked ++ past) := by
  intro k e he
  rcases h k e he with he | ⟨hne, hgave⟩
  · exact ⟨(hcoherent k e he).1, List.mem_append_right _ (hcoherent k e he).2⟩
  · exact ⟨hne, List.mem_append_left _ hgave⟩

/-- Every command proceeds by lookups. -/
theorem proceeds_answer (env : Environment) (cmd : Command) (t : Traffic) :
    Relation.ReflTransGen env.Proceeds t (Session.answer env cmd t).2 :=
  Moves.answer (fun _ => .single .reset) (fun alarm k owner _ => .single (.lookup alarm k owner))
    cmd t

/-- What proceeds from a moment adds to the caches only what it is given. -/
theorem keeps_of_proceeds (h : Relation.ReflTransGen env.Proceeds t t') :
    ∃ asked, t'.log = asked ++ t.log ∧ env.Keeps asked t t' := by
  induction h with
  | refl => exact ⟨[], rfl, fun k e he => .inl he⟩
  | @tail s s' _ hs ih =>
    obtain ⟨asked, hlog, hkeeps⟩ := ih
    cases hs with
    | lookup alarm k owner =>
      obtain ⟨asked', hlog', hkeeps'⟩ := keeps_lookup { env with alarm := alarm } k owner s
      refine ⟨asked' ++ asked, by rw [hlog', hlog, List.append_assoc], hkeeps.trans hlog ?_⟩
      intro k' e he
      rw [← gave_alarm alarm]
      exact hkeeps' k' e he
    | reset => exact ⟨asked, hlog, hkeeps⟩

end Environment

namespace Course

variable {past : List Given} {t : Traffic}

/-- After every history caches hold nothing but answers that were given. -/
theorem caches_coherent (h : Course past t) : t.caches.Coherent past := by
  induction h with
  | start hfresh =>
    intro k e he
    rw [hfresh k] at he
    cases he
  | lookup env k owner _ ht' hlog ih =>
    subst ht'
    obtain ⟨asked, hasked, hkeeps⟩ := Environment.keeps_lookup env k owner _
    rw [List.append_cancel_right (hasked.symm.trans hlog)] at hkeeps
    exact hkeeps.coherent_gave ih
  | command env cmd _ ht' hlog ih =>
    subst ht'
    obtain ⟨asked, hasked, hkeeps⟩ :=
      Environment.keeps_of_proceeds (Environment.proceeds_answer env cmd _)
    rw [List.append_cancel_right (hasked.symm.trans hlog)] at hkeeps
    exact hkeeps.coherent_gave ih
  | between _ hcaches ih => rwa [hcaches]
  | replace k _ hs ih => exact Caches.forall_mem_setStore ih (by simp [hs])

/-- Every moment in the course of a command is one of the history. -/
theorem proceeds (h : Course past t) {env : Environment} {t' : Traffic}
    (ht' : Relation.ReflTransGen env.Proceeds t t') :
    ∃ asked, t'.log = asked ++ t.log ∧ Course (env.gave t.log asked ++ past) t' := by
  induction ht' with
  | refl => exact ⟨[], rfl, h⟩
  | @tail s s' _ hs ih =>
    obtain ⟨asked, hlog, hcourse⟩ := ih
    cases hs with
    | lookup alarm k owner =>
      obtain ⟨asked', hlog', -⟩ := Environment.keeps_lookup { env with alarm := alarm } k owner s
      refine ⟨asked' ++ asked, by rw [hlog', hlog, List.append_assoc], ?_⟩
      have hcourse' := hcourse.lookup { env with alarm := alarm } k owner rfl hlog'
      rwa [Environment.gave_alarm, hlog, ← List.append_assoc, ← Environment.gave_append] at hcourse'
    | reset => exact ⟨asked, hlog, hcourse.between rfl⟩

/-- What a lookup finds may be used, and is not empty. -/
theorem answered_of_lookup (h : Course past t) {env : Environment} {k : Kind} {owner : k.Owner}
    {records : List k.Datum} {t' : Traffic}
    (hrun : (SenderPolicy.lookup env k owner).run t = (.ok records, t')) :
    records ≠ [] ∧ Answered past env ⟨k, k.qualify owner⟩ t t' records := by
  obtain ⟨found, hfound, hcase⟩ | ⟨-, waited, ⟨answer, hgiven, hrecords, hcase⟩ | ⟨e, -, hcase⟩⟩ :=
    lookup_cases env k owner t
  · rw [hcase] at hrun
    cases hrun
    obtain ⟨hne, hpast⟩ := h.caches_coherent.get hfound
    exact ⟨hne, .inr ⟨rfl, hpast⟩⟩
  · rw [hcase] at hrun
    cases hrun
    exact ⟨hrecords, .inl ⟨rfl, answer.validUntil, hgiven⟩⟩
  · rw [hcase] at hrun
    cases hrun

/-- A lookup that ends early, or asks and gets no records, adds nothing to any cache. -/
theorem entries_of_failed {env : Environment} {k : Kind} {owner : k.Owner}
    (hfailed : (∃ e, ((SenderPolicy.lookup env k owner).run t).1 = .error e) ∨
      ((SenderPolicy.lookup env k owner).run t).2.log = ⟨k, k.qualify owner⟩ :: t.log ∧
        ∀ answer, env.given? ⟨k, k.qualify owner⟩ t = some answer → answer.records = []) :
    ∀ k', ∀ e ∈ (((SenderPolicy.lookup env k owner).run t).2.caches.store k').entries,
      e ∈ (t.caches.store k').entries := by
  obtain ⟨records, -, hrun⟩ | ⟨-, waited, ⟨answer, hgiven, hrecords, hrun⟩ | ⟨stop, -, hrun⟩⟩ :=
    lookup_cases env k owner t
  all_goals rw [hrun] at hfailed ⊢
  · exact fun k' e he => Caches.mem_of_mem_read he
  · obtain ⟨_, hstop⟩ | ⟨-, hnone⟩ := hfailed
    · cases hstop
    · exact absurd (hnone answer hgiven) hrecords
  · exact fun k' e he => Caches.mem_of_mem_read he

/-- A name for which addresses are found has one. -/
theorem run_hasAddress_of_ok {env : Environment} {name : String} {records : List IPv4}
    {t' : Traffic} (h : (SenderPolicy.lookup env .a name).run t = (.ok records, t')) :
    (hasAddress env name).run t = (.ok true, t') := by
  unfold hasAddress
  rw [Process.run_bind, Lookup.run_attempt, h]
  rfl

/-- A name for which none are found does not have one, and if the answer says so, that is known. -/
theorem run_hasAddress_of_error {env : Environment} {name : String} {e : Stop} {t' : Traffic}
    (h : (SenderPolicy.lookup env .a name).run t = (.error e, t')) :
    ∃ r, (hasAddress env name).run t = (r, t') ∧ r ≠ .ok true ∧
      (e = .fault (.notFound .noError) → r = .ok false) := by
  unfold hasAddress
  rw [Process.run_bind, Lookup.run_attempt, h]
  cases e with
  | interrupted i => exact ⟨_, rfl, by simp, by simp⟩
  | fault f =>
    dsimp only
    split
    · exact ⟨_, rfl, by simp, fun _ => rfl⟩
    next hf =>
      refine ⟨_, rfl, by simp, fun heq => ?_⟩
      cases heq
      exact absurd rfl hf

/-- A name is said to have an address exactly if the answer about it has a record. -/
theorem hasAddress_iff (h : Course past t) (env : Environment) (name : String) :
    let q : Question := ⟨.a, Kind.a.qualify name⟩
    let r := (hasAddress env name).run t
    (r.1 = .ok true ↔ ∃ records, records ≠ [] ∧ Answered past env q t r.2 records) ∧
      (r.2.log = q :: t.log → ∀ answer, env.given? q t = some answer →
        r.1 = .ok (!answer.records.isEmpty)) := by
  intro q r
  have hr : (hasAddress env name).run t = r := rfl
  obtain ⟨records, -, hrun⟩ | ⟨-, waited, ⟨answer, hgiven, hrecords, hrun⟩ | ⟨e, hrefuses, hrun⟩⟩ :=
    lookup_cases env .a name t
  · obtain ⟨hne, hanswered⟩ := h.answered_of_lookup hrun
    rw [run_hasAddress_of_ok hrun] at hr
    rw [← hr]
    refine ⟨iff_of_true rfl ⟨records, hne, hanswered⟩, fun hlog => ?_⟩
    exact absurd hlog.symm (List.cons_ne_self _ _)
  · obtain ⟨hne, hanswered⟩ := h.answered_of_lookup hrun
    rw [run_hasAddress_of_ok hrun] at hr
    rw [← hr]
    refine ⟨iff_of_true rfl ⟨_, hne, hanswered⟩, fun _ answer' hgiven' => ?_⟩
    rw [hgiven] at hgiven'
    cases hgiven'
    simp [hrecords]
  · obtain ⟨result, hresult, hfalse, hknown⟩ := run_hasAddress_of_error hrun
    rw [hresult] at hr
    rw [← hr]
    refine ⟨iff_of_false hfalse ?_, fun _ answer hgiven => ?_⟩
    · rintro ⟨records, hne, ⟨-, validUntil, hgiven⟩ | ⟨hlog, -⟩⟩
      · exact hne (hrefuses.given _ hgiven).1
      · exact absurd hlog (List.cons_ne_self _ _)
    · obtain ⟨hempty, rfl⟩ := hrefuses.given answer hgiven
      rw [hknown rfl, hempty]
      rfl

/-- After every history of a resolver its caches are coherent. What a lookup finds is not empty,
and is an answer to the same question that is given now, or was given earlier and has not expired.
A lookup that ends early, or gets no records, adds nothing to any cache. So a name is said to have
an address exactly if the answer about it has a record. Commands, and verifications among them, do
nothing but lookups in their environment, each at a moment of the history; all that they add to the
caches are answers with records that the transport has given to questions in their log. -/
theorem coherent (h : Course past t) :
    (∀ env k owner records t', (SenderPolicy.lookup env k owner).run t = (.ok records, t') →
      records ≠ [] ∧ Answered past env ⟨k, k.qualify owner⟩ t t' records) ∧
    (∀ env k owner, (∃ e, ((SenderPolicy.lookup env k owner).run t).1 = .error e) ∨
        ((SenderPolicy.lookup env k owner).run t).2.log = ⟨k, k.qualify owner⟩ :: t.log ∧
          (∀ answer, env.given? ⟨k, k.qualify owner⟩ t = some answer → answer.records = []) →
      ∀ k', ∀ e ∈ (((SenderPolicy.lookup env k owner).run t).2.caches.store k').entries,
        e ∈ (t.caches.store k').entries) ∧
    (∀ env name, let q : Question := ⟨.a, Kind.a.qualify name⟩
      let r := (hasAddress env name).run t
      (r.1 = .ok true ↔ ∃ records, records ≠ [] ∧ Answered past env q t r.2 records) ∧
        (r.2.log = q :: t.log → ∀ answer, env.given? q t = some answer →
          r.1 = .ok (!answer.records.isEmpty))) ∧
    (∀ env cmd, Relation.ReflTransGen env.Proceeds t (Session.answer env cmd t).2) ∧
    ∀ (env : Environment) t', Relation.ReflTransGen env.Proceeds t t' →
      ∃ asked, t'.log = asked ++ t.log ∧ Course (env.gave t.log asked ++ past) t' ∧
        env.Keeps asked t t' := by
  refine ⟨fun _ _ _ _ _ hrun => h.answered_of_lookup hrun, fun _ _ _ => entries_of_failed,
    fun env name => h.hasAddress_iff env name, fun env cmd => env.proceeds_answer cmd t, ?_⟩
  intro env t' ht'
  obtain ⟨asked, hlog, hcourse⟩ := h.proceeds ht'
  obtain ⟨asked', hlog', hkeeps⟩ := env.keeps_of_proceeds ht'
  rw [List.append_cancel_right (hlog'.symm.trans hlog)] at hkeeps
  exact ⟨asked, hlog, hcourse, hkeeps⟩

/-- An address that a command has found is found again under another spelling of the name, when
the zone is gone. -/
theorem coherent_respelled :
    let env := Session.environment ⟨grantingZone, .standard, .disabled⟩
    let env' := Session.environment ⟨.empty, .standard, .disabled⟩
    let t := (Session.answer env (.records ⟨.a, "example.com"⟩) (.start (.ofCapacity 1))).2
    let past := env.gave [] [⟨.a, "example.com."⟩] ++ []
    let r := (SenderPolicy.lookup env' .a "EXAMPLE.COM.").run t
    Course past t ∧ r.1 = .ok [⟨0xC0000201⟩] ∧
      Answered past env' ⟨.a, "example.com."⟩ t r.2 [⟨0xC0000201⟩] := by
  intro env env' t past r
  have hstart : Course [] (.start (.ofCapacity 1)) := .start (Caches.isFresh_ofCapacity 1)
  have hlog : t.log = [⟨.a, "example.com."⟩] ++ (Traffic.start (.ofCapacity 1)).log := rfl
  have hcourse : Course past t := hstart.command env (.records ⟨.a, "example.com"⟩) rfl hlog
  have hrecords : r.1 = .ok [⟨0xC0000201⟩] := rfl
  have hrun : (SenderPolicy.lookup env' .a "EXAMPLE.COM.").run t = (.ok [⟨0xC0000201⟩], r.2) :=
    Prod.ext hrecords rfl
  exact ⟨hcourse, hrecords, ((coherent hcourse).1 env' .a _ _ _ hrun).2⟩

end Course

/-! ## Sessions -/

/-- Any caches that a command brings are without entries. -/
def Command.BringsFresh (c : Command) : Prop := ∀ caches, c = .setCaches caches → caches.IsFresh

namespace Session

/-- The answers that a session is given in the course of a command. -/
def given (s : Session) (c : Command) : List Given :=
  s.environment.gave [] (s.perform c).1.questions.reverse

/-- The answers that it is given in the course of some commands, the latest first. -/
def givenAll (s : Session) : List Command → List Given
  | [] => []
  | c :: rest => (s.perform c).2.givenAll rest ++ s.given c

/-- The session after some commands. -/
def after (s : Session) (commands : List Command) : Session :=
  commands.foldl (fun s c => (s.perform c).2) s

variable {s : Session} {past : List Given} {t : Traffic}

/-- A command leaves its caches to the session, unless it brings some. -/
theorem caches_change {c : Command} (hc : ∀ caches, c ≠ .setCaches caches) :
    (s.change c).caches = s.caches := by
  cases c with
  | setCaches caches => exact absurd rfl (hc caches)
  | _ => rfl

/-- What a session is given is what its environment gives to the questions of the command. -/
theorem given_eq {c : Command} {asked : List Question}
    (h : (answer s.environment c (.start s.caches)).2.log = asked) :
    s.given c = s.environment.gave [] asked := by
  have hquestions : (s.perform c).1.questions =
      (answer s.environment c (.start s.caches)).2.log.reverse := rfl
  rw [given, hquestions, List.reverse_reverse, h]

/-- Every command of a session leads from one history to another, with what it is given. -/
theorem course_perform {c : Command} (h : Course past t) (ht : t.caches = s.caches)
    (hc : c.BringsFresh) :
    ∃ past' t', Course past' t' ∧ t'.caches = (s.perform c).2.caches ∧
      past' ⊆ s.given c ++ past := by
  have hsession : (s.perform c).2 =
      ({ s with caches := (answer s.environment c (.start s.caches)).2.caches }).change c := rfl
  rw [hsession]
  by_cases hset : ∃ caches, c = .setCaches caches
  · obtain ⟨caches, rfl⟩ := hset
    exact ⟨[], .start caches, .start (hc caches rfl), rfl, List.nil_subset _⟩
  · have hstart : Course past (.start s.caches) := h.between ht.symm
    obtain ⟨asked, hlog, -⟩ := Environment.keeps_of_proceeds
      (Environment.proceeds_answer s.environment c (.start s.caches))
    have hcourse := hstart.command s.environment c rfl hlog
    have hcaches := caches_change
      (s := { s with caches := (answer s.environment c (.start s.caches)).2.caches })
      (not_exists.1 hset)
    rw [given_eq (hlog.trans (List.append_nil asked))]
    exact ⟨_, _, hcourse, hcaches.symm, List.Subset.refl _⟩

/-- So do commands one after another. -/
theorem course_performAll {commands : List Command} (h : Course past t)
    (ht : t.caches = s.caches) (hcommands : ∀ c ∈ commands, c.BringsFresh) :
    ∃ past' t', Course past' t' ∧ t'.caches = (s.after commands).caches ∧
      past' ⊆ s.givenAll commands ++ past := by
  induction commands generalizing s past t with
  | nil => exact ⟨past, t, h, ht, List.Subset.refl past⟩
  | cons c rest ih =>
    obtain ⟨hc, hrest⟩ := List.forall_mem_cons.1 hcommands
    obtain ⟨past₁, t₁, h₁, ht₁, hpast₁⟩ := course_perform h ht hc
    obtain ⟨past₂, t₂, h₂, ht₂, hpast₂⟩ := ih h₁ ht₁ hrest
    refine ⟨past₂, t₂, h₂, ht₂, fun g hg => ?_⟩
    rw [givenAll, List.append_assoc]
    rcases List.mem_append.1 (hpast₂ hg) with hg | hg
    · exact List.mem_append_left _ hg
    · exact List.mem_append_right _ (hpast₁ hg)

/-- The caches of a session hold nothing but answers with records that it was given, whatever
commands were performed: the zone and the settings may change in between, and so may the caches. -/
theorem caches_after (hs : s.caches.IsFresh) {commands : List Command}
    (hcommands : ∀ c ∈ commands, c.BringsFresh) :
    (s.after commands).caches.Coherent (s.givenAll commands) := by
  have hstart : Course [] (.start s.caches) := .start hs
  obtain ⟨past, t, h, ht, hpast⟩ := course_performAll hstart rfl hcommands
  rw [List.append_nil] at hpast
  rw [← ht]
  exact fun k e he => (h.caches_coherent k e he).imp_right fun hgiven => hpast hgiven

end Session

end SenderPolicy
