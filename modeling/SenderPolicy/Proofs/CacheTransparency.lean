import SenderPolicy.Proofs.Coupling
import SenderPolicy.Session

/-!
# Transparent caches

On a zone that does not change and answers without delay, the caches hold nothing that
the zone would not say again. What is looked up is then the same whether it is found in a
cache or asked for, and so is every outcome: it does not depend on what was looked up or
verified before.

Main definitions:

- `Dns.Table`, `Dns.Transport.Serves`: what a fixed zone says, and transports that answer
  from it without delay;
- `Caches.Reflect`: caches that hold nothing else;
- `Caches.Reached`: the caches after any lookups and verifications on a zone.

Main results:

- `lookup_of_serves`: a lookup finds what the zone says, whatever the caches hold;
- `Caches.Reached.reflect`: the caches that can be reached hold nothing else;
- `verify_ignores_caches`: outcomes do not depend on the caches.
-/

namespace SenderPolicy

open Dns
open Process (Simulates)

/-! ## Fixed zones -/

/-- What a fixed zone says on each question. -/
abbrev Dns.Table := (q : Question) → Except Fault (List q.kind.Datum)

/-- What comes back for a question: no records count as no answer. -/
def Dns.Table.answer (table : Table) (q : Question) : Except Fault (List q.kind.Datum) :=
  match table q with
  | .error f => .error f
  | .ok records => if records.isEmpty then .error (.notFound .noError) else .ok records

/-- A transport that answers each question as a table says, at any time and without
delay. How long its answers hold may change. -/
def Dns.Transport.Serves (transport : Transport) (table : Table) : Prop :=
  ∀ history q, (transport history q).delay = 0 ∧
    (transport history q).outcome.map Answer.records = table q

/-- What a zone says. -/
def Dns.Zone.table (z : Zone) : Table := fun q =>
  match z.overrides q with
  | some o => o.outcome
  | none => z.outcome q

/-- A zone without delays says the same at any instant. -/
theorem Dns.Zone.serves_transport (z : Zone) (hdelays : ∀ subject, z.delays subject = 0)
    (hoverrides : ∀ q o, z.overrides q = some o → o.delay = 0) (now : Instant) :
    (z.transport now).Serves z.table := by
  intro history q
  have hmap : ∀ r : Except Fault (List q.kind.Datum),
      (r.map fun records => Answer.mk records (now + z.lifetimes q.subject)).map Answer.records =
        r := by
    rintro (f | records) <;> rfl
  unfold transport reply table
  cases ho : z.overrides q with
  | some o =>
    dsimp only
    rw [hoverrides q o ho]
    exact ⟨Nat.zero_min _, hmap _⟩
  | none =>
    dsimp only
    rw [hdelays]
    exact ⟨Nat.zero_min _, hmap _⟩

/-! ## What caches hold -/

namespace Cache

variable {κ ν : Type} [DecidableEq κ] {c : Cache κ ν} {now : Instant} {key : κ} {value : ν}

/-- A value that is found stands in an entry under its key. -/
theorem exists_mem_of_get (h : (c.get now key).1 = some value) :
    ∃ e ∈ c.entries, e.key = key ∧ e.value = value := by
  obtain ⟨-, hget⟩ | ⟨e, hfind, -, hget, -⟩ | ⟨e, -, -, hget, -⟩ := get_cases now key c
  · rw [hget] at h
    cases h
  · rw [hget] at h
    cases h
    exact ⟨e, List.mem_of_find?_eq_some hfind, key_of_find? hfind, rfl⟩
  · rw [hget] at h
    cases h

/-- Looking up leaves no entry that was not there. -/
theorem mem_of_mem_get {e : Entry κ ν} (h : e ∈ (c.get now key).2.entries) : e ∈ c.entries := by
  have hothers : ∀ {e}, e ∈ c.others key → e ∈ c.entries := fun he => (List.mem_filter.1 he).1
  obtain ⟨-, hget⟩ | ⟨e', hfind, -, -, hget⟩ | ⟨e', -, -, -, hget⟩ := get_cases now key c
  · rwa [hget] at h
  · rw [hget] at h
    rcases List.mem_cons.1 h with rfl | h
    · exact List.mem_of_find?_eq_some hfind
    · exact hothers h
  · rw [hget] at h
    exact hothers h

/-- Inserting adds one entry at most. -/
theorem mem_of_mem_insert {validUntil : Instant} {e : Entry κ ν}
    (h : e ∈ (c.insert key value validUntil).entries) :
    e = ⟨key, value, validUntil⟩ ∨ e ∈ c.entries := by
  rw [entries_insert] at h
  rcases List.mem_cons.1 (List.mem_of_mem_take h) with rfl | h
  · exact .inl rfl
  · exact .inr (List.mem_filter.1 h).1

end Cache

namespace Store

variable {κ ν : Type} [DecidableEq κ] {s : Store κ ν} {now : Instant} {key : κ} {value : ν}

/-- The entries of a store. -/
def entries : Store κ ν → List (Cache.Entry κ ν)
  | .disabled => []
  | .cached c => c.entries

/-- A value that a store gives stands in an entry under its key. -/
theorem exists_mem_of_get (h : (s.get now key).1 = some value) :
    ∃ e ∈ s.entries, e.key = key ∧ e.value = value := by
  cases s with
  | disabled => cases h
  | cached c => exact Cache.exists_mem_of_get h

/-- Looking up in a store leaves no entry that was not there. -/
theorem mem_of_mem_get {e : Cache.Entry κ ν} (h : e ∈ (s.get now key).2.entries) :
    e ∈ s.entries := by
  cases s with
  | disabled => cases h
  | cached c => exact Cache.mem_of_mem_get h

/-- Inserting into a store adds one entry at most. -/
theorem mem_of_mem_insert {validUntil : Instant} {e : Cache.Entry κ ν}
    (h : e ∈ (s.insert key value validUntil).entries) :
    e = ⟨key, value, validUntil⟩ ∨ e ∈ s.entries := by
  cases s with
  | disabled => cases h
  | cached c => exact Cache.mem_of_mem_insert h

end Store

namespace Caches

/-- What holds of the entries of every store holds still when one store is replaced, if
it holds of the new entries. -/
theorem forall_mem_setStore {P : (k : Kind) → Cache.Entry k.Owner (List k.Datum) → Prop}
    {c : Caches} {k : Kind} {s : Store k.Owner (List k.Datum)}
    (hc : ∀ k', ∀ e ∈ (c.store k').entries, P k' e) (hs : ∀ e ∈ s.entries, P k e) :
    ∀ k', ∀ e ∈ ((c.setStore k s).store k').entries, P k' e := by
  intro k'
  have hk' := hc k'
  cases k <;> cases k' <;> assumption

/-- Caches that hold nothing but what a table says. -/
def Reflect (table : Table) (c : Caches) : Prop :=
  ∀ k, ∀ e ∈ (c.store k).entries, table.answer ⟨k, e.key⟩ = .ok e.value

variable {table : Table} {c : Caches} {k : Kind} {owner : k.Owner} {now : Instant}

/-- What is found in such caches is what the table says. -/
theorem Reflect.answer (h : c.Reflect table) {records : List k.Datum}
    (hfound : ((c.store k).get now owner).1 = some records) :
    table.answer ⟨k, owner⟩ = .ok records := by
  obtain ⟨e, he, rfl, rfl⟩ := Store.exists_mem_of_get hfound
  exact h k e he

/-- Looking up leaves nothing but what a table says. -/
theorem Reflect.get (h : c.Reflect table) :
    (c.setStore k ((c.store k).get now owner).2).Reflect table :=
  forall_mem_setStore h fun e he => h k e (Store.mem_of_mem_get he)

/-- So does keeping what the table says. -/
theorem Reflect.insert (h : c.Reflect table) {records : List k.Datum} {validUntil : Instant}
    (hrecords : table.answer ⟨k, owner⟩ = .ok records) :
    (c.setStore k ((c.store k).insert owner records validUntil)).Reflect table := by
  refine forall_mem_setStore h fun e he => ?_
  rcases Store.mem_of_mem_insert he with rfl | he
  · exact hrecords
  · exact h k e he

end Caches

/-! ## Lookups on a fixed zone -/

/-- Traffic on a fixed zone while nothing interrupts it. -/
structure Traffic.Steady (table : Table) (env : Environment) (t : Traffic) : Prop where
  reflects : t.caches.Reflect table
  quiet : env.alarm.ringing t.waited = none

section

variable {env env' : Environment} {table : Table}

/-- Asking gets the answer of the table, and takes no time. -/
theorem run_ask_of_serves (hserves : env.transport.Serves table) {t : Traffic}
    (hquiet : env.alarm.ringing t.waited = none) (q : Question) :
    ((ask env q).run t).1.map Answer.records = (table.answer q).mapError .fault ∧
      ((ask env q).run t).2.caches = t.caches ∧ ((ask env q).run t).2.waited = t.waited := by
  obtain ⟨hdelay, houtcome⟩ := hserves t.log q
  rw [run_ask]
  simp only [Environment.fault?, Table.answer, ← houtcome, hdelay, Nat.zero_min, Nat.add_zero,
    hquiet, Nat.not_lt_zero, if_false, and_self, and_true]
  rcases (env.transport t.log q).outcome with f | answer
  · rfl
  · dsimp only [Except.map]
    cases answer.records.isEmpty <;> rfl

/-- Asking and keeping the answer gets the answer of the table, and keeps nothing else. -/
theorem ask_keep_of_serves (hserves : env.transport.Serves table) {t : Traffic}
    (ht : t.Steady table env) (k : Kind) (owner : k.Owner) :
    let x : Lookup (List k.Datum) := do
      let answer ← ask env ⟨k, owner⟩
      keep k owner answer
      return answer.records
    (x.run t).1 = (table.answer ⟨k, owner⟩).mapError .fault ∧ (x.run t).2.Steady table env := by
  obtain ⟨hanswer, hcaches, hwaited⟩ := run_ask_of_serves hserves ht.quiet ⟨k, owner⟩
  have hreflects := ht.reflects
  have hquiet := ht.quiet
  dsimp only
  rw [Process.run_bind]
  rcases hrun : (ask env ⟨k, owner⟩).run t with ⟨e | answer, t'⟩
  · rw [hrun] at hanswer hcaches hwaited
    refine ⟨hanswer, ?_, ?_⟩
    · rwa [← hcaches] at hreflects
    · rwa [← hwaited] at hquiet
  · rw [hrun] at hanswer hcaches hwaited
    have hrecords : table.answer ⟨k, owner⟩ = .ok answer.records := by
      cases htable : table.answer ⟨k, owner⟩ with
      | error f =>
        rw [htable] at hanswer
        cases hanswer
      | ok records =>
        rw [htable] at hanswer
        cases hanswer
        rfl
    refine ⟨hanswer, ?_, ?_⟩
    · rw [← hcaches] at hreflects
      exact hreflects.insert hrecords
    · rwa [← hwaited] at hquiet

/-- A lookup finds what the table says, whatever the caches hold. -/
theorem lookup_of_serves (hserves : env.transport.Serves table) {t : Traffic}
    (ht : t.Steady table env) (k : Kind) (owner : k.Owner) :
    ((lookup env k owner).run t).1 = (table.answer ⟨k, k.qualify owner⟩).mapError .fault ∧
      ((lookup env k owner).run t).2.Steady table env := by
  rw [run_lookup]
  dsimp only
  cases hfound : ((t.caches.store k).get (env.clock t.readings) (k.qualify owner)).1 with
  | some records =>
    rw [ht.reflects.answer hfound]
    exact ⟨rfl, ht.reflects.get, ht.quiet⟩
  | none =>
    refine ask_keep_of_serves hserves (t := { t with readings := t.readings + 1, caches := _ })
      ⟨ht.reflects.get, ht.quiet⟩ k _

/-! ## Evaluations on a fixed zone -/

/-- Charges from equal budgets end alike. -/
theorem simulates_charge_eq {R : Traffic → Traffic → Prop} {excused : Abort → Prop} :
    Simulates (Progress.Related R Eq) Eq excused charge charge := by
  rintro p p' ⟨ht, hb⟩
  rw [run_charge, run_charge, ← hb]
  cases p.budget.charge with
  | error f => exact .inr ⟨.stopped _, ht, hb⟩
  | ok b => exact .inr ⟨.value rfl, ht, rfl⟩

/-- Missing answers end alike when they are counted in equal budgets. -/
theorem simulates_chargeVoid_eq {R : Traffic → Traffic → Prop} {excused : Abort → Prop} :
    Simulates (Progress.Related R Eq) Eq excused chargeVoid chargeVoid := by
  rintro p p' ⟨ht, hb⟩
  rw [run_chargeVoid, run_chargeVoid, ← hb]
  split
  · exact .inr ⟨.stopped _, ht, rfl⟩
  · exact .inr ⟨.value rfl, ht, rfl⟩

variable (env env') in
/-- On a fixed zone evaluations end alike, whatever the caches hold. -/
theorem coupling_of_serves (hsettings : env'.settings = env.settings)
    (htimestamp : env'.timestamp = env.timestamp) (hserves : env.transport.Serves table)
    (hserves' : env'.transport.Serves table) :
    Coupling env env' (fun t t' => t.Steady table env ∧ t'.Steady table env') Eq never where
  asksType99 := by rw [hsettings]
  receiver := by rw [hsettings]
  timestamp := htimestamp.symm
  lookup k owner := by
    rintro t t' ⟨ht, ht'⟩
    obtain ⟨hanswer, hsteady⟩ := lookup_of_serves hserves ht k owner
    obtain ⟨hanswer', hsteady'⟩ := lookup_of_serves hserves' ht' k owner
    rw [hanswer, hanswer']
    refine .inr ⟨?_, hsteady, hsteady'⟩
    rcases (table.answer ⟨k, k.qualify owner⟩) with f | records
    · exact .stopped _
    · exact .value rfl
  charge := simulates_charge_eq
  chargeVoid := simulates_chargeVoid_eq
  depth := .inl (by rw [hsettings])

variable (env env') in
/-- On a fixed zone checks of a host end alike, and the caches hold nothing but what the
zone says afterwards. -/
theorem checkHost_of_serves (hsettings : env'.settings = env.settings)
    (htimestamp : env'.timestamp = env.timestamp) (hserves : env.transport.Serves table)
    (hserves' : env'.transport.Serves table) (request : Request) {t t' : Traffic}
    (ht : t.Steady table env) (ht' : t'.Steady table env') :
    ((checkHost env request).run t).1 = ((checkHost env' request).run t').1 ∧
      ((checkHost env request).run t).2.Steady table env ∧
      ((checkHost env' request).run t').2.Steady table env' := by
  have hcoupling := coupling_of_serves env env' hsettings htimestamp hserves hserves'
  have hstart : Progress.Related
      (fun t t' => t.Steady table env ∧ t'.Steady table env') Eq
      (.start env t) (.start env' t') :=
    ⟨⟨ht, ht'⟩, congrArg Budget.ofSettings hsettings.symm⟩
  obtain ⟨hr, hsteady, -⟩ := (hcoupling.evaluateRequest request).eq_of_never hstart
  rw [run_checkHost, run_checkHost, hr]
  exact ⟨rfl, hsteady⟩

/-- After the check of a host on a fixed zone the caches hold nothing but what it says. -/
theorem Traffic.Steady.checkHost {t : Traffic} (ht : t.Steady table env)
    (hserves : env.transport.Serves table) (request : Request) :
    ((SenderPolicy.checkHost env request).run t).2.Steady table env :=
  (checkHost_of_serves env env rfl rfl hserves hserves request ht ht).2.1

/-- At the start of a verification its deadline has not passed. -/
theorem Caches.Reflect.steady_timed {t : Traffic} (h : t.caches.Reflect table) :
    Traffic.Steady table env.timed { t with waited := 0 } where
  reflects := h
  quiet := by simp [Environment.timed, Alarm.ringing, Alarm.isCalledOff, Alarm.isOver]

end

/-! ## Earlier lookups and verifications -/

/-- Processes that keep nothing but what a table says. -/
def Honest {ε α : Type} (table : Table) (x : Process Traffic ε α) : Prop :=
  ∀ t, t.caches.Reflect table → (x.run t).2.caches.Reflect table

namespace Honest

variable {ε α β : Type} {table : Table} {env : Environment}

theorem pure (a : α) : Honest table (Pure.pure a : Process Traffic ε α) := fun _ ht => ht

/-- Processes that follow one another are honest if all of them are. -/
theorem bind {x : Process Traffic ε α} {f : α → Process Traffic ε β} (hx : Honest table x)
    (hf : ∀ a, Honest table (f a)) : Honest table (x >>= f) := by
  intro t ht
  have ht' := hx t ht
  rw [Process.run_bind]
  rcases hrun : x.run t with ⟨e | a, t'⟩
  · rwa [hrun] at ht'
  · rw [hrun] at ht'
    exact hf a t' ht'

theorem ite {c : Prop} [Decidable c] {x y : Process Traffic ε α} (hx : Honest table x)
    (hy : Honest table y) : Honest table (if c then x else y) := by
  split <;> assumption

/-- A lookup outside of verifications is honest, if a lookup is followed by itself. -/
theorem of_simulates (hsilent : env.alarm = .silent) {x : Lookup α}
    (hx : Simulates (fun t t' => t.Steady table env ∧ t'.Steady table env) Eq never x x) :
    Honest table x := by
  intro t ht
  have hsteady : t.Steady table env := by
    refine ⟨ht, ?_⟩
    rw [hsilent]
    rfl
  obtain ⟨-, hsteady', -⟩ := hx.eq_of_never ⟨hsteady, hsteady⟩
  exact hsteady'.reflects

/-- A check with an alarm is honest where the transport serves a table. -/
theorem checkWithin (hserves : env.transport.Serves table) (cancelAt : Option Nat)
    (request : Request) : Honest table (checkWithin env cancelAt request) := by
  intro t ht
  unfold SenderPolicy.checkWithin
  rw [Process.run_bind, Process.run_update]
  dsimp only
  cases hring : Alarm.ringing ⟨some env.settings.evaluationTimeout, cancelAt⟩ 0 with
  | some i => exact ht
  | none =>
    have hsteady : Traffic.Steady table
        { env with alarm := ⟨some env.settings.evaluationTimeout, cancelAt⟩ }
        { t with waited := 0 } :=
      ⟨ht, hring⟩
    exact (hsteady.checkHost hserves request).reflects

/-- So is a verification. -/
theorem verify (hserves : env.transport.Serves table) (request : Request) :
    Honest table (verify env request) := by
  intro t ht
  have hcheck := checkWithin hserves none request t ht
  change (SenderPolicy.verify env request t).2.caches.Reflect table
  unfold SenderPolicy.verify
  rcases hrun : (SenderPolicy.checkWithin env none request).run t with ⟨e | outcome, t'⟩ <;>
    rwa [hrun] at hcheck

/-- So is one that may be called off. -/
theorem verifyCancellable (hserves : env.transport.Serves table) (request : Request)
    (cancelAt : Option Nat) : Honest table (verifyCancellable env request cancelAt) := by
  intro t ht
  have hcheck := checkWithin hserves cancelAt request t ht
  change (SenderPolicy.verifyCancellable env request cancelAt t).2.caches.Reflect table
  unfold SenderPolicy.verifyCancellable
  rcases hrun : (SenderPolicy.checkWithin env cancelAt request).run t with
    ⟨(_ | _) | outcome, t'⟩ <;>
    rwa [hrun] at hcheck

/-- So is that of a mail session. -/
theorem verifySession (hserves : env.transport.Serves table) (client : Address)
    (helo sender : String) : Honest table (verifySession env client helo sender) := by
  refine ite (bind (verify hserves _) fun outcome => ?_) (verify hserves _)
  exact ite (pure outcome) (verify hserves _)

/-- Settling the result of a process keeps nothing more. -/
theorem settle {x : Process Traffic ε α} (hx : Honest table x) (toFault : ε → Fault)
    (respond : α → Response) :
    Honest table (Session.settle toFault respond x : Process Traffic Fault Response) := by
  intro t ht
  have ht' := hx t ht
  change (Session.settle toFault respond x t).2.caches.Reflect table
  unfold Session.settle
  rcases hrun : x.run t with ⟨e | a, t'⟩ <;> rwa [hrun] at ht'

/-- Settling a verification is as honest as the verification. -/
theorem settleVerification {x : Verification Outcome} (hx : Honest table x) :
    Honest table (Session.settleVerification x : Process Traffic Fault Response) :=
  settle hx _ _

/-- A command on a fixed zone keeps nothing but what the zone says. -/
theorem answer (hserves : env.transport.Serves table) (hsilent : env.alarm = .silent)
    (cmd : Command) :
    Honest table (Session.answer env cmd : Process Traffic Fault Response) := by
  have hcoupling := coupling_of_serves env env rfl rfl hserves hserves
  cases cmd with
  | helo client helo => exact settleVerification (verify hserves (.forHelo client helo))
  | sender client helo sender =>
    exact settleVerification (verify hserves (.forSender client helo sender))
  | session client helo sender =>
    exact settleVerification (verifySession hserves client helo sender)
  | verify client domain helo sender =>
    unfold Session.answer
    dsimp only
    split
    · exact settleVerification (verify hserves _)
    · exact fun _ ht => ht
  | verifyText domain client sender helo =>
    have hverify : Honest table (SenderPolicy.verifyText env domain client sender helo) := by
      unfold SenderPolicy.verifyText
      split
      · exact verify hserves _
      · exact pure _
    exact settleVerification hverify
  | verifyCancellable client domain helo sender cancelAt =>
    unfold Session.answer
    dsimp only
    split
    · exact settle (verifyCancellable hserves _ _) _ _
    · exact fun _ ht => ht
  | policy domain => exact settle (of_simulates hsilent (hcoupling.lookupPolicy domain)) _ _
  | records q => exact settle (of_simulates hsilent (hcoupling.lookup q.kind q.owner)) _ _
  | hasAddress name => exact settle (of_simulates hsilent (hcoupling.host.hasAddress name)) _ _
  | edit edits => exact fun _ ht => ht
  | configure settings => exact fun _ ht => ht
  | setCaches caches => exact fun _ ht => ht

end Honest

namespace Caches

/-- Caches that hold nothing yet, or nothing at all. -/
def IsFresh (c : Caches) : Prop := ∀ k, (c.store k).entries = []

/-- Caches are fresh at any capacity, and where nothing is kept. -/
theorem isFresh_ofCapacity (capacity : Nat) : (ofCapacity capacity).IsFresh := by
  intro k
  cases k <;> rfl

theorem isFresh_disabled : disabled.IsFresh := by
  intro k
  cases k <;> rfl

/-- The caches after lookups and verifications on a fixed zone, one after another. Settings
and the clock may change between them, and so may how long the answers of the zone hold. -/
inductive Reached (table : Table) : Caches → Prop where
  | fresh {c : Caches} : c.IsFresh → Reached table c
  | command {env : Environment} {t : Traffic} (cmd : Command) :
      Reached table t.caches → env.transport.Serves table → env.alarm = .silent →
      Reached table (Session.answer env cmd t).2.caches

/-- Caches that are reached on a fixed zone hold nothing but what it says. -/
theorem Reached.reflect {table : Table} {c : Caches} (h : c.Reached table) : c.Reflect table := by
  induction h with
  | fresh hfresh =>
    intro k e he
    rw [hfresh k] at he
    cases he
  | command cmd _ hserves hsilent ih => exact Honest.answer hserves hsilent cmd _ ih

end Caches

/-! ## Verifications -/

section

variable {env : Environment} {table : Table}

/-- On a fixed zone verifications end alike, whatever the caches hold of what it says. -/
theorem verify_eq_of_serves {env' : Environment} (hsettings : env'.settings = env.settings)
    (htimestamp : env'.timestamp = env.timestamp) (hserves : env.transport.Serves table)
    (hserves' : env'.transport.Serves table) (request : Request) {t t' : Traffic}
    (ht : t.caches.Reflect table) (ht' : t'.caches.Reflect table) :
    ((verify env' request).run t').1 = ((verify env request).run t).1 := by
  obtain ⟨hr, -, -⟩ := checkHost_of_serves env.timed env'.timed hsettings htimestamp
    hserves hserves' request ht.steady_timed ht'.steady_timed
  rw [run_verify, run_verify]
  rcases hrun : (checkHost env.timed request).run { t with waited := 0 } with ⟨r, q⟩
  rcases hrun' : (checkHost env'.timed request).run { t' with waited := 0 } with ⟨r', q'⟩
  rw [hrun, hrun'] at hr
  cases hr
  cases r <;> rfl

end

/-- On a zone that does not change and answers without delay, an outcome is the one without
caches, whatever was looked up and verified before on that zone. So it does not depend on
what that was, at which capacity of the caches, and how long the answers were kept. -/
theorem verify_ignores_caches {table : Table} {env : Environment}
    (hserves : env.transport.Serves table) (request : Request) {t : Traffic}
    (ht : t.caches.Reached table) :
    ((verify env request).run t).1 =
        ((verify env request).run { t with caches := .disabled }).1 ∧
      ∀ env' t', env'.transport.Serves table → env'.settings = env.settings →
        env'.timestamp = env.timestamp → t'.caches.Reached table →
        ((verify env' request).run t').1 = ((verify env request).run t).1 := by
  constructor
  · exact verify_eq_of_serves rfl rfl hserves hserves request
      (Caches.Reached.fresh Caches.isFresh_disabled).reflect ht.reflect
  · intro env' t' hserves' hsettings htimestamp ht'
    exact verify_eq_of_serves hsettings htimestamp hserves hserves' request ht.reflect ht'.reflect

/-- A zone with the policy that the address of its name may send. -/
def grantingZone : Zone :=
  Zone.empty.applyAll
    [.text "example.com" [Octets.ofAscii "v=spf1 a -all".toList],
      .address "example.com" (.v4 ⟨0xC0000201⟩)]

/-- On a zone, a verification does not depend on an earlier one, nor on the only answer
that there was room to keep. -/
theorem verify_ignores_caches_granting :
    let env := Session.environment ⟨grantingZone, .standard, .disabled⟩
    let request : Request := .forHelo (.v4 ⟨0xC0000201⟩) "example.com"
    let t := (Session.answer env (.helo (.v4 ⟨0xC0000202⟩) "example.com")
      (.start (.ofCapacity 1))).2
    env.transport.Serves grantingZone.table ∧ t.caches.Reached grantingZone.table ∧
      ((verify env request).run t).1 =
        ((verify env request).run { t with caches := .disabled }).1 ∧
      ((verify env request).run (.start .disabled)).1 = ((verify env request).run t).1 := by
  intro env request t
  have hserves : env.transport.Serves grantingZone.table :=
    grantingZone.serves_transport (fun _ => rfl) (fun _ _ h => by cases h) Session.now
  have hfresh : (Traffic.start (.ofCapacity 1)).caches.Reached grantingZone.table :=
    .fresh (Caches.isFresh_ofCapacity 1)
  have hreached : t.caches.Reached grantingZone.table := .command _ hfresh hserves rfl
  obtain ⟨huncached, hpast⟩ := verify_ignores_caches hserves request hreached
  exact ⟨hserves, hreached, huncached,
    hpast env _ hserves rfl rfl (.fresh Caches.isFresh_disabled)⟩

end SenderPolicy
