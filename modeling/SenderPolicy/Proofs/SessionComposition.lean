import SenderPolicy.Proofs.CacheTransparency
import SenderPolicy.Proofs.CompleteRequests
import SenderPolicy.Proofs.Recursion

/-!
# Sessions of two checks

A session checks the name in the greeting first, and the sender if that did not decide. On
a zone that does not change and answers without delay its outcome is put together from the
outcomes of the two checks, each made on its own.

Main definitions:

- `composedOutcome`: the outcome of the two checks, the greeting first;
- `Request.repeatsGreeting`: senders at the name in the greeting.

Main results:

- `verifySession_eq_composed`: the outcome of a session is the composed one, except that a
  sender at the name in the greeting is not checked.
-/

namespace SenderPolicy

open Dns

/-- The outcome of the greeting, if it is a name and fails or if there is no sender, and the
outcome of the sender otherwise. -/
def composedOutcome (env : Environment) (client : Address) (helo sender : String)
    (t : Traffic) : Outcome :=
  let greeting := outcomeFrom t (verifyHelo env client helo)
  if DomainName.isValid helo = true ∧ greeting.verdict = .fail then greeting
  else if Request.isNullSender sender then greeting
  else outcomeFrom t (verifySender env client helo sender)

namespace Request

/-- Whether the greeting is a name, and the sender, if there is one, is at this name. -/
def repeatsGreeting (client : Address) (helo sender : String) : Bool :=
  DomainName.isValid helo && (forSender client helo sender).domain == helo

end Request

section

variable {env : Environment} {table : Table} {t t' : Traffic}

theorem outcomeFrom_of_run {x : Verification Outcome} {outcome : Outcome}
    (h : (x.run t).1 = .ok outcome) : outcomeFrom t x = outcome := by
  unfold outcomeFrom
  rcases hrun : x.run t with ⟨e | o, t'⟩
  · exact nomatch e
  · rw [hrun] at h
    cases h
    rfl

/-- What follows a verification starts from its outcome and the traffic that it leaves. -/
theorem outcomeFrom_bind (x : Verification Outcome) (f : Outcome → Verification Outcome) :
    outcomeFrom t (x >>= f) = outcomeFrom (x.run t).2 (f (outcomeFrom t x)) := by
  unfold outcomeFrom
  rw [Process.run_bind]
  rcases x.run t with ⟨e | outcome, t'⟩
  · exact nomatch e
  · rfl

/-- On a fixed zone the outcome of a verification does not depend on the one before it. -/
theorem outcomeFrom_verify_eq (hserves : env.transport.Serves table) (request : Request)
    (ht : t.caches.Reflect table) (ht' : t'.caches.Reflect table) :
    outcomeFrom t' (verify env request) = outcomeFrom t (verify env request) := by
  have heq := verify_eq_of_serves rfl rfl hserves hserves request ht ht'
  rcases hrun : ((verify env request).run t).1 with e | outcome
  · exact nomatch e
  · rw [outcomeFrom_of_run hrun, outcomeFrom_of_run (heq.trans hrun)]

end

/-- The outcome of a session is the composed one on a zone that does not change and answers
without delay, whatever was looked up before; but a sender at the name in the greeting is not
checked, so that the outcome is that of the greeting. -/
theorem verifySession_eq_composed {table : Table} {env : Environment}
    (hserves : env.transport.Serves table) (client : Address) (helo sender : String)
    {t : Traffic} (ht : t.caches.Reached table) :
    outcomeFrom t (verifySession env client helo sender) =
      if Request.repeatsGreeting client helo sender then
        outcomeFrom t (verifyHelo env client helo)
      else composedOutcome env client helo sender t := by
  by_cases hname : DomainName.isValid helo = true
  · -- The greeting is checked, and then the sender, unless the greeting decides.
    have hafter := Honest.verify hserves (.forHelo client helo) t ht.reflect
    have hsender := outcomeFrom_verify_eq hserves (.forSender client helo sender) ht.reflect hafter
    have hrun : outcomeFrom t (verifySession env client helo sender) =
        if (outcomeFrom t (verifyHelo env client helo)).verdict = .fail ∨
            (Request.forSender client helo sender).domain = helo then
          outcomeFrom t (verifyHelo env client helo)
        else outcomeFrom t (verifySender env client helo sender) := by
      unfold verifySession
      rw [if_pos hname, outcomeFrom_bind]
      simp only [Bool.or_eq_true, decide_eq_true_eq, beq_iff_eq]
      split
      · rfl
      · exact hsender
    have hnull : Request.isNullSender sender = true →
        (Request.forSender client helo sender).domain = helo := by
      intro h
      rw [Request.forSender_of_isNullSender h]
      rfl
    rw [hrun, composedOutcome, Request.repeatsGreeting]
    simp only [hname, Bool.true_and, beq_iff_eq, true_and]
    by_cases hdomain : (Request.forSender client helo sender).domain = helo
    · simp [hdomain]
    · have hsome : Request.isNullSender sender = false := by
        simpa using fun h => hdomain (hnull h)
      simp [hdomain, hsome]
  · -- The greeting is no name, so that the sender alone is checked, if there is one.
    have hrun : outcomeFrom t (verifySession env client helo sender) =
        outcomeFrom t (verifySender env client helo sender) := by
      unfold verifySession
      rw [if_neg hname]
      rfl
    rw [hrun, composedOutcome, Request.repeatsGreeting]
    simp only [hname, Bool.false_and, Bool.false_eq_true, if_false, false_and]
    split
    next h => rw [verifySender, Request.forSender_of_isNullSender h, verifyHelo]
    next => rfl

/-- A zone with a policy that lets the sender `alice` pass, and no other. -/
def personalZone : Zone :=
  Zone.empty.applyAll
    [.text "example.org" [Octets.ofAscii "v=spf1 exists:%{l}.allowed.example.org ~all".toList],
      .address "alice.allowed.example.org" (.v4 ⟨0x7F000002⟩)]

/-- The outcome on a sender elsewhere is the composed one. -/
theorem verifySession_eq_composed_personal :
    let env := Session.environment ⟨personalZone, .standard, .ofCapacity 128⟩
    let client : Address := .v4 ⟨0xC0000201⟩
    let t : Traffic := .start (.ofCapacity 128)
    env.transport.Serves personalZone.table ∧ t.caches.Reached personalZone.table ∧
      Request.repeatsGreeting client "mx.example.org" "alice@example.org" = false ∧
      outcomeFrom t (verifySession env client "mx.example.org" "alice@example.org") =
        composedOutcome env client "mx.example.org" "alice@example.org" t := by
  intro env client t
  have hserves : env.transport.Serves personalZone.table :=
    personalZone.serves_transport (fun _ => rfl) (fun _ _ h => by cases h) Session.now
  have hreached : t.caches.Reached personalZone.table :=
    .fresh (Caches.isFresh_ofCapacity 128)
  have helsewhere :
      Request.repeatsGreeting client "mx.example.org" "alice@example.org" = false := by
    decide +kernel
  refine ⟨hserves, hreached, helsewhere, ?_⟩
  rw [verifySession_eq_composed hserves client _ _ hreached, helsewhere, if_neg Bool.false_ne_true]

/-- A sender that would pass is not checked if it is at the name in the greeting. -/
theorem verifySession_ne_composed :
    let env := Session.environment ⟨personalZone, .standard, .ofCapacity 128⟩
    let client : Address := .v4 ⟨0xC0000201⟩
    let t : Traffic := .start (.ofCapacity 128)
    env.transport.Serves personalZone.table ∧ t.caches.Reached personalZone.table ∧
      Request.isNullSender "alice@example.org" = false ∧
      (outcomeFrom t (verifyHelo env client "example.org")).verdict = .softFail ∧
      (outcomeFrom t (verifySender env client "example.org" "alice@example.org")).verdict = .pass ∧
      outcomeFrom t (verifySession env client "example.org" "alice@example.org") ≠
        outcomeFrom t (verifySender env client "example.org" "alice@example.org") := by
  intro env client t
  have hserves : env.transport.Serves personalZone.table :=
    personalZone.serves_transport (fun _ => rfl) (fun _ _ h => by cases h) Session.now
  have hreached : t.caches.Reached personalZone.table :=
    .fresh (Caches.isFresh_ofCapacity 128)
  have hgreeting : (outcomeFrom t (verifyHelo env client "example.org")).verdict = .softFail := by
    rw [verifyHelo, outcomeFrom_verify, Recursive.evaluateRequest_eq_requestBy]
    decide +kernel
  have hsender :
      (outcomeFrom t (verifySender env client "example.org" "alice@example.org")).verdict =
      .pass := by
    rw [verifySender, outcomeFrom_verify, Recursive.evaluateRequest_eq_requestBy]
    decide +kernel
  have hsession : outcomeFrom t (verifySession env client "example.org" "alice@example.org") =
      outcomeFrom t (verifyHelo env client "example.org") := by
    have hname : DomainName.isValid "example.org" = true := by decide +kernel
    have hdomain : (Request.forSender client "example.org" "alice@example.org").domain =
        "example.org" := by decide +kernel
    unfold verifySession
    rw [if_pos hname, outcomeFrom_bind, if_pos (by simp [hdomain])]
    rfl
  refine ⟨hserves, hreached, by decide +kernel, hgreeting, hsender, fun h => ?_⟩
  rw [hsession] at h
  rw [h, hsender] at hgreeting
  cases hgreeting

end SenderPolicy
