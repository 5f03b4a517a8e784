import SenderPolicy.Proofs.AddressLookups

/-!
# The walk over mail exchangers

The mail exchangers of a name are looked at in the order of the answer, and each that has a name
is charged before its addresses are looked up. So the first of three events decides: nothing is
left to charge, a lookup fails, or an address near the client is found.

Main definitions:

- `exchangeNames`: the names of mail exchangers, empty ones left out;
- `Walk`: what a walk over the lookups of exchangers comes to;
- `ExchangesDecide`: what looking at the exchangers of an answer comes to.

Main results:

- `run_matchesExchange_cons`: what looking at one mail exchanger comes to;
- `walk_matchesExchange`: looking at mail exchangers is such a walk;
- `Mechanism.matches_mx`: what the mechanism comes to.
-/

namespace SenderPolicy

/-- The names of mail exchangers in their order. The empty name takes no mail and is left out. -/
def exchangeNames (answer : List Dns.MailExchange) : List String :=
  (answer.map Dns.MailExchange.exchange).filter (! ·.isEmpty)

/-- A lookup that decides: it fails, or finds an address near the client. -/
def AddressLookup.Decides (near : Address → Prop) (l : AddressLookup) : Prop :=
  l.Fails ∨ l.Finds near

/-- What a walk over lookups comes to, with the lookups that are made. At most `r` of them may be
made. -/
inductive Walk (near : Address → Prop) (r : Nat) (lookups : List AddressLookup) :
    List AddressLookup → Except Abort Bool → Prop where
  | exhausted {made : List AddressLookup} {next : AddressLookup} :
      made ++ [next] <+: lookups → made.length = r → (∀ l ∈ made, ¬ l.Decides near) →
      Walk near r lookups made (.error (.stopped (.fault .tooManyLookups)))
  | failed {before : List AddressLookup} {l : AddressLookup} {e : Stop} :
      FirstAt (AddressLookup.Decides near) lookups before l → before.length < r →
      l.outcome = .error e →
      Walk near r lookups (before ++ [l]) (.error (.stopped e))
  | matched {before : List AddressLookup} {l : AddressLookup} :
      FirstAt (AddressLookup.Decides near) lookups before l → before.length < r → l.Finds near →
      Walk near r lookups (before ++ [l]) (.ok true)
  | passed :
      lookups.length ≤ r → (∀ l ∈ lookups, ¬ l.Decides near) →
      Walk near r lookups lookups (.ok false)

namespace Walk

variable {near : Address → Prop} {r : Nat} {lookups before made : List AddressLookup}
  {l : AddressLookup} {x : Except Abort Bool}

/-- A walk goes on after a lookup that does not decide. -/
theorem cons (hl : ¬ l.Decides near) (h : Walk near r lookups made x) :
    Walk near (r + 1) (l :: lookups) (l :: made) x := by
  cases h with
  | exhausted hmade hlength hnone =>
    exact .exhausted (List.cons_prefix_cons.2 ⟨rfl, hmade⟩) (congrArg (· + 1) hlength)
      (List.forall_mem_cons.2 ⟨hl, hnone⟩)
  | @failed before l' e hfirst hlength he =>
    have hcons : Walk near (r + 1) (l :: lookups) ((l :: before) ++ [l']) (.error (.stopped e)) :=
      .failed (hfirst.cons hl) (Nat.succ_lt_succ hlength) he
    exact hcons
  | @matched before l' hfirst hlength hfinds =>
    have hcons : Walk near (r + 1) (l :: lookups) ((l :: before) ++ [l']) (.ok true) :=
      .matched (hfirst.cons hl) (Nat.succ_lt_succ hlength) hfinds
    exact hcons
  | passed hlength hnone =>
    exact .passed (Nat.succ_le_succ hlength) (List.forall_mem_cons.2 ⟨hl, hnone⟩)

/-- A lookup that fails ends the walk. -/
theorem failed_head {e : Stop} (hr : 0 < r) (hl : l.Fails) (he : l.outcome = .error e) :
    Walk near r (l :: lookups) [l] (.error (.stopped e)) := by
  have hhead : Walk near r (l :: lookups) ([] ++ [l]) (.error (.stopped e)) :=
    .failed (.head (.inl hl) lookups) hr he
  exact hhead

/-- A lookup that finds an address near the client ends the walk. -/
theorem matched_head (hr : 0 < r) (hl : l.Finds near) :
    Walk near r (l :: lookups) [l] (.ok true) := by
  have hhead : Walk near r (l :: lookups) ([] ++ [l]) (.ok true) :=
    .matched (.head (.inr hl) lookups) hr hl
  exact hhead

/-- If the first lookup that decides finds an address near the client and may be made, the walk
ends with a match, however many lookups there are. -/
theorem eq_true (h : Walk near r lookups made x)
    (hfirst : FirstAt (AddressLookup.Decides near) lookups before l) (hlength : before.length < r)
    (hfinds : l.Finds near) : x = .ok true := by
  cases h with
  | @exhausted _ next hmade hr hnone =>
    have hmem := hfirst.mem_of_prefix ((List.prefix_append made [next]).trans hmade) (by omega)
    exact absurd hfirst.holds (hnone l hmem)
  | failed hfirst' _ he =>
    obtain ⟨-, rfl⟩ := hfirst.unique hfirst'
    obtain ⟨found, hfound, -⟩ := hfinds
    cases he.symm.trans hfound
  | matched => rfl
  | passed _ hnone => exact absurd hfirst.holds (hnone l hfirst.mem)

end Walk

section

variable (env : Environment) (client : Address) (mask4 : BitVec 32) (mask6 : BitVec 128)

/-- An exchanger that has been charged is looked up, and decides, or the others are looked at. -/
theorem run_matchesExchange_cons {exchanger : Dns.MailExchange} {rest : List Dns.MailExchange}
    {p : Progress} {b : Budget} (hname : ¬ exchanger.exchange.isEmpty = true)
    (hcharge : p.budget.charge = .ok b) :
    ∃ l : AddressLookup,
      addressLookups env client (exchanger.exchange :: exchangeNames rest) p.traffic =
          l :: addressLookups env client (exchangeNames rest) l.traffic ∧
        let ran := (matchesExchange env client mask4 mask6 (exchanger :: rest)).run p
        ((∃ e, l.outcome = .error e ∧ l.Fails ∧ ran = (.error (.stopped e), ⟨l.traffic, b⟩)) ∨
          (l.Finds (client.agrees mask4 mask6 · = true) ∧ ran = (.ok true, ⟨l.traffic, b⟩)) ∨
          (¬ l.Decides (client.agrees mask4 mask6 · = true) ∧
            ran = (matchesExchange env client mask4 mask6 rest).run ⟨l.traffic, b⟩)) := by
  refine ⟨_, rfl, ?_⟩
  dsimp only
  rw [matchesExchange, if_neg hname, Process.run_bind, run_charge, hcharge, resolvesNear_eq]
  dsimp only
  rw [Process.run_bind, Evaluation.run_ofLookup, Lookup.run_attempt, Process.run_bind]
  rcases (addresses env client exchanger.exchange).run p.traffic with ⟨(f | i) | found, t⟩
  · cases hf : f.isNotFound with
    | true =>
      refine .inr (.inr ⟨?_, by simp [Except.mapError, hf]⟩)
      simp [AddressLookup.Decides, Stop.isMissing_fault_iff, hf]
    | false =>
      refine .inl ⟨_, rfl, ?_, by simp [Except.mapError, hf, Evaluation.fail]⟩
      simp [Stop.isMissing_fault_iff, hf]
  · exact .inl ⟨_, rfl, by simp [Stop.not_isMissing_interrupted], rfl⟩
  · cases hnear : found.any (client.agrees mask4 mask6) with
    | true => exact .inr (.inl ⟨by simpa using hnear, by simp [Except.mapError, hnear]⟩)
    | false =>
      refine .inr (.inr ⟨?_, by simp [Except.mapError, hnear]⟩)
      simpa [AddressLookup.Decides] using hnear

/-- Looking at mail exchangers is a walk over the lookups of their names. Each lookup that is made
is charged, and nothing else is. -/
theorem walk_matchesExchange (answer : List Dns.MailExchange) (p : Progress) :
    ∃ x made b, (matchesExchange env client mask4 mask6 answer).run p =
        (x, ⟨trafficAfter p.traffic made, b⟩) ∧ p.budget.Charged made.length b ∧
      Walk (client.agrees mask4 mask6 · = true) p.budget.remaining
        (addressLookups env client (exchangeNames answer) p.traffic) made x := by
  induction answer generalizing p with
  | nil => exact ⟨_, [], p.budget, rfl, .refl _, .passed (Nat.zero_le _) (List.forall_mem_nil _)⟩
  | cons exchanger rest ih =>
    by_cases hempty : exchanger.exchange.isEmpty = true
    · have hnames : exchangeNames (exchanger :: rest) = exchangeNames rest := by
        simp [exchangeNames, hempty]
      rw [matchesExchange, if_pos hempty, hnames]
      exact ih p
    have hnames : exchangeNames (exchanger :: rest) =
        exchanger.exchange :: exchangeNames rest := by
      simp [exchangeNames, hempty]
    rw [hnames]
    rcases Nat.eq_zero_or_pos p.budget.remaining with hzero | hpos
    · rw [matchesExchange, if_neg hempty, Process.run_bind, run_charge,
        Budget.charge_eq_error hzero]
      refine ⟨_, [], p.budget, rfl, .refl _, ?_⟩
      exact .exhausted (List.prefix_append [_] _) hzero.symm (List.forall_mem_nil _)
    · obtain ⟨b, hcharge, hcharged⟩ := Budget.exists_charge hpos
      obtain ⟨l, hlookups, ⟨e, he, hfails, hran⟩ | ⟨hfinds, hran⟩ | ⟨hl, hran⟩⟩ :=
        run_matchesExchange_cons env client mask4 mask6 hempty hcharge
      all_goals rw [hlookups, hran]
      · exact ⟨_, [l], b, rfl, hcharged, .failed_head hpos hfails he⟩
      · exact ⟨_, [l], b, rfl, hcharged, .matched_head hpos hfinds⟩
      · obtain ⟨x, made, b', hrun, hmade, hwalk⟩ := ih ⟨l.traffic, b⟩
        refine ⟨x, l :: made, b', by rw [hrun, trafficAfter_cons], ?_, ?_⟩
        · rw [List.length_cons, Nat.add_comm]
          exact hcharged.trans hmade
        · rw [show p.budget.remaining = b.remaining + 1 by
            rw [hcharged.remaining, Nat.sub_add_cancel hpos]]
          exact hwalk.cons hl

end

/-! ## The mechanism -/

/-- What looking at the exchangers of an answer comes to: a walk over their lookups, each of which
is charged. -/
inductive ExchangesDecide (env : Environment) (client : Address) (near : Address → Prop)
    (b : Budget) (t : Traffic) (answer : List Dns.MailExchange) :
    Except Abort Bool × Progress → Prop where
  | walked {made : List AddressLookup} {x : Except Abort Bool} {b' : Budget} :
      Walk near b.remaining (addressLookups env client (exchangeNames answer) t) made x →
      b.Charged made.length b' →
      ExchangesDecide env client near b t answer (x, ⟨trafficAfter t made, b'⟩)

/-- An exchanger near the client that may be looked up is a match if none before it decides. -/
theorem ExchangesDecide.eq_true {env : Environment} {client : Address} {near : Address → Prop}
    {b : Budget} {t : Traffic} {answer : List Dns.MailExchange}
    {ran : Except Abort Bool × Progress} (h : ExchangesDecide env client near b t answer ran)
    {before : List AddressLookup} {l : AddressLookup}
    (hfirst : FirstAt (AddressLookup.Decides near)
      (addressLookups env client (exchangeNames answer) t) before l)
    (hlength : before.length < b.remaining) (hfinds : l.Finds near) : ran.1 = .ok true := by
  cases h with
  | walked hwalk => exact hwalk.eq_true hfirst hlength hfinds

section

variable {env : Environment} {request : Request} {domain name : String} {m? : Option MacroString}
  {mask4 : BitVec 32} {mask6 : BitVec 128} {p : Progress} {t : Traffic}

variable (mask4 mask6) in
/-- The mechanism charges once for itself, and then what is found decides. -/
theorem Mechanism.exchangesDecide (hleft : p.budget.lookups < p.budget.maxLookups)
    (htarget : (targetNameOr env request domain m?).run p.traffic = (.ok name, t))
    (hname : DomainName.isValid name = true) :
    ∃ b, p.budget.Charged 1 b ∧
      AnswerDecides b
        (ExchangesDecide env request.client (request.client.agrees mask4 mask6 · = true) b)
        ((lookup env .mx name).run t)
        (((Mechanism.mx m? mask4 mask6).matches env request domain).run p) := by
  obtain ⟨b, hcharged, hrun⟩ := Mechanism.exists_run_matches (m := .mx m? mask4 mask6) hleft htarget
    (show _ = charge >>= fun _ => orVoid (lookup env .mx name >>= pure) [] >>=
        matchesExchange env request.client mask4 mask6 by
      simp [Mechanism.test, hname])
  refine ⟨b, hcharged, ?_⟩
  rw [hrun]
  refine .of_orVoid (fun _ => rfl) fun answer t' => ?_
  obtain ⟨x, made, b', hwalked, hmade, hwalk⟩ :=
    walk_matchesExchange env request.client mask4 mask6 answer ⟨t', b⟩
  rw [run_orVoid_pure, hwalked]
  exact .walked hwalk hmade

/-- What the mechanism comes to, for any answers, if anything is left to charge and the name is
valid. In particular, an exchanger near the client that may be looked up is a match if none before
it decides, however many there are. -/
theorem Mechanism.matches_mx (hleft : p.budget.lookups < p.budget.maxLookups)
    (htarget : (targetNameOr env request domain m?).run p.traffic = (.ok name, t))
    (hname : DomainName.isValid name = true) :
    let near := fun a => request.client.agrees mask4 mask6 a = true
    let looked := (lookup env .mx name).run t
    let ran := ((Mechanism.mx m? mask4 mask6).matches env request domain).run p
    ∃ b, p.budget.Charged 1 b ∧
      AnswerDecides b (ExchangesDecide env request.client near b) looked ran ∧
      ∀ answer before l, looked.1 = .ok answer →
        FirstAt (AddressLookup.Decides near)
          (addressLookups env request.client (exchangeNames answer) looked.2) before l →
        before.length < b.remaining → l.Finds near → ran.1 = .ok true := by
  intro near looked ran
  obtain ⟨b, hcharged, hdecide⟩ :=
    Mechanism.exchangesDecide mask4 mask6 hleft htarget hname
  refine ⟨b, hcharged, hdecide, fun answer before l hanswer hfirst hlength hfinds => ?_⟩
  exact ExchangesDecide.eq_true (hdecide.of_ok hanswer) hfirst hlength hfinds

end

/-- An environment in which a name has three mail exchangers and a record that names none. -/
def exchangingEnvironment : Environment where
  transport _ q :=
    match q with
    | ⟨.mx, _⟩ =>
      ⟨.ok ⟨[⟨0, ""⟩, ⟨10, "mx1.example.org"⟩, ⟨20, "mx2.example.org"⟩,
          ⟨30, "mx3.example.org"⟩], 300⟩,
        0⟩
    | ⟨.a, "mx2.example.org."⟩ => ⟨.ok ⟨[⟨0xC0000214⟩], 300⟩, 0⟩
    | _ => ⟨.error (.notFound .nameError), 0⟩
  settings := .standard
  clock _ := 0
  timestamp := 0
  alarm := .silent

/-- The second exchanger is near the client, and matches although a third may not be looked up. -/
theorem Mechanism.matches_mx_second :
    let env := exchangingEnvironment
    let request : Request := .forHelo (.v4 ⟨0xC0000201⟩) "example.org"
    let p : Progress := ⟨.start .disabled, ⟨0, 0, 3, 2⟩⟩
    p.budget.lookups < p.budget.maxLookups ∧
      (targetNameOr env request "example.org" none).run p.traffic = (.ok "example.org", p.traffic) ∧
      DomainName.isValid "example.org" = true ∧
      (((Mechanism.mx none (leadingMask 32 24) (leadingMask 128 128)).matches env request
        "example.org").run p).1 = .ok true := by
  intro env request p
  have hleft : p.budget.lookups < p.budget.maxLookups := by decide
  have htarget : (targetNameOr env request "example.org" none).run p.traffic =
      (.ok "example.org", p.traffic) := rfl
  have hname : DomainName.isValid "example.org" = true := by decide +kernel
  have hnames : exchangeNames [⟨0, ""⟩, ⟨10, "mx1.example.org"⟩, ⟨20, "mx2.example.org"⟩,
      ⟨30, "mx3.example.org"⟩] = ["mx1.example.org", "mx2.example.org", "mx3.example.org"] := by
    decide +kernel
  obtain ⟨t, t', rest, hlookups⟩ : ∃ t t' rest, addressLookups env request.client
      ["mx1.example.org", "mx2.example.org", "mx3.example.org"]
      ((lookup env .mx "example.org").run p.traffic).2 =
        ⟨"mx1.example.org", .error (.fault (.notFound .nameError)), t⟩ ::
          ⟨"mx2.example.org", .ok [.v4 ⟨0xC0000214⟩], t'⟩ :: rest := ⟨_, _, _, rfl⟩
  obtain ⟨b, hcharged, -, hfirst⟩ := @Mechanism.matches_mx env request "example.org" "example.org"
    none (leadingMask 32 24) (leadingMask 128 128) p p.traffic hleft htarget hname
  have hremaining : b.remaining = 2 := hcharged.remaining
  have hfinds : AddressLookup.Finds
      (request.client.agrees (leadingMask 32 24) (leadingMask 128 128) · = true)
      ⟨"mx2.example.org", .ok [.v4 ⟨0xC0000214⟩], t'⟩ := ⟨_, rfl, _, List.mem_singleton_self _, rfl⟩
  refine ⟨hleft, htarget, hname,
    hfirst _ [⟨"mx1.example.org", .error (.fault (.notFound .nameError)), t⟩] _ rfl ?_
      (hremaining ▸ Nat.one_lt_two) hfinds⟩
  rw [hnames, hlookups]
  refine .cons ?_ (.head (.inr hfinds) rest)
  simp [AddressLookup.Decides, Stop.IsMissing]

end SenderPolicy
