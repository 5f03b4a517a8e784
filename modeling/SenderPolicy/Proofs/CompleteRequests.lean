import SenderPolicy.MacroString.Expansion
import SenderPolicy.Proofs.Utf8Writing
import SenderPolicy.Request

/-!
# Complete requests

However a request is made, it has the address of a client that is not IPv4-mapped, and a sender
with a local part. What is missing is taken from the greeting: the sender and the domain if the text
of the sender names no mailbox, the local part if the mailbox has none. Only a request without a
greeting and without a mailbox is refused, and one whose client is not an address.

Main definitions:

- `Unbracketed`, `DomainOf`: a text without a pair of angle brackets around it, and the domain in a
  mailbox;
- `HasLocalPart`: senders with a local part;
- `Request.MadeFrom`: the ways in which requests are made;
- `Request.Completes`: what a request says that was made from given texts.

Main results:

- `Request.mailbox_eq_nil_iff`: the texts of senders that name no mailbox;
- `HasLocalPart.value`: the parts of a sender that macro strings insert;
- `Request.completes_of_madeFrom`: requests say what they were made from, and more if that is
  missing.
-/

namespace SenderPolicy

/-! ## Addresses -/

/-- The IPv4-mapped address with a given address inside. -/
def IPv6.mapped (inner : IPv4) : IPv6 := ⟨0xFFFF#96 ++ inner.bits⟩

/-- An IPv4-mapped address and the IPv4 address inside, or any other address and itself. -/
inductive Unmapped : Address → Address → Prop where
  | inside (inner : IPv4) : Unmapped (.v6 (.mapped inner)) (.v4 inner)
  | other {a : Address} (h : ∀ inner, a ≠ .v6 (.mapped inner)) : Unmapped a a

/-- The canonical form of an address is not mapped. -/
theorem unmapped_canonical (a : Address) : Unmapped a a.canonical := by
  cases a with
  | v4 a => exact .other fun inner h => by cases h
  | v6 a =>
    cases hmapped : a.mapped? with
    | some inner =>
      have hcanonical : Address.canonical (.v6 a) = .v4 inner := by
        simp [Address.canonical, hmapped]
      have ha : a = .mapped inner := IPv6.mapped?_eq_some_iff.1 hmapped
      rw [hcanonical, ha]
      exact .inside inner
    | none =>
      have hcanonical : Address.canonical (.v6 a) = .v6 a := by simp [Address.canonical, hmapped]
      rw [hcanonical]
      refine .other fun inner heq => ?_
      rw [IPv6.mapped?_eq_some_iff.2 (Address.v6.inj heq)] at hmapped
      cases hmapped

/-- What is stored is not IPv4-mapped. -/
theorem Unmapped.ne {a b : Address} (h : Unmapped a b) (inner : IPv4) :
    b ≠ .v6 (.mapped inner) := by
  cases h with
  | inside => exact fun heq => by cases heq
  | other h => exact h inner

/-! ## Mailboxes -/

/-- A text in a pair of angle brackets and what stands between them, or any other text and itself.
-/
inductive Unbracketed : List Char → List Char → Prop where
  | pair (inner : List Char) : Unbracketed ('<' :: (inner ++ ['>'])) inner
  | bare {cs : List Char} (h : ∀ inner, cs ≠ '<' :: (inner ++ ['>'])) : Unbracketed cs cs

/-- A mailbox and what follows the last `@` in it, or all of it if there is none. -/
inductive DomainOf : List Char → List Char → Prop where
  | after (front : List Char) {domain : List Char} (h : '@' ∉ domain) :
      DomainOf (front ++ '@' :: domain) domain
  | whole {cs : List Char} (h : '@' ∉ cs) : DomainOf cs cs

/-- Something stands before the last `@` of a sender. -/
def HasLocalPart (sender : String) : Prop :=
  ∃ front domain, sender.toList = front ++ '@' :: domain ∧ front ≠ [] ∧ '@' ∉ domain

/-- The sender that stands for a domain has a local part, whatever the domain is. -/
theorem hasLocalPart_postmasterAt (domain : String) :
    HasLocalPart (Request.postmasterAt domain) := by
  have hsender : (Request.postmasterAt domain).toList =
      "postmaster".toList ++ '@' :: domain.toList := by
    simp [Request.postmasterAt]
  cases hsplit : splitLast? (· = '@') domain.toList with
  | none => exact ⟨_, _, hsender, by decide, splitLast?_eq_none_iff_notMem.1 hsplit⟩
  | some halves =>
    obtain ⟨before, after⟩ := halves
    obtain ⟨hdomain, hafter⟩ := splitLast?_eq_some_iff.1 hsplit
    refine ⟨"postmaster".toList ++ '@' :: before, after, ?_, by simp, hafter⟩
    rw [hsender, hdomain]
    simp

/-- The local part and the domain that macro strings insert make up the sender. -/
theorem HasLocalPart.value {b : Bindings} (h : HasLocalPart b.sender) :
    b.value .sender = b.value .localPart ++ '@'.toUInt8 :: b.value .senderDomain ∧
      b.value .localPart ≠ [] ∧ '@'.toUInt8 ∉ b.value .senderDomain := by
  obtain ⟨front, domain, hsender, hfront, hdomain⟩ := h
  have hoctets : Utf8.ofText b.sender = Utf8.encode front ++ '@'.toUInt8 :: Utf8.encode domain := by
    rw [Utf8.ofText, hsender, Utf8.encode_append]
    rfl
  have hmark : '@'.toUInt8 ∉ Utf8.encode domain :=
    fun hmem => hdomain (Utf8.mem_of_mem_encode (by decide) hmem)
  have hsplit : splitLast? (· = '@'.toUInt8) (Utf8.ofText b.sender) =
      some (Utf8.encode front, Utf8.encode domain) := splitLast?_eq_some_iff.2 ⟨hoctets, hmark⟩
  have hne : Utf8.encode front ≠ [] := fun hnil => hfront (Utf8.encode_injective hnil)
  have hlocal : b.value .localPart = Utf8.encode front := by
    simp [Bindings.value, Mailbox.localPart, hsplit, hne]
  have hrest : b.value .senderDomain = Utf8.encode domain := by
    simp [Bindings.value, Mailbox.domainPart, hsplit]
  rw [hlocal, hrest]
  exact ⟨hoctets, hne, hmark⟩

/-! ## Texts of senders -/

/-- A text that names no mailbox: blanks at most, or a pair of angle brackets between blanks. -/
def NullSender (sender : String) : Prop := Text.trim sender = "" ∨ Text.trim sender = "<>"

namespace Request

/-- The test for the null sender is that of its forms. -/
theorem isNullSender_iff {sender : String} : isNullSender sender = true ↔ NullSender sender := by
  have hempty : Text.trim sender = "" ↔ (Text.trim sender).toList = [] :=
    String.toList_inj.symm
  have hpair : Text.trim sender = "<>" ↔ (Text.trim sender).toList = ['<', '>'] :=
    String.toList_inj.symm
  rw [NullSender, hempty, hpair, isNullSender]
  simp only [Bool.or_eq_true, List.isEmpty_iff, beq_iff_eq]

/-- One pair of angle brackets is removed. -/
theorem unbracketed_dropBrackets (cs : List Char) : Unbracketed cs (dropBrackets cs) := by
  fun_cases dropBrackets cs with
  | case1 => exact .bare fun inner h => by cases h
  | case2 first rest h =>
    obtain ⟨hfirst, hlast⟩ : first = '<' ∧ rest.getLast? = some '>' := by simpa using h
    obtain ⟨inner, rfl⟩ := List.getLast?_eq_some_iff.1 hlast
    rw [hfirst, List.dropLast_concat]
    exact .pair inner
  | case3 first rest h =>
    refine .bare fun inner heq => ?_
    obtain ⟨rfl, rfl⟩ := List.cons.inj heq
    simp at h

/-- A sender names no mailbox exactly if nothing is left between its brackets. -/
theorem mailbox_eq_nil_iff (sender : String) :
    mailbox sender = [] ↔ isNullSender sender = true := by
  have hbox : Unbracketed (Text.trim sender).toList (mailbox sender) := unbracketed_dropBrackets _
  unfold isNullSender
  generalize (Text.trim sender).toList = cs at hbox
  generalize mailbox sender = box at hbox
  cases hbox with
  | pair inner => simp
  | bare h =>
    have hpair : cs ≠ ['<', '>'] := h []
    simp [hpair]

/-- No sender stands for the name in the greeting. -/
theorem forSender_of_isNullSender {client : Address} {helo sender : String}
    (h : isNullSender sender = true) : forSender client helo sender = forHelo client helo := by
  rw [forSender, (mailbox_eq_nil_iff sender).2 h]

/-- A sender gives its domain, and has a local part or is given one. -/
theorem exists_forSender {sender : String} (h : isNullSender sender = false) (client : Address)
    (helo : String) : ∃ domain mailbox', forSender client helo sender =
        ⟨client.canonical, domain, helo, mailbox'⟩ ∧
      DomainOf (mailbox sender) domain.toList ∧ HasLocalPart mailbox' := by
  have hbox : mailbox sender ≠ [] := by
    rw [Ne, mailbox_eq_nil_iff, h]
    exact Bool.false_ne_true
  unfold forSender
  split
  next hnil => exact absurd hnil hbox
  next =>
    split
    next hsplit =>
      refine ⟨_, _, rfl, ?_, hasLocalPart_postmasterAt _⟩
      rw [String.toList_ofList]
      exact .whole (splitLast?_eq_none_iff_notMem.1 hsplit)
    next domain hsplit =>
      obtain ⟨heq, hdomain⟩ := splitLast?_eq_some_iff.1 hsplit
      refine ⟨_, _, rfl, ?_, hasLocalPart_postmasterAt _⟩
      rw [String.toList_ofList, heq]
      exact .after [] hdomain
    next front domain hfront hsplit =>
      obtain ⟨heq, hdomain⟩ := splitLast?_eq_some_iff.1 hsplit
      refine ⟨_, _, rfl, ?_, ?_⟩
      · rw [String.toList_ofList, heq]
        exact .after front hdomain
      · refine ⟨front, domain, ?_, ?_, hdomain⟩
        · rw [String.toList_ofList]
          exact heq
        · exact fun hnil => hfront hnil

/-! ## Requests -/

/-- The ways in which a request is made from the address of a client, a domain, which is empty if
none is given, a greeting and the text of a sender. -/
inductive MadeFrom (client : Address) : String → String → String → Request → Prop where
  | greeting (helo : String) : MadeFrom client "" helo "" (forHelo client helo)
  | sender (helo sender : String) : MadeFrom client "" helo sender (forSender client helo sender)
  | domain {domain helo sender : String} {r : Request}
      (h : forDomain client domain helo sender = .ok r) :
      MadeFrom client (Text.trim domain) (Text.trim helo) sender r
  | text {address domain helo sender : String} {r : Request}
      (hclient : Address.parse? (Text.trim address) = some client)
      (h : parse address domain helo sender = .ok r) :
      MadeFrom client (Text.trim domain) (Text.trim helo) sender r

/-- What a request says that is made for a client, a domain, which is empty if none is given, a
greeting and the text of a sender. -/
structure Completes (client : Address) (domain helo sender : String) (r : Request) : Prop where
  address : Unmapped client r.client
  greeting : r.helo = helo
  localPart : HasLocalPart r.sender
  /-- If there is no mailbox, the request has the sender of the request on the greeting. -/
  sender_of_null : NullSender sender → r.sender = (forHelo client helo).sender
  /-- If there is no mailbox and no domain, it has the domain of that request. -/
  domain_of_null : NullSender sender → domain = "" → r.domain = (forHelo client helo).domain
  /-- If there is a mailbox and no domain, it has the domain in the mailbox. -/
  domain_of_mailbox : ¬ NullSender sender → domain = "" →
    ∃ box, Unbracketed (Text.trim sender).toList box ∧ DomainOf box r.domain.toList
  domain_of_given : domain ≠ "" → r.domain = domain

/-- A request for a sender is complete. -/
theorem completes_forSender (client : Address) (helo sender : String) :
    Completes client "" helo sender (forSender client helo sender) := by
  cases hnull : isNullSender sender with
  | true =>
    rw [forSender_of_isNullSender hnull]
    exact {
      address := unmapped_canonical client
      greeting := rfl
      localPart := hasLocalPart_postmasterAt helo
      sender_of_null := fun _ => rfl
      domain_of_null := fun _ _ => rfl
      domain_of_mailbox := fun hsome => absurd (isNullSender_iff.1 hnull) hsome
      domain_of_given := fun hne => absurd rfl hne }
  | false =>
    have hsome : ¬ NullSender sender := by simp [← isNullSender_iff, hnull]
    obtain ⟨domain, mailbox', heq, hdomain, hlocal⟩ := exists_forSender hnull client helo
    rw [heq]
    exact {
      address := unmapped_canonical client
      greeting := rfl
      localPart := hlocal
      sender_of_null := fun h => absurd h hsome
      domain_of_null := fun h => absurd h hsome
      domain_of_mailbox := fun _ _ => ⟨_, unbracketed_dropBrackets _, hdomain⟩
      domain_of_given := fun hne => absurd rfl hne }

/-- A given domain replaces the one of the sender or the greeting. -/
theorem Completes.withDomain {client : Address} {helo sender domain : String} {r : Request}
    (h : Completes client "" helo sender r) (hdomain : domain ≠ "") :
    Completes client domain helo sender { r with domain := domain } where
  address := h.address
  greeting := h.greeting
  localPart := h.localPart
  sender_of_null := h.sender_of_null
  domain_of_null _ hempty := absurd hempty hdomain
  domain_of_mailbox _ hempty := absurd hempty hdomain
  domain_of_given _ := rfl

/-- So is one for a domain, if it is made at all. -/
theorem completes_of_forDomain {client : Address} {domain helo sender : String} {r : Request}
    (h : forDomain client domain helo sender = .ok r) :
    Completes client (Text.trim domain) (Text.trim helo) sender r := by
  unfold forDomain at h
  dsimp only at h
  split at h
  · cases h
  · cases h
    have hsender := completes_forSender client (Text.trim helo) sender
    split
    next hempty =>
      rw [String.isEmpty_iff.1 hempty]
      exact hsender
    next hempty =>
      exact hsender.withDomain fun heq => hempty (String.isEmpty_iff.2 heq)

/-- A request that is made from a text of an address is the one that is made from the address. -/
theorem forDomain_of_parse {client : Address} {address domain helo sender : String} {r : Request}
    (hclient : Address.parse? (Text.trim address) = some client)
    (h : parse address domain helo sender = .ok r) :
    forDomain client domain helo sender = .ok r := by
  unfold parse at h
  rw [hclient] at h
  exact h

/-- Every way to make a request makes a complete one. -/
theorem completes_of_madeFrom {client : Address} {domain helo sender : String} {r : Request}
    (h : MadeFrom client domain helo sender r) : Completes client domain helo sender r := by
  cases h with
  | greeting =>
    rw [← @forSender_of_isNullSender client _ "" (by decide)]
    exact completes_forSender client helo ""
  | sender => exact completes_forSender client helo sender
  | domain h => exact completes_of_forDomain h
  | text hclient h => exact completes_of_forDomain (forDomain_of_parse hclient h)

/-- A request is refused if there is neither a greeting nor a mailbox. -/
theorem forDomain_eq_error_iff {client : Address} {domain helo sender : String} :
    (∃ f, forDomain client domain helo sender = .error f) ↔
      Text.trim helo = "" ∧ NullSender sender := by
  unfold forDomain
  dsimp only
  rw [← isNullSender_iff, ← String.isEmpty_iff, ← Bool.and_eq_true]
  split
  next h => exact iff_of_true ⟨_, rfl⟩ h
  next h => exact iff_of_false (fun ⟨f, hf⟩ => by cases hf) h

/-- A request in texts is malformed if it has no identity or no address. -/
theorem parse_eq_error_iff {address domain helo sender : String} :
    (∃ f, parse address domain helo sender = .error f) ↔
      (Text.trim helo = "" ∧ NullSender sender) ∨ Address.parse? (Text.trim address) = none := by
  unfold parse
  cases hclient : Address.parse? (Text.trim address) with
  | none => exact iff_of_true ⟨_, rfl⟩ (.inr rfl)
  | some client => simpa using @forDomain_eq_error_iff client domain helo sender

/-- However a request is made, its client is the given one, or the IPv4 address inside if that is
IPv4-mapped, and is never IPv4-mapped itself. Its sender has an `@` with something before it, so
that the local part and the domain that macro strings insert make up the sender, and the local part
is not empty. If the text of the sender names no mailbox, the request has the sender and, unless a
domain is given, the domain of the request on the greeting; otherwise, unless a domain is given, it
has the domain in the mailbox. A request on a given domain is refused exactly if the greeting is
blank and the text of the sender names no mailbox, and one from texts exactly then or if the client
is not an address. -/
theorem madeFrom_complete :
    (∀ (client : Address) (domain helo sender : String) (r : Request),
      MadeFrom client domain helo sender r →
        Completes client domain helo sender r ∧ (∀ inner, r.client ≠ .v6 (.mapped inner)) ∧
          ∀ b : Bindings, b.sender = r.sender →
            b.value .sender = b.value .localPart ++ '@'.toUInt8 :: b.value .senderDomain ∧
              b.value .localPart ≠ [] ∧ '@'.toUInt8 ∉ b.value .senderDomain) ∧
    (∀ (client : Address) (domain helo sender : String),
      (∃ f, forDomain client domain helo sender = .error f) ↔
        Text.trim helo = "" ∧ NullSender sender) ∧
    ∀ address domain helo sender : String,
      (∃ f, parse address domain helo sender = .error f) ↔
        (Text.trim helo = "" ∧ NullSender sender) ∨ Address.parse? (Text.trim address) = none := by
  refine ⟨fun client domain helo sender r h => ?_, fun _ _ _ _ => forDomain_eq_error_iff,
    fun _ _ _ _ => parse_eq_error_iff⟩
  have hcompletes := completes_of_madeFrom h
  refine ⟨hcompletes, hcompletes.address.ne, fun b hb => ?_⟩
  have hlocal : HasLocalPart b.sender := hb ▸ hcompletes.localPart
  exact hlocal.value

end Request

end SenderPolicy
