import SenderPolicy.Address.Text
import SenderPolicy.Cache
import SenderPolicy.DomainName
import SenderPolicy.Fault

/-!
# Questions and answers

What can be asked of the DNS, and what comes back. The kind of a question fixes
what it is about, a name or an address, and what its answers hold.

Main definitions:

- `Dns.Kind`, `Dns.Kind.Owner`, `Dns.Kind.Datum`: the kinds of questions, with
  what they are about and what they are answered with;
- `Dns.Question`: a kind and what it is about;
- `Dns.Reply`: an answer or a fault, and the time that it takes;
- `Dns.Transport`: whatever answers questions, perhaps differently each time.
-/

namespace SenderPolicy.Dns

/-- A host that takes mail for a domain. -/
structure MailExchange where
  /-- Its place in the order of trial, least first. -/
  preference : UInt16
  /-- Its name; the empty name takes no mail. -/
  exchange : String
  deriving DecidableEq, Repr

/-- The kinds of questions. -/
inductive Kind where
  | txt
  /-- Records of type 99. -/
  | spf
  | mx
  | a
  | aaaa
  | ptr
  deriving DecidableEq, Repr

namespace Kind

/-- What a question of a kind is about. -/
abbrev Owner : Kind → Type
  | .ptr => Address
  | .txt | .spf | .mx | .a | .aaaa => String

/-- What an answer of a kind holds. -/
abbrev Datum : Kind → Type
  | .txt | .spf => Octets
  | .mx => MailExchange
  | .a => IPv4
  | .aaaa => IPv6
  | .ptr => String

/-- Owners of one kind can be told apart. -/
instance : (k : Kind) → DecidableEq k.Owner
  | .txt | .spf | .mx | .a | .aaaa => inferInstanceAs (DecidableEq String)
  | .ptr => inferInstanceAs (DecidableEq Address)

/-- The usual name of a kind. -/
def mnemonic : Kind → String
  | .txt => "TXT"
  | .spf => "SPF"
  | .mx => "MX"
  | .a => "A"
  | .aaaa => "AAAA"
  | .ptr => "PTR"

/-- The form of an owner in questions: names are fully qualified. -/
def qualify : (k : Kind) → k.Owner → k.Owner
  | .txt, name => DomainName.qualify name
  | .spf, name => DomainName.qualify name
  | .mx, name => DomainName.qualify name
  | .a, name => DomainName.qualify name
  | .aaaa, name => DomainName.qualify name
  | .ptr, address => address

/-- The text of an owner. -/
def ownerText : (k : Kind) → k.Owner → String
  | .txt, name => name
  | .spf, name => name
  | .mx, name => name
  | .a, name => name
  | .aaaa, name => name
  | .ptr, address => address.text

end Kind

/-- A question: its kind and what it is about. -/
structure Question where
  kind : Kind
  owner : kind.Owner

namespace Question

/-- Questions can be told apart. -/
instance : DecidableEq Question
  | ⟨k, o⟩, ⟨k', o'⟩ =>
    if hk : k = k' then by
      subst hk
      exact if ho : o = o' then isTrue (by rw [ho])
        else isFalse fun h => ho (by cases h; rfl)
    else isFalse fun h => hk (by cases h; rfl)

/-- A question as text. -/
def text (q : Question) : String := q.kind.mnemonic ++ " " ++ q.kind.ownerText q.owner

end Question

/-- Records and the last instant at which they hold. -/
structure Answer (δ : Type) where
  records : List δ
  validUntil : Instant

/-- What comes back for a question. -/
structure Reply (δ : Type) where
  outcome : Except Fault (Answer δ)
  /-- The time until the reply arrives, in milliseconds. -/
  delay : Nat

/-- Whatever answers questions. A reply may depend on the questions asked before,
the latest first. -/
abbrev Transport := (history : List Question) → (q : Question) → Reply q.kind.Datum

/-! ## Order of mail exchangers -/

/-- Put a mail exchanger in front of the first that is not preferred to it. -/
def insertByPreference (x : MailExchange) : List MailExchange → List MailExchange
  | [] => [x]
  | y :: rest => if x.preference ≤ y.preference then x :: y :: rest
    else y :: insertByPreference x rest

/-- Mail exchangers in order of preference; equally preferred ones keep their
order. -/
def sortByPreference (l : List MailExchange) : List MailExchange :=
  l.foldr insertByPreference []

end SenderPolicy.Dns
