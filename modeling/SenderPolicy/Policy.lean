import SenderPolicy.Address
import SenderPolicy.MacroString

/-!
# Policies

A policy lists, in order, which clients may send for a domain, and says where
else to look and what to answer when a client may not.

Main definitions:

- `Qualifier`, `Mechanism`, `Directive`: a verdict and the clients it is for;
- `Modifier`: a term that gives no verdict;
- `Policy`, `Policy.redirect?`, `Policy.explanation?`: a whole policy and the
  two modifiers that have a meaning.
-/

namespace SenderPolicy

/-- The verdict of a directive on the clients that it matches. -/
inductive Qualifier where
  | pass
  | fail
  | softFail
  | neutral
  deriving DecidableEq, Repr

/-- A class of clients. The optional domain-specs mean the domain of the policy
when they are absent. -/
inductive Mechanism where
  | all
  | includePolicy (target : MacroString)
  | a (target : Option MacroString) (mask4 : BitVec 32) (mask6 : BitVec 128)
  | mx (target : Option MacroString) (mask4 : BitVec 32) (mask6 : BitVec 128)
  | ptr (target : Option MacroString)
  | ip4 (net : IPv4) (mask : BitVec 32)
  | ip6 (net : IPv6) (mask : BitVec 128)
  | existsName (target : MacroString)
  deriving DecidableEq, Repr

/-- A class of clients and the verdict on it. -/
structure Directive where
  qualifier : Qualifier
  mechanism : Mechanism
  deriving DecidableEq, Repr

/-- A term that gives no verdict. -/
inductive Modifier where
  | redirect (target : MacroString)
  | explanation (target : MacroString)
  | unknown (name value : String)
  deriving DecidableEq, Repr

/-- A policy: its directives and its modifiers, each in order. -/
structure Policy where
  directives : List Directive
  modifiers : List Modifier
  deriving DecidableEq, Repr

namespace Policy

/-- The policy without terms. -/
def empty : Policy := ⟨[], []⟩

/-- The policy to turn to when no directive matches. -/
def redirect? (p : Policy) : Option MacroString :=
  p.modifiers.findSome? fun
    | .redirect target => some target
    | _ => none

/-- Where the explanation of a failure is published. -/
def explanation? (p : Policy) : Option MacroString :=
  p.modifiers.findSome? fun
    | .explanation target => some target
    | _ => none

end Policy

end SenderPolicy
