import SenderPolicy.MacroString.Expansion
import SenderPolicy.Proofs.MacroGrammar

/-!
# Macro strings one after another

Two macro strings written one after the other are a macro string again. It is read as the one with
the other joined to its end, where the literals on both sides of the seam become one, and it stands
for what the two stand for, whatever the properties of the request are.

Main definitions:

- `MacroString.join`: a macro string with another joined to its end;
- `MacroString.expandWith`: the octets of a macro string where the letters stand for any octets.

Main results:

- `MacroString.parseFrom_append`: what follows a macro string is read as if it stood alone;
- `MacroString.parse?_append`: two macro strings one after the other.
-/

namespace SenderPolicy

/-- The octets that a segment stands for where the letters stand for given octets. -/
def Segment.expandWith (value : Letter → Octets) : Segment → Octets
  | .literal text => text
  | .expansion e => e.apply (value e.letter)

namespace MacroString

/-- The octets that a macro string stands for where the letters stand for given octets. -/
def expandWith (value : Letter → Octets) (m : MacroString) : Octets :=
  m.flatMap (Segment.expandWith value)

/-- The letters of a request stand for its properties. -/
theorem expand_eq_expandWith (b : Bindings) (m : MacroString) :
    m.expand b = m.expandWith b.value := by
  have hsegment : Segment.expand b = Segment.expandWith b.value := by
    funext s
    cases s <;> rfl
  rw [expand, expandWith, hsegment]

/-! ## Joining -/

/-- A macro string with another joined to its end. A literal at the end of the first and one at the
start of the second become one literal. -/
def join : MacroString → MacroString → MacroString
  | [], n => n
  | .literal text :: m, n => consLiteral text (join m n)
  | .expansion e :: m, n => .expansion e :: join m n

/-- Literal text is put in front before or after joining. -/
theorem join_consLiteral (text : Octets) (m n : MacroString) :
    join (consLiteral text m) n = consLiteral text (join m n) := by
  rcases m with _ | ⟨more | e, m⟩
  · rfl
  · exact consLiteral_append text more (join m n)
  · rfl

/-- Octets that are merged into the first segment come first. -/
theorem expandWith_consLiteral (value : Letter → Octets) (text : Octets) (m : MacroString) :
    (consLiteral text m).expandWith value = text ++ m.expandWith value := by
  rcases m with _ | ⟨more | e, m⟩ <;> simp [consLiteral, expandWith, Segment.expandWith]

/-- Octets in front do not insert the name of the client. -/
theorem needsValidatedName_consLiteral (text : Octets) (m : MacroString) :
    (consLiteral text m).needsValidatedName = m.needsValidatedName := by
  rcases m with _ | ⟨more | e, m⟩ <;> simp [consLiteral, needsValidatedName]

/-- What is joined stands for what the parts stand for. -/
theorem expandWith_join (value : Letter → Octets) (m n : MacroString) :
    (join m n).expandWith value = m.expandWith value ++ n.expandWith value := by
  induction m with
  | nil => rfl
  | cons s m ih =>
    have hcons : expandWith value (s :: m) = s.expandWith value ++ expandWith value m :=
      List.flatMap_cons
    rw [hcons, List.append_assoc, ← ih]
    cases s with
    | literal text => exact expandWith_consLiteral value text (join m n)
    | expansion e => exact List.flatMap_cons

/-- What is joined inserts the confirmed name if one of the parts does. -/
theorem needsValidatedName_join (m n : MacroString) :
    (join m n).needsValidatedName = (m.needsValidatedName || n.needsValidatedName) := by
  induction m with
  | nil => rfl
  | cons s m ih =>
    cases s with
    | literal text =>
      rw [join, needsValidatedName_consLiteral, ih]
      simp [needsValidatedName]
    | expansion e =>
      have hcons : ∀ k : MacroString, needsValidatedName (.expansion e :: k) =
          (e.letter == .validatedName || k.needsValidatedName) := fun k => List.any_cons
      rw [join, hcons, hcons, ih, Bool.or_assoc]

/-! ## Reading -/

/-- What follows a macro string, or the rest of one, is read as if it stood alone, and is joined to
it. -/
theorem parseFrom_append {mode : MacroMode} {place : Place} {s : Octets} {m : MacroString}
    (h : parseFrom mode place s = some m) (t : Octets) :
    parseFrom mode place (s ++ t) = (parse? mode t).map m.join := by
  fun_induction parseFrom mode place s generalizing m with
  | case1 =>
    cases h
    have hjoin : join [] = id := rfl
    rw [hjoin, Option.map_id]
    rfl
  | case4 rest ih =>
    rw [List.cons_append, parseFrom, if_pos rfl]
    exact ih h
  | case5 b rest hb hliteral ih =>
    obtain ⟨m, hm, rfl⟩ := Option.map_eq_some_iff.1 h
    rw [List.cons_append, parseFrom, if_neg hb, if_pos hliteral, ih hm, Option.map_map]
    exact congrArg (Option.map · _) (funext fun n => (join_consLiteral [b] m n).symm)
  | case7 rest ih =>
    rw [List.cons_append, parseFrom, if_pos rfl]
    exact ih h
  | case8 b rest hbrace text hescaped ih =>
    obtain ⟨m, hm, rfl⟩ := Option.map_eq_some_iff.1 h
    simp only [List.cons_append, parseFrom, if_neg hbrace, hescaped]
    rw [ih hm, Option.map_map]
    exact congrArg (Option.map · _) (funext fun n => (join_consLiteral text m n).symm)
  | case10 read rest e he ih =>
    obtain ⟨m, hm, rfl⟩ := Option.map_eq_some_iff.1 h
    simp only [List.cons_append, parseFrom, if_true, he]
    rw [ih hm, Option.map_map]
    rfl
  | case12 b read rest hb ih =>
    rw [List.cons_append, parseFrom, if_neg hb]
    exact ih h
  | _ => cases h

/-- Two macro strings of a mode, written one after the other, are a macro string of that mode. It
stands for what the first stands for and then what the second stands for, whatever the letters stand
for, and so for every request. It inserts the confirmed name of the client if one of the two does.
-/
theorem parse?_append {mode : MacroMode} {s t : Octets} {m n : MacroString}
    (hs : parse? mode s = some m) (ht : parse? mode t = some n) :
    ∃ k, parse? mode (s ++ t) = some k ∧
      (∀ value, k.expandWith value = m.expandWith value ++ n.expandWith value) ∧
      (∀ b : Bindings, k.expand b = m.expand b ++ n.expand b) ∧
      k.needsValidatedName = (m.needsValidatedName || n.needsValidatedName) := by
  refine ⟨m.join n, ?_, fun value => expandWith_join value m n, fun b => ?_,
    needsValidatedName_join m n⟩
  · have hwhole := parseFrom_append hs t
    rw [ht] at hwhole
    exact hwhole
  · simp only [expand_eq_expandWith]
    exact expandWith_join b.value m n

/-- The literals at the seam become one. -/
theorem parse?_append_seam :
    let s := Octets.ofAscii "%{l}.a".toList
    let t := Octets.ofAscii "%%.%{p}".toList
    let localPart : Segment := .expansion ⟨.localPart, 0, false, false, .dot⟩
    let name : Segment := .expansion ⟨.validatedName, 0, false, false, .dot⟩
    let m : MacroString := [localPart, .literal (.ofAscii ".a".toList)]
    let n : MacroString := [.literal (.ofAscii "%.".toList), name]
    parse? .domainSpec s = some m ∧ parse? .domainSpec t = some n ∧
      m.join n = [localPart, .literal (.ofAscii ".a%.".toList), name] ∧
      ∃ k, parse? .domainSpec (s ++ t) = some k ∧
        (∀ value, k.expandWith value = m.expandWith value ++ n.expandWith value) ∧
        (∀ b : Bindings, k.expand b = m.expand b ++ n.expand b) ∧
        k.needsValidatedName = (m.needsValidatedName || n.needsValidatedName) := by
  intro s t localPart name m n
  have hs : parse? .domainSpec s = some m := by decide
  have ht : parse? .domainSpec t = some n := by decide
  exact ⟨hs, ht, rfl, parse?_append hs ht⟩

end MacroString

end SenderPolicy
