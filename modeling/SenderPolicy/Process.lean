/-!
# Processes

A process changes a state and ends with a value or stops with a reason. The state
that it has reached is kept in both cases.

Main definitions:

- `Process`: processes, which form a monad;
- `Process.stop`, `Process.state`, `Process.update`: the basic processes;
- `Process.within`: a process on a part of the state.
-/

namespace SenderPolicy

/-- A process on states `σ` that may stop with a reason `ε`. -/
def Process (σ ε α : Type) : Type := σ → Except ε α × σ

namespace Process

variable {σ τ ε ε' α β : Type}

/-- Run a process from a state. -/
def run (x : Process σ ε α) (s : σ) : Except ε α × σ := x s

/-- End with a value at once. -/
protected def pure (a : α) : Process σ ε α := fun s => (.ok a, s)

/-- Go on with the value of a process, unless it stops. -/
protected def bind (x : Process σ ε α) (f : α → Process σ ε β) : Process σ ε β := fun s =>
  match x s with
  | (.ok a, s') => f a s'
  | (.error e, s') => (.error e, s')

/-- Processes follow one another. -/
instance : Monad (Process σ ε) where
  pure := Process.pure
  bind := Process.bind

/-- Stop with a reason. -/
def stop (e : ε) : Process σ ε α := fun s => (.error e, s)

/-- The state. -/
def state : Process σ ε σ := fun s => (.ok s, s)

/-- Change the state. -/
def update (f : σ → σ) : Process σ ε Unit := fun s => (.ok (), f s)

/-- A process on a part of the state. Its reasons to stop are renamed. -/
def within (part : σ → τ) (put : τ → σ → σ) (rename : ε → ε') (x : Process τ ε α) :
    Process σ ε' α := fun s =>
  match x (part s) with
  | (.ok a, t) => (.ok a, put t s)
  | (.error e, t) => (.error (rename e), put t s)

@[simp] theorem run_pure (a : α) (s : σ) : (pure a : Process σ ε α).run s = (.ok a, s) := rfl

@[simp] theorem run_bind (x : Process σ ε α) (f : α → Process σ ε β) (s : σ) :
    (x >>= f).run s = match x.run s with
      | (.ok a, s') => (f a).run s'
      | (.error e, s') => (.error e, s') := rfl

@[simp] theorem run_stop (e : ε) (s : σ) :
    (stop e : Process σ ε α).run s = (.error e, s) := rfl

@[simp] theorem run_state (s : σ) : (state : Process σ ε σ).run s = (.ok s, s) := rfl

@[simp] theorem run_update (f : σ → σ) (s : σ) :
    (update f : Process σ ε Unit).run s = (.ok (), f s) := rfl

@[simp] theorem run_within (part : σ → τ) (put : τ → σ → σ) (rename : ε → ε')
    (x : Process τ ε α) (s : σ) :
    (within part put rename x).run s = match x.run (part s) with
      | (.ok a, t) => (.ok a, put t s)
      | (.error e, t) => (.error (rename e), put t s) := rfl

/-- Processes are equal when they run alike from every state. -/
theorem ext_run {x y : Process σ ε α} (h : ∀ s, x.run s = y.run s) : x = y := funext h

/-- Mapping the identity changes nothing. -/
theorem id_map (x : Process σ ε α) : id <$> x = x := ext_run fun s => by
  change (match x.run s with | (.ok a, s') => _ | (.error e, s') => _) = _
  rcases x.run s with ⟨r | r, s'⟩ <;> rfl

/-- It does not matter how processes that follow one another are grouped. -/
theorem bind_assoc {γ : Type} (x : Process σ ε α) (f : α → Process σ ε β)
    (g : β → Process σ ε γ) : x >>= f >>= g = x >>= fun a => f a >>= g :=
  ext_run fun s => by
    simp only [run_bind]
    rcases x.run s with ⟨r | r, s'⟩ <;> rfl

/-- Processes obey the laws of a monad. -/
instance : LawfulMonad (Process σ ε) :=
  LawfulMonad.mk' _ id_map (fun _ _ => rfl) bind_assoc

end Process

end SenderPolicy
