import LexicalLisp.Event
import LexicalLisp.Store

/-!
# Computations

Evaluating an expression reads and writes frames, records events and ends in one of three ways:
with a value, with an error, or because calls nest too deeply. Frames written and events recorded
before a failure stay.

Running out of depth is not an error of the language. It passes through every construct that
handles errors, so a larger bound can only turn it into something else.
-/

namespace LexicalLisp

/-- How a computation ends. -/
inductive Outcome (α : Type) where
  | ok (a : α)
  | error (e : Error)
  | tooDeep

/-- What a computation reads and changes: the frames, and the events so far, oldest first. -/
structure State where
  store : Store := {}
  log : Array Event := #[]

/-- A computation with access to the state. -/
def Eval (α : Type) : Type :=
  State → Outcome α × State

namespace Eval

/-- Run a computation from a state. -/
def run {α : Type} (action : Eval α) (s : State) : Outcome α × State :=
  action s

/-- Succeed without touching the state. -/
def succeed {α : Type} (a : α) : Eval α :=
  fun s => (.ok a, s)

/-- Fail without touching the state. -/
def fail {α : Type} (e : Error) : Eval α :=
  fun s => (.error e, s)

/-- Give up because calls nest too deeply. -/
def tooDeep {α : Type} : Eval α :=
  fun s => (.tooDeep, s)

/-- Run one computation, then another on its value. -/
def andThen {α β : Type} (action : Eval α) (next : α → Eval β) : Eval β :=
  fun s =>
    match action s with
    | (.ok a, s') => next a s'
    | (.error e, s') => (.error e, s')
    | (.tooDeep, s') => (.tooDeep, s')

instance : Monad Eval where
  pure := succeed
  bind := andThen

instance : LawfulMonad Eval :=
  LawfulMonad.mk' Eval
    (fun action => by
      funext s
      change andThen action (fun a => succeed (id a)) s = action s
      simp only [andThen, succeed, id]
      rcases action s with ⟨_ | _ | _, s'⟩ <;> rfl)
    (fun _ _ => rfl)
    (fun action first second => by
      funext s
      change andThen (andThen action first) second s =
        andThen action (fun a => andThen (first a) second) s
      simp only [andThen]
      rcases action s with ⟨_ | _ | _, s'⟩ <;> rfl)

/-- Turn an error into a value; running out of depth is not caught. -/
def attempt {α : Type} (action : Eval α) : Eval (Except Error α) :=
  fun s =>
    match action s with
    | (.ok a, s') => (.ok (.ok a), s')
    | (.error e, s') => (.ok (.error e), s')
    | (.tooDeep, s') => (.tooDeep, s')

/-- Continue with a value, or fail with an error found beforehand. -/
def ofExcept {α : Type} : Except Error α → Eval α
  | .ok a => succeed a
  | .error e => fail e

/-- The frames as they are now. -/
def getStore : Eval Store :=
  fun s => (.ok s.store, s)

/-- Change the frames. -/
def modifyStore (change : Store → Store) : Eval Unit :=
  fun s => (.ok (), { s with store := change s.store })

/-- Record an event. -/
def emit (event : Event) : Eval Unit :=
  fun s => (.ok (), { s with log := s.log.push event })

/-- A tag that was never given out before. -/
def freshTag : Eval Nat :=
  fun s => (.ok s.store.nextTag,
    { s with store := { s.store with nextTag := s.store.nextTag + 1 } })

end Eval

end LexicalLisp
