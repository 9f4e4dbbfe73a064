import Mathlib.Data.Int.Notation
import Mathlib.Tactic.Common

/-!
# `CtsSharedState`

The state a `CancellationTokenSource` and its tokens share
(Detail/AsyncPrimitives/CtsSharedState.cpp), and the pieces of its operations that
run without interruption. A cancellation action is a value of an arbitrary type `A`;
the machine that uses a token says what running it does, and how many actions it stores:
`_cancellationActionCounter` is an `int` that is exact up to `INT_MAX` of them
(`cancellationActionCounter_le`, `AsyncSemaphore.cancellationActionCounter_le`).
-/

namespace AsyncCpp.AsyncPrimitives

/-- `CtsSharedState` (Detail/AsyncPrimitives/CtsSharedState.h:38-42), the mutex left out. -/
structure CtsSharedState (A : Type*) where
  isCanceled : Bool := false
  cancelActions : List (ℤ × A) := []
  cancellationActionCounter : ℤ := 0

namespace CtsSharedState

variable {A : Type*}

/-- The end of the critical section of `Register` (CtsSharedState.cpp:109-111): the new id
    and the state with the action stored under it. -/
def pushAction (s : CtsSharedState A) (action : A) : ℤ × CtsSharedState A :=
  let id := s.cancellationActionCounter + 1
  (id, { s with
    cancellationActionCounter := id, cancelActions := s.cancelActions ++ [(id, action)] })

/-- `RemoveCancellation` (CtsSharedState.cpp:80-88). -/
def removeCancellation (s : CtsSharedState A) (id : ℤ) : CtsSharedState A :=
  { s with cancelActions := s.cancelActions.filter fun p => p.1 ≠ id }

/-- The critical section of `RunCancelActions` (CtsSharedState.cpp:44-49): the actions to
    run, in order, and the state without them. -/
def moveActions (s : CtsSharedState A) : List A × CtsSharedState A :=
  (s.cancelActions.map Prod.snd, { s with cancelActions := [] })

theorem mem_pushAction {s : CtsSharedState A} {action : A} {p : ℤ × A}
    (h : p ∈ (s.pushAction action).2.cancelActions) : p ∈ s.cancelActions ∨ p.2 = action := by
  rcases List.mem_append.mp h with h | h
  · exact .inl h
  · right
    rw [List.mem_singleton.mp h]

theorem mem_removeCancellation {s : CtsSharedState A} {id : ℤ} {p : ℤ × A}
    (h : p ∈ (s.removeCancellation id).cancelActions) : p ∈ s.cancelActions :=
  (List.mem_filter.mp h).1

end CtsSharedState

/-- `CancellationRegistration`: what its `Dispose()` does. `Register` returns an empty
    action where it ran the callback itself. -/
inductive CancellationRegistration (K : Type*) where
  | empty
  | remove (token : K) (id : ℤ)

end AsyncCpp.AsyncPrimitives
