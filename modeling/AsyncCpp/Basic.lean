import Mathlib.Tactic.Common

/-!
# Shared vocabulary: exceptions and task states

Values every component of the library uses.

* `Exn ε`: what a `std::exception_ptr` may hold. The library's own exceptions are
  constructors; every other exception is `user`, with the one fact the code asks
  of it, whether a `catch (const std::exception&)` clause catches it.
* `TaskState`: `Tasks/TaskState.h`.
-/

namespace AsyncCpp

/-- An exception object. `user isStd e` is an exception of a type the library does
    not define: `isStd` says whether that type derives publicly from
    `std::exception`. -/
inductive Exn (ε : Type*) where
  | operationCanceled
  | semaphoreFull
  | logicError (what : String)
  | invalidArgument (what : String)
  | aggregate (exceptions : List (Exn ε))
  | user (isStd : Bool) (e : ε)

namespace Exn

variable {ε : Type*}

/-- `catch (const std::exception&)` catches the exception. `AggregateException`
    inherits `std::exception` privately (AsyncPrimitives/AggregateException.h:6), so
    the clause does not catch it. -/
def isStdException : Exn ε → Bool
  | operationCanceled | semaphoreFull | logicError _ | invalidArgument _ => true
  | aggregate _ => false
  | user isStd _ => isStd

/-- `catch (const OperationCanceledException&)` catches the exception; the class is
    `final`. -/
def isOperationCanceled : Exn ε → Bool
  | operationCanceled => true
  | _ => false

@[simp] theorem isOperationCanceled_iff (e : Exn ε) :
    e.isOperationCanceled = true ↔ e = operationCanceled := by
  cases e <;> simp [isOperationCanceled]

end Exn

/-- `enum class TaskState` (Tasks/TaskState.h:4-12). -/
inductive TaskState where
  | created
  | scheduled
  | running
  | faulted
  | canceled
  | runToCompletion
  deriving DecidableEq, Repr

namespace TaskState

/-- `Task::IsCompleted` (Tasks/Task.h:365-371). -/
def isCompleted : TaskState → Bool
  | faulted | canceled | runToCompletion => true
  | created | scheduled | running => false

/-- The transitions of a function task: along
    `Created → Scheduled → Running → {RunToCompletion, Faulted, Canceled}` or from
    `Created` or `Scheduled` to `Canceled`. -/
inductive Moves : TaskState → TaskState → Prop
  | schedule : Moves created scheduled
  | run : Moves scheduled running
  | complete : Moves running runToCompletion
  | fault : Moves running faulted
  | cancelRunning : Moves running canceled
  | cancelCreated : Moves created canceled
  | cancelScheduled : Moves scheduled canceled

end TaskState

end AsyncCpp
