import AsyncCpp.DataFlow.BlockInvariant

/-!
# Exceptions of the block's function

An exception that leaves the function ends the processing task Faulted. Whoever calls
`completeCommon` then waits for that task inside the `try` part, gets the exception from
`Wait()` and leaves before it touches `_completedTaskPromise`. So `Completion()` stays
pending for ever. The call on the detached thread lets the exception out of the thread. An
exception the `catch` clause does not match starts no such thread at all. Where a `Complete()` comes
first, it completes the next blocks as if nothing had happened.

Results:
* `fault_never_surfaces`: after the function threw, `Completion()` is never completed.
* `not_fault_surfaces`: three finished runs, one for each of the ways above.
-/

namespace AsyncCpp.DataFlow

open Interleaving Tasks AsyncPrimitives

variable {Node Item σ ε : Type*}

/-- The label is a call the user makes. -/
def DataflowLabel.isCall : DataflowLabel Node Item ε → Bool
  | .start _ | .complete _ | .setFaulted _ _ | .acceptInputAsync _ _ => true
  | .runCall _ | .advance _ | .process _ | .runFaultThread _ => false

/-- The exception `e` of block `n` is reported: the block and the started next blocks are
    Faulted with it, and no thread let an exception out. -/
def FaultSurfaces (N : Network Node Item σ ε) (s : Dataflow Node Item σ ε) (n : Node)
    (e : Exn ε) : Prop :=
  s.terminated = false ∧
    ∀ c, (c = n ∨ c ∈ N.outputNodes n ∧ (s.block c).startedBy ≠ []) →
      (s.block c).completedTask.state = .faulted ∧ (s.block c).completedTask.exceptionPtr = some e

theorem not_faultSurfaces_of_pending {N : Network Node Item σ ε} {s : Dataflow Node Item σ ε}
    {n : Node} {e : Exn ε} (h : (s.block n).completedTask = {}) : ¬ FaultSurfaces N s n e := by
  intro hsurf
  have hstate := (hsurf.2 n (.inl rfl)).1
  rw [h] at hstate
  cases hstate

variable [DecidableEq Node]

/-- All activity has finished: no thread and no task can go on. -/
def Finished (N : Network Node Item σ ε) (s : Dataflow Node Item σ ε) : Prop :=
  ∀ a : DataflowLabel Node Item ε, a.isCall = false → s.step N a = none

/-- In every state of every run after the function of a block threw, `Completion()` of the
    block is pending, so the exception is not reported. -/
theorem fault_never_surfaces {N : Network Node Item σ ε} {s : Dataflow Node Item σ ε}
    (h : (dataflowMachine N).Reachable Machine.Any s) {n : Node} {e : Exn ε}
    (he : (s.block n).thrown = some e) :
    (s.block n).completedTask = {} ∧ ¬ FaultSurfaces N s n e := by
  have hinv := reachable_taskInv h n
  have hpending : (s.block n).completedTask = {} := by
    by_contra hne
    have hfin := hinv.completed hne
    rcases hinv.thrown e he with ht | ht <;> cases hfin.symm.trans ht
  exact ⟨hpending, not_faultSurfaces_of_pending hpending⟩

/-- Block `true` throws `e` on every item; the next block is `false`. -/
def throwingNetwork (e : Exn Unit) : Network Bool ℕ Unit Unit where
  outputNodes n := if n then [false] else []
  canAcceptFunc _ _ := true
  transformFunc n _ x := (if n then .error e else .ok x, ())
  initialState _ := ()

/-- Both blocks are started, `AcceptInputAsync(7)` returns, the function throws, and the second
    block waits for an item. -/
def throwingRun : List (DataflowLabel Bool ℕ Unit) :=
  [DataflowLabel.start true, .advance true, .advance false, .advance true,
    .acceptInputAsync true 7] ++
    List.replicate 3 (DataflowLabel.runCall 0) ++ List.replicate 6 (DataflowLabel.process true) ++
    List.replicate 5 (DataflowLabel.process false)

/-- Block `true` is completed, by `SetFaulted` or by `Complete()`, and completes block `false`. -/
def completingRun : List (DataflowLabel Bool ℕ Unit) :=
  List.replicate 6 (DataflowLabel.advance true) ++ List.replicate 4 (DataflowLabel.advance false) ++
    List.replicate 4 (DataflowLabel.process false) ++
    List.replicate 3 (DataflowLabel.advance false) ++ [DataflowLabel.advance true]

/-- The block threw and is left alone. -/
theorem fault_never_surfaces_throwing :
    ∃ s, (dataflowMachine (throwingNetwork (.aggregate []))).Reachable Machine.Any s ∧
      (s.block true).completedTask = {} := by
  have hr : (dataflowMachine (throwingNetwork (.aggregate []))).run
      (dataflowMachine (throwingNetwork (.aggregate []))).init throwingRun = some _ := rfl
  exact ⟨_, .of_run hr, (fault_never_surfaces (n := true) (e := .aggregate []) (.of_run hr) rfl).1⟩

/-- Three runs after which all activity has finished and the exception is not reported. The
    `catch` clause matches the exception: `SetFaulted` lets it out of the detached thread, or
    a `Complete()` completes the next block as successful. The clause does not match it:
    nobody ever waits for the processing task. -/
theorem not_fault_surfaces :
    (∃ s, (dataflowMachine (throwingNetwork (.user true ()))).Reachable Machine.Any s ∧
      Finished (throwingNetwork (.user true ())) s ∧ (s.block true).thrown = some (.user true ()) ∧
        ¬ FaultSurfaces (throwingNetwork (.user true ())) s true (.user true ()) ∧
          s.terminated = true) ∧
    (∃ s, (dataflowMachine (throwingNetwork (.user true ()))).Reachable Machine.Any s ∧
      Finished (throwingNetwork (.user true ())) s ∧ (s.block true).thrown = some (.user true ()) ∧
        ¬ FaultSurfaces (throwingNetwork (.user true ())) s true (.user true ()) ∧
          (s.block false).completedTask.state = .runToCompletion) ∧
    ∃ s, (dataflowMachine (throwingNetwork (.aggregate []))).Reachable Machine.Any s ∧
      Finished (throwingNetwork (.aggregate [])) s ∧ (s.block true).thrown = some (.aggregate []) ∧
        ¬ FaultSurfaces (throwingNetwork (.aggregate [])) s true (.aggregate []) := by
  refine ⟨?_, ?_, ?_⟩
  · have hr : (dataflowMachine (throwingNetwork (.user true ()))).run
        (dataflowMachine (throwingNetwork (.user true ()))).init
        (throwingRun ++ .runFaultThread true :: completingRun) = some _ := rfl
    exact ⟨_, .of_run hr, fun _ _ => rfl, rfl, not_faultSurfaces_of_pending rfl, rfl⟩
  · have hr : (dataflowMachine (throwingNetwork (.user true ()))).run
        (dataflowMachine (throwingNetwork (.user true ()))).init
        (throwingRun ++ .complete true :: completingRun ++ [.runFaultThread true]) = some _ := rfl
    refine ⟨_, .of_run hr, ?_, rfl, not_faultSurfaces_of_pending rfl, rfl⟩
    intro a ha
    cases a with
    | runCall k => cases k <;> rfl
    | advance n | process n | runFaultThread n => cases n <;> rfl
    | _ => cases ha
  · have hr : (dataflowMachine (throwingNetwork (.aggregate []))).run
        (dataflowMachine (throwingNetwork (.aggregate []))).init throwingRun = some _ := rfl
    refine ⟨_, .of_run hr, ?_, rfl, not_faultSurfaces_of_pending rfl⟩
    intro a ha
    cases a with
    | runCall k => cases k <;> rfl
    | advance n | process n | runFaultThread n => cases n <;> rfl
    | _ => cases ha

end AsyncCpp.DataFlow
