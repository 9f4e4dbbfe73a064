import AsyncCpp.Tasks.TaskInvariant

/-!
# The threads in the code of a task come to rest

A thread in a call of a task, or in the item the task has enqueued, has a bounded number of steps
left: `Wait` reads the state once after each `notify_all`, of which one follows each completion,
and each stored continuation is invoked once. The calls themselves, the scheduler taking an item
and the user's function are no such steps.

Results:
* `TaskSystem.runStep_todo`: a thread that goes on lowers `todo`.
* `TaskSystem.start_todo`: what a call of `Start()` adds to it.
-/

namespace AsyncCpp.Tasks

open Interleaving

variable {α ε T : Type*} [Fintype T]

/-- The steps left to a thread at this place. The `notify_all` wakes up to `n` threads, which
    read the state once more; a continuation that is stored counts 1. -/
def Pc.todo (n : ℕ) : Pc → ℕ
  | .idle | .parked _ => 0
  | .addLocked _ => 3
  | .addEnqueue _ => 2
  | .addRun _ | .startEnqueue | .waitPark _ | .resultCall => 1
  | .startLock | .waitRead _ | .runContinuations => 2
  | .woken _ => 3
  | .continuing ks => ks.length + 1
  | .notify => 3 * n + 3
  | .startCanceled | .bodyDone | .bodyCanceled | .bodyFaulted => 3 * n + 4
  | .bodyCall => 3 * n + 5
  | .bodyRunning => 3 * n + 6
  | .bodyBegin => 3 * n + 7

namespace TaskSystem

/-- The steps left to the threads. -/
def todo (s : TaskSystem α ε T) : ℕ :=
  tally (Pc.todo (Fintype.card T)) s.pc + s.task.continuations.length

/-- A woken thread has three more steps. -/
theorem wake_todo (pc : T → Pc) (n : ℕ) :
    tally (Pc.todo n) (fun u => (pc u).wake) ≤ tally (Pc.todo n) pc + 3 * Fintype.card T := by
  have hone : ∀ u, (pc u).wake.todo n ≤ (pc u).todo n + 3 := by
    intro u
    cases pc u <;> simp only [Pc.wake, Pc.todo] <;> omega
  calc tally (Pc.todo n) (fun u => (pc u).wake)
      ≤ ∑ u, ((pc u).todo n + 3) := Finset.sum_le_sum fun u _ => hone u
    _ = tally (Pc.todo n) pc + 3 * Fintype.card T := by
      rw [Finset.sum_add_distrib, Finset.sum_const_nat fun _ _ => rfl, Finset.card_univ, mul_comm 3]
      rfl

variable [DecidableEq T] {s s' : TaskSystem α ε T} {t : T}

/-- A thread moves. -/
theorem todo_update (s : TaskSystem α ε T) (t : T) (p : Pc) :
    tally (Pc.todo (Fintype.card T)) (Function.update s.pc t p) + s.task.continuations.length +
      (s.pc t).todo (Fintype.card T) = s.todo + p.todo (Fintype.card T) := by
  have := tally_update (Pc.todo (Fintype.card T)) s.pc t p
  unfold todo
  omega

/-- A thread calls `Start()`. -/
theorem start_todo {kind : TaskKind} (hs : TaskSystem.step kind s (.start t) = some s') :
    s'.todo ≤ s.todo + (3 * Fintype.card T + 4) := by
  simp only [step] at hs
  split at hs <;> cases hs
  rename_i hidle
  have hto := todo_update s t (if s.isCanceled then .startCanceled else .startLock)
  have hle : (if s.isCanceled then Pc.startCanceled else .startLock).todo (Fintype.card T) ≤
      3 * Fintype.card T + 4 := by
    split_ifs <;> simp only [Pc.todo] <;> omega
  show tally _ (Function.update s.pc t _) + s.task.continuations.length ≤ _
  omega

/-- A thread goes on. -/
theorem runStep_todo (hs : s.runStep t = some s') : s'.todo < s.todo := by
  -- the steps that leave the continuations and the other threads alone
  have hmove : ∀ {p : Pc}, p.todo (Fintype.card T) < (s.pc t).todo (Fintype.card T) →
      tally (Pc.todo (Fintype.card T)) (Function.update s.pc t p) +
        s.task.continuations.length < s.todo := by
    intro p hp
    have := todo_update s t p
    omega
  cases runStep_cases hs with
  | addLate hpc | addEarly hpc | addRun hpc | startCanceled hpc | startAgain hpc | schedule hpc
  | startEnqueue hpc | bodyThrows hpc | bodyBegin hpc | bodyRunning hpc | bodyCall hpc
  | bodyDone hpc | bodyCanceled hpc | bodyFaulted hpc | continued hpc | continuing hpc
  | waitThrows hpc | waitResult hpc | waitReturns hpc | waitAgain hpc | waitPark hpc | woken hpc
  | resultCall hpc =>
    refine hmove ?_
    rw [hpc]
    simp only [Pc.todo, List.length_cons]
    omega
  | @addEnqueue k hpc =>
    have hto := todo_update s t .idle
    rw [hpc] at hto
    simp only [Pc.todo] at hto
    show tally _ (Function.update s.pc t .idle) + (s.task.continuations ++ [k]).length < s.todo
    rw [List.length_append, List.length_singleton]
    omega
  | notify hpc =>
    -- the threads it wakes
    have hwake := wake_todo s.pc (Fintype.card T)
    have hto := tally_update (Pc.todo (Fintype.card T)) (fun u => (s.pc u).wake) t .runContinuations
    have hwoken : (s.pc t).wake = .notify := by
      rw [hpc]
      rfl
    simp only [hwoken, Pc.todo] at hto
    simp only [todo]
    omega
  | runContinuations hpc =>
    have hto := todo_update s t (.continuing s.task.continuations)
    rw [hpc] at hto
    simp only [Pc.todo] at hto
    show tally _ (Function.update s.pc t (.continuing s.task.continuations)) + 0 < s.todo
    omega

end TaskSystem

end AsyncCpp.Tasks
