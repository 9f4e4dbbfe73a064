import AsyncCpp.Tasks.FunctionTask

/-!
# `Result()` and the function of the task

`GetResult` calls `_func()` after `Wait()` (TaskHelpers.h:103-109), and so does the scheduled
item (lines 458-461). `_func` is the user's function in the wrapper of `Memoize0`
(Functional/F.h:40-48), which is not thread safe, calls the function again after an exception,
and returns the value it stored once the function has returned. `Wait()` lets `GetResult` pass
in state `RunToCompletion` only, which nobody but the scheduled item writes, after its own
call of `_func()` has returned.

Results:
* `function_evaluated_once`: with any number of `Start()` calls, in every run, the user's
  function is called at most once, never by `Result()`, and what `Result()` returns is the
  value of that call.
-/

namespace AsyncCpp.Tasks

open Interleaving

variable {α ε T : Type*}

/-- What is stored is the value of the one call of the user's function, and what `Result()`
    returned is what is stored. -/
structure ValueOk (s : TaskSystem α ε T) : Prop where
  stored : ∀ v, s.task.func = some v → s.funcLog = [.ok v]
  yielded : ∀ v, .ok (some v) ∈ s.waitLog → s.task.func = some v

/-- Inside the scheduled item's call of the user's function no call is over. -/
theorem FunctionOk.funcLog_eq_nil [Fintype T] {s : TaskSystem α ε T} (h : FunctionOk s) {t : T}
    (ht : s.pc t = .bodyCall) : s.funcLog = [] := by
  have honce := h.once
  have hle := le_tally Pc.runs s.pc t
  rw [ht] at hle
  apply List.eq_nil_of_length_eq_zero
  simp only [TaskSystem.runs, Pc.runs] at honce hle
  omega

namespace ValueOk

variable {s s' : TaskSystem α ε T} {t : T}

/-- The stored value and the logs stay. -/
theorem congr (h : ValueOk s) (hf : s'.task.func = s.task.func) (hl : s'.funcLog = s.funcLog)
    (hw : ∀ v, .ok (some v) ∈ s'.waitLog → .ok (some v) ∈ s.waitLog ∨ s.task.func = some v) :
    ValueOk s' := by
  constructor
  · intro v hv
    rw [hf] at hv
    rw [hl]
    exact h.stored v hv
  · intro v hv
    rw [hf]
    rcases hw v hv with hold | hnew
    · exact h.yielded v hold
    · exact hnew

variable [DecidableEq T]

theorem run_step (h : ValueOk s) (hs : s.runStep t = some s') : ValueOk s' := by
  cases runStep_cases hs with
  | waitThrows | waitReturns =>
    refine h.congr rfl rfl fun v hv => .inl ?_
    simpa using hv
  | @resultCall w hpc hf =>
    refine h.congr rfl rfl fun v hv => ?_
    rcases List.mem_append.mp hv with hold | hnew
    · exact .inl hold
    · right
      cases List.mem_singleton.mp hnew
      exact hf
  | _ => exact h.congr rfl rfl fun v hv => .inl hv

theorem call_step [Fintype T] (h : ValueOk s) (ho : FunctionOk s) {r : Except (Exn ε) α}
    (hs : s.callStep t r = some s') : ValueOk s' := by
  have hknown := ho.known t
  unfold TaskSystem.callStep at hs
  split at hs
  case h_1 v hpc hf =>
    -- the function returns inside the scheduled item: the first value that is stored
    cases hs
    constructor
    · intro w hw
      cases hw
      show s.funcLog ++ [.ok v] = [.ok v]
      rw [ho.funcLog_eq_nil hpc]
      rfl
    · intro w hw
      have hold := h.yielded w hw
      rw [hf] at hold
      cases hold
  case h_2 e hpc hf =>
    cases hs
    constructor
    · intro w hw
      rw [show s.task.func = some w from hw] at hf
      cases hf
    · exact fun w hw => h.yielded w hw
  case h_3 v hpc hf | h_4 e hpc hf =>
    rw [hpc, hf] at hknown
    cases hknown rfl
  case h_5 => cases hs

theorem step [Fintype T] (h : ValueOk s) (ho : FunctionOk s) {a : TaskLabel α ε T}
    (hs : TaskSystem.step .function s a = some s') : ValueOk s' := by
  cases a with
  | run t => exact h.run_step hs
  | call t r => exact h.call_step ho hs
  | cancel =>
    cases hs
    exact ⟨h.stored, h.yielded⟩
  | set t c =>
    simp only [TaskSystem.step, TaskKind.calls, Bool.false_eq_true, and_false, if_false] at hs
    cases hs
  | addContinuation t | wait t result | start t | body t | spuriousWake t =>
    simp only [TaskSystem.step] at hs
    split at hs <;> cases hs
    exact ⟨h.stored, h.yielded⟩

end ValueOk

variable [Fintype T] [DecidableEq T] {s : TaskSystem α ε T}

theorem reachable_valueOk (h : (taskMachine .function α ε T).Reachable Machine.Any s) :
    ValueOk s := by
  refine h.invariant_with (fun _ => reachable_functionOk) ⟨nofun, nofun⟩ ?_
  intro s a s' ho hi _ hs
  exact hi.step ho hs

/-- A function task in any run. The calls of the user's function, going on or over, are at most
    one; a `Result()` that is before its `_func()` finds the value stored and calls nothing; and
    every value that `Result()` returned is the value of that one call. -/
theorem function_evaluated_once (h : (taskMachine .function α ε T).Reachable Machine.Any s) :
    s.calls ≤ 1 ∧
    (∀ t, s.pc t = .resultCall → s.task.func.isSome ∧ ∀ r, s.callStep t r = none) ∧
    ∀ v, .ok (some v) ∈ s.waitLog → s.funcLog = [.ok v] := by
  have ho := reachable_functionOk h
  have hv := reachable_valueOk h
  refine ⟨(function_runs_once h).1, fun t ht => ?_, fun v hmem => ?_⟩
  · have hsome := ho.known t (by rw [ht]; rfl)
    refine ⟨hsome, fun r => ?_⟩
    obtain ⟨v, hf⟩ := Option.isSome_iff_exists.mp hsome
    simp only [TaskSystem.callStep, ht, hf]
  · exact hv.stored v (hv.yielded v hmem)

/-- `Start()` is called twice; the second call throws. Two calls of `Result()` return the value
    of the one call of the function. -/
theorem function_evaluated_once_twice :
    ∃ s : TaskSystem ℕ Empty (Fin 2), (taskMachine .function ℕ Empty (Fin 2)).Reachable
      Machine.Any s ∧ s.startLog = [.ok (), .error taskStarted] ∧
        s.waitLog = [.ok (some 7), .ok (some 7)] ∧ s.calls ≤ 1 ∧ s.funcLog = [.ok 7] := by
  obtain ⟨s, hr, hstart, hwait⟩ : ∃ s, (taskMachine .function ℕ Empty (Fin 2)).run
      (taskMachine .function ℕ Empty (Fin 2)).init
      [.start 0, .start 1, .run 0, .run 1, .run 0, .wait 1 true, .run 1, .run 1, .body 0, .run 0,
        .run 0, .call 0 (.ok 7), .run 0, .run 0, .run 1, .run 1, .run 1, .run 0, .run 0,
        .wait 0 true, .run 0, .run 0] = some s ∧
      s.startLog = [.ok (), .error taskStarted] ∧ s.waitLog = [.ok (some 7), .ok (some 7)] :=
    ⟨_, rfl, rfl, rfl⟩
  obtain ⟨hcalls, -, hvalue⟩ := function_evaluated_once (.of_run hr)
  exact ⟨s, .of_run hr, hstart, hwait, hcalls, hvalue 7 (by rw [hwait]; exact List.mem_cons_self)⟩

end AsyncCpp.Tasks
