import AsyncCpp.Tasks.TaskInvariant

/-!
# The life of a function task

A function task may be started any number of times, by any threads, while its token
is cancelled at any moment.

`RunTaskFunc` refuses a task that is not in state `Created` on the path that schedules
it, but not on the path it takes when the token is cancelled: there it writes
`Canceled` over whatever state the task has. A finished task whose token is
cancelled afterwards is turned into a canceled one by a second `Start()`
(`not_taskState_absorbing`).

Results:
* `taskState_absorbing`: in every run in which that write finds the task in state
  `Created`, the state only moves along `TaskState.Moves`, a completed task keeps its
  state and what `Wait()` and `Result()` yield, and every `Start()` after the first
  throws and changes nothing.
-/

namespace AsyncCpp.Tasks

open Interleaving

variable {α ε T : Type*} [DecidableEq T]

/-- The log of critical sections of `Start()`: empty while the task is in state `Created`;
    the first call went through, every later one threw. -/
structure StartLogOk (s : TaskSystem α ε T) : Prop where
  created : s.task.state = .created ↔ s.startLog = []
  later : ∀ r ∈ s.startLog.tail, r = .error taskStarted

/-- What the critical section of a `Start()` call does. -/
theorem startSection_run {s s' : TaskSystem α ε T} {t : T}
    (hg : s.pc t = .startCanceled → s.task.state = .created) (hsec : StartSection s t)
    (hs : s.runStep t = some s') :
    (s.task.state = .created ∧ s'.task.state ≠ .created ∧
        s'.startLog = s.startLog ++ [.ok ()]) ∨
      (s.task.state ≠ .created ∧ s'.task = s.task ∧ s'.queued = s.queued ∧
        s'.startLog = s.startLog ++ [.error taskStarted]) := by
  rcases hsec with hpc | hpc <;> simp only [TaskSystem.runStep, hpc] at hs
  · split at hs <;> cases hs
    exact .inl ⟨hg hpc, by simp, rfl⟩
  · split at hs
    · split at hs <;> cases hs
      · exact .inr ⟨‹_›, rfl, rfl, rfl⟩
      · rename_i hc
        exact .inl ⟨not_not.mp hc, by simp, rfl⟩
    · cases hs

/-- No other step writes the log. -/
theorem startLog_of_not_section {s s' : TaskSystem α ε T} {a : TaskLabel α ε T} {kind : TaskKind}
    (hs : TaskSystem.step kind s a = some s') (hsec : ∀ t, a = .run t → ¬ StartSection s t) :
    s'.startLog = s.startLog := by
  cases a with
  | run t =>
    cases runStep_cases hs with
    | startCanceled hpc => exact absurd (.inl hpc) (hsec t rfl)
    | startAgain hpc | schedule hpc => exact absurd (.inr hpc) (hsec t rfl)
    | _ => rfl
  | call t r =>
    simp only [TaskSystem.step, TaskSystem.callStep] at hs
    split at hs <;> cases hs <;> rfl
  | set t c =>
    simp only [TaskSystem.step] at hs
    split at hs
    · split at hs <;> cases hs <;> rfl
    · cases hs
  | cancel => cases hs; rfl
  | addContinuation t | wait t result | start t | body t | spuriousWake t =>
    simp only [TaskSystem.step] at hs
    split at hs
    · cases hs; rfl
    · cases hs

theorem TaskState.Moves.ne_created {st st' : TaskState} (h : st.Moves st') : st' ≠ .created := by
  cases h <;> decide

variable [Fintype T]

/-- A step outside the critical sections of `Start()` keeps a function task in, or out
    of, state `Created`. -/
theorem created_of_not_section {s s' : TaskSystem α ε T} {a : TaskLabel α ε T} (hi : Inv s)
    (hg : StartGuard s a) (hs : TaskSystem.step .function s a = some s')
    (hsec : ∀ t, a = .run t → ¬ StartSection s t) :
    s'.task.state = .created ↔ s.task.state = .created := by
  rcases hi.step_effect hg hs with he | ⟨hu, he⟩ | ⟨-, he⟩
  · rw [he.1]
  · have hne : s.task.state ≠ .created := by intro h; rw [h] at hu; cases hu
    rcases he with he | he
    · rw [he]
    · simp [hne, TaskState.Moves.ne_created he]
  · obtain ⟨t, rfl, h, -⟩ := he rfl
    exact absurd h (hsec t rfl)

theorem startLogOk_step {s s' : TaskSystem α ε T} {a : TaskLabel α ε T} (hi : Inv s)
    (hl : StartLogOk s) (hg : StartGuard s a) (hs : TaskSystem.step .function s a = some s') :
    StartLogOk s' := by
  by_cases hsec : ∃ t, a = .run t ∧ StartSection s t
  · obtain ⟨t, rfl, hsec⟩ := hsec
    rcases startSection_run (hg t rfl) hsec hs with ⟨h1, h2, h3⟩ | ⟨h1, h2, -, h3⟩
    · rw [hl.created] at h1
      exact ⟨by simp [h2, h3], by simp [h3, h1]⟩
    · have hne : s.startLog ≠ [] := fun h => h1 (hl.created.mpr h)
      refine ⟨by simp [h2, h3, h1], fun r hr => ?_⟩
      rw [h3, List.tail_append_of_ne_nil hne] at hr
      rcases List.mem_append.mp hr with hr | hr
      · exact hl.later r hr
      · exact List.mem_singleton.mp hr
  · have hsec : ∀ t, a = .run t → ¬ StartSection s t := fun t ha h => hsec ⟨t, ha, h⟩
    have hlog := startLog_of_not_section hs hsec
    exact ⟨by rw [created_of_not_section hi hg hs hsec, hlog]; exact hl.created,
      by rw [hlog]; exact hl.later⟩

theorem reachable_startLogOk {s : TaskSystem α ε T}
    (h : (taskMachine .function α ε T).Reachable StartGuard s) : StartLogOk s := by
  refine h.invariant_with (fun _ => reachable_inv) ?_ fun s a s' hi hl hg hs =>
    startLogOk_step hi hl hg hs
  exact ⟨by simp [taskMachine], by simp [taskMachine]⟩

/-! ## The state moves forward and stops -/

/-- A completed task keeps its state and what `Wait()` and `Result()` yield. -/
theorem completed_absorbing {kind : TaskKind} {s s' : TaskSystem α ε T}
    (h : (taskMachine kind α ε T).Reachable StartGuard s) (hc : s.task.state.isCompleted)
    (hr : (taskMachine kind α ε T).Reaches StartGuard s s') : SameOutcome s.task s'.task := by
  have : Inv s' ∧ SameOutcome s.task s'.task := by
    refine hr.preserves (I := fun u => Inv u ∧ SameOutcome s.task u.task) ?_
      ⟨reachable_inv h, rfl, rfl, rfl⟩
    rintro u a u' ⟨hi, h1, h2, h3⟩ hg hs
    obtain ⟨h4, h5, h6⟩ := hi.frozen hg hs (by rw [h1]; exact hc)
    exact ⟨hi.step hg hs, h4.trans h1, h5.trans h2, h6.trans h3⟩
  exact this.2

/-- In every run of a function task in which the write of `Canceled` in `Start()` finds the
    task in state `Created`: the state moves along `TaskState.Moves` only; once the task is
    completed, neither its state nor what `Wait()` and `Result()` yield changes; and every
    `Start()` after the first throws `logic_error` and changes nothing. -/
theorem taskState_absorbing {s : TaskSystem α ε T}
    (h : (taskMachine .function α ε T).Reachable StartGuard s) :
    (∀ a s', StartGuard s a → (taskMachine .function α ε T).step s a = some s' →
      s'.task.state = s.task.state ∨ s.task.state.Moves s'.task.state) ∧
    (s.task.state.isCompleted → ∀ s', (taskMachine .function α ε T).Reaches StartGuard s s' →
      s'.task.state = s.task.state ∧ s'.task.waitOutcome = s.task.waitOutcome ∧
        s'.task.resultOutcome = s.task.resultOutcome) ∧
    (∀ r ∈ s.startLog.tail, r = .error taskStarted) ∧
    (∀ t s', s.startLog ≠ [] → StartSection s t → StartGuard s (.run t) →
      (taskMachine .function α ε T).step s (.run t) = some s' →
      s'.startLog = s.startLog ++ [.error taskStarted] ∧ s'.task = s.task ∧
        s'.queued = s.queued) := by
  have hi := reachable_inv h
  have hl := reachable_startLogOk h
  refine ⟨fun a s' hg hs => ?_, fun hc s' hr => ?_, hl.later, fun t s' hne hsec hg hs => ?_⟩
  · rcases hi.step_effect hg hs with he | ⟨-, he⟩ | ⟨-, he⟩
    · exact .inl he.1
    · exact he
    · obtain ⟨-, -, -, he⟩ := he rfl
      exact .inr he
  · have he := completed_absorbing h hc hr
    exact ⟨he.1, he.waitOutcome, he.resultOutcome⟩
  · rcases startSection_run (hg t rfl) hsec hs with ⟨h1, -, -⟩ | ⟨-, h2, h3, h4⟩
    · exact absurd (hl.created.mp h1) hne
    · exact ⟨h4, h2, h3⟩

/-! ## A second `Start()` of a finished task -/

/-- One thread starts a task, runs its body to the end (the function yields `7`) and
    invokes its (no) continuations. -/
def runOnce : List (TaskLabel ℕ Empty Unit) :=
  [.start (), .run (), .run (), .body (), .run (), .run (), .call () (.ok 7), .run (), .run (),
    .run (), .run ()]

/-- The task of `runOnce` is finished, and a `Start()` then throws. -/
theorem taskState_absorbing_runOnce :
    ∃ s : TaskSystem ℕ Empty Unit, (taskMachine .function ℕ Empty Unit).Reachable StartGuard s ∧
      s.task.state = .runToCompletion ∧ s.pc () = .startLock ∧
        ∃ s', (taskMachine .function ℕ Empty Unit).step s (.run ()) = some s' ∧
          s'.startLog = [.ok (), .error taskStarted] ∧ s'.task = s.task := by
  have hr : (taskMachine .function ℕ Empty Unit).Reachable StartGuard _ :=
    .head (a := .start ()) rfl nofun <| .head (a := .run ()) rfl nofun <|
    .head (a := .run ()) rfl nofun <| .head (a := .body ()) rfl nofun <|
    .head (a := .run ()) rfl nofun <| .head (a := .run ()) rfl nofun <|
    .head (a := .call () (.ok 7)) rfl nofun <| .head (a := .run ()) rfl nofun <|
    .head (a := .run ()) rfl nofun <| .head (a := .run ()) rfl nofun <|
    .head (a := .run ()) rfl nofun <| .head (a := .start ()) rfl nofun .refl
  refine ⟨_, hr, rfl, rfl, _, rfl, ?_⟩
  have h := (taskState_absorbing hr).2.2.2 () _ (by simp) (.inr rfl) (by rintro _ _ ⟨⟩) rfl
  exact ⟨h.1, h.2.1⟩

/-- Without the condition the claim of `taskState_absorbing` fails: the task of `runOnce` is
    finished; its token is cancelled and it is started again. That `Start()` does not
    throw, the state becomes `Canceled`, and `Wait()` throws from now on. -/
theorem not_taskState_absorbing :
    ∃ s s' : TaskSystem ℕ Empty Unit,
      (taskMachine .function ℕ Empty Unit).Reachable Machine.Any s ∧
      (taskMachine .function ℕ Empty Unit).Reaches Machine.Any s s' ∧
      s.task.state = .runToCompletion ∧ s.task.resultOutcome = .ok (some 7) ∧
      s'.task.state = .canceled ∧ s'.task.resultOutcome = .error (some .operationCanceled) ∧
      s'.startLog = [.ok (), .ok ()] :=
  ⟨_, _,
    .of_run (show (taskMachine .function ℕ Empty Unit).run _ runOnce = some _ from rfl),
    .of_run (show (taskMachine .function ℕ Empty Unit).run _ [.cancel, .start (), .run ()] = some _
      from rfl),
    rfl, rfl, rfl, rfl, rfl⟩

end AsyncCpp.Tasks
