import AsyncCpp.Tasks.Continuations

/-!
# Function tasks without a condition on `Start()`

`Start()` of a function task may be called any number of times, by any threads, with the
token cancelled at any moment. The state then need not move forward (a `Start()` that saw its
token cancelled writes `Canceled` over any state), but the state `Created` is left once, and
only the call that takes the task from `Created` to `Scheduled` enqueues an item.

Results:
* `function_runs_once`: in every run the user's function runs at most once, calls by `Result()`
  included, and not before the task has left state `Created`.
* `created_of_not_start`: only the critical section of `Start()` leaves state `Created`.
* `exists_run_of_locked`: whoever holds `_lockObject` can go on.
-/

namespace AsyncCpp.Tasks

open Interleaving

variable {α ε T : Type*} {kind : TaskKind}

/-- A thread at this place has the run of the function before it, or is inside it. -/
def Pc.runs : Pc → ℕ
  | .startEnqueue | .bodyBegin | .bodyRunning | .bodyCall => 1
  | _ => 0

/-- A thread at this place relies on the stored result. -/
def Pc.knowsResult : Pc → Bool
  | .bodyDone | .resultCall => true
  | _ => false

@[simp] theorem Pc.runs_wake (p : Pc) : p.wake.runs = p.runs := by
  cases p <;> rfl

@[simp] theorem Pc.knowsResult_wake (p : Pc) : p.wake.knowsResult = p.knowsResult := by
  cases p <;> rfl

theorem Pc.wake_eq_startCanceled {p : Pc} : p.wake = .startCanceled ↔ p = .startCanceled := by
  cases p <;> simp [Pc.wake]

/-- 1 in state `Created`, where the run of the function has not been scheduled. -/
def unscheduled : TaskState → ℕ
  | .created => 1
  | _ => 0

theorem unscheduled_eq_zero {st : TaskState} : unscheduled st = 0 ↔ st ≠ .created := by
  cases st <;> simp [unscheduled]

variable [Fintype T]

/-- The runs of the user's function that are to come, going on, or over. -/
def TaskSystem.runs (s : TaskSystem α ε T) : ℕ :=
  s.queued + tally Pc.runs s.pc + s.funcLog.length

/-- The calls of the user's function, going on or over. -/
def TaskSystem.calls (s : TaskSystem α ε T) : ℕ :=
  tally (fun p => if p = .bodyCall then 1 else 0) s.pc + s.funcLog.length

theorem TaskSystem.calls_le_runs (s : TaskSystem α ε T) : s.calls ≤ s.runs := by
  have hle : tally (fun p => if p = .bodyCall then 1 else 0) s.pc ≤ tally Pc.runs s.pc := by
    refine Finset.sum_le_sum fun u _ => ?_
    cases s.pc u <;> simp [Pc.runs]
  unfold calls runs
  omega

structure FunctionOk (s : TaskSystem α ε T) : Prop where
  lock : ∀ t, s.lockObject = some t ↔ (s.pc t).holdsLock
  once : s.runs + unscheduled s.task.state ≤ 1
  carried : s.task.state = .created → ∀ t, (s.pc t).carries = 0
  result : s.task.state = .runToCompletion → s.task.func.isSome
  known : ∀ t, (s.pc t).knowsResult → s.task.func.isSome
  canceled : ∀ t, s.pc t = .startCanceled → s.isCanceled

namespace FunctionOk

variable {s s' : TaskSystem α ε T} {t : T} {p : Pc}

theorem init : FunctionOk ({} : TaskSystem α ε T) where
  lock := by simp [Pc.holdsLock]
  once := by simp [TaskSystem.runs, tally, Pc.runs, unscheduled]
  carried := by simp [Pc.carries]
  result := by simp
  known := by simp [Pc.knowsResult]
  canceled := by simp

/-- Who carries the run finds the task out of state `Created`. -/
theorem ne_created (h : FunctionOk s) (ht : (s.pc t).carries = 1) : s.task.state ≠ .created := by
  intro hc
  have := h.carried hc t
  omega

theorem wake (h : FunctionOk s) : FunctionOk { s with pc := fun u => (s.pc u).wake } where
  lock := by simpa using h.lock
  once := by simpa [TaskSystem.runs, tally] using h.once
  carried := by simpa using h.carried
  result := h.result
  known := by simpa using h.known
  canceled := by simpa [Pc.wake_eq_startCanceled] using h.canceled

variable [DecidableEq T]

/-- A thread moves. What it has of the run before it, and what it has now, balance. -/
theorem move (h : FunctionOk s) (hpc : s'.pc = Function.update s.pc t p)
    (hl : LockMove s s' t p)
    (hruns : s'.queued + p.runs + s'.funcLog.length + unscheduled s'.task.state ≤
      s.queued + (s.pc t).runs + s.funcLog.length + unscheduled s.task.state)
    (hcreated : s'.task.state = .created → s.task.state = .created ∧ p.carries = 0)
    (hfunc : s.task.func.isSome → s'.task.func.isSome)
    (hresult : s'.task.state = .runToCompletion →
      s'.task.func.isSome ∨ s.task.state = .runToCompletion)
    (hknown : p.knowsResult → s'.task.func.isSome)
    (hcanceled : p = .startCanceled → s'.isCanceled) (htoken : s.isCanceled → s'.isCanceled) :
    FunctionOk s' ∧
      s'.runs + unscheduled s'.task.state ≤ s.runs + unscheduled s.task.state := by
  have hle : s'.runs + unscheduled s'.task.state ≤ s.runs + unscheduled s.task.state := by
    have := tally_update Pc.runs s.pc t p
    unfold TaskSystem.runs
    rw [hpc]
    omega
  have hcases : ∀ u, (u = t ∧ s'.pc u = p) ∨ (u ≠ t ∧ s'.pc u = s.pc u) := by
    intro u
    rw [hpc]
    by_cases hu : u = t
    · exact .inl ⟨hu, by rw [hu, Function.update_self]⟩
    · exact .inr ⟨hu, by rw [Function.update_of_ne hu]⟩
  refine ⟨⟨hl.holds h.lock hpc, hle.trans h.once, fun hc u => ?_, fun hr => ?_, fun u hu => ?_,
    fun u hu => ?_⟩, hle⟩
  · obtain ⟨hc0, hp⟩ := hcreated hc
    obtain ⟨-, hp'⟩ | ⟨-, hp'⟩ := hcases u <;> rw [hp']
    · exact hp
    · exact h.carried hc0 u
  · exact (hresult hr).elim id fun hr0 => hfunc (h.result hr0)
  · obtain ⟨-, hp'⟩ | ⟨-, hp'⟩ := hcases u <;> rw [hp'] at hu
    · exact hknown hu
    · exact hfunc (h.known u hu)
  · obtain ⟨-, hp'⟩ | ⟨-, hp'⟩ := hcases u <;> rw [hp'] at hu
    · exact hcanceled hu
    · exact htoken (h.canceled u hu)

/-- A thread moves and the shared state keeps its state and result. -/
theorem quiet (h : FunctionOk s) (hpc : s'.pc = Function.update s.pc t p)
    (hl : LockMove s s' t p)
    (hruns : s'.queued + p.runs ≤ s.queued + (s.pc t).runs)
    (hcarries : p.carries = 0 ∨ s.task.state ≠ .created) (hknown : p.knowsResult = false)
    (hcanceled : p ≠ .startCanceled)
    (h1 : s'.task.state = s.task.state := by rfl) (h2 : s'.task.func = s.task.func := by rfl)
    (h3 : s'.funcLog = s.funcLog := by rfl) (h4 : s'.isCanceled = s.isCanceled := by rfl) :
    FunctionOk s' ∧
      s'.runs + unscheduled s'.task.state ≤ s.runs + unscheduled s.task.state := by
  refine h.move hpc hl ?_ ?_ (by rw [h2]; exact id) (by rw [h1]; exact .inr)
    (by rw [hknown]; exact nofun) (fun hp => absurd hp hcanceled) (by rw [h4]; exact id)
  · rw [h1, h3]
    omega
  · rw [h1]
    exact fun hc => ⟨hc, hcarries.resolve_right (not_not.mpr hc)⟩

/-- Who is past the check of the state writes a later one. -/
theorem write (h : FunctionOk s) (st : TaskState) (hpc : s'.pc = Function.update s.pc t p)
    (hp : p.holdsLock = (s.pc t).holdsLock) (hruns : p.runs ≤ (s.pc t).runs)
    (hst : st ≠ .created) (hresult : st = .runToCompletion → s.task.func.isSome)
    (hknown : p.knowsResult = false) (hcanceled : p ≠ .startCanceled)
    (h1 : s'.task = { s.task with state := st } := by rfl)
    (h2 : s'.lockObject = s.lockObject := by rfl) (h3 : s'.queued = s.queued := by rfl)
    (h4 : s'.funcLog = s.funcLog := by rfl) (h5 : s'.isCanceled = s.isCanceled := by rfl) :
    FunctionOk s' ∧
      s'.runs + unscheduled s'.task.state ≤ s.runs + unscheduled s.task.state := by
  have h0 : unscheduled st = 0 := unscheduled_eq_zero.mpr hst
  refine h.move hpc (.keep hp h2) ?_ (by rw [h1]; exact fun hc => absurd hc hst)
    (by rw [h1]; exact id) (by rw [h1]; exact fun hr => .inl (hresult hr))
    (by rw [hknown]; exact nofun) (fun hp => absurd hp hcanceled) (by rw [h5]; exact id)
  rw [h1, h3, h4, h0]
  omega

theorem run_step (h : FunctionOk s) (hs : s.runStep t = some s') :
    FunctionOk s' ∧
      s'.runs + unscheduled s'.task.state ≤ s.runs + unscheduled s.task.state := by
  have hknown := h.known t
  have hcarrier := h.ne_created (t := t)
  cases runStep_cases hs with
  | addLate hpc | addEnqueue hpc | waitThrows hpc | waitReturns hpc | waitPark hpc =>
    exact h.quiet rfl (.free (by rw [hpc]; rfl) rfl rfl) (by rw [hpc]; exact le_rfl) (.inl rfl)
      rfl (by simp)
  | addEarly hpc | addRun hpc | startAgain hpc | runContinuations hpc | continued hpc
  | continuing hpc | waitAgain hpc | resultCall hpc =>
    exact h.quiet rfl (.keep (by rw [hpc]; rfl) rfl) (by rw [hpc]; exact le_rfl) (.inl rfl)
      rfl (by simp)
  | startEnqueue hpc =>
    exact h.quiet rfl (.keep (by rw [hpc]; rfl) rfl) (by rw [hpc]; exact le_rfl) (.inl rfl)
      rfl (by simp)
  | bodyThrows hpc | bodyBegin hpc =>
    rw [hpc] at hcarrier
    exact h.quiet rfl (.keep (by rw [hpc]; rfl) rfl) (by rw [hpc]; simp [Pc.runs])
      (.inr (hcarrier rfl)) rfl (by simp)
  | bodyCall hpc hf =>
    rw [hpc] at hcarrier
    exact h.move rfl (.keep (by rw [hpc]; rfl) rfl) (by rw [hpc]; simp [Pc.runs])
      (fun hc => absurd hc (hcarrier rfl)) id .inr (fun _ => hf) (by simp) id
  | schedule hpc hfree hc =>
    refine h.move rfl (.keep (by rw [hpc]; rfl) rfl) ?_ (by simp) id (by simp)
      (fun h => by cases h) (by simp) id
    simp [hpc, hc, Pc.runs, unscheduled]
    omega
  | startCanceled hpc | bodyCanceled hpc =>
    exact h.write .canceled rfl (by rw [hpc]; rfl) (Nat.zero_le _) (by simp) (by simp) rfl (by simp)
  | bodyFaulted hpc =>
    exact h.write .faulted rfl (by rw [hpc]; rfl) (Nat.zero_le _) (by simp) (by simp) rfl (by simp)
  | bodyDone hpc =>
    rw [hpc] at hknown
    exact h.write .runToCompletion rfl (by rw [hpc]; rfl) (Nat.zero_le _) (by simp)
      (fun _ => hknown rfl) rfl (by simp)
  | bodyRunning hpc =>
    exact h.write .running rfl (by rw [hpc]; rfl) (by rw [hpc]; exact le_rfl) (by simp) (by simp)
      rfl (by simp)
  | notify hpc =>
    have hsame : TaskSystem.runs { s with pc := fun u => (s.pc u).wake } = s.runs := by
      simp [TaskSystem.runs, tally]
    rw [← hsame]
    exact h.wake.quiet rfl (.keep (by simp only [hpc]; rfl) rfl) (Nat.le_add_right _ _) (.inl rfl)
      rfl (by simp)
  | waitResult hpc hc hw =>
    have hst : s.task.state = .runToCompletion := by
      by_contra hne
      simp only [TaskSharedState.waitOutcome, hne, if_false] at hw
      split at hw <;> cases hw
    exact h.move rfl (.free (by rw [hpc]; rfl) rfl rfl) (by rw [hpc]; exact le_rfl)
      (fun hc => ⟨hc, rfl⟩) id .inr (fun _ => h.result hst) (by simp) id
  | woken hpc hfree =>
    exact h.quiet rfl (.take rfl hfree rfl) (by rw [hpc]; exact le_rfl) (.inl rfl) rfl (by simp)

theorem call_step (h : FunctionOk s) {r : Except (Exn ε) α} (hs : s.callStep t r = some s') :
    FunctionOk s' ∧
      s'.runs + unscheduled s'.task.state ≤ s.runs + unscheduled s.task.state := by
  have hknown := h.known t
  have hcarrier := h.ne_created (t := t)
  unfold TaskSystem.callStep at hs
  split at hs
  case h_1 v hpc hf =>
    cases hs
    rw [hpc] at hcarrier
    refine h.move rfl (.keep (by rw [hpc]; rfl) rfl) ?_ (fun hc => absurd hc (hcarrier rfl))
      (fun _ => rfl) .inr (fun _ => rfl) nofun id
    simp [hpc, Pc.runs]
    omega
  case h_2 e hpc hf =>
    cases hs
    rw [hpc] at hcarrier
    have hne := hcarrier rfl
    split <;>
      refine h.move rfl (.keep (by rw [hpc]; rfl) rfl) ?_ (fun hc => absurd hc hne) id .inr
        nofun nofun id <;>
      simp [hpc, Pc.runs] <;> omega
  case h_3 v hpc hf | h_4 e hpc hf =>
    rw [hpc, hf] at hknown
    cases hknown rfl
  case h_5 => cases hs

theorem step (h : FunctionOk s) {a : TaskLabel α ε T}
    (hs : TaskSystem.step .function s a = some s') :
    FunctionOk s' ∧
      s'.runs + unscheduled s'.task.state ≤ s.runs + unscheduled s.task.state := by
  cases a with
  | run t => exact h.run_step hs
  | call t r => exact h.call_step hs
  | cancel =>
    cases hs
    exact ⟨⟨h.lock, h.once, h.carried, h.result, h.known, fun _ _ => rfl⟩, le_rfl⟩
  | set t c =>
    simp only [TaskSystem.step, TaskKind.calls, Bool.false_eq_true, and_false, if_false] at hs
    cases hs
  | addContinuation t | wait t result =>
    simp only [TaskSystem.step] at hs
    split at hs <;> cases hs
    rename_i hen
    exact h.quiet rfl (.take rfl (Option.isNone_iff_eq_none.mp hen.2) rfl)
      (by rw [hen.1]; exact le_rfl) (.inl rfl) rfl (by simp)
  | start t =>
    simp only [TaskSystem.step] at hs
    split at hs <;> cases hs
    rename_i hen
    refine h.move rfl (.keep ?_ rfl) ?_ (fun hc => ⟨hc, ?_⟩) id .inr ?_ ?_ id <;>
      split <;> simp_all [Pc.holdsLock, Pc.runs, Pc.carries, Pc.knowsResult]
  | body t =>
    simp only [TaskSystem.step] at hs
    split at hs <;> cases hs
    rename_i hen
    have hne : s.task.state ≠ .created := by
      intro hc
      have := h.once
      rw [hc] at this
      simp only [TaskSystem.runs, unscheduled] at this
      omega
    refine h.quiet rfl (.keep (by rw [hen.1]; rfl) rfl) ?_ (.inr hne) rfl (by simp)
    simp only [hen.1, Pc.runs]
    omega
  | spuriousWake t =>
    simp only [TaskSystem.step] at hs
    split at hs <;> cases hs
    rename_i result hpc
    exact h.quiet rfl (.keep (by rw [hpc]; rfl) rfl) (by rw [hpc]; exact le_rfl) (.inl rfl)
      rfl (by simp)

end FunctionOk

theorem reachable_functionOk [DecidableEq T] {s : TaskSystem α ε T}
    (h : (taskMachine .function α ε T).Reachable Machine.Any s) : FunctionOk s :=
  h.invariant .init fun _ _ _ hi _ hs => (hi.step hs).1

/-- A function task in any run: its function runs at most once, and only when the task has been
    started. -/
theorem function_runs_once [DecidableEq T] {s : TaskSystem α ε T}
    (h : (taskMachine .function α ε T).Reachable Machine.Any s) :
    s.calls ≤ 1 ∧ (0 < s.calls → s.task.state ≠ .created) := by
  have honce := (reachable_functionOk h).once
  have hle := s.calls_le_runs
  refine ⟨by omega, fun hpos hc => ?_⟩
  rw [hc] at honce
  simp only [unscheduled] at honce
  omega

namespace FunctionOk

variable [DecidableEq T] {s s' : TaskSystem α ε T}

/-- Only the critical section of `Start()` leaves state `Created`, and no step enters it. -/
theorem created_of_not_start (h : FunctionOk s) {a : TaskLabel α ε T}
    (hs : TaskSystem.step .function s a = some s')
    (hsec : ∀ t, a = .run t → ¬ StartSection s t) :
    s'.task.state = .created ↔ s.task.state = .created := by
  cases a with
  | run t =>
    have hcarrier := h.ne_created (t := t)
    cases runStep_cases hs with
    | startCanceled hpc => exact absurd (.inl hpc) (hsec t rfl)
    | startAgain hpc | schedule hpc => exact absurd (.inr hpc) (hsec t rfl)
    | bodyRunning hpc | bodyDone hpc | bodyCanceled hpc | bodyFaulted hpc =>
      rw [hpc] at hcarrier
      exact ⟨nofun, fun hc => absurd hc (hcarrier rfl)⟩
    | _ => exact Iff.rfl
  | call t r =>
    simp only [TaskSystem.step, TaskSystem.callStep] at hs
    split at hs <;> cases hs <;> exact Iff.rfl
  | set t c =>
    simp only [TaskSystem.step, TaskKind.calls, Bool.false_eq_true, and_false, if_false] at hs
    cases hs
  | cancel => cases hs; exact Iff.rfl
  | addContinuation t | wait t result | start t | body t | spuriousWake t =>
    simp only [TaskSystem.step] at hs
    split at hs
    · cases hs; exact Iff.rfl
    · cases hs

/-- Whoever holds the lock can go on. -/
theorem exists_run_of_locked (h : FunctionOk s) (hl : s.lockObject ≠ none) :
    ∃ t, s.runStep t ≠ none := by
  obtain ⟨t, ht⟩ := Option.ne_none_iff_exists'.mp hl
  exact ⟨t, runStep_of_holdsLock ((h.lock t).mp ht)⟩

end FunctionOk

end AsyncCpp.Tasks
