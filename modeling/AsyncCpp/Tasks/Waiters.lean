import AsyncCpp.Tasks.TaskInvariant

/-!
# Waiters

`Wait()` reads `_state` under `_lockObject` and parks on `_waitTaskCv`, which frees the
lock. The paths of the scheduled item that end `Canceled` or `Faulted` write the state
under the lock, so no waiter can be between its read and its parking when they write. The
successful path writes `RunToCompletion` without the lock (TaskHelpers.h:166): a waiter
that has read `Running` and holds the lock parks after `notify_all`, and nobody wakes it.

Results:
* `no_waiter_left_asleep`: in every run in which no waiter is between its read and its
  parking when `notify_all` is called, no waiter stays parked on a completed task; and the
  condition is sharp.
* `not_no_waiter_left_asleep`: the run without the condition.
-/

namespace AsyncCpp.Tasks

open Interleaving

variable {α ε T : Type*}

/-- `notify_all` is not called while a `Wait()` caller is between its read of `_state` and
    its parking. -/
def NotifyGuard (s : TaskSystem α ε T) (a : TaskLabel α ε T) : Prop :=
  ∀ t, a = .run t → s.pc t = .notify → ∀ u result, s.pc u ≠ .waitPark result

/-- The thread is in the scheduled item, or completes the task. -/
def Pc.completes : Pc → Bool
  | .bodyBegin | .bodyRunning | .bodyCall | .bodyDone | .bodyCanceled | .bodyFaulted | .notify
  | .runContinuations | .continuing _ => true
  | _ => false

/-- The task is completed, whoever completed it has finished `notify_all` and the
    continuations, and a `Wait()` caller is parked. -/
def LeftAsleep (s : TaskSystem α ε T) : Prop :=
  s.task.state.isCompleted ∧ (∀ u, (s.pc u).completes = false) ∧ ∃ t result, s.pc t = .parked result

/-- The thread has found the task not completed and is parked, or about to park. -/
def Pc.sleeps : Pc → Bool
  | .waitPark _ | .parked _ => true
  | _ => false

/-- While a waiter of a completed task sleeps, `notify_all` is still to come. -/
def WaitersOk (s : TaskSystem α ε T) : Prop :=
  s.task.state.isCompleted → (∃ u, (s.pc u).sleeps) → ∃ u, s.pc u = .notify

namespace WaitersOk

variable [DecidableEq T] {s s' : TaskSystem α ε T} {t : T} {p : Pc}

/-- A thread that does not call `notify_all` moves, and does not fall asleep. -/
theorem move (h : WaitersOk s) (hpc : s'.pc = Function.update s.pc t p)
    (hst : s'.task.state = s.task.state) (ht : s.pc t ≠ .notify)
    (hp : p.sleeps → (s.pc t).sleeps) : WaitersOk s' := by
  rintro hc ⟨u, hu⟩
  rw [hst] at hc
  have hsleep : (s.pc u).sleeps := by
    rw [hpc] at hu
    by_cases hut : u = t
    · subst hut
      rw [Function.update_self] at hu
      exact hp hu
    · rwa [Function.update_of_ne hut] at hu
  obtain ⟨v, hv⟩ := h hc ⟨u, hsleep⟩
  refine ⟨v, ?_⟩
  have hvt : v ≠ t := by
    rintro rfl
    exact ht hv
  rw [hpc, Function.update_of_ne hvt, hv]

/-- A thread completes the task. -/
theorem notify (hpc : s'.pc = Function.update s.pc t .notify) : WaitersOk s' :=
  fun _ _ => ⟨t, by rw [hpc, Function.update_self]⟩

omit [DecidableEq T] in
/-- The task is not completed. -/
theorem pending (hst : s'.task.state.isCompleted = false) : WaitersOk s' := by
  intro hc
  rw [hst] at hc
  cases hc

/-- `notify_all` wakes everybody who sleeps. -/
theorem wake (hg : ∀ u result, s.pc u ≠ .waitPark result)
    (hpc : s'.pc = Function.update (fun u => (s.pc u).wake) t .runContinuations) :
    WaitersOk s' := by
  rintro - ⟨u, hu⟩
  rw [hpc] at hu
  by_cases hut : u = t
  · subst hut
    rw [Function.update_self] at hu
    cases hu
  · rw [Function.update_of_ne hut] at hu
    cases hp : s.pc u <;> rw [hp] at hu
    case waitPark result => exact absurd hp (hg u result)
    all_goals cases hu

theorem run (h : WaitersOk s) (hg : NotifyGuard s (.run t)) (hs : s.runStep t = some s') :
    WaitersOk s' := by
  cases runStep_cases hs with
  | startCanceled | bodyCanceled | bodyFaulted | bodyDone => exact notify rfl
  | schedule | bodyRunning => exact pending rfl
  | notify hpc => exact wake (hg t rfl hpc) rfl
  | waitAgain hpc hc => exact pending (by simpa using hc)
  | waitPark hpc => exact h.move rfl rfl (by rw [hpc]; nofun) (by rw [hpc]; exact id)
  | addLate hpc | addEarly hpc | addEnqueue hpc | addRun hpc | startAgain hpc | startEnqueue hpc
  | bodyThrows hpc | bodyBegin hpc | bodyCall hpc | runContinuations hpc | continued hpc
  | continuing hpc | waitThrows hpc | waitResult hpc | waitReturns hpc | woken hpc
  | resultCall hpc => exact h.move rfl rfl (by rw [hpc]; nofun) nofun

theorem step (h : WaitersOk s) {a : TaskLabel α ε T} (hg : NotifyGuard s a)
    (hs : TaskSystem.step .function s a = some s') : WaitersOk s' := by
  cases a with
  | run t => exact h.run hg hs
  | cancel =>
    cases hs
    exact h
  | call t r =>
    simp only [TaskSystem.step, TaskSystem.callStep] at hs
    split at hs
    case h_1 v hpc _ | h_3 v hpc _ | h_4 e hpc _ =>
      cases hs
      exact h.move rfl rfl (by rw [hpc]; simp) (fun h => by cases h)
    case h_2 e hpc _ =>
      cases hs
      refine h.move rfl rfl (by rw [hpc]; simp) ?_
      split <;> intro h <;> cases h
    case h_5 => cases hs
  | set t c => simp [TaskSystem.step, TaskKind.calls] at hs
  | spuriousWake t =>
    simp only [TaskSystem.step] at hs
    split at hs
    case h_1 result hpc =>
      cases hs
      exact h.move rfl rfl (by rw [hpc]; simp) (fun h => by cases h)
    case h_2 => cases hs
  | start t =>
    simp only [TaskSystem.step] at hs
    split at hs
    case isTrue hen =>
      cases hs
      refine h.move rfl rfl (by rw [hen.2]; simp) ?_
      split <;> intro h <;> cases h
    case isFalse => cases hs
  | addContinuation t | wait t result | body t =>
    simp only [TaskSystem.step] at hs
    split at hs
    case isTrue hen =>
      cases hs
      exact h.move rfl rfl (by rw [hen.1]; simp) (fun h => by cases h)
    case isFalse => cases hs

end WaitersOk

theorem reachable_waitersOk [DecidableEq T] {s : TaskSystem α ε T}
    (h : (taskMachine .function α ε T).Reachable NotifyGuard s) : WaitersOk s :=
  h.invariant (WaitersOk.pending rfl) fun _ _ _ hi hg hs => hi.step hg hs

/-! ## Once the condition fails -/

section Asleep

variable [DecidableEq T]

/-- `runContinuations` invokes the continuations it has taken, and ends. -/
theorem reaches_continued (ks : List ℕ) {s : TaskSystem α ε T} {t : T}
    (ht : s.pc t = .continuing ks) :
    ∃ s', (taskMachine .function α ε T).Reaches Machine.Any s s' ∧ s'.task = s.task ∧
      s'.pc = Function.update s.pc t .idle := by
  induction ks generalizing s with
  | nil =>
    have hs : (taskMachine .function α ε T).step s (.run t) = some (s.goto t .idle) := by
      simp only [taskMachine, TaskSystem.step, TaskSystem.runStep, ht]
    exact ⟨_, .single trivial hs, rfl, rfl⟩
  | cons k ks ih =>
    have hs : (taskMachine .function α ε T).step s (.run t) =
        some (s.invoke t k (.continuing ks)) := by
      simp only [taskMachine, TaskSystem.step, TaskSystem.runStep, ht]
    obtain ⟨s', hr, htask, hpc⟩ := ih (s := s.invoke t k (.continuing ks)) (by simp)
    refine ⟨s', .head hs trivial hr, htask, ?_⟩
    rw [hpc]
    simp

/-- From `notify_all` on, while `u` is about to park: `u` misses the wake-up, parks, and
    the completing thread finishes. -/
theorem reaches_leftAsleep {s : TaskSystem α ε T} {t u : T} {result : Bool}
    (hc : s.task.state.isCompleted) (ht : s.pc t = .notify) (hu : s.pc u = .waitPark result)
    (hothers : ∀ v, v ≠ t → (s.pc v).completes = false) :
    ∃ s', (taskMachine .function α ε T).Reaches Machine.Any s s' ∧ LeftAsleep s' := by
  have hut : u ≠ t := by
    rintro rfl
    rw [ht] at hu
    cases hu
  have hs₁ : (taskMachine .function α ε T).step s (.run t) = some
      { s with pc := Function.update (fun v => (s.pc v).wake) t .runContinuations } := by
    simp only [taskMachine, TaskSystem.step, TaskSystem.runStep, ht]
  generalize hdef₁ : ({ s with pc := _ } : TaskSystem α ε T) = s₁ at hs₁
  have hpc₁ : s₁.pc = Function.update (fun v => (s.pc v).wake) t .runContinuations := by
    rw [← hdef₁]
  have hu₁ : s₁.pc u = .waitPark result := by
    rw [hpc₁, Function.update_of_ne hut, hu]
    rfl
  have hs₂ : (taskMachine .function α ε T).step s₁ (.run u) = some
      { s₁.goto u (.parked result) with lockObject := none } := by
    simp only [taskMachine, TaskSystem.step, TaskSystem.runStep, hu₁]
  generalize hdef₂ : ({ s₁.goto u _ with lockObject := _ } : TaskSystem α ε T) = s₂ at hs₂
  have hpc₂ : s₂.pc = Function.update s₁.pc u (.parked result) := by
    rw [← hdef₂]
    rfl
  have hlock₂ : s₂.lockObject = none := by rw [← hdef₂]
  have ht₂ : s₂.pc t = .runContinuations := by
    rw [hpc₂, Function.update_of_ne hut.symm, hpc₁, Function.update_self]
  have hs₃ : (taskMachine .function α ε T).step s₂ (.run t) = some
      { s₂.goto t (.continuing s₂.task.continuations) with
        task := { s₂.task with continuations := [] } } := by
    simp only [taskMachine, TaskSystem.step, TaskSystem.runStep, ht₂, hlock₂, Option.isNone_none,
      if_true]
  generalize hdef₃ : ({ s₂.goto t _ with task := _ } : TaskSystem α ε T) = s₃ at hs₃
  have hpc₃ : s₃.pc = Function.update s₂.pc t (.continuing s₂.task.continuations) := by
    rw [← hdef₃]
    rfl
  obtain ⟨s', hr, htask, hpc⟩ := reaches_continued s₂.task.continuations (s := s₃) (t := t)
    (by rw [hpc₃, Function.update_self])
  have hpc' : s'.pc = Function.update (Function.update (fun v => (s.pc v).wake) t .idle) u
      (.parked result) := by
    rw [hpc, hpc₃, Function.update_idem, hpc₂, hpc₁, Function.update_comm hut,
      Function.update_idem]
  refine ⟨s', .head hs₁ trivial (.head hs₂ trivial (.head hs₃ trivial hr)), ?_, fun v => ?_,
    u, result, ?_⟩
  · rw [htask, ← hdef₃, ← hdef₂, ← hdef₁]
    exact hc
  · rw [hpc']
    by_cases hvu : v = u
    · rw [hvu, Function.update_self]
      rfl
    · rw [Function.update_of_ne hvu]
      by_cases hvt : v = t
      · rw [hvt, Function.update_self]
        rfl
      · rw [Function.update_of_ne hvt]
        have hv := hothers v hvt
        cases hp : s.pc v <;> rw [hp] at hv <;> first | rfl | cases hv
  · rw [hpc', Function.update_self]

end Asleep

/-- No waiter is left asleep in the runs in which `notify_all` is never called while a
    `Wait()` caller is between its read of `_state` and its parking; and where it is called
    then, a waiter can be left asleep. -/
theorem no_waiter_left_asleep [DecidableEq T] (s : TaskSystem α ε T) :
    ((taskMachine .function α ε T).Reachable NotifyGuard s →
      (s.task.state.isCompleted → (∃ u result, s.pc u = .parked result) →
        ∃ t, s.pc t = .notify) ∧ ¬ LeftAsleep s) ∧
    (∀ t u result, s.task.state.isCompleted → s.pc t = .notify → s.pc u = .waitPark result →
      (∀ v, v ≠ t → (s.pc v).completes = false) →
        ∃ s', (taskMachine .function α ε T).Reaches Machine.Any s s' ∧ LeftAsleep s') := by
  refine ⟨fun h => ?_, fun t u result => reaches_leftAsleep⟩
  have hok := reachable_waitersOk h
  have hparked : s.task.state.isCompleted → (∃ u result, s.pc u = .parked result) →
      ∃ t, s.pc t = .notify := by
    rintro hc ⟨u, result, hu⟩
    exact hok hc ⟨u, by rw [hu]; rfl⟩
  refine ⟨hparked, ?_⟩
  rintro ⟨hc, hquiet, hasleep⟩
  obtain ⟨t, ht⟩ := hparked hc hasleep
  have hbusy := hquiet t
  rw [ht] at hbusy
  cases hbusy

/-- The labels of a run of a function task: thread `false` starts it and runs its item up to
    the point where the user's function is called. -/
def startedRun : List (TaskLabel ℕ Empty Bool) :=
  [.start false, .run false, .run false, .body false, .run false, .run false]

/-- `NotifyGuard` for two threads, computed. -/
def notifyGuard (s : TaskSystem ℕ Empty Bool) : TaskLabel ℕ Empty Bool → Bool
  | .run t => s.pc t = .notify → ∀ u result : Bool, s.pc u ≠ .waitPark result
  | _ => true

theorem notifyGuard_of_eq_true {s : TaskSystem ℕ Empty Bool} {a : TaskLabel ℕ Empty Bool}
    (h : notifyGuard s a = true) : NotifyGuard s a := by
  rintro t rfl
  exact of_decide_eq_true h

/-- The waiter parks before the item ends: it is woken, and gets the result. -/
theorem no_waiter_left_asleep_woken :
    ∃ s : TaskSystem ℕ Empty Bool,
      (taskMachine .function ℕ Empty Bool).Reachable NotifyGuard s ∧ ¬ LeftAsleep s ∧
        s.waitLog = [.ok (some 5)] := by
  have hrun : (taskMachine .function ℕ Empty Bool).runWhile notifyGuard {} (startedRun ++
    [.wait true true, .run true, .run true, .call false (.ok 5), .run false, .run false, .run false,
      .run false, .run true, .run true, .run true]) = some _ := rfl
  have hr : (taskMachine .function ℕ Empty Bool).Reachable NotifyGuard _ :=
    .of_runWhile (fun _ _ => notifyGuard_of_eq_true) _ hrun
  exact ⟨_, hr, ((no_waiter_left_asleep _).1 hr).2, rfl⟩

/-- The waiter has read `Running` and holds the lock when the item writes `RunToCompletion`
    without it. It parks after `notify_all`, and sleeps on when everything has finished. -/
theorem not_no_waiter_left_asleep :
    ∃ s : TaskSystem ℕ Empty Bool,
      (taskMachine .function ℕ Empty Bool).Reachable Machine.Any s ∧ LeftAsleep s := by
  have hr : (taskMachine .function ℕ Empty Bool).run {} (startedRun ++
    [.wait true false, .run true, .call false (.ok 5), .run false, .run false, .run true,
      .run false, .run false]) = some _ := rfl
  exact ⟨_, .of_run hr, rfl, fun u => by cases u <;> rfl, true, false, rfl⟩

end AsyncCpp.Tasks
