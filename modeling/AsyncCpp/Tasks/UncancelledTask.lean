import AsyncCpp.Tasks.ContinuationTasks

/-!
# Function tasks that nobody cancels

The scheduled item of a function task writes a final state after the user's function has ended,
or after it saw the token cancelled (Detail/Tasks/TaskHelpers.h:149-190). Without a cancellation
the task is completed only after its function.

Results:
* `Uncancelled.step`: this is an invariant of the steps other than `cancel`.
* `Uncancelled.wait_step`: a thread in `Wait()` stays in it until the function has ended.
* `idle_step`: a thread that is in no call stays outside until it makes one.
-/

namespace AsyncCpp.Tasks

variable {α ε T : Type*}

/-- The scheduled item is before its write of a final state. -/
def Pc.concludes : Pc → Bool
  | .bodyDone | .bodyCanceled | .bodyFaulted => true
  | _ => false

/-- The thread is inside `Wait()`. -/
def Pc.waits : Pc → Bool
  | .waitRead false | .waitPark false | .parked false | .woken false => true
  | _ => false

theorem Pc.wake_concludes (p : Pc) : p.wake.concludes = p.concludes := by
  cases p <;> rfl

theorem Pc.waits_wake {p : Pc} (h : p.waits) : p.wake.waits := by
  cases p with
  | parked result => cases result <;> first | rfl | cases h
  | _ => exact h

/-- The thread that makes a call. -/
def TaskLabel.begins : TaskLabel α ε T → Option T
  | .addContinuation t | .start t | .body t | .set t _ | .wait t _ => some t
  | .cancel | .spuriousWake _ | .call _ _ | .run _ => none

/-- A thread that is in no call stays outside until it makes one. -/
theorem idle_step [DecidableEq T] {kind : TaskKind} {s s' : TaskSystem α ε T} {t : T}
    {a : TaskLabel α ε T} (hs : TaskSystem.step kind s a = some s') (hidle : s.pc t = .idle)
    (ha : a.begins ≠ some t) : s'.pc t = .idle := by
  by_cases hthread : a.thread = some t
  · cases a with
    | run u =>
      cases hthread
      simp [TaskSystem.step, TaskSystem.runStep, hidle] at hs
    | spuriousWake u =>
      cases hthread
      simp [TaskSystem.step, hidle] at hs
    | call u r =>
      cases hthread
      simp [TaskSystem.step, TaskSystem.callStep, hidle] at hs
    | cancel => cases hthread
    | addContinuation | start | body | set | wait => exact absurd hthread ha
  · rcases (step_frame hs).2.1 t hthread with hpc | hpc <;> rw [hpc, hidle]
    rfl

/-- The calls of the function that have ended stay ended. -/
theorem funcLog_step [DecidableEq T] {kind : TaskKind} {s s' : TaskSystem α ε T}
    {a : TaskLabel α ε T}
    (hs : TaskSystem.step kind s a = some s') : s.funcLog <+: s'.funcLog := by
  cases a with
  | run t => cases runStep_cases hs <;> exact List.prefix_rfl
  | call t r =>
    simp only [TaskSystem.step, TaskSystem.callStep] at hs
    split at hs <;> cases hs <;> exact List.prefix_append _ _
  | set t c =>
    simp only [TaskSystem.step] at hs
    split at hs
    · split at hs <;> cases hs <;> exact List.prefix_rfl
    · cases hs
  | cancel => cases hs; exact List.prefix_rfl
  | addContinuation t | wait t result | start t | body t | spuriousWake t =>
    simp only [TaskSystem.step] at hs
    split at hs
    · cases hs; exact List.prefix_rfl
    · cases hs

/-- The token is not cancelled, and nobody saw it cancelled. While the function has not ended,
    the task is not completed, and nobody is about to complete it. -/
structure Uncancelled (s : TaskSystem α ε T) : Prop where
  token : s.isCanceled = false
  start : ∀ t, s.pc t ≠ .startCanceled
  pending : s.funcLog = [] → s.task.state.isCompleted = false ∧ s.task.func = none ∧
    ∀ t, (s.pc t).concludes = false

namespace Uncancelled

variable {s s' : TaskSystem α ε T} {t : T} {p : Pc}

theorem init : Uncancelled ({} : TaskSystem α ε T) :=
  ⟨rfl, nofun, fun _ => ⟨rfl, rfl, fun _ => rfl⟩⟩

theorem wake (h : Uncancelled s) : Uncancelled { s with pc := fun u => (s.pc u).wake } where
  token := h.token
  start t ht := h.start t (Pc.wake_eq_startCanceled.mp ht)
  pending hlog := by
    obtain ⟨hst, hf, hconc⟩ := h.pending hlog
    exact ⟨hst, hf, fun t => (Pc.wake_concludes _).trans (hconc t)⟩

variable [DecidableEq T]

/-- A thread moves. -/
theorem move (h : Uncancelled s) (hpc : s'.pc = Function.update s.pc t p)
    (htoken : s'.isCanceled = s.isCanceled) (hp : p ≠ .startCanceled)
    (hpending : s'.funcLog = [] → s.funcLog = [] ∧ s'.task.state.isCompleted = false ∧
      s'.task.func = none ∧ p.concludes = false) : Uncancelled s' := by
  refine ⟨htoken.trans h.token, fun u => ?_, fun hlog => ?_⟩
  · rw [hpc]
    by_cases hu : u = t
    · subst hu
      rwa [Function.update_self]
    · rw [Function.update_of_ne hu]
      exact h.start u
  · obtain ⟨hlog', hst, hf, hconc⟩ := hpending hlog
    refine ⟨hst, hf, fun u => ?_⟩
    rw [hpc]
    by_cases hu : u = t
    · subst hu
      rwa [Function.update_self]
    · rw [Function.update_of_ne hu]
      exact (h.pending hlog').2.2 u

/-- A thread moves to a place from which it does not conclude, and the task keeps its function's
    value and whether it is completed. -/
theorem quiet (h : Uncancelled s) (hpc : s'.pc = Function.update s.pc t p)
    (hp : p ≠ .startCanceled) (hconc : p.concludes = false)
    (hstate : s.task.state.isCompleted = false → s'.task.state.isCompleted = false)
    (h1 : s'.task.func = s.task.func := by rfl) (h2 : s'.funcLog = s.funcLog := by rfl)
    (h3 : s'.isCanceled = s.isCanceled := by rfl) : Uncancelled s' := by
  refine h.move hpc h3 hp fun hlog => ?_
  rw [h2] at hlog
  obtain ⟨hst, hf, -⟩ := h.pending hlog
  exact ⟨hlog, hstate hst, h1.trans hf, hconc⟩

theorem run_step (h : Uncancelled s) (hs : s.runStep t = some s') : Uncancelled s' := by
  -- who concludes does so after the function
  have hlog : (s.pc t).concludes → s.funcLog ≠ [] := by
    intro hconc hnil
    rw [(h.pending hnil).2.2 t] at hconc
    cases hconc
  cases runStep_cases hs with
  | startCanceled hpc => exact absurd hpc (h.start t)
  | bodyThrows hpc =>
    simp only [TaskSystem.runStep, hpc, h.token, Bool.false_eq_true, if_false] at hs
    exact absurd (congrArg (fun c => c.pc t) (Option.some.inj hs)) (by simp)
  | bodyCall hpc hf =>
    refine h.move rfl rfl (by simp) fun hnil => ?_
    rw [(h.pending hnil).2.1] at hf
    cases hf
  | bodyDone hpc | bodyCanceled hpc | bodyFaulted hpc =>
    exact h.move rfl rfl (by simp) fun hnil => absurd hnil (hlog (by rw [hpc]; rfl))
  | notify hpc => exact h.wake.quiet rfl (by simp) rfl id
  | schedule hpc | bodyRunning hpc => exact h.quiet rfl (by simp) rfl fun _ => rfl
  | _ => exact h.quiet rfl (by simp) rfl id

/-- A step other than a cancellation. -/
theorem step (h : Uncancelled s) {a : TaskLabel α ε T} (ha : a ≠ .cancel)
    (hs : TaskSystem.step .function s a = some s') : Uncancelled s' := by
  cases a with
  | run t => exact h.run_step hs
  | cancel => exact absurd rfl ha
  | call t r =>
    simp only [TaskSystem.step, TaskSystem.callStep] at hs
    split at hs
    · cases hs
      exact h.move rfl rfl (by simp) fun hnil => by simp at hnil
    · cases hs
      refine h.move rfl rfl ?_ fun hnil => by simp at hnil
      split <;> simp
    · cases hs
      exact h.move rfl rfl (by simp) fun hnil => by simp at hnil
    · cases hs
      exact h.move rfl rfl (by simp) fun hnil => by simp at hnil
    · cases hs
  | set t c =>
    simp only [TaskSystem.step, TaskKind.calls, Bool.false_eq_true, and_false, if_false] at hs
    cases hs
  | start t =>
    simp only [TaskSystem.step, h.token] at hs
    split at hs <;> cases hs
    exact h.quiet rfl (by simp) rfl id
  | addContinuation t | wait t result | body t | spuriousWake t =>
    simp only [TaskSystem.step] at hs
    split at hs <;> cases hs
    exact h.quiet rfl (by simp) rfl id

/-- A thread in `Wait()` stays in it, or leaves it when the function has ended. -/
theorem wait_step (h : Uncancelled s) {a : TaskLabel α ε T}
    (hs : TaskSystem.step .function s a = some s') (hw : (s.pc t).waits) :
    (s'.pc t).waits ∨ s'.pc t = .idle ∧ s'.funcLog ≠ [] := by
  have hcompleted : s.task.state.isCompleted → s.funcLog ≠ [] := by
    intro hc hnil
    rw [(h.pending hnil).1] at hc
    cases hc
  by_cases hthread : a.thread = some t
  · cases a with
    | run u =>
      cases hthread
      cases runStep_cases hs with
      | waitThrows hpc hc | waitReturns hpc hc =>
        exact .inr ⟨Function.update_self .., hcompleted hc⟩
      | waitAgain hpc | waitPark hpc | woken hpc =>
        rw [hpc] at hw
        simp only [TaskSystem.goto, Function.update_self]
        revert hw
        cases ‹Bool› <;> simp [Pc.waits]
      | _ hpc =>
        rw [hpc] at hw
        cases hw
    | spuriousWake u =>
      cases hthread
      simp only [TaskSystem.step] at hs
      split at hs <;> cases hs
      rename_i result hpc
      rw [hpc] at hw
      simp only [TaskSystem.goto, Function.update_self]
      revert hw
      cases result <;> simp [Pc.waits]
    | call u r =>
      cases hthread
      simp only [TaskSystem.step, TaskSystem.callStep] at hs
      split at hs <;> cases hs <;> rename_i hpc _ <;> rw [hpc] at hw <;> cases hw
    | set u c =>
      simp only [TaskSystem.step, TaskKind.calls, Bool.false_eq_true, and_false, if_false] at hs
      cases hs
    | cancel => cases hthread
    | addContinuation u | wait u result | start u | body u =>
      cases hthread
      simp only [TaskSystem.step] at hs
      split at hs
      · rename_i hen
        have hidle : s.pc t = .idle := by first | exact hen.1 | exact hen.2
        rw [hidle] at hw
        cases hw
      · cases hs
  · rcases (step_frame hs).2.1 t hthread with hpc | hpc <;> rw [hpc]
    · exact .inl hw
    · exact .inl (Pc.waits_wake hw)

end Uncancelled

end AsyncCpp.Tasks
