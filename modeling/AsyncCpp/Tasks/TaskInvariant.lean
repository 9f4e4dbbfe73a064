import AsyncCpp.Tasks.TaskSharedState

/-!
# The invariant of a task's shared state

`RunTaskFunc` has two exits. The one that schedules the body checks under the lock
that the task is in state `Created`; the one taken when the token was seen cancelled
writes `Canceled` without looking at the state (TaskHelpers.h:121-131). `StartGuard`
is the condition that this write finds the task in state `Created`.

Under the guard, at most one thread at a time is responsible for the unfinished run of
a function task (`Pc.carries`), what a thread is about to do fits the state
(`PcOk`), and the stored result and exception fit it too (`DataOk`).

Results:
* `reachable_inv`: the invariant holds in every state reached under the guard.
* `Inv.frozen`: once the task is completed, a step changes neither the state nor the
  stored result and exception.
-/

namespace AsyncCpp.Tasks

open Interleaving

variable {α ε T : Type*} {kind : TaskKind}

/-! ## The branches of `runStep` -/

section Branches

variable [DecidableEq T]

/-- What thread `t` does when it goes on. -/
inductive RunStep (s : TaskSystem α ε T) (t : T) : TaskSystem α ε T → Prop
  | addLate {k : ℕ} (hpc : s.pc t = .addLocked k) (hc : s.task.state.isCompleted) :
    RunStep s t { s.goto t (.addRun k) with lockObject := none }
  | addEarly {k : ℕ} (hpc : s.pc t = .addLocked k) (hc : ¬ s.task.state.isCompleted) :
    RunStep s t (s.goto t (.addEnqueue k))
  | addEnqueue {k : ℕ} (hpc : s.pc t = .addEnqueue k) :
    RunStep s t { s.goto t .idle with
      lockObject := none, task := { s.task with continuations := s.task.continuations ++ [k] } }
  | addRun {k : ℕ} (hpc : s.pc t = .addRun k) : RunStep s t (s.invoke t k .idle)
  | startCanceled (hpc : s.pc t = .startCanceled) (hfree : s.lockObject = none) :
    RunStep s t { s.setState t .canceled .notify with startLog := s.startLog ++ [.ok ()] }
  | startAgain (hpc : s.pc t = .startLock) (hfree : s.lockObject = none)
    (hst : s.task.state ≠ .created) :
    RunStep s t { s.goto t .idle with startLog := s.startLog ++ [.error taskStarted] }
  | schedule (hpc : s.pc t = .startLock) (hfree : s.lockObject = none)
    (hst : s.task.state = .created) :
    RunStep s t { s.setState t .scheduled .startEnqueue with startLog := s.startLog ++ [.ok ()] }
  | startEnqueue (hpc : s.pc t = .startEnqueue) :
    RunStep s t { s.goto t .idle with queued := s.queued + 1 }
  | bodyThrows (hpc : s.pc t = .bodyBegin) :
    RunStep s t { s.goto t .bodyCanceled with
      task := { s.task with exceptionPtr := some .operationCanceled } }
  | bodyBegin (hpc : s.pc t = .bodyBegin) : RunStep s t (s.goto t .bodyRunning)
  | bodyRunning (hpc : s.pc t = .bodyRunning) (hfree : s.lockObject = none) :
    RunStep s t (s.setState t .running .bodyCall)
  | bodyCall (hpc : s.pc t = .bodyCall) (hf : s.task.func.isSome) :
    RunStep s t (s.goto t .bodyDone)
  | bodyDone (hpc : s.pc t = .bodyDone) : RunStep s t (s.setState t .runToCompletion .notify)
  | bodyCanceled (hpc : s.pc t = .bodyCanceled) (hfree : s.lockObject = none) :
    RunStep s t (s.setState t .canceled .notify)
  | bodyFaulted (hpc : s.pc t = .bodyFaulted) (hfree : s.lockObject = none) :
    RunStep s t (s.setState t .faulted .notify)
  | notify (hpc : s.pc t = .notify) :
    RunStep s t { s with pc := Function.update (fun u => (s.pc u).wake) t .runContinuations }
  | runContinuations (hpc : s.pc t = .runContinuations) (hfree : s.lockObject = none) :
    RunStep s t { s.goto t (.continuing s.task.continuations) with
      task := { s.task with continuations := [] } }
  | continued (hpc : s.pc t = .continuing []) : RunStep s t (s.goto t .idle)
  | continuing {k : ℕ} {ks : List ℕ} (hpc : s.pc t = .continuing (k :: ks)) :
    RunStep s t (s.invoke t k (.continuing ks))
  | waitThrows {result : Bool} {e : Option (Exn ε)} (hpc : s.pc t = .waitRead result)
    (hc : s.task.state.isCompleted) (hw : s.task.waitOutcome = .error e) :
    RunStep s t { s.yield t (.error e) with lockObject := none }
  | waitResult (hpc : s.pc t = .waitRead true) (hc : s.task.state.isCompleted)
    (hw : s.task.waitOutcome = .ok ()) :
    RunStep s t { s.goto t .resultCall with lockObject := none }
  | waitReturns (hpc : s.pc t = .waitRead false) (hc : s.task.state.isCompleted)
    (hw : s.task.waitOutcome = .ok ()) :
    RunStep s t { s.yield t (.ok none) with lockObject := none }
  | waitAgain {result : Bool} (hpc : s.pc t = .waitRead result)
    (hc : ¬ s.task.state.isCompleted) : RunStep s t (s.goto t (.waitPark result))
  | waitPark {result : Bool} (hpc : s.pc t = .waitPark result) :
    RunStep s t { s.goto t (.parked result) with lockObject := none }
  | woken {result : Bool} (hpc : s.pc t = .woken result) (hfree : s.lockObject = none) :
    RunStep s t { s.goto t (.waitRead result) with lockObject := some t }
  | resultCall {v : α} (hpc : s.pc t = .resultCall) (hf : s.task.func = some v) :
    RunStep s t (s.yield t (.ok (some v)))

theorem runStep_cases {s s' : TaskSystem α ε T} {t : T} (hs : s.runStep t = some s') :
    RunStep s t s' := by
  cases hpc : s.pc t <;>
    simp only [TaskSystem.runStep, hpc, Option.isNone_iff_eq_none] at hs
  case addLocked k =>
    split_ifs at hs with hc <;> cases hs
    · exact .addLate hpc hc
    · exact .addEarly hpc hc
  case addEnqueue k => cases hs; exact .addEnqueue hpc
  case addRun k => cases hs; exact .addRun hpc
  case startCanceled => split_ifs at hs with hfree; cases hs; exact .startCanceled hpc hfree
  case startLock =>
    split_ifs at hs with hfree hst <;> cases hs
    · exact .startAgain hpc hfree hst
    · exact .schedule hpc hfree (not_not.mp hst)
  case startEnqueue => cases hs; exact .startEnqueue hpc
  case bodyBegin =>
    split_ifs at hs <;> cases hs
    · exact .bodyThrows hpc
    · exact .bodyBegin hpc
  case bodyRunning => split_ifs at hs with hfree; cases hs; exact .bodyRunning hpc hfree
  case bodyCall => split_ifs at hs with hf; cases hs; exact .bodyCall hpc hf
  case bodyDone => cases hs; exact .bodyDone hpc
  case bodyCanceled => split_ifs at hs with hfree; cases hs; exact .bodyCanceled hpc hfree
  case bodyFaulted => split_ifs at hs with hfree; cases hs; exact .bodyFaulted hpc hfree
  case notify => cases hs; exact .notify hpc
  case runContinuations =>
    split_ifs at hs with hfree
    cases hs
    exact .runContinuations hpc hfree
  case continuing ks =>
    cases ks with
    | nil => cases hs; exact .continued hpc
    | cons k ks => cases hs; exact .continuing hpc
  case waitRead result =>
    split at hs
    case isTrue hc =>
      split at hs
      case h_1 e hw => cases hs; exact .waitThrows hpc hc hw
      case h_2 hw =>
        cases result <;> cases hs
        · exact .waitReturns hpc hc hw
        · exact .waitResult hpc hc hw
    case isFalse hc => cases hs; exact .waitAgain hpc hc
  case waitPark result => cases hs; exact .waitPark hpc
  case woken result => split_ifs at hs with hfree; cases hs; exact .woken hpc hfree
  case resultCall =>
    split at hs <;> cases hs
    case h_1 v hf => exact .resultCall hpc hf
  case idle | parked => cases hs

end Branches

variable [Fintype T]

/-- The write of `Canceled` in `RunTaskFunc` finds the task in state `Created`. -/
def StartGuard (s : TaskSystem α ε T) (a : TaskLabel α ε T) : Prop :=
  ∀ t, a = .run t → s.pc t = .startCanceled → s.task.state = .created

/-- A thread at this place is responsible for the unfinished run of the task. -/
def Pc.carries : Pc → ℕ
  | .startEnqueue | .bodyBegin | .bodyRunning | .bodyCall | .bodyDone | .bodyCanceled
  | .bodyFaulted => 1
  | _ => 0

@[simp] theorem Pc.carries_wake (p : Pc) : p.wake.carries = p.carries := by
  cases p <;> rfl

/-- What the place of a thread says about the shared state. -/
def PcOk (s : TaskSharedState α ε) : Pc → Prop
  | .startEnqueue | .bodyBegin | .bodyRunning => s.state = .scheduled
  | .bodyCall => s.state = .running
  | .bodyDone => s.state = .running ∧ s.func.isSome
  | .bodyFaulted => s.state = .running
  | .bodyCanceled => s.state = .scheduled ∨ s.state = .running
  | .addRun _ | .notify | .runContinuations | .continuing _ => s.state.isCompleted
  | .resultCall => s.state = .runToCompletion
  | _ => True

/-- A state that stands for success, `_state` or `_preparedNextState`, has a stored
    result; a prepared state is a final one. -/
structure Stored (s : TaskSharedState α ε) : Prop where
  state : s.state = .runToCompletion → s.func.isSome
  prepared : s.preparedNextState = .runToCompletion → s.func.isSome
  final : s.preparedNextState = .created ∨ s.preparedNextState.isCompleted

/-- The number of unfinished runs of the function. -/
def unfinished : TaskState → ℕ
  | .scheduled | .running => 1
  | _ => 0

structure Inv (s : TaskSystem α ε T) : Prop where
  carried : s.queued + tally Pc.carries s.pc = unfinished s.task.state
  queued : 0 < s.queued → s.task.state = .scheduled
  pc : ∀ t, PcOk s.task (s.pc t)
  stored : Stored s.task

/-! ## Who can write the state -/

/-- A thread that carries no run says nothing about a task that is not completed, so
    its place fits every shared state. -/
theorem PcOk.of_not_completed {s s' : TaskSharedState α ε} {p : Pc} (h : PcOk s p)
    (hs : s.state.isCompleted = false) (hp : p.carries = 0) : PcOk s' p := by
  cases p <;> simp_all [PcOk, Pc.carries, TaskState.isCompleted]

/-- Places depend on the state and the stored result only. -/
theorem PcOk.congr {s s' : TaskSharedState α ε} {p : Pc} (h : PcOk s p)
    (h1 : s'.state = s.state) (h2 : s'.func = s.func) : PcOk s' p := by
  cases p <;> simp_all [PcOk]

theorem PcOk.wake {s : TaskSharedState α ε} {p : Pc} (h : PcOk s p) : PcOk s p.wake := by
  cases p <;> simp_all [PcOk, Pc.wake]

/-- A setter that writes found the task in state `Created`. It completes the task, or
    prepares the state `publishResult` will write. -/
theorem SetCall.apply_eq_ok_some {s s' : TaskSharedState α ε} {c : SetCall α ε} {completed : Bool}
    (h : c.apply s = .ok (some (s', completed))) (hs : Stored s) (hc : kind.calls s c) :
    s.state = .created ∧ s'.continuations = s.continuations ∧ Stored s' ∧
      s'.state.isCompleted = completed ∧ (completed = false → s'.state = .created) := by
  obtain ⟨h1, h2, h3⟩ := hs
  rcases c with ⟨_ | e, b⟩ | ⟨_ | e⟩ | b | _ | ⟨v, b⟩ | v | _ <;> simp only [apply] at h
  case setException.none | trySetException.none => cases h
  case setException.some | setCanceled | setResult =>
    split at h
    · cases h
    · rename_i hst
      have hst := not_not.mp hst
      split at h <;> cases h <;>
        refine ⟨hst, rfl, ⟨?_, ?_, ?_⟩, ?_, ?_⟩ <;> simp_all [TaskState.isCompleted]
  case trySetException.some | trySetCanceled | trySetResult =>
    split at h
    · cases h
    · rename_i hst
      have hst := not_not.mp hst
      cases h
      refine ⟨hst, rfl, ⟨?_, ?_, ?_⟩, ?_, ?_⟩ <;> simp_all [TaskState.isCompleted]
  case publishResult =>
    split at h
    · cases h
    · rename_i hst
      have hst := not_not.mp hst
      cases h
      refine ⟨hst, rfl, ⟨h2, h2, h3⟩, ?_, by simp⟩
      have hp : s.preparedNextState ≠ .created := by
        intro hp
        cases kind <;> simp [TaskKind.calls, hp] at hc
      exact h3.resolve_left hp

namespace Inv

variable {s : TaskSystem α ε T}

theorem no_carrier (h : Inv s) (hp : unfinished s.task.state = 0) :
    s.queued = 0 ∧ ∀ u, (s.pc u).carries = 0 := by
  have := h.carried
  refine ⟨by omega, fun u => eq_zero_of_tally ?_ u⟩
  omega

variable [DecidableEq T]

/-- A carrier is the only one, and the run is unfinished. -/
theorem only_carrier (h : Inv s) {t : T} (ht : (s.pc t).carries = 1) :
    s.queued = 0 ∧ unfinished s.task.state = 1 ∧ ∀ u, u ≠ t → (s.pc u).carries = 0 := by
  have h1 := h.carried
  have h2 := le_tally Pc.carries s.pc t
  have h3 : unfinished s.task.state ≤ 1 := by
    unfold unfinished
    split <;> omega
  refine ⟨by omega, by omega, fun u hu => ?_⟩
  have := add_le_tally Pc.carries s.pc hu
  omega

/-- A thread moves and the shared state keeps its state and result. -/
theorem goto_step (h : Inv s) {s' : TaskSystem α ε T} {t : T} {p : Pc}
    (hpc : s'.pc = Function.update s.pc t p) (hp : PcOk s.task p)
    (hc : s'.queued + p.carries = s.queued + (s.pc t).carries)
    (hq : 0 < s'.queued → s.task.state = .scheduled)
    (h1 : s'.task.state = s.task.state := by rfl) (h2 : s'.task.func = s.task.func := by rfl)
    (h3 : s'.task.preparedNextState = s.task.preparedNextState := by rfl) : Inv s' where
  carried := by
    have := tally_update Pc.carries s.pc t p
    have := h.carried
    rw [hpc, h1]
    omega
  queued := by rw [h1]; exact hq
  pc := fun u => by
    rw [hpc]
    by_cases hu : u = t
    · subst hu
      rw [Function.update_self]
      exact hp.congr h1 h2
    · rw [Function.update_of_ne hu]
      exact (h.pc u).congr h1 h2
  stored := ⟨by rw [h1, h2]; exact h.stored.state, by rw [h2, h3]; exact h.stored.prepared,
    by rw [h3]; exact h.stored.final⟩

/-- A thread moves and writes the shared state of a task that was not completed while
    nobody else carried its run. -/
theorem write_step (h : Inv s) {s' : TaskSystem α ε T} {t : T} {p : Pc}
    (hpc : s'.pc = Function.update s.pc t p) (hs : s.task.state.isCompleted = false)
    (hothers : ∀ u, u ≠ t → (s.pc u).carries = 0) (hq : s'.queued = 0)
    (hc : p.carries = unfinished s'.task.state) (hp : PcOk s'.task p) (hd : Stored s'.task) :
    Inv s' where
  carried := by
    have h1 := tally_update Pc.carries s.pc t p
    have h3 : tally Pc.carries s.pc = (s.pc t).carries :=
      Finset.sum_eq_single t (fun u _ hu => hothers u hu) (by simp)
    rw [hpc]
    omega
  queued := by omega
  pc := fun u => by
    rw [hpc]
    by_cases hu : u = t
    · subst hu
      rwa [Function.update_self]
    · rw [Function.update_of_ne hu]
      exact (h.pc u).of_not_completed hs (hothers u hu)
  stored := hd

/-! ## One lemma for each part of the step function -/

/-- The carrier of an unfinished run writes the state it was heading for. -/
theorem carrier_write (h : Inv s) {s' : TaskSystem α ε T} {t : T} {st : TaskState} {p : Pc}
    (ht : (s.pc t).carries = 1) (hs : s' = s.setState t st p) (hc : p.carries = unfinished st)
    (hp : PcOk { s.task with state := st } p) (hd : st = .runToCompletion → s.task.func.isSome) :
    Inv s' := by
  obtain ⟨hq, hu, hn⟩ := h.only_carrier ht
  have hs0 : s.task.state.isCompleted = false := by
    cases hst : s.task.state <;> simp_all [unfinished, TaskState.isCompleted]
  subst hs
  exact h.write_step rfl hs0 hn hq hc hp ⟨hd, h.stored.prepared, h.stored.final⟩

theorem run_step (h : Inv s) {s' : TaskSystem α ε T} {t : T}
    (hg : s.pc t = .startCanceled → s.task.state = .created)
    (hs : s.runStep t = some s') : Inv s' := by
  have ht := h.pc t
  cases runStep_cases hs with
  | addLate hpc hc => exact h.goto_step rfl hc (by simp [hpc, Pc.carries]) h.queued
  | addEarly hpc | addEnqueue hpc | addRun hpc | startAgain hpc | continued hpc
  | waitThrows hpc | waitReturns hpc | waitAgain hpc | waitPark hpc | woken hpc
  | resultCall hpc =>
    exact h.goto_step rfl trivial (by simp [hpc, Pc.carries]) h.queued
  | startCanceled hpc =>
    have hc := hg hpc
    obtain ⟨hq, hn⟩ := h.no_carrier (by rw [hc]; rfl)
    exact h.write_step rfl (by rw [hc]; rfl) (fun u _ => hn u) hq rfl rfl
      ⟨by simp, h.stored.prepared, h.stored.final⟩
  | schedule hpc hfree hc =>
    obtain ⟨hq, hn⟩ := h.no_carrier (by rw [hc]; rfl)
    exact h.write_step rfl (by rw [hc]; rfl) (fun u _ => hn u) hq rfl rfl
      ⟨by simp, h.stored.prepared, h.stored.final⟩
  | startEnqueue hpc =>
    rw [hpc] at ht
    exact h.goto_step rfl trivial (by simp [hpc, Pc.carries]) fun _ => ht
  | bodyThrows hpc =>
    rw [hpc] at ht
    exact h.goto_step rfl (Or.inl ht) (by simp [hpc, Pc.carries]) h.queued
  | bodyBegin hpc | runContinuations hpc | continuing hpc =>
    rw [hpc] at ht
    exact h.goto_step rfl ht (by simp [hpc, Pc.carries]) h.queued
  | bodyCall hpc hf =>
    rw [hpc] at ht
    exact h.goto_step rfl ⟨ht, hf⟩ (by simp [hpc, Pc.carries]) h.queued
  | bodyRunning hpc | bodyCanceled hpc | bodyFaulted hpc =>
    exact h.carrier_write (by rw [hpc]; rfl) rfl rfl rfl (by simp)
  | bodyDone hpc =>
    rw [hpc] at ht
    exact h.carrier_write (by rw [hpc]; rfl) rfl rfl rfl fun _ => ht.2
  | notify hpc =>
    rw [hpc] at ht
    have hw : Inv { s with pc := fun u => (s.pc u).wake } :=
      ⟨by simpa [tally] using h.carried, h.queued, fun u => (h.pc u).wake, h.stored⟩
    exact hw.goto_step rfl ht (by simp [hpc, Pc.carries, Pc.wake]) h.queued
  | waitResult hpc hc hw =>
    refine h.goto_step rfl ?_ (by simp [hpc, Pc.carries]) h.queued
    simp only [PcOk]
    by_contra hne
    simp [TaskSharedState.waitOutcome, hne] at hw
    split at hw <;> cases hw

theorem call_step (h : Inv s) {s' : TaskSystem α ε T} {t : T} {r : Except (Exn ε) α}
    (hs : s.callStep t r = some s') : Inv s' := by
  have ht := h.pc t
  unfold TaskSystem.callStep at hs
  split at hs
  case h_1 v hpc hf =>
    cases hs
    rw [hpc] at ht
    have hn := (h.only_carrier (t := t) (by rw [hpc]; rfl))
    refine h.write_step rfl (by rw [ht]; rfl) hn.2.2 hn.1 hn.2.1.symm ⟨ht, rfl⟩ ?_
    exact ⟨fun _ => rfl, fun _ => rfl, h.stored.final⟩
  case h_2 e hpc hf =>
    cases hs
    rw [hpc] at ht
    split
    · exact h.goto_step rfl (Or.inr ht) (by simp [hpc, Pc.carries]) h.queued
    · exact h.goto_step rfl ht (by simp [hpc, Pc.carries]) h.queued
  case h_3 v hpc hf =>
    rw [hpc] at ht
    have := h.stored.state ht
    simp [hf] at this
  case h_4 e hpc hf =>
    rw [hpc] at ht
    have := h.stored.state ht
    simp [hf] at this
  case h_5 => cases hs

theorem set_step (h : Inv s) {s' : TaskSystem α ε T} {t : T} {c : SetCall α ε}
    (hs : TaskSystem.step kind s (.set t c) = some s') : Inv s' := by
  simp only [TaskSystem.step] at hs
  split at hs
  case isFalse => cases hs
  rename_i hen
  obtain ⟨hidle, -, hcalls⟩ := hen
  split at hs
  · cases hs; exact ⟨h.carried, h.queued, h.pc, h.stored⟩
  · cases hs; exact ⟨h.carried, h.queued, h.pc, h.stored⟩
  · rename_i task completed happ
    cases hs
    obtain ⟨hst, -, hd, hc, hnc⟩ := SetCall.apply_eq_ok_some happ h.stored hcalls
    obtain ⟨hq, hn⟩ := h.no_carrier (by rw [hst]; rfl)
    refine h.write_step rfl (by rw [hst]; rfl) (fun u _ => hn u) hq ?_ ?_ hd
    · cases completed
      · rw [hnc rfl]; rfl
      · cases htask : task.state <;> simp_all [TaskState.isCompleted, Pc.carries, unfinished]
    · cases completed
      · trivial
      · exact hc

theorem step (h : Inv s) {s' : TaskSystem α ε T} {a : TaskLabel α ε T} (hg : StartGuard s a)
    (hs : TaskSystem.step kind s a = some s') : Inv s' := by
  cases a with
  | set t c => exact h.set_step hs
  | call t r => exact h.call_step hs
  | run t => exact h.run_step (hg t rfl) hs
  | cancel => cases hs; exact ⟨h.carried, h.queued, h.pc, h.stored⟩
  | addContinuation t | wait t result =>
    simp only [TaskSystem.step] at hs
    split at hs <;> cases hs
    rename_i hen
    exact h.goto_step rfl trivial (by simp [hen.1, Pc.carries]) h.queued
  | start t =>
    simp only [TaskSystem.step] at hs
    split at hs <;> cases hs
    rename_i hen
    split <;> exact h.goto_step rfl trivial (by simp [hen.2, Pc.carries]) h.queued
  | body t =>
    simp only [TaskSystem.step] at hs
    split at hs <;> cases hs
    rename_i hen
    have hst := h.queued hen.2
    refine h.goto_step rfl hst ?_ (fun _ => hst)
    simp only [hen.1, Pc.carries]
    omega
  | spuriousWake t =>
    simp only [TaskSystem.step] at hs
    split at hs <;> cases hs
    rename_i result hpc
    exact h.goto_step rfl trivial (by simp [hpc, Pc.carries]) h.queued

end Inv

theorem reachable_inv [DecidableEq T] {s : TaskSystem α ε T}
    (h : (taskMachine kind α ε T).Reachable StartGuard s) : Inv s := by
  refine h.invariant ?_ fun s a s' hi hg hs => hi.step hg hs
  exact ⟨by simp [taskMachine, tally, Pc.carries, unfinished], by simp [taskMachine],
    fun _ => trivial, ⟨by simp [taskMachine], by simp [taskMachine], Or.inl rfl⟩⟩

/-! ## What a step can do to the outcome -/

/-- Thread `t` is before the critical section of its `Start()` call. -/
def StartSection (s : TaskSystem α ε T) (t : T) : Prop :=
  s.pc t = .startCanceled ∨ s.pc t = .startLock

/-- The two shared states have the same state, stored result and stored exception. -/
def SameOutcome (s s' : TaskSharedState α ε) : Prop :=
  s'.state = s.state ∧ s'.func = s.func ∧ s'.exceptionPtr = s.exceptionPtr

theorem SameOutcome.waitOutcome {s s' : TaskSharedState α ε} (h : SameOutcome s s') :
    s'.waitOutcome = s.waitOutcome := by
  obtain ⟨h1, -, h3⟩ := h
  simp only [TaskSharedState.waitOutcome, h1, h3]

theorem SameOutcome.resultOutcome {s s' : TaskSharedState α ε} (h : SameOutcome s s') :
    s'.resultOutcome = s.resultOutcome := by
  simp only [TaskSharedState.resultOutcome, h.waitOutcome, h.2.1]

namespace Inv

variable [DecidableEq T] {s s' : TaskSystem α ε T} {t : T}

/-- Running code changes the outcome only as the carrier of the run or in the critical
    section of `Start()`, from state `Created`. -/
theorem run_effect (h : Inv s) (hg : s.pc t = .startCanceled → s.task.state = .created)
    (hs : s.runStep t = some s') :
    SameOutcome s.task s'.task ∨
      ((s.pc t).carries = 1 ∧
        (s'.task.state = s.task.state ∨ s.task.state.Moves s'.task.state)) ∨
      (s.task.state = .created ∧ StartSection s t ∧ s.task.state.Moves s'.task.state) := by
  have ht := h.pc t
  cases runStep_cases hs with
  | addLate | addEarly | addEnqueue | addRun | startAgain | startEnqueue | bodyCall | notify
  | runContinuations | continued | continuing | waitThrows | waitResult | waitReturns
  | waitAgain | waitPark | woken | resultCall => exact .inl ⟨rfl, rfl, rfl⟩
  | startCanceled hpc =>
    have hc := hg hpc
    exact .inr (.inr ⟨hc, .inl hpc, by rw [hc]; exact .cancelCreated⟩)
  | schedule hpc hfree hc => exact .inr (.inr ⟨hc, .inr hpc, by rw [hc]; exact .schedule⟩)
  | bodyThrows hpc | bodyBegin hpc => exact .inr (.inl ⟨by rw [hpc]; rfl, .inl rfl⟩)
  | bodyRunning hpc =>
    rw [hpc] at ht
    exact .inr (.inl ⟨by rw [hpc]; rfl, .inr (by rw [show s.task.state = _ from ht]; exact .run)⟩)
  | bodyDone hpc =>
    rw [hpc] at ht
    exact .inr (.inl ⟨by rw [hpc]; rfl,
      .inr (by rw [show s.task.state = _ from ht.1]; exact .complete)⟩)
  | bodyCanceled hpc =>
    rw [hpc] at ht
    refine .inr (.inl ⟨by rw [hpc]; rfl, .inr ?_⟩)
    rcases ht with ht | ht
    · rw [ht]
      exact .cancelScheduled
    · rw [ht]
      exact .cancelRunning
  | bodyFaulted hpc =>
    rw [hpc] at ht
    exact .inr (.inl ⟨by rw [hpc]; rfl,
      .inr (by rw [show s.task.state = _ from ht]; exact .fault)⟩)

/-- The user's function runs inside the carrier only: a completed task never calls it. -/
theorem call_effect (h : Inv s) {r : Except (Exn ε) α} (hs : s.callStep t r = some s') :
    s.pc t = .bodyCall ∧ s'.task.state = s.task.state := by
  have ht := h.pc t
  unfold TaskSystem.callStep at hs
  split at hs
  case h_1 v hpc hf => cases hs; exact ⟨hpc, rfl⟩
  case h_2 e hpc hf => cases hs; exact ⟨hpc, rfl⟩
  case h_3 v hpc hf | h_4 e hpc hf =>
    rw [hpc] at ht
    have := h.stored.state ht
    simp [hf] at this
  case h_5 => cases hs

/-- A step of any kind changes the outcome only while a run is unfinished, or from
    state `Created`: there a function task leaves in the critical section of `Start()`. -/
theorem step_effect (h : Inv s) {a : TaskLabel α ε T} (hg : StartGuard s a)
    (hs : TaskSystem.step kind s a = some s') :
    SameOutcome s.task s'.task ∨
      (unfinished s.task.state = 1 ∧
        (s'.task.state = s.task.state ∨ s.task.state.Moves s'.task.state)) ∨
      (s.task.state = .created ∧ (kind = .function →
        ∃ t, a = .run t ∧ StartSection s t ∧ s.task.state.Moves s'.task.state)) := by
  cases a with
  | run t =>
    rcases h.run_effect (hg t rfl) hs with he | ⟨hc, he⟩ | ⟨hc, hsec, he⟩
    · exact .inl he
    · exact .inr (.inl ⟨(h.only_carrier hc).2.1, he⟩)
    · exact .inr (.inr ⟨hc, fun _ => ⟨t, rfl, hsec, he⟩⟩)
  | call t r =>
    obtain ⟨hpc, he⟩ := h.call_effect hs
    exact .inr (.inl ⟨(h.only_carrier (t := t) (by rw [hpc]; rfl)).2.1, .inl he⟩)
  | set t c =>
    simp only [TaskSystem.step] at hs
    split at hs
    case isFalse => cases hs
    rename_i hen
    split at hs
    · cases hs; exact .inl ⟨rfl, rfl, rfl⟩
    · cases hs; exact .inl ⟨rfl, rfl, rfl⟩
    · rename_i task completed happ
      refine .inr (.inr ⟨(SetCall.apply_eq_ok_some happ h.stored hen.2.2).1, ?_⟩)
      rintro rfl
      simp [TaskKind.calls] at hen
  | cancel => cases hs; exact .inl ⟨rfl, rfl, rfl⟩
  | addContinuation t | wait t result | start t | body t | spuriousWake t =>
    simp only [TaskSystem.step] at hs
    split at hs <;> cases hs
    exact .inl ⟨rfl, rfl, rfl⟩

/-- A completed task keeps its outcome. -/
theorem frozen (h : Inv s) {a : TaskLabel α ε T} (hg : StartGuard s a)
    (hs : TaskSystem.step kind s a = some s') (hc : s.task.state.isCompleted) :
    SameOutcome s.task s'.task := by
  rcases h.step_effect hg hs with he | ⟨hf, -⟩ | ⟨hf, -⟩
  · exact he
  · cases hst : s.task.state <;> simp_all [unfinished, TaskState.isCompleted]
  · rw [hf] at hc; cases hc

end Inv

end AsyncCpp.Tasks
