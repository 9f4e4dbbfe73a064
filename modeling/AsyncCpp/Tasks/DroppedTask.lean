import AsyncCpp.Tasks.ContinuationTasks
import AsyncCpp.Tasks.ResultCalls

/-!
# Continuation tasks whose handle was dropped

Where the caller of `ContinueWith` drops the task it gets back and passes the token `None()`, as
`co_await` does (Tasks/Task.h:178, 182), nobody but the antecedent starts the continuation task,
nobody cancels it, and only the item its scheduler runs touches it.

Results:
* `DroppedOk.step`: the run of its function is to come, going on or over from the `Start()` call
  of the antecedent on.
* `antecedent_cases`, `continuation_cases`: what a step can do to the antecedent and to a
  continuation task.
* `completed_of_bodyCall`: the function is called where the antecedent is completed.
-/

namespace AsyncCpp.Tasks

open Interleaving

variable {α ε T : Type*} {β : ℕ → Type*} {kind : TaskKind}

/-! ## A task whose handle was dropped -/

/-- The places of a thread that runs the item of a task. -/
def Pc.inItem : Pc → Bool
  | .idle | .bodyBegin | .bodyRunning | .bodyCall | .bodyDone | .bodyCanceled | .bodyFaulted
  | .notify | .runContinuations | .continuing _ => true
  | _ => false

theorem Pc.wake_of_inItem {p : Pc} (h : p.inItem) : p.wake = p := by
  cases p <;> first | rfl | cases h

/-- The steps on a task whose handle was dropped after `ContinueWith`: the `Start()` call of the
    antecedent, and the item of the scheduler. -/
def TaskLabel.ofDropped : TaskLabel α ε (Option T) → Bool
  | .start none | .run _ | .body (some _) | .call (some _) _ => true
  | _ => false

/-- A thread moves, and the run of the function does not get lost. -/
theorem scheduled_of_move [Fintype T] [DecidableEq T] {s s' : TaskSystem α ε T} {t : T} {p : Pc}
    (h : 1 ≤ s.runs + unscheduled s.task.state) (hpc : s'.pc = Function.update s.pc t p)
    (hle : s.queued + (s.pc t).runs + s.funcLog.length + unscheduled s.task.state ≤
      s'.queued + p.runs + s'.funcLog.length + unscheduled s'.task.state) :
    1 ≤ s'.runs + unscheduled s'.task.state := by
  have := tally_update Pc.runs s.pc t p
  unfold TaskSystem.runs at h ⊢
  rw [hpc]
  omega

variable [Fintype T]

/-- A task whose handle was dropped: the run of its function does not get lost. -/
structure DroppedOk (c : TaskSystem α ε (Option T)) : Prop where
  places : ∀ u, (c.pc (some u)).inItem
  notCanceled : c.isCanceled = false
  value : ValueOk c
  scheduled : 1 ≤ c.runs + unscheduled c.task.state

namespace DroppedOk

variable {n : ℕ} {c c' : TaskSystem α ε (Option T)}

theorem init : DroppedOk ({} : TaskSystem α ε (Option T)) where
  places := fun _ => rfl
  notCanceled := rfl
  value := ⟨nofun, nofun⟩
  scheduled := by simp [unscheduled]

/-- Inside the call of the function nothing is stored. -/
theorem func_eq_none (h : DroppedOk c) (hi : TaskInv n c) {t : Option T}
    (ht : c.pc t = .bodyCall) : c.funcLog = [] ∧ c.task.func = none := by
  have hnil := hi.ok.funcLog_eq_nil ht
  refine ⟨hnil, ?_⟩
  by_contra hne
  obtain ⟨v, hv⟩ := Option.ne_none_iff_exists'.mp hne
  have hlog := h.value.stored v hv
  rw [hnil] at hlog
  cases hlog

variable [DecidableEq T]

/-- A thread that runs the item of the task stays there. -/
theorem run_places (h : DroppedOk c) {u : T} (hs : c.runStep (some u) = some c') :
    (c'.pc (some u)).inItem := by
  have hin := h.places u
  cases runStep_cases hs with
  | addLate hpc | addEarly hpc | addEnqueue hpc | addRun hpc | startCanceled hpc | startAgain hpc
  | schedule hpc | startEnqueue hpc | waitThrows hpc | waitResult hpc | waitReturns hpc
  | waitAgain hpc | waitPark hpc | woken hpc | resultCall hpc =>
    rw [hpc] at hin
    cases hin
  | _ => simp [Pc.inItem]

theorem run_scheduled (h : DroppedOk c) (hi : TaskInv n c) {t : Option T}
    (hs : c.runStep t = some c') : 1 ≤ c'.runs + unscheduled c'.task.state := by
  have hcarrier := hi.ok.ne_created (t := t)
  cases runStep_cases hs with
  | startCanceled hpc =>
    have hcanceled := hi.ok.canceled t hpc
    rw [h.notCanceled] at hcanceled
    cases hcanceled
  | bodyCall hpc hf =>
    rw [(h.func_eq_none hi hpc).2] at hf
    cases hf
  | bodyThrows hpc =>
    -- the token is not cancelled
    simp only [TaskSystem.runStep, hpc, h.notCanceled, Bool.false_eq_true, if_false] at hs
    have hpc' := congrArg (fun o => o.map fun s => s.pc t) hs
    simp at hpc'
  | notify hpc =>
    have hwake : 1 ≤ TaskSystem.runs { c with pc := fun u => (c.pc u).wake } +
        unscheduled c.task.state := by
      simpa [TaskSystem.runs, tally] using h.scheduled
    refine scheduled_of_move (s := { c with pc := fun u => (c.pc u).wake }) hwake rfl ?_
    simp [hpc, Pc.wake, Pc.runs]
  | schedule hpc hfree hst =>
    refine scheduled_of_move h.scheduled rfl ?_
    simp only [hpc, hst, Pc.runs, unscheduled, TaskSystem.setState, TaskSystem.goto]
    omega
  | startEnqueue hpc =>
    refine scheduled_of_move h.scheduled rfl ?_
    simp [hpc, Pc.runs]
  | bodyRunning hpc | bodyDone hpc | bodyCanceled hpc | bodyFaulted hpc =>
    rw [hpc] at hcarrier
    have hzero := unscheduled_eq_zero.mpr (hcarrier rfl)
    refine scheduled_of_move h.scheduled rfl ?_
    simp [hpc, hzero, Pc.runs]
  | addLate hpc | addEarly hpc | addEnqueue hpc | addRun hpc | startAgain hpc | bodyBegin hpc
  | runContinuations hpc | continued hpc | continuing hpc | waitThrows hpc | waitResult hpc
  | waitReturns hpc | waitAgain hpc | waitPark hpc | woken hpc | resultCall hpc =>
    refine scheduled_of_move h.scheduled rfl ?_
    simp [hpc, Pc.runs]

theorem step (h : DroppedOk c) (hi : TaskInv n c) {l : TaskLabel α ε (Option T)}
    (hl : l.ofDropped) (hs : TaskSystem.step .function c l = some c') : DroppedOk c' := by
  have hplaces : ∀ u, l.thread ≠ some (some u) → (c'.pc (some u)).inItem := by
    intro u hu
    obtain hpc | hpc := (step_frame hs).2.1 (some u) hu <;> rw [hpc]
    · exact h.places u
    · rw [Pc.wake_of_inItem (h.places u)]
      exact h.places u
  have hvalue := h.value.step hi.ok hs
  cases l with
  | run t =>
    refine ⟨fun u => ?_, ?_, hvalue, h.run_scheduled hi hs⟩
    · by_cases hut : t = some u
      · subst hut
        exact h.run_places hs
      · exact hplaces u (by simpa [TaskLabel.thread] using hut)
    · cases runStep_cases hs <;> exact h.notCanceled
  | start t =>
    cases t with
    | some u => cases hl
    | none =>
      simp only [TaskSystem.step] at hs
      split at hs <;> cases hs
      rename_i hen
      refine ⟨fun u => hplaces u (by simp [TaskLabel.thread]), h.notCanceled, hvalue, ?_⟩
      refine scheduled_of_move h.scheduled rfl ?_
      simp [hen.2, h.notCanceled, Pc.runs]
  | body t =>
    cases t with
    | none => cases hl
    | some u =>
      simp only [TaskSystem.step] at hs
      split at hs <;> cases hs
      rename_i hen
      refine ⟨fun v => ?_, h.notCanceled, hvalue, scheduled_of_move h.scheduled rfl ?_⟩
      · by_cases huv : u = v
        · subst huv
          simp [Pc.inItem]
        · exact hplaces v (by simpa [TaskLabel.thread] using huv)
      · simp [hen.1, Pc.runs]
        omega
  | call t r =>
    cases t with
    | none => cases hl
    | some u =>
      have hin := h.places u
      simp only [TaskSystem.step, TaskSystem.callStep] at hs
      split at hs
      case h_1 v hpc hf | h_2 e hpc hf =>
        cases hs
        refine ⟨fun v => ?_, h.notCanceled, hvalue, scheduled_of_move h.scheduled rfl ?_⟩
        · by_cases huv : u = v
          · subst huv
            simp only [TaskSystem.goto, Function.update_self]
            first | rfl | (split <;> rfl)
          · exact hplaces v (by simpa [TaskLabel.thread] using huv)
        · simp [hpc, Pc.runs]
          omega
      case h_3 v hpc hf | h_4 e hpc hf =>
        rw [hpc] at hin
        cases hin
      case h_5 => cases hs
  | _ => cases hl

end DroppedOk

/-! ## Steps of the antecedent and its continuation tasks -/

section Tasks

variable [DecidableEq T] {s s' : ContinuationRun α β ε T} {l : ContinuationLabel α β ε T}

/-- A step leaves the antecedent alone, is a step of the antecedent, or invokes one of its
    continuations. -/
theorem antecedent_cases (h : ContinuationInv kind s) (hs : s.step kind l = some s')
    (hg : StartedInOrder s l) :
    s'.antecedent = s.antecedent ∨ ∃ l', TaskSystem.step kind s.antecedent l' = some s'.antecedent ∧
      StartGuard s.antecedent l' ∧
      (l = .antecedent l' ∨ ∃ t, l' = .run t ∧ (s.antecedent.pc t).invokes ≠ none) := by
  cases l with
  | antecedent l' =>
    simp only [ContinuationRun.step] at hs
    split at hs
    case isFalse => cases hs
    obtain ⟨a, ha, rfl⟩ := Option.map_eq_some_iff.mp hs
    exact .inr ⟨l', ha, hg, .inl rfl⟩
  | invoke t =>
    simp only [ContinuationRun.step] at hs
    split at hs
    case isFalse => cases hs
    split at hs
    · cases hs
    rename_i k hk
    obtain ⟨a, ha, hs⟩ := Option.bind_eq_some_iff.mp hs
    obtain ⟨c, -, rfl⟩ := Option.map_eq_some_iff.mp hs
    refine .inr ⟨.run t, ha, fun u hu hpc => ?_, .inr ⟨t, rfl, by simp [hk]⟩⟩
    cases hu
    rw [hpc] at hk
    cases hk
  | starting t =>
    simp only [ContinuationRun.step] at hs
    split at hs
    case isFalse => cases hs
    obtain ⟨k, hk, hs⟩ := Option.bind_eq_some_iff.mp hs
    obtain ⟨c, hc, rfl⟩ := Option.map_eq_some_iff.mp hs
    obtain ⟨-, hnothrow⟩ := (h.task k).startStep ((h.busy k).mpr ⟨t, hk⟩) hc
    left
    split
    · rename_i hidle
      rw [if_neg fun hlock => hnothrow ⟨hidle, hlock⟩]
      rfl
    · rfl
  | startThrows t e => cases hg
  | continuation k l' =>
    simp only [ContinuationRun.step] at hs
    split at hs
    case isFalse => cases hs
    obtain ⟨c, -, rfl⟩ := Option.map_eq_some_iff.mp hs
    exact .inl rfl

omit [Fintype T] in
/-- A step leaves a continuation task alone, is a step of the `Start()` call of the antecedent,
    or is a step of another caller. -/
theorem continuation_cases (hs : s.step kind l = some s')
    (hg : StartedInOrder s l) (j : ℕ) :
    s'.continuation j = s.continuation j ∨
      ∃ l', TaskSystem.step .function (s.continuation j) l' = some (s'.continuation j) ∧
        (l' = .start none ∨ l' = .run none ∨
          ∃ l₀, l = .continuation j l₀ ∧ l' = l₀.map some ∧ j < s.antecedent.added) := by
  cases l with
  | antecedent l' =>
    simp only [ContinuationRun.step] at hs
    split at hs
    case isFalse => cases hs
    obtain ⟨a, ha, rfl⟩ := Option.map_eq_some_iff.mp hs
    exact .inl rfl
  | invoke t =>
    simp only [ContinuationRun.step] at hs
    split at hs
    case isFalse => cases hs
    split at hs
    · cases hs
    rename_i k hk
    obtain ⟨a, -, hs⟩ := Option.bind_eq_some_iff.mp hs
    obtain ⟨c, hc, rfl⟩ := Option.map_eq_some_iff.mp hs
    by_cases hj : j = k
    · subst hj
      exact .inr ⟨.start none, by simpa [ContinuationRun.setTask] using hc, .inl rfl⟩
    · left
      simp [ContinuationRun.setTask, hj]
  | starting t =>
    simp only [ContinuationRun.step] at hs
    split at hs
    case isFalse => cases hs
    obtain ⟨k, -, hs⟩ := Option.bind_eq_some_iff.mp hs
    obtain ⟨c, hc, hs⟩ := Option.map_eq_some_iff.mp hs
    have hsame : s'.continuation = (s.setTask k c).continuation := by
      rw [← hs]
      split_ifs <;> rfl
    rw [hsame]
    by_cases hj : j = k
    · subst hj
      refine .inr ⟨.run none, ?_, .inr (.inl rfl)⟩
      simpa [ContinuationRun.setTask, TaskSystem.step] using hc
    · left
      simp [ContinuationRun.setTask, hj]
  | startThrows t e => cases hg
  | continuation k l' =>
    simp only [ContinuationRun.step] at hs
    split at hs
    case isFalse => cases hs
    rename_i hen
    obtain ⟨c, hc, rfl⟩ := Option.map_eq_some_iff.mp hs
    by_cases hj : j = k
    · subst hj
      refine .inr ⟨l'.map some, ?_, .inr (.inr ⟨l', rfl, rfl, hen.2⟩)⟩
      rw [hc]
      simp [ContinuationRun.setTask]
    · left
      simp [ContinuationRun.setTask, hj]

/-- Whoever calls the function of a continuation task finds the antecedent completed. -/
theorem completed_of_bodyCall (h : ContinuationInv kind s) {k : ℕ} {u : Option T}
    (hu : (s.continuation k).pc u = .bodyCall) : s.antecedent.task.state.isCompleted := by
  refine h.terminal fun hnil => ?_
  have hzero : s.antecedent.timesInvoked k = 0 := by
    rw [TaskSystem.timesInvoked, hnil]
    rfl
  have hle := le_tally Pc.runs (s.continuation k).pc u
  have hruns := ((h.task k).before hzero).2.1
  rw [hu] at hle
  simp only [TaskSystem.runs, Pc.runs] at hruns hle
  omega

/-- One thread at most calls the function of a task. -/
theorem eq_of_bodyCall {c : TaskSystem α ε T} (h : FunctionOk c) {t u : T}
    (ht : c.pc t = .bodyCall) (hu : c.pc u = .bodyCall) : t = u := by
  by_contra hne
  have hle := add_le_tally Pc.runs c.pc hne
  have honce := h.once
  rw [ht, hu] at hle
  simp only [TaskSystem.runs, Pc.runs] at honce hle
  omega

end Tasks

omit [Fintype T] in
theorem addContinuation_added [DecidableEq T] {s s' : TaskSystem α ε T} {t : T}
    (hs : TaskSystem.step kind s (.addContinuation t) = some s') : s'.added = s.added + 1 := by
  simp only [TaskSystem.step] at hs
  split at hs <;> cases hs
  rfl

omit [Fintype T] in
theorem wait_step [DecidableEq T] {s s' : TaskSystem α ε T} {t : T} {result : Bool}
    (hs : TaskSystem.step kind s (.wait t result) = some s') :
    s'.pc t = .waitRead result ∧ s'.task = s.task := by
  simp only [TaskSystem.step] at hs
  split at hs <;> cases hs
  exact ⟨Function.update_self .., rfl⟩

omit [Fintype T] in
/-- Only `AddContinuation` adds a continuation, and only the end of the user's function is logged
    as one. -/
theorem step_added [DecidableEq T] {s s' : TaskSystem α ε T} {l : TaskLabel α ε T}
    (hs : TaskSystem.step kind s l = some s') :
    s.added ≤ s'.added ∧ ((∀ t r, l ≠ .call t r) → s'.funcLog = s.funcLog) := by
  cases l with
  | run t => cases runStep_cases hs <;> exact ⟨le_rfl, fun _ => rfl⟩
  | call t r =>
    refine ⟨?_, fun hne => absurd rfl (hne t r)⟩
    simp only [TaskSystem.step, TaskSystem.callStep] at hs
    split at hs <;> cases hs <;> exact le_rfl
  | set t c =>
    simp only [TaskSystem.step] at hs
    split at hs
    · split at hs <;> cases hs <;> exact ⟨le_rfl, fun _ => rfl⟩
    · cases hs
  | cancel => cases hs; exact ⟨le_rfl, fun _ => rfl⟩
  | addContinuation t =>
    simp only [TaskSystem.step] at hs
    split at hs <;> cases hs
    exact ⟨Nat.le_succ _, fun _ => rfl⟩
  | start t | body t | wait t result | spuriousWake t =>
    simp only [TaskSystem.step] at hs
    split at hs <;> cases hs
    exact ⟨le_rfl, fun _ => rfl⟩

end AsyncCpp.Tasks
