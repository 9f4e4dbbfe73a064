import AsyncCpp.Tasks.Continuations

/-!
# `TaskCompletionSource`

A completion source and its copies share one task. Any threads call its six setters
(Tasks/TaskCompletionSource.h:40-90), wait for the task and add continuations, in any
order. The first call that enters `_lockObject` completes the task; nothing a later call
does changes what was stored.

Results:
* `single_assignment`: the first setter call decides the state, the stored result and the
  stored exception, and what every `Wait()`, `Result()` and continuation observes; every
  later `TrySet` call returns `false`, every later `Set` call throws, and both leave the
  task as it is.
-/

namespace AsyncCpp.Tasks

open Interleaving

variable {α ε T : Type*} {kind : TaskKind}

/-! ## The setters -/

/-- A setter that answers `false` where the other one throws. -/
def SetCall.isTry : SetCall α ε → Bool
  | .trySetException _ | .trySetCanceled | .trySetResult _ => true
  | _ => false

/-- How the task ends that the call completes; `none` for a null exception. -/
def SetCall.completion : SetCall α ε → Option (Completion α ε)
  | .setException e _ | .trySetException e => e.map .exception
  | .setCanceled _ | .trySetCanceled => some (.canceled false)
  | .setResult v _ | .trySetResult v => some (.value v)
  | .publishResult => none

/-- What a setter call on a completed task ends with. -/
def SetCall.late (c : SetCall α ε) : Except (Exn ε) Bool :=
  if c.isTry then .ok false else .error taskCompleted

/-- No setter is called with a null exception. -/
def NonNull (_ : TaskSystem α ε T) (a : TaskLabel α ε T) : Prop :=
  ∀ t c, a = .set t c → c.completion ≠ none

/-- The first call: it completes the task. -/
theorem SetCall.apply_created {s : TaskSharedState α ε} {c : SetCall α ε} {o : Completion α ε}
    (hs : s.state = .created) (hf : s.func = none) (he : s.exceptionPtr = none)
    (hc : TaskKind.completionSource.calls s c) (ho : c.completion = some o) :
    ∃ s', c.apply s = .ok (some (s', true)) ∧ SameOutcome (.ended o) s' := by
  rcases c with ⟨_ | e, b⟩ | ⟨_ | e⟩ | b | _ | ⟨v, b⟩ | v | _ <;>
    simp only [completion, Option.map_none, Option.map_some, reduceCtorEq, Option.some.injEq] at ho
  all_goals
    subst ho
    simp only [TaskKind.calls] at hc
    simp [apply, hs, SameOutcome, TaskSharedState.ended, hf, he, hc]

/-- A later call. -/
theorem SetCall.apply_late {s : TaskSharedState α ε} {c : SetCall α ε}
    (hs : s.state ≠ .created) (hc : c.completion ≠ none) :
    c.apply s = if c.isTry then .ok none else .error taskCompleted := by
  rcases c with ⟨_ | e, b⟩ | ⟨_ | e⟩ | b | _ | ⟨v, b⟩ | v | _ <;>
    simp_all [completion, apply, isTry]

/-! ## What observers see -/

/-- What `Wait()` or `GetResult()` of the completed task yields. -/
def Yielded (s : TaskSharedState α ε) (r : Except (Option (Exn ε)) (Option α)) : Prop :=
  r = s.waitOutcome.map (fun _ => none) ∨ r = s.resultOutcome

/-- Everything observed so far is the outcome of the completed task. -/
structure Observed (s : TaskSystem α ε T) : Prop where
  waits : ∀ r ∈ s.waitLog, s.task.state.isCompleted ∧ Yielded s.task r
  invoked : ∀ i ∈ s.invoked, s.task.state.isCompleted ∧ i.2 = s.task.state

theorem SameOutcome.yielded {s s' : TaskSharedState α ε} (h : SameOutcome s s')
    {r : Except (Option (Exn ε)) (Option α)} (hr : Yielded s r) : Yielded s' r := by
  unfold Yielded
  rw [h.waitOutcome, h.resultOutcome]
  exact hr

namespace Observed

variable [Fintype T] [DecidableEq T] {s s' : TaskSystem α ε T} {t : T}

/-- Running code observes the task only when it is completed. -/
theorem run_observes (hi : Inv s) (hs : s.runStep t = some s') :
    (s'.waitLog = s.waitLog ∨ ∃ r, s'.waitLog = s.waitLog ++ [r] ∧ s'.task = s.task ∧
      s.task.state.isCompleted ∧ Yielded s.task r) ∧
    (s'.invoked = s.invoked ∨ ∃ k, s'.invoked = s.invoked ++ [(k, s.task.state)] ∧
      s'.task = s.task ∧ s.task.state.isCompleted) := by
  have ht := hi.pc t
  cases runStep_cases hs with
  | @addRun k hpc | @continuing k ks hpc =>
    rw [hpc] at ht
    exact ⟨.inl rfl, .inr ⟨k, rfl, rfl, ht⟩⟩
  | waitThrows hpc hc hw | waitReturns hpc hc hw =>
    refine ⟨.inr ⟨_, rfl, rfl, hc, .inl ?_⟩, .inl rfl⟩
    rw [hw]
    rfl
  | resultCall hpc hf =>
    rw [hpc] at ht
    refine ⟨.inr ⟨_, rfl, rfl, ?_, .inr ?_⟩, .inl rfl⟩
    · rw [show s.task.state = _ from ht]
      rfl
    · have hw : s.task.waitOutcome = .ok () := if_pos ht
      rw [TaskSharedState.resultOutcome, hw, hf]
      rfl
  | _ => exact ⟨.inl rfl, .inl rfl⟩

/-- No other step observes the task. -/
theorem step_observes (hi : Inv s) {a : TaskLabel α ε T} (hs : TaskSystem.step kind s a = some s') :
    (s'.waitLog = s.waitLog ∨ ∃ r, s'.waitLog = s.waitLog ++ [r] ∧ s'.task = s.task ∧
      s.task.state.isCompleted ∧ Yielded s.task r) ∧
    (s'.invoked = s.invoked ∨ ∃ k, s'.invoked = s.invoked ++ [(k, s.task.state)] ∧
      s'.task = s.task ∧ s.task.state.isCompleted) := by
  cases a with
  | run t => exact run_observes hi hs
  | call t r =>
    have hpc := (hi.call_effect hs).1
    simp only [TaskSystem.step, TaskSystem.callStep, hpc] at hs
    split at hs <;> cases hs <;> first | exact ⟨.inl rfl, .inl rfl⟩ | simp_all
  | set t c =>
    simp only [TaskSystem.step] at hs
    split at hs
    · split at hs <;> cases hs <;> exact ⟨.inl rfl, .inl rfl⟩
    · cases hs
  | cancel =>
    cases hs
    exact ⟨.inl rfl, .inl rfl⟩
  | addContinuation t | wait t result | start t | body t | spuriousWake t =>
    simp only [TaskSystem.step] at hs
    split at hs
    · cases hs
      exact ⟨.inl rfl, .inl rfl⟩
    · cases hs

theorem step (h : Observed s) (hi : Inv s) {a : TaskLabel α ε T} (hg : StartGuard s a)
    (hs : TaskSystem.step kind s a = some s') : Observed s' := by
  obtain ⟨hw, hv⟩ := step_observes hi hs
  have hsame := hi.frozen hg hs
  refine ⟨fun r hr => ?_, fun i hin => ?_⟩
  · have hold : r ∈ s.waitLog → s'.task.state.isCompleted ∧ Yielded s'.task r := by
      intro hr
      obtain ⟨hst, hy⟩ := h.waits r hr
      have he := hsame hst
      exact ⟨by rw [he.1]; exact hst, he.yielded hy⟩
    rcases hw with hw | ⟨r', hw, htask, hst, hy⟩
    · exact hold (hw ▸ hr)
    · rw [hw] at hr
      rcases List.mem_append.mp hr with hr | hr
      · exact hold hr
      · rw [List.mem_singleton.mp hr, htask]
        exact ⟨hst, hy⟩
  · have hold : i ∈ s.invoked → s'.task.state.isCompleted ∧ i.2 = s'.task.state := by
      intro hin
      obtain ⟨hst, hy⟩ := h.invoked i hin
      have he := hsame hst
      exact ⟨by rw [he.1]; exact hst, by rw [he.1]; exact hy⟩
    rcases hv with hv | ⟨k, hv, htask, hst⟩
    · exact hold (hv ▸ hin)
    · rw [hv] at hin
      rcases List.mem_append.mp hin with hin | hin
      · exact hold hin
      · rw [List.mem_singleton.mp hin, htask]
        exact ⟨hst, rfl⟩

end Observed

/-! ## The task of a completion source -/

/-- The invariant: nobody starts the task, it is as it was created until the first setter
    call, and completed from then on. -/
structure SourceInv [Fintype T] (s : TaskSystem α ε T) : Prop where
  inv : Inv s
  observed : Observed s
  outside : ∀ t, ¬ StartSection s t
  untouched : s.setLog = [] →
    s.task.state = .created ∧ s.task.func = none ∧ s.task.exceptionPtr = none
  completed : s.setLog ≠ [] → s.task.state.isCompleted

namespace SourceInv

variable [Fintype T] {s s' : TaskSystem α ε T} {t : T}

theorem startGuard (h : SourceInv s) (a : TaskLabel α ε T) : StartGuard s a :=
  fun t _ hpc => absurd (.inl hpc) (h.outside t)

/-- No run of a function is unfinished. -/
theorem unfinished_eq (h : SourceInv s) : unfinished s.task.state = 0 := by
  by_cases hl : s.setLog = []
  · rw [(h.untouched hl).1]
    rfl
  · have hst := h.completed hl
    cases hs : s.task.state <;> first | rfl | (rw [hs] at hst; cases hst)

variable [DecidableEq T]

/-- A step that is not a setter call changes neither the outcome nor the log. -/
theorem step_of_not_set (h : SourceInv s) {a : TaskLabel α ε T} (ha : ∀ t c, a ≠ .set t c)
    (hs : TaskSystem.step .completionSource s a = some s') :
    SameOutcome s.task s'.task ∧ s'.setLog = s.setLog := by
  have hno : ∀ {u}, (s.pc u).carries = 1 → False := by
    intro u hu
    have hun := (h.inv.only_carrier hu).2.1
    rw [h.unfinished_eq] at hun
    cases hun
  cases a with
  | run t =>
    refine ⟨?_, ?_⟩
    · rcases h.inv.run_effect (h.startGuard (.run t) t rfl) hs with he | ⟨hc, -⟩ | ⟨-, hsec, -⟩
      · exact he
      · exact (hno hc).elim
      · exact absurd hsec (h.outside t)
    · cases runStep_cases hs with
      | startCanceled hpc => exact absurd (.inl hpc) (h.outside t)
      | startAgain hpc | schedule hpc => exact absurd (.inr hpc) (h.outside t)
      | _ => rfl
  | call t r =>
    exact (hno (by rw [(h.inv.call_effect hs).1]; rfl)).elim
  | set t c => exact absurd rfl (ha t c)
  | cancel =>
    cases hs
    exact ⟨⟨rfl, rfl, rfl⟩, rfl⟩
  | addContinuation t | wait t result | start t | body t | spuriousWake t =>
    simp only [TaskSystem.step] at hs
    split at hs
    · cases hs
      exact ⟨⟨rfl, rfl, rfl⟩, rfl⟩
    · cases hs

/-- The first setter call. -/
theorem set_first (h : SourceInv s) {c : SetCall α ε} {o : Completion α ε} (hl : s.setLog = [])
    (ho : c.completion = some o)
    (hs : TaskSystem.step .completionSource s (.set t c) = some s') :
    SameOutcome (.ended o) s'.task ∧ s'.setLog = [.ok true] := by
  obtain ⟨hst, hf, he⟩ := h.untouched hl
  simp only [TaskSystem.step] at hs
  split at hs
  · rename_i hen
    obtain ⟨task, happ, hsame⟩ := SetCall.apply_created hst hf he hen.2.2 ho
    rw [happ] at hs
    cases hs
    exact ⟨hsame, by simp [hl]⟩
  · cases hs

/-- A later setter call. -/
theorem set_late (h : SourceInv s) {c : SetCall α ε} (hl : s.setLog ≠ []) (hc : c.completion ≠ none)
    (hs : TaskSystem.step .completionSource s (.set t c) = some s') :
    s'.task = s.task ∧ s'.setLog = s.setLog ++ [c.late] := by
  have hne : s.task.state ≠ .created := by
    intro hst
    have hcompleted := h.completed hl
    rw [hst] at hcompleted
    cases hcompleted
  simp only [TaskSystem.step] at hs
  split at hs
  · rw [SetCall.apply_late hne hc] at hs
    unfold SetCall.late
    split_ifs at hs ⊢ <;> cases hs <;> exact ⟨rfl, rfl⟩
  · cases hs

theorem step (h : SourceInv s) {a : TaskLabel α ε T} (hg : NonNull s a)
    (hs : TaskSystem.step .completionSource s a = some s') : SourceInv s' := by
  have hinv := h.inv.step (h.startGuard a) hs
  have hobs := h.observed.step h.inv (h.startGuard a) hs
  have hout : ∀ t, ¬ StartSection s' t := by
    intro t ht
    rcases step_startSection hs with ⟨-, -, hk, -⟩ | ⟨-, hsec⟩
    · cases hk
    · exact h.outside t (hsec t ht).1
  by_cases ha : ∃ t c, a = .set t c
  · obtain ⟨t, c, rfl⟩ := ha
    obtain ⟨o, ho⟩ := Option.ne_none_iff_exists'.mp (hg t c rfl)
    by_cases hl : s.setLog = []
    · obtain ⟨hsame, hlog⟩ := h.set_first hl ho hs
      refine ⟨hinv, hobs, hout, by simp [hlog], fun _ => ?_⟩
      rw [hsame.1]
      cases o <;> rfl
    · obtain ⟨htask, hlog⟩ := h.set_late hl (hg t c rfl) hs
      refine ⟨hinv, hobs, hout, by simp [hlog], fun _ => ?_⟩
      rw [htask]
      exact h.completed hl
  · obtain ⟨hsame, hlog⟩ := h.step_of_not_set (fun t c he => ha ⟨t, c, he⟩) hs
    refine ⟨hinv, hobs, hout, fun hl => ?_, fun hl => ?_⟩
    · rw [hsame.1, hsame.2.1, hsame.2.2]
      exact h.untouched (by rwa [hlog] at hl)
    · rw [hsame.1]
      exact h.completed (by rwa [hlog] at hl)

end SourceInv

section SingleAssignment

variable [Fintype T] {s : TaskSystem α ε T}

/-- The outcome of the task and everything observed of it is `o`. -/
structure Decided (o : Completion α ε) (s : TaskSystem α ε T) : Prop where
  outcome : SameOutcome (.ended o) s.task
  waits : ∀ r ∈ s.waitLog, Yielded (.ended o) r
  invoked : ∀ i ∈ s.invoked, i.2 = (TaskSharedState.ended o).state

/-- What was decided stays decided. -/
theorem SourceInv.decided {o : Completion α ε} (h : SourceInv s)
    (ho : SameOutcome (.ended o) s.task) : Decided o s := by
  have hback : SameOutcome s.task (.ended o) := ⟨ho.1.symm, ho.2.1.symm, ho.2.2.symm⟩
  exact ⟨ho, fun r hr => hback.yielded (h.observed.waits r hr).2,
    fun i hi => (h.observed.invoked i hi).2.trans ho.1⟩

variable [DecidableEq T]

theorem reachable_sourceInv
    (h : (taskMachine .completionSource α ε T).Reachable NonNull s) : SourceInv s := by
  refine h.invariant ?_ fun s a s' hi hg hs => hi.step hg hs
  exact ⟨reachable_inv .init, ⟨nofun, nofun⟩, fun _ => by simp [StartSection, taskMachine],
    fun _ => ⟨rfl, rfl, rfl⟩, nofun⟩

/-- A completion source of which no setter is called with a null exception. Before the first
    setter call the task is in state `Created` and nothing is observed. The first call
    returns without an exception (`true` for a `TrySet` call) and decides the outcome: the
    state, what is stored, and what every `Wait()`, `Result()` and continuation observes
    from then on. Every later `TrySet` call returns `false`, every later `Set` call throws
    `logic_error`, and the task stays as it is. -/
theorem single_assignment (h : (taskMachine .completionSource α ε T).Reachable NonNull s) :
    (s.setLog = [] → s.task.state = .created ∧ s.waitLog = [] ∧ s.invoked = []) ∧
    (∀ t c s₁, s.setLog = [] → NonNull s (.set t c) →
      (taskMachine .completionSource α ε T).step s (.set t c) = some s₁ →
      s₁.setLog = [.ok true] ∧ ∃ o, c.completion = some o ∧
        ∀ s', (taskMachine .completionSource α ε T).Reaches NonNull s₁ s' → Decided o s') ∧
    (∀ t c s₁, s.setLog ≠ [] → NonNull s (.set t c) →
      (taskMachine .completionSource α ε T).step s (.set t c) = some s₁ →
      s₁.task = s.task ∧ s₁.setLog = s.setLog ++ [c.late]) := by
  have hi := reachable_sourceInv h
  refine ⟨fun hl => ?_, fun t c s₁ hl hg hs => ?_,
    fun t c s₁ hl hg hs => hi.set_late hl (hg t c rfl) hs⟩
  · have hst := (hi.untouched hl).1
    refine ⟨hst, List.eq_nil_iff_forall_not_mem.mpr fun r hr => ?_,
      List.eq_nil_iff_forall_not_mem.mpr fun i hin => ?_⟩
    · have hc := (hi.observed.waits r hr).1
      rw [hst] at hc
      cases hc
    · have hc := (hi.observed.invoked i hin).1
      rw [hst] at hc
      cases hc
  · obtain ⟨o, ho⟩ := Option.ne_none_iff_exists'.mp (hg t c rfl)
    obtain ⟨hsame, hlog⟩ := hi.set_first hl ho hs
    refine ⟨hlog, o, ho, fun s' hr => ?_⟩
    have hkept : SourceInv s' ∧ SameOutcome (.ended o) s'.task := by
      refine hr.preserves (I := fun u => SourceInv u ∧ SameOutcome (.ended o) u.task) ?_
        ⟨hi.step hg hs, hsame⟩
      rintro u a u' ⟨hu, h1, h2, h3⟩ hgu hsu
      have hcompleted : u.task.state.isCompleted := by
        rw [h1]
        cases o <;> rfl
      obtain ⟨h4, h5, h6⟩ := hu.inv.frozen (hu.startGuard a) hsu hcompleted
      exact ⟨hu.step hgu hsu, h4.trans h1, h5.trans h2, h6.trans h3⟩
    exact hkept.1.decided hkept.2

/-- `TrySetResult(5)` wins against `SetCanceled()`, and `Result()` is 5. -/
theorem single_assignment_trySetResult :
    ∃ s : TaskSystem ℕ Empty Unit,
      (taskMachine .completionSource ℕ Empty Unit).Reachable NonNull s ∧
        s.setLog = [.ok true, .error taskCompleted] ∧ Decided (.value 5) s ∧
          s.waitLog = [.ok (some 5)] := by
  have h0 : (taskMachine .completionSource ℕ Empty Unit).Reachable NonNull _ := .init
  have hg : NonNull (taskMachine .completionSource ℕ Empty Unit).init
      (.set () (.trySetResult 5)) := by
    rintro _ _ ⟨⟩
    nofun
  obtain ⟨s₁, hs₁⟩ : ∃ s₁, (taskMachine .completionSource ℕ Empty Unit).step
    (taskMachine .completionSource ℕ Empty Unit).init (.set () (.trySetResult 5)) = some s₁ :=
    ⟨_, rfl⟩
  obtain ⟨s, hr, hset, hwait⟩ : ∃ s,
      (taskMachine .completionSource ℕ Empty Unit).Reaches NonNull s₁ s ∧
        s.setLog = [.ok true, .error taskCompleted] ∧ s.waitLog = [.ok (some 5)] := by
    cases hs₁
    exact ⟨_, .head (a := .run ()) rfl nofun <| .head (a := .run ()) rfl nofun <|
      .head (a := .run ()) rfl nofun <|
      .head (a := .set () (.setCanceled true)) rfl (by rintro _ _ ⟨⟩; nofun) <|
      .head (a := .wait () true) rfl nofun <| .head (a := .run ()) rfl nofun <|
      .head (a := .run ()) rfl nofun .refl, rfl, rfl⟩
  obtain ⟨-, o, ho, hd⟩ := (single_assignment h0).2.1 () _ s₁ rfl hg hs₁
  cases ho
  exact ⟨s, (h0.step hg hs₁).trans hr, hset, hd s hr, hwait⟩

end SingleAssignment

end AsyncCpp.Tasks
