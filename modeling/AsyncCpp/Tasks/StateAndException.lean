import AsyncCpp.Tasks.TaskCompletionSource

/-!
# State, exception and result of a task

`_state`, `_preparedNextState`, `_exceptionPtr` and `_func` are separate fields of the shared
state. The scheduled item stores the exception before it locks and writes the state
(TaskHelpers.h:170-183), the promise of a coroutine stores it with `_preparedNextState`, and
the setters of a completion source write both in one critical section. `Wait()` rethrows what
it finds, and makes an `OperationCanceledException` of its own only for a canceled task without
an exception (lines 197-206).

Results:
* `state_and_exception_agree`: for a task that is started at most once, a task of a
  completion source and a task of a coroutine, in every run: a faulted task has an exception,
  a canceled one none or an `OperationCanceledException`, and one that ran to completion the
  value that was produced; `Wait()` and `Result()` report just that.
-/

namespace AsyncCpp.Tasks

open Interleaving

variable {α ε T : Type*} {kind : TaskKind}

/-! ## What is produced -/

/-- The value a setter stores. -/
def SetCall.value : SetCall α ε → Option α
  | .setResult result _ | .trySetResult result => some result
  | _ => none

/-- The value a step produces: the user's function returns it, or a setter that does not fail
    stores it. -/
def produces (s : TaskSystem α ε T) : TaskLabel α ε T → Option α
  | .call _ (.ok v) => some v
  | .set _ c =>
    match c.apply s.task with
    | .ok (some _) => c.value
    | _ => none
  | _ => none

/-- A task, and the value that was produced last, which is history. -/
structure ProducedSystem (α ε T : Type*) where
  system : TaskSystem α ε T := {}
  produced : Option α := none

/-- The machine of a task of the given kind, before any call. -/
def producedMachine (kind : TaskKind) (α ε T : Type*) [DecidableEq T] :
    Machine (ProducedSystem α ε T) (TaskLabel α ε T) where
  init := {}
  step s a := (TaskSystem.step kind s.system a).map fun t =>
    { system := t, produced := (produces s.system a).or s.produced }

/-- `Start()` is called at most once. -/
def ProducedOnce (s : ProducedSystem α ε T) (a : TaskLabel α ε T) : Prop := OneStart s.system a

/-- State, exception and result agree. -/
structure Agrees (task : TaskSharedState α ε) (produced : Option α) : Prop where
  faulted : task.state = .faulted → ∃ e, task.exceptionPtr = some e
  canceled : task.state = .canceled →
    task.exceptionPtr = none ∨ task.exceptionPtr = some .operationCanceled
  ran : task.state = .runToCompletion → ∃ v, produced = some v ∧ task.func = some v

/-- What a call of `Wait()` or `Result()` ended with, in terms of the task: not with a null
    exception, with an `OperationCanceledException` just where the task is canceled or faulted
    with one, and without an exception just where it ran to completion. -/
structure Reported (task : TaskSharedState α ε) (produced : Option α)
    (r : Except (Option (Exn ε)) (Option α)) : Prop where
  completed : task.state.isCompleted
  notNull : r ≠ .error none
  operationCanceled : r = .error (some .operationCanceled) ↔ task.state = .canceled ∨
    task.state = .faulted ∧ task.exceptionPtr = some .operationCanceled
  returned : (∃ x, r = .ok x) ↔ task.state = .runToCompletion
  value : ∀ v, r = .ok (some v) → produced = some v

/-- `Wait()` and `Result()` of a completed task report its state. -/
theorem Agrees.reported {task : TaskSharedState α ε} {produced : Option α}
    (h : Agrees task produced) (hc : task.state.isCompleted)
    {r : Except (Option (Exn ε)) (Option α)} (hr : Yielded task r) :
    Reported task produced r := by
  cases hst : task.state with
  | created | scheduled | running =>
    rw [hst] at hc
    cases hc
  | faulted =>
    obtain ⟨e, he⟩ := h.faulted hst
    have hw : task.waitOutcome = .error (some e) := by
      simp [TaskSharedState.waitOutcome, hst, he]
    have hreq : r = .error (some e) := by
      rcases hr with rfl | rfl <;> simp [TaskSharedState.resultOutcome, hw, Except.map]
    subst hreq
    exact ⟨hc, (by simp), by simp [hst, he], by simp [hst], (by simp)⟩
  | canceled =>
    have hw : task.waitOutcome = .error (some .operationCanceled) := by
      rcases h.canceled hst with he | he <;> simp [TaskSharedState.waitOutcome, hst, he]
    have hreq : r = .error (some .operationCanceled) := by
      rcases hr with rfl | rfl <;> simp [TaskSharedState.resultOutcome, hw, Except.map]
    subst hreq
    exact ⟨hc, (by simp), by simp [hst], by simp [hst], (by simp)⟩
  | runToCompletion =>
    obtain ⟨v, hv, hf⟩ := h.ran hst
    have hw : task.waitOutcome = .ok () := if_pos hst
    have hreq : r = .ok none ∨ r = .ok (some v) := by
      rcases hr with rfl | rfl
      · left
        simp [hw, Except.map]
      · right
        simp [TaskSharedState.resultOutcome, hw, hf, Except.map]
    rcases hreq with rfl | rfl
    · exact ⟨hc, (by simp), by simp [hst], by simp [hst], (by simp)⟩
    · refine ⟨hc, (by simp), by simp [hst], by simp [hst], ?_⟩
      rintro w ⟨⟩
      exact hv

/-! ## The stored exception -/

/-- What the setters read and keep: before it is completed, a task has an exception just where
    `Faulted` is prepared, which only the promise of a coroutine does. -/
structure ExceptionOk (kind : TaskKind) (s : TaskSharedState α ε) : Prop where
  untouched : s.state = .created → s.preparedNextState ≠ .faulted → s.exceptionPtr = none
  prepared : s.preparedNextState = .faulted → s.exceptionPtr ≠ none
  unprepared : kind ≠ .promise → s.preparedNextState = .created
  faulted : s.state = .faulted → s.exceptionPtr ≠ none
  canceled : s.state = .canceled →
    s.exceptionPtr = none ∨ s.exceptionPtr = some .operationCanceled

/-- A setter that does not fail. -/
theorem SetCall.exceptionOk {s s' : TaskSharedState α ε} {c : SetCall α ε} {completed : Bool}
    (h : ExceptionOk kind s) (hc : kind.calls s c)
    (happ : c.apply s = .ok (some (s', completed))) : ExceptionOk kind s' := by
  obtain ⟨h1, h2, h3, h4, h5⟩ := h
  rcases c with ⟨_ | e, b⟩ | ⟨_ | e⟩ | b | _ | ⟨v, b⟩ | v | _ <;> simp only [apply] at happ
  case setException.none | trySetException.none => cases happ
  case publishResult =>
    split at happ
    · cases happ
    · rename_i hst
      cases happ
      have hkind : kind = .promise := by
        by_contra hne
        have hp := h3 hne
        cases kind <;> simp [TaskKind.calls, hp] at hc
      have hne : s.preparedNextState ≠ .created := by
        intro hp
        cases kind <;> simp [TaskKind.calls, hp] at hc
      exact ⟨fun hp => absurd hp hne, h2, fun hk => absurd hkind hk, h2,
        fun hp => .inl (h1 (not_not.mp hst) (by rw [show s.preparedNextState = _ from hp]; simp))⟩
  case setException.some | setCanceled | setResult =>
    split at happ
    · cases happ
    · rename_i hst
      have hst := not_not.mp hst
      split at happ <;> cases happ <;> cases kind <;>
        simp only [TaskKind.calls, Bool.false_eq_true] at hc <;> constructor <;> simp_all
  case trySetException.some | trySetCanceled | trySetResult =>
    split at happ
    · cases happ
    · rename_i hst
      have hst := not_not.mp hst
      cases happ
      cases kind <;> simp only [TaskKind.calls, Bool.false_eq_true] at hc
      constructor <;> simp_all

theorem ExceptionOk.congr {s s' : TaskSharedState α ε} (h : ExceptionOk kind s)
    (h1 : s'.state = s.state) (h2 : s'.preparedNextState = s.preparedNextState)
    (h3 : s'.exceptionPtr = s.exceptionPtr) : ExceptionOk kind s' := by
  refine ⟨?_, ?_, ?_, ?_, ?_⟩ <;> simp only [h1, h2, h3]
  exacts [h.untouched, h.prepared, h.unprepared, h.faulted, h.canceled]

/-- The joint invariant of the shared state and of the threads: the scheduled item stores the
    exception before it writes the state. -/
structure ExceptionsOk (kind : TaskKind) (s : TaskSystem α ε T) : Prop where
  task : ExceptionOk kind s.task
  canceled : ∀ t, s.pc t = .bodyCanceled → s.task.exceptionPtr = some .operationCanceled
  faulted : ∀ t, s.pc t = .bodyFaulted → s.task.exceptionPtr ≠ none

namespace ExceptionsOk

variable [DecidableEq T] {s s' : TaskSystem α ε T} {t : T} {p : Pc}

/-- A thread moves, the exception stays. -/
theorem move (h : ExceptionsOk kind s) (hpc : s'.pc = Function.update s.pc t p)
    (hp : p ≠ .bodyCanceled ∧ p ≠ .bodyFaulted) (hx : ExceptionOk kind s'.task)
    (he : s'.task.exceptionPtr = s.task.exceptionPtr := by rfl) : ExceptionsOk kind s' := by
  refine ⟨hx, fun u hu => ?_, fun u hu => ?_⟩ <;> rw [he] <;> rw [hpc] at hu <;>
    by_cases hut : u = t
  · subst hut
    exact absurd (by simpa using hu) hp.1
  · rw [Function.update_of_ne hut] at hu
    exact h.canceled u hu
  · subst hut
    exact absurd (by simpa using hu) hp.2
  · rw [Function.update_of_ne hut] at hu
    exact h.faulted u hu

/-- A thread moves, the shared state keeps its state and exception. -/
theorem quiet (h : ExceptionsOk kind s) (hpc : s'.pc = Function.update s.pc t p)
    (hp : p ≠ .bodyCanceled ∧ p ≠ .bodyFaulted) (h1 : s'.task.state = s.task.state := by rfl)
    (h2 : s'.task.preparedNextState = s.task.preparedNextState := by rfl)
    (h3 : s'.task.exceptionPtr = s.task.exceptionPtr := by rfl) : ExceptionsOk kind s' :=
  h.move hpc hp (h.task.congr h1 h2 h3) h3

/-- The only carrier of the run stores the exception it ends with. -/
theorem store [Fintype T] (h : ExceptionsOk kind s) (hi : Inv s) (ht : (s.pc t).carries = 1)
    {e : Exn ε} (hpc : s'.pc = Function.update s.pc t p)
    (hcanceled : p = .bodyCanceled → e = .operationCanceled)
    (htask : s'.task = { s.task with exceptionPtr := some e }) : ExceptionsOk kind s' := by
  obtain ⟨-, hun, honly⟩ := hi.only_carrier ht
  have hother : ∀ u, u ≠ t → (s'.pc u).carries = 0 := by
    intro u hu
    rw [hpc, Function.update_of_ne hu]
    exact honly u hu
  refine ⟨?_, fun u hu => ?_, fun u hu => ?_⟩
  · rw [htask]
    refine ⟨fun hst => ?_, fun _ => nofun, h.task.unprepared, fun _ => nofun, fun hst => ?_⟩ <;>
      rw [show s.task.state = _ from hst] at hun <;> cases hun
  · have hut : u = t := by
      by_contra hne
      have h0 := hother u hne
      rw [hu] at h0
      cases h0
    subst hut
    rw [hpc, Function.update_self] at hu
    rw [htask, hcanceled hu]
  · rw [htask]
    nofun

/-- The final state is written where the exception fits it. -/
theorem write (h : ExceptionsOk kind s) (st : TaskState) (hpc : s'.pc = Function.update s.pc t p)
    (hp : p ≠ .bodyCanceled ∧ p ≠ .bodyFaulted) (hst : st ≠ .created)
    (hfaulted : st = .faulted → s.task.exceptionPtr ≠ none)
    (hcanceled : st = .canceled →
      s.task.exceptionPtr = none ∨ s.task.exceptionPtr = some .operationCanceled)
    (htask : s'.task = { s.task with state := st } := by rfl) : ExceptionsOk kind s' := by
  have hx : ExceptionOk kind { s.task with state := st } :=
    ⟨fun h0 => absurd h0 hst, h.task.prepared, h.task.unprepared, hfaulted, hcanceled⟩
  exact h.move hpc hp (by rwa [htask]) (by rw [htask])

theorem run_step [Fintype T] (h : ExceptionsOk kind s) (hi : Inv s) (ho : StartedOnce kind s)
    (hs : s.runStep t = some s') : ExceptionsOk kind s' := by
  cases runStep_cases hs with
  | addLate | addEarly | addEnqueue | addRun | startAgain | startEnqueue | bodyBegin | bodyCall
  | runContinuations | continued | continuing | waitThrows | waitResult | waitReturns | waitAgain
  | waitPark | woken | resultCall => exact h.quiet rfl (by simp)
  | notify =>
    have hw : ExceptionsOk kind { s with pc := fun u => (s.pc u).wake } := by
      refine ⟨h.task, fun u hu => h.canceled u ?_, fun u hu => h.faulted u ?_⟩ <;>
        cases hp : s.pc u <;> simp_all [Pc.wake]
    exact hw.quiet rfl (by simp)
  | startCanceled hpc =>
    obtain ⟨hstarts, hcreated⟩ := ho.pending t (.inl hpc)
    have hprepared := h.task.unprepared (by rw [ho.function hstarts]; simp)
    exact h.write .canceled rfl (by simp) (by simp) (by simp) fun _ =>
      .inl (h.task.untouched hcreated (by rw [hprepared]; simp))
  | schedule => exact h.write .scheduled rfl (by simp) (by simp) (by simp) (by simp)
  | bodyRunning => exact h.write .running rfl (by simp) (by simp) (by simp) (by simp)
  | bodyDone => exact h.write .runToCompletion rfl (by simp) (by simp) (by simp) (by simp)
  | bodyThrows hpc => exact h.store hi (by rw [hpc]; rfl) rfl (fun _ => rfl) rfl
  | bodyCanceled hpc =>
    exact h.write .canceled rfl (by simp) (by simp) (by simp) fun _ => .inr (h.canceled t hpc)
  | bodyFaulted hpc =>
    exact h.write .faulted rfl (by simp) (by simp) (fun _ => h.faulted t hpc) (by simp)

theorem step [Fintype T] (h : ExceptionsOk kind s) (hi : Inv s) (ho : StartedOnce kind s)
    {a : TaskLabel α ε T} (hs : TaskSystem.step kind s a = some s') : ExceptionsOk kind s' := by
  cases a with
  | run t => exact h.run_step hi ho hs
  | call t r =>
    have hpc := (hi.call_effect hs).1
    simp only [TaskSystem.step, TaskSystem.callStep, hpc] at hs
    split at hs
    case h_1 => cases hs; exact h.quiet rfl (by simp)
    case h_2 e _ _ =>
      cases hs
      refine h.store hi (by rw [hpc]; rfl) rfl (fun hcanceled => ?_) rfl
      cases e <;> simp_all [Exn.isOperationCanceled]
    all_goals simp_all
  | set t c =>
    simp only [TaskSystem.step] at hs
    split at hs
    case isFalse => cases hs
    rename_i hen
    split at hs
    · cases hs; exact ⟨h.task, h.canceled, h.faulted⟩
    · cases hs; exact ⟨h.task, h.canceled, h.faulted⟩
    · rename_i task completed happ
      cases hs
      have hx := SetCall.exceptionOk h.task hen.2.2 happ
      have hcreated := (SetCall.apply_eq_ok_some happ hi.stored hen.2.2).1
      obtain ⟨-, hnone⟩ := hi.no_carrier (by rw [hcreated]; rfl)
      have hafter : ∀ u, (Function.update s.pc t (if completed then .notify else .idle) u).carries
          = 0 := by
        intro u
        by_cases hut : u = t
        · subst hut
          rw [Function.update_self]
          split <;> rfl
        · rw [Function.update_of_ne hut]
          exact hnone u
      refine ⟨hx, fun u hu => ?_, fun u hu => ?_⟩ <;> have hcarries := hafter u <;>
        rw [show Function.update s.pc t _ u = _ from hu] at hcarries <;> cases hcarries
  | cancel => cases hs; exact ⟨h.task, h.canceled, h.faulted⟩
  | start t =>
    simp only [TaskSystem.step] at hs
    split at hs <;> cases hs
    exact h.quiet rfl (by split <;> simp)
  | addContinuation t | wait t result | body t | spuriousWake t =>
    simp only [TaskSystem.step] at hs
    split at hs <;> cases hs
    exact h.quiet rfl (by simp)

end ExceptionsOk

/-! ## The stored result -/

/-- A setter stores its value in `_func`, or leaves `_func` as it is. -/
theorem SetCall.func_apply {s s' : TaskSharedState α ε} {c : SetCall α ε} {completed : Bool}
    (happ : c.apply s = .ok (some (s', completed))) : s'.func = c.value.or s.func := by
  rcases c with ⟨_ | e, b⟩ | ⟨_ | e⟩ | b | _ | ⟨v, b⟩ | v | _ <;> simp only [apply] at happ
  case setException.none | trySetException.none => cases happ
  case setException.some | setCanceled | setResult =>
    split at happ
    · cases happ
    · split at happ <;> cases happ <;> rfl
  case trySetException.some | trySetCanceled | trySetResult | publishResult =>
    split at happ <;> cases happ
    rfl

/-- `_func` holds what was produced last. -/
theorem func_step [DecidableEq T] {s s' : TaskSystem α ε T} {a : TaskLabel α ε T}
    (hs : TaskSystem.step kind s a = some s') :
    s'.task.func = (produces s a).or s.task.func := by
  cases a with
  | run t => cases runStep_cases hs <;> rfl
  | call t r =>
    simp only [TaskSystem.step, TaskSystem.callStep] at hs
    split at hs <;> cases hs <;> rfl
  | set t c =>
    simp only [TaskSystem.step] at hs
    split at hs
    case isFalse => cases hs
    unfold produces
    split at hs <;> rename_i happ <;> cases hs <;> simp only [happ]
    · rfl
    · rfl
    · exact SetCall.func_apply happ
  | cancel => cases hs; rfl
  | addContinuation t | wait t result | start t | body t | spuriousWake t =>
    simp only [TaskSystem.step] at hs
    split at hs <;> cases hs
    rfl

/-! ## Agreement -/

variable [Fintype T]

/-- What holds of the task and of what was produced, in every run. -/
structure ProducedInv (kind : TaskKind) (s : ProducedSystem α ε T) : Prop where
  inv : Inv s.system
  started : StartedOnce kind s.system
  observed : Observed s.system
  exceptions : ExceptionsOk kind s.system
  func : s.system.task.func = s.produced

namespace ProducedInv

variable {s s' : ProducedSystem α ε T}

theorem agrees (h : ProducedInv kind s) : Agrees s.system.task s.produced where
  faulted hst := Option.ne_none_iff_exists'.mp (h.exceptions.task.faulted hst)
  canceled := h.exceptions.task.canceled
  ran hst := by
    obtain ⟨v, hv⟩ := Option.isSome_iff_exists.mp (h.inv.stored.state hst)
    exact ⟨v, h.func ▸ hv, hv⟩

variable [DecidableEq T]

theorem step (h : ProducedInv kind s) {a : TaskLabel α ε T} (hg : ProducedOnce s a)
    (hs : (producedMachine kind α ε T).step s a = some s') : ProducedInv kind s' := by
  obtain ⟨t, ht, rfl⟩ := Option.map_eq_some_iff.mp hs
  have hguard := h.started.startGuard a
  refine ⟨h.inv.step hguard ht, h.started.step h.inv hg ht, h.observed.step h.inv hguard ht,
    h.exceptions.step h.inv h.started ht, ?_⟩
  rw [func_step ht, h.func]

end ProducedInv

variable [DecidableEq T] {s : ProducedSystem α ε T}

theorem reachable_producedInv (h : (producedMachine kind α ε T).Reachable ProducedOnce s) :
    ProducedInv kind s := by
  refine h.invariant ?_ fun s a s' hi hg hs => hi.step hg hs
  obtain ⟨hinv, hstarted⟩ :=
    reachable_startedOnce (Machine.Reachable.init (M := taskMachine kind α ε T))
  exact ⟨hinv, hstarted, ⟨nofun, nofun⟩,
    ⟨⟨fun _ _ => rfl, nofun, fun _ => rfl, nofun, nofun⟩, nofun, nofun⟩, rfl⟩

/-- A task of any kind that is started at most once, in any run: state, exception and result
    agree, and every `Wait()` and `Result()` that ended did so as the task did. -/
theorem state_and_exception_agree
    (h : (producedMachine kind α ε T).Reachable ProducedOnce s) :
    Agrees s.system.task s.produced ∧
      ∀ r ∈ s.system.waitLog, Reported s.system.task s.produced r := by
  have hi := reachable_producedInv h
  refine ⟨hi.agrees, fun r hr => ?_⟩
  obtain ⟨hc, hy⟩ := hi.observed.waits r hr
  exact hi.agrees.reported hc hy

/-- A coroutine returns 5 and then ends with an exception: `Result()` throws that exception,
    and the stored value is not seen. -/
theorem state_and_exception_agree_promise :
    ∃ s : ProducedSystem ℕ String Unit,
      (producedMachine .promise ℕ String Unit).Reachable ProducedOnce s ∧
        s.produced = some 5 ∧ s.system.task.state = .faulted ∧
        s.system.waitLog = [.error (some (.user true "late"))] ∧
        Agrees s.system.task s.produced ∧
        Reported s.system.task s.produced (.error (some (.user true "late"))) := by
  have hr : (producedMachine .promise ℕ String Unit).Reachable ProducedOnce _ :=
    .head (a := .set () (.setResult 5 false)) rfl nofun <|
    .head (a := .set () (.setException (some (.user true "late")) false)) rfl nofun <|
    .head (a := .set () .publishResult) rfl nofun <| .head (a := .run ()) rfl nofun <|
    .head (a := .run ()) rfl nofun <| .head (a := .run ()) rfl nofun <|
    .head (a := .wait () true) rfl nofun <| .head (a := .run ()) rfl nofun .refl
  obtain ⟨hagrees, hreported⟩ := state_and_exception_agree hr
  exact ⟨_, hr, rfl, rfl, rfl, hagrees, hreported _ (List.mem_singleton.mpr rfl)⟩

end AsyncCpp.Tasks
