import Mathlib.Data.Fintype.Option
import AsyncCpp.Tasks.FunctionTask

/-!
# Continuation tasks

`ContinueWith` makes a function task and hands its antecedent the continuation that calls
`Start()` on it (Tasks/Task.h:421-450). The task is returned to the caller, who can call
`Start()` as well. `runContinuations` invokes the continuations it took from the list in a
bare loop (Detail/Tasks/TaskHelpers.h:463-480): an exception of a `Start()` leaves the loop, the
continuations after it are dropped, and the exception goes on to whoever completed the
antecedent. That is the caller of a setter, of `Start()`, or of `ContinueWith`; or the
destructor of a `FinallyBlock` or `final_suspend`, which are `noexcept`.

The antecedent is a task of any kind, the continuation tasks return values of any types. `T`
names what threads do: a thread, or a call nested in another call of the thread. Of the
continuations of a continuation task, only an exception they throw inside the `Start()` of the
antecedent is followed.

Results:
* `continuation_after_antecedent`: where the `Start()` of the antecedent is the one that takes
  each continuation task from state `Created`, every continuation function runs at most once and
  after the antecedent is completed, nobody who completes the antecedent gets an exception,
  and every continuation task is started.
* `not_continuation_after_antecedent`: a caller that starts a continuation task first.
-/

namespace AsyncCpp.Tasks

open Interleaving

variable {α ε T : Type*} {β : ℕ → Type*} {kind : TaskKind}

/-! ## The antecedent and its continuation tasks -/

/-- The thread a label is about. -/
def TaskLabel.thread : TaskLabel α ε T → Option T
  | .addContinuation t | .start t | .body t | .set t _ | .wait t _ | .spuriousWake t | .call t _
  | .run t => some t
  | .cancel => none

/-- The same label for another name of the thread. -/
def TaskLabel.map {T' : Type*} (f : T → T') : TaskLabel α ε T → TaskLabel α ε T'
  | .addContinuation t => .addContinuation (f t)
  | .start t => .start (f t)
  | .body t => .body (f t)
  | .set t c => .set (f t) c
  | .wait t result => .wait (f t) result
  | .cancel => .cancel
  | .spuriousWake t => .spuriousWake (f t)
  | .call t r => .call (f t) r
  | .run t => .run (f t)

theorem TaskLabel.thread_map_ne (l : TaskLabel α ε T) : (l.map some).thread ≠ some none := by
  cases l <;> nofun

/-- The continuation a thread at this place invokes next. -/
def Pc.invokes : Pc → Option ℕ
  | .addRun k | .continuing (k :: _) => some k
  | _ => none

/-- The continuation the step invokes. -/
def TaskSystem.invokes (s : TaskSystem α ε T) : TaskLabel α ε T → Option ℕ
  | .run t => (s.pc t).invokes
  | _ => none

/-- The calls that end in `runContinuations` or in the invocation of a continuation. -/
inductive Caller where
  | continueWith
  | start
  | scheduledItem
  | setter
  | finalSuspend
  deriving DecidableEq, Repr

/-- An exception cannot leave the destructor of the `FinallyBlock` of the scheduled item, nor
    `final_suspend` (Utils/FinallyBlock.h:32-35, Tasks/TaskCompletionSource.h:148, 210). -/
def Caller.isNoexcept : Caller → Bool
  | .scheduledItem | .finalSuspend => true
  | _ => false

/-- The antecedent, the continuation tasks by the number of their `AddContinuation` call, the
    continuation task whose `Start()` a thread has called from the antecedent, which call of the
    antecedent a thread is in, the exceptions that left these calls, and whether
    `std::terminate` was called. Of a continuation task, `none` names the `Start()` call of the
    antecedent. -/
structure ContinuationRun (α : Type*) (β : ℕ → Type*) (ε T : Type*) where
  antecedent : TaskSystem α ε T := {}
  continuation : ∀ k, TaskSystem (β k) ε (Option T) := fun _ => {}
  starting : T → Option ℕ := fun _ => none
  caller : T → Caller := fun _ => .continueWith
  thrown : List (Caller × Exn ε) := []
  terminated : Bool := false

/-- Who moves: the antecedent, other than by invoking a continuation; a thread that invokes one,
    which calls `Start()`; that thread inside `Start()`; an exception of the scheduler of the
    continuation task, or of one of its own continuations, that leaves this `Start()`; or anyone
    else on a continuation task. -/
inductive ContinuationLabel (α : Type*) (β : ℕ → Type*) (ε T : Type*) where
  | antecedent (l : TaskLabel α ε T)
  | invoke (t : T)
  | starting (t : T)
  | startThrows (t : T) (e : Exn ε)
  | continuation (k : ℕ) (l : TaskLabel (β k) ε T)

namespace ContinuationRun

variable [DecidableEq T]

/-- The calls the threads are in after the step. -/
def callerAfter (caller : T → Caller) : TaskLabel α ε T → T → Caller
  | .addContinuation t => Function.update caller t .continueWith
  | .start t => Function.update caller t .start
  | .body t => Function.update caller t .scheduledItem
  | .set t .publishResult => Function.update caller t .finalSuspend
  | .set t _ => Function.update caller t .setter
  | _ => caller

/-- The continuation task `k` is in `c`. -/
def setTask (s : ContinuationRun α β ε T) (k : ℕ) (c : TaskSystem (β k) ε (Option T)) :
    ContinuationRun α β ε T :=
  { s with continuation := Function.update s.continuation k c }

/-- The `Start()` that thread `t` called from the antecedent throws `e`: the continuations it
    had still to invoke are dropped. -/
def unwind (s : ContinuationRun α β ε T) (t : T) (e : Exn ε) : ContinuationRun α β ε T :=
  { s with
    antecedent := s.antecedent.goto t .idle
    starting := Function.update s.starting t none
    thrown := s.thrown ++ [(s.caller t, e)]
    terminated := (s.caller t).isNoexcept }

/-- Thread `t` goes on inside the `Start()` of continuation task `k`. The call ends at `idle`;
    there it comes from its check of the state only by throwing. -/
def startStep (s : ContinuationRun α β ε T) (t : T) (k : ℕ) : Option (ContinuationRun α β ε T) :=
  ((s.continuation k).runStep none).map fun c =>
    if c.pc none = .idle then
      if (s.continuation k).pc none = .startLock then (s.setTask k c).unwind t taskStarted
      else { s.setTask k c with starting := Function.update s.starting t none }
    else s.setTask k c

def step (kind : TaskKind) (s : ContinuationRun α β ε T) :
    ContinuationLabel α β ε T → Option (ContinuationRun α β ε T)
  | .antecedent l =>
    if s.terminated = false ∧ l.thread.bind s.starting = none ∧ s.antecedent.invokes l = none then
      (TaskSystem.step kind s.antecedent l).map fun a =>
        { s with antecedent := a, caller := callerAfter s.caller l }
    else none
  | .invoke t =>
    if s.terminated = false ∧ s.starting t = none then
      match (s.antecedent.pc t).invokes with
      | none => none
      | some k =>
        (s.antecedent.runStep t).bind fun a =>
          (TaskSystem.step .function (s.continuation k) (.start none)).map fun c =>
            { s.setTask k c with antecedent := a, starting := Function.update s.starting t (some k) }
    else none
  | .starting t =>
    if s.terminated = false then (s.starting t).bind fun k => s.startStep t k
    else none
  | .startThrows t e =>
    if s.terminated = false then
      (s.starting t).bind fun k =>
        match (s.continuation k).pc none with
        | .startEnqueue | .continuing _ =>
          some ((s.setTask k ((s.continuation k).goto none .idle)).unwind t e)
        | _ => none
    else none
  | .continuation k l =>
    if s.terminated = false ∧ k < s.antecedent.added then
      (TaskSystem.step .function (s.continuation k) (l.map some)).map fun c => s.setTask k c
    else none

end ContinuationRun

/-- The machine of an antecedent of the given kind, before any call. -/
def continuationMachine (kind : TaskKind) (α : Type*) (β : ℕ → Type*) (ε T : Type*)
    [DecidableEq T] : Machine (ContinuationRun α β ε T) (ContinuationLabel α β ε T) where
  init := {}
  step := ContinuationRun.step kind

/-- The condition: a `Start()` of the antecedent that saw its token cancelled finds it in
    state `Created`; no `Start()` of another caller schedules a continuation task, and none
    cancels it while the `Start()` of the antecedent is before its check of the state; and that
    `Start()` throws nothing of its own. -/
def StartedInOrder (s : ContinuationRun α β ε T) : ContinuationLabel α β ε T → Prop
  | .antecedent l => StartGuard s.antecedent l
  | .continuation k (.run u) =>
    ((s.continuation k).pc (some u) = .startLock → (s.continuation k).task.state ≠ .created) ∧
      ((s.continuation k).pc (some u) = .startCanceled →
        (s.continuation k).task.state = .created → (s.continuation k).pc none ≠ .startLock)
  | .startThrows _ _ => False
  | _ => True

/-- No thread can go on. -/
def Stuck [DecidableEq T] (kind : TaskKind) (s : ContinuationRun α β ε T) : Prop :=
  (∀ t, s.step kind (.antecedent (.run t)) = none ∧ s.step kind (.invoke t) = none ∧
      s.step kind (.starting t) = none) ∧
    ∀ k u, s.step kind (.continuation k (.run u)) = none

structure ContinuationsHold [Fintype T] [DecidableEq T] (kind : TaskKind)
    (s : ContinuationRun α β ε T) : Prop where
  /-- The calls of a continuation function, going on or over. -/
  once : ∀ k, (s.continuation k).calls ≤ 1
  after : ∀ k, 0 < (s.continuation k).calls → s.antecedent.task.state.isCompleted
  noThrow : s.thrown = [] ∧ s.terminated = false
  started : s.antecedent.task.state.isCompleted → Stuck kind s → ∀ k < s.antecedent.added,
    s.antecedent.timesInvoked k = 1 ∧ (s.continuation k).task.state ≠ .created

/-! ## One task -/

/-- What a step leaves alone: a token stays cancelled, the other threads stay where they are or
    are woken, and only an invocation is logged as one. -/
theorem step_frame [DecidableEq T] {s s' : TaskSystem α ε T} {a : TaskLabel α ε T}
    (hs : TaskSystem.step kind s a = some s') :
    (s.isCanceled → s'.isCanceled) ∧
    (∀ u, a.thread ≠ some u → s'.pc u = s.pc u ∨ s'.pc u = (s.pc u).wake) ∧
    (s.invokes a = none → s'.invoked = s.invoked) := by
  have hupdate : ∀ (pc : T → Pc) {t : T} {p : Pc} (u : T), some t ≠ some u →
      Function.update pc t p u = pc u :=
    fun pc t p u hu => Function.update_of_ne (fun heq => hu (by rw [heq])) ..
  cases a with
  | run t =>
    cases runStep_cases hs with
    | addRun hpc | continuing hpc =>
      refine ⟨id, fun u hu => .inl (hupdate _ u hu), fun hinv => ?_⟩
      simp only [TaskSystem.invokes, hpc, Pc.invokes, reduceCtorEq] at hinv
    | notify hpc =>
      exact ⟨id, fun u hu => .inr (hupdate (fun u => (s.pc u).wake) u hu), fun _ => rfl⟩
    | _ => exact ⟨id, fun u hu => .inl (hupdate _ u hu), fun _ => rfl⟩
  | call t r =>
    simp only [TaskSystem.step, TaskSystem.callStep] at hs
    split at hs <;> cases hs <;> exact ⟨id, fun u hu => .inl (hupdate _ u hu), fun _ => rfl⟩
  | set t c =>
    simp only [TaskSystem.step] at hs
    split at hs
    · split at hs <;> cases hs
      · exact ⟨id, fun _ _ => .inl rfl, fun _ => rfl⟩
      · exact ⟨id, fun _ _ => .inl rfl, fun _ => rfl⟩
      · exact ⟨id, fun u hu => .inl (hupdate _ u hu), fun _ => rfl⟩
    · cases hs
  | cancel => cases hs; exact ⟨fun _ => rfl, fun _ _ => .inl rfl, fun _ => rfl⟩
  | addContinuation t | wait t result | start t | body t | spuriousWake t =>
    simp only [TaskSystem.step] at hs
    split at hs
    · cases hs; exact ⟨id, fun u hu => .inl (hupdate _ u hu), fun _ => rfl⟩
    · cases hs

/-- The places of the `Start()` call of the antecedent. -/
def Pc.inStart : Pc → Bool
  | .idle | .startCanceled | .startLock | .startEnqueue | .notify | .runContinuations
  | .continuing _ => true
  | _ => false

theorem Pc.wake_of_inStart {p : Pc} (h : p.inStart) : p.wake = p := by
  cases p <;> first | rfl | cases h

theorem runStep_invokes [DecidableEq T] {s : TaskSystem α ε T} {t : T} {k : ℕ}
    (hk : (s.pc t).invokes = some k) :
    (∃ p, s.runStep t = some (s.invoke t k p)) ∧
      (PcOk s.task (s.pc t) → s.task.state.isCompleted) := by
  cases hpc : s.pc t <;> simp only [hpc, Pc.invokes, reduceCtorEq] at hk
  case addRun k' =>
    cases hk
    exact ⟨⟨.idle, by simp only [TaskSystem.runStep, hpc]⟩, id⟩
  case continuing ks =>
    cases ks with
    | nil => cases hk
    | cons k' ks =>
      cases hk
      exact ⟨⟨.continuing ks, by simp only [TaskSystem.runStep, hpc]⟩, id⟩

theorem timesInvoked_invoke [DecidableEq T] (s : TaskSystem α ε T) (t : T) (k j : ℕ) (p : Pc) :
    (s.invoke t k p).timesInvoked j = s.timesInvoked j + if k = j then 1 else 0 := by
  simp only [TaskSystem.timesInvoked, TaskSystem.invoke, TaskSystem.goto, List.map_append,
    List.map_cons, List.map_nil, List.count_append, List.count_singleton, beq_iff_eq]

/-- A thread enters or leaves the `Start()` of another task than `j`. -/
theorem exists_starting_update [DecidableEq T] {starting : T → Option ℕ} {t : T} {v : Option ℕ}
    {j : ℕ} (hv : v ≠ some j) (ht : starting t ≠ some j) :
    (∃ u, Function.update starting t v u = some j) ↔ ∃ u, starting u = some j := by
  refine exists_congr fun u => ?_
  by_cases hu : u = t
  · subst hu
    rw [Function.update_self]
    exact iff_of_false hv ht
  · rw [Function.update_of_ne hu]

variable [Fintype T]

/-- What the number of the `Start()` calls of the antecedent, so far, tells about a
    continuation task. -/
structure TaskInv (calls : ℕ) (c : TaskSystem α ε (Option T)) : Prop where
  ok : FunctionOk c
  inStart : (c.pc none).inStart
  lock : c.pc none = .startLock → c.task.state = .created
  before : calls = 0 → c.pc none = .idle ∧ c.runs = 0 ∧ (c.task.state ≠ .created → c.isCanceled)
  after : calls ≠ 0 → c.task.state ≠ .created ∨ StartSection c none

namespace TaskInv

variable {n : ℕ} {c c' : TaskSystem α ε (Option T)}

theorem init : TaskInv 0 ({} : TaskSystem α ε (Option T)) where
  ok := .init
  inStart := rfl
  lock := nofun
  before := fun _ => ⟨rfl, by simp [TaskSystem.runs, tally, Pc.runs], fun hne => absurd rfl hne⟩
  after := fun h => absurd rfl h

variable [DecidableEq T]

/-- Another thread's critical section of `Start()` that saw the token cancelled. -/
theorem canceled_step (h : TaskInv n c) {u : Option T} (hpcu : c.pc u = .startCanceled)
    (hs : TaskSystem.step .function c (.run u) = some c') (hpc : c'.pc none = c.pc none)
    (hcanceled : c.task.state = .created → c.pc none ≠ .startLock) : TaskInv n c' := by
  obtain ⟨htoken, -, -⟩ := step_frame hs
  have hok := (h.ok.step hs).1
  have hruns := tally_update Pc.runs c.pc u .notify
  obtain ⟨hsame, hst⟩ : c'.runs = c.runs ∧ c'.task.state = .canceled := by
    simp only [TaskSystem.step, TaskSystem.runStep, hpcu] at hs
    split at hs <;> cases hs
    simp only [hpcu, Pc.runs] at hruns
    refine ⟨?_, rfl⟩
    simp only [TaskSystem.runs, TaskSystem.setState, TaskSystem.goto]
    omega
  have hne : c'.task.state ≠ .created := by
    rw [hst]
    simp
  refine ⟨hok, hpc ▸ h.inStart, fun hp => ?_, fun hn => ?_, fun _ => .inl hne⟩
  · rw [hpc] at hp
    exact absurd hp (hcanceled (h.lock hp))
  · obtain ⟨hidle, hzero, -⟩ := h.before hn
    exact ⟨hpc.trans hidle, hsame.trans hzero, fun _ => htoken (h.ok.canceled u hpcu)⟩

/-- A step that leaves state `Created` alone. -/
theorem keep_step (h : TaskInv n c) {l : TaskLabel α ε (Option T)}
    (hs : TaskSystem.step .function c l = some c') (hpc : c'.pc none = c.pc none)
    (hkeep : c'.task.state = .created ↔ c.task.state = .created) : TaskInv n c' := by
  obtain ⟨htoken, -, -⟩ := step_frame hs
  obtain ⟨hok, hle⟩ := h.ok.step hs
  have hsame : unscheduled c'.task.state = unscheduled c.task.state := by
    by_cases hc : c.task.state = .created
    · rw [hc, hkeep.mpr hc]
    · rw [unscheduled_eq_zero.mpr hc, unscheduled_eq_zero.mpr (mt hkeep.mp hc)]
  refine ⟨hok, hpc ▸ h.inStart, fun hp => hkeep.mpr (h.lock (hpc ▸ hp)), fun hn => ?_,
    fun hn => ?_⟩
  · obtain ⟨hidle, hruns, hcan⟩ := h.before hn
    exact ⟨hpc.trans hidle, by omega, fun hne => htoken (hcan (mt hkeep.mpr hne))⟩
  · unfold StartSection
    rw [hpc]
    exact (h.after hn).imp_left (mt hkeep.mp)

/-- Anyone else moves, and does not take the task from state `Created` against the
    condition. -/
theorem other (h : TaskInv n c) {l : TaskLabel α ε (Option T)}
    (hs : TaskSystem.step .function c l = some c') (hl : l.thread ≠ some none)
    (hlock : ∀ u, l = .run u → c.pc u = .startLock → c.task.state ≠ .created)
    (hcanceled : ∀ u, l = .run u → c.pc u = .startCanceled → c.task.state = .created →
      c.pc none ≠ .startLock) :
    TaskInv n c' ∧ c'.pc none = c.pc none := by
  have hpc : c'.pc none = c.pc none := by
    rcases (step_frame hs).2.1 none hl with hpc | hpc
    · exact hpc
    · rw [hpc, Pc.wake_of_inStart h.inStart]
  refine ⟨?_, hpc⟩
  by_cases hstart : ∃ u, l = .run u ∧ StartSection c u
  · obtain ⟨u, rfl, hpcu | hpcu⟩ := hstart
    · exact h.canceled_step hpcu hs hpc (hcanceled u rfl hpcu)
    · -- this `Start()` throws
      have hsame : c'.task = c.task := by
        simp only [TaskSystem.step, TaskSystem.runStep, hpcu, if_pos (hlock u rfl hpcu)] at hs
        split at hs <;> cases hs
        rfl
      exact h.keep_step hs hpc (by rw [hsame])
  · exact h.keep_step hs hpc
      (h.ok.created_of_not_start hs fun u hu hsec => hstart ⟨u, hu, hsec⟩)

/-- The antecedent calls `Start()`. -/
theorem start (h : TaskInv 0 c) :
    ∃ c', TaskSystem.step .function c (.start none) = some c' ∧ TaskInv 1 c' ∧
      c'.pc none ≠ .idle := by
  obtain ⟨hidle, hruns, hcan⟩ := h.before rfl
  have hs : TaskSystem.step .function c (.start none) =
      some { c.goto none (if c.isCanceled then .startCanceled else .startLock) with
        starts := c.starts + 1 } := by
    simp [TaskSystem.step, hidle]
  refine ⟨_, hs, ⟨(h.ok.step hs).1, ?_, fun hp => ?_, (by simp), fun _ => .inr ?_⟩, ?_⟩
  · simp only [TaskSystem.goto, Function.update_self]
    split <;> rfl
  · -- a task that is not in state `Created` by now has its token cancelled
    simp only [TaskSystem.goto, Function.update_self] at hp
    split at hp
    · cases hp
    · by_contra hne
      exact absurd (hcan hne) ‹_›
  · simp only [StartSection, TaskSystem.goto, Function.update_self]
    split <;> simp
  · simp only [TaskSystem.goto, Function.update_self]
    split <;> simp

/-- The antecedent goes on inside `Start()`: the check of the state does not throw. -/
theorem startStep (h : TaskInv n c) (hbusy : c.pc none ≠ .idle) (hs : c.runStep none = some c') :
    TaskInv n c' ∧ ¬ (c'.pc none = .idle ∧ c.pc none = .startLock) := by
  have hn : n ≠ 0 := fun hn => hbusy (h.before hn).1
  obtain ⟨hok, -⟩ := h.ok.run_step hs
  have hin := h.inStart
  have hafter := h.after hn
  cases runStep_cases hs with
  | startCanceled hpc =>
    refine ⟨⟨hok, ?_, ?_, fun h0 => absurd h0 hn, fun _ => .inl nofun⟩, ?_⟩ <;> simp [Pc.inStart]
  | schedule hpc =>
    refine ⟨⟨hok, ?_, ?_, fun h0 => absurd h0 hn, fun _ => .inl nofun⟩, ?_⟩ <;> simp [Pc.inStart]
  | startAgain hpc hfree hst => exact absurd (h.lock hpc) hst
  | startEnqueue hpc | notify hpc | runContinuations hpc | continued hpc | continuing hpc =>
    have hst : c.task.state ≠ .created := hafter.resolve_right (by simp [StartSection, hpc])
    refine ⟨⟨hok, ?_, ?_, fun h0 => absurd h0 hn, fun _ => .inl hst⟩, ?_⟩ <;>
      simp [Pc.inStart, hpc]
  | addLate hpc | addEarly hpc | addEnqueue hpc | addRun hpc | bodyThrows hpc | bodyBegin hpc
  | bodyRunning hpc | bodyCall hpc | bodyDone hpc | bodyCanceled hpc | bodyFaulted hpc
  | waitThrows hpc | waitResult hpc | waitReturns hpc | waitAgain hpc | waitPark hpc | woken hpc
  | resultCall hpc =>
    rw [hpc] at hin
    cases hin

/-- While the `Start()` call of the antecedent is not over, someone can go on. -/
theorem progress (h : TaskInv n c) (hbusy : c.pc none ≠ .idle) : ∃ u, c.runStep u ≠ none := by
  by_cases hl : c.lockObject = none
  · refine ⟨none, ?_⟩
    have hin := h.inStart
    cases hpc : c.pc none <;> rw [hpc] at hin hbusy <;>
      simp [TaskSystem.runStep, hpc, hl, Pc.inStart] at hin hbusy ⊢
    case startLock => split <;> simp
    case continuing ks => cases ks <;> simp
  · exact h.ok.exists_run_of_locked hl

end TaskInv

/-! ## All tasks -/

/-- The antecedent and its continuation tasks fit together: each continuation task knows how
    often the antecedent has called its `Start()`, and the calls that are not over are those the
    threads are in. -/
structure ContinuationInv [DecidableEq T] (kind : TaskKind) (s : ContinuationRun α β ε T) :
    Prop where
  antecedent : (taskMachine kind α ε T).Reachable StartGuard s.antecedent
  terminal : s.antecedent.invoked ≠ [] → s.antecedent.task.state.isCompleted
  task : ∀ k, TaskInv (s.antecedent.timesInvoked k) (s.continuation k)
  busy : ∀ k, (s.continuation k).pc none ≠ .idle ↔ ∃ t, s.starting t = some k
  unique : ∀ t u k, s.starting t = some k → s.starting u = some k → t = u
  noThrow : s.thrown = [] ∧ s.terminated = false

theorem timesInvoked_le_one [DecidableEq T] {s : TaskSystem α ε T}
    (h : (taskMachine kind α ε T).Reachable StartGuard s) (k : ℕ) :
    s.timesInvoked k ≤ 1 ∧ (s.timesInvoked k ≠ 0 → k < s.added) := by
  have := (reachable_continuationsOk h).once k
  rw [List.count_range] at this
  split at this
  · exact ⟨by omega, fun _ => ‹_›⟩
  · exact ⟨by omega, fun hne => by omega⟩

namespace ContinuationInv

variable [DecidableEq T] {s s' : ContinuationRun α β ε T}

theorem init : ContinuationInv kind ({} : ContinuationRun α β ε T) where
  antecedent := .init
  terminal := fun hne => absurd rfl hne
  task := fun _ => .init
  busy := fun _ => ⟨fun hne => absurd rfl hne, nofun⟩
  unique := nofun
  noThrow := ⟨rfl, rfl⟩

/-- A continuation task moves, its call of `Start()` being where it was. -/
theorem setTask (h : ContinuationInv kind s) {k : ℕ} {c : TaskSystem (β k) ε (Option T)}
    (hc : TaskInv (s.antecedent.timesInvoked k) c)
    (hpc : c.pc none = .idle ↔ (s.continuation k).pc none = .idle) :
    ContinuationInv kind (s.setTask k c) := by
  refine ⟨h.antecedent, h.terminal, ?_, ?_, h.unique, h.noThrow⟩
  · exact (Function.forall_update_iff s.continuation fun j c =>
      TaskInv (s.antecedent.timesInvoked j) c).mpr ⟨hc, fun j _ => h.task j⟩
  · refine (Function.forall_update_iff s.continuation fun j (c : TaskSystem (β j) ε (Option T)) =>
      c.pc none ≠ .idle ↔ ∃ t, s.starting t = some j).mpr ⟨?_, fun j _ => h.busy j⟩
    rw [← h.busy, not_iff_not]
    exact hpc

theorem antecedent_step (h : ContinuationInv kind s) {l : TaskLabel α ε T}
    (hg : StartGuard s.antecedent l) (hs : s.step kind (.antecedent l) = some s') :
    ContinuationInv kind s' := by
  simp only [ContinuationRun.step] at hs
  split at hs
  case isFalse => cases hs
  rename_i hen
  obtain ⟨-, -, hinv⟩ := hen
  obtain ⟨a, ha, rfl⟩ := Option.map_eq_some_iff.mp hs
  have hlog := (step_frame ha).2.2 hinv
  refine ⟨h.antecedent.step hg ha, fun hne => ?_, fun k => ?_, h.busy, h.unique, h.noThrow⟩
  · have hc := h.terminal (hlog ▸ hne)
    rw [((reachable_inv h.antecedent).frozen hg ha hc).1]
    exact hc
  · have hsame : a.timesInvoked k = s.antecedent.timesInvoked k := by
      rw [TaskSystem.timesInvoked, hlog, TaskSystem.timesInvoked]
    show TaskInv (a.timesInvoked k) _
    rw [hsame]
    exact h.task k

/-- A continuation is invoked once: before, its task knows of no call. -/
theorem before_invoke (h : ContinuationInv kind s) {t : T} {k : ℕ} {p : Pc}
    (hk : (s.antecedent.pc t).invokes = some k)
    (hp : s.antecedent.runStep t = some (s.antecedent.invoke t k p)) :
    (taskMachine kind α ε T).Reachable StartGuard (s.antecedent.invoke t k p) ∧
      s.antecedent.timesInvoked k = 0 := by
  have hreach : (taskMachine kind α ε T).Reachable StartGuard (s.antecedent.invoke t k p) := by
    refine h.antecedent.step (a := .run t) (fun u hu hpc => ?_) hp
    cases hu
    rw [hpc] at hk
    cases hk
  have hone := (timesInvoked_le_one hreach k).1
  rw [timesInvoked_invoke, if_pos rfl] at hone
  exact ⟨hreach, by omega⟩

/-- A continuation is invoked once, so its task is not in a `Start()` call of the antecedent
    before, and has been in none. -/
theorem invoke_step (h : ContinuationInv kind s) {t : T}
    (hs : s.step kind (.invoke t) = some s') : ContinuationInv kind s' := by
  simp only [ContinuationRun.step] at hs
  split at hs
  case isFalse => cases hs
  rename_i hen
  split at hs
  · cases hs
  rename_i k hk
  obtain ⟨a, ha, hs⟩ := Option.bind_eq_some_iff.mp hs
  obtain ⟨c, hc, rfl⟩ := Option.map_eq_some_iff.mp hs
  obtain ⟨⟨p, hp⟩, hterminal⟩ := runStep_invokes hk
  cases ha.symm.trans hp
  obtain ⟨hreach, hzero⟩ := h.before_invoke hk hp
  have htask := h.task k
  rw [hzero] at htask
  obtain ⟨c', hc', hinv, hbusy⟩ := htask.start
  cases hc.symm.trans hc'
  have hnone : ∀ u, s.starting u ≠ some k := fun u hu =>
    (h.busy k).mpr ⟨u, hu⟩ (htask.before rfl).1
  refine ⟨hreach, fun _ => hterminal ((reachable_inv h.antecedent).pc t), ?_, ?_,
    fun u v j hu hv => ?_, h.noThrow⟩
  · refine (Function.forall_update_iff s.continuation fun j c =>
      TaskInv ((s.antecedent.invoke t k p).timesInvoked j) c).mpr ⟨?_, fun j hj => ?_⟩ <;>
      rw [timesInvoked_invoke]
    · rw [hzero, if_pos rfl]
      exact hinv
    · rw [if_neg (Ne.symm hj)]
      exact h.task j
  · refine (Function.forall_update_iff s.continuation fun j (c : TaskSystem (β j) ε (Option T)) =>
      c.pc none ≠ .idle ↔ ∃ u, Function.update s.starting t (some k) u = some j).mpr
        ⟨⟨fun _ => ⟨t, Function.update_self ..⟩, fun _ => hbusy⟩, fun j hj => ?_⟩
    rw [h.busy, exists_starting_update (by simpa using Ne.symm hj) (by simp [hen.2])]
  · have hnew : ∀ w, Function.update s.starting t (some k) w = some j →
        w = t ∧ j = k ∨ s.starting w = some j := by
      intro w hw
      by_cases hwt : w = t
      · subst hwt
        rw [Function.update_self] at hw
        cases hw
        exact .inl ⟨rfl, rfl⟩
      · rw [Function.update_of_ne hwt] at hw
        exact .inr hw
    obtain ⟨rfl, rfl⟩ | hu' := hnew u hu <;> obtain ⟨rfl, hj⟩ | hv' := hnew v hv
    · rfl
    · exact absurd hv' (hnone v)
    · exact absurd (hj ▸ hu') (hnone u)
    · exact h.unique u v j hu' hv'

theorem starting_step (h : ContinuationInv kind s) {t : T}
    (hs : s.step kind (.starting t) = some s') : ContinuationInv kind s' := by
  simp only [ContinuationRun.step] at hs
  split at hs
  case isFalse => cases hs
  obtain ⟨k, hk, hs⟩ := Option.bind_eq_some_iff.mp hs
  obtain ⟨c, hc, rfl⟩ := Option.map_eq_some_iff.mp hs
  have hbusy := (h.busy k).mpr ⟨t, hk⟩
  obtain ⟨hinv, hnothrow⟩ := (h.task k).startStep hbusy hc
  by_cases hidle : c.pc none = .idle
  · -- the call of `Start()` returns
    rw [if_pos hidle, if_neg fun hlock => hnothrow ⟨hidle, hlock⟩]
    refine ⟨h.antecedent, h.terminal, ?_, ?_, fun u v j hu hv => ?_, h.noThrow⟩
    · exact (Function.forall_update_iff s.continuation fun j c =>
        TaskInv (s.antecedent.timesInvoked j) c).mpr ⟨hinv, fun j _ => h.task j⟩
    · refine (Function.forall_update_iff s.continuation fun j (c : TaskSystem (β j) ε (Option T)) =>
        c.pc none ≠ .idle ↔ ∃ u, Function.update s.starting t none u = some j).mpr
          ⟨⟨fun hne => absurd hidle hne, fun ⟨u, hu⟩ => ?_⟩, fun j hj => ?_⟩
      · by_cases hut : u = t
        · subst hut
          rw [Function.update_self] at hu
          cases hu
        · rw [Function.update_of_ne hut] at hu
          exact absurd (h.unique u t k hu hk) hut
      · rw [h.busy, exists_starting_update (by simp) (by simpa [hk] using Ne.symm hj)]
    · have hold : ∀ w, Function.update s.starting t none w = some j → s.starting w = some j := by
        intro w hw
        by_cases hwt : w = t
        · subst hwt
          rw [Function.update_self] at hw
          cases hw
        · rwa [Function.update_of_ne hwt] at hw
      exact h.unique u v j (hold u hu) (hold v hv)
  · rw [if_neg hidle]
    exact h.setTask hinv ⟨fun h0 => absurd h0 hidle, fun h0 => absurd h0 hbusy⟩

theorem continuation_step (h : ContinuationInv kind s) {k : ℕ} {l : TaskLabel (β k) ε T}
    (hg : StartedInOrder s (.continuation k l))
    (hs : s.step kind (.continuation k l) = some s') : ContinuationInv kind s' := by
  simp only [ContinuationRun.step] at hs
  split at hs
  case isFalse => cases hs
  obtain ⟨c, hc, rfl⟩ := Option.map_eq_some_iff.mp hs
  have hrun : ∀ u, l.map some = .run u → ∃ v, u = some v ∧ l = .run v := by
    intro u hu
    cases l <;> cases hu
    exact ⟨_, rfl, rfl⟩
  obtain ⟨hinv, hpc⟩ := (h.task k).other hc l.thread_map_ne
    (fun u hu hp => by
      obtain ⟨v, rfl, rfl⟩ := hrun u hu
      exact hg.1 hp)
    (fun u hu hp hcreated => by
      obtain ⟨v, rfl, rfl⟩ := hrun u hu
      exact hg.2 hp hcreated)
  exact h.setTask hinv (by rw [hpc])

theorem step (h : ContinuationInv kind s) {l : ContinuationLabel α β ε T}
    (hg : StartedInOrder s l) (hs : s.step kind l = some s') : ContinuationInv kind s' := by
  cases l with
  | antecedent l => exact h.antecedent_step hg hs
  | invoke t => exact h.invoke_step hs
  | starting t => exact h.starting_step hs
  | startThrows t e => cases hg
  | continuation k l => exact h.continuation_step hg hs

end ContinuationInv

theorem reachable_continuationInv [DecidableEq T] {s : ContinuationRun α β ε T}
    (h : (continuationMachine kind α β ε T).Reachable StartedInOrder s) :
    ContinuationInv kind s :=
  h.invariant .init fun _ _ _ hi hg hs => hi.step hg hs

/-! ## What the antecedent starts -/

namespace ContinuationInv

variable [DecidableEq T] {s : ContinuationRun α β ε T}

/-- Where no thread can go on, no `Start()` call of the antecedent is unfinished. -/
theorem starting_of_stuck (h : ContinuationInv kind s) (hstuck : Stuck kind s) (t : T) :
    s.starting t = none := by
  by_contra hne
  obtain ⟨k, hk⟩ := Option.ne_none_iff_exists'.mp hne
  have hbusy := (h.busy k).mpr ⟨t, hk⟩
  obtain ⟨u, hu⟩ := (h.task k).progress hbusy
  cases u with
  | none =>
    have hnone := (hstuck.1 t).2.2
    simp only [ContinuationRun.step, h.noThrow.2, if_true, hk, Option.bind_some,
      ContinuationRun.startStep, Option.map_eq_none_iff] at hnone
    exact hu hnone
  | some v =>
    have hcalls : s.antecedent.timesInvoked k ≠ 0 := fun h0 => hbusy ((h.task k).before h0).1
    have hlt := (timesInvoked_le_one h.antecedent k).2 hcalls
    have hnone := hstuck.2 k v
    simp only [ContinuationRun.step, h.noThrow.2, hlt, and_self, if_true,
      Option.map_eq_none_iff] at hnone
    exact hu hnone

/-- Nor can the antecedent go on. -/
theorem runStep_of_stuck (h : ContinuationInv kind s) (hstuck : Stuck kind s) (t : T) :
    s.antecedent.runStep t = none := by
  have hfree := h.starting_of_stuck hstuck t
  cases hk : (s.antecedent.pc t).invokes with
  | none =>
    have hnone := (hstuck.1 t).1
    simp only [ContinuationRun.step, h.noThrow.2, TaskLabel.thread, Option.bind_some, hfree,
      TaskSystem.invokes, hk, and_self, if_true, Option.map_eq_none_iff] at hnone
    exact hnone
  | some k =>
    obtain ⟨⟨p, hp⟩, -⟩ := runStep_invokes hk
    have htask := h.task k
    rw [(h.before_invoke hk hp).2] at htask
    obtain ⟨c, hc, -⟩ := htask.start
    have hnone := (hstuck.1 t).2.1
    simp only [ContinuationRun.step, h.noThrow.2, hfree, and_self, if_true, hk, hp, hc,
      Option.bind_some, Option.map_some, reduceCtorEq] at hnone

end ContinuationInv

/-- In every run in which the `Start()` of the antecedent is the one that takes each continuation
    task from state `Created`: every continuation function runs at most once, and only when the
    antecedent is completed; no exception leaves a call that completes the antecedent or adds a
    continuation; and where the antecedent is completed and no thread can go on, the antecedent
    has started every continuation task, once. -/
theorem continuation_after_antecedent [DecidableEq T] {s : ContinuationRun α β ε T}
    (h : (continuationMachine kind α β ε T).Reachable StartedInOrder s) :
    ContinuationsHold kind s := by
  have hi := reachable_continuationInv h
  refine ⟨fun k => ?_, fun k hk => ?_, hi.noThrow, fun hc hstuck k hk => ?_⟩
  · have := (s.continuation k).calls_le_runs
    have := (hi.task k).ok.once
    omega
  · refine hi.terminal fun hnil => ?_
    have hzero : s.antecedent.timesInvoked k = 0 := by
      rw [TaskSystem.timesInvoked, hnil]
      rfl
    have := (s.continuation k).calls_le_runs
    have := ((hi.task k).before hzero).2.1
    omega
  · have hone := (reachable_continuationsOk hi.antecedent).invoked_of_stuck hc
      (hi.runStep_of_stuck hstuck) hk
    have hidle : (s.continuation k).pc none = .idle := by
      by_contra hbusy
      obtain ⟨t, ht⟩ := (hi.busy k).mp hbusy
      rw [hi.starting_of_stuck hstuck t] at ht
      cases ht
    refine ⟨hone, ((hi.task k).after (by omega)).resolve_right ?_⟩
    rw [StartSection, hidle]
    simp

/-- Two continuation tasks of a `TaskCompletionSource`, the second cancelled and started by its
    owner: the antecedent starts both. -/
theorem continuation_after_antecedent_two :
    ∃ s : ContinuationRun ℕ (fun _ => ℕ) Empty Unit,
      ContinuationsHold .completionSource s ∧ s.antecedent.task.state = .runToCompletion ∧
        (s.continuation 0).funcLog = [.ok 7] ∧ (s.continuation 1).task.state = .canceled := by
  let M := continuationMachine .completionSource ℕ (fun _ => ℕ) Empty Unit
  have hr : M.Reachable StartedInOrder _ :=
    .head (a := .antecedent (.addContinuation ())) rfl nofun <|
    .head (a := .antecedent (.run ())) rfl nofun <|
    .head (a := .antecedent (.run ())) rfl nofun <|
    .head (a := .antecedent (.addContinuation ())) rfl nofun <|
    .head (a := .antecedent (.run ())) rfl nofun <|
    .head (a := .antecedent (.run ())) rfl nofun <|
    .head (a := .continuation 1 .cancel) rfl trivial <|
    .head (a := .continuation 1 (.start ())) rfl trivial <|
    .head (a := .continuation 1 (.run ())) rfl ⟨nofun, fun _ _ => nofun⟩ <|
    .head (a := .antecedent (.set () (.trySetResult 5))) rfl nofun <|
    .head (a := .antecedent (.run ())) rfl nofun <|
    .head (a := .antecedent (.run ())) rfl nofun <|
    .head (a := .invoke ()) rfl trivial <|
    .head (a := .starting ()) rfl trivial <|
    .head (a := .starting ()) rfl trivial <|
    .head (a := .invoke ()) rfl trivial <|
    .head (a := .starting ()) rfl trivial <|
    .head (a := .continuation 0 (.body ())) rfl trivial <|
    .head (a := .continuation 0 (.run ())) rfl ⟨nofun, nofun⟩ <|
    .head (a := .continuation 0 (.run ())) rfl ⟨nofun, nofun⟩ <|
    .head (a := .continuation 0 (.call () (.ok 7))) rfl trivial .refl
  exact ⟨_, continuation_after_antecedent hr, rfl, rfl, rfl⟩

/-- Without the condition: of two continuation tasks the owner starts the first, whose function
    runs while the antecedent is in state `Created`. `TrySetResult` then throws what the second
    `Start()` of that task throws, and the other task is never started. -/
theorem not_continuation_after_antecedent :
    ∃ s s' : ContinuationRun ℕ (fun _ => ℕ) Empty Unit,
      (continuationMachine .completionSource ℕ (fun _ => ℕ) Empty Unit).Reachable Machine.Any s ∧
      (continuationMachine .completionSource ℕ (fun _ => ℕ) Empty Unit).Reaches Machine.Any s s' ∧
      s.antecedent.task.state = .created ∧ (s.continuation 0).funcLog = [.ok 7] ∧
      ¬ ContinuationsHold .completionSource s ∧
      s'.antecedent.task.state = .runToCompletion ∧ s'.thrown = [(.setter, taskStarted)] ∧
      Stuck .completionSource s' ∧ s'.antecedent.added = 2 ∧
      (s'.continuation 1).task.state = .created ∧ ¬ ContinuationsHold .completionSource s' := by
  let add : List (ContinuationLabel ℕ (fun _ => ℕ) Empty Unit) :=
    [.antecedent (.addContinuation ()), .antecedent (.run ()), .antecedent (.run ())]
  let run : ContinuationLabel ℕ (fun _ => ℕ) Empty Unit := .continuation 0 (.run ())
  obtain ⟨s, hs, hcreated, hlog, hcalls, s', hs', hst, hthrown, hadded, hother, hstuck⟩ :
      ∃ s, (continuationMachine .completionSource ℕ (fun _ => ℕ) Empty Unit).run {}
        (add ++ add ++ [.continuation 0 (.start ()), run, run, .continuation 0 (.body ()), run,
          run, .continuation 0 (.call () (.ok 7)), run, run, run, run]) = some s ∧
      s.antecedent.task.state = .created ∧ (s.continuation 0).funcLog = [.ok 7] ∧
      (s.continuation 0).calls = 1 ∧
      ∃ s', (continuationMachine .completionSource ℕ (fun _ => ℕ) Empty Unit).run s
        [.antecedent (.set () (.trySetResult 5)), .antecedent (.run ()), .antecedent (.run ()),
          .invoke (), .starting ()] = some s' ∧
      s'.antecedent.task.state = .runToCompletion ∧ s'.thrown = [(.setter, taskStarted)] ∧
      s'.antecedent.added = 2 ∧ (s'.continuation 1).task.state = .created ∧
      Stuck .completionSource s' := by
    refine ⟨_, rfl, rfl, rfl, rfl, _, rfl, rfl, rfl, rfl, rfl, fun _ => ⟨rfl, rfl, rfl⟩, ?_⟩
    rintro (_ | _ | k) u <;> rfl
  refine ⟨s, s', .of_run hs, .of_run hs', hcreated, hlog, fun h => ?_, hst, hthrown, hstuck,
    hadded, hother, fun h => ?_⟩
  · have hc := h.after 0 (by omega)
    rw [hcreated] at hc
    cases hc
  · have hnil := h.noThrow.1
    rw [hthrown] at hnil
    cases hnil

end AsyncCpp.Tasks
