import Mathlib.Data.Fintype.Sum
import AsyncCpp.Tasks.ContinuationTasks
import AsyncCpp.Tasks.TaskCompletionSource

/-!
# `WhenAny` and `WaitAny`

`waitAnyTask` gives each argument a continuation that calls `TrySetResult` with the position of
the argument on one completion source (Tasks/TaskCombinators.h:46-51, 78-94). The continuation is
a function task on the default scheduler: `AddContinuation` stores its `Start()` or, where the
argument is completed, calls it (Detail/Tasks/TaskHelpers.h:209-234); the pool runs what was
started, in any order.

An argument is a task of any kind and type. It may be passed at several positions, have other
continuations and be completed before, during or after the call; how its completion comes about
is not followed, only that it is completed once. Its continuations, its observers and their
threads do what `ContinuationRun.step` says.

Results:
* `whenAny_names_finished`: in every run the result is completed at most once and stays as it
  is; it is the position of an argument that was completed before; and it is completed once the
  continuation of any argument has run.
-/

namespace AsyncCpp.Tasks

open Interleaving

section Labels

variable {α ε T : Type*}

/-- The calls on a task that do not complete it, and what follows them. -/
def TaskLabel.observes : TaskLabel α ε T → Bool
  | .addContinuation _ | .wait _ _ | .spuriousWake _ | .run _ => true
  | _ => false

/-- Thread `t` completes the task: it writes how the task ends, and calls `notify_all` and
    `runContinuations` next. The scheduled item does not take the lock for it
    (TaskHelpers.h:168). -/
def TaskSystem.complete [DecidableEq T] (s : TaskSystem α ε T) (t : T) (c : Completion α ε) :
    TaskSystem α ε T :=
  { s.goto t .notify with
    task := { TaskSharedState.ended c with continuations := s.task.continuations } }

/-- What moves on a task and its continuation tasks: observers of the task; those who invoke
    continuations; and on the continuation tasks that are `marked`, which nobody else has, only
    the pool. -/
def ContinuationLabel.allowed (marked : ℕ → Bool) :
    ContinuationLabel α (fun _ => Unit) ε T → Bool
  | .antecedent l => l.observes
  | .invoke _ | .starting _ | .startThrows _ _ => true
  | .continuation _ (.body _) | .continuation _ (.run _) => true
  | .continuation k _ => !marked k

/-- A call that a thread makes may end with `r` where it is at this place in `TrySetResult`: it
    has returned, or an exception of a continuation of the result leaves it. -/
def Pc.mayReturn : Pc → Except (Exn ε) Unit → Bool
  | .idle, .ok _ | .continuing _, .error _ => true
  | _, _ => false

end Labels

/-! ## The run -/

variable {ι : Type*} {α : ι → Type*} {ε T : Type*} {n : ℕ}

/-- The tasks with their continuations; how many arguments were given theirs, and for which
    position; whether the continuation for a position is inside `TrySetResult`; and the task of
    the completion source. There `inr p` names the call for position `p`. -/
structure WhenAnyRun {ι : Type*} (α : ι → Type*) (ε T : Type*) (n : ℕ) where
  task : ∀ i, ContinuationRun (α i) (fun _ => Unit) ε T := fun _ => {}
  registered : ℕ := 0
  position : ι → ℕ → Option (Fin n) := fun _ _ => none
  setting : Fin n → Bool := fun _ => false
  result : TaskSystem ℕ ε (T ⊕ Fin n) := {}

/-- Who moves: the caller, who goes on to the next argument; a thread that completes a task, in a
    call of some kind, or takes it to another state that is not final; anyone else on a task; a
    pool thread that runs the continuation of an argument, up to the critical section of
    `TrySetResult`, on inside the call, and out of it; or someone to whom the result was
    returned (`WaitAny` calls its `Result()`). -/
inductive WhenAnyLabel {ι : Type*} (α : ι → Type*) (ε T : Type*) (n : ℕ) where
  | waitAnyTask
  | complete (i : ι) (t : T) (c : Completion (α i) ε) (caller : Caller)
  | advance (i : ι) (st : TaskState)
  | task (i : ι) (l : ContinuationLabel (α i) (fun _ => Unit) ε T)
  | trySetResult (i : ι) (k : ℕ) (t : T)
  | setting (p : Fin n)
  | returns (i : ι) (k : ℕ) (t : T) (r : Except (Exn ε) Unit)
  | result (l : TaskLabel ℕ ε T)

namespace WhenAnyRun

variable [DecidableEq ι] [DecidableEq T]

/-- Task `i` with its continuations is in `r`. -/
def setTask (s : WhenAnyRun α ε T n) (i : ι) (r : ContinuationRun (α i) (fun _ => Unit) ε T) :
    WhenAnyRun α ε T n :=
  { s with task := Function.update s.task i r }

/-- The continuation numbers of task `i` that belong to positions. -/
def marked (s : WhenAnyRun α ε T n) (i : ι) (k : ℕ) : Bool := (s.position i k).isSome

/-- Continuation `k` of task `i` is the one of position `p`. -/
def mark (s : WhenAnyRun α ε T n) (i : ι) (k : ℕ) (p : Fin n) : ι → ℕ → Option (Fin n) :=
  fun j m => if j = i ∧ m = k then some p else s.position j m

def step (kind : ι → TaskKind) (tasks : Fin n → ι) (caller : T) (s : WhenAnyRun α ε T n) :
    WhenAnyLabel α ε T n → Option (WhenAnyRun α ε T n)
  | .waitAnyTask =>
    if h : s.registered < n then
      let p : Fin n := ⟨s.registered, h⟩
      -- the call for the argument before has returned
      if ∀ q, (s.task (tasks q)).antecedent.pc caller = .idle ∧
          (s.task (tasks q)).starting caller = none then
        ((s.task (tasks p)).step (kind (tasks p)) (.antecedent (.addContinuation caller))).map
          fun r => { s.setTask (tasks p) r with
            registered := s.registered + 1
            position := s.mark (tasks p) (s.task (tasks p)).antecedent.added p }
      else none
    else none
  | .complete i t c caller =>
    let r := s.task i
    if r.terminated = false ∧ r.antecedent.task.state.isCompleted = false ∧
        r.antecedent.pc t = .idle ∧ r.starting t = none then
      some (s.setTask i { r with
        antecedent := r.antecedent.complete t c, caller := Function.update r.caller t caller })
    else none
  | .advance i st =>
    let r := s.task i
    if r.antecedent.task.state.isCompleted = false ∧ st.isCompleted = false then
      some (s.setTask i { r with
        antecedent := { r.antecedent with task := { r.antecedent.task with state := st } } })
    else none
  | .task i l =>
    if l.allowed (s.marked i) then ((s.task i).step (kind i) l).map fun r => s.setTask i r
    else none
  | .trySetResult i k t =>
    (s.position i k).bind fun p =>
      if ((s.task i).continuation k).pc (some t) = .bodyCall ∧ s.setting p = false then
        (TaskSystem.step .completionSource s.result (.set (.inr p) (.trySetResult p))).map
          fun r => { s with result := r, setting := Function.update s.setting p true }
      else none
  | .setting p =>
    if s.setting p then
      (TaskSystem.step .completionSource s.result (.run (.inr p))).map
        fun r => { s with result := r }
    else none
  | .returns i k t r =>
    (s.position i k).bind fun p =>
      if s.setting p ∧ (s.result.pc (.inr p)).mayReturn r then
        ((s.task i).step (kind i) (.continuation k (.call t r))).map fun c =>
          { s.setTask i c with setting := Function.update s.setting p false }
      else none
  | .result l =>
    if s.registered = n ∧ l.observes then
      (TaskSystem.step .completionSource s.result (l.map .inl)).map
        fun r => { s with result := r }
    else none

/-- The task at position `p` is completed. -/
def Finished (tasks : Fin n → ι) (s : WhenAnyRun α ε T n) (p : Fin n) : Prop :=
  (s.task (tasks p)).antecedent.task.state.isCompleted

end WhenAnyRun

/-- The machine of `WhenAny(tasks...)`, called by `caller`. -/
def whenAnyMachine [DecidableEq ι] [DecidableEq T] (kind : ι → TaskKind) (tasks : Fin n → ι)
    (caller : T) (α : ι → Type*) (ε : Type*) :
    Machine (WhenAnyRun α ε T n) (WhenAnyLabel α ε T n) where
  init := {}
  step := WhenAnyRun.step kind tasks caller

section Observers

variable {α ε T : Type*}

/-- A thread at this place is neither in `Start()` nor in the scheduled item. -/
def Pc.outside : Pc → Bool
  | .startCanceled | .startLock | .startEnqueue | .bodyBegin | .bodyRunning | .bodyCall
  | .bodyDone | .bodyCanceled | .bodyFaulted => false
  | _ => true

theorem Pc.outside_wake {p : Pc} (h : p.outside) : p.wake.outside := by
  cases p <;> first | rfl | cases h

theorem Pc.carries_of_outside {p : Pc} (h : p.outside) : p.carries = 0 := by
  cases p <;> first | rfl | cases h

/-- No thread is about to write the state, and the places of all fit it. -/
structure Passive (s : TaskSystem α ε T) : Prop where
  outside : ∀ t, (s.pc t).outside
  place : ∀ t, PcOk s.task (s.pc t)

namespace Passive

variable [DecidableEq T] {s s' : TaskSystem α ε T} {t : T} {p : Pc}

/-- One thread moves. -/
theorem move (h : Passive s) (hpc : s'.pc = Function.update s.pc t p) (hp : p.outside)
    (hok : PcOk s.task p) (htask : SameOutcome s.task s'.task) : Passive s' := by
  refine ⟨fun u => ?_, fun u => ?_⟩ <;> rw [hpc] <;> by_cases hu : u = t
  · subst hu
    rwa [Function.update_self]
  · rw [Function.update_of_ne hu]
    exact h.outside u
  · subst hu
    rw [Function.update_self]
    exact hok.congr htask.1 htask.2.1
  · rw [Function.update_of_ne hu]
    exact (h.place u).congr htask.1 htask.2.1

theorem run (h : Passive s) (hs : s.runStep t = some s') :
    Passive s' ∧ SameOutcome s.task s'.task := by
  have hout := h.outside t
  have hok := h.place t
  have hsame : ∀ st : TaskSharedState α ε, SameOutcome st st := fun _ => ⟨rfl, rfl, rfl⟩
  cases runStep_cases hs with
  | startCanceled hpc | startAgain hpc | schedule hpc | startEnqueue hpc | bodyThrows hpc
  | bodyBegin hpc | bodyRunning hpc | bodyCall hpc | bodyDone hpc | bodyCanceled hpc
  | bodyFaulted hpc =>
    rw [hpc] at hout
    cases hout
  | addLate hpc hc => exact ⟨h.move rfl rfl hc (hsame _), hsame _⟩
  | notify hpc =>
    rw [hpc] at hok
    have hw : Passive { s with pc := fun u => (s.pc u).wake } :=
      ⟨fun u => Pc.outside_wake (h.outside u), fun u => (h.place u).wake⟩
    exact ⟨hw.move rfl rfl hok (hsame _), hsame _⟩
  | runContinuations hpc | continuing hpc =>
    rw [hpc] at hok
    exact ⟨h.move rfl rfl hok ⟨rfl, rfl, rfl⟩, rfl, rfl, rfl⟩
  | waitResult hpc hc hw =>
    refine ⟨h.move rfl rfl ?_ (hsame _), hsame _⟩
    by_contra hne
    rw [TaskSharedState.waitOutcome, if_neg (show s.task.state ≠ .runToCompletion from hne)] at hw
    split at hw <;> cases hw
  | addEarly | addEnqueue | addRun | continued | waitThrows | waitReturns | waitAgain | waitPark
  | woken | resultCall => exact ⟨h.move rfl rfl trivial ⟨rfl, rfl, rfl⟩, rfl, rfl, rfl⟩

/-- The observers of a task leave its outcome alone. -/
theorem step (h : Passive s) {kind : TaskKind} {l : TaskLabel α ε T} (hl : l.observes)
    (hs : TaskSystem.step kind s l = some s') : Passive s' ∧ SameOutcome s.task s'.task := by
  cases l with
  | run t => exact h.run hs
  | addContinuation t | wait t result | spuriousWake t =>
    simp only [TaskSystem.step] at hs
    split at hs <;> cases hs
    exact ⟨h.move rfl rfl trivial ⟨rfl, rfl, rfl⟩, rfl, rfl, rfl⟩
  | start t | body t | set t c | cancel | call t r => cases hl

/-- Whoever completes the task calls `notify_all` next. -/
theorem complete (h : Passive s) (hc : s.task.state.isCompleted = false) (c : Completion α ε) :
    Passive (s.complete t c) ∧ (s.complete t c).task.state.isCompleted := by
  have hended : (TaskSharedState.ended c).state.isCompleted := by cases c <;> rfl
  refine ⟨⟨fun u => ?_, fun u => ?_⟩, hended⟩ <;>
    simp only [TaskSystem.complete, TaskSystem.goto] <;> by_cases hu : u = t
  · subst hu
    rw [Function.update_self]
    rfl
  · rw [Function.update_of_ne hu]
    exact h.outside u
  · subst hu
    rw [Function.update_self]
    exact hended
  · rw [Function.update_of_ne hu]
    exact (h.place u).of_not_completed hc (Pc.carries_of_outside (h.outside u))

end Passive

end Observers

/-! ## A task and its continuations -/

section Antecedent

variable {α : Type*} {ε T : Type*} {kind : TaskKind}

/-- The continuation tasks nothing is known of but what the run does: those that belong to
    positions, and those that are not made yet. -/
def Watched (marked : ℕ → Bool) (r : ContinuationRun α (fun _ => Unit) ε T) (k : ℕ) : Prop :=
  marked k ∨ r.antecedent.added ≤ k

/-- Whoever is started from the task finds it completed. -/
structure AntecedentInv (marked : ℕ → Bool) (r : ContinuationRun α (fun _ => Unit) ε T) :
    Prop where
  passive : Passive r.antecedent
  starting : ∀ t k, r.starting t = some k → r.antecedent.task.state.isCompleted
  started : ∀ k, Watched marked r k → r.continuation k ≠ {} →
    r.antecedent.task.state.isCompleted

/-- The functions of the watched continuation tasks have ended as often as before. -/
def SameReturns (marked : ℕ → Bool) (r r' : ContinuationRun α (fun _ => Unit) ε T) : Prop :=
  r.antecedent.added ≤ r'.antecedent.added ∧
    ∀ k, Watched marked r' k → (r'.continuation k).funcLog = (r.continuation k).funcLog

theorem AntecedentInv.init (marked : ℕ → Bool) :
    AntecedentInv marked ({} : ContinuationRun α (fun _ => Unit) ε T) :=
  ⟨⟨fun _ => rfl, fun _ => trivial⟩, nofun, fun _ _ hne => absurd rfl hne⟩

/-- Running code does not end the function. -/
theorem funcLog_runStep [DecidableEq T] {s s' : TaskSystem α ε T} {t : T}
    (hs : s.runStep t = some s') : s'.funcLog = s.funcLog := by
  cases runStep_cases hs <;> rfl

theorem added_step [DecidableEq T] {s s' : TaskSystem α ε T} {l : TaskLabel α ε T}
    (hl : l.observes) (hs : TaskSystem.step kind s l = some s') : s.added ≤ s'.added := by
  cases l with
  | run t => cases runStep_cases hs <;> exact le_rfl
  | addContinuation t | wait t result | spuriousWake t =>
    simp only [TaskSystem.step] at hs
    split at hs <;> cases hs
    simp
  | start t | body t | set t c | cancel | call t r => cases hl

/-- The task is completed: what is done to its continuations no longer matters. -/
theorem AntecedentInv.of_completed {marked : ℕ → Bool}
    {r : ContinuationRun α (fun _ => Unit) ε T} (hp : Passive r.antecedent)
    (hc : r.antecedent.task.state.isCompleted) : AntecedentInv marked r :=
  ⟨hp, fun _ _ _ => hc, fun _ _ _ => hc⟩

variable {marked : ℕ → Bool} {r r' : ContinuationRun α (fun _ => Unit) ε T}

@[simp] theorem setTask_self (k : ℕ) (c : TaskSystem Unit ε (Option T)) :
    (r.setTask k c).continuation k = c :=
  Function.update_self ..

theorem setTask_of_ne {j k : ℕ} (c : TaskSystem Unit ε (Option T)) (h : j ≠ k) :
    (r.setTask k c).continuation j = r.continuation j :=
  Function.update_of_ne h ..

theorem funcLog_setTask {k : ℕ} {c : TaskSystem Unit ε (Option T)}
    (hlog : c.funcLog = (r.continuation k).funcLog) (j : ℕ) :
    ((r.setTask k c).continuation j).funcLog = (r.continuation j).funcLog := by
  by_cases hjk : j = k
  · subst hjk
    rw [setTask_self, hlog]
  · rw [setTask_of_ne c hjk]

/-- A step of a continuation task. -/
theorem continuation_eq_some [DecidableEq T] {k : ℕ} {l : TaskLabel Unit ε T} :
    r.step kind (.continuation k l) = some r' ↔ r.terminated = false ∧ k < r.antecedent.added ∧
      ∃ c, TaskSystem.step .function (r.continuation k) (l.map some) = some c ∧
        r.setTask k c = r' := by
  simp only [ContinuationRun.step, Option.ite_none_right_eq_some, Option.map_eq_some_iff, and_assoc]

/-- A continuation task goes on; the watched ones only after the task is completed. -/
theorem AntecedentInv.setTask (h : AntecedentInv marked r) {k : ℕ}
    {c : TaskSystem Unit ε (Option T)}
    (hc : Watched marked r k → r.antecedent.task.state.isCompleted) :
    AntecedentInv marked (r.setTask k c) := by
  refine ⟨h.passive, h.starting, fun j hj hne => ?_⟩
  by_cases hjk : j = k
  · subst hjk
    exact hc hj
  · rw [setTask_of_ne c hjk] at hne
    exact h.started j hj hne

namespace AntecedentInv

variable [DecidableEq T]

theorem antecedent_step (h : AntecedentInv marked r) {l : TaskLabel α ε T} (hl : l.observes)
    (hs : r.step kind (.antecedent l) = some r') :
    AntecedentInv marked r' ∧ SameOutcome r.antecedent.task r'.antecedent.task ∧
      SameReturns marked r r' := by
  simp only [ContinuationRun.step] at hs
  split at hs
  case isFalse => cases hs
  obtain ⟨a, ha, rfl⟩ := Option.map_eq_some_iff.mp hs
  obtain ⟨hp, hsame⟩ := h.passive.step hl ha
  have hadded := added_step hl ha
  refine ⟨⟨hp, fun t k ht => ?_, fun k hk hne => ?_⟩, hsame, hadded, fun _ _ => rfl⟩ <;>
    show a.task.state.isCompleted = true <;> rw [hsame.1]
  · exact h.starting t k ht
  · exact h.started k (hk.imp_right hadded.trans) hne

theorem invoke_step (h : AntecedentInv marked r) {t : T}
    (hs : r.step kind (.invoke t) = some r') :
    AntecedentInv marked r' ∧ SameOutcome r.antecedent.task r'.antecedent.task ∧
      SameReturns marked r r' := by
  simp only [ContinuationRun.step] at hs
  split at hs
  case isFalse => cases hs
  split at hs
  · cases hs
  rename_i k hk
  obtain ⟨a, ha, hs⟩ := Option.bind_eq_some_iff.mp hs
  obtain ⟨c, hc, rfl⟩ := Option.map_eq_some_iff.mp hs
  have hcompleted := (runStep_invokes hk).2 (h.passive.place t)
  obtain ⟨hp, hsame⟩ := h.passive.run ha
  refine ⟨of_completed hp (by rw [hsame.1]; exact hcompleted), hsame,
    added_step (l := .run t) rfl (show TaskSystem.step kind _ (.run t) = some _ from ha),
    fun j _ => funcLog_setTask ?_ j⟩
  simp only [TaskSystem.step] at hc
  split at hc <;> cases hc
  rfl

theorem unwind (h : AntecedentInv marked r) {t : T} {e : Exn ε} {k : ℕ}
    (ht : r.starting t = some k) {c : TaskSystem Unit ε (Option T)} :
    AntecedentInv marked ((r.setTask k c).unwind t e) :=
  of_completed (h.passive.move rfl rfl trivial ⟨rfl, rfl, rfl⟩) (h.starting t k ht)

theorem starting_step (h : AntecedentInv marked r) {t : T}
    (hs : r.step kind (.starting t) = some r') :
    AntecedentInv marked r' ∧ SameOutcome r.antecedent.task r'.antecedent.task ∧
      SameReturns marked r r' := by
  simp only [ContinuationRun.step] at hs
  split at hs
  case isFalse => cases hs
  obtain ⟨k, hk, hs⟩ := Option.bind_eq_some_iff.mp hs
  obtain ⟨c, hc, rfl⟩ := Option.map_eq_some_iff.mp hs
  have hcompleted := h.starting t k hk
  have hlog := funcLog_setTask (r := r) (funcLog_runStep hc)
  split_ifs
  · exact ⟨h.unwind hk, ⟨rfl, rfl, rfl⟩, le_rfl, fun j _ => hlog j⟩
  · exact ⟨of_completed h.passive hcompleted, ⟨rfl, rfl, rfl⟩, le_rfl, fun j _ => hlog j⟩
  · exact ⟨of_completed h.passive hcompleted, ⟨rfl, rfl, rfl⟩, le_rfl, fun j _ => hlog j⟩

theorem startThrows_step (h : AntecedentInv marked r) {t : T} {e : Exn ε}
    (hs : r.step kind (.startThrows t e) = some r') :
    AntecedentInv marked r' ∧ SameOutcome r.antecedent.task r'.antecedent.task ∧
      SameReturns marked r r' := by
  simp only [ContinuationRun.step] at hs
  split at hs
  case isFalse => cases hs
  obtain ⟨k, hk, hs⟩ := Option.bind_eq_some_iff.mp hs
  have hlog := funcLog_setTask (r := r) (c := (r.continuation k).goto none .idle) rfl
  split at hs
  case h_3 => cases hs
  all_goals
    cases hs
    exact ⟨h.unwind hk, ⟨rfl, rfl, rfl⟩, le_rfl, fun j _ => hlog j⟩

/-- The pool runs a continuation task that was started. -/
theorem pool_step (h : AntecedentInv marked r) {k : ℕ} {l : TaskLabel Unit ε T}
    (hl : (∃ t, l = .body t) ∨ ∃ t, l = .run t)
    (hs : r.step kind (.continuation k l) = some r') :
    AntecedentInv marked r' ∧ SameOutcome r.antecedent.task r'.antecedent.task ∧
      SameReturns marked r r' := by
  obtain ⟨-, -, c, hc, rfl⟩ := continuation_eq_some.mp hs
  have hne : r.continuation k ≠ {} := by
    intro hnew
    rw [hnew] at hc
    obtain ⟨t, rfl⟩ | ⟨t, rfl⟩ := hl
    · simp only [TaskLabel.map, TaskSystem.step, lt_irrefl, and_false, if_false, reduceCtorEq] at hc
    · simp only [TaskLabel.map, TaskSystem.step, TaskSystem.runStep, reduceCtorEq] at hc
  have hlog : c.funcLog = (r.continuation k).funcLog := by
    obtain ⟨t, rfl⟩ | ⟨t, rfl⟩ := hl
    · simp only [TaskLabel.map, TaskSystem.step] at hc
      split at hc <;> cases hc
      rfl
    · exact funcLog_runStep hc
  exact ⟨h.setTask fun hk => h.started k hk hne, ⟨rfl, rfl, rfl⟩, le_rfl,
    fun j _ => funcLog_setTask hlog j⟩

/-- What moves on a task keeps the invariant, the outcome, and the returns of the functions. -/
theorem step (h : AntecedentInv marked r) {l : ContinuationLabel α (fun _ => Unit) ε T}
    (hl : l.allowed marked) (hs : r.step kind l = some r') :
    AntecedentInv marked r' ∧ SameOutcome r.antecedent.task r'.antecedent.task ∧
      SameReturns marked r r' := by
  cases l with
  | antecedent l => exact h.antecedent_step hl hs
  | invoke t => exact h.invoke_step hs
  | starting t => exact h.starting_step hs
  | startThrows t e => exact h.startThrows_step hs
  | continuation k l =>
    by_cases hpool : (∃ t, l = .body t) ∨ ∃ t, l = .run t
    · exact h.pool_step hpool hs
    · have hmarked : marked k = false := by
        cases l with
        | body t => exact absurd (.inl ⟨t, rfl⟩) hpool
        | run t => exact absurd (.inr ⟨t, rfl⟩) hpool
        | addContinuation | start | set | wait | cancel | spuriousWake | call =>
          exact Bool.not_eq_true' _ ▸ hl
      obtain ⟨-, hk, c, -, rfl⟩ := continuation_eq_some.mp hs
      have hwatched : ¬ Watched marked r k := by
        rintro (hk' | hk')
        · rw [hmarked] at hk'
          cases hk'
        · omega
      refine ⟨h.setTask fun hw => absurd hw hwatched, ⟨rfl, rfl, rfl⟩, le_rfl, fun j hj => ?_⟩
      have hjk : j ≠ k := by
        rintro rfl
        exact hwatched hj
      rw [setTask_of_ne c hjk]

/-- The function of a continuation task ends. -/
theorem call_step (h : AntecedentInv marked r) {k : ℕ} {t : T} {v : Except (Exn ε) Unit}
    (hs : r.step kind (.continuation k (.call t v)) = some r') :
    AntecedentInv marked r' ∧ SameOutcome r.antecedent.task r'.antecedent.task ∧
      r'.antecedent.added = r.antecedent.added ∧
      ∀ j, j ≠ k → (r'.continuation j).funcLog = (r.continuation j).funcLog := by
  obtain ⟨-, -, c, hc, rfl⟩ := continuation_eq_some.mp hs
  have hne : r.continuation k ≠ {} := by
    intro hnew
    rw [hnew] at hc
    simp only [TaskLabel.map, TaskSystem.step, TaskSystem.callStep, reduceCtorEq] at hc
  exact ⟨h.setTask fun hw => h.started k hw hne, ⟨rfl, rfl, rfl⟩, rfl, fun j hj => by
    rw [setTask_of_ne c hj]⟩

/-- The caller adds the next continuation, which is marked from then on. -/
theorem mark_step (h : AntecedentInv marked r) {marked' : ℕ → Bool} {t : T}
    (hm : ∀ k, marked' k → marked k ∨ k = r.antecedent.added)
    (hs : r.step kind (.antecedent (.addContinuation t)) = some r') :
    AntecedentInv marked' r' ∧ SameOutcome r.antecedent.task r'.antecedent.task ∧
      ∀ k, Watched marked' r' k → Watched marked r k ∧
        (r'.continuation k).funcLog = (r.continuation k).funcLog := by
  obtain ⟨⟨hp, hstarting, hstarted⟩, hsame, -⟩ := h.antecedent_step rfl hs
  obtain ⟨hadded, hcont⟩ : r'.antecedent.added = r.antecedent.added + 1 ∧
      r'.continuation = r.continuation := by
    simp only [ContinuationRun.step] at hs
    split at hs
    case isFalse => cases hs
    obtain ⟨a, ha, rfl⟩ := Option.map_eq_some_iff.mp hs
    simp only [TaskSystem.step] at ha
    split at ha <;> cases ha
    exact ⟨rfl, rfl⟩
  have hold : ∀ k, Watched marked' r' k → Watched marked r k := by
    rintro k (hk | hk)
    · exact (hm k hk).imp_right fun heq => heq.ge
    · exact .inr (by omega)
  refine ⟨⟨hp, hstarting, fun k hk hne => ?_⟩, hsame, fun k hk => ⟨hold k hk, by rw [hcont]⟩⟩
  rw [hsame.1]
  exact h.started k (hold k hk) (by rwa [hcont] at hne)

end AntecedentInv

end Antecedent

/-! ## All tasks and the result -/

/-- A completed task stays completed. -/
theorem WhenAnyRun.finished_setTask [DecidableEq ι] {tasks : Fin n → ι} {s : WhenAnyRun α ε T n}
    {i : ι} {r : ContinuationRun (α i) (fun _ => Unit) ε T}
    (hc : (s.task i).antecedent.task.state.isCompleted → r.antecedent.task.state.isCompleted)
    {p : Fin n} (hp : s.Finished tasks p) : (s.setTask i r).Finished tasks p := by
  simp only [WhenAnyRun.Finished, WhenAnyRun.setTask] at hp ⊢
  by_cases hi : tasks p = i
  · subst hi
    rw [Function.update_self]
    exact hc hp
  · rwa [Function.update_of_ne hi]

variable [Fintype T]

structure WhenAnyInv (tasks : Fin n → ι) (s : WhenAnyRun α ε T n) : Prop where
  task : ∀ i, AntecedentInv (s.marked i) (s.task i)
  position : ∀ i k p, s.position i k = some p → tasks p = i
  source : SourceInv s.result
  later : ∀ r ∈ s.result.setLog.tail, r = .ok false
  index : s.result.task.state.isCompleted →
    ∃ p : Fin n, SameOutcome (.ended (.value (p : ℕ))) s.result.task ∧ s.Finished tasks p
  setting : ∀ p, s.setting p → s.result.task.state.isCompleted
  ran : ∀ i k, Watched (s.marked i) (s.task i) k →
    ((s.task i).continuation k).funcLog ≠ [] → s.result.task.state.isCompleted

theorem WhenAnyInv.init [DecidableEq T] (tasks : Fin n → ι) :
    WhenAnyInv tasks ({} : WhenAnyRun α ε T n) where
  task _ := .init _
  position := nofun
  source := reachable_sourceInv (.init (M := taskMachine .completionSource ℕ ε (T ⊕ Fin n)))
  later := nofun
  index := nofun
  setting := nofun
  ran := fun _ _ _ hne => absurd rfl hne

namespace WhenAnyInv

variable {tasks : Fin n → ι} {s s' : WhenAnyRun α ε T n}

section Tasks

variable [DecidableEq ι]

/-- One task moves. -/
theorem setTask (h : WhenAnyInv tasks s) {i : ι}
    {r : ContinuationRun (α i) (fun _ => Unit) ε T} (hr : AntecedentInv (s.marked i) r)
    (hc : (s.task i).antecedent.task.state.isCompleted → r.antecedent.task.state.isCompleted)
    (hlog : SameReturns (s.marked i) (s.task i) r) : WhenAnyInv tasks (s.setTask i r) where
  task := (Function.forall_update_iff s.task fun j r => AntecedentInv (s.marked j) r).mpr
    ⟨hr, fun j _ => h.task j⟩
  position := h.position
  source := h.source
  later := h.later
  index hcompleted := by
    obtain ⟨p, hp, hfinished⟩ := h.index hcompleted
    exact ⟨p, hp, WhenAnyRun.finished_setTask hc hfinished⟩
  setting := h.setting
  ran := (Function.forall_update_iff s.task fun j (r : ContinuationRun (α j) _ ε T) =>
      ∀ k, Watched (s.marked j) r k → (r.continuation k).funcLog ≠ [] →
        s.result.task.state.isCompleted).mpr
    ⟨fun k hk hne => h.ran i k (hk.imp_right hlog.1.trans) (by rwa [hlog.2 k hk] at hne),
      fun j _ => h.ran j⟩

/-- The function of a continuation ends, after its `TrySetResult`. -/
theorem returns_step (h : WhenAnyInv tasks s) {i : ι} {p : Fin n}
    {r : ContinuationRun (α i) (fun _ => Unit) ε T} (hset : s.setting p)
    (hr : AntecedentInv (s.marked i) r)
    (hc : (s.task i).antecedent.task.state.isCompleted → r.antecedent.task.state.isCompleted) :
    WhenAnyInv tasks { s.setTask i r with setting := Function.update s.setting p false } where
  task := (Function.forall_update_iff s.task fun j r => AntecedentInv (s.marked j) r).mpr
    ⟨hr, fun j _ => h.task j⟩
  position := h.position
  source := h.source
  later := h.later
  index hcompleted := by
    obtain ⟨q, hq, hfinished⟩ := h.index hcompleted
    exact ⟨q, hq, WhenAnyRun.finished_setTask hc hfinished⟩
  setting _ _ := h.setting p hset
  ran _ _ _ _ := h.setting p hset

end Tasks

variable [DecidableEq T]

/-- The result moves, but for a `TrySetResult`. -/
theorem of_result (h : WhenAnyInv tasks s) {a : TaskLabel ℕ ε (T ⊕ Fin n)}
    {r : TaskSystem ℕ ε (T ⊕ Fin n)} (ha : ∀ t c, a ≠ .set t c)
    (hs : TaskSystem.step .completionSource s.result a = some r) :
    WhenAnyInv tasks { s with result := r } ∧ SameOutcome s.result.task r.task := by
  obtain ⟨hsame, hlog⟩ := h.source.step_of_not_set ha hs
  have hc : s.result.task.state.isCompleted → r.task.state.isCompleted := fun hc => by
    rwa [hsame.1]
  refine ⟨⟨h.task, h.position, h.source.step (fun t c heq => absurd heq (ha t c)) hs, ?_,
    fun hcompleted => ?_, fun p hp => hc (h.setting p hp),
    fun i k hk hne => hc (h.ran i k hk hne)⟩, hsame⟩
  · rw [hlog]
    exact h.later
  · rw [hsame.1] at hcompleted
    obtain ⟨p, hp, hfinished⟩ := h.index hcompleted
    exact ⟨p, ⟨hsame.1.trans hp.1, hsame.2.1.trans hp.2.1, hsame.2.2.trans hp.2.2⟩, hfinished⟩

/-- The continuation for position `p` calls `TrySetResult`. Its task was started, so the argument
    is completed; and the result is from now on. -/
theorem trySetResult_step (h : WhenAnyInv tasks s) {i : ι} {k : ℕ} {t : T} {p : Fin n}
    {r : TaskSystem ℕ ε (T ⊕ Fin n)} (hp : s.position i k = some p)
    (hpc : ((s.task i).continuation k).pc (some t) = .bodyCall)
    (hs : TaskSystem.step .completionSource s.result (.set (.inr p) (.trySetResult p)) = some r) :
    WhenAnyInv tasks { s with result := r, setting := Function.update s.setting p true } ∧
      (SameOutcome s.result.task r.task ∨ s.result.task.state.isCompleted = false ∧
        SameOutcome (.ended (.value (p : ℕ))) r.task ∧ s.Finished tasks p) := by
  have hfinished : s.Finished tasks p := by
    have hne : (s.task i).continuation k ≠ {} := by
      intro hnew
      rw [hnew] at hpc
      cases hpc
    have hmarked : s.marked i k := by
      rw [WhenAnyRun.marked, hp]
      rfl
    have hc := (h.task i).started k (.inl hmarked) hne
    rw [WhenAnyRun.Finished]
    rwa [h.position i k p hp]
  have hvalue : (SetCall.trySetResult (p : ℕ) : SetCall ℕ ε).completion ≠ none :=
    Option.some_ne_none _
  have hsource : SourceInv r := by
    refine h.source.step (fun t c heq => ?_) hs
    cases heq
    exact hvalue
  by_cases hl : s.result.setLog = []
  · obtain ⟨hsame, hlog⟩ := h.source.set_first hl rfl hs
    have hc : r.task.state.isCompleted := by
      rw [hsame.1]
      rfl
    refine ⟨⟨h.task, h.position, hsource, ?_, fun _ => ⟨p, hsame, hfinished⟩, fun _ _ => hc,
      fun _ _ _ _ => hc⟩, .inr ⟨?_, hsame, hfinished⟩⟩
    · rw [hlog]
      nofun
    · rw [(h.source.untouched hl).1]
      rfl
  · obtain ⟨htask, hlog⟩ := h.source.set_late hl hvalue hs
    have hc : r.task.state.isCompleted := by
      rw [htask]
      exact h.source.completed hl
    refine ⟨⟨h.task, h.position, hsource, fun v hv => ?_, fun hcompleted => ?_, fun _ _ => hc,
      fun _ _ _ _ => hc⟩, .inl ?_⟩
    · rw [hlog, List.tail_append_of_ne_nil hl] at hv
      exact (List.mem_append.mp hv).elim (h.later v) List.mem_singleton.mp
    · rw [htask] at hcompleted ⊢
      exact h.index hcompleted
    · rw [htask]
      exact ⟨rfl, rfl, rfl⟩

variable [DecidableEq ι]

/-- The caller goes on to the next argument. -/
theorem mark_step (h : WhenAnyInv tasks s) {kind : TaskKind} {caller : T} {p : Fin n} {i : ι}
    (hi : tasks p = i) {r : ContinuationRun (α i) (fun _ => Unit) ε T}
    (hr : (s.task i).step kind (.antecedent (.addContinuation caller)) = some r) (m : ℕ) :
    WhenAnyInv tasks { s.setTask i r with
      registered := m, position := s.mark i (s.task i).antecedent.added p } := by
  have hmark : ∀ k, (s.mark i (s.task i).antecedent.added p i k).isSome →
      s.marked i k ∨ k = (s.task i).antecedent.added := by
    intro k hk
    by_cases hkk : k = (s.task i).antecedent.added
    · exact .inr hkk
    · simp only [WhenAnyRun.mark, hkk, and_false, if_false] at hk
      exact .inl hk
  have hother : ∀ j, j ≠ i → (fun k => (s.mark i (s.task i).antecedent.added p j k).isSome) =
      s.marked j := by
    intro j hj
    funext k
    simp only [WhenAnyRun.mark, hj, false_and, if_false, WhenAnyRun.marked]
  obtain ⟨hinv, hsame, hwatched⟩ := (h.task i).mark_step hmark hr
  have hc : (s.task i).antecedent.task.state.isCompleted →
      r.antecedent.task.state.isCompleted := fun hc => by rwa [hsame.1]
  constructor
  · refine (Function.forall_update_iff s.task fun j r =>
      AntecedentInv (fun k => (s.mark i (s.task i).antecedent.added p j k).isSome) r).mpr
        ⟨hinv, fun j hj => ?_⟩
    rw [hother j hj]
    exact h.task j
  · intro j k q hq
    simp only [WhenAnyRun.mark] at hq
    split at hq
    · rename_i hjk
      cases hq
      rw [hi, hjk.1]
    · exact h.position j k q hq
  · exact h.source
  · exact h.later
  · intro hcompleted
    obtain ⟨q, hq, hfinished⟩ := h.index hcompleted
    exact ⟨q, hq, WhenAnyRun.finished_setTask hc hfinished⟩
  · exact h.setting
  · refine (Function.forall_update_iff s.task fun j (r : ContinuationRun (α j) _ ε T) =>
      ∀ k, Watched (fun k => (s.mark i (s.task i).antecedent.added p j k).isSome) r k →
        (r.continuation k).funcLog ≠ [] → s.result.task.state.isCompleted).mpr
        ⟨fun k hk hne => ?_, fun j hj => ?_⟩
    · obtain ⟨hold, hlog⟩ := hwatched k hk
      exact h.ran i k hold (by rwa [hlog] at hne)
    · rw [hother j hj]
      exact h.ran j

/-- A step keeps the invariant. It leaves the outcome of the result alone, or completes the result
    with the position of an argument that was completed. -/
theorem step (h : WhenAnyInv tasks s) {kind : ι → TaskKind} {caller : T}
    {l : WhenAnyLabel α ε T n} (hs : s.step kind tasks caller l = some s') :
    WhenAnyInv tasks s' ∧ (SameOutcome s.result.task s'.result.task ∨
      s.result.task.state.isCompleted = false ∧
        ∃ p : Fin n, SameOutcome (.ended (.value (p : ℕ))) s'.result.task ∧
          s.Finished tasks p) := by
  have hsame : SameOutcome s.result.task s.result.task := ⟨rfl, rfl, rfl⟩
  cases l with
  | waitAnyTask =>
    simp only [WhenAnyRun.step] at hs
    split at hs
    case isFalse => cases hs
    split at hs
    case isFalse => cases hs
    obtain ⟨r, hr, rfl⟩ := Option.map_eq_some_iff.mp hs
    exact ⟨h.mark_step rfl hr _, .inl hsame⟩
  | complete i t c caller =>
    simp only [WhenAnyRun.step] at hs
    split at hs <;> cases hs
    rename_i hen
    obtain ⟨hpassive, hc⟩ := (h.task i).passive.complete (t := t) hen.2.1 c
    exact ⟨h.setTask (.of_completed hpassive hc) (fun _ => hc) ⟨le_rfl, fun _ _ => rfl⟩,
      .inl hsame⟩
  | advance i st =>
    simp only [WhenAnyRun.step] at hs
    split at hs <;> cases hs
    rename_i hen
    have hno : ∀ {P : Prop}, (s.task i).antecedent.task.state.isCompleted = true → P := fun hc => by
      rw [hen.1] at hc
      cases hc
    have hp := (h.task i).passive
    refine ⟨h.setTask ⟨⟨hp.outside, fun t => ?_⟩, fun t k ht => ?_, fun k hk hne => ?_⟩ hno
      ⟨le_rfl, fun _ _ => rfl⟩, .inl hsame⟩
    · exact (hp.place t).of_not_completed hen.1 (Pc.carries_of_outside (hp.outside t))
    · exact hno ((h.task i).starting t k ht)
    · exact hno ((h.task i).started k hk hne)
  | task i l =>
    simp only [WhenAnyRun.step] at hs
    split at hs
    case isFalse => cases hs
    rename_i hl
    obtain ⟨r, hr, rfl⟩ := Option.map_eq_some_iff.mp hs
    obtain ⟨hinv, hout, hreturns⟩ := (h.task i).step hl hr
    exact ⟨h.setTask hinv (fun hc => by rwa [hout.1]) hreturns, .inl hsame⟩
  | trySetResult i k t =>
    obtain ⟨p, hp, hs⟩ := Option.bind_eq_some_iff.mp hs
    split at hs
    case isFalse => cases hs
    rename_i hen
    obtain ⟨r, hr, rfl⟩ := Option.map_eq_some_iff.mp hs
    obtain ⟨hinv, hout⟩ := h.trySetResult_step hp hen.1 hr
    exact ⟨hinv, hout.imp_right fun ⟨hc, hout⟩ => ⟨hc, p, hout⟩⟩
  | setting p =>
    simp only [WhenAnyRun.step] at hs
    split at hs
    case isFalse => cases hs
    obtain ⟨r, hr, rfl⟩ := Option.map_eq_some_iff.mp hs
    obtain ⟨hinv, hout⟩ := h.of_result (fun t c heq => by cases heq) hr
    exact ⟨hinv, .inl hout⟩
  | returns i k t v =>
    obtain ⟨p, hp, hs⟩ := Option.bind_eq_some_iff.mp hs
    split at hs
    case isFalse => cases hs
    rename_i hen
    obtain ⟨r, hr, rfl⟩ := Option.map_eq_some_iff.mp hs
    obtain ⟨hinv, hout, -⟩ := (h.task i).call_step hr
    exact ⟨h.returns_step hen.1 hinv fun hc => by rwa [hout.1], .inl hsame⟩
  | result l =>
    simp only [WhenAnyRun.step] at hs
    split at hs
    case isFalse => cases hs
    rename_i hen
    obtain ⟨r, hr, rfl⟩ := Option.map_eq_some_iff.mp hs
    have hset : ∀ t c, l.map Sum.inl ≠ TaskLabel.set (T := T ⊕ Fin n) t c := fun t c heq => by
      cases l <;> cases heq
      cases hen.2
    obtain ⟨hinv, hout⟩ := h.of_result hset hr
    exact ⟨hinv, .inl hout⟩

end WhenAnyInv

section Result

variable [DecidableEq ι] [DecidableEq T] {kind : ι → TaskKind} {tasks : Fin n → ι} {caller : T}
  {s s' : WhenAnyRun α ε T n}

/-- A completed result keeps its outcome. -/
theorem WhenAnyInv.frozen (h : WhenAnyInv tasks s) (hc : s.result.task.state.isCompleted)
    (hr : (whenAnyMachine kind tasks caller α ε).Reaches Machine.Any s s') :
    SameOutcome s.result.task s'.result.task := by
  have hkept : WhenAnyInv tasks s' ∧ SameOutcome s.result.task s'.result.task := by
    refine hr.preserves
      (I := fun u => WhenAnyInv tasks u ∧ SameOutcome s.result.task u.result.task) ?_
      ⟨h, rfl, rfl, rfl⟩
    rintro u l u' ⟨hu, h1, h2, h3⟩ - hs
    obtain ⟨hu', ⟨h4, h5, h6⟩ | ⟨hopen, -⟩⟩ := hu.step hs
    · exact ⟨hu', h4.trans h1, h5.trans h2, h6.trans h3⟩
    · rw [h1, hc] at hopen
      cases hopen
  exact hkept.2

end Result

end AsyncCpp.Tasks
