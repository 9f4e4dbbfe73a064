import AsyncCpp.AsyncPrimitives.SemaphoreInvariant

/-!
# `Release` and the continuations of the waiters

`promise.TrySetResult()` in the loop of `Release` writes `RunToCompletion` to the wait task
and then runs its continuations (TaskHelpers.h:393-410, 463-480), each of which starts a
task and may throw. The `catch (...)` of the loop (AsyncSemaphore.cpp:96-108) swallows the
exception before `waiterReleased` is set, so the loop goes on to the next waiter.

The machine is the one of the semaphore, with the continuations of the wait tasks. They are
numbered in the order they were attached; `continuation k` is how number `k` ends.

Results:
* `release_grants_one_iff`: a `Release` call that returned granted one permit exactly when
  the continuations of the first pending waiter it came to all returned.
-/

namespace AsyncCpp.AsyncPrimitives

open Interleaving Tasks

variable {K ε : Type*}

/-! ## The machine -/

/-- A waiter `Release` came to, whether its wait task was pending then, and the continuations
    of the wait task. -/
structure Tried where
  waiter : ℕ
  pending : Bool
  continuations : List ℕ

/-- A call of `Release`: `_currentCount` when it entered its critical section and when it
    returned, and the waiters it came to. -/
structure ReleaseCall where
  countBefore : ℤ := 0
  countAfter : ℤ := 0
  tried : List Tried := []

/-- The semaphore, and the continuations attached to each wait task. `continuing` are the
    continuations `Release` has still to run inside `TrySetResult`. The last two fields are
    history: the call of `Release` in progress, and the calls that returned. -/
structure ContinuedSemaphore (K ε : Type*) where
  semaphore : AsyncSemaphore K ε
  continuations : ℕ → List ℕ := fun _ => []
  attached : ℕ := 0
  continuing : Option (List ℕ) := none
  releasing : ReleaseCall := {}
  calls : List ReleaseCall := []

inductive ContinuedLabel (K : Type*) where
  | waitAsync (k : Option K)
  | release
  /-- `ContinueWith` of wait task `i` is called. -/
  | continueWith (i : ℕ)
  /-- The holder of `_waitersLock` goes on. -/
  | advance
  | cancel (k : K)
  | runCancel (k : K)

namespace ReleaseCall

/-- The pending waiters the call came to. Their wait tasks completed with a result. -/
def granted (c : ReleaseCall) : List Tried := c.tried.filter (·.pending)

/-- The call completed one pending waiter and left the counter, or it came to no pending
    waiter and incremented the counter. -/
def OneGrant (c : ReleaseCall) : Prop :=
  (c.granted.length = 1 ∧ c.countAfter = c.countBefore) ∨
    (c.granted = [] ∧ c.countAfter = c.countBefore + 1)

end ReleaseCall

/-- All continuations of the waiter return. -/
def Tried.Returns (continuation : ℕ → Except (Exn ε) Unit) (w : Tried) : Prop :=
  ∀ k ∈ w.continuations, continuation k = .ok ()

namespace ContinuedSemaphore

/-- The semaphore moves to `t`. A call of `Release` that returns is recorded. -/
def moved (s : ContinuedSemaphore K ε) (t : AsyncSemaphore K ε) : ContinuedSemaphore K ε :=
  { s with
    semaphore := t
    calls := if t.released = s.semaphore.released then s.calls
      else s.calls ++ [{ s.releasing with countAfter := t.currentCount }] }

/-- `Release` comes to waiter `i`. -/
def attempt (s : ContinuedSemaphore K ε) (i : ℕ) : ContinuedSemaphore K ε :=
  { s with
    releasing := { s.releasing with
      tried := s.releasing.tried ++
        [⟨i, (s.semaphore.waitTask i).state = .created, s.continuations i⟩] } }

variable [DecidableEq K]

/-- The holder of `_waitersLock` goes on. -/
def advance (continuation : ℕ → Except (Exn ε) Unit) (s : ContinuedSemaphore K ε) :
    Option (ContinuedSemaphore K ε) :=
  match s.continuing, s.semaphore.critical with
  | some (k :: ks), _ =>
    match continuation k with
    | .ok () => some { s with continuing := some ks }
    -- `catch (...)`
    | .error _ => some ({ s with continuing := none }.moved (s.semaphore.loopTest false))
  | some [], .popped _ none =>
    some ({ s with continuing := none }.moved (s.semaphore.loopTest true))
  | some [], .popped _ (some r) =>
    some ({ s with continuing := none }.moved { s.semaphore with critical := .disposing r true })
  | some [], _ => none
  | none, .popped i _ =>
    if (s.semaphore.waitTask i).state = .created then
      some { s.attempt i with
        semaphore := s.semaphore.trySetResult i
        continuations := Function.update s.continuations i []
        continuing := some (s.continuations i) }
    else s.semaphore.advance.map (s.attempt i).moved
  | none, _ => s.semaphore.advance.map s.moved

/-- One step. A continuation attached to a completed wait task is run by the caller. -/
def step (continuation : ℕ → Except (Exn ε) Unit) (s : ContinuedSemaphore K ε) :
    ContinuedLabel K → Option (ContinuedSemaphore K ε)
  | .waitAsync k => (s.semaphore.step (.waitAsync k)).map s.moved
  | .release =>
    (s.semaphore.step .release).map
      { s with releasing := { countBefore := s.semaphore.currentCount } }.moved
  | .continueWith i =>
    if i < s.semaphore.issued then
      if (s.semaphore.waitTask i).state = .created then
        some { s with
          continuations := Function.update s.continuations i (s.continuations i ++ [s.attached])
          attached := s.attached + 1 }
      else some { s with attached := s.attached + 1 }
    else none
  | .advance => s.advance continuation
  | .cancel k => (s.semaphore.step (.cancel k)).map s.moved
  | .runCancel k => (s.semaphore.step (.runCancel k)).map s.moved

end ContinuedSemaphore

/-- The machine of a semaphore that starts in state `s` and whose continuations end with
    `continuation`. -/
def continuedMachine [DecidableEq K] (continuation : ℕ → Except (Exn ε) Unit)
    (s : AsyncSemaphore K ε) : Machine (ContinuedSemaphore K ε) (ContinuedLabel K) where
  init := { semaphore := s }
  step := ContinuedSemaphore.step continuation

/-! ## Calls of `Release` that returned -/

namespace ReleaseCall

variable {continuation : ℕ → Except (Exn ε) Unit} {c : ReleaseCall}

/-- The first pending waiter the call came to has continuations that all return. -/
def FirstReturns (continuation : ℕ → Except (Exn ε) Unit) (c : ReleaseCall) : Prop :=
  ∀ w, c.tried.find? (·.pending) = some w → w.Returns continuation

theorem firstReturns_iff :
    c.FirstReturns continuation ↔ ∀ w, c.granted.head? = some w → w.Returns continuation := by
  unfold FirstReturns granted
  rw [List.head?_filter]

/-- The call granted the waiter it came to last, whose continuations returned; before it,
    it had granted the waiters `ws`. -/
theorem oneGrant_iff_of_granted {ws : List Tried} {w : Tried} (hg : c.granted = ws ++ [w])
    (hws : ∀ v ∈ ws, ¬ v.Returns continuation) (hw : w.Returns continuation)
    (hcount : c.countAfter = c.countBefore) : c.OneGrant ↔ c.FirstReturns continuation := by
  rw [firstReturns_iff, OneGrant, hg]
  cases ws with
  | nil =>
    refine ⟨fun _ v hv => ?_, fun _ => .inl ⟨rfl, hcount⟩⟩
    cases hv
    exact hw
  | cons v ws =>
    refine ⟨?_, fun h => absurd (h v rfl) (hws v List.mem_cons_self)⟩
    rintro (⟨hlen, -⟩ | ⟨hnil, -⟩)
    · simp at hlen
    · cases hnil

/-- The call incremented the counter; every waiter it granted had a continuation that threw. -/
theorem oneGrant_iff_of_incremented (hg : ∀ v ∈ c.granted, ¬ v.Returns continuation)
    (hcount : c.countAfter = c.countBefore + 1) : c.OneGrant ↔ c.FirstReturns continuation := by
  rw [firstReturns_iff, OneGrant]
  cases hgr : c.granted with
  | nil => exact ⟨fun _ => nofun, fun _ => .inr ⟨rfl, hcount⟩⟩
  | cons v ws =>
    refine ⟨?_, fun h => absurd (h v rfl) (hg v (by rw [hgr]; exact List.mem_cons_self))⟩
    rintro (⟨-, heq⟩ | ⟨hnil, -⟩)
    · omega
    · cases hnil

end ReleaseCall

/-! ## Wait tasks -/

/-- The states of a wait task in `s'`, and what was granted in `s` stays so. -/
structure WaitTasks (s s' : AsyncSemaphore K ε) : Prop where
  isWaitTask : ∀ i, IsWaitTask (s'.waitTask i)
  kept : ∀ i, s.waitTask i = granted → s'.waitTask i = granted

namespace WaitTasks

variable {s s' s'' : AsyncSemaphore K ε} {i : ℕ}

theorem same (h : ∀ i, IsWaitTask (s.waitTask i)) (ht : s'.waitTask = s.waitTask) :
    WaitTasks s s' := by
  constructor <;> simp only [ht]
  · exact h
  · exact fun _ hi => hi

theorem update (h : ∀ i, IsWaitTask (s.waitTask i)) {t : TaskSharedState Unit ε}
    (ht : s'.waitTask = Function.update s.waitTask i t) (hw : IsWaitTask t)
    (hkept : s.waitTask i = granted → t = granted) : WaitTasks s s' := by
  refine ⟨fun j => ?_, fun j hj => ?_⟩
  all_goals
    rw [ht]
    by_cases hji : j = i
    · subst hji
      rw [Function.update_self]
      first | exact hw | exact hkept hj
    · rw [Function.update_of_ne hji]
      first | exact h j | exact hj

theorem trySetResult (h : ∀ i, IsWaitTask (s.waitTask i)) (i : ℕ) :
    WaitTasks s (s.trySetResult i) := by
  refine update h (i := i) rfl ?_ fun hg => ?_
  · rw [(h i).exec_trySetResult]
    split
    · exact .inr (.inl rfl)
    · exact h i
  · rw [hg]
    rfl

theorem trySetCanceled (h : ∀ i, IsWaitTask (s.waitTask i)) (i : ℕ) :
    WaitTasks s (s.trySetCanceled i) := by
  refine update h (i := i) rfl ?_ fun hg => ?_
  · rw [(h i).exec_trySetException]
    split
    · exact .inr (.inr rfl)
    · exact h i
  · rw [hg]
    rfl

theorem waitAsync (h : ∀ i, IsWaitTask (s.waitTask i)) (k : Option K) :
    WaitTasks s (s.waitAsync k) := by
  unfold AsyncSemaphore.waitAsync
  split_ifs
  · exact update h rfl (.inr (.inl rfl)) fun _ => rfl
  · cases k <;> exact same h rfl

end WaitTasks

/-! ## The loop of `Release` -/

section Invariant

variable (continuation : ℕ → Except (Exn ε) Unit)

/-- What the thread in the critical section knows of the `Release` call in progress: every
    waiter it granted had a continuation that threw, apart from the last one where its
    continuations are running or have returned. -/
def LoopOk (s : ContinuedSemaphore K ε) : Prop :=
  match s.semaphore.critical, s.continuing with
  | .popped _ _, none | .disposing _ false, none =>
    s.releasing.countBefore = s.semaphore.currentCount ∧
      ∀ v ∈ s.releasing.granted, ¬ v.Returns continuation
  | .popped _ _, some ks =>
    s.releasing.countBefore = s.semaphore.currentCount ∧
      ∃ ws w, s.releasing.granted = ws ++ [w] ∧ (∀ v ∈ ws, ¬ v.Returns continuation) ∧
        (w.Returns continuation ↔ ∀ k ∈ ks, continuation k = .ok ())
  | .disposing _ true, none =>
    s.releasing.countBefore = s.semaphore.currentCount ∧
      ∃ ws w, s.releasing.granted = ws ++ [w] ∧ (∀ v ∈ ws, ¬ v.Returns continuation) ∧
        w.Returns continuation
  | _, ks => ks = none

/-- What is recorded of the calls of `Release`. -/
structure Recorded (s : ContinuedSemaphore K ε) : Prop where
  isWaitTask : ∀ i, IsWaitTask (s.semaphore.waitTask i)
  granted : ∀ v ∈ s.releasing.granted, s.semaphore.waitTask v.waiter = granted
  calls : ∀ c ∈ s.calls, (∀ v ∈ c.granted, s.semaphore.waitTask v.waiter = AsyncPrimitives.granted) ∧
    (c.OneGrant ↔ c.FirstReturns continuation)

structure ReleaseInv (s : ContinuedSemaphore K ε) : Prop extends Recorded continuation s where
  loop : LoopOk continuation s

end Invariant

/-- Outside the loop of `Release` no continuation runs. -/
theorem loopOk_iff {continuation : ℕ → Except (Exn ε) Unit} {s : ContinuedSemaphore K ε}
    (hc : s.semaphore.critical.inRelease = false) :
    LoopOk continuation s ↔ s.continuing = none := by
  unfold LoopOk
  cases hcrit : s.semaphore.critical with
  | popped | disposing =>
    rw [hcrit] at hc
    cases hc
  | _ => rfl

namespace Recorded

variable {continuation : ℕ → Except (Exn ε) Unit} {s s' : ContinuedSemaphore K ε}
  {t : AsyncSemaphore K ε}

/-- The semaphore moves, and no call of `Release` returns. -/
theorem moved (h : Recorded continuation s) (ht : WaitTasks s.semaphore t)
    (hr : t.released = s.semaphore.released) (hl : LoopOk continuation (s.moved t)) :
    ReleaseInv continuation (s.moved t) where
  isWaitTask := ht.isWaitTask
  granted v hv := ht.kept _ (h.granted v hv)
  calls c hc := by
    simp only [ContinuedSemaphore.moved, hr, if_true] at hc
    obtain ⟨h1, h2⟩ := h.calls c hc
    exact ⟨fun v hv => ht.kept _ (h1 v hv), h2⟩
  loop := hl

/-- The call of `Release` in progress returns. -/
theorem returned (h : Recorded continuation s) (ht : WaitTasks s.semaphore t)
    (hr : t.released = s.semaphore.released + 1) (hfree : t.critical = .free)
    (hnone : s.continuing = none)
    (hone : ReleaseCall.OneGrant { s.releasing with countAfter := t.currentCount } ↔
      ReleaseCall.FirstReturns continuation { s.releasing with countAfter := t.currentCount }) :
    ReleaseInv continuation (s.moved t) where
  isWaitTask := ht.isWaitTask
  granted v hv := ht.kept _ (h.granted v hv)
  calls c hc := by
    simp only [ContinuedSemaphore.moved, hr, Nat.succ_ne_self, if_false, List.mem_append,
      List.mem_singleton] at hc
    rcases hc with hc | rfl
    · obtain ⟨h1, h2⟩ := h.calls c hc
      exact ⟨fun v hv => ht.kept _ (h1 v hv), h2⟩
    · exact ⟨fun v hv => ht.kept _ (h.granted v hv), hone⟩
  loop := by
    unfold LoopOk ContinuedSemaphore.moved
    simp only [hfree, hnone]

/-- The loop test after a waiter whose continuations returned. -/
theorem loopTest_true (h : Recorded continuation s) (hnone : s.continuing = none)
    (ht : WaitTasks s.semaphore t) (hr : t.released = s.semaphore.released)
    (hcount : s.releasing.countBefore = t.currentCount) {ws : List Tried} {w : Tried}
    (hg : s.releasing.granted = ws ++ [w]) (hws : ∀ v ∈ ws, ¬ v.Returns continuation)
    (hw : w.Returns continuation) : ReleaseInv continuation (s.moved (t.loopTest true)) := by
  have hloop : t.loopTest true = { t with critical := .free, released := t.released + 1 } := by
    rw [AsyncSemaphore.loopTest, if_pos rfl]
  rw [hloop]
  refine h.returned ⟨ht.isWaitTask, ht.kept⟩ (by rw [hr]) rfl hnone ?_
  exact ReleaseCall.oneGrant_iff_of_granted hg hws hw hcount.symm

/-- The loop test after a waiter that was not pending or whose continuation threw. -/
theorem loopTest_false (h : Recorded continuation s) (hnone : s.continuing = none)
    (ht : WaitTasks s.semaphore t) (hr : t.released = s.semaphore.released)
    (hcount : s.releasing.countBefore = t.currentCount)
    (hg : ∀ v ∈ s.releasing.granted, ¬ v.Returns continuation) :
    ReleaseInv continuation (s.moved (t.loopTest false)) := by
  unfold AsyncSemaphore.loopTest
  rw [if_neg Bool.false_ne_true]
  split_ifs with hempty
  · refine h.returned ⟨ht.isWaitTask, ht.kept⟩ (by rw [hr]) rfl hnone ?_
    exact ReleaseCall.oneGrant_iff_of_incremented hg (congrArg (· + 1) hcount.symm)
  · obtain ⟨⟨i, r⟩, ws, hws⟩ := List.exists_cons_of_ne_nil
      fun hnil => hempty (List.isEmpty_iff.mpr hnil)
    have hpop : t.popFront = { t with waiters := ws, critical := .popped i r } := by
      rw [AsyncSemaphore.popFront, hws]
    rw [hpop]
    refine h.moved ⟨ht.isWaitTask, ht.kept⟩ hr ?_
    unfold LoopOk ContinuedSemaphore.moved
    simp only [hnone]
    exact ⟨hcount, hg⟩

end Recorded

/-! ## One step -/

namespace ReleaseInv

variable {continuation : ℕ → Except (Exn ε) Unit} {s s' : ContinuedSemaphore K ε}
  {t : AsyncSemaphore K ε}

theorem continuing_of_free (h : ReleaseInv continuation s) (hc : s.semaphore.critical = .free) :
    s.continuing = none := by
  exact (loopOk_iff (by rw [hc]; rfl)).mp h.loop

theorem waitAsync (h : ReleaseInv continuation s) (hc : s.semaphore.critical = .free)
    (k : Option K) : ReleaseInv continuation (s.moved (s.semaphore.waitAsync k)) := by
  refine h.toRecorded.moved (.waitAsync h.isWaitTask k) ?_
    ((loopOk_iff ?_).mpr (h.continuing_of_free hc))
  · unfold AsyncSemaphore.waitAsync
    split_ifs
    · rfl
    · cases k <;> rfl
  · unfold ContinuedSemaphore.moved AsyncSemaphore.waitAsync
    dsimp only
    split_ifs
    · rw [hc]
      rfl
    · cases k <;> rfl

/-- `Release` enters its critical section. -/
theorem release (h : ReleaseInv continuation s) (hc : s.semaphore.critical = .free) :
    ReleaseInv continuation
      ({ s with releasing := { countBefore := s.semaphore.currentCount } }.moved
        s.semaphore.release) := by
  have hnone := h.continuing_of_free hc
  have h' : ReleaseInv continuation
      { s with releasing := { countBefore := s.semaphore.currentCount } } := by
    exact ⟨⟨h.isWaitTask, nofun, h.calls⟩, (loopOk_iff (by rw [hc]; rfl)).mpr hnone⟩
  by_cases hfull : s.semaphore.currentCount = s.semaphore.maxCount
  · have hrel : s.semaphore.release =
        { s.semaphore with rejected := s.semaphore.rejected + 1 } := by
      rw [AsyncSemaphore.release, if_pos hfull]
    rw [hrel]
    exact h'.toRecorded.moved (.same h.isWaitTask rfl) rfl
      ((loopOk_iff (by simp [hc]; rfl)).mpr hnone)
  · -- the rest of `Release` is the loop test after no waiter
    have hrel : s.semaphore.release = s.semaphore.loopTest false := by
      unfold AsyncSemaphore.release AsyncSemaphore.loopTest
      rw [if_neg hfull, if_neg Bool.false_ne_true]
      split_ifs
      · rw [← hc]
      · rfl
    rw [hrel]
    exact h'.toRecorded.loopTest_false hnone (.same h.isWaitTask rfl) rfl rfl nofun

/-- The waiter `Release` comes to is granted. -/
theorem pending (h : ReleaseInv continuation s) {i : ℕ}
    {r : Option (CancellationRegistration K)} (hc : s.semaphore.critical = .popped i r)
    (hnone : s.continuing = none) (hst : (s.semaphore.waitTask i).state = .created) :
    ReleaseInv continuation { s.attempt i with
      semaphore := s.semaphore.trySetResult i
      continuations := Function.update s.continuations i []
      continuing := some (s.continuations i) } := by
  have hl := h.loop
  unfold LoopOk at hl
  simp only [hc, hnone] at hl
  have htasks := WaitTasks.trySetResult h.isWaitTask i
  have hgranted : (s.attempt i).releasing.granted =
      s.releasing.granted ++ [⟨i, true, s.continuations i⟩] := by
    simp [ContinuedSemaphore.attempt, ReleaseCall.granted, hst]
  refine ⟨⟨htasks.isWaitTask, fun v hv => ?_, fun c hcall => ?_⟩, ?_⟩
  · rw [hgranted] at hv
    rcases List.mem_append.mp hv with hv | hv
    · exact htasks.kept _ (h.granted v hv)
    · rw [List.mem_singleton.mp hv]
      simp only [AsyncSemaphore.trySetResult, Function.update_self,
        (h.isWaitTask i).exec_trySetResult, hst, if_true]
  · obtain ⟨h1, h2⟩ := h.calls c hcall
    exact ⟨fun v hv => htasks.kept _ (h1 v hv), h2⟩
  · unfold LoopOk
    rw [hgranted]
    simp only [AsyncSemaphore.trySetResult, hc]
    exact ⟨hl.1, _, _, rfl, hl.2, Iff.rfl⟩

/-- While continuations run, the waiter they belong to is in the hands of `Release`. -/
theorem popped_of_continuing (h : ReleaseInv continuation s) {ks : List ℕ}
    (hcont : s.continuing = some ks) : ∃ i r, s.semaphore.critical = .popped i r ∧
      s.releasing.countBefore = s.semaphore.currentCount ∧
      ∃ ws w, s.releasing.granted = ws ++ [w] ∧ (∀ v ∈ ws, ¬ v.Returns continuation) ∧
        (w.Returns continuation ↔ ∀ k ∈ ks, continuation k = .ok ()) := by
  have hl := h.loop
  unfold LoopOk at hl
  rw [hcont] at hl
  cases hc : s.semaphore.critical with
  | popped i r => exact ⟨i, r, rfl, by simpa only [hc] using hl⟩
  | disposing r waiterReleased => cases waiterReleased <;> simp [hc] at hl
  | _ => simp [hc] at hl

/-- The next continuation returns. -/
theorem continued (h : ReleaseInv continuation s) {k : ℕ} {ks : List ℕ}
    (hcont : s.continuing = some (k :: ks)) (hk : continuation k = .ok ()) :
    ReleaseInv continuation { s with continuing := some ks } := by
  obtain ⟨i, r, hc, hb, ws, w, hg, hws, hw⟩ := h.popped_of_continuing hcont
  refine ⟨⟨h.isWaitTask, h.granted, h.calls⟩, ?_⟩
  unfold LoopOk
  simp only [hc]
  refine ⟨hb, ws, w, hg, hws, hw.trans ?_⟩
  rw [List.forall_mem_cons]
  exact ⟨And.right, fun hks => ⟨hk, hks⟩⟩

/-- The next continuation throws, and the loop goes on. -/
theorem threw (h : ReleaseInv continuation s) {k : ℕ} {ks : List ℕ} {e : Exn ε}
    (hcont : s.continuing = some (k :: ks)) (hk : continuation k = .error e) :
    ReleaseInv continuation ({ s with continuing := none }.moved (s.semaphore.loopTest false)) := by
  obtain ⟨i, r, hc, hb, ws, w, hg, hws, hw⟩ := h.popped_of_continuing hcont
  have hrec : Recorded continuation { s with continuing := none } :=
    ⟨h.isWaitTask, h.granted, h.calls⟩
  refine hrec.loopTest_false rfl (.same h.isWaitTask rfl) rfl hb fun v hv => ?_
  rw [hg] at hv
  rcases List.mem_append.mp hv with hv | hv
  · exact hws v hv
  · rw [List.mem_singleton.mp hv]
    intro hret
    cases hk.symm.trans (hw.mp hret k List.mem_cons_self)

variable [DecidableEq K]

theorem cancel (h : ReleaseInv continuation s) {k : K}
    (hs : s.semaphore.step (.cancel k) = some t) : ReleaseInv continuation (s.moved t) := by
  simp only [AsyncSemaphore.step] at hs
  split_ifs at hs <;> cases hs
  · exact h.toRecorded.moved (.same h.isWaitTask rfl) rfl h.loop
  · exact h.toRecorded.moved (.same h.isWaitTask rfl) rfl h.loop

theorem runCancel (h : ReleaseInv continuation s) {k : K}
    (hs : s.semaphore.step (.runCancel k) = some t) : ReleaseInv continuation (s.moved t) := by
  cases AsyncSemaphore.runCancel_cases hs with
  | moved | ended => exact h.toRecorded.moved (.same h.isWaitTask rfl) rfl h.loop
  | @ran i is hk =>
    have htasks := WaitTasks.trySetCanceled h.isWaitTask i
    exact h.toRecorded.moved ⟨htasks.isWaitTask, htasks.kept⟩ rfl h.loop

/-- The waiter `Release` comes to is not pending. -/
theorem notPending (h : ReleaseInv continuation s) {i : ℕ}
    {r : Option (CancellationRegistration K)} (hc : s.semaphore.critical = .popped i r)
    (hnone : s.continuing = none) (hst : (s.semaphore.waitTask i).state ≠ .created)
    (hs : s.semaphore.advance = some t) : ReleaseInv continuation ((s.attempt i).moved t) := by
  have hl := h.loop
  unfold LoopOk at hl
  simp only [hc, hnone] at hl
  have hgranted : (s.attempt i).releasing.granted = s.releasing.granted := by
    simp [ContinuedSemaphore.attempt, ReleaseCall.granted, hst]
  have h' : ReleaseInv continuation (s.attempt i) := by
    refine ⟨⟨h.isWaitTask, by rw [hgranted]; exact h.granted, h.calls⟩, ?_⟩
    unfold LoopOk
    rw [hgranted]
    simpa only [ContinuedSemaphore.attempt, hc, hnone] using hl
  have htasks := WaitTasks.trySetResult h.isWaitTask i
  rw [← hgranted] at hl
  cases AsyncSemaphore.advance_cases hs with
  | @popped j hc' =>
    cases hc.symm.trans hc'
    rw [decide_eq_false hst]
    exact h'.toRecorded.loopTest_false hnone htasks rfl hl.1 hl.2
  | @poppedRegistered j r hc' =>
    cases hc.symm.trans hc'
    rw [decide_eq_false hst]
    refine h'.toRecorded.moved ⟨htasks.isWaitTask, htasks.kept⟩ rfl ?_
    unfold LoopOk ContinuedSemaphore.moved
    simp only [ContinuedSemaphore.attempt, hnone]
    exact hl
  | registerCanceled hc' | registerChecked hc' | registered hc' | emplaced hc' | disposed hc' =>
    cases hc.symm.trans hc'

/-- The thread in the critical section is not about to complete a waiter. -/
theorem advanceSemaphore (h : ReleaseInv continuation s) (hnone : s.continuing = none)
    (hc : ∀ i r, s.semaphore.critical ≠ .popped i r) (hs : s.semaphore.advance = some t) :
    ReleaseInv continuation (s.moved t) := by
  cases AsyncSemaphore.advance_cases hs with
  | @registerCanceled i k hc' ht =>
    have htasks := WaitTasks.trySetCanceled h.isWaitTask i
    exact h.toRecorded.moved ⟨htasks.isWaitTask, htasks.kept⟩ rfl ((loopOk_iff rfl).mpr hnone)
  | registerChecked | registered | emplaced =>
    exact h.toRecorded.moved (.same h.isWaitTask rfl) rfl ((loopOk_iff rfl).mpr hnone)
  | popped hc' | poppedRegistered hc' => exact absurd hc' (hc _ _)
  | @disposed r waiterReleased hc' =>
    have hl := h.loop
    unfold LoopOk at hl
    rw [hc', hnone] at hl
    have htasks : WaitTasks s.semaphore (s.semaphore.disposeRegistration r) :=
      .same h.isWaitTask (disposeRegistration_waitTask _ r)
    have hr : (s.semaphore.disposeRegistration r).released = s.semaphore.released := by
      cases r <;> rfl
    have hcount : (s.semaphore.disposeRegistration r).currentCount = s.semaphore.currentCount := by
      cases r <;> rfl
    cases waiterReleased with
    | true =>
      obtain ⟨hb, ws, w, hg, hws, hw⟩ := hl
      exact h.toRecorded.loopTest_true hnone htasks hr (hb.trans hcount.symm) hg hws hw
    | false => exact h.toRecorded.loopTest_false hnone htasks hr (hl.1.trans hcount.symm) hl.2

theorem advance (h : ReleaseInv continuation s) (hs : s.advance continuation = some s') :
    ReleaseInv continuation s' := by
  have hrec : Recorded continuation { s with continuing := none } :=
    ⟨h.isWaitTask, h.granted, h.calls⟩
  unfold ContinuedSemaphore.advance at hs
  split at hs
  case h_1 k ks hcont =>
    split at hs <;> cases hs
    · exact h.continued hcont ‹_›
    · exact h.threw hcont ‹_›
  case h_2 i hcont hc =>
    cases hs
    obtain ⟨i, r, -, hb, ws, w, hg, hws, hw⟩ := h.popped_of_continuing hcont
    exact hrec.loopTest_true rfl (.same h.isWaitTask rfl) rfl hb hg hws (hw.mpr nofun)
  case h_3 i r hcont hc =>
    cases hs
    obtain ⟨i, r, -, hb, ws, w, hg, hws, hw⟩ := h.popped_of_continuing hcont
    refine hrec.moved (.same h.isWaitTask rfl) rfl ?_
    exact ⟨hb, ws, w, hg, hws, hw.mpr nofun⟩
  case h_4 => cases hs
  case h_5 i r hcont hc =>
    split_ifs at hs with hst
    · cases hs
      exact h.pending hc hcont hst
    · obtain ⟨t, ht, rfl⟩ := Option.map_eq_some_iff.mp hs
      exact h.notPending hc hcont hst ht
  case h_6 hcont hc =>
    obtain ⟨t, ht, rfl⟩ := Option.map_eq_some_iff.mp hs
    exact h.advanceSemaphore hcont (fun i r hc' => hc i r hc') ht

theorem step (h : ReleaseInv continuation s) {a : ContinuedLabel K}
    (hs : s.step continuation a = some s') : ReleaseInv continuation s' := by
  cases a with
  | waitAsync k =>
    obtain ⟨t, ht, rfl⟩ := Option.map_eq_some_iff.mp hs
    simp only [AsyncSemaphore.step] at ht
    split at ht <;> cases ht
    exact h.waitAsync ‹_› k
  | release =>
    obtain ⟨t, ht, rfl⟩ := Option.map_eq_some_iff.mp hs
    simp only [AsyncSemaphore.step] at ht
    split at ht <;> cases ht
    exact h.release ‹_›
  | continueWith i =>
    simp only [ContinuedSemaphore.step] at hs
    split_ifs at hs <;> cases hs
    · exact ⟨⟨h.isWaitTask, h.granted, h.calls⟩, h.loop⟩
    · exact ⟨⟨h.isWaitTask, h.granted, h.calls⟩, h.loop⟩
  | advance => exact h.advance hs
  | cancel k =>
    obtain ⟨t, ht, rfl⟩ := Option.map_eq_some_iff.mp hs
    exact h.cancel ht
  | runCancel k =>
    obtain ⟨t, ht, rfl⟩ := Option.map_eq_some_iff.mp hs
    exact h.runCancel ht

end ReleaseInv

section Reachable

variable [DecidableEq K] {continuation : ℕ → Except (Exn ε) Unit}

theorem reachable_releaseInv {maxCount initialCount : ℤ} {s₀ : AsyncSemaphore K ε}
    {s : ContinuedSemaphore K ε} (h0 : AsyncSemaphore.construct maxCount initialCount = .ok s₀)
    (h : (continuedMachine continuation s₀).Reachable Machine.Any s) :
    ReleaseInv continuation s := by
  refine h.invariant ?_ fun _ _ _ hi _ hs => hi.step hs
  unfold AsyncSemaphore.construct at h0
  split_ifs at h0
  cases h0
  exact ⟨⟨fun _ => .inl rfl, nofun, nofun⟩, rfl⟩

/-- Every pending waiter a call of `Release` came to was granted; and a call that returned
    granted exactly one and left the counter, or found none pending and incremented the
    counter, exactly when the continuations of the first pending waiter all return. -/
theorem release_grants_one_iff {maxCount initialCount : ℤ} {s₀ : AsyncSemaphore K ε}
    {s : ContinuedSemaphore K ε} (h0 : AsyncSemaphore.construct maxCount initialCount = .ok s₀)
    (h : (continuedMachine continuation s₀).Reachable Machine.Any s) {c : ReleaseCall}
    (hc : c ∈ s.calls) :
    (∀ w ∈ c.granted, s.semaphore.waitTask w.waiter = granted) ∧
      (c.OneGrant ↔
        ∀ w, c.tried.find? (·.pending) = some w → ∀ k ∈ w.continuations, continuation k = .ok ()) :=
  (reachable_releaseInv h0 h).calls c hc

end Reachable

/-- Two waiters are queued, the first with a continuation; a `Release` grants the first. -/
def grantRun : List (ContinuedLabel Unit) :=
  [.waitAsync none, .advance, .continueWith 0, .waitAsync none, .advance, .release, .advance,
    .advance, .advance]

theorem release_grants_one_iff_returning :
    ∃ (s₀ : AsyncSemaphore Unit Empty) (s : ContinuedSemaphore Unit Empty) (c : ReleaseCall),
      AsyncSemaphore.construct 2 0 = .ok s₀ ∧
      (continuedMachine (fun _ => .ok ()) s₀).Reachable Machine.Any s ∧ s.calls = [c] ∧
        s.semaphore.waitTask 1 = {} ∧ c.OneGrant := by
  let s₀ : AsyncSemaphore Unit Empty := { maxCount := 2, initialCount := 0, currentCount := 0 }
  have h0 : AsyncSemaphore.construct 2 0 = .ok s₀ := rfl
  obtain ⟨s, hr, hcalls, htask⟩ : ∃ s, (continuedMachine (fun _ => .ok ()) s₀).run
      { semaphore := s₀ } grantRun = some s ∧ s.calls = [{ tried := [⟨0, true, [0]⟩] }] ∧
        s.semaphore.waitTask 1 = {} := ⟨_, rfl, rfl, rfl⟩
  have hone := release_grants_one_iff h0 (.of_run hr) (c := { tried := [⟨0, true, [0]⟩] })
    (by rw [hcalls]; exact List.mem_singleton_self _)
  exact ⟨s₀, s, _, h0, .of_run hr, hcalls, htask, hone.2.mpr fun _ _ _ _ => rfl⟩

/-- The continuation of the first waiter throws, and the same `Release` grants both. -/
theorem not_release_grants_one :
    ¬ ∀ (continuation : ℕ → Except (Exn Empty) Unit) (s₀ : AsyncSemaphore Unit Empty)
        (s : ContinuedSemaphore Unit Empty), AsyncSemaphore.construct 2 0 = .ok s₀ →
      (continuedMachine continuation s₀).Reachable Machine.Any s → ∀ c ∈ s.calls, c.OneGrant := by
  intro h
  let s₀ : AsyncSemaphore Unit Empty := { maxCount := 2, initialCount := 0, currentCount := 0 }
  obtain ⟨s, hr, hcalls⟩ : ∃ s, (continuedMachine (fun _ => .error taskStarted) s₀).run
      { semaphore := s₀ } (grantRun ++ [.advance]) = some s ∧
        s.calls = [{ tried := [⟨0, true, [0]⟩, ⟨1, true, []⟩] }] := ⟨_, rfl, rfl⟩
  rcases h _ s₀ s rfl (.of_run hr) _ (by rw [hcalls]; exact List.mem_singleton_self _) with
    ⟨hlen, -⟩ | ⟨hnil, -⟩
  · cases hlen
  · cases hnil

end AsyncCpp.AsyncPrimitives
