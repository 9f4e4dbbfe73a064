import AsyncCpp.AsyncPrimitives.SemaphoreInvariant

/-!
# `SimpleAsyncProducerConsumerCollection`

Model of AsyncPrimitives/SimpleAsyncProducerConsumerCollection.h: a queue with its own
lock and a semaphore with its own lock, here in the steps of its machine. `Add` pushes
the item, then calls `Release()`; `TakeAsync` awaits the semaphore, then pops;
`TryTakeAll` empties the queue and never touches the semaphore. A `TakeAsync` call has
the number of its wait task.

Two operations let the permits and the items drift apart. `TryTakeAll` leaves the
permits of the items it takes, and a later `TakeAsync` is granted one of them and finds
the queue empty (`not_permits_eq_items`). An `Add` whose `Release()` finds the
semaphore full throws, but its item stays in the queue.

Results:
* `permits_eq_items`: in every run in which `TryTakeAll` finds an empty queue and no
  `Release()` finds the semaphore full, permits and items keep in step.
-/

namespace AsyncCpp.AsyncPrimitives

open Interleaving Tasks

variable {K α ε : Type*}

/-- `std::numeric_limits<int>::max()`. -/
def intMax : ℤ := 2147483647

/-- The collection, the number of `Add` calls between their push and their `Release()`, and
    how each `TakeAsync` task ended. `added` and `handedOut` are history: the items pushed,
    and the items popped with the `TakeAsync` call that got them, or `none` for
    `TryTakeAll`. -/
structure AsyncCollection (K α ε : Type*) where
  innerCollection : List α := []
  asyncSemaphore : AsyncSemaphore K ε :=
    { maxCount := intMax, initialCount := 0, currentCount := 0 }
  adding : ℕ := 0
  outcome : ℕ → Option (Except (Exn ε) α) := fun _ => none
  added : List α := []
  handedOut : List (Option ℕ × α) := []

inductive CollectionLabel (K α : Type*) where
  /-- `Add` or `AddAsync` pushes its item. -/
  | push (item : α)
  /-- An `Add` that has pushed its item calls `Release()`. -/
  | release
  | takeAsync (k : Option K)
  /-- The coroutine of `TakeAsync` number `i` is resumed. -/
  | resume (i : ℕ)
  | tryTakeAll
  /-- A step of the semaphore: the holder of its lock goes on, a token is cancelled, or the
      cancellation goes on. -/
  | advance
  | cancel (k : K)
  | runCancel (k : K)

/-- What `TakeAsync` throws where `TryPop` yields nothing. -/
def couldNotTake : Exn ε := .logicError "Could not take item"

/-- The wait task the caller of `WaitAsync` does not have yet. -/
def Critical.calling : Critical K → List ℕ
  | .registering i _ | .registerChecked i _ | .emplacing i _ => [i]
  | .free | .popped _ _ | .disposing _ _ => []

namespace AsyncCollection

/-- The coroutine goes on after `co_await WaitAsync(..)`: it throws what the wait task holds,
    or calls `TryPop` (SimpleAsyncProducerConsumerCollection.h:79-86, 92-99). -/
def resume (s : AsyncCollection K α ε) (i : ℕ) : AsyncCollection K α ε :=
  match (s.asyncSemaphore.waitTask i).waitOutcome with
  | .error e =>
    { s with outcome := Function.update s.outcome i (some (.error (e.getD .operationCanceled))) }
  | .ok () =>
    match s.innerCollection with
    | [] => { s with outcome := Function.update s.outcome i (some (.error couldNotTake)) }
    | x :: xs =>
      { s with
        innerCollection := xs, handedOut := s.handedOut ++ [(some i, x)]
        outcome := Function.update s.outcome i (some (.ok x)) }

/-- `PopAll` (Collections/ThreadSafeMinimalisticQueue.h:86-103). -/
def tryTakeAll (s : AsyncCollection K α ε) : AsyncCollection K α ε :=
  { s with
    innerCollection := []
    handedOut := s.handedOut ++ s.innerCollection.map fun x => (none, x) }

/-- No thread is inside `_waitersLock`. -/
def lockFree (s : AsyncCollection K α ε) : Bool :=
  match s.asyncSemaphore.critical with
  | .free => true
  | _ => false

variable [DecidableEq K]

/-- The semaphore takes a step. -/
def semaphoreStep (s : AsyncCollection K α ε) (a : SemaphoreLabel K) :
    Option (AsyncCollection K α ε) :=
  (s.asyncSemaphore.step a).map fun t => { s with asyncSemaphore := t }

def step (s : AsyncCollection K α ε) : CollectionLabel K α → Option (AsyncCollection K α ε)
  | .push item =>
    some { s with
      innerCollection := s.innerCollection ++ [item], adding := s.adding + 1
      added := s.added ++ [item] }
  | .release =>
    if 0 < s.adding then { s with adding := s.adding - 1 }.semaphoreStep .release else none
  | .takeAsync k => s.semaphoreStep (.waitAsync k)
  | .resume i =>
    if (s.asyncSemaphore.waitTask i).state.isCompleted ∧ i ∉ s.asyncSemaphore.critical.calling ∧
        (s.outcome i).isNone then some (s.resume i)
    else none
  | .tryTakeAll => some s.tryTakeAll
  | .advance => s.semaphoreStep .advance
  | .cancel k => s.semaphoreStep (.cancel k)
  | .runCancel k => s.semaphoreStep (.runCancel k)

/-- No operation is in progress. -/
def Quiet (s : AsyncCollection K α ε) : Prop :=
  s.asyncSemaphore.critical = .free ∧ s.adding = 0

omit [DecidableEq K] in
/-- The number of `TakeAsync` calls that are granted and not resumed. -/
def waitingTakers (s : AsyncCollection K α ε) : ℕ :=
  Nat.count (fun i => (s.asyncSemaphore.waitTask i).state = .runToCompletion ∧
    (s.outcome i).isNone) s.asyncSemaphore.issued

end AsyncCollection

def collectionMachine (K α ε : Type*) [DecidableEq K] :
    Machine (AsyncCollection K α ε) (CollectionLabel K α) where
  init := {}
  step := AsyncCollection.step

/-- `TryTakeAll` finds an empty queue, and the `Release()` of an `Add` a semaphore that is not
    full. -/
def InStep (s : AsyncCollection K α ε) (a : CollectionLabel K α) : Prop :=
  (a = .tryTakeAll → s.innerCollection = []) ∧
    (a = .release → s.asyncSemaphore.currentCount ≠ s.asyncSemaphore.maxCount)

/-! ## What the semaphore does with a `Release()` -/

/-- A `Release()` is in progress. -/
def Critical.releasing (c : Critical K) : ℕ := if c.inRelease then 1 else 0

namespace AsyncSemaphore

variable {s s' : AsyncSemaphore K ε}

/-- The `Release()` calls that have begun and have not thrown. -/
def begun (s : AsyncSemaphore K ε) : ℕ := s.released + s.critical.releasing

theorem popFront_begun (hw : s.waiters ≠ []) (hc : s.critical.releasing = 0) :
    s.popFront.begun = s.begun + 1 ∧ s.popFront.rejected = s.rejected := by
  obtain ⟨⟨i, r⟩, ws, hws⟩ := List.exists_cons_of_ne_nil hw
  simp only [begun, popFront, hws, hc]
  exact ⟨rfl, trivial⟩

theorem loopTest_begun (s : AsyncSemaphore K ε) (waiterReleased : Bool) :
    (s.loopTest waiterReleased).begun = s.released + 1 ∧
      (s.loopTest waiterReleased).rejected = s.rejected := by
  rw [← loopTest_critical s .free]
  unfold loopTest
  split_ifs with h1 h2
  · exact ⟨rfl, rfl⟩
  · exact ⟨rfl, rfl⟩
  · exact popFront_begun (fun hnil => h2 (List.isEmpty_iff.mpr hnil)) rfl

theorem release_begun (hc : s.critical = .free) (hfull : s.currentCount ≠ s.maxCount) :
    s.release.begun = s.begun + 1 ∧ s.release.rejected = s.rejected := by
  have hrel : s.critical.releasing = 0 := by rw [hc]; rfl
  unfold release
  rw [if_neg hfull]
  split_ifs with hempty
  · simp [begun, hrel]
  · exact popFront_begun (fun hnil => hempty (List.isEmpty_iff.mpr hnil)) hrel

theorem waitAsync_begun (hc : s.critical = .free) (k : Option K) :
    (s.waitAsync k).begun = s.begun ∧ (s.waitAsync k).rejected = s.rejected := by
  unfold waitAsync
  split_ifs
  · exact ⟨rfl, rfl⟩
  · cases k with
    | none | some k => simp [begun, hc, Critical.releasing, Critical.inRelease]

variable [DecidableEq K]

theorem advance_begun (hs : s.advance = some s') :
    s'.begun = s.begun ∧ s'.rejected = s.rejected := by
  have hinside : s.critical.inRelease → s.begun = s.released + 1 := fun h => by
    simp [begun, Critical.releasing, h]
  cases advance_cases hs with
  | registerCanceled hc | registerChecked hc | registered hc | emplaced hc
  | poppedRegistered hc => simp [begun, hc, Critical.releasing, Critical.inRelease]
  | @popped i hc =>
    rw [hinside (by rw [hc]; rfl)]
    exact loopTest_begun (s.trySetResult i) _
  | @disposed r waiterReleased hc =>
    have hkeep : (s.disposeRegistration r).released = s.released ∧
        (s.disposeRegistration r).rejected = s.rejected := by
      cases r <;> exact ⟨rfl, rfl⟩
    rw [hinside (by rw [hc]; rfl), ← hkeep.1, ← hkeep.2]
    exact loopTest_begun _ _

theorem runCancel_begun {k : K} (hs : s.runCancel k = some s') :
    s'.begun = s.begun ∧ s'.rejected = s.rejected := by
  cases runCancel_cases hs <;> exact ⟨rfl, rfl⟩

end AsyncSemaphore

/-! ## Permits and items -/

/-- What a `TakeAsync` call got says about its wait task. -/
def OutcomeOk (t : TaskSharedState Unit ε) : Option (Except (Exn ε) α) → Prop
  | none => True
  | some (.ok _) => t = granted
  | some (.error e) => t = canceledWait ∧ e = .operationCanceled

structure CollectionInv (s : AsyncCollection K α ε) : Prop where
  semaphore : SemaphoreInv s.asyncSemaphore
  initialCount : s.asyncSemaphore.initialCount = 0
  order : s.added = s.handedOut.map Prod.snd ++ s.innerCollection
  releases : s.added.length = s.adding + s.asyncSemaphore.begun
  rejected : s.asyncSemaphore.rejected = 0
  outcome : ∀ i, OutcomeOk (s.asyncSemaphore.waitTask i) (s.outcome i)
  taken : ∀ i x, s.outcome i = some (.ok x) ↔ (some i, x) ∈ s.handedOut
  takers : Nat.count (fun i => (s.asyncSemaphore.waitTask i).state = .runToCompletion ∧
      (s.outcome i).isSome) s.asyncSemaphore.issued = s.handedOut.length

theorem OutcomeOk.kept {t t' : TaskSharedState Unit ε} {o : Option (Except (Exn ε) α)}
    (h : OutcomeOk t o) (hk : t.state ≠ .created → t' = t) : OutcomeOk t' o := by
  cases o with
  | none => trivial
  | some r =>
    cases r with
    | ok x =>
      have ht : t = granted := h
      rw [hk (by rw [ht]; nofun)]
      exact h
    | error e =>
      have ht : t = canceledWait := h.1
      rw [hk (by rw [ht]; nofun)]
      exact h

/-- A `TakeAsync` call that ended has a wait task that is complete. -/
theorem OutcomeOk.completed {t : TaskSharedState Unit ε} {o : Option (Except (Exn ε) α)}
    (h : OutcomeOk t o) (ho : o.isSome) : t.state ≠ .created := by
  cases o with
  | none => cases ho
  | some r =>
    cases r with
    | ok x =>
      have ht : t = granted := h
      rw [ht]
      nofun
    | error e =>
      rw [h.1]
      nofun

namespace AsyncCollection

/-- Granted takers are resumed or not. -/
theorem grants_eq (s : AsyncCollection K α ε) :
    s.asyncSemaphore.grants = s.waitingTakers +
      Nat.count (fun i => (s.asyncSemaphore.waitTask i).state = .runToCompletion ∧
        (s.outcome i).isSome) s.asyncSemaphore.issued := by
  refine count_or (fun i => ?_) fun i hnone hsome => ?_
  · cases s.outcome i <;> simp
  · cases ho : s.outcome i <;> simp [ho] at hnone hsome

end AsyncCollection

namespace CollectionInv

variable {s s' : AsyncCollection K α ε}

/-- The permits, the granted takers, the `Add` calls in progress and the items balance. -/
theorem balance (h : CollectionInv s) :
    s.asyncSemaphore.currentCount + s.waitingTakers + s.adding +
        s.asyncSemaphore.critical.releasing =
      s.innerCollection.length + s.asyncSemaphore.critical.grantedOne := by
  have hcons := h.semaphore.conserve
  have hgrants := s.grants_eq
  have horder := congrArg List.length h.order
  have hreleases := h.releases
  rw [h.initialCount] at hcons
  rw [h.takers] at hgrants
  rw [List.length_append, List.length_map] at horder
  simp only [AsyncSemaphore.begun] at hreleases
  omega

/-- A `Release()` that is granting somebody is in progress. -/
theorem grantedOne_le_releasing (c : Critical K) : c.grantedOne ≤ c.releasing := by
  cases c with
  | disposing r waiterReleased =>
    cases waiterReleased <;> simp [Critical.grantedOne, Critical.releasing, Critical.inRelease]
  | _ => simp [Critical.grantedOne]

/-- A granted taker finds an item. -/
theorem item_of_granted (h : CollectionInv s) {i : ℕ} (hi : i < s.asyncSemaphore.issued)
    (hst : (s.asyncSemaphore.waitTask i).state = .runToCompletion) (ho : (s.outcome i).isNone) :
    s.innerCollection ≠ [] := by
  intro hnil
  have hbal := h.balance
  have hcount := h.semaphore.count
  have hle := grantedOne_le_releasing s.asyncSemaphore.critical
  have hpos : s.waitingTakers ≠ 0 := Nat.count_ne_iff_exists.mpr ⟨i, hi, hst, ho⟩
  rw [hnil, List.length_nil] at hbal
  omega

/-- The semaphore moves on, and the `Release()` calls that begin are those of `Add` calls. -/
theorem semaphore_step (h : CollectionInv s) {t : AsyncSemaphore K ε} {adding : ℕ}
    (hi : SemaphoreInv t) (hl : Later s.asyncSemaphore t)
    (hbegun : adding + t.begun = s.adding + s.asyncSemaphore.begun)
    (hrej : t.rejected = s.asyncSemaphore.rejected) :
    CollectionInv { s with asyncSemaphore := t, adding := adding } := by
  refine { h with
    semaphore := hi, initialCount := hl.initialCount.trans h.initialCount
    releases := h.releases.trans hbegun.symm, rejected := hrej.trans h.rejected
    outcome := fun i => (h.outcome i).kept (hl.kept i), takers := ?_ }
  have hnew : ∀ i, s.asyncSemaphore.issued ≤ i → s.outcome i = none := by
    intro i hlt
    by_contra hne
    refine (h.outcome i).completed (Option.isSome_iff_ne_none.mpr hne) ?_
    rw [h.semaphore.fresh i hlt]
  rw [← h.takers]
  show Nat.count (fun i => (t.waitTask i).state = .runToCompletion ∧ (s.outcome i).isSome)
    t.issued = _
  rw [count_extend hl.issued fun i hlt hQ => by simp [hnew i hlt] at hQ]
  refine count_congr fun i _ => ?_
  by_cases ho : (s.outcome i).isSome
  · simp only [hl.kept i ((h.outcome i).completed ho)]
  · simp [ho]

/-- A granted taker pops the first item. -/
theorem resume_ok (h : CollectionInv s) {i : ℕ} {x : α} {xs : List α}
    (hst : s.asyncSemaphore.waitTask i = granted) (ho : s.outcome i = none)
    (hi : i < s.asyncSemaphore.issued) (hx : s.innerCollection = x :: xs) :
    CollectionInv { s with
      innerCollection := xs, handedOut := s.handedOut ++ [(some i, x)]
      outcome := Function.update s.outcome i (some (.ok x)) } := by
  refine { h with order := ?_, outcome := ?_, taken := ?_, takers := ?_ }
  · have horder := h.order
    rw [hx] at horder
    simpa using horder
  · intro j
    by_cases hj : j = i
    · subst hj
      simpa [OutcomeOk] using hst
    · simpa [Function.update_of_ne hj] using h.outcome j
  · intro j y
    have hnot : ∀ y, (some i, y) ∉ s.handedOut := by
      intro y hmem
      rw [← h.taken, ho] at hmem
      cases hmem
    by_cases hj : j = i
    · subst hj
      simp [hnot, eq_comm]
    · simp [h.taken, hj]
  · show Nat.count (fun j => (s.asyncSemaphore.waitTask j).state = .runToCompletion ∧
      (Function.update s.outcome i (some (.ok x)) j).isSome) s.asyncSemaphore.issued =
        (s.handedOut ++ [(some i, x)]).length
    rw [List.length_append, List.length_singleton, ← h.takers]
    refine count_insert hi (by simp [ho]) fun j => ?_
    by_cases hj : j = i
    · subst hj
      simp [hst, granted, TaskSharedState.ended]
    · simp [hj]

/-- A cancelled taker throws. -/
theorem resume_error (h : CollectionInv s) {i : ℕ}
    (hst : s.asyncSemaphore.waitTask i = canceledWait) (ho : s.outcome i = none) :
    CollectionInv { s with
      outcome := Function.update s.outcome i (some (.error .operationCanceled)) } := by
  refine { h with outcome := ?_, taken := ?_, takers := ?_ }
  · intro j
    by_cases hj : j = i
    · subst hj
      simpa [OutcomeOk] using hst
    · simpa [Function.update_of_ne hj] using h.outcome j
  · intro j y
    by_cases hj : j = i
    · subst hj
      simp [← h.taken, ho]
    · simp [Function.update_of_ne hj, h.taken]
  · rw [← h.takers]
    refine count_congr fun j _ => ?_
    by_cases hj : j = i
    · subst hj
      simp [hst, canceledWait, TaskSharedState.ended]
    · simp [Function.update_of_ne hj]

theorem resume (h : CollectionInv s) {i : ℕ}
    (hc : (s.asyncSemaphore.waitTask i).state.isCompleted) (ho : s.outcome i = none) :
    CollectionInv (s.resume i) := by
  have hi : i < s.asyncSemaphore.issued := by
    by_contra hge
    rw [h.semaphore.fresh i (Nat.le_of_not_lt hge)] at hc
    cases hc
  rcases h.semaphore.isWaitTask i with hst | hst | hst
  · rw [hst] at hc
    cases hc
  · cases hx : s.innerCollection with
    | nil => exact absurd hx (h.item_of_granted hi (by rw [hst]; rfl) (by simp [ho]))
    | cons x xs =>
      have hwait : (granted : TaskSharedState Unit ε).waitOutcome = .ok () := rfl
      simp only [AsyncCollection.resume, hst, hwait, hx]
      exact h.resume_ok hst ho hi hx
  · have hwait : (canceledWait : TaskSharedState Unit ε).waitOutcome =
        .error (some .operationCanceled) := rfl
    simp only [AsyncCollection.resume, hst, hwait]
    exact h.resume_error hst ho

/-- Where no operation is in progress and the queue is empty, every permit is used. -/
theorem grants_of_empty (h : CollectionInv s) (hq : s.Quiet) (hnil : s.innerCollection = []) :
    s.asyncSemaphore.grants = s.added.length := by
  obtain ⟨hc, hadding⟩ := hq
  have hbal := h.balance
  have hcons := h.semaphore.conserve
  have hcount := h.semaphore.count
  have hreleases := h.releases
  rw [h.initialCount] at hcons
  simp only [AsyncSemaphore.begun, hc, hadding, hnil, Critical.releasing, Critical.inRelease,
    Critical.grantedOne, List.length_nil] at hbal hcons hreleases
  omega

/-- A `Release()` grants at most one `TakeAsync` call, and each follows a push. -/
theorem grants_le_added (h : CollectionInv s) : s.asyncSemaphore.grants ≤ s.added.length := by
  have hcons := h.semaphore.conserve
  have hcount := h.semaphore.count
  have hreleases := h.releases
  have hle := grantedOne_le_releasing s.asyncSemaphore.critical
  rw [h.initialCount] at hcons
  simp only [AsyncSemaphore.begun] at hreleases
  omega

theorem step [DecidableEq K] (h : CollectionInv s) {a : CollectionLabel K α} (hg : InStep s a)
    (hs : s.step a = some s') : CollectionInv s' := by
  cases a with
  | push item =>
    cases hs
    refine { h with order := ?_, releases := ?_ }
    · rw [h.order, List.append_assoc]
    · rw [List.length_append, List.length_singleton, h.releases]
      simp only
      omega
  | release =>
    simp only [AsyncCollection.step] at hs
    split_ifs at hs with hpos
    simp only [AsyncCollection.semaphoreStep, AsyncSemaphore.step, Option.map_eq_some_iff] at hs
    obtain ⟨t, ht, rfl⟩ := hs
    split at ht <;> cases ht
    rename_i hc
    obtain ⟨hbegun, hrej⟩ := AsyncSemaphore.release_begun hc (hg.2 rfl)
    exact h.semaphore_step (h.semaphore.release hc) (.release _) (by omega) hrej
  | takeAsync k =>
    simp only [AsyncCollection.step, AsyncCollection.semaphoreStep, AsyncSemaphore.step,
      Option.map_eq_some_iff] at hs
    obtain ⟨t, ht, rfl⟩ := hs
    split at ht <;> cases ht
    rename_i hc
    obtain ⟨hbegun, hrej⟩ := AsyncSemaphore.waitAsync_begun hc k
    exact h.semaphore_step (h.semaphore.waitAsync hc k) (.waitAsync h.semaphore k) (by omega) hrej
  | resume i =>
    simp only [AsyncCollection.step] at hs
    split_ifs at hs with hen
    cases hs
    exact h.resume hen.1 (Option.isNone_iff_eq_none.mp hen.2.2)
  | tryTakeAll =>
    cases hs
    have hnil := hg.1 rfl
    exact { h with
      order := by simpa [AsyncCollection.tryTakeAll, hnil] using h.order
      taken := by simpa [AsyncCollection.tryTakeAll, hnil] using h.taken
      takers := by simpa [AsyncCollection.tryTakeAll, hnil] using h.takers }
  | advance =>
    simp only [AsyncCollection.step, AsyncCollection.semaphoreStep, AsyncSemaphore.step,
      Option.map_eq_some_iff] at hs
    obtain ⟨t, ht, rfl⟩ := hs
    obtain ⟨hbegun, hrej⟩ := AsyncSemaphore.advance_begun ht
    exact h.semaphore_step (h.semaphore.advance ht) (.advance ht) (by omega) hrej
  | cancel k =>
    simp only [AsyncCollection.step, AsyncCollection.semaphoreStep, Option.map_eq_some_iff] at hs
    obtain ⟨t, ht, rfl⟩ := hs
    obtain ⟨hi, hl⟩ := h.semaphore.step ht
    have hkeep : t.begun = s.asyncSemaphore.begun ∧
        t.rejected = s.asyncSemaphore.rejected := by
      simp only [AsyncSemaphore.step] at ht
      split_ifs at ht <;> (cases ht; exact ⟨rfl, rfl⟩)
    exact h.semaphore_step hi hl (by omega) hkeep.2
  | runCancel k =>
    simp only [AsyncCollection.step, AsyncCollection.semaphoreStep, AsyncSemaphore.step,
      Option.map_eq_some_iff] at hs
    obtain ⟨t, ht, rfl⟩ := hs
    obtain ⟨hbegun, hrej⟩ := AsyncSemaphore.runCancel_begun ht
    exact h.semaphore_step (h.semaphore.runCancel ht) (.runCancel ht) (by omega) hrej

end CollectionInv

/-- A call made later that is granted adds to the grants. -/
theorem Later.grants_lt {t t' : AsyncSemaphore K ε} (h : Later t t') {i : ℕ}
    (hi : t.issued ≤ i) (hlt : i < t'.issued) (hst : (t'.waitTask i).state = .runToCompletion) :
    t.grants < t'.grants := by
  have hkept :
      t.grants ≤ Nat.count (fun j => (t'.waitTask j).state = .runToCompletion) t.issued := by
    refine Nat.count_mono_left fun j _ hj => ?_
    rw [h.kept j (by rw [hj]; nofun), hj]
  have hmore :
      Nat.count (fun j => (t'.waitTask j).state = .runToCompletion) t.issued < t'.grants :=
    (Nat.count_monotone _ hi).trans_lt (Nat.count_strict_mono hst hlt)
  exact hkept.trans_lt hmore

variable [DecidableEq K] {s s' : AsyncCollection K α ε}

theorem reachable_collectionInv (h : (collectionMachine K α ε).Reachable InStep s) :
    CollectionInv s := by
  refine h.invariant ?_ fun s a s' hi hg hs => hi.step hg hs
  have h0 : AsyncSemaphore.construct intMax 0 =
    .ok (collectionMachine K α ε).init.asyncSemaphore := rfl
  exact ⟨(construct_inv h0).1, rfl, rfl, rfl, rfl, fun _ => trivial,
    fun i x => by simp [collectionMachine], rfl⟩

/-! ## A `TakeAsync` on an empty collection -/

theorem semaphoreStep_later {a : SemaphoreLabel K} (h : SemaphoreInv s.asyncSemaphore)
    (hs : s.semaphoreStep a = some s') : Later s.asyncSemaphore s'.asyncSemaphore := by
  simp only [AsyncCollection.semaphoreStep, Option.map_eq_some_iff] at hs
  obtain ⟨t, ht, rfl⟩ := hs
  exact (h.step ht).2

theorem step_later {a : CollectionLabel K α} (h : SemaphoreInv s.asyncSemaphore)
    (hs : s.step a = some s') : Later s.asyncSemaphore s'.asyncSemaphore := by
  cases a with
  | push item =>
    cases hs
    exact .refl _
  | release =>
    simp only [AsyncCollection.step] at hs
    split_ifs at hs
    exact semaphoreStep_later (s := { s with adding := s.adding - 1 }) h hs
  | resume i =>
    simp only [AsyncCollection.step] at hs
    split_ifs at hs
    cases hs
    have hkeep : (s.resume i).asyncSemaphore = s.asyncSemaphore := by
      unfold AsyncCollection.resume
      repeat' split
      all_goals rfl
    rw [hkeep]
    exact .refl _
  | tryTakeAll =>
    cases hs
    exact .refl _
  | takeAsync k | advance | cancel k | runCancel k => exact semaphoreStep_later h hs

theorem reaches_later (h : CollectionInv s)
    (hr : (collectionMachine K α ε).Reaches InStep s s') :
    CollectionInv s' ∧ Later s.asyncSemaphore s'.asyncSemaphore := by
  refine hr.preserves
    (I := fun u => CollectionInv u ∧ Later s.asyncSemaphore u.asyncSemaphore) ?_ ⟨h, .refl _⟩
  rintro u a u' ⟨hi, hl⟩ hg hs
  exact ⟨hi.step hg hs, hl.trans (step_later hi.semaphore hs)⟩

/-! ## Every run -/

/-- Permits and items. In every run whose steps meet `InStep`: where no operation is in
    progress the permits and the takers that are granted and not resumed are as many as the
    queued items; no `TakeAsync` fails with `couldNotTake`; a `TakeAsync` called on an empty
    collection is not granted before an item is added; the items handed out, in their order,
    and those still queued are the items added, and a `TakeAsync` task yields the one item
    that was handed to it; and no `Add` throws. -/
theorem permits_eq_items (h : (collectionMachine K α ε).Reachable InStep s) :
    (s.Quiet → s.asyncSemaphore.currentCount + s.waitingTakers = s.innerCollection.length) ∧
    (∀ i, s.outcome i ≠ some (.error couldNotTake)) ∧
    (s.Quiet → s.innerCollection = [] → ∀ s', (collectionMachine K α ε).Reaches InStep s s' →
      s'.added = s.added → ∀ i, s.asyncSemaphore.issued ≤ i →
        (s'.asyncSemaphore.waitTask i).state ≠ .runToCompletion ∧ ∀ x, s'.outcome i ≠ some (.ok x)) ∧
    s.added = s.handedOut.map Prod.snd ++ s.innerCollection ∧
    (∀ i x, s.outcome i = some (.ok x) ↔ (some i, x) ∈ s.handedOut) ∧
    s.asyncSemaphore.rejected = 0 := by
  have hinv := reachable_collectionInv h
  refine ⟨?_, ?_, ?_, hinv.order, hinv.taken, hinv.rejected⟩
  · rintro ⟨hc, hadding⟩
    have hbal := hinv.balance
    rw [hc, hadding] at hbal
    simpa [Critical.releasing, Critical.inRelease, Critical.grantedOne] using hbal
  · intro i hi
    have hok := hinv.outcome i
    rw [hi] at hok
    cases hok.2
  · intro hq hnil s' hr hadded i hi
    obtain ⟨hinv', hl⟩ := reaches_later hinv hr
    have hpending : (s'.asyncSemaphore.waitTask i).state ≠ .runToCompletion := by
      intro hst
      have hlt : i < s'.asyncSemaphore.issued := by
        by_contra hge
        rw [hinv'.semaphore.fresh i (Nat.le_of_not_lt hge)] at hst
        cases hst
      have hgrants := hl.grants_lt hi hlt hst
      have hall := hinv.grants_of_empty hq hnil
      have hle := hinv'.grants_le_added
      rw [hadded] at hle
      omega
    refine ⟨hpending, fun x hx => ?_⟩
    have hok := hinv'.outcome i
    rw [hx] at hok
    have hgranted : s'.asyncSemaphore.waitTask i = granted := hok
    rw [hgranted] at hpending
    exact hpending rfl

/-- A taker waits on the empty collection; the item added first is handed to it, the item
    added second stays queued. -/
theorem permits_eq_items_take :
    ∃ s : AsyncCollection Unit ℕ Empty, (collectionMachine Unit ℕ Empty).Reachable InStep s ∧
      s.outcome 0 = some (.ok 7) ∧ s.handedOut = [(some 0, 7)] ∧
        s.asyncSemaphore.currentCount + s.waitingTakers = 1 := by
  have hr : (collectionMachine Unit ℕ Empty).Reachable InStep _ :=
    .head (a := .takeAsync none) rfl ⟨nofun, nofun⟩ <| .head (a := .advance) rfl ⟨nofun, nofun⟩ <|
    .head (a := .push 7) rfl ⟨nofun, nofun⟩ <| .head (a := .release) rfl ⟨nofun, fun _ => nofun⟩ <|
    .head (a := .advance) rfl ⟨nofun, nofun⟩ <| .head (a := .resume 0) rfl ⟨nofun, nofun⟩ <|
    .head (a := .push 8) rfl ⟨nofun, nofun⟩ <|
    .head (a := .release) rfl ⟨nofun, fun _ => nofun⟩ .refl
  exact ⟨_, hr, rfl, rfl, (permits_eq_items hr).1 ⟨rfl, rfl⟩⟩

/-- `TryTakeAll` takes the item of a permit; the `TakeAsync` that is granted the permit fails. -/
theorem not_permits_eq_items :
    ∃ s : AsyncCollection Unit ℕ Empty, (collectionMachine Unit ℕ Empty).Reachable Machine.Any s ∧
      s.Quiet ∧ s.outcome 0 = some (.error couldNotTake) := by
  have hr : (collectionMachine Unit ℕ Empty).run (collectionMachine Unit ℕ Empty).init
      [.push 7, .release, .tryTakeAll, .takeAsync none, .resume 0] = some _ := rfl
  exact ⟨_, .of_run hr, ⟨rfl, rfl⟩, rfl⟩

end AsyncCpp.AsyncPrimitives
