import Mathlib.Tactic.FinCases
import AsyncCpp.Tasks.TaskInvariant

/-!
# Continuations

`AddContinuation` decides under `_lockObject` whether to store a continuation or to
invoke it itself, while the ten ways to complete a task each end in `notify_all` and
`runContinuations`. The successful body writes `RunToCompletion` without the lock,
so a continuation can still be stored after the task is completed; it is in the list
before the thread that completed the task can take its snapshot.

Every continuation is in one place: on its way into the list, in the list, in a
snapshot, about to be invoked by `AddContinuation`, or invoked (`ContinuationsOk.once`).
Whoever completed the task is before its snapshot as long as something is in the
list or on its way there (`ContinuationsOk.handOver`).

Results:
* `continuations_exactly_once`: a task of any kind that is started at most once invokes
  every added continuation at most once, only when it is completed, and exactly once
  by the time no thread can go on.
-/

namespace AsyncCpp.Tasks

open Interleaving

variable {α ε T : Type*} {kind : TaskKind}

/-! ## Who holds what -/

/-- A thread at this place holds `_lockObject`. -/
def Pc.holdsLock : Pc → Bool
  | .addLocked _ | .addEnqueue _ | .waitRead _ | .waitPark _ => true
  | _ => false

/-- How often a thread at this place still has to store or invoke continuation `k`. -/
def Pc.owes (k : ℕ) : Pc → ℕ
  | .addLocked k' | .addEnqueue k' | .addRun k' => if k' = k then 1 else 0
  | .continuing ks => ks.count k
  | _ => 0

/-- A thread at this place is about to take the snapshot of the continuations. -/
def Pc.delivers : Pc → Bool
  | .notify | .runContinuations => true
  | _ => false

/-- A thread at this place is about to store a continuation. -/
def Pc.stores : Pc → Bool
  | .addEnqueue _ => true
  | _ => false

/-- How often continuation `k` was invoked. -/
def TaskSystem.timesInvoked (s : TaskSystem α ε T) (k : ℕ) : ℕ := (s.invoked.map Prod.fst).count k

structure ContinuationsOk [Fintype T] (s : TaskSystem α ε T) : Prop where
  lock : ∀ t, s.lockObject = some t ↔ (s.pc t).holdsLock
  once : ∀ k, tally (Pc.owes k) s.pc + s.task.continuations.count k + s.timesInvoked k =
    (List.range s.added).count k
  completed : ∀ i ∈ s.invoked, i.2.isCompleted
  handOver : s.task.state.isCompleted →
    (s.task.continuations ≠ [] ∨ ∃ t, (s.pc t).stores) → ∃ t, (s.pc t).delivers

/-- Thread `t` moves to `p` and keeps, takes or frees `_lockObject`. -/
inductive LockMove (s s' : TaskSystem α ε T) (t : T) (p : Pc) : Prop
  | keep (hp : p.holdsLock = (s.pc t).holdsLock) (hl : s'.lockObject = s.lockObject)
  | take (hp : p.holdsLock) (hl : s.lockObject = none) (hl' : s'.lockObject = some t)
  | free (ht : (s.pc t).holdsLock) (hp : p.holdsLock = false) (hl' : s'.lockObject = none)

@[simp] theorem Pc.holdsLock_wake (p : Pc) : p.wake.holdsLock = p.holdsLock := by
  cases p <;> rfl

@[simp] theorem Pc.owes_wake (k : ℕ) (p : Pc) : p.wake.owes k = p.owes k := by
  cases p <;> rfl

@[simp] theorem Pc.delivers_wake (p : Pc) : p.wake.delivers = p.delivers := by
  cases p <;> rfl

@[simp] theorem Pc.stores_wake (p : Pc) : p.wake.stores = p.stores := by
  cases p <;> rfl

theorem Pc.holdsLock_of_stores {p : Pc} (h : p.stores) : p.holdsLock := by
  cases p <;> simp_all [Pc.stores, Pc.holdsLock]

/-- The owner of `_lockObject` is the thread inside its critical section. -/
theorem LockMove.holds [DecidableEq T] {s s' : TaskSystem α ε T} {t : T} {p : Pc}
    (hl : LockMove s s' t p) (h : ∀ u, s.lockObject = some u ↔ (s.pc u).holdsLock)
    (hpc : s'.pc = Function.update s.pc t p) (u : T) :
    s'.lockObject = some u ↔ (s'.pc u).holdsLock := by
  rw [hpc]
  by_cases hu : u = t
  · subst hu
    rw [Function.update_self]
    cases hl with
    | keep hp hl => rw [hl, hp]; exact h u
    | take hp hl hl' => simp [hl', hp]
    | free ht hp hl' => simp [hl', hp]
  · rw [Function.update_of_ne hu, ← h u]
    cases hl with
    | keep hp hl => rw [hl]
    | take hp hl hl' => simp [hl, hl', Ne.symm hu]
    | free ht hp hl' => simp [(h t).mpr ht, hl', Ne.symm hu]

/-- A thread that holds the lock can go on. -/
theorem runStep_of_holdsLock [DecidableEq T] {s : TaskSystem α ε T} {t : T}
    (h : (s.pc t).holdsLock) : s.runStep t ≠ none := by
  intro hrun
  cases hpc : s.pc t <;> simp only [hpc, Pc.holdsLock] at h <;>
    simp only [TaskSystem.runStep, hpc] at hrun
  case addLocked => split at hrun <;> cases hrun
  case addEnqueue | waitPark => cases hrun
  case waitRead =>
    split at hrun
    · split at hrun
      · cases hrun
      · split at hrun <;> cases hrun
    · cases hrun
  all_goals cases h

/-! ## One step -/

namespace ContinuationsOk

variable [Fintype T] [DecidableEq T] {s s' : TaskSystem α ε T} {t : T} {p : Pc}

/-- A thread moves. What it owed before and owes now, and what is in the list and in the
    log, balance; a thread that stops delivering has emptied the list. -/
theorem move (h : ContinuationsOk s) (hpc : s'.pc = Function.update s.pc t p)
    (hl : LockMove s s' t p)
    (honce : ∀ k, p.owes k + s'.task.continuations.count k + s'.timesInvoked k +
        (List.range s.added).count k =
      (s.pc t).owes k + s.task.continuations.count k + s.timesInvoked k +
        (List.range s'.added).count k)
    (hinv : ∀ i ∈ s'.invoked, i ∈ s.invoked ∨ i.2.isCompleted)
    (hhand : s'.task.state.isCompleted → p.delivers ∨
      (s'.task.continuations = [] ∧ s'.lockObject = none) ∨
      (s.task.state.isCompleted ∧ (s.pc t).delivers = false ∧ p.stores = false ∧
        (s'.task.continuations = s.task.continuations ∨ (s.pc t).stores))) :
    ContinuationsOk s' where
  lock := hl.holds h.lock hpc
  once := by
    intro k
    have h1 := h.once k
    have h2 := tally_update (Pc.owes k) s.pc t p
    have h3 := honce k
    rw [hpc]
    omega
  completed := by
    intro i hi
    rcases hinv i hi with hi | hi
    · exact h.completed i hi
    · exact hi
  handOver := by
    intro hc hne
    rcases hhand hc with hd | ⟨hnil, hfree⟩ | ⟨hc0, hd, hp, hsame⟩
    · exact ⟨t, by rwa [hpc, Function.update_self]⟩
    · rcases hne with hne | ⟨u, hu⟩
      · exact absurd hnil hne
      · have := (hl.holds h.lock hpc u).mpr (Pc.holdsLock_of_stores hu)
        rw [hfree] at this
        cases this
    · have hbefore : s.task.continuations ≠ [] ∨ ∃ u, (s.pc u).stores := by
        rcases hne with hne | ⟨u, hu⟩
        · rcases hsame with hsame | hst
          · exact .inl (hsame ▸ hne)
          · exact .inr ⟨t, hst⟩
        · refine .inr ⟨u, ?_⟩
          by_cases hut : u = t
          · subst hut
            rw [hpc, Function.update_self, hp] at hu
            cases hu
          · rwa [hpc, Function.update_of_ne hut] at hu
      obtain ⟨u, hu⟩ := h.handOver hc0 hbefore
      refine ⟨u, ?_⟩
      have hut : u ≠ t := by
        rintro rfl
        rw [hd] at hu
        cases hu
      rwa [hpc, Function.update_of_ne hut]

/-- A thread that holds no continuation moves to a place that holds none and touches
    neither the list nor the log. -/
theorem quiet (h : ContinuationsOk s) (hpc : s'.pc = Function.update s.pc t p)
    (hl : LockMove s s' t p) (h1 : ∀ k, p.owes k = (s.pc t).owes k)
    (h2 : s'.task.continuations = s.task.continuations) (h3 : s'.invoked = s.invoked)
    (h4 : s'.added = s.added)
    (hhand : s'.task.state.isCompleted → p.delivers ∨
      (s.task.state.isCompleted ∧ (s.pc t).delivers = false ∧ p.stores = false)) :
    ContinuationsOk s' := by
  refine h.move hpc hl ?_ (fun i hi => .inl (h3 ▸ hi)) ?_
  · intro k
    simp only [TaskSystem.timesInvoked, h1, h2, h3, h4]
  · intro hc
    rcases hhand hc with hd | ⟨hc0, hd, hp⟩
    · exact .inl hd
    · exact .inr (.inr ⟨hc0, hd, hp, .inl h2⟩)

/-- An invocation from a place of a completed task. -/
theorem invoke (h : ContinuationsOk s) {k : ℕ} (hc : s.task.state.isCompleted)
    (hs : s' = s.invoke t k p) (hp : p.holdsLock = (s.pc t).holdsLock)
    (howes : ∀ j, p.owes j + (if k = j then 1 else 0) = (s.pc t).owes j)
    (hd : (s.pc t).delivers = false) (hst : p.stores = false) : ContinuationsOk s' := by
  subst hs
  refine h.move rfl (.keep hp rfl) ?_ ?_ fun _ => .inr (.inr ⟨hc, hd, hst, .inl rfl⟩)
  · intro j
    have := howes j
    simp only [TaskSystem.timesInvoked, TaskSystem.invoke, TaskSystem.goto, List.map_append,
      List.map_cons, List.map_nil, List.count_append, List.count_singleton, beq_iff_eq]
    omega
  · intro i hi
    rcases List.mem_append.mp hi with hi | hi
    · exact .inl hi
    · rw [List.mem_singleton.mp hi]
      exact .inr hc

theorem run_step (h : ContinuationsOk s) (hi : Inv s) (hs : s.runStep t = some s') :
    ContinuationsOk s' := by
  have ht := hi.pc t
  cases runStep_cases hs with
  | addLate hpc =>
    refine h.move rfl (.free (by rw [hpc]; rfl) rfl rfl) ?_ (fun i hi => .inl hi) ?_
    · intro j
      simp [hpc, Pc.owes, TaskSystem.timesInvoked]
    · intro hc
      exact .inr (.inr ⟨hc, by rw [hpc]; rfl, rfl, .inl rfl⟩)
  | addEarly hpc hc =>
    refine h.move rfl (.keep (by rw [hpc]; rfl) rfl) ?_ (fun i hi => .inl hi) ?_
    · intro j
      simp [hpc, Pc.owes, TaskSystem.timesInvoked]
    · intro hc'
      exact absurd hc' hc
  | addEnqueue hpc =>
    refine h.move rfl (.free (by rw [hpc]; rfl) rfl rfl) ?_ (fun i hi => .inl hi) ?_
    · intro j
      simp only [hpc, Pc.owes, TaskSystem.timesInvoked, TaskSystem.goto, List.count_append,
        List.count_singleton, beq_iff_eq]
      omega
    · intro hc
      exact .inr (.inr ⟨hc, by rw [hpc]; rfl, rfl, .inr (by rw [hpc]; rfl)⟩)
  | addRun hpc =>
    rw [hpc] at ht
    exact h.invoke ht rfl (by rw [hpc]; rfl) (by simp [hpc, Pc.owes]) (by rw [hpc]; rfl) rfl
  | continuing hpc =>
    rw [hpc] at ht
    refine h.invoke ht rfl (by rw [hpc]; rfl) ?_ (by rw [hpc]; rfl) rfl
    intro j
    simp [hpc, Pc.owes, List.count_cons]
  | runContinuations hpc hfree =>
    refine h.move rfl (.keep (by rw [hpc]; rfl) rfl) ?_ (fun i hi => .inl hi) ?_
    · intro j
      simp [hpc, Pc.owes, TaskSystem.timesInvoked]
    · intro _
      exact .inr (.inl ⟨rfl, hfree⟩)
  | notify hpc =>
    have hw : ContinuationsOk { s with pc := fun u => (s.pc u).wake } :=
      ⟨by simpa using h.lock, by simpa [tally, TaskSystem.timesInvoked] using h.once, h.completed,
        by simpa using h.handOver⟩
    exact hw.quiet rfl (.keep (by simp only [hpc]; rfl) rfl) (by simp only [hpc]; intro; rfl)
      rfl rfl rfl fun _ => .inl rfl
  | startCanceled hpc | bodyCanceled hpc | bodyFaulted hpc | bodyDone hpc =>
    -- whoever completes the task delivers next
    exact h.quiet rfl (.keep (by rw [hpc]; rfl) rfl) (by simp [hpc, Pc.owes]) rfl rfl rfl
      fun _ => .inl rfl
  | schedule hpc | bodyRunning hpc =>
    exact h.quiet rfl (.keep (by rw [hpc]; rfl) rfl) (by simp [hpc, Pc.owes]) rfl rfl rfl
      (fun h => by cases h)
  | startAgain hpc | startEnqueue hpc | bodyThrows hpc | bodyBegin hpc | bodyCall hpc
  | continued hpc | waitAgain hpc | resultCall hpc =>
    exact h.quiet rfl (.keep (by rw [hpc]; rfl) rfl) (by simp [hpc, Pc.owes]) rfl rfl rfl
      fun hc => .inr ⟨hc, by rw [hpc]; rfl, rfl⟩
  | waitThrows hpc | waitResult hpc | waitReturns hpc | waitPark hpc =>
    exact h.quiet rfl (.free (by rw [hpc]; rfl) rfl rfl) (by simp [hpc, Pc.owes]) rfl rfl rfl
      fun hc => .inr ⟨hc, by rw [hpc]; rfl, rfl⟩
  | woken hpc hfree =>
    exact h.quiet rfl (.take rfl hfree rfl) (by simp [hpc, Pc.owes]) rfl rfl rfl
      fun hc => .inr ⟨hc, by rw [hpc]; rfl, rfl⟩

theorem step (h : ContinuationsOk s) (hi : Inv s) {a : TaskLabel α ε T}
    (hs : TaskSystem.step kind s a = some s') : ContinuationsOk s' := by
  cases a with
  | run t => exact h.run_step hi hs
  | cancel => cases hs; exact ⟨h.lock, h.once, h.completed, h.handOver⟩
  | call t r =>
    obtain ⟨hpc, hst⟩ := hi.call_effect hs
    have hfunc : s.task.func = none ∨ s.task.func.isSome := by cases s.task.func <;> simp
    simp only [TaskSystem.step, TaskSystem.callStep, hpc] at hs
    split at hs
    · cases hs
      exact h.quiet rfl (.keep (by rw [hpc]; rfl) rfl) (by simp [hpc, Pc.owes]) rfl rfl rfl
        fun hc => .inr ⟨hc, by rw [hpc]; rfl, rfl⟩
    · cases hs
      refine h.quiet rfl (.keep ?_ rfl) ?_ rfl rfl rfl fun hc => .inr ⟨hc, by rw [hpc]; rfl, ?_⟩
      all_goals (split <;> simp [hpc, Pc.owes, Pc.holdsLock, Pc.stores])
    · simp_all
    · simp_all
    · cases hs
  | set t c =>
    simp only [TaskSystem.step] at hs
    split at hs
    case isFalse => cases hs
    rename_i hen
    obtain ⟨hidle, -, hcalls⟩ := hen
    split at hs
    · cases hs; exact ⟨h.lock, h.once, h.completed, h.handOver⟩
    · cases hs; exact ⟨h.lock, h.once, h.completed, h.handOver⟩
    · rename_i task completed happ
      cases hs
      obtain ⟨-, hconts, -, hc, -⟩ := SetCall.apply_eq_ok_some happ hi.stored hcalls
      cases completed
      · exact h.quiet rfl (.keep (by rw [hidle]; rfl) rfl) (by simp [hidle, Pc.owes]) hconts rfl rfl
          fun hc' => absurd (hc.symm.trans hc') (by simp)
      · exact h.quiet rfl (.keep (by rw [hidle]; rfl) rfl) (by simp [hidle, Pc.owes]) hconts rfl rfl
          fun _ => .inl rfl
  | addContinuation t =>
    simp only [TaskSystem.step] at hs
    split at hs <;> cases hs
    rename_i hen
    obtain ⟨hidle, hfree⟩ := hen
    refine h.move rfl (.take rfl (Option.isNone_iff_eq_none.mp hfree) rfl) ?_ (fun i hi => .inl hi)
      fun hc => .inr (.inr ⟨hc, by rw [hidle]; rfl, rfl, .inl rfl⟩)
    intro k
    simp only [hidle, Pc.owes, TaskSystem.timesInvoked, TaskSystem.goto, List.range_succ,
      List.count_append, List.count_singleton, beq_iff_eq]
    omega
  | wait t result =>
    simp only [TaskSystem.step] at hs
    split at hs <;> cases hs
    rename_i hen
    obtain ⟨hidle, hfree⟩ := hen
    exact h.quiet rfl (.take rfl (Option.isNone_iff_eq_none.mp hfree) rfl)
      (by simp [hidle, Pc.owes]) rfl rfl rfl fun hc => .inr ⟨hc, by rw [hidle]; rfl, rfl⟩
  | start t =>
    simp only [TaskSystem.step] at hs
    split at hs <;> cases hs
    rename_i hen
    refine h.quiet rfl (.keep ?_ rfl) ?_ rfl rfl rfl fun hc => .inr ⟨hc, by rw [hen.2]; rfl, ?_⟩
    all_goals (split <;> simp [hen.2, Pc.owes, Pc.holdsLock, Pc.stores])
  | body t =>
    simp only [TaskSystem.step] at hs
    split at hs <;> cases hs
    rename_i hen
    exact h.quiet rfl (.keep (by rw [hen.1]; rfl) rfl) (by simp [hen.1, Pc.owes]) rfl rfl rfl
      fun hc => .inr ⟨hc, by rw [hen.1]; rfl, rfl⟩
  | spuriousWake t =>
    simp only [TaskSystem.step] at hs
    split at hs <;> cases hs
    rename_i result hpc
    exact h.quiet rfl (.keep (by rw [hpc]; rfl) rfl) (by simp [hpc, Pc.owes]) rfl rfl rfl
      fun hc => .inr ⟨hc, by rw [hpc]; rfl, rfl⟩

end ContinuationsOk

theorem reachable_continuationsOk [Fintype T] [DecidableEq T] {s : TaskSystem α ε T}
    (h : (taskMachine kind α ε T).Reachable StartGuard s) : ContinuationsOk s := by
  refine h.invariant_with (fun _ => reachable_inv) ?_ fun s a s' hi hc _ hs => hc.step hi hs
  exact ⟨by simp [taskMachine, Pc.holdsLock],
    by simp [taskMachine, tally, Pc.owes, TaskSystem.timesInvoked], by simp [taskMachine],
    by simp [taskMachine, TaskState.isCompleted]⟩

/-! ## Started at most once -/

/-- `Start()` is called at most once. -/
def OneStart (s : TaskSystem α ε T) (a : TaskLabel α ε T) : Prop :=
  ∀ t, a = .start t → s.starts = 0

/-- Before its critical section the only `Start()` call still finds the task in state
    `Created`. -/
structure StartedOnce (kind : TaskKind) (s : TaskSystem α ε T) : Prop where
  function : s.starts ≠ 0 → kind = .function
  created : kind = .function → s.starts = 0 → s.task.state = .created
  pending : ∀ t, StartSection s t → s.starts ≠ 0 ∧ s.task.state = .created
  unique : ∀ t u, StartSection s t → StartSection s u → t = u

theorem StartedOnce.startGuard {s : TaskSystem α ε T} (h : StartedOnce kind s)
    (a : TaskLabel α ε T) : StartGuard s a := by
  rintro t - hpc
  exact (h.pending t (.inl hpc)).2

variable [DecidableEq T]

/-- Only `start` lets a thread into the critical section of `Start()`, and the thread
    leaves it with its next step. -/
theorem startSection_of_update {s s' : TaskSystem α ε T} {t u : T} {p : Pc}
    (hpc : s'.pc = Function.update s.pc t p) (hp : p ≠ .startCanceled ∧ p ≠ .startLock)
    (hu : StartSection s' u) : StartSection s u ∧ u ≠ t := by
  have hut : u ≠ t := by
    rintro rfl
    rw [StartSection, hpc, Function.update_self] at hu
    exact hu.elim hp.1 hp.2
  rw [StartSection, hpc, Function.update_of_ne hut] at hu
  exact ⟨hu, hut⟩

theorem run_startSection {s s' : TaskSystem α ε T} {t : T} (hs : s.runStep t = some s') :
    s'.starts = s.starts ∧ ∀ u, StartSection s' u → StartSection s u ∧ u ≠ t := by
  cases runStep_cases hs with
  | notify hpc =>
    refine ⟨rfl, fun u hu => ?_⟩
    obtain ⟨hsec, hut⟩ := startSection_of_update
      (s := { s with pc := fun u => (s.pc u).wake }) rfl (by simp) hu
    refine ⟨?_, hut⟩
    cases hp : s.pc u <;> simp_all [StartSection, Pc.wake]
  | _ => exact ⟨rfl, fun u hu => startSection_of_update rfl (by simp) hu⟩

theorem step_startSection {s s' : TaskSystem α ε T} {a : TaskLabel α ε T}
    (hs : TaskSystem.step kind s a = some s') :
    (∃ t, a = .start t ∧ kind = .function ∧ s'.starts = s.starts + 1 ∧ s'.task = s.task ∧
      ∀ u, StartSection s' u → u = t ∨ StartSection s u) ∨
    (s'.starts = s.starts ∧ ∀ u, StartSection s' u → StartSection s u ∧ a ≠ .run u) := by
  cases a with
  | start t =>
    simp only [TaskSystem.step] at hs
    split at hs <;> cases hs
    rename_i hen
    refine .inl ⟨t, rfl, hen.1, rfl, rfl, fun u hu => ?_⟩
    by_cases hut : u = t
    · exact .inl hut
    · right
      simpa [StartSection, Function.update_of_ne hut] using hu
  | run t =>
    obtain ⟨h1, h2⟩ := run_startSection hs
    refine .inr ⟨h1, fun u hu => ⟨(h2 u hu).1, fun heq => (h2 u hu).2 ?_⟩⟩
    cases heq
    rfl
  | cancel => cases hs; exact .inr ⟨rfl, fun u hu => ⟨hu, (by simp)⟩⟩
  | call t r =>
    simp only [TaskSystem.step, TaskSystem.callStep] at hs
    refine .inr ?_
    split at hs
    · cases hs
      exact ⟨rfl, fun u hu => ⟨(startSection_of_update rfl (by simp) hu).1, (by simp)⟩⟩
    · cases hs
      refine ⟨rfl, fun u hu => ⟨(startSection_of_update rfl ?_ hu).1, (by simp)⟩⟩
      split <;> simp
    · cases hs
      exact ⟨rfl, fun u hu => ⟨(startSection_of_update rfl (by simp) hu).1, (by simp)⟩⟩
    · cases hs
      exact ⟨rfl, fun u hu => ⟨(startSection_of_update rfl (by simp) hu).1, (by simp)⟩⟩
    · cases hs
  | set t c =>
    simp only [TaskSystem.step] at hs
    split at hs
    case isFalse => cases hs
    split at hs
    · cases hs; exact .inr ⟨rfl, fun u hu => ⟨hu, (by simp)⟩⟩
    · cases hs; exact .inr ⟨rfl, fun u hu => ⟨hu, (by simp)⟩⟩
    · cases hs
      refine .inr ⟨rfl, fun u hu => ⟨(startSection_of_update rfl ?_ hu).1, (by simp)⟩⟩
      split <;> simp
  | addContinuation t | wait t result | body t | spuriousWake t =>
    simp only [TaskSystem.step] at hs
    split at hs <;> cases hs
    exact .inr ⟨rfl, fun u hu => ⟨(startSection_of_update rfl (by simp) hu).1, (by simp)⟩⟩

theorem StartedOnce.step [Fintype T] {s s' : TaskSystem α ε T} {a : TaskLabel α ε T}
    (h : StartedOnce kind s) (hi : Inv s) (hg : OneStart s a)
    (hs : TaskSystem.step kind s a = some s') : StartedOnce kind s' := by
  rcases step_startSection hs with ⟨t, rfl, hk, hn, htask, hsec⟩ | ⟨hn, hsec⟩
  · -- the only `start`: nobody was in the section before
    have h0 := hg t rfl
    have hnone : ∀ u, ¬ StartSection s u := fun u hu => (h.pending u hu).1 h0
    have hst : s'.task.state = .created := by rw [htask]; exact h.created hk h0
    have honly : ∀ u, StartSection s' u → u = t := fun u hu => (hsec u hu).resolve_right (hnone u)
    exact ⟨fun _ => hk, fun _ _ => hst, fun u _ => ⟨by omega, hst⟩,
      fun u v hu hv => (honly u hu).trans (honly v hv).symm⟩
  · have hkeep : ∀ u, StartSection s u → a ≠ .run u → s'.task.state = .created := by
      intro u hu hne
      obtain ⟨h1, h2⟩ := h.pending u hu
      rcases hi.step_effect (h.startGuard a) hs with he | ⟨hun, -⟩ | ⟨-, he⟩
      · rw [he.1, h2]
      · rw [h2] at hun
        cases hun
      · obtain ⟨v, rfl, hv, -⟩ := he (h.function h1)
        exact absurd (by rw [h.unique u v hu hv]) hne
    refine ⟨by rw [hn]; exact h.function, ?_, ?_, ?_⟩
    · intro hk h0
      rw [hn] at h0
      have hc := h.created hk h0
      rcases hi.step_effect (h.startGuard a) hs with he | ⟨hun, -⟩ | ⟨-, he⟩
      · rw [he.1, hc]
      · rw [hc] at hun
        cases hun
      · obtain ⟨v, rfl, hv, -⟩ := he hk
        exact absurd h0 (h.pending v hv).1
    · intro u hu
      obtain ⟨hu0, hne⟩ := hsec u hu
      exact ⟨by rw [hn]; exact (h.pending u hu0).1, hkeep u hu0 hne⟩
    · intro u v hu hv
      exact h.unique u v (hsec u hu).1 (hsec v hv).1

theorem reachable_startedOnce [Fintype T] {s : TaskSystem α ε T}
    (h : (taskMachine kind α ε T).Reachable OneStart s) : Inv s ∧ StartedOnce kind s := by
  refine h.invariant (I := fun u => Inv u ∧ StartedOnce kind u) ?_ ?_
  · exact ⟨reachable_inv (Machine.Reachable.init (M := taskMachine kind α ε T)),
      by simp [taskMachine], by simp [taskMachine], by simp [taskMachine, StartSection],
      by simp [taskMachine, StartSection]⟩
  · rintro v b v' ⟨hi, ho⟩ hg hs
    exact ⟨hi.step (ho.startGuard b) hs, ho.step hi hg hs⟩

/-- A task that is started at most once meets the condition on its `Start()`. -/
theorem reachable_of_oneStart [Fintype T] {s : TaskSystem α ε T}
    (h : (taskMachine kind α ε T).Reachable OneStart s) :
    (taskMachine kind α ε T).Reachable StartGuard s :=
  h.strengthen fun _ a hu _ => (reachable_startedOnce hu).2.startGuard a

/-! ## Exactly once -/

variable [Fintype T]

/-- Where no thread can go on, nobody holds the lock. -/
theorem lock_free_of_stuck {s : TaskSystem α ε T} (h : ContinuationsOk s)
    (hstuck : ∀ t, s.runStep t = none) : s.lockObject = none := by
  cases hl : s.lockObject with
  | none => rfl
  | some t => exact absurd (hstuck t) (runStep_of_holdsLock ((h.lock t).mp hl))

/-- Where no thread can go on, nobody owes a continuation or is about to deliver. -/
theorem no_owner_of_stuck {s : TaskSystem α ε T} (h : ContinuationsOk s)
    (hstuck : ∀ t, s.runStep t = none) (t : T) :
    (∀ k, (s.pc t).owes k = 0) ∧ (s.pc t).delivers = false := by
  have hfree := lock_free_of_stuck h hstuck
  have hrun := hstuck t
  cases hpc : s.pc t <;> simp [TaskSystem.runStep, hpc, hfree] at hrun <;>
    simp [Pc.owes, Pc.delivers]
  case addLocked => split at hrun <;> cases hrun
  case continuing ks => cases ks <;> simp at hrun

/-- Where no thread can go on, a completed task has invoked every added continuation. -/
theorem ContinuationsOk.invoked_of_stuck {s : TaskSystem α ε T} (h : ContinuationsOk s)
    (hst : s.task.state.isCompleted) (hstuck : ∀ t, s.runStep t = none) {k : ℕ}
    (hk : k < s.added) : s.timesInvoked k = 1 := by
  have hno := no_owner_of_stuck h hstuck
  have htally : tally (Pc.owes k) s.pc = 0 := tally_eq_zero fun t => (hno t).1 k
  have hnil : s.task.continuations = [] := by
    by_contra hne
    obtain ⟨t, ht⟩ := h.handOver hst (.inl hne)
    rw [(hno t).2] at ht
    cases ht
  have := h.once k
  rw [htally, hnil, List.count_range] at this
  simpa [hk] using this

/-- A task of any kind, started at most once: every added continuation is invoked at most
    once and only when the task is completed; by the time the task is completed and no
    thread can go on, it has been invoked exactly once. -/
theorem continuations_exactly_once {s : TaskSystem α ε T}
    (h : (taskMachine kind α ε T).Reachable OneStart s) :
    (∀ k, s.timesInvoked k ≤ if k < s.added then 1 else 0) ∧
    (∀ i ∈ s.invoked, i.2.isCompleted) ∧
    (s.task.state.isCompleted → (∀ t, (taskMachine kind α ε T).step s (.run t) = none) →
      ∀ k < s.added, s.timesInvoked k = 1) := by
  have hc := reachable_continuationsOk (reachable_of_oneStart h)
  refine ⟨fun k => ?_, hc.completed, fun hst hstuck k hk => hc.invoked_of_stuck hst hstuck hk⟩
  have := hc.once k
  rw [List.count_range] at this
  omega

/-- A function task with a continuation, which thread 0 starts and thread 1 runs. Thread 2 finds
    it running in `AddContinuation` and stores its continuation after the body has written
    `RunToCompletion`; thread 0 adds a third one before the body takes its snapshot. All three
    have been invoked once when the threads are done, the third one by thread 0. -/
theorem continuations_exactly_once_function :
    ∃ s : TaskSystem ℕ Empty (Fin 3),
      (taskMachine .function ℕ Empty (Fin 3)).Reachable OneStart s ∧ s.added = 3 ∧
        s.invoked.map Prod.fst = [2, 0, 1] ∧ ∀ k < 3, s.timesInvoked k = 1 := by
  have hr : (taskMachine .function ℕ Empty (Fin 3)).Reachable OneStart _ :=
    .head (a := .addContinuation 0) rfl nofun <| .head (a := .run 0) rfl nofun <|
    .head (a := .run 0) rfl nofun <| .head (a := .start 0) rfl (fun _ _ => rfl) <|
    .head (a := .run 0) rfl nofun <| .head (a := .run 0) rfl nofun <|
    .head (a := .body 1) rfl nofun <| .head (a := .run 1) rfl nofun <|
    .head (a := .run 1) rfl nofun <| .head (a := .call 1 (.ok 5)) rfl nofun <|
    .head (a := .addContinuation 2) rfl nofun <| .head (a := .run 2) rfl nofun <|
    -- the body writes the state and wakes the waiters before thread 2 stores its continuation
    .head (a := .run 1) rfl nofun <| .head (a := .run 1) rfl nofun <|
    .head (a := .run 2) rfl nofun <| .head (a := .addContinuation 0) rfl nofun <|
    .head (a := .run 0) rfl nofun <| .head (a := .run 0) rfl nofun <|
    .head (a := .run 1) rfl nofun <| .head (a := .run 1) rfl nofun <|
    .head (a := .run 1) rfl nofun <| .head (a := .run 1) rfl nofun .refl
  exact ⟨_, hr, rfl, rfl,
    (continuations_exactly_once hr).2.2 rfl fun t => by fin_cases t <;> rfl⟩

end AsyncCpp.Tasks
