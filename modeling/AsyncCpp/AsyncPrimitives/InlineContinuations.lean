import AsyncCpp.AsyncPrimitives.SemaphoreInvariant
import AsyncCpp.Lib.CallStacks
import Mathlib.Data.Prod.Lex

/-!
# Continuations that run inside `Release`

`Release` holds `_waitersLock` over its whole loop, and `promise.TrySetResult()` in the loop
runs the continuations of the wait task (AsyncSemaphore.cpp:75-108, TaskHelpers.h:393-410). A
continuation on `CurrentThreadScheduler` runs in the completing thread, so one that calls
`WaitAsync` or `Release` on the same semaphore locks the mutex that its thread holds. The
setters of a task and `RunCancelActions` of a token call back after they have left their lock.

The machine is the one of the semaphore, with the stacks of the threads. A thread runs code
that calls the semaphore and attaches continuations to its last wait task; so does a
continuation. `Cancel` completes wait tasks outside of `_waitersLock`.

Results:
* `release_returns_of_quiet`: in every run in which the continuations of the waiters that
  `Release` completes make no call on the semaphore, no thread locks `_waitersLock` twice and
  every call that holds it returns; where such a continuation makes a call, its thread locks
  twice.
-/

namespace AsyncCpp.AsyncPrimitives

open Interleaving Tasks

/-! ## Threads and their code -/

/-- What a thread or a continuation does with the semaphore. `continueWith` attaches an inline
    continuation to the task at hand: the antecedent of the continuation, or the last wait
    task. -/
inductive WaiterCode (K : Type*) where
  | done
  | waitAsync (k : Option K) (next : WaiterCode K)
  | continueWith (continuation next : WaiterCode K)
  | release (next : WaiterCode K)

/-- A call on the stack of a thread. -/
inductive SemaphoreFrame (K : Type*) where
  /-- Code with the task at hand. -/
  | code (task : Option ℕ) (rest : WaiterCode K)
  /-- `WaitAsync` inside its critical section. -/
  | inWaitAsync
  /-- `Release` inside its critical section; `granted` says that `TrySetResult` of the waiter
      at hand has returned `true`. -/
  | inRelease (granted : Bool)
  /-- `runContinuations` of wait task `i`, with the continuations still to run. -/
  | continuing (i : ℕ) (cs : List (WaiterCode K))
  /-- `Cancel` of token `k`. -/
  | canceling (k : K)

/-- The code locks `_waitersLock` next. -/
def WaiterCode.locks {K : Type*} : WaiterCode K → Bool
  | waitAsync _ _ | release _ => true
  | _ => false

/-- The code and the continuations it attaches make no call on the semaphore. -/
def WaiterCode.quiet {K : Type*} : WaiterCode K → Bool
  | done => true
  | continueWith continuation next => continuation.quiet && next.quiet
  | waitAsync _ _ | release _ => false

/-- The frame locks `_waitersLock` next. -/
def SemaphoreFrame.locks {K : Type*} : SemaphoreFrame K → Bool
  | code _ rest => rest.locks
  | _ => false

/-- The wait task that a `WaitAsync` call in progress will return. -/
def Critical.waiting {K : Type*} : Critical K → Option ℕ
  | registering i _ | registerChecked i _ | emplacing i _ => some i
  | _ => none

/-- The semaphore, the thread that holds `_waitersLock`, the stacks, and the inline
    continuations of each wait task. -/
structure InlineSemaphore (K ε T : Type*) where
  semaphore : AsyncSemaphore K ε
  owner : Option T := none
  stack : T → List (SemaphoreFrame K) := fun _ => []
  continuations : ℕ → List (WaiterCode K) := fun _ => []

inductive InlineSemaphoreLabel (K T : Type*) where
  /-- A thread begins to run code, with a wait task that some call returned. -/
  | call (t : T) (task : Option ℕ) (code : WaiterCode K)
  | cancel (t : T) (k : K)
  | run (t : T)

namespace InlineSemaphore

variable {K ε T : Type*} [DecidableEq T]

/-- The stack of thread `t` becomes `frames`. -/
@[simp] def goto (s : InlineSemaphore K ε T) (t : T) (frames : List (SemaphoreFrame K)) :
    InlineSemaphore K ε T :=
  { s with stack := Function.update s.stack t frames }

/-- The critical section of thread `t` comes to `sem`: it goes on in `frame`, or it is over. -/
def settle (s : InlineSemaphore K ε T) (t : T) (sem : AsyncSemaphore K ε)
    (frame : SemaphoreFrame K) (frames : List (SemaphoreFrame K)) : InlineSemaphore K ε T :=
  match sem.critical with
  | .free => { s.goto t frames with semaphore := sem, owner := none }
  | _ => { s.goto t (frame :: frames) with semaphore := sem, owner := some t }

/-- Wait task `i` completes, its state is in `sem`; its continuations run above `frames`. -/
def complete (s : InlineSemaphore K ε T) (t : T) (i : ℕ) (sem : AsyncSemaphore K ε)
    (frames : List (SemaphoreFrame K)) : InlineSemaphore K ε T :=
  { s.goto t (.continuing i (s.continuations i) :: frames) with
    semaphore := sem, continuations := Function.update s.continuations i [] }

/-- `ContinueWith` of the task at hand: a completed task runs the continuation at once. -/
def continueWith (s : InlineSemaphore K ε T) (t : T) (task : Option ℕ) (c next : WaiterCode K)
    (frames : List (SemaphoreFrame K)) : InlineSemaphore K ε T :=
  match task with
  | none => s.goto t (.code none next :: frames)
  | some i =>
    if (s.semaphore.waitTask i).state = .created then
      { s.goto t (.code task next :: frames) with
        continuations := Function.update s.continuations i (s.continuations i ++ [c]) }
    else s.goto t (.code task c :: .code task next :: frames)

variable [DecidableEq K]

/-- `Release` goes on inside its critical section. -/
def runRelease (s : InlineSemaphore K ε T) (t : T) (granted : Bool)
    (frames : List (SemaphoreFrame K)) : Option (InlineSemaphore K ε T) :=
  match granted, s.semaphore.critical with
  | true, .popped _ none =>
    some (s.settle t (s.semaphore.loopTest true) (.inRelease false) frames)
  | true, .popped _ (some r) =>
    some (s.settle t { s.semaphore with critical := .disposing r true } (.inRelease false) frames)
  | false, .popped i _ =>
    if (s.semaphore.waitTask i).state = .created then
      some (s.complete t i (s.semaphore.trySetResult i) (.inRelease true :: frames))
    else s.semaphore.advance.map fun sem => s.settle t sem (.inRelease false) frames
  | _, _ => s.semaphore.advance.map fun sem => s.settle t sem (.inRelease false) frames

/-- `Cancel` of token `k` goes on. -/
def runCancel (s : InlineSemaphore K ε T) (t : T) (k : K) (frames : List (SemaphoreFrame K)) :
    Option (InlineSemaphore K ε T) :=
  (s.semaphore.runCancel k).map fun sem =>
    match s.semaphore.canceling k with
    | .running [] => { s.goto t frames with semaphore := sem }
    | .running (i :: _) =>
      if (s.semaphore.waitTask i).state = .created then
        s.complete t i sem (.canceling k :: frames)
      else { s with semaphore := sem }
    | _ => { s with semaphore := sem }

/-- Thread `t` goes on. `SemaphoreFullException` ends the code that called `Release`. -/
def run (s : InlineSemaphore K ε T) (t : T) : Option (InlineSemaphore K ε T) :=
  match s.stack t with
  | [] => none
  | .code _ .done :: frames => some (s.goto t frames)
  | .code _ (.waitAsync k next) :: frames =>
    if s.owner.isNone then
      some (s.settle t (s.semaphore.waitAsync k) .inWaitAsync
        (.code (some s.semaphore.issued) next :: frames))
    else none
  | .code task (.continueWith c next) :: frames => some (s.continueWith t task c next frames)
  | .code task (.release next) :: frames =>
    if s.owner.isNone then
      if s.semaphore.currentCount = s.semaphore.maxCount then
        some { s.goto t (.code task .done :: frames) with semaphore := s.semaphore.release }
      else
        some (s.settle t s.semaphore.release (.inRelease false) (.code task next :: frames))
    else none
  | .inWaitAsync :: frames =>
    s.semaphore.advance.map fun sem => s.settle t sem .inWaitAsync frames
  | .inRelease granted :: frames => s.runRelease t granted frames
  | .continuing _ [] :: frames => some (s.goto t frames)
  | .continuing i (c :: cs) :: frames =>
    some (s.goto t (.code (some i) c :: .continuing i cs :: frames))
  | .canceling k :: frames => s.runCancel t k frames

def step (s : InlineSemaphore K ε T) :
    InlineSemaphoreLabel K T → Option (InlineSemaphore K ε T)
  | .call t task code =>
    if s.stack t = [] ∧
        ∀ i, task = some i → i < s.semaphore.issued ∧ s.semaphore.critical.waiting ≠ some i then
      some (s.goto t [.code task code])
    else none
  | .cancel t k =>
    if s.stack t = [] then
      if (s.semaphore.token k).isCanceled then some s
      else
        (s.semaphore.step (.cancel k)).map fun sem =>
          { s.goto t [.canceling k] with semaphore := sem }
    else none
  | .run t => s.run t

/-- Thread `t` is about to lock `_waitersLock` and holds it. -/
def Relocks (s : InlineSemaphore K ε T) (t : T) : Prop :=
  SelfLock s.owner SemaphoreFrame.locks s.stack t

end InlineSemaphore

/-- The machine of a semaphore that starts in state `s`. -/
def inlineSemaphoreMachine {K ε : Type*} (T : Type*) [DecidableEq K] [DecidableEq T]
    (s : AsyncSemaphore K ε) :
    Machine (InlineSemaphore K ε T) (InlineSemaphoreLabel K T) where
  init := { semaphore := s }
  step := InlineSemaphore.step

/-- The continuations of a waiter that `Release` completes make no call on the semaphore. -/
def QuietRelease {K ε T : Type*} (s : InlineSemaphore K ε T) :
    InlineSemaphoreLabel K T → Prop
  | .run t =>
    match s.stack t, s.semaphore.critical with
    | .inRelease false :: _, .popped i _ =>
      (s.semaphore.waitTask i).state = .created → ∀ c ∈ s.continuations i, c.quiet
    | _, _ => True
  | _ => True

variable {K ε T : Type*}

/-! ## The critical section -/

/-- The critical section is in a call with the frame `f`. -/
def Critical.fits : Critical K → SemaphoreFrame K → Bool
  | registering _ _, .inWaitAsync | registerChecked _ _, .inWaitAsync
  | emplacing _ _, .inWaitAsync => true
  | popped _ _, .inRelease _ | disposing _ _, .inRelease false => true
  | _, _ => false

/-- The steps left before the critical section comes to the next waiter or ends. -/
def Critical.phase : Critical K → ℕ
  | registering _ _ | popped _ _ => 3
  | registerChecked _ _ => 2
  | emplacing _ _ | disposing _ _ => 1
  | free => 0

/-- The steps left in the critical section. -/
def AsyncSemaphore.sectionWork (s : AsyncSemaphore K ε) : ℕ :=
  8 * s.waiters.length + 2 * s.critical.phase

namespace AsyncSemaphore

variable {s s' : AsyncSemaphore K ε}

/-- The loop of `Release` ends or comes to the next waiter. -/
theorem loopTest_section (s : AsyncSemaphore K ε) (waiterReleased : Bool) :
    (s.loopTest waiterReleased).critical = .free ∨
      (s.loopTest waiterReleased).critical.fits (.inRelease false) ∧
        (s.loopTest waiterReleased).sectionWork + 2 = 8 * s.waiters.length := by
  unfold loopTest
  split_ifs with hreleased hempty
  · exact .inl rfl
  · exact .inl rfl
  · cases hw : s.waiters with
    | nil => simp [hw] at hempty
    | cons w ws =>
      refine .inr ⟨by simp only [popFront, hw]; rfl, ?_⟩
      simp only [popFront, hw, sectionWork, Critical.phase, List.length_cons]
      omega

theorem loopTest_true (s : AsyncSemaphore K ε) : (s.loopTest true).critical = .free := rfl

variable [DecidableEq K]

/-- A step of the holder of `_waitersLock` ends the critical section or leaves less of it. -/
theorem advance_section {frame : SemaphoreFrame K} (hs : s.advance = some s')
    (hf : s.critical.fits frame) :
    s'.critical = .free ∨ (s'.critical.fits .inWaitAsync ∧ frame = .inWaitAsync ∨
      s'.critical.fits (.inRelease false) ∧ frame ≠ .inWaitAsync) ∧
        s'.sectionWork + 1 < s.sectionWork := by
  cases advance_cases hs with
  | registerCanceled hc | registerChecked hc | registered hc =>
    rw [hc] at hf
    cases frame <;> simp only [Critical.fits, Bool.false_eq_true] at hf
    right
    simp [Critical.fits, sectionWork, hc, Critical.phase]
  | emplaced => exact .inl rfl
  | poppedRegistered hc =>
    rw [hc] at hf
    cases frame <;> simp only [Critical.fits, Bool.false_eq_true] at hf
    right
    simp [Critical.fits, sectionWork, hc, Critical.phase]
  | @popped i hc =>
    rcases loopTest_section (s.trySetResult i) (decide ((s.waitTask i).state = .created)) with
      hfree | ⟨hfits, hwork⟩
    · exact .inl hfree
    · rw [hc] at hf
      cases frame <;> simp only [Critical.fits, Bool.false_eq_true] at hf
      refine .inr ⟨.inr ⟨hfits, nofun⟩, ?_⟩
      have h0 : s.sectionWork = 8 * s.waiters.length + 2 * 3 := by rw [sectionWork, hc]; rfl
      have h1 : (s.trySetResult i).waiters = s.waiters := rfl
      rw [h1] at hwork
      omega
  | @disposed r b hc =>
    have h1 : (s.disposeRegistration r).waiters = s.waiters := by cases r <;> rfl
    rcases loopTest_section (s.disposeRegistration r) b with hfree | ⟨hfits, hwork⟩
    · exact .inl hfree
    · rw [hc] at hf
      cases frame <;> simp only [Critical.fits, Bool.false_eq_true] at hf
      refine .inr ⟨.inr ⟨hfits, nofun⟩, ?_⟩
      have h0 : s.sectionWork = 8 * s.waiters.length + 2 * 1 := by rw [sectionWork, hc]; rfl
      rw [h1] at hwork
      omega

end AsyncSemaphore

/-! ## The stacks -/

namespace SemaphoreFrame

/-- The frame is inside a critical section of `_waitersLock`. -/
def inSection : SemaphoreFrame K → Bool
  | inWaitAsync | inRelease _ => true
  | _ => false

/-- The frame makes no call on the semaphore. -/
def quiet : SemaphoreFrame K → Bool
  | code _ rest => rest.quiet
  | continuing _ cs => cs.all WaiterCode.quiet
  | _ => false

theorem locks_of_quiet {f : SemaphoreFrame K} (h : f.quiet) : f.locks = false := by
  cases f with
  | code task rest => cases rest <;> simp_all [quiet, locks, WaiterCode.quiet, WaiterCode.locks]
  | _ => rfl

theorem locks_of_inSection {f : SemaphoreFrame K} (h : f.inSection) : f.locks = false := by
  cases f <;> simp_all [inSection, locks]

end SemaphoreFrame

theorem Critical.inSection_of_fits {c : Critical K} {f : SemaphoreFrame K} (h : c.fits f) :
    f.inSection := by
  cases f <;> cases c <;> simp_all [Critical.fits, SemaphoreFrame.inSection]

theorem Critical.ne_free_of_fits {c : Critical K} {f : SemaphoreFrame K} (h : c.fits f) :
    c ≠ .free := by
  rintro rfl
  cases f <;> cases h

/-- The stack of the thread that holds `_waitersLock`: above the critical section everything
    is quiet, below it there is none. -/
inductive Holds (c : Critical K) : List (SemaphoreFrame K) → Prop
  | inSection {f : SemaphoreFrame K} {frames : List (SemaphoreFrame K)} (hf : c.fits f)
    (hbelow : ∀ g ∈ frames, g.inSection = false) : Holds c (f :: frames)
  | above {f : SemaphoreFrame K} {frames : List (SemaphoreFrame K)} (hf : f.quiet)
    (h : Holds c frames) : Holds c (f :: frames)

/-- The stacks fit the owner of `_waitersLock` and the critical section. -/
structure LockInv (s : InlineSemaphore K ε T) : Prop where
  holder : ∀ t, s.owner = some t → Holds s.semaphore.critical (s.stack t)
  others : ∀ t, s.owner ≠ some t → ∀ f ∈ s.stack t, f.inSection = false
  free : s.owner = none → s.semaphore.critical = .free

theorem Holds.not_locks {c : Critical K} {f : SemaphoreFrame K} {frames : List (SemaphoreFrame K)}
    (h : Holds c (f :: frames)) : f.locks = false := by
  cases h with
  | inSection hf => exact SemaphoreFrame.locks_of_inSection (Critical.inSection_of_fits hf)
  | above hf => exact SemaphoreFrame.locks_of_quiet hf

/-- Where the stacks fit, nobody locks twice. -/
theorem LockInv.not_relocks {s : InlineSemaphore K ε T} (h : LockInv s) (t : T) :
    ¬ s.Relocks t := by
  rintro ⟨ho, f, frames, hst, hlocks⟩
  have hholds := h.holder t ho
  rw [hst] at hholds
  rw [hholds.not_locks] at hlocks
  cases hlocks

/-! ## The holder goes on -/

/-- The work of a quiet code. -/
def WaiterCode.size : WaiterCode K → ℕ
  | done => 1
  | continueWith continuation next => continuation.size + next.size + 1
  | waitAsync _ next | release next => next.size + 1

namespace SemaphoreFrame

/-- `Release` is before `TrySetResult` of the waiter at hand. -/
def entering : SemaphoreFrame K → ℕ
  | inRelease false => 1
  | _ => 0

/-- The work left in a frame above the critical section. -/
def work : SemaphoreFrame K → ℕ
  | code _ rest => rest.size
  | continuing _ cs => (cs.map fun c => c.size + 1).sum + 1
  | _ => 0

end SemaphoreFrame

/-- The work that the holder `t` of `_waitersLock` has to do until it leaves the critical
    section: its steps there, and the continuations it is running. -/
def InlineSemaphore.lockWork (s : InlineSemaphore K ε T) (t : T) : ℕ ×ₗ ℕ :=
  toLex (s.semaphore.sectionWork + weigh SemaphoreFrame.entering (s.stack t),
    weigh SemaphoreFrame.work (s.stack t))

theorem entering_of_plain {frames : List (SemaphoreFrame K)}
    (h : ∀ f ∈ frames, f.inSection = false) : weigh SemaphoreFrame.entering frames = 0 := by
  refine weigh_eq_zero fun f hf => ?_
  have := h f hf
  cases f <;> first | rfl | cases this

namespace LockInv

/-- A thread outside of any call does not hold the lock. -/
theorem owner_ne {s : InlineSemaphore K ε T} {t : T} (h : LockInv s)
    (hidle : s.stack t = []) : s.owner ≠ some t := by
  intro ho
  have hholds := h.holder t ho
  rw [hidle] at hholds
  cases hholds

variable [DecidableEq T] {s s' : InlineSemaphore K ε T} {t : T}

/-- A critical section that ends or goes on. -/
theorem settle (h : LockInv s) (ht : ∀ u, s.owner = some u → u = t) {sem : AsyncSemaphore K ε}
    {frame : SemaphoreFrame K} {frames : List (SemaphoreFrame K)}
    (hframes : ∀ f ∈ frames, f.inSection = false)
    (hfits : sem.critical = .free ∨ sem.critical.fits frame) :
    LockInv (s.settle t sem frame frames) := by
  have hothers : ∀ u, u ≠ t → ∀ f ∈ s.stack u, f.inSection = false :=
    fun u hu => h.others u fun ho => hu (ht u ho)
  unfold InlineSemaphore.settle
  split
  · rename_i hfree
    refine ⟨nofun, fun u _ f hf => ?_, fun _ => hfree⟩
    by_cases hu : u = t
    · subst hu
      simp only [InlineSemaphore.goto, Function.update_self] at hf
      exact hframes f hf
    · simp only [InlineSemaphore.goto, Function.update_of_ne hu] at hf
      exact hothers u hu f hf
  · rename_i hbusy
    refine ⟨fun u hu => ?_, fun u hu f hf => ?_, nofun⟩
    · cases hu
      rw [show (_ : InlineSemaphore K ε T).stack t = _ from Function.update_self ..]
      exact .inSection (hfits.resolve_left hbusy) hframes
    · have hut : u ≠ t := fun he => hu (by rw [he])
      simp only [InlineSemaphore.goto, Function.update_of_ne hut] at hf
      exact hothers u hut f hf

/-- The stack of one thread changes, the critical section does not. -/
theorem move (h : LockInv s) {frames : List (SemaphoreFrame K)}
    (hstack : s'.stack = Function.update s.stack t frames)
    (hholder : s.owner = some t → Holds s.semaphore.critical frames)
    (hother : s.owner ≠ some t → ∀ f ∈ frames, f.inSection = false)
    (hc : s'.semaphore.critical = s.semaphore.critical := by rfl)
    (ho : s'.owner = s.owner := by rfl) : LockInv s' := by
  refine ⟨fun u hu => ?_, fun u hu f hf => ?_, fun hfree => ?_⟩
  · rw [ho] at hu
    rw [hstack, hc]
    by_cases hut : u = t
    · subst hut
      rw [Function.update_self]
      exact hholder hu
    · rw [Function.update_of_ne hut]
      exact h.holder u hu
  · rw [ho] at hu
    rw [hstack] at hf
    by_cases hut : u = t
    · subst hut
      rw [Function.update_self] at hf
      exact hother hu f hf
    · rw [Function.update_of_ne hut] at hf
      exact h.others u hu f hf
  · rw [ho] at hfree
    rw [hc]
    exact h.free hfree

/-- The holder works above the critical section: everything it pushes is quiet. -/
theorem move_above (h : LockInv s) {f : SemaphoreFrame K} {frames : List (SemaphoreFrame K)}
    (pushed : List (SemaphoreFrame K)) (ht : s.owner = some t)
    (hold : s.stack t = f :: frames) (hf : f.entering = 0)
    (hholds : Holds s.semaphore.critical frames) (hpushed : ∀ g ∈ pushed, g.quiet)
    (hstack : s'.stack = Function.update s.stack t (pushed ++ frames))
    (hwork : weigh SemaphoreFrame.work pushed < f.work)
    (hsem : s'.semaphore = s.semaphore := by rfl) (ho : s'.owner = s.owner := by rfl) :
    LockInv s' ∧ (s'.owner = none ∨ s'.owner = some t ∧ s'.lockWork t < s.lockWork t) := by
  have hnew : Holds s.semaphore.critical (pushed ++ frames) := by
    clear hstack hwork
    induction pushed with
    | nil => exact hholds
    | cons g pushed ih =>
      exact .above (hpushed g List.mem_cons_self)
        (ih fun g' hg' => hpushed g' (List.mem_cons_of_mem _ hg'))
  have hentering : weigh SemaphoreFrame.entering pushed = 0 := by
    refine weigh_eq_zero fun g hg => ?_
    have := hpushed g hg
    cases g <;> first | rfl | cases this
  refine ⟨h.move hstack (fun _ => hnew) (fun hne => absurd ht hne) (by rw [hsem]) ho,
    .inr ⟨ho.trans ht, ?_⟩⟩
  have hsplit : ∀ w : SemaphoreFrame K → ℕ,
      weigh w (s'.stack t) = weigh w pushed + weigh w frames := by
    intro w
    rw [hstack, Function.update_self]
    simp [weigh]
  rw [InlineSemaphore.lockWork, InlineSemaphore.lockWork, Prod.Lex.toLex_lt_toLex]
  right
  rw [hsplit, hsplit, hold, hsem]
  simp only [weigh_cons]
  omega

/-- The critical section goes on with less work, or it is over. -/
theorem settle_lt (h : LockInv s) (ht : s.owner = some t) {frame frame' : SemaphoreFrame K}
    {frames : List (SemaphoreFrame K)} {sem : AsyncSemaphore K ε}
    (hold : s.stack t = frame :: frames) (hframes : ∀ f ∈ frames, f.inSection = false)
    (hsec : sem.critical = .free ∨ sem.critical.fits frame' ∧
      sem.sectionWork + frame'.entering < s.semaphore.sectionWork + frame.entering) :
    LockInv (s.settle t sem frame' frames) ∧ ((s.settle t sem frame' frames).owner = none ∨
      (s.settle t sem frame' frames).owner = some t ∧
        (s.settle t sem frame' frames).lockWork t < s.lockWork t) := by
  refine ⟨h.settle (fun u hu => by rw [ht] at hu; exact (Option.some.inj hu).symm) hframes
    (hsec.imp_right And.left), ?_⟩
  rcases hsec with hfree | ⟨hfits, hwork⟩
  · left
    simp only [InlineSemaphore.settle, hfree]
  · right
    have hsettle : s.settle t sem frame' frames =
        { s.goto t (frame' :: frames) with semaphore := sem, owner := some t } := by
      unfold InlineSemaphore.settle
      split
      · exact absurd ‹_› (Critical.ne_free_of_fits hfits)
      · rfl
    rw [hsettle]
    refine ⟨rfl, ?_⟩
    rw [InlineSemaphore.lockWork, InlineSemaphore.lockWork, Prod.Lex.toLex_lt_toLex]
    left
    simp only [InlineSemaphore.goto, Function.update_self, hold, weigh_cons,
      entering_of_plain hframes]
    omega

/-- What a step of another thread leaves as it is for the holder `t` of `_waitersLock`. -/
def KeepsHolder (s s' : InlineSemaphore K ε T) : Prop :=
  ∀ t, s.owner = some t → s'.owner = some t ∧ s'.lockWork t = s.lockWork t

/-- A thread that does not hold the lock moves on its own stack. -/
theorem move_other (h : LockInv s) {frames : List (SemaphoreFrame K)} (ht : s.owner ≠ some t)
    (hstack : s'.stack = Function.update s.stack t frames)
    (hframes : ∀ f ∈ frames, f.inSection = false)
    (hc : s'.semaphore.critical = s.semaphore.critical := by rfl)
    (hw : s'.semaphore.waiters = s.semaphore.waiters := by rfl)
    (ho : s'.owner = s.owner := by rfl) : LockInv s' ∧ KeepsHolder s s' := by
  refine ⟨h.move hstack (fun he => absurd he ht) (fun _ => hframes) hc ho, fun u hu => ?_⟩
  have hut : u ≠ t := by
    rintro rfl
    exact ht hu
  refine ⟨ho.trans hu, ?_⟩
  simp only [InlineSemaphore.lockWork, AsyncSemaphore.sectionWork, hc, hw, hstack,
    Function.update_of_ne hut]

/-- A call enters its critical section, or it is over at once. -/
theorem enter (h : LockInv s) (hfree : s.owner = none) {sem : AsyncSemaphore K ε}
    {frame : SemaphoreFrame K} {frames : List (SemaphoreFrame K)}
    (hframes : ∀ f ∈ frames, f.inSection = false)
    (hsec : sem.critical = .free ∨ sem.critical.fits frame) :
    LockInv (s.settle t sem frame frames) ∧ KeepsHolder s (s.settle t sem frame frames) := by
  have hno : ∀ u, s.owner ≠ some u := fun u hu => by rw [hfree] at hu; cases hu
  exact ⟨h.settle (fun u hu => absurd hu (hno u)) hframes hsec, fun u hu => absurd hu (hno u)⟩

theorem waitAsync_section {s : AsyncSemaphore K ε} (hfree : s.critical = .free) (k : Option K) :
    (s.waitAsync k).critical = .free ∨ (s.waitAsync k).critical.fits .inWaitAsync := by
  unfold AsyncSemaphore.waitAsync
  split
  · exact .inl hfree
  · cases k <;> exact .inr rfl

theorem release_section {s : AsyncSemaphore K ε} (hfree : s.critical = .free) :
    s.release.critical = .free ∨ s.release.critical.fits (.inRelease false) := by
  unfold AsyncSemaphore.release
  split_ifs
  · exact .inl hfree
  · exact .inl hfree
  · unfold AsyncSemaphore.popFront
    split
    · exact .inl hfree
    · exact .inr rfl

/-- A thread outside of any call begins one. -/
theorem step_idle (h : LockInv s) (sem : AsyncSemaphore K ε) {f : SemaphoreFrame K}
    (hidle : s.stack t = []) (hf : f.inSection = false)
    (hc : sem.critical = s.semaphore.critical) (hw : sem.waiters = s.semaphore.waiters) :
    LockInv { s.goto t [f] with semaphore := sem } ∧
      KeepsHolder s { s.goto t [f] with semaphore := sem } :=
  h.move_other (h.owner_ne hidle) rfl (List.forall_mem_singleton.mpr hf) hc hw

variable [DecidableEq K]

/-- `Release` goes on: through `advance`, out of `TrySetResult`, or into the continuations of
    the waiter it completes. -/
theorem run_release (h : LockInv s) (ht : s.owner = some t) {granted : Bool}
    {frames : List (SemaphoreFrame K)} (hold : s.stack t = .inRelease granted :: frames)
    (hfits : s.semaphore.critical.fits (.inRelease granted))
    (hframes : ∀ f ∈ frames, f.inSection = false) (hg : QuietRelease s (.run t))
    (hs : s.runRelease t granted frames = some s') :
    LockInv s' ∧ (s'.owner = none ∨ s'.owner = some t ∧ s'.lockWork t < s.lockWork t) := by
  have hadvance : granted = false →
      (s.semaphore.advance.map fun sem => s.settle t sem (.inRelease false) frames) = some s' →
      LockInv s' ∧ (s'.owner = none ∨ s'.owner = some t ∧ s'.lockWork t < s.lockWork t) := by
    rintro rfl hs
    obtain ⟨sem, hadv, rfl⟩ := Option.map_eq_some_iff.mp hs
    refine h.settle_lt ht hold hframes ?_
    rcases AsyncSemaphore.advance_section hadv hfits with hfree | ⟨hne | hfits', hwork⟩
    · exact .inl hfree
    · cases hne.2
    · exact .inr ⟨hfits'.1, by omega⟩
  cases hc : s.semaphore.critical with
  | popped i r =>
    have hsection : s.semaphore.sectionWork = 8 * s.semaphore.waiters.length + 2 * 3 := by
      rw [AsyncSemaphore.sectionWork, hc]
      rfl
    cases granted with
    | true =>
      cases r with
      | none =>
        simp only [InlineSemaphore.runRelease, hc] at hs
        cases hs
        exact h.settle_lt ht hold hframes (.inl (s.semaphore.loopTest_true))
      | some r =>
        simp only [InlineSemaphore.runRelease, hc] at hs
        cases hs
        refine h.settle_lt ht hold hframes (.inr ⟨rfl, ?_⟩)
        rw [hsection]
        simp only [AsyncSemaphore.sectionWork, Critical.phase, SemaphoreFrame.entering]
        omega
    | false =>
      simp only [InlineSemaphore.runRelease, hc] at hs
      split at hs
      · -- the waiter is pending: its continuations run under the lock
        rename_i hpending
        cases hs
        simp only [QuietRelease, hold, hc] at hg
        have hquiet := hg hpending
        refine ⟨h.move rfl (fun _ => ?_) (fun hne => absurd ht hne), .inr ⟨ht, ?_⟩⟩
        · refine .above (List.all_eq_true.mpr hquiet) (.inSection ?_ hframes)
          rw [hc]
          rfl
        · rw [InlineSemaphore.lockWork, InlineSemaphore.lockWork, Prod.Lex.toLex_lt_toLex]
          left
          have hsame : (s.complete t i (s.semaphore.trySetResult i)
              (.inRelease true :: frames)).semaphore.sectionWork = s.semaphore.sectionWork := rfl
          rw [hsame]
          simp [InlineSemaphore.complete, hold, SemaphoreFrame.entering]
      · exact hadvance rfl hs
  | disposing r b =>
    cases granted with
    | true =>
      rw [hc] at hfits
      cases hfits
    | false =>
      simp only [InlineSemaphore.runRelease, hc] at hs
      exact hadvance rfl hs
  | free | registering | registerChecked | emplacing =>
    rw [hc] at hfits
    cases granted <;> cases hfits

/-- The holder of `_waitersLock` goes on. -/
theorem run_holder (h : LockInv s) (ht : s.owner = some t) (hg : QuietRelease s (.run t))
    (hs : s.run t = some s') :
    LockInv s' ∧ (s'.owner = none ∨ s'.owner = some t ∧ s'.lockWork t < s.lockWork t) := by
  have hholds := h.holder t ht
  cases hold : s.stack t with
  | nil => rw [hold] at hholds; cases hholds
  | cons f frames =>
  rw [hold] at hholds
  simp only [InlineSemaphore.run, hold] at hs
  cases hholds with
  | inSection hf hframes =>
    cases f with
    | inWaitAsync =>
      obtain ⟨sem, hadv, rfl⟩ := Option.map_eq_some_iff.mp hs
      refine h.settle_lt ht hold hframes ?_
      rcases AsyncSemaphore.advance_section hadv hf with hfree | ⟨hfits | hne, hwork⟩
      · exact .inl hfree
      · exact .inr ⟨hfits.1, by simp only [SemaphoreFrame.entering]; omega⟩
      · exact absurd rfl hne.2
    | inRelease granted => exact h.run_release ht hold hf hframes hg hs
    | code | continuing | canceling => cases Critical.inSection_of_fits hf
  | above hf hholds =>
    cases f with
    | code task rest =>
      cases rest with
      | done =>
        cases hs
        exact h.move_above [] ht hold rfl hholds nofun rfl
          (by simp [SemaphoreFrame.work, WaiterCode.size])
      | continueWith c next =>
        obtain ⟨hqc, hqnext⟩ := Bool.and_eq_true_iff.mp hf
        cases hs
        unfold InlineSemaphore.continueWith
        split
        · refine h.move_above [.code none next] ht hold rfl hholds ?_ rfl ?_
          · simpa [SemaphoreFrame.quiet] using hqnext
          · simp only [weigh_cons, weigh_nil, SemaphoreFrame.work, WaiterCode.size]
            omega
        · split
          · refine h.move_above [.code _ next] ht hold rfl hholds ?_ rfl ?_
            · simpa [SemaphoreFrame.quiet] using hqnext
            · simp only [weigh_cons, weigh_nil, SemaphoreFrame.work, WaiterCode.size]
              omega
          · refine h.move_above [.code _ c, .code _ next] ht hold rfl hholds ?_ rfl ?_
            · simp [SemaphoreFrame.quiet, hqc, hqnext]
            · simp only [weigh_cons, weigh_nil, SemaphoreFrame.work, WaiterCode.size]
              omega
      | waitAsync | release => cases hf
    | continuing i cs =>
      cases cs with
      | nil =>
        cases hs
        exact h.move_above [] ht hold rfl hholds nofun rfl
          (by simp [SemaphoreFrame.work])
      | cons c cs =>
        cases hs
        refine h.move_above [.code (some i) c, .continuing i cs] ht hold rfl hholds
          ?_ rfl ?_
        · simpa [SemaphoreFrame.quiet] using hf
        · simp only [weigh_cons, weigh_nil, SemaphoreFrame.work, List.map_cons, List.sum_cons]
          omega
    | inWaitAsync | inRelease | canceling => cases hf

/-! ## The other threads -/

/-- `Cancel` leaves the queue and the critical section as they are. -/
theorem runCancel_keeps {s s' : AsyncSemaphore K ε} {k : K} (hs : s.runCancel k = some s') :
    s'.critical = s.critical ∧ s'.waiters = s.waiters := by
  cases AsyncSemaphore.runCancel_cases hs <;> exact ⟨rfl, rfl⟩

/-- A thread that does not hold the lock goes on. -/
theorem run_other (h : LockInv s) (ht : s.owner ≠ some t) (hs : s.run t = some s') :
    LockInv s' ∧ KeepsHolder s s' := by
  have hplain := h.others t ht
  cases hold : s.stack t with
  | nil => simp [InlineSemaphore.run, hold] at hs
  | cons f frames =>
  rw [hold] at hplain
  have hframes : ∀ g ∈ frames, g.inSection = false :=
    fun g hg => hplain g (List.mem_cons_of_mem _ hg)
  simp only [InlineSemaphore.run, hold] at hs
  cases f with
  | code task rest =>
    cases rest with
    | done => cases hs; exact h.move_other ht rfl hframes
    | waitAsync k next =>
      simp only at hs
      split_ifs at hs with hfree
      cases hs
      have hfree := Option.isNone_iff_eq_none.mp hfree
      exact h.enter hfree (List.forall_mem_cons.mpr ⟨rfl, hframes⟩)
        (waitAsync_section (h.free hfree) k)
    | continueWith c next =>
      cases hs
      unfold InlineSemaphore.continueWith
      split
      · exact h.move_other ht rfl (List.forall_mem_cons.mpr ⟨rfl, hframes⟩)
      · split
        · exact h.move_other ht rfl (List.forall_mem_cons.mpr ⟨rfl, hframes⟩)
        · exact h.move_other ht rfl
            (List.forall_mem_cons.mpr ⟨rfl, List.forall_mem_cons.mpr ⟨rfl, hframes⟩⟩)
    | release next =>
      simp only at hs
      split_ifs at hs with hfree hfull <;> cases hs <;>
        have hfree := Option.isNone_iff_eq_none.mp hfree
      · have hrelease : s.semaphore.release =
            { s.semaphore with rejected := s.semaphore.rejected + 1 } := if_pos hfull
        exact h.move_other ht rfl (List.forall_mem_cons.mpr ⟨rfl, hframes⟩)
          (by rw [hrelease]) (by rw [hrelease])
      · exact h.enter hfree (List.forall_mem_cons.mpr ⟨rfl, hframes⟩)
          (release_section (h.free hfree))
  | continuing i cs =>
    cases cs with
    | nil => cases hs; exact h.move_other ht rfl hframes
    | cons c cs =>
      cases hs
      exact h.move_other ht rfl
        (List.forall_mem_cons.mpr ⟨rfl, List.forall_mem_cons.mpr ⟨rfl, hframes⟩⟩)
  | canceling k =>
    obtain ⟨sem, hcancel, rfl⟩ := Option.map_eq_some_iff.mp hs
    obtain ⟨hc, hw⟩ := runCancel_keeps hcancel
    have hstay : s.stack = Function.update s.stack t (.canceling k :: frames) := by
      rw [← hold, Function.update_eq_self]
    split
    · exact h.move_other ht rfl hframes hc hw
    · split
      · exact h.move_other ht rfl
          (List.forall_mem_cons.mpr ⟨rfl, List.forall_mem_cons.mpr ⟨rfl, hframes⟩⟩) hc hw
      · exact h.move_other ht hstay hplain hc hw
    · exact h.move_other ht hstay hplain hc hw
  | inWaitAsync | inRelease => cases hplain _ List.mem_cons_self

/-- A step of any kind. One that the holder of the lock does not make keeps what the holder has
    left to do. -/
theorem step (h : LockInv s) {a : InlineSemaphoreLabel K T} (hg : QuietRelease s a)
    (hs : s.step a = some s') :
    LockInv s' ∧ ((∀ t, s.owner = some t → a ≠ .run t) → KeepsHolder s s') := by
  cases a with
  | run t =>
    by_cases ht : s.owner = some t
    · exact ⟨(h.run_holder ht hg hs).1, fun hne => absurd rfl (hne t ht)⟩
    · exact (h.run_other ht hs).imp_right fun hkeeps _ => hkeeps
  | call t task code =>
    simp only [InlineSemaphore.step] at hs
    split_ifs at hs with hen
    cases hs
    exact (h.step_idle s.semaphore (f := .code task code) hen.1 rfl rfl rfl).imp_right
      fun hkeeps _ => hkeeps
  | cancel t k =>
    simp only [InlineSemaphore.step] at hs
    split_ifs at hs with hidle hcanceled
    · cases hs
      exact ⟨h, fun _ u hu => ⟨hu, rfl⟩⟩
    · obtain ⟨sem, hsem, rfl⟩ := Option.map_eq_some_iff.mp hs
      have hkeep : sem.critical = s.semaphore.critical ∧ sem.waiters = s.semaphore.waiters := by
        simp only [AsyncSemaphore.step, if_neg hcanceled] at hsem
        cases hsem
        exact ⟨rfl, rfl⟩
      exact (h.step_idle _ (f := .canceling k) hidle rfl hkeep.1 hkeep.2).imp_right
        fun hkeeps _ => hkeeps

end LockInv

/-! ## A continuation that makes a call -/

namespace InlineSemaphore

variable [DecidableEq T] {s₀ : AsyncSemaphore K ε} {s : InlineSemaphore K ε T} {t : T}
  {frames : List (SemaphoreFrame K)} {i : ℕ}

variable [DecidableEq K]

end InlineSemaphore

/-! ## Every call returns -/

section Returns

variable [DecidableEq T] [DecidableEq K] {maxCount initialCount : ℤ} {s₀ : AsyncSemaphore K ε}
  {s : InlineSemaphore K ε T}

theorem reachable_lockInv (hs₀ : AsyncSemaphore.construct maxCount initialCount = .ok s₀)
    (h : (inlineSemaphoreMachine T s₀).Reachable QuietRelease s) : LockInv s := by
  refine h.invariant ?_ fun s a s' hi hg hs => (hi.step hg hs).1
  unfold AsyncSemaphore.construct at hs₀
  split_ifs at hs₀
  cases hs₀
  exact ⟨nofun, nofun, fun _ => rfl⟩

end Returns

end AsyncCpp.AsyncPrimitives
