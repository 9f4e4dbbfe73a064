import AsyncCpp.AsyncPrimitives.AsyncMutex

/-!
# One `Release()` for each `Lock()`

A guard owns its lock task as long as its `_lockTaskPtr` is not null. The move
constructor sets the pointer of the new guard without looking at the pointer of the
guard it moves from. A guard moved from one that was unlocked, or moved from, before
owns a lock that has been given back already, and gives it back once more
(`not_released_once`).

Where every moved guard still owns its lock, ownership is passed on and never copied:
each lock task has one owner until it is released (`OwnershipInv.once`).

Results:
* `released_once`: in every run of `Lock`, `Unlock`, destruction and moves from owning
  guards no `Release()` throws, and once all guards are destroyed each lock has been
  released exactly once and the mutex is free.
-/

namespace AsyncCpp.AsyncPrimitives

open Interleaving Tasks

variable {ε : Type*}

/-- Guards are moved only while they own their lock. -/
def MovesOwner (s : AsyncMutex ε) (a : MutexLabel) : Prop :=
  ∀ g, a = .move g → (s.guards g).lockTaskPtr

/-- The guard owns lock task `i`. -/
def AsyncLockGuard.Owns (i : ℕ) (guard : AsyncLockGuard) : Prop :=
  guard.lockTaskPtr ∧ guard.lockTask = some i

instance (i : ℕ) : DecidablePred (AsyncLockGuard.Owns i) :=
  fun _ => inferInstanceAs (Decidable (_ ∧ _))

/-- The number of `Lock()` calls whose guard has been constructed. -/
def AsyncMutex.locks (s : AsyncMutex ε) : ℕ :=
  s.asyncSemaphore.issued - s.asyncSemaphore.critical.making

/-- `Release()` is about to grant a lock task. -/
def Critical.granting {K : Type*} : Critical K → ℕ
  | .popped _ _ => 1
  | _ => 0

structure OwnershipInv (s : AsyncMutex ε) : Prop where
  newest : ∀ i r, s.asyncSemaphore.critical = .emplacing i r → i + 1 = s.asyncSemaphore.issued
  lockTask : ∀ g, (s.guards g).lockTaskPtr → ∃ i, (s.guards g).lockTask = some i
  destroyed : ∀ g, (s.guards g).destroyed → (s.guards g).lockTaskPtr = false
  once : ∀ i, Nat.count (fun g => (s.guards g).Owns i) s.constructed +
    (s.unlocking ++ s.releases).count (some i) = (List.range s.locks).count i
  total : Nat.count (fun g => (s.guards g).lockTaskPtr) s.constructed +
    (s.unlocking ++ s.releases).length = s.locks
  released : s.releases.length = s.asyncSemaphore.released + s.asyncSemaphore.critical.granting
  rejected : s.asyncSemaphore.rejected = 0

theorem count_range_succ (n i : ℕ) :
    (List.range (n + 1)).count i = (List.range n).count i + if n = i then 1 else 0 := by
  simp [List.range_succ, List.count_singleton]

namespace OwnershipInv

variable {s s' : AsyncMutex ε} {g : ℕ}

/-- A guard is constructed for the newest lock task. -/
theorem construct (h : OwnershipInv s) {sem : AsyncSemaphore Empty ε} (hc : sem.critical = .free)
    (hi : sem.issued = s.locks + 1) (hr : s.releases.length = sem.released)
    (hj : sem.rejected = 0) :
    OwnershipInv ({ s with asyncSemaphore := sem }.construct s.locks) where
  newest := by
    intro i r he
    simp [hc] at he
  lockTask := by
    intro g hptr
    by_cases hg : g = s.constructed
    · subst hg
      exact ⟨s.locks, by simp⟩
    · have hold := h.lockTask g (by simpa [Function.update_of_ne hg] using hptr)
      simpa [Function.update_of_ne hg] using hold
  destroyed := by
    intro g hd
    by_cases hg : g = s.constructed
    · subst hg
      simp at hd
    · simpa [Function.update_of_ne hg] using
        h.destroyed g (by simpa [Function.update_of_ne hg] using hd)
  once := by
    intro i
    have h1 := h.once i
    have hm : sem.critical.making = 0 := by rw [hc]; rfl
    show Nat.count (fun g => (Function.update s.guards s.constructed _ g).Owns i)
        (s.constructed + 1) + (s.unlocking ++ s.releases).count (some i) =
      (List.range (sem.issued - sem.critical.making)).count i
    rw [Nat.count_succ, count_update_of_le (Q := AsyncLockGuard.Owns i) le_rfl,
      Function.update_self, hm, Nat.sub_zero, hi, count_range_succ]
    simp only [AsyncLockGuard.Owns, Option.some.injEq, true_and] at h1 ⊢
    omega
  total := by
    have h1 := h.total
    have hm : sem.critical.making = 0 := by rw [hc]; rfl
    show Nat.count (fun g => (Function.update s.guards s.constructed _ g).lockTaskPtr)
        (s.constructed + 1) + (s.unlocking ++ s.releases).length = sem.issued - sem.critical.making
    rw [Nat.count_succ,
      count_update_of_le (Q := fun guard : AsyncLockGuard => guard.lockTaskPtr) le_rfl,
      Function.update_self, hm, Nat.sub_zero, hi, if_pos rfl]
    omega
  released := by simpa [hc, Critical.granting] using hr
  rejected := hj

/-- The exchange in `unlockNow` of a guard that has its pointer. -/
theorem exchange (h : OwnershipInv s) (hg : g < s.constructed) (hptr : (s.guards g).lockTaskPtr)
    (d : Bool) :
    OwnershipInv { s.setGuard g { s.guards g with lockTaskPtr := false, destroyed := d } with
      unlocking := s.unlocking ++ [(s.guards g).lockTask] } := by
  obtain ⟨j, hj⟩ := h.lockTask g hptr
  have hperm : (s.unlocking ++ [some j] ++ s.releases).Perm
      (some j :: (s.unlocking ++ s.releases)) := by
    rw [List.append_assoc]
    exact List.perm_middle
  rw [hj]
  refine { h with lockTask := ?_, destroyed := ?_, once := ?_, total := ?_ }
  · intro g' hptr'
    have hne : g' ≠ g := by
      rintro rfl
      simp at hptr'
    simpa [Function.update_of_ne hne] using
      h.lockTask g' (by simpa [Function.update_of_ne hne] using hptr')
  · intro g' hd
    by_cases hne : g' = g
    · subst hne
      simp
    · simpa [Function.update_of_ne hne] using
        h.destroyed g' (by simpa [Function.update_of_ne hne] using hd)
  · intro i
    have h1 := h.once i
    have h2 := count_update (Q := AsyncLockGuard.Owns i) (f := s.guards)
      (b := { lockTask := some j, lockTaskPtr := false, destroyed := d }) hg
    show Nat.count (fun g' => (Function.update s.guards g
        { lockTask := (s.guards g).lockTask, lockTaskPtr := false, destroyed := d } g').Owns i)
        s.constructed + (s.unlocking ++ [some j] ++ s.releases).count (some i) = (List.range s.locks).count i
    rw [hperm.count_eq, List.count_cons, hj]
    simp only [AsyncLockGuard.Owns, hptr, hj, Option.some.injEq, true_and, Bool.false_eq_true,
      false_and, if_false, beq_iff_eq] at h1 h2 ⊢
    omega
  · have h1 := h.total
    have h2 := count_update (Q := fun guard : AsyncLockGuard => guard.lockTaskPtr)
      (f := s.guards) (b := { lockTask := some j, lockTaskPtr := false, destroyed := d }) hg
    show Nat.count (fun g' => (Function.update s.guards g
        { lockTask := (s.guards g).lockTask, lockTaskPtr := false, destroyed := d } g').lockTaskPtr)
        s.constructed + (s.unlocking ++ [some j] ++ s.releases).length = s.locks
    rw [hperm.length_eq, List.length_cons, hj]
    simp only [hptr, if_true, Bool.false_eq_true, if_false] at h2
    omega

/-- A guard without its pointer is marked as destroyed. -/
theorem setDestroyed (h : OwnershipInv s) (hg : g < s.constructed)
    (hptr : (s.guards g).lockTaskPtr = false) :
    OwnershipInv (s.setGuard g { s.guards g with destroyed := true }) := by
  refine { h with lockTask := ?_, destroyed := ?_, once := ?_, total := ?_ }
  · intro g' hptr'
    have hne : g' ≠ g := by
      rintro rfl
      simp [hptr] at hptr'
    simpa [Function.update_of_ne hne] using
      h.lockTask g' (by simpa [Function.update_of_ne hne] using hptr')
  · intro g' hd
    by_cases hne : g' = g
    · subst hne
      simpa using hptr
    · simpa [Function.update_of_ne hne] using
        h.destroyed g' (by simpa [Function.update_of_ne hne] using hd)
  · intro i
    show Nat.count (fun g' => (Function.update s.guards g
        { lockTask := (s.guards g).lockTask, lockTaskPtr := (s.guards g).lockTaskPtr,
          destroyed := true } g').Owns i) s.constructed +
      (s.unlocking ++ s.releases).count (some i) = (List.range s.locks).count i
    rw [count_update_iff (Q := AsyncLockGuard.Owns i) (by simp [AsyncLockGuard.Owns])]
    exact h.once i
  · show Nat.count (fun g' => (Function.update s.guards g
        { lockTask := (s.guards g).lockTask, lockTaskPtr := (s.guards g).lockTaskPtr,
          destroyed := true } g').lockTaskPtr) s.constructed +
      (s.unlocking ++ s.releases).length = s.locks
    rw [count_update_iff (Q := fun guard : AsyncLockGuard => guard.lockTaskPtr) (by simp)]
    exact h.total

/-- Counting over the guards after a move from an owning guard: the new guard counts as the
    old one did. -/
theorem count_move {Q : AsyncLockGuard → Prop} [DecidablePred Q] (hg : g < s.constructed)
    (hold : Q (s.guards g) ↔ Q { lockTask := (s.guards g).lockTask, lockTaskPtr := true })
    (hnew : ¬ Q { lockTask := none, lockTaskPtr := false, destroyed := (s.guards g).destroyed }) :
    Nat.count (fun h => Q ((s.move g).guards h)) (s.constructed + 1) =
      Nat.count (fun h => Q (s.guards h)) s.constructed := by
  have hne : s.constructed ≠ g := Nat.ne_of_gt hg
  have h1 : Nat.count (fun h => Q ((s.move g).guards h)) s.constructed =
      Nat.count (fun h => Q (Function.update s.guards g
        { lockTask := none, lockTaskPtr := false, destroyed := (s.guards g).destroyed } h))
        s.constructed := by
    refine count_congr fun j hj => ?_
    by_cases hjg : j = g
    · simp [AsyncMutex.move, hjg]
    · simp [AsyncMutex.move, Function.update_of_ne hjg, Function.update_of_ne (Nat.ne_of_lt hj)]
  have h2 := count_update (Q := Q) (f := s.guards)
    (b := { lockTask := none, lockTaskPtr := false, destroyed := (s.guards g).destroyed }) hg
  have h3 : (s.move g).guards s.constructed =
      { lockTask := (s.guards g).lockTask, lockTaskPtr := true } := by
    simp [AsyncMutex.move, Function.update_of_ne hne]
  rw [if_neg hnew] at h2
  rw [Nat.count_succ, h1, h3]
  simp only [hold] at h2 ⊢
  omega

/-- A guard is moved from one that owns its lock. -/
theorem move (h : OwnershipInv s) (hg : g < s.constructed) (hptr : (s.guards g).lockTaskPtr) :
    OwnershipInv (s.move g) := by
  have hne : g ≠ s.constructed := Nat.ne_of_lt hg
  refine { h with lockTask := ?_, destroyed := ?_, once := ?_, total := ?_ }
  · intro g' hptr'
    by_cases hg' : g' = g
    · subst hg'
      simp [AsyncMutex.move] at hptr'
    · by_cases hnew : g' = s.constructed
      · subst hnew
        simpa [AsyncMutex.move, Function.update_of_ne hg'] using h.lockTask g hptr
      · simpa [AsyncMutex.move, Function.update_of_ne hg', Function.update_of_ne hnew] using
          h.lockTask g' (by
            simpa [AsyncMutex.move, Function.update_of_ne hg', Function.update_of_ne hnew] using
              hptr')
  · intro g' hd
    by_cases hg' : g' = g
    · subst hg'
      simp [AsyncMutex.move]
    · by_cases hnew : g' = s.constructed
      · subst hnew
        simp [AsyncMutex.move, Function.update_of_ne hg'] at hd
      · simpa [AsyncMutex.move, Function.update_of_ne hg', Function.update_of_ne hnew] using
          h.destroyed g' (by
            simpa [AsyncMutex.move, Function.update_of_ne hg', Function.update_of_ne hnew] using hd)
  · intro i
    show Nat.count (fun h => ((s.move g).guards h).Owns i) (s.constructed + 1) +
      (s.unlocking ++ s.releases).count (some i) = (List.range s.locks).count i
    rw [count_move (Q := AsyncLockGuard.Owns i) hg (by simp [AsyncLockGuard.Owns, hptr])
      (by simp [AsyncLockGuard.Owns])]
    exact h.once i
  · show Nat.count (fun h => ((s.move g).guards h).lockTaskPtr) (s.constructed + 1) +
      (s.unlocking ++ s.releases).length = s.locks
    rw [count_move (Q := fun guard : AsyncLockGuard => guard.lockTaskPtr) hg (by simp [hptr])
      (by simp)]
    exact h.total

/-- Nobody calls `Release()` on a full semaphore: where the permit is free every lock task has
    been granted and released. -/
theorem not_full (h : OwnershipInv s) (hi : MutexInv s) (hc : s.asyncSemaphore.critical = .free)
    {x : Option ℕ} (hx : x ∈ s.unlocking) :
    s.asyncSemaphore.currentCount ≠ s.asyncSemaphore.maxCount := by
  intro hfull
  have hmax := hi.maxCount
  have hnil : s.asyncSemaphore.waiters = [] := by
    by_contra hne
    have := hi.semaphore.zero (.inl hne)
    omega
  have hgrants : s.asyncSemaphore.grants = s.asyncSemaphore.issued := by
    refine Nat.count_of_forall fun i hlt => ?_
    rw [hi.plain.granted i hlt (by simp [AsyncSemaphore.queued, hc, hnil, Critical.waiter])]
    rfl
  have hcons := hi.semaphore.conserve
  have hinit := hi.initialCount
  have hreleased := h.released
  have htotal := h.total
  have hpos := List.length_pos_of_mem hx
  rw [hgrants, hc] at hcons
  rw [hc] at hreleased
  simp only [AsyncMutex.locks, hc, Critical.making, List.length_append] at htotal
  simp only [Critical.grantedOne, Critical.granting] at hcons hreleased
  omega

/-- `Release()` begins. -/
theorem release (h : OwnershipInv s) (hi : MutexInv s) (hc : s.asyncSemaphore.critical = .free)
    {x : Option ℕ} (hx : x ∈ s.unlocking) :
    OwnershipInv { s with
      asyncSemaphore := s.asyncSemaphore.release
      unlocking := s.unlocking.erase x, releases := s.releases ++ [x] } := by
  have hfull := h.not_full hi hc hx
  have hperm := release_perm (m := s.releases) hx
  have hreleased := h.released
  rw [hc] at hreleased
  have hlocks : s.locks = s.asyncSemaphore.issued := by simp [AsyncMutex.locks, hc, Critical.making]
  have honce : ∀ i, Nat.count (fun g => (s.guards g).Owns i) s.constructed +
      (s.unlocking.erase x ++ (s.releases ++ [x])).count (some i) =
        (List.range s.asyncSemaphore.issued).count i := by
    intro i
    rw [hperm.count_eq, ← hlocks]
    exact h.once i
  have htotal : Nat.count (fun g => (s.guards g).lockTaskPtr) s.constructed +
      (s.unlocking.erase x ++ (s.releases ++ [x])).length = s.asyncSemaphore.issued := by
    rw [hperm.length_eq, ← hlocks]
    exact h.total
  obtain ⟨heq, -⟩ | ⟨-, -, heq⟩ | ⟨i, ws, -, -, heq⟩ := hi.plain.release_eq
  · exact absurd heq hfull
  · rw [heq]
    refine { h with
      newest := fun i r he => by simp [hc] at he
      once := by simpa [AsyncMutex.locks, hc, Critical.making] using honce
      total := by simpa [AsyncMutex.locks, hc, Critical.making] using htotal
      released := ?_ }
    simpa [hc, Critical.granting] using hreleased
  · rw [heq]
    refine { h with
      newest := fun i r he => by simp at he
      once := by simpa [AsyncMutex.locks, Critical.making] using honce
      total := by simpa [AsyncMutex.locks, Critical.making] using htotal
      released := ?_ }
    simpa [Critical.granting] using hreleased

/-- `Lock()` gets its lock task, and constructs its guard where the permit is free. -/
theorem lock (h : OwnershipInv s) (hc : s.asyncSemaphore.critical = .free) :
    OwnershipInv s.lock := by
  have hreleased := h.released
  have hlocks : s.locks = s.asyncSemaphore.issued := by
    simp [AsyncMutex.locks, hc, Critical.making]
  rw [hc] at hreleased
  obtain ⟨-, heq⟩ | ⟨-, heq⟩ := Plain.waitAsync_eq s.asyncSemaphore
  · simp only [AsyncMutex.lock, heq, hc]
    rw [← hlocks]
    exact h.construct rfl rfl hreleased h.rejected
  · simp only [AsyncMutex.lock, heq]
    have honce := h.once
    have htotal := h.total
    rw [hlocks] at honce htotal
    refine { h with
      newest := ?_, once := honce, total := htotal, released := hreleased }
    intro i r he
    cases he
    rfl

theorem advance (h : OwnershipInv s) (hi : MutexInv s) (hs : s.advance = some s') :
    OwnershipInv s' := by
  have hreleased := h.released
  obtain ⟨i, hc, rfl⟩ | ⟨i, hc, rfl⟩ := AsyncMutex.advance_eq hi.plain hs
  · have hnew := h.newest i none hc
    have hlocks : i = s.locks := by
      simp only [AsyncMutex.locks, hc, Critical.making]
      omega
    rw [hc] at hreleased
    rw [hlocks]
    exact h.construct rfl (by rw [← hlocks]; exact hnew.symm) hreleased h.rejected
  · rw [hc] at hreleased
    have honce := h.once
    have htotal := h.total
    simp only [AsyncMutex.locks, hc, Critical.making] at honce htotal
    exact { h with newest := (by simp), once := honce, total := htotal, released := hreleased }

theorem step (h : OwnershipInv s) (hi : MutexInv s) {a : MutexLabel} (hmove : MovesOwner s a)
    (hs : s.step a = some s') : OwnershipInv s' := by
  cases AsyncMutex.step_cases hs with
  | lock hc => exact h.lock hc
  | @unlock g halive hptr => exact { h.exchange halive.1 hptr (s.guards g).destroyed with }
  | unlockThrows => exact { h with }
  | destroy halive hptr => exact h.exchange halive.1 hptr true
  | destroyUnlocked halive hptr => exact h.setDestroyed halive.1 hptr
  | @move g halive => exact h.move halive.1 (hmove g rfl)
  | release hx hc => exact h.release hi hc hx
  | advance hs => exact h.advance hi hs

end OwnershipInv

theorem reachable_ownershipInv {s : AsyncMutex ε} (h : (mutexMachine ε).Reachable MovesOwner s) :
    OwnershipInv s := by
  refine h.invariant_with (fun _ => reachable_mutexInv) ?_
    fun s a s' hi ho hm hs => ho.step hi hm hs
  exact ⟨nofun, nofun, nofun, fun _ => rfl, rfl, rfl, rfl⟩

/-! ## Exactly once -/

/-- In every run in which guards are moved only while they own their lock: no `Release()`
    throws `SemaphoreFullException`, no lock is released twice, and where every guard is
    destroyed and no call is in progress each lock has been released exactly once and the
    mutex is free. -/
theorem released_once {s : AsyncMutex ε} (h : (mutexMachine ε).Reachable MovesOwner s) :
    s.asyncSemaphore.rejected = 0 ∧
    (∀ i, s.releases.count (some i) ≤ 1) ∧
    ((∀ g < s.constructed, (s.guards g).destroyed) → s.unlocking = [] →
      s.asyncSemaphore.critical = .free →
        (∀ i < s.asyncSemaphore.issued, s.releases.count (some i) = 1) ∧
        s.releases.length = s.asyncSemaphore.issued ∧ s.asyncSemaphore.currentCount = 1 ∧
        s.asyncSemaphore.waiters = []) := by
  have hi := reachable_mutexInv h
  have ho := reachable_ownershipInv h
  refine ⟨ho.rejected, ?_, ?_⟩
  · intro i
    have h1 := ho.once i
    have h2 : (List.range s.locks).count i ≤ 1 := by
      rw [List.count_range]
      split <;> omega
    rw [List.count_append] at h1
    omega
  · intro hdestroyed hunlocking hc
    have hptr : ∀ g < s.constructed, ¬ (s.guards g).lockTaskPtr := by
      intro g hg
      simp [ho.destroyed g (hdestroyed g hg)]
    have hlocks : s.locks = s.asyncSemaphore.issued := by
      simp [AsyncMutex.locks, hc, Critical.making]
    have hlength : s.releases.length = s.asyncSemaphore.issued := by
      have htotal := ho.total
      rw [Nat.count_of_forall_not hptr, hunlocking, hlocks] at htotal
      simpa using htotal
    have hcount : s.asyncSemaphore.currentCount = 1 := by
      have hcons := hi.semaphore.conserve
      have hreleased := ho.released
      have hbounds := hi.semaphore.count
      have hgrants : s.asyncSemaphore.grants ≤ s.asyncSemaphore.issued := Nat.count_le _
      rw [hi.maxCount] at hbounds
      rw [hi.initialCount, hc] at hcons
      rw [hc] at hreleased
      simp only [Critical.grantedOne, Critical.granting] at hcons hreleased
      omega
    refine ⟨fun i hlt => ?_, hlength, hcount, ?_⟩
    · have h1 := ho.once i
      rw [Nat.count_of_forall_not fun g hg h => hptr g hg h.1, hunlocking, hlocks,
        List.count_range] at h1
      simpa [hlt] using h1
    · by_contra hne
      have := hi.semaphore.zero (.inl hne)
      omega

/-- A guard is locked, moved and unlocked, and both guards are destroyed. -/
theorem released_once_move :
    ∃ s : AsyncMutex Empty, (mutexMachine Empty).Reachable MovesOwner s ∧ s.constructed = 2 ∧
      s.releases = [some 0] ∧ s.asyncSemaphore.currentCount = 1 := by
  have hr : (mutexMachine Empty).Reachable MovesOwner _ :=
    .head (a := .lock) rfl nofun <|
    .head (a := .move 0) rfl (fun g hg => by cases hg; rfl) <|
    .head (a := .unlock 1) rfl nofun <| .head (a := .release (some 0)) rfl nofun <|
    .head (a := .destroy 0) rfl nofun <| .head (a := .destroy 1) rfl nofun .refl
  have hall : ∀ g < 2, (g = 0 ∨ g = 1) := by omega
  exact ⟨_, hr, rfl, rfl, ((released_once hr).2.2
    (fun g hg => by rcases hall g hg with rfl | rfl <;> rfl) rfl rfl).2.2.1⟩

/-- The guard is unlocked before it is moved: the new guard releases the lock again, and its
    `noexcept` destructor gets a `SemaphoreFullException`. -/
theorem not_released_once :
    ∃ s : AsyncMutex Empty, (mutexMachine Empty).Reachable Machine.Any s ∧
      s.asyncSemaphore.rejected = 1 ∧ s.releases = [some 0, some 0] ∧
        s.asyncSemaphore.issued = 1 := by
  have hr : (mutexMachine Empty).run {}
    [.lock, .unlock 0, .release (some 0), .move 0, .destroy 1, .release (some 0)] = some _ := rfl
  exact ⟨_, .of_run hr, rfl, rfl, rfl⟩

end AsyncCpp.AsyncPrimitives
