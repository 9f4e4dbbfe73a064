import AsyncCpp.AsyncPrimitives.CollectionSteps

/-!
# Waiters whose token is cancelled

`WaitAsync` registers a callback at the token of the waiter, `Cancel` runs the callbacks, and
`Release` disposes the registration of a waiter it has popped. A callback is known by its id,
so what keeps a waiter from being forgotten is that an id is never given twice.

Results:
* `CancelInv.step`: a pending wait task whose caller has left `WaitAsync` has a callback that is
  registered or about to be run.
* `CancelInv.completed`: a cancellation that has run to its end leaves no pending wait task.
* `AsyncSemaphore.cancellationActionCounter_le`: the counter of the ids is bounded by the number
  of `WaitAsync` calls.
-/

namespace AsyncCpp.AsyncPrimitives

open Interleaving Tasks

variable {K ε : Type*}

/-- The waiter in hand that is, or was, in the queue, with its registration. -/
def Critical.inHand : Critical K → List (ℕ × Option (CancellationRegistration K))
  | .emplacing i r | .popped i r => [(i, r)]
  | .free | .registering _ _ | .registerChecked _ _ | .disposing _ _ => []

/-- The caller of `WaitAsync` number `i` is on its way through `Register`. -/
def Critical.registers (c : Critical K) (i : ℕ) : Prop :=
  ∃ k, c = .registering i k ∨ c = .registerChecked i k

namespace AsyncSemaphore

/-- The waiters with their registrations. -/
def registered (s : AsyncSemaphore K ε) : List (ℕ × Option (CancellationRegistration K)) :=
  s.critical.inHand ++ s.waiters

theorem counter_update [DecidableEq K] {token : K → CtsSharedState ℕ} {j : K} {t : CtsSharedState ℕ}
    (ht : t.cancellationActionCounter = (token j).cancellationActionCounter) (k : K) :
    (Function.update token j t k).cancellationActionCounter =
      (token k).cancellationActionCounter := by
  by_cases hk : k = j
  · subst hk
    rwa [Function.update_self]
  · rw [Function.update_of_ne hk]

/-- The callback of wait task `i` is registered or about to be run. -/
def Cancelable (s : AsyncSemaphore K ε) (i : ℕ) : Prop :=
  (∃ k id, (id, i) ∈ (s.token k).cancelActions) ∨ ∃ k, i ∈ (s.canceling k).actions

end AsyncSemaphore

structure CancelInv (s : AsyncSemaphore K ε) : Prop where
  ids : ∀ k, ∀ p ∈ (s.token k).cancelActions, p.1 ≤ (s.token k).cancellationActionCounter
  owner : ∀ i k id, (i, some (.remove k id)) ∈ s.registered →
    id ≤ (s.token k).cancellationActionCounter ∧ ∀ j, (id, j) ∈ (s.token k).cancelActions → j = i
  disposing : ∀ k id w, s.critical = .disposing (.remove k id) w →
    ∀ j, (id, j) ∈ (s.token k).cancelActions → (s.waitTask j).state ≠ .created
  canceling : ∀ k, s.canceling k ≠ .idle → (s.token k).isCanceled
  moved : ∀ k, (s.token k).isCanceled → s.canceling k ≠ .exchanged →
    (s.token k).cancelActions = [] ∧ ∀ i, s.critical ≠ .registerChecked i k
  reached : ∀ i < s.issued, (s.waitTask i).state = .created →
    s.critical.registers i ∨ s.Cancelable i

namespace CancelInv

variable {s s' : AsyncSemaphore K ε}

/-- A cancellation that has run to its end leaves no pending wait task. -/
theorem completed (h : CancelInv s) (hfree : s.critical = .free)
    (hcanceled : ∀ k, (s.token k).isCanceled ∧ s.canceling k = .idle) {i : ℕ}
    (hi : i < s.issued) : (s.waitTask i).state ≠ .created := by
  intro hst
  rcases h.reached i hi hst with ⟨k, hc | hc⟩ | ⟨k, id, hmem⟩ | ⟨k, hmem⟩
  · cases hfree.symm.trans hc
  · cases hfree.symm.trans hc
  · rw [(h.moved k (hcanceled k).1 (by rw [(hcanceled k).2]; nofun)).1] at hmem
    cases hmem
  · rw [(hcanceled k).2] at hmem
    cases hmem

/-- A step that leaves the tokens as they are. -/
theorem quiet (h : CancelInv s) (htoken : s'.token = s.token)
    (hcanceling : s'.canceling = s.canceling)
    (hreg : ∀ i k id, (i, some (.remove k id)) ∈ s'.registered →
      (i, some (.remove k id)) ∈ s.registered)
    (hdisp : ∀ k id w, s'.critical = .disposing (.remove k id) w →
      ∀ j, (id, j) ∈ (s.token k).cancelActions → (s'.waitTask j).state ≠ .created)
    (hchecked : ∀ i k, s'.critical = .registerChecked i k → (s.token k).isCanceled = false)
    (hreached : ∀ i < s'.issued, (s'.waitTask i).state = .created → s'.critical.registers i ∨
      i < s.issued ∧ (s.waitTask i).state = .created ∧ ¬ s.critical.registers i) :
    CancelInv s' := by
  refine ⟨?_, fun i k id hr => ?_, ?_, ?_, fun k hk hne => ⟨?_, fun i hc => ?_⟩, fun i hi hst => ?_⟩
  · rw [htoken]
    exact h.ids
  · rw [htoken]
    exact h.owner i k id (hreg i k id hr)
  · rw [htoken]
    exact hdisp
  · rw [htoken, hcanceling]
    exact h.canceling
  · rw [htoken] at hk ⊢
    rw [hcanceling] at hne
    exact (h.moved k hk hne).1
  · rw [htoken, hchecked i k hc] at hk
    cases hk
  · refine (hreached i hi hst).imp_right fun hold => ?_
    have hcancel := (h.reached i hold.1 hold.2.1).resolve_left hold.2.2
    unfold AsyncSemaphore.Cancelable at hcancel ⊢
    rwa [htoken, hcanceling]

theorem not_registers {c : Critical K} {i : ℕ} (h1 : ∀ k, c ≠ .registering i k)
    (h2 : ∀ k, c ≠ .registerChecked i k) : ¬ c.registers i := by
  rintro ⟨k, hc | hc⟩
  · exact h1 k hc
  · exact h2 k hc

/-! ## The queue -/

/-- The thread that has left `_waitersLock`, or is at the head of the loop of `Release`, is in
    no registration. -/
theorem released (h : CancelInv s) (htoken : s'.token = s.token)
    (hcanceling : s'.canceling = s.canceling) (hreg : ∀ x ∈ s'.registered, x ∈ s.registered)
    (hcrit : s'.critical = .free ∨ ∃ i r, s'.critical = .popped i r)
    (hreached : ∀ i < s'.issued, (s'.waitTask i).state = .created →
      i < s.issued ∧ (s.waitTask i).state = .created ∧ ¬ s.critical.registers i) :
    CancelInv s' := by
  refine h.quiet htoken hcanceling (fun i k id => hreg _) ?_ ?_
    fun i hi hst => .inr (hreached i hi hst)
  · intro k id w hc
    rcases hcrit with hf | ⟨i, r, hf⟩ <;> cases hf.symm.trans hc
  · intro i k hc
    rcases hcrit with hf | ⟨j, r, hf⟩ <;> cases hf.symm.trans hc

theorem popFront_registered (s : AsyncSemaphore K ε) :
    ∀ x ∈ s.popFront.registered, x ∈ s.registered := by
  unfold AsyncSemaphore.popFront AsyncSemaphore.registered
  intro x hx
  split at hx
  · exact hx
  · rename_i i r ws hws
    rw [hws]
    exact List.mem_append_right _ hx

theorem popFront_critical (hw : s.waiters ≠ []) : ∃ i r, s.popFront.critical = .popped i r := by
  obtain ⟨⟨i, r⟩, ws, hws⟩ := List.exists_cons_of_ne_nil hw
  simp only [AsyncSemaphore.popFront, hws]
  exact ⟨i, r, rfl⟩

theorem popFront_waitTask (s : AsyncSemaphore K ε) :
    s.popFront.waitTask = s.waitTask ∧ s.popFront.issued = s.issued := by
  unfold AsyncSemaphore.popFront
  split <;> exact ⟨rfl, rfl⟩

/-- The end of an iteration of the loop of `Release`, after a step that has completed the wait
    task in hand or disposed its registration. -/
theorem loopTest (h : CancelInv s) {u : AsyncSemaphore K ε} {waiterReleased : Bool}
    (htoken : u.token = s.token) (hcanceling : u.canceling = s.canceling)
    (hwaiters : u.waiters = s.waiters) (hissued : u.issued = s.issued)
    (hkept : ∀ i, (u.waitTask i).state = .created → (s.waitTask i).state = .created)
    (hnot : ∀ i, ¬ s.critical.registers i) : CancelInv (u.loopTest waiterReleased) := by
  have hreg : ∀ x ∈ u.waiters, x ∈ s.registered := fun x hx =>
    List.mem_append_right _ (hwaiters ▸ hx)
  have hreached : ∀ i < u.issued, (u.waitTask i).state = .created →
      i < s.issued ∧ (s.waitTask i).state = .created ∧ ¬ s.critical.registers i :=
    fun i hi hst => ⟨hissued ▸ hi, hkept i hst, hnot i⟩
  unfold AsyncSemaphore.loopTest
  split_ifs with h1 h2
  · exact h.released htoken hcanceling hreg (.inl rfl) hreached
  · exact h.released htoken hcanceling hreg (.inl rfl) hreached
  · have hne : u.waiters ≠ [] := fun hnil => h2 (List.isEmpty_iff.mpr hnil)
    obtain ⟨hw, hi⟩ := popFront_waitTask u
    refine h.released ((AsyncSemaphore.popFront_token u).trans htoken)
      ((AsyncSemaphore.popFront_canceling u).trans hcanceling) ?_
      (.inr (popFront_critical hne)) ?_
    · unfold AsyncSemaphore.popFront AsyncSemaphore.registered
      intro x hx
      split at hx
      · contradiction
      · rename_i i r ws hws
        exact hreg x (hws ▸ hx)
    · rw [hw, hi]
      exact hreached

theorem release (h : CancelInv s) (hc : s.critical = .free) : CancelInv s.release := by
  have hnot : ∀ i, ¬ s.critical.registers i := fun i => by
    rw [hc]
    exact not_registers nofun nofun
  have hreg : ∀ x ∈ s.waiters, x ∈ s.registered := fun x hx => List.mem_append_right _ hx
  unfold AsyncSemaphore.release
  split_ifs with h1 h2
  · exact h.released rfl rfl (fun _ hx => hx) (.inl hc) fun i hi hst => ⟨hi, hst, hnot i⟩
  · exact h.released rfl rfl (fun _ hx => hx) (.inl hc) fun i hi hst => ⟨hi, hst, hnot i⟩
  · have hne : s.waiters ≠ [] := fun hnil => h2 (List.isEmpty_iff.mpr hnil)
    obtain ⟨hw, hi⟩ := popFront_waitTask s
    refine h.released (AsyncSemaphore.popFront_token s) (AsyncSemaphore.popFront_canceling s)
      (popFront_registered s)
      (.inr (popFront_critical hne)) ?_
    rw [hw, hi]
    exact fun i hi hst => ⟨hi, hst, hnot i⟩

/-- A waiter with a token goes to `Register`. -/
theorem waitAsync (h : CancelInv s) (hc : s.critical = .free) (k : K) :
    CancelInv (s.waitAsync (some k)) := by
  have hnot : ∀ i, ¬ s.critical.registers i := fun i => by
    rw [hc]
    exact not_registers nofun nofun
  have hwaiters : s.registered = s.waiters := by
    unfold AsyncSemaphore.registered
    rw [hc]
    rfl
  unfold AsyncSemaphore.waitAsync
  split_ifs
  · -- a free permit: the new wait task is complete
    refine h.released rfl rfl (fun _ hx => hx) (.inl hc) fun i hi hst => ?_
    have hne : i ≠ s.issued := by
      rintro rfl
      simp only [Function.update_self] at hst
      cases hst
    simp only [Function.update_of_ne hne] at hst
    have hi : i < s.issued + 1 := hi
    exact ⟨by omega, hst, hnot i⟩
  · refine h.quiet rfl rfl (fun i j id hr => ?_) nofun nofun fun i hi hst => ?_
    · rw [hwaiters]
      exact hr
    · rcases Nat.lt_succ_iff_lt_or_eq.mp hi with hlt | rfl
      · exact .inr ⟨hlt, hst, hnot i⟩
      · exact .inl ⟨k, .inl rfl⟩

/-! ## The token -/

variable [DecidableEq K]

/-- The registration of a wait task that is complete is disposed. -/
theorem disposeRegistration (h : CancelInv s) {r : CancellationRegistration K} {w : Bool}
    (hc : s.critical = .disposing r w) : CancelInv (s.disposeRegistration r) := by
  cases r with
  | empty => exact h
  | remove k id =>
    have hsub : ∀ j p, p ∈ (Function.update s.token k ((s.token k).removeCancellation id)
        j).cancelActions → p ∈ (s.token j).cancelActions := by
      intro j p hp
      by_cases hj : j = k
      · subst hj
        rw [Function.update_self] at hp
        exact CtsSharedState.mem_removeCancellation hp
      · rwa [Function.update_of_ne hj] at hp
    have hcount : ∀ j, (Function.update s.token k ((s.token k).removeCancellation id)
        j).cancellationActionCounter = (s.token j).cancellationActionCounter :=
      AsyncSemaphore.counter_update (by rfl)
    have hcanceled : ∀ j, (Function.update s.token k ((s.token k).removeCancellation id)
        j).isCanceled = (s.token j).isCanceled := AsyncSemaphore.isCanceled_update (by rfl)
    refine ⟨fun j p hp => ?_, fun i j id' hr => ?_, fun j id' w' hd i hi => ?_, fun j hj => ?_,
      fun j hj hne => ?_, fun i hi hst => ?_⟩
    · exact (h.ids j p (hsub j p hp)).trans_eq (hcount j).symm
    · obtain ⟨hle, howner⟩ := h.owner i j id' hr
      exact ⟨hle.trans_eq (hcount j).symm, fun j' hj' => howner j' (hsub j _ hj')⟩
    · exact h.disposing j id' w' hd i (hsub j _ hi)
    · exact (hcanceled j).trans (h.canceling j hj)
    · obtain ⟨hnil, hnot⟩ := h.moved j ((hcanceled j).symm.trans hj) hne
      refine ⟨List.eq_nil_iff_forall_not_mem.mpr fun p hp => ?_, hnot⟩
      have hold := hsub j p hp
      rw [hnil] at hold
      cases hold
    · refine (h.reached i hi hst).imp_right fun hcancel => ?_
      refine hcancel.imp_left ?_
      rintro ⟨j, id', hmem⟩
      refine ⟨j, id', ?_⟩
      by_cases hj : j = k
      · subst hj
        show (id', i) ∈ (Function.update s.token j _ j).cancelActions
        rw [Function.update_self]
        refine List.mem_filter.mpr ⟨hmem, ?_⟩
        -- the callback that is removed is that of a wait task that is complete
        simp only [ne_eq, decide_not, Bool.not_eq_eq_eq_not, Bool.not_true, decide_eq_false_iff_not]
        rintro rfl
        exact h.disposing j id' w hc i hmem hst
      · show (id', i) ∈ (Function.update s.token k _ j).cancelActions
        rwa [Function.update_of_ne hj]

/-- The callback of the waiter in hand is registered. -/
theorem push (h : CancelInv s) {i : ℕ} {k : K} (hc : s.critical = .registerChecked i k) :
    CancelInv { s.setToken k ((s.token k).pushAction i).2 with
      critical := .emplacing i (some (.remove k ((s.token k).pushAction i).1)) } := by
  have hmem : ∀ j p, p ∈ (Function.update s.token k ((s.token k).pushAction i).2 j).cancelActions ↔
      p ∈ (s.token j).cancelActions ∨
        j = k ∧ p = ((s.token k).cancellationActionCounter + 1, i) := by
    intro j p
    by_cases hj : j = k
    · subst hj
      rw [Function.update_self]
      simp [CtsSharedState.pushAction]
    · rw [Function.update_of_ne hj]
      simp [hj]
  have hcount : ∀ j, (s.token j).cancellationActionCounter ≤
      (Function.update s.token k ((s.token k).pushAction i).2 j).cancellationActionCounter := by
    intro j
    by_cases hj : j = k
    · subst hj
      rw [Function.update_self]
      simp [CtsSharedState.pushAction]
    · rw [Function.update_of_ne hj]
  have hcanceled : ∀ j, (Function.update s.token k ((s.token k).pushAction i).2 j).isCanceled =
      (s.token j).isCanceled := AsyncSemaphore.isCanceled_update (by rfl)
  have hwaiters : s.registered = s.waiters := by
    unfold AsyncSemaphore.registered
    rw [hc]
    rfl
  refine ⟨fun j p hp => ?_, fun i' j id hr => ?_, nofun, fun j hj => ?_, fun j hj hne => ?_,
    fun i' hi hst => ?_⟩
  · rcases (hmem j p).mp hp with hold | ⟨rfl, rfl⟩
    · exact (h.ids j p hold).trans (hcount j)
    · show _ ≤ (Function.update s.token j _ j).cancellationActionCounter
      rw [Function.update_self]
      exact le_rfl
  · rcases List.mem_cons.mp hr with heq | hold
    · -- no other callback has the new id
      cases heq
      refine ⟨?_, fun j' hj' => ?_⟩
      · show _ ≤ (Function.update s.token k _ k).cancellationActionCounter
        rw [Function.update_self]
        exact le_rfl
      · rcases (hmem k _).mp hj' with hold | ⟨-, heq⟩
        · have hle := h.ids k _ hold
          simp only [CtsSharedState.pushAction] at hle
          omega
        · exact (Prod.mk.inj heq).2
    · obtain ⟨hle, howner⟩ := h.owner i' j id (by rw [hwaiters]; exact hold)
      refine ⟨hle.trans (hcount j), fun j' hj' => ?_⟩
      rcases (hmem j _).mp hj' with hold' | ⟨rfl, heq⟩
      · exact howner j' hold'
      · have hid := (Prod.mk.inj heq).1
        omega
  · exact (hcanceled j).trans (h.canceling j hj)
  · obtain ⟨hnil, hnot⟩ := h.moved j ((hcanceled j).symm.trans hj) hne
    refine ⟨List.eq_nil_iff_forall_not_mem.mpr fun p hp => ?_, nofun⟩
    rcases (hmem j p).mp hp with hold | ⟨rfl, -⟩
    · rw [hnil] at hold
      cases hold
    · exact hnot i hc
  · right
    rcases h.reached i' hi hst with ⟨k', hc' | hc'⟩ | ⟨j, id, hold⟩ | hrun
    · cases hc.symm.trans hc'
    · cases hc.symm.trans hc'
      exact .inl ⟨k, _, (hmem k _).mpr (.inr ⟨rfl, rfl⟩)⟩
    · exact .inl ⟨j, id, (hmem j _).mpr (.inl hold)⟩
    · exact .inr hrun

omit [DecidableEq K] in
/-- A wait task that is completed is not pending any more. -/
theorem pending_update {i j : ℕ} {t : TaskSharedState Unit ε} (ht : t.state ≠ .created)
    (hst : (Function.update s.waitTask i t j).state = .created) :
    j ≠ i ∧ (s.waitTask j).state = .created := by
  by_cases hj : j = i
  · subst hj
    rw [Function.update_self] at hst
    exact absurd hst ht
  · rw [Function.update_of_ne hj] at hst
    exact ⟨hj, hst⟩

omit [DecidableEq K] in
theorem exec_result (hsem : SemaphoreInv s) (i : ℕ) :
    ((s.waitTask i).exec (.trySetResult ())).state ≠ .created := by
  rw [(hsem.isWaitTask i).exec_trySetResult]
  split_ifs with hst
  · nofun
  · exact hst

omit [DecidableEq K] in
theorem exec_exception (hsem : SemaphoreInv s) (i : ℕ) :
    ((s.waitTask i).exec (.trySetException (some .operationCanceled))).state ≠ .created := by
  rw [(hsem.isWaitTask i).exec_trySetException]
  split_ifs with hst
  · nofun
  · exact hst

theorem advance (h : CancelInv s) (hsem : SemaphoreInv s) (hs : s.advance = some s') :
    CancelInv s' := by
  cases AsyncSemaphore.advance_cases hs with
  | @registerCanceled i k hc ht =>
    refine h.quiet rfl rfl (fun j k' id hr => ?_) nofun nofun fun j hj hst => ?_
    · rcases List.mem_cons.mp hr with heq | hold
      · cases heq
      · exact List.mem_append_right _ hold
    · obtain ⟨hne, hst'⟩ := pending_update (exec_exception hsem i) hst
      refine .inr ⟨hj, hst', ?_⟩
      rw [hc]
      refine not_registers (fun k' heq => ?_) nofun
      cases heq
      exact hne rfl
  | @registerChecked i k hc ht =>
    refine h.quiet rfl rfl (fun j k' id hr => List.mem_append_right _ hr) nofun (fun j k' heq => ?_)
      fun j hj hst => ?_
    · cases heq
      exact ht
    · by_cases hji : j = i
      · subst hji
        exact .inl ⟨k, .inr rfl⟩
      · refine .inr ⟨hj, hst, ?_⟩
        rw [hc]
        refine not_registers (fun k' heq => ?_) nofun
        cases heq
        exact hji rfl
  | registered hc => exact h.push hc
  | @emplaced i r hc =>
    refine h.released rfl rfl (fun x hx => ?_) (.inl rfl) fun j hj hst => ⟨hj, hst, ?_⟩
    · have hx' : x ∈ s.waiters ++ [(i, r)] := hx
      simp only [AsyncSemaphore.registered, hc, Critical.inHand, List.cons_append, List.nil_append,
        List.mem_cons]
      rcases List.mem_append.mp hx' with hold | hnew
      · exact .inr hold
      · exact .inl (List.mem_singleton.mp hnew)
    · rw [hc]
      exact not_registers nofun nofun
  | @popped i hc =>
    refine h.loopTest rfl rfl rfl rfl
      (fun j hst => (pending_update (exec_result hsem i) hst).2) fun j => ?_
    rw [hc]
    exact not_registers nofun nofun
  | @poppedRegistered i r hc =>
    refine h.quiet rfl rfl (fun j k' id hr => List.mem_append_right _ hr) ?_ nofun
      fun j hj hst => .inr ⟨hj, (pending_update (exec_result hsem i) hst).2, ?_⟩
    · -- the callback with the id of the waiter in hand is its own
      intro k id w heq j hj
      cases heq
      have hown := (h.owner i k id (by
        simp [AsyncSemaphore.registered, hc, Critical.inHand])).2 j hj
      subst hown
      show (Function.update s.waitTask j _ j).state ≠ _
      rw [Function.update_self]
      exact exec_result hsem j
    · rw [hc]
      exact not_registers nofun nofun
  | @disposed r w hc =>
    have hdisp := h.disposeRegistration hc
    refine hdisp.loopTest rfl rfl rfl rfl (fun _ hst => hst) fun j => ?_
    rw [disposeRegistration_critical, hc]
    exact not_registers nofun nofun

/-! ## The cancellation -/

theorem cancel (h : CancelInv s) {k : K} (hs : s.step (.cancel k) = some s') : CancelInv s' := by
  simp only [AsyncSemaphore.step] at hs
  split_ifs at hs with hk
  · cases hs
    exact h
  cases hs
  have hactions : ∀ j, (Function.update s.token k { s.token k with isCanceled := true }
      j).cancelActions = (s.token j).cancelActions ∧
        (Function.update s.token k { s.token k with isCanceled := true }
          j).cancellationActionCounter = (s.token j).cancellationActionCounter := by
    intro j
    by_cases hj : j = k
    · subst hj
      rw [Function.update_self]
      exact ⟨rfl, rfl⟩
    · rw [Function.update_of_ne hj]
      exact ⟨rfl, rfl⟩
  have hmem : ∀ j p, p ∈ (Function.update s.token k { s.token k with isCanceled := true }
      j).cancelActions ↔ p ∈ (s.token j).cancelActions := fun j p => by rw [(hactions j).1]
  -- nothing was being cancelled
  have hidle : s.canceling k = .idle := by
    by_contra hne
    exact hk (h.canceling k hne)
  refine ⟨fun j p hp => ?_, fun i j id hr => ?_, fun j id w hd i hi => ?_, fun j hj => ?_,
    fun j hj hne => ?_, fun i hi hst => ?_⟩
  · exact (h.ids j p ((hmem j p).mp hp)).trans_eq (hactions j).2.symm
  · obtain ⟨hle, howner⟩ := h.owner i j id hr
    exact ⟨hle.trans_eq (hactions j).2.symm, fun j' hj' => howner j' ((hmem j _).mp hj')⟩
  · exact h.disposing j id w hd i ((hmem j _).mp hi)
  · by_cases hjk : j = k
    · subst hjk
      show (Function.update s.token j _ j).isCanceled = true
      rw [Function.update_self]
    · have hj' : s.canceling j ≠ .idle := by
        rwa [← Function.update_of_ne hjk .exchanged s.canceling]
      show (Function.update s.token k _ j).isCanceled = true
      rw [Function.update_of_ne hjk]
      exact h.canceling j hj'
  · by_cases hjk : j = k
    · subst hjk
      exact absurd (Function.update_self ..) hne
    · have hj' : (s.token j).isCanceled := by
        rwa [← Function.update_of_ne hjk { s.token k with isCanceled := true } s.token]
      have hne' : s.canceling j ≠ .exchanged := by
        rwa [← Function.update_of_ne hjk .exchanged s.canceling]
      exact (h.moved j hj' hne').imp_left fun hnil => (hactions j).1.trans hnil
  · refine (h.reached i hi hst).imp_right ?_
    rintro (⟨j, id, hp⟩ | ⟨j, hrun⟩)
    · exact .inl ⟨j, id, (hmem j _).mpr hp⟩
    · refine .inr ⟨j, ?_⟩
      have hjk : j ≠ k := by
        rintro rfl
        rw [hidle] at hrun
        cases hrun
      show i ∈ (Function.update s.canceling k _ j).actions
      rwa [Function.update_of_ne hjk]

/-- `RunCancelActions` moves the callbacks out. -/
theorem moveActions (h : CancelInv s) {k : K} (hk : s.canceling k = .exchanged)
    (hfree : s.cancelActionsMutexFree k) :
    CancelInv { s.setToken k (s.token k).moveActions.2 with
      canceling := Function.update s.canceling k (.running (s.token k).moveActions.1) } := by
  have hsub : ∀ j p, p ∈ (Function.update s.token k (s.token k).moveActions.2 j).cancelActions →
      p ∈ (s.token j).cancelActions := by
    intro j p hp
    by_cases hj : j = k
    · subst hj
      rw [Function.update_self] at hp
      cases hp
    · rwa [Function.update_of_ne hj] at hp
  have hcount : ∀ j, (Function.update s.token k (s.token k).moveActions.2
      j).cancellationActionCounter = (s.token j).cancellationActionCounter :=
    AsyncSemaphore.counter_update (by rfl)
  have hcanceled : ∀ j, (Function.update s.token k (s.token k).moveActions.2 j).isCanceled =
      (s.token j).isCanceled := AsyncSemaphore.isCanceled_update (by rfl)
  refine ⟨fun j p hp => ?_, fun i j id hr => ?_, fun j id w hd i hi => ?_, fun j hj => ?_,
    fun j hj hne => ?_, fun i hi hst => ?_⟩
  · exact (h.ids j p (hsub j p hp)).trans_eq (hcount j).symm
  · obtain ⟨hle, howner⟩ := h.owner i j id hr
    exact ⟨hle.trans_eq (hcount j).symm, fun j' hj' => howner j' (hsub j _ hj')⟩
  · exact h.disposing j id w hd i (hsub j _ hi)
  · refine (hcanceled j).trans (h.canceling j ?_)
    by_cases hjk : j = k
    · subst hjk
      rw [hk]
      nofun
    · rwa [← Function.update_of_ne hjk (.running (s.token k).moveActions.1) s.canceling]
  · by_cases hjk : j = k
    · subst hjk
      refine ⟨?_, fun i hc => ?_⟩
      · show (Function.update s.token j _ j).cancelActions = []
        rw [Function.update_self]
        rfl
      · have hc' : s.critical = .registerChecked i j := hc
        simp [AsyncSemaphore.cancelActionsMutexFree, hc'] at hfree
    · have hne' : s.canceling j ≠ .exchanged := by
        rwa [← Function.update_of_ne hjk (.running (s.token k).moveActions.1) s.canceling]
      obtain ⟨hnil, hnot⟩ := h.moved j ((hcanceled j).symm.trans hj) hne'
      refine ⟨List.eq_nil_iff_forall_not_mem.mpr fun p hp => ?_, hnot⟩
      have hold := hsub j p hp
      rw [hnil] at hold
      cases hold
  · refine (h.reached i hi hst).imp_right ?_
    rintro (⟨j, id, hp⟩ | ⟨j, hrun⟩)
    · by_cases hjk : j = k
      · subst hjk
        refine .inr ⟨j, ?_⟩
        show i ∈ (Function.update s.canceling j _ j).actions
        rw [Function.update_self]
        exact List.mem_map.mpr ⟨_, hp, rfl⟩
      · refine .inl ⟨j, id, ?_⟩
        show (id, i) ∈ (Function.update s.token k _ j).cancelActions
        rwa [Function.update_of_ne hjk]
    · have hjk : j ≠ k := by
        rintro rfl
        rw [hk] at hrun
        cases hrun
      refine .inr ⟨j, ?_⟩
      show i ∈ (Function.update s.canceling k _ j).actions
      rwa [Function.update_of_ne hjk]

/-- `RunCancelActions` runs a callback, or ends. -/
theorem runActions (h : CancelInv s) {k : K} {p : CancelPhase} {is : List ℕ}
    (hk : s.canceling k = .running is)
    {waitTask : ℕ → TaskSharedState Unit ε}
    (hkept : ∀ i, (waitTask i).state = .created → (s.waitTask i).state = .created)
    (hactions : ∀ i ∈ is, (waitTask i).state = .created → i ∈ p.actions) :
    CancelInv { s with
      waitTask := waitTask, canceling := Function.update s.canceling k p } := by
  refine ⟨h.ids, h.owner, fun j id w hd i hi hst => ?_, fun j hj => ?_, fun j hj hne => ?_,
    fun i hi hst => ?_⟩
  · exact h.disposing j id w hd i hi (hkept i hst)
  · refine h.canceling j ?_
    by_cases hjk : j = k
    · subst hjk
      rw [hk]
      nofun
    · rwa [← Function.update_of_ne hjk p s.canceling]
  · refine h.moved j hj ?_
    by_cases hjk : j = k
    · subst hjk
      rw [hk]
      nofun
    · rwa [← Function.update_of_ne hjk p s.canceling]
  · refine (h.reached i hi (hkept i hst)).imp_right fun hcancel => hcancel.imp_right ?_
    rintro ⟨j, hrun⟩
    refine ⟨j, ?_⟩
    show i ∈ (Function.update s.canceling k p j).actions
    by_cases hjk : j = k
    · subst hjk
      rw [Function.update_self]
      rw [hk] at hrun
      exact hactions i hrun hst
    · rwa [Function.update_of_ne hjk]

theorem runCancel (h : CancelInv s) (hsem : SemaphoreInv s) {k : K}
    (hs : s.runCancel k = some s') : CancelInv s' := by
  cases AsyncSemaphore.runCancel_cases hs with
  | moved hk hfree => exact h.moveActions hk hfree
  | ended hk => exact h.runActions hk (fun _ hst => hst) nofun
  | @ran i is hk =>
    refine h.runActions hk (fun j hst => (pending_update (exec_exception hsem i) hst).2)
      fun j hj hst => ?_
    exact (List.mem_cons.mp hj).resolve_left (pending_update (exec_exception hsem i) hst).1

end CancelInv

/-! ## The counter of a token -/

/-- The caller of `WaitAsync` in the critical section has no id yet. -/
def Critical.unregistered : Critical K → ℕ
  | .registering _ _ | .registerChecked _ _ => 1
  | .free | .emplacing _ _ | .popped _ _ | .disposing _ _ => 0

/-- No two ids of a token are for one wait task. -/
def CounterInv (s : AsyncSemaphore K ε) : Prop :=
  ∀ k, (s.token k).cancellationActionCounter + s.critical.unregistered ≤ s.issued

namespace CounterInv

variable [DecidableEq K] {s s' : AsyncSemaphore K ε}

omit [DecidableEq K] in
theorem keep (h : CounterInv s) (hi : s.issued ≤ s'.issued)
    (hc : s'.critical.unregistered ≤ s.critical.unregistered)
    (ht : ∀ k, (s'.token k).cancellationActionCounter = (s.token k).cancellationActionCounter) :
    CounterInv s' := by
  intro k
  have hk := h k
  rw [ht k]
  omega

omit [DecidableEq K] in
theorem popFront_unregistered (s : AsyncSemaphore K ε) :
    s.popFront.critical.unregistered ≤ s.critical.unregistered := by
  unfold AsyncSemaphore.popFront
  split
  · exact le_rfl
  · exact Nat.zero_le _

omit [DecidableEq K] in
theorem loopTest_unregistered (s : AsyncSemaphore K ε) (w : Bool) :
    (s.loopTest w).critical.unregistered ≤ s.critical.unregistered := by
  unfold AsyncSemaphore.loopTest
  split_ifs
  · exact Nat.zero_le _
  · exact Nat.zero_le _
  · exact popFront_unregistered s

theorem disposeRegistration (h : CounterInv s) (r : CancellationRegistration K) :
    CounterInv (s.disposeRegistration r) := by
  cases r with
  | empty => exact h
  | remove k id => exact h.keep le_rfl le_rfl (AsyncSemaphore.counter_update (by rfl))

omit [DecidableEq K] in
theorem loopTest (h : CounterInv s) (w : Bool) : CounterInv (s.loopTest w) :=
  h.keep (Later.loopTest s w).issued (loopTest_unregistered s w) fun k => by
    rw [AsyncSemaphore.loopTest_token]

omit [DecidableEq K] in
theorem waitAsync (h : CounterInv s) (hc : s.critical = .free) (k : Option K) :
    CounterInv (s.waitAsync k) := by
  intro j
  have hj := h j
  rw [hc] at hj
  rw [AsyncSemaphore.waitAsync_token, AsyncCollection.waitAsync_issued]
  unfold AsyncSemaphore.waitAsync
  split_ifs
  · rw [hc]
    push_cast
    omega
  · cases k <;>
      · simp only [Critical.unregistered] at hj ⊢
        push_cast
        omega

omit [DecidableEq K] in
theorem release (h : CounterInv s) : CounterInv s.release := by
  refine h.keep (Later.release s).issued ?_ fun k => by rw [AsyncSemaphore.release_token]
  unfold AsyncSemaphore.release
  split_ifs
  · exact le_rfl
  · exact le_rfl
  · exact popFront_unregistered s

theorem advance (h : CounterInv s) (hs : s.advance = some s') : CounterInv s' := by
  cases AsyncSemaphore.advance_cases hs with
  | registerCanceled | emplaced | poppedRegistered =>
    exact h.keep le_rfl (Nat.zero_le _) fun _ => rfl
  | registerChecked hc => exact h.keep le_rfl (by rw [hc]; rfl) fun _ => rfl
  | @registered i k hc =>
    intro j
    have hj := h j
    rw [hc] at hj
    show (Function.update s.token k _ j).cancellationActionCounter + 0 ≤ s.issued
    simp only [Critical.unregistered] at hj
    by_cases hjk : j = k
    · subst hjk
      rw [Function.update_self]
      simp only [CtsSharedState.pushAction]
      omega
    · rw [Function.update_of_ne hjk]
      omega
  | @popped i =>
    have hset : CounterInv (s.trySetResult i) := h
    exact hset.loopTest _
  | disposed => exact (h.disposeRegistration _).loopTest _

theorem runCancel (h : CounterInv s) {k : K} (hs : s.runCancel k = some s') : CounterInv s' := by
  cases AsyncSemaphore.runCancel_cases hs with
  | moved => exact h.keep le_rfl le_rfl (AsyncSemaphore.counter_update (by rfl))
  | ended | ran => exact h

theorem foldl_disposeWaiter (h : CounterInv s)
    (ws : List (ℕ × Option (CancellationRegistration K))) :
    CounterInv (ws.foldl AsyncSemaphore.disposeWaiter s) := by
  induction ws generalizing s with
  | nil => exact h
  | cons w ws ih =>
    have hset : CounterInv (s.trySetCanceled w.1) := h
    refine ih ?_
    rw [disposeWaiter_eq]
    exact hset.disposeRegistration _

theorem step (h : CounterInv s) {a : SemaphoreLabel K} (hs : s.step a = some s') :
    CounterInv s' := by
  cases a with
  | waitAsync k =>
    simp only [AsyncSemaphore.step] at hs
    split at hs <;> cases hs
    exact h.waitAsync ‹_› k
  | release =>
    simp only [AsyncSemaphore.step] at hs
    split at hs <;> cases hs
    exact h.release
  | advance => exact h.advance hs
  | cancel k =>
    simp only [AsyncSemaphore.step] at hs
    split_ifs at hs <;> cases hs
    · exact h
    · exact h.keep le_rfl le_rfl (AsyncSemaphore.counter_update (by rfl))
  | runCancel k => exact h.runCancel hs
  | dispose =>
    simp only [AsyncSemaphore.step] at hs
    split at hs <;> cases hs
    exact h.foldl_disposeWaiter s.waiters

end CounterInv

/-- The counter of a token is at most the number of `WaitAsync` calls: as an `int` it does not
    overflow in a run with at most `INT_MAX` of them. -/
theorem AsyncSemaphore.cancellationActionCounter_le [DecidableEq K] {maxCount initialCount : ℤ}
    {s₀ s : AsyncSemaphore K ε} (h0 : AsyncSemaphore.construct maxCount initialCount = .ok s₀)
    (h : (semaphoreMachine s₀).Reachable Machine.Any s) (k : K) :
    (s.token k).cancellationActionCounter ≤ s.issued := by
  have hinit : CounterInv s₀ := by
    unfold AsyncSemaphore.construct at h0
    split_ifs at h0
    cases h0
    exact fun _ => le_rfl
  have hk := h.invariant hinit (fun _ _ _ hi _ hs => hi.step hs) k
  omega

/-- In a collection whose `TakeAsync` calls have tokens. -/
theorem AsyncCollection.step_cancelInv {α : Type*} [DecidableEq K] {s s' : AsyncCollection K α ε}
    {a : CollectionLabel K α} (h : CancelInv s.asyncSemaphore)
    (hsem : SemaphoreInv s.asyncSemaphore) (ha : a ≠ .takeAsync none) (hs : s.step a = some s') :
    CancelInv s'.asyncSemaphore := by
  cases a with
  | push item | tryTakeAll =>
    cases hs
    exact h
  | resume i =>
    rcases resume_cases hs with ⟨x, xs, -, rfl⟩ | ⟨e, rfl⟩ <;> exact h
  | release =>
    simp only [step] at hs
    split_ifs at hs
    obtain ⟨t, ht, rfl⟩ := semaphoreStep_cases hs
    simp only [AsyncSemaphore.step] at ht
    split at ht <;> cases ht
    exact h.release ‹_›
  | takeAsync k =>
    obtain ⟨t, ht, rfl⟩ := semaphoreStep_cases hs
    simp only [AsyncSemaphore.step] at ht
    split at ht <;> cases ht
    cases k with
    | none => exact absurd rfl ha
    | some k => exact h.waitAsync ‹_› k
  | advance =>
    obtain ⟨t, ht, rfl⟩ := semaphoreStep_cases hs
    exact h.advance hsem ht
  | cancel k =>
    obtain ⟨t, ht, rfl⟩ := semaphoreStep_cases hs
    exact h.cancel ht
  | runCancel k =>
    obtain ⟨t, ht, rfl⟩ := semaphoreStep_cases hs
    exact h.runCancel hsem ht

end AsyncCpp.AsyncPrimitives
