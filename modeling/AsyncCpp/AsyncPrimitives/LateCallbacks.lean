import AsyncCpp.AsyncPrimitives.CancelActions
import AsyncCpp.Lib.CallStacks

/-!
# Callbacks that call the token again

`RunCancelActions` moves the callbacks out and runs them after it has left
`_cancelActionsMutex` (CtsSharedState.cpp:40-55). `Register` of a token that is already
cancelled runs the callback inside its critical section (lines 98-106). A callback that runs
there and registers another one, or disposes of a registration with an entry to remove, locks
the mutex that its thread holds; `Cancel` returns before the mutex, since it finds the token
cancelled.

Results:
* `late_callbacks_run_once`: in every run in which no callback does that inside its own
  `Register`, no thread locks the mutex twice, every call returns once the callbacks make no
  more calls, and the callbacks run exactly once, also where they dispose of registrations;
  a callback that does it makes its thread lock twice.
-/

namespace AsyncCpp.AsyncPrimitives

open Interleaving TokenSystem

variable {ε T : Type*}

/-- The call locks `_cancelActionsMutex` next. -/
def CtsFrame.locks : CtsFrame → Bool
  | registerLock _ | cancelLock | disposeLock _ _ => true
  | _ => false

/-- The work left in a call, as long as no callback calls the token. -/
def CtsFrame.work : CtsFrame → ℕ
  | registerLock _ => 5
  | registerTest _ => 4
  | registerPush _ => 3
  | registerAction _ => 1
  | exchange => 3
  | cancelLock => 2
  | cancelLoop rs => 2 * rs.length + 1
  | cancelAction _ rs => 2 * rs.length + 2
  | disposeLock _ _ => 1

/-- Thread `t` is about to lock `_cancelActionsMutex` and holds it. -/
def TokenSystem.Relocks (s : TokenSystem ε T) (t : T) : Prop :=
  SelfLock s.cancelActionsMutex CtsFrame.locks s.stack t

/-- A thread that holds the mutex, and so runs a callback inside `Register`, registers no
    callback and disposes of no registration with an entry to remove. -/
def LateQuiet (s : TokenSystem ε T) : TokenLabel ε T → Prop
  | .register t true => s.cancelActionsMutex ≠ some t
  | .dispose t o => s.cancelActionsMutex = some t →
      ∀ r, s.objects o = some r → s.disposeActions r = none
  | _ => True

/-- `Dispose` is called by callbacks only. -/
def DisposesInside (s : TokenSystem ε T) (a : TokenLabel ε T) : Prop :=
  ∀ t o, a = .dispose t o → s.stack t ≠ []

/-! ## The holder of the mutex -/

/-- The calls of the thread that holds the mutex: `Register` in its critical section, or a
    `Cancel` that the callback there has called. -/
def HoldsMutex (fs : List CtsFrame) : Prop :=
  (∃ f fs', fs = f :: fs' ∧ f.holds = 1) ∨ ∃ r fs', fs = .exchange :: .registerAction r :: fs'

theorem HoldsMutex.not_locks {f : CtsFrame} {fs : List CtsFrame} (h : HoldsMutex (f :: fs)) :
    f.locks = false := by
  rcases h with ⟨g, fs', heq, hg⟩ | ⟨r, fs', heq⟩ <;> cases heq
  · cases f <;> first | rfl | cases hg
  · rfl

/-- The owner of the mutex is inside `Register`. -/
def HolderInv (s : TokenSystem ε T) : Prop :=
  ∀ t, s.cancelActionsMutex = some t → HoldsMutex (s.stack t)

theorem HolderInv.not_relocks {s : TokenSystem ε T} (h : HolderInv s) (t : T) :
    ¬ s.Relocks t := by
  rintro ⟨ho, f, fs, hst, hlocks⟩
  have hholds := h t ho
  rw [hst] at hholds
  rw [hholds.not_locks] at hlocks
  cases hlocks

section Holder

variable [Fintype T] {s s' : TokenSystem ε T} {t : T} {fs : List CtsFrame}

/-- A call inside the critical section belongs to the owner of the mutex. -/
theorem HolderInv.owner (h : HolderInv s) (hc : TokenCounts s) {f : CtsFrame}
    (hf : f ∈ s.stack t) (hholds : f.holds = 1) : s.cancelActionsMutex = some t := by
  classical
  have hone : ∀ u, (∃ g ∈ s.stack u, g.holds = 1) → 1 ≤ stackWeight CtsFrame.holds (s.stack u) := by
    rintro u ⟨g, hg, hg1⟩
    rw [← hg1]
    exact List.single_le_sum (fun _ _ => Nat.zero_le _) _ (List.mem_map_of_mem hg)
  have ht := hone t ⟨f, hf, hholds⟩
  have hsum : tally (stackWeight CtsFrame.holds) s.stack = owned s.cancelActionsMutex := hc.mutex
  cases hm : s.cancelActionsMutex with
  | none =>
    have hle := le_tally (stackWeight CtsFrame.holds) s.stack t
    rw [hm, owned_none] at hsum
    omega
  | some u =>
    by_contra hne
    have hu := hone u <| by
      rcases h u hm with ⟨g, fs', hst, hg⟩ | ⟨r, fs', hst⟩ <;> rw [hst]
      · exact ⟨g, List.mem_cons_self, hg⟩
      · exact ⟨.registerAction r, by simp, rfl⟩
    have hle := add_le_tally (stackWeight CtsFrame.holds) s.stack
      (show t ≠ u by rintro rfl; exact hne rfl)
    rw [hm, owned_some] at hsum
    omega

/-- A token whose callback runs is cancelled. -/
theorem isCanceled_of_runs (hi : TokenInv s) {r : ℕ} (hf : .registerAction r ∈ s.stack t) :
    s.cts.isCanceled = true := by
  refine hi.places.requested fun hnil => ?_
  have hruns := hi.counts.ended r
  rw [hnil, List.count_nil] at hruns
  have hzero := eq_zero_of_load (f := CtsFrame.runs r) (by omega) hf
  simp [CtsFrame.runs] at hzero

variable [DecidableEq T] {a : TokenLabel ε T}

omit [Fintype T] in
/-- A thread moves, and the mutex keeps its owner. -/
theorem HolderInv.keep (h : HolderInv s) (hs : s'.stack = Function.update s.stack t fs)
    (ht : s.cancelActionsMutex = some t → HoldsMutex fs)
    (hm : s'.cancelActionsMutex = s.cancelActionsMutex := by rfl) : HolderInv s' := by
  intro u hu
  rw [hm] at hu
  rw [hs]
  by_cases hut : u = t
  · subst hut
    rw [Function.update_self]
    exact ht hu
  · rw [Function.update_of_ne hut]
    exact h u hu

theorem HolderInv.step (h : HolderInv s) (hi : TokenInv s) (hg : LateQuiet s a)
    (hs : TokenStep s a s') : HolderInv s' := by
  -- the holder is not in a call whose frame is outside the critical section
  have hno : ∀ {t f fs}, s.stack t = f :: fs → f.holds = 0 → f ≠ .exchange →
      s.cancelActionsMutex ≠ some t := by
    intro t f fs hst hf hne ho
    rcases h t ho with ⟨g, fs', heq, hg⟩ | ⟨r, fs', heq⟩ <;> rw [hst] at heq <;> cases heq
    · omega
    · exact hne rfl
  cases hs with
  | disposeEmpty => exact h
  | disposeNothing | moveConstruct | moveAssign => exact h
  | @register t hcall => exact h.keep (t := t) rfl fun ho => absurd ho hg
  | @registerNull t hcall => exact h.keep (t := t) rfl (h t)
  | @cancel t hcall =>
    refine h.keep (t := t) rfl fun ho => ?_
    rcases h t ho with ⟨f, fs', hst, hf⟩ | ⟨r, fs', hst⟩ <;> rw [hst] at hcall ⊢
    · cases f with
      | registerAction => exact .inr ⟨_, _, rfl⟩
      | registerTest | registerPush => cases hcall
      | _ => cases hf
    · cases hcall
  | @disposeRemove t o r id ho hr =>
    refine h.keep (t := t) rfl fun hm => ?_
    rw [hg hm r ho] at hr
    cases hr
  | endRegister | registerPush => exact fun u hu => by cases hu
  | @endCancel t _ _ _ _ hst | @cancelReturn t _ hst | @cancelRun t _ _ _ hst =>
    exact h.keep (t := t) rfl fun ho => absurd ho (hno hst rfl nofun)
  | @registerLock t _ _ hst hm =>
    intro u hu
    cases hu
    exact .inl ⟨_, _, Function.update_self .., rfl⟩
  | @registerRun t _ _ hst | @registerKeep t _ _ hst =>
    exact h.keep (t := t) rfl fun _ => .inl ⟨_, _, rfl, rfl⟩
  | @exchangeWin t fs hst hcan =>
    refine h.keep (t := t) rfl fun ho => ?_
    rcases h t ho with ⟨f, fs', heq, hf⟩ | ⟨r, fs', heq⟩
    · rw [hst] at heq
      cases heq
      cases hf
    · have hcan' := isCanceled_of_runs hi (t := t) (r := r) (by simp [heq])
      rw [hcan] at hcan'
      cases hcan'
  | @exchangeLose t fs hst hcan =>
    refine h.keep (t := t) rfl fun ho => ?_
    rcases h t ho with ⟨f, fs', heq, hf⟩ | ⟨r, fs', heq⟩ <;> rw [hst] at heq <;> cases heq
    · cases hf
    · exact .inl ⟨_, _, rfl, rfl⟩
  | @cancelLock t _ hst hm | @disposeRun t _ _ _ hst hm =>
    exact h.keep (t := t) rfl fun ho => by rw [hm] at ho; cases ho

end Holder

/-! ## Calls return -/

section Returns

variable [Fintype T]

/-- The steps left until every call has returned, as long as no callback calls the token. -/
def TokenSystem.work (s : TokenSystem ε T) : ℕ :=
  s.load CtsFrame.work + 2 * s.cts.cancelActions.length

/-- The step belongs to a call in progress: it is not a call of the token. -/
def TokenLabel.goesOn : TokenLabel ε T → Bool
  | .run _ | .endAction _ _ => true
  | _ => false

/-- Nobody locks twice; as long as a thread is inside a call some thread can go on, or end the
    callback it runs; and calls that go on come to an end. -/
structure CallsGoOn [DecidableEq T] (s : TokenSystem ε T) : Prop where
  noRelock : ∀ t, ¬ s.Relocks t
  goesOn : (∃ t, s.stack t ≠ []) → ∃ t, (s.run t).isSome ∨ (s.endAction t (.ok ())).isSome
  ends : ∀ a s', a.goesOn → s.step a = some s' → s'.work < s.work

variable [DecidableEq T] {s s' : TokenSystem ε T} {a : TokenLabel ε T} {t : T}

omit [Fintype T] in
/-- A thread that does not wait for the mutex can go on, or end the callback it runs. -/
theorem goesOn_of_not_waiting {f : CtsFrame} {fs : List CtsFrame} (hst : s.stack t = f :: fs)
    (hf : f.locks → s.cancelActionsMutex = none) :
    (s.run t).isSome ∨ (s.endAction t (.ok ())).isSome := by
  cases f with
  | registerLock | cancelLock | disposeLock =>
    left
    simp [TokenSystem.run, hst, hf rfl]
  | registerTest r =>
    left
    simp only [TokenSystem.run, hst]
    split <;> rfl
  | exchange =>
    left
    simp only [TokenSystem.run, hst]
    split <;> rfl
  | registerPush r =>
    left
    simp [TokenSystem.run, hst]
  | cancelLoop rs =>
    left
    cases rs <;> simp [TokenSystem.run, hst]
  | registerAction | cancelAction =>
    right
    simp [TokenSystem.endAction, hst, runCancelAction]

omit [Fintype T] in
/-- The owner of the mutex does not wait for it. -/
theorem HolderInv.goesOn (h : HolderInv s) (hne : ∃ t, s.stack t ≠ []) :
    ∃ t, (s.run t).isSome ∨ (s.endAction t (.ok ())).isSome := by
  cases hm : s.cancelActionsMutex with
  | none =>
    obtain ⟨t, ht⟩ := hne
    obtain ⟨f, fs, hst⟩ := List.exists_cons_of_ne_nil ht
    exact ⟨t, goesOn_of_not_waiting hst fun _ => hm⟩
  | some u =>
    have hholds := h u hm
    obtain ⟨f, fs, hst⟩ : ∃ f fs, s.stack u = f :: fs := by
      rcases hholds with ⟨f, fs, hst, -⟩ | ⟨r, fs, hst⟩ <;> exact ⟨_, _, hst⟩
    rw [hst] at hholds
    refine ⟨u, goesOn_of_not_waiting hst fun hlocks => ?_⟩
    rw [hholds.not_locks] at hlocks
    cases hlocks

/-- A step of a call in progress leaves less to do. -/
theorem work_lt (ha : a.goesOn) (hs : TokenStep s a s') : s'.work < s.work := by
  have hmove : ∀ {t : T} {fs : List CtsFrame}, s'.stack = Function.update s.stack t fs →
      stackWeight CtsFrame.work fs + 2 * s'.cts.cancelActions.length <
        stackWeight CtsFrame.work (s.stack t) + 2 * s.cts.cancelActions.length →
      s'.work < s.work := by
    intro t fs hst hlt
    have hload := load_goto CtsFrame.work hst
    unfold TokenSystem.work
    omega
  cases hs with
  | register | registerNull | cancel | disposeEmpty | disposeNothing | disposeRemove
  | moveConstruct | moveAssign => cases ha
  | @endRegister t _ _ _ hst | @endCancel t _ _ _ _ hst | @registerLock t _ _ hst
  | @registerRun t _ _ hst | @registerKeep t _ _ hst | @exchangeWin t _ hst
  | @exchangeLose t _ hst | @cancelReturn t _ hst =>
    exact hmove (t := t) rfl (by simp [hst, CtsFrame.work])
  | @registerPush t _ _ hst =>
    exact hmove (t := t) rfl (by simp [hst, CtsFrame.work, CtsSharedState.pushAction]; omega)
  | @cancelLock t _ hst =>
    exact hmove (t := t) rfl (by simp [hst, CtsFrame.work]; omega)
  | @cancelRun t _ _ _ hst =>
    exact hmove (t := t) rfl (by simp [hst, CtsFrame.work]; omega)
  | @disposeRun t _ id _ hst =>
    have hle : (s.cts.removeCancellation id).cancelActions.length ≤ s.cts.cancelActions.length :=
      List.length_filter_le ..
    exact hmove (t := t) rfl (by simp [hst, CtsFrame.work]; omega)

end Returns

/-! ## Exactly once -/

section Once

variable [Fintype T] [DecidableEq T] {s s' : TokenSystem ε T} {a : TokenLabel ε T} {t : T}

/-- Where callbacks only dispose, nothing is left to remove: the winning `Cancel` has moved the
    entries out, and every callback is where it was. -/
structure InsideInv (s : TokenSystem ε T) : Prop where
  removes : ∀ t r id, .disposeLock r id ∈ s.stack t → s.handedOver = true
  kept : ∀ r ∈ s.actions, s.due r = 1

omit [DecidableEq T] in
/-- Weights that share what a third one allows each call. -/
theorem load_add_le {f g w : CtsFrame → ℕ} (h : ∀ frame, f frame + g frame ≤ w frame) :
    s.load f + s.load g ≤ s.load w := by
  unfold TokenSystem.load tally
  rw [← Finset.sum_add_distrib]
  refine Finset.sum_le_sum fun t _ => ?_
  induction s.stack t with
  | nil => exact le_rfl
  | cons frame fs ih =>
    have := h frame
    simp only [stackWeight_cons]
    omega

omit [DecidableEq T] in
/-- While the winning `Cancel` runs a callback, it has moved the entries out. -/
theorem handedOver_of_cancelAction (hc : TokenCounts s) {r : ℕ} {rs : List ℕ}
    {fs : List CtsFrame} (hst : s.stack t = .cancelAction r rs :: fs) : s.handedOver = true := by
  have hshare : s.load CtsFrame.waits + s.load (fun f => if f = .cancelAction r rs then 1 else 0) ≤
      s.load CtsFrame.wins := by
    refine load_add_le fun f => ?_
    cases f <;> simp [CtsFrame.waits, CtsFrame.wins]
    split <;> omega
  have hone := le_load (fun f => if f = .cancelAction r rs then 1 else 0) hst
  have hwins := hc.winner
  have hhanded := hc.handedOver
  rw [(hc.canceled_of_wins hst rfl).2] at hwins hhanded
  cases hh : s.handedOver with
  | true => rfl
  | false =>
    rw [hh] at hhanded
    simp only [Bool.toNat_false, Bool.toNat_true, if_true] at hwins hhanded hone
    omega

theorem InsideInv.step (h : InsideInv s) (hi : TokenInv s) (hh : HolderInv s) (hg : LateQuiet s a)
    (hd : DisposesInside s a) (hcall : ∀ t o, a = .dispose t o → canCall (s.stack t))
    (hs : TokenStep s a s') : InsideInv s' := by
  have hremoves : ∀ {t : T} {fs : List CtsFrame}, s'.stack = Function.update s.stack t fs →
      (∀ r id, .disposeLock r id ∈ fs → .disposeLock r id ∈ s.stack t ∨ s'.handedOver = true) →
      (s.handedOver = true → s'.handedOver = true) →
      ∀ u r id, .disposeLock r id ∈ s'.stack u → s'.handedOver = true := by
    intro t fs hst hfs hmono u r id hu
    rw [hst] at hu
    by_cases hut : u = t
    · subst hut
      rw [Function.update_self] at hu
      rcases hfs r id hu with hold | hnew
      · exact hmono (h.removes u r id hold)
      · exact hnew
    · rw [Function.update_of_ne hut] at hu
      exact hmono (h.removes u r id hu)
  have htail : ∀ {t frame fs}, s.stack t = frame :: fs → ∀ r id, .disposeLock r id ∈ fs →
      .disposeLock r id ∈ s.stack t := by
    intro t frame fs hst r id hm
    rw [hst]
    exact List.mem_cons_of_mem _ hm
  refine ⟨?_, fun r hr => ?_⟩
  · cases hs with
    | disposeEmpty | disposeNothing | moveConstruct | moveAssign => exact h.removes
    | @register t | @cancel t =>
      exact hremoves (t := t) rfl (fun r id hm => .inl (by simpa using hm)) id
    | @registerNull t => exact hremoves (t := t) rfl (fun r id hm => .inl hm) id
    | @disposeRemove t o r id ho hr =>
      -- the callback that disposes is not in the critical section, so `Cancel` runs it
      have hcan := hcall t o rfl
      obtain ⟨f, fs, hst⟩ := List.exists_cons_of_ne_nil (hd t o rfl)
      rw [hst] at hcan
      cases f with
      | registerAction r' =>
        have howner := hh.owner hi.counts (t := t) (f := .registerAction r')
          (by rw [hst]; exact List.mem_cons_self) rfl
        rw [hg howner r ho] at hr
        cases hr
      | cancelAction r' rs =>
        have hhanded := handedOver_of_cancelAction hi.counts hst
        exact hremoves (t := t) rfl (fun _ _ _ => .inr hhanded) fun _ => hhanded
      | _ => cases hcan
    | @endRegister t _ _ _ hst | @registerPush t _ _ hst | @exchangeLose t _ hst
    | @cancelReturn t _ hst | @disposeRun t _ _ _ hst =>
      exact hremoves (t := t) rfl (fun r id hm => .inl (htail hst r id hm)) id
    | @cancelLock t _ hst =>
      exact hremoves (t := t) rfl (fun _ _ _ => .inr rfl) fun _ => rfl
    | @endCancel t _ _ _ _ hst | @registerLock t _ _ hst | @registerRun t _ _ hst
    | @registerKeep t _ _ hst | @exchangeWin t _ hst | @cancelRun t _ _ _ hst =>
      exact hremoves (t := t) rfl (fun r id hm => .inl (htail hst r id (by simpa using hm))) id
  · rcases TokenPlaces.due_step hi.ids hs with ⟨hactions, -, hdue⟩ | ⟨hactions, -, hdue⟩
    · rw [hactions, List.mem_append, List.mem_singleton] at hr
      have hnew := hi.places.fresh s.registered le_rfl
      rw [hdue r]
      by_cases heq : s.registered = r
      · rw [if_pos heq, ← heq, hnew]
      · rw [if_neg heq]
        exact h.kept r (hr.resolve_right (Ne.symm heq))
    · rw [hactions] at hr
      rcases hdue r with heq | ⟨-, -, hentries, t, id, hmem⟩
      · rw [heq, h.kept r hr]
      · exact absurd (hi.places.moved (h.removes t r id hmem)).1 hentries

theorem reachable_holderInv (h : (tokenMachine ε T).Reachable LateQuiet s) : HolderInv s := by
  refine h.invariant_with (fun _ => reachable_tokenInv) nofun ?_
  intro s a s' hi hh hg hs
  exact hh.step hi hg (step_cases hs)

theorem reachable_insideInv
    (h : (tokenMachine ε T).Reachable (fun s a => LateQuiet s a ∧ DisposesInside s a) s) :
    InsideInv s := by
  refine h.invariant_with (Q := fun s => TokenInv s ∧ HolderInv s)
    (fun u hu => ⟨reachable_tokenInv hu, reachable_holderInv (hu.mono fun _ _ hg => hg.1)⟩)
    ⟨nofun, nofun⟩ ?_
  rintro s a s' ⟨hi, hh⟩ hin ⟨hg, hd⟩ hs
  refine hin.step hi hh hg hd (fun t o ha => ?_) (step_cases hs)
  subst ha
  by_contra hcan
  simp [tokenMachine, TokenSystem.step, hcan] at hs

omit [Fintype T] in
/-- A callback inside its `Register` that registers another one, or disposes of a registration
    with an entry to remove: its thread locks twice. -/
theorem relocks_of_not_lateQuiet (hg : ¬ LateQuiet s a) (hs : s.step a = some s') :
    ∃ t, s'.Relocks t := by
  cases step_cases hs with
  | @register t hcall =>
    exact ⟨t, not_not.mp hg, _, _, Function.update_self .., rfl⟩
  | @disposeRemove t o r id ho hr =>
    simp only [LateQuiet, Classical.not_imp] at hg
    exact ⟨t, hg.1, _, _, Function.update_self .., rfl⟩
  | disposeEmpty ho => exact absurd (fun _ r hr => by rw [ho] at hr; cases hr) hg
  | disposeNothing ho hr =>
    refine absurd (fun _ r' hr' => ?_) hg
    rw [ho] at hr'
    cases hr'
    exact hr
  | _ => exact absurd trivial hg

/-- A token with any number of threads, and callbacks that call it again in any way. In every run
    in which no callback inside its own `Register` registers another one or disposes of a
    registration with an entry to remove: no thread locks the mutex twice, and every call
    returns once the callbacks make no more calls; no callback begins twice, and by the time
    its `Register` and the winning `Cancel` have returned a callback has run once, unless its
    registration was disposed, and also then where only callbacks dispose. A step that breaks
    the condition makes its thread lock twice. -/
theorem late_callbacks_run_once (h : (tokenMachine ε T).Reachable LateQuiet s) :
    CallsGoOn s ∧ (∀ r, s.begun.count r ≤ 1) ∧
    (∀ r ∈ s.actions, r ∉ s.disposed → r ∈ s.returned → s.winnerReturned = true →
      s.ended.count r = 1) ∧
    ((tokenMachine ε T).Reachable (fun s a => LateQuiet s a ∧ DisposesInside s a) s →
      ∀ r ∈ s.actions, r ∈ s.returned → s.winnerReturned = true → s.ended.count r = 1) ∧
    ∀ a s₁, ¬ LateQuiet s a → s.step a = some s₁ → ∃ t, s₁.Relocks t := by
  have hi := reachable_tokenInv h
  have hh := reachable_holderInv h
  exact ⟨⟨hh.not_relocks, hh.goesOn, fun a s' ha hs => work_lt ha (step_cases hs)⟩, hi.begun_le,
    fun r ha hd hr hw => hi.ended_of_due (hi.places.kept r ha hd) hr hw,
    fun hin r ha hr hw => hi.ended_of_due ((reachable_insideInv hin).kept r ha) hr hw,
    fun a s₁ hg hs => relocks_of_not_lateQuiet hg hs⟩

/-- Callback 0 runs in `Cancel`. It registers callback 1, which runs inside its `Register` and
    calls `Cancel`, and disposes of its own registration. -/
theorem late_callbacks_run_once_nested :
    ∃ s : TokenSystem Empty Unit, (tokenMachine Empty Unit).Reachable LateQuiet s ∧
      s.begun = [0, 1] ∧ s.disposed = [0] ∧ s.ended.count 0 = 1 ∧ s.ended.count 1 = 1 := by
  have hr : (tokenMachine Empty Unit).Reachable (fun s a => LateQuiet s a ∧ DisposesInside s a) _ :=
    .head (a := .register () true) rfl ⟨nofun, nofun⟩ <|
    .head (a := .run ()) rfl ⟨trivial, nofun⟩ <| .head (a := .run ()) rfl ⟨trivial, nofun⟩ <|
    .head (a := .run ()) rfl ⟨trivial, nofun⟩ <| .head (a := .cancel ()) rfl ⟨trivial, nofun⟩ <|
    .head (a := .run ()) rfl ⟨trivial, nofun⟩ <| .head (a := .run ()) rfl ⟨trivial, nofun⟩ <|
    .head (a := .run ()) rfl ⟨trivial, nofun⟩ <|
    .head (a := .register () true) rfl ⟨nofun, nofun⟩ <|
    .head (a := .run ()) rfl ⟨trivial, nofun⟩ <| .head (a := .run ()) rfl ⟨trivial, nofun⟩ <|
    .head (a := .cancel ()) rfl ⟨trivial, nofun⟩ <| .head (a := .run ()) rfl ⟨trivial, nofun⟩ <|
    .head (a := .endAction () (.ok ())) rfl ⟨trivial, nofun⟩ <|
    .head (a := .dispose () 0) rfl ⟨nofun, by rintro _ _ ⟨⟩; nofun⟩ <|
    .head (a := .run ()) rfl ⟨trivial, nofun⟩ <|
    .head (a := .endAction () (.ok ())) rfl ⟨trivial, nofun⟩ <|
    .head (a := .run ()) rfl ⟨trivial, nofun⟩ .refl
  have honce := (late_callbacks_run_once (hr.mono fun _ _ hg => hg.1)).2.2.2.1 hr
  refine ⟨_, hr.mono fun _ _ hg => hg.1, rfl, rfl, honce 0 ?_ ?_ rfl, honce 1 ?_ ?_ rfl⟩
  all_goals decide

/-- The token is cancelled, then a callback is registered: it runs inside `Register`, registers
    another one, and locks `_cancelActionsMutex` a second time. -/
theorem not_late_callbacks_run_once :
    ∃ s : TokenSystem Empty Unit, (tokenMachine Empty Unit).Reachable Machine.Any s ∧
      s.Relocks () ∧ s.actions = [0, 1] ∧ s.begun = [0] ∧
        s.run () = none ∧ s.endAction () (.ok ()) = none := by
  have hr : (tokenMachine Empty Unit).run {}
      [.cancel (), .run (), .run (), .run (), .register () true, .run (), .run (),
        .register () true] = some _ := rfl
  exact ⟨_, .of_run hr, ⟨rfl, _, _, rfl, rfl⟩, rfl, rfl, rfl, rfl⟩

end Once

end AsyncCpp.AsyncPrimitives
