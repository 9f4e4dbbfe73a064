import AsyncCpp.AsyncPrimitives.CancellationToken
import AsyncCpp.Lib.Threads
import Mathlib.Algebra.Ring.Nat

/-!
# Cancellation callbacks run exactly once

A registered callback is in one place: in the hands of its `Register` call, in
`_cancelActions`, in the collection the winning `Cancel` has moved out, or it has begun. No
step moves it to two places, and only a `Dispose` takes it away. When the winning `Cancel`
holds the mutex, no `Register` is between its test and its push, so nothing is pushed after
the collection has been moved out.

Results:
* `cancellationActionCounter_le`: the counter of the ids is bounded by the number of `Register`
  calls.
* `cancel_actions_run_once`: no callback begins twice, none begins before cancellation is
  requested, and once its `Register` and the winning `Cancel` have returned a callback whose
  registration is not disposed has run, whatever the callbacks end with.
-/

namespace AsyncCpp.AsyncPrimitives

open Interleaving

variable {ε T : Type*}

/-! ## What the calls hold -/

/-- The sum of a weight of calls over the calls a thread is in. -/
def stackWeight (f : CtsFrame → ℕ) (fs : List CtsFrame) : ℕ := (fs.map f).sum

@[simp] theorem stackWeight_cons (f : CtsFrame → ℕ) (frame : CtsFrame) (fs : List CtsFrame) :
    stackWeight f (frame :: fs) = f frame + stackWeight f fs :=
  List.sum_cons

namespace CtsFrame

/-- How often the call is going to run callback `r`, or to push it. -/
def owes (r : ℕ) : CtsFrame → ℕ
  | registerLock r' | registerTest r' | registerPush r' => if r' = r then 1 else 0
  | cancelLoop rs | cancelAction _ rs => rs.count r
  | _ => 0

/-- The call runs callback `r`. -/
def runs (r : ℕ) : CtsFrame → ℕ
  | registerAction r' | cancelAction r' _ => if r' = r then 1 else 0
  | _ => 0

/-- The call is `Register` of callback `r`. -/
def registers (r : ℕ) : CtsFrame → ℕ
  | registerLock r' | registerTest r' | registerPush r' | registerAction r' =>
    if r' = r then 1 else 0
  | _ => 0

/-- The call is the `Cancel` that found the token not canceled. -/
def wins : CtsFrame → ℕ
  | cancelLock | cancelLoop _ | cancelAction _ _ => 1
  | _ => 0

/-- The winning `Cancel` has not moved `_cancelActions` out. -/
def waits : CtsFrame → ℕ
  | cancelLock => 1
  | _ => 0

/-- The call holds `_cancelActionsMutex`. -/
def holds : CtsFrame → ℕ
  | registerTest _ | registerPush _ | registerAction _ => 1
  | _ => 0

/-- The call is about to push its callback. -/
def pushes : CtsFrame → ℕ
  | registerPush _ => 1
  | _ => 0

end CtsFrame

namespace TokenSystem

variable [Fintype T]

/-- The sum of a weight of calls over all calls that have not returned. -/
def load (f : CtsFrame → ℕ) (s : TokenSystem ε T) : ℕ := tally (stackWeight f) s.stack

/-- In how many places callback `r` is. -/
def due (s : TokenSystem ε T) (r : ℕ) : ℕ :=
  s.load (CtsFrame.owes r) + (s.cts.cancelActions.map Prod.snd).count r + s.begun.count r

variable {s s' : TokenSystem ε T} {t : T} {fs : List CtsFrame}

theorem load_goto [DecidableEq T] (f : CtsFrame → ℕ)
    (hs : s'.stack = Function.update s.stack t fs) :
    s'.load f + stackWeight f (s.stack t) = s.load f + stackWeight f fs := by
  unfold load
  rw [hs]
  exact tally_update _ _ _ _

/-- What the innermost call of a thread weighs is part of the load. -/
theorem le_load (f : CtsFrame → ℕ) {frame : CtsFrame} (hst : s.stack t = frame :: fs) :
    f frame ≤ s.load f := by
  have hle := le_tally (stackWeight f) s.stack t
  rw [hst, stackWeight_cons] at hle
  exact (Nat.le_add_right _ _).trans hle

end TokenSystem

open TokenSystem

/-! ## The invariant -/

/-- Call `r` is one of the first `n`. -/
def made (n r : ℕ) : ℕ := if r < n then 1 else 0

theorem made_succ (n r : ℕ) : made (n + 1) r = made n r + if n = r then 1 else 0 := by
  simp only [made]
  split <;> split <;> split <;> omega

/-- The mutex has an owner. -/
def owned : Option T → ℕ
  | none => 0
  | some _ => 1

@[simp] theorem owned_none : owned (none : Option T) = 0 := rfl

@[simp] theorem owned_some (t : T) : owned (some t) = 1 := rfl

/-- Everything that is counted. -/
structure TokenCounts [Fintype T] (s : TokenSystem ε T) : Prop where
  ended : ∀ r, s.ended.count r + s.load (CtsFrame.runs r) = s.begun.count r
  returned : ∀ r, s.returned.count r + s.load (CtsFrame.registers r) = made s.registered r
  winner : s.load CtsFrame.wins + s.winnerReturned.toNat = s.cts.isCanceled.toNat
  handedOver : s.load CtsFrame.waits + s.handedOver.toNat = s.cts.isCanceled.toNat
  mutex : s.load CtsFrame.holds = owned s.cancelActionsMutex

namespace TokenCounts

variable [Fintype T] [DecidableEq T] {s s' : TokenSystem ε T} {a : TokenLabel ε T} {t : T}
  {fs : List CtsFrame}

/-- A thread goes from the calls `s.stack t` to `fs`, and the other counts change by what
    the two weigh. -/
theorem move (h : TokenCounts s) (hs : s'.stack = Function.update s.stack t fs)
    (hended : ∀ r, s'.ended.count r + stackWeight (CtsFrame.runs r) fs + s.begun.count r =
      s.ended.count r + stackWeight (CtsFrame.runs r) (s.stack t) + s'.begun.count r)
    (hreturned : ∀ r, s'.returned.count r + stackWeight (CtsFrame.registers r) fs +
        made s.registered r =
      s.returned.count r + stackWeight (CtsFrame.registers r) (s.stack t) + made s'.registered r)
    (hwinner : s'.winnerReturned.toNat + stackWeight CtsFrame.wins fs + s.cts.isCanceled.toNat =
      s.winnerReturned.toNat + stackWeight CtsFrame.wins (s.stack t) + s'.cts.isCanceled.toNat)
    (hhanded : s'.handedOver.toNat + stackWeight CtsFrame.waits fs + s.cts.isCanceled.toNat =
      s.handedOver.toNat + stackWeight CtsFrame.waits (s.stack t) + s'.cts.isCanceled.toNat)
    (hmutex : stackWeight CtsFrame.holds fs + owned s.cancelActionsMutex =
      stackWeight CtsFrame.holds (s.stack t) + owned s'.cancelActionsMutex) : TokenCounts s' := by
  have hload := fun f => load_goto f hs
  refine ⟨fun r => ?_, fun r => ?_, ?_, ?_, ?_⟩
  · have := h.ended r
    have := hended r
    have := hload (CtsFrame.runs r)
    omega
  · have := h.returned r
    have := hreturned r
    have := hload (CtsFrame.registers r)
    omega
  · have := h.winner
    have := hload CtsFrame.wins
    omega
  · have := h.handedOver
    have := hload CtsFrame.waits
    omega
  · have := h.mutex
    have := hload CtsFrame.holds
    omega

omit [DecidableEq T] in
/-- While a call holds the mutex, it is taken. -/
theorem owned_of_holds (h : TokenCounts s) {frame : CtsFrame} (hst : s.stack t = frame :: fs)
    (hf : frame.holds = 1) : owned s.cancelActionsMutex = 1 := by
  have hle := le_load CtsFrame.holds hst
  rw [h.mutex, hf] at hle
  cases hm : s.cancelActionsMutex
  · rw [hm, owned_none] at hle
    omega
  · rfl

omit [DecidableEq T] in
/-- While the winning `Cancel` is running it has not returned, and the token is canceled. -/
theorem canceled_of_wins (h : TokenCounts s) {frame : CtsFrame} (hst : s.stack t = frame :: fs)
    (hf : frame.wins = 1) : s.winnerReturned = false ∧ s.cts.isCanceled = true := by
  have hle := le_load CtsFrame.wins hst
  have hsum := h.winner
  rw [hf] at hle
  cases hw : s.winnerReturned <;> cases hc : s.cts.isCanceled <;> rw [hw, hc] at hsum <;>
    simp only [Bool.toNat_false, Bool.toNat_true] at hsum <;> first | exact ⟨rfl, rfl⟩ | omega

omit [DecidableEq T] in
/-- While the winning `Cancel` waits for the mutex it has moved nothing out. -/
theorem not_handedOver (h : TokenCounts s) {frame : CtsFrame} (hst : s.stack t = frame :: fs)
    (hf : frame.waits = 1) : s.handedOver = false := by
  have hle := le_load CtsFrame.waits hst
  have hsum := h.handedOver
  have hc := Bool.toNat_le s.cts.isCanceled
  rw [hf] at hle
  cases hw : s.handedOver with
  | false => rfl
  | true =>
    rw [hw, Bool.toNat_true] at hsum
    omega

omit [DecidableEq T] in
/-- A call of `Register` that is running has not returned. -/
theorem not_returned (h : TokenCounts s) {frame : CtsFrame} {r : ℕ}
    (hst : s.stack t = frame :: fs) (hf : frame.registers r = 1) : r ∉ s.returned := by
  intro hr
  have hle := le_load (CtsFrame.registers r) hst
  have hsum := h.returned r
  have hpos := List.count_pos_iff.mpr hr
  simp only [made] at hsum
  split at hsum <;> omega

attribute [local simp] CtsFrame.runs CtsFrame.registers CtsFrame.wins CtsFrame.waits CtsFrame.holds
  List.count_singleton made_succ

theorem step (h : TokenCounts s) (hs : TokenStep s a s') : TokenCounts s' := by
  cases hs with
  | disposeEmpty => exact h
  | disposeNothing | moveConstruct | moveAssign =>
    exact ⟨h.ended, h.returned, h.winner, h.handedOver, h.mutex⟩
  | @register t | @registerNull t | @cancel t | @disposeRemove t =>
    refine h.move (t := t) rfl (fun r => ?_) (fun r => ?_) ?_ ?_ ?_ <;> simp <;> omega
  | @endRegister t _ _ _ hst =>
    have hm := h.owned_of_holds hst rfl
    refine h.move (t := t) rfl (fun r => ?_) (fun r => ?_) ?_ ?_ ?_ <;> simp [hst, hm] <;> omega
  | @endCancel t _ _ _ _ hst =>
    refine h.move (t := t) rfl (fun r => ?_) (fun r => ?_) ?_ ?_ ?_ <;> simp [hst]
    omega
  | @registerLock t _ _ hst hm =>
    refine h.move (t := t) rfl (fun r => ?_) (fun r => ?_) ?_ ?_ ?_ <;> simp [hst, hm]
    omega
  | @registerRun t _ _ hst hc =>
    refine h.move (t := t) rfl (fun r => ?_) (fun r => ?_) ?_ ?_ ?_ <;> simp [hst]
    omega
  | @registerKeep t _ _ hst hc =>
    refine h.move (t := t) rfl (fun r => ?_) (fun r => ?_) ?_ ?_ ?_ <;> simp [hst]
  | @registerPush t _ _ hst =>
    have hm := h.owned_of_holds hst rfl
    refine h.move (t := t) rfl (fun r => ?_) (fun r => ?_) ?_ ?_ ?_ <;>
      simp [hst, hm, CtsSharedState.pushAction] <;> omega
  | @exchangeWin t _ hst hc =>
    refine h.move (t := t) rfl (fun r => ?_) (fun r => ?_) ?_ ?_ ?_ <;> simp [hst, hc] <;> omega
  | @exchangeLose t _ hst hc =>
    refine h.move (t := t) rfl (fun r => ?_) (fun r => ?_) ?_ ?_ ?_ <;> simp [hst]
  | @cancelLock t _ hst hm =>
    have hn := h.not_handedOver hst rfl
    refine h.move (t := t) rfl (fun r => ?_) (fun r => ?_) ?_ ?_ ?_ <;> simp [hst, hn]
  | @cancelReturn t _ hst =>
    have hn := (h.canceled_of_wins hst rfl).1
    refine h.move (t := t) rfl (fun r => ?_) (fun r => ?_) ?_ ?_ ?_ <;> simp [hst, hn]
  | @cancelRun t _ _ _ hst =>
    refine h.move (t := t) rfl (fun r => ?_) (fun r => ?_) ?_ ?_ ?_ <;> simp [hst]
    omega
  | @disposeRun t _ _ _ hst hm =>
    refine h.move (t := t) rfl (fun r => ?_) (fun r => ?_) ?_ ?_ ?_ <;>
      simp [hst, CtsSharedState.removeCancellation]

end TokenCounts

/-- The ids in `_cancelActions` and in the `_disposeAction`s belong to one registration
    each. -/
structure TokenIds (s : TokenSystem ε T) : Prop where
  entries : ∀ p ∈ s.cts.cancelActions, s.disposeActions p.2 = some p.1
  bound : ∀ r id, s.disposeActions r = some id → id ≤ s.cts.cancellationActionCounter
  inj : ∀ r r' id, s.disposeActions r = some id → s.disposeActions r' = some id → r = r'
  returned : ∀ r id, s.disposeActions r = some id → r ∈ s.returned
  disposing : ∀ t r id, .disposeLock r id ∈ s.stack t →
    s.disposeActions r = some id ∧ r ∈ s.disposed

namespace TokenIds

variable [DecidableEq T] {s s' : TokenSystem ε T} {a : TokenLabel ε T} {t : T}
  {fs : List CtsFrame}

theorem keep (h : TokenIds s) (hs : s'.stack = Function.update s.stack t fs)
    (hfs : ∀ r id, .disposeLock r id ∈ fs → .disposeLock r id ∈ s.stack t ∨
      s.disposeActions r = some id ∧ r ∈ s'.disposed)
    (hc : s'.cts.cancelActions ⊆ s.cts.cancelActions)
    (hn : s'.cts.cancellationActionCounter = s.cts.cancellationActionCounter)
    (hd : s'.disposeActions = s.disposeActions) (hr : s.returned ⊆ s'.returned)
    (hdis : s.disposed ⊆ s'.disposed) : TokenIds s' := by
  refine ⟨fun p hp => ?_, fun r id hid => ?_, fun r r' id hid hid' => ?_, fun r id hid => ?_,
    fun u r id hu => ?_⟩
  · rw [hd]
    exact h.entries p (hc hp)
  · rw [hn]
    exact h.bound r id (hd ▸ hid)
  · exact h.inj r r' id (hd ▸ hid) (hd ▸ hid')
  · exact hr (h.returned r id (hd ▸ hid))
  · rw [hs] at hu
    rw [hd]
    by_cases hut : u = t
    · subst hut
      rw [Function.update_self] at hu
      rcases hfs r id hu with hold | hnew
      · exact ⟨(h.disposing u r id hold).1, hdis (h.disposing u r id hold).2⟩
      · exact hnew
    · rw [Function.update_of_ne hut] at hu
      exact ⟨(h.disposing u r id hu).1, hdis (h.disposing u r id hu).2⟩

omit [DecidableEq T] in
/-- `Register` returns `[]{}` for a callback that has no id. -/
theorem keep_none {r : ℕ} (h : TokenIds s) (hr : r ∉ s.returned) :
    Function.update s.disposeActions r none = s.disposeActions := by
  have hnone : s.disposeActions r = none := by
    by_contra hne
    obtain ⟨id, hid⟩ := Option.ne_none_iff_exists'.mp hne
    exact hr (h.returned r id hid)
  rw [← hnone, Function.update_eq_self]

theorem push {r : ℕ} (h : TokenIds s) (hr : r ∉ s.returned)
    (hst : s.stack t = .registerPush r :: fs) :
    TokenIds { s.registerReturn t fs r (some (s.cts.cancellationActionCounter + 1)) with
      cts := (s.cts.pushAction r).2, cancelActionsMutex := none } := by
  have hne : ∀ r' id, s.disposeActions r' = some id → r' ≠ r := by
    rintro r' id hid rfl
    exact hr (h.returned r' id hid)
  have hcases : ∀ r' id, Function.update s.disposeActions r
      (some (s.cts.cancellationActionCounter + 1)) r' = some id →
      r' = r ∧ id = s.cts.cancellationActionCounter + 1 ∨ s.disposeActions r' = some id := by
    intro r' id hid
    by_cases hr' : r' = r
    · rw [hr', Function.update_self] at hid
      cases hid
      exact .inl ⟨hr', rfl⟩
    · rw [Function.update_of_ne hr'] at hid
      exact .inr hid
  refine ⟨fun p hp => ?_, fun r' id hid => ?_, fun r₁ r₂ id hid₁ hid₂ => ?_, fun r' id hid => ?_,
    fun u r' id hu => ?_⟩
  · simp only [CtsSharedState.pushAction, List.mem_append, List.mem_singleton] at hp
    rcases hp with hp | rfl
    · have hid := h.entries p hp
      exact (Function.update_of_ne (hne _ _ hid) _ _).trans hid
    · exact Function.update_self _ _ _
  · show id ≤ s.cts.cancellationActionCounter + 1
    rcases hcases r' id hid with ⟨-, rfl⟩ | hid
    · exact le_rfl
    · have := h.bound r' id hid
      omega
  · rcases hcases r₁ id hid₁ with ⟨rfl, rfl⟩ | h₁ <;> rcases hcases r₂ _ hid₂ with ⟨rfl, h₂⟩ | h₂
    · rfl
    · have := h.bound r₂ _ h₂
      omega
    · have := h.bound r₁ _ h₁
      omega
    · exact h.inj r₁ r₂ _ h₁ h₂
  · rcases hcases r' id hid with ⟨rfl, -⟩ | hid
    · exact List.mem_append_right _ (List.mem_singleton_self _)
    · exact List.mem_append_left _ (h.returned r' id hid)
  · have hu' : .disposeLock r' id ∈ s.stack u := by
      by_cases hut : u = t
      · subst hut
        rw [hst]
        exact List.mem_cons_of_mem _ (by simpa using hu)
      · simpa [Function.update_of_ne hut] using hu
    obtain ⟨hid, hdis⟩ := h.disposing u r' id hu'
    exact ⟨(Function.update_of_ne (hne r' id hid) _ _).trans hid, hdis⟩

theorem step [Fintype T] (h : TokenIds s) (hc : TokenCounts s) (hs : TokenStep s a s') :
    TokenIds s' := by
  have htail : ∀ {t frame fs}, s.stack t = frame :: fs → ∀ r id, .disposeLock r id ∈ fs →
      .disposeLock r id ∈ s.stack t := by
    intro t frame fs hst r id hm
    rw [hst]
    exact List.mem_cons_of_mem _ hm
  cases hs with
  | disposeEmpty => exact h
  | moveConstruct | moveAssign => exact ⟨h.entries, h.bound, h.inj, h.returned, h.disposing⟩
  | @disposeNothing t o r ho hr =>
    exact ⟨h.entries, h.bound, h.inj, h.returned, fun u r' id hu =>
      ⟨(h.disposing u r' id hu).1, List.mem_append_left _ (h.disposing u r' id hu).2⟩⟩
  | @register t | @cancel t =>
    exact h.keep (t := t) rfl (fun r id hm => .inl (by simpa using hm)) (fun _ hp => hp) rfl rfl
      (fun _ hr => hr) (fun _ hr => hr)
  | @registerNull t =>
    have hr : s.registered ∉ s.returned := by
      intro hr
      have hsum := hc.returned s.registered
      have hpos := List.count_pos_iff.mpr hr
      rw [made, if_neg (lt_irrefl _)] at hsum
      omega
    exact h.keep (t := t) rfl (fun r id hm => .inl hm) (fun _ hp => hp) rfl (h.keep_none hr)
      (fun _ hr => List.mem_append_left _ hr) (fun _ hr => hr)
  | @disposeRemove t o r id ho hr =>
    refine h.keep (t := t) rfl (fun r' id' hm => ?_) (fun _ hp => hp) rfl rfl (fun _ hr => hr)
      (fun _ hr => List.mem_append_left _ hr)
    rcases List.mem_cons.mp hm with heq | hm
    · cases heq
      exact .inr ⟨hr, List.mem_append_right _ (List.mem_singleton_self _)⟩
    · exact .inl hm
  | @endRegister t _ r _ hst =>
    exact h.keep (t := t) rfl (fun r id hm => .inl (htail hst r id hm)) (fun _ hp => hp) rfl
      (h.keep_none (hc.not_returned hst (if_pos rfl))) (fun _ hr => List.mem_append_left _ hr)
      (fun _ hr => hr)
  | @registerPush t r fs hst => exact h.push (hc.not_returned hst (if_pos rfl)) hst
  | @cancelLock t fs hst =>
    exact h.keep (t := t) rfl (fun r id hm => .inl (htail hst r id (by simpa using hm))) nofun rfl
      rfl (fun _ hr => hr) (fun _ hr => hr)
  | @disposeRun t r id fs hst =>
    exact h.keep (t := t) rfl (fun r id hm => .inl (htail hst r id hm))
      (fun _ hp => CtsSharedState.mem_removeCancellation hp) rfl rfl (fun _ hr => hr)
      (fun _ hr => hr)
  | @registerLock t _ _ hst | @registerRun t _ _ hst | @registerKeep t _ _ hst
  | @exchangeWin t _ hst | @exchangeLose t _ hst | @cancelReturn t _ hst
  | @cancelRun t _ _ _ hst | @endCancel t _ _ _ _ hst =>
    exact h.keep (t := t) rfl (fun r id hm => .inl (htail hst r id (by simpa using hm)))
      (fun _ hp => hp) rfl rfl (fun _ hr => hr) (fun _ hr => hr)

omit [DecidableEq T] in
/-- `RemoveCancellation` takes away the entry of its registration, and no other. -/
theorem removeCancellation_eq (h : TokenIds s) {r : ℕ} {id : ℤ}
    (hr : s.disposeActions r = some id) :
    (s.cts.removeCancellation id).cancelActions =
      s.cts.cancelActions.filter fun p => p.2 ≠ r := by
  refine List.filter_congr fun p hp =>
    decide_eq_decide.mpr (not_congr ⟨fun hid => ?_, fun hr' => ?_⟩)
  · exact h.inj _ _ id (hid ▸ h.entries p hp) hr
  · have hp' := h.entries p hp
    rw [hr', hr] at hp'
    exact (Option.some.inj hp').symm

end TokenIds

/-! ## Where a callback is -/

/-- A callback is in one place at most, and exactly in one until its registration is
    disposed. What the winning `Cancel` has moved out is everything there will ever be. -/
structure TokenPlaces [Fintype T] (s : TokenSystem ε T) : Prop where
  le : ∀ r, s.due r ≤ 1
  kept : ∀ r ∈ s.actions, r ∉ s.disposed → s.due r = 1
  fresh : ∀ r, s.registered ≤ r → s.due r = 0
  moved : s.handedOver = true → s.cts.cancelActions = [] ∧ s.load CtsFrame.pushes = 0
  requested : s.begun ≠ [] → s.cts.isCanceled = true
  returns : ∀ o ∈ s.callLog, o = .ok ()

namespace TokenPlaces

variable [Fintype T] [DecidableEq T] {s s' : TokenSystem ε T} {a : TokenLabel ε T} {t : T}
  {fs : List CtsFrame}

/-- A thread goes from the calls `s.stack t` to `fs`, and callback `r` enters `d` places and
    leaves `d'`. -/
theorem due_move (r d d' : ℕ) (hs : s'.stack = Function.update s.stack t fs)
    (h : stackWeight (CtsFrame.owes r) fs + (s'.cts.cancelActions.map Prod.snd).count r +
        s'.begun.count r + d' =
      stackWeight (CtsFrame.owes r) (s.stack t) + (s.cts.cancelActions.map Prod.snd).count r +
        s.begun.count r + d) : s'.due r + d' = s.due r + d := by
  have hload := load_goto (CtsFrame.owes r) hs
  unfold due
  omega

theorem count_filter_ne {r r₀ : ℕ} (h : r ≠ r₀) (l : List (ℤ × ℕ)) :
    ((l.filter fun p => p.2 ≠ r₀).map Prod.snd).count r = (l.map Prod.snd).count r := by
  induction l with
  | nil => rfl
  | cons p l ih =>
    rw [List.filter_cons]
    split
    · rw [List.map_cons, List.map_cons, List.count_cons, List.count_cons, ih]
    · rename_i hp
      have hne : p.2 ≠ r := by
        rintro rfl
        exact hp (decide_eq_true h)
      rw [List.map_cons, List.count_cons_of_ne hne, ih]

attribute [local simp] CtsFrame.owes CtsFrame.pushes List.count_singleton List.count_cons

/-- A step puts a new callback into one place, or moves callbacks from place to place, or
    takes away one whose registration is disposed and has an entry to remove. -/
theorem due_step (hi : TokenIds s) (hs : TokenStep s a s') :
    (s'.actions = s.actions ++ [s.registered] ∧ s'.registered = s.registered + 1 ∧
      ∀ r, s'.due r = s.due r + if s.registered = r then 1 else 0) ∨
    (s'.actions = s.actions ∧ s.registered ≤ s'.registered ∧
      ∀ r, s'.due r = s.due r ∨ r ∈ s.disposed ∧ s'.due r ≤ s.due r ∧
        s.cts.cancelActions ≠ [] ∧ ∃ t id, .disposeLock r id ∈ s.stack t) := by
  cases hs with
  | disposeEmpty | disposeNothing | moveConstruct | moveAssign =>
    exact .inr ⟨rfl, le_rfl, fun _ => .inl rfl⟩
  | @register t hcall =>
    refine .inl ⟨rfl, rfl, fun r => due_move r _ 0 (t := t) rfl ?_⟩
    simp
    omega
  | @registerNull t =>
    refine .inr ⟨rfl, Nat.le_succ _, fun r => .inl (due_move r 0 0 (t := t) rfl ?_)⟩
    simp
  | @cancel t | @disposeRemove t =>
    refine .inr ⟨rfl, le_rfl, fun r => .inl (due_move r 0 0 (t := t) rfl ?_)⟩
    simp
  | @endRegister t _ _ _ hst | @endCancel t _ _ _ _ hst | @registerLock t _ _ hst
  | @registerKeep t _ _ hst | @exchangeWin t _ hst | @exchangeLose t _ hst
  | @cancelReturn t _ hst =>
    refine .inr ⟨rfl, le_rfl, fun r => .inl (due_move r 0 0 (t := t) rfl ?_)⟩
    simp [hst]
  | @registerRun t _ _ hst | @cancelLock t _ hst | @cancelRun t _ _ _ hst =>
    refine .inr ⟨rfl, le_rfl, fun r => .inl (due_move r 0 0 (t := t) rfl ?_)⟩
    simp [hst]
    omega
  | @registerPush t _ _ hst =>
    refine .inr ⟨rfl, le_rfl, fun r => .inl (due_move r 0 0 (t := t) rfl ?_)⟩
    simp [hst, CtsSharedState.pushAction]
    omega
  | @disposeRun t r₀ id fs hst hm =>
    have hframe : .disposeLock r₀ id ∈ s.stack t := by
      rw [hst]
      exact List.mem_cons_self
    obtain ⟨hid, hdis⟩ := hi.disposing t r₀ id hframe
    have hcts := hi.removeCancellation_eq hid
    refine .inr ⟨rfl, le_rfl, fun r => ?_⟩
    have hsub := (List.filter_sublist (p := fun p => p.2 ≠ r₀) (l := s.cts.cancelActions)).map
      Prod.snd |>.count_le r
    have hmove : ({ s.goto t fs with
          cts := s.cts.removeCancellation id
          disposeReturned := s.disposeReturned ++ [r₀] } : TokenSystem ε T).due r +
        (s.cts.cancelActions.map Prod.snd).count r =
          s.due r + ((s.cts.removeCancellation id).cancelActions.map Prod.snd).count r :=
      due_move r _ _ (show _ = Function.update s.stack t fs from rfl) (by simp [hst]; omega)
    rw [← hcts] at hsub
    by_cases hr : r = r₀
    · subst hr
      by_cases hempty : s.cts.cancelActions = []
      · have hnone : (s.cts.cancelActions.map Prod.snd).count r = 0 := by rw [hempty]; rfl
        exact .inl (by omega)
      · exact .inr ⟨hdis, by omega, hempty, t, id, hframe⟩
    · have hcount := count_filter_ne hr s.cts.cancelActions
      rw [← hcts] at hcount
      exact .inl (by omega)

theorem pushes_move (hs : s'.stack = Function.update s.stack t fs)
    (hw : stackWeight CtsFrame.pushes fs ≤ stackWeight CtsFrame.pushes (s.stack t))
    (h : s.load CtsFrame.pushes = 0) : s'.load CtsFrame.pushes = 0 := by
  have hload := load_goto CtsFrame.pushes hs
  omega

omit [DecidableEq T] in
/-- While nobody owns the mutex, no call is about to push. -/
theorem pushes_eq_zero (hc : TokenCounts s) (hm : s.cancelActionsMutex = none) :
    s.load CtsFrame.pushes = 0 := by
  have hholds := hc.mutex
  rw [hm, owned_none] at hholds
  refine Nat.eq_zero_of_le_zero (hholds ▸ Finset.sum_le_sum fun _ _ => ?_)
  exact List.sum_le_sum fun frame _ => by cases frame <;> first | exact le_rfl | exact Nat.zero_le _

/-- Once the winning `Cancel` has moved the callbacks out, none is pushed. -/
theorem moved_step (h : TokenPlaces s) (hc : TokenCounts s) (hs : TokenStep s a s')
    (hm : s'.handedOver = true) :
    s'.cts.cancelActions = [] ∧ s'.load CtsFrame.pushes = 0 := by
  cases hs with
  | disposeEmpty | disposeNothing | moveConstruct | moveAssign => exact h.moved hm
  | @register t | @registerNull t | @cancel t | @disposeRemove t =>
    exact ⟨(h.moved hm).1, pushes_move (t := t) rfl (by simp) (h.moved hm).2⟩
  | @endRegister t _ _ _ hst | @endCancel t _ _ _ _ hst | @registerLock t _ _ hst
  | @registerRun t _ _ hst | @exchangeWin t _ hst | @exchangeLose t _ hst | @cancelReturn t _ hst
  | @cancelRun t _ _ _ hst =>
    exact ⟨(h.moved hm).1, pushes_move (t := t) rfl (by simp [hst]) (h.moved hm).2⟩
  | @registerKeep t _ _ hst hcan =>
    have hsum := hc.handedOver
    rw [show s.handedOver = true from hm, hcan, Bool.toNat_true, Bool.toNat_false] at hsum
    omega
  | @registerPush t _ _ hst =>
    have hle := le_load CtsFrame.pushes hst
    rw [(h.moved hm).2] at hle
    exact absurd hle (Nat.not_succ_le_zero 0)
  | @cancelLock t _ hst hfree =>
    exact ⟨rfl, pushes_move (t := t) rfl (by simp [hst]) (pushes_eq_zero hc hfree)⟩
  | @disposeRun t _ id _ hst =>
    refine ⟨?_, pushes_move (t := t) rfl (by simp [hst]) (h.moved hm).2⟩
    simp [CtsSharedState.removeCancellation, (h.moved hm).1]

/-- What a step adds to the history. -/
theorem history_step (h : TokenPlaces s) (hc : TokenCounts s) (hs : TokenStep s a s') :
    (s'.begun ≠ [] → s'.cts.isCanceled = true) ∧ (∀ o ∈ s'.callLog, o = .ok ()) := by
  have hlog : ∀ o ∈ s.callLog ++ [.ok ()], o = .ok () := by
    intro o ho
    rcases List.mem_append.mp ho with ho | ho
    · exact h.returns o ho
    · exact List.mem_singleton.mp ho
  cases hs with
  | disposeEmpty | disposeNothing | moveConstruct | moveAssign | register | cancel | disposeRemove
  | registerLock | registerKeep | cancelLock | endCancel | disposeRun =>
    exact ⟨h.requested, h.returns⟩
  | registerNull | endRegister | registerPush | exchangeLose | cancelReturn =>
    exact ⟨h.requested, hlog⟩
  | registerRun hst hcan => exact ⟨fun _ => hcan, h.returns⟩
  | exchangeWin => exact ⟨fun _ => rfl, h.returns⟩
  | cancelRun hst => exact ⟨fun _ => (hc.canceled_of_wins hst rfl).2, h.returns⟩

omit [Fintype T] in
theorem disposed_subset (hs : TokenStep s a s') : s.disposed ⊆ s'.disposed := by
  cases hs with
  | disposeNothing | disposeRemove => exact fun _ hr => List.mem_append_left _ hr
  | _ => exact fun _ hr => hr

theorem step (h : TokenPlaces s) (hc : TokenCounts s) (hi : TokenIds s) (hs : TokenStep s a s') :
    TokenPlaces s' := by
  obtain ⟨hrequested, hreturns⟩ := h.history_step hc hs
  have hdisposed := disposed_subset hs
  rcases due_step hi hs with ⟨hactions, hreg, hdue⟩ | ⟨hactions, hreg, hdue⟩
  · have hnew := h.fresh s.registered le_rfl
    refine ⟨fun r => ?_, fun r hr hd => ?_, fun r hr => ?_, h.moved_step hc hs, hrequested,
      hreturns⟩
    · have hle := h.le r
      rw [hdue r]
      split
      · rename_i heq
        subst heq
        omega
      · exact hle
    · rw [hactions, List.mem_append, List.mem_singleton] at hr
      rw [hdue r]
      by_cases heq : s.registered = r
      · rw [if_pos heq, ← heq, hnew]
      · rw [if_neg heq]
        exact h.kept r (hr.resolve_right (Ne.symm heq)) fun hd' => hd (hdisposed hd')
    · have hne : s.registered ≠ r := by omega
      rw [hdue r, if_neg hne]
      exact h.fresh r (by omega)
  · refine ⟨fun r => ?_, fun r hr hd => ?_, fun r hr => ?_, h.moved_step hc hs, hrequested,
      hreturns⟩
    · have hle := h.le r
      rcases hdue r with heq | ⟨-, hle', -⟩ <;> omega
    · rw [hactions] at hr
      have hd' : r ∉ s.disposed := fun hd' => hd (hdisposed hd')
      have hkept := h.kept r hr hd'
      rcases hdue r with heq | ⟨hmem, -⟩
      · rw [heq, hkept]
      · exact absurd hmem hd'
    · have hfresh := h.fresh r (by omega)
      rcases hdue r with heq | ⟨-, hle', -⟩ <;> omega

end TokenPlaces

/-- What holds in every state of a token. -/
structure TokenInv [Fintype T] (s : TokenSystem ε T) : Prop where
  counts : TokenCounts s
  ids : TokenIds s
  places : TokenPlaces s

theorem TokenInv.step [Fintype T] [DecidableEq T] {s s' : TokenSystem ε T} {a : TokenLabel ε T}
    (h : TokenInv s) (hs : s.step a = some s') : TokenInv s' :=
  have hstep := step_cases hs
  ⟨h.counts.step hstep, h.ids.step h.counts hstep, h.places.step h.counts h.ids hstep⟩

theorem load_init [Fintype T] (f : CtsFrame → ℕ) : ({} : TokenSystem ε T).load f = 0 :=
  tally_const rfl

theorem TokenInv.init [Fintype T] : TokenInv ({} : TokenSystem ε T) := by
  have hdue : ∀ r, ({} : TokenSystem ε T).due r = 0 := fun r => by
    unfold due
    rw [load_init]
    rfl
  refine ⟨⟨fun r => (Nat.zero_add _).trans (load_init _), fun r => ?_, load_init _, load_init _,
      load_init _⟩,
    ⟨nofun, nofun, nofun, nofun, nofun⟩,
    ⟨fun r => by rw [hdue]; exact Nat.zero_le 1, nofun, fun r _ => hdue r, nofun,
      fun h => absurd rfl h, nofun⟩⟩
  rw [load_init, made, if_neg (Nat.not_lt_zero r)]
  rfl

theorem reachable_tokenInv [Fintype T] [DecidableEq T] {G} {s : TokenSystem ε T}
    (h : (tokenMachine ε T).Reachable G s) : TokenInv s :=
  h.invariant .init fun _ _ _ hi _ hs => hi.step hs

/-! ## The counter -/

/-- Where an id is given, a `Register` call returns. -/
theorem TokenStep.counter_le [DecidableEq T] {s s' : TokenSystem ε T} {a : TokenLabel ε T}
    (h : TokenStep s a s') (hs : 0 ≤ s.cts.cancellationActionCounter ∧
      s.cts.cancellationActionCounter ≤ s.returned.length) :
    0 ≤ s'.cts.cancellationActionCounter ∧
      s'.cts.cancellationActionCounter ≤ s'.returned.length := by
  obtain ⟨h0, hle⟩ := hs
  cases h with
  | registerNull | endRegister | registerPush =>
    simp only [registerReturn, leave, goto, CtsSharedState.pushAction, List.length_append,
      List.length_singleton]
    omega
  | _ => exact ⟨h0, hle⟩

/-- `_cancellationActionCounter` is at most the number of `Register` calls: as an `int` it does
    not overflow in a run with at most `INT_MAX` of them. -/
theorem cancellationActionCounter_le [Fintype T] [DecidableEq T] {G} {s : TokenSystem ε T}
    (h : (tokenMachine ε T).Reachable G s) :
    0 ≤ s.cts.cancellationActionCounter ∧ s.cts.cancellationActionCounter ≤ s.registered := by
  have hcounter := h.invariant (I := fun s => 0 ≤ s.cts.cancellationActionCounter ∧
      s.cts.cancellationActionCounter ≤ s.returned.length) ⟨le_rfl, le_rfl⟩
    fun _ _ _ hi _ hs => (TokenSystem.step_cases hs).counter_le hi
  have hcounts := (reachable_tokenInv h).counts.returned
  have hnodup : s.returned.Nodup := by
    refine List.nodup_iff_count_le_one.mpr fun r => ?_
    have hr := hcounts r
    unfold made at hr
    split at hr <;> omega
  have hsub : s.returned ⊆ List.range s.registered := by
    intro r hr
    have hpos := List.count_pos_iff.mpr hr
    have hsum := hcounts r
    unfold made at hsum
    split at hsum
    · exact List.mem_range.mpr ‹_›
    · omega
  have hlen := (hnodup.subperm hsub).length_le
  rw [List.length_range] at hlen
  omega

/-! ## Exactly once -/

section Once

variable [Fintype T] {s : TokenSystem ε T} {f : CtsFrame → ℕ}

theorem eq_zero_of_load (h : s.load f = 0) {t : T} {frame : CtsFrame} (hm : frame ∈ s.stack t) :
    f frame = 0 :=
  List.sum_eq_zero_iff.mp (eq_zero_of_tally h t) _ (List.mem_map_of_mem hm)

theorem load_eq_zero (h : ∀ t, ∀ frame ∈ s.stack t, f frame = 0) : s.load f = 0 := by
  refine tally_eq_zero fun t => List.sum_eq_zero fun x hx => ?_
  obtain ⟨frame, hm, rfl⟩ := List.mem_map.mp hx
  exact h t frame hm

namespace TokenInv

/-- Once the winning `Cancel` has returned nothing is left in its hands. -/
theorem winner_done (h : TokenInv s) (hw : s.winnerReturned = true) :
    s.load CtsFrame.wins = 0 ∧ s.handedOver = true := by
  have hwinner := h.counts.winner
  have hhanded := h.counts.handedOver
  have hcan := Bool.toNat_le s.cts.isCanceled
  rw [hw, Bool.toNat_true] at hwinner
  have hwins : s.load CtsFrame.wins = 0 := by omega
  have hwaits : s.load CtsFrame.waits = 0 := by
    refine load_eq_zero fun t frame hm => ?_
    have hzero := eq_zero_of_load hwins hm
    cases frame <;> first | rfl | cases hzero
  refine ⟨hwins, ?_⟩
  cases hh : s.handedOver
  · rw [hh, hwaits, Bool.toNat_false] at hhanded
    omega
  · rfl

/-- Once its `Register` and the winning `Cancel` have returned, no call is going to run
    callback `r` and none is running it. -/
theorem idle (h : TokenInv s) {r : ℕ} (hr : r ∈ s.returned) (hw : s.winnerReturned = true) :
    s.load (CtsFrame.owes r) = 0 ∧ s.load (CtsFrame.runs r) = 0 := by
  obtain ⟨hwins, -⟩ := h.winner_done hw
  have hregisters : s.load (CtsFrame.registers r) = 0 := by
    have hsum := h.counts.returned r
    have hpos := List.count_pos_iff.mpr hr
    simp only [made] at hsum
    split at hsum <;> omega
  refine ⟨load_eq_zero fun t frame hm => ?_, load_eq_zero fun t frame hm => ?_⟩
  all_goals
    have hwin := eq_zero_of_load hwins hm
    have hreg := eq_zero_of_load hregisters hm
    cases frame <;> first | rfl | exact hreg | cases hwin

/-- A callback that is in one place has run, once its `Register` and the winning `Cancel` have
    returned. -/
theorem ended_of_due (h : TokenInv s) {r : ℕ} (hdue : s.due r = 1) (hr : r ∈ s.returned)
    (hw : s.winnerReturned = true) : s.ended.count r = 1 := by
  obtain ⟨howes, hruns⟩ := h.idle hr hw
  have hempty := (h.places.moved (h.winner_done hw).2).1
  have hended := h.counts.ended r
  rw [due, howes, hempty] at hdue
  simp only [List.map_nil, List.count_nil] at hdue
  omega

theorem begun_le (h : TokenInv s) (r : ℕ) : s.begun.count r ≤ 1 := by
  have hle := h.places.le r
  unfold due at hle
  omega

end TokenInv

/-- In every run: no callback begins twice; a callback whose registration is not disposed has
    run exactly once when its `Register` and the winning `Cancel` have returned; none begins
    before cancellation is requested; no call of `Register` or `Cancel` ends with an
    exception; and whatever a callback ends with, its caller goes on in the same way. -/
theorem cancel_actions_run_once [DecidableEq T]
    (h : (tokenMachine ε T).Reachable Machine.Any s) :
    (∀ r, s.begun.count r ≤ 1) ∧
    (∀ r ∈ s.actions, r ∉ s.disposed → r ∈ s.returned → s.winnerReturned = true →
      s.ended.count r = 1) ∧
    (s.begun ≠ [] → s.cts.isCanceled = true) ∧
    (∀ o ∈ s.callLog, o = .ok ()) ∧
    (∀ t o o', s.step (.endAction t o) = s.step (.endAction t o')) := by
  have hi := reachable_tokenInv h
  refine ⟨hi.begun_le, fun r ha hd hr hw => hi.ended_of_due (hi.places.kept r ha hd) hr hw,
    hi.places.requested,
    hi.places.returns, fun t o o' => ?_⟩
  simp only [TokenSystem.step, TokenSystem.endAction, runCancelAction_eq]

/-- Callback 0 is pushed before the exchange, callback 1 by a `Register` that saw the token
    before it, and callback 2 runs inside its `Register`. The first and the last throw. -/
theorem cancel_actions_run_once_three :
    ∃ s : TokenSystem Empty (Fin 3), (tokenMachine Empty (Fin 3)).Reachable Machine.Any s ∧
      s.begun = [2, 0, 1] ∧ ∀ r < 3, s.ended.count r = 1 := by
  obtain ⟨s, hrun, hbegun, hactions, hdisposed, hreturned, hwinner⟩ :
      ∃ s : TokenSystem Empty (Fin 3), (tokenMachine Empty (Fin 3)).run {}
        [.register 1 true, .run 1, .run 1, .run 1, .register 2 true, .run 2, .run 2, .cancel 0,
          .run 0, .run 2, .register 1 true, .run 1, .run 1, .endAction 1 (.error .semaphoreFull),
          .run 0, .run 0, .endAction 0 (.error .semaphoreFull), .run 0, .endAction 0 (.ok ()),
          .run 0] = some s ∧
        s.begun = [2, 0, 1] ∧ s.actions = [0, 1, 2] ∧ s.disposed = [] ∧ s.returned = [0, 1, 2] ∧
        s.winnerReturned = true :=
    ⟨_, rfl, rfl, rfl, rfl, rfl, rfl⟩
  have honce := (cancel_actions_run_once (.of_run hrun)).2.1
  rw [hactions, hdisposed, hreturned] at honce
  refine ⟨s, .of_run hrun, hbegun, fun r hr => honce r ?_ List.not_mem_nil ?_ hwinner⟩
  all_goals
    simp only [List.mem_cons, List.not_mem_nil, or_false]
    omega

end Once

end AsyncCpp.AsyncPrimitives
