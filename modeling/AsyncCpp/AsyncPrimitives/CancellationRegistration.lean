import AsyncCpp.AsyncPrimitives.CancelActions

/-!
# Disposed registrations

`Dispose()` removes the callback's entry from `_cancelActions`. Once the winning `Cancel` has
moved the entries out of `_cancelActions` there is nothing to remove: `Dispose()` returns, and
the callback runs when its turn comes, also where `Dispose()` is called by another callback
of the same collection.

Results:
* `disposed_stays_silent`: in the runs in which no `Dispose()` finds its callback moved out
  and not begun, the callback of a disposed registration never begins unless it has begun
  before `Dispose()` returned; and in every run a `Dispose()` leaves the callbacks of all
  other registrations where they are.
* `not_disposed_stays_silent`: the run without the condition.
-/

namespace AsyncCpp.AsyncPrimitives

open Interleaving TokenSystem

variable {ε T : Type*}

/-- The callbacks a call of `Cancel` has moved out and not begun. -/
def CtsFrame.movedOut : CtsFrame → List ℕ
  | cancelLoop rs | cancelAction _ rs => rs
  | _ => []

/-- `RemoveCancellation` of registration `r` is not entered while a `Cancel` has moved its
    callback out and not begun it. -/
def DisposeGuard (s : TokenSystem ε T) (a : TokenLabel ε T) : Prop :=
  ∀ t r id fs, a = .run t → s.stack t = .disposeLock r id :: fs →
    ∀ u, ∀ frame ∈ s.stack u, r ∉ frame.movedOut

/-- From `s` to `s'` at most the entry of registration `r` is removed: no callback begins or
    ends, and no call has other callbacks in its hands. -/
structure OnlyRemoves (r : ℕ) (s s' : TokenSystem ε T) : Prop where
  entries : (s'.cts.cancelActions.filter fun p => p.2 ≠ r) =
    s.cts.cancelActions.filter fun p => p.2 ≠ r
  isCanceled : s'.cts.isCanceled = s.cts.isCanceled
  begun : s'.begun = s.begun
  ended : s'.ended = s.ended
  mutex : s'.cancelActionsMutex = s.cancelActionsMutex
  calls : ∀ r' u, stackWeight (CtsFrame.owes r') (s'.stack u) =
    stackWeight (CtsFrame.owes r') (s.stack u)

section Dispose

variable [DecidableEq T] {s s' : TokenSystem ε T} {t : T} {o r : ℕ}

/-- `Dispose()` up to the mutex. -/
theorem onlyRemoves_dispose (ho : s.objects o = some r) : OnlyRemoves r s (s.dispose t o) := by
  unfold dispose
  rw [ho]
  dsimp only
  split
  · exact ⟨rfl, rfl, rfl, rfl, rfl, fun _ _ => rfl⟩
  · refine ⟨rfl, rfl, rfl, rfl, rfl, fun r' u => ?_⟩
    by_cases hu : u = t
    · subst hu
      simp [CtsFrame.owes]
    · simp [Function.update_of_ne hu]

/-- `RemoveCancellation`. -/
theorem onlyRemoves_run (hi : TokenIds s) {id : ℤ} {fs : List CtsFrame}
    (hst : s.stack t = .disposeLock r id :: fs) (hs : s.run t = some s') : OnlyRemoves r s s' := by
  have hframe : .disposeLock r id ∈ s.stack t := by
    rw [hst]
    exact List.mem_cons_self
  have hcts := hi.removeCancellation_eq (hi.disposing t r id hframe).1
  simp only [TokenSystem.run, hst] at hs
  split at hs <;> cases hs
  refine ⟨?_, rfl, rfl, rfl, rfl, fun r' u => ?_⟩
  · show ((s.cts.removeCancellation id).cancelActions.filter fun p => p.2 ≠ r) = _
    rw [hcts, List.filter_filter]
    simp
  · by_cases hu : u = t
    · subst hu
      simp [hst, CtsFrame.owes]
    · simp [Function.update_of_ne hu]

end Dispose

/-! ## The invariant -/

/-- A disposed callback has begun, or is nowhere. -/
structure SilentInv [Fintype T] (s : TokenSystem ε T) : Prop where
  objects : ∀ o r, s.objects o = some r → r ∈ s.returned
  without : ∀ r ∈ s.returned, s.disposeActions r = none → r ∈ s.begun ∨ s.due r = 0
  silent : ∀ r ∈ s.disposeReturned, r ∈ s.returned ∧ (r ∈ s.begun ∨ s.due r = 0)

namespace SilentInv

variable [Fintype T] [DecidableEq T] {s s' : TokenSystem ε T} {a : TokenLabel ε T} {t : T}
  {r : ℕ}

omit [DecidableEq T] in
theorem lt_registered (hi : TokenInv s) (hr : r ∈ s.returned) : r < s.registered := by
  have hsum := hi.counts.returned r
  have hpos := List.count_pos_iff.mpr hr
  by_contra hge
  rw [made, if_neg hge] at hsum
  omega

/-- A callback that is nowhere does not come back. -/
theorem due_step_eq_zero (hi : TokenInv s) (hs : TokenStep s a s') (hr : r < s.registered)
    (hdue : s.due r = 0) : s'.due r = 0 ∧ r < s'.registered := by
  rcases TokenPlaces.due_step hi.ids hs with ⟨-, hreg, h⟩ | ⟨-, hreg, h⟩
  · have hne : s.registered ≠ r := by omega
    rw [h r, if_neg hne, hreg]
    omega
  · rcases h r with heq | ⟨-, hle, -⟩ <;> omega

omit [Fintype T] in
theorem begun_subset (hs : TokenStep s a s') : s.begun ⊆ s'.begun := by
  cases hs with
  | registerRun | cancelRun => exact fun _ hr => List.mem_append_left _ hr
  | _ => exact fun _ hr => hr

theorem still (hi : TokenInv s) (hs : TokenStep s a s') (hr : r ∈ s.returned)
    (h : r ∈ s.begun ∨ s.due r = 0) : r ∈ s'.begun ∨ s'.due r = 0 := by
  rcases h with hb | hd
  · exact .inl (begun_subset hs hb)
  · exact .inr (due_step_eq_zero hi hs (lt_registered hi hr) hd).1

omit [DecidableEq T] in
/-- A call of `Register` returns. -/
theorem returns {r₀ : ℕ} {disposeAction : Option ℤ} (h : SilentInv s) (hr₀ : r₀ ∉ s.returned)
    (hobjects : s'.objects = Function.update s.objects s.constructed (some r₀))
    (hreturned : s'.returned = s.returned ++ [r₀])
    (hdispose : s'.disposeActions = Function.update s.disposeActions r₀ disposeAction)
    (hdisposed : s'.disposeReturned = s.disposeReturned)
    (hstill : ∀ r ∈ s.returned, r ∈ s.begun ∨ s.due r = 0 → r ∈ s'.begun ∨ s'.due r = 0)
    (hnew : disposeAction = none → r₀ ∈ s'.begun ∨ s'.due r₀ = 0) : SilentInv s' := by
  have hkeep : ∀ r ∈ s.returned, r ∈ s'.returned := fun r hr => by
    rw [hreturned]
    exact List.mem_append_left _ hr
  refine ⟨fun o r ho => ?_, fun r hr hn => ?_, fun r hr => ?_⟩
  · rw [hobjects] at ho
    by_cases hoc : o = s.constructed
    · rw [hoc, Function.update_self] at ho
      cases ho
      rw [hreturned]
      exact List.mem_append_right _ (List.mem_singleton_self _)
    · rw [Function.update_of_ne hoc] at ho
      exact hkeep r (h.objects o r ho)
  · rw [hreturned, List.mem_append, List.mem_singleton] at hr
    rw [hdispose] at hn
    by_cases hrr : r = r₀
    · subst hrr
      rw [Function.update_self] at hn
      exact hnew hn
    · rw [Function.update_of_ne hrr] at hn
      have hr := hr.resolve_right hrr
      exact hstill r hr (h.without r hr hn)
  · rw [hdisposed] at hr
    obtain ⟨hret, hsilent⟩ := h.silent r hr
    exact ⟨hkeep r hret, hstill r hret hsilent⟩

omit [DecidableEq T] in
/-- The objects that hold a `_disposeAction` exchange it. -/
theorem moves (h : SilentInv s)
    (hobjects : ∀ o r, s'.objects o = some r → ∃ o', s.objects o' = some r)
    (hreturned : s'.returned = s.returned) (hdispose : s'.disposeActions = s.disposeActions)
    (hdisposed : s'.disposeReturned = s.disposeReturned) (hbegun : s'.begun = s.begun)
    (hdue : s'.due = s.due) : SilentInv s' := by
  refine ⟨fun o r ho => ?_, ?_, ?_⟩
  · obtain ⟨o', ho'⟩ := hobjects o r ho
    rw [hreturned]
    exact h.objects o' r ho'
  · rw [hreturned, hdispose, hbegun, hdue]
    exact h.without
  · rw [hreturned, hdisposed, hbegun, hdue]
    exact h.silent

/-- `RemoveCancellation`, entered under the guard, leaves the callback nowhere unless it has
    begun. -/
theorem disposeRun (hi : TokenInv s) (hg : DisposeGuard s (.run t)) {r₀ : ℕ} {id : ℤ}
    {fs : List CtsFrame} (hst : s.stack t = .disposeLock r₀ id :: fs)
    (hb : r₀ ∉ s.begun) :
    ({ s.goto t fs with
      cts := s.cts.removeCancellation id, disposeReturned := s.disposeReturned ++ [r₀] } :
        TokenSystem ε T).due r₀ = 0 := by
  have hframe : .disposeLock r₀ id ∈ s.stack t := by
    rw [hst]
    exact List.mem_cons_self
  have hid := (hi.ids.disposing t r₀ id hframe).1
  have hregisters : s.load (CtsFrame.registers r₀) = 0 := by
    have hsum := hi.counts.returned r₀
    have hpos := List.count_pos_iff.mpr (hi.ids.returned r₀ id hid)
    simp only [made] at hsum
    split at hsum <;> omega
  have howes : s.load (CtsFrame.owes r₀) = 0 := by
    refine load_eq_zero fun u frame hm => ?_
    have hreg := eq_zero_of_load hregisters hm
    have hmoved := hg t r₀ id fs rfl hst u frame hm
    cases frame <;> first | rfl | exact hreg | exact List.count_eq_zero_of_not_mem hmoved
  have hload := load_goto (CtsFrame.owes r₀)
    (show (s.goto t fs).stack = Function.update s.stack t fs from rfl)
  have hentries : ((s.cts.removeCancellation id).cancelActions.map Prod.snd).count r₀ = 0 := by
    rw [hi.ids.removeCancellation_eq hid]
    refine List.count_eq_zero_of_not_mem fun hmem => ?_
    obtain ⟨p, hp, heq⟩ := List.mem_map.mp hmem
    exact of_decide_eq_true (List.mem_filter.mp hp).2 heq
  have hbegun := List.count_eq_zero_of_not_mem hb
  rw [hst, stackWeight_cons] at hload
  show (s.goto t fs).load (CtsFrame.owes r₀) +
    ((s.cts.removeCancellation id).cancelActions.map Prod.snd).count r₀ + s.begun.count r₀ = 0
  simp only [CtsFrame.owes] at hload
  omega

theorem step (h : SilentInv s) (hi : TokenInv s) (hg : DisposeGuard s a)
    (hs : TokenStep s a s') : SilentInv s' := by
  have hstill := fun r => still (r := r) hi hs
  cases hs with
  | disposeEmpty => exact h
  | @register t | @cancel t | @disposeRemove t | @registerLock t | @registerRun t
  | @registerKeep t | @exchangeWin t | @exchangeLose t | @cancelLock t | @cancelReturn t
  | @cancelRun t | @endCancel t =>
    exact ⟨h.objects, fun r hr hn => hstill r hr (h.without r hr hn),
      fun r hr => ⟨(h.silent r hr).1, hstill r (h.silent r hr).1 (h.silent r hr).2⟩⟩
  | @disposeNothing t o r ho hr =>
    refine ⟨h.objects, h.without, fun r' hr' => ?_⟩
    rcases List.mem_append.mp hr' with hr' | hr'
    · exact h.silent r' hr'
    · rw [List.mem_singleton.mp hr']
      exact ⟨h.objects o r ho, h.without r (h.objects o r ho) hr⟩
  | @moveConstruct o =>
    refine h.moves (fun o' r ho => ?_) rfl rfl rfl rfl rfl
    simp only [Function.update_apply] at ho
    split_ifs at ho
    · exact ⟨o, ho⟩
    · exact ⟨o', ho⟩
  | @moveAssign o₁ o₂ =>
    refine h.moves (fun o' r ho => ?_) rfl rfl rfl rfl rfl
    simp only [Function.update_apply] at ho
    split_ifs at ho
    · exact ⟨o₁, ho⟩
    · exact ⟨o₂, ho⟩
    · exact ⟨o', ho⟩
  | @registerNull t =>
    have hr : s.registered ∉ s.returned := fun hr => lt_irrefl _ (lt_registered hi hr)
    refine h.returns hr rfl rfl rfl rfl hstill fun _ => .inr ?_
    have hmove : ({ s.registerReturn t (s.stack t) s.registered none with
        registered := s.registered + 1 } : TokenSystem ε T).due s.registered + 0 =
          s.due s.registered + 0 :=
      TokenPlaces.due_move s.registered 0 0
        (show _ = Function.update s.stack t (s.stack t) from rfl) rfl
    exact hmove.trans (hi.places.fresh s.registered le_rfl)
  | @endRegister t _ r fs hst =>
    refine h.returns (hi.counts.not_returned hst (if_pos rfl)) rfl rfl rfl rfl hstill
      fun _ => .inl ?_
    have hended := hi.counts.ended r
    have hle := le_load (CtsFrame.runs r) hst
    rw [CtsFrame.runs, if_pos rfl] at hle
    have hpos : 0 < s.begun.count r := by omega
    exact List.count_pos_iff.mp hpos
  | @registerPush t r fs hst =>
    exact h.returns (hi.counts.not_returned hst (if_pos rfl)) rfl rfl rfl rfl hstill nofun
  | @disposeRun t r₀ id fs hst hm =>
    have hframe : .disposeLock r₀ id ∈ s.stack t := by
      rw [hst]
      exact List.mem_cons_self
    refine ⟨h.objects, fun r hr hn => hstill r hr (h.without r hr hn), fun r hr => ?_⟩
    rcases List.mem_append.mp hr with hr | hr
    · exact ⟨(h.silent r hr).1, hstill r (h.silent r hr).1 (h.silent r hr).2⟩
    · rw [List.mem_singleton.mp hr]
      refine ⟨hi.ids.returned r₀ id (hi.ids.disposing t r₀ id hframe).1, ?_⟩
      by_cases hb : r₀ ∈ s.begun
      · exact .inl hb
      · exact .inr (disposeRun hi hg hst hb)

end SilentInv

section Silent

variable [Fintype T] [DecidableEq T] {s s' : TokenSystem ε T}

omit [DecidableEq T] in
theorem SilentInv.init : SilentInv ({} : TokenSystem ε T) := ⟨nofun, nofun, nofun⟩

theorem reachable_silentInv (h : (tokenMachine ε T).Reachable DisposeGuard s) : SilentInv s :=
  h.invariant_with (fun _ => reachable_tokenInv) .init
    fun _ _ _ hi h hg hs => h.step hi hg (step_cases hs)

/-- A callback that is nowhere never begins. -/
theorem not_begun_of_due {r : ℕ} (hi : TokenInv s) (hr : r < s.registered) (hdue : s.due r = 0)
    (h : (tokenMachine ε T).Reaches Machine.Any s s') : r ∉ s'.begun := by
  obtain ⟨-, -, hdue'⟩ : TokenInv s' ∧ r < s'.registered ∧ s'.due r = 0 :=
    h.preserves (I := fun u => TokenInv u ∧ r < u.registered ∧ u.due r = 0)
      (fun u a u' hu _ hs =>
        have hstep := SilentInv.due_step_eq_zero hu.1 (step_cases hs) hu.2.1 hu.2.2
        ⟨hu.1.step hs, hstep.2, hstep.1⟩) ⟨hi, hr, hdue⟩
  unfold due at hdue'
  exact List.count_eq_zero.mp (by omega)

/-- In every run in which `RemoveCancellation` is never entered while a `Cancel` has moved the
    callback out and not begun it: once `Dispose()` has returned for a registration whose
    callback has not begun, that callback never begins, however the run goes on. In every
    run a step of `Dispose()` removes at most the entry of its own registration. -/
theorem disposed_stays_silent :
    ((tokenMachine ε T).Reachable DisposeGuard s → ∀ r ∈ s.disposeReturned, r ∉ s.begun →
      ∀ s', (tokenMachine ε T).Reaches Machine.Any s s' → r ∉ s'.begun) ∧
    ((tokenMachine ε T).Reachable Machine.Any s →
      (∀ t o r s', s.objects o = some r → s.step (.dispose t o) = some s' → OnlyRemoves r s s') ∧
      (∀ t r id fs s', s.stack t = .disposeLock r id :: fs → s.step (.run t) = some s' →
        OnlyRemoves r s s')) := by
  refine ⟨fun h r hr hb s' h' => ?_, fun h => ⟨fun t o r s' ho hs => ?_, fun t r id fs s' hst hs =>
    onlyRemoves_run (reachable_tokenInv h).ids hst hs⟩⟩
  · have hi := reachable_tokenInv h
    obtain ⟨hret, hdue⟩ := (reachable_silentInv h).silent r hr
    exact not_begun_of_due hi (SilentInv.lt_registered hi hret) (hdue.resolve_left hb) h'
  · simp only [TokenSystem.step] at hs
    split at hs <;> cases hs
    exact onlyRemoves_dispose ho

/-- `DisposeGuard` for finitely many threads, computed. -/
def disposeGuard (s : TokenSystem ε T) : TokenLabel ε T → Bool
  | .run t =>
    match s.stack t with
    | .disposeLock r _ :: _ => ∀ u, ∀ frame ∈ s.stack u, r ∉ frame.movedOut
    | _ => true
  | _ => true

omit [DecidableEq T] in
theorem disposeGuard_of_eq_true {a : TokenLabel ε T} (h : disposeGuard s a = true) :
    DisposeGuard s a := by
  rintro t r id fs rfl hst
  simp only [disposeGuard, hst, decide_eq_true_eq] at h
  exact h

end Silent

/-- Two registrations, of which the first is disposed before `Cancel` is called. -/
theorem disposed_stays_silent_first :
    ∃ s s' : TokenSystem Empty Bool, (tokenMachine Empty Bool).Reachable DisposeGuard s ∧
      s.disposeReturned = [0] ∧ (tokenMachine Empty Bool).Reaches Machine.Any s s' ∧
      s'.ended = [1] ∧ 0 ∉ s'.begun := by
  obtain ⟨s, s', hrun, hd, hb, hrun', he⟩ : ∃ s s' : TokenSystem Empty Bool,
      (tokenMachine Empty Bool).runWhile disposeGuard {} [.register true true, .run true, .run true,
        .run true, .register true true, .run true, .run true, .run true, .dispose true 0,
        .run true] = some s ∧
      s.disposeReturned = [0] ∧ s.begun = [] ∧
      (tokenMachine Empty Bool).run s [.cancel false, .run false, .run false, .run false,
        .endAction false (.ok ()), .run false] = some s' ∧ s'.ended = [1] :=
    ⟨_, _, rfl, rfl, rfl, rfl, rfl⟩
  have hr : (tokenMachine Empty Bool).Reachable DisposeGuard s :=
    .of_runWhile (fun _ _ => disposeGuard_of_eq_true) _ hrun
  have h0 : 0 ∈ s.disposeReturned := by
    rw [hd]
    exact List.mem_singleton_self 0
  have hnb : 0 ∉ s.begun := by
    rw [hb]
    exact List.not_mem_nil
  exact ⟨s, s', hr, hd, .of_run hrun', he,
    disposed_stays_silent.1 hr 0 h0 hnb s' (.of_run hrun')⟩

/-- Two registrations. `Cancel` has moved both callbacks out and runs the first; another
    thread disposes the second, whose callback has not begun. It begins all the same. -/
theorem not_disposed_stays_silent :
    ∃ s s' : TokenSystem Empty Bool, (tokenMachine Empty Bool).Reachable Machine.Any s ∧
      s.disposeReturned = [1] ∧ s.begun = [0] ∧
      (tokenMachine Empty Bool).Reaches Machine.Any s s' ∧ s'.begun = [0, 1] := by
  obtain ⟨s, s', hrun, hd, hb, hrun', hb'⟩ : ∃ s s' : TokenSystem Empty Bool,
      (tokenMachine Empty Bool).run {} [.register true true, .run true, .run true, .run true,
        .register true true, .run true, .run true, .run true, .cancel false, .run false, .run false,
        .run false, .dispose true 1, .run true] = some s ∧
      s.disposeReturned = [1] ∧ s.begun = [0] ∧
      (tokenMachine Empty Bool).run s [.endAction false (.ok ()), .run false] = some s' ∧
      s'.begun = [0, 1] :=
    ⟨_, _, rfl, rfl, rfl, rfl, rfl⟩
  exact ⟨s, s', .of_run hrun, hd, hb, .of_run hrun', hb'⟩

end AsyncCpp.AsyncPrimitives
