import AsyncCpp.Lib.Simulation
import Mathlib.Data.List.Nodup
import Mathlib.Logic.Function.Basic

/-!
# Objects behind one lock

An object whose operations hold one lock from their first access to their last one. An
operation is a body that runs in steps on the state of the object and on local variables of its
own; any number of calls are made, enter in any order, and return some time after they have left
the lock.

What callers see is the history of calls and returns. It is linearizable to a sequential object
if one order of the calls, with the results they returned, is a run of the sequential object
and agrees with real time: a call that returned before another was made comes before it.

Results:
* `LockedObject.linearizable`: an object behind one lock is linearizable to any sequential
  object that its bodies, run alone, compute.
* `LockedObject.returned_of_atRest`: where nothing can go on, every call has returned.
-/

namespace Interleaving

/-- What callers see of call `i`. -/
inductive CallEvent (Op Res : Type*) where
  | call (i : ℕ) (op : Op)
  | ret (i : ℕ) (r : Res)

section Linearizable

variable {σ Op Res : Type*} (spec : σ → Op → σ × Res)

/-- The state of the sequential object after a list of calls. -/
def afterCalls (s : σ) (order : List (ℕ × Op × Res)) : σ :=
  order.foldl (fun s x => (spec s x.2.1).1) s

/-- The results are those of the sequential object. -/
def Legal : σ → List (ℕ × Op × Res) → Prop
  | _, [] => True
  | s, (_, op, r) :: order => (spec s op).2 = r ∧ Legal (spec s op).1 order

/-- `order` is a linearization of the history: it is a run of the sequential object from `s`, no
    call is in it twice, every call that returned is, and wherever the history is cut, the order
    can be cut so that what had returned is before the cut and what had not been called is after
    it. -/
structure Linearizes (s : σ) (history : List (CallEvent Op Res)) (order : List (ℕ × Op × Res)) :
    Prop where
  legal : Legal spec s order
  nodup : (order.map Prod.fst).Nodup
  returned : ∀ i r, .ret i r ∈ history → ∃ op, (i, op, r) ∈ order
  realTime : ∀ h₁ h₂, history = h₁ ++ h₂ → ∃ o₁ o₂, order = o₁ ++ o₂ ∧
    (∀ i r, .ret i r ∈ h₁ → ∃ op, (i, op, r) ∈ o₁) ∧
    ∀ i op r, (i, op, r) ∈ o₁ → .call i op ∈ h₁

def Linearizable (s : σ) (history : List (CallEvent Op Res)) : Prop :=
  ∃ order, Linearizes spec s history order

variable {spec} {s : σ} {order : List (ℕ × Op × Res)} {history : List (CallEvent Op Res)}

theorem afterCalls_append (x : ℕ × Op × Res) :
    afterCalls spec s (order ++ [x]) = (spec (afterCalls spec s order) x.2.1).1 := by
  simp [afterCalls]

theorem Legal.append (h : Legal spec s order) {i : ℕ} {op : Op} {r : Res}
    (hr : (spec (afterCalls spec s order) op).2 = r) : Legal spec s (order ++ [(i, op, r)]) := by
  induction order generalizing s with
  | nil => exact ⟨hr, trivial⟩
  | cons x order ih => exact ⟨h.1, ih h.2 hr⟩

/-- Each result is one that the sequential object has given in some state. -/
theorem Legal.exists_of_mem (h : Legal spec s order) {i : ℕ} {op : Op} {r : Res}
    (hmem : (i, op, r) ∈ order) : ∃ t, (spec t op).2 = r := by
  induction order generalizing s with
  | nil => simp at hmem
  | cons x order ih =>
    rcases List.mem_cons.mp hmem with rfl | hmem
    · exact ⟨s, h.1⟩
    · exact ih h.2 hmem

/-- A linearization of a history with one more event: only the cut after it is new. -/
theorem Linearizes.event (h : Linearizes spec s history order) (e : CallEvent Op Res)
    (hret : ∀ i r, .ret i r ∈ history ++ [e] → ∃ op, (i, op, r) ∈ order)
    (hcall : ∀ i op r, (i, op, r) ∈ order → .call i op ∈ history ++ [e]) :
    Linearizes spec s (history ++ [e]) order where
  legal := h.legal
  nodup := h.nodup
  returned := hret
  realTime := by
    intro h₁ h₂ hsplit
    rcases List.eq_nil_or_concat' h₂ with rfl | ⟨h₂, e', rfl⟩
    · rw [List.append_nil] at hsplit
      subst hsplit
      exact ⟨order, [], (List.append_nil _).symm, hret, hcall⟩
    · rw [← List.append_assoc] at hsplit
      exact h.realTime h₁ h₂ (List.append_inj' hsplit rfl).1

/-- A linearization with one more call at its end. -/
theorem Linearizes.commit (h : Linearizes spec s history order) {i : ℕ} {op : Op} {r : Res}
    (hr : (spec (afterCalls spec s order) op).2 = r) (hnew : ∀ op r, (i, op, r) ∉ order) :
    Linearizes spec s history (order ++ [(i, op, r)]) where
  legal := h.legal.append hr
  nodup := by
    rw [List.map_append, List.nodup_append]
    refine ⟨h.nodup, List.nodup_singleton _, ?_⟩
    rintro a ha _ hb rfl
    rw [List.map_singleton, List.mem_singleton] at hb
    subst hb
    obtain ⟨⟨_, op', r'⟩, hmem, rfl⟩ := List.mem_map.mp ha
    exact hnew op' r' hmem
  returned := fun j q hj => by
    obtain ⟨op', hmem⟩ := h.returned j q hj
    exact ⟨op', List.mem_append_left _ hmem⟩
  realTime := by
    intro h₁ h₂ hsplit
    obtain ⟨o₁, o₂, rfl, hret, hcall⟩ := h.realTime h₁ h₂ hsplit
    exact ⟨o₁, o₂ ++ [(i, op, r)], List.append_assoc .., hret, hcall⟩

end Linearizable

/-- The bodies of the operations: where they begin, and what one step does to the object and to
    the local variables, up to the step that returns a result. -/
structure LockedObject (σ Op Res Loc : Type*) where
  enter : Op → Loc
  body : σ → Loc → σ × (Loc ⊕ Res)

/-- Where a call is. -/
inductive CallPc (Op Res : Type*) where
  | notMade
  | waiting (op : Op)
  | inside (op : Op)
  | done (op : Op) (r : Res)
  | returned (op : Op) (r : Res)

/-- The object, the call that holds the lock with its local variables, and the calls. -/
structure LockedSystem (σ Op Res Loc : Type*) where
  object : σ
  owner : Option (ℕ × Loc) := none
  call : ℕ → CallPc Op Res := fun _ => .notMade
  calls : ℕ := 0
  history : List (CallEvent Op Res) := []

inductive LockedLabel (Op : Type*) where
  | call (op : Op)
  | lock (i : ℕ)
  /-- The owner of the lock goes on. -/
  | body
  | ret (i : ℕ)

/-- The steps that need no new call. -/
def LockedLabel.own {Op : Type*} : LockedLabel Op → Prop
  | .call _ => False
  | _ => True

namespace LockedObject

variable {σ Op Res Loc : Type*} (O : LockedObject σ Op Res Loc)

/-- The body, from `l` on, ends in state `s'` with result `r`. -/
inductive Runs : σ → Loc → σ → Res → Prop
  | done {s l s' r} (h : O.body s l = (s', .inr r)) : Runs s l s' r
  | step {s l t m s' r} (h : O.body s l = (t, .inl m)) (h' : Runs t m s' r) : Runs s l s' r

/-- Every operation, run alone, ends and does what the sequential object does. -/
def Computes (spec : σ → Op → σ × Res) : Prop :=
  ∀ s op, O.Runs s (O.enter op) (spec s op).1 (spec s op).2

def step (s : LockedSystem σ Op Res Loc) : LockedLabel Op → Option (LockedSystem σ Op Res Loc)
  | .call op => some { s with
      call := Function.update s.call s.calls (.waiting op)
      calls := s.calls + 1
      history := s.history ++ [.call s.calls op] }
  | .lock i =>
    match s.owner, s.call i with
    | none, .waiting op => some { s with
        owner := some (i, O.enter op), call := Function.update s.call i (.inside op) }
    | _, _ => none
  | .body =>
    match s.owner with
    | none => none
    | some (i, l) =>
      match O.body s.object l, s.call i with
      | (object, .inl l), _ => some { s with object := object, owner := some (i, l) }
      | (object, .inr r), .inside op => some { s with
          object := object, owner := none, call := Function.update s.call i (.done op r) }
      | _, _ => none
  | .ret i =>
    match s.call i with
    | .done op r => some { s with
        call := Function.update s.call i (.returned op r)
        history := s.history ++ [.ret i r] }
    | _ => none

/-- The machine of an object whose state is `s₀` at first. -/
def machine (s₀ : σ) : Machine (LockedSystem σ Op Res Loc) (LockedLabel Op) where
  init := { object := s₀ }
  step := O.step

/-! ## What a step can be -/

inductive Step (s : LockedSystem σ Op Res Loc) : LockedSystem σ Op Res Loc → Prop
  | call (op : Op) : Step s { s with
      call := Function.update s.call s.calls (.waiting op)
      calls := s.calls + 1
      history := s.history ++ [.call s.calls op] }
  | lock {i : ℕ} {op : Op} (ho : s.owner = none) (hi : s.call i = .waiting op) : Step s { s with
      owner := some (i, O.enter op), call := Function.update s.call i (.inside op) }
  | inside {i : ℕ} {l l' : Loc} {object : σ} (ho : s.owner = some (i, l))
    (hb : O.body s.object l = (object, .inl l')) :
    Step s { s with object := object, owner := some (i, l') }
  | unlock {i : ℕ} {l : Loc} {object : σ} {op : Op} {r : Res} (ho : s.owner = some (i, l))
    (hb : O.body s.object l = (object, .inr r)) (hi : s.call i = .inside op) : Step s { s with
      object := object, owner := none, call := Function.update s.call i (.done op r) }
  | ret {i : ℕ} {op : Op} {r : Res} (hi : s.call i = .done op r) : Step s { s with
      call := Function.update s.call i (.returned op r)
      history := s.history ++ [.ret i r] }

variable {O} {s s' : LockedSystem σ Op Res Loc}

theorem step_cases {a : LockedLabel Op} (hs : O.step s a = some s') : O.Step s s' := by
  cases a with
  | call op =>
    cases hs
    exact .call op
  | lock i =>
    simp only [step] at hs
    split at hs
    · cases hs
      exact .lock (by assumption) (by assumption)
    · cases hs
  | body =>
    simp only [step] at hs
    split at hs
    · cases hs
    · split at hs
      · cases hs
        exact .inside (by assumption) (by assumption)
      · cases hs
        exact .unlock (by assumption) (by assumption) (by assumption)
      · cases hs
  | ret i =>
    simp only [step] at hs
    split at hs
    · cases hs
      exact .ret (by assumption)
    · cases hs

/-! ## Linearizability -/

/-- The calls that have left the lock, in the order in which they held it, are a linearization;
    the object is in the state they lead to, or on its way from there to the next one. -/
structure Inv (O : LockedObject σ Op Res Loc) (spec : σ → Op → σ × Res) (s₀ : σ)
    (s : LockedSystem σ Op Res Loc) (order : List (ℕ × Op × Res)) : Prop where
  linearizes : Linearizes spec s₀ s.history order
  free : s.owner = none → s.object = afterCalls spec s₀ order
  owned : ∀ i l, s.owner = some (i, l) → ∃ op, s.call i = .inside op ∧
    O.Runs s.object l (spec (afterCalls spec s₀ order) op).1 (spec (afterCalls spec s₀ order) op).2
  inside : ∀ i op, s.call i = .inside op → ∃ l, s.owner = some (i, l)
  left : ∀ i op r, (i, op, r) ∈ order ↔ s.call i = .done op r ∨ s.call i = .returned op r
  made : ∀ i op, .call i op ∈ s.history ↔ s.call i = .waiting op ∨ s.call i = .inside op ∨
    ∃ r, s.call i = .done op r ∨ s.call i = .returned op r
  ended : ∀ i r, .ret i r ∈ s.history → ∃ op, s.call i = .returned op r
  fresh : ∀ i, s.calls ≤ i → s.call i = .notMade

namespace Inv

variable {spec : σ → Op → σ × Res} {s₀ : σ} {order : List (ℕ × Op × Res)}

theorem call (h : Inv O spec s₀ s order) (op : Op) : Inv O spec s₀ { s with
    call := Function.update s.call s.calls (.waiting op)
    calls := s.calls + 1
    history := s.history ++ [.call s.calls op] } order := by
  have hnew : s.call s.calls = .notMade := h.fresh s.calls (Nat.le_refl _)
  have hsame : ∀ i pc, s.call i = pc → pc ≠ .notMade →
      Function.update s.call s.calls (.waiting op) i = pc := by
    rintro i _ rfl hpc
    rw [Function.update_of_ne]
    rintro rfl
    exact hpc hnew
  have hback : ∀ i pc, Function.update s.call s.calls (.waiting op) i = pc →
      pc ≠ .waiting op → s.call i = pc := by
    intro i pc hi hpc
    by_cases hic : i = s.calls
    · subst hic
      rw [Function.update_self] at hi
      exact absurd hi.symm hpc
    · rwa [Function.update_of_ne hic] at hi
  refine ⟨h.linearizes.event _ ?_ ?_, h.free, ?_, ?_, ?_, ?_, ?_, ?_⟩
  · intro i r hi
    exact h.linearizes.returned i r (by simpa using hi)
  · intro i op' r hmem
    exact List.mem_append_left _ ((h.made i op').mpr (.inr (.inr ⟨r, (h.left i op' r).mp hmem⟩)))
  · intro i l ho
    obtain ⟨op', hi, hruns⟩ := h.owned i l ho
    exact ⟨op', hsame i _ hi (by simp), hruns⟩
  · exact fun i op' hi => h.inside i op' (hback i _ hi (by simp))
  · intro i op' r
    rw [h.left]
    exact ⟨Or.imp (fun hi => hsame i _ hi (by simp)) fun hi => hsame i _ hi (by simp),
      Or.imp (fun hi => hback i _ hi (by simp)) fun hi => hback i _ hi (by simp)⟩
  · intro i op'
    by_cases hic : i = s.calls
    · subst hic
      have hno : CallEvent.call s.calls op' ∉ s.history := by
        rw [h.made]
        simp [hnew]
      simp [hno, eq_comm]
    · simp [hic, h.made]
  · intro i r hi
    obtain ⟨op', hi'⟩ := h.ended i r (by simpa using hi)
    exact ⟨op', hsame i _ hi' (by simp)⟩
  · intro i hle
    have hne : i ≠ s.calls := by
      intro heq
      rw [heq] at hle
      exact absurd hle (Nat.not_succ_le_self _)
    exact (Function.update_of_ne hne _ _).trans (h.fresh i (Nat.le_of_succ_le hle))

/-- A call moves on without an event. -/
theorem move {order' : List (ℕ × Op × Res)} {object : σ} {owner : Option (ℕ × Loc)} {i : ℕ}
    {pc : CallPc Op Res} (op : Op) (h : Inv O spec s₀ s order)
    (hl : Linearizes spec s₀ s.history order')
    (hfree : owner = none → object = afterCalls spec s₀ order')
    (howned : ∀ j l, owner = some (j, l) → j = i ∧ pc = .inside op ∧
      O.Runs object l (spec (afterCalls spec s₀ order') op).1
        (spec (afterCalls spec s₀ order') op).2)
    (hinside : pc = .inside op → ∃ l, owner = some (i, l))
    (hothers : ∀ j op, j ≠ i → s.call j ≠ .inside op)
    (hleft : ∀ j op' r, (j, op', r) ∈ order' ↔
      if j = i then pc = .done op' r else (j, op', r) ∈ order)
    (hold : s.call i = .waiting op ∨ s.call i = .inside op)
    (hnew : pc = .inside op ∨ ∃ r, pc = .done op r) :
    Inv O spec s₀
      { s with object := object, owner := owner, call := Function.update s.call i pc } order' := by
  refine ⟨hl, hfree, ?_, ?_, ?_, ?_, ?_, ?_⟩
  · intro j l ho
    obtain ⟨rfl, hpc, hruns⟩ := howned j l ho
    exact ⟨op, (Function.update_self ..).trans hpc, hruns⟩
  · intro j op' hj
    by_cases hji : j = i
    · subst hji
      have hpc : pc = .inside op' := (Function.update_self j pc s.call).symm.trans hj
      rcases hnew with heq | ⟨r, heq⟩
      · exact hinside heq
      · rw [heq] at hpc
        cases hpc
    · have hj' : s.call j = .inside op' := (Function.update_of_ne hji ..).symm.trans hj
      exact absurd hj' (hothers j op' hji)
  · intro j op' r
    show (j, op', r) ∈ order' ↔ Function.update s.call i pc j = .done op' r ∨
      Function.update s.call i pc j = .returned op' r
    rw [hleft]
    by_cases hji : j = i
    · subst hji
      rw [if_pos rfl, Function.update_self]
      rcases hnew with rfl | ⟨r, rfl⟩ <;> simp
    · rw [if_neg hji, Function.update_of_ne hji, h.left]
  · intro j op'
    show .call j op' ∈ s.history ↔ _
    rw [h.made]
    by_cases hji : j = i
    · subst hji
      simp only [Function.update_self]
      rcases hold with hold | hold <;> rcases hnew with rfl | ⟨r, rfl⟩ <;> simp [hold]
    · simp only [Function.update_of_ne hji]
  · intro j r hj
    obtain ⟨op', hj'⟩ := h.ended j r hj
    refine ⟨op', (Function.update_of_ne ?_ _ _).trans hj'⟩
    rintro rfl
    rcases hold with hold | hold <;> rw [hold] at hj' <;> cases hj'
  · intro j hle
    refine (Function.update_of_ne ?_ _ _).trans (h.fresh j hle)
    rintro rfl
    have hfresh := h.fresh j hle
    rcases hold with hold | hold <;> rw [hold] at hfresh <;> cases hfresh

theorem ret (h : Inv O spec s₀ s order) {i : ℕ} {op : Op} {r : Res} (hi : s.call i = .done op r) :
    Inv O spec s₀ { s with
      call := Function.update s.call i (.returned op r)
      history := s.history ++ [.ret i r] } order := by
  have hmem : (i, op, r) ∈ order := (h.left i op r).mpr (.inl hi)
  have hsame : ∀ j pc, s.call j = pc → j ≠ i →
      Function.update s.call i (.returned op r) j = pc := fun j pc hj hji =>
    (Function.update_of_ne hji _ _).trans hj
  refine ⟨h.linearizes.event _ ?_ ?_, h.free, ?_, ?_, ?_, ?_, ?_, ?_⟩
  · intro j q hj
    rcases List.mem_append.mp hj with hj | hj
    · exact h.linearizes.returned j q hj
    · cases List.mem_singleton.mp hj
      exact ⟨op, hmem⟩
  · intro j op' q hj
    exact List.mem_append_left _ ((h.made j op').mpr (.inr (.inr ⟨q, (h.left j op' q).mp hj⟩)))
  · intro j l ho
    obtain ⟨op', hj, hruns⟩ := h.owned j l ho
    refine ⟨op', hsame j _ hj ?_, hruns⟩
    rintro rfl
    rw [hi] at hj
    cases hj
  · intro j op' hj
    by_cases hji : j = i
    · subst hji
      cases (Function.update_self ..).symm.trans hj
    · exact h.inside j op' ((Function.update_of_ne hji _ _).symm.trans hj)
  · intro j op' q
    rw [h.left]
    by_cases hji : j = i
    · subst hji
      simp [hi]
    · simp only [Function.update_of_ne hji]
  · intro j op'
    by_cases hji : j = i
    · subst hji
      simp [h.made, hi]
    · simp [hji, h.made]
  · intro j q hj
    rcases List.mem_append.mp hj with hj | hj
    · obtain ⟨op', hj'⟩ := h.ended j q hj
      refine ⟨op', hsame j _ hj' ?_⟩
      rintro rfl
      rw [hi] at hj'
      cases hj'
    · cases List.mem_singleton.mp hj
      exact ⟨op, Function.update_self ..⟩
  · intro j hle
    refine hsame j _ (h.fresh j hle) ?_
    rintro rfl
    have hfresh := h.fresh j hle
    rw [hi] at hfresh
    cases hfresh

theorem step (hO : O.Computes spec) (h : Inv O spec s₀ s order) (hs : O.Step s s') :
    ∃ order', Inv O spec s₀ s' order' := by
  cases hs with
  | call op => exact ⟨order, h.call op⟩
  | ret hi => exact ⟨order, h.ret hi⟩
  | @lock i op ho hi =>
    refine ⟨order, h.move op h.linearizes (by simp) ?_ (fun _ => ⟨_, rfl⟩) ?_ ?_ (.inl hi)
      (.inl rfl)⟩
    · rintro j l ⟨⟩
      rw [h.free ho]
      exact ⟨rfl, rfl, hO _ _⟩
    · intro j op' _ hj
      obtain ⟨l, hl⟩ := h.inside j op' hj
      rw [ho] at hl
      cases hl
    · intro j op' r
      split_ifs with hji
      · subst hji
        simp [h.left, hi]
      · rfl
  | @inside i l l' object ho hb =>
    obtain ⟨op, hi, hruns⟩ := h.owned i l ho
    have hkeep : Function.update s.call i (.inside op) = s.call := by
      rw [← hi, Function.update_eq_self]
    have hmove : Inv O spec s₀ { s with
        object := object
        owner := some (i, l')
        call := Function.update s.call i (.inside op) } order := by
      refine h.move op h.linearizes (by simp) ?_ (fun _ => ⟨_, rfl⟩) ?_ ?_ (.inr hi) (.inl rfl)
      · rintro j m ⟨⟩
        refine ⟨rfl, rfl, ?_⟩
        cases hruns with
        | done hd =>
          rw [hb] at hd
          cases hd
        | step hd hr =>
          rw [hb] at hd
          cases hd
          exact hr
      · intro j op' hji hj
        obtain ⟨m, hm⟩ := h.inside j op' hj
        rw [ho] at hm
        cases hm
        exact hji rfl
      · intro j op' r
        split_ifs with hji
        · subst hji
          simp [h.left, hi]
        · rfl
    rw [hkeep] at hmove
    exact ⟨order, hmove⟩
  | @unlock i l object op r ho hb hi =>
    -- the call commits when it leaves the lock
    obtain ⟨op', hi', hruns⟩ := h.owned i l ho
    rw [hi] at hi'
    cases hi'
    obtain ⟨hobject, hr⟩ : object = (spec (afterCalls spec s₀ order) op).1 ∧
        r = (spec (afterCalls spec s₀ order) op).2 := by
      cases hruns with
      | done hd =>
        rw [hb] at hd
        cases hd
        exact ⟨rfl, rfl⟩
      | step hd =>
        rw [hb] at hd
        cases hd
    have hnew : ∀ op' r', (i, op', r') ∉ order := by
      intro op' r' hmem
      have := (h.left i op' r').mp hmem
      simp [hi] at this
    refine ⟨order ++ [(i, op, r)], h.move op (h.linearizes.commit hr.symm hnew)
      (fun _ => hobject.trans (afterCalls_append (i, op, r)).symm) (by simp) (by simp) ?_ ?_
      (.inr hi)
      (.inr ⟨r, rfl⟩)⟩
    · intro j op' hji hj
      obtain ⟨m, hm⟩ := h.inside j op' hj
      rw [ho] at hm
      cases hm
      exact hji rfl
    · intro j op' r'
      split_ifs with hji
      · subst hji
        simp [hnew, eq_comm]
      · simp [hji]

end Inv

variable {spec : σ → Op → σ × Res} {s₀ : σ}

theorem reachable_inv (hO : O.Computes spec) (h : (O.machine s₀).Reachable Machine.Any s) :
    ∃ order, Inv O spec s₀ s order := by
  refine h.invariant (I := fun s => ∃ order, Inv O spec s₀ s order) ⟨[], ?_⟩
    fun _ _ _ ⟨_, hi⟩ _ hs => hi.step hO (step_cases hs)
  refine ⟨⟨trivial, List.nodup_nil, by simp [machine], ?_⟩, fun _ => rfl, by simp [machine],
    by simp [machine], by simp [machine], by simp [machine], by simp [machine], fun _ _ => rfl⟩
  intro h₁ h₂ hsplit
  exact ⟨[], [], rfl, by simp [(List.append_eq_nil_iff.mp hsplit.symm).1], by simp⟩

/-- An object behind one lock is linearizable to every sequential object that its bodies, run
    alone, compute. -/
theorem linearizable (hO : O.Computes spec) (h : (O.machine s₀).Reachable Machine.Any s) :
    Linearizable spec s₀ s.history :=
  (reachable_inv hO h).imp fun _ hi => hi.linearizes

/-- Where nothing can go on, every call has returned. -/
theorem returned_of_atRest (hO : O.Computes spec) (h : (O.machine s₀).Reachable Machine.Any s)
    (hrest : (O.machine s₀).AtRest LockedLabel.own s) {i : ℕ} {op : Op}
    (hi : .call i op ∈ s.history) : ∃ r, s.call i = .returned op r := by
  obtain ⟨order, hinv⟩ := reachable_inv hO h
  have hfree : s.owner = none := by
    cases ho : s.owner with
    | none => rfl
    | some x =>
      obtain ⟨op', hop, -⟩ := hinv.owned x.1 x.2 ho
      have hbody := hrest .body trivial
      simp only [machine, step, ho, hop] at hbody
      cases hb : O.body s.object x.2 with
      | mk object l =>
        rw [hb] at hbody
        cases l <;> simp at hbody
  rcases (hinv.made i op).mp hi with hpc | hpc | ⟨r, hpc | hpc⟩
  · have := hrest (.lock i) trivial
    simp [machine, step, hfree, hpc] at this
  · obtain ⟨l, hl⟩ := hinv.inside i op hpc
    rw [hfree] at hl
    cases hl
  · have := hrest (.ret i) trivial
    simp [machine, step, hpc] at this
  · exact ⟨r, hpc⟩

end LockedObject

end Interleaving
