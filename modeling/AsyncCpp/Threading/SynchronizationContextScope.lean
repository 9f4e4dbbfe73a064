import AsyncCpp.Lib.Machine

/-!
# `SynchronizationContextScope`

Model of Threading/SynchronizationContext.cpp and Threading/SynchronizationContextScope.cpp.
The constructor of a scope saves the current context and installs its own, the destructor
installs what was saved. `_current` is one pointer for all threads, and
`SetSynchronizationContext` reads and writes it in two steps. Scopes of one thread are
nested.

Results:
* `scopes_isolated`: every thread sees the context of its innermost open scope in the runs
  in which a thread closes a scope or asks for the current context only while no newer scope
  of another thread is open, and `SetSynchronizationContext` is not overtaken.
* `not_scopes_isolated`: without the condition it does not.
-/

namespace AsyncCpp.Threading

open Interleaving

variable {T C : Type*}

/-- `SynchronizationContextScope` (Threading/SynchronizationContextScope.h:13-14). -/
structure SynchronizationContextScope (C : Type*) where
  synchronizationContext : C
  oldContext : C

/-- Where a thread is. -/
inductive ScopePc (C : Type*) where
  | outside
  /-- `SetSynchronizationContext` of a constructor or a destructor has read `_current`. -/
  | constructing (current oldContext : C)
  | destroying (oldContext : C)

/-- `_current`, the open scopes with their threads, the newest first, and the threads. The
    last field is history: what `Current()` returned, and the context of the innermost open
    scope of the thread that called it. -/
structure SynchronizationContexts (T C : Type*) where
  current : C
  scopes : List (T × SynchronizationContextScope C) := []
  pc : T → ScopePc C := fun _ => .outside
  observed : List (C × C) := []

inductive ScopeLabel (T C : Type*) where
  /-- Thread `t` constructs a scope, or destroys its innermost one. -/
  | construct (t : T) (current : C)
  | destroy (t : T)
  /-- Thread `t` writes `_current`. -/
  | write (t : T)
  /-- Thread `t` calls `Current()`. -/
  | current (t : T)

def ScopeLabel.thread : ScopeLabel T C → T
  | construct t _ | destroy t | write t | current t => t

/-- What `SetSynchronizationContext` writes (SynchronizationContext.cpp:52-54). -/
def setSynchronizationContext (default : C) (newContext : Option C) : C := newContext.getD default

namespace SynchronizationContexts

variable [DecidableEq T]

/-- The innermost open scope of thread `t`. -/
def innermost (s : SynchronizationContexts T C) (t : T) : Option (SynchronizationContextScope C) :=
  (s.scopes.find? fun p => p.1 = t).map Prod.snd

/-- The context of the innermost open scope of `t`, or the default context. -/
def expected (default : C) (s : SynchronizationContexts T C) (t : T) : C :=
  match s.innermost t with
  | some scope => scope.synchronizationContext
  | none => default

@[simp] def goto (s : SynchronizationContexts T C) (t : T) (p : ScopePc C) :
    SynchronizationContexts T C :=
  { s with pc := Function.update s.pc t p }

/-- One step. A scope is open from the write of its constructor to that of its destructor. -/
def step (default : C) (s : SynchronizationContexts T C) :
    ScopeLabel T C → Option (SynchronizationContexts T C)
  | .construct t current =>
    match s.pc t with
    | .outside => some (s.goto t (.constructing current s.current))
    | _ => none
  | .destroy t =>
    match s.pc t, s.innermost t with
    | .outside, some scope => some (s.goto t (.destroying scope.oldContext))
    | _, _ => none
  | .write t =>
    match s.pc t with
    | .outside => none
    | .constructing current oldContext =>
      some { s.goto t .outside with
        current := setSynchronizationContext default (some current)
        scopes := (t, ⟨current, oldContext⟩) :: s.scopes }
    | .destroying oldContext =>
      some { s.goto t .outside with
        current := setSynchronizationContext default (some oldContext)
        scopes := s.scopes.eraseP fun p => p.1 = t }
  | .current t =>
    match s.pc t with
    | .outside => some { s with observed := s.observed ++ [(s.current, s.expected default t)] }
    | _ => none

end SynchronizationContexts

/-- The machine of a program whose default context is `default`. -/
def scopeMachine [DecidableEq T] (default : C) :
    Machine (SynchronizationContexts T C) (ScopeLabel T C) where
  init := { current := default }
  step := SynchronizationContexts.step default

/-! ## What isolation asks for -/

/-- Every thread saw the context of its innermost open scope, or the default context where it
    had none; `_current` is the context of an open scope or the default context; and where no
    scope is open it is the default context. -/
structure Isolated (default : C) (s : SynchronizationContexts T C) : Prop where
  observed : ∀ o ∈ s.observed, o.1 = o.2
  live : s.current = default ∨ ∃ p ∈ s.scopes, s.current = p.2.synchronizationContext
  closed : s.scopes = [] → s.current = default

/-- No thread writes `_current` while another is inside `SetSynchronizationContext`, and a
    thread that closes a scope or asks for the current context has the newest of the open
    scopes, or none is open. -/
def InOrder (s : SynchronizationContexts T C) : ScopeLabel T C → Prop
  | .construct _ _ => True
  | .write t => ∀ u, u ≠ t → s.pc u = .outside
  | .destroy t | .current t => ∀ p, s.scopes.head? = some p → p.1 = t

/-! ## Scopes that close in order -/

/-- `current` is the context of the newest scope, and every scope saved the context of the
    one before it. -/
def Chained (default : C) : C → List (T × SynchronizationContextScope C) → Prop
  | current, [] => current = default
  | current, p :: scopes =>
    current = p.2.synchronizationContext ∧ Chained default p.2.oldContext scopes

/-- What the thread inside `SetSynchronizationContext` has read. -/
def PcOk (s : SynchronizationContexts T C) (t : T) : ScopePc C → Prop
  | .outside => True
  | .constructing _ oldContext => oldContext = s.current
  | .destroying oldContext =>
    ∃ scope scopes, s.scopes = (t, scope) :: scopes ∧ scope.oldContext = oldContext

structure ScopeInv (default : C) (s : SynchronizationContexts T C) : Prop where
  chained : Chained default s.current s.scopes
  pc : ∀ t, PcOk s t (s.pc t)
  observed : ∀ o ∈ s.observed, o.1 = o.2

namespace ScopeInv

variable {default : C} {s s' : SynchronizationContexts T C} {t : T}

theorem isolated (h : ScopeInv default s) : Isolated default s := by
  have hchained := h.chained
  cases hscopes : s.scopes with
  | nil =>
    rw [hscopes] at hchained
    exact ⟨h.observed, .inl hchained, fun _ => hchained⟩
  | cons p scopes =>
    rw [hscopes] at hchained
    exact ⟨h.observed, .inr ⟨p, by rw [hscopes]; exact List.mem_cons_self, hchained.1⟩,
      fun hnil => by cases hscopes.symm.trans hnil⟩

variable [DecidableEq T]

theorem goto (h : ScopeInv default s) {p : ScopePc C} (hp : PcOk s t p) :
    ScopeInv default (s.goto t p) := by
  refine ⟨h.chained, fun u => ?_, h.observed⟩
  by_cases hu : u = t
  · subst hu
    simpa [PcOk] using hp
  · simpa [PcOk, Function.update_of_ne hu] using h.pc u

/-- Thread `t` has written `_current`. -/
theorem write (h : ScopeInv default s) (hout : ∀ u, u ≠ t → s.pc u = .outside) {current : C}
    {scopes : List (T × SynchronizationContextScope C)} (hc : Chained default current scopes) :
    ScopeInv default { s.goto t .outside with current := current, scopes := scopes } := by
  refine ⟨hc, fun u => ?_, h.observed⟩
  by_cases hu : u = t
  · subst hu
    simp [PcOk]
  · simp [Function.update_of_ne hu, hout u hu, PcOk]

/-- The thread with the newest scope sees its context. -/
theorem expected_eq (h : ScopeInv default s) (hhead : ∀ p, s.scopes.head? = some p → p.1 = t) :
    s.current = s.expected default t := by
  have hchained := h.chained
  unfold SynchronizationContexts.expected SynchronizationContexts.innermost
  cases hscopes : s.scopes with
  | nil =>
    rw [hscopes] at hchained
    exact hchained
  | cons p scopes =>
    rw [hscopes] at hchained hhead
    rw [List.find?_cons_of_pos (by simp [hhead p rfl])]
    exact hchained.1

theorem step (h : ScopeInv default s) {a : ScopeLabel T C} (hg : InOrder s a)
    (hs : s.step default a = some s') : ScopeInv default s' := by
  cases a with
  | construct t current =>
    simp only [SynchronizationContexts.step] at hs
    split at hs <;> cases hs
    exact h.goto rfl
  | destroy t =>
    simp only [SynchronizationContexts.step] at hs
    split at hs <;> cases hs
    rename_i scope _ hinner
    refine h.goto ?_
    -- the innermost scope of the thread is the newest
    obtain ⟨p, hp, rfl⟩ := Option.map_eq_some_iff.mp hinner
    cases hscopes : s.scopes with
    | nil =>
      rw [hscopes] at hp
      cases hp
    | cons q scopes =>
      rw [InOrder, hscopes] at hg
      rw [hscopes] at hp
      have hq : q.1 = t := hg q rfl
      rw [List.find?_cons_of_pos (by simp [hq])] at hp
      cases hp
      exact ⟨p.2, scopes, by rw [hscopes, ← hq], rfl⟩
  | write t =>
    have hpc := h.pc t
    simp only [SynchronizationContexts.step] at hs
    split at hs
    · cases hs
    · rename_i hp
      cases hs
      rw [hp] at hpc
      cases hpc
      exact h.write hg ⟨rfl, h.chained⟩
    · rename_i hp
      cases hs
      rw [hp] at hpc
      obtain ⟨scope, scopes, hscopes, rfl⟩ := hpc
      have hchained := h.chained
      rw [hscopes] at hchained
      refine h.write hg ?_
      rw [hscopes, List.eraseP_cons_of_pos (by simp)]
      exact hchained.2
  | current t =>
    simp only [SynchronizationContexts.step] at hs
    split at hs <;> cases hs
    refine ⟨h.chained, h.pc, fun o ho => ?_⟩
    rcases List.mem_append.mp ho with ho | ho
    · exact h.observed o ho
    · rw [List.mem_singleton.mp ho]
      exact h.expected_eq hg

end ScopeInv

/-- Scopes are isolated in every run in which a thread closes a scope or calls `Current()`
    only while the newest open scope is its own or no scope is open, and no thread writes
    `_current` while another is inside `SetSynchronizationContext`. -/
theorem scopes_isolated [DecidableEq T] {default : C} {s : SynchronizationContexts T C}
    (h : (scopeMachine default).Reachable InOrder s) : Isolated default s := by
  refine ScopeInv.isolated (h.invariant ?_ fun _ _ _ hi hg hs => hi.step hg hs)
  exact ⟨rfl, fun _ => trivial, nofun⟩

/-- The condition, computed for two threads. -/
def inOrder (s : SynchronizationContexts Bool ℕ) : ScopeLabel Bool ℕ → Bool
  | .construct _ _ => true
  | .write t => match s.pc (!t) with | .outside => true | _ => false
  | .destroy t | .current t => s.scopes.head?.all fun p => p.1 = t

theorem inOrder_of_eq_true {s : SynchronizationContexts Bool ℕ} {a : ScopeLabel Bool ℕ}
    (h : inOrder s a = true) : InOrder s a := by
  cases a with
  | construct => trivial
  | write t =>
    intro u hu
    rw [Bool.eq_not_of_ne hu]
    simp only [inOrder] at h
    split at h
    · assumption
    · cases h
  | destroy t | current t =>
    intro p hp
    simpa [inOrder, hp] using h

/-- A scope of one thread opened and closed inside a scope of the other. -/
theorem scopes_isolated_nested : ∃ s : SynchronizationContexts Bool ℕ,
    (scopeMachine 0).Reachable InOrder s ∧ s.observed = [(1, 1), (2, 2), (1, 1)] ∧
      Isolated 0 s := by
  have hr : (scopeMachine 0).runWhile inOrder (scopeMachine 0).init [.construct true 1, .write true,
    .current true, .construct false 2, .write false, .current false, .destroy false, .write false,
    .current true] = some _ := rfl
  have h := Machine.Reaches.of_runWhile (G := InOrder) (fun _ _ => inOrder_of_eq_true) _ hr
  exact ⟨_, h, rfl, scopes_isolated h⟩

/-- Two scopes that overlap: after both are closed, `_current` is the context of the first. -/
theorem not_scopes_isolated :
    ¬ ∀ s : SynchronizationContexts Bool ℕ, (scopeMachine 0).Reachable Machine.Any s →
      Isolated 0 s := by
  intro h
  have hr : (scopeMachine 0).run { current := 0 } [.construct true 1, .write true,
    .construct false 2, .write false, .destroy true, .write true, .destroy false, .write false] =
      some _ := rfl
  cases (h _ (.of_run hr)).closed rfl

end AsyncCpp.Threading
