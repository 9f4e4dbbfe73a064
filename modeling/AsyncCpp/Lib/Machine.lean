import Mathlib.Data.List.Basic
import Mathlib.Tactic.Common

/-!
# Interleaving machines

A concurrent program is a machine: a state, and one executable step function
that takes the label of the thread (or call) that moves next and returns the new
state, or `none` where that thread cannot move. A run is a list of labels; every
interleaving of the program is one such list.

Results:
* `Machine.Reachable.invariant`: what holds initially and is kept by every step
  that meets the guard `G` holds in every state reached by such steps.
* `Machine.Reaches.preserves`: the same from an arbitrary state, the rule for
  properties that are absorbing.
* `Machine.Reaches.strengthen`: a guard may be replaced by one that follows from it in the
  reachable states.
* `Machine.Reaches.of_run`, `Machine.Reaches.of_runWhile`, `Machine.Reaches.head`: runs of
  concrete labels.
-/

namespace Interleaving

/-- A machine with states `σ` and labels `ι`. -/
structure Machine (σ ι : Type*) where
  init : σ
  step : σ → ι → Option σ

namespace Machine

variable {σ ι : Type*} (M : Machine σ ι)

/-- The guard that every step meets. -/
abbrev Any : σ → ι → Prop := fun _ _ => True

/-- The state after the labels `as`, taken in order from `s`. -/
def run : σ → List ι → Option σ
  | s, [] => some s
  | s, a :: as => (M.step s a).bind fun t => run t as

/-- `t` is reached from `s` by steps that all meet `G`. -/
inductive Reaches (G : σ → ι → Prop) (s : σ) : σ → Prop
  | refl : Reaches G s s
  | tail {t u : σ} {a : ι} : Reaches G s t → G t a → M.step t a = some u → Reaches G s u

/-- `s` is reached from the initial state by steps that all meet `G`. -/
def Reachable (G : σ → ι → Prop) (s : σ) : Prop := M.Reaches G M.init s

variable {M} {G G' : σ → ι → Prop}

theorem Reaches.trans {s t u : σ} (h : M.Reaches G s t) (h' : M.Reaches G t u) :
    M.Reaches G s u := by
  induction h' with
  | refl => exact h
  | tail _ hg hs ih => exact ih.tail hg hs

theorem Reaches.single {s t : σ} {a : ι} (hg : G s a) (h : M.step s a = some t) :
    M.Reaches G s t :=
  Reaches.refl.tail hg h

theorem Reaches.mono {s t : σ} (h : M.Reaches G s t) (hG : ∀ s a, G s a → G' s a) :
    M.Reaches G' s t := by
  induction h with
  | refl => exact .refl
  | tail _ hg hs ih => exact ih.tail (hG _ _ hg) hs

theorem Reachable.init : M.Reachable G M.init := Reaches.refl

theorem Reachable.step {s t : σ} {a : ι} (h : M.Reachable G s) (hg : G s a)
    (hs : M.step s a = some t) : M.Reachable G t :=
  Reaches.tail h hg hs

theorem Reachable.mono {s : σ} (h : M.Reachable G s) (hG : ∀ s a, G s a → G' s a) :
    M.Reachable G' s :=
  Reaches.mono h hG

/-! ## Invariants -/

/-- What every step that meets `G` keeps is kept along such steps. -/
theorem Reaches.preserves {I : σ → Prop} {s t : σ} (h : M.Reaches G s t)
    (hstep : ∀ s a t, I s → G s a → M.step s a = some t → I t) (hs : I s) : I t := by
  induction h with
  | refl => exact hs
  | tail _ hg hst ih => exact hstep _ _ _ ih hg hst

/-- The invariant rule. -/
theorem Reachable.invariant {I : σ → Prop} {s : σ} (h : M.Reachable G s) (h0 : I M.init)
    (hstep : ∀ s a t, I s → G s a → M.step s a = some t → I t) : I s :=
  Reaches.preserves h hstep h0

/-- The invariant rule, with a fact `Q` already known of every reachable state. -/
theorem Reachable.invariant_with {I Q : σ → Prop} {s : σ} (h : M.Reachable G s)
    (hQ : ∀ s, M.Reachable G s → Q s) (h0 : I M.init)
    (hstep : ∀ s a t, Q s → I s → G s a → M.step s a = some t → I t) : I s := by
  unfold Reachable at h
  induction h with
  | refl => exact h0
  | tail hr hg hst ih => exact hstep _ _ _ (hQ _ hr) ih hg hst

/-- A guard that follows from `G` in the states reached under `G` can replace it. -/
theorem Reaches.strengthen {s t : σ} (h₀ : M.Reachable G s) (h : M.Reaches G s t)
    (hG : ∀ s a, M.Reachable G s → G s a → G' s a) : M.Reaches G' s t := by
  induction h with
  | refl => exact .refl
  | tail hr hg hst ih => exact ih.tail (hG _ _ (h₀.trans hr) hg) hst

theorem Reachable.strengthen {s : σ} (h : M.Reachable G s)
    (hG : ∀ s a, M.Reachable G s → G s a → G' s a) : M.Reachable G' s :=
  Reaches.strengthen .init h hG

/-! ## Runs -/

theorem run_cons (s : σ) (a : ι) (as : List ι) :
    M.run s (a :: as) = (M.step s a).bind fun t => M.run t as := rfl

theorem run_cons_eq_some {s u : σ} {a : ι} {as : List ι} :
    M.run s (a :: as) = some u ↔ ∃ t, M.step s a = some t ∧ M.run t as = some u := by
  simp [run_cons, Option.bind_eq_some_iff]

/-- Every state a run of labels ends in is reached. -/
theorem Reaches.of_run {s t : σ} {as : List ι} (h : M.run s as = some t) :
    M.Reaches Any s t := by
  induction as generalizing s with
  | nil => cases h; exact .refl
  | cons a as ih =>
    obtain ⟨u, hu, ht⟩ := run_cons_eq_some.mp h
    exact (Reaches.single trivial hu).trans (ih ht)

theorem Reachable.of_run {s : σ} {as : List ι} (h : M.run M.init as = some s) :
    M.Reachable Any s :=
  Reaches.of_run h

/-- `run`, as long as the steps meet `g`. -/
def runWhile (g : σ → ι → Bool) : σ → List ι → Option σ
  | s, [] => some s
  | s, a :: as => if g s a then (M.step s a).bind fun t => runWhile g t as else none

/-- A run of labels that meet a guard that can be computed. -/
theorem Reaches.of_runWhile {g : σ → ι → Bool} (hg : ∀ s a, g s a → G s a) {s t : σ}
    (as : List ι) (h : M.runWhile g s as = some t) : M.Reaches G s t := by
  induction as generalizing s with
  | nil => cases h; exact .refl
  | cons a as ih =>
    simp only [runWhile] at h
    split_ifs at h with ha
    obtain ⟨u, hu, ht⟩ := Option.bind_eq_some_iff.mp h
    exact (Reaches.single (hg s a ha) hu).trans (ih ht)

/-- A guarded run, built from its first step on. -/
theorem Reaches.head {s t u : σ} {a : ι} (hs : M.step s a = some t) (hg : G s a)
    (h : M.Reaches G t u) : M.Reaches G s u :=
  (Reaches.single hg hs).trans h

end Machine

end Interleaving
