import Mathlib.Algebra.Ring.Nat
import AsyncCpp.Lib.Threads

/-!
# Threads with call stacks

A thread that calls back into user code is a stack of frames, the running one first. A quantity
the frames carry together (how many of them run an item, how much work they have left) is the
sum of a weight over the stack, and its `tally` over all threads is what a step changes by the
frames it pushes and pops.

A lock that is not recursive has an owner. A thread whose running frame is about to take the
lock that it owns will never go on: `SelfLock`.

Results:
* `tally_weigh_lt`: a step that lowers the weight of one stack lowers the tally.
* `tally_weigh_le_one`: at most one frame, on one thread, carries the weight.
-/

namespace Interleaving

variable {T F : Type*}

/-- The sum of the weight `w` over a stack. -/
def weigh (w : F → ℕ) (stack : List F) : ℕ := (stack.map w).sum

@[simp] theorem weigh_nil (w : F → ℕ) : weigh w [] = 0 := rfl

@[simp] theorem weigh_cons (w : F → ℕ) (f : F) (stack : List F) :
    weigh w (f :: stack) = w f + weigh w stack := by
  simp [weigh]

theorem weigh_eq_zero {w : F → ℕ} {stack : List F} (h : ∀ f ∈ stack, w f = 0) :
    weigh w stack = 0 := by
  induction stack with
  | nil => rfl
  | cons f stack ih =>
    rw [weigh_cons, h f List.mem_cons_self, ih fun g hg => h g (List.mem_cons_of_mem f hg)]

section Tally

variable [Fintype T] [DecidableEq T] {w : F → ℕ} {stack : T → List F}

/-- One stack loses weight. -/
theorem tally_weigh_lt {t : T} {frames : List F} (h : weigh w frames < weigh w (stack t)) :
    tally (weigh w) (Function.update stack t frames) < tally (weigh w) stack := by
  have := tally_update (weigh w) stack t frames
  omega

omit [DecidableEq T] in
/-- Only one stack carries the weight, and it carries it once. -/
theorem tally_weigh_le_one (hone : ∀ t, weigh w (stack t) ≤ 1)
    (hthread : ∀ t u, weigh w (stack t) ≠ 0 → weigh w (stack u) ≠ 0 → t = u) :
    tally (weigh w) stack ≤ 1 := by
  by_cases h : ∃ t, weigh w (stack t) ≠ 0
  · obtain ⟨t, ht⟩ := h
    have hsum : tally (weigh w) stack = weigh w (stack t) :=
      Finset.sum_eq_single t
        (fun u _ hu => by
          by_contra hne
          exact hu (hthread u t hne ht))
        (by simp)
    rw [hsum]
    exact hone t
  · push Not at h
    rw [tally_eq_zero h]
    exact Nat.zero_le 1

end Tally

/-! ## Locking twice -/

/-- Thread `t` is about to take the lock that it owns. -/
def SelfLock (owner : Option T) (locks : F → Bool) (stack : T → List F) (t : T) : Prop :=
  owner = some t ∧ ∃ f rest, stack t = f :: rest ∧ locks f

/-- A lock nobody owns is not taken twice. -/
theorem not_selfLock_of_free {locks : F → Bool} {stack : T → List F} {t : T} :
    ¬ SelfLock none locks stack t := fun h => by cases h.1

end Interleaving
