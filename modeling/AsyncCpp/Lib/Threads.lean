import Mathlib.Algebra.BigOperators.Group.Finset.Basic
import Mathlib.Algebra.Order.BigOperators.Group.Finset
import Mathlib.Data.Fintype.Basic
import Mathlib.Data.Nat.Count
import Mathlib.Tactic.Common

/-!
# Counting over threads and calls

The program counters of a finite set of threads are a function `T → P`; a thread
that moves is a `Function.update`. A quantity the threads hold together (how many
of them are inside a section, how many copies of a token they carry) is the
`tally` of a weight of program counters, and a step changes it by the difference
of the two weights of the thread that moved.

Calls are numbered in the order they are made, and `Nat.count p n` is the number of
the first `n` calls that meet `p`. The lemmas here say how it changes when a call does.
-/

namespace Interleaving

variable {T P : Type*} [Fintype T]

/-- The sum of the weight `f` over all threads. -/
def tally (f : P → ℕ) (pc : T → P) : ℕ := ∑ t, f (pc t)

theorem tally_const {f : P → ℕ} {p : P} (h : f p = 0) : tally f (fun _ : T => p) = 0 := by
  simp [tally, h]

theorem le_tally (f : P → ℕ) (pc : T → P) (t : T) : f (pc t) ≤ tally f pc :=
  Finset.single_le_sum (f := fun t => f (pc t)) (fun _ _ => Nat.zero_le _) (Finset.mem_univ t)

theorem eq_zero_of_tally {f : P → ℕ} {pc : T → P} (h : tally f pc = 0) (t : T) : f (pc t) = 0 := by
  have := le_tally f pc t
  omega

theorem tally_eq_zero {f : P → ℕ} {pc : T → P} (h : ∀ t, f (pc t) = 0) : tally f pc = 0 :=
  Finset.sum_eq_zero fun t _ => h t

variable [DecidableEq T]

/-- Two threads together weigh at most the tally. -/
theorem add_le_tally (f : P → ℕ) (pc : T → P) {t u : T} (h : t ≠ u) :
    f (pc t) + f (pc u) ≤ tally f pc := by
  unfold tally
  rw [← Finset.add_sum_erase _ _ (Finset.mem_univ t)]
  have := Finset.single_le_sum (f := fun t => f (pc t)) (fun _ _ => Nat.zero_le _)
    (Finset.mem_erase.mpr ⟨h.symm, Finset.mem_univ u⟩)
  exact Nat.add_le_add_left this _

omit [Fintype T] in
/-- A step of `t` to `p` changes a sum by the difference of its weights. -/
theorem sum_update (f : P → ℕ) (pc : T → P) {s : Finset T} {t : T} (ht : t ∈ s) (p : P) :
    ∑ u ∈ s, f (Function.update pc t p u) + f (pc t) = ∑ u ∈ s, f (pc u) + f p := by
  rw [← Finset.add_sum_erase _ _ ht, ← Finset.add_sum_erase _ (fun t => f (pc t)) ht,
    Function.update_self]
  have : ∑ u ∈ s.erase t, f (Function.update pc t p u) = ∑ u ∈ s.erase t, f (pc u) :=
    Finset.sum_congr rfl fun u hu => by rw [Function.update_of_ne (Finset.mem_erase.mp hu).1]
  rw [this]
  omega

/-- A step of thread `t` to `p` changes the tally by the difference of its weights. -/
theorem tally_update (f : P → ℕ) (pc : T → P) (t : T) (p : P) :
    tally f (Function.update pc t p) + f (pc t) = tally f pc + f p :=
  sum_update f pc (Finset.mem_univ t) p

/-! ## Calls -/

section Calls

variable {Q : P → Prop} [DecidablePred Q] {p q r : ℕ → Prop} [DecidablePred p] [DecidablePred q]
  [DecidablePred r] {f : ℕ → P} {n m i : ℕ} {b : P}

theorem count_congr (h : ∀ i < n, p i ↔ q i) : Nat.count p n = Nat.count q n :=
  Nat.le_antisymm (Nat.count_mono_left fun i hi => (h i hi).mp)
    (Nat.count_mono_left fun i hi => (h i hi).mpr)

/-- The calls that count fall into two kinds. -/
theorem count_or (h : ∀ i, p i ↔ q i ∨ r i) (hdisjoint : ∀ i, q i → ¬ r i) :
    Nat.count p n = Nat.count q n + Nat.count r n := by
  induction n with
  | zero => simp
  | succ n ih =>
    have hn := hdisjoint n
    rw [Nat.count_succ, Nat.count_succ, Nat.count_succ, ih, if_congr (h n) rfl rfl]
    by_cases hq : q n
    · simp only [hq, hn hq, or_false, if_true, if_false]
      omega
    · simp only [hq, false_or, if_false]
      omega

/-- One more call counts. -/
theorem count_insert (hi : i < n) (hq : ¬ q i) (h : ∀ j, p j ↔ q j ∨ j = i) :
    Nat.count p n = Nat.count q n + 1 := by
  have hone : Nat.count (fun j => j = i) n = 1 := by
    rw [Nat.count_eq_card_filter_range, Finset.filter_eq', if_pos (Finset.mem_range.mpr hi),
      Finset.card_singleton]
  rw [count_or h fun j hj hji => hq (hji ▸ hj), hone]

/-- The calls from `n` on do not count. -/
theorem count_extend (hnm : n ≤ m) (h : ∀ i, n ≤ i → ¬ p i) : Nat.count p m = Nat.count p n := by
  obtain ⟨k, rfl⟩ := Nat.exists_eq_add_of_le hnm
  rw [Nat.count_add, Nat.count_of_forall_not fun j _ => h _ (Nat.le_add_right n j), Nat.add_zero]

/-- A call from `n` on does not count. -/
theorem count_update_of_le (h : n ≤ i) :
    Nat.count (fun j => Q (Function.update f i b j)) n = Nat.count (fun j => Q (f j)) n :=
  count_congr fun j hj => by rw [Function.update_of_ne (hj.trans_le h).ne]

/-- A call below `n` that goes from `f i` to `b`. -/
theorem count_update (h : i < n) :
    Nat.count (fun j => Q (Function.update f i b j)) n + (if Q (f i) then 1 else 0) =
      Nat.count (fun j => Q (f j)) n + if Q b then 1 else 0 := by
  induction n with
  | zero => cases h
  | succ n ih =>
    rw [Nat.count_succ, Nat.count_succ]
    obtain rfl | hlt := Nat.eq_or_lt_of_le (Nat.le_of_lt_succ h)
    · rw [count_update_of_le le_rfl, Function.update_self]
      omega
    · have hn := ih hlt
      rw [Function.update_of_ne hlt.ne']
      omega

/-- A call whose new value counts as its old one does. -/
theorem count_update_iff (h : Q b ↔ Q (f i)) :
    Nat.count (fun j => Q (Function.update f i b j)) n = Nat.count (fun j => Q (f j)) n := by
  refine count_congr fun j _ => ?_
  by_cases hj : j = i
  · subst hj
    rw [Function.update_self, h]
  · rw [Function.update_of_ne hj]

end Calls

end Interleaving
