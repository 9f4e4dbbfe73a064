import Mathlib.Logic.Function.Basic
import Mathlib.Order.WellFounded
import AsyncCpp.Lib.Simulation

/-!
# Programs that await each other

The programs have names. A program ends with an outcome, or awaits a program and goes on with
what it observes of that program's outcome. Run at the same time, a program that awaits another
one goes on when that one is completed. Run as ordinary functions, it calls the other one.

Results:
* `Returns.det`: a call has one outcome at most.
* `returns_of_completed`: in every interleaving, a program completes with the outcome the call
  has.
* `completed_of_rest`: where no program awaits in a circle and nothing can go on, every program is
  completed.
-/

namespace Interleaving

variable {ι O R : Type*} {n m : ℕ}

/-- A program that awaits at most `n` times, with what it does next for each observation. -/
inductive AwaitProgram (ι O R : Type*) : ℕ → Type _
  | done {n : ℕ} (o : O) : AwaitProgram ι O R n
  | await {n : ℕ} (i : ι) (next : R → AwaitProgram ι O R n) : AwaitProgram ι O R (n + 1)

namespace AwaitProgram

/-! ## Calls -/

/-- The program, run as a function that calls the programs it awaits, ends with the outcome. -/
inductive Returns (observe : ι → O → R) (programs : ι → AwaitProgram ι O R n) :
    {m : ℕ} → AwaitProgram ι O R m → O → Prop
  | done {m : ℕ} (o : O) : Returns observe programs (done o : AwaitProgram ι O R m) o
  | await {m : ℕ} {i : ι} {next : R → AwaitProgram ι O R m} {r o : O} :
    Returns observe programs (programs i) r → Returns observe programs (next (observe i r)) o →
      Returns observe programs (await i next) o

variable {observe : ι → O → R} {programs : ι → AwaitProgram ι O R n}

/-- A call has one outcome at most. -/
theorem Returns.det {p : AwaitProgram ι O R m} {o o' : O} (h : Returns observe programs p o)
    (h' : Returns observe programs p o') : o = o' := by
  induction h generalizing o' with
  | done o =>
    cases h'
    rfl
  | await _ _ ihr iho =>
    cases h' with
    | await hr ho =>
      cases ihr hr
      exact iho ho

/-- The programs it awaits meet `P`. -/
def Awaits (P : ι → Prop) : {m : ℕ} → AwaitProgram ι O R m → Prop
  | _, done _ => True
  | _, await i next => P i ∧ ∀ r, (next r).Awaits P

/-! ## Interleavings -/

/-- Where a program is: what it has still to do, or its outcome. -/
inductive Place (ι O R : Type*) where
  | running (m : ℕ) (p : AwaitProgram ι O R m)
  | completed (o : O)

variable [DecidableEq ι]

/-- Program `j` goes on. -/
def step (observe : ι → O → R) (s : ι → Place ι O R) (j : ι) : Option (ι → Place ι O R) :=
  match s j with
  | .running _ (done o) => some (Function.update s j (.completed o))
  | .running _ (@await _ _ _ m i next) =>
    match s i with
    | .completed o => some (Function.update s j (.running m (next (observe i o))))
    | .running _ _ => none
  | .completed _ => none

/-- The machine of the programs, all of them before their first step. -/
def programMachine (observe : ι → O → R) (programs : ι → AwaitProgram ι O R n) :
    Machine (ι → Place ι O R) ι where
  init := fun j => .running n (programs j)
  step := step observe

/-- What a step can do. -/
theorem step_cases {s s' : ι → Place ι O R} {j : ι} (hs : step observe s j = some s') :
    (∃ m o, s j = .running m (done o) ∧ s' = Function.update s j (.completed o)) ∨
    ∃ m i, ∃ next : R → AwaitProgram ι O R m, ∃ o, s j = .running (m + 1) (await i next) ∧
      s i = .completed o ∧ s' = Function.update s j (.running m (next (observe i o))) := by
  unfold step at hs
  split at hs
  · rename_i m o hj
    exact .inl ⟨m, o, hj, (Option.some.inj hs).symm⟩
  · rename_i m i next hj
    split at hs
    · rename_i o hi
      exact .inr ⟨m, i, next, o, hj, hi, (Option.some.inj hs).symm⟩
    · cases hs
  · cases hs

/-- What a place says of the outcome of a program. -/
def PlaceOk (observe : ι → O → R) (programs : ι → AwaitProgram ι O R n) (j : ι) :
    Place ι O R → Prop
  | .running _ p => ∀ o, Returns observe programs p o → Returns observe programs (programs j) o
  | .completed o => Returns observe programs (programs j) o

theorem placeOk_step {s s' : ι → Place ι O R} (h : ∀ j, PlaceOk observe programs j (s j)) {j : ι}
    (hs : step observe s j = some s') (k : ι) : PlaceOk observe programs k (s' k) := by
  obtain ⟨m, o, hj, rfl⟩ | ⟨m, i, next, o, hj, hi, rfl⟩ := step_cases hs <;>
    refine (Function.forall_update_iff s fun k p => PlaceOk observe programs k p).mpr
      ⟨?_, fun k _ => h k⟩ k
  · have hok := h j
    rw [hj] at hok
    exact hok o (.done o)
  · have hok := h j
    have hok' := h i
    rw [hj] at hok
    rw [hi] at hok'
    exact fun o' ho' => hok o' (.await hok' ho')

/-- In every interleaving, a program completes with the outcome of the call. -/
theorem returns_of_completed {s : ι → Place ι O R}
    (h : (programMachine observe programs).Reachable Machine.Any s) {j : ι} {o : O}
    (hj : s j = .completed o) : Returns observe programs (programs j) o := by
  have hok : ∀ j, PlaceOk observe programs j (s j) := by
    refine h.invariant (I := fun s : ι → Place ι O R => ∀ j, PlaceOk observe programs j (s j))
      (fun _ => ?_) fun _ _ _ hi _ hs => placeOk_step hi hs
    exact fun _ ho => ho
  have hj' := hok j
  rw [hj] at hj'
  exact hj'

/-! ## Rest -/

/-- What a running program has still to await meets `P`. -/
def Place.Awaits (P : ι → Prop) : Place ι O R → Prop
  | .running _ p => p.Awaits P
  | .completed _ => True

theorem awaits_step {P : ι → ι → Prop} {s s' : ι → Place ι O R} (h : ∀ j, (s j).Awaits (P j))
    {j : ι} (hs : step observe s j = some s') (k : ι) : (s' k).Awaits (P k) := by
  obtain ⟨m, o, hj, rfl⟩ | ⟨m, i, next, o, hj, hi, rfl⟩ := step_cases hs <;>
    refine (Function.forall_update_iff s fun k p => Place.Awaits (P k) p).mpr
      ⟨?_, fun k _ => h k⟩ k
  · trivial
  · have hok := h j
    rw [hj] at hok
    exact hok.2 _

/-- No program awaits in a circle, and nothing can go on. -/
theorem completed_of_rest {r : ι → ι → Prop} (hr : WellFounded r)
    (hprograms : ∀ j, (programs j).Awaits (r · j)) {s : ι → Place ι O R}
    (h : (programMachine observe programs).Reachable Machine.Any s)
    (hrest : ∀ j, step observe s j = none) (j : ι) : ∃ o, s j = .completed o := by
  have hawaits : ∀ j, (s j).Awaits (r · j) :=
    h.invariant (I := fun s => ∀ j, (s j).Awaits (r · j)) hprograms
      fun _ _ _ hi _ hs => awaits_step hi hs
  induction j using hr.induction with
  | _ j ih =>
    have hnone := hrest j
    cases hj : s j with
    | completed o => exact ⟨o, rfl⟩
    | running m p =>
      cases p with
      | done o => simp [step, hj] at hnone
      | await i next =>
        have hlt := hawaits j
        rw [hj] at hlt
        obtain ⟨o, hi⟩ := ih i hlt.1
        simp [step, hj, hi] at hnone

end AwaitProgram

end Interleaving
