import AsyncCpp.DataFlow.BlockInvariant
import Mathlib.Logic.Relation

/-!
# Rejected calls of `Start` and `Complete`

`Start` increments `_startCallsCount` and `completeCommon` decrements it before either looks
at `_state` (DataFlowBlockCommon.h:184-196, 398-408). A call that throws takes nothing back.
A `Complete()` that comes too early therefore stands for one of the parents of the block:
the block completes one parent too early.

Results:
* `rejected_call_changes_count`: every call that throws leaves `_startCallsCount` changed by
  one.
* `not_rejected_call_changes_nothing`: a join of two blocks that completes with the first.
-/

namespace AsyncCpp.DataFlow

open Interleaving Tasks AsyncPrimitives

variable {Node Item σ ε : Type*}

/-- The two calls that can be rejected. -/
inductive Lifecycle where
  | start
  | complete
  deriving DecidableEq, Repr

/-- The call, up to the first step inside its critical section. -/
def Lifecycle.call (b : Block Node Item σ ε) (caller : Caller Node) :
    Lifecycle → Option (Block Node Item σ ε × Reply Node ε)
  | .start => b.start caller
  | .complete => b.completeCommon caller none

/-- What the call adds to `_startCallsCount`. -/
def Lifecycle.change : Lifecycle → ℤ
  | .start => 1
  | .complete => -1

/-- `c` is block `n` or comes after it. -/
def Network.Downstream (N : Network Node Item σ ε) : Node → Node → Prop :=
  Relation.ReflTransGen fun p c => c ∈ N.outputNodes p

/-- Block `n` and the blocks after it are in `t` what they are in `s`. -/
structure Unchanged (N : Network Node Item σ ε) (n : Node) (s t : Dataflow Node Item σ ε) :
    Prop where
  startCallsCount : ∀ c, N.Downstream n c →
    (t.block c).startCallsCount = (s.block c).startCallsCount
  state : ∀ c, N.Downstream n c → (t.block c).state = (s.block c).state
  processingTask : ∀ c, N.Downstream n c →
    (t.block c).processingTask = (s.block c).processingTask

variable [DecidableEq Node]

/-- A call of block `n` locks `_stateMutex` in the state `s` and throws `e`: at once, or after
    its critical section has run for a while. In the last state the exception has left the
    call. -/
inductive Rejected (N : Network Node Item σ ε) (n : Node) (op : Lifecycle) (e : Exn ε)
    (s : Dataflow Node Item σ ε) : Dataflow Node Item σ ε → Prop
  | atOnce {caller : Caller Node} {b : Block Node Item σ ε}
    (h : op.call (s.block n) caller = some (b, .threw e caller)) :
    Rejected N n op e s ((s.set n b).reply (.threw e caller))
  | later {caller : Caller Node} {b b' : Block Node Item σ ε} {u : Dataflow Node Item σ ε}
    (h : op.call (s.block n) caller = some (b, .inside))
    (hr : (dataflowMachine N).Reaches (fun s _ => (s.block n).stateMutex.isSome) (s.set n b) u)
    (hu : (u.block n).advance = some (b', .reply (.threw e caller))) :
    Rejected N n op e s ((u.set n b').reply (.threw e caller))

/-! ## The counter -/

section

omit [DecidableEq Node]

variable {b b' : Block Node Item σ ε} {caller : Caller Node} {r : Reply Node ε}

theorem Block.start_startCallsCount (h : b.start caller = some (b', r)) :
    b.stateMutex = none ∧ b'.startCallsCount = b.startCallsCount + 1 := by
  unfold Block.start at h
  split at h
  · cases h
  · refine ⟨‹_›, ?_⟩
    simp only at h
    split at h
    all_goals
      cases h
      try rfl

theorem Block.completeCommon_startCallsCount {e : Option (Exn ε)}
    (h : b.completeCommon caller e = some (b', r)) :
    b.stateMutex = none ∧ b'.startCallsCount = b.startCallsCount - 1 := by
  unfold Block.completeCommon at h
  split at h
  · cases h
  · refine ⟨‹_›, ?_⟩
    simp only at h
    split_ifs at h
    · cases h
      rfl
    · split at h
      all_goals
        cases h
        rfl

theorem Lifecycle.call_startCallsCount {op : Lifecycle}
    (h : op.call b caller = some (b', r)) :
    b'.startCallsCount = b.startCallsCount + op.change := by
  cases op with
  | start => exact (Block.start_startCallsCount h).2
  | complete => exact (Block.completeCommon_startCallsCount h).2

end

namespace Dataflow

variable {N : Network Node Item σ ε} {s s' : Dataflow Node Item σ ε} {n : Node}

/-- A nested call of another block leaves the counter of `n`, whose mutex is locked. -/
theorem start_locked (hm : (s.block n).stateMutex.isSome) {c : Node} {caller : Caller Node}
    (hs : s.start c caller = some s') :
    (s'.block n).startCallsCount = (s.block n).startCallsCount := by
  simp only [start, Option.map_eq_some_iff] at hs
  obtain ⟨⟨b, r⟩, hb, rfl⟩ := hs
  have hn : n ≠ c := by
    rintro rfl
    rw [(Block.start_startCallsCount hb).1] at hm
    cases hm
  rw [reply_congr (f := Block.startCallsCount) (fun _ _ => rfl), set_block_of_ne _ _ hn]

theorem completeCommon_locked (hm : (s.block n).stateMutex.isSome) {c : Node}
    {caller : Caller Node} {e : Option (Exn ε)} (hs : s.completeCommon c caller e = some s') :
    (s'.block n).startCallsCount = (s.block n).startCallsCount := by
  simp only [completeCommon, Option.map_eq_some_iff] at hs
  obtain ⟨⟨b, r⟩, hb, rfl⟩ := hs
  have hn : n ≠ c := by
    rintro rfl
    rw [(Block.completeCommon_startCallsCount hb).1] at hm
    cases hm
  rw [reply_congr (f := Block.startCallsCount) (fun _ _ => rfl), set_block_of_ne _ _ hn]

theorem advance_locked (hm : (s.block n).stateMutex.isSome) {m : Node}
    (hs : s.advance m = some s') :
    (s'.block n).startCallsCount = (s.block n).startCallsCount := by
  have hset : ∀ {b r}, (s.block m).advance = some (b, r) →
      ((s.set m b).block n).startCallsCount = (s.block n).startCallsCount := by
    intro b r hb
    refine set_congr (f := Block.startCallsCount) ?_ n
    rw [(Block.advance_eq hb).1]
  -- a call of another block keeps the mutex of the caller
  have hlocked : ∀ {b r}, (s.block m).advance = some (b, r) → (∀ r', r ≠ .reply r') →
      ((s.set m b).block n).stateMutex.isSome := by
    intro b r hb hr
    by_cases hn : n = m
    · subst hn
      rw [set_block_self]
      cases Block.advance_cases hb with
      | startNext | completeNext => rfl
      | _ => exact absurd rfl (hr _)
    · rwa [set_block_of_ne _ _ hn]
  simp only [advance] at hs
  split at hs
  · cases hs
  · rename_i b r hb
    cases hs
    rw [reply_congr (f := Block.startCallsCount) (fun _ _ => rfl)]
    exact hset hb
  · rename_i b c hb
    rw [start_locked (hlocked hb nofun) hs]
    exact hset hb
  · rename_i b c e hb
    rw [completeCommon_locked (hlocked hb nofun) hs]
    exact hset hb

/-- While `_stateMutex` of `n` is locked its counter does not change. -/
theorem step_locked (hm : (s.block n).stateMutex.isSome) {a : DataflowLabel Node Item ε}
    (hs : s.step N a = some s') :
    (s'.block n).startCallsCount = (s.block n).startCallsCount := by
  have hquiet : a.movesItems → (s'.block n).startCallsCount = (s.block n).startCallsCount := by
    intro ha
    refine step_congr (f := Block.startCallsCount) (fun _ _ _ hb => ?_) (fun _ _ => rfl)
      (fun _ _ => rfl) hs ha n
    cases Block.process_cases hb <;> rfl
  cases a with
  | process m | runCall k | acceptInputAsync m item => exact hquiet rfl
  | start m =>
    unfold step at hs
    split_ifs at hs
    exact start_locked hm hs
  | complete m | setFaulted m e =>
    unfold step at hs
    split_ifs at hs
    exact completeCommon_locked hm hs
  | advance m =>
    unfold step at hs
    split_ifs at hs
    exact advance_locked hm hs
  | runFaultThread m =>
    unfold step at hs
    split_ifs at hs
    simp only at hs
    split at hs
    · cases hs
    · rw [completeCommon_locked _ hs]
      · exact set_congr (f := Block.startCallsCount) (by rfl) n
      · rw [set_congr (f := Block.stateMutex) (by rfl) n]
        exact hm

end Dataflow

/-- The counter over a whole rejected call. -/
theorem Rejected.startCallsCount {N : Network Node Item σ ε} {n : Node} {op : Lifecycle}
    {e : Exn ε} {s t : Dataflow Node Item σ ε} (h : Rejected N n op e s t) :
    (t.block n).startCallsCount = (s.block n).startCallsCount + op.change := by
  cases h with
  | atOnce h =>
    rw [Dataflow.reply_congr (f := Block.startCallsCount) (fun _ _ => rfl),
      Dataflow.set_block_self]
    exact Lifecycle.call_startCallsCount h
  | @later caller b b' u h hr hu =>
    have hrun : (u.block n).startCallsCount = ((s.set n b).block n).startCallsCount :=
      hr.preserves (I := fun u : Dataflow Node Item σ ε =>
          (u.block n).startCallsCount = ((s.set n b).block n).startCallsCount)
        (fun _ _ _ hi hm hs => (Dataflow.step_locked hm hs).trans hi) rfl
    rw [Dataflow.reply_congr (f := Block.startCallsCount) (fun _ _ => rfl),
      Dataflow.set_block_self, (Block.advance_eq hu).1, hrun, Dataflow.set_block_self]
    exact Lifecycle.call_startCallsCount h

/-- A call of `Start` or `Complete` that throws changes `_startCallsCount` of its block by one,
    so it never leaves the block unchanged. -/
theorem rejected_call_changes_count {N : Network Node Item σ ε} {n : Node} {op : Lifecycle}
    {e : Exn ε} {s t : Dataflow Node Item σ ε} (h : Rejected N n op e s t) :
    (t.block n).startCallsCount = (s.block n).startCallsCount + op.change ∧
      ¬ Unchanged N n s t := by
  refine ⟨h.startCallsCount, fun hsame => ?_⟩
  have hcount := hsame.startCallsCount n .refl
  rw [h.startCallsCount] at hcount
  cases op <;> simp [Lifecycle.change] at hcount

/-- A join of two blocks, `some true` and `some false`. -/
def joinNetwork : Network (Option Bool) ℕ Unit Unit where
  outputNodes n := if n.isSome then [none] else []
  canAcceptFunc _ _ := true
  transformFunc _ _ x := (.ok x, ())
  initialState _ := ()

/-- `Complete()` of the join before anything is started. -/
theorem rejected_call_changes_count_join :
    ∃ t, Rejected joinNetwork none .complete (.logicError "Could not stop node.")
        (dataflowMachine joinNetwork).init t ∧
      (t.block none).startCallsCount = -1 ∧ ¬ Unchanged joinNetwork none
        (dataflowMachine joinNetwork).init t := by
  have hcall : Lifecycle.complete.call ((dataflowMachine joinNetwork).init.block none) .user =
      some (_, .threw (.logicError "Could not stop node.") .user) := rfl
  have h : Rejected joinNetwork none .complete _ (dataflowMachine joinNetwork).init _ :=
    .atOnce hcall
  exact ⟨_, h, (rejected_call_changes_count h).1, (rejected_call_changes_count h).2⟩

/-- The user leaves block `n` alone, and faults no block. -/
def LeavesAlone (n : Node) : DataflowLabel Node Item ε → Prop
  | .start m | .complete m => m ≠ n
  | .setFaulted _ _ => False
  | .acceptInputAsync _ _ | .runCall _ | .advance _ | .process _ | .runFaultThread _ => True

instance (n : Node) : DecidablePred (LeavesAlone n : DataflowLabel Node Item ε → Prop)
  | .start _ | .complete _ => inferInstanceAs (Decidable (_ ≠ _))
  | .setFaulted _ _ => inferInstanceAs (Decidable False)
  | .acceptInputAsync _ _ | .runCall _ | .advance _ | .process _ | .runFaultThread _ =>
    inferInstanceAs (Decidable True)

/-- Both parents are started, and the first is completed. -/
def closingRun : List (DataflowLabel (Option Bool) ℕ Unit) :=
  [DataflowLabel.start (some true), .advance (some true), .advance none, .advance (some true),
    .start (some false), .advance (some false), .advance (some false), .complete (some true)] ++
    List.replicate 4 (DataflowLabel.advance (some true)) ++
    List.replicate 3 (DataflowLabel.process (some true)) ++
    List.replicate 2 (DataflowLabel.advance (some true)) ++
    List.replicate 4 (DataflowLabel.advance none) ++
    List.replicate 3 (DataflowLabel.process none) ++ [DataflowLabel.advance none]

/-- A rejected `Complete()` of the join is not without effect, and after it the join completes
    while one of its parents is still running. -/
theorem not_rejected_call_changes_nothing :
    (¬ ∀ (n : Option Bool) (op : Lifecycle) (e : Exn Unit) (s t : Dataflow _ ℕ Unit Unit),
      (dataflowMachine joinNetwork).Reachable Machine.Any s → Rejected joinNetwork n op e s t →
        Unchanged joinNetwork n s t) ∧
    ¬ ∀ (n : Option Bool) (e : Exn Unit) (s t u : Dataflow _ ℕ Unit Unit),
      (dataflowMachine joinNetwork).Reachable Machine.Any s → (s.block n).state = .created →
        Rejected joinNetwork n .complete e s t →
          (dataflowMachine joinNetwork).Reaches (fun _ a => LeavesAlone n a) t u →
            (u.block n).state = .stopped →
              ∀ p, n ∈ joinNetwork.outputNodes p → (u.block p).state = .stopped := by
  have hcall : Lifecycle.complete.call ((dataflowMachine joinNetwork).init.block none) .user =
      some (_, .threw (.logicError "Could not stop node.") .user) := rfl
  obtain ⟨t, h, u, hr, hstopped, hstarted⟩ :
      ∃ t, Rejected joinNetwork none .complete (.logicError "Could not stop node.")
          (dataflowMachine joinNetwork).init t ∧
        ∃ u, (dataflowMachine joinNetwork).runWhile (fun _ a => decide (LeavesAlone none a)) t
            closingRun = some u ∧
          (u.block none).state = .stopped ∧ (u.block (some false)).state = .started := by
    refine ⟨_, .atOnce hcall, _, rfl, ?_, ?_⟩
    · rfl
    · rfl
  refine ⟨fun hall => ?_, fun hall => ?_⟩
  · have hcount := (hall _ _ _ _ _ .init h).startCallsCount none .refl
    cases h.startCallsCount.symm.trans hcount
  · have hp := hall none _ _ _ _ .init rfl h (.of_runWhile (by simp) _ hr) hstopped (some false)
      List.mem_cons_self
    cases hstarted.symm.trans hp

end AsyncCpp.DataFlow
