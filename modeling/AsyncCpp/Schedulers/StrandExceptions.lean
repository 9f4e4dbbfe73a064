import AsyncCpp.Schedulers.StrandSchedulerDecorator

/-!
# Strand items that throw

The wrapped function of a strand calls the original function and then
`markStrandOperationAsDone` (StrandSchedulerDecorator.cpp:54-69), with no `try` and no
`FinallyBlock` around the two. An exception of the original function goes past
`markStrandOperationAsDone` to the inner scheduler, which survives it here, and
`_operationInProgress` stays set.

Results:
* `throwing_item_keeps_strand_iff`: the strand goes on after its items, whatever they do,
  exactly when none of them throws.
-/

namespace AsyncCpp.Schedulers

open Interleaving

namespace StrandSchedulerDecorator

/-- One step over an inner scheduler that is not serialized, where the original functions of
    the items `throws` throw. -/
def stepThrowing (throws : ℕ → Bool) (s : StrandSchedulerDecorator) :
    StrandLabel → Option StrandSchedulerDecorator
  | .finish k =>
    if throws k then
      if k ∈ s.running then
        some { s with running := s.running.erase k, finished := s.finished ++ [k] }
      else none
    else s.step false (.finish k)
  | a => s.step false a

/-- The item whose wrapped function is in `markStrandOperationAsDone`, or which is being
    handed to the inner scheduler. -/
def owned : Option (StrandCaller × StrandPc) → List ℕ
  | some (.markStrandOperationAsDone k, _) | some (.onEnqueueItem _, .runOnOriginalScheduler k) => [k]
  | _ => []

/-- The items handed to the inner scheduler, or whose wrapped function is running. -/
def atWork (s : StrandSchedulerDecorator) : List ℕ := s.inProgress ++ owned s.queueMutex

end StrandSchedulerDecorator

open StrandSchedulerDecorator

/-- The machine of a new strand whose items `throws` throw. -/
def throwingStrandMachine (throws : ℕ → Bool) : Machine StrandSchedulerDecorator StrandLabel where
  init := {}
  step := stepThrowing throws

/-- The strand goes on after its items: they begin in the order in which they were enqueued,
    each once; where no item is at work the flag is down and the queue empty; and without
    further calls the strand comes to rest, where every item has run. -/
structure GoesOn (throws : ℕ → Bool) (s : StrandSchedulerDecorator) : Prop where
  order : s.started <+: s.enqueued ∧ s.enqueued.Nodup
  free : s.atWork = [] → s.operationInProgress = false ∧ s.strandQueue = []
  decreasing : ∀ a s', a ≠ .enqueueItem → s.stepThrowing throws a = some s' →
    s'.remaining < s.remaining
  rest : (∀ a, a ≠ .enqueueItem → s.stepThrowing throws a = none) →
    s.started = s.enqueued ∧ s.finished = s.enqueued ∧ s.enqueued.Perm (List.range s.calls)

/-! ## No item throws -/

/-- The owner of `_queueMutex` has read the flag down before it sets it. -/
def FlagRead (s : StrandSchedulerDecorator) : Prop :=
  ∀ caller k, s.queueMutex = some (caller, .storeTrue k) → s.operationInProgress = false

theorem FlagRead.step {s s' : StrandSchedulerDecorator} {a : StrandLabel} (h : FlagRead s)
    (hs : s.step false a = some s') : FlagRead s' := by
  cases a with
  | enqueueItem =>
    cases hs
    exact h
  | advance =>
    cases advance_cases hs with
    | idle hm hp => exact fun _ _ _ => hp
    | storeFalse hm | nothing hm | dequeued hm | busy hm | storeTrue hm | handOver hm | push hm
    | enqueued hm | marked hm =>
      intro caller k hk
      cases hk
  | lock k | mark k =>
    simp only [StrandSchedulerDecorator.step] at hs
    split at hs <;> cases hs
    intro caller k hk
    cases hk
  | start k | finish k =>
    simp only [StrandSchedulerDecorator.step] at hs
    split at hs <;> cases hs
    exact h

theorem reachable_flagRead {s : StrandSchedulerDecorator}
    (h : (strandMachine false).Reachable Machine.Any s) : FlagRead s :=
  h.invariant (fun _ _ hm => nomatch hm) fun _ _ _ hi _ hs => hi.step hs

/-- Where no item is at work, the flag is down and the queue empty. -/
theorem StrandInv.free {s : StrandSchedulerDecorator} (h : StrandInv s) (hread : FlagRead s)
    (hw : s.atWork = []) : s.operationInProgress = false ∧ s.strandQueue = [] := by
  obtain ⟨hin, hown⟩ := List.append_eq_nil_iff.mp hw
  have hrest : s.AtRest → s.operationInProgress = false ∧ s.strandQueue = [] := by
    rintro ⟨hlen, hne⟩
    rw [hin] at hlen
    have hflag : s.operationInProgress = false := by
      cases hp : s.operationInProgress
      · rfl
      · rw [hp] at hlen
        cases hlen
    refine ⟨hflag, by_contra fun hq => ?_⟩
    cases hflag.symm.trans (hne hq)
  have hf := h.flag
  unfold FlagOk at hf
  split at hf
  case h_1 | h_2 => exact hrest hf
  case h_3 k pc _ hm =>
    split at hf
    · exact hrest hf
    · rw [hin] at hf
      cases hf.1
    · exact ⟨hread _ _ hm, hf.2⟩
    · rw [hm] at hown
      cases hown
    · exact hf.elim
  case h_4 hm =>
    rw [hm] at hown
    cases hown

/-- A strand whose items return is the strand. -/
theorem throwingStrandMachine_eq {throws : ℕ → Bool} (h : ∀ k, throws k = false) :
    throwingStrandMachine throws = strandMachine false := by
  have hstep : stepThrowing throws = StrandSchedulerDecorator.step false := by
    funext s a
    cases a with
    | finish k => simp only [stepThrowing, h k, Bool.false_eq_true, if_false]
    | _ => rfl
  rw [throwingStrandMachine, hstep]
  rfl

theorem goesOn_of_returns {throws : ℕ → Bool} (hthrows : ∀ k, throws k = false)
    {s : StrandSchedulerDecorator}
    (h : (throwingStrandMachine throws).Reachable Machine.Any s) : GoesOn throws s := by
  have hstep : stepThrowing throws = StrandSchedulerDecorator.step false :=
    congrArg Machine.step (throwingStrandMachine_eq hthrows)
  rw [throwingStrandMachine_eq hthrows] at h
  have hi := reachable_strandInv h
  have hcalls := hi.calls
  refine ⟨⟨?_, ?_⟩, hi.free (reachable_flagRead h), ?_, ?_⟩
  · rw [hi.order]
    simp only [List.append_assoc]
    exact List.prefix_append _ _
  · exact (List.nodup_append.mp (hcalls.nodup_iff.mpr List.nodup_range)).1
  · rw [hstep]
    exact fun a s' => remaining_step
  · rw [hstep]
    intro hq
    obtain ⟨hw, hst, hfi⟩ := hi.quiescent hq
    rw [hw, List.append_nil] at hcalls
    exact ⟨hst, hfi, hcalls⟩

/-! ## An item throws -/

/-- `n` calls of `EnqueueItem` before the first takes `_queueMutex`. -/
theorem reaches_calls (throws : ℕ → Bool) (n : ℕ) :
    (throwingStrandMachine throws).Reachable Machine.Any
      { calls := n, waiting := List.range n } := by
  induction n with
  | zero => exact .init
  | succ n ih =>
    refine ih.step (a := .enqueueItem) trivial ?_
    rw [List.range_succ]
    rfl

/-- The item enqueued first throws, and nobody takes the flag down. -/
theorem exists_stuck {throws : ℕ → Bool} {k : ℕ} (hk : throws k = true) :
    ∃ s, (throwingStrandMachine throws).Reachable Machine.Any s ∧ s.atWork = [] ∧
      s.operationInProgress = true := by
  have hrun : (throwingStrandMachine throws).run { calls := k + 1, waiting := List.range (k + 1) }
      [.lock k, .advance, .advance, .advance, .advance, .start k, .finish k] = some
      { calls := k + 1, waiting := (List.range (k + 1)).erase k, enqueued := [k], started := [k]
        finished := [k], returned := [k], operationInProgress := true } := by
    simp [Machine.run, throwingStrandMachine, stepThrowing, StrandSchedulerDecorator.step,
      StrandSchedulerDecorator.advance, hk]
  exact ⟨_, (reaches_calls throws (k + 1)).trans (.of_run hrun), rfl, rfl⟩

/-- The strand goes on after its items, over an inner scheduler that survives their
    exceptions and is not serialized, exactly when no item throws. -/
theorem throwing_item_keeps_strand_iff (throws : ℕ → Bool) :
    (∀ s, (throwingStrandMachine throws).Reachable Machine.Any s → GoesOn throws s) ↔
      ∀ k, throws k = false := by
  constructor
  · intro h k
    by_contra hk
    obtain ⟨s, hs, hwork, hflag⟩ := exists_stuck (Bool.not_eq_false _ ▸ hk)
    cases hflag.symm.trans ((h s hs).free hwork).1
  · intro hthrows s hs
    exact goesOn_of_returns hthrows hs

/-- The first of two items throws: the second stays in the queue for good. -/
theorem not_throwing_item_keeps_strand :
    ¬ ∀ throws s, (throwingStrandMachine throws).Reachable Machine.Any s → GoesOn throws s := by
  intro h
  have hrun : (throwingStrandMachine fun k => k = 0).run {} [.enqueueItem, .enqueueItem, .lock 0,
    .advance, .advance, .advance, .advance, .start 0, .finish 0, .lock 1, .advance, .advance,
    .advance] = some _ := rfl
  obtain ⟨-, hq⟩ := (h _ _ (.of_run hrun)).free rfl
  cases hq

end AsyncCpp.Schedulers
