import AsyncCpp.Lib.Machine
import Mathlib.Data.List.Perm.Basic
import Mathlib.Data.List.Range

/-!
# `StrandSchedulerDecorator`

Model of Schedulers/StrandSchedulerDecorator.cpp. `_queueMutex` is held by a call of
`EnqueueItem` or by a wrapped item whose original function has returned; every access
inside the lock is one step. The inner scheduler runs each item handed to it once, at a
later time, on any thread and in any order.

Calls of `EnqueueItem` are numbered in the order they are made; a call's number is its
item. Items are enqueued in the order in which their calls take the lock.

Results:
* `strand_serializes`: over an inner scheduler that is not serialized, at most one item is
  handed over or running, items run in the order in which they were enqueued, no item is
  stranded, and where nothing can go on every item has run once.
-/

namespace AsyncCpp.Schedulers

open Interleaving

/-! ## The strand and its inner scheduler -/

/-- Who holds `_queueMutex`. -/
inductive StrandCaller where
  | onEnqueueItem (k : ℕ)
  | markStrandOperationAsDone (k : ℕ)
  deriving DecidableEq, Repr

/-- Where the owner of `_queueMutex` is. -/
inductive StrandPc where
  /-- `markStrandOperationAsDone` before `_operationInProgress.store(false)`. -/
  | storeFalse
  | tryDequeItem
  /-- `tryRunItem` of item `k` before `_operationInProgress.load()`. -/
  | tryRunItem (k : ℕ)
  /-- `tryRunItem` before `_operationInProgress.store(true)`. -/
  | storeTrue (k : ℕ)
  | runOnOriginalScheduler (k : ℕ)
  | push (k : ℕ)
  | unlock
  deriving DecidableEq, Repr

/-- The strand, the `EnqueueItem` calls before the lock, and the items the inner scheduler
    has been handed, those whose original function runs, and those before
    `markStrandOperationAsDone`. The last five fields are history: the number of calls
    made, the items in the order their calls took the lock, the calls that returned, and
    the items whose original function began and ended. -/
structure StrandSchedulerDecorator where
  strandQueue : List ℕ := []
  queueMutex : Option (StrandCaller × StrandPc) := none
  operationInProgress : Bool := false
  waiting : List ℕ := []
  handed : List ℕ := []
  running : List ℕ := []
  marking : List ℕ := []
  calls : ℕ := 0
  enqueued : List ℕ := []
  returned : List ℕ := []
  started : List ℕ := []
  finished : List ℕ := []

inductive StrandLabel where
  /-- `EnqueueItem` is called. -/
  | enqueueItem
  /-- The call with item `k` takes `_queueMutex`. -/
  | lock (k : ℕ)
  /-- The wrapped item `k` takes `_queueMutex`. -/
  | mark (k : ℕ)
  /-- The owner of `_queueMutex` goes on. -/
  | advance
  /-- The inner scheduler begins to run item `k`. -/
  | start (k : ℕ)
  /-- The original function of item `k` returns. -/
  | finish (k : ℕ)

namespace StrandSchedulerDecorator

/-- The owner of `_queueMutex` moves to `pc`. -/
@[simp] def goto (s : StrandSchedulerDecorator) (caller : StrandCaller) (pc : StrandPc) :
    StrandSchedulerDecorator :=
  { s with queueMutex := some (caller, pc) }

/-- The owner of `_queueMutex` goes on (StrandSchedulerDecorator.cpp:64-97). -/
def advance (s : StrandSchedulerDecorator) : Option StrandSchedulerDecorator :=
  match s.queueMutex with
  | none => none
  | some (caller, .storeFalse) =>
    some { s.goto caller .tryDequeItem with operationInProgress := false }
  | some (caller, .tryDequeItem) =>
    match s.strandQueue with
    | [] => some (s.goto caller .unlock)
    | k :: strandQueue => some { s.goto caller (.tryRunItem k) with strandQueue := strandQueue }
  | some (caller, .tryRunItem k) =>
    if s.operationInProgress then some (s.goto caller (.push k))
    else some (s.goto caller (.storeTrue k))
  | some (caller, .storeTrue k) =>
    some { s.goto caller (.runOnOriginalScheduler k) with operationInProgress := true }
  | some (caller, .runOnOriginalScheduler k) =>
    some { s.goto caller .unlock with handed := s.handed ++ [k] }
  | some (caller, .push k) =>
    some { s.goto caller .unlock with strandQueue := s.strandQueue ++ [k] }
  | some (.onEnqueueItem k, .unlock) =>
    some { s with queueMutex := none, returned := s.returned ++ [k] }
  | some (.markStrandOperationAsDone _, .unlock) => some { s with queueMutex := none }

/-- One step over an inner scheduler that is serialized or not. A serialized one gets the
    original function, and nothing follows its return (StrandSchedulerDecorator.cpp:35-62). -/
def step (isMethodInvocationSerialized : Bool) (s : StrandSchedulerDecorator) :
    StrandLabel → Option StrandSchedulerDecorator
  | .enqueueItem =>
    if isMethodInvocationSerialized then
      some { s with
        calls := s.calls + 1
        enqueued := s.enqueued ++ [s.calls]
        handed := s.handed ++ [s.calls]
        returned := s.returned ++ [s.calls] }
    else some { s with calls := s.calls + 1, waiting := s.waiting ++ [s.calls] }
  | .lock k =>
    if k ∈ s.waiting ∧ s.queueMutex.isNone then
      some { s.goto (.onEnqueueItem k) (.tryRunItem k) with
        waiting := s.waiting.erase k, enqueued := s.enqueued ++ [k] }
    else none
  | .mark k =>
    if k ∈ s.marking ∧ s.queueMutex.isNone then
      some { s.goto (.markStrandOperationAsDone k) .storeFalse with
        marking := s.marking.erase k }
    else none
  | .advance => s.advance
  | .start k =>
    if k ∈ s.handed then
      some { s with
        handed := s.handed.erase k, running := s.running ++ [k], started := s.started ++ [k] }
    else none
  | .finish k =>
    if k ∈ s.running then
      some { s with
        running := s.running.erase k
        marking := if isMethodInvocationSerialized then s.marking else s.marking ++ [k]
        finished := s.finished ++ [k] }
    else none

/-- What the owner of `_queueMutex` does in one step. -/
inductive SectionStep (s : StrandSchedulerDecorator) : StrandSchedulerDecorator → Prop
  | storeFalse {caller : StrandCaller} (hm : s.queueMutex = some (caller, .storeFalse)) :
    SectionStep s { s.goto caller .tryDequeItem with operationInProgress := false }
  | nothing {caller : StrandCaller} (hm : s.queueMutex = some (caller, .tryDequeItem))
    (hq : s.strandQueue = []) : SectionStep s (s.goto caller .unlock)
  | dequeued {caller : StrandCaller} {k : ℕ} {strandQueue : List ℕ}
    (hm : s.queueMutex = some (caller, .tryDequeItem)) (hq : s.strandQueue = k :: strandQueue) :
    SectionStep s { s.goto caller (.tryRunItem k) with strandQueue := strandQueue }
  | busy {caller : StrandCaller} {k : ℕ} (hm : s.queueMutex = some (caller, .tryRunItem k))
    (hp : s.operationInProgress = true) : SectionStep s (s.goto caller (.push k))
  | idle {caller : StrandCaller} {k : ℕ} (hm : s.queueMutex = some (caller, .tryRunItem k))
    (hp : s.operationInProgress = false) : SectionStep s (s.goto caller (.storeTrue k))
  | storeTrue {caller : StrandCaller} {k : ℕ}
    (hm : s.queueMutex = some (caller, .storeTrue k)) :
    SectionStep s { s.goto caller (.runOnOriginalScheduler k) with operationInProgress := true }
  | handOver {caller : StrandCaller} {k : ℕ}
    (hm : s.queueMutex = some (caller, .runOnOriginalScheduler k)) :
    SectionStep s { s.goto caller .unlock with handed := s.handed ++ [k] }
  | push {caller : StrandCaller} {k : ℕ} (hm : s.queueMutex = some (caller, .push k)) :
    SectionStep s { s.goto caller .unlock with strandQueue := s.strandQueue ++ [k] }
  | enqueued {k : ℕ} (hm : s.queueMutex = some (.onEnqueueItem k, .unlock)) :
    SectionStep s { s with queueMutex := none, returned := s.returned ++ [k] }
  | marked {k : ℕ} (hm : s.queueMutex = some (.markStrandOperationAsDone k, .unlock)) :
    SectionStep s { s with queueMutex := none }

theorem advance_cases {s s' : StrandSchedulerDecorator} (hs : s.advance = some s') :
    SectionStep s s' := by
  unfold advance at hs
  split at hs
  case h_1 => cases hs
  case h_2 hm => cases hs; exact .storeFalse hm
  case h_3 hm =>
    split at hs
    case h_1 hq => cases hs; exact .nothing hm hq
    case h_2 hq => cases hs; exact .dequeued hm hq
  case h_4 hm =>
    split_ifs at hs with hp
    · cases hs; exact .busy hm hp
    · cases hs; exact .idle hm (Bool.not_eq_true _ ▸ hp)
  case h_5 hm => cases hs; exact .storeTrue hm
  case h_6 hm => cases hs; exact .handOver hm
  case h_7 hm => cases hs; exact .push hm
  case h_8 hm => cases hs; exact .enqueued hm
  case h_9 hm => cases hs; exact .marked hm

end StrandSchedulerDecorator

/-- The machine of a new strand. -/
def strandMachine (isMethodInvocationSerialized : Bool) :
    Machine StrandSchedulerDecorator StrandLabel where
  init := {}
  step := StrandSchedulerDecorator.step isMethodInvocationSerialized

/-! ## The invariant -/

namespace StrandSchedulerDecorator

/-- The items handed over, running, or before `markStrandOperationAsDone`. -/
def inProgress (s : StrandSchedulerDecorator) : List ℕ := s.handed ++ s.running ++ s.marking

/-- The item the owner of `_queueMutex` has taken from the front of the queue. -/
def front : Option (StrandCaller × StrandPc) → List ℕ
  | some (.markStrandOperationAsDone _, .tryRunItem k)
  | some (.markStrandOperationAsDone _, .storeTrue k)
  | some (.markStrandOperationAsDone _, .runOnOriginalScheduler k) => [k]
  | _ => []

/-- The item of the call that owns `_queueMutex`, as long as it is nowhere else. -/
def back : Option (StrandCaller × StrandPc) → List ℕ
  | some (.onEnqueueItem _, .tryRunItem k) | some (.onEnqueueItem _, .storeTrue k)
  | some (.onEnqueueItem _, .runOnOriginalScheduler k) | some (.onEnqueueItem _, .push k) => [k]
  | _ => []

/-- The flag says whether an item is in progress, and no queue waits for nothing. -/
def AtRest (s : StrandSchedulerDecorator) : Prop :=
  s.inProgress.length = s.operationInProgress.toNat ∧ (s.strandQueue ≠ [] → s.operationInProgress)

/-- How the flag, the queue and the item in progress fit together, by what the owner of
    `_queueMutex` is about to do. -/
def FlagOk (s : StrandSchedulerDecorator) : Prop :=
  match s.queueMutex with
  | none | some (_, .unlock) => s.AtRest
  | some (.onEnqueueItem _, pc) =>
    match pc with
    | .tryRunItem _ => s.AtRest
    | .push _ => s.inProgress.length = 1 ∧ s.operationInProgress
    | .storeTrue _ => s.inProgress.length = 0 ∧ s.strandQueue = []
    | .runOnOriginalScheduler _ =>
      s.inProgress.length = 0 ∧ s.strandQueue = [] ∧ s.operationInProgress
    | _ => False
  | some (.markStrandOperationAsDone _, pc) =>
    match pc with
    | .storeFalse => s.inProgress.length = 0
    | .tryDequeItem => s.inProgress.length = 0 ∧ s.operationInProgress = false
    | .tryRunItem _ | .storeTrue _ =>
      s.inProgress.length = 0 ∧ s.operationInProgress = false
    | .runOnOriginalScheduler _ => s.inProgress.length = 0 ∧ s.operationInProgress
    | _ => False

end StrandSchedulerDecorator

open StrandSchedulerDecorator

/-- What holds in every state of a strand over an inner scheduler that is not serialized. -/
structure StrandInv (s : StrandSchedulerDecorator) : Prop where
  flag : s.FlagOk
  order : s.enqueued = s.started ++ s.handed ++ front s.queueMutex ++ s.strandQueue ++
    back s.queueMutex
  begun : s.started = s.finished ++ s.running
  calls : (s.enqueued ++ s.waiting).Perm (List.range s.calls)
  owner : ∀ k pc, s.queueMutex = some (.onEnqueueItem k, pc) → k ∈ s.enqueued
  returned : s.returned ⊆ s.enqueued

theorem eq_singleton_of_mem {a b : List ℕ} {k : ℕ} (h : (a ++ b).length ≤ 1) (hk : k ∈ a) :
    a = [k] ∧ b = [] := by
  rw [List.length_append] at h
  have hpos := List.length_pos_of_mem hk
  obtain ⟨x, rfl⟩ := List.length_eq_one_iff.mp (show a.length = 1 by omega)
  refine ⟨by rw [List.mem_singleton.mp hk], List.eq_nil_of_length_eq_zero ?_⟩
  rw [List.length_singleton] at h
  omega

namespace StrandInv

variable {s s' : StrandSchedulerDecorator} {k : ℕ}

theorem flag_congr (h : s.FlagOk) (hm : s'.queueMutex = s.queueMutex)
    (hq : s'.strandQueue = s.strandQueue) (ho : s'.operationInProgress = s.operationInProgress)
    (hl : s'.inProgress.length = s.inProgress.length) : s'.FlagOk := by
  unfold FlagOk AtRest at h ⊢
  rw [hm, hq, ho, hl]
  exact h

theorem length_le_of_atRest (h : s.AtRest) : s.inProgress.length ≤ 1 :=
  h.1.le.trans (Bool.toNat_le _)

/-- At most one item is in progress. -/
theorem length_inProgress_le (h : StrandInv s) : s.inProgress.length ≤ 1 := by
  have hf := h.flag
  unfold FlagOk at hf
  split at hf
  case h_1 | h_2 => exact length_le_of_atRest hf
  case h_3 =>
    split at hf
    · exact length_le_of_atRest hf
    · exact hf.1.le
    · omega
    · omega
    · exact hf.elim
  case h_4 =>
    split at hf
    all_goals first | omega | exact hf.elim

/-- An item that was handed over is the only one in progress. -/
theorem handed_eq (h : StrandInv s) (hk : k ∈ s.handed) :
    s.handed = [k] ∧ s.running = [] ∧ s.marking = [] := by
  have hl := h.length_inProgress_le
  unfold inProgress at hl
  rw [List.append_assoc] at hl
  obtain ⟨ha, hb⟩ := eq_singleton_of_mem hl hk
  exact ⟨ha, List.append_eq_nil_iff.mp hb⟩

/-- An item that runs is the only one in progress. -/
theorem running_eq (h : StrandInv s) (hk : k ∈ s.running) :
    s.handed = [] ∧ s.running = [k] ∧ s.marking = [] := by
  have hl := h.length_inProgress_le
  have hperm : (s.running ++ (s.handed ++ s.marking)).length = s.inProgress.length := by
    simp only [inProgress, List.length_append]
    omega
  obtain ⟨ha, hb⟩ := eq_singleton_of_mem (hperm.trans_le hl) hk
  obtain ⟨hh, hm⟩ := List.append_eq_nil_iff.mp hb
  exact ⟨hh, ha, hm⟩

/-- An item before `markStrandOperationAsDone` is the only one in progress. -/
theorem marking_eq (h : StrandInv s) (hk : k ∈ s.marking) :
    s.handed = [] ∧ s.running = [] ∧ s.marking = [k] := by
  have hl := h.length_inProgress_le
  have hperm : (s.marking ++ (s.handed ++ s.running)).length = s.inProgress.length := by
    simp only [inProgress, List.length_append]
    omega
  obtain ⟨ha, hb⟩ := eq_singleton_of_mem (hperm.trans_le hl) hk
  obtain ⟨hh, hr⟩ := List.append_eq_nil_iff.mp hb
  exact ⟨hh, hr, ha⟩

theorem enqueueItem (h : StrandInv s) : StrandInv
    { s with calls := s.calls + 1, waiting := s.waiting ++ [s.calls] } where
  flag := h.flag
  order := h.order
  begun := h.begun
  calls := by
    rw [← List.append_assoc, List.range_succ]
    exact h.calls.append_right _
  owner := h.owner
  returned := h.returned

theorem lock (h : StrandInv s) (hk : k ∈ s.waiting) (hm : s.queueMutex = none) : StrandInv
    { s.goto (.onEnqueueItem k) (.tryRunItem k) with
      waiting := s.waiting.erase k, enqueued := s.enqueued ++ [k] } where
  flag := by
    have hf := h.flag
    rw [FlagOk, hm] at hf
    exact hf
  order := by
    have ho := h.order
    rw [hm] at ho
    simp [front, back, ho]
  begun := h.begun
  calls := by
    refine List.Perm.trans ?_ h.calls
    rw [List.append_assoc]
    exact (List.perm_cons_erase hk).symm.append_left _
  owner := by
    rintro i pc ⟨⟩
    simp
  returned := fun i hi => List.mem_append_left _ (h.returned hi)

theorem mark (h : StrandInv s) (hk : k ∈ s.marking) (hm : s.queueMutex = none) : StrandInv
    { s.goto (.markStrandOperationAsDone k) .storeFalse with marking := s.marking.erase k } where
  flag := by
    obtain ⟨h1, h2, h3⟩ := h.marking_eq hk
    simp [FlagOk, inProgress, h1, h2, h3]
  order := by
    have ho := h.order
    rw [hm] at ho
    exact ho
  begun := h.begun
  calls := h.calls
  owner := nofun
  returned := h.returned

theorem start (h : StrandInv s) (hk : k ∈ s.handed) : StrandInv
    { s with
      handed := s.handed.erase k, running := s.running ++ [k], started := s.started ++ [k] } := by
  obtain ⟨h1, h2, h3⟩ := h.handed_eq hk
  refine ⟨flag_congr h.flag rfl rfl rfl ?_, ?_, ?_, h.calls, h.owner, h.returned⟩
  · simp [inProgress, h1, h2, h3]
  · have ho := h.order
    simpa [h1] using ho
  · simp [h.begun]

theorem finish (h : StrandInv s) (hk : k ∈ s.running) : StrandInv
    { s with
      running := s.running.erase k, marking := s.marking ++ [k]
      finished := s.finished ++ [k] } := by
  obtain ⟨h1, h2, h3⟩ := h.running_eq hk
  refine ⟨flag_congr h.flag rfl rfl rfl ?_, h.order, ?_, h.calls, h.owner, h.returned⟩
  · simp [inProgress, h1, h2, h3]
  · simp [h.begun, h2]

/-- The owner of `_queueMutex` does something the calls and the items that run do not see. -/
theorem section_step (h : StrandInv s) {caller : StrandCaller} {pc pc' : StrandPc}
    (hm : s.queueMutex = some (caller, pc)) (hm' : s'.queueMutex = some (caller, pc'))
    (hr : s'.running = s.running) (hst : s'.started = s.started)
    (hfi : s'.finished = s.finished) (hen : s'.enqueued = s.enqueued)
    (hw : s'.waiting = s.waiting) (hc : s'.calls = s.calls) (hret : s'.returned = s.returned)
    (hflag : s'.FlagOk)
    (ho : s'.handed ++ front s'.queueMutex ++ s'.strandQueue ++ back s'.queueMutex =
      s.handed ++ front s.queueMutex ++ s.strandQueue ++ back s.queueMutex) :
    StrandInv s' where
  flag := hflag
  order := by
    have hord := h.order
    simp only [List.append_assoc] at ho hord ⊢
    rw [hen, hst, ho, hord]
  begun := by rw [hst, hfi, hr, h.begun]
  calls := by rw [hen, hw, hc]; exact h.calls
  owner := by
    intro k pc'' hk
    rw [hm'] at hk
    cases hk
    rw [hen]
    exact h.owner k pc hm
  returned := by rw [hret, hen]; exact h.returned

/-- The flag, the queue and the item in progress fit together after the step. -/
theorem flag_advance (hf : s.FlagOk) (hs : SectionStep s s') : s'.FlagOk := by
  unfold FlagOk AtRest at hf
  cases hs with
  | @storeFalse caller hm =>
    rw [hm] at hf
    cases caller
    · exact hf.elim
    · exact ⟨hf, rfl⟩
  | @nothing caller hm hq =>
    rw [hm] at hf
    cases caller
    · exact hf.elim
    · exact ⟨hf.1.trans (congrArg Bool.toNat hf.2).symm, fun hne => absurd hq hne⟩
  | @dequeued caller k strandQueue hm hq =>
    rw [hm] at hf
    cases caller
    · exact hf.elim
    · exact hf
  | @busy caller k hm hp =>
    rw [hm] at hf
    cases caller
    · exact ⟨hf.1.trans (by rw [hp]; rfl), hp⟩
    · rw [hf.2] at hp
      cases hp
  | @idle caller k hm hp =>
    rw [hm] at hf
    cases caller
    · refine ⟨hf.1.trans (by rw [hp]; rfl), ?_⟩
      by_contra hne
      have htrue := hf.2 hne
      rw [hp] at htrue
      cases htrue
    · exact hf
  | @storeTrue caller k hm =>
    rw [hm] at hf
    cases caller
    · exact ⟨hf.1, hf.2, rfl⟩
    · exact ⟨hf.1, rfl⟩
  | @handOver caller k hm =>
    rw [hm] at hf
    have hnone : s.inProgress.length = 0 := by cases caller <;> exact hf.1
    have hflag : s.operationInProgress = true := by
      cases caller
      · exact hf.2.2
      · exact hf.2
    refine ⟨?_, fun _ => hflag⟩
    simp only [inProgress, List.length_append] at hnone
    simp only [inProgress, List.length_append, List.length_singleton, hflag, Bool.toNat_true,
      goto]
    omega
  | @push caller k hm =>
    rw [hm] at hf
    cases caller
    · exact ⟨hf.1.trans (congrArg Bool.toNat hf.2).symm, fun _ => hf.2⟩
    · exact hf.elim
  | enqueued hm | marked hm =>
    rw [hm] at hf
    exact hf

/-- No item is lost in the step, and none overtakes another. -/
theorem order_advance (hf : s.FlagOk) (hs : SectionStep s s') :
    s'.handed ++ front s'.queueMutex ++ s'.strandQueue ++ back s'.queueMutex =
      s.handed ++ front s.queueMutex ++ s.strandQueue ++ back s.queueMutex := by
  unfold FlagOk at hf
  cases hs with
  | @storeFalse caller hm | @nothing caller hm | @idle caller k hm | @storeTrue caller k hm =>
    rw [hm]
    cases caller <;> rfl
  | @busy caller k hm hp =>
    -- the flag is down when `markStrandOperationAsDone` comes to `tryRunItem`
    rw [hm] at hf ⊢
    cases caller
    · rfl
    · rw [hf.2] at hp
      cases hp
  | @dequeued caller k strandQueue hm hq =>
    rw [hm] at hf
    cases caller
    · exact hf.elim
    · rw [hm, hq]
      simp [front, back]
  | @handOver caller k hm =>
    rw [hm] at hf
    cases caller
    · simp [front, back, hm, hf.2.1]
    · simp [front, back, hm]
  | @push caller k hm =>
    rw [hm] at hf
    cases caller
    · simp [front, back, hm]
    · exact hf.elim
  | enqueued hm | marked hm =>
    rw [hm]
    rfl

theorem advance (h : StrandInv s) (hs : s.advance = some s') : StrandInv s' := by
  have hstep := advance_cases hs
  have hflag := flag_advance h.flag hstep
  have horder := order_advance h.flag hstep
  cases hstep with
  | storeFalse hm | nothing hm | dequeued hm | busy hm | idle hm | storeTrue hm | handOver hm
  | push hm => exact h.section_step hm rfl rfl rfl rfl rfl rfl rfl rfl hflag horder
  | @enqueued k hm =>
    have ho := h.order
    rw [hm] at ho
    refine ⟨hflag, ho, h.begun, h.calls, nofun, ?_⟩
    refine List.append_subset.mpr ⟨h.returned, fun i hi => ?_⟩
    rw [List.mem_singleton.mp hi]
    exact h.owner k _ hm
  | marked hm =>
    have ho := h.order
    rw [hm] at ho
    exact ⟨hflag, ho, h.begun, h.calls, nofun, h.returned⟩

theorem step (h : StrandInv s) {a : StrandLabel} (hs : s.step false a = some s') :
    StrandInv s' := by
  cases a with
  | enqueueItem =>
    cases hs
    exact h.enqueueItem
  | lock k =>
    simp only [StrandSchedulerDecorator.step] at hs
    split at hs <;> cases hs
    rename_i hen
    exact h.lock hen.1 (by simpa using hen.2)
  | mark k =>
    simp only [StrandSchedulerDecorator.step] at hs
    split at hs <;> cases hs
    rename_i hen
    exact h.mark hen.1 (by simpa using hen.2)
  | advance => exact h.advance hs
  | start k =>
    simp only [StrandSchedulerDecorator.step] at hs
    split at hs <;> cases hs
    rename_i hen
    exact h.start hen
  | finish k =>
    simp only [StrandSchedulerDecorator.step] at hs
    split at hs <;> cases hs
    rename_i hen
    exact h.finish hen

end StrandInv

theorem reachable_strandInv {s : StrandSchedulerDecorator}
    (h : (strandMachine false).Reachable Machine.Any s) : StrandInv s :=
  h.invariant ⟨⟨rfl, fun hne => absurd rfl hne⟩, rfl, rfl, .refl _, nofun, nofun⟩
    fun _ _ _ hi _ hs => hi.step hs

/-! ## What is still to do -/

namespace StrandSchedulerDecorator

/-- How many steps the owner of `_queueMutex` and the item in its hands have before them, at
    most. -/
def sectionWeight : Option (StrandCaller × StrandPc) → ℕ
  | none => 0
  | some (_, .unlock) => 1
  | some (_, .tryDequeItem) => 4
  | some (_, .storeFalse) => 5
  | some (_, .runOnOriginalScheduler _) => 10
  | some (_, .storeTrue _) => 11
  | some (_, .push _) => 11
  | some (_, .tryRunItem _) => 12

/-- A bound on the steps that are possible before `EnqueueItem` is called again. -/
def remaining (s : StrandSchedulerDecorator) : ℕ :=
  13 * s.waiting.length + 9 * s.strandQueue.length + 8 * s.handed.length +
    7 * s.running.length + 6 * s.marking.length + sectionWeight s.queueMutex

variable {s s' : StrandSchedulerDecorator} {serialized : Bool}

theorem remaining_advance (hs : s.advance = some s') : s'.remaining < s.remaining := by
  cases advance_cases hs with
  | dequeued hm hq =>
    simp only [remaining, goto, sectionWeight, hm, hq, List.length_cons]
    omega
  | handOver hm | push hm =>
    simp only [remaining, goto, sectionWeight, hm, List.length_append, List.length_singleton]
    omega
  | storeFalse hm | nothing hm | busy hm | idle hm | storeTrue hm | enqueued hm | marked hm =>
    simp [remaining, sectionWeight, hm]

/-- Without further calls the strand comes to rest. -/
theorem remaining_step {a : StrandLabel} (ha : a ≠ .enqueueItem)
    (hs : s.step serialized a = some s') : s'.remaining < s.remaining := by
  cases a with
  | enqueueItem => exact absurd rfl ha
  | advance => exact remaining_advance hs
  | lock k | mark k =>
    simp only [step] at hs
    split at hs <;> cases hs
    rename_i hen
    have hlen := List.length_erase_add_one hen.1
    simp only [remaining, goto, sectionWeight, Option.isNone_iff_eq_none.mp hen.2]
    omega
  | start k =>
    simp only [step] at hs
    split at hs <;> cases hs
    rename_i hen
    have hlen := List.length_erase_add_one hen
    simp only [remaining, List.length_append, List.length_singleton]
    omega
  | finish k =>
    simp only [step] at hs
    split at hs <;> cases hs
    rename_i hen
    have hlen := List.length_erase_add_one hen
    simp only [remaining]
    split
    · omega
    · simp only [List.length_append, List.length_singleton]
      omega

/-- The owner of `_queueMutex` can always go on. -/
theorem advance_isSome (hm : s.queueMutex ≠ none) : s.advance ≠ none := by
  unfold advance
  split
  case h_1 hn => exact absurd hn hm
  all_goals try split
  all_goals nofun

/-- The order in which items are enqueued is never revised. -/
theorem enqueued_prefix {a : StrandLabel} (hs : s.step serialized a = some s') :
    s.enqueued <+: s'.enqueued := by
  cases a with
  | enqueueItem =>
    cases serialized <;> cases hs
    · exact List.prefix_rfl
    · exact List.prefix_append _ _
  | lock k =>
    simp only [step] at hs
    split at hs <;> cases hs
    exact List.prefix_append _ _
  | advance => cases advance_cases hs <;> exact List.prefix_rfl
  | mark k | start k | finish k =>
    simp only [step] at hs
    split at hs <;> cases hs
    exact List.prefix_rfl

/-- Nothing but a new call is possible. -/
def Quiescent (s : StrandSchedulerDecorator) : Prop :=
  ∀ a, a ≠ .enqueueItem → s.step false a = none

end StrandSchedulerDecorator

/-- Where nothing can go on, every call has enqueued its item and every item has run. -/
theorem StrandInv.quiescent {s : StrandSchedulerDecorator} (h : StrandInv s)
    (hq : s.Quiescent) :
    s.waiting = [] ∧ s.started = s.enqueued ∧ s.finished = s.enqueued := by
  have hm : s.queueMutex = none := by
    by_contra hne
    exact advance_isSome hne (hq .advance nofun)
  have hwaiting : s.waiting = [] := by
    refine List.eq_nil_iff_forall_not_mem.mpr fun k hk => ?_
    have := hq (.lock k) nofun
    simp [StrandSchedulerDecorator.step, hk, hm] at this
  have hmarking : s.marking = [] := by
    refine List.eq_nil_iff_forall_not_mem.mpr fun k hk => ?_
    have := hq (.mark k) nofun
    simp [StrandSchedulerDecorator.step, hk, hm] at this
  have hhanded : s.handed = [] := by
    refine List.eq_nil_iff_forall_not_mem.mpr fun k hk => ?_
    have := hq (.start k) nofun
    simp [StrandSchedulerDecorator.step, hk] at this
  have hrunning : s.running = [] := by
    refine List.eq_nil_iff_forall_not_mem.mpr fun k hk => ?_
    have := hq (.finish k) nofun
    simp [StrandSchedulerDecorator.step, hk] at this
  have hf := h.flag
  rw [FlagOk, hm] at hf
  have hqueue : s.strandQueue = [] := by
    by_contra hne
    have hlen := hf.1
    rw [hf.2 hne, inProgress, hhanded, hrunning, hmarking] at hlen
    cases hlen
  have ho := h.order
  have hb := h.begun
  rw [hm, hhanded, hqueue] at ho
  rw [hrunning, List.append_nil] at hb
  have hstarted : s.started = s.enqueued := by simpa [front, back] using ho.symm
  exact ⟨hwaiting, hstarted, hb ▸ hstarted⟩

/-- The strand serializes its items: at most one is handed to the inner scheduler or
    running; they begin in the order in which they were enqueued, each once; while
    `_queueMutex` is free and items are queued, an item is in progress; and without further
    calls the strand comes to rest, where every call has enqueued its item and every item
    has run. An item is enqueued while its call is running, and the order is never revised,
    so a call that returned before another was made has the earlier item. -/
theorem strand_serializes {s : StrandSchedulerDecorator}
    (h : (strandMachine false).Reachable Machine.Any s) :
    (s.handed ++ s.running).length ≤ 1 ∧
    (s.started <+: s.enqueued ∧ s.finished <+: s.started ∧ s.enqueued.Nodup) ∧
    (s.queueMutex = none → s.strandQueue ≠ [] →
      s.operationInProgress = true ∧ s.inProgress ≠ []) ∧
    (s.returned ⊆ s.enqueued ∧ (∀ k ∈ s.enqueued, k < s.calls) ∧
      ∀ a s', s.step false a = some s' → s.enqueued <+: s'.enqueued) ∧
    ((∀ a s', a ≠ .enqueueItem → s.step false a = some s' → s'.remaining < s.remaining) ∧
      (s.Quiescent → s.started = s.enqueued ∧ s.finished = s.enqueued ∧
        s.enqueued.Perm (List.range s.calls))) := by
  have hi := reachable_strandInv h
  refine ⟨?_, ⟨?_, ?_, ?_⟩, fun hm hne => ?_, ⟨hi.returned, fun k hk => ?_,
    fun a s' => enqueued_prefix⟩, fun a s' => remaining_step, fun hq => ?_⟩
  · have hl := hi.length_inProgress_le
    rw [inProgress, List.length_append] at hl
    omega
  · rw [hi.order]
    simp only [List.append_assoc]
    exact List.prefix_append _ _
  · rw [hi.begun]
    exact List.prefix_append _ _
  · have hnodup : (s.enqueued ++ s.waiting).Nodup := hi.calls.nodup_iff.mpr List.nodup_range
    exact (List.nodup_append.mp hnodup).1
  · have hf := hi.flag
    rw [FlagOk, hm] at hf
    have hflag := hf.2 hne
    refine ⟨hflag, fun hnil => ?_⟩
    have hlen := hf.1
    rw [hnil, hflag] at hlen
    cases hlen
  · exact List.mem_range.mp (hi.calls.subset (List.mem_append_left _ hk))
  · obtain ⟨hw, hst, hfi⟩ := hi.quiescent hq
    have hcalls := hi.calls
    rw [hw, List.append_nil] at hcalls
    exact ⟨hst, hfi, hcalls⟩

/-- Two items: the second is queued behind the first, and handed over once the first has
    returned. -/
theorem strand_serializes_two :
    ∃ s : StrandSchedulerDecorator, (strandMachine false).Reachable Machine.Any s ∧
      s.enqueued = [1, 0] ∧ s.finished = [1] ∧ s.started <+: s.enqueued := by
  have hrun : (strandMachine false).run {} [.enqueueItem, .enqueueItem, .lock 1, .advance, .advance,
    .advance, .advance, .lock 0, .advance, .start 1, .advance, .advance, .finish 1, .mark 1,
    .advance, .advance, .advance, .advance, .advance, .advance, .start 0] = some _ := rfl
  exact ⟨_, .of_run hrun, rfl, rfl, (strand_serializes (.of_run hrun)).2.1.1⟩

end AsyncCpp.Schedulers
