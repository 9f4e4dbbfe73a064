import AsyncCpp.DataFlow.AtRest
import AsyncCpp.DataFlow.UserDriven

/-!
# Next blocks that fail

The function of the `FinallyBlock` of `completeCommon` passes the completion on to the next
blocks, one after the other (DataFlowBlockCommon.h:413-440, with its "TODO: Handle failing
output node"). It runs in a destructor, which is `noexcept`: the exception of a next block
terminates the program, and the blocks after it hear nothing. They hear nothing either where
the loop waits for a `_stateMutex` that its own thread holds, as it does where a chain of
connections is closed after `Start`.

Results:
* `failing_node_stops_nothing`: the blocks hear of the completion in the runs in which no next
  block fails, it is started and its processing task has not failed, no chain of connections
  is closed, and no detached thread ends the program while a block is being completed.
* `not_failing_node_stops_nothing`: a block that is not started, and one whose function threw.
-/

namespace AsyncCpp.DataFlow

open Interleaving Tasks AsyncPrimitives

variable {Node Item σ ε : Type*}

/-- The detached thread is about to let an exception out. -/
def Block.escaping (b : Block Node Item σ ε) : Bool :=
  match b.stateMutex with
  | some ⟨.faultThread, .finally _ none (some _)⟩ => b.toComplete.isEmpty
  | some ⟨.faultThread, .throwing _⟩ => true
  | _ => false

variable [DecidableEq Node]

/-- The calls that `p` has made of `c` and the ones it has still to make. -/
def Dataflow.notices (s : Dataflow Node Item σ ε) (p c : Node) : ℕ :=
  (s.block c).completedBy.count (.block p) + (s.block p).toComplete.count c

/-- `ConnectTo` closes no chain of connections. A block that a `FinallyBlock` calls is not one
    that was never started, and its processing task has not failed. A detached thread lets its
    exception out while no other block is in `completeCommon`. -/
def NodesHold (s : ConnectedDataflow Node Item σ ε) : ConnectedLabel Node Item ε → Prop
  | .connectTo p c =>
    (s.flow.block p).state = .stopped ∨
      ¬ Relation.ReflTransGen (fun a b => b ∈ s.outputNodes a) c p
  | .step (.advance n) =>
    (∀ caller e pending c cs,
      (s.flow.block n).stateMutex = some ⟨caller, .finally e none pending⟩ →
        (s.flow.block n).toComplete = c :: cs → (s.flow.block c).state = .created →
          1 < (s.flow.block c).startCallsCount ∧ e = none) ∧
    (∀ p sec ex, (s.flow.block n).stateMutex = some ⟨.block p, sec⟩ → sec.opening = false →
      (s.flow.block n).processingTask ≠ .finished (.error ex)) ∧
    ((s.flow.block n).escaping → ∀ m a, m ≠ n → (s.flow.block m).stateMutex = some a →
      a.section_.opening)
  | _ => True

/-! ## The loop of the `FinallyBlock` -/

/-- An exception of `Wait()` is that of the processing task; a block that has stopped is in the
    loop or has nothing left to visit. -/
structure FinallyInv (b : Block Node Item σ ε) : Prop where
  pending : ∀ caller e calling ex, b.stateMutex = some ⟨caller, .finally e calling (some ex)⟩ →
    b.processingTask = .finished (.error ex)
  stopped : b.state = .stopped →
    b.toComplete = [] ∨ ∃ caller e calling pending,
      b.stateMutex = some ⟨caller, .finally e calling pending⟩

namespace FinallyInv

variable {b b' : Block Node Item σ ε}

omit [DecidableEq Node]

theorem start (h : FinallyInv b) {caller : Caller Node} {r : Reply Node ε}
    (hs : b.start caller = some (b', r)) : FinallyInv b' := by
  unfold Block.start at hs
  split at hs
  · cases hs
  · simp only at hs
    split at hs
    · cases hs
      exact ⟨h.pending, h.stopped⟩
    · rename_i hst _
      cases hs
      exact ⟨nofun, fun hs' => by cases hst.symm.trans hs'⟩
    · rename_i hst _
      cases hs
      exact ⟨nofun, fun hs' => by cases hst.symm.trans hs'⟩
    · cases hs
      exact ⟨h.pending, h.stopped⟩

theorem completeCommon (h : FinallyInv b) {caller : Caller Node} {e : Option (Exn ε)}
    {r : Reply Node ε} (hs : b.completeCommon caller e = some (b', r)) : FinallyInv b' := by
  unfold Block.completeCommon at hs
  split at hs
  · cases hs
  · simp only at hs
    split_ifs at hs
    · cases hs
      exact ⟨h.pending, h.stopped⟩
    · split at hs
      · cases hs
        exact ⟨h.pending, h.stopped⟩
      · cases hs
        exact ⟨h.pending, h.stopped⟩
      · cases hs
        exact ⟨nofun, nofun⟩

theorem advance (h : FinallyInv b) {r : NextCall Node ε} (hs : b.advance = some (b', r)) :
    FinallyInv b' := by
  -- a section that is not the loop of the `FinallyBlock` has nothing left to visit
  have hleft : (∀ caller e calling pending,
      b.stateMutex ≠ some ⟨caller, .finally e calling pending⟩) → b.state = .stopped →
        b.toComplete = [] := by
    intro hm hst
    rcases h.stopped hst with hc | ⟨caller, e, calling, pending, hc⟩
    · exact hc
    · exact absurd hc (hm _ _ _ _)
  cases Block.advance_cases hs with
  | opened hm => exact ⟨nofun, nofun⟩
  | startNext hm | cancel hm | canceled hm | throwing hm =>
    exact ⟨nofun, fun hst => .inl (hleft (by rw [hm]; nofun) hst)⟩
  | runCancel hm => exact ⟨h.pending, h.stopped⟩
  | @waited caller e r hm hr =>
    cases r with
    | ok u => exact ⟨nofun, fun _ => .inr ⟨_, _, _, _, rfl⟩⟩
    | error ex =>
      refine ⟨fun caller' e' calling ex' hm' => ?_, fun _ => .inr ⟨_, _, _, _, rfl⟩⟩
      cases hm'
      show b.processingTask = _
      cases hp : b.processingTask <;> rw [hp] at hr <;> cases hr
      rfl
  | finished hm ht | rethrown hm ht => exact ⟨nofun, fun _ => .inl ht⟩
  | completeNext hm ht =>
    refine ⟨fun caller' e' calling ex' hm' => ?_, fun _ => .inr ⟨_, _, _, _, rfl⟩⟩
    cases hm'
    exact h.pending _ _ _ _ hm

theorem resumed (h : FinallyInv b) :
    FinallyInv { b with stateMutex := b.stateMutex.map Activation.resumed } := by
  refine ⟨fun caller e calling ex hm => ?_, fun hst => ?_⟩
  · obtain ⟨⟨caller', sec⟩, ha, hr⟩ := Option.map_eq_some_iff.mp hm
    cases sec <;> cases hr
    exact h.pending _ _ _ _ ha
  · refine (h.stopped hst).imp_right ?_
    rintro ⟨caller, e, calling, pending, hm⟩
    refine ⟨caller, e, none, pending, ?_⟩
    show b.stateMutex.map Activation.resumed = _
    rw [hm]
    rfl

theorem congr (h : FinallyInv b) (h1 : b'.stateMutex = b.stateMutex) (h2 : b'.state = b.state)
    (h3 : b'.toComplete = b.toComplete)
    (h4 : ∀ ex, b.processingTask = .finished (.error ex) →
      b'.processingTask = .finished (.error ex)) : FinallyInv b' := by
  refine ⟨fun caller e calling ex hm => h4 ex (h.pending caller e calling ex ?_), ?_⟩
  · rw [← h1, hm]
  · rw [h1, h2, h3]
    exact h.stopped

theorem closed (N : Network Node Item σ ε) :
    Closed N (fun _ _ => True) fun _ (b : Block Node Item σ ε) => FinallyInv b where
  start h := h.start
  completeCommon h := h.completeCommon
  advance h := h.advance
  resumed h := h.resumed
  throwing {_ b caller calling e} h hm := by
    refine ⟨nofun, fun hst => ?_⟩
    rcases h.stopped hst with hc | ⟨caller', e', calling', pending, hc⟩
    · exact .inl hc
    · cases hm.symm.trans hc
  process {n b b'} h hs := by
    have hcalls := Block.process_calls hs
    simp only [Block.calls, Prod.mk.injEq] at hcalls
    obtain ⟨hst, hm, -, hto, -, -⟩ := hcalls
    refine h.congr hm hst hto fun ex hp => ?_
    unfold Block.process at hs
    rw [hp] at hs
    cases hs
  asked h hp _ := h.congr rfl rfl rfl fun ex hfin => by cases hp.symm.trans hfin
  offered h hp := h.congr rfl rfl rfl fun ex hfin => by cases hp.symm.trans hfin
  accept h _ hs := by
    rw [Block.acceptInputAsync_eq hs]
    exact h.congr rfl rfl rfl fun _ => id
  faultThread h := h.congr rfl rfl rfl fun _ => id

end FinallyInv

/-! ## The calls of the next blocks -/

namespace Dataflow

variable {N : Network Node Item σ ε} {s s' : Dataflow Node Item σ ε}

theorem completeCommon_calls {n : Node} {caller : Caller Node} {e : Option (Exn ε)}
    (h : s.completeCommon n caller e = some s') (m : Node) :
    (s'.block m).toComplete = (s.block m).toComplete ∧
      (s'.block m).completedBy = (s.block m).completedBy ++ if m = n then [caller] else [] := by
  simp only [completeCommon, Option.map_eq_some_iff] at h
  obtain ⟨⟨b, r⟩, hb, rfl⟩ := h
  rw [reply_completedBy, reply_congr (f := Block.toComplete) (fun _ _ => rfl)]
  by_cases hm : m = n
  · subst hm
    rw [set_block_self, if_pos rfl, Block.completeCommon_completedBy hb]
    refine ⟨?_, rfl⟩
    rw [Block.completeCommon_eq hb]
  · rw [set_block_of_ne _ _ hm, if_neg hm, List.append_nil]
    exact ⟨rfl, rfl⟩

theorem start_toComplete {n : Node} {caller : Caller Node} (h : s.start n caller = some s')
    (m : Node) : (s'.block m).toComplete = (s.block m).toComplete := by
  simp only [start, Option.map_eq_some_iff] at h
  obtain ⟨⟨b, r⟩, hb, rfl⟩ := h
  rw [reply_congr (f := Block.toComplete) (fun _ _ => rfl)]
  refine set_congr (f := Block.toComplete) ?_ m
  rw [(Block.start_eq hb).1]

theorem notices_congr (h : ∀ m, (s'.block m).toComplete = (s.block m).toComplete ∧
    (s'.block m).completedBy = (s.block m).completedBy) (p c : Node) :
    s'.notices p c = s.notices p c := by
  unfold notices
  rw [(h c).2, (h p).1]

/-- The user and the detached threads are no blocks. -/
theorem completeCommon_notices {n : Node} {caller : Caller Node} (hcaller : ∀ p, caller ≠ .block p)
    {e : Option (Exn ε)} (h : s.completeCommon n caller e = some s') (p c : Node) :
    s'.notices p c = s.notices p c := by
  unfold notices
  rw [(completeCommon_calls h p).1, (completeCommon_calls h c).2, List.count_append]
  split_ifs
  · rw [List.count_singleton, if_neg (by simpa using hcaller p), Nat.add_zero]
  · rw [List.count_nil, Nat.add_zero]

theorem advance_notices {n : Node} (h : s.advance n = some s') (p c : Node) :
    s'.notices p c = s.notices p c := by
  simp only [advance] at h
  split at h
  · cases h
  · rename_i b r hb
    cases h
    have hkept : b.toComplete = (s.block n).toComplete ∧
        b.completedBy = (s.block n).completedBy := by
      cases Block.advance_cases hb with
      | @waited caller e r => cases r <;> exact ⟨rfl, rfl⟩
      | _ => exact ⟨rfl, rfl⟩
    refine notices_congr (fun m => ?_) p c
    rw [reply_completedBy, reply_congr (f := Block.toComplete) (fun _ _ => rfl)]
    exact ⟨set_congr (f := Block.toComplete) hkept.1 m,
      set_congr (f := Block.completedBy) hkept.2 m⟩
  · rename_i b d hb
    cases Block.advance_cases hb
    refine notices_congr (fun m => ?_) p c
    rw [start_completedBy h, start_toComplete h]
    exact ⟨set_congr (f := Block.toComplete) (by rfl) m,
      set_congr (f := Block.completedBy) (by rfl) m⟩
  · rename_i b d e hb
    cases Block.advance_cases hb with
    | @completeNext caller _ pending _ cs hm ht =>
      unfold notices
      rw [(completeCommon_calls h p).1, (completeCommon_calls h c).2,
        set_congr (f := Block.completedBy) (by rfl) c, List.count_append]
      by_cases hp : p = n
      · subst hp
        rw [set_block_self, ht, List.count_cons]
        by_cases hc : c = d
        · subst hc
          simp only [if_true, List.count_singleton_self, beq_self_eq_true]
          omega
        · rw [if_neg hc, List.count_nil, if_neg (by simpa using fun heq => hc heq.symm)]
          simp only [Nat.add_zero]
      · rw [set_block_of_ne _ _ hp]
        have hcount : List.count (Caller.block p) (if c = d then [Caller.block n] else []) = 0 := by
          split_ifs
          · rw [List.count_singleton, if_neg (by simpa using fun heq => hp heq.symm)]
          · rfl
        rw [hcount, Nat.add_zero]

/-- A step visits a next block or leaves it among those to visit. -/
theorem step_notices {a : DataflowLabel Node Item ε} (hs : s.step N a = some s') (p c : Node) :
    s'.notices p c = s.notices p c := by
  have hquiet : a.movesItems → s'.notices p c = s.notices p c := by
    intro ha
    refine notices_congr (fun m => ?_) p c
    have hcalls := step_calls hs ha m
    simp only [Block.calls, Prod.mk.injEq] at hcalls
    exact ⟨hcalls.2.2.2.1, hcalls.2.2.2.2.2⟩
  cases a with
  | process m | runCall k | acceptInputAsync m item => exact hquiet rfl
  | start m =>
    unfold step at hs
    split_ifs at hs
    exact notices_congr (fun m => ⟨start_toComplete hs m, start_completedBy hs m⟩) p c
  | complete m | setFaulted m e =>
    unfold step at hs
    split_ifs at hs
    exact completeCommon_notices (by simp) hs p c
  | advance m =>
    unfold step at hs
    split_ifs at hs
    exact advance_notices hs p c
  | runFaultThread m =>
    unfold step at hs
    split_ifs at hs
    simp only at hs
    split at hs
    · cases hs
    · rw [completeCommon_notices (by simp) hs]
      exact notices_congr (fun m => ⟨set_congr (f := Block.toComplete) (by rfl) m,
        set_congr (f := Block.completedBy) (by rfl) m⟩) p c

/-! ### The end of the program -/

omit [DecidableEq Node] in
/-- The exception of a call of `Start` goes to the caller. -/
theorem start_threw {b b' : Block Node Item σ ε} {caller caller' : Caller Node} {e : Exn ε}
    (h : b.start caller = some (b', .threw e caller')) : caller' = caller := by
  unfold Block.start at h
  split at h
  · cases h
  · simp only at h
    split at h <;> cases h
    rfl

omit [DecidableEq Node] in
/-- `completeCommon` throws at once where the block was never started. -/
theorem completeCommon_threw {b b' : Block Node Item σ ε} {caller caller' : Caller Node}
    {e : Option (Exn ε)} {ex : Exn ε}
    (h : b.completeCommon caller e = some (b', .threw ex caller')) :
    caller' = caller ∧ b.state = .created ∧ ¬ (0 < b.startCallsCount - 1 ∧ e.isNone) := by
  unfold Block.completeCommon at h
  split at h
  · cases h
  · simp only at h
    split_ifs at h with hcount
    · cases h
    · split at h <;> cases h
      exact ⟨rfl, ‹_›, hcount⟩

/-- A reply that ends the program. -/
theorem reply_terminated {r : Reply Node ε} (ht : s.terminated = false)
    (h : (s.reply r).terminated = true) :
    (∃ e, r = .threw e .faultThread) ∨
      ∃ e p, r = .threw e (.block p) ∧
        ∀ caller calling, (s.block p).stateMutex ≠ some ⟨caller, .starting calling⟩ := by
  cases r with
  | inside => cases ht.symm.trans h
  | returned caller => cases caller <;> cases ht.symm.trans h
  | threw e caller =>
    cases caller with
    | user => cases ht.symm.trans h
    | faultThread => exact .inl ⟨e, rfl⟩
    | block p =>
      refine .inr ⟨e, p, rfl, fun caller calling hm => ?_⟩
      simp only [reply, hm] at h
      cases ht.symm.trans h

/-- Where no exception leaves a `FinallyBlock`, the program ends with the exception of a
    detached thread, which leaves its critical section. -/
theorem escaping_of_terminated {a : DataflowLabel Node Item ε} (hesc : s.escape a = none)
    (hself : ∀ n p sec, (s.block n).stateMutex = some ⟨.block p, sec⟩ → p ≠ n)
    (hfault : ∀ n, (s.block n).faultThread ≠ none → (s.block n).state ≠ .created)
    (ht : s.terminated = false) (hs : s.step N a = some s') (ht' : s'.terminated = true) :
    ∃ n, a = .advance n ∧ (s.block n).escaping ∧
      s'.block = (s.set n { s.block n with stateMutex := none }).block := by
  have hmoves : a.movesItems = false := by
    by_contra hmoves
    rw [step_terminated hs (by simpa using hmoves), ht] at ht'
    cases ht'
  have hstart : ∀ n caller, caller ≠ .faultThread → (∀ p, caller ≠ .block p) →
      s.start n caller ≠ some s' := by
    intro n caller h1 h2 hs'
    obtain ⟨⟨b, r⟩, hb, rfl⟩ := Option.map_eq_some_iff.mp hs'
    rcases reply_terminated (s := s.set n b) ht ht' with ⟨e, rfl⟩ | ⟨e, p, rfl, -⟩
    · exact h1 (start_threw hb).symm
    · exact h2 p (start_threw hb).symm
  unfold step at hs
  split_ifs at hs
  cases a with
  | start n => exact absurd hs (hstart n .user nofun nofun)
  | complete n | setFaulted n e =>
    obtain ⟨⟨b, r⟩, hb, rfl⟩ := Option.map_eq_some_iff.mp hs
    rcases reply_terminated (s := s.set n b) ht ht' with ⟨e, rfl⟩ | ⟨e, p, rfl, -⟩ <;>
      cases (completeCommon_threw hb).1
  | acceptInputAsync n item | runCall k | process n => cases hmoves
  | runFaultThread n =>
    simp only at hs
    split at hs
    · cases hs
    · rename_i e he
      obtain ⟨⟨b, r⟩, hb, rfl⟩ := Option.map_eq_some_iff.mp hs
      rw [set_block_self] at hb
      rcases reply_terminated (by exact ht) ht' with ⟨e, rfl⟩ | ⟨e, p, rfl, -⟩
      · exact absurd (completeCommon_threw hb).2.1 (hfault n (by rw [he]; nofun))
      · cases (completeCommon_threw hb).1
  | advance n =>
    refine ⟨n, rfl, ?_⟩
    simp only [escape] at hesc
    simp only [advance] at hs
    split at hs
    · cases hs
    · rename_i b r hb
      cases hs
      rcases reply_terminated (s := s.set n b) ht ht' with ⟨e, rfl⟩ | ⟨e, p, rfl, hp⟩
      · cases Block.advance_cases hb with
        | rethrown hm hto => exact ⟨by simp [Block.escaping, hm, hto], rfl⟩
        | throwing hm => exact ⟨by simp [Block.escaping, hm], rfl⟩
      · -- the exception goes to a `Start`
        exfalso
        rw [hb] at hesc
        simp only at hesc
        have hpn : p ≠ n := by
          cases Block.advance_cases hb with
          | rethrown hm hto => exact hself n p _ hm
          | throwing hm => exact hself n p _ hm
        rw [set_block_of_ne _ _ hpn] at hp
        split at hesc
        · exact hp _ _ ‹_›
        · cases hesc
    · rename_i b c hb
      obtain ⟨⟨bc, r⟩, hbc, rfl⟩ := Option.map_eq_some_iff.mp hs
      exfalso
      rcases reply_terminated (by exact ht) ht' with ⟨e, rfl⟩ | ⟨e, p, rfl, hp⟩
      · cases start_threw hbc
      · cases start_threw hbc
        cases Block.advance_cases hb with
        | @startNext caller _ cs hm hto =>
          have hcn : n ≠ c := by
            rintro rfl
            simp [Block.start] at hbc
          rw [set_block_of_ne _ _ hcn, set_block_self] at hp
          exact hp _ _ rfl
    · rename_i b c e hb
      obtain ⟨⟨bc, r⟩, hbc, rfl⟩ := Option.map_eq_some_iff.mp hs
      exfalso
      rcases reply_terminated (by exact ht) ht' with ⟨ex, rfl⟩ | ⟨ex, p, rfl, -⟩
      · cases (completeCommon_threw hbc).1
      · simp [hb, hbc] at hesc

end Dataflow

/-! ## Runs without failing nodes -/

/-- What a run keeps in which every step meets `NodesHold`. -/
structure NotifyInv (s : ConnectedDataflow Node Item σ ε) : Prop where
  finally_ : ∀ m, FinallyInv (s.flow.block m)
  notices : ∀ p c, s.flow.notices p c = (s.outputNodes p).count c
  escaped : s.escaped = false
  acyclic : WellFounded fun c p => c ∈ s.outputNodes p
  ended : s.flow.terminated = true → ∀ p, (s.flow.block p).state.isClosed →
    (s.flow.block p).stateMutex = none

namespace NotifyInv

variable {N : Network Node Item σ ε} {nodes : Node → List Node}
  {s s' : ConnectedDataflow Node Item σ ε}

theorem connectTo (h : NotifyInv s) {p c : Node} (hg : NodesHold s (.connectTo p c)) :
    NotifyInv (s.connectTo p c) := by
  by_cases hst : (s.flow.block p).state = .stopped
  · rwa [ConnectedInv.connectTo_of_stopped hst]
  have hcompleted : ∀ m, ((s.connectTo p c).flow.block m).completedBy =
      (s.flow.block m).completedBy := Dataflow.set_congr (f := Block.completedBy) (by rfl)
  have hmutex : ∀ m, ((s.connectTo p c).flow.block m).stateMutex =
      (s.flow.block m).stateMutex := Dataflow.set_congr (f := Block.stateMutex) (by rfl)
  have hstate : ∀ m, ((s.connectTo p c).flow.block m).state = (s.flow.block m).state :=
    Dataflow.set_congr (f := Block.state) (by rfl)
  have hout : (s.connectTo p c).outputNodes = addNode s.outputNodes p c := if_neg hst
  refine ⟨Dataflow.forall_set (P := fun _ b => FinallyInv b) h.finally_
    ⟨(h.finally_ p).pending, fun hst' => absurd hst' hst⟩, fun q d => ?_, h.escaped, ?_, ?_⟩
  · have hold := h.notices q d
    unfold Dataflow.notices at hold ⊢
    rw [hcompleted, hout]
    by_cases hq : q = p
    · subst hq
      have hto : ((s.connectTo q c).flow.block q).toComplete =
          (s.flow.block q).toComplete ++ [c] := by
        simp only [ConnectedDataflow.connectTo, Dataflow.set_block_self, Block.connectTo,
          if_neg hst]
      rw [hto, addNode_self, List.count_append, List.count_append]
      omega
    · rw [addNode_of_ne hq, ConnectedDataflow.connectTo, Dataflow.set_block_of_ne _ _ hq]
      exact hold
  · rw [hout]
    exact wellFounded_addNode h.acyclic (hg.resolve_left hst)
  · intro ht q hq
    rw [hmutex]
    rw [hstate] at hq
    exact h.ended ht q hq

/-- No step lets an exception out of a `FinallyBlock`. -/
theorem escape_eq_none (h : NotifyInv s) (hn : StartInv N nodes s) {a : DataflowLabel Node Item ε}
    (hg : NodesHold s (.step a)) : s.flow.escape a = none := by
  cases a with
  | advance n =>
    simp only [Dataflow.escape]
    split
    · rename_i b ex p hb
      -- the section that throws is one of `Start`, and so is that of its caller
      have hthrowing : ∃ sec, (s.flow.block n).stateMutex = some ⟨.block p, sec⟩ ∧
          sec.opening = true := by
        cases Block.advance_cases hb with
        | @rethrown caller e _ hm ht =>
          exact absurd ((h.finally_ n).pending _ _ _ _ hm) (hg.2.1 p _ ex hm rfl)
        | throwing hm => exact ⟨_, hm, rfl⟩
      obtain ⟨sec, hm, hsec⟩ := hthrowing
      obtain ⟨⟨caller, sec'⟩, ha, hin⟩ := hn.opening.nested n p sec hm
      rw [hsec] at hin
      cases sec' with
      | starting calling => rw [ha]
      | «finally» e calling pending =>
        cases calling with
        | none => exact hin.elim
        | some d => cases hin.2
      | _ => exact hin.elim
    · rename_i b c e hb
      cases Block.advance_cases hb with
      | @completeNext caller _ pending _ cs hm ht =>
        split
        · rename_i bc ex caller' hc
          by_cases hcn : c = n
          · subst hcn
            rw [Dataflow.set_block_self] at hc
            cases hc
          · rw [Dataflow.set_block_of_ne _ _ hcn] at hc
            obtain ⟨-, hst, hcount⟩ := Dataflow.completeCommon_threw hc
            obtain ⟨hlt, rfl⟩ := hg.1 caller e pending c cs hm ht hst
            exact absurd ⟨by omega, rfl⟩ hcount
        · rfl
    · rfl
  | _ => rfl

theorem step (h : NotifyInv s) (hr : RestInv N s) (hn : StartInv N nodes s)
    {a : ConnectedLabel Node Item ε} (hg : NodesHold s a) (hs : s.step N a = some s') :
    NotifyInv s' := by
  cases a with
  | connectTo p c =>
    simp only [ConnectedDataflow.step] at hs
    split_ifs at hs
    cases hs
    exact h.connectTo hg
  | step a =>
    simp only [ConnectedDataflow.step, Option.map_eq_some_iff] at hs
    obtain ⟨flow, hf, rfl⟩ := hs
    have hesc := h.escape_eq_none hn hg
    refine ⟨(FinallyInv.closed _).step h.finally_ (fun _ _ _ _ => trivial) hf, fun p c => ?_, ?_,
      h.acyclic, fun ht' m hm => ?_⟩
    · rw [Dataflow.step_notices hf]
      exact h.notices p c
    · simp only [hesc, h.escaped]
      rfl
    · have ht : s.flow.terminated = false := by
        by_contra ht
        simp [Dataflow.step, ht] at hf
      have hself : ∀ n p sec, (s.flow.block n).stateMutex = some ⟨.block p, sec⟩ → p ≠ n := by
        rintro n p sec hsec rfl
        obtain ⟨a, ha, hin⟩ := hn.opening.nested p p sec hsec
        have hedge : p ∈ s.outputNodes p :=
          (hr.blocks.next p).calling p (Block.calling_of_inCall ha hin)
        exact h.acyclic.asymmetric _ _ hedge hedge
      obtain ⟨n, rfl, hescaping, hblock⟩ := Dataflow.escaping_of_terminated hesc hself
        (fun n hfault => (hr.blocks.shape n).begun ((hr.working n).faultThread hfault)) ht hf ht'
      simp only [hblock] at hm ⊢
      by_cases hmn : m = n
      · subst hmn
        rw [Dataflow.set_block_self]
      · rw [Dataflow.set_block_of_ne _ _ hmn] at hm ⊢
        rcases hmutex : (s.flow.block m).stateMutex with _ | a
        · rfl
        · have hopening := hg.2.2 hescaping m a hmn hmutex
          rw [(hr.blocks.shape m).section_ a hmutex] at hm
          cases hsec : a.section_ <;> rw [hsec] at hm hopening <;> cases hm <;> cases hopening

end NotifyInv

end AsyncCpp.DataFlow
