import AsyncCpp.DataFlow.StartComplete

/-!
# Runs driven by one user

The runs in which the user keeps to `UserDriven` and no `Release()` of an `AcceptInputAsync`
finds the semaphore of its queue full.

Results:
* `started_of_targets`: a block is started while a block before it has an item for it.
* `parents_of_closed`: when a block is completed, the blocks before it have ended their
  processing tasks or were never started.
* `reachable_pushBeforeDrain`: nobody adds an item to a queue that was emptied for the last
  time.
-/

namespace AsyncCpp.DataFlow

open Interleaving Tasks AsyncPrimitives

variable {Node Item σ ε : Type*} [DecidableEq Node]

/-! ## The calls of the user -/

omit [DecidableEq Node] in
theorem Block.completeCommon_completedBy {b b' : Block Node Item σ ε} {caller : Caller Node}
    {e : Option (Exn ε)} {r : Reply Node ε} (h : b.completeCommon caller e = some (b', r)) :
    b'.completedBy = b.completedBy ++ [caller] := by
  unfold Block.completeCommon at h
  split at h
  · cases h
  · simp only at h
    split_ifs at h
    · cases h
      rfl
    · split at h
      all_goals
        cases h
        rfl

omit [DecidableEq Node] in
/-- A call of `AcceptInputAsync` throws only where the block is not started, or at a full
    semaphore. -/
theorem Block.acceptInputAsync_threw {b b' : Block Node Item σ ε} {x : QueueItem Node Item}
    {phase : AcceptPhase ε} {e : Exn ε} (hroom : phase = .release → ¬ b.full)
    (h : b.acceptInputAsync x phase = some (b', .threw e)) : e = notRunning := by
  generalize hthrew : AcceptPhase.threw e = phase' at h
  cases acceptInputAsync_cases h with
  | notStarted =>
    cases hthrew
    rfl
  | started | push => cases hthrew
  | full hq hfull => exact absurd hfull (hroom rfl)
  | release | releasing =>
    unfold AcceptPhase.afterRelease at hthrew
    split_ifs at hthrew

namespace Dataflow

variable {N : Network Node Item σ ε} {s s' : Dataflow Node Item σ ε}

theorem reply_completedBy (s : Dataflow Node Item σ ε) (r : Reply Node ε) (m : Node) :
    ((s.reply r).block m).completedBy = (s.block m).completedBy :=
  reply_congr (fun _ _ => rfl) s r m

theorem start_completedBy {n : Node} {caller : Caller Node} (h : s.start n caller = some s')
    (m : Node) : (s'.block m).completedBy = (s.block m).completedBy := by
  simp only [start, Option.map_eq_some_iff] at h
  obtain ⟨⟨b, r⟩, hb, rfl⟩ := h
  rw [reply_completedBy]
  refine set_congr (f := Block.completedBy) ?_ m
  rw [(Block.start_eq hb).1]

theorem completeCommon_completedBy {n : Node} {caller : Caller Node} {e : Option (Exn ε)}
    (hcaller : caller ≠ .user) (h : s.completeCommon n caller e = some s') (m : Node)
    (hm : .user ∈ (s'.block m).completedBy) : .user ∈ (s.block m).completedBy := by
  simp only [completeCommon, Option.map_eq_some_iff] at h
  obtain ⟨⟨b, r⟩, hb, rfl⟩ := h
  rw [reply_completedBy] at hm
  refine forall_set (P := fun m b => .user ∈ b.completedBy → .user ∈ (s.block m).completedBy)
    (fun _ => id) (fun hn => ?_) m hm
  rw [Block.completeCommon_completedBy hb] at hn
  simpa [hcaller.symm] using hn

/-- Only the user adds itself to the calls of `Complete`. -/
theorem step_completedBy {a : DataflowLabel Node Item ε} (hs : s.step N a = some s')
    (h1 : ∀ n, a ≠ .complete n) (h2 : ∀ n e, a ≠ .setFaulted n e) (m : Node)
    (hm : .user ∈ (s'.block m).completedBy) : .user ∈ (s.block m).completedBy := by
  have hcalls : (∀ m, (s'.block m).calls = (s.block m).calls) →
      .user ∈ (s.block m).completedBy := by
    intro hcalls
    have hm' := hcalls m
    simp only [Block.calls, Prod.mk.injEq] at hm'
    rwa [← hm'.2.2.2.2.2]
  have hset : ∀ (n : Node) (b : Block Node Item σ ε), b.completedBy = (s.block n).completedBy →
      ∀ m, ((s.set n b).block m).completedBy = (s.block m).completedBy :=
    fun _ _ hb => set_congr hb
  cases a with
  | complete n => exact absurd rfl (h1 n)
  | setFaulted n e => exact absurd rfl (h2 n e)
  | process n | runCall k | acceptInputAsync n item => exact hcalls (step_calls hs rfl)
  | start n =>
    unfold step at hs
    split_ifs at hs
    rwa [start_completedBy hs] at hm
  | advance n =>
    unfold step at hs
    split_ifs at hs
    simp only [advance] at hs
    split at hs
    · cases hs
    · rename_i b r hb
      cases hs
      rwa [reply_completedBy, hset n b (by rw [(Block.advance_eq hb).1])] at hm
    · rename_i b c hb
      rwa [start_completedBy hs, hset n b (by rw [(Block.advance_eq hb).1])] at hm
    · rename_i b c e hb
      have hm' := completeCommon_completedBy (by simp) hs m hm
      rwa [hset n b (by rw [(Block.advance_eq hb).1])] at hm'
  | runFaultThread n =>
    unfold step at hs
    split_ifs at hs
    simp only at hs
    split at hs
    · cases hs
    · have hm' := completeCommon_completedBy (by simp) hs m hm
      rwa [hset n _ (by rfl)] at hm'

/-- The calls of the user are calls of the root, they have ended once the user has called
    `Complete`, and they throw only where the root is not started. -/
structure UserInv (root : Node) (s : Dataflow Node Item σ ε) : Prop where
  node : ∀ k c, s.call k = some c → c.node = root
  ended : .user ∈ (s.block root).completedBy → ∀ k c, s.call k = some c → c.phase.ended
  threw : ∀ k c e, s.call k = some c → c.phase = .threw e → e = notRunning

namespace UserInv

variable {root : Node}

theorem step (h : UserInv root s) {a : DataflowLabel Node Item ε} (hg : UserDriven root s a)
    (hroom : Roomy s a) (hs : s.step N a = some s') : UserInv root s' := by
  refine ⟨?_, fun hm => ?_, ?_⟩
  · refine forall_call_step hs h.node (fun n item ha => ?_) fun k c _ _ _ hc _ => h.node k c hc
    subst ha
    exact hg.1
  · -- the user has called `Complete`, so no call is made and none goes on
    have hended : ∀ k c, s.call k = some c → c.phase.ended := by
      cases a with
      | complete n => exact hg.2.2
      | setFaulted n e => exact hg.elim
      | _ => exact h.ended (step_completedBy hs nofun nofun root hm)
    refine forall_call_step hs hended (fun n item ha => ?_) fun k c b phase ha hc hb => ?_
    · subst ha
      obtain ⟨rfl, hnot⟩ := hg
      exact absurd (step_completedBy hs nofun nofun n hm) hnot
    · have hk := hended k c hc
      cases hp : c.phase <;> rw [hp] at hb hk <;> cases hk <;> cases hb
  · have hthrew := forall_call_step (P := fun _ c => ∀ e, c.phase = .threw e → e = notRunning) hs
      (fun k c hc e => h.threw k c e hc) (fun _ _ _ => nofun) ?_
    · exact fun k c e hc => hthrew k c hc e
    · rintro k c b phase rfl hc hb e rfl
      refine Block.acceptInputAsync_threw (fun hr => ?_) hb
      exact hroom c.node _ ((accepting_runCall hc).trans (by rw [hr]))

end UserInv

end Dataflow

/-- A run in which the user keeps to `UserDriven` and no `Release()` finds its semaphore full. -/
abbrev InRoom (root : Node) (s : Dataflow Node Item σ ε) (a : DataflowLabel Node Item ε) : Prop :=
  UserDriven root s a ∧ Roomy s a

section Reachable

variable {N : Network Node Item σ ε} {root : Node} {s : Dataflow Node Item σ ε}

theorem reachable_controlInv (hN : N.Acyclic) (hok : N.Returns)
    (h : (dataflowMachine N).Reachable (InRoom root) s) : ControlInv N root s := by
  refine h.invariant_with (Q := fun s => ∀ m, ShapeInv (s.block m) ∧ HealthyInv (s.block m))
    (fun s hs m => ?_) ?_ fun s a s' hQ hi hg hs => ?_
  · exact ⟨reachable_shapeInv hs m, reachable_healthyInv hok (fun _ _ hg => hg.2) hs m⟩
  · exact ⟨⟨rfl, fun m => ⟨nofun, List.not_mem_nil, List.not_mem_nil⟩⟩,
      Cascade.Inv.initial N.outputNodes root⟩
  · exact hi.step hN (fun m => (hQ m).1) (fun m => (hQ m).2) hg.1 hs

/-- A block is started while a block before it has an item for it. -/
theorem started_of_targets (hN : N.Acyclic) (hok : N.Returns)
    (h : (dataflowMachine N).Reachable (InRoom root) s) {n c : Node}
    (hc : c ∈ (s.block n).processingTask.targets) : (s.block c).state = .started := by
  have hsh := reachable_shapeInv h n
  have hcascade := (reachable_controlInv hN hok h).cascade
  have hlate : (s.block n).phase.Late := by
    refine Block.late_of_ne_created (hsh.begun ?_)
    cases hp : (s.block n).processingTask <;> rw [hp] at hc
    case asking | offering => rfl
    all_goals cases hc
  have hnd : (s.block n).phase ≠ .done := by
    intro hdone
    obtain ⟨r, hr⟩ := hsh.stopped (Block.stopped_of_done hdone)
    rw [hr] at hc
    cases hc
  refine Block.started_of_running (reachable_shapeInv h c) ?_
  exact hcascade.successor_running ((reachable_workInv h n).targets.subset hc) hlate hnd

/-- When a block is completed, a block before it has ended its processing task, or was never
    started. -/
theorem parents_of_closed (hN : N.Acyclic) (hok : N.Returns)
    (h : (dataflowMachine N).Reachable (InRoom root) s) {n p : Node}
    (hcl : (s.block n).state.isClosed) (hp : n ∈ N.outputNodes p) :
    (s.block p).processingTask.begun = false ∨ ∃ r, (s.block p).processingTask = .finished r := by
  have hsh := reachable_shapeInv h p
  rcases (reachable_controlInv hN hok h).cascade.closed n (Block.isClosed_iff.mp hcl) p hp with
    hidle | hdone
  · left
    by_contra hb
    have hlate := Block.late_of_ne_created (hsh.begun (by simpa using hb))
    exact (Cascade.late_iff.mp hlate).1 hidle
  · exact .inr (hsh.stopped (Block.stopped_of_done hdone))

theorem reachable_userInv (h : (dataflowMachine N).Reachable (InRoom root) s) :
    s.UserInv root :=
  h.invariant ⟨nofun, fun _ => nofun, nofun⟩ fun _ _ _ hi hg hs => hi.step hg.1 hg.2 hs

/-- When the root is completed, the calls of the user have ended. -/
theorem ended_of_closed (hN : N.Acyclic) (hok : N.Returns)
    (h : (dataflowMachine N).Reachable (InRoom root) s) (hcl : (s.block root).state.isClosed)
    {k : ℕ} {c : AcceptCall Node Item ε} (hk : s.call k = some c) : c.phase.ended := by
  have hcontrol := reachable_controlInv hN hok h
  obtain ⟨x, hx, hxn⟩ :=
    List.mem_map.mp (hcontrol.cascade.closedRoot (Block.isClosed_iff.mp hcl))
  refine (reachable_userInv h).ended ?_ k c hk
  cases x with
  | user => exact hx
  | faultThread => exact absurd hx (hcontrol.calm.block root).completed
  | block p => cases hxn

theorem reachable_pushBeforeDrain (hN : N.Acyclic) (hok : N.Returns)
    (h : (dataflowMachine N).Reachable (InRoom root) s) :
    (dataflowMachine N).Reachable PushBeforeDrain s := by
  refine h.strengthen fun s a hr _ c x hacc => ?_
  by_contra hclosed
  have hcl := (reachable_shapeInv hr c).draining (.inr (by simpa using hclosed))
  cases a with
  | runCall k =>
    -- the user has called `Complete`, so this call has ended
    simp only [Dataflow.accepting, Option.map_eq_some_iff, Prod.mk.injEq] at hacc
    obtain ⟨call, hcall, hc, -, hphase⟩ := hacc
    rw [← hc, (reachable_userInv hr).node k call hcall] at hcl
    have hended := ended_of_closed hN hok hr hcl hcall
    rw [hphase] at hended
    cases hended
  | process n =>
    simp only [Dataflow.accepting] at hacc
    split at hacc
    · rename_i y phase d offer rest hp
      simp only [Option.some.injEq, Prod.mk.injEq] at hacc
      obtain ⟨rfl, -, -⟩ := hacc
      rw [started_of_targets hN hok hr (by rw [hp]; exact List.mem_cons_self)] at hcl
      cases hcl
    · cases hacc
  | _ => cases hacc

end Reachable

end AsyncCpp.DataFlow
