import AsyncCpp.DataFlow.NestedCalls

/-!
# `ConnectTo`

`ConnectTo` adds a block to `_outputNodes` and looks at neither `_state` nor `_stateMutex`
(DataFlowBlockCommon.h:273-282), so that blocks can be connected at any time. Here it is a
step of its own. `Start` starts the blocks that were connected when its loop began, and the
function of a `FinallyBlock` completes those that were connected when its loop began;
`propagateOutput` takes the blocks that are connected when the function has returned.

Results:
* `reachable_connectedInv`: what holds of a block of a network holds here.
* `StartInv.step`: a block is past `Start` only after the blocks that were connected to it when
  the loop of `Start` began.
-/

namespace AsyncCpp.DataFlow

open Interleaving Tasks AsyncPrimitives

variable {Node Item σ ε : Type*}

/-- A network that is being connected. `outputNodes p` are the blocks that were connected to
    `p` before it stopped; nothing looks at the ones that are connected later. `escaped` is
    history: an exception has left the function of a `FinallyBlock`. -/
structure ConnectedDataflow (Node Item σ ε : Type*) where
  flow : Dataflow Node Item σ ε
  outputNodes : Node → List Node := fun _ => []
  escaped : Bool := false

inductive ConnectedLabel (Node Item ε : Type*) where
  | connectTo (p c : Node)
  | step (a : DataflowLabel Node Item ε)

/-- `ConnectTo`. The loops of `Start` and of the `FinallyBlock` visit the blocks that were
    connected when the loop began. -/
def Block.connectTo (b : Block Node Item σ ε) (c : Node) : Block Node Item σ ε :=
  { b with toComplete := if b.state = .stopped then b.toComplete else b.toComplete ++ [c] }

/-- The functions of `N`, and other connections. -/
def Network.connected (N : Network Node Item σ ε) (outputNodes : Node → List Node) :
    Network Node Item σ ε :=
  { N with outputNodes := outputNodes }

variable [DecidableEq Node]

/-- The exception that the step lets out of the function of a `FinallyBlock`: the `Complete` or
    `SetFaulted` of the next block throws, at once or when it ends. -/
def Dataflow.escape (s : Dataflow Node Item σ ε) : DataflowLabel Node Item ε → Option (Exn ε)
  | .advance n =>
    match (s.block n).advance with
    | some (_, .reply (.threw ex (.block p))) =>
      match (s.block p).stateMutex with
      | some ⟨_, .starting _⟩ => none
      | _ => some ex
    | some (b, .complete c e) =>
      match ((s.set n b).block c).completeCommon (.block n) e with
      | some (_, .threw ex _) => some ex
      | _ => none
    | _ => none
  | _ => none

/-- `p` is connected to one more block. -/
def addNode (nodes : Node → List Node) (p c : Node) : Node → List Node :=
  Function.update nodes p (nodes p ++ [c])

namespace ConnectedDataflow

def connectTo (s : ConnectedDataflow Node Item σ ε) (p c : Node) :
    ConnectedDataflow Node Item σ ε :=
  { s with
    flow := s.flow.set p ((s.flow.block p).connectTo c)
    outputNodes :=
      if (s.flow.block p).state = .stopped then s.outputNodes else addNode s.outputNodes p c }

def step (N : Network Node Item σ ε) (s : ConnectedDataflow Node Item σ ε) :
    ConnectedLabel Node Item ε → Option (ConnectedDataflow Node Item σ ε)
  | .connectTo p c => if s.flow.terminated then none else some (s.connectTo p c)
  | .step a =>
    (s.flow.step (N.connected s.outputNodes) a).map fun flow =>
      { s with flow := flow, escaped := s.escaped || (s.flow.escape a).isSome }

end ConnectedDataflow

/-- The blocks as they are constructed, with no connections. -/
def connectedMachine (N : Network Node Item σ ε) :
    Machine (ConnectedDataflow Node Item σ ε) (ConnectedLabel Node Item ε) where
  init :=
    { flow :=
        { block := fun n => { toStart := [], toComplete := [], nodeState := N.initialState n } } }
  step := ConnectedDataflow.step N

/-! ## One more connection -/

section AddNode

variable {nodes : Node → List Node} {p c n m : Node}

theorem mem_addNode : m ∈ addNode nodes p c n ↔ m ∈ nodes n ∨ n = p ∧ m = c := by
  unfold addNode
  by_cases hn : n = p
  · subst hn
    simp
  · simp [hn]

theorem subset_addNode : nodes n ⊆ addNode nodes p c n := fun _ h => mem_addNode.mpr (.inl h)

theorem addNode_self : addNode nodes p c p = nodes p ++ [c] := Function.update_self ..

theorem addNode_of_ne (h : n ≠ p) : addNode nodes p c n = nodes n := Function.update_of_ne h ..

/-- The list of the connections of a block has grown at its end. -/
theorem sublist_addNode : (nodes n).Sublist (addNode nodes p c n) := by
  by_cases hn : n = p
  · subst hn
    rw [addNode_self]
    exact List.sublist_append_left ..
  · rw [addNode_of_ne hn]

/-- No chain of connections is closed by one that no chain leads back from. -/
theorem wellFounded_addNode (h : WellFounded fun c p => c ∈ nodes p)
    (hpc : ¬ Relation.ReflTransGen (fun a b => b ∈ nodes a) c p) :
    WellFounded fun m n => m ∈ addNode nodes p c n := by
  -- below `c` nothing has changed
  have hbelow : ∀ m, Relation.ReflTransGen (fun a b => b ∈ nodes a) c m →
      Acc (fun m n => m ∈ addNode nodes p c n) m := by
    intro m
    induction m using h.induction with
    | _ m ih =>
      refine fun hm => ⟨m, fun d hd => ?_⟩
      rcases mem_addNode.mp hd with hold | ⟨rfl, -⟩
      · exact ih d hold (hm.tail hold)
      · exact absurd hm hpc
  refine ⟨fun m => ?_⟩
  induction m using h.induction with
  | _ m ih =>
    refine ⟨m, fun d hd => ?_⟩
    rcases mem_addNode.mp hd with hold | ⟨-, rfl⟩
    · exact ih d hold
    · exact hbelow d .refl

end AddNode

/-! ## The blocks -/

/-- What is known of the blocks of a network that is being connected. -/
structure ConnectedInv (N : Network Node Item σ ε) (s : ConnectedDataflow Node Item σ ε) :
    Prop where
  task : ∀ n, TaskInv (s.flow.block n)
  shape : ∀ n, ShapeInv (s.flow.block n)
  next : ∀ n, NextInv (N.connected s.outputNodes) n (s.flow.block n)
  work : ∀ n, WorkInv (N.connected s.outputNodes) n (s.flow.block n)

namespace ConnectedInv

variable {N : Network Node Item σ ε} {s s' : ConnectedDataflow Node Item σ ε}

omit [DecidableEq Node] in
/-- The `FinallyBlock` of a block that has not stopped will visit all next blocks. -/
theorem toComplete (h : ConnectedInv N s) {n : Node} (hst : (s.flow.block n).state ≠ .stopped) :
    (s.flow.block n).toComplete = s.outputNodes n :=
  (h.next n).whole hst

/-- A block that has stopped stays as it is. -/
theorem connectTo_of_stopped {p : Node} (hst : (s.flow.block p).state = .stopped) (c : Node) :
    s.connectTo p c = s := by
  have hb : (s.flow.block p).connectTo c = s.flow.block p := by
    simp only [Block.connectTo, if_pos hst]
  simp only [ConnectedDataflow.connectTo, hb, if_pos hst, Dataflow.set, Function.update_eq_self]

/-- The loop of a block that has not stopped visits one more block. -/
theorem nextInv_connectTo {nodes : Node → List Node} {n c : Node} {b : Block Node Item σ ε}
    (h : NextInv (N.connected nodes) n b) (hst : b.state ≠ .stopped) :
    NextInv (N.connected (addNode nodes n c)) n (b.connectTo c) := by
  have hadd : (N.connected (addNode nodes n c)).outputNodes n = nodes n ++ [c] := addNode_self
  have hto : (b.connectTo c).toComplete = nodes n ++ [c] := by
    simp only [Block.connectTo, if_neg hst]
    rw [h.whole hst]
    rfl
  refine ⟨fun _ => hto.trans hadd.symm, fun m hm => ?_, ?_, fun m hm => ?_⟩
  · exact subset_addNode (h.toStart hm)
  · rw [hto, hadd]
    exact List.Subset.refl _
  · exact subset_addNode (h.calling m hm)

theorem connectTo (h : ConnectedInv N s) (p c : Node) : ConnectedInv N (s.connectTo p c) := by
  by_cases hst : (s.flow.block p).state = .stopped
  · rwa [connectTo_of_stopped hst]
  have hout : (s.connectTo p c).outputNodes = addNode s.outputNodes p c := if_neg hst
  refine
    { task := Dataflow.forall_set (P := fun _ b => TaskInv b) h.task
        ((h.task p).congr rfl rfl rfl (h.task p).initial)
      shape := Dataflow.forall_set (P := fun _ b => ShapeInv b) h.shape { h.shape p with }
      next := fun n => ?_, work := ?_ }
  · rw [hout]
    by_cases hn : n = p
    · subst hn
      rw [ConnectedDataflow.connectTo, Dataflow.set_block_self]
      exact nextInv_connectTo (h.next n) hst
    · have hnext := h.next n
      rw [ConnectedDataflow.connectTo, Dataflow.set_block_of_ne _ _ hn]
      refine ⟨fun hst => (hnext.whole hst).trans (addNode_of_ne hn).symm, ?_, ?_, ?_⟩
      all_goals simp only [Network.connected, addNode_of_ne hn]
      · exact hnext.toStart
      · exact hnext.toComplete
      · exact hnext.calling
  · rw [hout]
    exact Dataflow.forall_set
      (P := fun m b => WorkInv (N.connected (addNode s.outputNodes p c)) m b)
      (fun m => ⟨(h.work m).nodeState, (h.work m).targets.trans sublist_addNode⟩)
      ⟨(h.work p).nodeState, (h.work p).targets.trans sublist_addNode⟩

/-- A step of the blocks. -/
theorem step_flow (h : ConnectedInv N s) {a : DataflowLabel Node Item ε}
    {flow : Dataflow Node Item σ ε} (hs : s.flow.step (N.connected s.outputNodes) a = some flow)
    {escaped : Bool} : ConnectedInv N { s with flow := flow, escaped := escaped } := by
  have hnext := (NextInv.closed _).step (fun m => ⟨⟨h.task m, h.shape m⟩, h.next m⟩)
    (fun _ _ _ _ => trivial) hs
  exact ⟨fun m => (hnext m).1.1, fun m => (hnext m).1.2, fun m => (hnext m).2,
    (WorkInv.closed _).step h.work (fun _ _ _ _ => trivial) hs⟩

theorem step (h : ConnectedInv N s) {a : ConnectedLabel Node Item ε} (hs : s.step N a = some s') :
    ConnectedInv N s' := by
  cases a with
  | connectTo p c =>
    simp only [ConnectedDataflow.step] at hs
    split_ifs at hs
    cases hs
    exact h.connectTo p c
  | step a =>
    simp only [ConnectedDataflow.step, Option.map_eq_some_iff] at hs
    obtain ⟨flow, hf, rfl⟩ := hs
    exact h.step_flow hf

theorem init : ConnectedInv N (connectedMachine N).init where
  task _ := ⟨fun _ => ⟨rfl, rfl⟩, fun hc => absurd rfl hc, nofun⟩
  shape _ := ⟨nofun, nofun, nofun, rfl, nofun, nofun, (by rintro (hd | hd) <;> cases hd), nofun,
    nofun⟩
  next _ := ⟨fun _ => rfl, List.Subset.refl _, List.Subset.refl _, nofun⟩
  work _ := ⟨rfl, List.nil_sublist _⟩

end ConnectedInv

omit [DecidableEq Node] in
/-- The block is not started, and in no call of `Start`. -/
def Block.unstarted (b : Block Node Item σ ε) : Bool :=
  b.state = .created ∧ b.stateMutex.isNone

/-- The next blocks when the loop of `Start` began, and all of them before that; `nodes` are
    those before the step. -/
def ConnectedDataflow.startNodes (s : ConnectedDataflow Node Item σ ε) (nodes : Node → List Node) :
    Node → List Node :=
  fun n => if (s.flow.block n).unstarted then s.outputNodes n else nodes n

/-- `nodes` are the blocks that `Start` knows. -/
structure StartInv (N : Network Node Item σ ε) (nodes : Node → List Node)
    (s : ConnectedDataflow Node Item σ ε) : Prop where
  opening : OpenInv (N.connected nodes) s.flow
  subset : ∀ n, nodes n ⊆ s.outputNodes n
  fresh : ∀ n, (s.flow.block n).unstarted → nodes n = s.outputNodes n

namespace StartInv

variable {N : Network Node Item σ ε} {nodes : Node → List Node}
  {s s' : ConnectedDataflow Node Item σ ε}

omit [DecidableEq Node] in
theorem unstarted_iff {b : Block Node Item σ ε} :
    b.unstarted ↔ b.state = .created ∧ b.stateMutex = none := by
  simp [Block.unstarted]

omit [DecidableEq Node] in
/-- The next blocks of the blocks that are not started are known. -/
theorem refresh (h : OpenInv (N.connected nodes) s.flow) (hsub : ∀ n, nodes n ⊆ s.outputNodes n) :
    StartInv N (s.startNodes nodes) s := by
  refine ⟨h.reconnect fun n m he => ?_, fun n => ?_, fun n hn => if_pos hn⟩
  · simp only [Network.Edge, Network.connected, ConnectedDataflow.startNodes] at he ⊢
    split_ifs at he with hn
    · exact .inr (unstarted_iff.mp hn)
    · exact .inl he
  · unfold ConnectedDataflow.startNodes
    split_ifs
    · exact List.Subset.refl _
    · exact hsub n

theorem connectTo (h : StartInv N nodes s) (p c : Node) :
    StartInv N ((s.connectTo p c).startNodes nodes) (s.connectTo p c) := by
  refine refresh ?_ fun n m hm => ?_
  · have hst : ∀ m, ((s.connectTo p c).flow.block m).state = (s.flow.block m).state :=
      Dataflow.set_congr (f := Block.state) (by rfl)
    have hmutex : ∀ m, ((s.connectTo p c).flow.block m).stateMutex = (s.flow.block m).stateMutex :=
      Dataflow.set_congr (f := Block.stateMutex) (by rfl)
    have hto : ∀ m, ((s.connectTo p c).flow.block m).toStart = (s.flow.block m).toStart :=
      Dataflow.set_congr (f := Block.toStart) (by rfl)
    refine ⟨?_, ?_, ?_, ?_⟩
    · simp only [hmutex]
      exact h.opening.nested
    · simp only [hmutex, hst, hto]
      exact h.opening.starting
    · simp only [hst]
      exact h.opening.opened
    · simp only [hst]
      exact h.opening.acyclic
  · simp only [ConnectedDataflow.connectTo]
    split_ifs
    · exact h.subset n hm
    · exact subset_addNode (h.subset n hm)

/-- A step of the blocks. -/
theorem step_flow (h : StartInv N nodes s) (hi : ConnectedInv N s) {a : DataflowLabel Node Item ε}
    {flow : Dataflow Node Item σ ε} (hs : s.flow.step (N.connected s.outputNodes) a = some flow)
    {escaped : Bool} : StartInv N
      (ConnectedDataflow.startNodes { s with flow := flow, escaped := escaped } nodes)
      { s with flow := flow, escaped := escaped } := by
  refine refresh (h.opening.step hi.shape (fun n hst hm c he => ?_) hs) h.subset
  rw [hi.toComplete (by rw [hst]; nofun), ← h.fresh n (unstarted_iff.mpr ⟨hst, hm⟩)]
  exact he

theorem step (h : StartInv N nodes s) (hi : ConnectedInv N s) {a : ConnectedLabel Node Item ε}
    (hs : s.step N a = some s') : StartInv N (s'.startNodes nodes) s' := by
  cases a with
  | connectTo p c =>
    simp only [ConnectedDataflow.step] at hs
    split_ifs at hs
    cases hs
    exact h.connectTo p c
  | step a =>
    simp only [ConnectedDataflow.step, Option.map_eq_some_iff] at hs
    obtain ⟨flow, hf, rfl⟩ := hs
    exact h.step_flow hi hf

theorem init : StartInv N (fun _ => []) (connectedMachine N).init where
  opening := ⟨nofun, nofun, fun _ hc => absurd rfl hc, fun _ hc => absurd rfl hc⟩
  subset _ := List.Subset.refl _
  fresh _ _ := rfl

end StartInv

end AsyncCpp.DataFlow
