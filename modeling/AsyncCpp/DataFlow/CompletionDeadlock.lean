import AsyncCpp.DataFlow.HandlerCalls
import AsyncCpp.DataFlow.Connections

/-!
# `Complete` and the functions of the blocks

`completeCommon` waits for the processing task while it holds `_stateMutex`
(DataFlowBlockCommon.h:395-451), which `AcceptInputAsync`, `CanAcceptInput` and `Complete` of
the block need. A function that calls its own block, or a block from which connections and
calls of other functions lead back to its own, can be waiting for that mutex while the thread
that holds it waits for the function to return. So can `propagateOutput` of a block that was
connected to such a block after its `Start`.

Here the functions call blocks and `ConnectTo` is a step, before `Start` and after it.

Results:
* `completion_never_deadlocks`: no state with such a wait is reached while no call of a
  function and no connection made after `Start` leads to a block that leads back.
* `not_completion_never_deadlocks`: without the condition on the calls one is reached, and
  without the condition on the connections.
-/

namespace AsyncCpp.DataFlow

open Interleaving Relation

/-! ## Closed chains -/

section Chains

variable {V : Type*} {edge calls : V → V → Prop}

/-- Where no step of `calls` leads back to its start, a closed chain has steps of `edge`
    only. -/
theorem transGen_edge_of_closed
    (h : ∀ a b, calls a b → ¬ ReflTransGen (fun x y => edge x y ∨ calls x y) b a) {a b : V}
    (hab : TransGen (fun x y => edge x y ∨ calls x y) a b)
    (hba : ReflTransGen (fun x y => edge x y ∨ calls x y) b a) : TransGen edge a b := by
  induction hab with
  | @single b hstep =>
    rcases hstep with he | hc
    · exact .single he
    · exact absurd hba (h a b hc)
  | @tail b c hab hstep ih =>
    rcases hstep with he | hc
    · exact (ih (.head (.inl he) hba)).tail he
    · exact absurd (hba.trans hab.to_reflTransGen) (h b c hc)

end Chains

variable {Node Item σ ε : Type*}

/-! ## Who waits for whom -/

/-- What a thread can wait for: the end of the critical section of a block, and the end of its
    processing task. -/
inductive Resource (Node : Type*) where
  | mutex (n : Node)
  | processing (n : Node)
  deriving DecidableEq

def Resource.node : Resource Node → Node
  | .mutex n | .processing n => n

/-- The next block whose critical section the thread that holds `_stateMutex` is in or is about
    to enter. -/
def Block.entering (b : Block Node Item σ ε) : Option Node :=
  match b.stateMutex with
  | some ⟨_, .starting none⟩ => b.toStart.head?
  | some ⟨_, .finally _ none _⟩ => b.toComplete.head?
  | _ => b.calling

namespace HandlerSystem

/-- The block whose critical section the processing task of `n` is in or is about to enter, in
    `propagateOutput` or in a call of the function. -/
def seeking (s : HandlerSystem Node Item σ ε) (n : Node) : Option Node :=
  match s.handler n with
  | .idle =>
    match (s.dataflow.block n).processingTask with
    | .asking _ (c :: _) _ _ | .offering _ .throwIfNotStarted (c :: _) _ => some c
    | _ => none
  | .acceptInputAsync k =>
    match s.dataflow.call k with
    | some ⟨m, _, .throwIfNotStarted⟩ => some m
    | _ => none
  | .running => none
  | .canAcceptInput m | .complete m | .completing m => some m

/-- The thread of the first waits for the second. -/
inductive Waits (s : HandlerSystem Node Item σ ε) : Resource Node → Resource Node → Prop
  /-- The processing task waits for a critical section. -/
  | seeking {n m : Node} (h : s.seeking n = some m) (hm : (s.dataflow.block m).stateMutex.isSome) :
    Waits s (.processing n) (.mutex m)
  /-- `completeCommon` is at `_processingTask.Wait()`. -/
  | processing {n : Node} {caller : Caller Node} {e : Option (Exn ε)}
    (hm : (s.dataflow.block n).stateMutex = some ⟨caller, .wait e⟩)
    (hp : (s.dataflow.block n).processingTask.outcome = none) :
    Waits s (.mutex n) (.processing n)
  /-- `Start` or `completeCommon` waits for the critical section of a next block. -/
  | entering {n m : Node} (h : (s.dataflow.block n).entering = some m)
    (hm : (s.dataflow.block m).stateMutex.isSome) : Waits s (.mutex n) (.mutex m)

/-- The thread that completes `n` holds `_stateMutex` and waits for the processing task, which
    waits, maybe through other blocks, for `_stateMutex`. -/
def Deadlock (s : HandlerSystem Node Item σ ε) (n : Node) : Prop :=
  s.Waits (.mutex n) (.processing n) ∧ TransGen s.Waits (.processing n) (.mutex n)

end HandlerSystem

open HandlerSystem

/-! ## Connections and functions -/

/-- The network, the functions of its blocks and its connections, as in `ConnectedDataflow`. -/
structure ConnectedHandlers (Node Item σ ε : Type*) where
  handlers : HandlerSystem Node Item σ ε
  outputNodes : Node → List Node := fun _ => []

inductive ConnectedHandlerLabel (Node Item ε : Type*) where
  | connectTo (p c : Node)
  | step (a : HandlerLabel Node Item ε)

variable [DecidableEq Node]

namespace ConnectedHandlers

/-- The network without the functions. -/
def connected (s : ConnectedHandlers Node Item σ ε) : ConnectedDataflow Node Item σ ε :=
  { flow := s.handlers.dataflow, outputNodes := s.outputNodes }

def connectTo (s : ConnectedHandlers Node Item σ ε) (p c : Node) :
    ConnectedHandlers Node Item σ ε :=
  let t := s.connected.connectTo p c
  { handlers := { s.handlers with dataflow := t.flow }, outputNodes := t.outputNodes }

def step (N : Network Node Item σ ε) (s : ConnectedHandlers Node Item σ ε) :
    ConnectedHandlerLabel Node Item ε → Option (ConnectedHandlers Node Item σ ε)
  | .connectTo p c => if s.handlers.dataflow.terminated then none else some (s.connectTo p c)
  | .step a =>
    (s.handlers.step (N.connected s.outputNodes) a).map fun t => { s with handlers := t }

end ConnectedHandlers

/-- The blocks as they are constructed, with no connections. -/
def connectedHandlerMachine (N : Network Node Item σ ε) :
    Machine (ConnectedHandlers Node Item σ ε) (ConnectedHandlerLabel Node Item ε) where
  init := { handlers := { dataflow := (connectedMachine N).init.flow } }
  step := ConnectedHandlers.step N

/-- Connections of a block that is not started and in no call of `Start` are those of
    `connects`. The other connections of a block that has not stopped, and the calls of the
    functions, are those of `calls`. -/
def MayLink (connects calls : Node → Node → Prop) (s : ConnectedHandlers Node Item σ ε) :
    ConnectedHandlerLabel Node Item ε → Prop
  | .connectTo p c =>
    if (s.handlers.dataflow.block p).unstarted then connects p c
    else (s.handlers.dataflow.block p).state = .stopped ∨ calls p c
  | .step a => MayCall calls s.handlers a

/-- Every connection is one of `nodes`, those that `Start` knows, or one of `calls`. -/
structure LinkInv (N : Network Node Item σ ε) (connects calls : Node → Node → Prop)
    (nodes : Node → List Node) (s : ConnectedHandlers Node Item σ ε) : Prop where
  blocks : ConnectedInv N s.connected
  starts : StartInv N nodes s.connected
  callee : CalleeInv calls s.handlers
  early : ∀ p c, c ∈ nodes p → connects p c ∨ calls p c
  late : ∀ p c, c ∈ s.outputNodes p → c ∈ nodes p ∨ calls p c

variable {N : Network Node Item σ ε} {s s' : ConnectedHandlers Node Item σ ε}
  {connects calls : Node → Node → Prop} {nodes : Node → List Node}

namespace LinkInv

omit [DecidableEq Node] in
/-- The blocks that `Start` will visit become known. -/
theorem refresh (h : LinkInv N connects calls nodes s) (hblocks : ConnectedInv N s'.connected)
    (hstarts : StartInv N (s'.connected.startNodes nodes) s'.connected)
    (hcallee : CalleeInv calls s'.handlers)
    (hout : ∀ p c, c ∈ s'.outputNodes p → c ∈ s.outputNodes p ∨ calls p c ∨
      (s'.handlers.dataflow.block p).unstarted ∧ connects p c) :
    LinkInv N connects calls (s'.connected.startNodes nodes) s' := by
  refine ⟨hblocks, hstarts, hcallee, fun p c hc => ?_, fun p c hc => ?_⟩
  · simp only [ConnectedDataflow.startNodes] at hc
    split_ifs at hc with hp
    · rcases hout p c hc with hold | hcall | ⟨-, hnew⟩
      · exact (h.late p c hold).elim (h.early p c) .inr
      · exact .inr hcall
      · exact .inl hnew
    · exact h.early p c hc
  · simp only [ConnectedDataflow.startNodes]
    split_ifs with hp
    · exact .inl hc
    · rcases hout p c hc with hold | hcall | ⟨hp', -⟩
      · exact h.late p c hold
      · exact .inr hcall
      · exact absurd hp' hp

theorem connectTo (h : LinkInv N connects calls nodes s) {p c : Node}
    (hg : MayLink connects calls s (.connectTo p c)) :
    LinkInv N connects calls ((s.connectTo p c).connected.startNodes nodes) (s.connectTo p c) := by
  have hfree : ∀ m, ((s.connectTo p c).handlers.dataflow.block m).unstarted =
      (s.handlers.dataflow.block m).unstarted :=
    Dataflow.set_congr (f := Block.unstarted) (by rfl)
  refine h.refresh (h.blocks.connectTo p c) (h.starts.connectTo p c)
    ⟨h.callee.allowed, h.callee.made⟩ fun q d hd => ?_
  rw [hfree]
  by_cases hst : (s.handlers.dataflow.block p).state = .stopped
  · have hout : (s.connectTo p c).outputNodes = s.outputNodes := if_pos hst
    exact .inl (hout ▸ hd)
  · have hout : (s.connectTo p c).outputNodes = addNode s.outputNodes p c := if_neg hst
    rw [hout] at hd
    rcases mem_addNode.mp hd with hold | ⟨rfl, rfl⟩
    · exact .inl hold
    · refine .inr ?_
      simp only [MayLink] at hg
      split_ifs at hg with hp
      · exact .inr ⟨hp, hg⟩
      · exact .inl (hg.resolve_left hst)

theorem step (h : LinkInv N connects calls nodes s) {a : ConnectedHandlerLabel Node Item ε}
    (hg : MayLink connects calls s a) (hs : s.step N a = some s') :
    LinkInv N connects calls (s'.connected.startNodes nodes) s' := by
  cases a with
  | connectTo p c =>
    simp only [ConnectedHandlers.step] at hs
    split_ifs at hs
    cases hs
    exact h.connectTo hg
  | step a =>
    simp only [ConnectedHandlers.step, Option.map_eq_some_iff] at hs
    obtain ⟨t, ht, rfl⟩ := hs
    obtain ⟨b, -, hb⟩ | ⟨-, hb⟩ := step_dataflow ht
    · exact h.refresh (h.blocks.step_flow hb) (h.starts.step_flow h.blocks hb)
        (h.callee.step hg ht) fun q d hd => .inl hd
    · have hsame : ({ s with handlers := t } : ConnectedHandlers Node Item σ ε).connected =
          s.connected := by
        simp only [ConnectedHandlers.connected, hb]
      refine h.refresh (hsame ▸ h.blocks) ?_ (h.callee.step hg ht) fun q d hd => .inl hd
      rw [hsame]
      exact StartInv.refresh h.starts.opening h.starts.subset

end LinkInv

theorem reachable_linkInv (h : (connectedHandlerMachine N).Reachable (MayLink connects calls) s) :
    ∃ nodes, LinkInv N connects calls nodes s := by
  refine h.invariant (I := fun s => ∃ nodes, LinkInv N connects calls nodes s)
    ⟨_, .init, .init, ⟨nofun, nofun⟩, nofun, nofun⟩ ?_
  rintro s a s' ⟨nodes, hn⟩ hg hs
  exact ⟨_, hn.step hg hs⟩

/-! ## Chains of waits -/

omit [DecidableEq Node] in
/-- A block enters critical sections of its next blocks only. -/
theorem NextInv.entering {n m : Node} {b : Block Node Item σ ε} (h : NextInv N n b)
    (hm : b.entering = some m) : N.Edge n m := by
  unfold Block.entering at hm
  split at hm
  · exact h.toStart (List.mem_of_mem_head? hm)
  · exact h.toComplete (List.mem_of_mem_head? hm)
  · exact h.calling m hm

/-- A block leads to a block it starts, to one that is connected later and to one that its
    function calls. -/
def Leads (calls : Node → Node → Prop) (nodes : Node → List Node) (n m : Node) : Prop :=
  m ∈ nodes n ∨ calls n m

omit [DecidableEq Node] in
/-- The processing task seeks next blocks, and blocks the function may call. -/
theorem LinkInv.seeking (h : LinkInv N connects calls nodes s) {n m : Node}
    (hm : s.handlers.seeking n = some m) : Leads calls nodes n m := by
  have htargets : (s.handlers.dataflow.block n).processingTask.targets ⊆ s.outputNodes n :=
    (h.blocks.work n).targets.subset
  have hallowed := h.callee.allowed n m
  unfold HandlerSystem.seeking at hm
  unfold HandlerSystem.callee at hallowed
  split at hm
  · refine h.late n m (htargets ?_)
    split at hm
    · rename_i hp
      cases hm
      rw [hp]
      simp [Processing.targets]
    · rename_i hp
      cases hm
      rw [hp]
      exact List.mem_cons_self
    · cases hm
  · rename_i k hk
    refine .inr (hallowed ?_)
    split at hm
    · rename_i hc
      cases hm
      simp [hk, hc]
    · cases hm
  · cases hm
  all_goals
    rename_i hk
    cases hm
    exact .inr (hallowed (by rw [hk]))

omit [DecidableEq Node] in
/-- A wait stays at its block, or leads to another one. -/
theorem LinkInv.waits (h : LinkInv N connects calls nodes s) {r r' : Resource Node}
    (hr : s.handlers.Waits r r') : r.node = r'.node ∨ Leads calls nodes r.node r'.node := by
  cases hr with
  | seeking hm => exact .inr (h.seeking hm)
  | processing => exact .inl rfl
  | entering hm => exact .inr (h.late _ _ ((h.blocks.next _).entering hm))

omit [DecidableEq Node] in
theorem LinkInv.chain (h : LinkInv N connects calls nodes s) {r r' : Resource Node}
    (hr : ReflTransGen s.handlers.Waits r r') :
    ReflTransGen (Leads calls nodes) r.node r'.node := by
  induction hr with
  | refl => exact .refl
  | tail _ hw ih =>
    rcases h.waits hw with heq | hl
    · rwa [← heq]
    · exact ih.tail hl

/-- In every run in which no call of a function and no connection made after `Start` leads to
    a block from which such calls and connections lead back: no thread that completes a block
    waits for a processing task that waits for it. -/
theorem completion_never_deadlocks
    (hcalls : ∀ n m, calls n m → ¬ ReflTransGen (fun a b => connects a b ∨ calls a b) m n)
    (h : (connectedHandlerMachine N).Reachable (MayLink connects calls) s) (n : Node) :
    ¬ s.handlers.Deadlock n := by
  rintro ⟨hwait, hchain⟩
  obtain ⟨nodes, hinv⟩ := reachable_linkInv h
  have hleads : ∀ a b, Leads calls nodes a b → connects a b ∨ calls a b :=
    fun a b hab => hab.elim (hinv.early a b) .inr
  -- the chain leaves the block along a connection or a call, and comes back
  obtain ⟨r, hfirst, hrest⟩ := TransGen.head'_iff.mp hchain
  have hcycle : TransGen (Leads calls nodes) n n := by
    cases hfirst with
    | seeking hm => exact .head' (hinv.seeking hm) (hinv.chain hrest)
  have hedges : TransGen (fun a b => b ∈ nodes a) n n := by
    refine transGen_edge_of_closed (fun a b hab hback => ?_) hcycle .refl
    exact hcalls a b hab (ReflTransGen.mono hleads _ _ hback)
  -- a block that is being completed was started, so the blocks it started lead nowhere back
  refine hinv.starts.opening.acyclic n ?_ hedges
  cases hwait with
  | processing hm =>
    rw [(hinv.blocks.shape n).section_ _ hm]
    nofun

/-- The functions pass items on. -/
def relay : Network Bool ℕ Unit Unit where
  outputNodes _ := []
  canAcceptFunc _ _ := true
  transformFunc _ _ item := (.ok item, ())
  initialState _ := ()

/-- A step of the network. -/
def flowStep (a : DataflowLabel Bool ℕ Unit) : ConnectedHandlerLabel Bool ℕ Unit :=
  .step (.dataflow a)

/-- The user gives block `true` an item, and its processing task comes to the call of the
    function. -/
def offerRun : List (ConnectedHandlerLabel Bool ℕ Unit) :=
  [flowStep (.acceptInputAsync true 7)] ++ List.replicate 3 (flowStep (.runCall 0)) ++
    List.replicate 4 (flowStep (.process true)) ++ [.step (.call true)]

/-- `Complete` of block `true` comes to its `Wait()`. -/
def completeRun : List (ConnectedHandlerLabel Bool ℕ Unit) :=
  [flowStep (.complete true)] ++ List.replicate 4 (flowStep (.advance true))

/-- The function of block `true` has called `AcceptInputAsync` of block `false`, to which it is
    connected before `Start` and once more after it. -/
def tellRun : List (ConnectedHandlerLabel Bool ℕ Unit) :=
  [.connectTo true false, flowStep (.start true), flowStep (.advance true),
    flowStep (.advance false), flowStep (.advance true), .connectTo true false] ++
  offerRun ++ [.step (.acceptInputAsync true false 8)] ++ completeRun

/-- The function calls the other block. -/
theorem completion_never_deadlocks_tell :
    ∃ s, (connectedHandlerMachine relay).Reachable
        (MayLink (fun n m => n = true ∧ m = false) fun n m => n = true ∧ m = false) s ∧
      s.outputNodes true = [false, false] ∧
        s.handlers.Waits (.mutex true) (.processing true) ∧ s.handlers.seeking true = some false ∧
          ∀ n, ¬ s.handlers.Deadlock n := by
  obtain ⟨s, hrun, hout, hwait, hseek⟩ : ∃ s : ConnectedHandlers Bool ℕ Unit Unit,
      (connectedHandlerMachine relay).runWhile
        (fun _ a => match a with
          | .connectTo n m | .step (.canAcceptInput n m) | .step (.acceptInputAsync n m _)
          | .step (.complete n m) => n && !m
          | .step (.dataflow _) | .step (.call _) | .step (.resume _) => true)
        (connectedHandlerMachine relay).init tellRun = some s ∧
      s.outputNodes true = [false, false] ∧ s.handlers.Waits (.mutex true) (.processing true) ∧
        s.handlers.seeking true = some false :=
    ⟨_, rfl, rfl, .processing rfl rfl, rfl⟩
  have hreach : (connectedHandlerMachine relay).Reachable
      (MayLink (fun n m => n = true ∧ m = false) fun n m => n = true ∧ m = false) s := by
    refine .of_runWhile (fun s a ha => ?_) _ hrun
    cases a with
    | connectTo p c =>
      have hpc : p = true ∧ c = false := by simpa using ha
      simp only [MayLink]
      split_ifs
      · exact hpc
      · exact .inr hpc
    | step a =>
      cases a with
      | dataflow | call | resume => trivial
      | canAcceptInput n m | acceptInputAsync n m item | complete n m =>
        have hnm : n = true ∧ m = false := by simpa using ha
        exact hnm
  refine ⟨s, hreach, hout, hwait, hseek, completion_never_deadlocks ?_ hreach⟩
  rintro n m ⟨rfl, rfl⟩ hpath
  obtain heq | ⟨c, hedge | hcall, -⟩ := hpath.cases_head
  · cases heq
  · cases hedge.1
  · cases hcall.1

/-- The functions call no blocks. -/
def NoCalls (s : ConnectedHandlers Node Item σ ε) : ConnectedHandlerLabel Node Item ε → Prop
  | .connectTo _ _ => True
  | .step a => MayCall (fun _ _ => False) s.handlers a

/-- Two runs in which `Complete` and the processing task of block `true` wait for each other:
    its function calls the block itself, and it is connected to itself after `Start`. In the
    second no function calls a block. -/
theorem not_completion_never_deadlocks :
    (∃ s, (connectedHandlerMachine relay).Reachable Machine.Any s ∧ s.handlers.Deadlock true) ∧
    ∃ s, (connectedHandlerMachine relay).Reachable NoCalls s ∧ s.handlers.Deadlock true := by
  refine ⟨?_, ?_⟩
  · obtain ⟨s, hrun, hwait, hseek⟩ : ∃ s : ConnectedHandlers Bool ℕ Unit Unit,
        (connectedHandlerMachine relay).run (connectedHandlerMachine relay).init
          ([flowStep (.start true), flowStep (.advance true)] ++ offerRun ++
            [.step (.acceptInputAsync true true 8)] ++ completeRun) = some s ∧
        s.handlers.Waits (.mutex true) (.processing true) ∧
          s.handlers.Waits (.processing true) (.mutex true) :=
      ⟨_, rfl, .processing rfl rfl, .seeking rfl rfl⟩
    exact ⟨s, .of_run hrun, hwait, .single hseek⟩
  · obtain ⟨s, hrun, hwait, hseek⟩ : ∃ s : ConnectedHandlers Bool ℕ Unit Unit,
        (connectedHandlerMachine relay).runWhile
          (fun _ a => match a with
            | .connectTo _ _ | .step (.dataflow _) | .step (.call _) | .step (.resume _) => true
            | .step (.canAcceptInput _ _) | .step (.acceptInputAsync _ _ _)
            | .step (.complete _ _) => false)
          (connectedHandlerMachine relay).init
          ([flowStep (.start true), flowStep (.advance true), .connectTo true true] ++ offerRun ++
            [flowStep (.process true)] ++ completeRun) = some s ∧
        s.handlers.Waits (.mutex true) (.processing true) ∧
          s.handlers.Waits (.processing true) (.mutex true) :=
      ⟨_, rfl, .processing rfl rfl, .seeking rfl rfl⟩
    refine ⟨s, .of_runWhile (fun s a ha => ?_) _ hrun, hwait, .single hseek⟩
    cases a with
    | connectTo => trivial
    | step a =>
      cases a with
      | dataflow | call | resume => trivial
      | canAcceptInput | acceptInputAsync | complete => cases ha

end AsyncCpp.DataFlow
