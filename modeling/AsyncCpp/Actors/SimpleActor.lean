import AsyncCpp.Actors.InTurn

/-!
# Simple actors

Model of the `StatefulActor` of Actors/SimpleActor.h: the function of its block calls
`processMessageFunc` on the message and `_state`, and stores what it returns in `_state`, at
once or, for an asynchronous function, when its task has ended. `Tell` is `AcceptInputAsync`
of the block; `Complete` and the destructor call `Complete` of the block, and the destructor
waits for `Completion()`.

Results:
* `actor_folds`: the state is the fold of the function over the messages, and an actor that is
  completed has been called on every message once, in the order of the `Tell` calls.
-/

namespace AsyncCpp.Actors

open Interleaving Tasks DataFlow

/-- The data members of `StatefulActor` (SimpleActor.h:104-106). -/
structure StatefulActor (Message S ε : Type*) where
  processMessageFunc : Message → S → Except (Exn ε) S
  initialState : S

namespace StatefulActor

variable {Message S ε : Type*}

/-- The function of the block (SimpleActor.h:112-116, 125-129). -/
def handle (A : StatefulActor Message S ε) (st : S) (message : Message) :
    Except (Exn ε) Unit × S :=
  match A.processMessageFunc message st with
  | .ok newState => (.ok (), newState)
  | .error e => (.error e, st)

/-- The `ActionBlock` of the actor. It has no next blocks, so what stands for its `NoOutput`
    goes nowhere. -/
def actorQueue (A : StatefulActor Message S ε) : Network Unit Message S ε where
  outputNodes _ := []
  canAcceptFunc _ _ := true
  transformFunc _ st message :=
    ((A.handle st message).1.map fun _ => message, (A.handle st message).2)
  initialState _ := A.initialState

/-- `processMessageFunc` returns, and `f` is what it returns. -/
def Computes (A : StatefulActor Message S ε) (f : S → Message → S) : Prop :=
  ∀ message st, A.processMessageFunc message st = .ok (f st message)

variable {A : StatefulActor Message S ε} {f : S → Message → S}

theorem Computes.transformFunc (hA : A.Computes f) (st : S) (message : Message) :
    A.actorQueue.transformFunc () st message = (.ok message, f st message) := by
  simp [actorQueue, handle, hA message st, Except.map]

/-- The function of the block, called on one message after the other, folds. -/
theorem Computes.produced (hA : A.Computes f) (xs : List (QueueItem Unit Message)) :
    (A.actorQueue.produced () xs).2 = (xs.map QueueItem.item).foldl f A.initialState := by
  induction xs using List.reverseRecOn with
  | nil => rfl
  | append_singleton xs x ih =>
    rw [Network.produced_append, Network.produce, hA.transformFunc, ih]
    simp

end StatefulActor

section Theorem

variable {Message S ε : Type*} {A : StatefulActor Message S ε} {f : S → Message → S}
  {s₀ s : HandlerSystem Unit Message S ε}

/-- The state of the actor is the fold of its function over the messages it was called on. -/
theorem nodeState_eq_foldl (hA : A.Computes f)
    {G : HandlerSystem Unit Message S ε → HandlerLabel Unit Message ε → Prop}
    (h : (handlerMachine A.actorQueue).Reachable G s) :
    (s.dataflow.block ()).nodeState =
      ((s.dataflow.block ()).ran.map QueueItem.item).foldl f A.initialState := by
  rw [(reachable_workInv (reachable_any h) ()).nodeState, hA.produced]

/-- An actor whose function `processMessageFunc` returns. In every state its state is the fold
    of the function over the messages it was called on, and a call ends before the next one
    begins. When `Complete` was called and has returned, `Completion()` is completed. Once it
    is, the function was called on the message of every `Tell` once, a `Tell` that
    returned before another one was called comes first, and nothing changes any more, whatever
    is called. If every `Tell` was called after the ones before it had ended, the final state is
    the fold over the messages in the order of the `Tell` calls. -/
theorem actor_folds (hA : A.Computes f)
    (h₀ : (handlerMachine A.actorQueue).Reachable (Under ActorUse) s₀)
    (h : (handlerMachine A.actorQueue).Reaches (Under ActorUse) s₀ s) :
    (s.dataflow.block ()).nodeState =
      ((s.dataflow.block ()).ran.map QueueItem.item).foldl f A.initialState ∧
    s.EventsInv ∧
    ((s.dataflow.block ()).completedBy ≠ [] → (s.dataflow.block ()).stateMutex = none →
      (s.dataflow.block ()).completedTask.state.isCompleted) ∧
    ((s.dataflow.block ()).completedTask.state.isCompleted →
      Done s₀ s ∧
      ∀ s', (handlerMachine A.actorQueue).Reaches (Under ActorUse) s s' →
        outcome s' = outcome s) ∧
    ((handlerMachine A.actorQueue).Reachable (Under fun s a => ActorUse s a ∧ InTurn s a) s →
      (s.dataflow.block ()).completedTask.state.isCompleted →
        (s.dataflow.block ()).ran = told s.dataflow ∧
        (s.dataflow.block ()).nodeState =
          ((told s.dataflow).map QueueItem.item).foldl f A.initialState) := by
  have hs : (handlerMachine A.actorQueue).Reachable (Under ActorUse) s := h₀.trans h
  have hreturns : ∀ b : Block Unit Message S ε, Returning A.actorQueue b :=
    fun b x _ _ => ⟨_, _, hA.transformFunc b.nodeState x.item⟩
  have hdone := done_of_completed rfl (fun _ _ hg => hg) (fun t _ _ => hreturns _) h₀ h
  refine ⟨nodeState_eq_foldl hA hs, reachable_eventsInv hs, fun hc hm => ?_, hdone, ?_⟩
  · have hr := reaches_under hs
    obtain ⟨-, -, hinv⟩ := reachable_actorInv rfl (fun _ _ hg => hg) (fun t _ _ => hreturns _) hr
    rw [hinv.completed_of_free (reachable_shapeInv hr ()) hc hm]
    rfl
  · intro hturn hc
    have hr := reaches_under hturn
    obtain ⟨hdrain, -, hinv⟩ := reachable_actorInv rfl (fun _ _ hg => hg.1)
      (fun t _ _ => hreturns _) hr
    have hout := hinv.ended (by rw [(hinv.completedTask_eq hc).2]; rfl)
    have hran : (s.dataflow.block ()).ran = told s.dataflow :=
      (ran_eq_added (hdrain.mono fun _ _ hg => hg.2) hc).trans
        (added_eq_told rfl (fun _ _ hg => hg) hr hout)
    exact ⟨hran, hran ▸ nodeState_eq_foldl hA hs⟩

end Theorem

/-- The actor that appends a decimal digit. -/
def decimal : StatefulActor ℕ ℕ Unit where
  processMessageFunc message st := .ok (10 * st + message)
  initialState := 0

/-- `Tell(3)` returns. -/
def toldRun : List (HandlerLabel Unit ℕ Unit) :=
  [HandlerLabel.dataflow (.start ()), .dataflow (.advance ()),
    .dataflow (.acceptInputAsync () 3)] ++ List.replicate 3 (HandlerLabel.dataflow (.runCall 0))

/-- The first message is taken by `TakeAsync`, `Tell(4)` returns, the second message is taken
    by `TryTakeAll` after `Complete()` was called, and `Complete()` is called again. -/
def completedTwiceRun : List (HandlerLabel Unit ℕ Unit) :=
  List.replicate 4 (HandlerLabel.dataflow (.process ())) ++ [HandlerLabel.call ()] ++
    List.replicate 3 (HandlerLabel.dataflow (.process ())) ++
    [HandlerLabel.dataflow (.acceptInputAsync () 4)] ++
    List.replicate 3 (HandlerLabel.dataflow (.runCall 1)) ++
    [HandlerLabel.dataflow (.complete ())] ++
    List.replicate 4 (HandlerLabel.dataflow (.advance ())) ++
    List.replicate 2 (HandlerLabel.dataflow (.process ())) ++ [HandlerLabel.call ()] ++
    List.replicate 3 (HandlerLabel.dataflow (.process ())) ++
    List.replicate 2 (HandlerLabel.dataflow (.advance ())) ++ [HandlerLabel.dataflow (.complete ())]

/-- The state is `34`, and nothing changes any more. -/
theorem actor_folds_decimal :
    ∃ s₀ s, (handlerMachine decimal.actorQueue).Reachable (Under ActorUse) s₀ ∧
      (handlerMachine decimal.actorQueue).Reaches (Under ActorUse) s₀ s ∧
      (s.dataflow.block ()).nodeState = 34 ∧ Done s₀ s ∧
      (s.dataflow.block ()).ran = told s.dataflow := by
  have hguard : ∀ (s : Dataflow Unit ℕ ℕ Unit) (a : DataflowLabel Unit ℕ Unit), s.CallInv →
      (inUse s a && inTurn s a) = true → ActorUse s a ∧ InTurn s a := by
    intro s a hcalls ha
    rw [Bool.and_eq_true] at ha
    exact ⟨actorUse_of_inUse hcalls ha.1, inTurn_of_eq_true hcalls ha.2⟩
  obtain ⟨s₀, hrun₀⟩ : ∃ s₀, (handlerMachine decimal.actorQueue).runWhile
      (under fun s a => inUse s a && inTurn s a) (handlerMachine decimal.actorQueue).init toldRun =
        some s₀ := ⟨_, rfl⟩
  obtain ⟨s, hrun, hstate, hc⟩ : ∃ s, (handlerMachine decimal.actorQueue).runWhile
      (under fun s a => inUse s a && inTurn s a) s₀ completedTwiceRun = some s ∧
        (s.dataflow.block ()).nodeState = 34 ∧
        (s.dataflow.block ()).completedTask.state.isCompleted := by
    cases hrun₀
    exact ⟨_, rfl, rfl, rfl⟩
  have h₀ := reaches_of_runWhile hguard .init _ hrun₀
  have h := reaches_of_runWhile hguard h₀ _ hrun
  have hreach := h₀.mono fun _ _ => Under.mono fun _ _ hg => hg.1
  have hreaches := h.mono fun _ _ => Under.mono fun _ _ hg => hg.1
  have hA : decimal.Computes fun st message => 10 * st + message := fun _ _ => rfl
  obtain ⟨-, -, -, hdone, hturn⟩ := actor_folds hA hreach hreaches
  exact ⟨s₀, s, hreach, hreaches, hstate, (hdone hc).1, (hturn (h₀.trans h) hc).1⟩

end AsyncCpp.Actors
