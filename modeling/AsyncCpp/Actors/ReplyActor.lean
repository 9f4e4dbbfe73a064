import AsyncCpp.DataFlow.AcceptedIsRun

/-!
# Reply actors, and what was accepted is run

Model of Actors/ReplyActor.h: an actor is one `ActionBlock` whose items are pairs of a
message and the `TaskCompletionSource` of the reply. `Ask` makes a completion source, calls
`AcceptInputAsync` of the block and returns the task of the source. Completion sources are
numbered; the number stands for the source in the item. The state of a
`StatefulReplyActor` and the reply tasks are the state of the block; a stateless actor has
the state `Unit`.

Results:
* `accepted_is_run`: in every run in which nobody adds an item after the processing task
  emptied the queue, a completed block has run the item of every call that returned once,
  and every reply task of a completed actor is completed.
* `not_accepted_is_run`: without the condition it is false.
-/

namespace AsyncCpp.Actors

open Interleaving Tasks DataFlow

/-- The data members of `StatefulReplyActor` (ReplyActor.h:135-136) the handler uses. -/
structure ReplyActor (Message Result S ε : Type*) where
  processMessageFunc : Message → S → Except (Exn ε) (Result × S)
  initialState : S

/-- `_state` and the tasks of the completion sources. -/
structure ReplyState (Result S ε : Type*) where
  state : S
  reply : ℕ → TaskSharedState Result ε := fun _ => {}

namespace ReplyState

variable {Result S ε : Type*}

/-- A call of `tcsCopy`, a copy of completion source `p`. -/
def setReply (st : ReplyState Result S ε) (p : ℕ) (c : SetCall Result ε) :
    Except (Exn ε) Unit × ReplyState Result S ε :=
  match c.apply (st.reply p) with
  | .error e => (.error e, st)
  | .ok _ => (.ok (), { st with reply := Function.update st.reply p ((st.reply p).exec c) })

end ReplyState

namespace ReplyActor

variable {Message Result S ε : Type*}

/-- The function of the block (ReplyActor.h:141-158): the `try` part, and the `catch` part for
    what the message function or `SetResult` threw. -/
def handle (A : ReplyActor Message Result S ε) (st : ReplyState Result S ε)
    (message : Message × ℕ) :
    Except (Exn ε) Unit × ReplyState Result S ε :=
  match A.processMessageFunc message.1 st.state with
  | .error e => st.setReply message.2 (.setException (some e) true)
  | .ok (result, newState) =>
    match { st with state := newState }.setReply message.2 (.setResult result true) with
    | (.ok (), st') => (.ok (), st')
    | (.error e, st') => st'.setReply message.2 (.setException (some e) true)

/-- The `ActionBlock` of the actor. It has no next blocks, so what stands for its `NoOutput`
    goes nowhere. -/
def actorQueue (A : ReplyActor Message Result S ε) :
    Network Unit (Message × ℕ) (ReplyState Result S ε) ε where
  outputNodes _ := []
  canAcceptFunc _ _ := true
  transformFunc _ st message :=
    ((A.handle st message).1.map fun _ => message, (A.handle st message).2)
  initialState _ := { state := A.initialState }

end ReplyActor

/-! ## Reply tasks -/

section Reply

variable {Message Result S ε : Type*} {A : ReplyActor Message Result S ε}

/-- Every reply task is pending or completed. -/
def ReplyState.Settled (st : ReplyState Result S ε) : Prop :=
  ∀ q, (st.reply q).state = .created ∨ (st.reply q).state.isCompleted

/-- A setter leaves the task of its source completed, and the completed tasks completed. -/
theorem setReply_completed {st : ReplyState Result S ε} (h : st.Settled) (p : ℕ)
    {c : SetCall Result ε}
    (hc : (∃ e, c = .setException (some e) true) ∨ ∃ r, c = .setResult r true) :
    (st.setReply p c).2.Settled ∧ ((st.setReply p c).2.reply p).state.isCompleted ∧
      ∀ q, (st.reply q).state.isCompleted → ((st.setReply p c).2.reply q).state.isCompleted := by
  rcases h p with hst | hst
  · have hset : ((st.reply p).exec c).state.isCompleted := by
      rcases hc with ⟨e, rfl⟩ | ⟨r, rfl⟩ <;>
        simp [TaskSharedState.exec, SetCall.apply, hst, TaskState.isCompleted]
    have hok : ∃ r, c.apply (st.reply p) = .ok r := by
      rcases hc with ⟨e, rfl⟩ | ⟨r, rfl⟩ <;> exact ⟨_, by simp [SetCall.apply, hst]; rfl⟩
    obtain ⟨r, hr⟩ := hok
    simp only [ReplyState.setReply, hr]
    refine ⟨fun q => ?_, by rwa [Function.update_self], fun q hq => ?_⟩
    · by_cases hqp : q = p
      · subst hqp
        right
        simpa using hset
      · simpa [Function.update_of_ne hqp] using h q
    · by_cases hqp : q = p
      · subst hqp
        rwa [Function.update_self]
      · rwa [Function.update_of_ne hqp]
  · have hne : (st.reply p).state ≠ .created := by
      intro heq
      rw [heq] at hst
      cases hst
    have herr : ∃ e, c.apply (st.reply p) = .error e := by
      rcases hc with ⟨e, rfl⟩ | ⟨r, rfl⟩ <;> exact ⟨_, by simp [SetCall.apply, hne]; rfl⟩
    obtain ⟨e, he⟩ := herr
    simp only [ReplyState.setReply, he]
    exact ⟨h, hst, fun q hq => hq⟩

/-- Running a message completes its reply task. -/
theorem handle_completed {st : ReplyState Result S ε} (h : st.Settled) (message : Message × ℕ) :
    (A.handle st message).2.Settled ∧
      ((A.handle st message).2.reply message.2).state.isCompleted ∧
        ∀ q, (st.reply q).state.isCompleted →
          ((A.handle st message).2.reply q).state.isCompleted := by
  unfold ReplyActor.handle
  split
  · exact setReply_completed h message.2 (.inl ⟨_, rfl⟩)
  · rename_i result newState hf
    have hnew : ReplyState.Settled { st with state := newState } := h
    have hset := setReply_completed hnew message.2
      (c := .setResult result true) (.inr ⟨_, rfl⟩)
    split
    · rename_i st' heq
      rw [heq] at hset
      exact hset
    · rename_i e st' heq
      rw [heq] at hset
      obtain ⟨h1, h2, h3⟩ := setReply_completed hset.1 message.2
        (c := .setException (some e) true) (.inl ⟨_, rfl⟩)
      exact ⟨h1, h2, fun q hq => h3 q (hset.2.2 q hq)⟩

/-- The reply tasks of the messages that were run. -/
structure ReplyInv (b : Block Unit (Message × ℕ) (ReplyState Result S ε) ε) : Prop where
  settled : b.nodeState.Settled
  ran : ∀ x ∈ b.ran, (b.nodeState.reply x.item.2).state.isCompleted

theorem ReplyInv.process {n : Unit} {b b' : Block Unit (Message × ℕ) (ReplyState Result S ε) ε}
    (h : ReplyInv b) (hs : b.process A.actorQueue n = some b') : ReplyInv b' := by
  have hrun : ∀ (x : QueueItem Unit (Message × ℕ)) (st : ReplyState Result S ε),
      (A.actorQueue.transformFunc n b.nodeState x.item).2 = st →
        st.Settled ∧ ∀ y ∈ b.ran ++ [x], (st.reply y.item.2).state.isCompleted := by
    rintro x st rfl
    obtain ⟨h1, h2, h3⟩ := handle_completed (A := A) h.settled x.item
    refine ⟨h1, fun y hy => ?_⟩
    rcases List.mem_append.mp hy with hy | hy
    · exact h3 _ (h.ran y hy)
    · rw [List.mem_singleton.mp hy]
      exact h2
  cases Block.process_cases hs with
  | invoked hp hf | threw hp hf =>
    obtain ⟨h1, h2⟩ := hrun _ _ (congrArg Prod.snd hf)
    exact ⟨h1, h2⟩
  | _ => exact ⟨h.settled, h.ran⟩

theorem ReplyInv.closed (A : ReplyActor Message Result S ε) :
    Closed A.actorQueue (fun _ _ => True)
      fun _ (b : Block Unit (Message × ℕ) (ReplyState Result S ε) ε) => ReplyInv b where
  start h hs := by rw [(Block.start_eq hs).1]; exact ⟨h.settled, h.ran⟩
  completeCommon h hs := by rw [Block.completeCommon_eq hs]; exact ⟨h.settled, h.ran⟩
  advance h hs := by rw [(Block.advance_eq hs).1]; exact ⟨h.settled, h.ran⟩
  resumed h := ⟨h.settled, h.ran⟩
  throwing h _ := ⟨h.settled, h.ran⟩
  process h hs := h.process hs
  asked h _ _ := ⟨h.settled, h.ran⟩
  offered h _ := ⟨h.settled, h.ran⟩
  accept h _ hs := by rw [Block.acceptInputAsync_eq hs]; exact ⟨h.settled, h.ran⟩
  faultThread h := ⟨h.settled, h.ran⟩

theorem reachable_replyInv
    {G : Dataflow Unit (Message × ℕ) (ReplyState Result S ε) ε →
      DataflowLabel Unit (Message × ℕ) ε → Prop}
    {s : Dataflow Unit (Message × ℕ) (ReplyState Result S ε) ε}
    (h : (dataflowMachine A.actorQueue).Reachable G s) : ReplyInv (s.block ()) :=
  reachable_closed (ReplyInv.closed A) (fun _ => ⟨fun _ => .inl rfl, nofun⟩)
    (fun _ _ _ _ _ _ _ => trivial) h ()

end Reply

/-! ## Accepted means run -/

/-- In every run in which nobody adds an item to a queue that was emptied for the last time: a
    block whose `Completion()` is completed has run the items that were added, once each, and
    the item of every call of `AcceptInputAsync` that returned is one of them; and the reply
    task of every `Ask` that returned is completed once the actor is. -/
theorem accepted_is_run {Node Item σ Message Result S ε : Type*} [DecidableEq Node] :
    (∀ (N : Network Node Item σ ε) (s : Dataflow Node Item σ ε),
      (dataflowMachine N).Reachable PushBeforeDrain s →
        ∀ n, (s.block n).completedTask.state.isCompleted →
          (s.block n).ran = (s.block n).inputItems.added ∧
          ∀ k c, s.call k = some c → c.node = n → c.phase = .returned →
            (s.block n).ran.filter (fun x => x.origin = .user k) = [⟨.user k, c.item⟩]) ∧
    ∀ (A : ReplyActor Message Result S ε)
      (s : Dataflow Unit (Message × ℕ) (ReplyState Result S ε) ε),
      (dataflowMachine A.actorQueue).Reachable PushBeforeDrain s →
        (s.block ()).completedTask.state.isCompleted →
          ∀ k c, s.call k = some c → c.phase = .returned →
            ((s.block ()).nodeState.reply c.item.2).state.isCompleted := by
  refine ⟨fun N s h n hc => ⟨ran_eq_added h hc, ?_⟩, fun A s h hc k c hk hret => ?_⟩
  · rintro k c hk rfl hret
    exact ran_of_returned h hk hret hc
  · have hmem : (⟨.user k, c.item⟩ : QueueItem Unit (Message × ℕ)) ∈ (s.block ()).ran := by
      have hran := ran_of_returned h hk hret hc
      have hself : (⟨.user k, c.item⟩ : QueueItem Unit (Message × ℕ)) ∈
          (s.block ()).ran.filter fun x => x.origin = .user k := by
        rw [hran]
        exact List.mem_singleton.mpr rfl
      exact (List.mem_filter.mp hself).1
    exact (reachable_replyInv h).ran _ hmem

/-- The actor that replies with the message. -/
def echo : ReplyActor ℕ ℕ Unit Unit where
  processMessageFunc message st := .ok (message, st)
  initialState := ()

/-- `Ask(7)` is called; its `AcceptInputAsync` has checked that the block is started. -/
def askedRun : List (DataflowLabel Unit (ℕ × ℕ) Unit) :=
  [.start (), .advance (), .acceptInputAsync () (7, 0), .runCall 0]

/-- `Complete()` runs from its call to its return. -/
def completedRun (processing : ℕ) : List (DataflowLabel Unit (ℕ × ℕ) Unit) :=
  [DataflowLabel.complete ()] ++ List.replicate 4 (DataflowLabel.advance ()) ++
    List.replicate processing (DataflowLabel.process ()) ++
    List.replicate 2 (DataflowLabel.advance ())

/-- `Ask(7)` returns before `Complete()` is called. -/
theorem accepted_is_run_ask :
    ∃ s, (dataflowMachine echo.actorQueue).Reachable PushBeforeDrain s ∧
      (s.block ()).ran.filter (fun x => x.origin = .user 0) = [⟨.user 0, (7, 0)⟩] ∧
        ((s.block ()).nodeState.reply 0).state.isCompleted := by
  have hr : (dataflowMachine echo.actorQueue).Reachable PushBeforeDrain _ :=
    .head (a := .start ()) rfl nofun <| .head (a := .advance ()) rfl nofun <|
    .head (a := .acceptInputAsync () (7, 0)) rfl nofun <| .head (a := .runCall 0) rfl nofun <|
    .head (a := .runCall 0) rfl (fun _ _ h => by cases h; rfl) <|
    .head (a := .runCall 0) rfl nofun <| .head (a := .complete ()) rfl nofun <|
    .head (a := .advance ()) rfl nofun <| .head (a := .advance ()) rfl nofun <|
    .head (a := .advance ()) rfl nofun <| .head (a := .advance ()) rfl nofun <|
    .head (a := .process ()) rfl nofun <| .head (a := .process ()) rfl nofun <|
    .head (a := .process ()) rfl nofun <| .head (a := .process ()) rfl nofun <|
    .head (a := .process ()) rfl nofun <| .head (a := .process ()) rfl nofun <|
    .head (a := .advance ()) rfl nofun <| .head (a := .advance ()) rfl nofun .refl
  obtain ⟨hrun, hreply⟩ :=
    @accepted_is_run Unit (ℕ × ℕ) (ReplyState ℕ Unit Unit) ℕ ℕ Unit Unit _
  exact ⟨_, hr, (hrun echo.actorQueue _ hr () rfl).2 0 _ rfl rfl rfl,
    hreply echo _ hr rfl 0 _ rfl rfl⟩

/-- `Complete()` comes between the check and the push: `Ask` returns a reply task that stays
    pending, and the message is not run. -/
theorem not_accepted_is_run :
    ∃ s, (dataflowMachine echo.actorQueue).Reachable Machine.Any s ∧
      (s.block ()).completedTask.state = .runToCompletion ∧
        (∃ c, s.call 0 = some c ∧ c.phase = .returned) ∧ (s.block ()).ran = [] ∧
          ((s.block ()).nodeState.reply 0).state = .created := by
  have hr : (dataflowMachine echo.actorQueue).run (dataflowMachine echo.actorQueue).init
      (askedRun ++ completedRun 3 ++ [.runCall 0, .runCall 0]) = some _ := rfl
  exact ⟨_, .of_run hr, rfl, ⟨_, rfl, rfl⟩, rfl, rfl⟩

end AsyncCpp.Actors
