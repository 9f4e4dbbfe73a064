import AsyncCpp.Actors.ActorRest
import AsyncCpp.Actors.InTurn
import AsyncCpp.Actors.ReplyActor

/-!
# Actors that answer

An item of the actors of Actors/ReplyActor.h and Actors/ActorPolicy.h is a message with the
number of the `TaskCompletionSource` its sender has. The function of the block ends the task of
that source with what it makes of the message and of the state, and returns.

The abstract program is `accumulate`: the messages are answered one after the other.

Results:
* `answeredBy_of_reachable`: the tasks of the messages that were run, in the order they were
  run, end as in the abstract program, and every message is answered in the end.
-/

namespace AsyncCpp.Actors

open Interleaving Tasks DataFlow

/-! ## The sequential program -/

section Program

variable {Message S Answer : Type*} (answer : Message → S → Answer × S)

/-- One message is answered after the other: the answers, and the state after the last one. -/
def accumulate : List Message → S → List Answer × S
  | [], st => ([], st)
  | message :: messages, st =>
    let (reply, next) := answer message st
    let (replies, last) := accumulate messages next
    (reply :: replies, last)

theorem accumulate_append (ms ms' : List Message) (st : S) :
    accumulate answer (ms ++ ms') st =
      ((accumulate answer ms st).1 ++ (accumulate answer ms' (accumulate answer ms st).2).1,
        (accumulate answer ms' (accumulate answer ms st).2).2) := by
  induction ms generalizing st with
  | nil => rfl
  | cons m ms ih => simp [accumulate, ih]

theorem accumulate_length (ms : List Message) (st : S) :
    (accumulate answer ms st).1.length = ms.length := by
  induction ms generalizing st with
  | nil => rfl
  | cons m ms ih => simp [accumulate, ih]

end Program

/-! ## The tasks of the messages -/

variable {Message Result S ε : Type*}

/-- The messages and the completion sources of items. -/
def messages (xs : List (QueueItem Unit (Message × ℕ))) : List Message := xs.map fun x => x.item.1

def sources (xs : List (QueueItem Unit (Message × ℕ))) : List ℕ := xs.map fun x => x.item.2

theorem messages_append (xs ys : List (QueueItem Unit (Message × ℕ))) :
    messages (xs ++ ys) = messages xs ++ messages ys :=
  List.map_append

theorem sources_append (xs ys : List (QueueItem Unit (Message × ℕ))) :
    sources (xs ++ ys) = sources xs ++ sources ys :=
  List.map_append

/-- The block answers: on a message whose task is pending, its function ends the task with the
    answer and returns. -/
structure Answering (N : Network Unit (Message × ℕ) (ReplyState Result S ε) ε)
    (answer : Message → S → Completion Result ε × S) (initial : S) : Prop where
  leaf : N.outputNodes () = []
  initialState : N.initialState () = { state := initial }
  transformFunc : ∀ (st : ReplyState Result S ε) (message : Message × ℕ),
    st.reply message.2 = {} → N.transformFunc () st message = (.ok message, {
      state := (answer message.1 st.state).2
      reply := Function.update st.reply message.2 (.ended (answer message.1 st.state).1) })

/-- The tasks of the items `xs` end as in the abstract program, the others are pending. -/
structure RepliedBy (answer : Message → S → Completion Result ε × S) (initial : S)
    (xs : List (QueueItem Unit (Message × ℕ))) (st : ReplyState Result S ε) : Prop where
  state : st.state = (accumulate answer (messages xs) initial).2
  replies : (sources xs).map st.reply =
    (accumulate answer (messages xs) initial).1.map TaskSharedState.ended
  pending : ∀ p, p ∉ sources xs → st.reply p = {}

section Replied

variable {N : Network Unit (Message × ℕ) (ReplyState Result S ε) ε}
  {answer : Message → S → Completion Result ε × S} {initial : S}

theorem RepliedBy.append (hN : Answering N answer initial)
    {xs : List (QueueItem Unit (Message × ℕ))} {st : ReplyState Result S ε}
    (h : RepliedBy answer initial xs st) {x : QueueItem Unit (Message × ℕ)}
    (hx : x.item.2 ∉ sources xs) :
    RepliedBy answer initial (xs ++ [x]) (N.transformFunc () st x.item).2 := by
  have hmsgs : messages (xs ++ [x]) = messages xs ++ [x.item.1] := messages_append xs [x]
  have hsrcs : sources (xs ++ [x]) = sources xs ++ [x.item.2] := sources_append xs [x]
  rw [hN.transformFunc st x.item (h.pending _ hx), h.state]
  refine ⟨?_, ?_, fun p hp => ?_⟩
  · rw [hmsgs, accumulate_append]
    rfl
  · have hkeep : (sources xs).map (Function.update st.reply x.item.2
        (.ended (answer x.item.1 (accumulate answer (messages xs) initial).2).1)) =
          (sources xs).map st.reply := by
      refine List.map_congr_left fun p hp => Function.update_of_ne ?_ ..
      rintro rfl
      exact hx hp
    rw [hmsgs, hsrcs, accumulate_append, List.map_append, List.map_append, hkeep, h.replies]
    simp [accumulate]
  · rw [hsrcs, List.mem_append, List.mem_singleton, not_or] at hp
    simp only [Function.update_of_ne hp.2]
    exact h.pending p hp.1

/-- More items leave the tasks that are completed as they are. -/
theorem RepliedBy.kept {xs ys : List (QueueItem Unit (Message × ℕ))}
    {st₀ st : ReplyState Result S ε} (h₀ : RepliedBy answer initial xs st₀)
    (h : RepliedBy answer initial (xs ++ ys) st) {p : ℕ} (hp : (st₀.reply p).state.isCompleted) :
    st.reply p = st₀.reply p := by
  have hmem : p ∈ sources xs := by
    by_contra hnot
    rw [h₀.pending p hnot] at hp
    cases hp
  have hreplies := h.replies
  rw [sources_append, messages_append, List.map_append, accumulate_append, List.map_append]
    at hreplies
  have hprefix : (sources xs).map st.reply = (sources xs).map st₀.reply := by
    rw [h₀.replies]
    refine List.append_inj_left hreplies ?_
    simp [accumulate_length, messages, sources]
  exact List.map_inj_left.mp hprefix p hmem

/-- The task of a message that was run has ended with the answer to it. -/
theorem RepliedBy.exists_answer {xs : List (QueueItem Unit (Message × ℕ))}
    {st : ReplyState Result S ε} (h : RepliedBy answer initial xs st)
    {x : QueueItem Unit (Message × ℕ)} (hx : x ∈ xs) :
    ∃ o, (x, o) ∈ xs.zip (accumulate answer (messages xs) initial).1 ∧
      st.reply x.item.2 = .ended o := by
  obtain ⟨i, hi, rfl⟩ := List.getElem_of_mem hx
  have hlen : (accumulate answer (messages xs) initial).1.length = xs.length := by
    rw [accumulate_length, messages, List.length_map]
  refine ⟨(accumulate answer (messages xs) initial).1[i], ?_, ?_⟩
  · exact List.mem_iff_getElem.mpr ⟨i, by simp [hlen, hi], by simp⟩
  · have hreplies := congrArg (fun replies => replies[i]?) h.replies
    simpa [sources, hi, hlen] using hreplies

theorem RepliedBy.exists_ended {xs : List (QueueItem Unit (Message × ℕ))}
    {st : ReplyState Result S ε} (h : RepliedBy answer initial xs st)
    {x : QueueItem Unit (Message × ℕ)} (hx : x ∈ xs) :
    ∃ o, st.reply x.item.2 = .ended o := by
  obtain ⟨o, -, heq⟩ := h.exists_answer hx
  exact ⟨o, heq⟩

theorem ended_completed (o : Completion Result ε) :
    (TaskSharedState.ended o).state.isCompleted := by
  cases o <;> rfl

theorem RepliedBy.completed {xs : List (QueueItem Unit (Message × ℕ))}
    {st : ReplyState Result S ε} (h : RepliedBy answer initial xs st)
    {x : QueueItem Unit (Message × ℕ)} (hx : x ∈ xs) :
    (st.reply x.item.2).state.isCompleted := by
  obtain ⟨o, ho⟩ := h.exists_ended hx
  rw [ho]
  exact ended_completed o

/-- The function of the block, called on items with completion sources of their own. -/
theorem repliedBy_produced (hN : Answering N answer initial)
    {xs : List (QueueItem Unit (Message × ℕ))} (h : (sources xs).Nodup) :
    RepliedBy answer initial xs (N.produced () xs).2 := by
  induction xs using List.reverseRecOn with
  | nil =>
    have hinit : (N.produced () ([] : List (QueueItem Unit (Message × ℕ)))).2 =
        { state := initial } := hN.initialState
    rw [hinit]
    exact ⟨rfl, rfl, fun _ _ => rfl⟩
  | append_singleton xs x ih =>
    rw [sources_append, List.nodup_append] at h
    have hx : x.item.2 ∉ sources xs := fun hp => h.2.2 _ hp _ (List.mem_singleton.mpr rfl) rfl
    rw [Network.produced_append, Network.produce_snd]
    exact (ih h.1).append hN hx

end Replied

/-! ## Completion sources -/

/-- `Ask` calls `AcceptInputAsync` with a completion source of its own: that of call `k` is
    number `k`. -/
def OwnSource (s : Dataflow Unit (Message × ℕ) (ReplyState Result S ε) ε) :
    DataflowLabel Unit (Message × ℕ) ε → Prop
  | .acceptInputAsync _ item => item.2 = s.calls
  | _ => True

def AskUse (s : Dataflow Unit (Message × ℕ) (ReplyState Result S ε) ε)
    (a : DataflowLabel Unit (Message × ℕ) ε) : Prop :=
  ActorUse s a ∧ OwnSource s a

section Sources

variable {N : Network Unit (Message × ℕ) (ReplyState Result S ε) ε}
  {answer : Message → S → Completion Result ε × S} {initial : S}
  {s : Dataflow Unit (Message × ℕ) (ReplyState Result S ε) ε}
  {G : Dataflow Unit (Message × ℕ) (ReplyState Result S ε) ε →
    DataflowLabel Unit (Message × ℕ) ε → Prop}

theorem reachable_source (hG : ∀ s a, G s a → OwnSource s a)
    (h : (dataflowMachine N).Reachable G s) :
    ∀ k c, s.call k = some c → c.item.2 = k := by
  refine h.invariant (I := fun s => ∀ k c, s.call k = some c → c.item.2 = k) nofun
    fun s a s' hi hg hs => ?_
  refine Dataflow.forall_call_step hs hi (fun n item ha => ?_) fun k c _ _ _ hc _ => hi k c hc
  subst ha
  exact hG _ _ hg

/-- No two items have one completion source. -/
theorem reachable_sources_nodup (hleaf : N.outputNodes () = []) (hG : ∀ s a, G s a → AskUse s a)
    (h : (dataflowMachine N).Reachable G s) :
    (sources (s.block ()).inputItems.added).Nodup := by
  rw [List.nodup_iff_count_le_one]
  intro p
  -- the items with source `p` are those of call `p`
  have hcount : (sources (s.block ()).inputItems.added).count p = (s.fromCall p ()).length := by
    rw [sources, List.count_eq_countP, List.countP_map, List.countP_eq_length_filter,
      Dataflow.fromCall]
    refine congrArg List.length (List.filter_congr fun x hx => ?_)
    obtain ⟨k, c, hc, -, rfl⟩ := exists_call_of_added hleaf (fun s a hg => (hG s a hg).1.2) h hx
    rw [Bool.eq_iff_iff]
    simp [reachable_source (fun s a hg => (hG s a hg).2) h k c hc]
  rw [hcount]
  cases hp : s.call p with
  | none =>
    rw [(reachable_callInv h).before p () fun c hc => by cases hp.symm.trans hc]
    exact Nat.zero_le 1
  | some c =>
    by_cases hbefore : c.phase.before
    · rw [(reachable_callInv h).before p () fun d hd => by cases hp.symm.trans hd; exact hbefore]
      exact Nat.zero_le 1
    · have hafter : c.phase.after := by
        cases hphase : c.phase with
        | threw e =>
          rw [hphase, reachable_threw (fun s a hg => (hG s a hg).1.2) h p c hp e hphase] at hbefore
          exact absurd rfl hbefore
        | throwIfNotStarted | push => exact absurd (by rw [hphase]; rfl) hbefore
        | release | releasing | returned => rfl
      exact (congrArg List.length ((reachable_callInv h).after p c hp hafter)).le

/-- What was run, the item in hand, and what is still to be run. -/
theorem ran_prefix (hq : QueueInv (s.block ())) (hh : HealthyInv (s.block ())) :
    ∃ xs, (s.block ()).inputItems.added = (s.block ()).ran ++ (s.block ()).hand ++ xs :=
  ⟨_, by rw [hq.order, hq.ran hh.notFailed]⟩

theorem ran_sources_nodup (hleaf : N.outputNodes () = []) (hG : ∀ s a, G s a → AskUse s a)
    (h : (dataflowMachine N).Reachable G s) (hq : QueueInv (s.block ()))
    (hh : HealthyInv (s.block ())) : (sources ((s.block ()).ran ++ (s.block ()).hand)).Nodup := by
  obtain ⟨xs, hxs⟩ := ran_prefix hq hh
  have hnodup := reachable_sources_nodup hleaf hG h
  rw [hxs, sources_append] at hnodup
  exact hnodup.of_append_left

/-- The tasks of the messages are those of the abstract program. -/
theorem repliedBy_of_reachable (hN : Answering N answer initial) (hG : ∀ s a, G s a → AskUse s a)
    (h : (dataflowMachine N).Reachable G s) (hq : QueueInv (s.block ()))
    (hh : HealthyInv (s.block ())) :
    RepliedBy answer initial (s.block ()).ran (s.block ()).nodeState := by
  have hnodup := ran_sources_nodup hN.leaf hG h hq hh
  rw [sources_append] at hnodup
  rw [(reachable_workInv h ()).nodeState]
  exact repliedBy_produced hN hnodup.of_append_left

/-- The function of the block returns, since the task of its message is pending. -/
theorem returning_of_reachable (hN : Answering N answer initial) (hG : ∀ s a, G s a → AskUse s a)
    (h : (dataflowMachine N).Reachable (fun s a => G s a ∧ PushBeforeDrain s a) s)
    (hh : HealthyInv (s.block ())) : Returning N (s.block ()) := by
  intro x rest hp
  have hq := reachable_queueInv (h.mono fun _ _ hg => hg.2) ()
  have hr := h.mono fun _ _ hg => hg.1
  have hnodup := ran_sources_nodup hN.leaf hG hr hq hh
  have hhand : (s.block ()).hand = x :: rest.getD [] := by simp [Block.hand, hp]
  rw [hhand, sources_append, List.nodup_append] at hnodup
  have hx : x.item.2 ∉ sources (s.block ()).ran := fun hmem =>
    hnodup.2.2 _ hmem _ (List.mem_cons_self) rfl
  exact ⟨x.item, _,
    hN.transformFunc _ x.item ((repliedBy_of_reachable hN hG hr hq hh).pending _ hx)⟩

end Sources

/-! ## Runs -/

/-- The run went through `s₀` to `s`. The tasks of the messages the function was called on end
    as in the abstract program, those that were completed in `s₀` have stayed as they were, and
    a call of the function ended before the next one began. A thread can go on while the task
    of a message whose call returned is pending, and without new calls the threads go on for a
    bounded number of steps. `Completion()` is completed when `Complete` was called and has
    returned; then every message is answered. If every call was made after the ones before it
    had ended, the messages were run in the order of the calls. -/
structure AnsweredBy (N : Network Unit (Message × ℕ) (ReplyState Result S ε) ε)
    (answer : Message → S → Completion Result ε × S) (initial : S)
    (s₀ s : HandlerSystem Unit (Message × ℕ) (ReplyState Result S ε) ε) : Prop where
  replied : RepliedBy answer initial (s.dataflow.block ()).ran (s.dataflow.block ()).nodeState
  once : ∀ p, ((s₀.dataflow.block ()).nodeState.reply p).state.isCompleted →
    (s.dataflow.block ()).nodeState.reply p = (s₀.dataflow.block ()).nodeState.reply p
  apart : s.EventsInv
  progress : ∀ k c, s.dataflow.call k = some c → c.phase = .returned →
    ((s.dataflow.block ()).nodeState.reply k).state.isCompleted ∨
      ∃ a : DataflowLabel Unit (Message × ℕ) ε, a.isCall = false ∧ (s.dataflow.step N a).isSome
  rests : ∀ (as : List (DataflowLabel Unit (Message × ℕ) ε)) t, (∀ a ∈ as, a.isCall = false) →
    (dataflowMachine N).run s.dataflow as = some t → as.length ≤ s.dataflow.todo
  returned : (s.dataflow.block ()).completedBy ≠ [] → (s.dataflow.block ()).stateMutex = none →
    (s.dataflow.block ()).completedTask.state.isCompleted
  done : (s.dataflow.block ()).completedTask.state.isCompleted → Done s₀ s ∧
    ∀ k c, s.dataflow.call k = some c → c.phase = .returned →
      ((s.dataflow.block ()).nodeState.reply k).state.isCompleted
  inTurn : (handlerMachine N).Reachable (Under fun s a => AskUse s a ∧ InTurn s a) s →
    (∀ k c, s.dataflow.call k = some c → c.phase.outside) →
      (s.dataflow.block ()).ran <+: told s.dataflow ∧
      ((s.dataflow.block ()).completedTask.state.isCompleted →
        (s.dataflow.block ()).ran = told s.dataflow)

section Runs

variable {N : Network Unit (Message × ℕ) (ReplyState Result S ε) ε}
  {answer : Message → S → Completion Result ε × S} {initial : S}

/-- A block that answers keeps to what is known of the block of an actor. -/
theorem returning_of_answering (hN : Answering N answer initial) :
    ∀ t, (dataflowMachine N).Reachable (fun s a => AskUse s a ∧ PushBeforeDrain s a) t →
      HealthyInv (t.block ()) → Returning N (t.block ()) :=
  fun _ ht hh => returning_of_reachable hN (fun _ _ hg => hg) ht hh

/-- A task that is completed is that of a message that was run. -/
theorem mem_ran_of_completed (hN : Answering N answer initial)
    {s : HandlerSystem Unit (Message × ℕ) (ReplyState Result S ε) ε}
    (h : (handlerMachine N).Reachable (Under AskUse) s) {k : ℕ}
    {c : AcceptCall Unit (Message × ℕ) ε} (hk : s.dataflow.call k = some c)
    (hc : ((s.dataflow.block ()).nodeState.reply k).state.isCompleted) :
    ⟨.user k, c.item⟩ ∈ (s.dataflow.block ()).ran := by
  have hr := reaches_under h
  obtain ⟨hdrain, hh, -⟩ := reachable_actorInv hN.leaf (fun _ _ hg => hg.1)
    (returning_of_answering hN) hr
  have hq := reachable_queueInv (hdrain.mono fun _ _ hg => hg.2) ()
  have hmem : k ∈ sources (s.dataflow.block ()).ran := by
    by_contra hnot
    rw [(repliedBy_of_reachable hN (fun _ _ hg => hg) hr hq hh).pending k hnot] at hc
    cases hc
  obtain ⟨x, hx, hsource⟩ := List.mem_map.mp hmem
  have hadded : x ∈ (s.dataflow.block ()).inputItems.added := by
    obtain ⟨xs, hxs⟩ := ran_prefix hq hh
    rw [hxs]
    exact List.mem_append_left _ (List.mem_append_left _ hx)
  obtain ⟨j, d, hd, -, rfl⟩ := exists_call_of_added hN.leaf (fun _ _ hg => hg.1.2) hr hadded
  obtain rfl : j = k := (reachable_source (fun _ _ hg => hg.2) hr j d hd).symm.trans hsource
  cases hk.symm.trans hd
  exact hx

theorem answeredBy_of_reachable (hN : Answering N answer initial)
    {s₀ s : HandlerSystem Unit (Message × ℕ) (ReplyState Result S ε) ε}
    (h₀ : (handlerMachine N).Reachable (Under AskUse) s₀)
    (h : (handlerMachine N).Reaches (Under AskUse) s₀ s) : AnsweredBy N answer initial s₀ s := by
  have hs : (handlerMachine N).Reachable (Under AskUse) s := h₀.trans h
  have hok := returning_of_answering hN
  have hreplied : ∀ t, (handlerMachine N).Reachable (Under AskUse) t →
      RepliedBy answer initial (t.dataflow.block ()).ran (t.dataflow.block ()).nodeState := by
    intro t ht
    have hr := reaches_under ht
    obtain ⟨hdrain, hh, -⟩ := reachable_actorInv hN.leaf (fun _ _ hg => hg.1) hok hr
    exact repliedBy_of_reachable hN (fun _ _ hg => hg) hr
      (reachable_queueInv (hdrain.mono fun _ _ hg => hg.2) ()) hh
  have hr := reaches_under hs
  obtain ⟨hdrain, hh, hinv⟩ := reachable_actorInv hN.leaf (fun _ _ hg => hg.1) hok hr
  have hq := reachable_queueInv (hdrain.mono fun _ _ hg => hg.2) ()
  have hsource := reachable_source (fun _ _ hg => hg.2) hr
  have hrun : ∀ k c, s.dataflow.call k = some c →
      ⟨.user k, c.item⟩ ∈ (s.dataflow.block ()).ran →
        ((s.dataflow.block ()).nodeState.reply k).state.isCompleted := by
    intro k c hk hmem
    have hc := (hreplied s hs).completed hmem
    rwa [hsource k c hk] at hc
  have hdone := fun hc => (done_of_completed hN.leaf (fun _ _ hg => hg.1) hok h₀ h hc).1
  refine ⟨hreplied s hs, fun p hp => ?_, reachable_eventsInv hs, fun k c hk hret => ?_,
    fun as t hown hrun => length_le_todo hN.leaf hr hown hrun, fun hc hm => ?_,
    fun hc => ⟨hdone hc, fun k c hk hret => ?_⟩, fun hturn hout => ?_⟩
  · obtain ⟨ys, hys⟩ := Dataflow.ran_reaches (reaches_under h) ()
    exact (hreplied s₀ h₀).kept (hys ▸ hreplied s hs) hp
  · by_cases hmem : ⟨.user k, c.item⟩ ∈ (s.dataflow.block ()).ran
    · exact .inl (hrun k c hk hmem)
    · exact .inr (progress hN.leaf (fun _ _ hg => hg.1) hok hr hk hret hmem)
  · rw [hinv.completed_of_free (reachable_shapeInv hr ()) hc hm]
    rfl
  · have hself := (hdone hc).served.once k c hk hret
    exact hrun k c hk (List.mem_filter.mp (hself ▸ List.mem_singleton_self _)).1
  · have hadded := added_eq_told hN.leaf (fun _ _ hg => ⟨hg.1.1, hg.2⟩) (reaches_under hturn) hout
    obtain ⟨xs, hxs⟩ := ran_prefix hq hh
    refine ⟨⟨(s.dataflow.block ()).hand ++ xs, ?_⟩, fun hc => ?_⟩
    · rw [← hadded, hxs, List.append_assoc]
    · rw [← hadded, ran_eq_added (hdrain.mono fun _ _ hg => hg.2) hc]

end Runs

end AsyncCpp.Actors
