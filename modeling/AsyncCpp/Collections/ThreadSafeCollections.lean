import AsyncCpp.Lib.LockedObject

/-!
# `ThreadSafeMinimalisticQueue` and `ThreadSafeMinimalisticVector`

Models of Collections/ThreadSafeMinimalisticQueue.h and ThreadSafeMinimalisticVector.h. Every
operation takes `_mutex` at its beginning and holds it to its end; inside it goes on access by
access, element by element. The queue is the store of the producer/consumer collection, the
vector holds the continuations of a task and the next blocks of a block.

Left out: the iterators of the vector and its `operator[]`, which hand out references that outlive
the lock, and `Reserve`, which does nothing to the elements. The functions given to `RemoveIf` and
`MapSnapshot` are called on one element at a time and return.

Results:
* `queue_linearizable`: whatever calls are made and however they interleave, callers see a
  sequential queue, first in first out; `PopAll` never meets an empty queue in its loop.
* `vector_linearizable`: the same for the vector and a sequential list.
-/

namespace AsyncCpp.Collections

open Interleaving

/-! ## The queue -/

inductive QueueOp (T : Type*) where
  | push (item : T)
  | tryPop
  | popAll

/-- `undefined` is what `value()` of an empty optional and `front()` of an empty queue give. -/
inductive QueueResult (T : Type*) where
  | pushed
  | popped (item : Option T)
  | all (items : List T)
  | undefined

/-- Who has called `tryPopInner`. -/
inductive PopCaller (T : Type*) where
  | tryPop
  /-- The loop of `PopAll`, with its local variables. -/
  | popAll (i itemsCount : ℕ) (retVector : List T)

/-- Where the owner of `_mutex` is. -/
inductive QueuePc (T : Type*) where
  | push (item : T)
  /-- `tryPopInner` before `_innerQueue.empty()`. -/
  | empty (caller : PopCaller T)
  | front (caller : PopCaller T)
  | pop (item : T) (caller : PopCaller T)
  /-- `PopAll` before `_innerQueue.size()`. -/
  | size
  /-- `PopAll` before `i < itemsCount`. -/
  | forLoop (i itemsCount : ℕ) (retVector : List T)

section Queue

variable {T : Type*}

/-- `tryPopInner` returns (ThreadSafeMinimalisticQueue.h:70-74, 86-91). -/
def tryPopReturns (optionalValue : Option T) : PopCaller T → QueuePc T ⊕ QueueResult T
  | .tryPop => .inr (.popped optionalValue)
  | .popAll i itemsCount retVector =>
    match optionalValue with
    | some item => .inl (.forLoop (i + 1) itemsCount (retVector ++ [item]))
    | none => .inr .undefined

/-- One step of the owner of `_mutex` (ThreadSafeMinimalisticQueue.h:54-107). -/
def queueBody (queue : List T) : QueuePc T → List T × (QueuePc T ⊕ QueueResult T)
  | .push item => (queue ++ [item], .inr .pushed)
  | .empty caller =>
    if queue.isEmpty then (queue, tryPopReturns none caller) else (queue, .inl (.front caller))
  | .front caller =>
    match queue with
    | item :: _ => (queue, .inl (.pop item caller))
    | [] => (queue, .inr .undefined)
  | .pop item caller => (queue.tail, tryPopReturns (some item) caller)
  | .size => (queue, .inl (.forLoop 0 queue.length []))
  | .forLoop i itemsCount retVector =>
    if i < itemsCount then (queue, .inl (.empty (.popAll i itemsCount retVector)))
    else (queue, .inr (.all retVector))

variable (T) in
def ThreadSafeMinimalisticQueue :
    LockedObject (List T) (QueueOp T) (QueueResult T) (QueuePc T) where
  enter
    | .push item => .push item
    | .tryPop => .empty .tryPop
    | .popAll => .size
  body := queueBody

/-- A sequential queue. -/
def queueSpec (queue : List T) : QueueOp T → List T × QueueResult T
  | .push item => (queue ++ [item], .pushed)
  | .tryPop => (queue.tail, .popped queue.head?)
  | .popAll => ([], .all queue)

/-- `tryPopInner` on a queue that is not empty. -/
theorem runs_tryPopInner {item : T} {queue queue' : List T} {caller : PopCaller T}
    {l : QueuePc T} {r : QueueResult T} (hc : tryPopReturns (some item) caller = .inl l)
    (h : (ThreadSafeMinimalisticQueue T).Runs queue l queue' r) :
    (ThreadSafeMinimalisticQueue T).Runs (item :: queue) (.empty caller) queue' r := by
  refine .step (t := item :: queue) (m := .front caller) rfl ?_
  refine .step (t := item :: queue) (m := .pop item caller) rfl ?_
  refine .step (t := queue) (m := l) ?_ h
  show (queue, tryPopReturns (some item) caller) = _
  rw [hc]

/-- The loop of `PopAll` takes what is left, as nobody else pops in between. -/
theorem runs_forLoop (queue : List T) {i itemsCount : ℕ} (retVector : List T)
    (hi : i + queue.length = itemsCount) :
    (ThreadSafeMinimalisticQueue T).Runs queue (.forLoop i itemsCount retVector) []
      (.all (retVector ++ queue)) := by
  induction queue generalizing i retVector with
  | nil =>
    have hnot : ¬ i < itemsCount := by
      rw [List.length_nil] at hi
      omega
    refine .done ?_
    simp [ThreadSafeMinimalisticQueue, queueBody, hnot]
  | cons item queue ih =>
    rw [List.length_cons] at hi
    have hlt : i < itemsCount := by omega
    refine .step (t := item :: queue) (m := .empty (.popAll i itemsCount retVector)) ?_
      (runs_tryPopInner (l := .forLoop (i + 1) itemsCount (retVector ++ [item])) rfl ?_)
    · simp [ThreadSafeMinimalisticQueue, queueBody, hlt]
    · rw [List.append_cons retVector item queue]
      exact ih (i := i + 1) (retVector ++ [item]) (by omega)

theorem queue_computes : (ThreadSafeMinimalisticQueue T).Computes queueSpec := by
  intro queue op
  cases op with
  | push item => exact .done rfl
  | popAll =>
    refine .step (t := queue) (m := .forLoop 0 queue.length []) rfl ?_
    exact runs_forLoop queue [] (Nat.zero_add _)
  | tryPop =>
    cases queue with
    | nil => exact .done rfl
    | cons item queue =>
      refine .step (t := item :: queue) (m := .front .tryPop) rfl ?_
      refine .step (t := item :: queue) (m := .pop item .tryPop) rfl ?_
      exact .done rfl

/-- The item a call has pushed. -/
def pushedItem : ℕ × QueueOp T × QueueResult T → List T
  | (_, .push item, _) => [item]
  | _ => []

/-- The items a call has popped. -/
def poppedItems : ℕ × QueueOp T × QueueResult T → List T
  | (_, _, .popped (some item)) => [item]
  | (_, _, .all items) => items
  | _ => []

/-- What was popped, and then what is left, is what was there and then what was pushed. -/
theorem fifo_of_legal {queue : List T} {order : List (ℕ × QueueOp T × QueueResult T)}
    (h : Legal queueSpec queue order) :
    order.flatMap poppedItems ++ afterCalls queueSpec queue order =
      queue ++ order.flatMap pushedItem := by
  induction order generalizing queue with
  | nil => simp [afterCalls]
  | cons x order ih =>
    obtain ⟨i, op, r⟩ := x
    obtain ⟨rfl, hrest⟩ := h
    have hih := ih hrest
    have hafter : afterCalls queueSpec queue ((i, op, (queueSpec queue op).2) :: order) =
        afterCalls queueSpec (queueSpec queue op).1 order := rfl
    rw [hafter, List.flatMap_cons, List.flatMap_cons, List.append_assoc, hih]
    cases op with
    | push item => simp [queueSpec, poppedItems, pushedItem]
    | popAll => simp [queueSpec, poppedItems, pushedItem]
    | tryPop => cases queue <;> simp [queueSpec, poppedItems, pushedItem]

/-- Callers of a queue see a sequential queue: there is an order of their calls, in agreement
    with real time, in which the results are those of a sequential queue, and in which what was
    popped and what is left is what was there and what was pushed, in that order. No call
    returns something undefined, and where nothing can go on every call has returned. -/
theorem queue_linearizable {items : List T}
    {s : LockedSystem (List T) (QueueOp T) (QueueResult T) (QueuePc T)}
    (h : ((ThreadSafeMinimalisticQueue T).machine items).Reachable Machine.Any s) :
    (∃ order, Linearizes queueSpec items s.history order ∧
      order.flatMap poppedItems ++ afterCalls queueSpec items order =
        items ++ order.flatMap pushedItem) ∧
    (∀ i, .ret i .undefined ∉ s.history) ∧
    (((ThreadSafeMinimalisticQueue T).machine items).AtRest LockedLabel.own s →
      ∀ i op, .call i op ∈ s.history → ∃ r, s.call i = .returned op r) := by
  obtain ⟨order, hl⟩ := LockedObject.linearizable queue_computes h
  refine ⟨⟨order, hl, fifo_of_legal hl.legal⟩, fun i hi => ?_,
    fun hrest i op hi => LockedObject.returned_of_atRest queue_computes h hrest hi⟩
  obtain ⟨op, hmem⟩ := hl.returned i _ hi
  obtain ⟨queue, hop⟩ := hl.legal.exists_of_mem hmem
  cases op <;> simp [queueSpec] at hop

/-- `PopAll` is called after `Push`, takes the item and returns before `Push` does. -/
theorem queue_linearizable_two :
    ∃ s, ((ThreadSafeMinimalisticQueue ℕ).machine [3]).Reachable Machine.Any s ∧
      s.history = [.call 0 (.push 7), .call 1 .popAll, .ret 1 (.all [3, 7]), .ret 0 .pushed] ∧
      ∃ order, Linearizes queueSpec [3] s.history order ∧
        order.flatMap poppedItems ++ afterCalls queueSpec [3] order =
          [3] ++ order.flatMap pushedItem := by
  have hr : ((ThreadSafeMinimalisticQueue ℕ).machine [3]).run
      ((ThreadSafeMinimalisticQueue ℕ).machine [3]).init
      [.call (.push 7), .call .popAll, .lock 0, .body, .lock 1, .body, .body, .body, .body, .body,
        .body, .body, .body, .body, .body, .ret 1, .ret 0] = some _ := rfl
  exact ⟨_, .of_run hr, rfl, (queue_linearizable (.of_run hr)).1⟩

end Queue

/-! ## The vector -/

inductive VectorOp (T R : Type*) where
  | add (item : T)
  | remove (item : T)
  | removeIf (predicate : T → Bool)
  | getSnapshot
  | mapSnapshot (mapFunc : T → R)
  | clear

/-- `undefined` is what reading or writing behind the end gives. -/
inductive VectorResult (T R : Type*) where
  | changed
  | snapshot (items : List T)
  | mapped (values : List R)
  | undefined

/-- Where the owner of `_mutex` is. -/
inductive VectorPc (T R : Type*) where
  | add (item : T)
  /-- `std::remove_if` looks for the first item to remove. -/
  | findIf (predicate : T → Bool) (first : ℕ)
  /-- `std::remove_if` moves the items to keep to the front: `first` of them are there. -/
  | moveKept (predicate : T → Bool) (first i : ℕ)
  | erase (first : ℕ)
  | copy (i : ℕ) (copied : List T)
  /-- `std::transform` before item `i`. -/
  | transform (mapFunc : T → R) (i : ℕ) (mappedValues : List R)
  | clear

section Vector

variable {T R : Type*}

/-- One step of the owner of `_mutex` (ThreadSafeMinimalisticVector.h:73-139). -/
def vectorBody (vector : List T) : VectorPc T R → List T × (VectorPc T R ⊕ VectorResult T R)
  | .add item => (vector ++ [item], .inr .changed)
  | .findIf predicate first =>
    if first < vector.length then
      match vector[first]? with
      | some item =>
        if predicate item then (vector, .inl (.moveKept predicate first (first + 1)))
        else (vector, .inl (.findIf predicate (first + 1)))
      | none => (vector, .inr .undefined)
    else (vector, .inl (.erase first))
  | .moveKept predicate first i =>
    if i < vector.length then
      match vector[i]? with
      | some item =>
        if predicate item then (vector, .inl (.moveKept predicate first (i + 1)))
        else (vector.set first item, .inl (.moveKept predicate (first + 1) (i + 1)))
      | none => (vector, .inr .undefined)
    else (vector, .inl (.erase first))
  | .erase first => (vector.take first, .inr .changed)
  | .copy i copied =>
    if i < vector.length then
      match vector[i]? with
      | some item => (vector, .inl (.copy (i + 1) (copied ++ [item])))
      | none => (vector, .inr .undefined)
    else (vector, .inr (.snapshot copied))
  | .transform mapFunc i mappedValues =>
    if i < vector.length then
      match vector[i]? with
      | some item => (vector, .inl (.transform mapFunc (i + 1) (mappedValues ++ [mapFunc item])))
      | none => (vector, .inr .undefined)
    else (vector, .inr (.mapped mappedValues))
  | .clear => ([], .inr .changed)

variable (T R) in
def ThreadSafeMinimalisticVector [BEq T] :
    LockedObject (List T) (VectorOp T R) (VectorResult T R) (VectorPc T R) where
  enter
    | .add item => .add item
    | .remove item => .findIf (fun x => x == item) 0
    | .removeIf predicate => .findIf predicate 0
    | .getSnapshot => .copy 0 []
    | .mapSnapshot mapFunc => .transform mapFunc 0 []
    | .clear => .clear
  body := vectorBody

/-- A sequential list. -/
def vectorSpec [BEq T] (vector : List T) : VectorOp T R → List T × VectorResult T R
  | .add item => (vector ++ [item], .changed)
  | .remove item => (vector.filter fun x => !(x == item), .changed)
  | .removeIf predicate => (vector.filter fun x => !predicate x, .changed)
  | .getSnapshot => (vector, .snapshot vector)
  | .mapSnapshot mapFunc => (vector, .mapped (vector.map mapFunc))
  | .clear => ([], .changed)

variable [BEq T]

/-- The second half of `std::remove_if`: behind the items `kept` stand the items `gone`, which are
    to be removed or copied to the front already, then the items it has not looked at. -/
theorem runs_moveKept (predicate : T → Bool) (kept gone rest : List T) (hgone : gone ≠ []) :
    (ThreadSafeMinimalisticVector T R).Runs (kept ++ gone ++ rest)
      (.moveKept predicate kept.length (kept.length + gone.length))
      (kept ++ rest.filter fun x => !predicate x) .changed := by
  induction rest generalizing kept gone with
  | nil =>
    refine .step (t := kept ++ gone ++ []) (m := .erase kept.length) ?_ (.done ?_)
    · simp [ThreadSafeMinimalisticVector, vectorBody]
    · simp [ThreadSafeMinimalisticVector, vectorBody]
  | cons item rest ih =>
    by_cases hp : predicate item
    · refine .step (t := kept ++ (gone ++ [item]) ++ rest)
        (m := .moveKept predicate kept.length (kept.length + (gone ++ [item]).length)) ?_ ?_
      · simp [ThreadSafeMinimalisticVector, vectorBody, hp, Nat.add_assoc]
      · rw [List.filter_cons_of_neg (by simpa using hp)]
        exact ih kept (gone ++ [item]) (by simp)
    · obtain ⟨g, gone, rfl⟩ := List.exists_cons_of_ne_nil hgone
      refine .step (t := kept ++ [item] ++ (gone ++ [item]) ++ rest) (m := .moveKept predicate
        (kept ++ [item]).length ((kept ++ [item]).length + (gone ++ [item]).length)) ?_ ?_
      · simp [ThreadSafeMinimalisticVector, vectorBody, hp]
        omega
      · rw [List.filter_cons_of_pos (by simpa using hp), List.append_cons kept item (rest.filter _)]
        exact ih (kept ++ [item]) (gone ++ [item]) (by simp)

/-- `std::remove_if` and then `erase`; the items `kept` it has looked at stay. -/
theorem runs_findIf (predicate : T → Bool) (kept rest : List T) :
    (ThreadSafeMinimalisticVector T R).Runs (kept ++ rest) (.findIf predicate kept.length)
      (kept ++ rest.filter fun x => !predicate x) .changed := by
  induction rest generalizing kept with
  | nil =>
    refine .step (t := kept ++ []) (m := .erase kept.length) ?_ (.done ?_)
    · simp [ThreadSafeMinimalisticVector, vectorBody]
    · simp [ThreadSafeMinimalisticVector, vectorBody]
  | cons item rest ih =>
    by_cases hp : predicate item
    · refine .step (t := kept ++ [item] ++ rest)
        (m := .moveKept predicate kept.length (kept.length + [item].length)) ?_ ?_
      · simp [ThreadSafeMinimalisticVector, vectorBody, hp]
      · rw [List.filter_cons_of_neg (by simpa using hp)]
        exact runs_moveKept predicate kept [item] rest (by simp)
    · refine .step (t := kept ++ [item] ++ rest)
        (m := .findIf predicate (kept ++ [item]).length) ?_ ?_
      · simp [ThreadSafeMinimalisticVector, vectorBody, hp]
      · rw [List.filter_cons_of_pos (by simpa using hp), List.append_cons kept item (rest.filter _)]
        exact ih (kept ++ [item])

theorem runs_copy (copied rest : List T) :
    (ThreadSafeMinimalisticVector T R).Runs (copied ++ rest) (.copy copied.length copied)
      (copied ++ rest) (.snapshot (copied ++ rest)) := by
  induction rest generalizing copied with
  | nil =>
    refine .done ?_
    simp [ThreadSafeMinimalisticVector, vectorBody]
  | cons item rest ih =>
    rw [List.append_cons copied item rest]
    refine .step (t := copied ++ [item] ++ rest)
      (m := .copy (copied ++ [item]).length (copied ++ [item])) ?_ (ih (copied ++ [item]))
    simp [ThreadSafeMinimalisticVector, vectorBody]

theorem runs_transform (mapFunc : T → R) (seen rest : List T) :
    (ThreadSafeMinimalisticVector T R).Runs (seen ++ rest)
      (.transform mapFunc seen.length (seen.map mapFunc)) (seen ++ rest)
      (.mapped ((seen ++ rest).map mapFunc)) := by
  induction rest generalizing seen with
  | nil =>
    refine .done ?_
    simp [ThreadSafeMinimalisticVector, vectorBody]
  | cons item rest ih =>
    rw [List.append_cons seen item rest]
    refine .step (t := seen ++ [item] ++ rest)
      (m := .transform mapFunc (seen ++ [item]).length ((seen ++ [item]).map mapFunc)) ?_
      (ih (seen ++ [item]))
    simp [ThreadSafeMinimalisticVector, vectorBody]

theorem vector_computes : (ThreadSafeMinimalisticVector T R).Computes vectorSpec := by
  intro vector op
  cases op with
  | add item => exact .done rfl
  | clear => exact .done rfl
  | remove item => exact runs_findIf (fun x => x == item) [] vector
  | removeIf predicate => exact runs_findIf predicate [] vector
  | getSnapshot => exact runs_copy [] vector
  | mapSnapshot mapFunc => exact runs_transform mapFunc [] vector

/-- The items a call has added. -/
def addedItem : ℕ × VectorOp T R × VectorResult T R → List T
  | (_, .add item, _) => [item]
  | _ => []

theorem vectorSpec_sublist (vector : List T) (i : ℕ) (op : VectorOp T R) (r : VectorResult T R) :
    (vectorSpec vector op).1.Sublist (vector ++ addedItem (i, op, r)) := by
  cases op with
  | add item => exact List.Sublist.refl _
  | clear => exact List.nil_sublist _
  | remove item => exact List.filter_sublist.trans (List.sublist_append_left _ _)
  | removeIf predicate => exact List.filter_sublist.trans (List.sublist_append_left _ _)
  | getSnapshot => exact List.sublist_append_left _ _
  | mapSnapshot mapFunc => exact List.sublist_append_left _ _

/-- A snapshot holds items that were there or were added before it, in their order. -/
theorem snapshot_sublist_of_legal {vector : List T}
    {order : List (ℕ × VectorOp T R × VectorResult T R)} (h : Legal vectorSpec vector order)
    {i : ℕ} {op : VectorOp T R} {snapshot : List T}
    {o₁ o₂ : List (ℕ × VectorOp T R × VectorResult T R)}
    (hsplit : order = o₁ ++ (i, op, .snapshot snapshot) :: o₂) :
    snapshot.Sublist (vector ++ o₁.flatMap addedItem) := by
  induction o₁ generalizing vector order with
  | nil =>
    subst hsplit
    obtain ⟨hr, -⟩ := h
    cases op <;> cases hr
    exact List.sublist_append_left _ _
  | cons x o₁ ih =>
    subst hsplit
    obtain ⟨j, op', r⟩ := x
    have hih := ih h.2 rfl
    rw [List.flatMap_cons, ← List.append_assoc]
    exact hih.trans ((vectorSpec_sublist vector j op' r).append_right _)

/-- Callers of a vector see a sequential list: there is an order of their calls, in agreement with
    real time, in which the results are those of a sequential list, and a snapshot holds items
    that were there or were added before it, in their order. No call reads or writes behind the
    end, and where nothing can go on every call has returned. -/
theorem vector_linearizable {items : List T}
    {s : LockedSystem (List T) (VectorOp T R) (VectorResult T R) (VectorPc T R)}
    (h : ((ThreadSafeMinimalisticVector T R).machine items).Reachable Machine.Any s) :
    (∃ order, Linearizes vectorSpec items s.history order ∧
      ∀ o₁ i op snapshot o₂, order = o₁ ++ (i, op, .snapshot snapshot) :: o₂ →
        snapshot.Sublist (items ++ o₁.flatMap addedItem)) ∧
    (∀ i, .ret i .undefined ∉ s.history) ∧
    (((ThreadSafeMinimalisticVector T R).machine items).AtRest LockedLabel.own s →
      ∀ i op, .call i op ∈ s.history → ∃ r, s.call i = .returned op r) := by
  obtain ⟨order, hl⟩ := LockedObject.linearizable vector_computes h
  refine ⟨⟨order, hl, fun o₁ i op snapshot o₂ hsplit => snapshot_sublist_of_legal hl.legal hsplit⟩,
    fun i hi => ?_, fun hrest i op hi => LockedObject.returned_of_atRest vector_computes h hrest hi⟩
  obtain ⟨op, hmem⟩ := hl.returned i _ hi
  obtain ⟨vector, hop⟩ := hl.legal.exists_of_mem hmem
  cases op <;> simp [vectorSpec] at hop

/-- A snapshot between `Add` and `Remove`. -/
theorem vector_linearizable_three :
    ∃ s, ((ThreadSafeMinimalisticVector ℕ ℕ).machine [3, 4]).Reachable Machine.Any s ∧
      s.object = [4] ∧ s.history = [.call 0 (.add 3), .call 1 .getSnapshot, .call 2 (.remove 3),
        .ret 1 (.snapshot [3, 4, 3]), .ret 2 .changed] ∧
      ∃ order, Linearizes vectorSpec [3, 4] s.history order ∧
        ∀ o₁ i op snapshot o₂, order = o₁ ++ (i, op, .snapshot snapshot) :: o₂ →
          snapshot.Sublist ([3, 4] ++ o₁.flatMap addedItem) := by
  have hr : ((ThreadSafeMinimalisticVector ℕ ℕ).machine [3, 4]).run
      ((ThreadSafeMinimalisticVector ℕ ℕ).machine [3, 4]).init
      [.call (.add 3), .call .getSnapshot, .call (.remove 3), .lock 0, .body, .lock 1, .body, .body,
        .body, .body, .lock 2, .ret 1, .body, .body, .body, .body, .body, .ret 2] = some _ := rfl
  exact ⟨_, .of_run hr, rfl, rfl, (vector_linearizable (.of_run hr)).1⟩

end Vector

end AsyncCpp.Collections
