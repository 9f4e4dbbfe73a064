import AsyncCpp.Actors.ActorQueue
import Mathlib.Data.List.Sort

/-!
# Calls made one after the other

A user who calls `Tell` or `Ask` from one thread makes a call when the calls before it have
ended.

Results:
* `added_eq_told`: the items were added to the queue of the actor in the order of the calls.
-/

namespace AsyncCpp.Actors

open Interleaving DataFlow

variable {Item σ ε : Type*}

/-- The calls of `AcceptInputAsync` are made one after the other. -/
def InTurn (s : Dataflow Unit Item σ ε) : DataflowLabel Unit Item ε → Prop
  | .acceptInputAsync _ _ => ∀ k c, s.call k = some c → c.phase.ended
  | _ => True

/-- `InTurn`, computed. -/
def inTurn (s : Dataflow Unit Item σ ε) : DataflowLabel Unit Item ε → Bool
  | .acceptInputAsync _ _ => (List.range s.calls).all fun k => (s.call k).all fun c => c.phase.ended
  | _ => true

theorem inTurn_of_eq_true {s : Dataflow Unit Item σ ε} {a : DataflowLabel Unit Item ε}
    (hcalls : s.CallInv) (h : inTurn s a = true) : InTurn s a := by
  cases a with
  | acceptInputAsync n item =>
    intro k c hk
    have hall := List.all_eq_true.mp h k (List.mem_range.mpr (hcalls.lt_calls hk))
    rwa [hk] at hall
  | _ => trivial

/-- The items of the calls that returned, in the order of the calls. -/
def told (s : Dataflow Unit Item σ ε) : List (QueueItem Unit Item) :=
  (List.range s.calls).filterMap fun k =>
    match s.call k with
    | some ⟨_, item, .returned⟩ => some ⟨.user k, item⟩
    | _ => none

/-- The call of `x` was made before that of `y`. -/
def Earlier (x y : QueueItem Unit Item) : Prop :=
  ∃ k j, x.origin = .user k ∧ y.origin = .user j ∧ k < j

instance : Std.Irrefl (@Earlier Item) where
  irrefl x := by
    rintro ⟨k, j, hk, hj, hlt⟩
    cases hk.symm.trans hj
    exact lt_irrefl k hlt

instance : Std.Antisymm (@Earlier Item) where
  antisymm x y := by
    rintro ⟨k, j, hk, hj, hlt⟩ ⟨k', j', hk', hj', hlt'⟩
    cases hk.symm.trans hj'
    cases hj.symm.trans hk'
    exact absurd hlt' (lt_asymm hlt)

theorem mem_told {s : Dataflow Unit Item σ ε} (h : s.CallInv) {x : QueueItem Unit Item} :
    x ∈ told s ↔ ∃ k c, s.call k = some c ∧ c.phase = .returned ∧ x = ⟨.user k, c.item⟩ := by
  simp only [told, List.mem_filterMap, List.mem_range]
  constructor
  · rintro ⟨k, -, hx⟩
    split at hx
    · rename_i hc
      cases hx
      exact ⟨k, _, hc, rfl, rfl⟩
    · cases hx
  · rintro ⟨k, ⟨n, item, phase⟩, hc, hret, rfl⟩
    have hphase : phase = .returned := hret
    exact ⟨k, h.lt_calls hc, by rw [hc, hphase]⟩

theorem told_sorted (s : Dataflow Unit Item σ ε) : (told s).Pairwise Earlier := by
  refine List.Pairwise.filterMap _ (fun k j hlt x hx y hy => ?_) List.pairwise_lt_range
  split at hx
  · split at hy
    · cases hx
      cases hy
      exact ⟨k, j, rfl, rfl, hlt⟩
    · cases hy
  · cases hx

section Turn

variable {N : Network Unit Item σ ε} {s : Dataflow Unit Item σ ε}
  {G : Dataflow Unit Item σ ε → DataflowLabel Unit Item ε → Prop}

/-- Only the last call can be under way. -/
theorem reachable_last (hG : ∀ s a, G s a → InTurn s a) (h : (dataflowMachine N).Reachable G s) :
    ∀ k c, s.call k = some c → c.phase.ended = false → k + 1 = s.calls := by
  refine h.invariant (I := fun s => ∀ k c, s.call k = some c → c.phase.ended = false →
    k + 1 = s.calls) nofun ?_
  intro s a s' hi hg hs
  cases Dataflow.calls_cases hs with
  | made n item =>
    intro k c hk hp
    by_cases hkn : k = s.calls
    · rw [hkn]
    · simp only [Function.update_of_ne hkn] at hk
      rw [hG _ _ hg k c hk] at hp
      cases hp
  | @ran k c b phase hc hb =>
    intro j d hj hp
    by_cases hjk : j = k
    · subst hjk
      refine hi j c hc ?_
      -- a call that goes on has not ended
      cases hphase : c.phase <;> rw [hphase] at hb <;> first | rfl | cases hb
    · simp only [Function.update_of_ne hjk] at hj
      exact hi j d hj hp
  | kept hc hcs => rwa [hc, hcs]

/-- The items are added in the order of the calls. -/
theorem reachable_added_sorted (hleaf : N.outputNodes () = []) (hG : ∀ s a, G s a → InTurn s a)
    (h : (dataflowMachine N).Reachable G s) :
    (s.block ()).inputItems.added.Pairwise Earlier := by
  refine h.invariant_with (Q := (dataflowMachine N).Reachable G)
    (I := fun s => (s.block ()).inputItems.added.Pairwise Earlier)
    (fun _ hr => hr) List.Pairwise.nil ?_
  intro s a s' hr hi hg hs
  rw [Dataflow.added_step hs, List.pairwise_append]
  refine ⟨hi, ?_, fun x hx y hy => ?_⟩
  · unfold Dataflow.pushed
    split
    · split_ifs
      · exact List.pairwise_singleton _ _
      · exact List.Pairwise.nil
    · exact List.Pairwise.nil
  · have hcalls := reachable_callInv hr
    have hacc := Dataflow.mem_pushed hy
    have hy' : y ∈ (s'.block ()).inputItems.added := by
      rw [Dataflow.added_step hs]
      exact List.mem_append_right _ hy
    obtain ⟨k, hk⟩ := reachable_origin hleaf (hr.step hg hs) y hy'
    obtain ⟨j, hj⟩ := reachable_origin hleaf hr x hx
    obtain ⟨c, hc, hphase⟩ : ∃ c, s.call k = some c ∧ c.phase = .push := by
      cases a with
      | runCall i =>
        simp only [Dataflow.accepting, Option.map_eq_some_iff, Prod.mk.injEq] at hacc
        obtain ⟨c, hc, -, rfl, hphase⟩ := hacc
        cases hk
        exact ⟨c, hc, hphase⟩
      | process n =>
        simp only [Dataflow.accepting] at hacc
        split at hacc
        · cases hacc
          cases hk
        · cases hacc
      | _ => cases hacc
    -- `k` is the last call, and nothing of it was added
    have hlast := reachable_last hG hr k c hc (by rw [hphase]; rfl)
    obtain ⟨d, hd, hbefore, -⟩ := hcalls.exists_call hx hj
    have hlt := hcalls.lt_calls hd
    have hne : j ≠ k := by
      rintro rfl
      rw [hc] at hd
      cases hd
      rw [hphase] at hbefore
      cases hbefore
    exact ⟨j, k, hj, hk, by omega⟩

/-- Where no call is inside the block, the items were added in the order of the calls. -/
theorem added_eq_told (hleaf : N.outputNodes () = [])
    (hG : ∀ s a, G s a → ActorUse s a ∧ InTurn s a) (h : (dataflowMachine N).Reachable G s)
    (hout : ∀ k c, s.call k = some c → c.phase.outside) :
    (s.block ()).inputItems.added = told s := by
  refine List.Pairwise.eq_of_mem_iff
    (reachable_added_sorted hleaf (fun s a hg => (hG s a hg).2) h) (told_sorted s) fun x => ?_
  rw [mem_told (reachable_callInv h)]
  exact mem_added_iff hleaf (fun s a hg => (hG s a hg).1.2) h hout x

end Turn

end AsyncCpp.Actors
