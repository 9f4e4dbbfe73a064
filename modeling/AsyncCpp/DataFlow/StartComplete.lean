import AsyncCpp.DataFlow.BlockShape
import AsyncCpp.Lib.Cascade

/-!
# `Start` and `Complete` along the connections

The user starts one block, the root, once, completes it once, and offers items to it until
then. The calls of `Start` and `Complete` in such a run are those of a cascade: a block that
`Start` is in its loop of is opening, a block in `completeCommon` is closing, and a block
that is stopped is done.

Results:
* `ControlInv.step`: the cascade keeps its invariant, no call throws, and the program is not
  terminated, while no processing task fails.
-/

namespace AsyncCpp.DataFlow

open Interleaving Tasks AsyncPrimitives

variable {Node Item σ ε : Type*}

/-! ## The user -/

/-- The call has returned or thrown. -/
def AcceptPhase.ended : AcceptPhase ε → Bool
  | .returned | .threw _ => true
  | .throwIfNotStarted | .push | .release | .releasing => false

/-- The user starts the root once and completes it once, and calls `AcceptInputAsync` of the
    root only; these calls end before the user calls `Complete`. -/
def UserDriven (root : Node) (s : Dataflow Node Item σ ε) : DataflowLabel Node Item ε → Prop
  | .start n => n = root ∧ .user ∉ (s.block root).startedBy
  | .complete n => n = root ∧ .user ∉ (s.block root).completedBy ∧
      ∀ k c, s.call k = some c → c.phase.ended
  | .setFaulted _ _ => False
  | .acceptInputAsync n _ => n = root ∧ .user ∉ (s.block root).completedBy
  | .runCall _ | .advance _ | .process _ | .runFaultThread _ => True

/-! ## The cascade -/

/-- The block that calls. -/
def Caller.vertex : Caller Node → Option Node
  | .block p => some p
  | .user | .faultThread => none

/-- A block in the state `Created` is opening while `Start` is in its loop. -/
def openingPhase : Option (Activation Node ε) → Phase Node
  | some ⟨caller, .starting calling⟩ => .opening caller.vertex calling
  | _ => .idle

def Block.phase (b : Block Node Item σ ε) : Phase Node :=
  match b.state with
  | .created => openingPhase b.stateMutex
  | .starting | .started => .running
  | .stopping => .closing
  | .stopped => .done

def Dataflow.control (s : Dataflow Node Item σ ε) : Cascade Node where
  phase n := (s.block n).phase
  toStart n := (s.block n).toStart
  toComplete n := (s.block n).toComplete
  startedBy n := (s.block n).startedBy.map Caller.vertex
  completedBy n := (s.block n).completedBy.map Caller.vertex

/-- The section is one of a call that does not throw and reports no exception. -/
def Section.Calm : Section Node ε → Prop
  | .starting _ => True
  | .cancel e | .canceling e | .wait e => e = none
  | .finally e _ pending => e = none ∧ pending = none
  | .throwing _ => False

structure Block.Calm (b : Block Node Item σ ε) : Prop where
  section_ : ∀ a, b.stateMutex = some a → a.section_.Calm
  started : .faultThread ∉ b.startedBy
  completed : .faultThread ∉ b.completedBy

theorem openingPhase_cases (m : Option (Activation Node ε)) :
    openingPhase m = .idle ∨ ∃ o x, openingPhase m = .opening o x := by
  unfold openingPhase
  split
  · exact .inr ⟨_, _, rfl⟩
  · exact .inl rfl

theorem openingPhase_resumed (m : Option (Activation Node ε)) :
    openingPhase (m.map Activation.resumed) = (openingPhase m).resumed := by
  cases m with
  | none => rfl
  | some a =>
    obtain ⟨caller, sec⟩ := a
    cases sec <;> rfl

namespace Block

variable {N : Network Node Item σ ε} {n : Node} {b b' : Block Node Item σ ε}

theorem phase_of_created (hst : b.state = .created) : b.phase = openingPhase b.stateMutex := by
  unfold phase
  rw [hst]

theorem phase_of_started (hst : b.state = .started) : b.phase = .running := by
  unfold phase
  rw [hst]

theorem phase_of_stopping (hst : b.state = .stopping) : b.phase = .closing := by
  unfold phase
  rw [hst]

theorem phase_of_stopped (hst : b.state = .stopped) : b.phase = .done := by
  unfold phase
  rw [hst]

theorem isClosed_iff : b.state.isClosed ↔ b.phase = .closing ∨ b.phase = .done := by
  cases hst : b.state with
  | created =>
    rw [phase_of_created hst]
    rcases openingPhase_cases b.stateMutex with hph | ⟨o, x, hph⟩ <;>
      simp [BlockState.isClosed, hph]
  | starting => simp [BlockState.isClosed, phase, hst]
  | started => simp [BlockState.isClosed, phase_of_started hst]
  | stopping => simp [BlockState.isClosed, phase_of_stopping hst]
  | stopped => simp [BlockState.isClosed, phase_of_stopped hst]

/-- A block that is past `Start`. -/
theorem late_of_ne_created (hst : b.state ≠ .created) : b.phase.Late := by
  cases hst' : b.state with
  | created => exact absurd hst' hst
  | starting => exact .inl (by unfold phase; rw [hst'])
  | started => exact .inl (phase_of_started hst')
  | stopping => exact .inr (.inl (phase_of_stopping hst'))
  | stopped => exact .inr (.inr (phase_of_stopped hst'))

theorem stopped_of_done (hph : b.phase = .done) : b.state = .stopped := by
  cases hst : b.state with
  | created =>
    rw [phase_of_created hst] at hph
    rcases openingPhase_cases b.stateMutex with hidle | ⟨o, x, hopen⟩
    · cases hidle.symm.trans hph
    · cases hopen.symm.trans hph
  | stopped => rfl
  | starting | started | stopping =>
    unfold phase at hph
    rw [hst] at hph
    cases hph

/-- A block that runs is started: nobody leaves a block in the state `Starting`. -/
theorem started_of_running (h : ShapeInv b) (hph : b.phase = .running) : b.state = .started := by
  have hcl : ¬ b.state.isClosed := by
    rw [isClosed_iff, hph]
    simp
  cases hst : b.state with
  | created =>
    rw [phase_of_created hst] at hph
    rcases openingPhase_cases b.stateMutex with hidle | ⟨o, x, hopen⟩
    · cases hidle.symm.trans hph
    · cases hopen.symm.trans hph
  | starting => exact absurd hst h.starting
  | started => rfl
  | stopping | stopped =>
    rw [hst] at hcl
    exact absurd rfl hcl

theorem phase_resumed (b : Block Node Item σ ε) :
    ({ b with stateMutex := b.stateMutex.map Activation.resumed } : Block Node Item σ ε).phase =
      b.phase.resumed := by
  cases hst : b.state with
  | created =>
    simp only [phase, hst]
    exact openingPhase_resumed b.stateMutex
  | _ =>
    simp only [phase, hst]
    rfl

theorem calm_resumed (h : b.Calm) :
    ({ b with stateMutex := b.stateMutex.map Activation.resumed } : Block Node Item σ ε).Calm := by
  refine ⟨fun a ha => ?_, h.started, h.completed⟩
  obtain ⟨a', ha', rfl⟩ := Option.map_eq_some_iff.mp ha
  have hc := h.section_ a' ha'
  obtain ⟨caller, sec⟩ := a'
  cases sec <;> exact hc

/-- What `Start` and `Complete` change. -/
def calls (b : Block Node Item σ ε) :
    BlockState × Option (Activation Node ε) × List Node × List Node × List (Caller Node) ×
      List (Caller Node) :=
  (b.state, b.stateMutex, b.toStart, b.toComplete, b.startedBy, b.completedBy)

theorem process_calls (h : b.process N n = some b') : b'.calls = b.calls := by
  cases Block.process_cases h <;> rfl

end Block

variable [DecidableEq Node]

namespace Dataflow

variable {N : Network Node Item σ ε} {s s' : Dataflow Node Item σ ε} {v : Cascade Node}

omit [DecidableEq Node] in
theorem control_eq (h1 : ∀ m, (s.block m).phase = v.phase m)
    (h2 : ∀ m, (s.block m).toStart = v.toStart m)
    (h3 : ∀ m, (s.block m).toComplete = v.toComplete m)
    (h4 : ∀ m, (s.block m).startedBy.map Caller.vertex = v.startedBy m)
    (h5 : ∀ m, (s.block m).completedBy.map Caller.vertex = v.completedBy m) : s.control = v := by
  obtain ⟨phase, toStart, toComplete, startedBy, completedBy⟩ := v
  simp only [control, Cascade.mk.injEq]
  exact ⟨funext h1, funext h2, funext h3, funext h4, funext h5⟩

/-- A change to one block, read as a change to the cascade. -/
theorem control_set {n : Node} {b : Block Node Item σ ε} {p : Phase Node} (hp : b.phase = p) :
    (s.set n b).control =
      ⟨Function.update s.control.phase n p,
        Function.update s.control.toStart n b.toStart,
        Function.update s.control.toComplete n b.toComplete,
        Function.update s.control.startedBy n (b.startedBy.map Caller.vertex),
        Function.update s.control.completedBy n (b.completedBy.map Caller.vertex)⟩ := by
  subst hp
  refine control_eq ?_ ?_ ?_ ?_ ?_ <;> intro m
  · exact Function.apply_update (fun _ => Block.phase) s.block n b m
  · exact Function.apply_update (fun _ => Block.toStart) s.block n b m
  · exact Function.apply_update (fun _ => Block.toComplete) s.block n b m
  · exact Function.apply_update (fun _ b => b.startedBy.map Caller.vertex) s.block n b m
  · exact Function.apply_update (fun _ b => b.completedBy.map Caller.vertex) s.block n b m

omit [DecidableEq Node] in
theorem control_of_calls (h : ∀ m, (s'.block m).calls = (s.block m).calls) :
    s'.control = s.control ∧ ∀ m, (s.block m).Calm → (s'.block m).Calm := by
  simp only [Block.calls, Prod.mk.injEq] at h
  refine ⟨control_eq (fun m => ?_) (fun m => ?_) (fun m => ?_) (fun m => ?_) fun m => ?_,
    fun m hc => ?_⟩ <;> obtain ⟨h1, h2, h3, h4, h5, h6⟩ := h m
  · simp only [Block.phase, h1, h2]
    rfl
  · exact h3
  · exact h4
  · rw [h5]
    rfl
  · rw [h6]
    rfl
  · exact ⟨by rw [h2]; exact hc.section_, by rw [h5]; exact hc.started,
      by rw [h6]; exact hc.completed⟩

theorem step_calls {a : DataflowLabel Node Item ε} (hs : s.step N a = some s')
    (ha : a.movesItems) (m : Node) : (s'.block m).calls = (s.block m).calls :=
  step_congr (fun _ _ _ hb => Block.process_calls hb) (fun _ _ => rfl) (fun _ _ => rfl) hs ha m

theorem step_terminated {a : DataflowLabel Node Item ε} (hs : s.step N a = some s')
    (ha : a.movesItems) : s'.terminated = s.terminated := by
  unfold step at hs
  split_ifs at hs
  cases a with
  | process n =>
    rcases process_cases hs with ⟨y, c, ask, offer, rest, -, -, rfl⟩ |
      ⟨y, phase, c, offer, rest, bc, phase', -, -, rfl⟩ | ⟨b, -, rfl⟩ <;> rfl
  | runCall k =>
    obtain ⟨c, b, phase, -, -, rfl⟩ := runCall_cases hs
    rfl
  | acceptInputAsync n item =>
    cases hs
    rfl
  | start n | complete n | setFaulted n e | advance n | runFaultThread n => cases ha

/-! ## Calls that return -/

theorem control_returned (s : Dataflow Node Item σ ε) (caller : Caller Node) :
    (s.reply (.returned caller)).control = s.control.resumed caller.vertex := by
  cases caller with
  | user | faultThread => rfl
  | block p =>
    refine (control_set (Block.phase_resumed (s.block p))).trans ?_
    simp only [Caller.vertex, Cascade.resumed, Cascade.setPhase, control, Function.update_eq_self]

/-- No call throws, no exception is reported, and the program goes on. -/
structure Calm (s : Dataflow Node Item σ ε) : Prop where
  running : s.terminated = false
  block : ∀ m, (s.block m).Calm

theorem Calm.set (h : s.Calm) {n : Node} {b : Block Node Item σ ε} (hb : b.Calm) :
    (s.set n b).Calm :=
  ⟨h.running, forall_set h.block (P := fun _ b => b.Calm) hb⟩

theorem Calm.returned (h : s.Calm) (caller : Caller Node) : (s.reply (.returned caller)).Calm := by
  cases caller with
  | user | faultThread => exact h
  | block p => exact h.set (Block.calm_resumed (h.block p))

/-- A call of `Start` of a block that is not closed. -/
theorem start_control {c : Node} {caller : Caller Node} (h : s.Calm) (hsh : ShapeInv (s.block c))
    (hcaller : caller ≠ .faultThread) (hcl : ¬ (s.block c).state.isClosed)
    (hto : s.control.phase c = .idle → (s.block c).toStart = (s.block c).toComplete)
    (hs : s.start c caller = some s') :
    s'.Calm ∧
      ((s.control.phase c = .running ∧
          s'.control = (s.control.startCall c caller.vertex).resumed caller.vertex) ∨
        (s.control.phase c = .idle ∧ s'.control =
          (s.control.startCall c caller.vertex).setPhase c (.opening caller.vertex none))) := by
  simp only [start, Option.map_eq_some_iff] at hs
  obtain ⟨⟨b, r⟩, hb, rfl⟩ := hs
  unfold Block.start at hb
  split at hb
  · cases hb
  · rename_i hm
    have hstarted : .faultThread ∉ (s.block c).startedBy ++ [caller] := by
      simp [(h.block c).started, hcaller.symm]
    -- the loop of `Start` begins, with a processing task that is new or waits already
    have hopening : (s.block c).state = .created → ∀ b : Block Node Item σ ε,
        b.state = (s.block c).state → b.stateMutex = some ⟨caller, .starting none⟩ →
        b.toStart = (s.block c).toComplete → b.toComplete = (s.block c).toComplete →
        b.startedBy = (s.block c).startedBy ++ [caller] →
        b.completedBy = (s.block c).completedBy →
          (s.set c b).Calm ∧ s.control.phase c = .idle ∧ (s.set c b).control =
            (s.control.startCall c caller.vertex).setPhase c (.opening caller.vertex none) := by
      intro hst b h1 h2 h3 h4 h5 h6
      have hidle : s.control.phase c = .idle :=
        (Block.phase_of_created hst).trans (by rw [hm]; rfl)
      refine ⟨h.set ⟨fun a ha => ?_, by rwa [h5], by rw [h6]; exact (h.block c).completed⟩, hidle,
        ?_⟩
      · cases h2.symm.trans ha
        trivial
      · refine (control_set (p := .opening caller.vertex none) ?_).trans ?_
        · rw [Block.phase_of_created (h1.trans hst), h2]
          rfl
        · simp only [h3.trans (hto hidle).symm, h4, h5, h6, Cascade.startCall, Cascade.setPhase,
            control, Function.update_eq_self, List.map_append, List.map_cons, List.map_nil]
    simp only at hb
    split at hb
    · rename_i hst
      cases hb
      refine ⟨Calm.returned (h.set ?_) caller, .inl ⟨Block.phase_of_started hst, ?_⟩⟩
      · exact ⟨(h.block c).section_, hstarted, (h.block c).completed⟩
      · refine (control_returned _ caller).trans (congrArg (Cascade.resumed · caller.vertex) ?_)
        refine (control_set (p := (s.block c).phase) (by rfl)).trans ?_
        simp only [Cascade.startCall, control, Function.update_eq_self, List.map_append,
          List.map_cons, List.map_nil]
    · rename_i hst _
      cases hb
      refine And.imp_right .inr (hopening hst _ ?_ ?_ ?_ ?_ ?_ ?_) <;> rfl
    · rename_i hst _
      cases hb
      refine And.imp_right .inr (hopening hst _ ?_ ?_ ?_ ?_ ?_ ?_) <;> rfl
    · rename_i h1 h2 h3
      cases hst : (s.block c).state with
      | created | started => simp_all
      | starting => exact absurd hst hsh.starting
      | stopping | stopped =>
        rw [hst] at hcl
        exact absurd rfl hcl

/-- A call of `Complete`. -/
theorem completeCommon_control {c : Node} {caller : Caller Node} (h : s.Calm)
    (hsh : ShapeInv (s.block c)) (hcaller : caller ≠ .faultThread)
    (hidle : s.control.phase c = .idle → caller = .user)
    (hs : s.completeCommon c caller none = some s') :
    s'.Calm ∧
      (s'.control = (s.control.completeCall c caller.vertex).resumed caller.vertex ∨
        (s.control.phase c = .running ∧
          ((s.block c).startedBy.length : ℤ) ≤ (s.block c).completedBy.length + 1 ∧
          s'.control = (s.control.completeCall c caller.vertex).setPhase c .closing)) := by
  simp only [completeCommon, Option.map_eq_some_iff] at hs
  obtain ⟨⟨b, r⟩, hb, rfl⟩ := hs
  unfold Block.completeCommon at hb
  split at hb
  · cases hb
  · rename_i hm
    have hcompleted : .faultThread ∉ (s.block c).completedBy ++ [caller] := by
      simp [(h.block c).completed, hcaller.symm]
    have hreturned : ∀ count : ℤ,
        ((s.set c { s.block c with
          startCallsCount := count
          completedBy := (s.block c).completedBy ++ [caller] }).reply (.returned caller)).Calm ∧
        ((s.set c { s.block c with
          startCallsCount := count
          completedBy := (s.block c).completedBy ++ [caller] }).reply (.returned caller)).control =
            (s.control.completeCall c caller.vertex).resumed caller.vertex := by
      intro count
      refine ⟨Calm.returned (h.set ?_) caller, ?_⟩
      · exact ⟨(h.block c).section_, (h.block c).started, hcompleted⟩
      · refine (control_returned _ caller).trans (congrArg (Cascade.resumed · caller.vertex) ?_)
        refine (control_set (p := (s.block c).phase) (by rfl)).trans ?_
        simp only [Cascade.completeCall, control, Function.update_eq_self, List.map_append,
          List.map_cons, List.map_nil]
    simp only at hb
    split_ifs at hb with hpos
    · cases hb
      exact ⟨(hreturned _).1, .inl (hreturned _).2⟩
    · have hle : ((s.block c).startedBy.length : ℤ) ≤ (s.block c).completedBy.length + 1 := by
        have hcount := hsh.count
        simp only [Option.isNone_none, and_true, not_lt] at hpos
        omega
      split at hb
      · rename_i hst
        cases hb
        have huser := hidle ((Block.phase_of_created hst).trans (by rw [hm]; rfl))
        subst huser
        exact ⟨(hreturned _).1, .inl (hreturned _).2⟩
      · cases hb
        exact ⟨(hreturned _).1, .inl (hreturned _).2⟩
      · rename_i h1 h2
        cases hb
        have hst : (s.block c).state = .started := by
          cases hst : (s.block c).state with
          | created => exact absurd hst h1
          | starting => exact absurd hst hsh.starting
          | started => rfl
          | stopping => exact absurd hm (hsh.stopping hst)
          | stopped => exact absurd hst h2
        refine ⟨h.set ⟨fun a ha => ?_, (h.block c).started, hcompleted⟩,
          .inr ⟨Block.phase_of_started hst, hle, ?_⟩⟩
        · cases ha
          rfl
        · refine (control_set (p := .closing) rfl).trans ?_
          simp only [Cascade.completeCall, Cascade.setPhase, control, Function.update_eq_self,
            List.map_append, List.map_cons, List.map_nil]

/-- A change the cascade does not see. -/
theorem control_set_self {n : Node} {b : Block Node Item σ ε}
    (h1 : b.phase = (s.block n).phase)
    (h2 : b.toStart = (s.block n).toStart ∧ b.toComplete = (s.block n).toComplete ∧
      b.startedBy = (s.block n).startedBy ∧ b.completedBy = (s.block n).completedBy) :
    (s.set n b).control = s.control := by
  obtain ⟨h2, h3, h4, h5⟩ := h2
  refine (control_set h1).trans ?_
  simp only [h2, h3, h4, h5, control, Function.update_eq_self]

end Dataflow

/-! ## The invariant -/

/-- The calls of `Start` and `Complete` are those of a cascade. -/
structure ControlInv (N : Network Node Item σ ε) (root : Node) (s : Dataflow Node Item σ ε) :
    Prop where
  calm : s.Calm
  cascade : Cascade.Inv N.outputNodes root s.control

/-- The next blocks are connected once each, and there is no cycle. -/
structure Network.Acyclic (N : Network Node Item σ ε) : Prop where
  nodup : ∀ p, (N.outputNodes p).Nodup
  wellFounded : WellFounded fun p c => c ∈ N.outputNodes p

namespace ControlInv

open Dataflow

variable {N : Network Node Item σ ε} {root n : Node} {s s' : Dataflow Node Item σ ε}

omit [DecidableEq Node] in
/-- The loops of a block that is not started have the same blocks to visit. -/
theorem toStart_of_idle (h : ControlInv N root s) (hidle : s.control.phase n = .idle) :
    (s.block n).toStart = (s.block n).toComplete :=
  (h.cascade.idle n hidle).1.trans (h.cascade.early n (by rw [hidle]; nofun)).symm

/-- `Start` has been through its loop. -/
theorem opened (h : ControlInv N root s) (hN : N.Acyclic) (hsh : ShapeInv (s.block n))
    {caller : Caller Node} {b : Block Node Item σ ε}
    (hm : (s.block n).stateMutex = some ⟨caller, .starting none⟩)
    (htodo : (s.block n).toStart = [])
    (hb : b = { s.block n with
      state := .started, startTask := b.startTask, stateMutex := none }) :
    ControlInv N root ((s.set n b).reply (.returned caller)) := by
  have hph : s.control.phase n = .opening caller.vertex none :=
    (Block.phase_of_created (hsh.section_ _ hm)).trans (by rw [hm]; rfl)
  have hne : caller.vertex ≠ some n := by
    intro hn
    rcases h.cascade.chain n _ _ hph with ⟨-, ho⟩ | ⟨p, o', ho, hp, -⟩
    · cases ho.symm.trans hn
    · cases ho.symm.trans hn
      cases hph.symm.trans hp
  have hset : (s.set n b).control = s.control.setPhase n .running := by
    rw [hb]
    refine (control_set (p := .running) rfl).trans ?_
    simp only [Cascade.setPhase, Dataflow.control, Function.update_eq_self]
  refine ⟨Calm.returned (h.calm.set ?_) caller, ?_⟩
  · rw [hb]
    exact ⟨(by simp), (h.calm.block n).started, (h.calm.block n).completed⟩
  · rw [control_returned, hset, Cascade.resumed_setPhase _ hne]
    exact h.cascade.opened hN.wellFounded hph htodo

/-- `Start` calls `Start` of the next block. -/
theorem startNext (h : ControlInv N root s) (hN : N.Acyclic) (hsh : ∀ m, ShapeInv (s.block m))
    {caller : Caller Node} {c : Node} {cs : List Node}
    (hm : (s.block n).stateMutex = some ⟨caller, .starting none⟩)
    (htodo : (s.block n).toStart = c :: cs)
    (hs : (s.set n { s.block n with
      toStart := cs, stateMutex := some ⟨caller, .starting (some c)⟩ }).start c (.block n) =
        some s') : ControlInv N root s' := by
  have hcreated := (hsh n).section_ _ hm
  have hph : s.control.phase n = .opening caller.vertex none :=
    (Block.phase_of_created hcreated).trans (by rw [hm]; rfl)
  obtain ⟨hnl, -⟩ := h.cascade.root_of_opening hph
  have hmem : c ∈ N.outputNodes n := by
    have hsub := h.cascade.starts.sublist n
    rw [show s.control.toStart n = c :: cs from htodo] at hsub
    exact hsub.subset List.mem_cons_self
  have hcn : c ≠ n := by
    rintro rfl
    exact hN.wellFounded.irrefl.irrefl c hmem
  have hset : (s.set n { s.block n with
      toStart := cs, stateMutex := some ⟨caller, .starting (some c)⟩ }).control =
      { s.control.setPhase n (.opening caller.vertex (some c)) with
        toStart := Function.update s.control.toStart n cs } := by
    refine (control_set (p := .opening caller.vertex (some c)) ?_).trans ?_
    · exact Block.phase_of_created hcreated
    · simp only [Cascade.setPhase, Dataflow.control, Function.update_eq_self]
  have hcalm : (s.set n { s.block n with
      toStart := cs, stateMutex := some ⟨caller, .starting (some c)⟩ }).Calm := by
    refine h.calm.set ⟨fun a ha => ?_, (h.calm.block n).started, (h.calm.block n).completed⟩
    cases ha
    trivial
  have hcl : ¬ (s.block c).state.isClosed := fun hcl =>
    hnl (h.cascade.root_of_closed (Block.isClosed_iff.mp hcl))
  have hidle_c : (s.set n { s.block n with
      toStart := cs, stateMutex := some ⟨caller, .starting (some c)⟩ }).control.phase c = .idle →
        s.control.phase c = .idle := by
    rw [hset]
    simp only [Cascade.setPhase, Function.update_of_ne hcn]
    exact id
  obtain ⟨hcalm', hrun⟩ := start_control hcalm
    (by rw [set_block_of_ne _ _ hcn]; exact hsh c) (by simp) (by rwa [set_block_of_ne _ _ hcn])
    (fun hidle => by rw [set_block_of_ne _ _ hcn]; exact h.toStart_of_idle (hidle_c hidle)) hs
  refine ⟨hcalm', ?_⟩
  rw [hset] at hrun
  simp only [Cascade.setPhase, Function.update_of_ne hcn] at hrun
  rcases hrun with ⟨hc, hv⟩ | ⟨hc, hv⟩
  · have hself : Function.update s.control.phase n (.opening caller.vertex none) =
        s.control.phase := by
      rw [← hph, Function.update_eq_self]
    rw [hv, show (Caller.block n).vertex = some n from rfl]
    simp only [Cascade.resumed, Cascade.startCall, Cascade.setPhase, Function.update_self,
      Phase.resumed, Function.update_idem, hself]
    exact h.cascade.visit hN.nodup hph htodo hc
  · rw [hv]
    exact h.cascade.descend hN.nodup hph htodo hc

/-- `completeCommon` has completed all next blocks. -/
theorem finished (h : ControlInv N root s) (hsh : ShapeInv (s.block n)) {caller : Caller Node}
    {e : Option (Exn ε)} (hm : (s.block n).stateMutex = some ⟨caller, .finally e none none⟩) :
    ControlInv N root ((s.set n { s.block n with stateMutex := none }).reply
      (.returned caller)) := by
  have hdone : (s.block n).phase = .done := Block.phase_of_stopped (hsh.section_ _ hm)
  have hroot := h.cascade.root_of_closed (.inr hdone)
  have hset : (s.set n { s.block n with stateMutex := none }).control = s.control := by
    refine control_set_self ?_ ⟨rfl, rfl, rfl, rfl⟩
    rw [hdone]
    exact Block.phase_of_stopped (hsh.section_ _ hm)
  refine ⟨Calm.returned (h.calm.set ?_) caller, ?_⟩
  · exact ⟨nofun, (h.calm.block n).started, (h.calm.block n).completed⟩
  · rw [control_returned, hset, Cascade.resumed_eq_self fun q _ =>
      Cascade.resumed_of_not_opening fun o x => h.cascade.after hroot q o x]
    exact h.cascade

/-- The `FinallyBlock` calls `Complete` of the next block. -/
theorem completeNext (h : ControlInv N root s) (hN : N.Acyclic) (hsh : ∀ m, ShapeInv (s.block m))
    {caller : Caller Node} {c : Node} {cs : List Node}
    (hm : (s.block n).stateMutex = some ⟨caller, .finally none none none⟩)
    (htodo : (s.block n).toComplete = c :: cs)
    (hs : (s.set n { s.block n with
      toComplete := cs, stateMutex := some ⟨caller, .finally none (some c) none⟩ }).completeCommon
        c (.block n) none = some s') : ControlInv N root s' := by
  have hstopped := (hsh n).section_ _ hm
  have hdone : s.control.phase n = .done := Block.phase_of_stopped hstopped
  have hmem : c ∈ N.outputNodes n := by
    have hsub := h.cascade.completes.sublist n
    rw [show s.control.toComplete n = c :: cs from htodo] at hsub
    exact hsub.subset List.mem_cons_self
  have hcn : c ≠ n := by
    rintro rfl
    exact hN.wellFounded.irrefl.irrefl c hmem
  have hset : (s.set n { s.block n with
      toComplete := cs, stateMutex := some ⟨caller, .finally none (some c) none⟩ }).control =
      { s.control with toComplete := Function.update s.control.toComplete n cs } := by
    refine (control_set (p := (s.block n).phase) ?_).trans ?_
    · rw [Block.phase_of_stopped hstopped]
      exact Block.phase_of_stopped hstopped
    · simp only [Dataflow.control, Function.update_eq_self]
  have hcalm : (s.set n { s.block n with
      toComplete := cs, stateMutex := some ⟨caller, .finally none (some c) none⟩ }).Calm := by
    refine h.calm.set ⟨fun a ha => ?_, (h.calm.block n).started, (h.calm.block n).completed⟩
    cases ha
    exact ⟨rfl, rfl⟩
  -- the next block was started by `n`
  have hni : s.control.phase c ≠ .idle := by
    intro hidle
    have hstarted : some n ∈ s.control.startedBy c := by
      rw [h.cascade.starts.mem, h.cascade.late n (.inr (.inr hdone))]
      exact ⟨hmem, List.not_mem_nil⟩
    rw [(h.cascade.idle c hidle).2] at hstarted
    exact List.not_mem_nil hstarted
  obtain ⟨hcalm', hrun⟩ := completeCommon_control hcalm
    (by rw [set_block_of_ne _ _ hcn]; exact hsh c) (by nofun)
    (by rw [hset]; exact fun hidle => absurd hidle hni) hs
  refine ⟨hcalm', ?_⟩
  rw [hset, set_block_of_ne _ _ hcn] at hrun
  have hnotify := h.cascade.notify hN.nodup hdone htodo
  rcases hrun with hv | ⟨hc, hle, hv⟩
  · rw [hv, Cascade.resumed_eq_self fun q hq => by
      cases hq
      exact Cascade.resumed_of_not_opening fun o x hx => by cases hdone.symm.trans hx]
    exact hnotify
  · rw [hv]
    refine hnotify.close hc ?_ ?_
    · simp [Cascade.completeEdge, Cascade.completeCall]
    · simp only [Cascade.completeEdge, Cascade.completeCall, Function.update_self,
        List.length_append, List.length_singleton, Dataflow.control, List.length_map]
      omega

/-- `completeCommon` goes on within its mutex. -/
theorem inside (h : ControlInv N root s) {b : Block Node Item σ ε} {a : Activation Node ε}
    (hb : b.calls = ((s.block n).state, some a, (s.block n).toStart, (s.block n).toComplete,
      (s.block n).startedBy, (s.block n).completedBy))
    (hph : b.phase = (s.block n).phase) (ha : a.section_.Calm) :
    ControlInv N root (s.set n b) := by
  simp only [Block.calls, Prod.mk.injEq] at hb
  obtain ⟨-, hm, h2, h3, h4, h5⟩ := hb
  refine ⟨h.calm.set ⟨fun a' ha' => ?_, ?_, ?_⟩, ?_⟩
  · cases hm.symm.trans ha'
    exact ha
  · rw [h4]
    exact (h.calm.block n).started
  · rw [h5]
    exact (h.calm.block n).completed
  · rw [control_set_self hph ⟨h2, h3, h4, h5⟩]
    exact h.cascade

/-- The processing task has ended, and did not fail. -/
theorem waited (h : ControlInv N root s) (hsh : ShapeInv (s.block n)) {caller : Caller Node}
    (hm : (s.block n).stateMutex = some ⟨caller, .wait none⟩) :
    ControlInv N root (s.set n ((s.block n).waited caller none (.ok ()))) := by
  refine ⟨h.calm.set ⟨fun a ha => ?_, (h.calm.block n).started, (h.calm.block n).completed⟩, ?_⟩
  · cases ha
    exact ⟨rfl, rfl⟩
  · have hset : (s.set n ((s.block n).waited caller none (.ok ()))).control =
        s.control.setPhase n .done := by
      refine (control_set (p := .done) rfl).trans ?_
      simp only [Block.waited, Cascade.setPhase, Dataflow.control, Function.update_eq_self]
    rw [hset]
    exact h.cascade.finish (Block.phase_of_stopping (hsh.section_ _ hm))

theorem advance (h : ControlInv N root s) (hN : N.Acyclic) (hsh : ∀ m, ShapeInv (s.block m))
    (hhe : HealthyInv (s.block n)) (hs : s.advance n = some s') : ControlInv N root s' := by
  have hphase : ∀ {b : Block Node Item σ ε} {a : Activation Node ε},
      (s.block n).stateMutex = some a → a.section_.state = .stopping →
        b.state = (s.block n).state → b.phase = (s.block n).phase := by
    intro b a hm hst hb
    have hstopping := ((hsh n).section_ a hm).trans hst
    rw [Block.phase_of_stopping hstopping]
    exact Block.phase_of_stopping (hb.trans hstopping)
  unfold Dataflow.advance at hs
  split at hs
  · cases hs
  · rename_i b r hb
    cases hs
    cases Block.advance_cases hb with
    | opened hm ht => exact h.opened hN (hsh n) hm ht rfl
    | cancel hm hq =>
      have he := (h.calm.block n).section_ _ hm
      exact h.inside (a := ⟨_, .canceling _⟩) rfl (hphase hm rfl rfl) he
    | canceled hm =>
      have he := (h.calm.block n).section_ _ hm
      exact h.inside (a := ⟨_, .wait _⟩) rfl (hphase hm rfl rfl) he
    | runCancel hm hq =>
      exact h.inside (by rw [← hm]; rfl) (hphase hm rfl rfl) ((h.calm.block n).section_ _ hm)
    | @waited caller e r hm hr =>
      obtain rfl : e = none := (h.calm.block n).section_ _ hm
      cases r with
      | ok u => exact h.waited (hsh n) hm
      | error ex =>
        -- the processing task has not failed
        have hnot := hhe.notFailed
        cases hp : (s.block n).processingTask <;> rw [hp] at hr hnot <;> cases hr
        cases hnot
    | finished hm ht => exact h.finished (hsh n) hm
    | rethrown hm ht => cases ((h.calm.block n).section_ _ hm).2
    | throwing hm => exact ((h.calm.block n).section_ _ hm).elim
  · rename_i b c hb
    cases Block.advance_cases hb with
    | startNext hm ht => exact h.startNext hN hsh hm ht hs
  · rename_i b c e hb
    cases Block.advance_cases hb with
    | @completeNext caller e pending c cs hm ht =>
      obtain ⟨rfl, rfl⟩ := (h.calm.block n).section_ _ hm
      exact h.completeNext hN hsh hm ht hs

/-- The user starts the root. -/
theorem start (h : ControlInv N root s) (hsh : ShapeInv (s.block root))
    (huser : .user ∉ (s.block root).startedBy) (hs : s.start root .user = some s') :
    ControlInv N root s' := by
  have hidle : s.control.phase root = .idle := by
    by_contra hne
    obtain ⟨x, hx, hxn⟩ := List.mem_map.mp ((h.cascade.startedRoot root).mpr ⟨rfl, hne⟩)
    cases x with
    | user => exact huser hx
    | faultThread => exact (h.calm.block root).started hx
    | block p => cases hxn
  have hcl : ¬ (s.block root).state.isClosed := by
    rw [Block.isClosed_iff, show (s.block root).phase = .idle from hidle]
    simp
  obtain ⟨hcalm, hrun⟩ := start_control h.calm hsh (by nofun) hcl h.toStart_of_idle hs
  refine ⟨hcalm, ?_⟩
  rcases hrun with ⟨hc, -⟩ | ⟨-, hv⟩
  · cases hidle.symm.trans hc
  · rw [hv]
    exact h.cascade.begin hidle

/-- The user completes the root. -/
theorem complete (h : ControlInv N root s) (hsh : ShapeInv (s.block root))
    (huser : .user ∉ (s.block root).completedBy) (hs : s.completeCommon root .user none = some s') :
    ControlInv N root s' := by
  have hnone : none ∉ s.control.completedBy root := by
    intro hmem
    obtain ⟨x, hx, hxn⟩ := List.mem_map.mp hmem
    cases x with
    | user => exact huser hx
    | faultThread => exact (h.calm.block root).completed hx
    | block p => cases hxn
  obtain ⟨hcalm, hrun⟩ := completeCommon_control h.calm hsh (by nofun) (fun _ => rfl) hs
  refine ⟨hcalm, ?_⟩
  have hcall := h.cascade.completeRoot hnone
  rcases hrun with hv | ⟨hc, hle, hv⟩
  · rw [hv]
    exact hcall
  · rw [hv]
    refine hcall.close hc ?_ ?_
    · simp [Cascade.completeCall]
    · simp only [Cascade.completeCall, Function.update_self, List.length_append,
        List.length_singleton, Dataflow.control, List.length_map]
      omega

/-- A step of a run in which the user keeps to `UserDriven`. -/
theorem step (h : ControlInv N root s) (hN : N.Acyclic) (hsh : ∀ m, ShapeInv (s.block m))
    (hhe : ∀ m, HealthyInv (s.block m)) {a : DataflowLabel Node Item ε} (hg : UserDriven root s a)
    (hs : s.step N a = some s') : ControlInv N root s' := by
  have hquiet : a.movesItems → ControlInv N root s' := by
    intro ha
    obtain ⟨hcontrol, hcalm⟩ := control_of_calls (step_calls hs ha)
    exact ⟨⟨(step_terminated hs ha).trans h.calm.running, fun m => hcalm m (h.calm.block m)⟩,
      by rw [hcontrol]; exact h.cascade⟩
  cases a with
  | start n =>
    obtain ⟨rfl, huser⟩ := hg
    simp only [Dataflow.step, h.calm.running] at hs
    exact h.start (hsh n) huser hs
  | complete n =>
    obtain ⟨rfl, huser, -⟩ := hg
    simp only [Dataflow.step, h.calm.running] at hs
    exact h.complete (hsh n) huser hs
  | setFaulted n e => exact hg.elim
  | advance n =>
    simp only [Dataflow.step, h.calm.running] at hs
    exact h.advance hN hsh (hhe n) hs
  | runFaultThread n =>
    simp only [Dataflow.step, h.calm.running, (hhe n).faultThread] at hs
    cases hs
  | acceptInputAsync n item | runCall k | process n => exact hquiet rfl

end ControlInv

end AsyncCpp.DataFlow
