import AsyncCpp.DataFlow.StartComplete
import Mathlib.Logic.Relation

/-!
# Critical sections inside critical sections

`Start` calls `Start` of the next blocks, and `completeCommon` calls their `Complete` or
`SetFaulted`, inside the critical section of the block. In any run: a critical section that
a block has called is inside the one of its caller, and a block is started only after its
next blocks.

Results:
* `reachable_nextInv`: a block calls its next blocks only.
* `OpenInv.step`: a block that is past `Start` lies on no cycle of connections that `Start` knows.
-/

namespace AsyncCpp.DataFlow

open Interleaving

variable {Node Item σ ε : Type*}

/-! ## The blocks that are called -/

/-- The next block whose critical section the thread that holds `_stateMutex` is in. -/
def Block.calling (b : Block Node Item σ ε) : Option Node :=
  match b.stateMutex with
  | some ⟨_, .starting calling⟩ | some ⟨_, .finally _ calling _⟩ => calling
  | _ => none

/-- The loops of `Start` and of the `FinallyBlock` visit the next blocks, and the second one
    takes none before the block has stopped. -/
structure NextInv (N : Network Node Item σ ε) (n : Node) (b : Block Node Item σ ε) : Prop where
  whole : b.state ≠ .stopped → b.toComplete = N.outputNodes n
  toStart : b.toStart ⊆ N.outputNodes n
  toComplete : b.toComplete ⊆ N.outputNodes n
  calling : ∀ c, b.calling = some c → c ∈ N.outputNodes n

namespace NextInv

variable {N : Network Node Item σ ε} {n : Node} {b b' : Block Node Item σ ε}

theorem start (h : NextInv N n b) {caller : Caller Node} {r : Reply Node ε}
    (hs : b.start caller = some (b', r)) : NextInv N n b' := by
  unfold Block.start at hs
  split at hs
  · cases hs
  · simp only at hs
    split at hs
    · cases hs
      exact ⟨h.whole, h.toStart, h.toComplete, h.calling⟩
    · cases hs
      exact ⟨h.whole, h.toComplete, h.toComplete, nofun⟩
    · cases hs
      exact ⟨h.whole, h.toComplete, h.toComplete, nofun⟩
    · cases hs
      exact ⟨h.whole, h.toStart, h.toComplete, h.calling⟩

theorem completeCommon (h : NextInv N n b) {caller : Caller Node} {e : Option (Exn ε)}
    {r : Reply Node ε} (hs : b.completeCommon caller e = some (b', r)) : NextInv N n b' := by
  unfold Block.completeCommon at hs
  split at hs
  · cases hs
  · simp only at hs
    split_ifs at hs
    · cases hs
      exact ⟨h.whole, h.toStart, h.toComplete, h.calling⟩
    · split at hs
      · cases hs
        exact ⟨h.whole, h.toStart, h.toComplete, h.calling⟩
      · cases hs
        exact ⟨h.whole, h.toStart, h.toComplete, h.calling⟩
      · rename_i hne
        cases hs
        exact ⟨fun _ => h.whole hne, h.toStart, h.toComplete, nofun⟩

theorem advance (h : NextInv N n b) (hsh : ShapeInv b) {r : NextCall Node ε}
    (hs : b.advance = some (b', r)) : NextInv N n b' := by
  cases Block.advance_cases hs with
  | @opened caller hm hto =>
    exact ⟨fun _ => h.whole (by rw [hsh.section_ _ hm]; nofun), h.toStart, h.toComplete, nofun⟩
  | @startNext caller c cs hm hto =>
    have hsub := h.toStart
    rw [hto] at hsub
    refine ⟨h.whole, fun d hd => hsub (List.mem_cons_of_mem c hd), h.toComplete, ?_⟩
    rintro d hd
    cases hd
    exact hsub List.mem_cons_self
  | @completeNext caller e pending c cs hm hto =>
    have hsub := h.toComplete
    rw [hto] at hsub
    refine ⟨fun hst => absurd (hsh.section_ _ hm) hst, h.toStart,
      fun d hd => hsub (List.mem_cons_of_mem c hd), ?_⟩
    rintro d hd
    cases hd
    exact hsub List.mem_cons_self
  | @waited caller e r hm hr =>
    cases r <;> exact ⟨fun hst => absurd rfl hst, h.toStart, h.toComplete, nofun⟩
  | @runCancel caller e q hm hq => exact ⟨h.whole, h.toStart, h.toComplete, h.calling⟩
  | _ => exact ⟨h.whole, h.toStart, h.toComplete, nofun⟩

theorem resumed (h : NextInv N n b) :
    NextInv N n { b with stateMutex := b.stateMutex.map Activation.resumed } := by
  refine ⟨h.whole, h.toStart, h.toComplete, fun c hc => ?_⟩
  rcases hm : b.stateMutex with _ | ⟨caller, sec⟩
  · simp [Block.calling, hm] at hc
  · cases sec <;> simp [Block.calling, hm, Activation.resumed] at hc

theorem process (h : NextInv N n b) (hs : b.process N n = some b') : NextInv N n b' := by
  have hcalls := Block.process_calls hs
  simp only [Block.calls, Prod.mk.injEq] at hcalls
  obtain ⟨hst, hm, hstart, hcomplete, -, -⟩ := hcalls
  refine ⟨?_, hstart ▸ h.toStart, hcomplete ▸ h.toComplete, fun c hc => h.calling c ?_⟩
  · rw [hst, hcomplete]
    exact h.whole
  · unfold Block.calling at hc ⊢
    rwa [hm] at hc

theorem closed (N : Network Node Item σ ε) :
    Closed N (fun _ _ => True)
      fun n (b : Block Node Item σ ε) => (TaskInv b ∧ ShapeInv b) ∧ NextInv N n b where
  start {n _ _ _ _} h hs := ⟨(ShapeInv.closed N).start (n := n) h.1 hs, h.2.start hs⟩
  completeCommon {n _ _ _ _ _} h hs :=
    ⟨(ShapeInv.closed N).completeCommon (n := n) h.1 hs, h.2.completeCommon hs⟩
  advance {n _ _ _} h hs := ⟨(ShapeInv.closed N).advance (n := n) h.1 hs, h.2.advance h.1.2 hs⟩
  resumed {n _} h := ⟨(ShapeInv.closed N).resumed (n := n) h.1, h.2.resumed⟩
  throwing {n _ _ _ _} h hm :=
    ⟨(ShapeInv.closed N).throwing (n := n) h.1 hm, h.2.whole, h.2.toStart, h.2.toComplete, nofun⟩
  process h hs := ⟨(ShapeInv.closed N).process h.1 hs, h.2.process hs⟩
  asked {n b y c ask offer rest offer'} h hp ho :=
    ⟨(ShapeInv.closed N).asked (n := n) h.1 hp ho, h.2.whole, h.2.toStart, h.2.toComplete,
      h.2.calling⟩
  offered {n b y phase c offer rest phase'} h hp :=
    ⟨(ShapeInv.closed N).offered (n := n) h.1 hp, h.2.whole, h.2.toStart, h.2.toComplete,
      h.2.calling⟩
  accept {n b x phase b' phase'} h _ hs := by
    refine ⟨(ShapeInv.closed N).accept (n := n) h.1 trivial hs, ?_⟩
    rw [Block.acceptInputAsync_eq hs]
    exact ⟨h.2.whole, h.2.toStart, h.2.toComplete, h.2.calling⟩
  faultThread {n b} h :=
    ⟨(ShapeInv.closed N).faultThread (n := n) h.1, h.2.whole, h.2.toStart, h.2.toComplete,
      h.2.calling⟩

end NextInv

variable [DecidableEq Node]

theorem reachable_nextInv {N : Network Node Item σ ε}
    {G : Dataflow Node Item σ ε → DataflowLabel Node Item ε → Prop} {s : Dataflow Node Item σ ε}
    (h : (dataflowMachine N).Reachable G s) (n : Node) : NextInv N n (s.block n) := by
  refine (reachable_closed (NextInv.closed N) (fun m => ⟨⟨?_, ?_⟩, ?_⟩)
    (fun _ _ _ _ _ _ _ => trivial) h n).2
  · exact ⟨fun _ => ⟨rfl, rfl⟩, fun hc => absurd rfl hc, nofun⟩
  · exact ⟨nofun, nofun, nofun, rfl, nofun, nofun, (by rintro (hd | hd) <;> cases hd), nofun, nofun⟩
  · exact ⟨fun _ => rfl, List.Subset.refl _, List.Subset.refl _, nofun⟩

/-! ## Sections and their callers -/

/-- The section belongs to a call of `Start`. -/
def Section.opening : Section Node ε → Bool
  | .starting _ | .throwing _ => true
  | .cancel _ | .canceling _ | .wait _ | .finally _ _ _ => false

/-- The section is in a call of `c`, of its `Start` if `opening`. -/
def Section.InCall (sec : Section Node ε) (c : Node) (opening : Bool) : Prop :=
  match sec with
  | .starting (some d) => d = c ∧ opening = true
  | .finally _ (some d) _ => d = c ∧ opening = false
  | _ => False

omit [DecidableEq Node] in
theorem Section.InCall.unique {sec : Section Node ε} {c d : Node} {o o' : Bool}
    (h : sec.InCall c o) (h' : sec.InCall d o') : c = d := by
  unfold Section.InCall at h h'
  split at h
  · exact h.1.symm.trans h'.1
  · exact h.1.symm.trans h'.1
  · exact h.elim

omit [DecidableEq Node] in
theorem Block.calling_of_inCall {b : Block Node Item σ ε} {a : Activation Node ε} {c : Node}
    {o : Bool} (ha : b.stateMutex = some a) (hin : a.section_.InCall c o) :
    b.calling = some c := by
  obtain ⟨caller, sec⟩ := a
  unfold Block.calling
  rw [ha]
  cases sec with
  | starting calling | «finally» e calling pending =>
    cases calling with
    | none => exact hin.elim
    | some d => exact congrArg some hin.1
  | _ => exact hin.elim

omit [DecidableEq Node] in
/-- A thread that is in a call does not go on itself. -/
theorem Block.not_inCall_of_advance {b b' : Block Node Item σ ε} {r : NextCall Node ε}
    (hs : b.advance = some (b', r)) {a : Activation Node ε} (ha : b.stateMutex = some a) (c : Node)
    (o : Bool) : ¬ a.section_.InCall c o := by
  intro hin
  cases Block.advance_cases hs with
  | opened hm | startNext hm | cancel hm | canceled hm | runCancel hm | waited hm | finished hm
  | rethrown hm | completeNext hm | throwing hm =>
    cases hm.symm.trans ha
    exact hin

/-- Block `m` is connected to block `n`. -/
def Network.Edge (N : Network Node Item σ ε) (n m : Node) : Prop := m ∈ N.outputNodes n

/-- A section that a block called is inside that of its caller; a block in its loop of `Start`
    has started the next blocks it does not visit any more, and a block past `Start` has
    started all of them. -/
structure OpenInv (N : Network Node Item σ ε) (s : Dataflow Node Item σ ε) : Prop where
  nested : ∀ c p sec, (s.block c).stateMutex = some ⟨.block p, sec⟩ →
    ∃ a, (s.block p).stateMutex = some a ∧ a.section_.InCall c sec.opening
  starting : ∀ n caller calling, (s.block n).stateMutex = some ⟨caller, .starting calling⟩ →
    ∀ c, N.Edge n c → c ∈ (s.block n).toStart ∨ calling = some c ∨ (s.block c).state ≠ .created
  opened : ∀ n, (s.block n).state ≠ .created → ∀ c, N.Edge n c → (s.block c).state ≠ .created
  acyclic : ∀ n, (s.block n).state ≠ .created → ¬ Relation.TransGen N.Edge n n

/-- A `Start` of the block that is not completed yet will visit all next blocks. -/
def Block.Fresh (N : Network Node Item σ ε) (n : Node) (b : Block Node Item σ ε) : Prop :=
  b.state = .created → b.stateMutex = none → ∀ c, N.Edge n c → c ∈ b.toComplete

/-- No section is one that `p` called. -/
def Dataflow.NoCallee (s : Dataflow Node Item σ ε) (p : Node) : Prop :=
  ∀ c sec, (s.block c).stateMutex ≠ some ⟨.block p, sec⟩

namespace OpenInv

open Dataflow

variable {N : Network Node Item σ ε} {s s' : Dataflow Node Item σ ε} {n : Node}

omit [DecidableEq Node] in
/-- The blocks after one that is past `Start` are past `Start`. -/
theorem opened_of_path (h : OpenInv N s) {c m : Node} (hc : (s.block c).state ≠ .created)
    (hp : Relation.ReflTransGen N.Edge c m) : (s.block m).state ≠ .created := by
  induction hp with
  | refl => exact hc
  | tail _ he ih => exact h.opened _ ih _ he

omit [DecidableEq Node] in
theorem noCallee (h : OpenInv N s)
    (hn : ∀ a, (s.block n).stateMutex = some a → ∀ c o, ¬ a.section_.InCall c o) :
    s.NoCallee n := by
  intro c sec hc
  obtain ⟨a, ha, hin⟩ := h.nested c n sec hc
  exact hn a ha _ _ hin

/-- A block that is in no call changes. It gets a caller that is in a call of it, it has
    started what its loop does not visit any more, and it is past `Start` only after its next
    blocks. -/
theorem set (h : OpenInv N s) {b : Block Node Item σ ε} (hno : s.NoCallee n)
    (hlate : (s.block n).state ≠ .created → b.state ≠ .created)
    (hnested : ∀ p sec, b.stateMutex = some ⟨.block p, sec⟩ →
      p ≠ n ∧ ∃ a, (s.block p).stateMutex = some a ∧ a.section_.InCall n sec.opening)
    (hstarting : ∀ caller calling, b.stateMutex = some ⟨caller, .starting calling⟩ →
      ∀ c, N.Edge n c → c ∈ b.toStart ∨ calling = some c ∨ (s.block c).state ≠ .created)
    (hopened : b.state ≠ .created → (s.block n).state ≠ .created ∨
      ∀ c, N.Edge n c → (s.block c).state ≠ .created) : OpenInv N (s.set n b) := by
  have hmono : ∀ m, (s.block m).state ≠ .created → ((s.set n b).block m).state ≠ .created := by
    intro m hm
    by_cases hmn : m = n
    · subst hmn
      rw [set_block_self]
      exact hlate hm
    · rwa [set_block_of_ne _ _ hmn]
  have hnext : b.state ≠ .created → ∀ c, N.Edge n c → (s.block c).state ≠ .created :=
    fun hb => (hopened hb).elim (h.opened n) id
  refine ⟨fun c p sec hc => ?_, fun m caller calling hm c he => ?_, fun m hm c he => ?_,
    fun m hm hcycle => ?_⟩
  · by_cases hcn : c = n
    · subst hcn
      rw [set_block_self] at hc
      obtain ⟨hpn, a, ha, hin⟩ := hnested p sec hc
      exact ⟨a, by rwa [set_block_of_ne _ _ hpn], hin⟩
    · rw [set_block_of_ne _ _ hcn] at hc
      have hpn : p ≠ n := by
        rintro rfl
        exact hno c sec hc
      obtain ⟨a, ha, hin⟩ := h.nested c p sec hc
      exact ⟨a, by rwa [set_block_of_ne _ _ hpn], hin⟩
  · by_cases hmn : m = n
    · subst hmn
      rw [set_block_self] at hm ⊢
      exact (hstarting caller calling hm c he).imp_right fun hor => hor.imp_right (hmono c)
    · rw [set_block_of_ne _ _ hmn] at hm ⊢
      exact (h.starting m caller calling hm c he).imp_right fun hor => hor.imp_right (hmono c)
  · refine hmono c ?_
    by_cases hmn : m = n
    · subst hmn
      rw [set_block_self] at hm
      exact hnext hm c he
    · rw [set_block_of_ne _ _ hmn] at hm
      exact h.opened m hm c he
  · by_cases hmn : m = n
    · subst hmn
      rw [set_block_self] at hm
      -- the cycle goes on from a next block, which is past `Start`
      obtain ⟨c, he, hpath⟩ := Relation.TransGen.head'_iff.mp hcycle
      exact h.acyclic m (h.opened_of_path (hnext hm c he) hpath) hcycle
    · rw [set_block_of_ne _ _ hmn] at hm
      exact h.acyclic m hm hcycle

/-- The section of a block that is in no call goes on. -/
theorem relock (h : OpenInv N s) {b : Block Node Item σ ε} {a : Activation Node ε}
    (sec : Section Node ε) (ha : (s.block n).stateMutex = some a) (hno : s.NoCallee n)
    (hb : b.stateMutex = some ⟨a.caller, sec⟩) (hsec : sec.opening = a.section_.opening)
    (hlate : (s.block n).state ≠ .created ↔ b.state ≠ .created)
    (hstarting : ∀ calling, sec = .starting calling →
      ∀ c, N.Edge n c → c ∈ b.toStart ∨ calling = some c ∨ (s.block c).state ≠ .created) :
    OpenInv N (s.set n b) := by
  obtain ⟨caller, old⟩ := a
  refine h.set hno hlate.mp (fun p sec' hp => ?_) (fun caller calling hm => ?_)
    fun hlate' => .inl (hlate.mpr hlate')
  · cases hb.symm.trans hp
    refine ⟨?_, ?_⟩
    · rintro rfl
      exact hno p old ha
    · rw [hsec]
      exact h.nested n p old ha
  · cases hb.symm.trans hm
    exact hstarting calling rfl

/-- The section of a block that is in no call ends. -/
theorem unlock (h : OpenInv N s) {b : Block Node Item σ ε} (hno : s.NoCallee n)
    (hb : b.stateMutex = none) (hlate : (s.block n).state ≠ .created → b.state ≠ .created)
    (hopened : b.state ≠ .created → (s.block n).state ≠ .created ∨
      ∀ c, N.Edge n c → (s.block c).state ≠ .created) : OpenInv N (s.set n b) := by
  refine h.set hno hlate ?_ ?_ hopened
  · intro p sec hp
    cases hb.symm.trans hp
  · intro caller calling hm
    cases hb.symm.trans hm

/-- A call that has ended goes back to a caller that is in no other call. -/
theorem reply (h : OpenInv N s) {r : Reply Node ε}
    (hreturned : ∀ p, r = .returned (.block p) → s.NoCallee p ∧
      ∀ caller c, (s.block p).stateMutex = some ⟨caller, .starting (some c)⟩ →
        (s.block c).state ≠ .created)
    (hthrew : ∀ e p, r = .threw e (.block p) → s.NoCallee p) : OpenInv N (s.reply r) := by
  cases r with
  | inside => exact h
  | returned caller =>
    cases caller with
    | user | faultThread => exact h
    | block p =>
      obtain ⟨hno, hcall⟩ := hreturned p rfl
      rcases hm : (s.block p).stateMutex with _ | ⟨caller, sec⟩
      · refine h.unlock hno ?_ id .inl
        rw [hm]
        rfl
      · have hb : ((s.block p).stateMutex.map Activation.resumed) =
            some ⟨caller, (Activation.resumed ⟨caller, sec⟩).section_⟩ := by
          rw [hm]
          cases sec <;> rfl
        refine h.relock _ hm hno hb (by cases sec <;> rfl) Iff.rfl fun calling hsec c he => ?_
        cases sec <;> cases hsec
        rename_i old
        rcases h.starting p caller old hm c he with hto | rfl | hc
        · exact .inl hto
        · exact .inr (.inr (hcall caller c hm))
        · exact .inr (.inr hc)
  | threw e caller =>
    cases caller with
    | user | faultThread => exact ⟨h.nested, h.starting, h.opened, h.acyclic⟩
    | block p =>
      simp only [Dataflow.reply]
      split
      · rename_i caller calling hm
        exact h.relock (.throwing e) hm (hthrew e p rfl) rfl rfl Iff.rfl (by simp)
      · exact ⟨h.nested, h.starting, h.opened, h.acyclic⟩

/-- A block is called by a caller that is in no other call. -/
structure CalledBy (s : Dataflow Node Item σ ε) (c : Node) (caller : Caller Node)
    (opening : Bool) : Prop where
  noCallee : ∀ p, caller = .block p → s.NoCallee p
  inCall : ∀ p, caller = .block p →
    ∃ a, (s.block p).stateMutex = some a ∧ a.section_.InCall c opening

omit [DecidableEq Node] in
theorem CalledBy.ne {c p : Node} {caller : Caller Node} {opening : Bool}
    (hcall : CalledBy s c caller opening) (hfree : (s.block c).stateMutex = none)
    (hp : caller = .block p) : p ≠ c := by
  rintro rfl
  obtain ⟨a, ha, -⟩ := hcall.inCall p hp
  cases hfree.symm.trans ha

/-- A block that is called while its mutex is free stays free. -/
theorem answer (h : OpenInv N s) {c : Node} {caller : Caller Node} {opening : Bool}
    (hcall : CalledBy s c caller opening) (hfree : (s.block c).stateMutex = none)
    {b : Block Node Item σ ε} (hm : b.stateMutex = none) (hst : b.state = (s.block c).state) :
    OpenInv N (s.set c b) ∧ ∀ p, caller = .block p →
      p ≠ c ∧ (s.set c b).NoCallee p ∧ ((s.set c b).block p).stateMutex =
        (s.block p).stateMutex := by
  have hno : s.NoCallee c := h.noCallee fun a ha => by cases hfree.symm.trans ha
  refine ⟨h.unlock hno hm (fun hc => by rwa [hst]) fun hc => .inl (by rwa [← hst]), ?_⟩
  intro p hp
  have hpc := hcall.ne hfree hp
  refine ⟨hpc, fun m sec hsec => ?_, by rw [set_block_of_ne _ _ hpc]⟩
  by_cases hmc : m = c
  · subst hmc
    rw [set_block_self, hm] at hsec
    cases hsec
  · rw [set_block_of_ne _ _ hmc] at hsec
    exact hcall.noCallee p hp m sec hsec

theorem start (h : OpenInv N s) {c : Node} {caller : Caller Node} (hn : (s.block c).Fresh N c)
    (hcall : CalledBy s c caller true) (hs : s.start c caller = some s') : OpenInv N s' := by
  obtain ⟨⟨b, r⟩, hb, rfl⟩ := Option.map_eq_some_iff.mp hs
  unfold Block.start at hb
  split at hb
  · cases hb
  · rename_i hfree
    have hopening : (s.block c).state = .created → ∀ b : Block Node Item σ ε,
        b.state = (s.block c).state → b.toStart = (s.block c).toComplete →
          b.stateMutex = some ⟨caller, .starting none⟩ → OpenInv N (s.set c b) := by
      intro hst b hbst hbto hbm
      refine h.set (h.noCallee fun a ha => by cases hfree.symm.trans ha) (by rw [hbst]; exact id)
        (fun p sec hm => ?_) (fun caller' calling hm d he => ?_) (by rw [hbst]; exact .inl)
      · cases hbm.symm.trans hm
        exact ⟨hcall.ne hfree rfl, hcall.inCall p rfl⟩
      · rw [hbto]
        exact .inl (hn hst hfree d he)
    simp only at hb
    split at hb
    · rename_i hst
      cases hb
      obtain ⟨hset, hp⟩ := h.answer hcall hfree hfree (b := { s.block c with
        startCallsCount := (s.block c).startCallsCount + 1
        startedBy := (s.block c).startedBy ++ [caller] }) rfl
      refine hset.reply (fun p hr => ?_) nofun
      cases hr
      obtain ⟨hpc, hno, hmutex⟩ := hp p rfl
      refine ⟨hno, fun caller' d hm => ?_⟩
      -- the caller is in its call of this block, which is started
      obtain ⟨a, ha, hin⟩ := hcall.inCall p rfl
      cases (hmutex.symm.trans hm).symm.trans ha
      obtain rfl : d = c := hin.1
      rw [set_block_self]
      rintro heq
      cases hst.symm.trans heq
    · rename_i hst _
      cases hb
      exact hopening hst _ rfl rfl rfl
    · rename_i hst _
      cases hb
      exact hopening hst _ rfl rfl rfl
    · cases hb
      obtain ⟨hset, hp⟩ := h.answer hcall hfree hfree (b := { s.block c with
        startCallsCount := (s.block c).startCallsCount + 1
        startedBy := (s.block c).startedBy ++ [caller] }) rfl
      refine hset.reply nofun fun e p hr => ?_
      cases hr
      exact (hp p rfl).2.1

theorem completeCommon (h : OpenInv N s) {c : Node} {caller : Caller Node} {e : Option (Exn ε)}
    (hcall : CalledBy s c caller false) (hs : s.completeCommon c caller e = some s') :
    OpenInv N s' := by
  obtain ⟨⟨b, r⟩, hb, rfl⟩ := Option.map_eq_some_iff.mp hs
  unfold Block.completeCommon at hb
  split at hb
  · cases hb
  · rename_i hfree
    obtain ⟨hset, hp⟩ := h.answer hcall hfree hfree (b := { s.block c with
      startCallsCount := (s.block c).startCallsCount - 1
      completedBy := (s.block c).completedBy ++ [caller] }) rfl
    have hreturned : ∀ p, caller = .block p → s.NoCallee p ∧
        ∀ caller' d, (s.block p).stateMutex ≠ some ⟨caller', .starting (some d)⟩ := by
      intro p hp'
      refine ⟨hcall.noCallee p hp', fun caller' d hm => ?_⟩
      obtain ⟨a, ha, hin⟩ := hcall.inCall p hp'
      cases hm.symm.trans ha
      cases hin.2
    have hback : OpenInv N ((s.set c { s.block c with
        startCallsCount := (s.block c).startCallsCount - 1
        completedBy := (s.block c).completedBy ++ [caller] }).reply (.returned caller)) := by
      refine hset.reply (fun p hr => ?_) nofun
      cases hr
      obtain ⟨hpc, hno, hmutex⟩ := hp p rfl
      exact ⟨hno, fun caller' d hm =>
        absurd (hmutex.symm.trans hm) ((hreturned p rfl).2 caller' d)⟩
    simp only at hb
    split_ifs at hb
    · cases hb
      exact hback
    · split at hb
      · cases hb
        refine hset.reply nofun fun e p hr => ?_
        cases hr
        exact (hp p rfl).2.1
      · cases hb
        exact hback
      · rename_i hst _
        cases hb
        refine h.set (h.noCallee fun a ha => by cases hfree.symm.trans ha) nofun
          (fun p sec hm => ?_) nofun fun _ => .inl hst
        cases hm
        exact ⟨hcall.ne hfree rfl, hcall.inCall p rfl⟩

omit [DecidableEq Node] in
theorem CalledBy.outside {c : Node} {caller : Caller Node} {opening : Bool}
    (hcaller : ∀ p, caller ≠ .block p) : CalledBy s c caller opening :=
  ⟨fun p hp => absurd hp (hcaller p), fun p hp => absurd hp (hcaller p)⟩

/-- The section of a block enters a call of a next block. -/
theorem calledBy_set {b : Block Node Item σ ε} {c : Node} {a : Activation Node ε}
    (hno : s.NoCallee n) (hb : b.stateMutex = some a) (hcaller : a.caller ≠ .block n)
    {opening : Bool} (hin : a.section_.InCall c opening) :
    CalledBy (s.set n b) c (.block n) opening := by
  refine ⟨fun p hp m sec hm => ?_, fun p hp => ?_⟩
  · cases hp
    by_cases hmn : m = n
    · subst hmn
      rw [set_block_self, hb] at hm
      cases hm
      exact hcaller rfl
    · rw [set_block_of_ne _ _ hmn] at hm
      exact hno m sec hm
  · cases hp
    exact ⟨a, by rwa [set_block_self], hin⟩

/-- The section of a block has ended: its caller is in no other call. -/
theorem back (h : OpenInv N s) {b : Block Node Item σ ε} {caller : Caller Node}
    {sec : Section Node ε} (hm : (s.block n).stateMutex = some ⟨caller, sec⟩)
    (hno : s.NoCallee n) (hb : b.stateMutex = none) (hset : OpenInv N (s.set n b)) {p : Node}
    (hp : caller = .block p) :
    (s.set n b).NoCallee p ∧
      ∃ a, ((s.set n b).block p).stateMutex = some a ∧ a.section_.InCall n sec.opening := by
  subst hp
  have hpn : p ≠ n := by
    rintro rfl
    exact hno p sec hm
  obtain ⟨a, ha, hin⟩ := h.nested n p sec hm
  have ha' : ((s.set n b).block p).stateMutex = some a := by rwa [set_block_of_ne _ _ hpn]
  refine ⟨fun c sec' hc => ?_, a, ha', hin⟩
  -- only this block was called by `p`
  obtain ⟨a₂, ha₂, hin₂⟩ := hset.nested c p sec' hc
  cases ha'.symm.trans ha₂
  obtain rfl := hin.unique hin₂
  rw [set_block_self, hb] at hc
  cases hc

/-- The thread that holds `_stateMutex` goes on in the section, or leaves it. -/
theorem advance_reply (h : OpenInv N s) (hsh : ShapeInv (s.block n)) {b : Block Node Item σ ε}
    {r : Reply Node ε} (hb : (s.block n).advance = some (b, .reply r)) :
    OpenInv N ((s.set n b).reply r) := by
  have hno : s.NoCallee n := h.noCallee fun a ha => Block.not_inCall_of_advance hb ha
  have hclosing : ∀ {o : Bool} {a : Activation Node ε} {caller : Caller Node} {c : Node},
      a.section_.InCall n o → o = false → a ≠ ⟨caller, .starting (some c)⟩ := by
    rintro o a caller c hin rfl rfl
    cases hin.2
  cases Block.advance_cases hb with
  | @opened caller hm hto =>
    have hset : OpenInv N (s.set n { s.block n with
        state := .started, startTask := (s.block n).startTask.exec (.setResult () true)
        stateMutex := none }) := by
      refine h.unlock hno rfl (fun _ => nofun) fun _ => .inr fun c he => ?_
      have hc := h.starting n caller none hm c he
      rw [hto] at hc
      simpa using hc
    refine hset.reply (fun p hr => ?_) nofun
    cases hr
    obtain ⟨hno', a, ha, hin⟩ := h.back hm hno rfl hset rfl
    refine ⟨hno', fun caller' d hd => ?_⟩
    cases hd.symm.trans ha
    obtain rfl : d = n := hin.1
    rw [set_block_self]
    nofun
  | @cancel caller e q hm hq => exact h.relock (.canceling e) hm hno rfl rfl Iff.rfl nofun
  | @canceled caller e hm => exact h.relock (.wait e) hm hno rfl rfl Iff.rfl nofun
  | @runCancel caller e q hm hq => exact h.relock (.canceling e) hm hno hm rfl Iff.rfl nofun
  | @waited caller e r hm hr =>
    have hst : (s.block n).state ≠ .created := by
      rw [hsh.section_ _ hm]
      nofun
    cases r with
    | ok u => exact h.relock (.finally e none none) hm hno rfl rfl ⟨nofun, fun _ => hst⟩ nofun
    | error ex =>
      exact h.relock (.finally e none (some ex)) hm hno rfl rfl ⟨nofun, fun _ => hst⟩ nofun
  | @finished caller e hm hto =>
    have hset : OpenInv N (s.set n { s.block n with stateMutex := none }) :=
      h.unlock hno rfl id .inl
    refine hset.reply (fun p hr => ?_) nofun
    cases hr
    obtain ⟨hno', a, ha, hin⟩ := h.back hm hno rfl hset rfl
    exact ⟨hno', fun caller' d hd => absurd (Option.some.inj (ha.symm.trans hd))
      (hclosing hin rfl)⟩
  | @rethrown caller e ex hm hto | @throwing caller ex hm =>
    have hset : OpenInv N (s.set n { s.block n with stateMutex := none }) :=
      h.unlock hno rfl id .inl
    refine hset.reply nofun fun e' p hr => ?_
    cases hr
    exact (h.back hm hno rfl hset rfl).1

/-- The thread that holds `_stateMutex` goes on. -/
theorem advance (h : OpenInv N s) (hsh : ∀ m, ShapeInv (s.block m))
    (hn : ∀ m, (s.block m).Fresh N m) (hs : s.advance n = some s') : OpenInv N s' := by
  unfold Dataflow.advance at hs
  split at hs
  · cases hs
  · cases hs
    exact h.advance_reply (hsh n) ‹_›
  · rename_i b c hb
    have hno : s.NoCallee n := h.noCallee fun a ha => Block.not_inCall_of_advance hb ha
    cases Block.advance_cases hb with
    | @startNext caller _ cs hm hto =>
      have hself : caller ≠ .block n := by
        rintro rfl
        exact hno n _ hm
      have hset : OpenInv N (s.set n { s.block n with
          toStart := cs, stateMutex := some ⟨caller, .starting (some c)⟩ }) := by
        refine h.relock (.starting (some c)) hm hno rfl rfl Iff.rfl fun calling hc d he => ?_
        cases hc
        have hd := h.starting n caller none hm d he
        rw [hto] at hd
        simp only [List.mem_cons] at hd
        rcases hd with (rfl | hd) | hd | hd
        · exact .inr (.inl rfl)
        · exact .inl hd
        · cases hd
        · exact .inr (.inr hd)
      refine hset.start ?_
        (calledBy_set (a := ⟨caller, .starting (some c)⟩) hno rfl hself ⟨rfl, rfl⟩) hs
      exact forall_set (P := fun m b => b.Fresh N m) hn (fun _ hfree => by cases hfree) c
  · rename_i b c e hb
    have hno : s.NoCallee n := h.noCallee fun a ha => Block.not_inCall_of_advance hb ha
    cases Block.advance_cases hb with
    | @completeNext caller _ pending _ cs hm hto =>
      have hself : caller ≠ .block n := by
        rintro rfl
        exact hno n _ hm
      have hset : OpenInv N (s.set n { s.block n with
          toComplete := cs, stateMutex := some ⟨caller, .finally e (some c) pending⟩ }) :=
        h.relock (.finally e (some c) pending) hm hno rfl rfl Iff.rfl nofun
      exact hset.completeCommon
        (calledBy_set (a := ⟨caller, .finally e (some c) pending⟩) hno rfl hself ⟨rfl, rfl⟩) hs

omit [DecidableEq Node] in
/-- Nothing happens to the critical sections. -/
theorem congr (h : OpenInv N s) (hcalls : ∀ m, (s'.block m).calls = (s.block m).calls) :
    OpenInv N s' := by
  simp only [Block.calls, Prod.mk.injEq] at hcalls
  have hst := fun m => (hcalls m).1
  have hm := fun m => (hcalls m).2.1
  have hto := fun m => (hcalls m).2.2.1
  refine ⟨?_, ?_, ?_, ?_⟩
  · simp only [hm]
    exact h.nested
  · simp only [hm, hto, hst]
    exact h.starting
  · simp only [hst]
    exact h.opened
  · simp only [hst]
    exact h.acyclic

theorem step {N' : Network Node Item σ ε} (h : OpenInv N s) (hsh : ∀ m, ShapeInv (s.block m))
    (hn : ∀ m, (s.block m).Fresh N m) {a : DataflowLabel Node Item ε}
    (hs : s.step N' a = some s') : OpenInv N s' := by
  have hquiet := fun ha => h.congr (step_calls hs ha)
  unfold Dataflow.step at hs
  split_ifs at hs
  cases a with
  | start n => exact h.start (hn n) (.outside (by nofun)) hs
  | complete n | setFaulted n e => exact h.completeCommon (.outside (by nofun)) hs
  | advance n => exact h.advance hsh hn hs
  | process n | runCall k | acceptInputAsync n item => exact hquiet rfl
  | runFaultThread n =>
    simp only at hs
    split at hs
    · cases hs
    · have hset : OpenInv N (s.set n { s.block n with faultThread := none }) :=
        h.congr (forall_set (P := fun m b => b.calls = (s.block m).calls) (fun _ => rfl) rfl)
      exact hset.completeCommon (.outside (by nofun)) hs

omit [DecidableEq Node] in
/-- Other connections of blocks that are not started and in no call of `Start`. -/
theorem reconnect {N' : Network Node Item σ ε} (h : OpenInv N s)
    (hedge : ∀ n m, N'.Edge n m → N.Edge n m ∨
      (s.block n).state = .created ∧ (s.block n).stateMutex = none) : OpenInv N' s := by
  have hlate : ∀ n m, (s.block n).state ≠ .created → N'.Edge n m → N.Edge n m :=
    fun n m hn he => (hedge n m he).resolve_right fun hc => hn hc.1
  refine ⟨h.nested, fun n caller calling hm c he => ?_, fun n hn c he => ?_, fun n hn hcycle => ?_⟩
  · refine h.starting n caller calling hm c ((hedge n c he).resolve_right fun hc => ?_)
    cases hm.symm.trans hc.2
  · exact h.opened n hn c (hlate n c hn he)
  · -- the chain stays among blocks that are past `Start`
    have hpath : ∀ m, Relation.TransGen N'.Edge n m →
        Relation.TransGen N.Edge n m ∧ (s.block m).state ≠ .created := by
      intro m hnm
      induction hnm with
      | single he => exact ⟨.single (hlate n _ hn he), h.opened n hn _ (hlate n _ hn he)⟩
      | tail _ he ih =>
        exact ⟨ih.1.tail (hlate _ _ ih.2 he), h.opened _ ih.2 _ (hlate _ _ ih.2 he)⟩
    exact h.acyclic n hn (hpath n hcycle).1

end OpenInv

end AsyncCpp.DataFlow
