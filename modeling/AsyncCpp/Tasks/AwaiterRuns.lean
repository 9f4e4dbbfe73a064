import AsyncCpp.Lib.Simulation
import AsyncCpp.Tasks.TaskAwaiter

/-!
# Runs of `co_await`

Every step of a `co_await` keeps the invariant of `TaskAwaiter`. Where nobody can go on, the item
of each continuation task has been enqueued and has run: no wake-up is lost between the two
questions of the awaiter and `AddContinuation`, and none is lost after it.

Results:
* `awaits_resumed`: where the scheduler throws nothing, every coroutine that suspended is resumed
  at most once, only after the task is completed and by the context it captured; `await_resume`
  does not wait and yields the outcome of the task; and where the task is completed and nobody can
  go on, no coroutine is left suspended.
-/

namespace AsyncCpp.Tasks

open Interleaving

variable {α ε T A C : Type*} {β : ℕ → Type*} {kind : TaskKind} {returnsResult : Bool} [Fintype T]

namespace AwaitInv

variable [Fintype A] [DecidableEq T] [DecidableEq A] {s s' : AwaitSystem α β ε T A C}

/-! ## A step of a `co_await` -/

omit [Fintype T] [Fintype A] [DecidableEq T] [DecidableEq A] in
theorem completed_of_asksCompleted {settings : GlobalTaskSettings}
    (hs : s.asksCompleted settings = some true) :
    s.tasks.antecedent.task.state.isCompleted := by
  unfold AwaitSystem.asksCompleted at hs
  split at hs
  · cases hs
  split at hs
  · exact Option.some.inj hs
  · cases hs

/-- `await_ready` or `await_suspend` asks whether the task is completed. -/
theorem asks_step (h : AwaitInv kind returnsResult s) {a : A} {p : AwaitPc α ε C}
    {settings : GlobalTaskSettings} {completed : Bool}
    (hs : s.asksCompleted settings = some completed)
    (ha : (∃ b, s.pc a = .suspend b) ∨ s.pc a = .before)
    (hp : (∃ b, p = .suspend b) ∨ ∃ b, p = .capture b) :
    AwaitInv kind returnsResult (s.goto a (if completed then .resumed else p)) := by
  have hplace : s.tasks.antecedent.pc (.awaitSuspend a) = .idle ∧
      s.tasks.antecedent.pc (.awaitResume a) = .idle := by
    have := h.place a
    obtain ⟨b, hpc⟩ | hpc := ha <;> rw [hpc] at this <;> exact this
  have hout : (s.pc a).waitsFor = none ∧ (s.pc a).isPast = false := by
    obtain ⟨b, hpc⟩ | hpc := ha <;> rw [hpc] <;> exact ⟨rfl, rfl⟩
  refine h.goto h.tasks rfl le_rfl (fun b _ => h.place b) ?_ ?_ ?_ ?_
  · cases completed with
    | true => exact ⟨hplace.2, completed_of_asksCompleted hs⟩
    | false => obtain ⟨b, rfl⟩ | ⟨b, rfl⟩ := hp <;> exact hplace
  · rw [hout.1]
    obtain ⟨b, rfl⟩ | ⟨b, rfl⟩ := hp <;> cases completed <;> rfl
  · intro hpast
    rw [hout.2] at hpast
    cases hpast
  · obtain ⟨b, rfl⟩ | ⟨b, rfl⟩ := hp <;> cases completed <;> nofun

omit [Fintype T] [Fintype A] in
/-- A call of a `co_await` on the task. -/
theorem call_cases {l : TaskLabel α ε (AwaitThread T A)}
    {tasks : ContinuationRun α β ε (AwaitThread T A)}
    (hs : s.tasks.step kind (.antecedent l) = some tasks) :
    TaskSystem.step kind s.tasks.antecedent l = some tasks.antecedent ∧
      tasks.continuation = s.tasks.continuation := by
  simp only [ContinuationRun.step] at hs
  split at hs
  case isFalse => cases hs
  obtain ⟨a, ha, rfl⟩ := Option.map_eq_some_iff.mp hs
  exact ⟨ha, rfl⟩

/-- The other coroutines, where `a` makes a call on the task. -/
theorem place_call (h : AwaitInv kind returnsResult s) {a : A}
    {l : TaskLabel α ε (AwaitThread T A)} {t : TaskSystem α ε (AwaitThread T A)}
    (hl : l.thread = some (.awaitSuspend a) ∨ l.thread = some (.awaitResume a))
    (hg : StartGuard s.tasks.antecedent l)
    (hs : TaskSystem.step kind s.tasks.antecedent l = some t) (b : A) (hb : b ≠ a) :
    (s.pc b).Ok returnsResult t b := by
  have hframe := (step_frame hs).2.1
  have hi := reachable_continuationInv h.tasks
  refine (h.place b).congr (fun hidle => ?_) (hframe _ ?_)
    ((reachable_inv hi.antecedent).frozen hg hs)
  · have hpc := hframe (.awaitSuspend b) (by obtain hl | hl := hl <;> rw [hl] <;> simp [hb.symm])
    rw [hidle] at hpc
    exact hpc.elim id id
  · obtain hl | hl := hl <;> rw [hl] <;> simp [hb.symm]

/-- `await_suspend` calls `ContinueWith`. -/
theorem continueWith_step (h : AwaitInv kind returnsResult s) {a : A} {b : Bool}
    {syncContext : Option C} {tasks : ContinuationRun α β ε (AwaitThread T A)}
    (ha : s.pc a = .capture b)
    (hs : s.tasks.step kind (.antecedent (.addContinuation (.awaitSuspend a))) = some tasks) :
    AwaitInv kind returnsResult
      { s.goto a (.suspended s.tasks.antecedent.added) with
        tasks := tasks
        continuation := Function.update s.continuation s.tasks.antecedent.added
          (some ⟨a, syncContext⟩) } := by
  have hi := reachable_continuationInv h.tasks
  obtain ⟨hcall, hcont⟩ := call_cases hs
  have hadded := addContinuation_added hcall
  have hg : StartedInOrder s.tasks (.antecedent (.addContinuation (.awaitSuspend a))) :=
    fun _ hu => by cases hu
  have hplace := h.place a
  rw [ha] at hplace
  have hnone : s.continuation s.tasks.antecedent.added = none := by
    by_contra hne
    obtain ⟨c, hc⟩ := Option.ne_none_iff_exists'.mp hne
    exact absurd (h.waits _ c hc).1 (lt_irrefl _)
  have hfresh : s.Untouched s.tasks.antecedent.added := by
    have hzero : s.tasks.antecedent.timesInvoked s.tasks.antecedent.added = 0 := by
      by_contra hne
      exact absurd ((timesInvoked_le_one hi.antecedent _).2 hne) (lt_irrefl _)
    have hruns := ((hi.task s.tasks.antecedent.added).before hzero).2.1
    refine ⟨List.eq_nil_of_length_eq_zero ?_, fun u => ?_⟩
    · unfold TaskSystem.runs at hruns
      omega
    · by_contra hu
      exact (h.calls _ u (by simpa using hu)).1 hnone
  have hold : ∀ k, k ≠ s.tasks.antecedent.added → ∀ x, Function.update s.continuation
      s.tasks.antecedent.added (some ⟨a, syncContext⟩) k = x ↔ s.continuation k = x := by
    intro k hk x
    rw [Function.update_of_ne hk]
  refine ⟨h.tasks.step hg hs, ?_, fun k hk => ?_, fun k c hc => ?_, fun d k hd => ?_,
    fun k u hu => ?_, fun d c hd => ?_, h.once, fun r hr => ?_⟩
  · refine (Function.forall_update_iff s.pc fun d p =>
      p.Ok returnsResult tasks.antecedent d).mpr ⟨?_, fun d hd => ?_⟩
    · have hpc := (step_frame hcall).2.1 (.awaitResume a) (by simp [TaskLabel.thread])
      rw [hplace.2] at hpc
      exact hpc.elim id id
    · exact h.place_call (.inl rfl) hg hcall d hd
  · simp only [hcont]
    refine h.dropped k fun hk0 => ?_
    by_cases hka : k = s.tasks.antecedent.added
    · omega
    · have hle : tasks.antecedent.added ≤ k := hk ((hold k hka none).mpr hk0)
      omega
  · simp only [AwaitSystem.goto, AwaitSystem.Untouched, hcont]
    by_cases hka : k = s.tasks.antecedent.added
    · subst hka
      simp only [Function.update_self] at hc
      cases hc
      rw [Function.update_self]
      exact ⟨by omega, iff_of_true rfl hfresh⟩
    · obtain ⟨hlt, hiff⟩ := h.waits k c ((hold k hka _).mp hc)
      refine ⟨by omega, ?_⟩
      by_cases hca : c.continuation = a
      · -- an earlier `co_await` of the coroutine is over
        rw [hca, ha] at hiff
        rw [hca, Function.update_self]
        exact iff_of_false (fun heq => hka (Option.some.inj heq).symm)
          fun hu => absurd (hiff.mpr hu) (by simp [AwaitPc.waitsFor])
      · rw [Function.update_of_ne hca]
        exact hiff
  · simp only [AwaitSystem.goto] at hd
    by_cases hda : d = a
    · subst hda
      rw [Function.update_self] at hd
      cases hd
      exact ⟨_, Function.update_self .., rfl⟩
    · rw [Function.update_of_ne hda] at hd
      obtain ⟨c, hc, hcd⟩ := h.owner d k hd
      exact ⟨c, (hold k (fun heq => by rw [heq, hnone] at hc; cases hc) _).mpr hc, hcd⟩
  · simp only [hcont]
    obtain ⟨hne, hpc⟩ := h.calls k u hu
    exact ⟨mt (hold k (fun heq => hne (heq ▸ hnone)) _).mp hne, hpc⟩
  · simp only [AwaitSystem.goto] at hd
    by_cases hda : d = a
    · subst hda
      rw [Function.update_self] at hd
      cases hd
    · rw [Function.update_of_ne hda] at hd
      obtain ⟨k, hk⟩ := h.posted d c hd
      exact ⟨k, (hold k (fun heq => by rw [heq, hnone] at hk; cases hk) _).mpr hk⟩
  · obtain ⟨hc, hp, k, hk⟩ := h.logged r hr
    refine ⟨hc, ?_, k, (hold k (fun heq => by rw [heq, hnone] at hk; cases hk) _).mpr hk⟩
    have hra := h.not_logged (a := a) (by rw [ha]; rfl) r hr
    simp only [AwaitSystem.goto, Function.update_of_ne hra]
    exact hp

/-- The function of continuation task `k`, called by thread `u`, takes the coroutine out of its
    suspension: nobody has done so before. -/
theorem handOver (h : AwaitInv kind returnsResult s) {k : ℕ} {u : AwaitThread T A}
    {c : AwaitContinuation A C} {p : AwaitPc α ε C} (hc : s.continuation k = some c)
    (hu : (s.tasks.continuation k).pc (some u) = .bodyCall) (hnot : s.invoked k u = false)
    (hp : p = .resumed ∨ ∃ x, c.syncContext = some x ∧ p = .posted x) :
    s.pc c.continuation = .suspended k ∧ s.tasks.antecedent.task.state.isCompleted ∧
    AwaitInv kind returnsResult { s.goto c.continuation p with
      invoked := Function.update s.invoked k (Function.update (s.invoked k) u true) } := by
  have hi := reachable_continuationInv h.tasks
  have hne : s.continuation k ≠ none := by rw [hc]; simp
  have huntouched : s.Untouched k := by
    refine ⟨((h.dropped k fun hnone => absurd hnone hne).func_eq_none (hi.task k) hu).1,
      fun v => ?_⟩
    by_contra hv
    have hpc := (h.calls k v (by simpa using hv)).2
    cases eq_of_bodyCall (hi.task k).ok hu hpc
    exact hv hnot
  have hwaits := (h.waits k c hc).2.mpr huntouched
  have hpc : s.pc c.continuation = .suspended k := by
    cases hpc : s.pc c.continuation <;> rw [hpc] at hwaits <;> cases hwaits
    rfl
  have hcompleted := completed_of_bodyCall hi hu
  have hplace := h.place c.continuation
  rw [hpc] at hplace
  have hpnone : p.waitsFor = none := by
    obtain rfl | ⟨x, -, rfl⟩ := hp <;> rfl
  refine ⟨hpc, hcompleted, h.tasks, ?_, h.dropped, fun j d hd => ?_, fun a j ha => ?_,
    fun j v hv => ?_, fun a x ha => ?_, h.once, fun r hr => ?_⟩
  · refine (Function.forall_update_iff s.pc fun b p =>
      p.Ok returnsResult s.tasks.antecedent b).mpr ⟨?_, fun b _ => h.place b⟩
    obtain rfl | ⟨x, -, rfl⟩ := hp <;> exact ⟨hplace, hcompleted⟩
  · obtain ⟨hlt, hiff⟩ := h.waits j d hd
    refine ⟨hlt, ?_⟩
    simp only [AwaitSystem.goto, AwaitSystem.Untouched]
    by_cases hjk : j = k
    · subst hjk
      cases hc.symm.trans hd
      rw [Function.update_self, Function.update_self, hpnone]
      refine iff_of_false (by simp) fun hall => ?_
      have := hall.2 u
      rw [Function.update_self] at this
      cases this
    · rw [Function.update_of_ne hjk]
      by_cases hdc : d.continuation = c.continuation
      · rw [hdc, hpc] at hiff
        rw [hdc, Function.update_self, hpnone]
        exact iff_of_false (by simp) fun hall => hjk (Option.some.inj (hiff.mpr hall)).symm
      · rw [Function.update_of_ne hdc]
        exact hiff
  · simp only [AwaitSystem.goto] at ha
    by_cases hac : a = c.continuation
    · subst hac
      rw [Function.update_self, hpnone] at ha
      cases ha
    · rw [Function.update_of_ne hac] at ha
      exact h.owner a j ha
  · have hv : Function.update s.invoked k (Function.update (s.invoked k) u true) j v = true := hv
    by_cases hjk : j = k
    · subst hjk
      rw [Function.update_self] at hv
      by_cases hvu : v = u
      · subst hvu
        exact ⟨hne, hu⟩
      · rw [Function.update_of_ne hvu] at hv
        exact h.calls j v hv
    · rw [Function.update_of_ne hjk] at hv
      exact h.calls j v hv
  · simp only [AwaitSystem.goto] at ha
    by_cases hac : a = c.continuation
    · subst hac
      rw [Function.update_self] at ha
      obtain rfl | ⟨y, hy, rfl⟩ := hp <;> cases ha
      refine ⟨k, hc.trans ?_⟩
      rw [← hy]
    · rw [Function.update_of_ne hac] at ha
      exact h.posted a x ha
  · obtain ⟨hst, hpast, hk⟩ := h.logged r hr
    refine ⟨hst, ?_, hk⟩
    have hra := h.not_logged (a := c.continuation) (by rw [hpc]; rfl) r hr
    simp only [AwaitSystem.goto, Function.update_of_ne hra]
    exact hpast

theorem invoke_step (h : AwaitInv kind returnsResult s) {k : ℕ} {u : AwaitThread T A}
    (hs : s.step kind returnsResult (.invoke k u) = some s') :
    AwaitInv kind returnsResult s' := by
  cases AwaitSystem.step_cases hs with
  | @invoke _ _ c hc hu hf hnot =>
    unfold AwaitSystem.runContinuation
    split
    · rename_i hctx
      obtain ⟨hpc, hcompleted, hinv⟩ := h.handOver (p := .resumed) hc hu hnot (.inl rfl)
      have hnew := h.not_logged (a := c.continuation) (by rw [hpc]; rfl)
      simp only [AwaitSystem.resumeHandle, hpc]
      refine hinv.log hnew hcompleted ?_ ⟨k, by rw [← hctx]; exact hc⟩
      simp only [AwaitSystem.goto, Function.update_self]
      rfl
    · rename_i x hctx
      obtain ⟨hpc, -, hinv⟩ := h.handOver (p := .posted x) hc hu hnot (.inr ⟨x, hctx, rfl⟩)
      rw [hpc]
      exact hinv

theorem runPosted_step (h : AwaitInv kind returnsResult s) {a : A}
    (hs : s.step kind returnsResult (.runPosted a) = some s') :
    AwaitInv kind returnsResult s' := by
  cases AwaitSystem.step_cases hs with
  | @runPosted _ x ha =>
    have hplace := h.place a
    rw [ha] at hplace
    have hinv := h.goto (a := a) (p := .resumed) h.tasks rfl le_rfl (fun b _ => h.place b) hplace
      (by rw [ha]; rfl) (by simp [ha, AwaitPc.isPast]) nofun
    have hnew := h.not_logged (a := a) (by rw [ha]; rfl)
    simp only [AwaitSystem.resumeHandle, ha]
    refine hinv.log hnew hplace.2 ?_ (h.posted a x ha)
    simp only [AwaitSystem.goto, Function.update_self]
    rfl

theorem awaitResume_step (h : AwaitInv kind returnsResult s) {a : A}
    (hs : s.step kind returnsResult (.awaitResume a) = some s') :
    AwaitInv kind returnsResult s' := by
  cases AwaitSystem.step_cases hs with
  | @awaitResume _ tasks ha htasks =>
    obtain ⟨hcall, hcont⟩ := call_cases htasks
    have hg : StartedInOrder s.tasks (.antecedent (.wait (.awaitResume a) returnsResult)) :=
      fun _ hu => by cases hu
    have hplace := h.place a
    rw [ha] at hplace
    have hread : tasks.antecedent.pc (.awaitResume a) = .waitRead returnsResult ∧
        tasks.antecedent.task = s.tasks.antecedent.task := wait_step hcall
    refine h.goto (h.tasks.step hg htasks) hcont (step_added hcall).1
      (h.place_call (.inr rfl) hg hcall) ⟨?_, .inl hread.1⟩ (by rw [ha]; rfl) (fun _ => rfl) nofun
    rw [hread.2]
    exact hplace.2

theorem resume_step (h : AwaitInv kind returnsResult s) {a : A}
    (hs : s.step kind returnsResult (.resume a) = some s') :
    AwaitInv kind returnsResult s' := by
  cases AwaitSystem.step_cases hs with
  | @resume _ tasks ha htasks =>
    obtain ⟨hcall, hcont⟩ := call_cases htasks
    have hi := reachable_continuationInv h.tasks
    have hplace := h.place a
    rw [ha] at hplace
    obtain ⟨hcompleted, hpc⟩ := hplace
    have hg : StartedInOrder s.tasks (.antecedent (.run (.awaitResume a))) := by
      intro u hu hu'
      cases hu
      obtain hpc | ⟨-, hpc⟩ := hpc <;> rw [hpc] at hu' <;> cases hu'
    obtain ⟨htask, hcase⟩ := run_awaitOutcome (reachable_inv hi.antecedent) hcompleted hpc hcall
    have hcompleted' : tasks.antecedent.task.state.isCompleted := by
      rw [htask]
      exact hcompleted
    have hafter : AwaitSystem.afterResume (C := C) tasks.antecedent a = .resuming ∧
          returnsResult = true ∧ tasks.antecedent.pc (.awaitResume a) = .resultCall ∨
        AwaitSystem.afterResume (C := C) tasks.antecedent a =
            .finished (awaitOutcome returnsResult tasks.antecedent.task) ∧
          tasks.antecedent.pc (.awaitResume a) = .idle := by
      unfold AwaitSystem.afterResume
      obtain ⟨hr, hcall⟩ | ⟨hidle, hlast⟩ := hcase
      · exact .inl ⟨by rw [hcall]; rfl, hr, hcall⟩
      · exact .inr ⟨by rw [if_pos hidle, hlast, htask], hidle⟩
    refine h.goto (h.tasks.step hg htasks) hcont (step_added hcall).1
      (h.place_call (.inr rfl) hg hcall) ?_ ?_ ?_ ?_ <;>
      obtain ⟨hp, hr⟩ | ⟨hp, hidle⟩ := hafter <;> rw [hp]
    · exact ⟨hcompleted', .inr hr⟩
    · exact ⟨hidle, hcompleted', rfl⟩
    · rw [ha]
    · rw [ha]
      rfl
    · exact fun _ => rfl
    · exact fun _ => rfl
    · exact nofun
    · exact nofun

theorem step (h : AwaitInv kind returnsResult s) {l : AwaitLabel α β ε T A C}
    (hg : AwaitGuard s l) (hs : s.step kind returnsResult l = some s') :
    AwaitInv kind returnsResult s' := by
  cases AwaitSystem.step_cases hs with
  | task hp htasks => exact h.task_step hp hg htasks
  | @awaitReady a settings b completed ha hc => exact h.asks_step hc (.inr ha) (.inl ⟨b, rfl⟩)
  | @awaitSuspend a settings b completed ha hc =>
    exact h.asks_step hc (.inl ⟨b, ha⟩) (.inr ⟨b, rfl⟩)
  | continueWith ha htasks => exact h.continueWith_step ha htasks
  | invoke => exact h.invoke_step hs
  | runPosted => exact h.runPosted_step hs
  | awaitResume => exact h.awaitResume_step hs
  | resume => exact h.resume_step hs

end AwaitInv

theorem reachable_awaitInv [Fintype A] [DecidableEq T] [DecidableEq A]
    {s : AwaitSystem α β ε T A C}
    (h : (awaitMachine kind returnsResult α β ε T A C).Reachable AwaitGuard s) :
    AwaitInv kind returnsResult s :=
  h.invariant .init fun _ _ _ hi hg hs => hi.step hg hs

/-! ## Where nobody can go on -/

/-- The steps that begin no call of their own: an item of the scheduler starts, its thread goes
    on, a posted handle is invoked, a `co_await` goes on. -/
def AwaitLabel.isOwn : AwaitLabel α β ε T A C → Bool
  | .task (.antecedent (.run _)) | .task (.invoke _) | .task (.starting _)
  | .task (.continuation _ (.run _)) | .task (.continuation _ (.body _)) => true
  | .task _ | .awaitReady .. => false
  | _ => true

/-- No step that begins no call of its own is possible. -/
abbrev AwaitSystem.Rests [DecidableEq T] [DecidableEq A] (kind : TaskKind) (returnsResult : Bool)
    (s : AwaitSystem α β ε T A C) : Prop :=
  (awaitMachine kind returnsResult α β ε T A C).AtRest (fun l => l.isOwn) s

namespace AwaitInv

variable [Fintype A] [DecidableEq T] [DecidableEq A] {s : AwaitSystem α β ε T A C}

omit [Fintype T] [Fintype A] in
theorem task_of_rests (hrest : s.Rests kind returnsResult)
    {l : ContinuationLabel α β ε (AwaitThread T A)} (hl : (AwaitLabel.task (C := C) l).isOwn)
    (hp : s.permits l) : s.tasks.step kind l = none := by
  have hnone := hrest _ hl
  simpa only [awaitMachine, AwaitSystem.step, hp, if_true, Option.map_eq_none_iff] using hnone

theorem stuck_of_rests (h : AwaitInv kind returnsResult s) (hrest : s.Rests kind returnsResult) :
    Stuck kind s.tasks := by
  refine ⟨fun t => ⟨?_, task_of_rests hrest rfl rfl, task_of_rests hrest rfl rfl⟩, fun k u => ?_⟩
  · cases t with
    | thread t => exact task_of_rests hrest rfl rfl
    | awaitSuspend a => exact task_of_rests hrest rfl rfl
    | awaitResume a =>
      have hplace := h.place a
      cases hpc : s.pc a with
      | resuming =>
        have hnone := hrest (.resume a) rfl
        simpa only [awaitMachine, AwaitSystem.step, hpc, Option.map_eq_none_iff] using hnone
      | undefined =>
        rw [hpc] at hplace
        cases hplace
      | _ =>
        -- no call of `await_resume` goes on
        have hidle : s.tasks.antecedent.pc (.awaitResume a) = .idle := by
          rw [hpc] at hplace
          first
            | exact hplace.2
            | exact hplace.1
            | exact hplace
        simp [ContinuationRun.step, TaskSystem.step, TaskSystem.runStep, hidle]
  · refine task_of_rests hrest rfl ?_
    simp [AwaitSystem.permits, TaskLabel.ofItem]

/-- Where nobody can go on and the task is completed, no coroutine waits for its continuation:
    the item of the continuation task has been enqueued and has run. -/
theorem ne_suspended_of_rests (h : AwaitInv kind returnsResult s)
    (hc : s.tasks.antecedent.task.state.isCompleted) (hrest : s.Rests kind returnsResult) (a : A)
    (k : ℕ) : s.pc a ≠ .suspended k := by
  intro hpc
  have hi := reachable_continuationInv h.tasks
  have hstuck := h.stuck_of_rests hrest
  obtain ⟨c, hk, rfl⟩ := h.owner a k (by rw [hpc]; rfl)
  have hne : s.continuation k ≠ none := by rw [hk]; simp
  obtain ⟨hlt, hiff⟩ := h.waits k c hk
  have huntouched := hiff.mp (by rw [hpc]; rfl)
  have hdrop := h.dropped k fun hnone => absurd hnone hne
  have hidle : (s.tasks.continuation k).pc none = .idle := by
    by_contra hbusy
    obtain ⟨t, ht⟩ := (hi.busy k).mp hbusy
    rw [hi.starting_of_stuck hstuck t] at ht
    cases ht
  have hcreated : (s.tasks.continuation k).task.state ≠ .created := by
    have hone := (reachable_continuationsOk hi.antecedent).invoked_of_stuck hc
      (hi.runStep_of_stuck hstuck) hlt
    refine ((hi.task k).after (by omega)).resolve_right ?_
    rw [StartSection, hidle]
    simp
  have hrun : ∀ u, (s.tasks.continuation k).runStep u = none := by
    intro u
    cases u with
    | none => simp only [TaskSystem.runStep, hidle]
    | some u =>
      have hnone := hstuck.2 k u
      simp only [ContinuationRun.step, hi.noThrow.2, hlt, and_self, if_true,
        Option.map_eq_none_iff] at hnone
      exact hnone
  have hlock : (s.tasks.continuation k).lockObject = none := by
    by_contra hl
    obtain ⟨u, hu⟩ := (hi.task k).ok.exists_run_of_locked hl
    exact hu (hrun u)
  have hall : ∀ u, (s.tasks.continuation k).pc u = .idle := by
    intro u
    cases u with
    | none => exact hidle
    | some u =>
      have hin := hdrop.places u
      have hnone := hrun (some u)
      cases hpcu : (s.tasks.continuation k).pc (some u) <;> rw [hpcu] at hin <;>
        simp [TaskSystem.runStep, hpcu, hlock, Pc.inItem] at hin hnone ⊢
      case bodyBegin => split at hnone <;> cases hnone
      case bodyCall =>
        -- the function is called and has not invoked or posted the handle
        have hinvoke := hrest (.invoke k u) rfl
        simp [awaitMachine, AwaitSystem.step, hk, hpcu, huntouched.2 u,
          (hdrop.func_eq_none (hi.task k) hpcu).2] at hinvoke
      case continuing ks => cases ks <;> simp at hnone
  have hqueued : 0 < (s.tasks.continuation k).queued := by
    have hsched := hdrop.scheduled
    have htally : tally Pc.runs (s.tasks.continuation k).pc = 0 :=
      tally_eq_zero fun u => by rw [hall u]; rfl
    rw [unscheduled_eq_zero.mpr hcreated] at hsched
    simp only [TaskSystem.runs, htally, huntouched.1, List.length_nil] at hsched
    omega
  have hbody : s.tasks.step kind (.continuation k (.body (.awaitSuspend c.continuation))) = none :=
    task_of_rests hrest rfl (by simp [AwaitSystem.permits, TaskLabel.ofItem])
  simp [ContinuationRun.step, TaskSystem.step, TaskLabel.map, hi.noThrow.2, hlt, hall,
    hqueued] at hbody

/-- `await_resume` does not wait. -/
theorem resuming_runs (h : AwaitInv kind returnsResult s) {a : A} (ha : s.pc a = .resuming) :
    s.tasks.antecedent.runStep (.awaitResume a) ≠ none := by
  have hi := reachable_inv (reachable_continuationInv h.tasks).antecedent
  have hplace := h.place a
  rw [ha] at hplace
  obtain ⟨-, hpc | ⟨-, hpc⟩⟩ := hplace
  · exact runStep_of_holdsLock (by rw [hpc]; rfl)
  · have hok := hi.pc (.awaitResume a)
    rw [hpc] at hok
    obtain ⟨v, hv⟩ := Option.isSome_iff_exists.mp (hi.stored.state hok)
    simp [TaskSystem.runStep, hpc, hv]

/-- Where nobody can go on and the task is completed, no `co_await` is on its way. -/
theorem finished_of_rests (h : AwaitInv kind returnsResult s)
    (hc : s.tasks.antecedent.task.state.isCompleted) (hrest : s.Rests kind returnsResult) (a : A) :
    s.pc a = .before ∨ ∃ outcome, s.pc a = .finished outcome := by
  have hi := reachable_continuationInv h.tasks
  have hstuck := h.stuck_of_rests hrest
  have hlock := lock_free_of_stuck (reachable_continuationsOk hi.antecedent)
    (hi.runStep_of_stuck hstuck)
  have hplace := h.place a
  cases hpc : s.pc a with
  | before => exact .inl rfl
  | finished outcome => exact .inr ⟨outcome, rfl⟩
  | suspended k => exact absurd hpc (h.ne_suspended_of_rests hc hrest a k)
  | suspend b =>
    have hnone := hrest (.awaitSuspend a {}) rfl
    simp [awaitMachine, AwaitSystem.step, AwaitSystem.asksCompleted, hpc, hlock] at hnone
  | capture b =>
    rw [hpc] at hplace
    have hnone := hrest (.continueWith a {} none) rfl
    simp [awaitMachine, AwaitSystem.step, ContinuationRun.step, TaskSystem.step, TaskLabel.thread,
      TaskSystem.invokes, hpc, hlock, hi.noThrow.2, hi.starting_of_stuck hstuck, hplace.1] at hnone
  | posted x =>
    have hnone := hrest (.runPosted a) rfl
    simp [awaitMachine, AwaitSystem.step, hpc] at hnone
  | resumed =>
    rw [hpc] at hplace
    have hnone := hrest (.awaitResume a) rfl
    simp [awaitMachine, AwaitSystem.step, ContinuationRun.step, TaskSystem.step, TaskLabel.thread,
      TaskSystem.invokes, hpc, hlock, hi.noThrow.2, hi.starting_of_stuck hstuck, hplace.1] at hnone
  | resuming => exact absurd (hi.runStep_of_stuck hstuck _) (h.resuming_runs hpc)
  | undefined =>
    rw [hpc] at hplace
    cases hplace

end AwaitInv

/-- What holds of the `co_await` expressions of a task. -/
structure AwaitsHold [Fintype A] [DecidableEq T] [DecidableEq A] (kind : TaskKind)
    (returnsResult : Bool) (s : AwaitSystem α β ε T A C) : Prop where
  /-- No handle is invoked twice, and none is invoked or posted while its coroutine is not
      suspended. -/
  once : (s.resumptions.map Prod.fst).Nodup
  waiting : ∀ a, s.pc a ≠ .undefined
  /-- The handle is invoked when the task is completed: by the function of a continuation task,
      or by the context this function posts to. -/
  resumed : ∀ a syncContext st, (a, syncContext, st) ∈ s.resumptions →
    st.isCompleted ∧ ∃ k, s.continuation k = some ⟨a, syncContext⟩
  /-- `await_resume` does not wait. -/
  resuming : ∀ a, s.pc a = .resuming → s.tasks.antecedent.runStep (.awaitResume a) ≠ none
  outcome : ∀ a outcome, s.pc a = .finished outcome → s.tasks.antecedent.task.state.isCompleted ∧
    outcome = awaitOutcome returnsResult s.tasks.antecedent.task
  noThrow : s.tasks.thrown = [] ∧ s.tasks.terminated = false
  /-- No coroutine is left suspended. -/
  goneOn : s.tasks.antecedent.task.state.isCompleted → s.Rests kind returnsResult →
    ∀ a, s.pc a = .before ∨ ∃ outcome, s.pc a = .finished outcome

/-- In every run in which a `Start()` of the task that saw its token cancelled finds it in state
    `Created`, the owners of other continuation tasks do not start them, and the scheduler throws
    nothing: the handle of every `co_await` is invoked at most once, while its coroutine is
    suspended, after the task is completed and by the context the coroutine captured;
    `await_resume` does not wait, and all of them yield the one outcome of the task; and where the
    task is completed and nobody can go on, every coroutine has gone on. -/
theorem awaits_resumed [Fintype A] [DecidableEq T] [DecidableEq A]
    {s : AwaitSystem α β ε T A C}
    (h : (awaitMachine kind returnsResult α β ε T A C).Reachable AwaitGuard s) :
    AwaitsHold kind returnsResult s := by
  have hi := reachable_awaitInv h
  refine ⟨hi.once, fun a ha => ?_, fun a x st hr => ?_, fun a ha => hi.resuming_runs ha,
    fun a o ha => ?_, (reachable_continuationInv hi.tasks).noThrow,
    fun hc hrest a => hi.finished_of_rests hc hrest a⟩
  · have hplace := hi.place a
    rw [ha] at hplace
    cases hplace
  · obtain ⟨hst, -, hk⟩ := hi.logged _ hr
    exact ⟨hst, hk⟩
  · have hplace := hi.place a
    rw [ha] at hplace
    exact hplace.2

/-- A coroutine suspends before the task is completed, and is posted to context 9; the other asks
    when it is completed, but with the internal key set, so that `ContinueWith` starts its
    continuation task at once. -/
theorem awaits_resumed_two :
    ∃ s : AwaitSystem ℕ (fun _ => Unit) Empty Unit Bool ℕ,
      AwaitsHold .completionSource true s ∧
      s.resumptions = [(false, none, .runToCompletion), (true, some 9, .runToCompletion)] ∧
      s.pc true = .finished (.ok (some 5)) ∧ s.pc false = .finished (.ok (some 5)) := by
  let M := awaitMachine .completionSource true ℕ (fun _ => Unit) Empty Unit Bool ℕ
  let key : GlobalTaskSettings := { taskAwaiterAwaitReadyAlwaysReturnsFalse := true }
  have hr : M.Reachable AwaitGuard _ :=
    .head (a := .awaitReady true {} true) rfl trivial <|
    .head (a := .awaitSuspend true {}) rfl trivial <|
    .head (a := .continueWith true {} (some 9)) rfl trivial <|
    .head (a := .task (.antecedent (.run (.awaitSuspend true)))) rfl nofun <|
    .head (a := .task (.antecedent (.run (.awaitSuspend true)))) rfl nofun <|
    .head (a := .task (.antecedent (.set (.thread ()) (.trySetResult 5)))) rfl nofun <|
    .head (a := .task (.antecedent (.run (.thread ())))) rfl nofun <|
    .head (a := .task (.antecedent (.run (.thread ())))) rfl nofun <|
    .head (a := .task (.invoke (.thread ()))) rfl trivial <|
    .head (a := .task (.starting (.thread ()))) rfl trivial <|
    .head (a := .task (.starting (.thread ()))) rfl trivial <|
    .head (a := .awaitReady false key false) rfl trivial <|
    .head (a := .awaitSuspend false key) rfl trivial <|
    .head (a := .continueWith false key none) rfl trivial <|
    .head (a := .task (.antecedent (.run (.awaitSuspend false)))) rfl nofun <|
    .head (a := .task (.invoke (.awaitSuspend false))) rfl trivial <|
    .head (a := .task (.starting (.awaitSuspend false))) rfl trivial <|
    .head (a := .task (.starting (.awaitSuspend false))) rfl trivial <|
    .head (a := .task (.continuation 1 (.body (.thread ())))) rfl nofun <|
    .head (a := .task (.continuation 1 (.run (.thread ())))) rfl nofun <|
    .head (a := .task (.continuation 1 (.run (.thread ())))) rfl nofun <|
    .head (a := .invoke 1 (.thread ())) rfl trivial <|
    .head (a := .awaitResume false) rfl trivial <|
    .head (a := .resume false) rfl trivial <|
    .head (a := .resume false) rfl trivial <|
    .head (a := .task (.continuation 0 (.body (.thread ())))) rfl nofun <|
    .head (a := .task (.continuation 0 (.run (.thread ())))) rfl nofun <|
    .head (a := .task (.continuation 0 (.run (.thread ())))) rfl nofun <|
    .head (a := .invoke 0 (.thread ())) rfl trivial <|
    .head (a := .task (.continuation 0 (.call (.thread ()) (.ok ())))) rfl nofun <|
    .head (a := .runPosted true) rfl trivial <|
    .head (a := .awaitResume true) rfl trivial <|
    .head (a := .resume true) rfl trivial <|
    .head (a := .resume true) rfl trivial .refl
  exact ⟨_, awaits_resumed hr, rfl, rfl, rfl⟩

end AsyncCpp.Tasks
