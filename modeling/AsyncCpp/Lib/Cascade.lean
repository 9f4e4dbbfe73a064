import Mathlib.Data.List.Basic
import Mathlib.Data.List.Nodup
import Mathlib.Data.List.Perm.Subperm
import Mathlib.Logic.Function.Basic
import Mathlib.Order.WellFounded
import Mathlib.Tactic.Common

/-!
# Counted start and completion over a graph

A thread starts a graph from its root: a vertex that is started for the first time starts
its successors, one after the other and each in a nested call, and then runs. Completion
goes the same way. A vertex that is done completes its successors; a vertex closes once it
has been completed as often as it was started, and is done some time later.

Results:
* `Cascade.Inv.step`: the invariant of the protocol, for graphs without infinite paths
  against the edges.
* `Cascade.Inv.closed`, a field of it: when a vertex closes, each of its predecessors is
  done or was never started.
-/

namespace Interleaving

/-- Where a vertex is. `opening` has the vertex that started it, and the successor it is
    starting. -/
inductive Phase (V : Type*) where
  | idle
  | opening (opener calling : Option V)
  | running
  | closing
  | done

/-- A nested call of the vertex has returned. -/
def Phase.resumed {V : Type*} : Phase V → Phase V
  | .opening opener _ => .opening opener none
  | p => p

/-- The vertex has started all its successors. -/
def Phase.Late {V : Type*} (p : Phase V) : Prop :=
  p = .running ∨ p = .closing ∨ p = .done

/-- The state of the protocol. `toStart` and `toComplete` are the successors a vertex has
    still to start and to complete; `startedBy` and `completedBy` are the calls a vertex has
    seen, `none` being a call from outside. -/
structure Cascade (V : Type*) where
  phase : V → Phase V
  toStart : V → List V
  toComplete : V → List V
  startedBy : V → List (Option V)
  completedBy : V → List (Option V)

namespace Cascade

variable {V : Type*}

section Steps

variable [DecidableEq V]

/-- Vertex `c` sees a call that starts it, or one that completes it. -/
def startCall (v : Cascade V) (c : V) (caller : Option V) : Cascade V :=
  { v with startedBy := Function.update v.startedBy c (v.startedBy c ++ [caller]) }

def completeCall (v : Cascade V) (c : V) (caller : Option V) : Cascade V :=
  { v with completedBy := Function.update v.completedBy c (v.completedBy c ++ [caller]) }

/-- Vertex `p` starts its next successor `c`, or completes it. -/
def startEdge (v : Cascade V) (p c : V) (cs : List V) : Cascade V :=
  { v.startCall c (some p) with toStart := Function.update v.toStart p cs }

def completeEdge (v : Cascade V) (p c : V) (cs : List V) : Cascade V :=
  { v.completeCall c (some p) with toComplete := Function.update v.toComplete p cs }

def setPhase (v : Cascade V) (n : V) (p : Phase V) : Cascade V :=
  { v with phase := Function.update v.phase n p }

/-- A nested call returns to the vertex that made it, if one did. -/
def resumed (v : Cascade V) : Option V → Cascade V
  | none => v
  | some q => v.setPhase q (v.phase q).resumed

theorem resumed_setPhase (v : Cascade V) {n : V} {o : Option V} (h : o ≠ some n) (p : Phase V) :
    (v.setPhase n p).resumed o = (v.resumed o).setPhase n p := by
  cases o with
  | none => rfl
  | some q =>
    have hq : q ≠ n := fun hq => h (congrArg some hq)
    simp only [resumed, setPhase, Function.update_of_ne hq, Function.update_comm hq]

/-- Only a vertex that is starting a successor takes notice of the end of a call. -/
theorem resumed_eq_self {v : Cascade V} {o : Option V}
    (h : ∀ q, o = some q → (v.phase q).resumed = v.phase q) : v.resumed o = v := by
  cases o with
  | none => rfl
  | some q => simp only [resumed, setPhase, h q rfl, Function.update_eq_self]

inductive Step (root : V) (v : Cascade V) : Cascade V → Prop
  | begin (h : v.phase root = .idle) :
    Step root v ((v.startCall root none).setPhase root (.opening none none))
  | visit {p c : V} {cs : List V} {o : Option V} (hp : v.phase p = .opening o none)
    (hcs : v.toStart p = c :: cs) (hc : v.phase c = .running) : Step root v (v.startEdge p c cs)
  | descend {p c : V} {cs : List V} {o : Option V} (hp : v.phase p = .opening o none)
    (hcs : v.toStart p = c :: cs) (hc : v.phase c = .idle) :
    Step root v
      (((v.startEdge p c cs).setPhase p (.opening o (some c))).setPhase c (.opening (some p) none))
  | opened {p : V} {o : Option V} (hp : v.phase p = .opening o none) (hcs : v.toStart p = []) :
    Step root v ((v.resumed o).setPhase p .running)
  | completeRoot (h : none ∉ v.completedBy root) :
    Step root v (v.completeCall root none)
  | notify {p c : V} {cs : List V} (hp : v.phase p = .done) (hcs : v.toComplete p = c :: cs) :
    Step root v (v.completeEdge p c cs)
  | close {c : V} (hc : v.phase c = .running) (hne : v.completedBy c ≠ [])
    (hle : (v.startedBy c).length ≤ (v.completedBy c).length) : Step root v (v.setPhase c .closing)
  | finish {c : V} (hc : v.phase c = .closing) : Step root v (v.setPhase c .done)

end Steps

/-- `todo` and `seen` agree: a vertex has seen the call of a predecessor where it is not on
    the predecessor's list any more, and has seen it once. -/
structure Tracks (next todo : V → List V) (seen : V → List (Option V)) : Prop where
  sublist : ∀ p, (todo p).Sublist (next p)
  mem : ∀ p c, some p ∈ seen c ↔ c ∈ next p ∧ c ∉ todo p
  nodup : ∀ n, (seen n).Nodup

/-- The invariant, over the successors `next`. -/
structure Inv (next : V → List V) (root : V) (v : Cascade V) : Prop where
  starts : Tracks next v.toStart v.startedBy
  completes : Tracks next v.toComplete v.completedBy
  idle : ∀ n, v.phase n = .idle → v.toStart n = next n ∧ v.startedBy n = []
  late : ∀ n, (v.phase n).Late → v.toStart n = []
  early : ∀ n, v.phase n ≠ .done → v.toComplete n = next n
  startedRoot : ∀ n, none ∈ v.startedBy n ↔ n = root ∧ v.phase root ≠ .idle
  completedRoot : ∀ n, none ∈ v.completedBy n → n = root
  chain : ∀ n o x, v.phase n = .opening o x → (n = root ∧ o = none) ∨
    ∃ p o', o = some p ∧ v.phase p = .opening o' (some n) ∧ n ∈ next p
  children : ∀ p c, c ∈ next p → c ∉ v.toStart p →
    (v.phase c).Late ∨ ∃ o, v.phase p = .opening o (some c)
  before : ¬ (v.phase root).Late → ∀ n, v.phase n ≠ .closing ∧ v.phase n ≠ .done
  after : (v.phase root).Late → ∀ n o x, v.phase n ≠ .opening o x
  allIdle : v.phase root = .idle → ∀ n, v.phase n = .idle
  closedRoot : v.phase root = .closing ∨ v.phase root = .done → none ∈ v.completedBy root
  closed : ∀ n, v.phase n = .closing ∨ v.phase n = .done → ∀ p, n ∈ next p →
    v.phase p = .idle ∨ v.phase p = .done

/-! ## Calls -/

namespace Tracks

variable {next todo : V → List V} {seen : V → List (Option V)}

/-- Vertex `p` makes its next call. -/
theorem pop [DecidableEq V] (h : Tracks next todo seen) (hnd : ∀ p, (next p).Nodup) {p c : V}
    {cs : List V} (hcs : todo p = c :: cs) :
    Tracks next (Function.update todo p cs) (Function.update seen c (seen c ++ [some p])) := by
  have hsub := h.sublist p
  rw [hcs] at hsub
  have hc : c ∈ next p := hsub.subset List.mem_cons_self
  obtain ⟨hnot, -⟩ := List.nodup_cons.mp (hsub.nodup (hnd p))
  have hnew : some p ∉ seen c := by
    rw [h.mem, hcs]
    exact fun hmem => hmem.2 List.mem_cons_self
  refine ⟨fun q => ?_, fun q d => ?_, fun n => ?_⟩
  · by_cases hq : q = p
    · subst hq
      rw [Function.update_self]
      exact (List.sublist_cons_self c cs).trans hsub
    · rw [Function.update_of_ne hq]
      exact h.sublist q
  · by_cases hd : d = c
    · subst hd
      by_cases hq : q = p
      · subst hq
        simp [hc, hnot]
      · simp [hq, h.mem]
    · by_cases hq : q = p
      · subst hq
        simp [h.mem, hcs, hd]
      · simp [Function.update_of_ne hd, Function.update_of_ne hq, h.mem]
  · by_cases hn : n = c
    · subst hn
      rw [Function.update_self, List.nodup_append]
      exact ⟨h.nodup n, List.nodup_singleton _, fun x hx y hy hxy => by
        rw [List.mem_singleton.mp hy] at hxy
        exact hnew (hxy ▸ hx)⟩
    · rw [Function.update_of_ne hn]
      exact h.nodup n

/-- A call from outside. -/
theorem outside [DecidableEq V] (h : Tracks next todo seen) {n : V} (hn : none ∉ seen n) :
    Tracks next todo (Function.update seen n (seen n ++ [none])) := by
  refine ⟨h.sublist, fun q d => ?_, fun m => ?_⟩
  · by_cases hd : d = n
    · subst hd
      simp [h.mem]
    · simp [Function.update_of_ne hd, h.mem]
  · by_cases hm : m = n
    · subst hm
      rw [Function.update_self, List.nodup_append]
      exact ⟨h.nodup m, List.nodup_singleton _, fun x hx y hy hxy => by
        rw [List.mem_singleton.mp hy] at hxy
        exact hn (hxy ▸ hx)⟩
    · rw [Function.update_of_ne hm]
      exact h.nodup m

end Tracks

/-! ## Steps -/

theorem resumed_of_not_opening {p : Phase V} (h : ∀ o x, p ≠ .opening o x) : p.resumed = p := by
  cases p with
  | opening o x => exact absurd rfl (h o x)
  | _ => rfl

theorem late_iff {p : Phase V} : p.Late ↔ p ≠ .idle ∧ ∀ o x, p ≠ .opening o x := by
  cases p <;> simp [Phase.Late]

/-- `f` has the phases once `p`, which was calling nobody, starts `c`, which was idle. -/
structure Descends (v : Cascade V) (p c : V) (o : Option V) (f : V → Phase V) : Prop where
  opening : v.phase p = .opening o none
  idle : v.phase c = .idle
  starter : f p = .opening o (some c)
  started : f c = .opening (some p) none
  other : ∀ n, n ≠ p → n ≠ c → f n = v.phase n

namespace Descends

variable {v : Cascade V} {p c : V} {o : Option V} {f : V → Phase V}

theorem update [DecidableEq V] (hp : v.phase p = .opening o none) (hc : v.phase c = .idle) :
    Descends v p c o (Function.update (Function.update v.phase p (.opening o (some c))) c
      (.opening (some p) none)) := by
  have hpc : p ≠ c := by
    rintro rfl
    cases hp.symm.trans hc
  refine ⟨hp, hc, ?_, Function.update_self .., fun n hnp hnc => ?_⟩
  · rw [Function.update_of_ne hpc, Function.update_self]
  · rw [Function.update_of_ne hnc, Function.update_of_ne hnp]

/-- Who does not open, neither before nor now, is neither `p` nor `c`. -/
theorem of_not_opening (h : Descends v p c o f) {n : V} (hn : ∀ o x, f n ≠ .opening o x) :
    n ≠ p ∧ n ≠ c ∧ f n = v.phase n := by
  have hnp : n ≠ p := by
    rintro rfl
    exact hn _ _ h.starter
  have hnc : n ≠ c := by
    rintro rfl
    exact hn _ _ h.started
  exact ⟨hnp, hnc, h.other n hnp hnc⟩

/-- Who was starting a successor goes on. -/
theorem calling (h : Descends v p c o f) {q n : V} {o' : Option V}
    (hq : v.phase q = .opening o' (some n)) : f q = .opening o' (some n) := by
  have hqp : q ≠ p := by
    rintro rfl
    cases h.opening.symm.trans hq
  have hqc : q ≠ c := by
    rintro rfl
    cases h.idle.symm.trans hq
  exact (h.other q hqp hqc).trans hq

end Descends

namespace Inv

variable {next : V → List V} {root : V} {v v' : Cascade V}

/-- Where somebody is starting a successor, the root is not through with its start. -/
theorem root_of_opening (h : Inv next root v) {n : V} {o x : Option V}
    (hn : v.phase n = .opening o x) : ¬ (v.phase root).Late ∧ v.phase root ≠ .idle := by
  refine ⟨fun hl => h.after hl n o x hn, fun hi => ?_⟩
  cases (h.allIdle hi n).symm.trans hn

/-- Where somebody closes or is done, the root is through with its start. -/
theorem root_of_closed (h : Inv next root v) {n : V}
    (hn : v.phase n = .closing ∨ v.phase n = .done) : (v.phase root).Late := by
  by_contra hl
  rcases hn with hn | hn
  · exact (h.before hl n).1 hn
  · exact (h.before hl n).2 hn

/-- Everybody who is starting a successor is called by the root. -/
theorem root_calls (h : Inv next root v) (hwf : WellFounded fun p c => c ∈ next p) {n : V}
    {o x : Option V} (hn : v.phase n = .opening o x) :
    n = root ∨ ∃ o' y, v.phase root = .opening o' (some y) := by
  induction n using hwf.induction generalizing o x with
  | h n ih =>
    rcases h.chain n o x hn with ⟨hroot, -⟩ | ⟨p, o', -, hp, hmem⟩
    · exact .inl hroot
    · rcases ih p hmem hp with rfl | hroot
      · exact .inr ⟨o', n, hp⟩
      · exact .inr hroot

/-- The phases change, but nobody starts to run or stops being idle. -/
theorem rephase (h : Inv next root v) {f : V → Phase V}
    (hidle : ∀ n, f n = .idle ↔ v.phase n = .idle)
    (hopen : ∀ n o x, f n = .opening o x ↔ v.phase n = .opening o x)
    (hdone : ∀ n, f n ≠ .done → v.phase n ≠ .done) (hroot : (v.phase root).Late)
    (hclosedRoot : f root = .closing ∨ f root = .done → none ∈ v.completedBy root)
    (hclosed : ∀ n, f n = .closing ∨ f n = .done → ∀ p, n ∈ next p → f p = .idle ∨ f p = .done) :
    Inv next root { v with phase := f } := by
  have hlate : ∀ n, (f n).Late ↔ (v.phase n).Late := by
    intro n
    simp only [late_iff, ne_eq, hidle, hopen]
  refine {
    h with
    idle := fun n hn => h.idle n ((hidle n).mp hn)
    late := fun n hn => h.late n ((hlate n).mp hn)
    early := fun n hn => h.early n (hdone n hn)
    startedRoot := fun n => ?_
    chain := fun n o x hn => ?_
    children := fun p c hc hnot => ?_
    before := fun hl => absurd ((hlate root).mpr hroot) hl
    after := fun _ n o x hn => h.after hroot n o x ((hopen n o x).mp hn)
    allIdle := fun hi n => (hidle n).mpr (h.allIdle ((hidle root).mp hi) n)
    closedRoot := hclosedRoot
    closed := hclosed }
  · simp only [ne_eq, hidle]
    exact h.startedRoot n
  · rcases h.chain n o x ((hopen n o x).mp hn) with hroot | ⟨p, o', ho, hp, hmem⟩
    · exact .inl hroot
    · exact .inr ⟨p, o', ho, (hopen p o' (some n)).mpr hp, hmem⟩
  · rcases h.children p c hc hnot with hl | ⟨o, ho⟩
    · exact .inl ((hlate c).mpr hl)
    · exact .inr ⟨o, (hopen p o (some c)).mpr ho⟩

/-- Where a vertex was completed as often as it was started, its predecessors are done or
    were never started. -/
theorem predecessors (h : Inv next root v) (hroot : (v.phase root).Late) {c : V}
    (hle : (v.startedBy c).length ≤ (v.completedBy c).length) :
    (∀ p, c ∈ next p → v.phase p = .idle ∨ v.phase p = .done) ∧
      (none ∈ v.startedBy c → none ∈ v.completedBy c) := by
  have hsub : v.completedBy c ⊆ v.startedBy c := by
    intro x hx
    cases x with
    | none =>
      refine (h.startedRoot c).mpr ⟨h.completedRoot c hx, ?_⟩
      exact (late_iff.mp hroot).1
    | some p =>
      obtain ⟨hc, hnot⟩ := (h.completes.mem p c).mp hx
      have hdone : v.phase p = .done := by
        by_contra hne
        rw [h.early p hne] at hnot
        exact hnot hc
      rw [h.starts.mem, h.late p (.inr (.inr hdone))]
      exact ⟨hc, List.not_mem_nil⟩
  have hperm := ((h.completes.nodup c).subperm hsub).perm_of_length_le hle
  refine ⟨fun p hc => ?_, fun hn => hperm.mem_iff.mpr hn⟩
  by_cases hidle : v.phase p = .idle
  · exact .inl hidle
  · have hlate : (v.phase p).Late :=
      late_iff.mpr ⟨hidle, fun o x hp => h.after hroot p o x hp⟩
    have hstarted : some p ∈ v.startedBy c := by
      rw [h.starts.mem, h.late p hlate]
      exact ⟨hc, List.not_mem_nil⟩
    right
    by_contra hne
    have hnot := ((h.completes.mem p c).mp (hperm.mem_iff.mpr hstarted)).2
    rw [h.early p hne] at hnot
    exact hnot hc

/-- A vertex that runs is not closed yet; where it was completed, the root has started. -/
theorem root_of_completed (h : Inv next root v) {c : V} (hc : v.phase c = .running)
    (hne : v.completedBy c ≠ []) : (v.phase root).Late := by
  by_contra hl
  obtain ⟨x, xs, hx⟩ := List.exists_cons_of_ne_nil hne
  cases x with
  | none =>
    have hroot := h.completedRoot c (by rw [hx]; exact List.mem_cons_self)
    rw [← hroot, hc] at hl
    exact hl (.inl rfl)
  | some p =>
    obtain ⟨hmem, hnot⟩ := (h.completes.mem p c).mp (by rw [hx]; exact List.mem_cons_self)
    rw [h.early p (h.before hl p).2] at hnot
    exact hnot hmem

/-- While a vertex that has started its successors is not done, they run. -/
theorem successor_running (h : Inv next root v) {p c : V} (hc : c ∈ next p)
    (hp : (v.phase p).Late) (hnd : v.phase p ≠ .done) : v.phase c = .running := by
  have hnot : c ∉ v.toStart p := by
    rw [h.late p hp]
    exact List.not_mem_nil
  obtain ⟨hni, hno⟩ := late_iff.mp hp
  rcases h.children p c hc hnot with hl | ⟨o, ho⟩
  · rcases hl with hrun | hclosed
    · exact hrun
    · rcases h.closed c hclosed p hc with hidle | hdone
      · exact absurd hidle hni
      · exact absurd hdone hnd
  · exact absurd ho (hno o _)

/-- Who calls whom, once `p` starts `c`. -/
theorem chain_descend (h : Inv next root v) {p c : V} {o : Option V} {f : V → Phase V}
    (hf : Descends v p c o f) (hmem : c ∈ next p) {n : V} {o' x : Option V}
    (hn : f n = .opening o' x) :
    (n = root ∧ o' = none) ∨
      ∃ q o₂, o' = some q ∧ f q = .opening o₂ (some n) ∧ n ∈ next q := by
  by_cases hnc : n = c
  · subst hnc
    cases hf.started.symm.trans hn
    exact .inr ⟨p, o, rfl, hf.starter, hmem⟩
  · -- the caller of `n` is neither `p`, which called nobody, nor `c`
    have hcaller : ∀ o'', v.phase n = .opening o' o'' → (n = root ∧ o' = none) ∨
        ∃ q o₂, o' = some q ∧ f q = .opening o₂ (some n) ∧ n ∈ next q := by
      intro o'' hn'
      rcases h.chain n o' o'' hn' with hr | ⟨q, o₂, ho, hq, hmem'⟩
      · exact .inl hr
      · exact .inr ⟨q, o₂, ho, hf.calling hq, hmem'⟩
    by_cases hnp : n = p
    · subst hnp
      cases hf.starter.symm.trans hn
      exact hcaller none hf.opening
    · exact hcaller x ((hf.other n hnp hnc).symm.trans hn)

/-- Nobody has started anything. -/
theorem initial (next : V → List V) (root : V) :
    Inv next root ⟨fun _ => .idle, next, next, fun _ => [], fun _ => []⟩ where
  starts := ⟨fun p => List.Sublist.refl _, by simp, fun _ => List.nodup_nil⟩
  completes := ⟨fun p => List.Sublist.refl _, by simp, fun _ => List.nodup_nil⟩
  idle _ _ := ⟨rfl, rfl⟩
  late _ hl := absurd rfl (late_iff.mp hl).1
  early _ _ := rfl
  startedRoot := by simp
  completedRoot := nofun
  chain := nofun
  children _ _ hc hnot := absurd hc hnot
  before _ _ := ⟨nofun, nofun⟩
  after hl := absurd rfl (late_iff.mp hl).1
  allIdle _ _ := rfl
  closedRoot hc := by rcases hc with hc | hc <;> cases hc
  closed _ hc := by rcases hc with hc | hc <;> cases hc

variable [DecidableEq V]

theorem begin (h : Inv next root v) (hroot : v.phase root = .idle) :
    Inv next root ((v.startCall root none).setPhase root (.opening none none)) := by
  have hidle := h.allIdle hroot
  have hnew : none ∉ v.startedBy root := by
    rw [h.startedRoot]
    exact fun hmem => hmem.2 hroot
  have hphase : ∀ n, n ≠ root → Function.update v.phase root (.opening none none) n = .idle := by
    intro n hn
    rw [Function.update_of_ne hn]
    exact hidle n
  have hopening : Function.update v.phase root (.opening none none) root = .opening none none :=
    Function.update_self ..
  refine {
    h with
    starts := h.starts.outside hnew
    idle := fun n hn => ?_, late := fun n hn => ?_, early := fun n _ => ?_
    startedRoot := fun n => ?_, chain := fun n o x hn => ?_
    children := fun p c hc hnot => ?_, before := fun _ n => ?_
    after := fun hl => ?_, allIdle := fun hi => ?_, closedRoot := fun hc => ?_
    closed := fun n hc => ?_ }
  · have hne : n ≠ root := by
      rintro rfl
      cases hopening.symm.trans hn
    refine ⟨(h.idle n (hidle n)).1, ?_⟩
    simp only [startCall, setPhase, Function.update_of_ne hne]
    exact (h.idle n (hidle n)).2
  · by_cases hne : n = root
    · subst hne
      simp only [startCall, setPhase, hopening] at hn
      rcases hn with hn | hn | hn <;> cases hn
    · simp only [startCall, setPhase, hphase n hne] at hn
      rcases hn with hn | hn | hn <;> cases hn
  · exact h.early n (by rw [hidle n]; nofun)
  · by_cases hne : n = root
    · subst hne
      simp [startCall, setPhase]
    · have hnot : none ∉ v.startedBy n := by
        rw [(h.idle n (hidle n)).2]
        exact List.not_mem_nil
      simp [startCall, setPhase, hne, hnot]
  · by_cases hne : n = root
    · subst hne
      simp only [startCall, setPhase, hopening] at hn
      cases hn
      exact .inl ⟨rfl, rfl⟩
    · cases (hphase n hne).symm.trans hn
  · refine absurd ?_ hnot
    show c ∈ v.toStart p
    rwa [(h.idle p (hidle p)).1]
  · by_cases hne : n = root
    · subst hne
      simp only [startCall, setPhase, hopening]
      exact ⟨nofun, nofun⟩
    · simp only [startCall, setPhase, hphase n hne]
      exact ⟨nofun, nofun⟩
  · simp only [startCall, setPhase, hopening] at hl
    rcases hl with hl | hl | hl <;> cases hl
  · cases hopening.symm.trans hi
  · rcases hc with hc | hc <;> cases hopening.symm.trans hc
  · by_cases hne : n = root
    · subst hne
      rcases hc with hc | hc <;> cases hopening.symm.trans hc
    · rcases hc with hc | hc <;> cases (hphase n hne).symm.trans hc

/-- A successor that runs is started once more. -/
theorem visit (h : Inv next root v) (hnd : ∀ p, (next p).Nodup) {p c : V} {cs : List V}
    {o : Option V} (hp : v.phase p = .opening o none) (hcs : v.toStart p = c :: cs)
    (hc : v.phase c = .running) : Inv next root (v.startEdge p c cs) := by
  refine {
    h with
    starts := h.starts.pop hnd hcs
    idle := fun n hn => ?_, late := fun n hn => ?_, startedRoot := fun n => ?_
    children := fun q d hd hnot => ?_ }
  · have hnp : n ≠ p := by
      rintro rfl
      cases hp.symm.trans hn
    have hnc : n ≠ c := by
      rintro rfl
      cases hc.symm.trans hn
    simp only [startEdge, startCall, Function.update_of_ne hnp, Function.update_of_ne hnc]
    exact h.idle n hn
  · have hnp : n ≠ p := by
      rintro rfl
      exact (late_iff.mp hn).2 _ _ hp
    simp only [startEdge, startCall, Function.update_of_ne hnp]
    exact h.late n hn
  · refine Iff.trans ?_ (h.startedRoot n)
    by_cases hnc : n = c
    · subst hnc
      simp [startEdge, startCall]
    · simp [startEdge, startCall, Function.update_of_ne hnc]
  · by_cases hdc : d = c
    · exact .inl (.inl (hdc ▸ hc))
    · refine h.children q d hd fun hmem => hnot ?_
      by_cases hq : q = p
      · subst hq
        rw [hcs] at hmem
        simpa [startEdge, startCall, hdc] using hmem
      · simpa [startEdge, startCall, Function.update_of_ne hq] using hmem

/-- A successor that was started runs, or its call is going on, once `p` starts `c`. -/
theorem children_descend (h : Inv next root v) {p c : V} {cs : List V} {o : Option V}
    {f : V → Phase V} (hf : Descends v p c o f) (hcs : v.toStart p = c :: cs) {q d : V}
    (hd : d ∈ next q) (hnot : d ∉ Function.update v.toStart p cs q) :
    (f d).Late ∨ ∃ o', f q = .opening o' (some d) := by
  by_cases hedge : q = p ∧ d = c
  · obtain ⟨rfl, rfl⟩ := hedge
    exact .inr ⟨o, hf.starter⟩
  · -- the edge was started before, and nobody was in the call
    have hnot' : d ∉ v.toStart q := by
      intro htodo
      apply hnot
      by_cases hq : q = p
      · have hdc : d ≠ c := fun hdc => hedge ⟨hq, hdc⟩
        rw [hq, hcs] at htodo
        simpa [hq, hdc] using htodo
      · simpa [Function.update_of_ne hq] using htodo
    rcases h.children q d hd hnot' with hl | ⟨o₂, ho⟩
    · have hdp : d ≠ p := by
        rintro rfl
        exact (late_iff.mp hl).2 _ _ hf.opening
      have hdc : d ≠ c := by
        rintro rfl
        exact (late_iff.mp hl).1 hf.idle
      left
      rwa [hf.other d hdp hdc]
    · exact .inr ⟨o₂, hf.calling ho⟩

/-- A successor is started for the first time. -/
theorem descend (h : Inv next root v) (hnd : ∀ p, (next p).Nodup) {p c : V} {cs : List V}
    {o : Option V} (hp : v.phase p = .opening o none) (hcs : v.toStart p = c :: cs)
    (hc : v.phase c = .idle) :
    Inv next root (((v.startEdge p c cs).setPhase p (.opening o (some c))).setPhase c
      (.opening (some p) none)) := by
  obtain ⟨hnl, hni⟩ := h.root_of_opening hp
  have hmem : c ∈ next p := by
    have hsub := h.starts.sublist p
    rw [hcs] at hsub
    exact hsub.subset List.mem_cons_self
  let f := Function.update (Function.update v.phase p (.opening o (some c))) c
    (.opening (some p) none)
  have hf : Descends v p c o f := .update hp hc
  have hroot : f root ≠ .idle ∧ ¬ (f root).Late := by
    by_cases hr : ∃ o x, f root = .opening o x
    · obtain ⟨o', x, hr⟩ := hr
      rw [late_iff, hr]
      exact ⟨nofun, fun hl => hl.2 o' x rfl⟩
    · obtain ⟨-, -, heq⟩ := hf.of_not_opening fun o x hx => hr ⟨o, x, hx⟩
      rw [heq]
      exact ⟨hni, hnl⟩
  have hclosed : ∀ n, ¬ (f n = .closing ∨ f n = .done) := by
    intro n hn
    obtain ⟨-, -, heq⟩ := hf.of_not_opening (n := n) fun o x hx => by
      rw [hx] at hn
      rcases hn with hn | hn <;> cases hn
    rw [heq] at hn
    exact hnl (h.root_of_closed hn)
  refine {
    h with
    starts := h.starts.pop hnd hcs
    idle := fun n hn => ?_, late := fun n hn => ?_, early := fun n _ => ?_
    startedRoot := fun n => ?_, chain := fun n o' x hn => h.chain_descend hf hmem hn
    children := fun q d hd hnot => h.children_descend hf hcs hd hnot
    before := fun _ n => ⟨fun hcl => hclosed n (.inl hcl), fun hcl => hclosed n (.inr hcl)⟩
    after := fun hl => absurd hl hroot.2, allIdle := fun hi => absurd hi hroot.1
    closedRoot := fun hcl => absurd hcl (hclosed root)
    closed := fun n hcl => absurd hcl (hclosed n) }
  · obtain ⟨hnp, hnc, heq⟩ := hf.of_not_opening fun o x hx => by cases hx.symm.trans hn
    simp only [startEdge, startCall, setPhase, Function.update_of_ne hnp, Function.update_of_ne hnc]
    exact h.idle n (heq.symm.trans hn)
  · obtain ⟨hnp, -, heq⟩ := hf.of_not_opening (late_iff.mp hn).2
    simp only [startEdge, startCall, setPhase, Function.update_of_ne hnp]
    exact h.late n (heq ▸ hn)
  · exact h.early n fun hd => hnl (h.root_of_closed (.inr hd))
  · have hsame : none ∈ ((v.startEdge p c cs).startedBy n) ↔ none ∈ v.startedBy n := by
      by_cases hnc : n = c
      · subst hnc
        simp [startEdge, startCall]
      · simp [startEdge, startCall, Function.update_of_ne hnc]
    constructor
    · intro hn
      exact ⟨((h.startedRoot n).mp (hsame.mp hn)).1, hroot.1⟩
    · rintro ⟨rfl, -⟩
      exact hsame.mpr ((h.startedRoot n).mpr ⟨rfl, hni⟩)

/-- The phases after a vertex has started all its successors: its caller calls nobody. -/
theorem resume_phase (h : Inv next root v) {p : V} {o : Option V}
    (hp : v.phase p = .opening o none) :
    ∃ f, (v.resumed o).setPhase p .running = { v with phase := f } ∧ f p = .running ∧
      ∀ n, n ≠ p → f n = v.phase n ∨
        ∃ o', v.phase n = .opening o' (some p) ∧ f n = .opening o' none := by
  rcases h.chain p o none hp with ⟨-, rfl⟩ | ⟨q, o', rfl, hq, -⟩
  · exact ⟨Function.update v.phase p .running, rfl, Function.update_self .., fun n hn =>
      .inl (Function.update_of_ne hn ..)⟩
  · refine ⟨Function.update (Function.update v.phase q (.opening o' none)) p .running, ?_,
      Function.update_self .., fun n hn => ?_⟩
    · simp only [resumed, hq]
      rfl
    · rw [Function.update_of_ne hn]
      by_cases hnq : n = q
      · subst hnq
        exact .inr ⟨o', hq, Function.update_self ..⟩
      · exact .inl (Function.update_of_ne hnq ..)

/-- A vertex has started all its successors. -/
theorem opened (h : Inv next root v) (hwf : WellFounded fun p c => c ∈ next p) {p : V}
    {o : Option V} (hp : v.phase p = .opening o none) (hcs : v.toStart p = []) :
    Inv next root ((v.resumed o).setPhase p .running) := by
  obtain ⟨hnl, hni⟩ := h.root_of_opening hp
  obtain ⟨f, heq, hfp, hf⟩ := h.resume_phase hp
  rw [heq]
  -- whoever opens now opened before, called by the same vertex
  have hopen : ∀ n o x, f n = .opening o x → n ≠ p ∧ ∃ y, v.phase n = .opening o y := by
    intro n o x hn
    have hnp : n ≠ p := by
      rintro rfl
      cases hfp.symm.trans hn
    rcases hf n hnp with hsame | ⟨o', hold, hnew⟩
    · exact ⟨hnp, x, hsame.symm.trans hn⟩
    · cases hnew.symm.trans hn
      exact ⟨hnp, some p, hold⟩
  have hsame : ∀ n, n ≠ p → (∀ o x, f n ≠ .opening o x) → f n = v.phase n := by
    intro n hnp hno
    rcases hf n hnp with hsame | ⟨o', -, hnew⟩
    · exact hsame
    · exact absurd hnew (hno _ _)
  have hidle : ∀ n, f n = .idle ↔ v.phase n = .idle := by
    intro n
    by_cases hnp : n = p
    · subst hnp
      simp [hfp, hp]
    · rcases hf n hnp with hsame | ⟨o', hold, hnew⟩
      · rw [hsame]
      · simp [hold, hnew]
  have hclosed : ∀ n, f n = .closing ∨ f n = .done → False := by
    intro n hn
    have hnp : n ≠ p := by
      rintro rfl
      rcases hn with hn | hn <;> cases hfp.symm.trans hn
    have hph : f n = v.phase n := by
      refine hsame n hnp fun o x hx => ?_
      rcases hn with hn | hn <;> cases hx.symm.trans hn
    rw [hph] at hn
    exact hnl (h.root_of_closed hn)
  refine {
    h with
    idle := fun n hn => h.idle n ((hidle n).mp hn)
    late := fun n hn => ?_, early := fun n hn => h.early n fun hd => ?_
    startedRoot := fun n => ?_, chain := fun n o' x hn => ?_, children := fun q d hd hnot => ?_
    before := fun _ n => ⟨fun hc => hclosed n (.inl hc), fun hd => hclosed n (.inr hd)⟩
    after := fun hl n o' x hn => ?_, allIdle := fun hi => absurd ((hidle root).mp hi) hni
    closedRoot := fun hc => (hclosed root hc).elim, closed := fun n hc => (hclosed n hc).elim }
  · by_cases hnp : n = p
    · subst hnp
      exact hcs
    · have hl : (f n).Late := hn
      rw [hsame n hnp (late_iff.mp hl).2] at hl
      exact h.late n hl
  · exact hnl (h.root_of_closed (.inr hd))
  · simp only [ne_eq, hidle]
    exact h.startedRoot n
  · obtain ⟨hnp, y, hy⟩ := hopen n o' x hn
    rcases h.chain n o' y hy with hr | ⟨q, o₂, ho, hq, hmem⟩
    · exact .inl hr
    · -- the caller of `n` is not `p`, which calls nobody, and it is not the caller of `p`
      have hqp : q ≠ p := by
        rintro rfl
        cases hp.symm.trans hq
      rcases hf q hqp with hsame | ⟨o₃, hold, -⟩
      · exact .inr ⟨q, o₂, ho, hsame.trans hq, hmem⟩
      · cases hold.symm.trans hq
        exact absurd rfl hnp
  · by_cases hdp : d = p
    · exact .inl (.inl (hdp ▸ hfp))
    · rcases h.children q d hd hnot with hl | ⟨o₂, ho⟩
      · left
        show (f d).Late
        rcases hf d hdp with hsame | ⟨o₃, hold, -⟩
        · rwa [hsame]
        · exact absurd hold ((late_iff.mp hl).2 _ _)
      · have hqp : q ≠ p := by
          rintro rfl
          cases hp.symm.trans ho
        rcases hf q hqp with hsame | ⟨o₃, hold, -⟩
        · exact .inr ⟨o₂, hsame.trans ho⟩
        · cases hold.symm.trans ho
          exact absurd rfl hdp
  · obtain ⟨hnp, y, hy⟩ := hopen n o' x hn
    by_cases hroot : root = p
    · subst hroot
      rcases h.root_calls hwf hy with hr | ⟨o₂, z, hz⟩
      · exact hnp hr
      · cases hp.symm.trans hz
    · have hl' : (f root).Late := hl
      rw [hsame root hroot (late_iff.mp hl').2] at hl'
      exact hnl hl'

theorem completeRoot (h : Inv next root v) (hn : none ∉ v.completedBy root) :
    Inv next root (v.completeCall root none) := by
  refine {
    h with
    completes := h.completes.outside hn
    completedRoot := fun n hmem => ?_, closedRoot := fun _ => ?_ }
  · by_cases hne : n = root
    · exact hne
    · simp only [completeCall, Function.update_of_ne hne] at hmem
      exact h.completedRoot n hmem
  · simp [completeCall]

theorem notify (h : Inv next root v) (hnd : ∀ p, (next p).Nodup) {p c : V} {cs : List V}
    (hp : v.phase p = .done) (hcs : v.toComplete p = c :: cs) :
    Inv next root (v.completeEdge p c cs) := by
  have hnone : ∀ n, none ∈ Function.update v.completedBy c (v.completedBy c ++ [some p]) n ↔
      none ∈ v.completedBy n := by
    intro n
    by_cases hnc : n = c
    · subst hnc
      simp
    · simp [Function.update_of_ne hnc]
  refine {
    h with
    completes := h.completes.pop hnd hcs
    early := fun n hn => ?_
    completedRoot := fun n hmem => h.completedRoot n ((hnone n).mp hmem)
    closedRoot := fun hcl => (hnone root).mpr (h.closedRoot hcl) }
  have hnp : n ≠ p := by
    rintro rfl
    exact hn hp
  simp only [completeEdge, completeCall, Function.update_of_ne hnp]
  exact h.early n hn

theorem close (h : Inv next root v) {c : V} (hc : v.phase c = .running)
    (hne : v.completedBy c ≠ []) (hle : (v.startedBy c).length ≤ (v.completedBy c).length) :
    Inv next root (v.setPhase c .closing) := by
  have hroot := h.root_of_completed hc hne
  obtain ⟨hpred, hnone⟩ := h.predecessors hroot hle
  have hf : ∀ n, n ≠ c → Function.update v.phase c .closing n = v.phase n := fun n hn =>
    Function.update_of_ne hn ..
  refine h.rephase (fun n => ?_) (fun n o x => ?_) (fun n hn => ?_) hroot (fun hcl => ?_)
    fun n hcl p hmem => ?_
  · by_cases hn : n = c
    · subst hn
      simp [hc]
    · rw [hf n hn]
  · by_cases hn : n = c
    · subst hn
      simp [hc]
    · rw [hf n hn]
  · by_cases hn' : n = c
    · subst hn'
      rw [hc]
      nofun
    · rwa [hf n hn'] at hn
  · by_cases hr : root = c
    · subst hr
      exact hnone ((h.startedRoot root).mpr ⟨rfl, (late_iff.mp hroot).1⟩)
    · rw [hf root hr] at hcl
      exact h.closedRoot hcl
  · have hp : v.phase p = .idle ∨ v.phase p = .done := by
      by_cases hn : n = c
      · subst hn
        exact hpred p hmem
      · rw [hf n hn] at hcl
        exact h.closed n hcl p hmem
    have hpc : p ≠ c := by
      rintro rfl
      rw [hc] at hp
      rcases hp with hp | hp <;> cases hp
    rwa [hf p hpc]

theorem finish (h : Inv next root v) {c : V} (hc : v.phase c = .closing) :
    Inv next root (v.setPhase c .done) := by
  have hroot := h.root_of_closed (.inl hc)
  have hf : ∀ n, n ≠ c → Function.update v.phase c .done n = v.phase n := fun n hn =>
    Function.update_of_ne hn ..
  have hclosing : ∀ n, Function.update v.phase c .done n = .closing ∨
      Function.update v.phase c .done n = .done → v.phase n = .closing ∨ v.phase n = .done := by
    intro n hn
    by_cases hnc : n = c
    · subst hnc
      exact .inl hc
    · rwa [hf n hnc] at hn
  refine h.rephase (fun n => ?_) (fun n o x => ?_) (fun n hn => ?_) hroot
    (fun hcl => h.closedRoot (hclosing root hcl)) fun n hcl p hmem => ?_
  · by_cases hn : n = c
    · subst hn
      simp [hc]
    · rw [hf n hn]
  · by_cases hn : n = c
    · subst hn
      simp [hc]
    · rw [hf n hn]
  · by_cases hn' : n = c
    · subst hn'
      rw [hc]
      nofun
    · rwa [hf n hn'] at hn
  · by_cases hpc : p = c
    · subst hpc
      exact .inr (Function.update_self ..)
    · rw [hf p hpc]
      exact h.closed n (hclosing n hcl) p hmem

/-- Every step keeps the invariant. -/
theorem step (h : Inv next root v) (hnd : ∀ p, (next p).Nodup)
    (hwf : WellFounded fun p c => c ∈ next p) (hs : Step root v v') : Inv next root v' := by
  cases hs with
  | begin hroot => exact h.begin hroot
  | visit hp hcs hc => exact h.visit hnd hp hcs hc
  | descend hp hcs hc => exact h.descend hnd hp hcs hc
  | opened hp hcs => exact h.opened hwf hp hcs
  | completeRoot hn => exact h.completeRoot hn
  | notify hp hcs => exact h.notify hnd hp hcs
  | close hc hne hle => exact h.close hc hne hle
  | finish hc => exact h.finish hc

end Inv

end Cascade

end Interleaving
