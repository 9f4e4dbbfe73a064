import AsyncCpp.Lib.Simulation

/-!
# Actors as mailboxes

An actor has members that only its functions touch, and a mailbox of functions that run one at a
time, in the order in which they were accepted. Somebody may ask it to complete: when it is idle
and its mailbox is empty it closes, and after that `onCompleted` runs, once.

Results:
* `Mailbox.reachable_inv`: what was accepted is what was run and what is still in the mailbox, the
  members are those that the functions have left behind, one after the other, and an actor that is
  closed stays as it is.
* `Mailbox.simulates`: a program whose steps move what can be seen of an actor as an actor moves it
  is simulated by the actor.
-/

namespace Interleaving

/-- An actor with functions `F` and members `S`. `accepted` and `ran` are history. -/
structure Mailbox (F S : Type*) where
  members : S
  mailbox : List F := []
  running : Bool := false
  completing : Bool := false
  closed : Bool := false
  /-- `onCompleted` has ended. -/
  completed : Bool := false
  accepted : List F := []
  ran : List F := []

inductive MailboxLabel (F : Type*) where
  | accept (func : F)
  | begin
  | finish
  | complete
  | close
  | completed

namespace Mailbox

variable {F S : Type*} (run : F → S → S)

/-- The number of functions that have ended. -/
def ended (b : Mailbox F S) : ℕ := b.ran.length - if b.running then 1 else 0

def step (b : Mailbox F S) : MailboxLabel F → Option (Mailbox F S)
  | .accept func =>
    if b.closed then none
    else some { b with mailbox := b.mailbox ++ [func], accepted := b.accepted ++ [func] }
  | .begin =>
    if b.running ∨ b.closed then none
    else
      match b.mailbox with
      | [] => none
      | func :: mailbox => some { b with
          members := run func b.members, mailbox := mailbox, running := true
          ran := b.ran ++ [func] }
  | .finish => if b.running then some { b with running := false } else none
  | .complete => some { b with completing := true }
  | .close =>
    if b.completing ∧ ¬ b.running ∧ b.mailbox = [] ∧ ¬ b.closed then some { b with closed := true }
    else none
  | .completed =>
    if b.closed ∧ ¬ b.completed then some { b with completed := true } else none

/-- An actor that is constructed with the members `st`. -/
def machine (st : S) : Machine (Mailbox F S) (MailboxLabel F) where
  init := { members := st }
  step := step run

/-! ## What a step can be -/

inductive Step (b : Mailbox F S) : MailboxLabel F → Mailbox F S → Prop
  | accept {func : F} (hc : b.closed = false) : Step b (.accept func) { b with
      mailbox := b.mailbox ++ [func], accepted := b.accepted ++ [func] }
  | begin {func : F} {mailbox : List F} (hr : b.running = false) (hc : b.closed = false)
    (hm : b.mailbox = func :: mailbox) : Step b .begin { b with
      members := run func b.members, mailbox := mailbox, running := true
      ran := b.ran ++ [func] }
  | finish (hr : b.running = true) : Step b .finish { b with running := false }
  | complete : Step b .complete { b with completing := true }
  | close (hg : b.completing = true) (hr : b.running = false) (hm : b.mailbox = [])
    (hc : b.closed = false) : Step b .close { b with closed := true }
  | completed (hc : b.closed = true) (hd : b.completed = false) :
    Step b .completed { b with completed := true }

variable {run} {b b' : Mailbox F S}

theorem step_cases {a : MailboxLabel F} (hs : b.step run a = some b') : Step run b a b' := by
  cases a with
  | accept func =>
    simp only [step] at hs
    split_ifs at hs with hc
    cases hs
    exact .accept (by simpa using hc)
  | begin =>
    simp only [step] at hs
    split_ifs at hs with hc
    push Not at hc
    split at hs
    · cases hs
    · cases hs
      exact .begin (by simpa using hc.1) (by simpa using hc.2) (by assumption)
  | finish =>
    simp only [step] at hs
    split_ifs at hs with hr
    cases hs
    exact .finish hr
  | complete =>
    cases hs
    exact .complete
  | close =>
    simp only [step] at hs
    split_ifs at hs with hc
    cases hs
    exact .close hc.1 (by simpa using hc.2.1) hc.2.2.1 (by simpa using hc.2.2.2)
  | completed =>
    simp only [step] at hs
    split_ifs at hs with hc
    cases hs
    exact .completed hc.1 (by simpa using hc.2)

/-! ## The invariant -/

/-- `st` are the members the actor was constructed with. -/
structure Inv (run : F → S → S) (st : S) (b : Mailbox F S) : Prop where
  accepted : b.accepted = b.ran ++ b.mailbox
  members : b.members = b.ran.foldl (fun st func => run func st) st
  running : b.running = true → b.ran ≠ []
  closed : b.closed = true → b.completing = true ∧ b.running = false ∧ b.mailbox = []
  completed : b.completed = true → b.closed = true

theorem Inv.step {st : S} {a : MailboxLabel F} (h : Inv run st b) (hs : Step run b a b') :
    Inv run st b' := by
  obtain ⟨haccepted, hmembers, hrunning, hclosed, hcompleted⟩ := h
  cases hs with
  | accept hc =>
    refine ⟨by simp [haccepted], hmembers, hrunning, fun hc' => ?_, hcompleted⟩
    rw [hc] at hc'
    cases hc'
  | begin hr hc hm =>
    refine ⟨by simp [haccepted, hm], by simp [hmembers], by simp, fun hc' => ?_, hcompleted⟩
    rw [hc] at hc'
    cases hc'
  | finish hr => exact ⟨haccepted, hmembers, by simp, fun hc => ⟨(hclosed hc).1, rfl,
      (hclosed hc).2.2⟩, hcompleted⟩
  | complete => exact ⟨haccepted, hmembers, hrunning, fun hc => ⟨rfl, (hclosed hc).2⟩, hcompleted⟩
  | close hg hr hm hc => exact ⟨haccepted, hmembers, hrunning, fun _ => ⟨hg, hr, hm⟩, fun _ => rfl⟩
  | completed hc hd => exact ⟨haccepted, hmembers, hrunning, hclosed, fun _ => hc⟩

theorem reachable_inv {st : S} (h : (machine run st).Reachable Machine.Any b) : Inv run st b :=
  h.invariant ⟨rfl, rfl, by simp [machine], by simp [machine], by simp [machine]⟩
    fun _ _ _ hi _ hs => hi.step (step_cases hs)

/-! ## What can be seen of an actor -/

/-- All but the members and the mailbox, which follow from it. -/
structure View (F : Type*) where
  accepted : List F := []
  ran : List F := []
  running : Bool := false
  completing : Bool := false
  closed : Bool := false
  completed : Bool := false

def view (b : Mailbox F S) : View F where
  accepted := b.accepted
  ran := b.ran
  running := b.running
  completing := b.completing
  closed := b.closed
  completed := b.completed

namespace View

/-- What an actor can look like. -/
structure Ok (v : View F) : Prop where
  ran : v.ran <+: v.accepted
  closed : v.closed = true → v.completing = true ∧ v.running = false ∧ v.ran = v.accepted
  completed : v.completed = true → v.closed = true

/-- The functions that run go on: none begins or ends, one ends, or one begins. -/
inductive Runs (v : View F) : View F → Prop
  | same {v' : View F} (hran : v'.ran = v.ran) (hrunning : v'.running = v.running) : Runs v v'
  | finish {v' : View F} (hran : v'.ran = v.ran) (h : v.running = true)
    (h' : v'.running = false) : Runs v v'
  | begin {v' : View F} {func : F} (hran : v'.ran = v.ran ++ [func]) (h : v.running = false)
    (h' : v'.running = true) : Runs v v'

/-- How an actor can go on. -/
structure Moves (v v' : View F) : Prop where
  accepted : v'.accepted = v.accepted ∨
    v.closed = false ∧ ∃ func, v'.accepted = v.accepted ++ [func]
  ran : v.Runs v'
  completing : v.completing = true → v'.completing = true
  closed : v.closed = true → v'.closed = true
  completed : v.completed = true → v'.completed = true

end View

/-- The mailbox holds what was accepted and has not begun. -/
theorem Inv.mailbox {st : S} (h : Inv run st b) : b.mailbox = b.accepted.drop b.ran.length := by
  rw [h.accepted, List.drop_left]

/-- An actor takes a step. -/
theorem Inv.reaches {st : S} {a : MailboxLabel F} (h : Inv run st b)
    (hs : b.step run a = some b') :
    (machine run st).Reaches Machine.Any b b' ∧ Inv run st b' :=
  ⟨.single trivial hs, h.step (step_cases hs)⟩

/-- It accepts what is to be seen as accepted. -/
theorem Inv.exists_accepted {st : S} {accepted : List F} (h : Inv run st b)
    (ha : accepted = b.accepted ∨ b.closed = false ∧ ∃ func, accepted = b.accepted ++ [func]) :
    ∃ b', (machine run st).Reaches Machine.Any b b' ∧ Inv run st b' ∧
      b'.view = { b.view with accepted := accepted } := by
  rcases ha with rfl | ⟨hopen, func, rfl⟩
  · exact ⟨b, .refl, h, rfl⟩
  · have hs : b.step run (.accept func) = some { b with
        mailbox := b.mailbox ++ [func], accepted := b.accepted ++ [func] } := by
      simp [Mailbox.step, hopen]
    exact ⟨_, (h.reaches hs).1, (h.reaches hs).2, rfl⟩

/-- Its functions run as far as is to be seen. -/
theorem Inv.exists_runs {st : S} {v₀ v : View F} (h : Inv run st b) (hr : v₀.Runs v)
    (hran₀ : b.ran = v₀.ran) (hrunning₀ : b.running = v₀.running) (hadded : v.ran <+: b.accepted)
    (hopen : b.closed = true → v.ran = b.ran) :
    ∃ b', (machine run st).Reaches Machine.Any b b' ∧ Inv run st b' ∧
      b'.view = { b.view with ran := v.ran, running := v.running } := by
  cases hr with
  | same hran hrunning =>
    refine ⟨b, .refl, h, ?_⟩
    rw [hran, hrunning, ← hran₀, ← hrunning₀]
    rfl
  | finish hran hrun hstop =>
    have hs : b.step run .finish = some { b with running := false } := if_pos (hrunning₀.trans hrun)
    refine ⟨_, (h.reaches hs).1, (h.reaches hs).2, ?_⟩
    rw [hran, hstop, ← hran₀]
    rfl
  | @begin func hran hidle hrun =>
    rw [← hran₀] at hran
    have hidle' : b.running = false := hrunning₀.trans hidle
    have hopen' : b.closed = false := by
      by_contra hc
      have heq := hran.symm.trans (hopen (by simpa using hc))
      simp at heq
    obtain ⟨rest, hrest⟩ := hadded
    have hmailbox : b.mailbox = func :: rest := by
      rw [h.mailbox, ← hrest, hran]
      simp
    have hs : b.step run .begin = some { b with
        members := run func b.members, mailbox := rest, running := true
        ran := b.ran ++ [func] } := by
      simp [Mailbox.step, hidle', hopen', hmailbox]
    refine ⟨_, (h.reaches hs).1, (h.reaches hs).2, ?_⟩
    rw [hran, hrun]
    rfl

theorem Inv.exists_completing {st : S} {completing : Bool} (h : Inv run st b)
    (hc : b.completing = true → completing = true) :
    ∃ b', (machine run st).Reaches Machine.Any b b' ∧ Inv run st b' ∧
      b'.view = { b.view with completing := completing } := by
  by_cases heq : completing = b.completing
  · exact ⟨b, .refl, h, by rw [heq]; rfl⟩
  · have hset : completing = true := by
      cases hb : b.completing with
      | true => exact hc hb
      | false =>
        rw [hb] at heq
        simpa using heq
    have hs : b.step run .complete = some { b with completing := true } := rfl
    exact ⟨_, (h.reaches hs).1, (h.reaches hs).2, by rw [hset]; rfl⟩

theorem Inv.exists_closed {st : S} {closed : Bool} (h : Inv run st b)
    (hc : b.closed = true → closed = true)
    (hrest : closed = true → b.completing = true ∧ b.running = false ∧ b.ran = b.accepted) :
    ∃ b', (machine run st).Reaches Machine.Any b b' ∧ Inv run st b' ∧
      b'.view = { b.view with closed := closed } := by
  cases hb : b.closed with
  | true => exact ⟨b, .refl, h, by rw [hc hb, ← hb]; rfl⟩
  | false =>
    cases closed with
    | false => exact ⟨b, .refl, h, by rw [← hb]; rfl⟩
    | true =>
      obtain ⟨hcompleting, hidle, hran⟩ := hrest rfl
      have hmailbox : b.mailbox = [] := by rw [h.mailbox, hran, List.drop_length]
      have hs : b.step run .close = some { b with closed := true } := by
        simp [Mailbox.step, hcompleting, hidle, hmailbox, hb]
      exact ⟨_, (h.reaches hs).1, (h.reaches hs).2, rfl⟩

theorem Inv.exists_completed {st : S} {completed : Bool} (h : Inv run st b)
    (hc : b.completed = true → completed = true) (hclosed : completed = true → b.closed = true) :
    ∃ b', (machine run st).Reaches Machine.Any b b' ∧
      b'.view = { b.view with completed := completed } := by
  cases hb : b.completed with
  | true => exact ⟨b, .refl, by rw [hc hb, ← hb]; rfl⟩
  | false =>
    cases completed with
    | false => exact ⟨b, .refl, by rw [← hb]; rfl⟩
    | true =>
      have hs : b.step run .completed = some { b with completed := true } := by
        simp [Mailbox.step, hclosed rfl, hb]
      exact ⟨_, (h.reaches hs).1, rfl⟩

/-- An actor goes on to whatever it can look like. -/
theorem Inv.exists_reaches {st : S} {v : View F} (h : Inv run st b) (hm : b.view.Moves v)
    (hok : v.Ok) : ∃ b', (machine run st).Reaches Machine.Any b b' ∧ b'.view = v := by
  have hdone : b.closed = true → v.accepted = b.accepted ∧ v.ran = b.ran := by
    intro hc
    have haccepted : v.accepted = b.accepted := by
      rcases hm.accepted with heq | ⟨hopen, -⟩
      · exact heq
      · cases hc.symm.trans hopen
    refine ⟨haccepted, ?_⟩
    have hran : b.ran = b.accepted := by
      rw [h.accepted, (h.closed hc).2.2, List.append_nil]
    exact (hok.closed (hm.closed hc)).2.2.trans (haccepted.trans hran.symm)
  obtain ⟨b₁, hr₁, hi₁, hv₁⟩ := h.exists_accepted hm.accepted
  simp only [view, View.mk.injEq] at hv₁
  obtain ⟨haccepted₁, hran₁, hrunning₁, hcompleting₁, hclosed₁, hcompleted₁⟩ := hv₁
  obtain ⟨b₂, hr₂, hi₂, hv₂⟩ := hi₁.exists_runs hm.ran hran₁ hrunning₁
    (by rw [haccepted₁]; exact hok.ran)
    (fun hc => by rw [hran₁]; exact (hdone (hclosed₁ ▸ hc)).2)
  simp only [view, View.mk.injEq] at hv₂
  obtain ⟨haccepted₂, hran₂, hrunning₂, hcompleting₂, hclosed₂, hcompleted₂⟩ := hv₂
  obtain ⟨b₃, hr₃, hi₃, hv₃⟩ := hi₂.exists_completing
    fun hc => hm.completing ((hcompleting₂.trans hcompleting₁).symm.trans hc)
  simp only [view, View.mk.injEq] at hv₃
  obtain ⟨haccepted₃, hran₃, hrunning₃, hcompleting₃, hclosed₃, hcompleted₃⟩ := hv₃
  obtain ⟨b₄, hr₄, hi₄, hv₄⟩ := hi₃.exists_closed
    (fun hc => hm.closed ((hclosed₃.trans (hclosed₂.trans hclosed₁)).symm.trans hc))
    fun hc => by
      obtain ⟨hcompleting, hidle, hran⟩ := hok.closed hc
      rw [hcompleting₃, hrunning₃, hran₃, haccepted₃, hran₂, haccepted₂, haccepted₁, hrunning₂]
      exact ⟨hcompleting, hidle, hran⟩
  simp only [view, View.mk.injEq] at hv₄
  obtain ⟨haccepted₄, hran₄, hrunning₄, hcompleting₄, hclosed₄, hcompleted₄⟩ := hv₄
  obtain ⟨b₅, hr₅, hv₅⟩ := hi₄.exists_completed
    (fun hc => hm.completed
      ((hcompleted₄.trans (hcompleted₃.trans (hcompleted₂.trans hcompleted₁))).symm.trans hc))
    fun hc => hclosed₄.trans (hok.completed hc)
  refine ⟨b₅, hr₁.trans (hr₂.trans (hr₃.trans (hr₄.trans hr₅))), ?_⟩
  rw [hv₅]
  simp only [view, haccepted₄, hran₄, hrunning₄, hcompleting₄, hclosed₄, haccepted₃, hran₃, hrunning₃,
    hcompleting₃, haccepted₂, hran₂, hrunning₂, haccepted₁]

/-- A program whose steps move what can be seen of an actor as an actor moves it. -/
theorem simulates {σ ι : Type*} {M : Machine σ ι} {G : σ → ι → Prop} (view : σ → View F) (st : S)
    (hinit : view M.init = {}) (hok : ∀ s, M.Reachable G s → (view s).Ok)
    (hstep : ∀ s a s', M.Reachable G s → G s a → M.step s a = some s' →
      (view s).Moves (view s')) :
    M.Simulates (machine run st) G Machine.Any fun s b => b.view = view s where
  init := hinit.symm
  step s a s' _ hs hb h hg hst :=
    (reachable_inv hb).exists_reaches (h ▸ hstep s a s' hs hg hst) (hok s' (hs.step hg hst))

end Mailbox

end Interleaving
