import AsyncCpp.Basic
import AsyncCpp.AsyncPrimitives.CtsSharedState
import AsyncCpp.Lib.Machine

/-!
# Cancellation tokens

The machine of one `CtsSharedState` with all its users: `Register`, `Cancel` and
`CancellationRegistration::Dispose` from any number of threads. `_isCanceled` is an atomic
outside `_cancelActionsMutex`, so every access to it is a step of its own. A callback runs
inside the call that runs it and may return or throw; while it runs, its thread may call
into the token again, and blocks for good where it holds the mutex.

`Register` calls are numbered in the order they are made; a call's number is its callback
and its registration. `_disposeAction` of a registration is known to the object that holds
it, which may be moved. The shared state outlives the run.

Results:
* `TokenSystem.step_cases`: what one step can do.
-/

namespace AsyncCpp.AsyncPrimitives

open Interleaving

variable {ε T : Type*}

/-- A call of `Register`, `NotifyCanceled` or `Dispose` that has not returned. -/
inductive CtsFrame where
  /-- `Register` of callback `r` before `_cancelActionsMutex`. -/
  | registerLock (r : ℕ)
  /-- `Register` holds the mutex, before `IsCancellationRequested()`. -/
  | registerTest (r : ℕ)
  /-- `Register` holds the mutex and saw that no cancellation was requested. -/
  | registerPush (r : ℕ)
  /-- `Register` holds the mutex and runs its callback. -/
  | registerAction (r : ℕ)
  /-- `NotifyCanceled` before the exchange. -/
  | exchange
  /-- `RunCancelActions` before the mutex. -/
  | cancelLock
  /-- `RunCancelActions` in its loop, with the callbacks it has still to run. -/
  | cancelLoop (rs : List ℕ)
  /-- `RunCancelActions` runs callback `r`. -/
  | cancelAction (r : ℕ) (rs : List ℕ)
  /-- `Dispose` of registration `r`: `RemoveCancellation(id)` before the mutex. -/
  | disposeLock (r : ℕ) (id : ℤ)
  deriving DecidableEq, Repr

/-- The token, its mutex, the calls each thread is in (the innermost first), and the
    `CancellationRegistration` objects with the registration whose `_disposeAction` they
    hold. `disposeActions` is that action: `RemoveCancellation` of an id, or `[]{}`. The other
    fields are history: the number of `Register` calls, those with a callback, those that
    returned, the callbacks begun and ended, the registrations whose `Dispose()` was called
    and returned, whether the winning `Cancel` has taken the callbacks over and whether it
    has returned, and how the calls of `Register` and `Cancel` ended. -/
structure TokenSystem (ε T : Type*) where
  cts : CtsSharedState ℕ := {}
  cancelActionsMutex : Option T := none
  stack : T → List CtsFrame := fun _ => []
  objects : ℕ → Option ℕ := fun _ => none
  constructed : ℕ := 0
  disposeActions : ℕ → Option ℤ := fun _ => none
  registered : ℕ := 0
  actions : List ℕ := []
  returned : List ℕ := []
  begun : List ℕ := []
  ended : List ℕ := []
  disposed : List ℕ := []
  disposeReturned : List ℕ := []
  handedOver : Bool := false
  winnerReturned : Bool := false
  callLog : List (Except (Exn ε) Unit) := []

inductive TokenLabel (ε T : Type*) where
  /-- `Register` is called, with a callback or with an empty function. -/
  | register (t : T) (action : Bool)
  | cancel (t : T)
  /-- `Dispose()` of object `o`. -/
  | dispose (t : T) (o : ℕ)
  /-- A registration is move-constructed from object `o`. -/
  | moveConstruct (o : ℕ)
  /-- Object `o` is move-assigned from object `o'`. -/
  | moveAssign (o o' : ℕ)
  /-- The callback that `t` runs ends. -/
  | endAction (t : T) (outcome : Except (Exn ε) Unit)
  /-- Thread `t` goes on with what it is doing. -/
  | run (t : T)

/-- `RunCancelAction` once the action has ended (CtsSharedState.cpp:57-68): `catch (...)`. -/
def runCancelAction : Except (Exn ε) Unit → Except (Exn ε) Unit
  | .ok () => .ok ()
  | .error _ => .ok ()

theorem runCancelAction_eq (outcome : Except (Exn ε) Unit) : runCancelAction outcome = .ok () := by
  cases outcome <;> rfl

/-- The thread is not inside the token's code, or inside a callback. -/
def canCall : List CtsFrame → Bool
  | [] | .registerAction _ :: _ | .cancelAction _ _ :: _ => true
  | _ => false

namespace TokenSystem

variable [DecidableEq T]

/-- Thread `t` is now in the calls `fs`. -/
@[simp] def goto (s : TokenSystem ε T) (t : T) (fs : List CtsFrame) : TokenSystem ε T :=
  { s with stack := Function.update s.stack t fs }

/-- A call of `Register` or `Cancel` ends with `o`. -/
@[simp] def leave (s : TokenSystem ε T) (t : T) (fs : List CtsFrame) (o : Except (Exn ε) Unit) :
    TokenSystem ε T :=
  { s.goto t fs with callLog := s.callLog ++ [o] }

/-- `Register` of callback `r` returns a registration with the given `_disposeAction`. -/
@[simp] def registerReturn (s : TokenSystem ε T) (t : T) (fs : List CtsFrame) (r : ℕ)
    (disposeAction : Option ℤ) : TokenSystem ε T :=
  { s.leave t fs (.ok ()) with
    disposeActions := Function.update s.disposeActions r disposeAction
    objects := Function.update s.objects s.constructed (some r)
    constructed := s.constructed + 1
    returned := s.returned ++ [r] }

/-- Thread `t` goes on (CtsSharedState.cpp:40-116). -/
def run (s : TokenSystem ε T) (t : T) : Option (TokenSystem ε T) :=
  match s.stack t with
  | .registerLock r :: fs =>
    if s.cancelActionsMutex.isNone then
      some { s.goto t (.registerTest r :: fs) with cancelActionsMutex := some t }
    else none
  | .registerTest r :: fs =>
    if s.cts.isCanceled then
      some { s.goto t (.registerAction r :: fs) with begun := s.begun ++ [r] }
    else some (s.goto t (.registerPush r :: fs))
  | .registerPush r :: fs =>
    let (id, cts) := s.cts.pushAction r
    some { s.registerReturn t fs r (some id) with cts := cts, cancelActionsMutex := none }
  | .exchange :: fs =>
    if s.cts.isCanceled then some (s.leave t fs (.ok ()))
    else some { s.goto t (.cancelLock :: fs) with cts := { s.cts with isCanceled := true } }
  | .cancelLock :: fs =>
    if s.cancelActionsMutex.isNone then
      let (rs, cts) := s.cts.moveActions
      some { s.goto t (.cancelLoop rs :: fs) with cts := cts, handedOver := true }
    else none
  | .cancelLoop [] :: fs => some { s.leave t fs (.ok ()) with winnerReturned := true }
  | .cancelLoop (r :: rs) :: fs =>
    some { s.goto t (.cancelAction r rs :: fs) with begun := s.begun ++ [r] }
  | .disposeLock r id :: fs =>
    if s.cancelActionsMutex.isNone then
      some { s.goto t fs with
        cts := s.cts.removeCancellation id, disposeReturned := s.disposeReturned ++ [r] }
    else none
  | .registerAction _ :: _ | .cancelAction _ _ :: _ | [] => none

/-- The callback that thread `t` runs ends with `outcome`. An exception that left
    `RunCancelAction` would leave `Register` or `Cancel`. -/
def endAction (s : TokenSystem ε T) (t : T) (outcome : Except (Exn ε) Unit) :
    Option (TokenSystem ε T) :=
  match s.stack t with
  | .registerAction r :: fs =>
    match runCancelAction outcome with
    | .ok () =>
      some { s.registerReturn t fs r none with
        cancelActionsMutex := none, ended := s.ended ++ [r] }
    | .error e =>
      some { s.leave t fs (.error e) with cancelActionsMutex := none, ended := s.ended ++ [r] }
  | .cancelAction r rs :: fs =>
    match runCancelAction outcome with
    | .ok () => some { s.goto t (.cancelLoop rs :: fs) with ended := s.ended ++ [r] }
    | .error e => some { s.leave t fs (.error e) with ended := s.ended ++ [r] }
  | _ => none

/-- `Dispose()` of object `o` up to the mutex (CancellationRegistration.cpp:21-27). -/
def dispose (s : TokenSystem ε T) (t : T) (o : ℕ) : TokenSystem ε T :=
  match s.objects o with
  | none => s
  | some r =>
    match s.disposeActions r with
    | none =>
      { s with disposed := s.disposed ++ [r], disposeReturned := s.disposeReturned ++ [r] }
    | some id => { s.goto t (.disposeLock r id :: s.stack t) with disposed := s.disposed ++ [r] }

def step (s : TokenSystem ε T) : TokenLabel ε T → Option (TokenSystem ε T)
  | .register t action =>
    if canCall (s.stack t) then
      if action then
        some { s.goto t (.registerLock s.registered :: s.stack t) with
          registered := s.registered + 1, actions := s.actions ++ [s.registered] }
      else some { s.registerReturn t (s.stack t) s.registered none with
        registered := s.registered + 1 }
    else none
  | .cancel t => if canCall (s.stack t) then some (s.goto t (.exchange :: s.stack t)) else none
  | .dispose t o => if canCall (s.stack t) then some (s.dispose t o) else none
  | .moveConstruct o =>
    some { s with
      objects := Function.update (Function.update s.objects s.constructed (s.objects o)) o none
      constructed := s.constructed + 1 }
  | .moveAssign o o' =>
    some { s with
      objects := Function.update (Function.update s.objects o (s.objects o')) o' (s.objects o) }
  | .endAction t outcome => s.endAction t outcome
  | .run t => s.run t

end TokenSystem

/-- The machine of a new token. -/
def tokenMachine (ε T : Type*) [DecidableEq T] :
    Machine (TokenSystem ε T) (TokenLabel ε T) where
  init := {}
  step := TokenSystem.step

/-! ## What one step can do -/

/-- The steps of the machine, one constructor for each branch of the code. -/
inductive TokenStep [DecidableEq T] (s : TokenSystem ε T) :
    TokenLabel ε T → TokenSystem ε T → Prop
  | register {t} (hcall : canCall (s.stack t)) :
    TokenStep s (.register t true) { s.goto t (.registerLock s.registered :: s.stack t) with
      registered := s.registered + 1, actions := s.actions ++ [s.registered] }
  | registerNull {t} (hcall : canCall (s.stack t)) :
    TokenStep s (.register t false) { s.registerReturn t (s.stack t) s.registered none with
      registered := s.registered + 1 }
  | cancel {t} (hcall : canCall (s.stack t)) :
    TokenStep s (.cancel t) (s.goto t (.exchange :: s.stack t))
  | disposeEmpty {t o} (ho : s.objects o = none) : TokenStep s (.dispose t o) s
  | disposeNothing {t o r} (ho : s.objects o = some r) (hr : s.disposeActions r = none) :
    TokenStep s (.dispose t o)
      { s with disposed := s.disposed ++ [r], disposeReturned := s.disposeReturned ++ [r] }
  | disposeRemove {t o r id} (ho : s.objects o = some r) (hr : s.disposeActions r = some id) :
    TokenStep s (.dispose t o)
      { s.goto t (.disposeLock r id :: s.stack t) with disposed := s.disposed ++ [r] }
  | moveConstruct {o} :
    TokenStep s (.moveConstruct o) { s with
      objects := Function.update (Function.update s.objects s.constructed (s.objects o)) o none
      constructed := s.constructed + 1 }
  | moveAssign {o o'} :
    TokenStep s (.moveAssign o o') { s with
      objects := Function.update (Function.update s.objects o (s.objects o')) o' (s.objects o) }
  | endRegister {t outcome r fs} (hst : s.stack t = .registerAction r :: fs) :
    TokenStep s (.endAction t outcome) { s.registerReturn t fs r none with
      cancelActionsMutex := none, ended := s.ended ++ [r] }
  | endCancel {t outcome r rs fs} (hst : s.stack t = .cancelAction r rs :: fs) :
    TokenStep s (.endAction t outcome)
      { s.goto t (.cancelLoop rs :: fs) with ended := s.ended ++ [r] }
  | registerLock {t r fs} (hst : s.stack t = .registerLock r :: fs)
      (hm : s.cancelActionsMutex = none) :
    TokenStep s (.run t) { s.goto t (.registerTest r :: fs) with cancelActionsMutex := some t }
  | registerRun {t r fs} (hst : s.stack t = .registerTest r :: fs) (hc : s.cts.isCanceled = true) :
    TokenStep s (.run t) { s.goto t (.registerAction r :: fs) with begun := s.begun ++ [r] }
  | registerKeep {t r fs} (hst : s.stack t = .registerTest r :: fs)
      (hc : s.cts.isCanceled = false) :
    TokenStep s (.run t) (s.goto t (.registerPush r :: fs))
  | registerPush {t r fs} (hst : s.stack t = .registerPush r :: fs) :
    TokenStep s (.run t)
      { s.registerReturn t fs r (some (s.cts.cancellationActionCounter + 1)) with
        cts := (s.cts.pushAction r).2, cancelActionsMutex := none }
  | exchangeWin {t fs} (hst : s.stack t = .exchange :: fs) (hc : s.cts.isCanceled = false) :
    TokenStep s (.run t)
      { s.goto t (.cancelLock :: fs) with cts := { s.cts with isCanceled := true } }
  | exchangeLose {t fs} (hst : s.stack t = .exchange :: fs) (hc : s.cts.isCanceled = true) :
    TokenStep s (.run t) (s.leave t fs (.ok ()))
  | cancelLock {t fs} (hst : s.stack t = .cancelLock :: fs) (hm : s.cancelActionsMutex = none) :
    TokenStep s (.run t)
      { s.goto t (.cancelLoop (s.cts.cancelActions.map Prod.snd) :: fs) with
        cts := { s.cts with cancelActions := [] }, handedOver := true }
  | cancelReturn {t fs} (hst : s.stack t = .cancelLoop [] :: fs) :
    TokenStep s (.run t) { s.leave t fs (.ok ()) with winnerReturned := true }
  | cancelRun {t r rs fs} (hst : s.stack t = .cancelLoop (r :: rs) :: fs) :
    TokenStep s (.run t) { s.goto t (.cancelAction r rs :: fs) with begun := s.begun ++ [r] }
  | disposeRun {t r id fs} (hst : s.stack t = .disposeLock r id :: fs)
      (hm : s.cancelActionsMutex = none) :
    TokenStep s (.run t) { s.goto t fs with
      cts := s.cts.removeCancellation id, disposeReturned := s.disposeReturned ++ [r] }

namespace TokenSystem

variable [DecidableEq T] {s s' : TokenSystem ε T} {t : T}

theorem run_cases (hs : s.run t = some s') : TokenStep s (.run t) s' := by
  unfold run at hs
  split at hs
  case h_1 hst =>
    split at hs <;> cases hs
    exact .registerLock hst (Option.isNone_iff_eq_none.mp ‹_›)
  case h_2 hst =>
    split at hs <;> cases hs
    · exact .registerRun hst ‹_›
    · rename_i hc
      exact .registerKeep hst (Bool.eq_false_iff.mpr hc)
  case h_3 hst =>
    cases hs
    exact .registerPush hst
  case h_4 hst =>
    split at hs <;> cases hs
    · exact .exchangeLose hst ‹_›
    · rename_i hc
      exact .exchangeWin hst (Bool.eq_false_iff.mpr hc)
  case h_5 hst =>
    split at hs <;> cases hs
    exact .cancelLock hst (Option.isNone_iff_eq_none.mp ‹_›)
  case h_6 hst =>
    cases hs
    exact .cancelReturn hst
  case h_7 hst =>
    cases hs
    exact .cancelRun hst
  case h_8 hst =>
    split at hs <;> cases hs
    exact .disposeRun hst (Option.isNone_iff_eq_none.mp ‹_›)
  all_goals cases hs

/-- Whatever a callback ends with, its caller goes on in the same way. -/
theorem endAction_cases {outcome : Except (Exn ε) Unit} (hs : s.endAction t outcome = some s') :
    TokenStep s (.endAction t outcome) s' := by
  simp only [endAction, runCancelAction_eq] at hs
  split at hs
  case h_1 hst =>
    cases hs
    exact .endRegister hst
  case h_2 hst =>
    cases hs
    exact .endCancel hst
  case h_3 => cases hs

theorem step_cases {a : TokenLabel ε T} (hs : s.step a = some s') : TokenStep s a s' := by
  cases a with
  | register t action =>
    simp only [step] at hs
    split at hs
    case isFalse => cases hs
    case isTrue hcall =>
      split at hs <;> cases hs
      · rename_i haction
        rw [haction]
        exact .register hcall
      · rename_i haction
        rw [Bool.not_eq_true] at haction
        rw [haction]
        exact .registerNull hcall
  | cancel t =>
    simp only [step] at hs
    split at hs <;> cases hs
    exact .cancel ‹_›
  | dispose t o =>
    simp only [step, dispose] at hs
    split at hs <;> cases hs
    split
    case h_1 ho => exact .disposeEmpty ho
    case h_2 r ho =>
      split
      case h_1 hr => exact .disposeNothing ho hr
      case h_2 id hr => exact .disposeRemove ho hr
  | moveConstruct o =>
    cases hs
    exact .moveConstruct
  | moveAssign o o' =>
    cases hs
    exact .moveAssign
  | endAction t outcome => exact endAction_cases hs
  | run t => exact run_cases hs

end TokenSystem

end AsyncCpp.AsyncPrimitives
