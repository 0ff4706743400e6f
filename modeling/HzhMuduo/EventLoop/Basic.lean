import HzhMuduo.Foundation.BatchQueue
import Mathlib.Logic.Function.Basic

/-!
# The event loop and the threads that call it

One `EventLoop` object, the thread that runs `loop()` and any number of other threads that
call `queueInLoop`, `runInLoop` and `quit` on it.  A step is one access to shared state: a
store to a flag, the push or the swap under the mutex, the write to or the read of the
eventfd.

The loop thread is at a `LoopPc`; inside an event handler or a functor it runs user code,
which may call back into the loop.  Another thread `u` is at an `OtherPc`: outside the loop's
functions, before its push, or between its push (or flag store) and the wakeup write.

Only the wakeup and the task queue are modelled here; the channels of a poll result are the
wakeup channel and channels with some handler (`Ready`).  The history fields `calls`, `direct`
and `quitDone` record which calls were made or have returned and are read by no step.
-/

namespace HzhMuduo

variable {F : Type*}

/-- A functor in the queue, with the thread that queued it; `none` is the loop thread. -/
structure Call (F : Type*) where
  caller : Option ℕ
  functor : F
  deriving DecidableEq

/-- A channel in `activeChannels_`. -/
inductive Ready
  | wakeup
  | io
  deriving DecidableEq

/-- What the user code of the loop thread was called from. -/
inductive Context
  | handler (active : List Ready)
  | functor
  deriving DecidableEq

/-- Where the user code stands: between two calls, or inside `queueInLoop` after the push. -/
inductive Code
  | free
  | pushed
  deriving DecidableEq

/-- Where the loop thread stands. -/
inductive LoopPc
  | outside
  | entered
  | testing
  | polling
  | dispatching (active : List Ready)
  | swapping
  | running
  | user (ctx : Context) (code : Code)
  deriving DecidableEq

/-- Where another thread stands. -/
inductive OtherPc (F : Type*)
  | idle
  | pushing (f : F)
  | waking
  | quitting
  deriving DecidableEq

/-- The thread has made its push or its flag store and not yet its wakeup write. -/
def OtherPc.owesWakeup : OtherPc F → Prop
  | .waking | .quitting => True
  | .idle | .pushing _ => False

structure EventLoop (F : Type*) where
  looping : Bool
  quit : Bool
  callingPendingFuntors : Bool
  wakeupFd : ℕ
  queue : BatchQueue (Call F)
  pc : LoopPc
  other : ℕ → OtherPc F
  calls : ℕ → List F
  direct : List F
  quitDone : Bool

namespace EventLoop

/-- `pendingFunctors_`. -/
def pendingFunctors (l : EventLoop F) : List (Stamped (Call F)) := l.queue.pending

/-- The rest of the local vector `functors` of `doPendingFunctors`. -/
def functors (l : EventLoop F) : List (Stamped (Call F)) := l.queue.batch

/-- `wakeup()`: the write adds one, or fails because the counter is already positive. -/
def wakeup (l : EventLoop F) (ok : Bool) : Option (EventLoop F) :=
  if ok then some { l with wakeupFd := l.wakeupFd + 1 }
  else if 0 < l.wakeupFd then some l
  else none

/-- Steps of the loop thread. -/
inductive LoopAct (F : Type*)
  | enter
  | clearQuit
  | test
  | poll (ready : List Ready)
  | dispatch
  | setFlag
  | swap
  | call
  | clearFlag
  | queueInLoop (f : F)
  | wakeup (ok : Bool)
  | runInLoop (f : F)
  | quit
  | ret

/-- Steps of another thread. -/
inductive OtherAct (F : Type*)
  | queueInLoop (f : F)
  | runInLoop (f : F)
  | push
  | quit
  | wakeup (ok : Bool)

/-- A step of the loop thread (`loop` and `doPendingFunctors`, and `queueInLoop`, `runInLoop`
and `quit` called from a handler or a functor). -/
def loopStep (l : EventLoop F) : LoopAct F → Option (EventLoop F)
  | .enter => if l.pc = .outside then some { l with looping := true, pc := .entered } else none
  | .clearQuit => if l.pc = .entered then some { l with quit := false, pc := .testing } else none
  | .test =>
    if l.pc = .testing then
      if l.quit then some { l with looping := false, pc := .outside }
      else some { l with pc := .polling }
    else none
  | .poll ready => if l.pc = .polling then some { l with pc := .dispatching ready } else none
  | .dispatch =>
    match l.pc with
    | .dispatching (.wakeup :: active) => some { l with wakeupFd := 0, pc := .dispatching active }
    | .dispatching (.io :: active) => some { l with pc := .user (.handler active) .free }
    | _ => none
  | .setFlag =>
    if l.pc = .dispatching [] then some { l with callingPendingFuntors := true, pc := .swapping }
    else none
  | .swap =>
    if l.pc = .swapping then some { l with queue := l.queue.swap, pc := .running } else none
  | .call =>
    if l.pc = .running then
      l.queue.take.map fun x => { l with queue := x.2, pc := .user .functor .free }
    else none
  | .clearFlag =>
    if l.pc = .running ∧ l.queue.batch = [] then
      some { l with callingPendingFuntors := false, pc := .testing }
    else none
  | .queueInLoop f =>
    match l.pc with
    | .user ctx .free => some { l with queue := l.queue.push ⟨none, f⟩, pc := .user ctx .pushed }
    | _ => none
  | .wakeup ok =>
    match l.pc with
    | .user ctx .pushed =>
      -- `isInLoopThread()` holds here, so only the flag decides
      if l.callingPendingFuntors then
        (l.wakeup ok).map fun l => { l with pc := .user ctx .free }
      else some { l with pc := .user ctx .free }
    | _ => none
  | .runInLoop f =>
    match l.pc with
    | .user _ .free => some { l with direct := l.direct ++ [f] }
    | _ => none
  | .quit =>
    match l.pc with
    | .user _ .free => some { l with quit := true, quitDone := true }
    | _ => none
  | .ret =>
    match l.pc with
    | .user (.handler active) .free => some { l with pc := .dispatching active }
    | .user .functor .free => some { l with pc := .running }
    | _ => none

/-- Thread `u` goes to `pc`. -/
def setOther (l : EventLoop F) (u : ℕ) (pc : OtherPc F) : EventLoop F :=
  { l with other := Function.update l.other u pc }

/-- Thread `u` enters `queueInLoop`. -/
def beginCall (l : EventLoop F) (u : ℕ) (f : F) : EventLoop F :=
  { l.setOther u (.pushing f) with calls := Function.update l.calls u (l.calls u ++ [f]) }

/-- A step of thread `u`; `runInLoop` is `queueInLoop` there, since `isInLoopThread()` is
false. -/
def otherStep (l : EventLoop F) (u : ℕ) : OtherAct F → Option (EventLoop F)
  | .queueInLoop f | .runInLoop f =>
    match l.other u with
    | .idle => some (l.beginCall u f)
    | _ => none
  | .push =>
    match l.other u with
    | .pushing f => some { l.setOther u .waking with queue := l.queue.push ⟨some u, f⟩ }
    | _ => none
  | .quit =>
    match l.other u with
    | .idle => some { l.setOther u .quitting with quit := true }
    | _ => none
  | .wakeup ok =>
    match l.other u with
    | .waking => (l.setOther u .idle).wakeup ok
    | .quitting => ({ l.setOther u .idle with quitDone := true }).wakeup ok
    | _ => none

/-- A step of some thread. -/
inductive Act (F : Type*)
  | loop (a : LoopAct F)
  | other (u : ℕ) (a : OtherAct F)

def step (l : EventLoop F) : Act F → Option (EventLoop F)
  | .loop a => l.loopStep a
  | .other u a => l.otherStep u a

/-- The loop after its constructor, with some value in the eventfd. -/
def new (F : Type*) (counter : ℕ) : EventLoop F where
  looping := false
  quit := false
  callingPendingFuntors := false
  wakeupFd := counter
  queue := .empty
  pc := .outside
  other := fun _ => .idle
  calls := fun _ => []
  direct := []
  quitDone := false

/-- The loop thread and all other threads, interleaved. -/
def system (F : Type*) : TransitionSystem (EventLoop F) (Act F) where
  init l := ∃ counter, l = new F counter
  step := step

/-! ### What single steps change -/

section Steps

variable {l l' : EventLoop F}

/-- A wakeup leaves the counter positive and changes nothing else. -/
lemma wakeup_eq_some {ok : Bool} (h : l.wakeup ok = some l') :
    0 < l'.wakeupFd ∧ l' = { l with wakeupFd := l'.wakeupFd } := by
  unfold wakeup at h
  split at h
  · obtain rfl := Option.some.inj h
    exact ⟨Nat.succ_pos _, rfl⟩
  · split at h
    · next hpos =>
      obtain rfl := Option.some.inj h
      exact ⟨hpos, rfl⟩
    · cases h

/-- What a step of the loop thread can be, one case for each label. -/
inductive LoopStep (l : EventLoop F) : LoopAct F → EventLoop F → Prop
  | enter (hpc : l.pc = .outside) : LoopStep l .enter { l with looping := true, pc := .entered }
  | clearQuit (hpc : l.pc = .entered) : LoopStep l .clearQuit { l with quit := false, pc := .testing }
  | leave (hpc : l.pc = .testing) (hquit : l.quit = true) :
      LoopStep l .test { l with looping := false, pc := .outside }
  | stay (hpc : l.pc = .testing) (hquit : l.quit = false) : LoopStep l .test { l with pc := .polling }
  | poll {ready : List Ready} (hpc : l.pc = .polling) :
      LoopStep l (.poll ready) { l with pc := .dispatching ready }
  | dispatchWakeup {active : List Ready} (hpc : l.pc = .dispatching (.wakeup :: active)) :
      LoopStep l .dispatch { l with wakeupFd := 0, pc := .dispatching active }
  | dispatchIo {active : List Ready} (hpc : l.pc = .dispatching (.io :: active)) :
      LoopStep l .dispatch { l with pc := .user (.handler active) .free }
  | setFlag (hpc : l.pc = .dispatching []) :
      LoopStep l .setFlag { l with callingPendingFuntors := true, pc := .swapping }
  | swap (hpc : l.pc = .swapping) : LoopStep l .swap { l with queue := l.queue.swap, pc := .running }
  | call {x : Stamped (Call F)} {q : BatchQueue (Call F)} (hpc : l.pc = .running)
      (htake : l.queue.take = some (x, q)) :
      LoopStep l .call { l with queue := q, pc := .user .functor .free }
  | clearFlag (hpc : l.pc = .running) (hbatch : l.queue.batch = []) :
      LoopStep l .clearFlag { l with callingPendingFuntors := false, pc := .testing }
  | queueInLoop {ctx : Context} {f : F} (hpc : l.pc = .user ctx .free) :
      LoopStep l (.queueInLoop f) { l with queue := l.queue.push ⟨none, f⟩, pc := .user ctx .pushed }
  | wakeup {ctx : Context} {ok : Bool} {n : ℕ} (hpc : l.pc = .user ctx .pushed) (hn : 0 < n) :
      LoopStep l (.wakeup ok) { l with wakeupFd := n, pc := .user ctx .free }
  | noWakeup {ctx : Context} {ok : Bool} (hpc : l.pc = .user ctx .pushed)
      (hflag : l.callingPendingFuntors = false) :
      LoopStep l (.wakeup ok) { l with pc := .user ctx .free }
  | runInLoop {ctx : Context} {f : F} (hpc : l.pc = .user ctx .free) :
      LoopStep l (.runInLoop f) { l with direct := l.direct ++ [f] }
  | quit {ctx : Context} (hpc : l.pc = .user ctx .free) :
      LoopStep l .quit { l with quit := true, quitDone := true }
  | retHandler {active : List Ready} (hpc : l.pc = .user (.handler active) .free) :
      LoopStep l .ret { l with pc := .dispatching active }
  | retFunctor (hpc : l.pc = .user .functor .free) : LoopStep l .ret { l with pc := .running }

/-- Every step of the loop thread is one of these. -/
theorem loopStep_cases {a : LoopAct F} (h : l.loopStep a = some l') : LoopStep l a l' := by
  cases a with
  | enter | clearQuit | poll ready | setFlag | swap =>
    obtain ⟨hpc, h⟩ := Option.ite_none_right_eq_some.mp h
    obtain rfl := Option.some.inj h
    constructor
    exact hpc
  | test =>
    obtain ⟨hpc, h⟩ := Option.ite_none_right_eq_some.mp h
    cases hq : l.quit with
    | true =>
      obtain rfl := Option.some.inj ((if_pos hq).symm.trans h)
      exact .leave hpc hq
    | false =>
      obtain rfl := Option.some.inj ((if_neg (by simp [hq])).symm.trans h)
      exact .stay hpc hq
  | clearFlag =>
    obtain ⟨⟨hpc, hbatch⟩, h⟩ := Option.ite_none_right_eq_some.mp h
    obtain rfl := Option.some.inj h
    exact .clearFlag hpc hbatch
  | call =>
    obtain ⟨hpc, h⟩ := Option.ite_none_right_eq_some.mp h
    obtain ⟨⟨x, q⟩, htake, rfl⟩ := Option.map_eq_some_iff.mp h
    exact .call hpc htake
  | dispatch | queueInLoop f | runInLoop f | quit | ret =>
    simp only [loopStep] at h
    split at h <;> first
      | cases h; done
      | obtain rfl := Option.some.inj h
        constructor
        assumption
  | wakeup ok =>
    simp only [loopStep] at h
    split at h
    · next hpc =>
      split at h
      · obtain ⟨l₁, hw, rfl⟩ := Option.map_eq_some_iff.mp h
        obtain ⟨hpos, heq⟩ := wakeup_eq_some hw
        rw [heq]
        exact .wakeup hpc hpos
      · next hflag =>
        obtain rfl := Option.some.inj h
        exact .noWakeup hpc (by simpa using hflag)
    · cases h

@[simp] lemma setOther_other_self (l : EventLoop F) (u : ℕ) (pc : OtherPc F) :
    (l.setOther u pc).other u = pc :=
  Function.update_self ..

lemma setOther_other_of_ne {u v : ℕ} (h : v ≠ u) (pc : OtherPc F) :
    (l.setOther u pc).other v = l.other v :=
  Function.update_of_ne h ..

/-- What a step of another thread can be, one case for each label and place. -/
inductive OtherStep (l : EventLoop F) (u : ℕ) : OtherAct F → EventLoop F → Prop
  | queueInLoop {f : F} (hpc : l.other u = .idle) : OtherStep l u (.queueInLoop f) (l.beginCall u f)
  | runInLoop {f : F} (hpc : l.other u = .idle) : OtherStep l u (.runInLoop f) (l.beginCall u f)
  | push {f : F} (hpc : l.other u = .pushing f) :
      OtherStep l u .push { l.setOther u .waking with queue := l.queue.push ⟨some u, f⟩ }
  | quit (hpc : l.other u = .idle) : OtherStep l u .quit { l.setOther u .quitting with quit := true }
  | wakeup {ok : Bool} {n : ℕ} (hpc : l.other u = .waking) (hn : 0 < n) :
      OtherStep l u (.wakeup ok) { l.setOther u .idle with wakeupFd := n }
  | quitWakeup {ok : Bool} {n : ℕ} (hpc : l.other u = .quitting) (hn : 0 < n) :
      OtherStep l u (.wakeup ok) { l.setOther u .idle with wakeupFd := n, quitDone := true }

/-- Every step of another thread is one of these. -/
theorem otherStep_cases {u : ℕ} {a : OtherAct F} (h : l.otherStep u a = some l') :
    OtherStep l u a l' := by
  cases a with
  | queueInLoop f | runInLoop f | push | quit =>
    simp only [otherStep] at h
    split at h <;> first
      | cases h; done
      | obtain rfl := Option.some.inj h
        constructor
        assumption
  | wakeup ok =>
    simp only [otherStep] at h
    split at h
    · next hpc =>
      obtain ⟨hpos, heq⟩ := wakeup_eq_some h
      rw [heq]
      exact .wakeup hpc hpos
    · next hpc =>
      obtain ⟨hpos, heq⟩ := wakeup_eq_some h
      rw [heq]
      exact .quitWakeup hpc hpos
    · cases h

end Steps

end EventLoop

end HzhMuduo
