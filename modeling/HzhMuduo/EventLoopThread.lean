import HzhMuduo.EventLoop.Basic

/-!
# A loop in a thread of its own, and its shutdown

`EventLoopThread` starts a thread whose function builds an `EventLoop` on its stack, runs the
init callback, publishes the loop's address and calls `loop()`.  The owner waits for the
address in `startLoop`, may then call the loop's functions, and at the end runs the
destructor, which asks the loop to quit and joins the thread.

A quit request can be lost: `loop()` begins by storing false to `quit_`, and `startLoop`
returns before that.  `quit_of_quitDone` is the exact rule: in the runs in which nobody stores
true to `quit_` before `loop()` has stored its false, no request is forgotten.
`exists_quitDone_and_not_quit` is a run that breaks the rule and forgets one.
-/

namespace HzhMuduo

/-- Where the thread of `threadFunc` stands.  Behind the store of null to `loop_` it still holds
`mutex_`, then it destroys its loop, and then it has finished. -/
inductive ThreadPc
  | notStarted
  | constructing
  | callback
  | publishing
  | aboutToLoop
  | inLoop
  | clearing
  | unlocking
  | destructing
  | finished
  deriving DecidableEq

/-- `loop_` has been set to null again. -/
def ThreadPc.leaving : ThreadPc → Bool
  | .unlocking | .destructing | .finished => true
  | _ => false

/-- `loop()` has returned. -/
def ThreadPc.returned : ThreadPc → Bool
  | .clearing => true
  | t => t.leaving

/-- Where the owner stands: before and in `startLoop`, holding the address it returned, in the
destructor, and done. -/
inductive OwnerPc
  | created
  | waiting
  | holding
  | testing
  | quitting
  | waking
  | joining
  | done
  deriving DecidableEq

/-- The thread object; `loop` is the object on the stack of `threadFunc` and `loopPtr` says
that `loop_` holds its address.  The owner is thread 0 among the callers of the loop. -/
structure EventLoopThread (F : Type*) where
  loop : EventLoop F
  loopPtr : Bool
  exiting : Bool
  thread : ThreadPc
  owner : OwnerPc

/-- The thread is in no call on the loop. -/
def OtherPc.isIdle {F : Type*} : OtherPc F → Bool
  | .idle => true
  | _ => false

namespace EventLoopThread

open EventLoop (OtherAct LoopAct)

variable {F : Type*}

/-- Steps of the owner, of the thread, and of further threads that got hold of the loop. -/
inductive Act (F : Type*)
  | start
  | wait
  | call (a : OtherAct F)
  | destroy
  | test
  | quit
  | wakeup (ok : Bool)
  | join
  | construct
  | callbackQuit
  | callbackRet
  | publish
  | enter
  | loop (a : LoopAct F)
  | clear
  | unlock
  | finish
  | other (u : ℕ) (a : OtherAct F)

def step (s : EventLoopThread F) : Act F → Option (EventLoopThread F)
  | .start =>
    if s.owner = .created ∧ s.thread = .notStarted then
      some { s with owner := .waiting, thread := .constructing }
    else none
  | .wait => if s.owner = .waiting ∧ s.loopPtr then some { s with owner := .holding } else none
  | .call a =>
    if s.owner = .holding then (s.loop.otherStep 0 a).map fun l => { s with loop := l } else none
  -- `~EventLoopThread`: the flag, the test of `loop_`, `quit()` in two steps, `join()`
  | .destroy =>
    if s.owner = .created ∨ s.owner = .holding ∧ (s.loop.other 0).isIdle then
      some { s with exiting := true, owner := .testing }
    else none
  | .test =>
    if s.owner = .testing then some { s with owner := if s.loopPtr then .quitting else .done }
    else none
  | .quit =>
    if s.owner = .quitting then
      (s.loop.otherStep 0 .quit).map fun l => { s with loop := l, owner := .waking }
    else none
  | .wakeup ok =>
    if s.owner = .waking then
      (s.loop.otherStep 0 (.wakeup ok)).map fun l => { s with loop := l, owner := .joining }
    else none
  | .join =>
    if s.owner = .joining ∧ s.thread = .finished then some { s with owner := .done } else none
  -- `threadFunc`
  | .construct =>
    if s.thread = .constructing then some { s with loop := .new F 0, thread := .callback } else none
  | .callbackQuit =>
    if s.thread = .callback then
      some { s with loop := { s.loop with quit := true, quitDone := true } }
    else none
  | .callbackRet => if s.thread = .callback then some { s with thread := .publishing } else none
  | .publish =>
    if s.thread = .publishing then some { s with loopPtr := true, thread := .aboutToLoop } else none
  | .enter =>
    if s.thread = .aboutToLoop then
      (s.loop.loopStep .enter).map fun l => { s with loop := l, thread := .inLoop }
    else none
  | .loop a =>
    if s.thread = .inLoop then
      (s.loop.loopStep a).map fun l =>
        { s with loop := l, thread := if l.pc = .outside then .clearing else .inLoop }
    else none
  | .clear =>
    if s.thread = .clearing then some { s with loopPtr := false, thread := .unlocking } else none
  -- the end of its scope: `lock` is destroyed before `loop`
  | .unlock => if s.thread = .unlocking then some { s with thread := .destructing } else none
  | .finish => if s.thread = .destructing then some { s with thread := .finished } else none
  | .other u a =>
    if u ≠ 0 ∧ s.thread ≠ .notStarted ∧ s.thread ≠ .constructing then
      (s.loop.otherStep u a).map fun l => { s with loop := l }
    else none

/-- The object after its constructor. -/
def new (F : Type*) : EventLoopThread F where
  loop := .new F 0
  loopPtr := false
  exiting := false
  thread := .notStarted
  owner := .created

def system (F : Type*) : TransitionSystem (EventLoopThread F) (Act F) where
  init s := s = new F
  step := step

/-- `loop()` has executed `quit_ = false`. -/
def Cleared (s : EventLoopThread F) : Prop :=
  (s.thread = .inLoop ∧ s.loop.pc ≠ .entered) ∨ s.thread.returned = true

instance (s : EventLoopThread F) : Decidable s.Cleared :=
  inferInstanceAs (Decidable (_ ∨ _))

/-- The step stores true to `quit_` from outside `loop()`. -/
def Act.storesQuit : Act F → Bool
  | .call .quit | .quit | .callbackQuit | .other _ .quit => true
  | _ => false

/-- The rule that saves a request: stores come after the loop's own store. -/
def StoresAfterClear (s : EventLoopThread F) (a : Act F) : Prop := a.storesQuit = true → s.Cleared

instance (s : EventLoopThread F) (a : Act F) : Decidable (StoresAfterClear s a) :=
  inferInstanceAs (Decidable (_ → _))

end EventLoopThread

namespace EventLoop

variable {F : Type*} {l l' : EventLoop F}

/-- Some call of `quit()` has made its store. -/
def Requested (l : EventLoop F) : Prop := l.quitDone = true ∨ ∃ u, l.other u = .quitting

/-- A thread that goes elsewhere than into `quit()` makes no request. -/
lemma Requested.of_setOther (u : ℕ) {pc : OtherPc F} (hpc : pc ≠ .quitting)
    (h : (l.setOther u pc).Requested) : l.Requested := by
  rcases h with hq | ⟨v, hv⟩
  · exact .inl hq
  · by_cases hvu : v = u
    · subst hvu
      rw [setOther_other_self] at hv
      exact absurd hv hpc
    · rw [setOther_other_of_ne hvu] at hv
      exact .inr ⟨v, hv⟩

/-- A step of another thread either is the store of `quit()` or makes no new request and
leaves `quit_` alone. -/
lemma requested_of_otherStep {u : ℕ} {a : OtherAct F} (h : l.otherStep u a = some l') :
    (a = .quit ∧ l'.quit = true) ∨ (l'.quit = l.quit ∧ (l'.Requested → l.Requested)) := by
  cases otherStep_cases h with
  | @queueInLoop f hpc | @runInLoop f hpc =>
    have hne : OtherPc.pushing f ≠ .quitting := nofun
    exact .inr ⟨rfl, fun hr => Requested.of_setOther u hne hr⟩
  | push hpc =>
    have hne : (OtherPc.waking : OtherPc F) ≠ .quitting := nofun
    exact .inr ⟨rfl, fun hr => Requested.of_setOther u hne hr⟩
  | wakeup hpc =>
    have hne : (OtherPc.idle : OtherPc F) ≠ .quitting := nofun
    exact .inr ⟨rfl, fun hr => Requested.of_setOther u hne hr⟩
  | quit hpc => exact .inl ⟨rfl, rfl⟩
  | quitWakeup hpc => exact .inr ⟨rfl, fun _ => .inr ⟨u, hpc⟩⟩

/-- A thread moves nothing of the loop thread and nothing of the other threads, and what was
requested stays requested. -/
lemma frame_of_otherStep {u : ℕ} {a : OtherAct F} (h : l.otherStep u a = some l') :
    l'.pc = l.pc ∧ (∀ v, v ≠ u → l'.other v = l.other v) ∧
      (l.quitDone = true → l'.quitDone = true) := by
  cases otherStep_cases h with
  | quitWakeup hpc => exact ⟨rfl, fun v hv => setOther_other_of_ne hv _, fun _ => rfl⟩
  | _ => exact ⟨rfl, fun v hv => setOther_other_of_ne hv _, id⟩

/-- The loop thread moves nothing of the other threads, and what was requested stays
requested. -/
lemma frame_of_loopStep {a : LoopAct F} (h : l.loopStep a = some l') :
    l'.other = l.other ∧ (l.quitDone = true → l'.quitDone = true) := by
  cases loopStep_cases h with
  | quit hpc => exact ⟨rfl, fun _ => rfl⟩
  | _ => exact ⟨rfl, id⟩

/-- A step of the loop thread keeps `quit_` when it is set, apart from the store at the
beginning of `loop()`, and what it requests itself is stored at once. -/
lemma requested_of_loopStep {a : LoopAct F} (h : l.loopStep a = some l') :
    (l.pc = .entered ∨ (l.quit = true → l'.quit = true)) ∧
      (l'.Requested → l.Requested ∨ l'.quit = true) := by
  cases loopStep_cases h with
  | clearQuit hpc => exact ⟨.inl hpc, .inl⟩
  | quit hpc => exact ⟨.inr fun _ => rfl, fun _ => .inr rfl⟩
  | _ => exact ⟨.inr id, .inl⟩

/-- Only `enter` leads to the beginning of `loop()`. -/
lemma pc_ne_entered_of_loopStep {a : LoopAct F} (h : l.loopStep a = some l')
    (hpc : l.pc ≠ .outside) : l'.pc ≠ .entered := by
  cases loopStep_cases h with
  | enter hout => exact absurd hout hpc
  | runInLoop hpc => exact fun h => by rw [show l.pc = _ from h] at hpc; cases hpc
  | quit hpc => exact fun h => by rw [show l.pc = _ from h] at hpc; cases hpc
  | _ => exact nofun

end EventLoop

namespace EventLoopThread

open EventLoop (OtherAct LoopAct)

variable {F : Type*} {s s' : EventLoopThread F}

/-- A request made is a request the loop knows of. -/
structure QuitInv (s : EventLoopThread F) : Prop where
  inLoop : s.thread = .inLoop → s.loop.pc ≠ .outside
  cleared : s.loop.Requested → s.Cleared
  stored : s.loop.Requested → s.thread = .inLoop → s.loop.quit = true
  waking : s.owner = .waking → s.loop.other 0 = .quitting
  joining : s.owner = .joining → s.loop.quitDone = true

/-- A new thread object. -/
lemma quitInv_new : QuitInv (new F) where
  inLoop := nofun
  cleared := by
    rintro (h | ⟨u, h⟩) <;> cases h
  stored _ := nofun
  waking := nofun
  joining := nofun

/-- A call on the loop by a thread outside it, as a step of the whole. -/
lemma QuitInv.call (hI : QuitInv s) {u : ℕ} {a : OtherAct F} {l : EventLoop F}
    (hok : a = .quit → s.Cleared) (h : s.loop.otherStep u a = some l) (o : OwnerPc)
    (hwaking : o = .waking → l.other 0 = .quitting) (hjoining : o = .joining → l.quitDone = true) :
    QuitInv { s with loop := l, owner := o } := by
  obtain ⟨hpc, hother, hdone⟩ := EventLoop.frame_of_otherStep h
  have hcleared : s.Cleared → Cleared { s with loop := l, owner := o } := by
    intro hc
    simp only [Cleared, hpc]
    exact hc
  refine ⟨fun ht => hpc ▸ hI.inLoop ht, ?_, ?_, hwaking, hjoining⟩
  · intro hr
    rcases EventLoop.requested_of_otherStep h with ⟨ha, -⟩ | ⟨-, hback⟩
    · exact hcleared (hok ha)
    · exact hcleared (hI.cleared (hback hr))
  · intro hr ht
    rcases EventLoop.requested_of_otherStep h with ⟨-, hq⟩ | ⟨hq, hback⟩
    · exact hq
    · exact hq.trans (hI.stored (hback hr) ht)

/-- Without a request, whatever the thread does next keeps the invariant. -/
lemma QuitInv.of_not_requested (hI : QuitInv s) (hc : ¬ s.Cleared) {l : EventLoop F}
    (hdone : l.quitDone = s.loop.quitDone) (hother : l.other = s.loop.other) (ptr : Bool)
    {t : ThreadPc} (ht : t = .inLoop → l.pc ≠ .outside) :
    QuitInv { s with loop := l, loopPtr := ptr, thread := t } := by
  have hr : ¬ l.Requested := by
    intro hr
    unfold EventLoop.Requested at hr
    rw [hdone, hother] at hr
    exact hc (hI.cleared hr)
  refine ⟨ht, fun h => absurd h hr, fun h => absurd h hr, fun h => ?_, fun h => ?_⟩
  · exact (congrFun hother 0).trans (hI.waking h)
  · exact hdone.trans (hI.joining h)

/-- The loop thread inside `loop()`. -/
lemma QuitInv.loop (hI : QuitInv s) {a : LoopAct F} {l : EventLoop F} (ht : s.thread = .inLoop)
    (h : s.loop.loopStep a = some l) :
    QuitInv { s with loop := l, thread := if l.pc = .outside then .clearing else .inLoop } := by
  obtain ⟨hother, hdone⟩ := EventLoop.frame_of_loopStep h
  obtain ⟨hkeep, hreq⟩ := EventLoop.requested_of_loopStep h
  have hpc := EventLoop.pc_ne_entered_of_loopStep h (hI.inLoop ht)
  refine ⟨fun hin hout => ?_, fun _ => ?_, fun hr hin => ?_, fun ho => ?_, fun ho => ?_⟩
  · have hout : l.pc = .outside := hout
    simp [hout] at hin
  · unfold Cleared
    split
    · exact .inr rfl
    · exact .inl ⟨rfl, hpc⟩
  · rcases hreq hr with hr | hq
    · -- a request was known before the step, so the step was not the store of false
      rcases hkeep with hentered | hkeep
      · rcases hI.cleared hr with ⟨-, hne⟩ | hreturned
        · exact absurd hentered hne
        · rw [ht] at hreturned
          cases hreturned
      · exact hkeep (hI.stored hr ht)
    · exact hq
  · exact (congrFun hother 0).trans (hI.waking ho)
  · exact hdone (hI.joining ho)

/-- The owner moves on without touching the loop. -/
lemma QuitInv.owner (hI : QuitInv s) (e : Bool) {o : OwnerPc} (hwaking : o ≠ .waking)
    (hjoining : o ≠ .joining) : QuitInv { s with exiting := e, owner := o } where
  inLoop := hI.inLoop
  cleared := hI.cleared
  stored := hI.stored
  waking h := absurd h hwaking
  joining h := absurd h hjoining

/-- Before `loop()` the flag is not cleared yet. -/
lemma not_cleared {t : ThreadPc} (ht : s.thread = t) (hne : t ≠ .inLoop ∧ t.returned = false) :
    ¬ s.Cleared := by
  subst ht
  rintro (⟨h, -⟩ | h)
  · exact hne.1 h
  · rw [hne.2] at h
    cases h

/-- Every step that keeps to the rule keeps the invariant. -/
lemma QuitInv.step {a : Act F} (hI : QuitInv s) (hok : StoresAfterClear s a)
    (h : s.step a = some s') : QuitInv s' := by
  cases a with
  | start =>
    obtain ⟨⟨-, ht⟩, h⟩ := Option.ite_none_right_eq_some.mp h
    obtain rfl := Option.some.inj h
    have hc : ¬ s.Cleared := not_cleared ht (by decide)
    have ho := hI.owner s.exiting (o := .waiting) nofun nofun
    exact ho.of_not_requested hc rfl rfl s.loopPtr nofun
  | wait | join =>
    obtain ⟨-, h⟩ := Option.ite_none_right_eq_some.mp h
    obtain rfl := Option.some.inj h
    exact hI.owner s.exiting nofun nofun
  | destroy =>
    obtain ⟨-, h⟩ := Option.ite_none_right_eq_some.mp h
    obtain rfl := Option.some.inj h
    exact hI.owner true nofun nofun
  | test =>
    obtain ⟨-, h⟩ := Option.ite_none_right_eq_some.mp h
    obtain rfl := Option.some.inj h
    refine hI.owner s.exiting ?_ ?_ <;> split <;> decide
  | call a =>
    obtain ⟨ho, h⟩ := Option.ite_none_right_eq_some.mp h
    obtain ⟨l, hl, rfl⟩ := Option.map_eq_some_iff.mp h
    refine hI.call ?_ hl s.owner ?_ ?_
    · rintro rfl
      exact hok rfl
    · rw [ho]
      exact nofun
    · rw [ho]
      exact nofun
  | quit =>
    obtain ⟨-, h⟩ := Option.ite_none_right_eq_some.mp h
    obtain ⟨l, hl, rfl⟩ := Option.map_eq_some_iff.mp h
    refine hI.call (fun _ => hok rfl) hl .waking (fun _ => ?_) nofun
    cases EventLoop.otherStep_cases hl with
    | quit hpc => exact s.loop.setOther_other_self 0 _
  | wakeup ok =>
    obtain ⟨ho, h⟩ := Option.ite_none_right_eq_some.mp h
    obtain ⟨l, hl, rfl⟩ := Option.map_eq_some_iff.mp h
    have hne : OtherAct.wakeup ok ≠ (.quit : OtherAct F) := nofun
    refine hI.call (fun h => absurd h hne) hl .joining nofun fun _ => ?_
    cases EventLoop.otherStep_cases hl with
    | wakeup hpc hn =>
      rw [hI.waking ho] at hpc
      cases hpc
    | quitWakeup hpc hn => rfl
  | construct =>
    obtain ⟨ht, h⟩ := Option.ite_none_right_eq_some.mp h
    obtain rfl := Option.some.inj h
    have hr : ¬ s.loop.Requested := fun hr => not_cleared ht (by decide) (hI.cleared hr)
    refine ⟨nofun, ?_, ?_, fun ho => ?_, fun ho => ?_⟩
    · rintro (hq | ⟨u, hq⟩) <;> cases hq
    · exact fun _ => nofun
    · exact absurd (.inr ⟨0, hI.waking ho⟩) hr
    · exact absurd (.inl (hI.joining ho)) hr
  | callbackQuit =>
    obtain ⟨ht, -⟩ := Option.ite_none_right_eq_some.mp h
    exact absurd (hok rfl) (not_cleared ht (by decide))
  | callbackRet =>
    obtain ⟨ht, h⟩ := Option.ite_none_right_eq_some.mp h
    obtain rfl := Option.some.inj h
    exact hI.of_not_requested (not_cleared ht (by decide)) rfl rfl s.loopPtr nofun
  | publish =>
    obtain ⟨ht, h⟩ := Option.ite_none_right_eq_some.mp h
    obtain rfl := Option.some.inj h
    exact hI.of_not_requested (not_cleared ht (by decide)) rfl rfl true nofun
  | enter =>
    obtain ⟨ht, h⟩ := Option.ite_none_right_eq_some.mp h
    obtain ⟨l, hl, rfl⟩ := Option.map_eq_some_iff.mp h
    have hc : ¬ s.Cleared := not_cleared ht (by decide)
    cases EventLoop.loopStep_cases hl with
    | enter hpc =>
      let l' : EventLoop F := { s.loop with looping := true, pc := .entered }
      have hpc' : l'.pc ≠ .outside := nofun
      exact hI.of_not_requested (l := l') hc rfl rfl s.loopPtr fun _ => hpc'
  | loop a =>
    obtain ⟨ht, h⟩ := Option.ite_none_right_eq_some.mp h
    obtain ⟨l, hl, rfl⟩ := Option.map_eq_some_iff.mp h
    exact hI.loop ht hl
  | clear | unlock | finish =>
    obtain ⟨-, h⟩ := Option.ite_none_right_eq_some.mp h
    obtain rfl := Option.some.inj h
    exact ⟨nofun, fun _ => .inr rfl, fun _ => nofun, hI.waking, hI.joining⟩
  | other u a =>
    obtain ⟨⟨hu, -, -⟩, h⟩ := Option.ite_none_right_eq_some.mp h
    obtain ⟨l, hl, rfl⟩ := Option.map_eq_some_iff.mp h
    obtain ⟨-, hother, hdone⟩ := EventLoop.frame_of_otherStep hl
    refine hI.call ?_ hl s.owner (fun ho => ?_) fun ho => hdone (hI.joining ho)
    · rintro rfl
      exact hok rfl
    · rw [hother 0 (Ne.symm hu)]
      exact hI.waking ho

/-- The rule saves every request: in the runs in which each store of true to `quit_` comes
after the store of false at the beginning of `loop()`, a loop thread inside `loop()` knows of
every completed `quit()`, and so does the one the destructor waits for. -/
theorem quit_of_quitDone
    (h : (EventLoopThread.system F).ReachWhere StoresAfterClear s) :
    (s.loop.quitDone = true → s.thread = .inLoop → s.loop.quit = true) ∧
    (s.owner = .joining → s.thread = .inLoop → s.loop.quit = true) := by
  have hI : QuitInv s := h.invariant (fun s hs => hs ▸ quitInv_new) fun _ _ _ hI hok hs =>
    hI.step hok hs
  refine ⟨fun hq => hI.stored (.inl hq), fun ho => hI.stored (.inl (hI.joining ho))⟩

/-- A shutdown that keeps to the rule: the destructor runs while the loop is at `poll`. -/
def lateQuit : List (Act ℕ) :=
  [.start, .construct, .callbackRet, .publish, .wait, .enter, .loop .clearQuit, .loop .test,
    .destroy, .test, .quit, .wakeup true]

/-- The rule is kept there, and the loop knows of the request. -/
theorem quit_of_quitDone_lateQuit :
    ∃ s, (EventLoopThread.system ℕ).ReachWhere StoresAfterClear s ∧ s.owner = .joining ∧
      s.thread = .inLoop ∧ s.loop.quit = true := by
  obtain ⟨s, hs, hv⟩ := TransitionSystem.exists_reach_of_run
    (M := (EventLoopThread.system ℕ).restrict StoresAfterClear) (s := new ℕ)
    (v := (OwnerPc.joining, ThreadPc.inLoop)) lateQuit (fun s => (s.owner, s.thread)) rfl
    (by decide)
  obtain ⟨howner, hthread⟩ := Prod.mk.inj hv
  have hreach := TransitionSystem.Reach.of_restrict hs
  exact ⟨s, hreach, howner, hthread, (quit_of_quitDone hreach).2 howner hthread⟩

/-- A shutdown right after `startLoop`: the destructor's request is stored and woken up for
before the thread calls `loop()`. -/
def earlyQuit : List (Act ℕ) :=
  [.start, .construct, .callbackRet, .publish, .wait, .destroy, .test, .quit, .wakeup true, .enter,
    .loop .clearQuit]

/-- The loop then runs with `quit_` false while the destructor waits for it. -/
theorem exists_quitDone_and_not_quit :
    ∃ s, (EventLoopThread.system ℕ).Reach s ∧ s.loop.quitDone = true ∧ s.thread = .inLoop ∧
      s.loop.pc = .testing ∧ s.loop.quit = false ∧ s.owner = .joining := by
  obtain ⟨s, hs, hv⟩ := TransitionSystem.exists_reach_of_run (M := EventLoopThread.system ℕ)
    (s := new ℕ) (v := (true, ThreadPc.inLoop, LoopPc.testing, false, OwnerPc.joining)) earlyQuit
    (fun s => (s.loop.quitDone, s.thread, s.loop.pc, s.loop.quit, s.owner)) rfl (by decide)
  simp only [Prod.mk.injEq] at hv
  exact ⟨s, hs, hv⟩

end EventLoopThread

end HzhMuduo
