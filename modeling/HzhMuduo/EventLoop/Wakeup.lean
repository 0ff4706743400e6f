import HzhMuduo.EventLoop.Basic

/-!
# No lost wakeup

While `loop()` runs, the loop thread never blocks in `poll` over work that nobody will wake it
for: if a functor is pending or a quit was requested, then the eventfd counter is positive or
some other thread is about to write to it.

The invariant `WakeupInv` speaks about three stretches of the loop.  From the return of `poll`
to the swap nothing is owed, because the swap takes whatever is pending; this is why the
wakeup channel may be read there and why a handler may queue without a wakeup.  From the swap
to the end of `doPendingFunctors` the flag `callingPendingFuntors_` is set, so that a functor
which queues also wakes.  Everywhere else a pending functor is announced (`Signalled`).
-/

namespace HzhMuduo

namespace LoopPc

/-- The loop thread is in `doPendingFunctors`, behind the store to the flag. -/
def InPendingFunctors : LoopPc → Prop
  | .swapping | .running | .user .functor _ => True
  | _ => False

/-- What is pending will be looked at by `poll` before it is swapped out. -/
def BeforePoll : LoopPc → Prop
  | .outside | .entered | .testing | .polling | .running | .user .functor .free => True
  | _ => False

end LoopPc

namespace EventLoop

variable {F : Type*} {l l' : EventLoop F}

/-- `poll` does not block: the counter is positive, or a thread is on its way to `wakeup`. -/
def Signalled (l : EventLoop F) : Prop := 0 < l.wakeupFd ∨ ∃ u, (l.other u).owesWakeup

/-- `Signalled` depends only on the counter and on the other threads. -/
lemma Signalled.of_eq (h : l.Signalled) (hfd : l'.wakeupFd = l.wakeupFd)
    (hother : l'.other = l.other) : l'.Signalled := by
  unfold Signalled at h ⊢
  rwa [hfd, hother]

/-- A thread that leaves `idle` or `pushing` cannot take the signal of another thread away. -/
lemma Signalled.setOther {u : ℕ} (h : l.Signalled) (hu : ¬ (l.other u).owesWakeup)
    (pc : OtherPc F) : (l.setOther u pc).Signalled := by
  rcases h with h | ⟨v, hv⟩
  · exact .inl h
  · have hvu : v ≠ u := by rintro rfl; exact hu hv
    refine .inr ⟨v, ?_⟩
    rw [setOther_other_of_ne hvu]
    exact hv

/-- A thread between its push or store and its wakeup is a signal. -/
lemma signalled_setOther {u : ℕ} {pc : OtherPc F} (hpc : pc.owesWakeup) :
    (l.setOther u pc).Signalled := by
  refine .inr ⟨u, ?_⟩
  rw [setOther_other_self]
  exact hpc

/-- The wakeup protocol. -/
structure WakeupInv (l : EventLoop F) : Prop where
  flag : l.pc.InPendingFunctors → l.callingPendingFuntors = true
  pending : l.pc.BeforePoll → l.pendingFunctors ≠ [] → l.Signalled
  quit : l.pc = .polling → l.quit = true → l.Signalled

/-- The protocol is in force when the loop is entered with nothing pending. -/
lemma wakeupInv_of_entry (hpc : l.pc = .outside) (hpending : l.pendingFunctors = []) :
    WakeupInv l where
  flag h := by rw [hpc] at h; exact h.elim
  pending _ h := absurd hpending h
  quit h := by rw [hpc] at h; cases h

/-- In a state that is signalled only the flag matters. -/
lemma WakeupInv.of_signalled (hs : l.Signalled)
    (hflag : l.pc.InPendingFunctors → l.callingPendingFuntors = true) : WakeupInv l where
  flag := hflag
  pending _ _ := hs
  quit _ _ := hs

/-- The loop thread keeps the protocol. -/
lemma WakeupInv.loopStep {a : LoopAct F} (hI : WakeupInv l) (h : l.loopStep a = some l') :
    WakeupInv l' := by
  cases loopStep_cases h with
  | enter hpc =>
    have hp := hI.pending (by rw [hpc]; trivial)
    exact ⟨fun h => h.elim, fun _ hne => (hp hne).of_eq rfl rfl, fun h => by cases h⟩
  | clearQuit hpc =>
    have hp := hI.pending (by rw [hpc]; trivial)
    exact ⟨fun h => h.elim, fun _ hne => (hp hne).of_eq rfl rfl, fun h => by cases h⟩
  | leave hpc hquit =>
    have hp := hI.pending (by rw [hpc]; trivial)
    exact ⟨fun h => h.elim, fun _ hne => (hp hne).of_eq rfl rfl, fun h => by cases h⟩
  | stay hpc hquit =>
    -- `quit_` was read as false, so only later stores to it matter
    have hp := hI.pending (by rw [hpc]; trivial)
    refine ⟨fun h => h.elim, fun _ hne => (hp hne).of_eq rfl rfl, fun _ hq => ?_⟩
    rw [hquit] at hq
    cases hq
  | poll hpc => exact ⟨fun h => h.elim, fun h => h.elim, fun h => by cases h⟩
  | dispatchWakeup hpc => exact ⟨fun h => h.elim, fun h => h.elim, fun h => by cases h⟩
  | dispatchIo hpc => exact ⟨fun h => h.elim, fun h => h.elim, fun h => by cases h⟩
  | setFlag hpc => exact ⟨fun _ => rfl, fun h => h.elim, fun h => by cases h⟩
  | swap hpc =>
    have hf := hI.flag (by rw [hpc]; trivial)
    exact ⟨fun _ => hf, fun _ hne => absurd rfl hne, fun h => by cases h⟩
  | call hpc htake =>
    have hf := hI.flag (by rw [hpc]; trivial)
    have hp := hI.pending (by rw [hpc]; trivial)
    obtain ⟨xs, -, rfl⟩ := BatchQueue.take_eq_some_iff.mp htake
    exact ⟨fun _ => hf, fun _ hne => (hp hne).of_eq rfl rfl, fun h => by cases h⟩
  | clearFlag hpc hbatch =>
    have hp := hI.pending (by rw [hpc]; trivial)
    exact ⟨fun h => h.elim, fun _ hne => (hp hne).of_eq rfl rfl, fun h => by cases h⟩
  | @queueInLoop ctx f hpc =>
    cases ctx with
    | handler active => exact ⟨fun h => h.elim, fun h => h.elim, fun h => by cases h⟩
    | functor =>
      have hf := hI.flag (by rw [hpc]; trivial)
      exact ⟨fun _ => hf, fun h => h.elim, fun h => by cases h⟩
  | @wakeup ctx ok n hpc hn =>
    refine WakeupInv.of_signalled (.inl hn) ?_
    cases ctx with
    | handler active => exact fun h => h.elim
    | functor => exact fun _ => hI.flag (by rw [hpc]; trivial)
  | @noWakeup ctx ok hpc hflag =>
    cases ctx with
    | handler active => exact ⟨fun h => h.elim, fun h => h.elim, fun h => by cases h⟩
    | functor =>
      -- inside a functor the flag is set, so the wakeup is never skipped
      have hf := hI.flag (by rw [hpc]; trivial)
      rw [hflag] at hf
      cases hf
  | runInLoop hpc => exact ⟨hI.flag, fun h hne => (hI.pending h hne).of_eq rfl rfl,
      fun h hq => (hI.quit h hq).of_eq rfl rfl⟩
  | quit hpc =>
    refine ⟨hI.flag, fun h hne => (hI.pending h hne).of_eq rfl rfl, fun h _ => ?_⟩
    rw [show l.pc = _ from h] at hpc
    cases hpc
  | retHandler hpc => exact ⟨fun h => h.elim, fun h => h.elim, fun h => by cases h⟩
  | retFunctor hpc =>
    have hf := hI.flag (by rw [hpc]; trivial)
    have hp := hI.pending (by rw [hpc]; trivial)
    exact ⟨fun _ => hf, fun _ hne => (hp hne).of_eq rfl rfl, fun h => by cases h⟩

/-- The other threads keep the protocol. -/
lemma WakeupInv.otherStep {u : ℕ} {a : OtherAct F} (hI : WakeupInv l)
    (h : l.otherStep u a = some l') : WakeupInv l' := by
  cases otherStep_cases h with
  | @queueInLoop f hpc | @runInLoop f hpc =>
    have hu : ¬ (l.other u).owesWakeup := by rw [hpc]; exact fun h => h.elim
    refine ⟨hI.flag, fun h hne => ?_, fun h hq => ?_⟩
    · exact ((hI.pending h hne).setOther hu (.pushing f)).of_eq rfl rfl
    · exact ((hI.quit h hq).setOther hu (.pushing f)).of_eq rfl rfl
  | push hpc =>
    have hs : (l.setOther u .waking).Signalled := signalled_setOther trivial
    exact .of_signalled (hs.of_eq rfl rfl) hI.flag
  | quit hpc =>
    have hs : (l.setOther u .quitting).Signalled := signalled_setOther trivial
    exact .of_signalled (hs.of_eq rfl rfl) hI.flag
  | wakeup hpc hn | quitWakeup hpc hn => exact .of_signalled (.inl hn) hI.flag

/-- Every step keeps the protocol. -/
lemma WakeupInv.step {a : Act F} (hI : WakeupInv l) (h : l.step a = some l') : WakeupInv l' := by
  cases a with
  | loop a => exact hI.loopStep h
  | other u a => exact hI.otherStep h

/-- The runs of a loop that is entered with an empty queue; everything else about the state at
the entry is left open. -/
def enteredEmpty (F : Type*) : TransitionSystem (EventLoop F) (Act F) where
  init l := l.pc = .outside ∧ l.pendingFunctors = []
  step := EventLoop.step

/-- The wakeup protocol is in force in every state of such a run. -/
theorem wakeupInv_of_reach (h : (enteredEmpty F).Reach l) : WakeupInv l :=
  h.invariant (fun _ hi => wakeupInv_of_entry hi.1 hi.2) fun _ _ _ hI hs => hI.step hs

/-- No lost wakeup: at `poll`, a pending functor or a requested quit has a positive counter or
a thread that will make it positive. -/
theorem poll_signalled (h : (enteredEmpty F).Reach l) (hpc : l.pc = .polling)
    (hwork : l.pendingFunctors ≠ [] ∨ l.quit = true) : l.Signalled := by
  have hI := wakeupInv_of_reach h
  rcases hwork with hpending | hquit
  · refine hI.pending ?_ hpending
    rw [hpc]
    trivial
  · exact hI.quit hpc hquit

/-- A run to `poll` with work: a functor queues another one, a thread queues a third and has
not woken the loop yet. -/
def wakeupRun : List (Act ℕ) :=
  [.loop .enter, .loop .clearQuit, .loop .test, .other 0 (.queueInLoop 7), .other 0 .push,
    .other 0 (.wakeup true), .loop (.poll [.wakeup]), .loop .dispatch, .loop .setFlag, .loop .swap,
    .loop .call, .loop (.queueInLoop 8), .loop (.wakeup true), .loop .ret, .loop .clearFlag,
    .loop .test, .other 1 (.queueInLoop 9), .other 1 .push]

/-- The theorem speaks about a state that is reached. -/
theorem poll_signalled_wakeupRun : ∃ l, (enteredEmpty ℕ).Reach l ∧
    l.pendingFunctors.map (fun x => x.item.functor) = [8, 9] ∧ l.Signalled := by
  obtain ⟨l, hl, hv⟩ := TransitionSystem.exists_reach_of_run (M := enteredEmpty ℕ)
    (s := new ℕ 0) (v := (true, [8, 9])) wakeupRun
    (fun l => (decide (l.pc = .polling), l.pendingFunctors.map fun x => x.item.functor)) ⟨rfl, rfl⟩
    (by decide)
  obtain ⟨hpc, hf⟩ := Prod.mk.inj hv
  refine ⟨l, hl, hf, poll_signalled hl (of_decide_eq_true hpc) (.inl fun hnil => ?_)⟩
  rw [hnil] at hf
  cases hf

end EventLoop

end HzhMuduo
