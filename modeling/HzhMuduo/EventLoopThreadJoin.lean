import HzhMuduo.EventLoop.Response
import HzhMuduo.EventLoop.Wakeup
import HzhMuduo.EventLoopThread

/-!
# The destructor of a loop thread comes to its end

`~EventLoopThread` asks the loop to quit and joins the thread.  Where no request is stored before
the loop has cleared its flag, the thread does end: it does not sleep in `poll` while the destructor
waits, `poll` returns at most once more, and wherever it stands it has a step to make
(`join_of_reach`).  The protocol of the wakeups (`EventLoop.WakeupInv`) and that of the flag
(`QuitInv`) meet here.
-/

namespace HzhMuduo

namespace EventLoop

variable {F : Type*} {l l' : EventLoop F}

/-- What the loop thread does next, when the code of the user returns. -/
def next (l : EventLoop F) : LoopAct F :=
  match l.pc with
  | .outside => .enter
  | .entered => .clearQuit
  | .testing => .test
  | .polling => .poll [.wakeup]
  | .dispatching [] => .setFlag
  | .dispatching (_ :: _) => .dispatch
  | .swapping => .swap
  | .running => if l.queue.batch = [] then .clearFlag else .call
  | .user _ .free => .ret
  | .user _ .pushed => .wakeup true

/-- The loop thread is never stuck. -/
lemma exists_loopStep_next (l : EventLoop F) : ∃ l', l.loopStep l.next = some l' := by
  cases hpc : l.pc with
  | outside => exact ⟨_, by rw [next, hpc]; exact if_pos hpc⟩
  | entered => exact ⟨_, by rw [next, hpc]; exact if_pos hpc⟩
  | testing =>
    rw [next, hpc]
    simp only [loopStep, if_pos hpc]
    split
    · exact ⟨_, rfl⟩
    · exact ⟨_, rfl⟩
  | polling => exact ⟨_, by rw [next, hpc]; exact if_pos hpc⟩
  | swapping => exact ⟨_, by rw [next, hpc]; exact if_pos hpc⟩
  | dispatching active =>
    cases active with
    | nil => exact ⟨_, by rw [next, hpc]; exact if_pos hpc⟩
    | cons r active => cases r <;> exact ⟨_, by rw [next, hpc, loopStep, hpc]⟩
  | running =>
    cases hbatch : l.queue.batch with
    | nil => exact ⟨_, by rw [next, hpc]; simp only [if_pos hbatch]; exact if_pos ⟨hpc, hbatch⟩⟩
    | cons x xs =>
      obtain ⟨q, htake⟩ : ∃ q, l.queue.take = some (x, q) := ⟨_, by rw [BatchQueue.take, hbatch]⟩
      refine ⟨{ l with queue := q, pc := .user .functor .free }, ?_⟩
      rw [next, hpc]
      simp only [hbatch, reduceCtorEq, if_false]
      rw [loopStep, if_pos hpc, htake]
      rfl
  | user ctx code =>
    cases code with
    | free => cases ctx <;> exact ⟨_, by rw [next, hpc, loopStep, hpc]⟩
    | pushed =>
      rw [next, hpc, loopStep, hpc]
      simp only
      split
      · exact ⟨_, rfl⟩
      · exact ⟨_, rfl⟩

end EventLoop

namespace EventLoopThread

open EventLoop (LoopAct WakeupInv)

variable {F : Type*} {s s' : EventLoopThread F} {a : Act F}

/-- `poll` returns in the thread. -/
def Act.isPoll : Act F → Bool
  | .loop (.poll _) => true
  | _ => false

/-- Where nobody stores to the flag before the loop has cleared it, the wakeup protocol is in
force. -/
lemma wakeupInv_step (hI : WakeupInv s.loop) (hok : StoresAfterClear s a)
    (h : s.step a = some s') : WakeupInv s'.loop := by
  cases a with
  | start | wait | destroy | test | join | callbackRet | publish | clear | unlock | finish =>
    obtain ⟨-, h⟩ := Option.ite_none_right_eq_some.mp h
    obtain rfl := Option.some.inj h
    exact hI
  | call b | quit | wakeup ok | other u b =>
    obtain ⟨-, h⟩ := Option.ite_none_right_eq_some.mp h
    obtain ⟨l, hl, rfl⟩ := Option.map_eq_some_iff.mp h
    exact hI.otherStep hl
  | enter | loop b =>
    obtain ⟨-, h⟩ := Option.ite_none_right_eq_some.mp h
    obtain ⟨l, hl, rfl⟩ := Option.map_eq_some_iff.mp h
    exact hI.loopStep hl
  | construct =>
    obtain ⟨-, h⟩ := Option.ite_none_right_eq_some.mp h
    obtain rfl := Option.some.inj h
    exact EventLoop.wakeupInv_of_entry rfl rfl
  | callbackQuit =>
    obtain ⟨ht, -⟩ := Option.ite_none_right_eq_some.mp h
    exact absurd (hok rfl) (not_cleared ht (by decide))

/-- A quit was requested in time, `poll` has returned `k` times since, and it will not return more
than once in all. -/
structure Ending (k : ℕ) (s : EventLoopThread F) : Prop where
  inv : QuitInv s
  quitDone : s.loop.quitDone = true
  polls : k + (if s.loop.pc = .polling then 1 else 0) ≤ 1

namespace Ending

variable {k : ℕ}

/-- The thread has cleared the flag before. -/
lemma cleared (h : Ending k s) : s.Cleared := h.inv.cleared (.inl h.quitDone)

/-- A step of the loop thread in `loop()`. -/
lemma polls_loop (h : Ending k s) (ht : s.thread = .inLoop) {b : LoopAct F} {l : EventLoop F}
    (hs : s.loop.loopStep b = some l) :
    k + (if (Act.loop b).isPoll then 1 else 0) + (if l.pc = .polling then 1 else 0) ≤ 1 := by
  have hpolls := h.polls
  cases EventLoop.loopStep_cases hs with
  | poll hpc =>
    rw [if_pos hpc] at hpolls
    simpa [Act.isPoll] using hpolls
  | stay hpc hquit =>
    -- the flag is set, and the test finds it
    rw [h.inv.stored (.inl h.quitDone) ht] at hquit
    cases hquit
  | runInLoop hpc | quit hpc =>
    rw [hpc] at hpolls
    simpa [Act.isPoll, hpc] using hpolls
  | _ =>
    have hk : k ≤ 1 := Nat.le_trans (Nat.le_add_right _ _) hpolls
    simpa [Act.isPoll] using hk

/-- A step that leaves the loop thread where it is. -/
lemma of_pc_eq (h : Ending k s) (hI : QuitInv s') (hdone : s'.loop.quitDone = true)
    (hpc : s'.loop.pc = s.loop.pc) : Ending k s' :=
  ⟨hI, hdone, hpc ▸ h.polls⟩

/-- Every step that keeps to the rule. -/
lemma step (h : Ending k s) (hok : StoresAfterClear s a) (hs : s.step a = some s') :
    Ending (k + if a.isPoll then 1 else 0) s' := by
  have hI := h.inv.step hok hs
  cases a with
  | start | wait | destroy | test | join | callbackRet | publish | clear | unlock | finish =>
    obtain ⟨-, hs⟩ := Option.ite_none_right_eq_some.mp hs
    obtain rfl := Option.some.inj hs
    exact h.of_pc_eq hI h.quitDone rfl
  | call b | quit | wakeup ok | other u b =>
    obtain ⟨-, hs⟩ := Option.ite_none_right_eq_some.mp hs
    obtain ⟨l, hl, rfl⟩ := Option.map_eq_some_iff.mp hs
    obtain ⟨hpc, -, hdone⟩ := EventLoop.frame_of_otherStep hl
    exact h.of_pc_eq hI (hdone h.quitDone) hpc
  | construct | callbackQuit =>
    obtain ⟨ht, -⟩ := Option.ite_none_right_eq_some.mp hs
    exact absurd h.cleared (not_cleared ht (by decide))
  | enter =>
    obtain ⟨ht, -⟩ := Option.ite_none_right_eq_some.mp hs
    exact absurd h.cleared (not_cleared ht (by decide))
  | loop b =>
    obtain ⟨ht, hs⟩ := Option.ite_none_right_eq_some.mp hs
    obtain ⟨l, hl, rfl⟩ := Option.map_eq_some_iff.mp hs
    exact ⟨hI, (EventLoop.frame_of_loopStep hl).2 h.quitDone, h.polls_loop ht hl⟩

end Ending

/-- What leads on while the destructor waits: a step of the thread, or the end of `join()`. -/
def onward (s : EventLoopThread F) : Act F :=
  match s.thread with
  | .inLoop => .loop s.loop.next
  | .clearing => .clear
  | .unlocking => .unlock
  | .destructing => .finish
  | _ => .join

/-- Behind `loop()` the thread only has to end. -/
lemma exists_step_onward (howner : s.owner = .joining) (hreturned : s.thread.returned = true) :
    ∃ s', s.step s.onward = some s' := by
  cases ht : s.thread with
  | clearing => exact ⟨_, by rw [onward, ht]; exact if_pos ht⟩
  | unlocking => exact ⟨_, by rw [onward, ht]; exact if_pos ht⟩
  | destructing => exact ⟨_, by rw [onward, ht]; exact if_pos ht⟩
  | finished =>
    have hjoin : s.owner = .joining ∧ s.thread = .finished := ⟨howner, ht⟩
    exact ⟨_, by rw [onward, ht]; exact if_pos hjoin⟩
  | _ =>
    rw [ht] at hreturned
    cases hreturned

/-- The destructor comes to its end.  In the runs in which no request is stored before the loop has
cleared the flag, while the destructor waits in `join()`: wherever the thread stands, there is a step
that leads on; if the loop is at `poll`, then the poll does not block; and in no continuation of the
run does `poll` return more than once. -/
theorem join_of_reach (h : (system F).ReachWhere StoresAfterClear s)
    (howner : s.owner = .joining) :
    (∃ s', s.step s.onward = some s') ∧
    (s.thread = .inLoop → s.loop.pc = .polling → s.loop.Signalled) ∧
    ∀ as s', ((system F).restrict StoresAfterClear).run s as = some s' →
      as.countP Act.isPoll ≤ 1 := by
  have hI : QuitInv s := h.invariant (fun s hs => hs ▸ quitInv_new) fun _ _ _ hI hok hs =>
    hI.step hok hs
  have hwakeup : WakeupInv s.loop := by
    refine h.invariant (I := fun s => WakeupInv s.loop) ?_ fun _ _ _ hI hok hs =>
      wakeupInv_step hI hok hs
    rintro s rfl
    exact EventLoop.wakeupInv_of_entry rfl rfl
  have hdone := hI.joining howner
  refine ⟨?_, fun ht hpc => hwakeup.quit hpc (hI.stored (.inl hdone) ht), fun as s' hrun => ?_⟩
  · rcases hI.cleared (.inl hdone) with ⟨ht, -⟩ | hreturned
    · obtain ⟨l, hl⟩ := s.loop.exists_loopStep_next
      refine ⟨{ s with loop := l, thread := if l.pc = .outside then .clearing else .inLoop }, ?_⟩
      rw [onward, ht]
      simp only [step, if_pos ht, hl]
      rfl
    · exact exists_step_onward howner hreturned
  · have hbegin : Ending 0 s := ⟨hI, hdone, by split <;> decide⟩
    have hend := h.to_restrict.run_counted (p := Act.isPoll) (W := Ending) (fun k s a s' _ hE hs => by
      obtain ⟨hok, hs⟩ := Option.ite_none_right_eq_some.mp hs
      exact hE.step hok hs) hbegin hrun
    have hpolls := hend.polls
    omega

/-- The destructor waits while the loop is at `poll`. -/
theorem join_of_reach_lateQuit : ∃ s, (system ℕ).ReachWhere StoresAfterClear s ∧
    s.owner = .joining ∧ s.loop.pc = .polling ∧ s.loop.Signalled ∧
    ∀ as s', ((system ℕ).restrict StoresAfterClear).run s as = some s' →
      as.countP Act.isPoll ≤ 1 := by
  obtain ⟨s, hs, hv⟩ := TransitionSystem.exists_reach_of_run
    (M := (system ℕ).restrict StoresAfterClear) (s := new ℕ)
    (v := (OwnerPc.joining, ThreadPc.inLoop, true)) lateQuit
    (fun s => (s.owner, s.thread, decide (s.loop.pc = .polling))) rfl (by decide)
  obtain ⟨howner, hrest⟩ := Prod.mk.inj hv
  obtain ⟨hthread, hpc⟩ := Prod.mk.inj hrest
  have hpolling := of_decide_eq_true hpc
  have hreach := TransitionSystem.Reach.of_restrict hs
  obtain ⟨-, hsignalled, hpolls⟩ := join_of_reach hreach howner
  exact ⟨s, hreach, howner, hpolling, hsignalled hthread hpolling, hpolls⟩

end EventLoopThread

end HzhMuduo
