import HzhMuduo.EventLoop.Fifo

/-!
# How long a functor waits

A functor is executed after those that were in the queue before it, and it does not wait for more
than one `poll` to return: between two of them `doPendingFunctors` takes over all that is pending
and runs it to the end (`executed_of_polls`).  This is what bounds the time between `queueInLoop`
and the call.  That the `poll` in between does return is the wakeup protocol.

The proof follows the functors that were accepted at some moment, `n` in number.  After one `poll`
they have been taken over unless the takeover is still ahead; after two they have been executed
(`Served`).
-/

namespace HzhMuduo

/-- The queue is taken over before the next `poll`. -/
def LoopPc.beforeSwap : LoopPc → Bool
  | .dispatching _ | .user (.handler _) _ | .swapping => true
  | _ => false

namespace EventLoop

variable {F : Type*} {l l' : EventLoop F} {a : Act F}

/-- `poll` returns. -/
def Act.isPoll : Act F → Bool
  | .loop (.poll _) => true
  | _ => false

/-- `doPendingFunctors` calls a functor. -/
def Act.isCall : Act F → Bool
  | .loop .call => true
  | _ => false

/-- The number of functors taken over so far. -/
def swapped (l : EventLoop F) : ℕ := l.queue.taken.length + l.functors.length

/-- How far the first `n` functors are after `k` returns of `poll`. -/
structure Served (n k : ℕ) (l : EventLoop F) : Prop where
  accepted : n ≤ l.queue.accepted.length
  swapped : 1 ≤ k → l.pc.beforeSwap = false → n ≤ l.swapped
  taken : 2 ≤ k → n ≤ l.queue.taken.length

/-- The numbers of the history. -/
lemma QueueInv.length_accepted (hI : QueueInv l) :
    l.queue.accepted.length = l.swapped + l.pendingFunctors.length := by
  have hfifo := congrArg List.length hI.sound.fifo
  rw [BatchQueue.content, List.length_append, List.length_append, List.length_map] at hfifo
  rw [swapped, functors, pendingFunctors]
  omega

/-- Where no batch is being run, what was taken over was executed. -/
lemma QueueInv.swapped_eq (hI : QueueInv l) (hpc : ¬ l.pc.InBatch) :
    l.swapped = l.queue.taken.length := by
  rw [swapped, hI.batch hpc]
  rfl

namespace Served

variable {n k : ℕ}

/-- The functors of a queue that have been accepted. -/
lemma zero (l : EventLoop F) : Served l.queue.accepted.length 0 l :=
  ⟨Nat.le_refl _, fun h => absurd h (by decide), fun h => absurd h (by decide)⟩

/-- A step other than the return of `poll` that takes nothing from the queue. -/
lemma of_le (h : Served n k l) (haccepted : l.queue.accepted.length ≤ l'.queue.accepted.length)
    (hswapped : l.swapped ≤ l'.swapped) (htaken : l.queue.taken.length ≤ l'.queue.taken.length)
    (hpc : l'.pc.beforeSwap = false → l.pc.beforeSwap = false) : Served n k l' :=
  ⟨Nat.le_trans h.accepted haccepted, fun hk hpc' => Nat.le_trans (h.swapped hk (hpc hpc')) hswapped,
    fun hk => Nat.le_trans (h.taken hk) htaken⟩

/-- A step that leaves the queue alone. -/
lemma of_eq (h : Served n k l) (hqueue : l'.queue = l.queue)
    (hpc : l'.pc.beforeSwap = false → l.pc.beforeSwap = false) : Served n k l' := by
  refine h.of_le (Nat.le_of_eq ?_) (Nat.le_of_eq ?_) (Nat.le_of_eq ?_) hpc
  · rw [hqueue]
  · rw [EventLoop.swapped, EventLoop.swapped, functors, functors, hqueue]
  · rw [hqueue]

/-- A push. -/
lemma push (h : Served n k l) {x : Call F} (hqueue : l'.queue = l.queue.push x)
    (hpc : l'.pc.beforeSwap = false → l.pc.beforeSwap = false) : Served n k l' := by
  refine h.of_le ?_ ?_ ?_ hpc
  · rw [hqueue, BatchQueue.push_accepted, List.length_append]
    exact Nat.le_add_right _ _
  · rw [EventLoop.swapped, EventLoop.swapped, functors, functors, hqueue]
    exact Nat.le_refl _
  · rw [hqueue]
    exact Nat.le_refl _

/-- A step of the loop thread. -/
lemma loopStep {b : LoopAct F} (h : Served n k l) (hI : QueueInv l)
    (hs : l.loopStep b = some l') : Served n (k + if (Act.loop b).isPoll then 1 else 0) l' := by
  cases loopStep_cases hs with
  | poll hpc =>
    refine ⟨h.accepted, fun _ hnot => absurd hnot (by simp [LoopPc.beforeSwap]), fun hk => ?_⟩
    -- the batch before this `poll` was run to the end
    have hswapped := h.swapped (Nat.le_of_succ_le_succ hk) (by rw [hpc]; rfl)
    rwa [hI.swapped_eq (by rw [hpc]; exact id)] at hswapped
  | swap hpc =>
    refine ⟨h.accepted, fun _ _ => ?_, h.taken⟩
    have hlength := hI.length_accepted
    rw [hI.swapped_eq (by rw [hpc]; exact id)] at hlength
    exact Nat.le_trans h.accepted (Nat.le_of_eq hlength)
  | @call x q hpc htake =>
    obtain ⟨xs, hbatch, rfl⟩ := BatchQueue.take_eq_some_iff.mp htake
    refine h.of_le (Nat.le_refl _) ?_ ?_ fun _ => by rw [hpc]; rfl
    · simp only [EventLoop.swapped, functors, hbatch, List.length_append, List.length_cons]
      simp
      omega
    · simp
  | @queueInLoop ctx f hpc =>
    refine h.push rfl fun hnot => ?_
    rw [hpc]
    cases ctx <;> exact hnot
  | wakeup hpc hn | noWakeup hpc hflag =>
    refine h.of_eq rfl fun hnot => ?_
    rw [hpc]
    cases ‹Context› <;> exact hnot
  | runInLoop hpc | quit hpc => exact h.of_eq rfl id
  | dispatchWakeup hpc | dispatchIo hpc | setFlag hpc | retHandler hpc =>
    exact h.of_eq rfl fun hnot => by cases hnot
  | enter hpc | clearQuit hpc | leave hpc hquit | stay hpc hquit | clearFlag hpc hbatch
  | retFunctor hpc => exact h.of_eq rfl fun _ => by rw [hpc]; rfl

/-- A step of another thread. -/
lemma otherStep {u : ℕ} {b : OtherAct F} (h : Served n k l) (hs : l.otherStep u b = some l') :
    Served n k l' := by
  cases otherStep_cases hs with
  | push hpc => exact h.push rfl id
  | _ => exact h.of_eq rfl id

/-- Every step. -/
lemma step (h : Served n k l) (hI : QueueInv l) (hs : l.step a = some l') :
    Served n (k + if a.isPoll then 1 else 0) l' := by
  cases a with
  | loop b => exact h.loopStep hI hs
  | other u b => exact h.otherStep hs

end Served

/-- Every functor called is one more executed. -/
lemma length_taken (hs : l.step a = some l') :
    l'.queue.taken.length = l.queue.taken.length + if a.isCall then 1 else 0 := by
  cases a with
  | loop b =>
    cases loopStep_cases hs with
    | @call x q hpc htake =>
      obtain ⟨xs, -, rfl⟩ := BatchQueue.take_eq_some_iff.mp htake
      simp [Act.isCall]
    | _ => rfl
  | other u b => cases otherStep_cases hs <;> rfl

/-- What was accepted stays accepted. -/
lemma accepted_prefix (hs : l.step a = some l') : l.queue.accepted <+: l'.queue.accepted := by
  cases a with
  | loop b =>
    cases loopStep_cases hs with
    | queueInLoop hpc => exact List.prefix_append _ _
    | call hpc htake =>
      obtain ⟨xs, -, rfl⟩ := BatchQueue.take_eq_some_iff.mp htake
      exact List.prefix_rfl
    | _ => exact List.prefix_rfl
  | other u b =>
    cases otherStep_cases hs with
    | push hpc => exact List.prefix_append _ _
    | _ => exact List.prefix_rfl

/-- In every run, whatever the threads do: all functors that had been accepted at its beginning are
executed at its end if `poll` has returned twice in it, or if as many functors were called as were
waiting at the beginning. -/
theorem executed_of_polls {as : List (Act F)} (h : (system F).Reach l)
    (hrun : (system F).run l as = some l')
    (hserved : 2 ≤ as.countP Act.isPoll ∨ l.queue.content.length ≤ as.countP Act.isCall) :
    l.queue.accepted <+: l'.executed := by
  have hI := queueInv_of_reach h
  have hI' := queueInv_of_reach (h.run hrun)
  have haccepted : l.queue.accepted <+: l'.queue.accepted :=
    TransitionSystem.run_rel (r := fun l l' : EventLoop F => l.queue.accepted <+: l'.queue.accepted)
      (fun _ => List.prefix_rfl) (fun _ _ _ h h' => h.trans h') (fun _ _ _ hs => accepted_prefix hs)
      hrun
  refine List.prefix_of_prefix_length_le haccepted hI'.sound.taken_prefix ?_
  rw [executed, List.length_map]
  rcases hserved with hpolls | hcalls
  · have hW := h.run_counted (p := Act.isPoll) (W := Served l.queue.accepted.length)
      (fun k s a s' hs hW hstep => hW.step (queueInv_of_reach hs) hstep) (.zero l) hrun
    exact hW.taken (by omega)
  · have hcount := h.run_counted (p := Act.isCall) (k := 0)
      (W := fun k l' => l'.queue.taken.length = l.queue.taken.length + k)
      (fun k s a s' _ hW hstep => by rw [length_taken hstep, hW, Nat.add_assoc]) rfl hrun
    have hfifo := congrArg List.length hI.sound.fifo
    rw [List.length_append, List.length_map] at hfifo
    omega

/-- The loop goes on from the end of `fifoRun`, where one functor is left in the batch and another
one was pushed during it, until `poll` has returned twice. -/
def servedRun : List (Act ℕ) :=
  [.loop (.wakeup true), .loop .ret, .loop .call, .loop .ret, .loop .clearFlag, .loop .test,
    .loop (.poll [.wakeup]), .loop .dispatch, .loop .setFlag, .loop .swap, .loop .call, .loop .ret,
    .loop .clearFlag, .loop .test, .loop (.poll [])]

theorem executed_of_polls_servedRun : ∃ l l', (system ℕ).Reach l ∧
    (system ℕ).run l servedRun = some l' ∧
    l.queue.accepted.map (fun x => x.item.functor) = [8, 7, 9] ∧
    l.queue.accepted <+: l'.executed := by
  obtain ⟨l, hl, hv⟩ := TransitionSystem.exists_reach_of_run (M := system ℕ) (s := new ℕ 0)
    (v := ([8, 7, 9], true)) fifoRun
    (fun l => (l.queue.accepted.map fun x => x.item.functor, ((system ℕ).run l servedRun).isSome))
    ⟨0, rfl⟩ (by decide +kernel)
  obtain ⟨haccepted, hrun⟩ := Prod.mk.inj hv
  obtain ⟨l', hl'⟩ := Option.isSome_iff_exists.mp hrun
  exact ⟨l, l', hl, hl', haccepted, executed_of_polls hl hl' (.inl (by decide))⟩

end EventLoop

end HzhMuduo
