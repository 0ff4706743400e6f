import HzhMuduo.EventLoop.Basic

/-!
# Queued functors run exactly once and in order

`pendingFunctors_` and the local vector of `doPendingFunctors` are a batch queue; the history
kept by `BatchQueue` therefore says what was accepted and what was executed.  `QueueInv` adds
the two facts about the threads that the history rests on: the next swap happens only when the
previous batch is used up, and the calls of a thread reach the queue in the order they were
made, since a thread makes one call at a time.

`reach_toFifo` states the outcome at the level of whole runs: seen through its queue the event
loop, with all its threads, is a first in, first out queue.
-/

namespace HzhMuduo

/-- The loop thread works off a batch. -/
def LoopPc.InBatch : LoopPc → Prop
  | .running | .user .functor _ => True
  | _ => False

/-- The functor a thread has passed to `queueInLoop` and not pushed yet. -/
def OtherPc.inFlight {F : Type*} : OtherPc F → List F
  | .pushing f => [f]
  | .idle | .waking | .quitting => []

namespace EventLoop

variable {F : Type*} {l l' : EventLoop F}

/-- The functors called so far by `doPendingFunctors`. -/
def executed (l : EventLoop F) : List (Stamped (Call F)) := l.queue.taken.map Prod.fst

/-- The functors of thread `u` in a list of queued ones. -/
def functorsOf (u : ℕ) (xs : List (Stamped (Call F))) : List F :=
  (xs.filter fun x => x.item.caller = some u).map fun x => x.item.functor

lemma functorsOf_append (u : ℕ) (xs ys : List (Stamped (Call F))) :
    functorsOf u (xs ++ ys) = functorsOf u xs ++ functorsOf u ys := by
  simp [functorsOf]

lemma functorsOf_singleton_self (u : ℕ) (f : F) (n : ℕ) :
    functorsOf u [⟨⟨some u, f⟩, n⟩] = [f] := by
  simp [functorsOf]

lemma functorsOf_singleton_of_ne {u : ℕ} {c : Option ℕ} (h : c ≠ some u) (f : F) (n : ℕ) :
    functorsOf u [⟨⟨c, f⟩, n⟩] = [] := by
  simp [functorsOf, h]

/-- The queue's history is sound, a batch is used up before the next swap, and the calls of
each thread are the accepted ones followed by the one it is about to push. -/
structure QueueInv (l : EventLoop F) : Prop where
  sound : l.queue.Sound
  batch : ¬ l.pc.InBatch → l.functors = []
  calls : ∀ u, l.calls u = functorsOf u l.queue.accepted ++ (l.other u).inFlight

/-- A new loop has an empty history. -/
lemma queueInv_new (counter : ℕ) : QueueInv (new F counter) where
  sound := .empty
  batch _ := rfl
  calls _ := rfl

/-- A step that leaves the queue and the callers alone and does not end a batch early. -/
lemma QueueInv.of_eq (hI : QueueInv l) (hqueue : l'.queue = l.queue) (hcalls : l'.calls = l.calls)
    (hother : l'.other = l.other) (hpc : ¬ l'.pc.InBatch → l.functors = []) : QueueInv l' := by
  refine ⟨hqueue ▸ hI.sound, fun h => ?_, fun u => ?_⟩
  · rw [functors, hqueue]
    exact hpc h
  · rw [hcalls, hother, hqueue]
    exact hI.calls u

/-- A push by the loop thread itself. -/
lemma QueueInv.pushSelf (hI : QueueInv l) (f : F) {pc : LoopPc}
    (hpc : ¬ pc.InBatch → l.functors = []) :
    QueueInv { l with queue := l.queue.push ⟨none, f⟩, pc := pc } where
  sound := hI.sound.push _
  batch := hpc
  calls u := by
    have hne : (none : Option ℕ) ≠ some u := nofun
    rw [BatchQueue.push_accepted, functorsOf_append, functorsOf_singleton_of_ne hne,
      List.append_nil]
    exact hI.calls u

/-- The loop thread keeps the queue invariant. -/
lemma QueueInv.loopStep {a : LoopAct F} (hI : QueueInv l) (h : l.loopStep a = some l') :
    QueueInv l' := by
  cases loopStep_cases h with
  | enter hpc => exact hI.of_eq rfl rfl rfl fun _ => hI.batch (by rw [hpc]; exact id)
  | clearQuit hpc => exact hI.of_eq rfl rfl rfl fun _ => hI.batch (by rw [hpc]; exact id)
  | leave hpc => exact hI.of_eq rfl rfl rfl fun _ => hI.batch (by rw [hpc]; exact id)
  | stay hpc => exact hI.of_eq rfl rfl rfl fun _ => hI.batch (by rw [hpc]; exact id)
  | poll hpc => exact hI.of_eq rfl rfl rfl fun _ => hI.batch (by rw [hpc]; exact id)
  | dispatchWakeup hpc => exact hI.of_eq rfl rfl rfl fun _ => hI.batch (by rw [hpc]; exact id)
  | dispatchIo hpc => exact hI.of_eq rfl rfl rfl fun _ => hI.batch (by rw [hpc]; exact id)
  | setFlag hpc => exact hI.of_eq rfl rfl rfl fun _ => hI.batch (by rw [hpc]; exact id)
  | swap hpc =>
    have hb := hI.batch (by rw [hpc]; exact id)
    exact ⟨hI.sound.swap hb, fun h => absurd trivial h, hI.calls⟩
  | call hpc htake =>
    refine ⟨hI.sound.take htake, fun h => absurd trivial h, fun u => ?_⟩
    obtain ⟨xs, -, rfl⟩ := BatchQueue.take_eq_some_iff.mp htake
    exact hI.calls u
  | clearFlag hpc hbatch => exact hI.of_eq rfl rfl rfl fun _ => hbatch
  | @queueInLoop ctx f hpc =>
    refine hI.pushSelf f fun h => hI.batch ?_
    rw [hpc]
    cases ctx <;> exact h
  | @wakeup ctx ok n hpc hn =>
    refine hI.of_eq rfl rfl rfl fun h => hI.batch ?_
    rw [hpc]
    cases ctx <;> exact h
  | @noWakeup ctx ok hpc hflag =>
    refine hI.of_eq rfl rfl rfl fun h => hI.batch ?_
    rw [hpc]
    cases ctx <;> exact h
  | runInLoop hpc => exact hI.of_eq rfl rfl rfl hI.batch
  | quit hpc => exact hI.of_eq rfl rfl rfl hI.batch
  | retHandler hpc => exact hI.of_eq rfl rfl rfl fun _ => hI.batch (by rw [hpc]; exact id)
  | retFunctor hpc => exact hI.of_eq rfl rfl rfl fun h => absurd trivial h

/-- The other threads keep the queue invariant. -/
lemma QueueInv.otherStep {u : ℕ} {a : OtherAct F} (hI : QueueInv l)
    (h : l.otherStep u a = some l') : QueueInv l' := by
  cases otherStep_cases h with
  | @queueInLoop f hpc | @runInLoop f hpc =>
    refine ⟨hI.sound, hI.batch, fun v => ?_⟩
    have hv := hI.calls v
    by_cases hvu : v = u
    · subst hvu
      rw [hpc] at hv
      simp only [beginCall, setOther, Function.update_self, hv, OtherPc.inFlight, List.append_nil]
    · simp only [beginCall, setOther, Function.update_of_ne hvu, hv]
  | @push f hpc =>
    refine ⟨hI.sound.push _, hI.batch, fun v => ?_⟩
    have hv := hI.calls v
    by_cases hvu : v = u
    · subst hvu
      rw [hpc] at hv
      simp only [setOther, Function.update_self, BatchQueue.push_accepted, functorsOf_append,
        functorsOf_singleton_self, hv, OtherPc.inFlight, List.append_nil]
    · have hne : some u ≠ some v := fun h => hvu (Option.some.inj h).symm
      simp only [setOther, Function.update_of_ne hvu, BatchQueue.push_accepted, functorsOf_append,
        functorsOf_singleton_of_ne hne, hv, List.append_nil]
  | quit hpc | wakeup hpc hn | quitWakeup hpc hn =>
    refine ⟨hI.sound, hI.batch, fun v => ?_⟩
    have hv := hI.calls v
    by_cases hvu : v = u
    · subst hvu
      rw [hpc] at hv
      simp only [setOther, Function.update_self, hv, OtherPc.inFlight]
    · simp only [setOther, Function.update_of_ne hvu, hv]

/-- Every step keeps the queue invariant. -/
lemma QueueInv.step {a : Act F} (hI : QueueInv l) (h : l.step a = some l') : QueueInv l' := by
  cases a with
  | loop a => exact hI.loopStep h
  | other u a => exact hI.otherStep h

/-- The queue invariant holds in every reachable state. -/
theorem queueInv_of_reach (h : (system F).Reach l) : QueueInv l := by
  refine h.invariant ?_ fun _ _ _ hI hs => hI.step hs
  rintro _ ⟨counter, rfl⟩
  exact queueInv_new counter

/-- Exactly once, in order, and in a later batch.  The functors accepted so far are those
executed, the rest of the running batch and the pending ones; the executed functors of a
thread are the first ones it passed in, in its own order; and no functor is executed in a
batch that had begun when it was queued. -/
theorem accepted_eq_executed_append (h : (system F).Reach l) :
    l.queue.accepted = l.executed ++ l.functors ++ l.pendingFunctors ∧
    (∀ u, functorsOf u l.executed <+: l.calls u) ∧
    (∀ x ∈ l.queue.taken, x.1.born < x.2) ∧
    ∀ x ∈ l.functors, x.born < l.queue.begun := by
  have hI := queueInv_of_reach h
  refine ⟨?_, fun u => ?_, fun x hx => (hI.sound.taken_born x hx).1, hI.sound.batch_born⟩
  · rw [List.append_assoc]
    exact hI.sound.fifo
  · rw [hI.calls u]
    have hprefix := (hI.sound.filter_taken_prefix fun x => x.item.caller = some u).map
      fun x => x.item.functor
    exact hprefix.trans (List.prefix_append _ _)

/-- Two threads queue, the first functor queues a third one while it runs: that one stays
pending while the rest of the batch is run. -/
def fifoRun : List (Act ℕ) :=
  [.loop .enter, .loop .clearQuit, .loop .test, .other 1 (.queueInLoop 7), .other 0 (.runInLoop 8),
    .other 0 .push, .other 1 .push, .loop (.poll []), .loop .setFlag, .loop .swap, .loop .call,
    .loop (.queueInLoop 9)]

/-- The theorem at the end of that run. -/
theorem accepted_eq_executed_append_fifoRun : ∃ l, (system ℕ).Reach l ∧
    functorsOf 0 l.executed = [8] ∧ l.functors.map (fun x => x.item.functor) = [7] ∧
    l.queue.accepted = l.executed ++ l.functors ++ l.pendingFunctors := by
  obtain ⟨l, hl, hv⟩ := TransitionSystem.exists_reach_of_run (M := system ℕ) (s := new ℕ 0)
    (v := ([8], [7])) fifoRun
    (fun l => (functorsOf 0 l.executed, l.functors.map fun x => x.item.functor)) ⟨0, rfl⟩
    (by decide)
  obtain ⟨hexec, hrest⟩ := Prod.mk.inj hv
  exact ⟨l, hl, hexec, hrest, (accepted_eq_executed_append hl).1⟩

/-! ## The event loop as a queue -/

/-- Seen through its queue, a step of the event loop is a move of the batch queue or none. -/
lemma exists_move_of_step {a : Act F} (hI : QueueInv l) (h : l.step a = some l') :
    ∃ moves, (BatchQueue.batchSystem (Call F)).run l.queue moves = some l'.queue := by
  cases a with
  | loop a =>
    cases loopStep_cases h with
    | swap hpc =>
      have hb : l.queue.batch = [] := hI.batch (by rw [hpc]; exact id)
      exact ⟨[.swap], by simp [BatchQueue.batchSystem, hb]⟩
    | call hpc htake => exact ⟨[.take], by simp [BatchQueue.batchSystem, htake]⟩
    | @queueInLoop ctx f hpc => exact ⟨[.push ⟨none, f⟩], rfl⟩
    | _ => exact ⟨[], rfl⟩
  | other u a =>
    cases otherStep_cases h with
    | @push f hpc => exact ⟨[.push ⟨some u, f⟩], rfl⟩
    | _ => exact ⟨[], rfl⟩

/-- The event loop refines a batch queue. -/
theorem eventLoop_refines_batchQueue :
    TransitionSystem.Refinement (system F) (BatchQueue.batchSystem (Call F))
      fun l q => QueueInv l ∧ q = l.queue where
  init l := by
    rintro ⟨counter, rfl⟩
    exact ⟨_, rfl, queueInv_new counter, rfl⟩
  step l a l' q := by
    rintro ⟨hI, rfl⟩ hs
    obtain ⟨moves, hrun⟩ := exists_move_of_step hI hs
    exact ⟨moves, _, hrun, hI.step hs, rfl⟩

/-- The event loop refines a first in, first out queue: what `doPendingFunctors` executed and
what still waits are what such a queue delivered and holds. -/
theorem reach_toFifo (h : (system F).Reach l) :
    (BatchQueue.fifoSystem (Call F)).Reach l.queue.toFifo := by
  have hrefines := (eventLoop_refines_batchQueue (F := F)).trans
    BatchQueue.batchSystem_refines_fifoSystem
  obtain ⟨f, hf, q, ⟨-, rfl⟩, rfl⟩ := hrefines.exists_reach h
  exact hf

end EventLoop

end HzhMuduo
