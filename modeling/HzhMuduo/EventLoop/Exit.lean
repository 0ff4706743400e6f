import HzhMuduo.EventLoop.Fifo

/-!
# What is left in the queue when `loop()` returns

`loop` tests the quit flag after `doPendingFunctors`, which has taken over the queue before it
ran the functors.  A functor pushed after that waits for the next round, and there is none once
the flag is found set.

`LoopExit` adds the history that the question needs: which calls of `queueInLoop` have returned
(`completed`, as positions in the order of acceptance), which of them had returned when a thread
entered `quit()` (`begun`), and which are owed to a `quit()` that has stored the flag of the
running loop (`promised`).  No step reads it but the entry into `quit()`, which other threads make
in a step of its own here.

What is owed is executed when the loop returns if no `quit()` stores its flag between the
takeover of the queue and the test while one of its functors is still pending
(`executed_of_promised`); otherwise it may be dropped (`exists_dropped`).
-/

namespace HzhMuduo

/-- The loop thread is inside `loop()`, behind the reset of the flag. -/
def LoopPc.looping : LoopPc → Bool
  | .outside | .entered => false
  | _ => true

/-- The queue is taken over before the flag is tested next. -/
def LoopPc.ahead : LoopPc → Bool
  | .polling | .dispatching _ | .user (.handler _) _ | .swapping => true
  | _ => false

/-- An event loop with the history of the calls of `queueInLoop` and `quit`. -/
structure LoopExit (F : Type*) where
  loop : EventLoop F
  slot : Option ℕ → ℕ
  completed : List ℕ
  begun : ℕ → Option (List ℕ)
  promised : List ℕ

namespace LoopExit

open EventLoop

variable {F : Type*} {s s' : LoopExit F}

/-- The functors taken over by `doPendingFunctors` so far. -/
def swapped (s : LoopExit F) : ℕ := s.loop.queue.taken.length + s.loop.functors.length

/-- Thread `u` enters `quit()`, or a step of the threads. -/
inductive Act (F : Type*)
  | beginQuit (u : ℕ)
  | thread (a : EventLoop.Act F)

/-- A thread that has entered `quit()` stores the flag next, and a thread that stores the flag
has entered `quit()`. -/
def Allows (s : LoopExit F) : EventLoop.Act F → Prop
  | .other u .quit => s.begun u ≠ none
  | .other u (.queueInLoop _) | .other u (.runInLoop _) => s.begun u = none
  | _ => True

instance (s : LoopExit F) (a : EventLoop.Act F) : Decidable (s.Allows a) := by
  unfold Allows
  split <;> infer_instance

/-- The history after a step of the threads that leaves the loop as `l`. -/
def note (s : LoopExit F) (l : EventLoop F) : EventLoop.Act F → LoopExit F
  | .loop .clearQuit => { s with loop := l, promised := [] }
  | .loop (.queueInLoop _) =>
    { s with loop := l, slot := Function.update s.slot none s.loop.queue.accepted.length }
  | .loop (.wakeup _) => { s with loop := l, completed := s.completed ++ [s.slot none] }
  | .other u .push =>
    { s with loop := l, slot := Function.update s.slot (some u) s.loop.queue.accepted.length }
  | .other u (.wakeup _) =>
    match s.loop.other u with
    | .waking => { s with loop := l, completed := s.completed ++ [s.slot (some u)] }
    | _ => { s with loop := l }
  | .other u .quit =>
    { s with
      loop := l
      begun := Function.update s.begun u none
      promised := if s.loop.pc.looping then s.promised ++ (s.begun u).getD [] else s.promised }
  | _ => { s with loop := l }

def step (s : LoopExit F) : Act F → Option (LoopExit F)
  | .beginQuit u =>
    match s.loop.other u, s.begun u with
    | .idle, none => some { s with begun := Function.update s.begun u (some s.completed) }
    | _, _ => none
  | .thread a => if s.Allows a then (s.loop.step a).map fun l => s.note l a else none

/-- A new loop with an empty history. -/
def new (F : Type*) (counter : ℕ) : LoopExit F where
  loop := .new F counter
  slot := fun _ => 0
  completed := []
  begun := fun _ => none
  promised := []

/-- The runs of a loop and all threads. -/
def system (F : Type*) : TransitionSystem (LoopExit F) (Act F) where
  init s := ∃ counter, s = new F counter
  step := step

/-- A `quit()` does not store the flag between the takeover of the queue and the test of the flag
while a functor that was queued before the `quit()` is still pending. -/
def QuitsInTime (s : LoopExit F) : Act F → Prop
  | .thread (.other u .quit) =>
    s.loop.pc.looping → s.loop.pc.ahead = true ∨ ∀ i ∈ (s.begun u).getD [], i < s.swapped
  | _ => True

/-- The invariant: the history speaks of accepted functors, and what is owed has been taken over
unless a takeover is ahead. -/
structure ExitInv (s : LoopExit F) : Prop where
  queue : QueueInv s.loop
  slotLoop : ∀ ctx, s.loop.pc = .user ctx .pushed → s.slot none < s.loop.queue.accepted.length
  slotOther : ∀ u, s.loop.other u = .waking → s.slot (some u) < s.loop.queue.accepted.length
  completed : ∀ i ∈ s.completed, i < s.loop.queue.accepted.length
  begun : ∀ u, ∀ i ∈ (s.begun u).getD [], i < s.loop.queue.accepted.length
  promised : ∀ i ∈ s.promised, i < s.loop.queue.accepted.length
  settled : s.loop.pc.ahead = false → ∀ i ∈ s.promised, i < s.swapped

/-- A new loop owes nothing. -/
lemma exitInv_new (counter : ℕ) : ExitInv (new F counter) where
  queue := queueInv_new counter
  slotLoop ctx h := by cases h
  slotOther u h := by cases h
  completed i h := by cases h
  begun u i h := by cases h
  promised i h := by cases h
  settled _ i h := by cases h

/-- A step of the loop thread that adds nothing to the queue. -/
lemma ExitInv.ofLoop (hI : ExitInv s) {l : EventLoop F} (hqueue : QueueInv l)
    (haccepted : l.queue.accepted = s.loop.queue.accepted) (hother : l.other = s.loop.other)
    (hpushed : ∀ ctx, l.pc = .user ctx .pushed → s.loop.pc = .user ctx .pushed)
    (hsettled : l.pc.ahead = false → ∀ i ∈ s.promised, i < l.queue.taken.length + l.functors.length) :
    ExitInv { s with loop := l } where
  queue := hqueue
  slotLoop ctx h := haccepted ▸ hI.slotLoop ctx (hpushed ctx h)
  slotOther u h := haccepted ▸ hI.slotOther u (hother ▸ h)
  completed := haccepted ▸ hI.completed
  begun := haccepted ▸ hI.begun
  promised := haccepted ▸ hI.promised
  settled := hsettled

/-- A push by thread `k`, which remembers the position of its functor. -/
lemma ExitInv.ofPush (hI : ExitInv s) {l : EventLoop F} (k : Option ℕ) (c : Call F)
    (hqueue : QueueInv l) (hpush : l.queue = s.loop.queue.push c)
    (hpushed : ∀ ctx, l.pc = .user ctx .pushed → k = none ∨ s.loop.pc = .user ctx .pushed)
    (hwaking : ∀ u, l.other u = .waking → k = some u ∨ s.loop.other u = .waking)
    (hahead : l.pc.ahead = false → s.loop.pc.ahead = false) :
    ExitInv { s with
      loop := l, slot := Function.update s.slot k s.loop.queue.accepted.length } := by
  have hlength : l.queue.accepted.length = s.loop.queue.accepted.length + 1 := by
    rw [hpush, BatchQueue.push_accepted, List.length_append, List.length_singleton]
  have hgrow : s.loop.queue.accepted.length ≤ l.queue.accepted.length := by omega
  have hslot : ∀ k', (k = k' ∨ s.slot k' < s.loop.queue.accepted.length) →
      Function.update s.slot k s.loop.queue.accepted.length k' < l.queue.accepted.length := by
    intro k' hk'
    by_cases hk : k' = k
    · subst hk
      rw [Function.update_self]
      omega
    · rw [Function.update_of_ne hk]
      rcases hk' with rfl | hlt
      · exact absurd rfl hk
      · omega
  refine ⟨hqueue, fun ctx hc => hslot none ?_, fun u hu => hslot (some u) ?_, ?_, ?_, ?_, ?_⟩
  · exact (hpushed ctx hc).imp_right (hI.slotLoop ctx)
  · exact (hwaking u hu).imp_right (hI.slotOther u)
  · exact fun i hi => Nat.lt_of_lt_of_le (hI.completed i hi) hgrow
  · exact fun u i hi => Nat.lt_of_lt_of_le (hI.begun u i hi) hgrow
  · exact fun i hi => Nat.lt_of_lt_of_le (hI.promised i hi) hgrow
  · intro ha i hi
    have hlt := hI.settled (hahead ha) i hi
    unfold swapped functors at hlt ⊢
    rw [hpush, BatchQueue.push_taken, BatchQueue.push_batch]
    exact hlt

/-- A call of `queueInLoop` returns. -/
lemma ExitInv.complete (hI : ExitInv s) {i : ℕ} (hi : i < s.loop.queue.accepted.length) :
    ExitInv { s with completed := s.completed ++ [i] } := by
  refine ⟨hI.queue, hI.slotLoop, hI.slotOther, fun j hj => ?_, hI.begun, hI.promised, hI.settled⟩
  rcases List.mem_append.mp hj with hj | hj
  · exact hI.completed j hj
  · obtain rfl := List.mem_singleton.mp hj
    exact hi

/-- A step of another thread that adds nothing to the queue. -/
lemma ExitInv.ofOther (hI : ExitInv s) {l : EventLoop F} (hl : QueueInv l)
    (hqueue : l.queue = s.loop.queue) (hpc : l.pc = s.loop.pc)
    (hwaking : ∀ u, l.other u = .waking → s.loop.other u = .waking) :
    ExitInv { s with loop := l } where
  queue := hl
  slotLoop ctx h := hqueue ▸ hI.slotLoop ctx (hpc ▸ h)
  slotOther u h := hqueue ▸ hI.slotOther u (hwaking u h)
  completed := hqueue ▸ hI.completed
  begun := hqueue ▸ hI.begun
  promised := hqueue ▸ hI.promised
  settled ha := by
    unfold swapped functors
    rw [hqueue]
    exact hI.settled (hpc ▸ ha)

/-- What holds of the functors owed to all threads holds after one thread's are replaced. -/
lemma begun_update {P : ℕ → Prop} {begun : ℕ → Option (List ℕ)} (u : ℕ) {o : Option (List ℕ)}
    (hbegun : ∀ v, ∀ i ∈ (begun v).getD [], P i) (ho : ∀ i ∈ o.getD [], P i) :
    ∀ v, ∀ i ∈ (Function.update begun u o v).getD [], P i := by
  intro v i hi
  by_cases hvu : v = u
  · subst hvu
    rw [Function.update_self] at hi
    exact ho i hi
  · rw [Function.update_of_ne hvu] at hi
    exact hbegun v i hi

/-- A `quit()` that stores the flag in time. -/
lemma ExitInv.promise (hI : ExitInv s) {u : ℕ} (hok : s.QuitsInTime (.thread (.other u .quit))) :
    ExitInv { s with
      begun := Function.update s.begun u none
      promised := if s.loop.pc.looping then s.promised ++ (s.begun u).getD [] else s.promised } := by
  have hbegun : ∀ v, ∀ i ∈ (Function.update s.begun u none v).getD [],
      i < s.loop.queue.accepted.length :=
    begun_update u hI.begun fun i hi => by cases hi
  cases hlooping : s.loop.pc.looping with
  | false => exact ⟨hI.queue, hI.slotLoop, hI.slotOther, hI.completed, hbegun, hI.promised, hI.settled⟩
  | true =>
    refine ⟨hI.queue, hI.slotLoop, hI.slotOther, hI.completed, hbegun, ?_, ?_⟩
    · intro i hi
      rcases List.mem_append.mp hi with hi | hi
      · exact hI.promised i hi
      · exact hI.begun u i hi
    · intro ha i hi
      rcases List.mem_append.mp hi with hi | hi
      · exact hI.settled ha i hi
      · rcases hok hlooping with hahead | hswapped
        · exact absurd (hahead.symm.trans ha) (by decide)
        · exact hswapped i hi

/-- Everything accepted so far has been taken over right after a swap. -/
lemma swapped_swap (hI : ExitInv s) (hpc : s.loop.pc = .swapping) :
    s.loop.queue.swap.taken.length + s.loop.queue.swap.batch.length =
      s.loop.queue.accepted.length := by
  have hbatch : s.loop.queue.batch = [] := hI.queue.batch (by rw [hpc]; exact id)
  rw [hI.queue.sound.fifo, BatchQueue.content, hbatch, List.nil_append, List.length_append,
    List.length_map, BatchQueue.swap_batch, BatchQueue.swap_taken]

/-- The steps of the loop thread keep the invariant. -/
lemma ExitInv.loopStep (hI : ExitInv s) {a : LoopAct F} {l : EventLoop F}
    (h : s.loop.loopStep a = some l) : ExitInv (s.note l (.loop a)) := by
  have hqueue := hI.queue.loopStep h
  have hsettled := hI.settled
  cases loopStep_cases h with
  | enter hpc =>
    refine hI.ofLoop hqueue rfl rfl (fun ctx hc => by cases hc) fun _ => hsettled ?_
    rw [hpc]
    rfl
  | clearQuit hpc =>
    exact ⟨hqueue, fun ctx hc => (by cases hc), hI.slotOther, hI.completed, hI.begun,
      fun i hi => (by cases hi), fun _ i hi => (by cases hi)⟩
  | leave hpc hquit =>
    refine hI.ofLoop hqueue rfl rfl (fun ctx hc => by cases hc) fun _ => hsettled ?_
    rw [hpc]
    rfl
  | stay hpc hquit =>
    exact hI.ofLoop hqueue rfl rfl (fun ctx hc => by cases hc) fun ha => (by cases ha)
  | poll hpc =>
    exact hI.ofLoop hqueue rfl rfl (fun ctx hc => by cases hc) fun ha => (by cases ha)
  | dispatchWakeup hpc =>
    exact hI.ofLoop hqueue rfl rfl (fun ctx hc => by cases hc) fun ha => (by cases ha)
  | dispatchIo hpc =>
    exact hI.ofLoop hqueue rfl rfl (fun ctx hc => by cases hc) fun ha => (by cases ha)
  | setFlag hpc =>
    exact hI.ofLoop hqueue rfl rfl (fun ctx hc => by cases hc) fun ha => (by cases ha)
  | swap hpc =>
    refine hI.ofLoop hqueue rfl rfl (fun ctx hc => by cases hc) fun _ i hi => ?_
    exact (swapped_swap hI hpc).symm ▸ hI.promised i hi
  | call hpc htake =>
    obtain ⟨xs, hbatch, rfl⟩ := BatchQueue.take_eq_some_iff.mp htake
    refine hI.ofLoop hqueue rfl rfl (fun ctx hc => by cases hc) fun _ i hi => ?_
    have hi' := hsettled (by rw [hpc]; rfl) i hi
    unfold swapped functors at hi'
    rw [hbatch, List.length_cons] at hi'
    simp only [functors, List.length_append, List.length_singleton]
    omega
  | clearFlag hpc hbatch =>
    refine hI.ofLoop hqueue rfl rfl (fun ctx hc => by cases hc) fun _ => hsettled ?_
    rw [hpc]
    rfl
  | @queueInLoop ctx f hpc =>
    refine hI.ofPush none _ hqueue rfl (fun _ _ => .inl rfl) (fun _ hu => .inr hu) ?_
    rw [hpc]
    cases ctx <;> exact id
  | @wakeup ctx ok n hpc hn =>
    have hslot := hI.slotLoop ctx hpc
    have hkept : ExitInv { s with loop := { s.loop with wakeupFd := n, pc := .user ctx .free } } := by
      refine hI.ofLoop hqueue rfl rfl (fun _ hc => by cases hc) fun ha => hsettled ?_
      rw [hpc]
      cases ctx <;> exact ha
    exact hkept.complete hslot
  | @noWakeup ctx ok hpc hflag =>
    have hslot := hI.slotLoop ctx hpc
    have hkept : ExitInv { s with loop := { s.loop with pc := .user ctx .free } } := by
      refine hI.ofLoop hqueue rfl rfl (fun _ hc => by cases hc) fun ha => hsettled ?_
      rw [hpc]
      cases ctx <;> exact ha
    exact hkept.complete hslot
  | runInLoop hpc => exact hI.ofLoop hqueue rfl rfl (fun ctx hc => hc) hsettled
  | quit hpc => exact hI.ofLoop hqueue rfl rfl (fun ctx hc => hc) hsettled
  | retHandler hpc =>
    exact hI.ofLoop hqueue rfl rfl (fun ctx hc => by cases hc) fun ha => (by cases ha)
  | retFunctor hpc =>
    refine hI.ofLoop hqueue rfl rfl (fun ctx hc => by cases hc) fun _ => hsettled ?_
    rw [hpc]
    rfl

/-- The steps of the other threads keep the invariant, if their `quit()` is in time. -/
lemma ExitInv.otherStep (hI : ExitInv s) {u : ℕ} {a : OtherAct F} {l : EventLoop F}
    (hok : s.QuitsInTime (.thread (.other u a))) (h : s.loop.otherStep u a = some l) :
    ExitInv (s.note l (.other u a)) := by
  have hqueue := hI.queue.otherStep h
  have hother : ∀ {pc : OtherPc F} {v : ℕ}, pc ≠ .waking →
      (s.loop.setOther u pc).other v = .waking → s.loop.other v = .waking := by
    intro pc v hne hv
    by_cases hvu : v = u
    · subst hvu
      rw [setOther_other_self] at hv
      exact absurd hv hne
    · rwa [setOther_other_of_ne hvu] at hv
  cases otherStep_cases h with
  | @queueInLoop f hpc | @runInLoop f hpc =>
    exact hI.ofOther hqueue rfl rfl fun v hv => hother (by simp) hv
  | @push f hpc =>
    refine hI.ofPush (some u) _ hqueue rfl (fun _ hc => .inr hc) (fun v hv => ?_) id
    by_cases hvu : v = u
    · exact .inl (congrArg some hvu.symm)
    · change (s.loop.setOther u .waking).other v = .waking at hv
      rw [setOther_other_of_ne hvu] at hv
      exact .inr hv
  | quit hpc =>
    exact (hI.promise hok).ofOther hqueue rfl rfl fun v hv => hother (by simp) hv
  | @wakeup ok n hpc hn =>
    have hslot := hI.slotOther u hpc
    simp only [note, hpc]
    exact (hI.complete hslot).ofOther hqueue rfl rfl fun v hv => hother (by simp) hv
  | @quitWakeup ok n hpc hn =>
    simp only [note, hpc]
    exact hI.ofOther hqueue rfl rfl fun v hv => hother (by simp) hv

/-- Every step in time keeps the invariant. -/
lemma ExitInv.step {a : Act F} (hI : ExitInv s) (hok : s.QuitsInTime a)
    (h : s.step a = some s') : ExitInv s' := by
  cases a with
  | beginQuit u =>
    simp only [LoopExit.step] at h
    split at h
    · obtain rfl := Option.some.inj h
      exact ⟨hI.queue, hI.slotLoop, hI.slotOther, hI.completed,
        begun_update u hI.begun hI.completed, hI.promised, hI.settled⟩
    · cases h
  | thread a =>
    obtain ⟨-, h⟩ := Option.ite_none_right_eq_some.mp h
    obtain ⟨l, hl, rfl⟩ := Option.map_eq_some_iff.mp h
    cases a with
    | loop a => exact hI.loopStep hl
    | other u a => exact hI.otherStep hok hl

/-- When `loop()` has returned, every functor whose `queueInLoop` had returned before a `quit()`
of the running loop began has been executed, if every `quit()` was in time. -/
theorem executed_of_promised (h : (system F).ReachWhere QuitsInTime s)
    (hpc : s.loop.pc = .outside) : ∀ i ∈ s.promised, ∃ x,
      s.loop.queue.accepted[i]? = some x ∧ s.loop.executed[i]? = some x := by
  have hI : ExitInv s := by
    refine h.invariant ?_ fun _ _ _ hI hok hs => hI.step hok hs
    rintro _ ⟨counter, rfl⟩
    exact exitInv_new counter
  intro i hi
  have hbatch : s.loop.functors = [] := hI.queue.batch (by rw [hpc]; exact id)
  have hlt := hI.settled (by rw [hpc]; rfl) i hi
  rw [swapped, hbatch, List.length_nil, Nat.add_zero] at hlt
  have hexecuted : i < s.loop.executed.length := by rwa [executed, List.length_map]
  refine ⟨s.loop.executed[i], ?_, List.getElem?_eq_getElem hexecuted⟩
  obtain ⟨rest, hprefix⟩ := hI.queue.sound.taken_prefix
  rw [← hprefix]
  exact (List.getElem?_append_left hexecuted).trans (List.getElem?_eq_getElem hexecuted)

instance (s : LoopExit F) (a : Act F) : Decidable (s.QuitsInTime a) := by
  unfold QuitsInTime
  split <;> infer_instance

/-- Thread 0 queues functor 7 while the loop polls, thread 1 quits, and the loop runs the functor
and returns. -/
def inTimeRun : List (Act ℕ) :=
  [.thread (.loop .enter), .thread (.loop .clearQuit), .thread (.loop .test),
    .thread (.other 0 (.queueInLoop 7)), .thread (.other 0 .push),
    .thread (.other 0 (.wakeup true)), .beginQuit 1, .thread (.other 1 .quit),
    .thread (.loop (.poll [])), .thread (.loop .setFlag), .thread (.loop .swap),
    .thread (.loop .call), .thread (.loop .ret), .thread (.loop .clearFlag), .thread (.loop .test)]

/-- The theorem at the end of that run. -/
theorem executed_of_promised_inTimeRun : ∃ s, (system ℕ).Reach s ∧ s.loop.pc = .outside ∧
    s.promised = [0] ∧ (s.loop.executed[0]?).isSome := by
  obtain ⟨s, hs, hv⟩ := TransitionSystem.exists_reach_of_run
    (M := (system ℕ).restrict QuitsInTime) (s := new ℕ 0) (v := (LoopPc.outside, [0])) inTimeRun
    (fun s => (s.loop.pc, s.promised)) ⟨0, rfl⟩ (by decide)
  obtain ⟨hpc, hpromised⟩ := Prod.mk.inj hv
  have hwhere := TransitionSystem.Reach.of_restrict hs
  obtain ⟨x, -, hx⟩ := executed_of_promised hwhere hpc 0 (by rw [hpromised]; decide)
  exact ⟨s, hwhere.reach, hpc, hpromised, by rw [hx]; rfl⟩

/-- Thread 0 queues functor 7 after the loop has taken over the empty queue, thread 1 quits, and
the loop finds the flag set. -/
def lateRun : List (Act ℕ) :=
  [.thread (.loop .enter), .thread (.loop .clearQuit), .thread (.loop .test),
    .thread (.loop (.poll [])), .thread (.loop .setFlag), .thread (.loop .swap),
    .thread (.other 0 (.queueInLoop 7)), .thread (.other 0 .push),
    .thread (.other 0 (.wakeup true)), .beginQuit 1, .thread (.other 1 .quit),
    .thread (.other 1 (.wakeup true)), .thread (.loop .clearFlag), .thread (.loop .test)]

/-- The loop returns and functor 7, queued before the `quit()` began, was not executed. -/
theorem exists_dropped : ∃ s : LoopExit ℕ, (system ℕ).Reach s ∧ s.loop.pc = .outside ∧
    s.promised = [0] ∧ s.loop.executed = [] ∧
    s.loop.pendingFunctors.map (fun x => x.item.functor) = [7] := by
  obtain ⟨s, hs, hv⟩ := TransitionSystem.exists_reach_of_run (M := system ℕ) (s := new ℕ 0)
    (v := (LoopPc.outside, [0], [], [7])) lateRun
    (fun s => (s.loop.pc, s.promised, s.loop.executed,
      s.loop.pendingFunctors.map fun x => x.item.functor)) ⟨0, rfl⟩ (by decide)
  simp only [Prod.mk.injEq] at hv
  exact ⟨s, hs, hv⟩

end LoopExit

end HzhMuduo
