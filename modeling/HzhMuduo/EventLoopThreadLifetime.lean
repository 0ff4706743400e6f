import HzhMuduo.EventLoopThread

/-!
# The loop thread and the objects it shares with its owner

The `EventLoop` lives on the stack of `threadFunc`, and `threadFunc` uses the members of the
`EventLoopThread`, so each of the two must not end before the other is done with it.

Where nobody but the destructor asks the loop to quit, both are there as long as they have to be,
but for one call: when the destructor has returned, the thread has finished or was never started,
and the `EventLoop` is there for the owner from the return of `startLoop` to the store of `quit_` in
the destructor (`lifetimes_of_reach`).  The write of `wakeup()` behind that store can come too late
(`exists_waking_and_finished`).

Where somebody else ends the loop, the destructor may find that `loop_` is null and return without
`join()`, while the thread has yet to release `mutex_` (`exists_done_and_unlocking`).  The store of
null is all that it is sure of.
-/

namespace HzhMuduo

namespace EventLoop

variable {F : Type*} {l l' : EventLoop F}

/-- `loop()` returns only when `quit_` is set. -/
lemma pc_ne_outside_of_loopStep {a : LoopAct F} (h : l.loopStep a = some l')
    (hquit : l.quit = false) : l'.pc ≠ .outside := by
  intro hout
  cases loopStep_cases h with
  | leave hpc hset =>
    rw [hquit] at hset
    cases hset
  | runInLoop hpc | quit hpc =>
    rw [show l.pc = .outside from hout] at hpc
    cases hpc
  | _ => cases hout

/-- The loop thread sets `quit_` only in `quit()`. -/
lemma quit_eq_false_of_loopStep {a : LoopAct F} (h : l.loopStep a = some l')
    (hquit : l.quit = false) (ha : a ≠ .quit) : l'.quit = false := by
  cases loopStep_cases h with
  | clearQuit hpc => rfl
  | quit hpc => exact absurd rfl ha
  | _ => exact hquit

end EventLoop

namespace EventLoopThread

variable {F : Type*} {s s' : EventLoopThread F} {a : Act F}

/-- The step asks the loop to quit and is not the destructor's. -/
def Act.asksQuit : Act F → Bool
  | .call .quit | .callbackQuit | .loop .quit | .other _ .quit => true
  | _ => false

/-- Nobody but the destructor asks the loop to quit. -/
def OnlyDestructorQuits (_ : EventLoopThread F) (a : Act F) : Prop := a.asksQuit = false

instance (s : EventLoopThread F) (a : Act F) : Decidable (OnlyDestructorQuits s a) :=
  inferInstanceAs (Decidable (_ = _))

/-- The thread has published the address of its loop. -/
def Published (s : EventLoopThread F) : Prop :=
  s.thread = .aboutToLoop ∨ s.thread = .inLoop ∨ s.thread.returned = true

/-- The destructor has stored to `quit_`, or has come to its end. -/
def Asked (s : EventLoopThread F) : Prop :=
  s.owner = .waking ∨ s.owner = .joining ∨ s.owner = .done

/-- Where the thread is when the owner is there. -/
structure Placed (s : EventLoopThread F) : Prop where
  /-- `loop_` is set from its publication until `loop()` has returned. -/
  ptr : s.loopPtr = true ↔
    s.thread = .aboutToLoop ∨ s.thread = .inLoop ∨ s.thread = .clearing
  created : s.owner = .created → s.thread = .notStarted
  holding : s.owner = .holding → s.Published
  testing : s.owner = .testing → s.thread = .notStarted ∨ s.Published
  quitting : s.owner = .quitting → s.Published
  done : s.owner = .done → s.thread = .notStarted ∨ s.thread.leaving = true

/-- Between the return of `loop()` and the store of null there is one place. -/
lemma leaving_of_returned {t : ThreadPc} (h : t.returned = true) (hne : t ≠ .clearing) :
    t.leaving = true := by
  cases t with
  | clearing => exact absurd rfl hne
  | _ => exact h

lemma placed_new : Placed (new F) := by
  constructor
  · simp [new]
  · intro _
    rfl
  all_goals
    intro h
    cases h

namespace Placed

/-- While `loop_` is set, the thread is past its publication. -/
lemma published (hP : Placed s) (hptr : s.loopPtr = true) : s.Published := by
  rcases hP.ptr.mp hptr with ht | ht | ht
  · exact .inl ht
  · exact .inr (.inl ht)
  · exact .inr (.inr (ht ▸ rfl))

/-- A step that moves neither of the two. -/
lemma congr (hP : Placed s) (hptr : s'.loopPtr = s.loopPtr) (hthread : s'.thread = s.thread)
    (howner : s'.owner = s.owner) : Placed s' := by
  have hpublished : s'.Published ↔ s.Published := by rw [Published, Published, hthread]
  constructor
  · rw [hptr, hthread]
    exact hP.ptr
  · rw [howner, hthread]
    exact hP.created
  · rw [howner, hpublished]
    exact hP.holding
  · rw [howner, hthread, hpublished]
    exact hP.testing
  · rw [howner, hpublished]
    exact hP.quitting
  · rw [howner, hthread]
    exact hP.done

/-- The thread goes on. -/
lemma advance (hP : Placed s) {l : EventLoop F} {ptr : Bool} {t : ThreadPc}
    (hstarted : s.thread ≠ .notStarted) (hleaving : s.thread.leaving = true → t.leaving = true)
    (hptr : ptr = true ↔ t = .aboutToLoop ∨ t = .inLoop ∨ t = .clearing)
    (hpublished : s.Published → Published { s with loop := l, loopPtr := ptr, thread := t }) :
    Placed { s with loop := l, loopPtr := ptr, thread := t } := by
  refine ⟨hptr, fun ho => ?_, fun ho => ?_, fun ho => ?_, fun ho => ?_, fun ho => ?_⟩
  · exact absurd (hP.created ho) hstarted
  · exact hpublished (hP.holding ho)
  · exact .inr (hpublished ((hP.testing ho).resolve_left hstarted))
  · exact hpublished (hP.quitting ho)
  · rcases hP.done ho with ht | ht
    · exact absurd ht hstarted
    · exact .inr (hleaving ht)

/-- The owner goes on. -/
lemma proceed (hP : Placed s) {l : EventLoop F} {e : Bool} {o : OwnerPc} (hnew : o ≠ .created)
    (hpublished : o = .holding ∨ o = .quitting → s.Published)
    (htesting : o = .testing → s.thread = .notStarted ∨ s.Published)
    (hdone : o = .done → s.thread = .notStarted ∨ s.thread.leaving = true) :
    Placed { s with loop := l, exiting := e, owner := o } := by
  refine ⟨hP.ptr, fun ho => absurd ho hnew, fun ho => ?_, htesting, fun ho => ?_, hdone⟩
  · exact hpublished (.inl ho)
  · exact hpublished (.inr ho)

/-- Every step keeps the two in step. -/
lemma step (hP : Placed s) (h : s.step a = some s') : Placed s' := by
  cases a with
  | start =>
    obtain ⟨⟨-, ht⟩, h⟩ := Option.ite_none_right_eq_some.mp h
    obtain rfl := Option.some.inj h
    have hptr : s.loopPtr ≠ true := by
      intro hset
      rw [hP.ptr, ht] at hset
      rcases hset with h | h | h <;> cases h
    refine ⟨iff_of_false hptr ?_, ?_, ?_, ?_, ?_, ?_⟩ <;> simp
  | wait =>
    obtain ⟨⟨-, hptr⟩, h⟩ := Option.ite_none_right_eq_some.mp h
    obtain rfl := Option.some.inj h
    exact hP.proceed (by decide) (fun _ => hP.published hptr) (by simp) (by simp)
  | destroy =>
    obtain ⟨hfrom, h⟩ := Option.ite_none_right_eq_some.mp h
    obtain rfl := Option.some.inj h
    refine hP.proceed (by decide) (by simp) (fun _ => ?_) (by simp)
    rcases hfrom with ho | ⟨ho, -⟩
    · exact .inl (hP.created ho)
    · exact .inr (hP.holding ho)
  | test =>
    obtain ⟨ho, h⟩ := Option.ite_none_right_eq_some.mp h
    obtain rfl := Option.some.inj h
    by_cases hptr : s.loopPtr = true
    · rw [if_pos hptr]
      exact hP.proceed (by decide) (fun _ => hP.published hptr) (by simp) (by simp)
    · -- `loop_` is null before the thread is started and after it has cleared it
      rw [if_neg hptr]
      refine hP.proceed (by decide) (by simp) (by simp) fun _ => ?_
      have hnot := (not_congr hP.ptr).mp hptr
      rcases hP.testing ho with ht | ht | ht | ht
      · exact .inl ht
      · exact absurd (.inl ht) hnot
      · exact absurd (.inr (.inl ht)) hnot
      · exact .inr (leaving_of_returned ht fun hc => hnot (.inr (.inr hc)))
  | join =>
    obtain ⟨⟨-, ht⟩, h⟩ := Option.ite_none_right_eq_some.mp h
    obtain rfl := Option.some.inj h
    exact hP.proceed (by decide) (by simp) (by simp) fun _ => .inr (ht ▸ rfl)
  | quit =>
    obtain ⟨-, h⟩ := Option.ite_none_right_eq_some.mp h
    obtain ⟨l, hl, rfl⟩ := Option.map_eq_some_iff.mp h
    exact hP.proceed (by decide) (by simp) (by simp) (by simp)
  | wakeup ok =>
    obtain ⟨-, h⟩ := Option.ite_none_right_eq_some.mp h
    obtain ⟨l, hl, rfl⟩ := Option.map_eq_some_iff.mp h
    exact hP.proceed (by decide) (by simp) (by simp) (by simp)
  | call b | other u b =>
    obtain ⟨-, h⟩ := Option.ite_none_right_eq_some.mp h
    obtain ⟨l, hl, rfl⟩ := Option.map_eq_some_iff.mp h
    exact hP.congr rfl rfl rfl
  | callbackQuit =>
    obtain ⟨-, h⟩ := Option.ite_none_right_eq_some.mp h
    obtain rfl := Option.some.inj h
    exact hP.congr rfl rfl rfl
  | construct | callbackRet =>
    obtain ⟨ht, h⟩ := Option.ite_none_right_eq_some.mp h
    obtain rfl := Option.some.inj h
    refine hP.advance (by simp [ht]) (by simp [ht, ThreadPc.leaving]) ?_ fun hpublished => ?_
    · rw [hP.ptr, ht]
      simp
    · simp [Published, ht, ThreadPc.returned, ThreadPc.leaving] at hpublished
  | publish =>
    obtain ⟨ht, h⟩ := Option.ite_none_right_eq_some.mp h
    obtain rfl := Option.some.inj h
    refine hP.advance (by simp [ht]) (by simp [ht, ThreadPc.leaving]) (by simp) fun _ => ?_
    exact .inl rfl
  | enter =>
    obtain ⟨ht, h⟩ := Option.ite_none_right_eq_some.mp h
    obtain ⟨l, hl, rfl⟩ := Option.map_eq_some_iff.mp h
    refine hP.advance (by simp [ht]) (by simp [ht, ThreadPc.leaving]) ?_ fun _ => ?_
    · rw [hP.ptr, ht]
      simp
    · exact .inr (.inl rfl)
  | loop b =>
    obtain ⟨ht, h⟩ := Option.ite_none_right_eq_some.mp h
    obtain ⟨l, hl, rfl⟩ := Option.map_eq_some_iff.mp h
    have hset : s.loopPtr = true := hP.ptr.mpr (.inr (.inl ht))
    by_cases hout : l.pc = .outside
    · rw [if_pos hout]
      refine hP.advance (by simp [ht]) (by simp [ht, ThreadPc.leaving]) (by simp [hset]) fun _ => ?_
      exact .inr (.inr rfl)
    · rw [if_neg hout]
      refine hP.advance (by simp [ht]) (by simp [ht, ThreadPc.leaving]) (by simp [hset]) fun _ => ?_
      exact .inr (.inl rfl)
  | clear =>
    obtain ⟨ht, h⟩ := Option.ite_none_right_eq_some.mp h
    obtain rfl := Option.some.inj h
    refine hP.advance (by simp [ht]) (fun _ => rfl) (by simp) fun _ => ?_
    exact .inr (.inr rfl)
  | unlock | finish =>
    obtain ⟨ht, h⟩ := Option.ite_none_right_eq_some.mp h
    obtain rfl := Option.some.inj h
    refine hP.advance (by simp [ht]) (fun _ => rfl) ?_ fun _ => ?_
    · rw [hP.ptr, ht]
      simp
    · exact .inr (.inr rfl)

end Placed

/-- In every run. -/
theorem placed_of_reach (h : (system F).Reach s) : Placed s :=
  h.invariant (fun _ hs => hs ▸ placed_new) fun _ _ _ hP hs => hP.step hs

/-! ### Who ends the loop -/

/-- Until the destructor asks it to quit, the loop goes on. -/
structure GoesOn (s : EventLoopThread F) : Prop where
  quit : s.loop.quit = false
  thread : s.thread.returned = false

/-- Another thread calls the loop, and not to quit it. -/
lemma GoesOn.call (h : GoesOn s) {u : ℕ} {b : EventLoop.OtherAct F} {l : EventLoop F}
    (hl : s.loop.otherStep u b = some l) (hb : b ≠ .quit) : GoesOn { s with loop := l } := by
  refine ⟨?_, h.thread⟩
  rcases EventLoop.requested_of_otherStep hl with ⟨hquit, -⟩ | ⟨heq, -⟩
  · exact absurd hquit hb
  · exact heq.trans h.quit

/-- Every step but the store of the destructor lets the loop go on. -/
lemma GoesOn.step (hG : GoesOn s) (hok : OnlyDestructorQuits s a) (h : s.step a = some s')
    (hasked : ¬ s'.Asked) : GoesOn s' := by
  cases a with
  | start | callbackRet | publish =>
    obtain ⟨-, h⟩ := Option.ite_none_right_eq_some.mp h
    obtain rfl := Option.some.inj h
    exact ⟨hG.quit, rfl⟩
  | wait | destroy | test | join =>
    obtain ⟨-, h⟩ := Option.ite_none_right_eq_some.mp h
    obtain rfl := Option.some.inj h
    exact ⟨hG.quit, hG.thread⟩
  | call b =>
    obtain ⟨-, h⟩ := Option.ite_none_right_eq_some.mp h
    obtain ⟨l, hl, rfl⟩ := Option.map_eq_some_iff.mp h
    refine hG.call hl ?_
    rintro rfl
    cases hok
  | other u b =>
    obtain ⟨-, h⟩ := Option.ite_none_right_eq_some.mp h
    obtain ⟨l, hl, rfl⟩ := Option.map_eq_some_iff.mp h
    refine hG.call hl ?_
    rintro rfl
    cases hok
  | quit =>
    obtain ⟨-, h⟩ := Option.ite_none_right_eq_some.mp h
    obtain ⟨l, hl, rfl⟩ := Option.map_eq_some_iff.mp h
    exact absurd (.inl rfl) hasked
  | wakeup ok =>
    obtain ⟨-, h⟩ := Option.ite_none_right_eq_some.mp h
    obtain ⟨l, hl, rfl⟩ := Option.map_eq_some_iff.mp h
    exact absurd (.inr (.inl rfl)) hasked
  | construct =>
    obtain ⟨-, h⟩ := Option.ite_none_right_eq_some.mp h
    obtain rfl := Option.some.inj h
    exact ⟨rfl, rfl⟩
  | callbackQuit => cases hok
  | enter =>
    obtain ⟨-, h⟩ := Option.ite_none_right_eq_some.mp h
    obtain ⟨l, hl, rfl⟩ := Option.map_eq_some_iff.mp h
    have hne : EventLoop.LoopAct.enter ≠ (.quit : EventLoop.LoopAct F) := by simp
    exact ⟨EventLoop.quit_eq_false_of_loopStep hl hG.quit hne, rfl⟩
  | loop b =>
    obtain ⟨-, h⟩ := Option.ite_none_right_eq_some.mp h
    obtain ⟨l, hl, rfl⟩ := Option.map_eq_some_iff.mp h
    have hb : b ≠ .quit := by
      rintro rfl
      cases hok
    have hin : l.pc ≠ .outside := EventLoop.pc_ne_outside_of_loopStep hl hG.quit
    refine ⟨EventLoop.quit_eq_false_of_loopStep hl hG.quit hb, ?_⟩
    rw [if_neg hin]
    rfl
  | clear | unlock | finish =>
    obtain ⟨ht, -⟩ := Option.ite_none_right_eq_some.mp h
    have hreturned := hG.thread
    rw [ht] at hreturned
    cases hreturned

/-- The destructor does not take its request back. -/
lemma Asked.step (hA : s.Asked) (h : s.step a = some s') : s'.Asked := by
  cases a with
  | start | wait | destroy | test =>
    obtain ⟨hfrom, -⟩ := Option.ite_none_right_eq_some.mp h
    rcases hA with ho | ho | ho <;> simp [ho] at hfrom
  | quit =>
    obtain ⟨hfrom, -⟩ := Option.ite_none_right_eq_some.mp h
    rcases hA with ho | ho | ho <;> exact absurd (hfrom.symm.trans ho) (by decide)
  | wakeup ok =>
    obtain ⟨-, h⟩ := Option.ite_none_right_eq_some.mp h
    obtain ⟨l, -, rfl⟩ := Option.map_eq_some_iff.mp h
    exact .inr (.inl rfl)
  | join =>
    obtain ⟨-, h⟩ := Option.ite_none_right_eq_some.mp h
    obtain rfl := Option.some.inj h
    exact .inr (.inr rfl)
  | construct | callbackQuit | callbackRet | publish | clear | unlock | finish =>
    obtain ⟨-, h⟩ := Option.ite_none_right_eq_some.mp h
    obtain rfl := Option.some.inj h
    exact hA
  | call b | enter | loop b | other u b =>
    obtain ⟨-, h⟩ := Option.ite_none_right_eq_some.mp h
    obtain ⟨l, -, rfl⟩ := Option.map_eq_some_iff.mp h
    exact hA

/-- In the runs in which nobody else asks the loop to quit. -/
theorem goesOn_of_reach (h : (system F).ReachWhere OnlyDestructorQuits s) :
    s.Asked ∨ GoesOn s := by
  refine h.invariant (I := fun s => s.Asked ∨ GoesOn s) ?_ ?_
  · rintro s rfl
    exact .inr ⟨rfl, rfl⟩
  · rintro s a s' (hA | hG) hok hs
    · exact .inl (hA.step hs)
    · by_cases hasked : s'.Asked
      · exact .inl hasked
      · exact .inr (hG.step hok hs hasked)

/-- While the owner uses the loop, from the return of `startLoop` to the store of the destructor, it
goes on. -/
lemma goesOn_of_owner (hA : s.Asked ∨ GoesOn s)
    (howner : s.owner = .holding ∨ s.owner = .quitting ∨ s.owner = .testing) : GoesOn s := by
  refine hA.resolve_left ?_
  rintro (hasked | hasked | hasked) <;> simp [hasked] at howner

/-! ### Who ends last -/

/-- The destructor has returned only behind the end of the thread. -/
def Outlives (s : EventLoopThread F) : Prop :=
  s.owner = .done → s.thread = .notStarted ∨ s.thread = .finished

/-- The thread goes on, so the destructor has not returned. -/
lemma Outlives.advance (hO : s.Outlives) (hstarted : s.thread ≠ .notStarted)
    (hrunning : s.thread ≠ .finished) (howner : s'.owner = s.owner) : s'.Outlives := by
  intro ho
  rcases hO (howner.symm.trans ho) with ht | ht
  · exact absurd ht hstarted
  · exact absurd ht hrunning

/-- A step that moves neither of the two. -/
lemma Outlives.congr (hO : s.Outlives) (hthread : s'.thread = s.thread)
    (howner : s'.owner = s.owner) : s'.Outlives := by
  intro ho
  rw [hthread]
  exact hO (howner.symm.trans ho)

/-- The owner has not come to its end. -/
lemma outlives_of_owner (h : s.owner ≠ .done) : s.Outlives := fun ho => absurd ho h

/-- Every step, as long as the loop goes on until the destructor asks. -/
lemma Outlives.step (hO : s.Outlives) (hP : Placed s) (hA : s.Asked ∨ GoesOn s)
    (h : s.step a = some s') : s'.Outlives := by
  cases a with
  | start | wait | destroy =>
    obtain ⟨-, h⟩ := Option.ite_none_right_eq_some.mp h
    obtain rfl := Option.some.inj h
    exact outlives_of_owner (by simp)
  | quit | wakeup ok =>
    obtain ⟨-, h⟩ := Option.ite_none_right_eq_some.mp h
    obtain ⟨l, -, rfl⟩ := Option.map_eq_some_iff.mp h
    exact outlives_of_owner (by simp)
  | test =>
    obtain ⟨ho, h⟩ := Option.ite_none_right_eq_some.mp h
    obtain rfl := Option.some.inj h
    by_cases hptr : s.loopPtr = true
    · exact outlives_of_owner (by simp [hptr])
    · -- the loop has not been ended, so the thread has not been started
      refine fun _ => .inl ?_
      have hnot := (not_congr hP.ptr).mp hptr
      have hG := goesOn_of_owner hA (.inr (.inr ho))
      rcases hP.testing ho with ht | ht | ht | ht
      · exact ht
      · exact absurd (.inl ht) hnot
      · exact absurd (.inr (.inl ht)) hnot
      · rw [hG.thread] at ht
        cases ht
  | join =>
    obtain ⟨⟨-, ht⟩, h⟩ := Option.ite_none_right_eq_some.mp h
    obtain rfl := Option.some.inj h
    exact fun _ => .inr ht
  | call b | other u b =>
    obtain ⟨-, h⟩ := Option.ite_none_right_eq_some.mp h
    obtain ⟨l, -, rfl⟩ := Option.map_eq_some_iff.mp h
    exact hO.congr rfl rfl
  | callbackQuit =>
    obtain ⟨-, h⟩ := Option.ite_none_right_eq_some.mp h
    obtain rfl := Option.some.inj h
    exact hO.congr rfl rfl
  | construct | callbackRet | publish | clear | unlock | finish =>
    obtain ⟨ht, h⟩ := Option.ite_none_right_eq_some.mp h
    obtain rfl := Option.some.inj h
    exact hO.advance (by simp [ht]) (by simp [ht]) rfl
  | enter | loop b =>
    obtain ⟨ht, h⟩ := Option.ite_none_right_eq_some.mp h
    obtain ⟨l, -, rfl⟩ := Option.map_eq_some_iff.mp h
    exact hO.advance (by simp [ht]) (by simp [ht]) rfl

/-- In the runs in which nobody else asks the loop to quit. -/
lemma outlives_of_reach (h : (system F).ReachWhere OnlyDestructorQuits s) : s.Outlives := by
  refine h.invariant_of (J := fun s => Placed s ∧ (s.Asked ∨ GoesOn s))
    (fun s hs => ⟨placed_of_reach hs.reach, goesOn_of_reach hs⟩) ?_ ?_
  · rintro s rfl
    exact outlives_of_owner (by simp [new])
  · intro s a s' hJ _ hO _ hs
    exact hO.step hJ.1 hJ.2 hs

/-- When the destructor has returned, the thread was never started or has set `loop_` to null.  In
the runs in which nobody else asks the loop to quit, it was never started or has finished; and the
loop exists and `loop_` holds its address as long as the owner uses it, from the return of
`startLoop` to the store of the destructor, so that the destructor joins every thread that was
started. -/
theorem lifetimes_of_reach (h : (system F).Reach s) :
    (s.owner = .done → s.thread = .notStarted ∨ s.thread.leaving = true) ∧
    ((system F).ReachWhere OnlyDestructorQuits s →
      (s.owner = .done → s.thread = .notStarted ∨ s.thread = .finished) ∧
      (s.owner = .holding ∨ s.owner = .quitting ∨ s.owner = .testing ∧ s.thread ≠ .notStarted →
        s.loopPtr = true ∧ (s.thread = .aboutToLoop ∨ s.thread = .inLoop))) := by
  have hP := placed_of_reach h
  refine ⟨hP.done, fun hwhere => ⟨outlives_of_reach hwhere, fun ho => ?_⟩⟩
  have hG := goesOn_of_owner (goesOn_of_reach hwhere) (ho.imp_right (Or.imp_right And.left))
  have hpublished : s.Published := by
    rcases ho with ho | ho | ⟨ho, hstarted⟩
    · exact hP.holding ho
    · exact hP.quitting ho
    · exact (hP.testing ho).resolve_left hstarted
  have hthread : s.thread = .aboutToLoop ∨ s.thread = .inLoop := by
    rcases hpublished with ht | ht | ht
    · exact .inl ht
    · exact .inr ht
    · rw [hG.thread] at ht
      cases ht
  exact ⟨hP.ptr.mpr (hthread.imp_right .inl), hthread⟩

/-- The loop is woken up, leaves, and the thread ends before the destructor does. -/
def joinedRun : List (Act ℕ) :=
  lateQuit ++ [.loop (.poll [.wakeup]), .loop .dispatch, .loop .setFlag, .loop .swap,
    .loop .clearFlag, .loop .test, .clear, .unlock, .finish, .join]

/-- The destructor is about to store to `quit_`, and at the end it has returned. -/
theorem lifetimes_of_reach_joinedRun :
    (∃ s, (system ℕ).ReachWhere OnlyDestructorQuits s ∧ s.owner = .quitting ∧
      s.loopPtr = true ∧ (s.thread = .aboutToLoop ∨ s.thread = .inLoop)) ∧
    ∃ s, (system ℕ).ReachWhere OnlyDestructorQuits s ∧ s.owner = .done ∧
      (s.thread = .notStarted ∨ s.thread = .finished) := by
  constructor
  · obtain ⟨s, hs, howner⟩ := TransitionSystem.exists_reach_of_run
      (M := (system ℕ).restrict OnlyDestructorQuits) (s := new ℕ) (v := OwnerPc.quitting)
      (joinedRun.take 10) (fun s => s.owner) rfl (by decide)
    have hreach := TransitionSystem.Reach.of_restrict hs
    exact ⟨s, hreach, howner,
      ((lifetimes_of_reach hreach.reach).2 hreach).2 (.inr (.inl howner))⟩
  · obtain ⟨s, hs, howner⟩ := TransitionSystem.exists_reach_of_run
      (M := (system ℕ).restrict OnlyDestructorQuits) (s := new ℕ) (v := OwnerPc.done)
      joinedRun (fun s => s.owner) rfl (by decide)
    have hreach := TransitionSystem.Reach.of_restrict hs
    exact ⟨s, hreach, howner, ((lifetimes_of_reach hreach.reach).2 hreach).1 howner⟩

/-- The loop sees the flag before the destructor has written to the eventfd, and the thread ends:
`wakeup()` then reads `wakeupFd_` of a loop that is gone. -/
theorem exists_waking_and_finished :
    ∃ s, (system ℕ).ReachWhere OnlyDestructorQuits s ∧ s.owner = .waking ∧
      s.thread = .finished := by
  obtain ⟨s, hs, hv⟩ := TransitionSystem.exists_reach_of_run
    (M := (system ℕ).restrict OnlyDestructorQuits) (s := new ℕ)
    (v := (OwnerPc.waking, ThreadPc.finished))
    [.start, .construct, .callbackRet, .publish, .wait, .enter, .loop .clearQuit, .destroy, .test,
      .quit, .loop .test, .clear, .unlock, .finish] (fun s => (s.owner, s.thread)) rfl (by decide)
  obtain ⟨howner, hthread⟩ := Prod.mk.inj hv
  exact ⟨s, TransitionSystem.Reach.of_restrict hs, howner, hthread⟩

/-- Another thread ends the loop.  The destructor finds that `loop_` is null and returns without
`join()`, and `mutex_` is gone when the thread comes to release it. -/
theorem exists_done_and_unlocking :
    ∃ s, (system ℕ).Reach s ∧ s.owner = .done ∧ s.thread = .unlocking := by
  obtain ⟨s, hs, hv⟩ := TransitionSystem.exists_reach_of_run (M := system ℕ) (s := new ℕ)
    (v := (OwnerPc.done, ThreadPc.unlocking))
    [.start, .construct, .callbackRet, .publish, .wait, .enter, .loop .clearQuit, .other 1 .quit,
      .loop .test, .clear, .destroy, .test] (fun s => (s.owner, s.thread)) rfl (by decide)
  obtain ⟨howner, hthread⟩ := Prod.mk.inj hv
  exact ⟨s, hs, howner, hthread⟩

end EventLoopThread

end HzhMuduo
