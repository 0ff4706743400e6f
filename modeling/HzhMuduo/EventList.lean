import HzhMuduo.Foundation.TransitionSystem
import HzhMuduo.Kernel
import Mathlib.Data.List.Basic

/-!
# The list of events

`EPOLLPoller::poll` offers the kernel room for `events_.size()` events and doubles the list whenever
it comes back full.  The kernel reports the descriptors that are ready in turn: those it has
reported and that are still ready come last the next time.  So the room grows with the number of
ready descriptors, up to twice that number, and no descriptor waits long: one with fewer than
`16 * (2 ^ j - 1)` others ahead of it is among the first `j` reports (`reported_in_time`).
-/

namespace HzhMuduo

open MachineWord TransitionSystem

/-- The number of events a new poller has room for. -/
def kInitEventListSize : ℕ := 16

/-- The size of the list of events, and the descriptors that are ready, in the order in which the
kernel reports them. -/
structure EventList where
  size : ℕ
  ready : List Fd
  deriving DecidableEq

namespace EventList

/-- What can happen between two calls of `poll`, and a call of it that returns events or fails. -/
inductive Act
  | becomesReady (fd : Fd)
  | settles (fd : Fd)
  | poll
  | pollFails
  deriving DecidableEq

/-- What `epoll_wait` reports when its `maxevents` is `static_cast<int>(events_.size())`. -/
def report (s : EventList) : List Fd := s.ready.take (toInt s.size).toNat

/-- `poll` behind `epoll_wait`. -/
def poll (s : EventList) : EventList where
  size := if 0 < s.report.length ∧ s.report.length = s.size then s.size * 2 else s.size
  ready := s.ready.drop s.report.length ++ s.report

def step (s : EventList) : Act → Option EventList
  | .becomesReady fd => if fd ∈ s.ready then none else some { s with ready := s.ready ++ [fd] }
  | .settles fd => some { s with ready := s.ready.filter (· ≠ fd) }
  | .poll => some s.poll
  | .pollFails => some s

/-- The poller of a loop and its kernel. -/
def system : TransitionSystem EventList Act where
  init s := s = ⟨kInitEventListSize, []⟩
  step := step

/-- What a step reports. -/
def reported (s : EventList) : Act → List Fd
  | .poll => s.report
  | _ => []

/-- At most `M` descriptors are ready at one time. -/
def Few (M : ℕ) (s : EventList) : Act → Prop
  | .becomesReady _ => s.ready.length < M
  | _ => True

instance (M : ℕ) (s : EventList) : (a : Act) → Decidable (s.Few M a)
  | .becomesReady _ => inferInstanceAs (Decidable (_ < _))
  | .settles _ | .poll | .pollFails => inferInstanceAs (Decidable True)

variable {M : ℕ} {s s' : EventList} {a : Act} {fd : Fd}

/-- The list has room for the events of a new poller, and for twice as many as there can be. -/
structure Sized (M : ℕ) (s : EventList) : Prop where
  le_size : kInitEventListSize ≤ s.size
  size_le : s.size ≤ max kInitEventListSize (2 * M)
  ready_le : s.ready.length ≤ M

/-- The size survives the conversion to `int`. -/
lemma Sized.report_eq (h : Sized M s) (hM : M < 2 ^ 30) : s.report = s.ready.take s.size := by
  have hsize := h.size_le
  have hsmall : s.size < 2 ^ 31 := by
    unfold kInitEventListSize at hsize
    omega
  rw [report, toInt_of_lt hsmall, Int.toNat_natCast]

lemma Sized.step (h : Sized M s) (hfew : s.Few M a) (hs : s.step a = some s') :
    Sized M s' := by
  obtain ⟨hle, hsize, hready⟩ := h
  cases a with
  | becomesReady fd =>
    obtain ⟨-, hs⟩ := Option.ite_none_left_eq_some.mp hs
    obtain rfl := Option.some.inj hs
    have hfew : s.ready.length < M := hfew
    exact ⟨hle, hsize, by simpa using Nat.succ_le_of_lt hfew⟩
  | settles fd =>
    obtain rfl := Option.some.inj hs
    exact ⟨hle, hsize, Nat.le_trans (List.length_filter_le _ _) hready⟩
  | poll =>
    obtain rfl := Option.some.inj hs
    have hlen : s.report.length ≤ s.ready.length := List.length_take_le' _ _
    refine ⟨?_, ?_, ?_⟩
    · unfold EventList.poll
      dsimp only
      split <;> omega
    · unfold EventList.poll
      dsimp only
      split <;> omega
    · unfold EventList.poll
      rw [List.length_append, List.length_drop]
      omega
  | pollFails =>
    obtain rfl := Option.some.inj hs
    exact ⟨hle, hsize, hready⟩

lemma sized_of_reach (h : system.ReachWhere (Few M) s) : Sized M s := by
  refine h.invariant (I := Sized M) ?_ fun s a s' hI hfew hs => hI.step hfew hs
  rintro s rfl
  exact ⟨Nat.le_refl _, Nat.le_max_left _ _, Nat.zero_le _⟩

/-- At most `p` descriptors are reported before `fd`. -/
def Behind (fd : Fd) (p : ℕ) (s : EventList) : Prop :=
  ∃ before after, s.ready = before ++ fd :: after ∧ before.length ≤ p

/-- Whatever else happens, a descriptor that stays ready is not pushed back. -/
lemma Behind.step {p : ℕ} (h : Behind fd p s) (hs : s.step a = some s') (hstays : a ≠ .settles fd)
    (hpoll : a ≠ .poll) : Behind fd p s' ∧ s'.size = s.size := by
  obtain ⟨before, after, hready, hp⟩ := h
  cases a with
  | becomesReady fd' =>
    obtain ⟨-, hs⟩ := Option.ite_none_left_eq_some.mp hs
    obtain rfl := Option.some.inj hs
    refine ⟨⟨before, after ++ [fd'], ?_, hp⟩, rfl⟩
    simp only [hready, List.append_assoc, List.cons_append]
  | settles fd' =>
    obtain rfl := Option.some.inj hs
    have hne : fd ≠ fd' := by
      rintro rfl
      exact hstays rfl
    refine ⟨⟨before.filter (· ≠ fd'), after.filter (· ≠ fd'), ?_,
      Nat.le_trans (List.length_filter_le _ _) hp⟩, rfl⟩
    simp [hready, hne]
  | poll => exact absurd rfl hpoll
  | pollFails =>
    obtain rfl := Option.some.inj hs
    exact ⟨⟨before, after, hready, hp⟩, rfl⟩

/-- A report that misses a descriptor was full, and the descriptor moves up by its length. -/
lemma Behind.poll {p : ℕ} (h : Behind fd p s) (hsized : Sized M s) (hM : M < 2 ^ 30)
    (hmissed : fd ∉ s.report) :
    s.size ≤ p ∧ Behind fd (p - s.size) s.poll ∧ s.poll.size = s.size * 2 := by
  obtain ⟨before, after, hready, hp⟩ := h
  have hreport := hsized.report_eq hM
  have hfull : s.size ≤ before.length := by
    by_contra hlt
    refine hmissed ?_
    rw [hreport, hready, List.take_append]
    refine List.mem_append_right _ ?_
    obtain ⟨k, hk⟩ : ∃ k, s.size - before.length = k + 1 := ⟨s.size - before.length - 1, by omega⟩
    rw [hk, List.take_succ_cons]
    exact List.mem_cons_self
  have hlen : s.report.length = s.size := by
    rw [hreport, hready, List.length_take, List.length_append]
    omega
  have hpos := hsized.le_size
  unfold kInitEventListSize at hpos
  refine ⟨by omega, ⟨before.drop s.size, after ++ s.report, ?_, ?_⟩, ?_⟩
  · simp only [EventList.poll, hlen]
    rw [hready, List.drop_append_of_le_length hfull, List.append_assoc, List.cons_append]
  · rw [List.length_drop]
    omega
  · simp only [EventList.poll, hlen]
    exact if_pos ⟨by omega, trivial⟩

/-- The system in which at most `M` descriptors are ready at one time. -/
def fewSystem (M : ℕ) : TransitionSystem EventList Act := system.restrict (Few M)

/-- A descriptor that `j` polls miss has many others ahead of it: every poll that misses it takes
twice as many of them as the one before. -/
lemma Behind.le_of_missed {p : ℕ} {as : List Act} (h : Behind fd p s) (hsized : Sized M s)
    (hM : M < 2 ^ 30) (hrun : (fewSystem M).run s as = some s') (hstays : .settles fd ∉ as)
    (hmissed : fd ∉ (fewSystem M).collect reported s as) :
    s.size * (2 ^ as.count .poll - 1) ≤ p := by
  induction as generalizing p s with
  | nil => simp
  | cons a as ih =>
    rw [run_cons, Option.bind_eq_some_iff] at hrun
    obtain ⟨s₁, hs, hrun⟩ := hrun
    obtain ⟨hfew, hstep⟩ := Option.ite_none_right_eq_some.mp hs
    rw [collect_cons hs, List.mem_append, not_or] at hmissed
    rw [List.mem_cons, not_or] at hstays
    have hsized₁ := hsized.step hfew hstep
    by_cases ha : a = .poll
    · subst ha
      obtain rfl : s.poll = s₁ := Option.some.inj hstep
      obtain ⟨hle, hbehind, hsize⟩ := h.poll hsized hM hmissed.1
      have hrest := ih hbehind hsized₁ hrun hstays.2 hmissed.2
      rw [hsize] at hrest
      rw [List.count_cons_self]
      obtain ⟨k, hk⟩ : ∃ k, 2 ^ as.count .poll = k + 1 :=
        ⟨_, (Nat.sub_add_cancel Nat.one_le_two_pow).symm⟩
      rw [Nat.pow_succ, hk]
      rw [hk, Nat.add_sub_cancel] at hrest
      have hdouble : (k + 1) * 2 - 1 = 1 + 2 * k := by omega
      calc s.size * ((k + 1) * 2 - 1) = s.size * (1 + 2 * k) := by rw [hdouble]
        _ = s.size + s.size * 2 * k := by rw [Nat.mul_add, Nat.mul_one, Nat.mul_assoc]
        _ ≤ p := by omega
    · obtain ⟨hbehind, hsize⟩ := h.step hstep (Ne.symm hstays.1) ha
      have hrest := ih hbehind hsized₁ hrun hstays.2 hmissed.2
      rw [List.count_cons_of_ne ha, ← hsize]
      exact hrest

/-- No descriptor is starved: one that stays ready is reported by the `j`-th call of `poll` from now
on, if there are fewer than `16 * (2 ^ j - 1)` others ahead of it; and the list of events never has
room for more than twice the descriptors that are ever ready at one time. -/
theorem reported_in_time (hM : M < 2 ^ 30) (h : system.ReachWhere (Few M) s)
    {before after : List Fd} (hready : s.ready = before ++ fd :: after) {as : List Act}
    (hrun : (fewSystem M).run s as = some s') (hstays : .settles fd ∉ as) {j : ℕ}
    (hj : j ≤ as.count .poll) (hahead : before.length < kInitEventListSize * (2 ^ j - 1)) :
    fd ∈ (fewSystem M).collect reported s as ∧ s.size ≤ max kInitEventListSize (2 * M) := by
  have hsized := sized_of_reach h
  refine ⟨?_, hsized.size_le⟩
  by_contra hmissed
  have hbehind : Behind fd before.length s := ⟨before, after, hready, Nat.le_refl _⟩
  have hmany := hbehind.le_of_missed hsized hM hrun hstays hmissed
  have hpow : 2 ^ j ≤ 2 ^ as.count .poll := Nat.pow_le_pow_right (by decide) hj
  have hle : kInitEventListSize * (2 ^ j - 1) ≤ s.size * (2 ^ as.count .poll - 1) :=
    Nat.mul_le_mul hsized.le_size (Nat.sub_le_sub_right hpow 1)
  omega

/-- Twenty descriptors become ready; two polls report the last of them. -/
theorem reported_in_time_twenty :
    ∃ s s', (fewSystem 20).run s [.poll, .pollFails, .poll] = some s' ∧
      19 ∈ (fewSystem 20).collect reported s [.poll, .pollFails, .poll] ∧ s.size ≤ 40 := by
  obtain ⟨s, hs, hready⟩ := exists_reach_of_run (M := fewSystem 20) (s := ⟨kInitEventListSize, []⟩)
    (v := List.range 19 ++ 19 :: []) ((List.range 20).map Act.becomesReady) EventList.ready rfl
    (by decide +kernel)
  obtain ⟨s', hs'⟩ := Option.isSome_iff_exists.mp
    (show ((fewSystem 20).run s [.poll, .pollFails, .poll]).isSome = true from rfl)
  have hlate := reported_in_time (j := 2) (by decide) (Reach.of_restrict hs) hready hs' (by decide)
    (by decide) (by decide)
  exact ⟨s, s', hs', hlate.1, hlate.2⟩

end EventList

end HzhMuduo
