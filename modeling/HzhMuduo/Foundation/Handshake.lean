import HzhMuduo.Foundation.TransitionSystem
import Mathlib.Data.Option.Basic

/-!
# A value handed over under a mutex

A publisher stores a value in a slot and notifies; a waiter waits until the slot is filled and
takes the value.  Slot and test are guarded by a mutex, and the waiter waits on a condition
variable: waiting gives the mutex up and blocks in one step, a blocked waiter is woken by the
notification or for no reason, and a woken waiter takes the mutex again before it tests again.

The order of the parties does not matter: what the waiter returns is what was published
(`Inv.eq_of_done`), a waiter is never left blocked behind the notification (`Inv.blocked`), and
until the waiter returns one of the parties has a step to take (`Inv.exists_waiterStep`,
`Inv.exists_step`).
-/

/-- The two parties. -/
inductive Handshake.Party
  | waiter
  | publisher
  deriving DecidableEq

/-- Where the waiter stands. -/
inductive Handshake.Waiter (α : Type*)
  | outside
  | testing
  | blocked
  | woken
  | reading
  | leaving (v : α)
  | done (v : α)
  deriving DecidableEq

/-- Where the publisher stands. -/
inductive Handshake.Publisher
  | outside
  | storing
  | notifying
  | leaving
  | done
  deriving DecidableEq

/-- The slot with its mutex, and where the parties stand. -/
structure Handshake (α : Type*) where
  slot : Option α
  mutex : Option Handshake.Party
  waiter : Handshake.Waiter α
  publisher : Handshake.Publisher

namespace Handshake

variable {α : Type*} {v w : α} {h h' : Handshake α}

/-- Nobody has begun. -/
def new (α : Type*) : Handshake α where
  slot := none
  mutex := none
  waiter := .outside
  publisher := .outside

/-- A step of the waiter; `wakeup` is the one without a reason. -/
inductive WaiterAct
  | lock
  | test
  | wakeup
  | relock
  | read
  | unlock

/-- A step of the publisher. -/
inductive PublisherAct
  | lock
  | store
  | notify
  | unlock

def waiterStep (h : Handshake α) : WaiterAct → Option (Handshake α)
  | .lock =>
    match h.waiter, h.mutex with
    | .outside, none => some { h with waiter := .testing, mutex := some .waiter }
    | _, _ => none
  | .test =>
    match h.waiter, h.slot with
    | .testing, none => some { h with waiter := .blocked, mutex := none }
    | .testing, some _ => some { h with waiter := .reading }
    | _, _ => none
  | .wakeup =>
    match h.waiter with
    | .blocked => some { h with waiter := .woken }
    | _ => none
  | .relock =>
    match h.waiter, h.mutex with
    | .woken, none => some { h with waiter := .testing, mutex := some .waiter }
    | _, _ => none
  | .read =>
    match h.waiter, h.slot with
    | .reading, some v => some { h with waiter := .leaving v }
    | _, _ => none
  | .unlock =>
    match h.waiter with
    | .leaving v => some { h with waiter := .done v, mutex := none }
    | _ => none

/-- The waiter after a notification. -/
def Waiter.notified : Waiter α → Waiter α
  | .blocked => .woken
  | w => w

/-- The publisher publishes `v`. -/
def publisherStep (v : α) (h : Handshake α) : PublisherAct → Option (Handshake α)
  | .lock =>
    match h.publisher, h.mutex with
    | .outside, none => some { h with publisher := .storing, mutex := some .publisher }
    | _, _ => none
  | .store =>
    match h.publisher with
    | .storing => some { h with publisher := .notifying, slot := some v }
    | _ => none
  | .notify =>
    match h.publisher with
    | .notifying => some { h with publisher := .leaving, waiter := h.waiter.notified }
    | _ => none
  | .unlock =>
    match h.publisher with
    | .leaving => some { h with publisher := .done, mutex := none }
    | _ => none

/-- The waiter has the mutex. -/
def Waiter.holds : Waiter α → Prop
  | .testing | .reading | .leaving _ => True
  | _ => False

/-- The publisher has the mutex. -/
def Publisher.holds : Publisher → Prop
  | .storing | .notifying | .leaving => True
  | _ => False

/-- The publisher has stored its value. -/
def Publisher.stored : Publisher → Prop
  | .notifying | .leaving | .done => True
  | _ => False

/-- The waiter has found the slot filled. -/
def Waiter.found : Waiter α → Prop
  | .reading | .leaving _ | .done _ => True
  | _ => False

/-- The value the waiter has read. -/
def Waiter.value : Waiter α → Option α
  | .leaving v | .done v => some v
  | _ => none

/-- The invariant, for a publisher of `v`. -/
structure Inv (v : α) (h : Handshake α) : Prop where
  waiter : h.mutex = some .waiter ↔ h.waiter.holds
  publisher : h.mutex = some .publisher ↔ h.publisher.holds
  slot : h.slot = none ∧ ¬ h.publisher.stored ∨ h.slot = some v ∧ h.publisher.stored
  found : h.waiter.found → h.publisher.stored
  value : ∀ w, h.waiter.value = some w → w = v
  blocked : h.waiter = .blocked → h.publisher ≠ .leaving ∧ h.publisher ≠ .done

lemma inv_new (v : α) : Inv v (new α) where
  waiter := iff_of_false nofun id
  publisher := iff_of_false nofun id
  slot := .inl ⟨rfl, id⟩
  found := False.elim
  value := nofun
  blocked := nofun

/-- What a step of the waiter can be. -/
inductive WaiterStep (h : Handshake α) : WaiterAct → Handshake α → Prop
  | lock (hw : h.waiter = .outside) (hm : h.mutex = none) :
      WaiterStep h .lock { h with waiter := .testing, mutex := some .waiter }
  | testEmpty (hw : h.waiter = .testing) (hslot : h.slot = none) :
      WaiterStep h .test { h with waiter := .blocked, mutex := none }
  | testFull {w : α} (hw : h.waiter = .testing) (hslot : h.slot = some w) :
      WaiterStep h .test { h with waiter := .reading }
  | wakeup (hw : h.waiter = .blocked) : WaiterStep h .wakeup { h with waiter := .woken }
  | relock (hw : h.waiter = .woken) (hm : h.mutex = none) :
      WaiterStep h .relock { h with waiter := .testing, mutex := some .waiter }
  | read {w : α} (hw : h.waiter = .reading) (hslot : h.slot = some w) :
      WaiterStep h .read { h with waiter := .leaving w }
  | unlock {w : α} (hw : h.waiter = .leaving w) :
      WaiterStep h .unlock { h with waiter := .done w, mutex := none }

/-- What a step of the publisher can be. -/
inductive PublisherStep (v : α) (h : Handshake α) : PublisherAct → Handshake α → Prop
  | lock (hp : h.publisher = .outside) (hm : h.mutex = none) :
      PublisherStep v h .lock { h with publisher := .storing, mutex := some .publisher }
  | store (hp : h.publisher = .storing) :
      PublisherStep v h .store { h with publisher := .notifying, slot := some v }
  | notify (hp : h.publisher = .notifying) :
      PublisherStep v h .notify { h with publisher := .leaving, waiter := h.waiter.notified }
  | unlock (hp : h.publisher = .leaving) :
      PublisherStep v h .unlock { h with publisher := .done, mutex := none }

theorem waiterStep_cases {a : WaiterAct} (hs : h.waiterStep a = some h') : WaiterStep h a h' := by
  cases a with
  | lock =>
    simp only [waiterStep] at hs
    split at hs
    · next hw hm =>
      obtain rfl := Option.some.inj hs
      exact .lock hw hm
    · cases hs
  | test =>
    simp only [waiterStep] at hs
    split at hs
    · next hw hslot =>
      obtain rfl := Option.some.inj hs
      exact .testEmpty hw hslot
    · next hw hslot =>
      obtain rfl := Option.some.inj hs
      exact .testFull hw hslot
    · cases hs
  | wakeup =>
    simp only [waiterStep] at hs
    split at hs
    · next hw =>
      obtain rfl := Option.some.inj hs
      exact .wakeup hw
    · cases hs
  | relock =>
    simp only [waiterStep] at hs
    split at hs
    · next hw hm =>
      obtain rfl := Option.some.inj hs
      exact .relock hw hm
    · cases hs
  | read =>
    simp only [waiterStep] at hs
    split at hs
    · next hw hslot =>
      obtain rfl := Option.some.inj hs
      exact .read hw hslot
    · cases hs
  | unlock =>
    simp only [waiterStep] at hs
    split at hs
    · next hw =>
      obtain rfl := Option.some.inj hs
      exact .unlock hw
    · cases hs

theorem publisherStep_cases {a : PublisherAct} (hs : h.publisherStep v a = some h') :
    PublisherStep v h a h' := by
  cases a with
  | lock =>
    simp only [publisherStep] at hs
    split at hs
    · next hp hm =>
      obtain rfl := Option.some.inj hs
      exact .lock hp hm
    · cases hs
  | store =>
    simp only [publisherStep] at hs
    split at hs
    · next hp =>
      obtain rfl := Option.some.inj hs
      exact .store hp
    · cases hs
  | notify =>
    simp only [publisherStep] at hs
    split at hs
    · next hp =>
      obtain rfl := Option.some.inj hs
      exact .notify hp
    · cases hs
  | unlock =>
    simp only [publisherStep] at hs
    split at hs
    · next hp =>
      obtain rfl := Option.some.inj hs
      exact .unlock hp
    · cases hs

/-- The waiter does not move the publisher. -/
lemma publisher_of_waiterStep {a : WaiterAct} (hs : h.waiterStep a = some h') :
    h'.publisher = h.publisher := by
  cases waiterStep_cases hs <;> rfl

/-- The publisher only wakes the waiter. -/
lemma waiter_of_publisherStep {a : PublisherAct} (hs : h.publisherStep v a = some h') :
    h'.waiter = h.waiter ∨ h.waiter = .blocked ∧ h'.waiter = .woken := by
  cases publisherStep_cases hs with
  | notify hp =>
    cases hwaiter : h.waiter with
    | blocked => exact .inr ⟨rfl, rfl⟩
    | _ => exact .inl rfl
  | _ => exact .inl rfl

/-- What the waiter has returned stays. -/
lemma done_of_publisherStep {a : PublisherAct} (hs : h.publisherStep v a = some h')
    (hw : h.waiter = .done w) : h'.waiter = .done w := by
  rcases waiter_of_publisherStep hs with hsame | ⟨hblocked, -⟩
  · exact hsame.trans hw
  · cases hblocked.symm.trans hw

/-- Where the slot is filled it holds the value, and the publisher is past its store. -/
lemma Inv.of_slot (hI : Inv v h) (hslot : h.slot = some w) : w = v ∧ h.publisher.stored := by
  rcases hI.slot with ⟨hnone, -⟩ | ⟨hsome, hstored⟩
  · cases hnone.symm.trans hslot
  · exact ⟨Option.some.inj (hslot.symm.trans hsome), hstored⟩

lemma Inv.slot_eq_none (hI : Inv v h) (hnot : ¬ h.publisher.stored) : h.slot = none :=
  (hI.slot.resolve_right fun hsome => hnot hsome.2).1

lemma Inv.slot_eq_some (hI : Inv v h) (hstored : h.publisher.stored) : h.slot = some v :=
  (hI.slot.resolve_left fun hnone => hnone.2 hstored).1

/-- The waiter takes the mutex. -/
lemma Inv.acquire (hI : Inv v h) (hm : h.mutex = none) :
    Inv v { h with waiter := .testing, mutex := some .waiter } := by
  refine ⟨iff_of_true rfl trivial, iff_of_false (by simp) ?_, hI.slot, False.elim, nofun, nofun⟩
  intro hholds
  cases hm.symm.trans (hI.publisher.mpr hholds)

/-- The waiter gives the mutex up. -/
lemma Inv.release (hI : Inv v h) (hholds : h.waiter.holds) {x : Waiter α} (hx : ¬ x.holds)
    (hfound : x.found → h.publisher.stored) (hvalue : ∀ w, x.value = some w → w = v)
    (hblocked : x = .blocked → h.publisher ≠ .leaving ∧ h.publisher ≠ .done) :
    Inv v { h with waiter := x, mutex := none } := by
  refine ⟨iff_of_false nofun hx, iff_of_false nofun ?_, hI.slot, hfound, hvalue, hblocked⟩
  intro hpublisher
  have hmutex := (hI.publisher.mpr hpublisher).symm.trans (hI.waiter.mpr hholds)
  cases hmutex

/-- The waiter moves on without the mutex being touched. -/
lemma Inv.move (hI : Inv v h) {x : Waiter α} (hx : x.holds ↔ h.waiter.holds)
    (hfound : x.found → h.publisher.stored) (hvalue : ∀ w, x.value = some w → w = v)
    (hblocked : x ≠ .blocked) : Inv v { h with waiter := x } :=
  ⟨hI.waiter.trans hx.symm, hI.publisher, hI.slot, hfound, hvalue, fun h => absurd h hblocked⟩

/-- Every step of the waiter keeps the invariant. -/
lemma Inv.waiterStep {a : WaiterAct} (hI : Inv v h) (hs : h.waiterStep a = some h') : Inv v h' := by
  cases waiterStep_cases hs with
  | lock hw hm => exact hI.acquire hm
  | testEmpty hw hempty =>
    have hholds : h.waiter.holds := hw ▸ trivial
    have hnot : ¬ h.publisher.stored := fun hstored => by
      cases hempty.symm.trans (hI.slot_eq_some hstored)
    refine hI.release hholds id False.elim nofun fun _ => ⟨fun hp => ?_, fun hp => ?_⟩
    · exact hnot (hp ▸ trivial)
    · exact hnot (hp ▸ trivial)
  | testFull hw hfull =>
    have hholds : h.waiter.holds := hw ▸ trivial
    exact hI.move (iff_of_true trivial hholds) (fun _ => (hI.of_slot hfull).2) nofun nofun
  | wakeup hw =>
    have hholds : ¬ h.waiter.holds := hw ▸ id
    exact hI.move (iff_of_false id hholds) False.elim nofun nofun
  | relock hw hm => exact hI.acquire hm
  | read hw hfull =>
    obtain ⟨rfl, hstored⟩ := hI.of_slot hfull
    have hholds : h.waiter.holds := hw ▸ trivial
    exact hI.move (iff_of_true trivial hholds) (fun _ => hstored)
      (fun w hw => (Option.some.inj hw).symm) nofun
  | @unlock w hw =>
    have hholds : h.waiter.holds := hw ▸ trivial
    have hstored : h.publisher.stored := hI.found (hw ▸ trivial)
    have hvalue : w = v := hI.value w (hw ▸ rfl)
    exact hI.release hholds id (fun _ => hstored) (fun x hx => (Option.some.inj hx).symm.trans hvalue)
      nofun

/-- Every step of the publisher keeps the invariant. -/
lemma Inv.publisherStep {a : PublisherAct} (hI : Inv v h) (hs : h.publisherStep v a = some h') :
    Inv v h' := by
  cases publisherStep_cases hs with
  | lock hp hm =>
    have hnot : ¬ h.publisher.stored := hp ▸ id
    refine ⟨iff_of_false (by simp) fun hholds => ?_, iff_of_true rfl trivial,
      .inl ⟨hI.slot_eq_none hnot, id⟩,
      fun hf => absurd (hI.found hf) hnot, hI.value, fun _ => ⟨nofun, nofun⟩⟩
    cases hm.symm.trans (hI.waiter.mpr hholds)
  | store hp =>
    have hholds : h.publisher.holds := hp ▸ trivial
    refine ⟨hI.waiter, iff_of_true (hI.publisher.mpr hholds) trivial, .inr ⟨rfl, trivial⟩,
      fun _ => trivial, hI.value, fun _ => ⟨nofun, nofun⟩⟩
  | notify hp =>
    have hholds : h.publisher.holds := hp ▸ trivial
    have hstored : h.publisher.stored := hp ▸ trivial
    have hnotified : (h.waiter.notified.holds ↔ h.waiter.holds) ∧
        h.waiter.notified.value = h.waiter.value ∧ h.waiter.notified ≠ .blocked := by
      cases h.waiter <;> exact ⟨Iff.rfl, rfl, nofun⟩
    refine ⟨hI.waiter.trans hnotified.1.symm, iff_of_true (hI.publisher.mpr hholds) trivial,
      .inr ⟨hI.slot_eq_some hstored, trivial⟩, fun _ => trivial, fun w hw => hI.value w (hnotified.2.1 ▸ hw),
      fun hw => absurd hw hnotified.2.2⟩
  | unlock hp =>
    have hstored : h.publisher.stored := hp ▸ trivial
    refine ⟨iff_of_false nofun fun hholds => ?_, iff_of_false nofun id,
      .inr ⟨hI.slot_eq_some hstored, trivial⟩, fun _ => trivial, hI.value,
      fun hw => absurd hp (hI.blocked hw).1⟩
    have hmutex := (hI.waiter.mpr hholds).symm.trans (hI.publisher.mpr (hp ▸ trivial))
    cases hmutex

/-- What the waiter returns was published. -/
theorem Inv.eq_of_done (hI : Inv v h) (hw : h.waiter = .done w) :
    w = v ∧ h.slot = some v ∧ h.publisher.stored := by
  have hstored := hI.found (hw ▸ trivial)
  exact ⟨hI.value w (hw ▸ rfl), hI.slot_eq_some hstored, hstored⟩

/-- A waiter that has the mutex goes on. -/
lemma Inv.exists_waiterStep_of_holds (hI : Inv v h) (hholds : h.waiter.holds) :
    ∃ a h', a ≠ .wakeup ∧ h.waiterStep a = some h' := by
  cases hwaiter : h.waiter with
  | testing =>
    cases hslot : h.slot with
    | none => exact ⟨.test, _, nofun, by rw [Handshake.waiterStep, hwaiter, hslot]⟩
    | some w => exact ⟨.test, _, nofun, by rw [Handshake.waiterStep, hwaiter, hslot]⟩
  | reading =>
    have hslot := hI.slot_eq_some (hI.found (hwaiter ▸ trivial))
    exact ⟨.read, _, nofun, by rw [Handshake.waiterStep, hwaiter, hslot]⟩
  | leaving w => exact ⟨.unlock, _, nofun, by rw [Handshake.waiterStep, hwaiter]⟩
  | _ => exact absurd hholds (hwaiter ▸ id)

/-- Behind the publisher the waiter always has a step to take that needs no chance. -/
theorem Inv.exists_waiterStep (hI : Inv v h) (hp : h.publisher = .done)
    (hw : ∀ w, h.waiter ≠ .done w) : ∃ a h', a ≠ .wakeup ∧ h.waiterStep a = some h' := by
  by_cases hholds : h.waiter.holds
  · exact hI.exists_waiterStep_of_holds hholds
  have hfree : h.mutex = none := by
    cases hm : h.mutex with
    | none => rfl
    | some party =>
      cases party with
      | waiter => exact absurd (hI.waiter.mp hm) hholds
      | publisher => exact absurd (hI.publisher.mp hm) (hp ▸ id)
  cases hwaiter : h.waiter with
  | outside => exact ⟨.lock, _, nofun, by rw [Handshake.waiterStep, hwaiter, hfree]⟩
  | woken => exact ⟨.relock, _, nofun, by rw [Handshake.waiterStep, hwaiter, hfree]⟩
  | blocked => exact absurd hp (hI.blocked hwaiter).2
  | done w => exact absurd hwaiter (hw w)
  | _ => exact absurd (hwaiter ▸ trivial) hholds

/-- The parties never block each other: until the publisher is through, it has a step to take, or
the waiter has the mutex and a step to take. -/
theorem Inv.exists_step (hI : Inv v h) (hp : h.publisher ≠ .done) :
    (∃ a h', a ≠ .wakeup ∧ h.waiterStep a = some h') ∨ ∃ a h', h.publisherStep v a = some h' := by
  cases hpublisher : h.publisher with
  | outside =>
    cases hm : h.mutex with
    | none => exact .inr ⟨.lock, _, by rw [Handshake.publisherStep, hpublisher, hm]⟩
    | some party =>
      cases party with
      | waiter => exact .inl (hI.exists_waiterStep_of_holds (hI.waiter.mp hm))
      | publisher => exact absurd (hI.publisher.mp hm) (hpublisher ▸ id)
  | storing => exact .inr ⟨.store, _, by rw [Handshake.publisherStep, hpublisher]⟩
  | notifying => exact .inr ⟨.notify, _, by rw [Handshake.publisherStep, hpublisher]⟩
  | leaving => exact .inr ⟨.unlock, _, by rw [Handshake.publisherStep, hpublisher]⟩
  | done => exact absurd hpublisher hp

/-! ### How long it can take

Every step but a wakeup without a reason lowers `rank`.  A wakeup sends the waiter back to its test;
the one that the notification causes is paid for by the publisher. -/

/-- How many steps the waiter has left, if nobody wakes it. -/
def Waiter.rank : Waiter α → ℕ
  | .outside | .woken => 4
  | .testing => 3
  | .blocked | .reading => 2
  | .leaving _ => 1
  | .done _ => 0

/-- How many steps the publisher has left; its notification counts for three. -/
def Publisher.rank : Publisher → ℕ
  | .outside => 6
  | .storing => 5
  | .notifying => 4
  | .leaving => 1
  | .done => 0

def rank (h : Handshake α) : ℕ := h.waiter.rank + h.publisher.rank

/-- A wakeup without a reason. -/
def WaiterAct.spurious : WaiterAct → Bool
  | .wakeup => true
  | _ => false

lemma rank_waiterStep {a : WaiterAct} (hs : h.waiterStep a = some h') :
    h'.rank + 1 ≤ h.rank + if a.spurious then 3 else 0 := by
  cases waiterStep_cases hs with
  | lock hw | testEmpty hw | testFull hw | wakeup hw | relock hw | read hw | unlock hw =>
    simp only [rank, hw, Waiter.rank, WaiterAct.spurious, if_true, if_false, Bool.false_eq_true]
    omega

/-- A notified waiter is woken. -/
lemma Waiter.rank_notified (w : Waiter α) : w.notified.rank ≤ w.rank + 2 := by
  cases w <;> simp [Waiter.notified, Waiter.rank]

lemma rank_publisherStep {a : PublisherAct} (hs : h.publisherStep v a = some h') :
    h'.rank + 1 ≤ h.rank := by
  cases publisherStep_cases hs with
  | notify hp =>
    have hnotified := h.waiter.rank_notified
    simp only [rank, hp, Publisher.rank]
    omega
  | lock hp | store hp | unlock hp =>
    simp only [rank, hp, Publisher.rank]
    omega

end Handshake
