import HzhMuduo.Foundation.Fallible
import HzhMuduo.Kernel
import Mathlib.Logic.Function.Basic

/-!
# Channels and the poller

A `Channel` is what a loop knows of one file descriptor: the events it is interested in and
where the poller has put it (`index`).  An `EPOLLPoller` holds the map `channels_` from
descriptors to channels, and the interest set of the kernel, which stores for a descriptor the
event mask and the pointer given to `epoll_ctl`.

A channel is stored where its owner stores it, and the poller stores only pointers to it; the
pointers are elements of a type `κ`.  So `updateChannel` takes the pointer and the channel
behind it, and returns the channel with its new index.  The events that `epoll_wait` reports
for a channel (`revents_`) travel next to its pointer in the list of active channels.
-/

namespace HzhMuduo

structure Channel where
  fd : Fd
  events : EventMask
  index : ℤ
  tied : Bool
  deriving DecidableEq

/-- The poller has no pointer to the channel. -/
def kNew : ℤ := -1

/-- The channel is in `channels_` and in the interest set. -/
def kAdded : ℤ := 1

/-- The channel is in `channels_` only. -/
def kDeleted : ℤ := 2

namespace Channel

def kNoneEvent : EventMask := 0
def kReadEvent : EventMask := EPOLLIN ||| EPOLLPRI
def kWriteEvent : EventMask := EPOLLOUT

/-- The channel of a descriptor, not known to any poller. -/
def new (fd : Fd) : Channel where
  fd := fd
  events := kNoneEvent
  index := kNew
  tied := false

def isNoneEvent (ch : Channel) : Bool := ch.events == kNoneEvent
def isWriting (ch : Channel) : Bool := ch.events.has kWriteEvent
def isReading (ch : Channel) : Bool := ch.events.has kReadEvent

end Channel

/-- The operations of `epoll_ctl`. -/
inductive CtlOp
  | add
  | mod
  | del
  deriving DecidableEq

/-- `channels_` and the interest set of the epoll instance. -/
structure EPOLLPoller (κ : Type*) where
  channels : Fd → Option κ
  epoll : Fd → Option (EventMask × κ)

namespace EPOLLPoller

variable {κ : Type*}

/-- A poller without channels. -/
def new : EPOLLPoller κ where
  channels _ := none
  epoll _ := none

/-- `update(operation, channel)`.  The kernel refuses to add a descriptor it has and to modify
or delete one it has not; only a refused deletion is tolerated. -/
def update (p : EPOLLPoller κ) (operation : CtlOp) (ptr : κ) (ch : Channel) :
    Except Fault (EPOLLPoller κ) :=
  match operation, p.epoll ch.fd with
  | .add, none | .mod, some _ =>
    .ok { p with epoll := Function.update p.epoll ch.fd (some (ch.events, ptr)) }
  | .add, some _ | .mod, none => .error .fatal
  | .del, _ => .ok { p with epoll := Function.update p.epoll ch.fd none }

def updateChannel (p : EPOLLPoller κ) (ptr : κ) (ch : Channel) :
    Except Fault (EPOLLPoller κ × Channel) :=
  if ch.index = kNew ∨ ch.index = kDeleted then do
    let p := if ch.index = kNew then
      { p with channels := Function.update p.channels ch.fd (some ptr) } else p
    let p ← p.update .add ptr ch
    return (p, { ch with index := kAdded })
  else if ch.isNoneEvent then do
    let p ← p.update .del ptr ch
    return (p, { ch with index := kDeleted })
  else do
    let p ← p.update .mod ptr ch
    return (p, ch)

def removeChannel (p : EPOLLPoller κ) (ptr : κ) (ch : Channel) :
    Except Fault (EPOLLPoller κ × Channel) :=
  let p := { p with channels := Function.update p.channels ch.fd none }
  if ch.index = kAdded then do
    let p ← p.update .del ptr ch
    return (p, { ch with index := kNew })
  else return (p, { ch with index := kNew })

/-- `fillActiveChannels`: the pointers stored for the descriptors that `epoll_wait` reports,
with the events reported. -/
def fillActiveChannels (p : EPOLLPoller κ) (ready : List (Fd × EventMask)) :
    Option (List (κ × EventMask)) :=
  ready.mapM fun x => (p.epoll x.1).map fun e => (e.2, x.2)

def enableReading (p : EPOLLPoller κ) (ptr : κ) (ch : Channel) :
    Except Fault (EPOLLPoller κ × Channel) :=
  p.updateChannel ptr { ch with events := ch.events ||| Channel.kReadEvent }

def disableReading (p : EPOLLPoller κ) (ptr : κ) (ch : Channel) :
    Except Fault (EPOLLPoller κ × Channel) :=
  p.updateChannel ptr { ch with events := ch.events &&& ~~~Channel.kReadEvent }

def enableWriteing (p : EPOLLPoller κ) (ptr : κ) (ch : Channel) :
    Except Fault (EPOLLPoller κ × Channel) :=
  p.updateChannel ptr { ch with events := ch.events ||| Channel.kWriteEvent }

def disableWriteing (p : EPOLLPoller κ) (ptr : κ) (ch : Channel) :
    Except Fault (EPOLLPoller κ × Channel) :=
  p.updateChannel ptr { ch with events := ch.events &&& ~~~Channel.kWriteEvent }

def disbleALL (p : EPOLLPoller κ) (ptr : κ) (ch : Channel) :
    Except Fault (EPOLLPoller κ × Channel) :=
  p.updateChannel ptr { ch with events := Channel.kNoneEvent }

/-- `hasChannel(channel)`: the pointer stored under the channel's descriptor is this one. -/
def hasChannel [DecidableEq κ] (p : EPOLLPoller κ) (ptr : κ) (ch : Channel) : Bool :=
  p.channels ch.fd == some ptr

end EPOLLPoller

namespace EPOLLPoller

variable {κ : Type*} {p p' : EPOLLPoller κ} {ptr : κ} {ch ch' : Channel}

/-- `updateChannel` changes nothing of the channel but its index. -/
lemma updateChannel_channel (h : p.updateChannel ptr ch = .ok (p', ch')) :
    ch' = { ch with index := ch'.index } := by
  unfold EPOLLPoller.updateChannel at h
  split at h
  · obtain ⟨q, -, h⟩ := Except.bind_eq_ok_iff.mp h
    obtain ⟨-, rfl⟩ := Prod.mk.inj (Except.ok.inj h)
    rfl
  · split at h
    · obtain ⟨q, -, h⟩ := Except.bind_eq_ok_iff.mp h
      obtain ⟨-, rfl⟩ := Prod.mk.inj (Except.ok.inj h)
      rfl
    · obtain ⟨q, -, h⟩ := Except.bind_eq_ok_iff.mp h
      obtain ⟨-, rfl⟩ := Prod.mk.inj (Except.ok.inj h)
      rfl

end EPOLLPoller

/-! ### Event masks -/

namespace EventMask

/-- No event is in the empty mask. -/
@[simp] lemma has_kNoneEvent (f : EventMask) : has Channel.kNoneEvent f = false := by
  simp [has, Channel.kNoneEvent]

/-- Interest in writing is on once it is switched on. -/
@[simp] lemma has_or_kWriteEvent (m : EventMask) :
    has (m ||| Channel.kWriteEvent) Channel.kWriteEvent = true := by
  simp only [has, Channel.kWriteEvent, EPOLLOUT, bne_iff_ne]
  intro h
  have hbit := congrArg (fun x => x.getLsbD 2) h
  simp at hbit

/-- Interest in reading is on once it is switched on. -/
@[simp] lemma has_or_kReadEvent (m : EventMask) :
    has (m ||| Channel.kReadEvent) Channel.kReadEvent = true := by
  simp only [has, Channel.kReadEvent, EPOLLIN, EPOLLPRI, bne_iff_ne]
  intro h
  have hbit := congrArg (fun x => x.getLsbD 0) h
  simp at hbit

/-- Interest in writing is off once it is switched off. -/
@[simp] lemma has_and_not_kWriteEvent (m : EventMask) :
    has (m &&& ~~~Channel.kWriteEvent) Channel.kWriteEvent = false := by
  have hzero : ~~~Channel.kWriteEvent &&& Channel.kWriteEvent = 0 := by decide
  rw [has, BitVec.and_assoc, hzero]
  simp

/-- Switching writing on does not change the interest in reading. -/
@[simp] lemma has_kReadEvent_or_kWriteEvent (m : EventMask) :
    has (m ||| Channel.kWriteEvent) Channel.kReadEvent = has m Channel.kReadEvent := by
  have hbits : (m ||| Channel.kWriteEvent) &&& Channel.kReadEvent = m &&& Channel.kReadEvent := by
    ext i hi
    have hdisj : Channel.kWriteEvent.getLsbD i = true → Channel.kReadEvent.getLsbD i = false := by
      revert i
      decide
    simp only [BitVec.getElem_and, BitVec.getElem_or]
    grind
  rw [has, has, hbits]

/-- Switching writing off does not change the interest in reading. -/
@[simp] lemma has_kReadEvent_and_not_kWriteEvent (m : EventMask) :
    has (m &&& ~~~Channel.kWriteEvent) Channel.kReadEvent = has m Channel.kReadEvent := by
  have hread : ~~~Channel.kWriteEvent &&& Channel.kReadEvent = Channel.kReadEvent := by decide
  rw [has, BitVec.and_assoc, hread, has]

/-- A mask with some event is not empty. -/
lemma ne_kNoneEvent_of_has {m f : EventMask} (h : has m f = true) : m ≠ Channel.kNoneEvent := by
  rintro rfl
  simp at h

end EventMask

/-! ### What the two calls leave -/

namespace EPOLLPoller

variable {κ : Type*} {p p' : EPOLLPoller κ} {ptr : κ} {ch ch' : Channel}

/-- The index `updateChannel` leaves, given the one it finds. -/
def nextIndex (index : ℤ) (events : EventMask) : ℤ :=
  if index = kNew ∨ index = kDeleted then kAdded
  else if events = Channel.kNoneEvent then kDeleted
  else kAdded

/-- `updateChannel` never leaves a channel new. -/
lemma nextIndex_cases (index : ℤ) (events : EventMask) :
    nextIndex index events = kAdded ∨ nextIndex index events = kDeleted := by
  unfold nextIndex
  split
  · exact .inl rfl
  · split
    · exact .inr rfl
    · exact .inl rfl

/-- A channel that was updated is known to the poller. -/
lemma nextIndex_ne_kNew (index : ℤ) (events : EventMask) : nextIndex index events ≠ kNew := by
  intro h
  rcases nextIndex_cases index events with hadded | hdeleted
  · exact absurd (hadded.symm.trans h) (by decide)
  · exact absurd (hdeleted.symm.trans h) (by decide)

/-- `update` writes the interest set of one descriptor and nothing else. -/
lemma update_eq {operation : CtlOp} (h : p.update operation ptr ch = .ok p') :
    p'.channels = p.channels ∧ p'.epoll = Function.update p.epoll ch.fd
      (if operation = .del then none else some (ch.events, ptr)) := by
  unfold EPOLLPoller.update at h
  split at h
  · obtain rfl := Except.ok.inj h
    exact ⟨rfl, rfl⟩
  · obtain rfl := Except.ok.inj h
    exact ⟨rfl, rfl⟩
  · cases h
  · cases h
  · obtain rfl := Except.ok.inj h
    exact ⟨rfl, rfl⟩

/-- What `updateChannel` leaves of a channel with one of the three indices. -/
theorem updateChannel_eq
    (hindex : ch.index = kNew ∨ ch.index = kAdded ∨ ch.index = kDeleted)
    (h : p.updateChannel ptr ch = .ok (p', ch')) :
    ch' = { ch with index := nextIndex ch.index ch.events } ∧
      p'.channels = (if ch.index = kNew then Function.update p.channels ch.fd (some ptr)
        else p.channels) ∧
      p'.epoll = Function.update p.epoll ch.fd
        (if ch'.index = kAdded then some (ch.events, ptr) else none) := by
  have hne : kAdded ≠ kNew := by decide
  have hne' : kAdded ≠ kDeleted := by decide
  unfold EPOLLPoller.updateChannel at h
  split at h
  · next hout =>
    obtain ⟨q, hq, h⟩ := Except.bind_eq_ok_iff.mp h
    obtain ⟨rfl, rfl⟩ := Prod.mk.inj (Except.ok.inj h)
    obtain ⟨hchannels, hepoll⟩ := update_eq hq
    refine ⟨?_, ?_, ?_⟩
    · simp [nextIndex, hout]
    · rw [hchannels]
      split <;> rfl
    · rw [hepoll]
      split <;> simp
  · next hout =>
    have hi : ch.index = kAdded := by
      rcases hindex with hi | hi | hi
      · exact absurd (.inl hi) hout
      · exact hi
      · exact absurd (.inr hi) hout
    split at h
    · next hnone =>
      obtain ⟨q, hq, h⟩ := Except.bind_eq_ok_iff.mp h
      obtain ⟨rfl, rfl⟩ := Prod.mk.inj (Except.ok.inj h)
      obtain ⟨hchannels, hepoll⟩ := update_eq hq
      have hevents : ch.events = Channel.kNoneEvent := by simpa [Channel.isNoneEvent] using hnone
      simp [nextIndex, hi, hne, hne', hne'.symm, hevents, hchannels, hepoll]
    · next hnone =>
      obtain ⟨q, hq, h⟩ := Except.bind_eq_ok_iff.mp h
      obtain ⟨rfl, rfl⟩ := Prod.mk.inj (Except.ok.inj h)
      obtain ⟨hchannels, hepoll⟩ := update_eq hq
      have hevents : ch.events ≠ Channel.kNoneEvent := by simpa [Channel.isNoneEvent] using hnone
      refine ⟨?_, ?_, ?_⟩
      · have hnext : nextIndex ch.index ch.events = ch.index := by
          simp [nextIndex, hi, hne, hne', hevents]
        rw [hnext]
      · simp [hi, hne, hchannels]
      · simp [hi, hepoll]

/-- Interest in writing can be switched on for a registered channel. -/
lemma enableWriteing_isOk (hindex : ch.index = kAdded) (hepoll : (p.epoll ch.fd).isSome) :
    ∃ q, p.enableWriteing ptr ch = .ok q := by
  obtain ⟨e, he⟩ := Option.isSome_iff_exists.mp hepoll
  have hsome : ¬ Channel.isNoneEvent { ch with events := ch.events ||| Channel.kWriteEvent } := by
    have hwrite := EventMask.has_or_kWriteEvent ch.events
    simpa [Channel.isNoneEvent] using EventMask.ne_kNoneEvent_of_has hwrite
  unfold enableWriteing EPOLLPoller.updateChannel
  rw [if_neg (by simp [hindex, kAdded, kNew, kDeleted]), if_neg hsome]
  simp [EPOLLPoller.update, he]

/-- What `removeChannel` leaves. -/
theorem removeChannel_eq (h : p.removeChannel ptr ch = .ok (p', ch')) :
    ch' = { ch with index := kNew } ∧ p'.channels = Function.update p.channels ch.fd none ∧
      p'.epoll = if ch.index = kAdded then Function.update p.epoll ch.fd none else p.epoll := by
  unfold EPOLLPoller.removeChannel at h
  dsimp only at h
  split at h
  · next hi =>
    obtain ⟨q, hq, h⟩ := Except.bind_eq_ok_iff.mp h
    obtain ⟨rfl, rfl⟩ := Prod.mk.inj (Except.ok.inj h)
    obtain ⟨hchannels, hepoll⟩ := update_eq hq
    simp [hi, hchannels, hepoll]
  · next hi =>
    obtain ⟨rfl, rfl⟩ := Prod.mk.inj (Except.ok.inj h)
    simp [hi]

end EPOLLPoller

/-! ## The three views of a channel

The index of a channel, `channels_` and the interest set are three records of the same thing.
`Agree` says that they agree for a family of channels. -/

namespace EPOLLPoller

variable {κ : Type*}

/-- The poller's two tables are those the indices of the channels announce. -/
structure Agree (p : EPOLLPoller κ) (chan : κ → Channel) : Prop where
  index : ∀ k, (chan k).index = kNew ∨ (chan k).index = kAdded ∨ (chan k).index = kDeleted
  channels : ∀ fd k, p.channels fd = some k ↔ (chan k).fd = fd ∧ (chan k).index ≠ kNew
  epoll : ∀ fd m k, p.epoll fd = some (m, k) ↔
    (chan k).fd = fd ∧ (chan k).index = kAdded ∧ (chan k).events = m

/-- No other channel of the family known to the poller has the descriptor of `k`. -/
def Exclusive (chan : κ → Channel) (k : κ) : Prop :=
  ∀ k', k' ≠ k → (chan k').index ≠ kNew → (chan k').fd ≠ (chan k).fd

variable {p p' : EPOLLPoller κ} {chan : κ → Channel} {k : κ} {ch' : Channel}

/-- A channel the poller knows has its descriptor for itself. -/
lemma Agree.exclusive (h : Agree p chan) (hk : (chan k).index ≠ kNew) : Exclusive chan k := by
  intro k' hne hk' hfd
  have h₁ := (h.channels (chan k).fd k).mpr ⟨rfl, hk⟩
  have h₂ := (h.channels (chan k).fd k').mpr ⟨hfd, hk'⟩
  exact hne (Option.some.inj (h₂.symm.trans h₁))

/-- A channel that is not new is in `channels_`. -/
lemma Agree.channels_of_ne (h : Agree p chan) (hk : (chan k).index ≠ kNew) :
    p.channels (chan k).fd = some k :=
  (h.channels _ k).mpr ⟨rfl, hk⟩

/-- A channel that is not added has no entry in the interest set, and neither has anyone else
under its descriptor. -/
lemma Agree.epoll_eq_none (h : Agree p chan) (hx : Exclusive chan k)
    (hk : (chan k).index ≠ kAdded) : p.epoll (chan k).fd = none := by
  by_contra hsome
  obtain ⟨⟨m, k'⟩, hm⟩ := Option.ne_none_iff_exists'.mp hsome
  obtain ⟨hfd, hadd, -⟩ := (h.epoll _ _ _).mp hm
  by_cases hkk : k' = k
  · subst hkk
    exact hk hadd
  · have hne : (chan k').index ≠ kNew := by
      rw [hadd]
      decide
    exact hx k' hkk hne hfd

/-- Whatever events the channel asks for, the kernel accepts them. -/
theorem Agree.exists_updateChannel (h : Agree p chan) (hx : Exclusive chan k) {ch : Channel}
    (hfd : ch.fd = (chan k).fd) (hindex : ch.index = (chan k).index) :
    ∃ q, p.updateChannel k ch = .ok q := by
  unfold EPOLLPoller.updateChannel
  split
  · next hout =>
    have hadded : (chan k).index ≠ kAdded := by
      rw [← hindex]
      rintro heq
      rw [heq] at hout
      exact absurd hout (by decide)
    have hnone : p.epoll ch.fd = none := hfd ▸ h.epoll_eq_none hx hadded
    by_cases hnew : ch.index = kNew
    · simp [EPOLLPoller.update, hnew, hnone]
    · simp [EPOLLPoller.update, hnew, hnone]
  · next hin =>
    have hadded : (chan k).index = kAdded := by
      rw [hindex] at hin
      rcases h.index k with hk | hk | hk
      · exact absurd (.inl hk) hin
      · exact hk
      · exact absurd (.inr hk) hin
    have hentry : p.epoll ch.fd = some ((chan k).events, k) :=
      (h.epoll _ _ k).mpr ⟨hfd.symm, hadded, rfl⟩
    split
    · simp [EPOLLPoller.update]
    · simp [EPOLLPoller.update, hentry]

/-- A channel can always be removed. -/
lemma exists_removeChannel (p : EPOLLPoller κ) (ptr : κ) (ch : Channel) :
    ∃ q, p.removeChannel ptr ch = .ok q := by
  unfold EPOLLPoller.removeChannel
  dsimp only
  split
  · simp [EPOLLPoller.update]
  · exact ⟨_, rfl⟩

variable [DecidableEq κ]

/-- Storing one channel: if its two entries are rewritten to fit its new index and events, the
views agree again. -/
lemma Agree.set (h : Agree p chan) (hx : Exclusive chan k) (hfd : ch'.fd = (chan k).fd)
    (hindex : ch'.index = kNew ∨ ch'.index = kAdded ∨ ch'.index = kDeleted)
    (hchannels : p'.channels =
      Function.update p.channels ch'.fd (if ch'.index = kNew then none else some k))
    (hepoll : p'.epoll = Function.update p.epoll ch'.fd
      (if ch'.index = kAdded then some (ch'.events, k) else none)) :
    Agree p' (Function.update chan k ch') := by
  refine ⟨fun k' => ?_, fun fd k' => ?_, fun fd m k' => ?_⟩
  · by_cases hk : k' = k
    · subst hk
      rw [Function.update_self]
      exact hindex
    · rw [Function.update_of_ne hk]
      exact h.index k'
  · rw [hchannels]
    by_cases hf : fd = ch'.fd
    · subst hf
      rw [Function.update_self]
      by_cases hk : k' = k
      · subst hk
        by_cases hnew : ch'.index = kNew <;> simp [hnew]
      · have hothers := hx k' hk
        rw [Function.update_of_ne hk, hfd]
        by_cases hnew : ch'.index = kNew <;> grind
    · rw [Function.update_of_ne hf]
      by_cases hk : k' = k
      · subst hk
        have := (h.channels fd k').mp
        rw [Function.update_self]
        grind
      · rw [Function.update_of_ne hk]
        exact h.channels fd k'
  · rw [hepoll]
    by_cases hf : fd = ch'.fd
    · subst hf
      rw [Function.update_self]
      by_cases hk : k' = k
      · subst hk
        by_cases hadd : ch'.index = kAdded <;> simp [hadd]
      · have hothers := hx k' hk
        have hne : kAdded ≠ kNew := by decide
        rw [Function.update_of_ne hk, hfd]
        by_cases hadd : ch'.index = kAdded <;> grind
    · rw [Function.update_of_ne hf]
      by_cases hk : k' = k
      · subst hk
        have := (h.epoll fd m k').mp
        rw [Function.update_self]
        grind
      · rw [Function.update_of_ne hk]
        exact h.epoll fd m k'

/-- `updateChannel` keeps the agreement. -/
theorem Agree.updateChannel (h : Agree p chan) (hx : Exclusive chan k) {ch : Channel}
    (hfd : ch.fd = (chan k).fd) (hindex : ch.index = (chan k).index)
    (hup : p.updateChannel k ch = .ok (p', ch')) : Agree p' (Function.update chan k ch') := by
  have htriple := h.index k
  rw [← hindex] at htriple
  obtain ⟨rfl, hchannels, hepoll⟩ := updateChannel_eq htriple hup
  have hnew : nextIndex ch.index ch.events ≠ kNew := nextIndex_ne_kNew _ _
  refine h.set hx hfd (.inr (nextIndex_cases _ _)) ?_ hepoll
  rw [hchannels, if_neg hnew]
  split
  · rfl
  · next hne =>
    have hentry : p.channels ch.fd = some k := by
      rw [hfd]
      exact h.channels_of_ne (hindex ▸ hne)
    rw [← hentry, Function.update_eq_self]

/-- `removeChannel` keeps the agreement. -/
theorem Agree.removeChannel (h : Agree p chan) (hx : Exclusive chan k)
    (hremove : p.removeChannel k (chan k) = .ok (p', ch')) :
    Agree p' (Function.update chan k ch') := by
  obtain ⟨rfl, hchannels, hepoll⟩ := removeChannel_eq hremove
  have hne : kNew ≠ kAdded := by decide
  refine h.set hx rfl (.inl rfl) (by rw [hchannels, if_pos rfl]) ?_
  rw [hepoll, if_neg hne]
  split
  · rfl
  · next hi => rw [← h.epoll_eq_none hx hi, Function.update_eq_self]

/-! ## What an entry says

When descriptors are reused behind the poller's back the tables can lose entries, and `Agree`
fails.  `Sound` is the half of it that no call of any channel breaks: an entry says the truth
about the channel it points to. -/

/-- The entries the poller has are right. -/
structure Sound (p : EPOLLPoller κ) (chan : κ → Channel) : Prop where
  index : ∀ k, (chan k).index = kNew ∨ (chan k).index = kAdded ∨ (chan k).index = kDeleted
  channels : ∀ fd k, p.channels fd = some k → (chan k).fd = fd ∧ (chan k).index ≠ kNew
  epoll : ∀ fd m k, p.epoll fd = some (m, k) → (chan k).fd = fd ∧ (chan k).index = kAdded

/-- Where the tables agree with the channels, the entries are right. -/
lemma Agree.sound {κ : Type*} {p : EPOLLPoller κ} {chan : κ → Channel} (h : Agree p chan) :
    Sound p chan :=
  ⟨h.index, fun fd k => (h.channels fd k).mp, fun fd m k hk =>
    ⟨((h.epoll fd m k).mp hk).1, ((h.epoll fd m k).mp hk).2.1⟩⟩

/-- Storing one channel: its entry may appear or vanish under its own descriptor. -/
lemma Sound.set (h : Sound p chan) (hfd : ch'.fd = (chan k).fd)
    (hindex : ch'.index = kNew ∨ ch'.index = kAdded ∨ ch'.index = kDeleted)
    (hchannels : ∀ fd k', p'.channels fd = some k' →
      (k' = k → ch'.index ≠ kNew) ∧ (p.channels fd = some k' ∨ fd = ch'.fd ∧ k' = k))
    (hepoll : ∀ fd m k', p'.epoll fd = some (m, k') →
      (k' = k → ch'.index = kAdded) ∧ (p.epoll fd = some (m, k') ∨ fd = ch'.fd ∧ k' = k)) :
    Sound p' (Function.update chan k ch') := by
  refine ⟨fun k' => ?_, fun fd k' hk' => ?_, fun fd m k' hk' => ?_⟩
  · by_cases hk : k' = k
    · subst hk
      rw [Function.update_self]
      exact hindex
    · rw [Function.update_of_ne hk]
      exact h.index k'
  · obtain ⟨hne, hold⟩ := hchannels fd k' hk'
    by_cases hk : k' = k
    · subst hk
      rw [Function.update_self]
      refine ⟨?_, hne rfl⟩
      rcases hold with hold | ⟨rfl, -⟩
      · rw [hfd]
        exact (h.channels fd k' hold).1
      · rfl
    · rw [Function.update_of_ne hk]
      rcases hold with hold | ⟨-, rfl⟩
      · exact h.channels fd k' hold
      · exact absurd rfl hk
  · obtain ⟨hadded, hold⟩ := hepoll fd m k' hk'
    by_cases hk : k' = k
    · subst hk
      rw [Function.update_self]
      refine ⟨?_, hadded rfl⟩
      rcases hold with hold | ⟨rfl, -⟩
      · rw [hfd]
        exact (h.epoll fd m k' hold).1
      · rfl
    · rw [Function.update_of_ne hk]
      rcases hold with hold | ⟨-, rfl⟩
      · exact h.epoll fd m k' hold
      · exact absurd rfl hk

/-- `updateChannel` keeps the entries right. -/
theorem Sound.updateChannel (h : Sound p chan) {ch : Channel} (hfd : ch.fd = (chan k).fd)
    (hindex : ch.index = (chan k).index) (hup : p.updateChannel k ch = .ok (p', ch')) :
    Sound p' (Function.update chan k ch') := by
  have htriple := h.index k
  rw [← hindex] at htriple
  obtain ⟨rfl, hchannels, hepoll⟩ := updateChannel_eq htriple hup
  have hnew : nextIndex ch.index ch.events ≠ kNew := nextIndex_ne_kNew _ _
  refine h.set hfd (.inr (nextIndex_cases _ _)) (fun fd k' hk' => ⟨fun _ => hnew, ?_⟩)
    fun fd m k' hk' => ?_
  · rw [hchannels] at hk'
    split at hk'
    · by_cases hf : fd = ch.fd
      · subst hf
        rw [Function.update_self] at hk'
        exact .inr ⟨rfl, (Option.some.inj hk').symm⟩
      · rw [Function.update_of_ne hf] at hk'
        exact .inl hk'
    · exact .inl hk'
  · rw [hepoll] at hk'
    by_cases hf : fd = ch.fd
    · subst hf
      rw [Function.update_self] at hk'
      obtain ⟨hadded, hk'⟩ := Option.ite_none_right_eq_some.mp hk'
      obtain ⟨-, rfl⟩ := Prod.mk.inj (Option.some.inj hk')
      exact ⟨fun _ => hadded, .inr ⟨rfl, rfl⟩⟩
    · rw [Function.update_of_ne hf] at hk'
      refine ⟨fun hk => absurd ?_ hf, .inl hk'⟩
      rw [← (h.epoll fd m k' hk').1, hk, hfd]

/-- `removeChannel` keeps the entries right. -/
theorem Sound.removeChannel (h : Sound p chan)
    (hremove : p.removeChannel k (chan k) = .ok (p', ch')) :
    Sound p' (Function.update chan k ch') := by
  obtain ⟨rfl, hchannels, hepoll⟩ := removeChannel_eq hremove
  refine h.set rfl (.inl rfl) (fun fd k' hk' => ?_) fun fd m k' hk' => ?_
  · rw [hchannels] at hk'
    by_cases hf : fd = (chan k).fd
    · subst hf
      simp at hk'
    · rw [Function.update_of_ne hf] at hk'
      refine ⟨fun hk => absurd ?_ hf, .inl hk'⟩
      rw [← (h.channels fd k' hk').1, hk]
  · rw [hepoll] at hk'
    split at hk'
    · by_cases hf : fd = (chan k).fd
      · subst hf
        simp at hk'
      · rw [Function.update_of_ne hf] at hk'
        refine ⟨fun hk => absurd ?_ hf, .inl hk'⟩
        rw [← (h.epoll fd m k' hk').1, hk]
    · next hi =>
      refine ⟨fun hk => absurd ?_ hi, .inl hk'⟩
      rw [← hk]
      exact (h.epoll fd m k' hk').2

/-- A channel no poller knows can be replaced by another one. -/
lemma Sound.replace (h : Sound p chan) (hk : (chan k).index = kNew) (hindex : ch'.index = kNew) :
    Sound p (Function.update chan k ch') := by
  have hne : ∀ k', (chan k').index ≠ kNew → k' ≠ k := by
    rintro k' hk' rfl
    exact hk' hk
  refine ⟨fun k' => ?_, fun fd k' hk' => ?_, fun fd m k' hk' => ?_⟩
  · by_cases hkk : k' = k
    · subst hkk
      rw [Function.update_self]
      exact .inl hindex
    · rw [Function.update_of_ne hkk]
      exact h.index k'
  · rw [Function.update_of_ne (hne k' (h.channels fd k' hk').2)]
    exact h.channels fd k' hk'
  · have hadded := (h.epoll fd m k' hk').2
    rw [Function.update_of_ne (hne k' (by rw [hadded]; decide))]
    exact h.epoll fd m k' hk'

/-- A channel the poller does not know may be replaced by another one. -/
lemma Agree.replace (h : Agree p chan) (hk : (chan k).index = kNew) (hindex : ch'.index = kNew) :
    Agree p (Function.update chan k ch') := by
  have hadded : kAdded ≠ kNew := by decide
  have hsound := h.sound.replace hk hindex
  refine ⟨hsound.index, fun fd k' => ⟨hsound.channels fd k', fun hk' => ?_⟩, fun fd m k' => ?_⟩
  · by_cases hkk : k' = k
    · subst hkk
      rw [Function.update_self] at hk'
      exact absurd hindex hk'.2
    · rw [Function.update_of_ne hkk] at hk'
      exact (h.channels fd k').mpr hk'
  · by_cases hkk : k' = k
    · subst hkk
      rw [Function.update_self, h.epoll fd m k']
      constructor
      · intro hold
        exact absurd (hold.2.1.symm.trans hk) hadded
      · intro hnew
        exact absurd (hnew.2.1.symm.trans hindex) hadded
    · rw [Function.update_of_ne hkk]
      exact h.epoll fd m k'

/-! ## Any call -/

/-- What a call made for one channel can do: nothing, an update after the events were stored, or
the removal. -/
inductive ChannelStep (p : EPOLLPoller κ) (k : κ) (ch : Channel) : EPOLLPoller κ → Channel → Prop
  | same : ChannelStep p k ch p ch
  | update {m : EventMask} {tied : Bool} {p' : EPOLLPoller κ} {ch' : Channel}
      (h : p.updateChannel k { ch with events := m, tied := tied } = .ok (p', ch')) :
      ChannelStep p k ch p' ch'
  | remove {p' : EPOLLPoller κ} {ch' : Channel} (h : p.removeChannel k ch = .ok (p', ch')) :
      ChannelStep p k ch p' ch'

omit [DecidableEq κ] in
/-- The descriptor stays. -/
lemma ChannelStep.fd {ch : Channel} (h : ChannelStep p k ch p' ch') : ch'.fd = ch.fd := by
  cases h with
  | same => rfl
  | update h => rw [updateChannel_channel h]
  | remove h => rw [(removeChannel_eq h).1]

/-- Every call keeps the entries right. -/
theorem Sound.channelStep (h : Sound p chan) (hstep : ChannelStep p k (chan k) p' ch') :
    Sound p' (Function.update chan k ch') := by
  cases hstep with
  | same =>
    rw [Function.update_eq_self]
    exact h
  | update hup => refine h.updateChannel ?_ ?_ hup <;> rfl
  | remove hremove => exact h.removeChannel hremove

/-- Every call for a channel that has its descriptor for itself keeps the agreement. -/
theorem Agree.channelStep (h : Agree p chan) (hx : Exclusive chan k)
    (hstep : ChannelStep p k (chan k) p' ch') : Agree p' (Function.update chan k ch') := by
  cases hstep with
  | same =>
    rw [Function.update_eq_self]
    exact h
  | update hup => refine h.updateChannel hx ?_ ?_ hup <;> rfl
  | remove hremove => exact h.removeChannel hx hremove

/-! ### The report of events -/

omit [DecidableEq κ] in
/-- `fillActiveChannels` reports the events one by one. -/
lemma fillActiveChannels_cons {x : Fd × EventMask} {ready : List (Fd × EventMask)}
    {active : List (κ × EventMask)} (h : p.fillActiveChannels (x :: ready) = some active) :
    ∃ events k rest, p.epoll x.1 = some (events, k) ∧ p.fillActiveChannels ready = some rest ∧
      active = (k, x.2) :: rest := by
  unfold fillActiveChannels at h
  rw [List.mapM_cons] at h
  obtain ⟨y, hy, h⟩ := Option.bind_eq_some_iff.mp h
  obtain ⟨⟨events, k⟩, hk, rfl⟩ := Option.map_eq_some_iff.mp hy
  obtain ⟨rest, hrest, h⟩ := Option.bind_eq_some_iff.mp h
  exact ⟨events, k, rest, hk, hrest, (Option.some.inj h).symm⟩

omit [DecidableEq κ] in
/-- The kernel reports descriptors it has stored. -/
lemma exists_fillActiveChannels {ready : List (Fd × EventMask)}
    (h : ∀ x ∈ ready, (p.epoll x.1).isSome) : ∃ active, p.fillActiveChannels ready = some active := by
  induction ready with
  | nil => exact ⟨[], rfl⟩
  | cons x ready ih =>
    obtain ⟨e, he⟩ := Option.isSome_iff_exists.mp (h x List.mem_cons_self)
    obtain ⟨active, hactive⟩ := ih fun y hy => h y (List.mem_cons_of_mem x hy)
    refine ⟨(e.2, x.2) :: active, ?_⟩
    unfold fillActiveChannels at hactive ⊢
    rw [List.mapM_cons, he, hactive]
    rfl

omit [DecidableEq κ] in
/-- What is reported is the pointer stored with a descriptor that is ready. -/
lemma mem_fillActiveChannels {ready : List (Fd × EventMask)} {active : List (κ × EventMask)}
    {revents : EventMask} (h : p.fillActiveChannels ready = some active)
    (hk : (k, revents) ∈ active) :
    ∃ fd ∈ ready.map Prod.fst, ∃ events, p.epoll fd = some (events, k) := by
  induction ready generalizing active with
  | nil =>
    obtain rfl : [] = active := Option.some.inj h
    cases hk
  | cons x ready ih =>
    obtain ⟨events, k', rest, hentry, hrest, rfl⟩ := fillActiveChannels_cons h
    rcases List.mem_cons.mp hk with heq | hk
    · obtain ⟨rfl, -⟩ := Prod.mk.inj heq
      exact ⟨x.1, List.mem_cons_self, events, hentry⟩
    · obtain ⟨fd, hfd, hentry⟩ := ih hrest hk
      exact ⟨fd, List.mem_cons_of_mem _ hfd, hentry⟩

omit [DecidableEq κ] in
/-- If the descriptors are reported once each, so are the channels. -/
theorem Sound.nodup_fillActiveChannels (h : Sound p chan) {ready : List (Fd × EventMask)}
    {active : List (κ × EventMask)} (hnodup : (ready.map Prod.fst).Nodup)
    (hactive : p.fillActiveChannels ready = some active) : (active.map Prod.fst).Nodup := by
  induction ready generalizing active with
  | nil =>
    obtain rfl : [] = active := Option.some.inj hactive
    exact .nil
  | cons x ready ih =>
    obtain ⟨events, k, rest, hentry, hrest, rfl⟩ := fillActiveChannels_cons hactive
    rw [List.map_cons, List.nodup_cons] at hnodup ⊢
    refine ⟨fun hk => hnodup.1 ?_, ih hnodup.2 hrest⟩
    obtain ⟨⟨k', revents⟩, hmem, rfl⟩ := List.mem_map.mp hk
    obtain ⟨fd, hfd, events', hentry'⟩ := mem_fillActiveChannels hrest hmem
    rwa [← (h.epoll _ _ _ hentry).1, (h.epoll _ _ _ hentry').1]

end EPOLLPoller

end HzhMuduo
