import HzhMuduo.EPOLLPoller
import HzhMuduo.Foundation.TransitionSystem

/-!
# Calls on the channels of a loop

The member functions of `Channel` that end in the poller (`ChannelCall`), called in any order on
any channels of one loop.  As long as no two channels have one descriptor, the three records of
the poller agree after every call and no `epoll_ctl` fails (`viewsAgree_of_reach`).

A channel that is switched off should be out of the kernel's interest set.  `updateChannel` looks
at the mask in one of its branches only, so this holds in exactly those runs that switch nothing
off on a channel that is not in the set (`switchedOff_iff_heedful`).
-/

namespace HzhMuduo

open TransitionSystem

/-- The calls a channel's owner can make. -/
inductive ChannelCall
  | enableReading
  | disableReading
  | enableWriteing
  | disableWriteing
  | disbleALL
  | remove
  deriving DecidableEq

namespace ChannelCall

variable {κ : Type*}

def run (call : ChannelCall) (p : EPOLLPoller κ) (ptr : κ) (ch : Channel) :
    Except Fault (EPOLLPoller κ × Channel) :=
  match call with
  | .enableReading => p.enableReading ptr ch
  | .disableReading => p.disableReading ptr ch
  | .enableWriteing => p.enableWriteing ptr ch
  | .disableWriteing => p.disableWriteing ptr ch
  | .disbleALL => p.disbleALL ptr ch
  | .remove => p.removeChannel ptr ch

/-- The mask the call stores in `events_`. -/
def mask (call : ChannelCall) (events : EventMask) : EventMask :=
  match call with
  | .enableReading => events ||| Channel.kReadEvent
  | .disableReading => events &&& ~~~Channel.kReadEvent
  | .enableWriteing => events ||| Channel.kWriteEvent
  | .disableWriteing => events &&& ~~~Channel.kWriteEvent
  | .disbleALL => Channel.kNoneEvent
  | .remove => events

/-- The call switches interest on. -/
def enables : ChannelCall → Bool
  | .enableReading | .enableWriteing => true
  | _ => false

/-- The call switches interest off and leaves the channel in `channels_`. -/
def disables : ChannelCall → Bool
  | .disableReading | .disableWriteing | .disbleALL => true
  | _ => false

/-- The call switches the channel off as a whole. -/
def ends : ChannelCall → Bool
  | .disbleALL | .remove => true
  | _ => false

/-- The operation that the call passes to `epoll_ctl`, if it passes one. -/
def ctl (call : ChannelCall) (ch : Channel) : Option CtlOp :=
  match call with
  | .remove => if ch.index = kAdded then some .del else none
  | _ =>
    if ch.index = kNew ∨ ch.index = kDeleted then some .add
    else if call.mask ch.events = Channel.kNoneEvent then some .del
    else some .mod

end ChannelCall

namespace EPOLLPoller

variable {κ : Type*}

/-- What the kernel accepts: it adds a descriptor it has not, and modifies and deletes those it
has. -/
def Accepts (p : EPOLLPoller κ) (operation : CtlOp) (fd : Fd) : Prop :=
  operation = .add ↔ p.epoll fd = none

end EPOLLPoller

section Calls

variable {κ : Type*} {p p' : EPOLLPoller κ} {ptr : κ} {ch ch' : Channel} {call : ChannelCall}

/-- A call that is not `remove` stores its mask and updates the poller. -/
lemma ChannelCall.run_eq_updateChannel (h : call ≠ .remove) :
    call.run p ptr ch = p.updateChannel ptr { ch with events := call.mask ch.events } := by
  cases call with
  | remove => exact absurd rfl h
  | _ => rfl

/-- A call that passes an operation to `epoll_ctl` returns what the kernel makes of it. -/
lemma ChannelCall.run_of_ctl {operation : CtlOp} (h : call.ctl ch = some operation) :
    ∃ channels index, call.run p ptr ch =
      (EPOLLPoller.update { p with channels := channels } operation ptr
        { ch with events := call.mask ch.events }).map
        fun p' => (p', { ch with events := call.mask ch.events, index := index }) := by
  by_cases hremove : call = .remove
  · subst hremove
    simp only [ChannelCall.ctl] at h
    obtain ⟨hadded, h⟩ := Option.ite_none_right_eq_some.mp h
    obtain rfl := Option.some.inj h
    refine ⟨Function.update p.channels ch.fd none, kNew, ?_⟩
    simp only [run, EPOLLPoller.removeChannel, if_pos hadded]
    rfl
  · have hctl : (if ch.index = kNew ∨ ch.index = kDeleted then some .add
        else if call.mask ch.events = Channel.kNoneEvent then some .del
        else some .mod) = some operation := by
      cases call with
      | remove => exact absurd rfl hremove
      | _ => exact h
    rw [run_eq_updateChannel hremove]
    unfold EPOLLPoller.updateChannel
    split at hctl
    · next hout =>
      obtain rfl := Option.some.inj hctl
      refine ⟨if ch.index = kNew then Function.update p.channels ch.fd (some ptr)
        else p.channels, kAdded, ?_⟩
      rw [if_pos hout]
      by_cases hnew : ch.index = kNew
      · simp only [if_pos hnew]
        rfl
      · simp only [if_neg hnew]
        rfl
    · next hout =>
      rw [if_neg hout]
      split at hctl
      · next hnone =>
        obtain rfl := Option.some.inj hctl
        refine ⟨p.channels, kDeleted, ?_⟩
        rw [if_pos (by simpa [Channel.isNoneEvent] using hnone)]
        rfl
      · next hnone =>
        obtain rfl := Option.some.inj hctl
        refine ⟨p.channels, ch.index, ?_⟩
        rw [if_neg (by simpa [Channel.isNoneEvent] using hnone)]
        rfl

/-- A call that passes nothing to `epoll_ctl` is the removal of a channel that is not added. -/
lemma ChannelCall.run_of_ctl_none (h : call.ctl ch = none) :
    call.run p ptr ch = .ok ({ p with channels := Function.update p.channels ch.fd none },
      { ch with index := kNew }) := by
  cases call with
  | remove =>
    have hadded : ch.index ≠ kAdded := by
      intro hadded
      simp [ctl, hadded] at h
    simp only [run, EPOLLPoller.removeChannel, if_neg hadded]
    rfl
  | _ =>
    simp only [ctl] at h
    split at h
    · cases h
    · split at h <;> cases h

/-- A channel that is in the interest set is not added again. -/
lemma ChannelCall.ctl_ne_add (h : ch.index = kAdded) : call.ctl ch ≠ some .add := by
  have hout : ¬ (kAdded = kNew ∨ kAdded = kDeleted) := by decide
  intro hctl
  cases call with
  | remove =>
    simp only [ctl, h, if_true] at hctl
    cases hctl
  | _ =>
    simp only [ctl, h, if_neg hout] at hctl
    split at hctl <;> cases hctl

/-- For a channel that is not in the interest set nothing but its addition is asked for. -/
lemma ChannelCall.ctl_eq_add {operation : CtlOp} (h : ch.index = kNew ∨ ch.index = kDeleted)
    (hctl : call.ctl ch = some operation) : operation = .add := by
  have hadded : ch.index ≠ kAdded := by
    intro hadded
    rw [hadded] at h
    exact absurd h (by decide)
  cases call with
  | remove =>
    simp only [ctl, if_neg hadded] at hctl
    cases hctl
  | _ =>
    simp only [ctl, if_pos h] at hctl
    exact (Option.some.inj hctl).symm

/-- What the kernel accepts does not fail. -/
lemma EPOLLPoller.exists_update {operation : CtlOp} (h : p.Accepts operation ch.fd) :
    ∃ p', p.update operation ptr ch = .ok p' := by
  unfold Accepts at h
  cases operation <;> cases hentry : p.epoll ch.fd <;> simp_all [update]

/-- If the kernel accepts the operation of a call, the call returns. -/
lemma ChannelCall.exists_run (h : ∀ operation ∈ call.ctl ch, p.Accepts operation ch.fd) :
    ∃ x, call.run p ptr ch = .ok x := by
  cases hctl : call.ctl ch with
  | none => exact ⟨_, run_of_ctl_none hctl⟩
  | some operation =>
    obtain ⟨channels, index, hrun⟩ := @run_of_ctl _ p ptr ch call operation hctl
    have hupdate : ∃ p', EPOLLPoller.update { p with channels := channels } operation ptr
        { ch with events := call.mask ch.events } = .ok p' :=
      EPOLLPoller.exists_update (h operation hctl)
    obtain ⟨p', hp'⟩ := hupdate
    rw [hp'] at hrun
    exact ⟨_, hrun⟩

end Calls

/-! ## Runs -/

/-- A poller and the channels whose owners call it. -/
structure PollerState (κ : Type*) where
  poller : EPOLLPoller κ
  chan : κ → Channel

namespace PollerState

variable {κ : Type*} {s s' : PollerState κ} {k : κ} {call : ChannelCall}

/-- Channels with different descriptors, and a poller that knows none of them. -/
structure Fresh (s : PollerState κ) : Prop where
  poller : s.poller = .new
  index : ∀ k, (s.chan k).index = kNew
  fd : Function.Injective fun k => (s.chan k).fd

/-- The tables agree, and no two channels have one descriptor. -/
structure Consistent (s : PollerState κ) : Prop where
  agree : s.poller.Agree s.chan
  fd : Function.Injective fun k => (s.chan k).fd

/-- In a poller that knows no channel the tables agree. -/
lemma Fresh.consistent (h : s.Fresh) : s.Consistent := by
  refine ⟨⟨fun k => .inl (h.index k), fun fd k => ?_, fun fd m k => ?_⟩, h.fd⟩
  · rw [h.poller]
    exact iff_of_false nofun fun hk => hk.2 (h.index k)
  · rw [h.poller]
    refine iff_of_false nofun fun hk => ?_
    exact absurd ((h.index k).symm.trans hk.2.1) (by decide)

namespace Consistent

/-- No other channel has the descriptor. -/
lemma exclusive (h : s.Consistent) (k : κ) : EPOLLPoller.Exclusive s.chan k :=
  fun _ hne _ hfd => hne (h.fd hfd)

/-- The kernel accepts what a call passes to `epoll_ctl`. -/
lemma accepts (h : s.Consistent) {operation : CtlOp} (hctl : call.ctl (s.chan k) = some operation) :
    s.poller.Accepts operation (s.chan k).fd := by
  by_cases hadded : (s.chan k).index = kAdded
  · have hentry := (h.agree.epoll (s.chan k).fd (s.chan k).events k).mpr ⟨rfl, hadded, rfl⟩
    have hne : operation ≠ .add := by
      rintro rfl
      exact ChannelCall.ctl_ne_add hadded hctl
    refine iff_of_false hne ?_
    rw [hentry]
    exact Option.some_ne_none _
  · have hnone := h.agree.epoll_eq_none (h.exclusive k) hadded
    have hout : (s.chan k).index = kNew ∨ (s.chan k).index = kDeleted :=
      (h.agree.index k).imp_right fun hk => hk.resolve_left hadded
    exact iff_of_true (ChannelCall.ctl_eq_add hout hctl) hnone

/-- A channel is in the interest set exactly if it is added, with its own events. -/
lemma epoll_eq (h : s.Consistent) (k : κ) : s.poller.epoll (s.chan k).fd =
    if (s.chan k).index = kAdded then some ((s.chan k).events, k) else none := by
  split
  · next hadded => exact (h.agree.epoll _ _ _).mpr ⟨rfl, hadded, rfl⟩
  · next hadded => exact h.agree.epoll_eq_none (h.exclusive k) hadded

/-- A channel is in the map exactly if it is not new. -/
lemma channels_eq (h : s.Consistent) (k : κ) : s.poller.channels (s.chan k).fd =
    if (s.chan k).index = kNew then none else some k := by
  split
  · next hnew =>
    by_contra hsome
    obtain ⟨k', hk'⟩ := Option.ne_none_iff_exists'.mp hsome
    obtain ⟨hfd, hne⟩ := (h.agree.channels _ _).mp hk'
    obtain rfl := h.fd hfd
    exact hne hnew
  · next hnew => exact h.agree.channels_of_ne hnew

end Consistent

variable [DecidableEq κ]

/-- A call on one of the channels. -/
def step (s : PollerState κ) (a : κ × ChannelCall) : Option (PollerState κ) :=
  (a.2.run s.poller a.1 (s.chan a.1)).toOption.map fun x =>
    ⟨x.1, Function.update s.chan a.1 x.2⟩

def system (κ : Type*) [DecidableEq κ] : TransitionSystem (PollerState κ) (κ × ChannelCall) where
  init := Fresh
  step := step

/-- Every call returns. -/
lemma Consistent.exists_step (h : s.Consistent) (k : κ) (call : ChannelCall) :
    ∃ s', s.step (k, call) = some s' := by
  have hrun : ∃ x, call.run s.poller k (s.chan k) = .ok x :=
    ChannelCall.exists_run fun operation hctl => h.accepts hctl
  obtain ⟨x, hx⟩ := hrun
  refine ⟨⟨x.1, Function.update s.chan k x.2⟩, ?_⟩
  simp only [PollerState.step, hx]
  rfl

/-- A call is a step of the poller for one channel. -/
lemma channelStep_of_step (h : s.step (k, call) = some s') :
    ∃ ch, s'.chan = Function.update s.chan k ch ∧
      call.run s.poller k (s.chan k) = .ok (s'.poller, ch) ∧
      EPOLLPoller.ChannelStep s.poller k (s.chan k) s'.poller ch := by
  obtain ⟨⟨p, ch⟩, hrun, rfl⟩ := Option.map_eq_some_iff.mp h
  have hrun := Except.toOption_eq_some_iff.mp hrun
  refine ⟨ch, rfl, hrun, ?_⟩
  by_cases hremove : call = .remove
  · subst hremove
    exact .remove hrun
  · rw [ChannelCall.run_eq_updateChannel hremove] at hrun
    exact .update hrun

/-- Every call keeps the tables in agreement. -/
lemma Consistent.step {a : κ × ChannelCall} (h : s.Consistent) (hs : s.step a = some s') :
    s'.Consistent := by
  obtain ⟨ch, hchan, -, hstep⟩ := channelStep_of_step hs
  refine ⟨?_, ?_⟩
  · rw [hchan]
    exact h.agree.channelStep (h.exclusive a.1) hstep
  · have hfds : (fun k => (s'.chan k).fd) = fun k => (s.chan k).fd := by
      funext k
      rw [hchan]
      by_cases hk : k = a.1
      · rw [hk, Function.update_self, hstep.fd]
      · rw [Function.update_of_ne hk]
    rw [hfds]
    exact h.fd

lemma consistent_of_reach (h : (system κ).Reach s) : s.Consistent :=
  h.invariant (fun _ hs => hs.consistent) fun _ _ _ hI hs => hI.step hs

/-- What the index of a channel says about the map and the interest set. -/
structure ViewsAgree (s : PollerState κ) (k : κ) : Prop where
  new_iff : (s.chan k).index = kNew ↔ s.poller.channels (s.chan k).fd = none
  added_iff : (s.chan k).index = kAdded ↔ s.poller.epoll (s.chan k).fd ≠ none
  entry : (s.chan k).index = kAdded →
    s.poller.epoll (s.chan k).fd = some ((s.chan k).events, k)
  deleted_iff : (s.chan k).index = kDeleted ↔
    s.poller.channels (s.chan k).fd ≠ none ∧ s.poller.epoll (s.chan k).fd = none
  hasChannel_iff : s.poller.hasChannel k (s.chan k) = true ↔ (s.chan k).index ≠ kNew

lemma Consistent.viewsAgree (h : s.Consistent) (k : κ) : ViewsAgree s k := by
  have hchannels := h.channels_eq k
  have hepoll := h.epoll_eq k
  have hne : kDeleted ≠ kNew ∧ kDeleted ≠ kAdded := by decide
  refine ⟨?_, ?_, fun hadded => ?_, ?_, ?_⟩
  · rw [hchannels]
    split
    · next hnew => exact iff_of_true hnew rfl
    · next hnew => exact iff_of_false hnew (Option.some_ne_none _)
  · rw [hepoll]
    split
    · next hadded => exact iff_of_true hadded (Option.some_ne_none _)
    · next hadded => exact iff_of_false hadded fun hsome => hsome rfl
  · rw [hepoll, if_pos hadded]
  · constructor
    · intro hdeleted
      rw [hchannels, hepoll, hdeleted, if_neg hne.1, if_neg hne.2]
      exact ⟨Option.some_ne_none _, rfl⟩
    · rintro ⟨hin, hout⟩
      rcases h.agree.index k with hnew | hadded | hdeleted
      · rw [hchannels, if_pos hnew] at hin
        exact absurd rfl hin
      · rw [hepoll, if_pos hadded] at hout
        exact absurd hout (Option.some_ne_none _)
      · exact hdeleted
  · rw [EPOLLPoller.hasChannel, hchannels, beq_iff_eq]
    split
    · next hnew => exact iff_of_false nofun fun h => h hnew
    · next hnew => exact iff_of_true rfl hnew

/-- After any calls on channels with different descriptors the index of each says where it is,
and whatever is called next, the kernel accepts what is passed to `epoll_ctl` and the call
returns. -/
theorem viewsAgree_of_reach (h : (system κ).Reach s) :
    (∀ k, ViewsAgree s k) ∧ ∀ k (call : ChannelCall),
      (∀ operation ∈ call.ctl (s.chan k), s.poller.Accepts operation (s.chan k).fd) ∧
      ∃ s', s.step (k, call) = some s' := by
  have hC := consistent_of_reach h
  refine ⟨fun k => hC.viewsAgree k, fun k call => ⟨fun operation hctl => ?_, ?_⟩⟩
  · exact hC.accepts hctl
  · exact hC.exists_step k call

/-- Channels 0 and 1 on the descriptors 7 and 8. -/
def twoChannels : PollerState (Fin 2) where
  poller := .new
  chan k := .new (7 + k)

lemma twoChannels_fresh : twoChannels.Fresh :=
  ⟨rfl, fun _ => rfl, fun _ _ h => Fin.ext (Nat.add_left_cancel h)⟩

theorem viewsAgree_of_reach_twoChannels : ∃ s, (system (Fin 2)).Reach s ∧
    (s.chan 0).index = kDeleted ∧ (s.chan 1).index = kAdded ∧ ViewsAgree s 0 ∧ ViewsAgree s 1 := by
  obtain ⟨s, hs, hobserved⟩ := exists_reach_of_run (M := system (Fin 2)) (s := twoChannels)
    (v := (kDeleted, kAdded)) [(0, .enableReading), (1, .enableWriteing), (0, .disableReading)]
    (fun s => ((s.chan 0).index, (s.chan 1).index)) twoChannels_fresh (by decide +kernel)
  obtain ⟨h₀, h₁⟩ := Prod.mk.inj hobserved
  have hviews := (viewsAgree_of_reach hs).1
  exact ⟨s, hs, h₀, h₁, hviews 0, hviews 1⟩

end PollerState

/-! ## Channels that are switched off -/

namespace ChannelCall

variable {call : ChannelCall} {events : EventMask}

/-- A mask that a call switches interest on in is not empty. -/
lemma mask_ne_of_enables (h : call.enables = true) : call.mask events ≠ Channel.kNoneEvent := by
  cases call with
  | enableReading => exact EventMask.ne_kNoneEvent_of_has (EventMask.has_or_kReadEvent events)
  | enableWriteing => exact EventMask.ne_kNoneEvent_of_has (EventMask.has_or_kWriteEvent events)
  | _ => cases h

/-- An empty mask stays empty when interest is switched off. -/
lemma mask_kNoneEvent_of_disables (h : call.disables = true) :
    call.mask Channel.kNoneEvent = Channel.kNoneEvent := by
  cases call with
  | disableReading | disableWriteing => exact BitVec.zero_and
  | disbleALL => rfl
  | _ => cases h

/-- The calls are of three kinds. -/
lemma cases_kind (call : ChannelCall) :
    call.enables = true ∧ call.disables = false ∨ call.disables = true ∧ call.enables = false ∨
      call = .remove := by
  cases call <;> decide

end ChannelCall

/-- The channels of a loop, and which of them `disbleALL` or `remove` was called on after they were
last enabled. -/
structure SwitchedChannels (κ : Type*) where
  state : PollerState κ
  off : κ → Bool

namespace SwitchedChannels

variable {κ : Type*} {s s' : SwitchedChannels κ}

/-- The mark of a channel after a call on it. -/
def mark (call : ChannelCall) (off : Bool) : Bool := (call.ends || off) && !call.enables

/-- Channels as their constructor leaves them, and a poller that knows none of them. -/
structure Constructed (s : SwitchedChannels κ) : Prop where
  fresh : s.state.Fresh
  events : ∀ k, (s.state.chan k).events = Channel.kNoneEvent
  off : ∀ k, s.off k = false

/-- No channel is in the interest set with an empty mask, and none that was switched off is in it
at all. -/
def SwitchedOff (s : SwitchedChannels κ) : Prop :=
  ∀ k, (∀ ptr, s.state.poller.epoll (s.state.chan k).fd ≠ some (Channel.kNoneEvent, ptr)) ∧
    (s.off k = true → s.state.poller.epoll (s.state.chan k).fd = none)

/-- The discipline that the source does not enforce: interest is switched off only on a channel
that is in the interest set. -/
def Heedful (s : SwitchedChannels κ) (a : κ × ChannelCall) : Prop :=
  a.2.disables = true → (s.state.chan a.1).index = kAdded

instance (s : SwitchedChannels κ) (a : κ × ChannelCall) : Decidable (s.Heedful a) :=
  inferInstanceAs (Decidable (_ → _))

/-- In terms of the channels alone. -/
lemma switchedOff_iff (h : s.state.Consistent) : s.SwitchedOff ↔ ∀ k,
    (s.state.chan k).index = kAdded →
      (s.state.chan k).events ≠ Channel.kNoneEvent ∧ s.off k = false := by
  refine forall_congr' fun k => ?_
  rw [h.epoll_eq k]
  split
  · next hadded =>
    refine ⟨fun hoff _ => ⟨fun hnone => hoff.1 k (by rw [hnone]), ?_⟩, fun hoff => ⟨?_, ?_⟩⟩
    · by_contra hmark
      exact absurd (hoff.2 (by simpa using hmark)) (Option.some_ne_none _)
    · intro ptr heq
      exact (hoff hadded).1 (Prod.mk.inj (Option.some.inj heq)).1
    · intro hmark
      rw [(hoff hadded).2] at hmark
      cases hmark
  · next hadded =>
    exact iff_of_true ⟨fun _ => nofun, fun _ => rfl⟩ fun h => absurd h hadded

/-- What the runs keep besides: the tables agree, and a channel that is not in the interest set has
no events or was switched off. -/
structure Kept (s : SwitchedChannels κ) : Prop where
  consistent : s.state.Consistent
  idle : ∀ k, (s.state.chan k).index ≠ kAdded →
    (s.state.chan k).events = Channel.kNoneEvent ∨ s.off k = true

variable [DecidableEq κ]

def step (s : SwitchedChannels κ) (a : κ × ChannelCall) : Option (SwitchedChannels κ) :=
  (s.state.step a).map fun state =>
    ⟨state, Function.update s.off a.1 (mark a.2 (s.off a.1))⟩

def system (κ : Type*) [DecidableEq κ] :
    TransitionSystem (SwitchedChannels κ) (κ × ChannelCall) where
  init := Constructed
  step := step

/-- The channel after a call. -/
lemma chan_of_step {k : κ} {call : ChannelCall} (hC : s.state.Consistent)
    (hs : s.step (k, call) = some s') :
    s'.state.Consistent ∧ s'.off = Function.update s.off k (mark call (s.off k)) ∧
      (∀ k' ≠ k, s'.state.chan k' = s.state.chan k') ∧
      (s'.state.chan k).events = call.mask (s.state.chan k).events ∧
      (s'.state.chan k).index = if call = .remove then kNew else
        EPOLLPoller.nextIndex (s.state.chan k).index (call.mask (s.state.chan k).events) := by
  obtain ⟨state, hstate, rfl⟩ := Option.map_eq_some_iff.mp hs
  obtain ⟨ch, hchan, hrun, -⟩ := PollerState.channelStep_of_step hstate
  refine ⟨hC.step hstate, rfl, fun k' hk' => ?_, ?_⟩
  · rw [hchan, Function.update_of_ne hk']
  · rw [hchan, Function.update_self]
    by_cases hremove : call = .remove
    · subst hremove
      rw [(EPOLLPoller.removeChannel_eq hrun).1]
      exact ⟨rfl, rfl⟩
    · rw [ChannelCall.run_eq_updateChannel hremove] at hrun
      have hindex := hC.agree.index k
      obtain ⟨rfl, -, -⟩ := EPOLLPoller.updateChannel_eq (by exact hindex) hrun
      rw [if_neg hremove]
      exact ⟨rfl, rfl⟩

/-- A call that switches interest on puts the channel into the interest set, with events. -/
lemma enables_spec {call : ChannelCall} (h : call.enables = true) (index : ℤ) (events : EventMask)
    (off : Bool) : EPOLLPoller.nextIndex index (call.mask events) = kAdded ∧
      call.mask events ≠ Channel.kNoneEvent ∧ mark call off = false := by
  have hmask : call.mask events ≠ Channel.kNoneEvent := ChannelCall.mask_ne_of_enables h
  refine ⟨?_, hmask, ?_⟩
  · unfold EPOLLPoller.nextIndex
    rw [if_neg hmask]
    split <;> rfl
  · unfold mark
    rw [h, Bool.not_true, Bool.and_false]

/-- A call that switches interest off leaves a channel in the interest set with the events that
remain, or takes it out. -/
lemma disables_spec {call : ChannelCall} (h : call.disables = true) (events : EventMask) :
    (EPOLLPoller.nextIndex kAdded (call.mask events) = kAdded →
      call.mask events ≠ Channel.kNoneEvent ∧ mark call false = false) ∧
    (EPOLLPoller.nextIndex kAdded (call.mask events) ≠ kAdded →
      call.mask events = Channel.kNoneEvent) := by
  have hnext : EPOLLPoller.nextIndex kAdded (call.mask events) =
      if call.mask events = Channel.kNoneEvent then kDeleted else kAdded := rfl
  rw [hnext]
  refine ⟨fun hadded => ?_, fun hout => ?_⟩
  · have hmask : call.mask events ≠ Channel.kNoneEvent := by
      intro hmask
      rw [if_pos hmask] at hadded
      exact absurd hadded (by decide)
    refine ⟨hmask, ?_⟩
    cases call with
    | disbleALL => exact absurd rfl hmask
    | disableReading | disableWriteing => rfl
    | _ => cases h
  · by_contra hmask
    rw [if_neg hmask] at hout
    exact hout rfl

/-- Such a call on a channel outside the interest set puts it back, though nothing of it was
switched on. -/
lemma disables_outside {call : ChannelCall} (h : call.disables = true) {index : ℤ}
    (hindex : index = kNew ∨ index = kDeleted) {events : EventMask} {off : Bool}
    (hidle : events = Channel.kNoneEvent ∨ off = true) :
    EPOLLPoller.nextIndex index (call.mask events) = kAdded ∧
      ¬ (call.mask events ≠ Channel.kNoneEvent ∧ mark call off = false) := by
  refine ⟨if_pos hindex, ?_⟩
  rintro ⟨hmask, hmark⟩
  rcases hidle with hnone | hoff
  · rw [hnone] at hmask
    exact hmask (ChannelCall.mask_kNoneEvent_of_disables h)
  · have henables : call.enables = false := by
      cases call with
      | enableReading | enableWriteing => cases h
      | _ => rfl
    rw [mark, hoff, henables, Bool.or_true] at hmark
    cases hmark

/-- What the call makes of its channel. -/
lemma own_iff_heedful {k : κ} {call : ChannelCall} (hK : Kept s) (hoff : s.SwitchedOff)
    (hs : s.step (k, call) = some s') :
    (((s'.state.chan k).index = kAdded → (s'.state.chan k).events ≠ Channel.kNoneEvent ∧
      s'.off k = false) ↔ s.Heedful (k, call)) ∧
    ((s'.state.chan k).index ≠ kAdded →
      (s'.state.chan k).events = Channel.kNoneEvent ∨ s'.off k = true) := by
  obtain ⟨-, hmark, -, hevents, hindex⟩ := chan_of_step hK.consistent hs
  have hoff := (switchedOff_iff hK.consistent).mp hoff k
  rw [hmark, Function.update_self, hevents, hindex]
  rcases call.cases_kind with ⟨hon, hkeeps⟩ | ⟨hdisables, -⟩ | rfl
  · have hne : call ≠ .remove := by
      rintro rfl
      cases hon
    obtain ⟨hnext, hmask, hmark'⟩ :=
      enables_spec hon (s.state.chan k).index (s.state.chan k).events (s.off k)
    rw [if_neg hne, hnext]
    refine ⟨iff_of_true (fun _ => ⟨hmask, hmark'⟩) fun h => ?_, fun h => absurd rfl h⟩
    rw [hkeeps] at h
    cases h
  · have hne : call ≠ .remove := by
      rintro rfl
      cases hdisables
    rw [if_neg hne]
    by_cases hadded : (s.state.chan k).index = kAdded
    · obtain ⟨hin, hout⟩ := disables_spec hdisables (s.state.chan k).events
      rw [hadded, (hoff hadded).2]
      exact ⟨iff_of_true hin fun _ => hadded, fun h => .inl (hout h)⟩
    · have hindex : (s.state.chan k).index = kNew ∨ (s.state.chan k).index = kDeleted :=
        (hK.consistent.agree.index k).imp_right fun hk => hk.resolve_left hadded
      obtain ⟨hnext, hbad⟩ := disables_outside hdisables hindex (hK.idle k hadded)
      rw [hnext]
      exact ⟨iff_of_false (fun h => hbad (h rfl)) fun h => hadded (h hdisables),
        fun h => absurd rfl h⟩
  · have hnew : kNew ≠ kAdded := by decide
    rw [if_pos rfl]
    exact ⟨iff_of_true (fun h => absurd h hnew) nofun, fun _ => .inr rfl⟩

/-- From a state where all is well a call leads to such a state exactly if it is heedful. -/
lemma switchedOff_step {a : κ × ChannelCall} (hK : Kept s) (hoff : s.SwitchedOff)
    (hs : s.step a = some s') : (s'.SwitchedOff ↔ s.Heedful a) ∧ (s'.SwitchedOff → Kept s') := by
  obtain ⟨hC, hmark, hothers, -, -⟩ := chan_of_step hK.consistent hs
  obtain ⟨hexact, hidle⟩ := own_iff_heedful hK hoff hs
  have hother := (switchedOff_iff hK.consistent).mp hoff
  rw [switchedOff_iff hC]
  refine ⟨⟨fun h => hexact.mp (h a.1), fun h k => ?_⟩, fun _ => ⟨hC, fun k => ?_⟩⟩
  · by_cases hk : k = a.1
    · subst hk
      exact hexact.mpr h
    · rw [hothers k hk, hmark, Function.update_of_ne hk]
      exact hother k
  · by_cases hk : k = a.1
    · subst hk
      exact hidle
    · rw [hothers k hk, hmark, Function.update_of_ne hk]
      exact hK.idle k

/-- In every run, no channel is ever in the interest set with an empty mask or after it was switched
off, exactly if every call is heedful. -/
theorem switchedOff_iff_heedful (h : Constructed s) (calls : List (κ × ChannelCall)) :
    (system κ).Always SwitchedOff s calls ↔ (system κ).Along Heedful s calls := by
  have hC := h.fresh.consistent
  have hne : kNew ≠ kAdded := by decide
  refine always_iff_along (M := system κ) (I := Kept) (P := SwitchedOff)
    (fun s a s' hK hoff hs => switchedOff_step hK hoff hs)
    ⟨hC, fun k _ => .inl (h.events k)⟩ ?_ calls
  rw [switchedOff_iff hC]
  intro k hadded
  exact absurd ((h.fresh.index k).symm.trans hadded) hne

/-- One channel on descriptor 7. -/
def oneChannel : SwitchedChannels Unit where
  state := ⟨.new, fun _ => .new 7⟩
  off _ := false

lemma oneChannel_constructed : oneChannel.Constructed :=
  ⟨⟨rfl, fun _ => rfl, fun _ _ _ => rfl⟩, fun _ => rfl, fun _ => rfl⟩

theorem switchedOff_iff_heedful_oneChannel :
    (system Unit).Always SwitchedOff oneChannel [((), .enableReading), ((), .disbleALL)] := by
  apply (switchedOff_iff_heedful oneChannel_constructed _).mpr
  decide +kernel

/-- A second `disbleALL` adds the channel to the interest set again, with no events. -/
theorem exists_epoll_of_disbleALL : ∃ s, (system Unit).Reach s ∧ s.off () = true ∧
    s.state.poller.epoll 7 = some (Channel.kNoneEvent, ()) := by
  obtain ⟨s, hs, hobserved⟩ := exists_reach_of_run (M := system Unit) (s := oneChannel)
    (v := (true, some (Channel.kNoneEvent, ())))
    [((), .enableReading), ((), .disbleALL), ((), .disbleALL)]
    (fun s => (s.off (), s.state.poller.epoll 7)) oneChannel_constructed (by decide +kernel)
  obtain ⟨hoff, hentry⟩ := Prod.mk.inj hobserved
  exact ⟨s, hs, hoff, hentry⟩

end SwitchedChannels

end HzhMuduo
