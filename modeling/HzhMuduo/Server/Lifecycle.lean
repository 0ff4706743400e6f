import HzhMuduo.Server.Stages

/-!
# Every connection is in a stage

The steps of a connection that is up or closed, and the invariant: in the runs of a server
without sub-loops that meet `Settled`, every connection is in one of the stages.
-/

namespace HzhMuduo

open MachineWord TcpConnection

namespace Server

variable {cfg : Config} {s s' : Server} {a : Act} {c : ConnId} {l : LoopId}

/-- The handlers of an event serve the connection. -/
lemma serving_of_mem_handleEvent {revents : EventMask} {op : Op}
    (hop : op ∈ handleEvent (.conn c, revents)) (hc : op.conn? = some c) : op.serving = true := by
  rcases mem_handleEvent hop with ⟨hk, -⟩ | ⟨c', -, (rfl | rfl | rfl | rfl) | rfl⟩
  · cases hk
  · rfl
  · rfl
  · rfl
  · rfl
  · cases hc

/-- What is on the stacks after a call of the application. -/
lemma mem_call {t t' : Tid} {op op' : Op} (h : op' ∈ (s.setStack t (op :: s.stack t)).stack t') :
    op' = op ∨ op' ∈ s.stack t' := by
  rcases mem_setStack h with ⟨rfl, hnew⟩ | hold
  · exact List.mem_cons.mp hnew
  · exact .inr hold

/-! ### A connection that is up -/

namespace Up

/-- Its events are reported. -/
lemma poll (hU : Up s c) {active : List (ChannelId × EventMask)} (h : s.AtPhase 0 .polling) :
    Up (s.setPhase 0 (.dispatching active)) c := by
  refine ⟨hU.created, hU.table, hU.state, hU.index, hU.reading, hU.stack, fun l f hf hc => ?_,
    fun op hop => ?_⟩
  · exact hU.waiting l f (((kept_poll h).waiting l f hc).mp hf) hc
  · have hnil : s.stack (.loop 0) = [] := h.2
    have hmem : op ∈ s.stack (.loop 0) := hop
    rw [hnil] at hmem
    cases hmem

/-- The handlers of its event start. -/
lemma dispatch (hU : Up s c) (hS : Shape cfg s) (hrhythm : Rhythm s) {revents : EventMask}
    {active : List (ChannelId × EventMask)}
    (h : s.AtPhase l (.dispatching ((.conn c, revents) :: active))) :
    Up ((s.setPhase l (.dispatching active)).setStack (.loop l)
      (handleEvent (.conn c, revents))) c := by
  obtain rfl := hS.eq_zero_of_dispatching h.1
  refine ⟨hU.created, hU.table, hU.state, hU.index, hU.reading, fun t op hop hc => ?_,
    fun l f hf hc => ?_, fun op hop hc hh m hm => ?_⟩
  · rcases mem_setStack hop with ⟨-, hnew⟩ | hold
    · exact serving_of_mem_handleEvent hnew hc
    · exact hU.stack t op hold hc
  · exact hU.waiting l f (((kept_dispatch h).waiting l f hc).mp hf) hc
  · have hnodup := hrhythm.nodup
    rw [h.1] at hnodup
    have hm : (.conn c, m) ∈ active := by
      simpa [setStack, setPhase, Phase.active] using hm
    exact (List.nodup_cons.mp hnodup).1 (List.mem_map.mpr ⟨_, hm, rfl⟩)

/-- One of its functors is called. -/
lemma next (hU : Up s c) {ran rest : List Functor} {f : Functor}
    (h : s.AtPhase l (.functors ran (f :: rest))) (hf : f.conn? = some c) :
    Up ((s.setPhase l (.functors (ran ++ [f]) rest)).setStack (.loop l) [f.op]) c := by
  refine ⟨hU.created, hU.table, hU.state, hU.index, hU.reading, fun t op hop hc => ?_,
    fun l' g hg hc => hU.waiting l' g (waiting_next h.1 hg) hc, fun op hop hc hh m => ?_⟩
  · rcases mem_next hop with ⟨-, rfl⟩ | hop
    · exact hU.waiting l f (waiting_of_next h.1) hf
    · exact hU.stack t op hop hc
  · by_cases hl : 0 = l
    · subst hl
      simp [setStack, setPhase, Phase.active]
    · have hold : op ∈ s.stack (.loop 0) := by
        refine (mem_next hop).resolve_left fun hnew => hl ?_
        exact Tid.loop.inj hnew.1
      simpa [setStack, setPhase, Function.update_of_ne hl] using hU.handled op hold hc hh m

/-- The application calls `send` or `shutdown`. -/
lemma call (hU : Up s c) {t : Tid} {op : Op} (hop : (∃ len, op = .send c len) ∨ op = .shutdown c) :
    Up (s.setStack t (op :: s.stack t)) c := by
  have hclass : op.serving = true ∧ op.handling = false := by
    rcases hop with ⟨len, rfl⟩ | rfl <;> exact ⟨rfl, rfl⟩
  refine ⟨hU.created, hU.table, hU.state, hU.index, hU.reading, fun t' op' hop' hc => ?_,
    hU.waiting, fun op' hop' hc hh => ?_⟩
  · rcases mem_call hop' with rfl | hold
    · exact hclass.1
    · exact hU.stack t' op' hold hc
  · rcases mem_call hop' with rfl | hold
    · rw [hclass.2] at hh
      cases hh
    · exact hU.handled op' hold hc hh

section Exec

variable {t : Tid} {i : Input} {op : Op} {rest ops : List Op} {o : Objects}
  (hU : Up s c) (hR : Registered cfg s) (hS : Shape cfg s) (hstack : s.stack t = op :: rest)
  (hready : s.Ready cfg op i) (hrun : Op.Runs cfg s.objects t i op o ops) (hop : op.conn? = some c)

include hU hR hstack hready hrun hop

/-- The map keeps the connection. -/
lemma inTable_executed : o.InTable c := by
  have hserving := hU.stack t op (hstack ▸ List.mem_cons_self) hop
  have hcreated := hR.lt_of_ready hready
  refine (Objects.inTable_iff_of_runs hrun hR.objects hcreated hU.created).mpr ⟨hU.table, ?_⟩
  constructor <;> rintro rfl <;> cases hserving

/-- Everything but `handleClose` leaves the connection up. -/
lemma exec (hclose : op ≠ .handleClose c) : Up (s.executed t op o (ops ++ rest)) c := by
  have hmem : op ∈ s.stack t := hstack ▸ List.mem_cons_self
  have hserving := hU.stack t op hmem hop
  have hnot : ∀ c', op ≠ .handleClose c' := by
    rintro c' rfl
    obtain rfl := Option.some.inj hop
    exact hclose rfl
  have hstate := hrun.stateChange hU.created
  have hchannel := hrun.channelChange hR.objects hU.created
  have hreading := hU.reading
  have hindex : ∀ events, EventMask.has events Channel.kReadEvent = true →
      EPOLLPoller.nextIndex (s.objects.conn c).channel.index events = kAdded := by
    intro events hread
    unfold EPOLLPoller.nextIndex
    split
    · rfl
    · exact if_neg (EventMask.ne_kNoneEvent_of_has hread)
  have hadded : (o.conn c).channel.index = kAdded ∧ (o.conn c).channel.isReading = true := by
    generalize (o.conn c).channel = ch at hchannel
    cases hchannel with
    | same h => exact ⟨hU.index, hU.reading⟩
    | enableReading => cases hserving
    | destroyConnected => cases hserving
    | handleClose => exact absurd rfl hclose
    | channelRemove => cases hserving
    | enableWriteing =>
      have hread : EventMask.has ((s.objects.conn c).channel.events ||| Channel.kWriteEvent)
          Channel.kReadEvent = true := by
        rw [EventMask.has_kReadEvent_or_kWriteEvent]
        exact hreading
      exact ⟨hindex _ hread, hread⟩
    | disableWriteing h =>
      have hread : EventMask.has ((s.objects.conn c).channel.events &&& ~~~Channel.kWriteEvent)
          Channel.kReadEvent = true := by
        rw [EventMask.has_kReadEvent_and_not_kWriteEvent]
        exact hreading
      exact ⟨hindex _ hread, hread⟩
  refine ⟨Nat.lt_of_lt_of_le hU.created hrun.effect.created_le,
    inTable_executed hU hR hstack hready hrun hop, ?_, hadded.1, hadded.2, fun t' op' hop' hc => ?_,
    fun l f hf hc => ?_, fun op' hop' hc hh => ?_⟩
  · show (o.conn c).state = .kConnected ∨ (o.conn c).state = .kDisconnecting
    generalize (o.conn c).state = state at hstate
    cases hstate with
    | same h => exact hU.state
    | connectEstablished => cases hserving
    | destroyConnected => cases hserving
    | handleClose => exact absurd rfl hclose
    | setDisconnecting => exact .inr rfl
  · rcases mem_executed hstack hop' with ⟨-, hnew⟩ | ⟨hold, -⟩
    · exact (hrun.follows hnew).serving hserving hnot hc
    · exact hU.stack t' op' hold hc
  · rcases waiting_executed hR hrun hf with hold | hqueues
    · exact hU.waiting l f hold hc
    · exact hqueues.serving hserving
  · rcases mem_executed hstack hop' with ⟨ht, hnew⟩ | ⟨hold, -⟩
    · exact hU.handled op (ht ▸ hmem) hop ((hrun.follows hnew).handling hh)
    · exact hU.handled op' hold hc hh

include hS

/-- `handleClose` closes it. -/
lemma close (hclose : op = .handleClose c) : Closed (s.executed t op o (ops ++ rest)) c := by
  subst hclose
  have hmem : .handleClose c ∈ s.stack t := hstack ▸ List.mem_cons_self
  obtain rfl : t = .loop 0 := hS.eq_base hmem rfl
  have hstate := hrun.stateChange hU.created
  have hchannel := hrun.channelChange hR.objects hU.created
  have htable := inTable_executed hU hR hstack hready hrun hop
  have hdown : (o.conn c).state = .kDisconnected := by
    generalize (o.conn c).state = state at hstate
    cases hstate with
    | same h => exact absurd rfl h.2.2.1
    | handleClose => rfl
  have hnone : (o.conn c).channel.events = Channel.kNoneEvent ∧
      (o.conn c).channel.index ≠ kNew := by
    generalize (o.conn c).channel = ch at hchannel
    cases hchannel with
    | same h => exact absurd rfl h.2.2.1
    | handleClose => exact ⟨rfl, EPOLLPoller.nextIndex_ne_kNew _ _⟩
  have hcallback : .closeCallback c ∈ ops := by
    cases hrun with
    | handleClose h => exact List.mem_cons_of_mem _ List.mem_cons_self
  refine ⟨Nat.lt_of_lt_of_le hU.created hrun.effect.created_le, hnone.1, .inl hdown,
    fun len hbody => ?_, fun t' op' hop' hc => ?_, fun l f hf hc => ?_, ?_,
    fun _ => .inl (mem_executed_self hcallback), fun _ => .inl htable, fun _ _ _ _ => hnone.2⟩
  · rcases mem_executed hstack hbody with ⟨-, hnew⟩ | ⟨hold, -⟩
    · cases hrun.follows hnew
    · exact nomatch hS.eq_head hstack hold rfl
  · rcases mem_executed hstack hop' with ⟨-, hnew⟩ | ⟨hold, -⟩
    · cases hrun.follows hnew with
      | down => exact .inr rfl
      | close => exact .inr rfl
      | closeRelease => cases hc
    · exact .inl (hU.stack t' op' hold hc)
  · rcases waiting_executed hR hrun hf with hold | hqueues
    · exact .inl (hU.waiting l f hold hc)
    · cases hqueues
  · exact hU.handled _ hmem hop rfl

end Exec

end Up

/-! ### A connection that is closed -/

namespace Closed

/-- Between two passes of the loop its channel is in the poller no more. -/
lemma index_of_idle (hC : Closed s c) (hrhythm : Rhythm s) (hstack : s.stack (.loop 0) = [])
    (hidle : (s.phase 0).isDispatching = false) (hrest : (s.phase 0).rest = []) :
    (s.objects.conn c).channel.index = kNew ∧ ¬ s.objects.InTable c := by
  have hempty : ∀ op, op ∉ s.stack (.loop 0) := by
    intro op hop
    rw [hstack] at hop
    cases hop
  have htable : ¬ s.objects.InTable c := by
    intro hin
    rcases hC.closing hin with hop | hop
    · exact hempty _ hop
    · exact hempty _ hop
  refine ⟨?_, htable⟩
  by_contra hindex
  rcases hC.kept hindex with hin | hwaiting | hop | hop
  · exact htable hin
  · rcases List.mem_append.mp hwaiting with hf | hf
    · exact absurd ((hrhythm.pending c hf).symm.trans hidle) (by decide)
    · rw [hrest] at hf
      cases hf
  · exact hempty _ hop
  · exact hempty _ hop

/-- At `poll` its channel is in the poller no more. -/
lemma index_of_polling (hC : Closed s c) (hrhythm : Rhythm s) (h : s.AtPhase 0 .polling) :
    (s.objects.conn c).channel.index = kNew ∧ ¬ s.objects.InTable c :=
  hC.index_of_idle hrhythm h.2 (by rw [h.1]; rfl) (by rw [h.1]; rfl)

/-- No event of it is reported. -/
lemma poll (hC : Closed s c) (hR : Registered cfg s) (hrhythm : Rhythm s)
    {ready : List (Fd × EventMask)} {active : List (ChannelId × EventMask)}
    (h : s.AtPhase 0 .polling)
    (hactive : (s.objects.poller 0).fillActiveChannels ready = some active) :
    Closed (s.setPhase 0 (.dispatching active)) c := by
  obtain ⟨hindex, htable⟩ := hC.index_of_polling hrhythm h
  have hkept : Kept c s (s.setPhase 0 (.dispatching active)) := kept_poll h
  refine ⟨hC.created, hC.events, (Quiet.of_kept hkept).mpr hC.quiet, hC.unsent, hC.stack,
    fun l f hf hc => hC.waiting l f ((hkept.waiting l f hc).mp hf) hc, fun m hm => ?_,
    fun hin => absurd hin htable, fun hne => absurd hindex hne, hC.handled⟩
  exact hR.not_mem_active hindex hactive m hm

/-- One of its functors is called. -/
lemma next (hC : Closed s c) (hR : Registered cfg s) (hS : Shape cfg s) {ran rest : List Functor}
    {f : Functor} (h : s.AtPhase l (.functors ran (f :: rest))) (hf : f.conn? = some c) :
    Closed ((s.setPhase l (.functors (ran ++ [f]) rest)).setStack (.loop l) [f.op]) c := by
  have hconcerns : Concerns cfg s c (.next l) _ := .next h hf
  have hstays : ∀ {op : Op}, op ∈ s.stack (.loop 0) →
      op ∈ ((s.setPhase l (.functors (ran ++ [f]) rest)).setStack (.loop l) [f.op]).stack
        (.loop 0) := mem_next_of_mem h.2
  refine ⟨hC.created, hC.events, ?_, fun len hop => ?_, fun t op hop hc => ?_,
    fun l' g hg hc => hC.waiting l' g (waiting_next h.1 hg) hc, fun m => ?_,
    fun hin => (hC.closing hin).imp hstays hstays,
    fun hindex => (hC.kept hindex).imp_right fun hd => ?_, fun op hop hc hh => ?_⟩
  · refine hC.quiet.imp_right (And.imp_right fun hnot hin => ?_)
    exact (InFlight.of_concerns hconcerns hR hin).elim hnot hC.quiet.ne_kConnected
  · rcases mem_next hop with ⟨-, heq⟩ | hop
    · cases f <;> cases heq
    · exact hC.unsent len hop
  · rcases mem_next hop with ⟨-, rfl⟩ | hop
    · exact hC.waiting l f (waiting_of_next h.1) hf
    · exact hC.stack t op hop hc
  · by_cases hl : 0 = l
    · subst hl
      simp [setStack, setPhase, Phase.active]
    · simpa [setStack, setPhase, Function.update_of_ne hl] using hC.inactive m
  · rcases hd with hg | hop | hop
    · by_cases hl : 0 = l
      · subst hl
        exact (waiting_or_mem_next h.1 hg).imp_right .inl
      · refine .inl ?_
        simpa [Server.waiting, setStack, setPhase, Function.update_of_ne hl] using hg
    · exact .inr (.inl (hstays hop))
    · exact .inr (.inr (hstays hop))
  · rcases mem_next hop with ⟨hl, rfl⟩ | hold
    · obtain rfl : 0 = l := Tid.loop.inj hl
      have hqueued : f.op.handling = false := hS.queued 0 f (waiting_of_next h.1)
      exact absurd (hh.symm.trans hqueued) (by decide)
    · exact hC.handled op hold hc hh

/-- The application calls `send` or `shutdown`. -/
lemma call (hC : Closed s c) {t : Tid} {op : Op}
    (hop : (∃ len, op = .send c len) ∨ op = .shutdown c) :
    Closed (s.setStack t (op :: s.stack t)) c := by
  have hclass : op.serving = true ∧ op.handling = false := by
    rcases hop with ⟨len, rfl⟩ | rfl <;> exact ⟨rfl, rfl⟩
  have hkept : Kept c s (s.setStack t (op :: s.stack t)) := kept_call hop
  refine ⟨hC.created, hC.events, (Quiet.of_kept hkept).mpr hC.quiet, fun len hbody => ?_,
    fun t' op' hop' hc => ?_, hC.waiting, hC.inactive, fun hin => ?_,
    fun hindex => (hC.kept hindex).imp_right fun hd => ?_, fun op' hop' hc hh => ?_⟩
  · exact hC.unsent len ((hkept.stack _ _ rfl rfl).mp hbody)
  · rcases mem_call hop' with rfl | hold
    · exact .inl hclass.1
    · exact hC.stack t' op' hold hc
  · exact (hC.closing hin).imp (hkept.stack _ _ rfl rfl).mpr (hkept.stack _ _ rfl rfl).mpr
  · exact hd.imp_right (Or.imp (hkept.stack _ _ rfl rfl).mpr (hkept.stack _ _ rfl rfl).mpr)
  · rcases mem_call hop' with rfl | hold
    · rw [hclass.2] at hh
      cases hh
    · exact hC.handled op' hold hc hh

section Exec

variable {t : Tid} {i : Input} {op : Op} {rest ops : List Op} {o : Objects}
  (hC : Closed s c) (hR : Registered cfg s) (hS : Shape cfg s) (hstack : s.stack t = op :: rest)
  (hready : s.Ready cfg op i) (hrun : Op.Runs cfg s.objects t i op o ops) (hop : op.conn? = some c)

include hC hstack hrun hop

/-- Nothing of the establishment is left. -/
lemma ending_executed : ∀ op' ∈ ops, op'.conn? = some c →
    op'.serving = true ∨ op'.ending = true := by
  intro op' hop'
  have hclass := hC.stack t op (hstack ▸ List.mem_cons_self) hop
  exact (hrun.follows hop').ending hclass hop hC.quiet.ne_kConnected

include hR hS

/-- The channel has no events; only its removal changes whether the poller knows it. -/
lemma channel_executed : (o.conn c).channel.events = Channel.kNoneEvent ∧
    ((o.conn c).channel.index ≠ kNew ↔
      op ≠ .channelRemove c ∧ (s.objects.conn c).channel.index ≠ kNew) := by
  have hmem : op ∈ s.stack t := hstack ▸ List.mem_cons_self
  have hclass := hC.stack t op hmem hop
  have hevents := hC.events
  have hchannel := hrun.channelChange hR.objects hC.created
  generalize (o.conn c).channel = ch at hchannel
  cases hchannel with
  | same h => exact ⟨hevents, fun hindex => ⟨h.2.2.2, hindex⟩, And.right⟩
  | enableReading => rcases hclass with h | h <;> cases h
  | destroyConnected => rcases hclass with h | h <;> cases h
  | handleClose =>
    have hbefore := hC.handled _ (hS.eq_base hmem rfl ▸ hmem) hop rfl
    exact ⟨rfl, fun _ => ⟨nofun, hbefore⟩, fun _ => EPOLLPoller.nextIndex_ne_kNew _ _⟩
  | channelRemove => exact ⟨hevents, fun hindex => absurd rfl hindex, fun h => absurd rfl h.1⟩
  | @enableWriteing len => exact absurd (hS.eq_base hmem rfl ▸ hmem) (hC.unsent len)
  | disableWriteing h =>
    rw [Channel.isWriting, hevents, EventMask.has_kNoneEvent] at h
    cases h

include hready

omit hS in
/-- No `send` gets through. -/
lemma quiet_executed (hok : s.Settled (.exec t i)) :
    (s.executed t op o (ops ++ rest)).Quiet c := by
  have hclass := hC.stack t op (hstack ▸ List.mem_cons_self) hop
  refine hC.quiet.executed hR hstack hready hrun hop ?_ ?_
  · rintro rfl
    rcases hclass with h | h <;> cases h
  · rintro rfl hdown
    exact hok c rest hstack hdown

/-- What the map and the poller have to do with the connection. -/
lemma kept_executed (hin : s.objects.InTable c ∨ s.Destroying c) (hne : op ≠ .channelRemove c) :
    o.InTable c ∨ (s.executed t op o (ops ++ rest)).Destroying c := by
  have hmem : op ∈ s.stack t := hstack ▸ List.mem_cons_self
  have hclass := hC.stack t op hmem hop
  have hcreated := hR.lt_of_ready hready
  rcases hin with hin | hwaiting | hdestroy | hremove
  · by_cases hremoving : op = .removeConnectionInLoop c
    · subst hremoving
      refine .inr (.inl (List.mem_append_left _ ?_))
      cases hrun with
      | removeConnectionInLoop halive =>
        have hloop : (s.objects.conn c).loop = 0 := hR.objects.loop c
        simp [executed, Objects.queueInLoop, hloop]
    · refine .inl ((Objects.inTable_iff_of_runs hrun hR.objects hcreated hC.created).mpr
        ⟨hin, hremoving, ?_⟩)
      rintro rfl
      rcases hclass with h | h <;> cases h
  · exact .inr (.inl (waiting_executed_of_mem hrun hwaiting))
  · by_cases hdestroying : op = .connectDestroyed c
    · subst hdestroying
      obtain rfl : t = .loop 0 := hS.eq_base hmem rfl
      cases hrun with
      | destroyOpen hconnected => exact absurd hconnected hC.quiet.ne_kConnected
      | destroyClosed hstate => exact .inr (.inr (.inr (mem_executed_self List.mem_cons_self)))
    · exact .inr (.inr (.inl (mem_executed_of_mem hstack hdestroy (Ne.symm hdestroying))))
  · exact .inr (.inr (.inr (mem_executed_of_mem hstack hremove (Ne.symm hne))))

/-- While the map has the connection, `removeConnectionInLoop` is under way. -/
lemma closing_executed (hin : o.InTable c) :
    .closeCallback c ∈ (s.executed t op o (ops ++ rest)).stack (.loop 0) ∨
      .removeConnectionInLoop c ∈ (s.executed t op o (ops ++ rest)).stack (.loop 0) := by
  have hmem : op ∈ s.stack t := hstack ▸ List.mem_cons_self
  have hcreated := hR.lt_of_ready hready
  obtain ⟨hbefore, hne, -⟩ :=
    (Objects.inTable_iff_of_runs hrun hR.objects hcreated hC.created).mp hin
  rcases hC.closing hbefore with hclose | hremove
  · by_cases hcallback : op = .closeCallback c
    · subst hcallback
      obtain rfl : t = .loop 0 := hS.eq_base hmem rfl
      cases hrun with
      | closeHere halive ht => exact .inr (mem_executed_self List.mem_cons_self)
      | closeThere halive ht => exact absurd rfl ht
    · exact .inl (mem_executed_of_mem hstack hclose (Ne.symm hcallback))
  · exact .inr (mem_executed_of_mem hstack hremove (Ne.symm hne))

/-- Every operation leaves a closed connection closed. -/
lemma exec (hok : s.Settled (.exec t i)) : Closed (s.executed t op o (ops ++ rest)) c := by
  have hmem : op ∈ s.stack t := hstack ▸ List.mem_cons_self
  have hclass := hC.stack t op hmem hop
  obtain ⟨hevents, hindex⟩ := channel_executed hC hR hS hstack hrun hop
  refine ⟨Nat.lt_of_lt_of_le hC.created hrun.effect.created_le, hevents,
    quiet_executed hC hR hstack hready hrun hop hok, fun len hbody => ?_,
    fun t' op' hop' hc => ?_, fun l f hf hc => ?_, hC.inactive,
    closing_executed hC hR hS hstack hready hrun hop, fun hne => ?_, fun op' hop' hc hh => ?_⟩
  · rcases mem_executed hstack hbody with ⟨-, hnew⟩ | ⟨hold, -⟩
    · cases hrun.follows hnew with
      | sendBody hstate =>
        rcases hC.quiet with h | ⟨-, h⟩
        · exact hstate h
        · exact h (.inr ⟨t, len, .inr hmem⟩)
    · exact hC.unsent len hold
  · rcases mem_executed hstack hop' with ⟨-, hnew⟩ | ⟨hold, -⟩
    · exact ending_executed hC hstack hrun hop op' hnew hc
    · exact hC.stack t' op' hold hc
  · rcases waiting_executed hR hrun hf with hold | hqueues
    · exact hC.waiting l f hold hc
    · exact hqueues.ending hclass
  · obtain ⟨hremove, hbefore⟩ := hindex.mp hne
    exact kept_executed hC hR hS hstack hready hrun hop (hC.kept hbefore) hremove
  · refine hindex.mpr ?_
    rcases mem_executed hstack hop' with ⟨ht, hnew⟩ | ⟨hold, -⟩
    · have hhandling := (hrun.follows hnew).handling hh
      refine ⟨?_, hC.handled op (ht ▸ hmem) hop hhandling⟩
      rintro rfl
      cases hhandling
    · refine ⟨?_, hC.handled op' hold hc hh⟩
      rintro rfl
      exact hS.not_handling (hS.eq_base hmem rfl ▸ hmem) rfl hold hh

end Exec

end Closed

/-! ### The invariant -/

/-- The step executes `handleClose` of connection `c`. -/
def Closes (s : Server) (a : Act) (c : ConnId) : Prop :=
  ∃ t i rest, a = .exec t i ∧ s.stack t = .handleClose c :: rest

section Steps

variable (hR : Registered cfg s) (hS : Shape cfg s) (hok : s.Settled a) (hstep : Step cfg s a s')

include hR hS hok hstep

omit hok in
/-- A connection that does not exist stays so or is accepted. -/
lemma Unborn.step (hcfg : cfg.numThreads = 0) (hU : Unborn s c) : Unborn s' c ∨ Early s' c := by
  refine (hU.step_or_creates hR hS hstep).imp_right ?_
  rintro ⟨hunseen, t, i, op, rest, o, ops, hstack, hrun, hnew, rfl⟩
  exact .of_creates hcfg hU hS hstack hrun hnew hunseen

/-- An accepted connection stays so or is announced. -/
lemma Early.step (hE : Early s c) : Early s' c ∨ Up s' c := by
  have hbusy : s.stack (.loop 0) ≠ [] := by
    intro hnil
    cases hE.progress with
    | establishing hop | enabling hop | announcing hop =>
      rw [hnil] at hop
      cases hop
  cases hstep.concerns hR c with
  | untouched h hnot =>
    have hunseen : s'.Unseen c := hE.unseen.step hR hstep fun t i op rest ha hstack hop =>
      absurd ⟨t, i, op, rest, ha, hstack, hop⟩ hnot
    exact .inl (hE.untouched h hunseen (hstep.inTable_iff hR hE.created hnot))
  | poll h hnodup hactive => exact absurd h.2 hbusy
  | dispatch h halive =>
    obtain rfl := hS.eq_zero_of_dispatching h.1
    exact absurd h.2 hbusy
  | next h hf => exact absurd hf (hE.waiting _ _ (waiting_of_next h.1))
  | exec hstack hready hrun hc =>
    have hop := hc.resolve_right fun hnew => hE.created.ne hnew.conn
    exact hE.exec hR hS hstack hready hrun hop hstep
  | call hframe hsees hop => exact absurd hsees (hE.unseen.not_sees hframe)
  | destroyServer halive h => cases hok

/-- A connection that is up stays so until `handleClose`. -/
lemma Up.step (hrhythm : Rhythm s) (hU : Up s c) (hclose : ¬ s.Closes a c) : Up s' c := by
  cases hstep.concerns hR c with
  | untouched h hnot => exact hU.untouched h (hstep.inTable_iff hR hU.created hnot)
  | poll h hnodup hactive => exact hU.poll h
  | dispatch h halive => exact hU.dispatch hS hrhythm h
  | next h hf => exact hU.next h hf
  | @exec t i op rest ops o hstack hready hrun hc =>
    have hop := hc.resolve_right fun hnew => hU.created.ne hnew.conn
    refine hU.exec hR hstack hready hrun hop ?_
    rintro rfl
    exact hclose ⟨t, i, rest, rfl, hstack⟩
  | call hframe hsees hop => exact hU.call hop
  | destroyServer halive h => cases hok

/-- A closed connection stays closed. -/
lemma Closed.step (hrhythm : Rhythm s) (hC : Closed s c) : Closed s' c := by
  cases hstep.concerns hR c with
  | untouched h hnot => exact hC.untouched h (hstep.inTable_iff hR hC.created hnot)
  | poll h hnodup hactive => exact hC.poll hR hrhythm h hactive
  | dispatch h halive => exact absurd (hS.mem_active h.1) (hC.inactive _)
  | next h hf => exact hC.next hR hS h hf
  | exec hstack hready hrun hc =>
    have hop := hc.resolve_right fun hnew => hC.created.ne hnew.conn
    exact hC.exec hR hS hstack hready hrun hop hok
  | call hframe hsees hop => exact hC.call hop
  | destroyServer halive h => cases hok

omit hok in
/-- `handleClose` closes a connection that is up. -/
lemma Up.step_of_closes (hU : Up s c) (hclose : s.Closes a c) : Closed s' c := by
  obtain ⟨t, i, rest, rfl, hstack⟩ := hclose
  cases hstep with
  | @exec t i op rest' o ops hstack' hready hrun =>
    obtain ⟨rfl, rfl⟩ := List.cons.inj (hstack'.symm.trans hstack)
    exact hU.close hR hS hstack' hready hrun rfl rfl

/-- Every step leaves every connection in a stage. -/
theorem Life.step (hcfg : cfg.numThreads = 0) (hrhythm : Rhythm s) (hL : Life s c) :
    Life s' c := by
  cases hL with
  | unborn hU => exact (hU.step hR hS hstep hcfg).elim .unborn .early
  | early hE => exact (hE.step hR hS hok hstep).elim .early .up
  | up hU =>
    by_cases hclose : s.Closes a c
    · exact .closed (hU.step_of_closes hR hS hstep hclose)
    · exact .up (hU.step hR hS hok hstep hrhythm hclose)
  | closed hC => exact .closed (hC.step hR hS hok hstep hrhythm)

end Steps

/-- In settled runs of a server without sub-loops every connection is in a stage. -/
theorem life_of_reach (hcfg : cfg.numThreads = 0) (h : (system cfg).ReachWhere Settled s) :
    ∀ c, Life s c := by
  refine h.invariant_of (I := fun s => ∀ c, Life s c)
    (J := fun s => Registered cfg s ∧ Shape cfg s ∧ Rhythm s)
    (fun s hs => ⟨registered_of_reach hs.reach, shape_of_reach hs.reach, rhythm_of_reach hs.reach⟩)
    ?_ ?_
  · rintro s rfl c
    exact .unborn (unborn_new cfg c)
  · rintro s a s' ⟨hR, hS, hrhythm⟩ - hL hok hs c
    exact (hL c).step hR hS hok (step_cases hs) hcfg hrhythm

end Server

end HzhMuduo
