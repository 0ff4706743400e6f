import HzhMuduo.Server.Alone
import HzhMuduo.Server.Connection

/-!
# A destroyed connection and the poller

`connectDestroyed` ends with the removal of the channel.  Nothing in the source keeps the
channel out of the poller afterwards: a `connectEstablished` that is still queued adds it again,
and so does a `sendInLoop` that is on its way when the state is `kDisconnecting`.  Where neither
can happen (`Orderly`), the channel stays out for good (`absent_of_removed`).
-/

namespace HzhMuduo

open MachineWord TcpConnection TransitionSystem

namespace Server

variable {cfg : Config} {s s' : Server} {a : Act} {c : ConnId}

/-- `connectDestroyed` of `c` has removed the channel, which is the end of it. -/
def Removed (s : Server) (c : ConnId) : Prop := ∃ e ∈ s.trace, e.op = .channelRemove c

/-- `connectEstablished` of `c` has still to put the channel into the poller. -/
def Establishing (s : Server) (c : ConnId) : Prop :=
  (∃ l, .connectEstablished c ∈ s.waiting l) ∨
    ∃ t, .connectEstablished c ∈ s.stack t ∨ .enableReading c ∈ s.stack t

/-- The discipline that the source does not enforce: when `connectDestroyed` removes the
channel, `connectEstablished` is over and no `send` will get through any more; and `shutdown`
does not overwrite the state of a removed connection while a `send` is on its way. -/
def Orderly (s : Server) : Act → Prop
  | .exec t _ => ∀ c rest,
      (s.stack t = .channelRemove c :: rest → ¬ s.Establishing c ∧ s.Quiet c) ∧
      (s.stack t = .setDisconnecting c :: rest → s.Removed c →
        (s.objects.conn c).state = .kDisconnected → ¬ s.InFlight c)
  | _ => True

/-- What holds of a connection whose channel was removed. -/
structure Gone (s : Server) (c : ConnId) : Prop where
  created : c < s.objects.created
  index : (s.objects.conn c).channel.index = kNew
  established : ¬ s.Establishing c
  quiet : s.Quiet c
  unsent : ∀ len, .sendBody c len ∉ s.stack (.loop 0)
  undone : .destroyConnected c ∉ s.stack (.loop 0)
  unhandled : ∀ op ∈ s.stack (.loop 0), op.handling = true → op.conn? ≠ some c
  inactive : ∀ m, (.conn c, m) ∉ (s.phase 0).active

lemma Establishing.of_kept (h : Kept c s s') : s'.Establishing c ↔ s.Establishing c := by
  refine or_congr (exists_congr fun l => h.waiting l _ rfl) (exists_congr fun t => ?_)
  exact or_congr (h.stack t _ rfl rfl) (h.stack t _ rfl rfl)

lemma Removed.of_kept (h : Kept c s s') : s'.Removed c ↔ s.Removed c := by
  refine h.exists_trace fun e hop => ?_
  rw [hop]
  rfl

lemma removed_executed {t : Tid} {op : Op} {ops : List Op} {o : Objects} :
    (s.executed t op o ops).Removed c ↔ s.Removed c ∨ op = .channelRemove c :=
  exists_trace_executed

/-! ### Operations on the connection -/

section Exec

variable {t : Tid} {i : Input} {op : Op} {rest ops : List Op} {o : Objects}

/-- The establishment of an existing connection is only outstanding if it was before. -/
lemma establishing_of_executed (hR : Registered cfg s) (hstack : s.stack t = op :: rest)
    (hrun : Op.Runs cfg s.objects t i op o ops) (hc : c < s.objects.created)
    (h : (s.executed t op o (ops ++ rest)).Establishing c) : s.Establishing c := by
  rcases h with ⟨l, hg⟩ | ⟨t', hop | hop⟩
  · rcases waiting_executed hR hrun hg with hg | hqueues
    · exact .inl ⟨l, hg⟩
    · cases op with
      | accept =>
        obtain rfl := Functor.connectEstablished.inj hqueues
        exact absurd hc (Nat.lt_irrefl _)
      | sendBody | handleWrite => rcases hqueues with heq | ⟨n, heq⟩ <;> cases heq
      | _ => cases hqueues
  · rcases mem_executed hstack hop with ⟨-, hop⟩ | ⟨hop, -⟩
    · cases hrun.follows hop with
      | establish => exact absurd hc (Nat.lt_irrefl _)
    · exact .inr ⟨t', .inl hop⟩
  · rcases mem_executed hstack hop with ⟨-, hop⟩ | ⟨hop, -⟩
    · cases hrun.follows hop with
      | enableReading => exact .inr ⟨t, .inl (hstack ▸ List.mem_cons_self)⟩
    · exact .inr ⟨t', .inr hop⟩

variable (hR : Registered cfg s) (hS : Shape cfg s) (hstack : s.stack t = op :: rest)
  (hready : s.Ready cfg op i) (hrun : Op.Runs cfg s.objects t i op o ops)

include hR hS hstack hready hrun

/-- The removal of the channel, if nothing about the connection is outstanding. -/
lemma gone_of_channelRemove (hop : op = .channelRemove c) (hest : ¬ s.Establishing c)
    (hquiet : s.Quiet c) : Gone (s.executed t op o (ops ++ rest)) c := by
  subst hop
  have hc : c < s.objects.created := hR.lt_of_ready hready c rfl
  have hmem : .channelRemove c ∈ s.stack t := hstack ▸ List.mem_cons_self
  have hconcerns : Concerns cfg s c (.exec t i) (s.executed t (.channelRemove c) o (ops ++ rest)) :=
    .exec hstack hready hrun (.inl rfl)
  obtain rfl : t = .loop 0 := hS.eq_base hmem rfl
  -- nothing follows, and what is below the removal on the stack can wait
  have hbelow : ∀ op', op' ∈ (s.executed (.loop 0) (.channelRemove c) o (ops ++ rest)).stack
      (.loop 0) → op' ∈ s.stack (.loop 0) ∧ op'.waits = true := by
    intro op' hop'
    rcases mem_executed hstack hop' with ⟨-, hnew⟩ | ⟨hold, hrest⟩
    · cases hrun.follows hnew
    · exact ⟨hold, hS.top _ _ _ hstack op' (hrest rfl)⟩
  refine ⟨Nat.lt_of_lt_of_le hc hrun.effect.created_le, ?_,
    fun h => hest (establishing_of_executed hR hstack hrun hc h), ?_, fun len hmem' => ?_,
    fun hmem' => ?_, fun op' hmem' hh => ?_, fun m => hS.not_active hmem rfl⟩
  · have hchannel := hrun.channelChange hR.objects hc
    show (o.conn c).channel.index = kNew
    generalize (o.conn c).channel = ch at hchannel
    cases hchannel with
    | same h => exact absurd rfl h.2.2.2
    | channelRemove => rfl
  · have hstate : (o.conn c).state = (s.objects.conn c).state := by
      have hchange := hrun.stateChange hc
      generalize (o.conn c).state = state at hchange
      cases hchange with
      | same h => rfl
    refine (Or.imp_right (And.imp_right fun hnot hin => ?_) hquiet).imp hstate.trans
      (And.imp_left hstate.trans)
    exact (InFlight.of_concerns hconcerns hR hin).elim hnot hquiet.ne_kConnected
  · cases (hbelow _ hmem').2
  · cases (hbelow _ hmem').2
  · exact absurd hh (hS.not_handling hmem rfl (hbelow _ hmem').1)

end Exec

namespace Gone

/-- Steps that only start something, if they start no handler of the connection. -/
lemma kept (hG : Gone s c) (h : Kept c s s')
    (hunhandled : ∀ op ∈ s'.stack (.loop 0), op.handling = true → op.conn? ≠ some c)
    (hinactive : ∀ m, (.conn c, m) ∉ (s'.phase 0).active) : Gone s' c := by
  refine ⟨h.created.mpr hG.created, ?_, ?_, (Quiet.of_kept h).mpr hG.quiet, fun len => ?_, ?_,
    hunhandled, hinactive⟩
  · rw [h.channel]
    exact hG.index
  · rw [Establishing.of_kept h]
    exact hG.established
  · rw [h.stack _ _ rfl rfl]
    exact hG.unsent len
  · rw [h.stack _ _ rfl rfl]
    exact hG.undone

/-- The call of a functor of `c`. -/
lemma next (hG : Gone s c) (hR : Registered cfg s) (hS : Shape cfg s) {l : LoopId}
    {ran rest : List Functor} {f : Functor} (h : s.AtPhase l (.functors ran (f :: rest)))
    (hf : f.conn? = some c) :
    Gone ((s.setPhase l (.functors (ran ++ [f]) rest)).setStack (.loop l) [f.op]) c := by
  have hconcerns : Concerns cfg s c (.next l) _ := .next h hf
  refine ⟨hG.created, hG.index, fun hest => hG.established ?_, ?_, fun len hop => ?_, fun hop => ?_,
    fun op hop hh => ?_, fun m => ?_⟩
  · rcases hest with ⟨l', hg⟩ | ⟨t, hop | hop⟩
    · exact .inl ⟨l', waiting_next h.1 hg⟩
    · rcases mem_next hop with ⟨-, heq⟩ | hop
      · obtain rfl : f = .connectEstablished c := by
          cases f <;> cases heq
          rfl
        exact .inl ⟨l, waiting_of_next h.1⟩
      · exact .inr ⟨t, .inl hop⟩
    · rcases mem_next hop with ⟨-, heq⟩ | hop
      · cases f <;> cases heq
      · exact .inr ⟨t, .inr hop⟩
  · refine hG.quiet.imp_right (And.imp_right fun hnot hin => ?_)
    exact (InFlight.of_concerns hconcerns hR hin).elim hnot hG.quiet.ne_kConnected
  · rcases mem_next hop with ⟨-, heq⟩ | hop
    · cases f <;> cases heq
    · exact hG.unsent len hop
  · rcases mem_next hop with ⟨-, heq⟩ | hop
    · cases f <;> cases heq
    · exact hG.undone hop
  · rcases mem_next hop with ⟨hl, rfl⟩ | hop
    · obtain rfl : 0 = l := Tid.loop.inj hl
      have hqueued : f.op.handling = false := hS.queued 0 f (waiting_of_next h.1)
      exact absurd (hh.symm.trans hqueued) (by decide)
    · exact hG.unhandled op hop hh
  · by_cases hl : 0 = l
    · subst hl
      simp [setStack, setPhase, Phase.active]
    · simpa [setStack, setPhase, Function.update_of_ne hl] using hG.inactive m

section Exec

variable {t : Tid} {i : Input} {op : Op} {rest ops : List Op} {o : Objects}
  (hG : Gone s c) (hR : Registered cfg s) (hS : Shape cfg s) (hstack : s.stack t = op :: rest)
  (hready : s.Ready cfg op i) (hrun : Op.Runs cfg s.objects t i op o ops) (hop : op.conn? = some c)

include hG hS hstack hop

/-- No operation is left that could bring the channel back. -/
lemma not_reviving : op ≠ .enableReading c ∧ op ≠ .connectEstablished c ∧
    op ≠ .destroyConnected c ∧ op.handling = false ∧ ∀ len, op ≠ .sendBody c len := by
  have hmem : op ∈ s.stack t := hstack ▸ List.mem_cons_self
  have hbase : op.onSubLoop = false → op ∈ s.stack (.loop 0) := fun h => hS.eq_base hmem h ▸ hmem
  refine ⟨fun heq => ?_, fun heq => ?_, fun heq => ?_, ?_, fun len heq => ?_⟩
  · exact hG.established (.inr ⟨t, .inr (heq ▸ hmem)⟩)
  · exact hG.established (.inr ⟨t, .inl (heq ▸ hmem)⟩)
  · exact hG.undone (heq ▸ hbase (by rw [heq]; rfl))
  · by_contra hh
    have hh : op.handling = true := by simpa using hh
    exact hG.unhandled op (hbase (by cases op <;> first | rfl | cases hh)) hh hop
  · exact hG.unsent len (heq ▸ hbase (by rw [heq]; rfl))

include hR hready hrun

/-- The channel stays new. -/
lemma index_executed : (o.conn c).channel.index = kNew := by
  have hchannel := hrun.channelChange hR.objects hG.created
  obtain ⟨hnoEnable, -, hnoDestroy, hnoHandler, hnoBody⟩ := not_reviving hG hS hstack hop
  generalize (o.conn c).channel = ch at hchannel
  cases hchannel with
  | same h => exact hG.index
  | enableReading => exact absurd rfl hnoEnable
  | destroyConnected => exact absurd rfl hnoDestroy
  | handleClose => cases hnoHandler
  | channelRemove => rfl
  | enableWriteing => exact absurd rfl (hnoBody _)
  | disableWriteing h => cases hnoHandler

/-- No `send` gets through. -/
lemma quiet_executed (hok : s.Orderly (.exec t i)) (hr : s.Removed c) :
    (s.executed t op o (ops ++ rest)).Quiet c := by
  obtain ⟨-, hnoEstablish, -, -, -⟩ := not_reviving hG hS hstack hop
  refine hG.quiet.executed hR hstack hready hrun hop hnoEstablish ?_
  rintro rfl hdown
  exact (hok c rest).2 hstack hr hdown

/-- Every operation of the connection. -/
lemma exec (hok : s.Orderly (.exec t i)) (hr : s.Removed c) :
    Gone (s.executed t op o (ops ++ rest)) c := by
  have hmem : op ∈ s.stack t := hstack ▸ List.mem_cons_self
  refine ⟨Nat.lt_of_lt_of_le hG.created hrun.effect.created_le,
    index_executed hG hR hS hstack hready hrun hop,
    fun hest => hG.established (establishing_of_executed hR hstack hrun hG.created hest),
    quiet_executed hG hR hS hstack hready hrun hop hok hr, fun len hbody => ?_, fun hdc => ?_,
    fun op' hmem' hh => ?_, hG.inactive⟩
  · rcases mem_executed hstack hbody with ⟨-, hnew⟩ | ⟨hold, -⟩
    · cases hrun.follows hnew with
      | sendBody hstate =>
        rcases hG.quiet with h | ⟨-, h⟩
        · exact hstate h
        · exact h (.inr ⟨t, len, .inr hmem⟩)
    · exact hG.unsent len hold
  · rcases mem_executed hstack hdc with ⟨-, hnew⟩ | ⟨hold, -⟩
    · cases hrun.follows hnew with
      | destroyConnected hstate => exact hG.quiet.ne_kConnected hstate
    · exact hG.undone hold
  · rcases mem_executed hstack hmem' with ⟨-, hnew⟩ | ⟨hold, -⟩
    · have hhandling := (hrun.follows hnew).handling hh
      rw [(not_reviving hG hS hstack hop).2.2.2.1] at hhandling
      cases hhandling
    · exact hG.unhandled op' hold hh

end Exec

/-- Every step of an orderly run keeps the channel out. -/
theorem step (hG : Gone s c) (hR : Registered cfg s) (hS : Shape cfg s) (hok : s.Orderly a)
    (hr : s.Removed c) (hstep : Step cfg s a s') : Gone s' c := by
  cases hstep.concerns hR c with
  | untouched h hnot =>
    refine hG.kept h.kept (fun op hop hh hc => ?_) fun m hm => hG.inactive m ((h.active m).mp hm)
    exact hG.unhandled op ((h.stack _ op hc).mp hop) hh hc
  | poll h hnodup hactive =>
    exact hG.kept (kept_poll h) hG.unhandled (hR.not_mem_active hG.index hactive)
  | dispatch h halive => exact absurd (hS.mem_active h.1) (hG.inactive _)
  | next h hf => exact hG.next hR hS h hf
  | exec hstack hready hrun hc =>
    rcases hc with hop | hnew
    · exact hG.exec hR hS hstack hready hrun hop hok hr
    · exact absurd hnew.conn hG.created.ne
  | @call t a op cs buffer hframe hsees hop =>
    refine hG.kept (kept_call hop) (fun op' hop' hh => ?_) hG.inactive
    rcases mem_setStack hop' with ⟨rfl, hnew⟩ | hold
    · rcases List.mem_cons.mp hnew with rfl | hold
      · rcases hop with ⟨len, rfl⟩ | rfl <;> cases hh
      · exact hG.unhandled op' hold hh
    · exact hG.unhandled op' hold hh
  | @destroyServer order halive h =>
    refine hG.kept (kept_destroyServer h) (fun op hop hh => ?_) hG.inactive
    have hstack : op ∈ (s.setStack (.loop 0)
        (order.map Op.destroyItem ++ [.removeAcceptor])).stack (.loop 0) := hop
    rcases mem_setStack hstack with ⟨-, hnew⟩ | hold
    · obtain ⟨c', -, rfl⟩ | rfl := mem_destroyServer hnew
      · cases hh
      · cases hh
    · exact hG.unhandled op hold hh

end Gone

/-- In orderly runs a removed connection is gone. -/
theorem gone_of_removed (h : (system cfg).ReachWhere Orderly s) : ∀ c, s.Removed c → Gone s c := by
  refine h.invariant_of (I := fun s => ∀ c, s.Removed c → Gone s c)
    (J := fun s => Registered cfg s ∧ Shape cfg s)
    (fun s hs => ⟨registered_of_reach hs.reach, shape_of_reach hs.reach⟩) ?_ ?_
  · rintro s rfl c ⟨e, he, -⟩
    cases he
  · rintro s a s' ⟨hR, hS⟩ - hI hok hs c hr
    have hstep := step_cases hs
    by_cases hbefore : s.Removed c
    · exact (hI c hbefore).step hR hS hok hbefore hstep
    · cases hstep.concerns hR c with
      | untouched h hnot => exact absurd ((Removed.of_kept h.kept).mp hr) hbefore
      | @exec t i op rest ops o hstack hready hrun hc =>
        obtain rfl : op = .channelRemove c := (removed_executed.mp hr).resolve_left hbefore
        obtain ⟨hest, hquiet⟩ := (hok c rest).1 hstack
        exact gone_of_channelRemove hR hS hstack hready hrun rfl hest hquiet
      | _ => exact absurd hr hbefore

/-- Connection `c` is in no `channels_` and in no interest set. -/
def Absent (s : Server) (c : ConnId) : Prop :=
  ∀ l fd, (s.objects.poller l).channels fd ≠ some (.conn c) ∧
    ∀ events, (s.objects.poller l).epoll fd ≠ some (events, .conn c)

/-- In orderly runs a connection whose `connectDestroyed` has been executed is in no poller,
however the run went on. -/
theorem absent_of_removed (h : (system cfg).ReachWhere Orderly s) (hc : s.Removed c) :
    s.Absent c := by
  intro l fd
  have hindex := (gone_of_removed h c hc).index
  have hW := (registered_of_reach h.reach).objects
  by_cases hl : l = 0
  · subst hl
    refine ⟨fun hentry => (hW.sound.channels _ _ hentry).2 hindex, fun events hentry => ?_⟩
    have hadded := (hW.sound.epoll _ _ _ hentry).2
    rw [show (s.objects.chan (.conn c)).index = kNew from hindex] at hadded
    exact absurd hadded (by decide)
  · rw [hW.subPoller l hl]
    exact ⟨nofun, nofun⟩

/-- What a run of the base loop alone has to heed: when a channel is removed, the connection is
down and nothing is left to establish. -/
def tidy (s : Server) : Op → Bool
  | .channelRemove c =>
    decide (.connectEstablished c ∉ s.waiting 0 ∧ (s.objects.conn c).state = .kDisconnected)
  | .setDisconnecting _ => false
  | _ => true

/-- Steps of the base loop that are tidy. -/
def Tidy (s : Server) (a : Act) : Prop :=
  a.tid = .loop 0 ∧ (s.stack (.loop 0)).head?.all s.tidy = true

instance (s : Server) (a : Act) : Decidable (s.Tidy a) := inferInstanceAs (Decidable (_ ∧ _))

/-- Tidy steps are orderly. -/
lemma orderly_of_tidy (halone : s.Alone) (hS : Shape cfg s) (h : s.Tidy a) : s.Orderly a := by
  obtain ⟨htid, htidy⟩ := h
  cases a with
  | exec t i =>
    obtain rfl : t = .loop 0 := htid
    intro c rest
    refine ⟨fun hstack => ?_, fun hstack => ?_⟩
    · rw [hstack] at htidy
      obtain ⟨hwaiting, hstate⟩ := of_decide_eq_true (p := _ ∧ _) htidy
      refine ⟨?_, .inl hstate⟩
      rintro (⟨l, hg⟩ | ⟨t, hop⟩)
      · by_cases hl : l = 0
        · exact hwaiting (hl ▸ hg)
        · rw [halone.waiting l hl] at hg
          cases hg
      · by_cases ht : t = .loop 0
        · subst ht
          rcases hop with hop | hop
          · exact nomatch hS.eq_head hstack hop rfl
          · exact nomatch hS.eq_head hstack hop rfl
        · rw [halone.stack t ht] at hop
          exact hop.elim List.not_mem_nil List.not_mem_nil
    · rw [hstack] at htidy
      cases htidy
  | _ => trivial

theorem absent_of_removed_closedRun :
    ∃ s, (system (exampleConfig 0 false)).ReachWhere Orderly s ∧ s.Removed 0 ∧ s.Absent 0 := by
  obtain ⟨s, hs, htrace⟩ := exists_reach_of_run
    (M := (system (exampleConfig 0 false)).restrict Tidy) (s := new (exampleConfig 0 false))
    (v := some ⟨.loop 0, .channelRemove 0, .kDisconnected⟩) closedRun (fun s => s.trace.getLast?)
    rfl (by decide +kernel)
  have hreach : (system (exampleConfig 0 false)).ReachWhere Orderly s := by
    refine (Reach.of_restrict hs).mono_of (J := fun s => s.Alone ∧ Shape (exampleConfig 0 false) s)
      (fun s hs => ⟨alone_of_reach rfl (hs.mono fun _ _ h => h.1), shape_of_reach hs.reach⟩)
      fun s a hJ h => orderly_of_tidy hJ.1 hJ.2 h
  have hremoved : s.Removed 0 := ⟨_, List.mem_of_getLast? htrace, rfl⟩
  exact ⟨s, hreach, hremoved, absent_of_removed hreach hremoved⟩

/-- The server is destroyed while `connectEstablished` waits in loop 1. -/
def lateEstablishedRun : List Act :=
  [.enter 0, .poll 0 [(3, EPOLLIN)], .dispatch 0, .exec (.loop 0) (.accept (some 4)), .swap 0,
    .release 0, .leave 0, .destroyServer [0], .exec (.loop 0) .none, .exec (.loop 0) .none,
    .exec (.loop 0) .none, .exec (.loop 0) .none, .exec (.loop 0) .none,
    .enter 1, .poll 1 [], .swap 1, .next 1, .exec (.loop 1) .none, .exec (.loop 1) .none,
    .exec (.loop 1) .none, .user (.loop 1) (.copy 0 (.user 0))]

/-- The server is destroyed when one thread has half closed the connection and another one is
inside `send`; the base loop runs once more and the kernel takes nothing. -/
def lateSendRun : List Act :=
  [.enter 0, .poll 0 [(3, EPOLLIN)], .dispatch 0,
    .exec (.loop 0) (.accept (some 4)), .exec (.loop 0) .none, .exec (.loop 0) .none,
    .exec (.loop 0) .none, .user (.loop 0) (.copy 0 (.user 0)), .user (.loop 0) (.copy 0 (.user 1)),
    .user (.loop 0) .ret, .exec (.loop 0) .none, .exec (.loop 0) .none, .swap 0, .release 0,
    .leave 0, .user (.user 0) (.send 0 1), .exec (.user 0) .none,
    .user (.user 1) (.shutdown 0), .exec (.user 1) .none, .exec (.user 1) .none,
    .destroyServer [0], .exec (.loop 0) .none, .exec (.loop 0) .none, .exec (.loop 0) .none,
    .exec (.loop 0) .none, .exec (.loop 0) .none, .exec (.user 0) .none,
    .enter 0, .poll 0 [], .swap 0, .next 0, .exec (.loop 0) .none,
    .exec (.loop 0) (.write (.ofString [65]) (.failed EWOULDBLOCK EWOULDBLOCK))]

/-- Whether connection 0 was removed, whether a thread of the application holds a pointer to it,
and whose channel is stored for its descriptor. -/
def observed (s : Server) : Bool × Bool × Option ChannelId :=
  (s.trace.any (·.op = .channelRemove 0), s.held.contains (.user 0, 0),
    (s.objects.poller 0).channels 4)

lemma present_of_observed (h : s.observed = (true, true, some (.conn 0))) :
    s.Removed 0 ∧ (.user 0, 0) ∈ s.held ∧ (s.objects.poller 0).channels 4 = some (.conn 0) := by
  obtain ⟨htrace, hrest⟩ := Prod.mk.inj h
  obtain ⟨hheld, hentry⟩ := Prod.mk.inj hrest
  obtain ⟨e, he, hop⟩ := List.any_eq_true.mp htrace
  exact ⟨⟨e, he, of_decide_eq_true hop⟩, List.contains_iff_mem.mp hheld, hentry⟩

/-- A connection whose `connectDestroyed` was executed, and to which a thread of the application
holds a pointer, is put into the poller by a `connectEstablished` that was still queued, or by a
`sendInLoop` that was queued afterwards. -/
theorem exists_present_of_removed :
    (∃ s, (system (exampleConfig 1 false)).Reach s ∧ s.Removed 0 ∧ (.user 0, 0) ∈ s.held ∧
      (s.objects.poller 0).channels 4 = some (.conn 0)) ∧
    ∃ s, (system (exampleConfig 0 false)).Reach s ∧ s.Removed 0 ∧ (.user 0, 0) ∈ s.held ∧
      (s.objects.poller 0).channels 4 = some (.conn 0) := by
  constructor
  · obtain ⟨s, hs, hobserved⟩ := exists_reach_of_run (M := system (exampleConfig 1 false))
      (s := new (exampleConfig 1 false)) (v := (true, true, some (.conn 0))) lateEstablishedRun
      observed rfl (by decide +kernel)
    exact ⟨s, hs, present_of_observed hobserved⟩
  · obtain ⟨s, hs, hobserved⟩ := exists_reach_of_run (M := system (exampleConfig 0 false))
      (s := new (exampleConfig 0 false)) (v := (true, true, some (.conn 0))) lateSendRun
      observed rfl (by decide +kernel)
    exact ⟨s, hs, present_of_observed hobserved⟩

end Server

end HzhMuduo
