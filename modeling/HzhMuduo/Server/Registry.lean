import HzhMuduo.Server.Alone
import HzhMuduo.Server.Lifecycle

/-!
# The registry of a single-threaded server

A server without sub-loops whose application works in the callbacks and functors of the loop
only, and which is not destroyed (`Ordinary`).  Whenever its loop is about to call `poll`, the
map, the states and the poller say the same about every connection, and at every moment what the
poller has stored or reported belongs to a connection that something holds
(`registryAgrees_of_reach`).
-/

namespace HzhMuduo

open MachineWord TcpConnection TransitionSystem

namespace Server

/-- The step destroys the server. -/
def Act.destroys : Act → Bool
  | .destroyServer _ => true
  | _ => false

/-- A step of the base loop, but not the destruction of the server. -/
def Ordinary (_ : Server) (a : Act) : Prop := a.tid = .loop 0 ∧ a.destroys = false

instance (s : Server) (a : Act) : Decidable (s.Ordinary a) := inferInstanceAs (Decidable (_ ∧ _))

variable {cfg : Config} {s s' : Server} {a : Act} {c : ConnId}

/-! ### The base loop is not interrupted -/

/-- The load and the store of `state_` in `shutdown` are not separated. -/
def Uninterrupted (s : Server) : Prop :=
  ∀ c rest, s.stack (.loop 0) = .setDisconnecting c :: rest →
    (s.objects.conn c).state = .kConnected

lemma Uninterrupted.step (hS : Shape cfg s) (hstep : Step cfg s a s') (ha : a.tid = .loop 0) :
    Uninterrupted s' := by
  intro c rest hstack'
  -- below the top of a stack there is no store that was begun
  have htop : ∀ op below, s.stack (.loop 0) = op :: below → .setDisconnecting c ∉ below := by
    intro op below hstack hmem
    cases hS.top _ _ _ hstack _ hmem
  have hempty : ∀ l p, s.AtPhase l p → Tid.loop l = .loop 0 →
      s.stack (.loop 0) = .setDisconnecting c :: rest → False := by
    intro l p h hl hcons
    rw [← hl, h.2] at hcons
    cases hcons
  have hframe : ∀ {t x}, s.frame t = some x → t = .loop 0 →
      s.stack (.loop 0) = .setDisconnecting c :: rest → False := by
    rintro t x hframe rfl hcons
    simp [frame, hcons] at hframe
  cases hstep with
  | enter hl h => exact (hempty _ _ h ha hstack').elim
  | leave h => exact (hempty _ _ h ha hstack').elim
  | poll h hnodup hactive => exact (hempty _ _ h ha hstack').elim
  | swap h => exact (hempty _ _ h ha hstack').elim
  | release h => exact (hempty _ _ h ha hstack').elim
  | dispatch h halive =>
    obtain rfl := Tid.loop.inj ha
    simp only [setStack, Function.update_self] at hstack'
    have hmem : .setDisconnecting c ∈ handleEvent _ := hstack' ▸ List.mem_cons_self
    exact absurd hmem (not_mem_handleEvent rfl)
  | @next l ran f rest' h =>
    obtain rfl := Tid.loop.inj ha
    simp only [setStack, Function.update_self] at hstack'
    obtain ⟨heq, -⟩ := List.cons.inj hstack'
    cases f <;> cases heq
  | @exec t i op below o ops hstack hready hrun =>
    obtain rfl : t = .loop 0 := ha
    simp only [executed, setStack, Function.update_self] at hstack'
    have hmem : .setDisconnecting c ∈ ops ++ below := hstack' ▸ List.mem_cons_self
    rcases List.mem_append.mp hmem with hnew | hold
    · cases hrun.follows hnew with
      | setDisconnecting hconnected =>
        cases hrun with
        | shutdownNot hnot => exact absurd hconnected hnot
        | shutdown => exact hconnected
    · exact absurd hold (htop op below hstack)
  | send hframe' hsees =>
    obtain rfl := ha
    simp [setStack] at hstack'
  | shutdown hframe' hsees =>
    obtain rfl := ha
    simp [setStack] at hstack'
  | copy hframe' hsees halive => exact (hframe hframe' ha hstack').elim
  | drop hframe' hheld => exact (hframe hframe' ha hstack').elim
  | queueInLoop hframe' hl hsees => exact (hframe hframe' ha hstack').elim
  | setHighWaterMark hframe' hsees halive => exact (hframe hframe' ha hstack').elim
  | retrieve hframe' halive => exact (hframe hframe' ha hstack').elim
  | ret hstack =>
    obtain rfl := ha
    simp only [setStack, Function.update_self] at hstack'
    refine absurd ?_ (htop _ _ hstack)
    rw [hstack']
    exact List.mem_cons_self
  | @destroyServer order halive h horder =>
    simp only [setStack, Function.update_self] at hstack'
    obtain ⟨c', -, heq⟩ | heq := mem_destroyServer (hstack' ▸ List.mem_cons_self)
    · cases heq
    · cases heq

lemma uninterrupted_of_reach (h : (system cfg).ReachWhere Ordinary s) : Uninterrupted s := by
  refine h.invariant_of (J := Shape cfg) (fun s hs => shape_of_reach hs.reach) ?_
    fun s a s' hS _ _ ha hs => Uninterrupted.step hS (step_cases hs) ha.1
  rintro s rfl c rest hstack
  cases hstack

/-- Ordinary steps are settled. -/
lemma Uninterrupted.settled (hU : Uninterrupted s) (ha : s.Ordinary a) : s.Settled a := by
  obtain ⟨htid, hdestroys⟩ := ha
  cases a with
  | exec t i =>
    intro c rest hstack hdown
    rw [show t = .loop 0 from htid] at hstack
    have hconnected := hU c rest hstack
    rw [hdown] at hconnected
    cases hconnected
  | destroyServer order => cases hdestroys
  | _ => trivial

lemma settled_of_ordinary (h : (system cfg).ReachWhere Ordinary s) :
    (system cfg).ReachWhere Settled s :=
  h.mono_of (fun _ hs => uninterrupted_of_reach hs) fun _ _ hU ha => hU.settled ha

/-- What holds besides in the runs of the base loop alone. -/
structure Sequential (s : Server) : Prop where
  serverAlive : s.objects.serverAlive = true
  /-- A half-closed connection is still read from. -/
  reading : ∀ c, (s.objects.conn c).state = .kDisconnecting →
    (s.objects.conn c).channel.isReading = true
  /-- `connectDestroyed` is run from the batch, which holds a pointer. -/
  backed : ∀ c, .connectDestroyed c ∈ s.stack (.loop 0) ∨ .channelRemove c ∈ s.stack (.loop 0) →
    .connectDestroyed c ∈ (s.phase 0).batch

namespace Sequential

lemma serverAlive_step (hI : Sequential s) (hstep : Step cfg s a s') (ha : s.Ordinary a) :
    s'.objects.serverAlive = true := by
  cases hstep with
  | exec hstack hready hrun => exact hrun.effect.serverAlive_eq.trans hI.serverAlive
  | destroyServer halive h horder => cases ha.2
  | _ => exact hI.serverAlive

/-- Operations of the connection keep a half-closed channel reading. -/
lemma reading_executed (hI : Sequential s) (hU : Uninterrupted s) (hL : Life s c)
    (hR : Registered cfg s) {i : Input} {op : Op} {rest ops : List Op} {o : Objects}
    (hstack : s.stack (.loop 0) = op :: rest) (hrun : Op.Runs cfg s.objects (.loop 0) i op o ops)
    (hc : c < s.objects.created) (hdisconnecting : (o.conn c).state = .kDisconnecting) :
    (o.conn c).channel.isReading = true := by
  have hstate := hrun.stateChange hc
  have hchannel := hrun.channelChange hR.objects hc
  have hbefore : (s.objects.conn c).channel.isReading = true := by
    by_cases hop : op = .setDisconnecting c
    · subst hop
      have hmem : .setDisconnecting c ∈ s.stack (.loop 0) := hstack ▸ List.mem_cons_self
      have hconnected := hU c rest hstack
      cases hL with
      | unborn h => exact absurd rfl (h.stack _ _ hmem)
      | early h => cases (h.stack _ _ hmem rfl).2
      | up h => exact h.reading
      | closed h => exact absurd hconnected h.quiet.ne_kConnected
    · rw [hdisconnecting] at hstate
      generalize hold : (s.objects.conn c).state = state at hstate
      cases hstate with
      | same h => exact hI.reading c hold
      | setDisconnecting => exact absurd rfl hop
  have hkept : op ≠ .destroyConnected c ∧ op ≠ .handleClose c := by
    rw [hdisconnecting] at hstate
    generalize (s.objects.conn c).state = state at hstate
    cases hstate with
    | same h => exact ⟨h.2.1, h.2.2.1⟩
    | setDisconnecting => exact ⟨nofun, nofun⟩
  generalize (o.conn c).channel = ch at hchannel
  cases hchannel with
  | same h => exact hbefore
  | enableReading => exact EventMask.has_or_kReadEvent _
  | destroyConnected => exact absurd rfl hkept.1
  | handleClose => exact absurd rfl hkept.2
  | channelRemove => exact hbefore
  | enableWriteing => exact (EventMask.has_kReadEvent_or_kWriteEvent _).trans hbefore
  | disableWriteing h => exact (EventMask.has_kReadEvent_and_not_kWriteEvent _).trans hbefore

lemma reading_step (hI : Sequential s) (hU : Uninterrupted s) (hL : Life s c)
    (hR : Registered cfg s) (hstep : Step cfg s a s') (ha : s.Ordinary a)
    (hdisconnecting : (s'.objects.conn c).state = .kDisconnecting) :
    (s'.objects.conn c).channel.isReading = true := by
  cases hstep.concerns hR c with
  | untouched h hnot =>
    rw [h.channel]
    exact hI.reading c (h.state ▸ hdisconnecting)
  | @exec t i op rest ops o hstack hready hrun hc =>
    obtain rfl : t = .loop 0 := ha.1
    rcases hc with hop | hnew
    · have hcreated := hR.lt_of_ready hready c hop
      exact hI.reading_executed hU hL hR hstack hrun hcreated hdisconnecting
    · obtain ⟨fd, hconn⟩ := hnew.conn_eq hrun
      have hconnecting : (o.conn c).state = .kConnecting := congrArg _ hconn
      exact absurd (hconnecting.symm.trans hdisconnecting) nofun
  | _ => exact hI.reading c hdisconnecting

/-- A connection is never destroyed while it is connected. -/
lemma not_destroyConnected (hL : Life s c) (t : Tid) : .destroyConnected c ∉ s.stack t := by
  intro hop
  cases hL with
  | unborn h => exact h.stack t _ hop rfl
  | early h => cases (h.stack t _ hop rfl).2
  | up h => cases h.stack t _ hop rfl
  | closed h => rcases h.stack t _ hop rfl with h | h <;> cases h

lemma backed_step (hI : Sequential s) (hL : Life s c) (hS : Shape cfg s) (hstep : Step cfg s a s')
    (ha : s.Ordinary a)
    (hop : .connectDestroyed c ∈ s'.stack (.loop 0) ∨ .channelRemove c ∈ s'.stack (.loop 0)) :
    .connectDestroyed c ∈ (s'.phase 0).batch := by
  have hempty : ∀ l p, s.AtPhase l p → Tid.loop l = .loop 0 →
      .connectDestroyed c ∈ s.stack (.loop 0) ∨ .channelRemove c ∈ s.stack (.loop 0) → False := by
    intro l p h hl hop
    rw [← hl, h.2] at hop
    exact hop.elim List.not_mem_nil List.not_mem_nil
  have hpush : ∀ {t : Tid} {op : Op}, op.remote = true →
      .connectDestroyed c ∈ (s.setStack t (op :: s.stack t)).stack (.loop 0) ∨
        .channelRemove c ∈ (s.setStack t (op :: s.stack t)).stack (.loop 0) →
      .connectDestroyed c ∈ (s.phase 0).batch := by
    intro t op hremote hop
    refine hI.backed c (hop.imp (fun h => ?_) fun h => ?_)
    · refine (mem_call h).resolve_left ?_
      rintro rfl
      cases hremote
    · refine (mem_call h).resolve_left ?_
      rintro rfl
      cases hremote
  cases hstep with
  | enter hl h => exact (hempty _ _ h ha.1 hop).elim
  | leave h => exact (hempty _ _ h ha.1 hop).elim
  | poll h hnodup hactive => exact (hempty _ _ h ha.1 hop).elim
  | swap h => exact (hempty _ _ h ha.1 hop).elim
  | release h => exact (hempty _ _ h ha.1 hop).elim
  | dispatch h halive =>
    obtain rfl := Tid.loop.inj ha.1
    simp only [setStack, Function.update_self] at hop
    rcases hop with hop | hop
    · exact absurd hop (not_mem_handleEvent rfl)
    · exact absurd hop (not_mem_handleEvent rfl)
  | @next l ran f rest h =>
    obtain rfl := Tid.loop.inj ha.1
    simp only [setStack, Function.update_self, List.mem_singleton] at hop
    have hf : f = .connectDestroyed c := by
      rcases hop with heq | heq
      · cases f <;> cases heq
        rfl
      · cases f <;> cases heq
    simp [setStack, setPhase, Phase.batch, hf]
  | @exec t i op rest o ops hstack hready hrun =>
    obtain rfl : t = .loop 0 := ha.1
    have hmem : op ∈ s.stack (.loop 0) := hstack ▸ List.mem_cons_self
    refine hI.backed c ?_
    rcases hop with hop | hop
    · rcases mem_executed hstack hop with ⟨-, hnew⟩ | ⟨hold, -⟩
      · cases hrun.follows hnew with
        | destroy =>
          obtain ⟨-, -, hdead⟩ := hS.fits (.loop 0) _ hmem
          rw [hI.serverAlive] at hdead
          cases hdead rfl
      · exact .inl hold
    · rcases mem_executed hstack hop with ⟨-, hnew⟩ | ⟨hold, -⟩
      · cases hrun.follows hnew with
        | channelRemove h => exact .inl hmem
        | destroyRemove => exact absurd hmem (not_destroyConnected hL _)
      · exact .inr hold
  | send hframe hsees => exact hpush rfl hop
  | shutdown hframe hsees => exact hpush rfl hop
  | ret hstack =>
    obtain rfl := ha.1
    simp only [setStack, Function.update_self] at hop
    refine hI.backed c ?_
    rw [show s.stack (.loop 0) = _ from hstack]
    exact hop.imp (List.mem_cons_of_mem _) (List.mem_cons_of_mem _)
  | destroyServer halive h horder => cases ha.2
  | _ => exact hI.backed c hop

end Sequential

lemma sequential_of_reach (hcfg : cfg.numThreads = 0) (h : (system cfg).ReachWhere Ordinary s) :
    Sequential s := by
  refine h.invariant_of
    (J := fun s => (Registered cfg s ∧ Shape cfg s) ∧ Uninterrupted s ∧ ∀ c, Life s c)
    (fun s hs => ⟨⟨registered_of_reach hs.reach, shape_of_reach hs.reach⟩,
      uninterrupted_of_reach hs, life_of_reach hcfg (settled_of_ordinary hs)⟩) ?_ ?_
  · rintro s rfl
    refine ⟨rfl, nofun, fun c hop => ?_⟩
    exact absurd hop (fun h => h.elim List.not_mem_nil List.not_mem_nil)
  · rintro s a s' ⟨⟨hR, hS⟩, hU, hL⟩ - hI ha hs
    have hstep := step_cases hs
    exact ⟨hI.serverAlive_step hstep ha, fun c => hI.reading_step hU (hL c) hR hstep ha,
      fun c => hI.backed_step (hL c) hS hstep ha⟩

/-! ### The poller knows only connections that exist -/

/-- The map, a functor that is queued or in the batch being run, or the application holds a
pointer to the connection. -/
inductive Retained (s : Server) (c : ConnId) : Prop
  | table (h : s.objects.InTable c)
  | queued {f} (hf : f ∈ s.objects.pendingFunctors 0) (hc : c ∈ f.owns)
  | batch {f} (hf : f ∈ (s.phase 0).batch) (hc : c ∈ f.owns)
  | held {t} (h : (t, c) ∈ s.held)

/-- What is retained exists. -/
lemma Retained.owns (h : s.Retained c) : Owns cfg s c := by
  cases h with
  | table h =>
    obtain ⟨name, hx⟩ := h
    exact .table hx
  | queued hf hc => exact .pending (Nat.zero_le _) hf hc
  | batch hf hc => exact .batch (Nat.zero_le _) hf hc
  | held h => exact .held h

/-- A connection whose channel is in the poller is retained. -/
lemma retained_of_index (hL : Life s c) (hR : Registered cfg s) (hI : Sequential s)
    (hindex : (s.objects.conn c).channel.index ≠ kNew) : s.Retained c := by
  cases hL with
  | unborn h =>
    rw [hR.objects.fresh c h.created] at hindex
    exact absurd rfl hindex
  | early h => exact .table h.table
  | up h => exact .table h.table
  | closed h =>
    have hself : c ∈ (Functor.connectDestroyed c).owns := List.mem_singleton_self c
    rcases h.kept hindex with hin | hwaiting | hop | hop
    · exact .table hin
    · rcases List.mem_append.mp hwaiting with hf | hf
      · exact .queued hf hself
      · refine .batch ?_ hself
        cases hphase : s.phase 0 with
        | functors ran rest =>
          rw [hphase] at hf
          exact List.mem_append_right _ hf
        | _ =>
          rw [hphase] at hf
          cases hf
    · exact .batch (hI.backed c (.inl hop)) hself
    · exact .batch (hI.backed c (.inr hop)) hself

/-- No two channels in the poller have the same descriptor. -/
lemma exclusive_of_index (hR : Registered cfg s)
    (howns : ∀ c, (s.objects.conn c).channel.index ≠ kNew → Owns cfg s c) (hc : Owns cfg s c) :
    EPOLLPoller.Exclusive s.objects.chan (.conn c) := by
  rintro (_ | c') hne hindex hfd
  · exact hR.listen c hc (hfd.symm.trans hR.objects.acceptFd)
  · refine hR.fds c' c (howns c' hindex) hc ?_ hfd
    rintro rfl
    exact hne rfl

/-- Every ordinary step keeps the agreement of the poller with the channels. -/
lemma agree_step (hA : (s.objects.poller 0).Agree s.objects.chan) (hR : Registered cfg s)
    (hS : Shape cfg s) (hI : Sequential s)
    (howns : ∀ c, (s.objects.conn c).channel.index ≠ kNew → Owns cfg s c)
    (hstep : Step cfg s a s') (ha : s.Ordinary a) :
    (s'.objects.poller 0).Agree s'.objects.chan := by
  have hsetConn : ∀ (c : ConnId) (x : TcpConnection), x.channel = (s.objects.conn c).channel →
      ((s.setConn c x).objects.poller 0).Agree (s.setConn c x).objects.chan := by
    intro c x hchannel
    have hchan : (s.setConn c x).objects.chan =
        Function.update s.objects.chan (.conn c) x.channel := Objects.chan_update rfl rfl
    have hsame : Function.update s.objects.chan (.conn c) x.channel = s.objects.chan := by
      rw [hchannel]
      exact Function.update_eq_self _ _
    rw [hchan, hsame]
    exact hA
  cases hstep with
  | setHighWaterMark hframe hsees halive => exact hsetConn _ _ rfl
  | retrieve hframe halive => exact hsetConn _ _ rfl
  | @exec t i op rest o ops hstack hready hrun =>
    obtain rfl : t = .loop 0 := ha.1
    cases hrun.effect with
    | @act c v hop hacts hqueued =>
      have hloop : (s.objects.conn c).loop = 0 := hR.objects.loop c
      have hstep := hacts.channel
      have hview : (s.objects.view c).poller = s.objects.poller 0 := congrArg _ hloop
      rw [hview] at hstep
      have hexclusive := exclusive_of_index hR howns (alive_iff.mp (hready.1 c hop))
      have hnew := hA.channelStep hexclusive hstep
      have hchan : (s.objects.setView c v).chan =
          Function.update s.objects.chan (.conn c) v.conn.channel := Objects.chan_update rfl rfl
      have hpoller : (s.objects.setView c v).poller 0 = v.poller := by
        simp [Objects.setView, hloop]
      simp only [executed, hchan, hpoller]
      exact hnew
    | @accept fd hop hi hid =>
      have hold : (s.objects.chan (.conn s.objects.created)).index = kNew := by
        rw [Objects.chan, hR.objects.fresh _ le_rfl]
        rfl
      have hparts : (s.objects.newConnection cfg (.loop 0) fd).1.conn =
            Function.update s.objects.conn s.objects.created
              (.new 0 (s.objects.nextName cfg) fd cfg.writeCompleteCallback) ∧
          (s.objects.newConnection cfg (.loop 0) fd).1.acceptChannel = s.objects.acceptChannel ∧
          (s.objects.newConnection cfg (.loop 0) fd).1.poller = s.objects.poller := by
        obtain ⟨o₁, rfl, ⟨-, heq⟩ | ⟨-, heq⟩⟩ := s.objects.newConnection_cases cfg (.loop 0) fd
        · rw [heq]
          exact ⟨rfl, rfl, rfl⟩
        · rw [heq]
          exact ⟨rfl, rfl, rfl⟩
      obtain ⟨hconn, hacceptor, hpoller⟩ := hparts
      simp only [executed]
      rw [Objects.chan_update hconn hacceptor, hpoller]
      exact hA.replace hold rfl
    | removeAcceptor hop h h' =>
      obtain ⟨-, -, hdead⟩ := hS.fits (.loop 0) op (hstack ▸ List.mem_cons_self)
      rw [hop, hI.serverAlive] at hdead
      cases hdead rfl
    | _ => exact hA
  | _ => exact hA

/-- What ties the map, the stages and the poller together in an ordinary run. -/
structure Ledger (cfg : Config) (s : Server) : Prop where
  registered : Registered cfg s
  life : ∀ c, Life s c
  rhythm : Rhythm s
  sequential : Sequential s
  retained : ∀ c, (s.objects.conn c).channel.index ≠ kNew → s.Retained c
  agree : (s.objects.poller 0).Agree s.objects.chan

/-- The ledger of every ordinary run. -/
theorem ledger_of_reach (hcfg : cfg.numThreads = 0) (h : (system cfg).ReachWhere Ordinary s) :
    Ledger cfg s := by
  have hretained : ∀ s, (system cfg).ReachWhere Ordinary s →
      ∀ c, (s.objects.conn c).channel.index ≠ kNew → s.Retained c := by
    intro s hs c
    exact retained_of_index (life_of_reach hcfg (settled_of_ordinary hs) c)
      (registered_of_reach hs.reach) (sequential_of_reach hcfg hs)
  have hagree : (s.objects.poller 0).Agree s.objects.chan := by
    refine h.invariant_of (I := fun s => (s.objects.poller 0).Agree s.objects.chan)
      (J := fun s => (Registered cfg s ∧ Shape cfg s) ∧ Sequential s ∧
      ∀ c, (s.objects.conn c).channel.index ≠ kNew → Owns cfg s c)
      (fun s hs => ⟨⟨registered_of_reach hs.reach, shape_of_reach hs.reach⟩,
        sequential_of_reach hcfg hs, fun c hindex => (hretained s hs c hindex).owns⟩) ?_ ?_
    · rintro s rfl
      exact agree_new cfg
    · rintro s a s' ⟨⟨hR, hS⟩, hI, hknown⟩ - hA ha hs
      exact agree_step hA hR hS hI hknown (step_cases hs) ha
  exact ⟨registered_of_reach h.reach, life_of_reach hcfg (settled_of_ordinary h),
    rhythm_of_reach h.reach, sequential_of_reach hcfg h, hretained s h, hagree⟩

/-- The channel of `c` is in `channels_`. -/
def InChannels (s : Server) (c : ConnId) : Prop :=
  ∃ fd, (s.objects.poller 0).channels fd = some (.conn c)

/-- The channel of `c` is in the interest set. -/
def InEpoll (s : Server) (c : ConnId) : Prop :=
  ∃ fd events, (s.objects.poller 0).epoll fd = some (events, .conn c)

/-- The state of `c` is `kConnected` or `kDisconnecting`. -/
def IsOpen (s : Server) (c : ConnId) : Prop :=
  (s.objects.conn c).state = .kConnected ∨ (s.objects.conn c).state = .kDisconnecting

namespace Ledger

lemma inChannels_iff (h : Ledger cfg s) :
    s.InChannels c ↔ (s.objects.conn c).channel.index ≠ kNew := by
  constructor
  · rintro ⟨fd, hentry⟩
    exact ((h.agree.channels fd _).mp hentry).2
  · intro hindex
    exact ⟨_, (h.agree.channels _ (.conn c)).mpr ⟨rfl, hindex⟩⟩

lemma inEpoll_iff (h : Ledger cfg s) :
    s.InEpoll c ↔ (s.objects.conn c).channel.index = kAdded := by
  constructor
  · rintro ⟨fd, events, hentry⟩
    exact ((h.agree.epoll fd events _).mp hentry).2.1
  · intro hindex
    exact ⟨_, _, (h.agree.epoll _ _ (.conn c)).mpr ⟨rfl, hindex, rfl⟩⟩

/-- A connection that is closed is down. -/
lemma not_isOpen (h : Ledger cfg s) (hC : Closed s c) : ¬ s.IsOpen c := by
  have hnot : (s.objects.conn c).state ≠ .kDisconnecting := by
    intro hstate
    have hreading := h.sequential.reading c hstate
    rw [Channel.isReading, hC.events, EventMask.has_kNoneEvent] at hreading
    cases hreading
  rintro (hstate | hstate)
  · exact hC.quiet.ne_kConnected hstate
  · exact hnot hstate

/-- Only connections that are up have events waiting. -/
lemma up_of_active (h : Ledger cfg s) {m : EventMask} (hm : (.conn c, m) ∈ (s.phase 0).active) :
    Up s c := by
  cases h.life c with
  | unborn hU => exact absurd hm (hU.inactive m)
  | early hE => exact absurd hm (hE.inactive m)
  | up hU => exact hU
  | closed hC => exact absurd hm (hC.inactive m)

/-- At `poll` a connection is up, or nothing is left of it but the object. -/
lemma polling_cases (h : Ledger cfg s) (hphase : s.AtPhase 0 .polling) (c : ConnId) :
    Up s c ∨ ¬ s.objects.InTable c ∧ ¬ s.IsOpen c ∧ (s.objects.conn c).channel.index = kNew := by
  cases h.life c with
  | unborn hU =>
    have hfresh := h.registered.objects.fresh c hU.created
    refine .inr ⟨?_, ?_, ?_⟩
    · rintro ⟨name, hx⟩
      exact absurd (h.registered.objects.table _ hx).1 (Nat.not_lt_of_le hU.created)
    · rw [IsOpen, hfresh]
      exact nofun
    · rw [hfresh]
      rfl
  | early hE =>
    cases hE.progress with
    | establishing hop | enabling hop | announcing hop =>
      rw [hphase.2] at hop
      cases hop
  | up hU => exact .inl hU
  | closed hC =>
    obtain ⟨hindex, htable⟩ := hC.index_of_polling h.rhythm hphase
    exact .inr ⟨htable, h.not_isOpen hC, hindex⟩

end Ledger

/-- What the registry of a single-threaded server promises. -/
structure RegistryAgrees (s : Server) : Prop where
  table_iff_isOpen : s.AtPhase 0 .polling → ∀ c, s.objects.InTable c ↔ s.IsOpen c
  table_iff_inChannels : s.AtPhase 0 .polling → ∀ c, s.objects.InTable c ↔ s.InChannels c
  table_iff_inEpoll : s.AtPhase 0 .polling → ∀ c, s.objects.InTable c ↔ s.InEpoll c
  retained_of_inEpoll : ∀ c, s.InEpoll c → s.Retained c
  retained_of_active : ∀ c m, (.conn c, m) ∈ (s.phase 0).active → s.Retained c

/-- When a single-threaded server is about to call `poll`, the map, the states, `channels_` and
the interest set say the same about every connection; and at every moment the channels in the
interest set and those still to be dispatched belong to connections that something holds. -/
theorem registryAgrees_of_reach (hcfg : cfg.numThreads = 0)
    (h : (system cfg).ReachWhere Ordinary s) : RegistryAgrees s := by
  have hledger := ledger_of_reach hcfg h
  refine ⟨fun hphase c => ?_, fun hphase c => ?_, fun hphase c => ?_, fun c hentry => ?_,
    fun c m hm => .table (hledger.up_of_active hm).table⟩
  · rcases hledger.polling_cases hphase c with hU | ⟨htable, hclosed, -⟩
    · exact iff_of_true hU.table hU.state
    · exact iff_of_false htable hclosed
  · rw [hledger.inChannels_iff]
    rcases hledger.polling_cases hphase c with hU | ⟨htable, -, hindex⟩
    · refine iff_of_true hU.table ?_
      rw [hU.index]
      decide
    · exact iff_of_false htable fun hne => hne hindex
  · rw [hledger.inEpoll_iff]
    rcases hledger.polling_cases hphase c with hU | ⟨htable, -, hindex⟩
    · exact iff_of_true hU.table hU.index
    · refine iff_of_false htable ?_
      rw [hindex]
      decide
  · refine hledger.retained c ?_
    rw [hledger.inEpoll_iff.mp hentry]
    decide

/-- A second connection is accepted, and then the peer of the first one closes it. -/
def oneOfTwoClosedRun : List Act :=
  acceptedRun ++ [.poll 0 [(3, EPOLLIN)], .dispatch 0, .exec (.loop 0) (.accept (some 5)),
    .exec (.loop 0) .none, .exec (.loop 0) .none, .exec (.loop 0) .none, .user (.loop 0) .ret,
    .exec (.loop 0) .none, .exec (.loop 0) .none, .swap 0, .release 0,
    .poll 0 [(4, EPOLLHUP)], .dispatch 0, .exec (.loop 0) .none, .exec (.loop 0) .none,
    .user (.loop 0) .ret, .exec (.loop 0) .none, .exec (.loop 0) .none, .exec (.loop 0) .none,
    .exec (.loop 0) .none, .swap 0, .next 0, .exec (.loop 0) .none, .exec (.loop 0) .none,
    .release 0]

/-- The registry of the server when it is about to poll again. -/
theorem registryAgrees_of_reach_oneOfTwoClosedRun :
    ∃ s, (system (exampleConfig 0 false)).ReachWhere Ordinary s ∧ s.AtPhase 0 .polling ∧
      s.objects.created = 2 ∧ s.objects.connections.map Prod.snd = [1] ∧ RegistryAgrees s := by
  obtain ⟨s, hs, hobserved⟩ := exists_reach_of_run
    (M := (system (exampleConfig 0 false)).restrict Ordinary) (s := new (exampleConfig 0 false))
    (v := (true, 2, [1])) oneOfTwoClosedRun
    (fun s => (decide (s.AtPhase 0 .polling), s.objects.created,
      s.objects.connections.map Prod.snd)) rfl (by decide +kernel)
  simp only [Prod.mk.injEq] at hobserved
  obtain ⟨hphase, hcreated, htable⟩ := hobserved
  have hreach := Reach.of_restrict hs
  exact ⟨s, hreach, of_decide_eq_true hphase, hcreated, htable, registryAgrees_of_reach rfl hreach⟩

end Server

end HzhMuduo
