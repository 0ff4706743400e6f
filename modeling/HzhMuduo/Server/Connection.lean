import HzhMuduo.Server.Shape

/-!
# A step seen from one connection

Most steps of the server leave a given connection untouched.  `Step.concerns` lists the others:
its events are reported, its handlers start, one of its functors is called, one of its
operations is executed, the application calls `send` or `shutdown` on it, or the server is
destroyed.  The invariants of single connections are proved over this list.
-/

namespace HzhMuduo

open MachineWord TcpConnection

/-! ### What an operation does to the state and to the channel -/

/-- The stores to `state_`. -/
inductive Op.StateChange (c : ConnId) (state : StateE) : Op → StateE → Prop
  | same {op} (h : op ≠ .connectEstablished c ∧ op ≠ .destroyConnected c ∧ op ≠ .handleClose c ∧
      op ≠ .setDisconnecting c) : StateChange c state op state
  | connectEstablished : StateChange c state (.connectEstablished c) .kConnected
  | destroyConnected : StateChange c state (.destroyConnected c) .kDisconnected
  | handleClose : StateChange c state (.handleClose c) .kDisconnected
  | setDisconnecting : StateChange c state (.setDisconnecting c) .kDisconnecting

/-- The changes of the channel. -/
inductive Op.ChannelChange (c : ConnId) (ch : Channel) : Op → Channel → Prop
  | same {op} (h : op ≠ .enableReading c ∧ op ≠ .destroyConnected c ∧ op ≠ .handleClose c ∧
      op ≠ .channelRemove c) : ChannelChange c ch op ch
  | enableReading : ChannelChange c ch (.enableReading c) { ch with
      events := ch.events ||| Channel.kReadEvent, tied := true,
      index := EPOLLPoller.nextIndex ch.index (ch.events ||| Channel.kReadEvent) }
  | destroyConnected : ChannelChange c ch (.destroyConnected c) { ch with
      events := Channel.kNoneEvent, index := EPOLLPoller.nextIndex ch.index Channel.kNoneEvent }
  | handleClose : ChannelChange c ch (.handleClose c) { ch with
      events := Channel.kNoneEvent, index := EPOLLPoller.nextIndex ch.index Channel.kNoneEvent }
  | channelRemove : ChannelChange c ch (.channelRemove c) { ch with index := kNew }
  | enableWriteing {len} : ChannelChange c ch (.sendBody c len) { ch with
      events := ch.events ||| Channel.kWriteEvent
      index := EPOLLPoller.nextIndex ch.index (ch.events ||| Channel.kWriteEvent) }
  | disableWriteing (h : ch.isWriting = true) : ChannelChange c ch (.handleWrite c) { ch with
      events := ch.events &&& ~~~Channel.kWriteEvent
      index := EPOLLPoller.nextIndex ch.index (ch.events &&& ~~~Channel.kWriteEvent) }

variable {cfg : Config} {o o' : Objects} {t : Tid} {i : Input} {op : Op} {ops : List Op} {c : ConnId}

lemma Objects.setView_conn_self (o : Objects) (c : ConnId) (v : View) :
    (o.setView c v).conn c = v.conn :=
  Function.update_self ..

/-- The operations that leave the state and the channel of their connection alone. -/
def Op.keeps : Op → Bool
  | .connectEstablished _ | .enableReading _ | .destroyConnected _ | .channelRemove _
  | .handleClose _ | .handleWrite _ | .sendBody _ _ | .setDisconnecting _ => false
  | _ => true

/-- An operation on another connection, or one that only moves data. -/
lemma Op.Runs.conn_kept (h : Op.Runs cfg o t i op o' ops) (hc : c < o.created)
    (hkeeps : op.conn? ≠ some c ∨ op.keeps = true) :
    (o'.conn c).state = (o.conn c).state ∧ (o'.conn c).channel = (o.conn c).channel := by
  by_cases hop : op.conn? = some c
  · have hkeeps := hkeeps.resolve_left (not_not_intro hop)
    cases h with
    | readSome hne h =>
      obtain rfl := Option.some.inj hop
      obtain ⟨b, rfl⟩ := View.readInput_cases h
      rw [Objects.setView_conn_self]
      exact ⟨rfl, rfl⟩
    | afterDrain =>
      obtain rfl := Option.some.inj hop
      obtain ⟨socket, hdrain⟩ := (o.view _).afterDrain_cases
      rw [Objects.setView_conn_self, hdrain]
      exact ⟨rfl, rfl⟩
    | shutdownInLoop =>
      obtain rfl := Option.some.inj hop
      obtain ⟨socket, hshut⟩ := (o.view _).shutdownInLoop_cases
      rw [Objects.setView_conn_self, hshut]
      exact ⟨rfl, rfl⟩
    | acceptedHere | acceptedThere => cases hop
    | removeAcceptor => cases hop
    | _ => first | exact ⟨rfl, rfl⟩ | cases hkeeps
  · rw [h.effect.conn_of_ne hop fun _ => hc.ne]
    exact ⟨rfl, rfl⟩

/-- An operation that leaves the state and the channel of a connection alone is none of those
that change them. -/
lemma Op.ne_of_kept (hkept : op.conn? ≠ some c ∨ op.keeps = true) {op' : Op}
    (hop : op'.conn? = some c) (hkeeps : op'.keeps = false) : op ≠ op' := by
  rintro rfl
  rcases hkept with h | h
  · exact h hop
  · exact absurd (h.symm.trans hkeeps) (by decide)

theorem Op.Runs.stateChange (h : Op.Runs cfg o t i op o' ops) (hc : c < o.created) :
    Op.StateChange c (o.conn c).state op (o'.conn c).state := by
  by_cases hkept : op.conn? ≠ some c ∨ op.keeps = true
  · rw [(h.conn_kept hc hkept).1]
    exact .same ⟨Op.ne_of_kept hkept rfl rfl, Op.ne_of_kept hkept rfl rfl,
      Op.ne_of_kept hkept rfl rfl, Op.ne_of_kept hkept rfl rfl⟩
  · obtain ⟨hop, hchanges⟩ := not_or.mp hkept
    have hop := not_not.mp hop
    cases h with
    | connectEstablished =>
      obtain rfl := Option.some.inj hop
      rw [Objects.setView_conn_self]
      exact .connectEstablished
    | enableReading h =>
      obtain rfl := Option.some.inj hop
      obtain ⟨p, ch, -, rfl⟩ := View.tieAndEnableReading_cases h
      rw [Objects.setView_conn_self]
      exact .same ⟨nofun, nofun, nofun, nofun⟩
    | destroyConnected h =>
      obtain rfl := Option.some.inj hop
      obtain ⟨p, ch, -, rfl⟩ := View.closeChannel_cases h
      rw [Objects.setView_conn_self]
      exact .destroyConnected
    | channelRemove h =>
      obtain rfl := Option.some.inj hop
      obtain ⟨p, ch, -, rfl⟩ := View.channelRemove_cases h
      rw [Objects.setView_conn_self]
      exact .same ⟨nofun, nofun, nofun, nofun⟩
    | handleClose h =>
      obtain rfl := Option.some.inj hop
      obtain ⟨p, ch, -, rfl⟩ := View.closeChannel_cases h
      rw [Objects.setView_conn_self]
      exact .handleClose
    | writeSome h | writeAll h =>
      obtain rfl := Option.some.inj hop
      obtain ⟨fs, socket, b, p, ch, -, -, rfl⟩ := View.writeOutput_effect h
      rw [Objects.setView_conn_self]
      exact .same ⟨nofun, nofun, nofun, nofun⟩
    | sendBody h =>
      obtain rfl := Option.some.inj hop
      obtain ⟨fs, socket, b, p, ch, -, -, rfl⟩ := View.sendBody_effect h
      rw [Objects.setView_conn_self]
      exact .same ⟨nofun, nofun, nofun, nofun⟩
    | setDisconnecting =>
      obtain rfl := Option.some.inj hop
      rw [Objects.setView_conn_self]
      exact .setDisconnecting
    | _ => exact absurd rfl hchanges

theorem Op.Runs.channelChange (h : Op.Runs cfg o t i op o' ops) (hW : o.WellFormed cfg)
    (hc : c < o.created) : Op.ChannelChange c (o.conn c).channel op (o'.conn c).channel := by
  have hupdated : ∀ (p p' : EPOLLPoller ChannelId) (ch ch' : Channel),
      ch.index = (o.conn c).channel.index → p.updateChannel (.conn c) ch = .ok (p', ch') →
      ch' = { ch with index := EPOLLPoller.nextIndex ch.index ch.events } := by
    intro p p' ch ch' hindex hup
    refine (EPOLLPoller.updateChannel_eq ?_ hup).1
    rw [hindex]
    exact hW.sound.index (.conn c)
  by_cases hkept : op.conn? ≠ some c ∨ op.keeps = true
  · rw [(h.conn_kept hc hkept).2]
    exact .same ⟨Op.ne_of_kept hkept rfl rfl, Op.ne_of_kept hkept rfl rfl,
      Op.ne_of_kept hkept rfl rfl, Op.ne_of_kept hkept rfl rfl⟩
  · obtain ⟨hop, hchanges⟩ := not_or.mp hkept
    have hop := not_not.mp hop
    cases h with
    | connectEstablished | setDisconnecting =>
      obtain rfl := Option.some.inj hop
      rw [Objects.setView_conn_self]
      exact .same ⟨nofun, nofun, nofun, nofun⟩
    | enableReading h =>
      obtain rfl := Option.some.inj hop
      obtain ⟨p, ch, hup, rfl⟩ := View.tieAndEnableReading_cases h
      rw [Objects.setView_conn_self]
      obtain rfl := hupdated _ _ _ _ (by rfl) hup
      exact .enableReading
    | destroyConnected h =>
      obtain rfl := Option.some.inj hop
      obtain ⟨p, ch, hup, rfl⟩ := View.closeChannel_cases h
      rw [Objects.setView_conn_self]
      obtain rfl := hupdated _ _ _ _ (by rfl) hup
      exact .destroyConnected
    | channelRemove h =>
      obtain rfl := Option.some.inj hop
      obtain ⟨p, ch, hremove, rfl⟩ := View.channelRemove_cases h
      rw [Objects.setView_conn_self]
      obtain ⟨rfl, -⟩ := EPOLLPoller.removeChannel_eq hremove
      exact .channelRemove
    | handleClose h =>
      obtain rfl := Option.some.inj hop
      obtain ⟨p, ch, hup, rfl⟩ := View.closeChannel_cases h
      rw [Objects.setView_conn_self]
      obtain rfl := hupdated _ _ _ _ (by rfl) hup
      exact .handleClose
    | writeSome h | writeAll h =>
      obtain rfl := Option.some.inj hop
      obtain ⟨fs, socket, b, p, ch, -, ⟨-, -, rfl⟩ | ⟨hwriting, hup⟩, rfl⟩ :=
        View.writeOutput_effect h
      · rw [Objects.setView_conn_self]
        exact .same ⟨nofun, nofun, nofun, nofun⟩
      · rw [Objects.setView_conn_self]
        obtain rfl := hupdated _ _ _ _ (by rfl) hup
        exact .disableWriteing hwriting
    | sendBody h =>
      obtain rfl := Option.some.inj hop
      obtain ⟨fs, socket, b, p, ch, -, ⟨-, rfl⟩ | hup, rfl⟩ := View.sendBody_effect h
      · rw [Objects.setView_conn_self]
        exact .same ⟨nofun, nofun, nofun, nofun⟩
      · rw [Objects.setView_conn_self]
        obtain rfl := hupdated _ _ _ _ (by rfl) hup
        exact .enableWriteing
    | _ => exact absurd rfl hchanges

/-! ### Steps that leave a connection untouched -/

/-- A functor is about the connection its operation is about. -/
lemma Functor.conn?_op (f : Functor) : f.op.conn? = f.conn? := by
  cases f <;> rfl

/-- A queued functor is about the connection of the operation that queues it. -/
lemma Op.Queues.conn? {created : ℕ} {f : Functor} (h : op.Queues created f)
    (hc : f.conn? = some c) : op.conn? = some c ∨ op = .accept ∧ c = created := by
  cases op with
  | accept =>
    obtain rfl : f = .connectEstablished created := h
    exact .inr ⟨rfl, (Option.some.inj hc).symm⟩
  | removeConnectionInLoop c' | destroyItem c' | closeCallback c' | sendRun c' len
  | shutdownRun c' =>
    simp only [Op.Queues] at h
    subst h
    exact .inl hc
  | sendBody c' len | handleWrite c' => rcases h with rfl | ⟨n, rfl⟩ <;> exact .inl hc
  | _ => cases h

/-- The operations of a connection that are started neither by another operation nor by a
functor: the handlers of events, the calls of the application, and the destructor's. -/
def Op.starts : Op → Bool
  | .handleClose _ | .handleError _ | .handleRead _ | .handleWrite _ | .send _ _ | .shutdown _
  | .destroyItem _ => true
  | _ => false

namespace Server

variable {s s' : Server} {a : Act} {l : LoopId}

/-- Nothing about connection `c` changes but who holds it, its buffers, its socket and the
settings the application made. -/
structure Untouched (c : ConnId) (s s' : Server) : Prop where
  created : c < s'.objects.created ↔ c < s.objects.created
  state : (s'.objects.conn c).state = (s.objects.conn c).state
  channel : (s'.objects.conn c).channel = (s.objects.conn c).channel
  stack : ∀ t op, op.conn? = some c → (op ∈ s'.stack t ↔ op ∈ s.stack t)
  waiting : ∀ l f, f.conn? = some c → (f ∈ s'.waiting l ↔ f ∈ s.waiting l)
  active : ∀ m, (.conn c, m) ∈ (s'.phase 0).active ↔ (.conn c, m) ∈ (s.phase 0).active
  trace : ∀ e : Event, e.op.conn? = some c → (e ∈ s'.trace ↔ e ∈ s.trace)

/-- A phase in which the same functors of `c` wait and the same events of `c`. -/
lemma untouched_setPhase {p : Phase}
    (hrest : ∀ f, f.conn? = some c → (f ∈ p.rest ↔ f ∈ (s.phase l).rest))
    (hactive : ∀ m, (.conn c, m) ∈ p.active ↔ (.conn c, m) ∈ (s.phase l).active) :
    Untouched c s (s.setPhase l p) := by
  refine ⟨.rfl, rfl, rfl, fun _ _ _ => .rfl, fun l' f hf => ?_, fun m => ?_, fun _ _ => .rfl⟩
  · by_cases hl : l' = l
    · subst hl
      simp [waiting, setPhase, hrest f hf]
    · simp [waiting, setPhase, Function.update_of_ne hl]
  · by_cases hl : 0 = l
    · subst hl
      simp [setPhase, hactive]
    · simp [setPhase, Function.update_of_ne hl]

/-- A phase without functors or events after another one. -/
lemma untouched_of_empty {p : Phase} (hp : p.rest = [] ∧ p.active = [])
    (h : (s.phase l).rest = [] ∧ (s.phase l).active = []) : Untouched c s (s.setPhase l p) := by
  refine untouched_setPhase (fun f _ => ?_) fun m => ?_
  · rw [hp.1, h.1]
  · rw [hp.2, h.2]

/-- A stack on which the operations of `c` stay. -/
lemma untouched_setStack {ops : List Op}
    (hops : ∀ op, op.conn? = some c → (op ∈ ops ↔ op ∈ s.stack t)) :
    Untouched c s (s.setStack t ops) := by
  refine ⟨.rfl, rfl, rfl, fun t' op hop => ?_, fun _ _ _ => .rfl, fun _ => .rfl, fun _ _ => .rfl⟩
  by_cases ht : t' = t
  · subst ht
    simp only [setStack, Function.update_self]
    exact hops op hop
  · simp [setStack, Function.update_of_ne ht]

lemma Untouched.trans {s₁ s₂ s₃ : Server} (h : Untouched c s₁ s₂) (h' : Untouched c s₂ s₃) :
    Untouched c s₁ s₃ :=
  ⟨h'.created.trans h.created, h'.state.trans h.state, h'.channel.trans h.channel,
    fun t op hop => (h'.stack t op hop).trans (h.stack t op hop),
    fun l f hf => (h'.waiting l f hf).trans (h.waiting l f hf),
    fun m => (h'.active m).trans (h.active m), fun e he => (h'.trace e he).trans (h.trace e he)⟩

/-- An operation on another connection. -/
lemma untouched_executed (hR : Registered cfg s) {i : Input} {op : Op} {rest ops : List Op}
    {o : Objects} (hstack : s.stack t = op :: rest) (hrun : Op.Runs cfg s.objects t i op o ops)
    (hc : op.conn? ≠ some c) (hnew : ¬ op.Creates s.objects o c) :
    Untouched c s (s.executed t op o (ops ++ rest)) := by
  have heffect := hrun.effect
  have hconn : o.conn c = s.objects.conn c := by
    by_cases hcc : c = s.objects.created
    · by_cases hop : op = .accept
      · subst hop
        cases hrun with
        | acceptFailed => rfl
        | acceptedHere hid ht => exact absurd ⟨rfl, hcc, Objects.newConnection_created ..⟩ hnew
        | acceptedThere hid ht => exact absurd ⟨rfl, hcc, Objects.newConnection_created ..⟩ hnew
      · exact heffect.conn_of_ne hc fun h => absurd h hop
    · exact heffect.conn_of_ne hc fun _ => hcc
  refine ⟨?_, congrArg _ hconn, congrArg _ hconn, fun t' op' hop' => ?_, fun l f hf => ?_,
    fun m => .rfl, fun e he => ?_⟩
  · rcases heffect.created_cases with h | ⟨hop, h⟩
    · exact iff_of_eq (congrArg _ h)
    · have hcc : c ≠ s.objects.created := fun heq => hnew ⟨hop, heq, h⟩
      rw [executed, h]
      exact ⟨fun hlt => Nat.lt_of_le_of_ne (Nat.le_of_lt_succ hlt) hcc, Nat.lt_succ_of_lt⟩
  · by_cases ht : t' = t
    · subst ht
      simp only [executed, setStack, Function.update_self, hstack]
      constructor
      · intro h
        rcases List.mem_append.mp h with h | h
        · rcases (hrun.follows h).conn? hop' with h | h
          · exact absurd h hc
          · exact absurd h hnew
        · exact List.mem_cons_of_mem _ h
      · intro h
        rcases List.mem_cons.mp h with rfl | h
        · exact absurd hop' hc
        · exact List.mem_append_right _ h
    · simp only [executed, setStack, Function.update_of_ne ht]
  · simp only [waiting, executed, setStack, List.mem_append]
    refine or_congr_left ⟨fun h => ?_, heffect.mem_pending_of_mem⟩
    rcases heffect.mem_pending hR.objects.loop h with h | ⟨hqueues, hwhere⟩
    · exact h
    · rcases hqueues.conn? hf with h | ⟨hop, heq⟩
      · exact absurd h hc
      · rcases hwhere with ⟨-, hne⟩ | ⟨hcreates, -⟩
        · exact absurd hop hne
        · exact absurd ⟨hop, heq, hcreates.created⟩ hnew
  · simp only [executed, setStack, List.mem_append, List.mem_singleton, or_iff_left_iff_imp]
    rintro rfl
    exact absurd he hc

/-- The step executes an operation of connection `c`. -/
def Executes (s : Server) (a : Act) (c : ConnId) : Prop :=
  ∃ t i op rest, a = .exec t i ∧ s.stack t = op :: rest ∧ op.conn? = some c

/-- The steps that concern connection `c`. -/
inductive Concerns (cfg : Config) (s : Server) (c : ConnId) : Act → Server → Prop
  | untouched {a : Act} {s' : Server} (h : Untouched c s s') (hnot : ¬ s.Executes a c) :
      Concerns cfg s c a s'
  | poll {ready active} (h : s.AtPhase 0 .polling) (hnodup : (ready.map Prod.fst).Nodup)
      (hactive : (s.objects.poller 0).fillActiveChannels ready = some active) :
      Concerns cfg s c (.poll 0 ready) (s.setPhase 0 (.dispatching active))
  | dispatch {l : LoopId} {revents active}
      (h : s.AtPhase l (.dispatching ((.conn c, revents) :: active))) (halive : s.Alive cfg c) :
      Concerns cfg s c (.dispatch l)
        ((s.setPhase l (.dispatching active)).setStack (.loop l) (handleEvent (.conn c, revents)))
  | next {l : LoopId} {ran f rest} (h : s.AtPhase l (.functors ran (f :: rest)))
      (hf : f.conn? = some c) : Concerns cfg s c (.next l)
        ((s.setPhase l (.functors (ran ++ [f]) rest)).setStack (.loop l) [f.op])
  | exec {t : Tid} {i : Input} {op : Op} {rest ops : List Op} {o : Objects}
      (hstack : s.stack t = op :: rest) (hready : s.Ready cfg op i)
      (hrun : Op.Runs cfg s.objects t i op o ops)
      (hc : op.conn? = some c ∨ op.Creates s.objects o c) :
      Concerns cfg s c (.exec t i) (s.executed t op o (ops ++ rest))
  | call {t : Tid} {a : UserAct} {op : Op} {cs buffer} (hframe : s.frame t = some (cs, buffer))
      (hsees : s.Sees t cs c) (hop : (∃ len, op = .send c len) ∨ op = .shutdown c) :
      Concerns cfg s c (.user t a) (s.setStack t (op :: s.stack t))
  | destroyServer {order} (halive : s.objects.serverAlive = true) (h : s.AtPhase 0 .outside) :
      Concerns cfg s c (.destroyServer order)
        { s.setStack (.loop 0) (order.map Op.destroyItem ++ [.removeAcceptor]) with
          objects := { s.objects with serverAlive := false } }

/-- Settings and buffers of a connection do not matter. -/
lemma untouched_setConn {c' : ConnId} {x : TcpConnection}
    (hstate : x.state = (s.objects.conn c').state)
    (hchannel : x.channel = (s.objects.conn c').channel) : Untouched c s (s.setConn c' x) := by
  refine ⟨.rfl, ?_, ?_, fun _ _ _ => .rfl, fun _ _ _ => .rfl, fun _ => .rfl, fun _ _ => .rfl⟩
  · by_cases hcc : c = c'
    · subst hcc
      simp [setConn, hstate]
    · simp [setConn, Function.update_of_ne hcc]
  · by_cases hcc : c = c'
    · subst hcc
      simp [setConn, hchannel]
    · simp [setConn, Function.update_of_ne hcc]

/-- The functors that wait in a loop are the same before and after the swap. -/
lemma untouched_swap (h : s.AtPhase l (.dispatching [])) :
    Untouched c s { s.setPhase l (.functors [] (s.objects.pendingFunctors l)) with
      objects := s.objects.clearPending l } := by
  refine ⟨.rfl, rfl, rfl, fun _ _ _ => .rfl, fun l' f hf => ?_, fun m => ?_, fun _ _ => .rfl⟩
  · by_cases hl : l' = l
    · subst hl
      simp [waiting, setPhase, Objects.clearPending, h.1, Phase.rest]
    · simp [waiting, setPhase, Objects.clearPending, Function.update_of_ne hl]
  · by_cases hl : 0 = l
    · subst hl
      simp [setPhase, h.1, Phase.active]
    · simp [setPhase, Function.update_of_ne hl]

/-- The start of the handlers of another channel. -/
lemma untouched_dispatch {k : ChannelId} {revents : EventMask}
    {active : List (ChannelId × EventMask)} (h : s.AtPhase l (.dispatching ((k, revents) :: active)))
    (hk : k ≠ .conn c) :
    Untouched c s ((s.setPhase l (.dispatching active)).setStack (.loop l)
      (handleEvent (k, revents))) := by
  have hphase : Untouched c s (s.setPhase l (.dispatching active)) := by
    refine untouched_setPhase (fun f _ => by rw [h.1]; rfl) fun m => ?_
    rw [h.1]
    simp only [Phase.active, List.mem_cons, Prod.mk.injEq]
    exact ⟨.inr, fun hm => hm.resolve_left fun heq => hk heq.1.symm⟩
  refine hphase.trans (untouched_setStack fun op hop => ?_)
  rw [show (s.setPhase l (.dispatching active)).stack (.loop l) = [] from h.2]
  refine ⟨fun hmem => ?_, fun hmem => absurd hmem List.not_mem_nil⟩
  rcases mem_handleEvent hmem with ⟨-, rfl⟩ | ⟨c', hk', hhandler⟩
  · cases hop
  · have hne : c' ≠ c := by
      rintro rfl
      exact hk hk'
    rcases hhandler with (rfl | rfl | rfl | rfl) | rfl
    · exact absurd (Option.some.inj hop) hne
    · exact absurd (Option.some.inj hop) hne
    · exact absurd (Option.some.inj hop) hne
    · exact absurd (Option.some.inj hop) hne
    · cases hop

/-- The call of a functor of another connection. -/
lemma untouched_next {ran rest : List Functor} {f : Functor}
    (h : s.AtPhase l (.functors ran (f :: rest))) (hf : f.conn? ≠ some c) :
    Untouched c s
      ((s.setPhase l (.functors (ran ++ [f]) rest)).setStack (.loop l) [f.op]) := by
  have hphase : Untouched c s (s.setPhase l (.functors (ran ++ [f]) rest)) := by
    refine untouched_setPhase (fun g hg => ?_) fun m => by rw [h.1]; rfl
    rw [h.1]
    simp only [Phase.rest, List.mem_cons]
    refine ⟨.inr, fun hm => hm.resolve_left ?_⟩
    rintro rfl
    exact hf hg
  refine hphase.trans (untouched_setStack fun op hop => ?_)
  rw [show (s.setPhase l (.functors (ran ++ [f]) rest)).stack (.loop l) = [] from h.2]
  refine ⟨fun hmem => ?_, fun hmem => absurd hmem List.not_mem_nil⟩
  obtain rfl := List.mem_singleton.mp hmem
  rw [Functor.conn?_op] at hop
  exact absurd hop hf

/-- A call for another connection on top of a stack. -/
lemma untouched_push {op : Op} (hop : op.conn? ≠ some c) :
    Untouched c s (s.setStack t (op :: s.stack t)) := by
  refine untouched_setStack fun op' hop' => ?_
  rw [List.mem_cons]
  refine ⟨fun hmem => hmem.resolve_left ?_, .inr⟩
  rintro rfl
  exact hop hop'

/-- Every step of the server, as connection `c` sees it. -/
theorem Step.concerns (hstep : Step cfg s a s') (hR : Registered cfg s) (c : ConnId) :
    Concerns cfg s c a s' := by
  have hother : ∀ a, (∀ t i, a ≠ .exec t i) → ¬ s.Executes a c := by
    rintro a ha ⟨t, i, op, rest, rfl, -⟩
    exact ha t i rfl
  cases hstep with
  | enter hl h =>
    exact .untouched (untouched_of_empty ⟨rfl, rfl⟩ (by rw [h.1]; exact ⟨rfl, rfl⟩)) (hother _ (by simp))
  | leave h =>
    exact .untouched (untouched_of_empty ⟨rfl, rfl⟩ (by rw [h.1]; exact ⟨rfl, rfl⟩)) (hother _ (by simp))
  | release h =>
    exact .untouched (untouched_of_empty ⟨rfl, rfl⟩ (by rw [h.1]; exact ⟨rfl, rfl⟩)) (hother _ (by simp))
  | @poll l ready active h hnodup hactive =>
    by_cases hl : l = 0
    · subst hl
      exact .poll h hnodup hactive
    · rw [hR.objects.subPoller l hl] at hactive
      obtain rfl := Shape.fillActiveChannels_new hactive
      exact .untouched (untouched_of_empty ⟨rfl, rfl⟩ (by rw [h.1]; exact ⟨rfl, rfl⟩))
        (hother _ (by simp))
  | @dispatch l x active h halive =>
    obtain ⟨k, revents⟩ := x
    by_cases hk : k = .conn c
    · subst hk
      exact .dispatch h halive
    · exact .untouched (untouched_dispatch h hk) (hother _ (by simp))
  | swap h => exact .untouched (untouched_swap h) (hother _ (by simp))
  | @next l ran f rest h =>
    by_cases hf : f.conn? = some c
    · exact .next h hf
    · exact .untouched (untouched_next h hf) (hother _ (by simp))
  | @exec t i op rest o ops hstack hready hrun =>
    by_cases hc : op.conn? = some c ∨ op.Creates s.objects o c
    · exact .exec hstack hready hrun hc
    · refine .untouched (untouched_executed hR hstack hrun (fun h => hc (.inl h))
        fun h => hc (.inr h)) ?_
      rintro ⟨t', i', op', rest', heq, hstack', hop'⟩
      obtain ⟨rfl, rfl⟩ := Act.exec.inj heq
      obtain ⟨rfl, -⟩ := List.cons.inj (hstack.symm.trans hstack')
      exact hc (.inl hop')
  | @send t c' len cs buffer hframe hsees =>
    by_cases hc : c' = c
    · subst hc
      exact .call hframe hsees (.inl ⟨len, rfl⟩)
    · exact .untouched (untouched_push fun h => hc (Option.some.inj h)) (hother _ (by simp))
  | @shutdown t c' cs buffer hframe hsees =>
    by_cases hc : c' = c
    · subst hc
      exact .call hframe hsees (.inr rfl)
    · exact .untouched (untouched_push fun h => hc (Option.some.inj h)) (hother _ (by simp))
  | copy | drop =>
    exact .untouched ⟨.rfl, rfl, rfl, fun _ _ _ => .rfl, fun _ _ _ => .rfl, fun _ => .rfl,
      fun _ _ => .rfl⟩ (hother _ (by simp))
  | @queueInLoop t l cs' cs buffer hframe hl hsees =>
    refine .untouched ⟨.rfl, rfl, rfl, fun _ _ _ => .rfl, fun l' f hf => ?_, fun _ => .rfl,
      fun _ _ => .rfl⟩ (hother _ (by simp))
    by_cases hl' : l' = l
    · subst hl'
      have hne : f ≠ .user cs' := by
        rintro rfl
        cases hf
      simp [waiting, Objects.queueInLoop, hne]
    · simp [waiting, Objects.queueInLoop, Function.update_of_ne hl']
  | setHighWaterMark => exact .untouched (untouched_setConn rfl rfl) (hother _ (by simp))
  | retrieve => exact .untouched (untouched_setConn rfl rfl) (hother _ (by simp))
  | ret hstack =>
    refine .untouched (untouched_setStack fun op hop => ?_) (hother _ (by simp))
    rw [hstack, List.mem_cons]
    refine ⟨.inr, fun hmem => hmem.resolve_left ?_⟩
    rintro rfl
    cases hop
  | destroyServer halive h horder => exact .destroyServer halive h

/-! ### Executing an operation -/

/-- What is on the stacks after an operation was executed: what it left, or what was there. -/
lemma mem_executed {t' : Tid} {op op' : Op} {rest ops : List Op} {o : Objects}
    (hstack : s.stack t = op :: rest) (h : op' ∈ (s.executed t op o (ops ++ rest)).stack t') :
    t' = t ∧ op' ∈ ops ∨ op' ∈ s.stack t' ∧ (t' = t → op' ∈ rest) := by
  by_cases ht : t' = t
  · subst ht
    simp only [executed, setStack, Function.update_self] at h
    rcases List.mem_append.mp h with h | h
    · exact .inl ⟨rfl, h⟩
    · exact .inr ⟨hstack ▸ List.mem_cons_of_mem _ h, fun _ => h⟩
  · simp only [executed, setStack, Function.update_of_ne ht] at h
    exact .inr ⟨h, fun heq => absurd heq ht⟩

/-- The other operations stay on the stacks. -/
lemma mem_executed_of_mem {t' : Tid} {op op' : Op} {rest ops : List Op} {o : Objects}
    (hstack : s.stack t = op :: rest) (h : op' ∈ s.stack t') (hne : op' ≠ op) :
    op' ∈ (s.executed t op o (ops ++ rest)).stack t' := by
  by_cases ht : t' = t
  · subst ht
    simp only [executed, setStack, Function.update_self]
    rw [hstack] at h
    exact List.mem_append_right _ ((List.mem_cons.mp h).resolve_left hne)
  · simp only [executed, setStack, Function.update_of_ne ht]
    exact h

/-- What an operation leaves is on top of its stack. -/
lemma mem_executed_self {op op' : Op} {rest ops : List Op} {o : Objects} (h : op' ∈ ops) :
    op' ∈ (s.executed t op o (ops ++ rest)).stack t := by
  simp only [executed, setStack, Function.update_self]
  exact List.mem_append_left _ h

/-- What the trace says after an operation was executed. -/
lemma exists_trace_executed {op : Op} {ops : List Op} {o : Objects} {P : Event → Prop} :
    (∃ e ∈ (s.executed t op o ops).trace, P e) ↔
      (∃ e ∈ s.trace, P e) ∨ P ⟨t, op, s.stateAt op⟩ := by
  simp [executed, or_and_right, exists_or]

/-- Only the base loop runs what a sub-loop cannot. -/
lemma Shape.eq_base (h : Shape cfg s) {op : Op} (hop : op ∈ s.stack t)
    (hsub : op.onSubLoop = false) : t = .loop 0 := by
  have hfits := h.fits t op hop
  rcases t with (_ | l) | u
  · rfl
  · exact absurd (hfits.symm.trans hsub) (by decide)
  · cases op <;> simp_all [Fits, Op.remote, Op.onSubLoop]

/-- Without sub-loops, only the threads of the application and the base loop do anything. -/
lemma Shape.eq_base_of_cfg (hS : Shape cfg s) (hcfg : cfg.numThreads = 0) {t : Tid} {op : Op}
    (hop : op ∈ s.stack t) (hremote : op.remote = false) : t = .loop 0 := by
  rcases t with (_ | l) | u
  · rfl
  · have hidle : cfg.numThreads < l + 1 := by
      rw [hcfg]
      exact Nat.succ_pos l
    rw [(hS.idle _ hidle).2] at hop
    cases hop
  · have hfits : op.remote = true := hS.fits (.user u) op hop
    rw [hremote] at hfits
    cases hfits

/-- Without sub-loops, the base loop establishes what it accepts at once. -/
lemma Shape.establishes (h : Shape cfg s) (hcfg : cfg.numThreads = 0) {i : Input} {op : Op}
    {rest ops : List Op} {o : Objects} (hstack : s.stack t = op :: rest)
    (hrun : Op.Runs cfg s.objects t i op o ops) (hnew : op.Creates s.objects o c) :
    t = .loop 0 ∧ ops = [.connectEstablished c, .release c] := by
  obtain ⟨rfl, rfl, hcreated⟩ := hnew
  have hbase : t = .loop 0 := h.eq_base (hstack ▸ List.mem_cons_self) rfl
  refine ⟨hbase, ?_⟩
  cases hrun with
  | acceptFailed => exact absurd hcreated (Nat.succ_ne_self _).symm
  | acceptedHere hid ht => rfl
  | acceptedThere hid ht =>
    rw [Objects.getNextLoop, if_pos hcfg] at ht
    exact absurd hbase ht

/-- What does not wait is on top of its stack. -/
lemma Shape.eq_head (h : Shape cfg s) {op op' : Op} {rest : List Op}
    (hstack : s.stack t = op :: rest) (hop : op' ∈ s.stack t) (hwaits : op'.waits = false) :
    op' = op := by
  rw [hstack] at hop
  refine (List.mem_cons.mp hop).resolve_right fun hrest => ?_
  rw [h.top t op rest hstack op' hrest] at hwaits
  cases hwaits

/-! ### Sends on their way -/

/-- A `send` that found the connection connected has not reached the body of `sendInLoop`. -/
def InFlight (s : Server) (c : ConnId) : Prop :=
  (∃ l len, .sendInLoop c len ∈ s.waiting l) ∨
    ∃ t len, .sendRun c len ∈ s.stack t ∨ .sendInLoop c len ∈ s.stack t

/-- `sendInLoop` will not write: the connection is down, or it is half closed and no `send` is
on its way. -/
def Quiet (s : Server) (c : ConnId) : Prop :=
  (s.objects.conn c).state = .kDisconnected ∨
    (s.objects.conn c).state = .kDisconnecting ∧ ¬ s.InFlight c

/-- A connection that is quiet is not connected. -/
lemma Quiet.ne_kConnected (h : s.Quiet c) : (s.objects.conn c).state ≠ .kConnected := by
  intro hst
  rcases h with h | ⟨h, -⟩
  · cases hst.symm.trans h
  · cases hst.symm.trans h

/-! ### Steps that only start something -/

/-- As far as connection `c` is concerned, a step that is not the call of a functor or the
execution of an operation only starts operations or looks for events. -/
structure Kept (c : ConnId) (s s' : Server) : Prop where
  created : c < s'.objects.created ↔ c < s.objects.created
  state : (s'.objects.conn c).state = (s.objects.conn c).state
  channel : (s'.objects.conn c).channel = (s.objects.conn c).channel
  stack : ∀ t op, op.conn? = some c → op.starts = false → (op ∈ s'.stack t ↔ op ∈ s.stack t)
  waiting : ∀ l f, f.conn? = some c → (f ∈ s'.waiting l ↔ f ∈ s.waiting l)
  trace : ∀ e : Event, e.op.conn? = some c → (e ∈ s'.trace ↔ e ∈ s.trace)

lemma Untouched.kept (h : Untouched c s s') : Kept c s s' :=
  ⟨h.created, h.state, h.channel, fun t op hop _ => h.stack t op hop, h.waiting, h.trace⟩

/-- What the trace says of the connection. -/
lemma Kept.exists_trace (h : Kept c s s') {P : Event → Prop}
    (hP : ∀ e, P e → e.op.conn? = some c) : (∃ e ∈ s'.trace, P e) ↔ ∃ e ∈ s.trace, P e :=
  exists_congr fun e => and_congr_left fun he => h.trace e (hP e he)

lemma kept_setPhase {p : Phase} (h : p.rest = (s.phase l).rest) : Kept c s (s.setPhase l p) := by
  refine ⟨.rfl, rfl, rfl, fun _ _ _ _ => .rfl, fun l' f hf => ?_, fun _ _ => .rfl⟩
  by_cases hl : l' = l
  · subst hl
    simp [Server.waiting, setPhase, h]
  · simp [Server.waiting, setPhase, Function.update_of_ne hl]

/-- A stack on which only the operations that steps start are new. -/
lemma kept_setStack {ops : List Op}
    (hops : ∀ op, op.conn? = some c → op.starts = false → (op ∈ ops ↔ op ∈ s.stack t)) :
    Kept c s (s.setStack t ops) := by
  refine ⟨.rfl, rfl, rfl, fun t' op hop hstarts => ?_, fun _ _ _ => .rfl, fun _ _ => .rfl⟩
  by_cases ht : t' = t
  · subst ht
    simp only [setStack, Function.update_self]
    exact hops op hop hstarts
  · simp [setStack, Function.update_of_ne ht]

lemma Kept.trans {s₁ s₂ s₃ : Server} (h : Kept c s₁ s₂) (h' : Kept c s₂ s₃) : Kept c s₁ s₃ :=
  ⟨h'.created.trans h.created, h'.state.trans h.state, h'.channel.trans h.channel,
    fun t op hop hs => (h'.stack t op hop hs).trans (h.stack t op hop hs),
    fun l f hf => (h'.waiting l f hf).trans (h.waiting l f hf),
    fun e he => (h'.trace e he).trans (h.trace e he)⟩

/-- The start of the handlers of an event. -/
lemma kept_dispatch {revents : EventMask} {active : List (ChannelId × EventMask)}
    (h : s.AtPhase l (.dispatching ((.conn c, revents) :: active))) :
    Kept c s ((s.setPhase l (.dispatching active)).setStack (.loop l)
      (handleEvent (.conn c, revents))) := by
  have hphase : Kept c s (s.setPhase l (.dispatching active)) :=
    kept_setPhase (by rw [h.1]; rfl)
  refine hphase.trans (kept_setStack fun op hop hstarts => ?_)
  rw [show (s.setPhase l (.dispatching active)).stack (.loop l) = [] from h.2]
  refine ⟨fun hmem => ?_, fun hmem => absurd hmem List.not_mem_nil⟩
  rcases mem_handleEvent hmem with ⟨hk, -⟩ | ⟨c', -, (rfl | rfl | rfl | rfl) | rfl⟩
  · cases hk
  · cases hstarts
  · cases hstarts
  · cases hstarts
  · cases hstarts
  · cases hop

/-- A call on top of a stack. -/
lemma kept_push {op : Op} (hop : op.starts = true) :
    Kept c s (s.setStack t (op :: s.stack t)) := by
  refine kept_setStack fun op' _ hstarts => ?_
  rw [List.mem_cons]
  refine ⟨fun hmem => hmem.resolve_left ?_, .inr⟩
  rintro rfl
  exact absurd (hop.symm.trans hstarts) (by decide)

/-- The destructor of the server on the stack of the base loop. -/
lemma kept_destroyServer {order : List ConnId} (h : s.AtPhase 0 .outside) :
    Kept c s { s.setStack (.loop 0) (order.map Op.destroyItem ++ [.removeAcceptor]) with
      objects := { s.objects with serverAlive := false } } := by
  have hstack : Kept c s
      (s.setStack (.loop 0) (order.map Op.destroyItem ++ [.removeAcceptor])) := by
    refine kept_setStack fun op hop hstarts => ?_
    rw [h.2]
    refine ⟨fun hmem => ?_, fun hmem => absurd hmem List.not_mem_nil⟩
    obtain ⟨c', -, rfl⟩ | rfl := mem_destroyServer hmem
    · cases hstarts
    · cases hop
  exact ⟨hstack.created, hstack.state, hstack.channel, hstack.stack, hstack.waiting, hstack.trace⟩

/-- The report of events. -/
lemma kept_poll {active : List (ChannelId × EventMask)} (h : s.AtPhase 0 .polling) :
    Kept c s (s.setPhase 0 (.dispatching active)) :=
  kept_setPhase (by rw [h.1]; rfl)

/-- A call of the application. -/
lemma kept_call {op : Op} (hop : (∃ len, op = .send c len) ∨ op = .shutdown c) :
    Kept c s (s.setStack t (op :: s.stack t)) := by
  refine kept_push ?_
  rcases hop with ⟨len, rfl⟩ | rfl
  · rfl
  · rfl

/-- What is on the stacks after a functor was called. -/
lemma mem_next {t' : Tid} {op : Op} {p : Phase} {f : Functor}
    (h : op ∈ ((s.setPhase l p).setStack (.loop l) [f.op]).stack t') :
    t' = .loop l ∧ op = f.op ∨ op ∈ s.stack t' := by
  rcases mem_setStack h with ⟨ht, hop⟩ | hop
  · exact .inl ⟨ht, List.mem_singleton.mp hop⟩
  · exact .inr hop

/-- The functors that wait after one was called waited before. -/
lemma waiting_next {l' : LoopId} {ran rest : List Functor} {f g : Functor} {ops : List Op}
    (h : s.phase l = .functors ran (f :: rest))
    (hg : g ∈ ((s.setPhase l (.functors (ran ++ [f]) rest)).setStack (.loop l) ops).waiting l') :
    g ∈ s.waiting l' := by
  have hphase : g ∈ (s.setPhase l (.functors (ran ++ [f]) rest)).waiting l' := hg
  rcases waiting_setPhase hphase with hold | ⟨rfl, hnew⟩
  · exact hold
  · exact waiting_of_rest h (List.mem_cons_of_mem _ hnew)

/-- A functor that is called waited. -/
lemma waiting_of_next {ran rest : List Functor} {f : Functor}
    (h : s.phase l = .functors ran (f :: rest)) : f ∈ s.waiting l :=
  waiting_of_rest h List.mem_cons_self

/-- A stack only gains the operation of the functor. -/
lemma mem_next_of_mem {t' : Tid} {op : Op} {p : Phase} {f : Functor}
    (h : s.stack (.loop l) = []) (hop : op ∈ s.stack t') :
    op ∈ ((s.setPhase l p).setStack (.loop l) [f.op]).stack t' := by
  have ht : t' ≠ .loop l := by
    rintro rfl
    rw [h] at hop
    cases hop
  simpa [setStack, setPhase, Function.update_of_ne ht] using hop

/-- A functor that waited still waits, or its operation is on the stack. -/
lemma waiting_or_mem_next {l' : LoopId} {ran rest : List Functor} {f g : Functor}
    (h : s.phase l = .functors ran (f :: rest)) (hg : g ∈ s.waiting l') :
    g ∈ ((s.setPhase l (.functors (ran ++ [f]) rest)).setStack (.loop l) [f.op]).waiting l' ∨
      g.op ∈ ((s.setPhase l (.functors (ran ++ [f]) rest)).setStack (.loop l) [f.op]).stack
        (.loop l) := by
  by_cases hl : l' = l
  · subst hl
    rw [waiting, h] at hg
    rcases List.mem_append.mp hg with hg | hg
    · exact .inl (List.mem_append_left _ hg)
    · rcases List.mem_cons.mp hg with rfl | hg
      · exact .inr (by simp [setStack])
      · exact .inl (List.mem_append_right _ (by simpa [setStack, setPhase, Phase.rest] using hg))
  · exact .inl (by simpa [waiting, setStack, setPhase, Function.update_of_ne hl] using hg)

/-- The functors that wait after an operation waited before or were queued by it. -/
lemma waiting_executed (hR : Registered cfg s) {l' : LoopId} {i : Input} {op : Op}
    {ops ops' : List Op} {o : Objects} {g : Functor} (hrun : Op.Runs cfg s.objects t i op o ops)
    (hg : g ∈ (s.executed t op o ops').waiting l') :
    g ∈ s.waiting l' ∨ op.Queues s.objects.created g := by
  rcases List.mem_append.mp hg with hg | hg
  · rcases hrun.effect.mem_pending hR.objects.loop hg with hg | ⟨hqueues, -⟩
    · exact .inl (List.mem_append_left _ hg)
    · exact .inr hqueues
  · exact .inl (List.mem_append_right _ hg)

lemma InFlight.of_kept (h : Kept c s s') : s'.InFlight c ↔ s.InFlight c := by
  refine or_congr (exists_congr fun l => exists_congr fun len => h.waiting l _ rfl)
    (exists_congr fun t => exists_congr fun len => ?_)
  exact or_congr (h.stack t _ rfl rfl) (h.stack t _ rfl rfl)

lemma Quiet.of_kept (h : Kept c s s') : s'.Quiet c ↔ s.Quiet c := by
  unfold Quiet
  rw [h.state, InFlight.of_kept h]

/-- A functor that waits still waits after an operation. -/
lemma waiting_executed_of_mem {l' : LoopId} {i : Input} {op : Op} {ops ops' : List Op}
    {o : Objects} {g : Functor} (hrun : Op.Runs cfg s.objects t i op o ops)
    (hg : g ∈ s.waiting l') : g ∈ (s.executed t op o ops').waiting l' := by
  rcases List.mem_append.mp hg with hg | hg
  · exact List.mem_append_left _ (hrun.effect.mem_pending_of_mem hg)
  · exact List.mem_append_right _ hg

/-- A `send` starts only on a connection that is connected. -/
theorem InFlight.of_concerns (h : Concerns cfg s c a s') (hR : Registered cfg s)
    (hin : s'.InFlight c) : s.InFlight c ∨ (s.objects.conn c).state = .kConnected := by
  have hkept : Kept c s s' → s.InFlight c := fun hk => (InFlight.of_kept hk).mp hin
  cases h with
  | @next l ran f rest h hf =>
    refine .inl ?_
    rcases hin with ⟨l', len, hg⟩ | ⟨t, len, hop | hop⟩
    · exact .inl ⟨l', len, waiting_next h.1 hg⟩
    · rcases mem_next hop with ⟨-, heq⟩ | hop
      · cases f <;> cases heq
      · exact .inr ⟨t, len, .inl hop⟩
    · rcases mem_next hop with ⟨-, heq⟩ | hop
      · obtain rfl : f = .sendInLoop c len := by
          cases f <;> cases heq
          rfl
        exact .inl ⟨l, len, waiting_of_next h.1⟩
      · exact .inr ⟨t, len, .inr hop⟩
  | @exec t i op rest ops o hstack hready hrun hc =>
    rcases hin with ⟨l', len, hg⟩ | ⟨t', len, hop | hop⟩
    · rcases waiting_executed hR hrun hg with hg | hqueues
      · exact .inl (.inl ⟨l', len, hg⟩)
      · obtain rfl : op = .sendRun c len := by
          cases op with
          | sendBody | handleWrite => rcases hqueues with heq | ⟨n, heq⟩ <;> cases heq
          | _ => cases hqueues <;> rfl
        exact .inl (.inr ⟨t, len, .inl (hstack ▸ List.mem_cons_self)⟩)
    · rcases mem_executed hstack hop with ⟨-, hop⟩ | ⟨hop, -⟩
      · cases hrun.follows hop with
        | sendThere hstate => exact .inr hstate
      · exact .inl (.inr ⟨t', len, .inl hop⟩)
    · rcases mem_executed hstack hop with ⟨-, hop⟩ | ⟨hop, -⟩
      · cases hrun.follows hop with
        | sendHere hstate => exact .inr hstate
      · exact .inl (.inr ⟨t', len, .inr hop⟩)
  | untouched h hnot => exact .inl (hkept h.kept)
  | poll h hnodup hactive => exact .inl (hkept (kept_poll h))
  | dispatch h halive => exact .inl (hkept (kept_dispatch h))
  | call hframe hsees hop => exact .inl (hkept (kept_call hop))
  | destroyServer halive h => exact .inl (hkept (kept_destroyServer h))

/-- A connection that is quiet stays quiet, unless it is established or `shutdown` overwrites its
state while a `send` is on its way. -/
lemma Quiet.executed (hq : s.Quiet c) (hR : Registered cfg s) {i : Input} {op : Op}
    {rest ops : List Op} {o : Objects} (hstack : s.stack t = op :: rest)
    (hready : s.Ready cfg op i) (hrun : Op.Runs cfg s.objects t i op o ops)
    (hop : op.conn? = some c) (hnot : op ≠ .connectEstablished c)
    (hstore : op = .setDisconnecting c → (s.objects.conn c).state = .kDisconnected →
      ¬ s.InFlight c) : (s.executed t op o (ops ++ rest)).Quiet c := by
  have hconcerns : Concerns cfg s c (.exec t i) (s.executed t op o (ops ++ rest)) :=
    .exec hstack hready hrun (.inl hop)
  have hsilent : ¬ s.InFlight c → ¬ (s.executed t op o (ops ++ rest)).InFlight c := by
    intro hnot hin
    exact (InFlight.of_concerns hconcerns hR hin).elim hnot hq.ne_kConnected
  have hchange := hrun.stateChange (hR.lt_of_ready hready c hop)
  unfold Quiet
  show (o.conn c).state = .kDisconnected ∨ (o.conn c).state = .kDisconnecting ∧ _
  generalize (o.conn c).state = state at hchange
  cases hchange with
  | same h => exact hq.imp_right (And.imp_right hsilent)
  | connectEstablished => exact absurd rfl hnot
  | destroyConnected => exact .inl rfl
  | handleClose => exact .inl rfl
  | setDisconnecting =>
    refine .inr ⟨rfl, hsilent ?_⟩
    rcases hq with h | ⟨-, h⟩
    · exact hstore rfl h
    · exact h

end Server

end HzhMuduo
