import HzhMuduo.OutgoingStream
import HzhMuduo.Server.Progress

/-!
# What the kernel is asked to watch

A connection that has something to write must wait for the kernel to take it, and one that has
nothing must not, or the loop would spin.  The write interest of a channel is in step with the
output buffer from the moment the connection is accepted until it is closed (`Attentive`), so
that at `poll` the interest set of a single-threaded server is determined by the map and the
output buffers (`epoll_iff_of_polling`).
-/

namespace HzhMuduo

open MachineWord TcpConnection TransitionSystem

namespace Channel

variable {ch ch' : Channel}

/-- The channel asks for reading, writing, both or nothing. -/
def Plain (ch : Channel) : Prop :=
  ch.events = kNoneEvent ∨ ch.events = kReadEvent ∨ ch.events = kWriteEvent ∨
    ch.events = kReadEvent ||| kWriteEvent

lemma Plain.change {c : ConnId} {op : Op} (h : ch.Plain) (hch : Op.ChannelChange c ch op ch') :
    ch'.Plain := by
  cases hch with
  | same | channelRemove => exact h
  | destroyConnected | handleClose => exact .inl rfl
  | enableReading | enableWriteing | disableWriteing =>
    simp only [Plain] at h ⊢
    rcases h with h | h | h | h <;> rw [h] <;> decide

/-- The mask of a plain channel that is read from. -/
lemma Plain.events_eq (h : ch.Plain) (hreading : ch.isReading = true) :
    ch.events = if ch.isWriting = true then kReadEvent ||| kWriteEvent else kReadEvent := by
  have hmask : ∀ m : EventMask, m = kNoneEvent ∨ m = kReadEvent ∨ m = kWriteEvent ∨
      m = kReadEvent ||| kWriteEvent → m.has kReadEvent = true →
      m = if m.has kWriteEvent = true then kReadEvent ||| kWriteEvent else kReadEvent := by
    rintro m (rfl | rfl | rfl | rfl) <;> decide
  exact hmask ch.events h hreading

end Channel

/-- The events the channel of an open connection should ask for. -/
def TcpConnection.interest (conn : TcpConnection) : EventMask :=
  if conn.outputBuffer.readableBytes = 0 then Channel.kReadEvent
  else Channel.kReadEvent ||| Channel.kWriteEvent

namespace TcpConnection.View

variable {r r' : View} {self : ConnId}

/-- The rest of a message and the write interest come together. -/
lemma Interested.sendBody {data : Memory} {len : ℤ} {w : WriteResult} (hi : r.Interested)
    (hwf : r.conn.outputBuffer.WellFormed) (h : r.sendBody self data len w = .ok r') :
    r'.Interested := by
  rcases sendBody_cases h with ⟨-, -, rfl⟩ | ⟨-, nwrote, remaining, fs, -, -, hrest⟩
  · exact hi
  · obtain ⟨-, hbuffered, -, -, hwriting⟩ := bufferRest_stream
      (r := (r.transmit (data.bytes 0 nwrote)).queueAll fs) hwf hrest
    have hbuffered : r'.buffered = r.buffered ++ data.bytes nwrote remaining := hbuffered
    have hwriting : r'.conn.channel.isWriting = true ↔
        r.conn.channel.isWriting = true ∨ remaining ≠ 0 := hwriting
    have hlen : data.bytes nwrote remaining = [] ↔ remaining = 0 := by
      rw [← List.length_eq_zero_iff, Memory.length_bytes]
    unfold Interested at hi ⊢
    rw [hwriting, hbuffered, hi, ne_eq, ne_eq, ne_eq, List.append_eq_nil_iff, hlen]
    exact Decidable.not_and_iff_or_not.symm

/-- The channel asks for what the output buffer calls for, and maybe for reading. -/
structure Attentive (r : View) : Prop where
  plain : r.conn.channel.Plain
  interested : r.Interested

lemma Attentive.congr (h : r.Attentive) (hconn : r'.conn = r.conn) : r'.Attentive :=
  ⟨hconn ▸ h.plain, h.interested.congr (congrArg _ hconn) (by rw [hconn])⟩

lemma attentive_new {loop : LoopId} {name : List Char} {fd : Fd} {flag : Bool}
    (hconn : r.conn = .new loop name fd flag) : r.Attentive := by
  refine ⟨hconn ▸ .inl rfl, .of_empty ?_ ?_⟩
  · rw [hconn]
    exact EventMask.has_kNoneEvent _
  · rw [buffered, hconn]
    exact Buffer.readable_new

/-- An attentive channel that is read from asks for just the right events. -/
lemma Attentive.events_eq (h : r.Attentive) (hwf : r.conn.outputBuffer.WellFormed)
    (hreading : r.conn.channel.isReading = true) : r.conn.channel.events = r.conn.interest := by
  have hempty : r.conn.outputBuffer.readableBytes = 0 ↔ r.buffered = [] := by
    rw [hwf.readableBytes_eq_length, List.length_eq_zero_iff]
    rfl
  rw [h.plain.events_eq hreading, interest]
  by_cases hnil : r.buffered = []
  · rw [if_neg (fun hon => h.interested.mp hon hnil), if_pos (hempty.mpr hnil)]
  · rw [if_pos (h.interested.mpr hnil), if_neg (fun hz => hnil (hempty.mp hz))]

end TcpConnection.View

/-! ### One operation -/

section Operation

variable {cfg : Config} {o o' : Objects} {t : Tid} {i : Input} {op : Op} {ops : List Op} {c : ConnId}

/-- The operations that move outgoing data or close the channel. -/
def Op.sends : Op → Bool
  | .sendBody _ _ | .handleWrite _ | .handleClose _ | .destroyConnected _ => true
  | _ => false

/-- Switching reading on does not change the interest in writing. -/
lemma Op.ChannelChange.isWriting_eq {ch ch' : Channel} (h : Op.ChannelChange c ch op ch')
    (hplain : ch.Plain) (hsends : op.sends = false) : ch'.isWriting = ch.isWriting := by
  cases h with
  | same | channelRemove => rfl
  | enableReading =>
    simp only [Channel.Plain] at hplain
    simp only [Channel.isWriting]
    rcases hplain with h | h | h | h <;> rw [h] <;> decide
  | _ => cases hsends

/-- The other operations leave the output buffer alone. -/
lemma Op.Runs.outputBuffer_eq (h : Op.Runs cfg o t i op o' ops) (hop : op.conn? = some c)
    (hsends : op.sends = false) : (o'.conn c).outputBuffer = (o.conn c).outputBuffer := by
  cases h with
  | connectEstablished | setDisconnecting =>
    obtain rfl := Option.some.inj hop
    rw [Objects.setView_conn_self]
    rfl
  | enableReading hv =>
    obtain rfl := Option.some.inj hop
    obtain ⟨p, ch, -, rfl⟩ := View.tieAndEnableReading_cases hv
    rw [Objects.setView_conn_self]
    rfl
  | channelRemove hv =>
    obtain rfl := Option.some.inj hop
    obtain ⟨p, ch, -, rfl⟩ := View.channelRemove_cases hv
    rw [Objects.setView_conn_self]
    rfl
  | readSome hne hv =>
    obtain rfl := Option.some.inj hop
    obtain ⟨b, rfl⟩ := View.readInput_cases hv
    rw [Objects.setView_conn_self]
    rfl
  | afterDrain =>
    obtain rfl := Option.some.inj hop
    obtain ⟨socket, heq⟩ := (o.view _).afterDrain_cases
    rw [Objects.setView_conn_self, heq]
    rfl
  | shutdownInLoop =>
    obtain rfl := Option.some.inj hop
    obtain ⟨socket, heq⟩ := (o.view _).shutdownInLoop_cases
    rw [Objects.setView_conn_self, heq]
    rfl
  | acceptedHere | acceptedThere => cases hop
  | _ => first | rfl | cases hsends

/-- Until a connection is closed, its operations keep the interest in step with the buffer. -/
lemma Op.Runs.attentive_self (h : Op.Runs cfg o t i op o' ops) (hW : o.WellFormed cfg)
    (hc : c < o.created) (hop : op.conn? = some c) (hwf : (o.conn c).outputBuffer.WellFormed)
    (hclose : op ≠ .handleClose c) (hdestroy : op ≠ .destroyConnected c)
    (hA : (o.view c).Attentive) : (o'.view c).Attentive := by
  have hchannel := h.channelChange hW hc
  refine ⟨hA.plain.change hchannel, ?_⟩
  by_cases hsends : op.sends = true
  · cases h with
    | sendBody hv =>
      obtain rfl := Option.some.inj hop
      refine (hA.interested.sendBody hwf hv).congr ?_ ?_ <;>
      · rw [Objects.view, Objects.setView_conn_self]
    | writeSome hv | writeAll hv =>
      obtain rfl := Option.some.inj hop
      obtain ⟨-, hi, -⟩ := View.writeOutput_stream (r := o.view _) hwf hA.interested hv
      refine hi.congr ?_ ?_ <;>
      · rw [Objects.view, Objects.setView_conn_self]
    | handleClose =>
      obtain rfl := Option.some.inj hop
      exact absurd rfl hclose
    | destroyConnected =>
      obtain rfl := Option.some.inj hop
      exact absurd rfl hdestroy
    | _ => cases hsends
  · have hsends : op.sends = false := by simpa using hsends
    exact hA.interested.congr (h.outputBuffer_eq hop hsends)
      (hchannel.isWriting_eq hA.plain hsends)

/-- An operation of another connection. -/
lemma Op.Runs.conn_eq_of_other (h : Op.Runs cfg o t i op o' ops) (hop : op.conn? ≠ some c)
    (hnew : ¬ op.Creates o o' c) : o'.conn c = o.conn c := by
  by_cases haccept : op = .accept
  · subst haccept
    cases h with
    | acceptFailed => rfl
    | acceptedHere hid ht =>
      refine (Op.Runs.acceptedHere hid ht).effect.conn_of_ne hop fun _ hc => hnew ?_
      exact ⟨rfl, hc, Objects.newConnection_created ..⟩
    | acceptedThere hid ht =>
      refine (Op.Runs.acceptedThere hid ht).effect.conn_of_ne hop fun _ hc => hnew ?_
      exact ⟨rfl, hc, Objects.newConnection_created ..⟩
  · exact h.effect.conn_of_ne hop fun heq => absurd heq haccept

end Operation

namespace Server

variable {cfg : Config} {s s' : Server} {a : Act} {c : ConnId}

/-! ### Whole runs -/

/-- Every settled step keeps the interest in step with the buffer, or closes the connection. -/
lemma attentive_step (hA : (s.objects.view c).Attentive) (hL : Life s c) (hR : Registered cfg s)
    (hS : Shape cfg s) (hsane : s.objects.Sane) (hstep : Step cfg s a s') :
    (s'.objects.view c).Attentive ∨ Closed s c ∨ Closed s' c := by
  have hsetConn : ∀ {c' : ConnId} {x : TcpConnection}, x.channel = (s.objects.conn c').channel →
      x.outputBuffer = (s.objects.conn c').outputBuffer →
      ((s.setConn c' x).objects.view c).Attentive := by
    intro c' x hchannel hbuffer
    by_cases hc : c = c'
    · subst hc
      have hconn : ((s.setConn c x).objects.view c).conn = x := Function.update_self ..
      refine ⟨?_, hA.interested.congr ?_ ?_⟩
      · rw [hconn, hchannel]
        exact hA.plain
      · rw [hconn, hbuffer]
        rfl
      · rw [hconn, hchannel]
        rfl
    · exact hA.congr (Function.update_of_ne hc _ _)
  cases hstep with
  | @exec t i op rest o ops hstack hready hrun =>
    have hmem : op ∈ s.stack t := hstack ▸ List.mem_cons_self
    by_cases hnew : op.Creates s.objects o c
    · obtain ⟨fd, hconn⟩ := hnew.conn_eq hrun
      exact .inl (View.attentive_new hconn)
    by_cases hop : op.conn? = some c
    · by_cases hclose : op = .handleClose c
      · subst hclose
        right
        cases hL with
        | unborn hU => exact absurd rfl (hU.stack t _ hmem)
        | early hE => cases (hE.stack t _ hmem rfl).2
        | up hU =>
          exact .inr (hU.step_of_closes hR hS (.exec hstack hready hrun) ⟨t, i, rest, rfl, hstack⟩)
        | closed hC => exact .inl hC
      · have hdestroy : op ≠ .destroyConnected c := by
          rintro rfl
          exact Sequential.not_destroyConnected hL t hmem
        exact .inl (hrun.attentive_self hR.objects (hR.lt_of_ready hready c hop) hop (hsane c).2
          hclose hdestroy hA)
    · exact .inl (hA.congr (hrun.conn_eq_of_other hop hnew))
  | setHighWaterMark hframe hsees halive => exact .inl (hsetConn rfl rfl)
  | retrieve hframe halive => exact .inl (hsetConn rfl rfl)
  | _ => exact .inl (hA.congr rfl)

/-- In settled runs every connection is attentive until it is closed. -/
theorem attentive_of_reach (hcfg : cfg.numThreads = 0) (h : (system cfg).ReachWhere Settled s) :
    ∀ c, (s.objects.view c).Attentive ∨ Closed s c := by
  refine h.invariant_of (I := fun s => ∀ c, (s.objects.view c).Attentive ∨ Closed s c)
    (J := fun s => (∀ c, Life s c) ∧ (Registered cfg s ∧ Shape cfg s ∧ Rhythm s) ∧ s.objects.Sane)
    (fun s hs => ⟨life_of_reach hcfg hs, ⟨registered_of_reach hs.reach, shape_of_reach hs.reach,
      rhythm_of_reach hs.reach⟩, sane_of_reach hs.reach⟩) ?_ ?_
  · rintro s rfl c
    exact .inl (View.attentive_new rfl)
  · rintro s a s' ⟨hL, ⟨hR, hS, hrhythm⟩, hsane⟩ - hI hok hs c
    have hclosed : Closed s c → Closed s' c := fun hC =>
      hC.step hR hS hok (step_cases hs) hrhythm
    rcases hI c with hA | hC
    · rcases attentive_step hA (hL c) hR hS hsane (step_cases hs) with hA' | hC | hC'
      · exact .inl hA'
      · exact .inr (hclosed hC)
      · exact .inr hC'
    · exact .inr (hclosed hC)

/-- A connection that is up asks for just the right events. -/
lemma Up.events_eq (hU : Up s c) (hsane : s.objects.Sane)
    (hA : (s.objects.view c).Attentive ∨ Closed s c) :
    (s.objects.conn c).channel.events = (s.objects.conn c).interest :=
  (hA.resolve_right hU.not_closed).events_eq (hsane c).2 hU.reading

/-- The acceptor listens as long as the server is there. -/
lemma acceptChannel_of_reach (hcfg : cfg.numThreads = 0) (h : (system cfg).ReachWhere Ordinary s) :
    s.objects.acceptChannel =
      { Channel.new cfg.listenFd with events := Channel.kReadEvent, index := kAdded } := by
  refine h.invariant_of (I := fun s => s.objects.acceptChannel =
      { Channel.new cfg.listenFd with events := Channel.kReadEvent, index := kAdded })
    (J := fun s => Shape cfg s ∧ Sequential s)
    (fun s hs => ⟨shape_of_reach hs.reach, sequential_of_reach hcfg hs⟩) ?_ ?_
  · rintro s rfl
    rfl
  · rintro s a s' ⟨hS, hI⟩ - hlisten - hs
    cases step_cases hs with
    | @exec t i op rest o ops hstack hready hrun =>
      have hmem : op ∈ s.stack t := hstack ▸ List.mem_cons_self
      rw [← hlisten]
      cases hrun with
      | removeAcceptor =>
        obtain rfl : t = .loop 0 := hS.eq_base hmem rfl
        obtain ⟨-, -, hdead⟩ := hS.fits _ _ hmem
        rw [hI.serverAlive] at hdead
        cases hdead rfl
      | @acceptedHere fd hid ht | @acceptedThere fd hid ht =>
        obtain ⟨o₁, rfl, ⟨-, heq⟩ | ⟨-, heq⟩⟩ := s.objects.newConnection_cases cfg t fd
        · rw [heq]
          rfl
        · rw [heq]
          rfl
      | _ => rfl
    | _ => exact hlisten

/-- When a single-threaded server is about to poll, the interest set of its epoll instance has
the listening socket, and every connection in the map, to be read from, and to be written to if
and only if its output buffer holds something; and nothing else but the loop's own eventfd, which
is not part of this model. -/
theorem epoll_iff_of_polling (hcfg : cfg.numThreads = 0)
    (h : (system cfg).ReachWhere Ordinary s) (hphase : s.AtPhase 0 .polling) (fd : Fd)
    (m : EventMask) (k : ChannelId) :
    (s.objects.poller 0).epoll fd = some (m, k) ↔
      (k = .acceptor ∧ fd = cfg.listenFd ∧ m = Channel.kReadEvent) ∨
      ∃ c, k = .conn c ∧ s.objects.InTable c ∧ fd = (s.objects.conn c).channel.fd ∧
        m = (s.objects.conn c).interest := by
  have hledger := ledger_of_reach hcfg h
  rw [hledger.agree.epoll]
  cases k with
  | acceptor =>
    rw [Objects.chan, acceptChannel_of_reach hcfg h]
    simp [Channel.new, eq_comm]
  | conn c =>
    have hsettled := settled_of_ordinary h
    simp only [Objects.chan, reduceCtorEq, false_and, false_or, ChannelId.conn.injEq,
      exists_eq_left']
    rcases hledger.polling_cases hphase c with hU | ⟨htable, -, hindex⟩
    · have hevents := hU.events_eq (sane_of_reach h.reach) (attentive_of_reach hcfg hsettled c)
      rw [hevents]
      constructor
      · rintro ⟨rfl, -, rfl⟩
        exact ⟨hU.table, rfl, rfl⟩
      · rintro ⟨-, rfl, rfl⟩
        exact ⟨rfl, hU.index, rfl⟩
    · refine iff_of_false ?_ ?_
      · rintro ⟨-, hadded, -⟩
        rw [hindex] at hadded
        exact absurd hadded (by decide)
      · rintro ⟨hin, -⟩
        exact htable hin

/-- The application answers a message, and the kernel takes half of the answer. -/
def halfWrittenRun : List Act :=
  acceptedRun ++ [.poll 0 [(4, EPOLLIN)], .dispatch 0, .exec (.loop 0) (.read (.read [7])),
    .exec (.loop 0) .none, .user (.loop 0) (.send 0 2), .exec (.loop 0) .none,
    .exec (.loop 0) .none, .exec (.loop 0) (.write (.ofString [65, 66]) (.wrote 1)),
    .user (.loop 0) .ret, .exec (.loop 0) .none, .exec (.loop 0) .none, .swap 0, .release 0]

theorem epoll_iff_of_polling_halfWrittenRun :
    ∃ s, (system (exampleConfig 0 false)).ReachWhere Ordinary s ∧ s.AtPhase 0 .polling ∧
      (s.objects.poller 0).epoll 4 = some (Channel.kReadEvent ||| Channel.kWriteEvent, .conn 0) ∧
      ∀ fd m k, (s.objects.poller 0).epoll fd = some (m, k) ↔
        (k = .acceptor ∧ fd = (exampleConfig 0 false).listenFd ∧ m = Channel.kReadEvent) ∨
        ∃ c, k = .conn c ∧ s.objects.InTable c ∧ fd = (s.objects.conn c).channel.fd ∧
          m = (s.objects.conn c).interest := by
  obtain ⟨s, hs, hobserved⟩ := exists_reach_of_run
    (M := (system (exampleConfig 0 false)).restrict Ordinary) (s := new (exampleConfig 0 false))
    (v := (true, some (Channel.kReadEvent ||| Channel.kWriteEvent, .conn 0))) halfWrittenRun
    (fun s => (decide (s.AtPhase 0 .polling), (s.objects.poller 0).epoll 4)) rfl
    (by decide +kernel)
  obtain ⟨hphase, hentry⟩ := Prod.mk.inj hobserved
  have hreach := Reach.of_restrict hs
  have hpolling := of_decide_eq_true hphase
  exact ⟨s, hreach, hpolling, hentry, epoll_iff_of_polling rfl hreach hpolling⟩

end Server

end HzhMuduo
