import HzhMuduo.Server.Existence
import HzhMuduo.Server.Registry

/-!
# The loop is never stuck

An operation of the model has no result where the source has none: it would use an object that is
gone, `epoll_ctl` would refuse and `LOG_FATAL` end the program, or a vector would throw.  In the
runs of a single-threaded server that is not destroyed none of this happens.  Whatever the kernel
answers, as long as the vectors can hold what it delivers (`Answered`), the next step of the loop
can be taken (`exists_nextAct`).
-/

namespace HzhMuduo

open MachineWord TcpConnection TransitionSystem

namespace Buffer

variable {b : Buffer}

instance (b : Buffer) (len : ℕ) : Decidable (b.Overflows len) := inferInstanceAs (Decidable (_ ∧ _))

/-- Less than what fits, fits. -/
lemma Overflows.mono {m n : ℕ} (h : b.Overflows m) (hmn : m ≤ n) : b.Overflows n :=
  ⟨by have := h.1; omega, by have := h.2; omega⟩

/-- What a vector can hold is far from the end of the address space. -/
lemma WellFormed.lt_of_not_overflows (h : b.WellFormed) {n : ℕ} (hn : ¬ b.Overflows n) :
    n < 2 ^ 63 := by
  by_contra hlarge
  have h₁ := h.prepend_le
  have h₂ := h.reader_le
  have h₃ := h.writer_le
  have h₄ := h.length_le
  simp only [maxSize] at h₄
  refine hn ⟨?_, ?_⟩
  · omega
  · simp only [maxSize]
    omega

end Buffer

/-! ### The member functions return -/

namespace TcpConnection.View

variable {r : View} {self : ConnId} {data : Memory} {w : WriteResult}

/-- Whatever events the channel asks for, the kernel accepts them. -/
def Accepted (self : ConnId) (r : View) : Prop :=
  ∀ ch : Channel, ch.fd = r.conn.channel.fd → ch.index = r.conn.channel.index →
    ∃ q, r.poller.updateChannel (.conn self) ch = .ok q

lemma exists_withPoller
    {act : EPOLLPoller ChannelId → Channel → Except Fault (EPOLLPoller ChannelId × Channel)}
    (h : ∃ q, act r.poller r.conn.channel = .ok q) : ∃ r', r.withPoller act = .ok r' := by
  obtain ⟨⟨p, ch⟩, hact⟩ := h
  exact ⟨_, withPoller_eq_ok_iff.mpr ⟨p, ch, hact, rfl⟩⟩

lemma Accepted.exists_tieAndEnableReading (h : r.Accepted self) :
    ∃ r', r.tieAndEnableReading self = .ok r' :=
  exists_withPoller (h _ rfl rfl)

lemma Accepted.exists_closeChannel (h : r.Accepted self) : ∃ r', r.closeChannel self = .ok r' :=
  exists_withPoller (h _ rfl rfl)

lemma exists_channelRemove (self : ConnId) (r : View) : ∃ r', r.channelRemove self = .ok r' :=
  exists_withPoller (EPOLLPoller.exists_removeChannel _ _ _)

/-- What the vector can hold is read. -/
lemma exists_readInput {bytes : List UInt8} (hwf : r.conn.inputBuffer.WellFormed)
    (hfits : ¬ r.conn.inputBuffer.Overflows bytes.length) : ∃ r', r.readInput bytes = .ok r' := by
  rcases Buffer.readFd_cases hwf (hwf.lt_of_not_overflows hfits) with ⟨-, b, hb, -⟩ | ⟨hover, -⟩
  · refine ⟨{ r with conn := { r.conn with inputBuffer := b } }, ?_⟩
    rw [readInput, hb, Except.ok_bind]
    rfl
  · exact absurd hover hfits

lemma Accepted.exists_writeOutput (h : r.Accepted self) :
    ∃ x, r.writeOutput self w = .ok x := by
  unfold writeOutput
  split
  · dsimp only
    split
    · obtain ⟨r', hr'⟩ : ∃ r', ((r.transmit (r.conn.outputBuffer.readable.take w.taken)).setOutputBuffer
          (r.conn.outputBuffer.retrieve w.taken)).withPoller
          (fun p ch => p.disableWriteing (.conn self) ch) = .ok r' :=
        exists_withPoller (h _ rfl rfl)
      exact ⟨_, Except.bind_eq_ok_iff.mpr ⟨r', hr', rfl⟩⟩
    · exact ⟨_, rfl⟩
  · exact ⟨_, rfl⟩

/-- What is left of a message is appended, when the vector can hold it. -/
lemma Accepted.exists_bufferRest (h : r.Accepted self) {nwrote remaining : ℕ}
    (hwf : r.conn.outputBuffer.WellFormed)
    (hfits : ¬ r.conn.outputBuffer.Overflows remaining) :
    ∃ r', r.bufferRest self data nwrote remaining = .ok r' := by
  unfold bufferRest
  split
  · exact ⟨r, rfl⟩
  · obtain ⟨fs, -, hsignal⟩ := signalHighWater_eq self remaining r
    have hlen : (data.bytes nwrote remaining).length = remaining := Memory.length_bytes _ _ _
    have hsmall : (data.bytes nwrote remaining).length < 2 ^ 63 :=
      hwf.lt_of_not_overflows (hlen.symm ▸ hfits)
    rcases Buffer.append_cases hwf hsmall with ⟨-, b, hb, -⟩ | ⟨hover, -⟩
    · have hb' : (r.queueAll fs).conn.outputBuffer.append (data.bytes nwrote remaining) = .ok b := hb
      dsimp only
      rw [hsignal, hb', Except.ok_bind]
      split
      · exact ⟨_, rfl⟩
      · exact exists_withPoller (h _ rfl rfl)
    · rw [hlen] at hover
      exact absurd hover hfits

/-- What the kernel does not take fits, if the message does. -/
lemma not_overflows_rest {b : Buffer} {len : ℤ} {n : ℕ} (hn : n ≤ toSize len)
    (hfits : ¬ b.Overflows (toSize len)) : ¬ b.Overflows (toSize (len - n)) := by
  intro hover
  refine hfits (hover.mono ?_)
  rw [toSize_sub hn]
  exact Nat.sub_le _ _

lemma Accepted.exists_sendBody (h : r.Accepted self) {len : ℤ}
    (hwf : r.conn.outputBuffer.WellFormed) (hoffer : w.taken ≤ toSize len)
    (hfits : ¬ r.conn.outputBuffer.Overflows (toSize len)) :
    ∃ r', r.sendBody self data len w = .ok r' := by
  unfold sendBody
  split
  · cases w with
    | wrote n =>
      have hrest := not_overflows_rest hoffer hfits
      dsimp only
      split
      · obtain ⟨fs, -, hsignal⟩ := signalWriteComplete_eq self (r.transmit (data.bytes 0 n))
        rw [hsignal]
        exact Accepted.exists_bufferRest (r := (r.transmit (data.bytes 0 n)).queueAll fs) h hwf hrest
      · exact Accepted.exists_bufferRest (r := r.transmit (data.bytes 0 n)) h hwf hrest
    | failed e =>
      dsimp only
      split
      · exact ⟨r, rfl⟩
      · exact h.exists_bufferRest hwf hfits
  · exact h.exists_bufferRest hwf hfits

/-- Both buffers are well formed. -/
def Sane (conn : TcpConnection) : Prop := conn.inputBuffer.WellFormed ∧ conn.outputBuffer.WellFormed

lemma sane_sendBody {r' : View} {len : ℤ} (h : Sane r.conn)
    (hr : r.sendBody self data len w = .ok r') : Sane r'.conn := by
  rcases sendBody_cases hr with ⟨-, -, rfl⟩ | ⟨-, n, m, fs, -, -, hrest⟩
  · exact h
  · rcases bufferRest_cases hrest with ⟨-, rfl⟩ | ⟨-, fs', b, p, ch, -, happend, -, rfl⟩
    · exact h
    · exact ⟨h.1, (Buffer.append_spec h.2 happend).1⟩

lemma sane_writeOutput {r' : View} {drained : Bool} (h : Sane r.conn)
    (hr : r.writeOutput self w = .ok (r', drained)) : Sane r'.conn := by
  rcases writeOutput_cases hr with ⟨-, rfl, -⟩ | ⟨-, -, r₁, rfl, hrest⟩
  · exact h
  · have hwf := Buffer.retrieve_wellFormed h.2 w.taken
    rcases hrest with ⟨-, rfl, -⟩ | ⟨-, -, fs, p, ch, -, -, rfl⟩
    · exact ⟨h.1, hwf⟩
    · exact ⟨h.1, hwf⟩

lemma sane_readInput {r' : View} {bytes : List UInt8} (h : Sane r.conn)
    (hlen : bytes.length ≤ r.conn.inputBuffer.readCapacity) (hr : r.readInput bytes = .ok r') :
    Sane r'.conn := by
  obtain ⟨b, hb, hr⟩ := Except.bind_eq_ok_iff.mp hr
  obtain rfl := Except.ok.inj hr
  have hsmall := Nat.lt_of_le_of_lt hlen h.1.readCapacity_lt
  rcases Buffer.readFd_cases h.1 hsmall with ⟨-, b', hb', happended⟩ | ⟨-, herror⟩
  · obtain rfl := Except.ok.inj (hb'.symm.trans hb)
    exact ⟨happended.wellFormed, h.2⟩
  · cases herror.symm.trans hb

end TcpConnection.View

/-! ### The buffers of all connections -/

section Buffers

variable {cfg : Config} {o o' : Objects} {t : Tid} {i : Input} {op : Op} {ops : List Op}

namespace Objects

/-- The buffers of all connections are well formed. -/
def Sane (o : Objects) : Prop := ∀ c, View.Sane (o.conn c)

lemma Sane.update (h : o.Sane) {c : ConnId} {x : TcpConnection} (hx : View.Sane x) (c' : ConnId) :
    View.Sane (Function.update o.conn c x c') := by
  by_cases hc : c' = c
  · subst hc
    rwa [Function.update_self]
  · rw [Function.update_of_ne hc]
    exact h c'

lemma Sane.newConnection (h : o.Sane) (cfg : Config) (t : Tid) (fd : Fd) :
    (o.newConnection cfg t fd).1.Sane := by
  have hnew : View.Sane (.new 0 (o.nextName cfg) fd cfg.writeCompleteCallback) :=
    ⟨Buffer.wellFormed_new, Buffer.wellFormed_new⟩
  obtain ⟨o₁, rfl, ⟨-, heq⟩ | ⟨-, heq⟩⟩ := o.newConnection_cases cfg t fd
  · rw [heq]
    exact h.update hnew
  · rw [heq]
    exact h.update hnew

end Objects

/-- `readFd` never stores more than it offered room for. -/
lemma Op.length_le_of_run {c : ConnId} {bytes : List UInt8} (hne : bytes ≠ []) {x : Objects × List Op}
    (h : (Op.handleRead c).run cfg o t (.read (.read bytes)) = some x) :
    bytes.length ≤ (o.conn c).inputBuffer.readCapacity := by
  cases bytes with
  | nil => exact absurd rfl hne
  | cons b bytes => exact (Option.ite_none_right_eq_some.mp h).1

/-- Every operation keeps the buffers well formed. -/
lemma Objects.Sane.run (h : o.Sane) (hrun : op.run cfg o t i = some (o', ops)) : o'.Sane := by
  cases Op.run_cases hrun with
  | connectEstablished | setDisconnecting => exact h.update (h _)
  | enableReading hv =>
    obtain ⟨p, ch, -, rfl⟩ := View.tieAndEnableReading_cases hv
    exact h.update (h _)
  | destroyConnected hv | handleClose hv =>
    obtain ⟨p, ch, -, rfl⟩ := View.closeChannel_cases hv
    exact h.update (h _)
  | channelRemove hv =>
    obtain ⟨p, ch, -, rfl⟩ := View.channelRemove_cases hv
    exact h.update (h _)
  | @readSome c v bytes hne hv =>
    exact h.update (View.sane_readInput (r := o.view c) (h c) (Op.length_le_of_run hne hrun) hv)
  | writeSome hv | writeAll hv => exact h.update (View.sane_writeOutput (h _) hv)
  | sendBody hv => exact h.update (View.sane_sendBody (h _) hv)
  | afterDrain =>
    obtain ⟨socket, heq⟩ := (o.view _).afterDrain_cases
    rw [heq]
    exact h.update (h _)
  | shutdownInLoop =>
    obtain ⟨socket, heq⟩ := (o.view _).shutdownInLoop_cases
    rw [heq]
    exact h.update (h _)
  | acceptedHere | acceptedThere => exact h.newConnection cfg t _
  | _ => exact h

end Buffers

namespace Server

variable {cfg : Config} {s s' : Server} {a : Act} {c : ConnId} {op : Op} {i : Input}

/-- The buffers are well formed in every run, with any number of threads. -/
lemma sane_of_reach (h : (system cfg).Reach s) : s.objects.Sane := by
  have hsetConn : ∀ {s : Server} {c : ConnId} {x : TcpConnection}, s.objects.Sane → View.Sane x →
      (s.setConn c x).objects.Sane := fun h hx => h.update hx
  refine h.invariant (I := fun s => s.objects.Sane) ?_ fun s a s' hI hs => ?_
  · rintro s rfl c
    exact ⟨Buffer.wellFormed_new, Buffer.wellFormed_new⟩
  · cases step_cases hs with
    | @exec t i op rest o ops hstack hready hrun =>
      have hexec : s.exec cfg t i = some (s.executed t op o (ops ++ rest)) := hs
      rw [Server.exec, hstack] at hexec
      obtain ⟨-, hexec⟩ := Option.ite_none_right_eq_some.mp hexec
      obtain ⟨⟨o', ops'⟩, hrun', heq⟩ := Option.map_eq_some_iff.mp hexec
      have hobjects : o' = o := congrArg Server.objects heq
      exact hobjects ▸ hI.run hrun'
    | setHighWaterMark hframe hsees halive => exact hsetConn hI (hI _)
    | @retrieve t c len cs hframe halive =>
      exact hsetConn hI ⟨Buffer.retrieve_wellFormed (hI c).1 len, (hI c).2⟩
    | _ => exact hI

/-! ### Nothing is queued on a raw object -/

/-- No functor of the base loop is bound to a raw object. -/
def Unbound (s : Server) : Prop :=
  ∀ f, f ∈ s.objects.pendingFunctors 0 ∨ f ∈ (s.phase 0).batch → f.rawConn? = none

lemma Unbound.step (h : Unbound s) (hI : Supplied s) (hR : Registered cfg s)
    (hstep : Step cfg s a s') (ha : a.tid = .loop 0) : Unbound s' := by
  have hsetPhase : ∀ {l : LoopId} {p : Phase}, (∀ f ∈ p.batch, f.rawConn? = none) →
      Unbound (s.setPhase l p) := by
    intro l p hp f hf
    rcases hf with hf | hf
    · exact h f (.inl hf)
    · rcases mem_batch_setPhase hf with ⟨-, hf⟩ | hf
      · exact hp f hf
      · exact h f (.inr hf)
  cases hstep with
  | enter hl hphase | leave hphase | poll hphase hnodup hactive | release hphase =>
    exact hsetPhase fun f hf => absurd hf List.not_mem_nil
  | dispatch hphase halive =>
    exact hsetPhase fun f hf => absurd hf List.not_mem_nil
  | @swap l hphase =>
    obtain rfl := Tid.loop.inj ha
    rintro f (hf | hf)
    · simp [Objects.clearPending] at hf
    · exact h f (.inl (by simpa [setPhase, Phase.batch] using hf))
  | @next l ran f rest hphase =>
    obtain rfl := Tid.loop.inj ha
    have hset : Unbound (s.setPhase 0 (.functors (ran ++ [f]) rest)) := by
      refine hsetPhase fun g hg => h g (.inr ?_)
      rw [hphase.1]
      simpa [Phase.batch] using hg
    exact hset
  | @exec t i op rest o ops hstack hready hrun =>
    obtain rfl : t = .loop 0 := ha
    rintro f (hf | hf)
    · rcases hrun.effect.mem_pending hR.objects.loop hf with hold | ⟨hqueues, -⟩
      · exact h f (.inl hold)
      · cases hraw : f.rawConn? with
        | none => rfl
        | some c =>
          rcases Backed.of_queues hqueues hraw with ⟨len, rfl⟩ | rfl
          · exact absurd (hstack ▸ List.mem_cons_self) (hI.direct c len)
          · cases hrun with
            | shutdownHere ht => exact hraw ▸ h f (.inl hf)
            | shutdownThere ht => exact absurd (by rw [hR.objects.loop]) ht
    · exact h f (.inr hf)
  | @queueInLoop t l cs' cs buffer hframe hl hsees =>
    rintro f (hf | hf)
    · rcases Objects.mem_queueInLoop hf with hold | ⟨rfl, -⟩
      · exact h f (.inl hold)
      · rfl
    · exact h f (.inr hf)
  | _ => exact h

lemma unbound_of_reach (h : (system cfg).ReachWhere Ordinary s) : Unbound s := by
  refine h.invariant_of (I := Unbound) (J := fun s => Supplied s ∧ Registered cfg s)
    (fun s hs => ⟨supplied_of_reach hs.reach, registered_of_reach hs.reach⟩) ?_
    fun s a s' hJ _ hI ha hs => hI.step hJ.1 hJ.2 (step_cases hs) ha.1
  rintro s rfl f (hf | hf) <;> cases hf

/-- What the operations of the base loop are about to use exists. -/
lemma alive_of_stack (h : (system cfg).ReachWhere Ordinary s) (hop : op ∈ s.stack (.loop 0))
    (hc : c ∈ op.needs) : s.Alive cfg c := by
  refine (secure_of_reach h.reach).sheltered.alive (fun _ => id) (fun f hf c hraw => ?_) hop hc
  cases hraw.symm.trans (unbound_of_reach h f (.inr (mem_batch_of_running hf)))

/-! ### The next step of the loop -/

/-- The kernel may answer so to the operation, and the vectors can hold what comes. -/
def Answered (cfg : Config) (s : Server) : Op → Input → Prop
  | .accept, .accept none => True
  | .accept, .accept (some fd) => s.FdFree cfg fd ∧ ¬ nextConnIdOverflows s.objects
  | .handleRead c, .read (.read bytes) =>
    bytes.length ≤ (s.objects.conn c).inputBuffer.readCapacity ∧
      ¬ (s.objects.conn c).inputBuffer.Overflows bytes.length
  | .handleRead _, .read (.failed _) => True
  | .handleWrite c, .write _ w => w.taken ≤ (s.objects.conn c).outputBuffer.readableBytes
  | .sendBody c len, .write _ w =>
    w.taken ≤ toSize (toInt len) ∧ ¬ (s.objects.conn c).outputBuffer.Overflows (toSize (toInt len))
  | .accept, _ | .handleRead _, _ | .handleWrite _, _ | .sendBody _ _, _ => False
  | _, _ => True

/-- What the thread of the base loop does next: `epoll_wait` returns `ready`, the code of the
application returns, and the operation on top of the stack is answered by `i`. -/
def nextAct (s : Server) (ready : List (Fd × EventMask)) (i : Input) : Act :=
  match s.stack (.loop 0), s.phase 0 with
  | .user _ _ :: _, _ => .user (.loop 0) .ret
  | _ :: _, _ => .exec (.loop 0) i
  | [], .outside => .enter 0
  | [], .polling => .poll 0 ready
  | [], .dispatching [] => .swap 0
  | [], .dispatching (_ :: _) => .dispatch 0
  | [], .functors _ [] => .release 0
  | [], .functors _ (_ :: _) => .next 0

/-- The kernel accepts whatever a connection that exists asks for. -/
lemma Ledger.accepted (h : Ledger cfg s) (hc : Owns cfg s c) :
    View.Accepted c (s.objects.view c) := by
  intro ch hfd hindex
  have hx := exclusive_of_index h.registered (fun c hindex => (h.retained c hindex).owns) hc
  have hpoller : (s.objects.view c).poller = s.objects.poller 0 :=
    congrArg s.objects.poller (h.registered.objects.loop c)
  rw [hpoller]
  exact h.agree.exists_updateChannel hx hfd hindex

/-- Every operation on the stack has a result. -/
lemma Ledger.exists_run (h : Ledger cfg s) (hS : Shape cfg s) (hsane : s.objects.Sane)
    (hop : op ∈ s.stack (.loop 0)) (halive : ∀ c ∈ op.needs, s.Alive cfg c)
    (hi : s.Answered cfg op i) (huser : ∀ cs buffer, op ≠ .user cs buffer) :
    ∃ x, op.run cfg s.objects (.loop 0) i = some x := by
  have hserver := h.sequential.serverAlive
  have haccepted : ∀ c ∈ op.needs, View.Accepted c (s.objects.view c) := fun c hc =>
    h.accepted (alive_iff.mp (halive c hc))
  have hreturns : ∀ {α : Type} {x : Except Fault α} {f : α → Objects × List Op},
      (∃ a, x = .ok a) → ∃ y, x.toOption.map f = some y := by
    rintro α x f ⟨a, rfl⟩
    exact ⟨f a, rfl⟩
  cases op with
  | enableReading c =>
    exact hreturns (haccepted c (List.mem_singleton_self c)).exists_tieAndEnableReading
  | destroyConnected c | handleClose c =>
    exact hreturns (haccepted c (List.mem_singleton_self c)).exists_closeChannel
  | channelRemove c => exact hreturns (View.exists_channelRemove c _)
  | removeConnectionInLoop c => exact ⟨_, if_pos hserver⟩
  | closeCallback c => exact ⟨_, if_pos hserver⟩
  | accept =>
    cases i with
    | accept fd =>
      cases fd with
      | none => exact ⟨_, rfl⟩
      | some fd => exact ⟨_, if_neg hi.2⟩
    | _ => exact hi.elim
  | handleRead c =>
    cases i with
    | read r =>
      cases r with
      | read bytes =>
        cases bytes with
        | nil => exact ⟨_, rfl⟩
        | cons b bytes =>
          simp only [Op.run, if_pos hi.1]
          exact hreturns (View.exists_readInput (r := s.objects.view c) (hsane c).1 hi.2)
      | failed e => exact ⟨_, rfl⟩
    | _ => exact hi.elim
  | handleWrite c =>
    cases i with
    | write data w =>
      have hfits : w.taken ≤ (s.objects.conn c).outputBuffer.readableBytes := hi
      simp only [Op.run, if_pos hfits]
      exact hreturns (haccepted c (List.mem_singleton_self c)).exists_writeOutput
    | _ => exact hi.elim
  | sendBody c len =>
    cases i with
    | write data w =>
      simp only [Op.run, if_pos hi.1]
      exact hreturns ((haccepted c (List.mem_singleton_self c)).exists_sendBody (hsane c).2 hi.1
        hi.2)
    | _ => exact hi.elim
  | shutdownRun c =>
    simp only [Op.run]
    split
    · exact ⟨_, rfl⟩
    · exact ⟨_, rfl⟩
  | user cs buffer => exact absurd rfl (huser cs buffer)
  | destroyItem c | removeAcceptor =>
    obtain ⟨-, -, hdead⟩ := hS.fits (.loop 0) _ hop
    cases hserver.symm.trans (hdead rfl)
  | _ => exact ⟨_, rfl⟩

/-- The operation on top of the stack can be executed. -/
lemma Ledger.exists_exec (h : Ledger cfg s) (hS : Shape cfg s) (hsane : s.objects.Sane)
    {rest : List Op} (hstack : s.stack (.loop 0) = op :: rest)
    (halive : ∀ c ∈ op.needs, s.Alive cfg c) (hi : s.Answered cfg op i)
    (huser : ∀ cs buffer, op ≠ .user cs buffer) :
    ∃ s', s.step cfg (.exec (.loop 0) i) = some s' := by
  obtain ⟨⟨o, ops⟩, hrun⟩ :=
    h.exists_run hS hsane (hstack ▸ List.mem_cons_self) halive hi huser
  have hready : s.Ready cfg op i := by
    refine ⟨fun c hc => halive c ?_, fun fd hfd => ?_⟩
    · cases op with
      | user cs buffer => cases hc
      | _ => exact Option.mem_toList.mpr hc
    · cases op with
      | accept =>
        cases i with
        | accept fd' =>
          obtain rfl : fd' = some fd := hfd
          exact hi.1
        | _ => cases hfd
      | _ => cases hfd
  refine ⟨s.executed (.loop 0) op o (ops ++ rest), ?_⟩
  simp only [step, exec, hstack, if_pos hready, hrun]
  rfl

/-- As long as a single-threaded server is not destroyed, its loop is never stuck: every operation
it comes to works on an object that exists, everything it asks of `epoll_ctl` is accepted, and
nothing is thrown where the vectors can hold what the kernel delivers. -/
theorem exists_nextAct (hcfg : cfg.numThreads = 0) (h : (system cfg).ReachWhere Ordinary s)
    {ready : List (Fd × EventMask)} (hnodup : (ready.map Prod.fst).Nodup)
    (hready : ∀ x ∈ ready, ((s.objects.poller 0).epoll x.1).isSome)
    (hi : ∀ op rest, s.stack (.loop 0) = op :: rest → s.Answered cfg op i) :
    ∃ s', s.step cfg (s.nextAct ready i) = some s' ∧ (system cfg).ReachWhere Ordinary s' := by
  have hledger := ledger_of_reach hcfg h
  have hsuffices : (∃ s', s.step cfg (s.nextAct ready i) = some s') ∧
      s.Ordinary (s.nextAct ready i) → ∃ s', s.step cfg (s.nextAct ready i) = some s' ∧
        (system cfg).ReachWhere Ordinary s' := by
    rintro ⟨⟨s', hs⟩, hok⟩
    exact ⟨s', hs, h.step hok hs⟩
  apply hsuffices
  cases hstack : s.stack (.loop 0) with
  | cons op rest =>
    cases op with
    | user cs buffer =>
      simp only [nextAct, hstack]
      refine ⟨⟨s.setStack (.loop 0) rest, ?_⟩, rfl, rfl⟩
      simp [step, userStep, frame, hstack]
    | _ =>
      simp only [nextAct, hstack]
      refine ⟨hledger.exists_exec (shape_of_reach h.reach) (sane_of_reach h.reach) hstack
        (fun c hc => ?_) (hi _ _ hstack) ?_, rfl, rfl⟩
      · exact alive_of_stack h (hstack ▸ List.mem_cons_self) hc
      · intro cs buffer heq
        cases heq
  | nil =>
    cases hphase : s.phase 0 with
    | outside =>
      simp only [nextAct, hstack, hphase]
      exact ⟨⟨_, if_pos ⟨Nat.zero_le _, hphase, hstack⟩⟩, rfl, rfl⟩
    | polling =>
      simp only [nextAct, hstack, hphase]
      obtain ⟨active, hactive⟩ := EPOLLPoller.exists_fillActiveChannels hready
      refine ⟨⟨s.setPhase 0 (.dispatching active), ?_⟩, rfl, rfl⟩
      simp only [step, if_pos (show s.AtPhase 0 .polling ∧ (ready.map Prod.fst).Nodup from
        ⟨⟨hphase, hstack⟩, hnodup⟩), hactive]
      rfl
    | dispatching active =>
      cases active with
      | nil =>
        simp only [nextAct, hstack, hphase]
        exact ⟨⟨_, if_pos ⟨hphase, hstack⟩⟩, rfl, rfl⟩
      | cons x active =>
        simp only [nextAct, hstack, hphase]
        have halive : s.ChannelAlive cfg x.1 := by
          obtain ⟨k, m⟩ := x
          cases k with
          | acceptor => exact hledger.sequential.serverAlive
          | conn c =>
            have hU := hledger.up_of_active (c := c) (m := m) (hphase ▸ List.mem_cons_self)
            exact alive_iff.mpr (Retained.table hU.table).owns
        refine ⟨⟨(s.setPhase 0 (.dispatching active)).setStack (.loop 0) (handleEvent x), ?_⟩,
          rfl, rfl⟩
        simp [step, hphase, hstack, halive]
    | functors ran rest =>
      cases rest with
      | nil =>
        simp only [nextAct, hstack, hphase]
        refine ⟨⟨s.setPhase 0 .polling, ?_⟩, rfl, rfl⟩
        simp [step, hphase, hstack]
      | cons f rest =>
        simp only [nextAct, hstack, hphase]
        refine ⟨⟨(s.setPhase 0 (.functors (ran ++ [f]) rest)).setStack (.loop 0) [f.op], ?_⟩,
          rfl, rfl⟩
        simp [step, hphase, hstack]

/-- A connection was accepted, and its channel is ready for reading. -/
def readableRun : List Act := acceptedRun ++ [.poll 0 [(4, EPOLLIN)], .dispatch 0]

theorem exists_nextAct_readableRun :
    ∃ s s' : Server, s.stack (.loop 0) = [.handleRead 0, .release 0] ∧
      s.step (exampleConfig 0 false) (s.nextAct [] (.read (.read [7]))) = some s' ∧
      (system (exampleConfig 0 false)).ReachWhere Ordinary s' := by
  obtain ⟨s, hs, hobserved⟩ := exists_reach_of_run
    (M := (system (exampleConfig 0 false)).restrict Ordinary) (s := new (exampleConfig 0 false))
    (v := ([.handleRead 0, .release 0], true)) readableRun
    (fun s => (s.stack (.loop 0), decide (1 ≤ (s.objects.conn 0).inputBuffer.readCapacity ∧
      ¬ (s.objects.conn 0).inputBuffer.Overflows 1))) rfl (by decide +kernel)
  obtain ⟨hstack, hfits⟩ := Prod.mk.inj hobserved
  have hanswered : ∀ op rest, s.stack (.loop 0) = op :: rest →
      s.Answered (exampleConfig 0 false) op (.read (.read [7])) := by
    intro op rest heq
    obtain ⟨rfl, -⟩ := List.cons.inj (hstack.symm.trans heq)
    have hroom : 1 ≤ (s.objects.conn 0).inputBuffer.readCapacity ∧
        ¬ (s.objects.conn 0).inputBuffer.Overflows 1 := of_decide_eq_true hfits
    exact hroom
  have hnodup : (([] : List (Fd × EventMask)).map Prod.fst).Nodup := List.nodup_nil
  obtain ⟨s', hs', hreach⟩ :=
    exists_nextAct rfl (Reach.of_restrict hs) hnodup (fun x hx => absurd hx List.not_mem_nil)
      hanswered
  exact ⟨s, s', hstack, hs', hreach⟩

end Server

end HzhMuduo
