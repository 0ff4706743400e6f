import HzhMuduo.HalfClose
import HzhMuduo.Server.Interest
import HzhMuduo.Server.Streams

/-!
# The write sides of all connections

`shutdown` half-closes a connection: the write side of its socket is to be shut down once what was
sent has been given to the kernel.  Neither function that does it looks at the output buffer; both
go by the write interest of the channel and by the state.  In a single-threaded server this is
enough, whatever the other connections do in between: the write side of a connection is in step
with its state and its write interest (`TcpConnection.WriteSide`), so that it is shut down at most
once, with an empty output buffer, and without delay, and nothing is written afterwards
(`shutWr_of_reach`).  What the peer is given before the end of the stream is what was sent before
`shutdown`, no more and no less (`sent_of_shutWr`).

Between two parts of a member function the agreement is suspended; what the second part may rely on
is `Op.Assumes`.
-/

namespace HzhMuduo

open MachineWord TcpConnection TransitionSystem

namespace Op

/-- The operation decides whether the write side is shut down. -/
def decides : Op → Bool
  | .afterDrain _ | .shutdownRun _ | .shutdownInLoop _ => true
  | _ => false

/-- What an operation behind a cut relies on.  The base loop does not queue its own `send`s. -/
def Assumes (x : TcpConnection) : Op → Prop
  | .afterDrain _ => x.channel.isWriting = false
  | .sendInLoop _ _ | .sendBody _ _ | .setDisconnecting _ => x.state = .kConnected
  | .shutdownRun _ | .shutdownInLoop _ => x.state = .kDisconnecting
  | .connectEstablished _ => x.state = .kConnecting
  | .sendRun _ _ => False
  | _ => True

/-- What one thread queues for a loop that is not its own. -/
def handedOver : Op → Bool
  | .connectEstablished _ | .sendInLoop _ _ | .shutdownInLoop _ => true
  | _ => false

variable {op : Op} {x x' : TcpConnection}

lemma Assumes.congr (h : op.Assumes x) (hstate : x'.state = x.state)
    (hchannel : x'.channel = x.channel) : op.Assumes x' := by
  cases op with
  | afterDrain c => exact (congrArg Channel.isWriting hchannel).trans h
  | sendInLoop | sendBody | setDisconnecting | shutdownRun | shutdownInLoop | connectEstablished =>
    exact hstate.trans h
  | sendRun => exact h.elim
  | _ => trivial

/-- What waits below the top of a stack assumes nothing, and decides nothing. -/
lemma assumes_of_waits (h : op.waits = true) : op.Assumes x := by
  cases op <;> trivial

lemma decides_of_waits (h : op.waits = true) : op.decides = false := by
  cases op <;> first | rfl | cases h

/-- What a step starts assumes nothing, and decides nothing. -/
lemma assumes_of_starts (h : op.starts = true) : op.Assumes x := by
  cases op <;> trivial

lemma starts_of_decides (h : op.decides = true) : op.starts = false := by
  cases op <;> first | rfl | cases h

/-- A functor that was not handed over assumes nothing, and decides nothing. -/
lemma assumes_of_functor {f : Functor} (h : f.op.handedOver = false) : f.op.Assumes x := by
  cases f <;> trivial

lemma decides_of_functor {f : Functor} (h : f.op.handedOver = false) : f.op.decides = false := by
  cases f <;> first | rfl | cases h

end Op

namespace TcpConnection

variable {x x' : TcpConnection} {deciding deciding' : Prop}

/-- The write side is open until `shutdown` was called on a connection that is up; from then on it
is shut down unless a write is awaited or the decision is pending; and after the connection was
closed it is left as it is. -/
def WriteSide (x : TcpConnection) (deciding : Prop) : Prop :=
  match x.state with
  | .kConnecting | .kConnected => x.socket.shutWr = 0
  | .kDisconnecting => (deciding → x.socket.shutWr = 0) ∧
    (¬ deciding → x.socket.shutWr = if x.channel.isWriting = true then 0 else 1)
  | .kDisconnected => x.channel.isWriting = false ∧ x.socket.shutWr ≤ 1 ∧
    (0 < x.socket.shutWr → x.outputBuffer.readable = [])

namespace WriteSide

lemma congr (h : x.WriteSide deciding) (hstate : x'.state = x.state)
    (hshut : x'.socket.shutWr = x.socket.shutWr)
    (hwriting : x'.channel.isWriting = x.channel.isWriting)
    (hbuffer : x'.outputBuffer = x.outputBuffer) (hdeciding : deciding' ↔ deciding) :
    x'.WriteSide deciding' := by
  rw [WriteSide, hstate, hshut, hwriting, hbuffer, hdeciding]
  exact h

/-- Whether a decision is pending matters only while the connection is disconnecting. -/
lemma congr_of_ne (h : x.WriteSide deciding) (hne : x.state ≠ .kDisconnecting) :
    x.WriteSide deciding' := by
  rw [WriteSide] at h ⊢
  cases hstate : x.state with
  | kDisconnecting => exact absurd hstate hne
  | _ =>
    rw [hstate] at h
    exact h

lemma shutWr_eq_zero (h : x.WriteSide deciding)
    (hstate : x.state = .kConnecting ∨ x.state = .kConnected) : x.socket.shutWr = 0 := by
  rw [WriteSide] at h
  rcases hstate with hstate | hstate
  · rw [hstate] at h
    exact h
  · rw [hstate] at h
    exact h

/-- As long as the write side is open a connection may be in any state before the end. -/
lemma of_open (hstate : x.state = .kConnecting ∨ x.state = .kConnected)
    (hshut : x.socket.shutWr = 0) : x.WriteSide deciding := by
  rw [WriteSide]
  rcases hstate with hstate | hstate
  · rw [hstate]
    exact hshut
  · rw [hstate]
    exact hshut

lemma of_disconnecting (hstate : x.state = .kDisconnecting)
    (hshut : deciding → x.socket.shutWr = 0)
    (hshut' : ¬ deciding → x.socket.shutWr = if x.channel.isWriting = true then 0 else 1) :
    x.WriteSide deciding := by
  rw [WriteSide, hstate]
  exact ⟨hshut, hshut'⟩

lemma disconnecting (h : x.WriteSide deciding) (hstate : x.state = .kDisconnecting) :
    (deciding → x.socket.shutWr = 0) ∧
      (¬ deciding → x.socket.shutWr = if x.channel.isWriting = true then 0 else 1) := by
  rw [WriteSide, hstate] at h
  exact h

lemma disconnected (h : x.WriteSide deciding) (hstate : x.state = .kDisconnected) :
    x.channel.isWriting = false ∧ x.socket.shutWr ≤ 1 ∧
      (0 < x.socket.shutWr → x.outputBuffer.readable = []) := by
  rw [WriteSide, hstate] at h
  exact h

/-- A connection with a write awaited has not been half-closed; if the write interest is taken
back, a decision follows. -/
lemma of_isWriting (h : x.WriteSide deciding) (hwriting : x.channel.isWriting = true)
    (hnot : ¬ deciding) (hstate : x'.state = x.state) (hshut : x'.socket.shutWr = x.socket.shutWr)
    (hnext : ¬ deciding' → x'.channel.isWriting = true) : x'.WriteSide deciding' := by
  cases hold : x.state with
  | kConnecting =>
    exact .of_open (.inl (hstate.trans hold)) (hshut.trans (h.shutWr_eq_zero (.inl hold)))
  | kConnected =>
    exact .of_open (.inr (hstate.trans hold)) (hshut.trans (h.shutWr_eq_zero (.inr hold)))
  | kDisconnecting =>
    have hzero := (h.disconnecting hold).2 hnot
    rw [if_pos hwriting] at hzero
    refine .of_disconnecting (hstate.trans hold) (fun _ => hshut.trans hzero) fun hnot' => ?_
    rw [if_pos (hnext hnot')]
    exact hshut.trans hzero
  | kDisconnected =>
    rw [(h.disconnected hold).1] at hwriting
    cases hwriting

/-- The write side is shut down at most once, and with an empty output buffer. -/
lemma settled (h : x.WriteSide deciding)
    (hinterested : x.state = .kDisconnecting →
      (x.channel.isWriting = true ↔ x.outputBuffer.readable ≠ [])) :
    x.socket.shutWr ≤ 1 ∧ (0 < x.socket.shutWr →
      (x.state = .kDisconnecting ∨ x.state = .kDisconnected) ∧ x.channel.isWriting = false ∧
        x.outputBuffer.readable = []) := by
  cases hstate : x.state with
  | kConnecting =>
    have hzero := h.shutWr_eq_zero (.inl hstate)
    exact ⟨by omega, fun hpos => by omega⟩
  | kConnected =>
    have hzero := h.shutWr_eq_zero (.inr hstate)
    exact ⟨by omega, fun hpos => by omega⟩
  | kDisconnecting =>
    obtain ⟨hpending, hdecided⟩ := h.disconnecting hstate
    by_cases hdeciding : deciding
    · have hzero := hpending hdeciding
      exact ⟨by omega, fun hpos => by omega⟩
    · have hshut := hdecided hdeciding
      by_cases hwriting : x.channel.isWriting = true
      · rw [if_pos hwriting] at hshut
        exact ⟨by omega, fun hpos => by omega⟩
      · rw [if_neg hwriting] at hshut
        refine ⟨by omega, fun _ => ⟨.inl rfl, by simpa using hwriting, ?_⟩⟩
        exact Decidable.not_not.mp fun hne => hwriting ((hinterested hstate).mpr hne)
  | kDisconnected =>
    obtain ⟨hoff, honce, hempty⟩ := h.disconnected hstate
    exact ⟨honce, fun hpos => ⟨.inr rfl, hoff, hempty hpos⟩⟩

end WriteSide

/-- `shutdownInLoop` decides. -/
lemma View.shutdownInLoop_writeSide {r : View} (hstate : r.conn.state = .kDisconnecting)
    (hzero : r.conn.socket.shutWr = 0) (hnot : ¬ deciding) :
    r.shutdownInLoop.conn.WriteSide deciding := by
  obtain ⟨-, -, hstate', hchannel⟩ := r.shutdownInLoop_stream
  have hshut : r.shutdownInLoop.conn.socket.shutWr =
      if r.conn.channel.isWriting then r.conn.socket.shutWr else r.conn.socket.shutWr + 1 :=
    r.shutWr_shutdownInLoop
  refine .of_disconnecting (hstate'.trans hstate) (fun hdeciding => absurd hdeciding hnot) fun _ => ?_
  rw [hshut, hchannel, hzero]

end TcpConnection

/-! ### One operation -/

section Operation

variable {cfg : Config} {o o' : Objects} {t : Tid} {i : Input} {op : Op} {ops : List Op} {c : ConnId}

/-- The part of an operation behind a cut finds what it relies on. -/
lemma Op.Runs.assumes (h : Op.Runs cfg o t i op o' ops) (hop : op.conn? = some c)
    (ht : t = .loop (o.conn c).loop) (hassumes : op.Assumes (o.conn c)) {op' : Op}
    (hmem : op' ∈ ops) (hop' : op'.conn? = some c) : op'.Assumes (o'.conn c) := by
  cases h with
  | sendHere hconnected | shutdown hconnected =>
    obtain rfl := Option.some.inj hop
    obtain rfl := List.mem_singleton.mp hmem
    exact hconnected
  | sendInLoop | shutdownHere =>
    obtain rfl := Option.some.inj hop
    obtain rfl := List.mem_singleton.mp hmem
    exact hassumes
  | sendThere hconnected hne =>
    obtain rfl := Option.some.inj hop
    exact absurd ht hne
  | setDisconnecting =>
    obtain rfl := Option.some.inj hop
    obtain rfl := List.mem_singleton.mp hmem
    rw [Objects.setView_conn_self]
    rfl
  | writeAll hv =>
    obtain rfl := Option.some.inj hop
    obtain rfl := List.mem_singleton.mp hmem
    rw [Objects.setView_conn_self]
    exact (View.writeOutput_shutWr hv).2.2
  | acceptedHere | acceptedThere => cases hop
  | _ => grind [Op.Assumes]

/-- No operation leaves one that decides about the write side, except those of `shutdown` and the
end of `handleWrite`. -/
lemma Op.Runs.decides_iff (h : Op.Runs cfg o t i op o' ops) (hop : op.conn? = some c)
    (hnot : op ≠ .setDisconnecting c ∧ op ≠ .shutdownRun c ∧ op ≠ .shutdownInLoop c ∧
      op ≠ .handleWrite c ∧ op ≠ .afterDrain c) :
    (∃ op' ∈ ops, op'.conn? = some c ∧ op'.decides = true) ↔ op.decides = true := by
  obtain ⟨hset, hrun, hshut, hwrite, hdrain⟩ := hnot
  have hold : op.decides = false := by
    cases op with
    | afterDrain | shutdownRun | shutdownInLoop =>
      obtain rfl := Option.some.inj hop
      contradiction
    | _ => rfl
  rw [hold]
  refine iff_of_false ?_ Bool.false_ne_true
  rintro ⟨op', hmem, -, hdecides⟩
  cases h with
  | setDisconnecting | shutdownHere | writeAll =>
    obtain rfl := Option.some.inj hop
    contradiction
  | _ => grind [Op.decides]

/-- Every operation of a connection keeps its write side in step with its state. -/
lemma Op.Runs.writeSide (h : Op.Runs cfg o t i op o' ops) (hW : o.WellFormed cfg)
    (hc : c < o.created) (hop : op.conn? = some c)
    (ht : t = .loop (o.conn c).loop) (hassumes : op.Assumes (o.conn c))
    (hplain : (o.conn c).channel.Plain)
    (hinterested : (o.conn c).state = .kDisconnecting →
      ((o.conn c).channel.isWriting = true ↔ (o.conn c).outputBuffer.readable ≠ []))
    (hside : (o.conn c).WriteSide (op.decides = true)) :
    (o'.conn c).WriteSide (∃ op' ∈ ops, op'.conn? = some c ∧ op'.decides = true) := by
  have hset : ∀ v, (o.setView c v).conn c = v.conn := fun v => Objects.setView_conn_self o c v
  have hsettled := hside.settled hinterested
  -- the operations that pass on what there is
  have hkept : (o'.conn c).state = (o.conn c).state → (o'.conn c).socket = (o.conn c).socket →
      op.sends = false → (op ≠ .setDisconnecting c ∧ op ≠ .shutdownRun c ∧
        op ≠ .shutdownInLoop c ∧ op ≠ .handleWrite c ∧ op ≠ .afterDrain c) →
      (o'.conn c).WriteSide (∃ op' ∈ ops, op'.conn? = some c ∧ op'.decides = true) := by
    intro hstate hsocket hsends hnot
    exact hside.congr hstate (congrArg _ hsocket)
      ((h.channelChange hW hc).isWriting_eq hplain hsends) (h.outputBuffer_eq hop hsends)
      (h.decides_iff hop hnot)
  cases h with
  | connectEstablished =>
    obtain rfl := Option.some.inj hop
    rw [hset]
    exact .of_open (.inr rfl) (hside.shutWr_eq_zero (.inl hassumes))
  | enableReading hv =>
    obtain rfl := Option.some.inj hop
    obtain ⟨p, ch, -, rfl⟩ := View.tieAndEnableReading_cases hv
    exact hkept (by rw [hset]; rfl) (by rw [hset]; rfl) rfl (by simp)
  | channelRemove hv =>
    obtain rfl := Option.some.inj hop
    obtain ⟨p, ch, -, rfl⟩ := View.channelRemove_cases hv
    exact hkept (by rw [hset]; rfl) (by rw [hset]; rfl) rfl (by simp)
  | readSome hne hv =>
    obtain rfl := Option.some.inj hop
    obtain ⟨b, rfl⟩ := View.readInput_cases hv
    exact hkept (by rw [hset]; rfl) (by rw [hset]; rfl) rfl (by simp)
  | destroyConnected hv | handleClose hv =>
    obtain rfl := Option.some.inj hop
    obtain ⟨p, ch, hact, rfl⟩ := View.closeChannel_cases hv
    rw [hset]
    refine ⟨?_, hsettled.1, fun hpos => (hsettled.2 hpos).2.2⟩
    rw [EPOLLPoller.updateChannel_channel hact]
    exact EventMask.has_kNoneEvent _
  | @writeSome c' data w v hv =>
    obtain rfl := Option.some.inj hop
    rw [hset]
    rcases View.writeOutput_cases hv with ⟨-, rfl, -⟩ | ⟨hwriting, -⟩
    · exact hside.congr rfl rfl rfl rfl (by simp [Op.decides])
    · obtain ⟨hshut, hsame⟩ := View.writeOutput_shutWr hv
      obtain ⟨fs, socket, b, p, ch, -, -, rfl⟩ := View.writeOutput_effect hv
      exact hside.of_isWriting hwriting Bool.false_ne_true rfl hshut fun _ => hsame.trans hwriting
  | @writeAll c' data w v hv =>
    obtain rfl := Option.some.inj hop
    rw [hset]
    obtain ⟨hshut, hwriting, -⟩ := View.writeOutput_shutWr hv
    obtain ⟨fs, socket, b, p, ch, -, -, rfl⟩ := View.writeOutput_effect hv
    refine hside.of_isWriting hwriting Bool.false_ne_true rfl hshut fun hnot => ?_
    exact absurd ⟨_, List.mem_singleton_self _, rfl, rfl⟩ hnot
  | @afterDrain i c' =>
    obtain rfl := Option.some.inj hop
    rw [hset]
    unfold View.afterDrain
    split
    · next hstate =>
      exact View.shutdownInLoop_writeSide hstate ((hside.disconnecting hstate).1 rfl) (by simp)
    · next hne => exact hside.congr_of_ne hne
  | @shutdownInLoop i c' =>
    obtain rfl := Option.some.inj hop
    rw [hset]
    exact View.shutdownInLoop_writeSide hassumes ((hside.disconnecting hassumes).1 rfl) (by simp)
  | sendBody hv =>
    obtain rfl := Option.some.inj hop
    rw [hset]
    have hshut := View.sendBody_shutWr hv
    obtain ⟨fs, socket, b, p, ch, -, -, rfl⟩ := View.sendBody_effect hv
    exact .of_open (.inr hassumes) (hshut.trans (hside.shutWr_eq_zero (.inr hassumes)))
  | setDisconnecting =>
    obtain rfl := Option.some.inj hop
    rw [hset]
    refine .of_disconnecting rfl (fun _ => hside.shutWr_eq_zero (.inr hassumes)) fun hnot => ?_
    exact absurd ⟨_, List.mem_singleton_self _, rfl, rfl⟩ hnot
  | shutdownHere =>
    obtain rfl := Option.some.inj hop
    exact hside.congr rfl rfl rfl rfl (iff_of_true ⟨_, List.mem_singleton_self _, rfl, rfl⟩ rfl)
  | shutdownThere hne =>
    obtain rfl := Option.some.inj hop
    exact absurd ht hne
  | sendRun => exact hassumes.elim
  | acceptFailed | acceptedHere | acceptedThere | release | removeAcceptor => cases hop
  | _ => exact hkept rfl rfl rfl (by simp)

/-- A socket whose write side is shut down is left alone. -/
lemma Op.Runs.socket_eq (h : Op.Runs cfg o t i op o' ops) (hop : op.conn? = some c)
    (hassumes : op.Assumes (o.conn c))
    (hinterested : (o.conn c).state = .kDisconnecting →
      ((o.conn c).channel.isWriting = true ↔ (o.conn c).outputBuffer.readable ≠ []))
    (hside : (o.conn c).WriteSide (op.decides = true)) (hpos : 0 < (o.conn c).socket.shutWr) :
    (o'.conn c).socket = (o.conn c).socket := by
  have hset : ∀ v, (o.setView c v).conn c = v.conn := fun v => Objects.setView_conn_self o c v
  obtain ⟨honce, hclosed⟩ := hside.settled hinterested
  obtain ⟨hstate, hoff, -⟩ := hclosed hpos
  have hdecided : op.decides = true → (o.conn c).state ≠ .kDisconnecting := by
    intro hdecides hdisconnecting
    have hzero := (hside.disconnecting hdisconnecting).1 hdecides
    omega
  cases h with
  | connectEstablished | setDisconnecting =>
    obtain rfl := Option.some.inj hop
    rw [hset]
    rfl
  | enableReading hv =>
    obtain rfl := Option.some.inj hop
    obtain ⟨p, ch, -, rfl⟩ := View.tieAndEnableReading_cases hv
    rw [hset]
    rfl
  | channelRemove hv =>
    obtain rfl := Option.some.inj hop
    obtain ⟨p, ch, -, rfl⟩ := View.channelRemove_cases hv
    rw [hset]
    rfl
  | readSome hne hv =>
    obtain rfl := Option.some.inj hop
    obtain ⟨b, rfl⟩ := View.readInput_cases hv
    rw [hset]
    rfl
  | destroyConnected hv | handleClose hv =>
    obtain rfl := Option.some.inj hop
    obtain ⟨p, ch, -, rfl⟩ := View.closeChannel_cases hv
    rw [hset]
    rfl
  | writeSome hv | writeAll hv =>
    obtain rfl := Option.some.inj hop
    rw [hset]
    rcases View.writeOutput_cases hv with ⟨-, rfl, -⟩ | ⟨hon, -⟩
    · rfl
    · exact absurd (hoff.symm.trans hon) Bool.false_ne_true
  | @afterDrain i c' =>
    obtain rfl := Option.some.inj hop
    rw [hset]
    exact congrArg (fun v : View => v.conn.socket) (if_neg (hdecided rfl))
  | shutdownInLoop =>
    obtain rfl := Option.some.inj hop
    exact absurd hassumes (hdecided rfl)
  | sendBody hv =>
    obtain rfl := Option.some.inj hop
    rcases hstate with hstate | hstate
    · cases hassumes.symm.trans hstate
    · cases hassumes.symm.trans hstate
  | acceptFailed | acceptedHere | acceptedThere | release | removeAcceptor => cases hop
  | _ => rfl

end Operation

/-! ### Whole runs -/

namespace Server

variable {cfg : Config} {s s' : Server} {a : Act} {c : ConnId}

/-- A decision about the write side of `c` is under way. -/
def Deciding (s : Server) (c : ConnId) : Prop :=
  ∃ op ∈ s.stack (.loop 0), op.conn? = some c ∧ op.decides = true

/-- The write side of `c`, and what the parts of its member functions rely on. -/
structure WriteSides (s : Server) (c : ConnId) : Prop where
  assumes : ∀ op ∈ s.stack (.loop 0), op.conn? = some c → op.Assumes (s.objects.conn c)
  waiting : ∀ f ∈ s.waiting 0, f.conn? = some c → f.op.handedOver = false
  writeSide : (s.objects.conn c).WriteSide (s.Deciding c)

/-- A step that executes no operation of `c` leaves its socket and its output buffer alone. -/
lemma output_eq (hstep : Step cfg s a s') (hnot : ¬ s.Executes a c)
    (hcreated : c < s'.objects.created ↔ c < s.objects.created) :
    (s'.objects.conn c).socket = (s.objects.conn c).socket ∧
      (s'.objects.conn c).outputBuffer = (s.objects.conn c).outputBuffer := by
  have hsetConn : ∀ {c' : ConnId} {x : TcpConnection}, x.socket = (s.objects.conn c').socket →
      x.outputBuffer = (s.objects.conn c').outputBuffer →
      ((s.setConn c' x).objects.conn c).socket = (s.objects.conn c).socket ∧
        ((s.setConn c' x).objects.conn c).outputBuffer = (s.objects.conn c).outputBuffer := by
    intro c' x hsocket hbuffer
    by_cases hc : c = c'
    · subst hc
      simp [setConn, hsocket, hbuffer]
    · simp [setConn, Function.update_of_ne hc]
  cases hstep with
  | @exec t i op rest o ops hstack hready hrun =>
    have hop : op.conn? ≠ some c := fun hop => hnot ⟨t, i, op, rest, rfl, hstack, hop⟩
    have hnew : ¬ op.Creates s.objects o c := by
      rintro ⟨-, rfl, hnew⟩
      have hlt : s.objects.created < o.created := by omega
      exact Nat.lt_irrefl _ (hcreated.mp hlt)
    have hconn : o.conn c = s.objects.conn c := hrun.conn_eq_of_other hop hnew
    exact ⟨congrArg _ hconn, congrArg _ hconn⟩
  | setHighWaterMark hframe hsees halive => exact hsetConn rfl rfl
  | retrieve hframe halive => exact hsetConn rfl rfl
  | _ => exact ⟨rfl, rfl⟩

namespace WriteSides

/-- A step that only starts something on the connection. -/
lemma kept (h : WriteSides s c) (hkept : Kept c s s')
    (hsocket : (s'.objects.conn c).socket = (s.objects.conn c).socket)
    (hbuffer : (s'.objects.conn c).outputBuffer = (s.objects.conn c).outputBuffer) :
    WriteSides s' c := by
  refine ⟨fun op hop hc => ?_, fun f hf hc => ?_, ?_⟩
  · cases hstarts : op.starts with
    | true => exact Op.assumes_of_starts hstarts
    | false =>
      have hold := (hkept.stack _ op hc hstarts).mp hop
      exact (h.assumes op hold hc).congr hkept.state hkept.channel
  · exact h.waiting f ((hkept.waiting 0 f hc).mp hf) hc
  · refine h.writeSide.congr hkept.state (congrArg _ hsocket) (congrArg _ hkept.channel) hbuffer ?_
    refine exists_congr fun op => and_congr_left fun ⟨hc, hdecides⟩ => ?_
    exact hkept.stack _ op hc (Op.starts_of_decides hdecides)

/-- The functors that the base loop calls are not those another thread would have handed over. -/
lemma next (h : WriteSides s c) {ran rest : List Functor} {f : Functor}
    (hphase : s.AtPhase 0 (.functors ran (f :: rest))) (hf : f.conn? = some c) :
    WriteSides ((s.setPhase 0 (.functors (ran ++ [f]) rest)).setStack (.loop 0) [f.op]) c := by
  have hhere := h.waiting f (waiting_of_next hphase.1) hf
  have hstack : ((s.setPhase 0 (.functors (ran ++ [f]) rest)).setStack (.loop 0) [f.op]).stack
      (.loop 0) = [f.op] := by
    simp [Server.setStack]
  refine ⟨fun op hop hc => ?_, fun g hg hc => h.waiting g (waiting_next hphase.1 hg) hc, ?_⟩
  · rw [hstack] at hop
    obtain rfl := List.mem_singleton.mp hop
    exact Op.assumes_of_functor hhere
  · refine h.writeSide.congr rfl rfl rfl rfl ?_
    rw [Deciding, Deciding, hstack, hphase.2]
    simp [Op.decides_of_functor hhere]

section Exec

variable {i : Input} {op : Op} {rest ops : List Op} {o : Objects}

/-- The base loop hands nothing over to itself. -/
lemma waiting_executed (h : WriteSides s c) (hR : Registered cfg s)
    (hstack : s.stack (.loop 0) = op :: rest) (hrun : Op.Runs cfg s.objects (.loop 0) i op o ops) :
    ∀ f ∈ (s.executed (.loop 0) op o (ops ++ rest)).waiting 0, f.conn? = some c →
      f.op.handedOver = false := by
  intro f hf hc
  rcases List.mem_append.mp hf with hf | hf
  · rcases hrun.effect.mem_pending hR.objects.loop hf with hold | ⟨hqueues, hwhere⟩
    · exact h.waiting f (List.mem_append_left _ hold) hc
    · rcases hwhere with ⟨-, haccept⟩ | ⟨-, hloop, ht⟩
      · cases op with
        | accept => exact absurd rfl haccept
        | sendRun c' len =>
          obtain rfl : f = .sendInLoop c' len := hqueues
          have hmem : .sendRun c' len ∈ s.stack (.loop 0) := hstack ▸ List.mem_cons_self
          exact (h.assumes _ hmem hc).elim
        | shutdownRun c' =>
          obtain rfl : f = .shutdownInLoop c' := hqueues
          cases hrun with
          | shutdownHere => exact h.waiting _ (List.mem_append_left _ hf) hc
          | shutdownThere ht => exact absurd (congrArg Tid.loop (hR.objects.loop c').symm) ht
        | removeConnectionInLoop | destroyItem | closeCallback =>
          simp only [Op.Queues] at hqueues
          subst hqueues
          rfl
        | sendBody | handleWrite =>
          rcases hqueues with rfl | ⟨len, rfl⟩
          · rfl
          · rfl
        | _ => cases hqueues
      · exact absurd rfl ht
  · exact h.waiting f (List.mem_append_right _ hf) hc

/-- What is below the top of a stack does not decide. -/
lemma exists_decides_append (hrest : ∀ op' ∈ rest, op'.waits = true) :
    (∃ op' ∈ ops ++ rest, op'.conn? = some c ∧ op'.decides = true) ↔
      ∃ op' ∈ ops, op'.conn? = some c ∧ op'.decides = true := by
  constructor
  · rintro ⟨op', hop, hc, hdecides⟩
    rcases List.mem_append.mp hop with hop | hop
    · exact ⟨op', hop, hc, hdecides⟩
    · have hnot := Op.decides_of_waits (hrest op' hop)
      rw [hdecides] at hnot
      cases hnot
  · rintro ⟨op', hop, h⟩
    exact ⟨op', List.mem_append_left _ hop, h⟩

/-- What decides after an operation was executed is what the operation left. -/
lemma deciding_executed (hS : Shape cfg s) (hstack : s.stack (.loop 0) = op :: rest) :
    (s.executed (.loop 0) op o (ops ++ rest)).Deciding c ↔
      ∃ op' ∈ ops, op'.conn? = some c ∧ op'.decides = true := by
  have hnew : (s.executed (.loop 0) op o (ops ++ rest)).stack (.loop 0) = ops ++ rest := by
    simp [executed, setStack]
  rw [Deciding, hnew]
  exact exists_decides_append (hS.top _ _ _ hstack)

/-- An operation on top of the stack decides alone. -/
lemma deciding_iff (hS : Shape cfg s) (hstack : s.stack (.loop 0) = op :: rest)
    (hop : op.conn? = some c) : s.Deciding c ↔ op.decides = true := by
  rw [Deciding, hstack, ← List.singleton_append, exists_decides_append (hS.top _ _ _ hstack)]
  simp [hop]

/-- An operation of the connection is executed. -/
lemma executed_self (h : WriteSides s c) (hR : Registered cfg s) (hS : Shape cfg s)
    (hplain : (s.objects.conn c).channel.Plain)
    (hinterested : (s.objects.conn c).state = .kDisconnecting →
      ((s.objects.conn c).channel.isWriting = true ↔
        (s.objects.conn c).outputBuffer.readable ≠ []))
    (hstack : s.stack (.loop 0) = op :: rest) (hready : s.Ready cfg op i)
    (hrun : Op.Runs cfg s.objects (.loop 0) i op o ops) (hop : op.conn? = some c) :
    WriteSides (s.executed (.loop 0) op o (ops ++ rest)) c := by
  have ht : Tid.loop 0 = .loop (s.objects.conn c).loop :=
    congrArg Tid.loop (hR.objects.loop c).symm
  have hassumes := h.assumes op (hstack ▸ List.mem_cons_self) hop
  have hside := (h.writeSide.congr rfl rfl rfl rfl (deciding_iff hS hstack hop).symm)
  refine ⟨fun op' hmem hop' => ?_, h.waiting_executed hR hstack hrun, ?_⟩
  · rcases mem_executed hstack hmem with ⟨-, hnew⟩ | ⟨-, hrest⟩
    · exact hrun.assumes hop ht hassumes hnew hop'
    · exact Op.assumes_of_waits (hS.top _ _ _ hstack op' (hrest rfl))
  · have hafter := hrun.writeSide hR.objects (hR.lt_of_ready hready c hop) hop ht hassumes hplain
      hinterested hside
    exact hafter.congr rfl rfl rfl rfl (deciding_executed hS hstack)

/-- The connection is accepted. -/
lemma executed_creates (h : WriteSides s c) (hcfg : cfg.numThreads = 0) (hR : Registered cfg s)
    (hS : Shape cfg s) (hstack : s.stack (.loop 0) = op :: rest)
    (hrun : Op.Runs cfg s.objects (.loop 0) i op o ops) (hnew : op.Creates s.objects o c) :
    WriteSides (s.executed (.loop 0) op o (ops ++ rest)) c := by
  obtain ⟨fd, hconn⟩ := hnew.conn_eq hrun
  obtain ⟨-, rfl⟩ := hS.establishes hcfg hstack hrun hnew
  have hstate : (o.conn c).state = .kConnecting := by
    rw [hconn]
    rfl
  refine ⟨fun op' hmem hop' => ?_, h.waiting_executed hR hstack hrun, ?_⟩
  · rcases mem_executed hstack hmem with ⟨-, hleft⟩ | ⟨-, hrest⟩
    · rcases List.mem_cons.mp hleft with rfl | hleft
      · exact hstate
      · obtain rfl := List.mem_singleton.mp hleft
        trivial
    · exact Op.assumes_of_waits (hS.top _ _ _ hstack op' (hrest rfl))
  · refine .of_open (.inl hstate) ?_
    change (o.conn c).socket.shutWr = 0
    rw [hconn]
    rfl

end Exec

/-- Every step of the base loop. -/
lemma step (h : WriteSides s c) (hcfg : cfg.numThreads = 0) (hR : Registered cfg s)
    (hS : Shape cfg s) (hplain : (s.objects.conn c).channel.Plain)
    (hinterested : (s.objects.conn c).state = .kDisconnecting →
      ((s.objects.conn c).channel.isWriting = true ↔
        (s.objects.conn c).outputBuffer.readable ≠ []))
    (hstep : Step cfg s a s') (ha : s.Ordinary a) : WriteSides s' c := by
  cases hstep.concerns hR c with
  | untouched huntouched hnot =>
    obtain ⟨hsocket, hbuffer⟩ := output_eq hstep hnot huntouched.created
    exact h.kept huntouched.kept hsocket hbuffer
  | poll hphase hnodup hactive => exact h.kept (kept_poll hphase) rfl rfl
  | dispatch hphase halive => exact h.kept (kept_dispatch hphase) rfl rfl
  | next hphase hf =>
    obtain rfl := Tid.loop.inj ha.1
    exact h.next hphase hf
  | exec hstack hready hrun hc =>
    obtain rfl := ha.1
    rcases hc with hop | hnew
    · exact h.executed_self hR hS hplain hinterested hstack hready hrun hop
    · exact h.executed_creates hcfg hR hS hstack hrun hnew
  | call hframe hsees hop => exact h.kept (kept_call hop) rfl rfl
  | destroyServer halive hphase => cases ha.2

end WriteSides

/-- What an ordinary run says of the channel of a connection. -/
lemma plain_of_reach (hcfg : cfg.numThreads = 0) (h : (system cfg).ReachWhere Ordinary s)
    (c : ConnId) : (s.objects.conn c).channel.Plain ∧
      ((s.objects.conn c).state = .kDisconnecting →
        ((s.objects.conn c).channel.isWriting = true ↔
          (s.objects.conn c).outputBuffer.readable ≠ [])) := by
  rcases attentive_of_reach hcfg (settled_of_ordinary h) c with hA | hC
  · exact ⟨hA.plain, fun _ => hA.interested⟩
  · refine ⟨.inl hC.events, fun hstate => ?_⟩
    exact absurd ((sequential_of_reach hcfg h).reading c hstate) hC.not_isReading

/-- The invariant of ordinary runs. -/
theorem writeSides_of_reach (hcfg : cfg.numThreads = 0) (h : (system cfg).ReachWhere Ordinary s)
    (c : ConnId) : WriteSides s c := by
  refine h.invariant_of (I := fun s => WriteSides s c)
    (J := fun s => (system cfg).ReachWhere Ordinary s) (fun s hs => hs) ?_ ?_
  · rintro s rfl
    exact ⟨fun op hop => absurd hop List.not_mem_nil, fun f hf => absurd hf List.not_mem_nil,
      .of_open (.inl rfl) rfl⟩
  · intro s a s' hs _ hI ha hstep
    obtain ⟨hplain, hinterested⟩ := plain_of_reach hcfg hs c
    exact hI.step hcfg (registered_of_reach hs.reach) (shape_of_reach hs.reach) hplain hinterested
      (step_cases hstep) ha

/-- Once its write side is shut down, the socket of a connection stays as it is. -/
lemma socket_step (hcfg : cfg.numThreads = 0) (h : (system cfg).ReachWhere Ordinary s)
    (hpos : 0 < (s.objects.conn c).socket.shutWr) (ha : s.Ordinary a)
    (hs : s.step cfg a = some s') : (s'.objects.conn c).socket = (s.objects.conn c).socket := by
  have hW := writeSides_of_reach hcfg h c
  have hS := shape_of_reach h.reach
  have hstep := step_cases hs
  cases hstep.concerns (registered_of_reach h.reach) c with
  | untouched huntouched hnot => exact (output_eq hstep hnot huntouched.created).1
  | @exec t i op rest ops o hstack hready hrun hc =>
    obtain rfl : t = .loop 0 := ha.1
    rcases hc with hop | ⟨-, rfl, -⟩
    · have hside := hW.writeSide.congr rfl rfl rfl rfl
        (WriteSides.deciding_iff hS hstack hop).symm
      exact hrun.socket_eq hop (hW.assumes op (hstack ▸ List.mem_cons_self) hop)
        (plain_of_reach hcfg h c).2 hside hpos
    · -- a connection that does not exist yet has not been half-closed
      have hfresh := (registered_of_reach h.reach).objects.fresh _ (Nat.le_refl _)
      rw [hfresh] at hpos
      cases hpos
  | _ => rfl

/-- In every run of a single-threaded server, and for every connection: the write side of the socket
is shut down at most once; when it is, the connection is disconnecting or disconnected, nothing
waits in the output buffer, and nothing is written from then on; and when the loop is about to poll,
a disconnecting connection is half-closed exactly if its output buffer is empty. -/
theorem shutWr_of_reach (hcfg : cfg.numThreads = 0) (h : (system cfg).ReachWhere Ordinary s)
    (c : ConnId) :
    (s.objects.conn c).socket.shutWr ≤ 1 ∧
    (0 < (s.objects.conn c).socket.shutWr →
      ((s.objects.conn c).state = .kDisconnecting ∨ (s.objects.conn c).state = .kDisconnected) ∧
      (s.objects.conn c).outputBuffer.readable = [] ∧
      ∀ as s', ((system cfg).restrict Ordinary).run s as = some s' →
        (s'.objects.conn c).socket = (s.objects.conn c).socket) ∧
    (s.AtPhase 0 .polling → (s.objects.conn c).state = .kDisconnecting →
      ((s.objects.conn c).socket.shutWr = 1 ↔ (s.objects.conn c).outputBuffer.readable = [])) := by
  have hside := (writeSides_of_reach hcfg h c).writeSide
  have hinterested := (plain_of_reach hcfg h c).2
  obtain ⟨honce, hclosed⟩ := hside.settled hinterested
  refine ⟨honce, fun hpos => ?_, fun hphase hstate => ?_⟩
  · obtain ⟨hstate, -, hempty⟩ := hclosed hpos
    refine ⟨hstate, hempty, fun as s' hrun => ?_⟩
    refine (h.stable (P := fun t => (t.objects.conn c).socket = (s.objects.conn c).socket) rfl ?_
      hrun).2
    intro t a t' ht hsame ha hs
    exact (socket_step hcfg ht (hsame ▸ hpos) ha hs).trans hsame
  · have hnot : ¬ s.Deciding c := by
      rintro ⟨op, hop, -⟩
      rw [hphase.2] at hop
      cases hop
    rw [(hside.disconnecting hstate).2 hnot]
    by_cases hwriting : (s.objects.conn c).channel.isWriting = true
    · rw [if_pos hwriting]
      exact iff_of_false Nat.zero_ne_one ((hinterested hstate).mp hwriting)
    · rw [if_neg hwriting]
      refine iff_of_true rfl ?_
      exact Decidable.not_not.mp fun hne => hwriting ((hinterested hstate).mpr hne)

/-- The application answers a message and shuts the connection down; the kernel takes half of the
answer at once and the rest when it reports that it can. -/
def drainedRun : List Act :=
  acceptedRun ++ [.poll 0 [(4, EPOLLIN)], .dispatch 0, .exec (.loop 0) (.read (.read [7])),
    .exec (.loop 0) .none, .user (.loop 0) (.send 0 2), .exec (.loop 0) .none,
    .exec (.loop 0) .none, .exec (.loop 0) (.write (.ofString [65, 66]) (.wrote 1)),
    .user (.loop 0) (.shutdown 0), .exec (.loop 0) .none, .exec (.loop 0) .none,
    .exec (.loop 0) .none, .exec (.loop 0) .none, .user (.loop 0) .ret, .exec (.loop 0) .none,
    .exec (.loop 0) .none, .swap 0, .release 0, .poll 0 [(4, EPOLLOUT)], .dispatch 0,
    .exec (.loop 0) (.write (.ofString [66]) (.wrote 1)), .exec (.loop 0) .none,
    .exec (.loop 0) .none, .swap 0, .release 0]

theorem shutWr_of_reach_drainedRun :
    ∃ s, (system (exampleConfig 0 false)).ReachWhere Ordinary s ∧
      (s.objects.conn 0).socket.shutWr = 1 ∧
      ∀ as s', ((system (exampleConfig 0 false)).restrict Ordinary).run s as = some s' →
        (s'.objects.conn 0).socket = (s.objects.conn 0).socket := by
  obtain ⟨s, hs, hobserved⟩ := exists_reach_of_run
    (M := (system (exampleConfig 0 false)).restrict Ordinary) (s := new (exampleConfig 0 false))
    (v := (true, StateE.kDisconnecting, [])) drainedRun
    (fun s => (decide (s.AtPhase 0 .polling), (s.objects.conn 0).state,
      (s.objects.conn 0).outputBuffer.readable)) rfl (by decide +kernel)
  obtain ⟨hphase, hrest⟩ := Prod.mk.inj hobserved
  obtain ⟨hstate, hempty⟩ := Prod.mk.inj hrest
  have hreach := Reach.of_restrict hs
  obtain ⟨-, hclosed, hpolling⟩ := shutWr_of_reach rfl hreach 0
  have hone := (hpolling (of_decide_eq_true hphase) hstate).mpr hempty
  exact ⟨s, hreach, hone, (hclosed (by omega)).2.2⟩

/-- No way leads back from `shutdown`. -/
lemma leaving_step (hcfg : cfg.numThreads = 0) (h : (system cfg).ReachWhere Ordinary s)
    (hleaving : (s.objects.conn c).state = .kDisconnecting ∨
      (s.objects.conn c).state = .kDisconnected)
    (ha : s.Ordinary a) (hs : s.step cfg a = some s') :
    (s'.objects.conn c).state = .kDisconnecting ∨ (s'.objects.conn c).state = .kDisconnected := by
  have hW := writeSides_of_reach hcfg h c
  have hR := registered_of_reach h.reach
  have hnot : (s.objects.conn c).state ≠ .kConnecting ∧ (s.objects.conn c).state ≠ .kConnected := by
    rcases hleaving with hstate | hstate
    · rw [hstate]
      decide
    · rw [hstate]
      decide
  cases (step_cases hs).concerns hR c with
  | untouched huntouched => rwa [huntouched.state]
  | @exec t i op rest ops o hstack hready hrun hc =>
    obtain rfl : t = .loop 0 := ha.1
    rcases hc with hop | ⟨-, rfl, -⟩
    · have hassumes := hW.assumes op (hstack ▸ List.mem_cons_self) hop
      have hchange := hrun.stateChange (hR.lt_of_ready hready c hop)
      change (o.conn c).state = .kDisconnecting ∨ (o.conn c).state = .kDisconnected
      revert hchange
      generalize (o.conn c).state = state
      intro hchange
      cases hchange with
      | same => exact hleaving
      | connectEstablished => exact absurd hassumes hnot.1
      | destroyConnected | handleClose => exact .inr rfl
      | setDisconnecting => exact .inl rfl
    · rw [hR.objects.fresh _ (Nat.le_refl _)] at hnot
      exact absurd rfl hnot.1
  | _ => exact hleaving

/-- Nothing is added to the outgoing stream of a connection that `shutdown` was called on. -/
lemma outgoing_step (hcfg : cfg.numThreads = 0) (h : (system cfg).ReachWhere Ordinary s)
    (hleaving : (s.objects.conn c).state = .kDisconnecting ∨
      (s.objects.conn c).state = .kDisconnected)
    (ha : s.Ordinary a) (hs : s.step cfg a = some s') :
    (s'.objects.conn c).outgoing = (s.objects.conn c).outgoing := by
  have hflow := (flow_step (registered_of_reach h.reach) (sane_of_reach h.reach) hs c).1
  have hunsent : ∀ len rest, s.stack (.loop 0) ≠ .sendBody c len :: rest := by
    intro len rest hstack
    have hmem : .sendBody c len ∈ s.stack (.loop 0) := hstack ▸ List.mem_cons_self
    have hconnected : (s.objects.conn c).state = .kConnected :=
      (writeSides_of_reach hcfg h c).assumes _ hmem rfl
    rw [hconnected] at hleaving
    simp at hleaving
  have hnil : s.written c a = [] := by
    cases a with
    | exec t i =>
      obtain rfl : t = .loop 0 := ha.1
      rw [written]
      cases hstack : s.stack (.loop 0) with
      | nil => rfl
      | cons op rest =>
        cases op with
        | sendBody c' len =>
          refine Op.written_eq_nil fun hop => ?_
          obtain rfl := Option.some.inj hop
          exact hunsent len rest hstack
        | _ => rfl
    | _ => rfl
  rw [hflow, hnil, List.append_nil]

/-- The end of a stream.  From the moment `shutdown` has found a connection connected, in every
continuation of the run: the outgoing stream of the connection is closed, what the kernel has
accepted and what waits behind it being together what they were; and if the write side has been shut
down, then all of it has been accepted. -/
theorem sent_of_shutWr {as : List Act} (hcfg : cfg.numThreads = 0)
    (h : (system cfg).ReachWhere Ordinary s)
    (hleaving : (s.objects.conn c).state = .kDisconnecting ∨
      (s.objects.conn c).state = .kDisconnected)
    (hrun : ((system cfg).restrict Ordinary).run s as = some s') :
    (s'.objects.conn c).outgoing = (s.objects.conn c).outgoing ∧
    (0 < (s'.objects.conn c).socket.shutWr →
      (s'.objects.conn c).socket.sent = (s.objects.conn c).outgoing) := by
  have hstable := h.stable (P := fun t => ((t.objects.conn c).state = .kDisconnecting ∨
      (t.objects.conn c).state = .kDisconnected) ∧
      (t.objects.conn c).outgoing = (s.objects.conn c).outgoing) ⟨hleaving, rfl⟩ ?_ hrun
  swap
  · rintro t a t' ht ⟨hstate, hsame⟩ ha hs
    exact ⟨leaving_step hcfg ht hstate ha hs, (outgoing_step hcfg ht hstate ha hs).trans hsame⟩
  obtain ⟨hreach', -, hsame⟩ := hstable
  refine ⟨hsame, fun hpos => ?_⟩
  have hside := (writeSides_of_reach hcfg hreach' c).writeSide
  obtain ⟨-, -, hempty⟩ := (hside.settled (plain_of_reach hcfg hreach' c).2).2 hpos
  rw [← hsame, TcpConnection.outgoing, hempty, List.append_nil]

theorem sent_of_shutWr_drainedRun :
    ∃ s s', (system (exampleConfig 0 false)).ReachWhere Ordinary s ∧
      ((system (exampleConfig 0 false)).restrict Ordinary).run s (drainedRun.drop 23) = some s' ∧
      (s.objects.conn 0).socket.sent = [65] ∧ (s'.objects.conn 0).socket.sent = [65, 66] := by
  obtain ⟨s, hs, hobserved⟩ := exists_reach_of_run
    (M := (system (exampleConfig 0 false)).restrict Ordinary) (s := new (exampleConfig 0 false))
    (v := (StateE.kDisconnecting, [65], [66], some 1)) (drainedRun.take 23)
    (fun s => ((s.objects.conn 0).state, (s.objects.conn 0).socket.sent,
      (s.objects.conn 0).outputBuffer.readable,
      (((system (exampleConfig 0 false)).restrict Ordinary).run s (drainedRun.drop 23)).map fun s' =>
        (s'.objects.conn 0).socket.shutWr)) rfl (by decide +kernel)
  obtain ⟨hstate, hrest⟩ := Prod.mk.inj hobserved
  obtain ⟨hsent, hrest⟩ := Prod.mk.inj hrest
  obtain ⟨hwaiting, hrun⟩ := Prod.mk.inj hrest
  obtain ⟨s', hrun, hshut⟩ := Option.map_eq_some_iff.mp hrun
  have hreach := Reach.of_restrict hs
  refine ⟨s, s', hreach, hrun, hsent, ?_⟩
  rw [(sent_of_shutWr rfl hreach (.inl hstate) hrun).2 (by omega), TcpConnection.outgoing, hsent,
    hwaiting]
  rfl

end Server

end HzhMuduo
