import HzhMuduo.Buffer
import HzhMuduo.EPOLLPoller

/-!
# Connections

`TcpConnection` with the member functions that run on its loop.  A member function works on a
`View`: the object, the poller its channel belongs to, and the functors it has queued in its
loop so far.  What the kernel answers to `::write` and `::readv` is an argument.

A function that calls the user (`connectionCallback_` and the like) is split at the call, and
one that loads or stores `state_` is split wherever another thread can come between, so that
the parts can be interleaved with the steps of other threads.  `sendInLoop` and `handleWrite`
put the parts of these two functions together again, for a loop that no other thread disturbs.
-/

namespace HzhMuduo

open MachineWord

/-- Connection objects, numbered in the order of their construction. -/
abbrev ConnId := ℕ

/-- Event loops: 0 is the base loop, `i + 1` is `loops_[i]` of the thread pool. -/
abbrev LoopId := ℕ

/-- The channels of the server. -/
inductive ChannelId
  | acceptor
  | conn (c : ConnId)
  deriving DecidableEq

inductive StateE
  | kConnecting
  | kConnected
  | kDisconnecting
  | kDisconnected
  deriving DecidableEq

/-- What is queued in a loop.  `sendInLoop` and `shutdownInLoop` are bound to the raw object,
the other functors of a connection to a `TcpConnectionPtr`; `user` is a functor of the
application with the pointers it has captured. -/
inductive Functor
  | connectEstablished (c : ConnId)
  | connectDestroyed (c : ConnId)
  | removeConnectionInLoop (c : ConnId)
  | sendInLoop (c : ConnId) (len : ℕ)
  | shutdownInLoop (c : ConnId)
  | writeCompleteCallback (c : ConnId)
  | highWaterMarkCallback (c : ConnId) (len : ℕ)
  | user (cs : List ConnId)
  deriving DecidableEq

/-- The functors that notify the application of what became of its data. -/
def Functor.Notifies (c : ConnId) (f : Functor) : Prop :=
  f = .writeCompleteCallback c ∨ ∃ len, f = .highWaterMarkCallback c len

/-- The kernel's side of a connected socket: the bytes it accepted for sending, and how often
its write side was shut down. -/
structure Socket where
  sent : List UInt8
  shutWr : ℕ
  deriving DecidableEq

structure TcpConnection where
  loop : LoopId
  name : List Char
  state : StateE
  socket : Socket
  channel : Channel
  inputBuffer : Buffer
  outputBuffer : Buffer
  writeCompleteCallback : Bool
  highWaterMarkCallback : Bool
  highWaterMark : ℕ
  deriving DecidableEq

namespace TcpConnection

/-- The constructor; the write-complete callback is set by the server right after it. -/
def new (loop : LoopId) (name : List Char) (sockfd : Fd) (writeCompleteCallback : Bool) :
    TcpConnection where
  loop := loop
  name := name
  state := .kConnecting
  socket := { sent := [], shutWr := 0 }
  channel := .new sockfd
  inputBuffer := .new
  outputBuffer := .new
  writeCompleteCallback := writeCompleteCallback
  highWaterMarkCallback := false
  highWaterMark := 64 * 1024 * 1024

def connected (conn : TcpConnection) : Bool := conn.state == .kConnected

/-- A connection with what its member functions reach beyond it. -/
structure View where
  conn : TcpConnection
  poller : EPOLLPoller ChannelId
  queued : List Functor

namespace View

/-- `loop_->queueInLoop`. -/
def queueInLoop (r : View) (f : Functor) : View := { r with queued := r.queued ++ [f] }

def setState (r : View) (state : StateE) : View := { r with conn := { r.conn with state := state } }

/-- Store the channel and the poller. -/
def withChannel (r : View) (poller : EPOLLPoller ChannelId) (channel : Channel) : View :=
  { r with poller := poller, conn := { r.conn with channel := channel } }

/-- Let the poller act on the channel and keep what it returns. -/
def withPoller (r : View)
    (act : EPOLLPoller ChannelId → Channel → Except Fault (EPOLLPoller ChannelId × Channel)) :
    Except Fault View := do
  let (poller, channel) ← act r.poller r.conn.channel
  return r.withChannel poller channel

/-- `channel_->tie(shared_from_this()); channel_->enableReading()`. -/
def tieAndEnableReading (self : ConnId) (r : View) : Except Fault View :=
  (r.withChannel r.poller { r.conn.channel with tied := true }).withPoller fun p ch =>
    p.enableReading (.conn self) ch

/-- `setState(kDisconnected); channel_->disbleALL()`. -/
def closeChannel (self : ConnId) (r : View) : Except Fault View :=
  (r.setState .kDisconnected).withPoller fun p ch => p.disbleALL (.conn self) ch

/-- The first half of `connectDestroyed`, taken when it finds the state `kConnected`. -/
def destroyConnected (self : ConnId) (r : View) : Except Fault View := r.closeChannel self

/-- `channel_->remove()`. -/
def channelRemove (self : ConnId) (r : View) : Except Fault View :=
  r.withPoller fun p ch => p.removeChannel (.conn self) ch

/-- `handleClose` up to its callbacks. -/
def handleClose (self : ConnId) (r : View) : Except Fault View := r.closeChannel self

def shutdownInLoop (r : View) : View :=
  if ¬ r.conn.channel.isWriting then
    let socket := { r.conn.socket with shutWr := r.conn.socket.shutWr + 1 }
    { r with conn := { r.conn with socket := socket } }
  else r

/-- The bytes `readFd` adds to the input buffer. -/
def readInput (bytes : List UInt8) (r : View) : Except Fault View := do
  let inputBuffer ← r.conn.inputBuffer.readFd bytes
  return { r with conn := { r.conn with inputBuffer := inputBuffer } }

/-- The kernel takes bytes from the connection. -/
def transmit (r : View) (bytes : List UInt8) : View :=
  let socket := { r.conn.socket with sent := r.conn.socket.sent ++ bytes }
  { r with conn := { r.conn with socket := socket } }

def setOutputBuffer (r : View) (b : Buffer) : View :=
  { r with conn := { r.conn with outputBuffer := b } }

/-- Queue the high-water callback if `remaining` more bytes cross the mark. -/
def signalHighWater (self : ConnId) (remaining : ℕ) (r : View) : View :=
  let oldLen := r.conn.outputBuffer.readableBytes
  if r.conn.highWaterMark ≤ addSize oldLen remaining ∧ oldLen < r.conn.highWaterMark ∧
      r.conn.highWaterMarkCallback then
    r.queueInLoop (.highWaterMarkCallback self (addSize oldLen remaining))
  else r

/-- Queue the write-complete callback, if it is set. -/
def signalWriteComplete (self : ConnId) (r : View) : View :=
  if r.conn.writeCompleteCallback then r.queueInLoop (.writeCompleteCallback self) else r

/-- The end of `sendInLoop`: what was not written goes to the output buffer. -/
def bufferRest (self : ConnId) (data : Memory) (nwrote remaining : ℕ) (r : View) :
    Except Fault View :=
  if remaining = 0 then .ok r
  else do
    let r := r.signalHighWater self remaining
    let outputBuffer ← r.conn.outputBuffer.append (data.bytes nwrote remaining)
    let r := r.setOutputBuffer outputBuffer
    if r.conn.channel.isWriting then return r
    else r.withPoller fun p ch => p.enableWriteing (.conn self) ch

/-- Nothing is buffered and no write is awaited, so `sendInLoop` writes directly. -/
def Idle (r : View) : Prop :=
  r.conn.channel.isWriting = false ∧ r.conn.outputBuffer.readableBytes = 0

instance (r : View) : Decidable r.Idle := inferInstanceAs (Decidable (_ ∧ _))

/-- `sendInLoop` behind its test of the state; `w` is the result of the direct write, if there
is one, and `w.isFault` the flag `faultError` that it leaves. -/
def sendBody (self : ConnId) (data : Memory) (len : ℤ) (w : WriteResult) (r : View) :
    Except Fault View :=
  if r.Idle then
    match w with
    | .wrote nwrote =>
      let remaining := toSize (len - nwrote)
      let r := r.transmit (data.bytes 0 nwrote)
      let r := if remaining = 0 then r.signalWriteComplete self else r
      r.bufferRest self data nwrote remaining
    | .failed _ _ => if w.isFault then .ok r else r.bufferRest self data 0 (toSize len)
  else r.bufferRest self data 0 (toSize len)

/-- `sendInLoop`. -/
def sendInLoop (self : ConnId) (data : Memory) (len : ℤ) (w : WriteResult) (r : View) :
    Except Fault View :=
  if r.conn.state = .kDisconnected then .ok r else r.sendBody self data len w

/-- `send`, called on the loop thread with a string of `size` bytes. -/
def send (self : ConnId) (data : Memory) (size : ℕ) (w : WriteResult) (r : View) :
    Except Fault View :=
  if r.conn.state = .kConnected then r.sendInLoop self data (toInt size) w else .ok r

/-- `handleWrite` up to the test of the state; the flag says that the test comes next, because
the buffer was emptied. -/
def writeOutput (self : ConnId) (w : WriteResult) (r : View) : Except Fault (View × Bool) :=
  if r.conn.channel.isWriting ∧ 0 < w.taken then do
    let r := r.transmit (r.conn.outputBuffer.readable.take w.taken)
    let r := r.setOutputBuffer (r.conn.outputBuffer.retrieve w.taken)
    if r.conn.outputBuffer.readableBytes = 0 then
      let r ← r.withPoller fun p ch => p.disableWriteing (.conn self) ch
      return (r.signalWriteComplete self, true)
    else return (r, false)
  else return (r, false)

/-- The end of `handleWrite` on an emptied buffer. -/
def afterDrain (r : View) : View :=
  if r.conn.state = .kDisconnecting then r.shutdownInLoop else r

/-- `handleWrite`. -/
def handleWrite (self : ConnId) (w : WriteResult) (r : View) : Except Fault View := do
  let (r, drained) ← r.writeOutput self w
  return if drained then r.afterDrain else r

/-- `shutdown`, called on the loop thread. -/
def shutdown (r : View) : View :=
  if r.conn.state = .kConnected then (r.setState .kDisconnecting).shutdownInLoop else r

/-! ### What the parts of the member functions change -/

section Cases

variable {r r' : View} {self : ConnId}

lemma withPoller_eq_ok_iff
    {act : EPOLLPoller ChannelId → Channel → Except Fault (EPOLLPoller ChannelId × Channel)} :
    r.withPoller act = .ok r' ↔
      ∃ p ch, act r.poller r.conn.channel = .ok (p, ch) ∧ r' = r.withChannel p ch := by
  unfold withPoller
  rw [Except.bind_eq_ok_iff]
  constructor
  · rintro ⟨⟨p, ch⟩, hact, h⟩
    exact ⟨p, ch, hact, (Except.ok.inj h).symm⟩
  · rintro ⟨p, ch, hact, rfl⟩
    exact ⟨(p, ch), hact, rfl⟩

/-- Add functors to the queue. -/
def queueAll (r : View) (fs : List Functor) : View := { r with queued := r.queued ++ fs }

lemma queueAll_nil (r : View) : r.queueAll [] = r := by
  simp [queueAll]

/-- At most the high-water functor is queued. -/
lemma signalHighWater_eq (self : ConnId) (remaining : ℕ) (r : View) :
    ∃ fs, (fs = [] ∨ ∃ n, fs = [.highWaterMarkCallback self n]) ∧
      r.signalHighWater self remaining = r.queueAll fs := by
  unfold signalHighWater
  dsimp only
  split
  · exact ⟨_, .inr ⟨_, rfl⟩, rfl⟩
  · exact ⟨[], .inl rfl, r.queueAll_nil.symm⟩

/-- At most the write-complete functor is queued. -/
lemma signalWriteComplete_eq (self : ConnId) (r : View) :
    ∃ fs, (fs = [] ∨ fs = [.writeCompleteCallback self]) ∧
      r.signalWriteComplete self = r.queueAll fs := by
  unfold signalWriteComplete
  split
  · exact ⟨_, .inr rfl, rfl⟩
  · exact ⟨[], .inl rfl, r.queueAll_nil.symm⟩

/-- Write interest was on, or is switched on. -/
def WriteInterest (self : ConnId) (r : View) (p : EPOLLPoller ChannelId) (ch : Channel) : Prop :=
  (r.conn.channel.isWriting = true ∧ p = r.poller ∧ ch = r.conn.channel) ∨
  (r.conn.channel.isWriting = false ∧ r.poller.enableWriteing (.conn self) r.conn.channel = .ok (p, ch))

/-- Nothing is left, or the rest is appended, a high-water functor may be queued, and write
interest is on afterwards. -/
theorem bufferRest_cases {data : Memory} {nwrote remaining : ℕ}
    (h : r.bufferRest self data nwrote remaining = .ok r') :
    (remaining = 0 ∧ r' = r) ∨
    (remaining ≠ 0 ∧ ∃ fs b p ch, (fs = [] ∨ ∃ n, fs = [.highWaterMarkCallback self n]) ∧
      r.conn.outputBuffer.append (data.bytes nwrote remaining) = .ok b ∧
      r.WriteInterest self p ch ∧ r' = ((r.queueAll fs).setOutputBuffer b).withChannel p ch) := by
  unfold bufferRest at h
  split at h
  · next hzero => exact .inl ⟨hzero, (Except.ok.inj h).symm⟩
  · next hzero =>
    obtain ⟨fs, hfs, hsignal⟩ := signalHighWater_eq self remaining r
    rw [hsignal] at h
    obtain ⟨b, happend, h⟩ := Except.bind_eq_ok_iff.mp h
    refine .inr ⟨hzero, fs, b, ?_⟩
    dsimp only at h
    split at h
    · next hwriting =>
      obtain rfl := Except.ok.inj h
      exact ⟨_, _, hfs, happend, .inl ⟨hwriting, rfl, rfl⟩, rfl⟩
    · next hwriting =>
      obtain ⟨p, ch, hact, rfl⟩ := withPoller_eq_ok_iff.mp h
      exact ⟨p, ch, hfs, happend, .inr ⟨eq_false_of_ne_true hwriting, hact⟩, rfl⟩

/-- How much of a message `sendInLoop` hands to the kernel at once and how much it keeps. -/
inductive Split (r : View) (len : ℤ) : WriteResult → ℕ → ℕ → Prop
  | direct {n : ℕ} (hidle : r.Idle) : Split r len (.wrote n) n (toSize (len - n))
  | refused {e logged : Errno} (hidle : r.Idle)
      (he : (WriteResult.failed e logged).isFault = false) :
      Split r len (.failed e logged) 0 (toSize len)
  | queued {w : WriteResult} (hbusy : ¬ r.Idle) : Split r len w 0 (toSize len)

/-- Either the direct write is taken for a fault and nothing happens, or the message is split
between the kernel and the output buffer. -/
theorem sendBody_cases {data : Memory} {len : ℤ} {w : WriteResult}
    (h : r.sendBody self data len w = .ok r') :
    (r.Idle ∧ w.isFault = true ∧ r' = r) ∨
    (¬ (r.Idle ∧ w.isFault = true) ∧ ∃ nwrote remaining fs, Split r len w nwrote remaining ∧
      (fs = [] ∨ fs = [.writeCompleteCallback self]) ∧
      ((r.transmit (data.bytes 0 nwrote)).queueAll fs).bufferRest self data nwrote remaining =
        .ok r') := by
  have htransmit : (r.transmit (data.bytes 0 0)).queueAll [] = r := by
    simp [transmit, queueAll, Memory.bytes]
  unfold sendBody at h
  split at h
  · next hidle =>
    cases w with
    | wrote n =>
      refine .inr ⟨by simp [WriteResult.isFault], n, toSize (len - n), ?_⟩
      dsimp only at h
      split at h
      · obtain ⟨fs, hfs, hsignal⟩ := signalWriteComplete_eq self (r.transmit (data.bytes 0 n))
        rw [hsignal] at h
        exact ⟨fs, .direct hidle, hfs, h⟩
      · exact ⟨[], .direct hidle, .inl rfl, by rw [queueAll_nil]; exact h⟩
    | failed e logged =>
      dsimp only at h
      split at h
      · next hfault => exact .inl ⟨hidle, hfault, (Except.ok.inj h).symm⟩
      · next hfault =>
        have hfalse : (WriteResult.failed e logged).isFault = false := by simpa using hfault
        refine .inr ⟨by simp [hfalse], 0, toSize len, [], .refused hidle hfalse, .inl rfl, ?_⟩
        rw [htransmit]
        exact h
  · next hbusy =>
    refine .inr ⟨fun hc => hbusy hc.1, 0, toSize len, [], .queued hbusy, .inl rfl, ?_⟩
    rw [htransmit]
    exact h

/-- `handleWrite` does nothing, or hands bytes to the kernel and keeps the rest, or empties the
buffer, switches write interest off and may queue the write-complete functor. -/
theorem writeOutput_cases {w : WriteResult} {drained : Bool}
    (h : r.writeOutput self w = .ok (r', drained)) :
    (¬ (r.conn.channel.isWriting = true ∧ 0 < w.taken) ∧ r' = r ∧ drained = false) ∨
    (r.conn.channel.isWriting = true ∧ 0 < w.taken ∧ ∃ r₁,
      r₁ = (r.transmit (r.conn.outputBuffer.readable.take w.taken)).setOutputBuffer
        (r.conn.outputBuffer.retrieve w.taken) ∧
      ((r₁.conn.outputBuffer.readableBytes ≠ 0 ∧ r' = r₁ ∧ drained = false) ∨
       (r₁.conn.outputBuffer.readableBytes = 0 ∧ drained = true ∧ ∃ fs p ch,
          (fs = [] ∨ fs = [.writeCompleteCallback self]) ∧
          r₁.poller.disableWriteing (.conn self) r₁.conn.channel = .ok (p, ch) ∧
          r' = (r₁.withChannel p ch).queueAll fs))) := by
  unfold writeOutput at h
  split at h
  · next hcond =>
    refine .inr ⟨hcond.1, hcond.2, _, rfl, ?_⟩
    dsimp only at h
    split at h
    · next hempty =>
      obtain ⟨r₂, hact, h⟩ := Except.bind_eq_ok_iff.mp h
      obtain ⟨p, ch, hch, rfl⟩ := withPoller_eq_ok_iff.mp hact
      obtain ⟨rfl, rfl⟩ := Prod.mk.inj (Except.ok.inj h)
      obtain ⟨fs, hfs, hsignal⟩ := signalWriteComplete_eq self (withChannel _ p ch)
      exact .inr ⟨hempty, rfl, fs, p, ch, hfs, hch, hsignal⟩
    · next hrest =>
      obtain ⟨rfl, rfl⟩ := Prod.mk.inj (Except.ok.inj h)
      exact .inl ⟨hrest, rfl, rfl⟩
  · next hcond =>
    obtain ⟨rfl, rfl⟩ := Prod.mk.inj (Except.ok.inj h)
    exact .inl ⟨hcond, rfl, rfl⟩

/-- `connectEstablished` behind the store of the state: one update of the channel. -/
lemma tieAndEnableReading_cases (h : r.tieAndEnableReading self = .ok r') :
    ∃ p ch, r.poller.updateChannel (.conn self) { r.conn.channel with
        events := r.conn.channel.events ||| Channel.kReadEvent, tied := true } = .ok (p, ch) ∧
      r' = r.withChannel p ch := by
  obtain ⟨p, ch, hact, rfl⟩ := withPoller_eq_ok_iff.mp h
  exact ⟨p, ch, hact, rfl⟩

/-- The channel of a connection that goes down has no events any more. -/
lemma closeChannel_cases (h : r.closeChannel self = .ok r') :
    ∃ p ch, r.poller.updateChannel (.conn self)
        { r.conn.channel with events := Channel.kNoneEvent } = .ok (p, ch) ∧
      r' = (r.setState .kDisconnected).withChannel p ch := by
  obtain ⟨p, ch, hact, rfl⟩ := withPoller_eq_ok_iff.mp h
  exact ⟨p, ch, hact, rfl⟩

lemma channelRemove_cases (h : r.channelRemove self = .ok r') :
    ∃ p ch, r.poller.removeChannel (.conn self) r.conn.channel = .ok (p, ch) ∧
      r' = r.withChannel p ch := by
  obtain ⟨p, ch, hact, rfl⟩ := withPoller_eq_ok_iff.mp h
  exact ⟨p, ch, hact, rfl⟩

lemma readInput_cases {bytes : List UInt8} (h : r.readInput bytes = .ok r') :
    ∃ b, r' = { r with conn := { r.conn with inputBuffer := b } } := by
  obtain ⟨b, -, h⟩ := Except.bind_eq_ok_iff.mp h
  exact ⟨b, (Except.ok.inj h).symm⟩

/-- Everything `sendInLoop` can change. -/
theorem sendBody_effect {data : Memory} {len : ℤ} {w : WriteResult}
    (h : r.sendBody self data len w = .ok r') :
    ∃ fs socket b p ch, (∀ f ∈ fs, f.Notifies self) ∧
      ((p = r.poller ∧ ch = r.conn.channel) ∨
        r.poller.enableWriteing (.conn self) r.conn.channel = .ok (p, ch)) ∧
      r' = ⟨{ r.conn with socket := socket, outputBuffer := b, channel := ch }, p,
        r.queued ++ fs⟩ := by
  rcases sendBody_cases h with ⟨-, -, rfl⟩ | ⟨-, n, m, fs, -, hfs, hrest⟩
  · exact ⟨[], _, _, _, _, by simp, .inl ⟨rfl, rfl⟩, (queueAll_nil r').symm⟩
  · have hnotify : ∀ f ∈ fs, f.Notifies self := by
      rcases hfs with rfl | rfl
      · simp
      · simp [Functor.Notifies]
    rcases bufferRest_cases hrest with ⟨-, rfl⟩ | ⟨-, fs', b, p, ch, hfs', -, hwrite, rfl⟩
    · exact ⟨fs, _, _, _, _, hnotify, .inl ⟨rfl, rfl⟩, rfl⟩
    · refine ⟨fs ++ fs', (r.transmit (data.bytes 0 n)).conn.socket, b, p, ch, ?_, ?_, ?_⟩
      · intro f hf
        rcases List.mem_append.mp hf with hf | hf
        · exact hnotify f hf
        · rcases hfs' with rfl | ⟨k, rfl⟩
          · cases hf
          · exact .inr ⟨k, List.mem_singleton.mp hf⟩
      · rcases hwrite with ⟨-, hp, hch⟩ | ⟨-, hact⟩
        · exact .inl ⟨hp, hch⟩
        · exact .inr hact
      · simp only [queueAll, setOutputBuffer, withChannel, List.append_assoc]
        rfl

/-- Everything the first part of `handleWrite` can change; the channel changes and a functor is
queued only if write interest was on. -/
theorem writeOutput_effect {w : WriteResult} {drained : Bool}
    (h : r.writeOutput self w = .ok (r', drained)) :
    ∃ fs socket b p ch, (∀ f ∈ fs, f.Notifies self) ∧
      ((fs = [] ∧ p = r.poller ∧ ch = r.conn.channel) ∨ (r.conn.channel.isWriting = true ∧
        r.poller.disableWriteing (.conn self) r.conn.channel = .ok (p, ch))) ∧
      r' = ⟨{ r.conn with socket := socket, outputBuffer := b, channel := ch }, p,
        r.queued ++ fs⟩ := by
  rcases writeOutput_cases h with ⟨-, rfl, -⟩ | ⟨hwriting, -, r₁, rfl, hrest⟩
  · exact ⟨[], _, _, _, _, by simp, .inl ⟨rfl, rfl, rfl⟩, (queueAll_nil r').symm⟩
  · rcases hrest with ⟨-, rfl, -⟩ | ⟨-, -, fs, p, ch, hfs, hact, rfl⟩
    · exact ⟨[], _, _, _, _, by simp, .inl ⟨rfl, rfl, rfl⟩, (queueAll_nil _).symm⟩
    · refine ⟨fs, _, _, p, ch, ?_, .inr ⟨hwriting, hact⟩, rfl⟩
      rcases hfs with rfl | rfl
      · simp
      · simp [Functor.Notifies]

end Cases

end View

end TcpConnection

end HzhMuduo
