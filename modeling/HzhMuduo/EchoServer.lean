import HzhMuduo.ByteQueue
import HzhMuduo.HalfClose

/-!
# The echo server

The example server answers what it has read with the same bytes and shuts its side down
(`onMessage`).  One connection of it, on its loop thread, with every result of `::readv` and
`::write` and every order of the events.

Since `shutdown` leaves the state `kConnected`, only the first message is answered.  So the peer
gets back the bytes of the first read, all of them before the end of the stream, and never
anything else (`echo`).  What the connection does is what `OutgoingStream` and `HalfClose` allow;
their invariants are kept by the parts of a step here.
-/

namespace HzhMuduo

open MachineWord TcpConnection

/-- All readable bytes are taken out as one string. -/
lemma Buffer.retrieveAllAsString_eq {b : Buffer} (h : b.WellFormed) :
    b.retrieveAllAsString = .ok (b.readable, b.retrieveAll) := by
  have hlen := h.readableBytes_eq_length
  unfold Buffer.retrieveAllAsString
  rw [Buffer.retrieveAsString_eq h hlen.le, hlen, List.take_length, Buffer.retrieve, hlen,
    if_neg (Nat.lt_irrefl _)]

namespace TcpConnection.View

/-- `EchoServer::onMessage`, called on the loop thread of the connection; `w` is the result of the
direct write, if there is one. -/
def onMessage (self : ConnId) (w : WriteResult) (r : View) : Except Fault (List UInt8 × View) := do
  let (msg, inputBuffer) ← r.conn.inputBuffer.retrieveAllAsString
  let r := { r with conn := { r.conn with inputBuffer := inputBuffer } }
  let r ← r.send self (.ofString msg) msg.length w
  return (msg, r.shutdown)

variable {r r' : View} {self : ConnId}

/-- Give the connection another input buffer. -/
def withInput (r : View) (b : Buffer) : View := { r with conn := { r.conn with inputBuffer := b } }

/-- `onMessage` sends everything that is readable and then calls `shutdown`. -/
lemma onMessage_cases {w : WriteResult} {msg : List UInt8}
    (hwf : r.conn.inputBuffer.WellFormed) (h : r.onMessage self w = .ok (msg, r')) :
    msg = r.conn.inputBuffer.readable ∧ ∃ r₁,
      (r.withInput r.conn.inputBuffer.retrieveAll).send self (.ofString msg) msg.length w = .ok r₁ ∧
      r' = r₁.shutdown := by
  obtain ⟨⟨msg', b⟩, hretrieve, h⟩ := Except.bind_eq_ok_iff.mp h
  obtain ⟨r₁, hsend, h⟩ := Except.bind_eq_ok_iff.mp h
  obtain ⟨rfl, rfl⟩ := Prod.mk.inj (Except.ok.inj h)
  rw [Buffer.retrieveAllAsString_eq hwf] at hretrieve
  obtain ⟨rfl, rfl⟩ := Prod.mk.inj (Except.ok.inj hretrieve)
  exact ⟨rfl, r₁, hsend, rfl⟩

/-- After `shutdown` the connection is not connected. -/
lemma shutdown_state_ne (r : View) : r.shutdown.conn.state ≠ .kConnected := by
  unfold shutdown
  split
  · rw [(r.setState .kDisconnecting).shutdownInLoop_stream.2.2.1]
    exact nofun
  · assumption

lemma shutdown_inputBuffer (r : View) : r.shutdown.conn.inputBuffer = r.conn.inputBuffer := by
  unfold shutdown shutdownInLoop
  split
  · split <;> rfl
  · rfl

/-- `handleWrite` leaves the input and the state alone. -/
lemma handleWrite_kept {w : WriteResult} (h : r.handleWrite self w = .ok r') :
    r'.conn.inputBuffer = r.conn.inputBuffer ∧ r'.conn.state = r.conn.state := by
  obtain ⟨⟨r₁, drained⟩, hout, h⟩ := Except.bind_eq_ok_iff.mp h
  obtain rfl := Except.ok.inj h
  obtain ⟨fs, socket, b, p, ch, -, -, rfl⟩ := writeOutput_effect hout
  cases drained with
  | false => exact ⟨rfl, rfl⟩
  | true =>
    rw [if_pos rfl]
    unfold afterDrain shutdownInLoop
    split
    · split <;> exact ⟨rfl, rfl⟩
    · exact ⟨rfl, rfl⟩

end TcpConnection.View

/-- A connection of the echo server with its history: the bytes read from the socket, the message
that was answered, whether the direct write of the answer was taken for a fault, and whether the
connection was closed. -/
structure EchoServer where
  view : View
  received : List UInt8
  request : Option (List UInt8)
  fault : Bool
  ended : Bool

/-- Once `shutdown` was called and nothing is left to send, the write side of a connection that
was not closed is shut down. -/
lemma HalfClose.HalfCloseInv.shutWr_eq_one {s : HalfClose} (hI : HalfClose.HalfCloseInv s)
    (hasked : s.asked = true) (hended : s.ended = false) (hempty : s.view.buffered = []) :
    s.view.shutWr = 1 := by
  have hphase := hI.phase
  cases hstate : s.view.conn.state with
  | kConnecting =>
    rw [hstate] at hphase
    exact hphase.elim
  | kConnected =>
    rw [hstate, HalfClose.Phase, hasked] at hphase
    cases hphase.1
  | kDisconnecting =>
    have hinterested := hI.interested (by rw [hstate]; decide)
    rw [hstate] at hphase
    rw [hphase.2, if_neg fun hon => hinterested.mp hon hempty]
  | kDisconnected =>
    rw [hstate, HalfClose.Phase, hended] at hphase
    cases hphase.1

namespace EchoServer

variable {s s' : EchoServer} {self : ConnId}

/-- An event on the loop thread: `handleRead` with the bytes of `::readv` and the result of the
direct write, `handleWrite`, `handleClose`, and the two halves of `connectDestroyed`. -/
inductive Act
  | handleRead (bytes : List UInt8) (w : WriteResult)
  | handleWrite (w : WriteResult)
  | handleClose
  | connectDestroyed
  | channelRemove

/-- The step `a` on connection `self`. -/
def step (self : ConnId) (s : EchoServer) : Act → Option EchoServer
  | .handleRead bytes w =>
    if bytes ≠ [] ∧ bytes.length ≤ s.view.conn.inputBuffer.readCapacity then do
      let v ← (s.view.readInput bytes).toOption
      let (msg, v) ← (v.onMessage self w).toOption
      if w.taken ≤ msg.length then
        let connected := s.view.conn.state == .kConnected
        return {
          view := v
          received := s.received ++ bytes
          request := if connected then some msg else s.request
          fault := if connected then w.isFault else s.fault
          ended := s.ended }
      else none
    else none
  | .handleWrite w =>
    if w.taken ≤ s.view.conn.outputBuffer.readableBytes then
      (s.view.handleWrite self w).toOption.map fun v => { s with view := v }
    else none
  | .handleClose =>
    (s.view.handleClose self).toOption.map fun v => { s with view := v, ended := true }
  | .connectDestroyed =>
    if s.view.conn.state = .kConnected then
      (s.view.destroyConnected self).toOption.map fun v => { s with view := v, ended := true }
    else some { s with ended := true }
  | .channelRemove => (s.view.channelRemove self).toOption.map fun v => { s with view := v }

/-- The runs of one connection of the echo server. -/
def system (self : ConnId) : TransitionSystem EchoServer Act where
  init s := OutgoingStream.Established s.view ∧ s.view.shutWr = 0 ∧
    s.view.conn.inputBuffer = .new ∧ s.received = [] ∧ s.request = none ∧ s.ended = false
  step := step self

/-- What was sent as an answer. -/
def answer (s : EchoServer) : List UInt8 := if s.fault then [] else s.request.getD []

/-- The connection as the half-close sees it: `shutdown` is called after the answer. -/
def toHalfClose (s : EchoServer) : HalfClose := ⟨s.view, s.request.isSome, s.ended⟩

/-- The connection as its outgoing stream sees it. -/
def toOutgoingStream (s : EchoServer) : OutgoingStream := ⟨s.view, [s.answer]⟩

/-- The invariant of the runs. -/
structure EchoInv (s : EchoServer) : Prop where
  halfClose : HalfClose.HalfCloseInv s.toHalfClose
  stream : OutgoingStream.StreamInv s.toOutgoingStream
  input : s.view.conn.inputBuffer.WellFormed
  empty : s.view.conn.inputBuffer.readable = []
  /-- Until the first message, nothing was read. -/
  fresh : s.view.conn.state = .kConnected → s.view.conn.inputBuffer = .new ∧ s.received = [] ∧
    s.request = none
  prefix_received : s.request.getD [] <+: s.received

/-- A connection that was just set up satisfies the invariant. -/
lemma echoInv_of_init (h : (system self).init s) : EchoInv s := by
  obtain ⟨hestablished, hshut, hinput, hreceived, hrequest, hended⟩ := h
  have hanswer : s.answer = [] := by simp [answer, hrequest]
  have hinit : (HalfClose.system self).init s.toHalfClose :=
    ⟨hestablished, hshut, by simp [toHalfClose, hrequest], hended⟩
  refine ⟨HalfClose.halfCloseInv_of_init hinit, ?_, ?_, ?_,
    fun _ => ⟨hinput, hreceived, hrequest⟩, ?_⟩
  · refine ⟨hestablished.wellFormed,
      fun _ => .of_empty hestablished.writing hestablished.buffered, fun _ => hestablished.writing, ?_⟩
    change s.view.accepted ++ s.view.buffered = [s.answer].flatten
    rw [hestablished.accepted, hestablished.buffered, hanswer]
    rfl
  · rw [hinput]
    exact Buffer.wellFormed_new
  · rw [hinput]
    exact Buffer.readable_new
  · rw [hrequest]
    exact List.nil_prefix

/-- A step of the connection that leaves the input and the state alone, or closes it. -/
lemma EchoInv.keep (hI : EchoInv s) {v : View} {ended : Bool}
    (hhalf : HalfClose.HalfCloseInv ⟨v, s.request.isSome, ended⟩)
    (hstream : OutgoingStream.StreamInv ⟨v, [s.answer]⟩)
    (hinput : v.conn.inputBuffer = s.view.conn.inputBuffer)
    (hstate : v.conn.state = .kConnected → s.view.conn.state = .kConnected) :
    EchoInv { s with view := v, ended := ended } := by
  refine ⟨hhalf, hstream, ?_, ?_, fun hconnected => ?_, hI.prefix_received⟩
  · exact hinput ▸ hI.input
  · exact hinput ▸ hI.empty
  · obtain ⟨hnew, hrest⟩ := hI.fresh (hstate hconnected)
    exact ⟨hinput.trans hnew, hrest⟩

/-- What the first read delivers fits in an `int`. -/
lemma length_lt_of_new {bytes : List UInt8} (h : bytes.length ≤ Buffer.new.readCapacity) :
    bytes.length < 2 ^ 31 := by
  have hcapacity : Buffer.new.readCapacity < 2 ^ 31 := by decide +kernel
  exact Nat.lt_of_le_of_lt h hcapacity

/-- Data is read into the empty input buffer, and `onMessage` is called with it. -/
lemma EchoInv.exists_read (hI : EchoInv s) {bytes msg : List UInt8} {w : WriteResult} {v v' : View}
    (hlen : bytes.length ≤ s.view.conn.inputBuffer.readCapacity)
    (hread : s.view.readInput bytes = .ok v) (hmessage : v.onMessage self w = .ok (msg, v')) :
    msg = bytes ∧ ∃ b r, b.WellFormed ∧ b.readable = [] ∧
      (s.view.withInput b).send self (.ofString bytes) bytes.length w = .ok r ∧ v' = r.shutdown := by
  obtain ⟨b, hb, hv⟩ := Except.bind_eq_ok_iff.mp hread
  obtain rfl := Except.ok.inj hv
  have hsmall := Nat.lt_of_le_of_lt hlen hI.input.readCapacity_lt
  rcases Buffer.readFd_cases hI.input hsmall with ⟨-, b', hb', happended⟩ | ⟨-, herror⟩
  · obtain rfl := Except.ok.inj (hb'.symm.trans hb)
    obtain ⟨hmsg, r, hsend, rfl⟩ := View.onMessage_cases happended.wellFormed hmessage
    have hbytes : msg = bytes := by
      rw [hmsg]
      exact happended.readable_eq.trans (by rw [hI.empty, List.nil_append])
    subst hbytes
    exact ⟨rfl, b'.retrieveAll, r, Buffer.retrieveAll_wellFormed happended.wellFormed,
      Buffer.readable_retrieveAll _, hsend, rfl⟩
  · cases herror.symm.trans hb

/-- A connected connection has sent nothing, so `send` writes directly. -/
lemma EchoInv.idle (hI : EchoInv s) (hstate : s.view.conn.state = .kConnected) : s.view.Idle := by
  have hopen : s.view.conn.state ≠ .kDisconnected := by
    rw [hstate]
    decide
  have hanswer : s.answer = [] := by simp [answer, (hI.fresh hstate).2.2]
  have hstream : s.view.accepted ++ s.view.buffered = [s.answer].flatten := hI.stream.stream
  rw [hanswer] at hstream
  have hempty : s.view.buffered = [] := (List.append_eq_nil_iff.mp hstream).2
  have hinterested : s.view.Interested := hI.stream.interested hopen
  constructor
  · exact eq_false_of_ne_true fun hon => hinterested.mp hon hempty
  · have hlen : s.view.conn.outputBuffer.readableBytes = s.view.buffered.length :=
      hI.stream.wellFormed.readableBytes_eq_length
    rw [hlen, hempty]
    rfl

/-- The first message is answered, unless the direct write is taken for a fault, and the connection
is shut down. -/
lemma EchoInv.reply (hI : EchoInv s) (hstate : s.view.conn.state = .kConnected) {bytes : List UInt8}
    {w : WriteResult} {b : Buffer} {r : View} (hlen : bytes.length < 2 ^ 31)
    (hw : w.taken ≤ bytes.length) (hwf : b.WellFormed) (hempty : b.readable = [])
    (hsend : (s.view.withInput b).send self (.ofString bytes) bytes.length w = .ok r) :
    EchoInv ⟨r.shutdown, s.received ++ bytes, some bytes, w.isFault, s.ended⟩ := by
  obtain ⟨-, hreceived, hrequest⟩ := hI.fresh hstate
  have hsize : toSize (toInt bytes.length) = bytes.length := toSize_toInt_of_lt hlen
  have hoffer : w.taken ≤ toSize (toInt bytes.length) := hsize.symm ▸ hw
  have hconnected : (s.view.withInput b).conn.state = .kConnected := hstate
  have hopen : (s.view.withInput b).conn.state ≠ .kDisconnected := by
    rw [hconnected]
    decide
  have hanswer : s.answer = [] := by simp [answer, hrequest]
  have hhalf : HalfClose.HalfCloseInv ⟨s.view.withInput b, s.request.isSome, s.ended⟩ :=
    hI.halfClose.of_eq (v := s.view.withInput b) rfl rfl rfl rfl
  have hstream : OutgoingStream.StreamInv ⟨s.view.withInput b, [s.answer]⟩ :=
    hI.stream.of_eq (v := s.view.withInput b) rfl rfl (.inr ⟨.rfl, rfl⟩)
  have hhalf' : HalfClose.HalfCloseInv ⟨r, s.request.isSome, s.ended⟩ := hhalf.send hoffer hsend
  have hbody : (s.view.withInput b).sendBody self (.ofString bytes) (toInt bytes.length) w = .ok r := by
    rw [View.send, if_pos hconnected, View.sendInLoop, if_neg hopen] at hsend
    exact hsend
  have hstate' : r.conn.state = .kConnected :=
    (View.sendBody_stream hstream.wellFormed (hstream.interested hopen) hoffer hbody).2.2.1.trans
      hstate
  have hstream' := (hstream.sendBody hopen hoffer hbody).shutdown
  have hinput : r.shutdown.conn.inputBuffer = b := by
    obtain ⟨fs, socket, b', p, ch, -, -, rfl⟩ := View.sendBody_effect hbody
    exact View.shutdown_inputBuffer _
  refine ⟨?_, ?_, ?_, ?_, fun hc => absurd hc r.shutdown_state_ne, ?_⟩
  · have hasked := hhalf'.shutdown
    simp only [hstate', beq_self_eq_true, Bool.or_true] at hasked
    exact hasked
  · refine ⟨hstream'.wellFormed, hstream'.interested, hstream'.closed, hstream'.stream.trans ?_⟩
    -- the direct write is tried, so the message is lost exactly if it is taken for a fault
    have hdiscards : (s.view.withInput b).Discards w ↔ w.isFault = true := by
      refine (or_iff_right hopen).trans (and_iff_right ?_)
      exact hI.idle hstate
    change (if (s.view.withInput b).Discards w then _ else _ : List (List UInt8)).flatten = _
    rw [hsize, Memory.bytes_ofString, hanswer]
    by_cases hfault : w.isFault = true
    · rw [if_pos (hdiscards.mpr hfault)]
      simp [toOutgoingStream, answer, hfault]
    · rw [if_neg fun hd => hfault (hdiscards.mp hd)]
      simp [toOutgoingStream, answer, hfault]
  · exact hinput ▸ hwf
  · exact hinput ▸ hempty
  · rw [hreceived, List.nil_append]
    exact List.prefix_rfl

/-- A message that comes later is thrown away. -/
lemma EchoInv.ignore (hI : EchoInv s) (hstate : s.view.conn.state ≠ .kConnected)
    {bytes : List UInt8} {w : WriteResult} {b : Buffer} {r : View} (hwf : b.WellFormed)
    (hempty : b.readable = [])
    (hsend : (s.view.withInput b).send self (.ofString bytes) bytes.length w = .ok r) :
    EchoInv { s with view := r.shutdown, received := s.received ++ bytes } := by
  have hclosed : (s.view.withInput b).conn.state ≠ .kConnected := hstate
  obtain rfl : r = s.view.withInput b := by
    unfold View.send at hsend
    rw [if_neg hclosed] at hsend
    exact (Except.ok.inj hsend).symm
  have hshutdown : (s.view.withInput b).shutdown = s.view.withInput b := if_neg hclosed
  rw [hshutdown]
  exact ⟨hI.halfClose.of_eq (v := s.view.withInput b) rfl rfl rfl rfl,
    hI.stream.of_eq (v := s.view.withInput b) rfl rfl (.inr ⟨.rfl, rfl⟩), hwf, hempty,
    fun hc => absurd hc hstate, hI.prefix_received.trans (List.prefix_append _ _)⟩

/-- Closing the channel. -/
lemma EchoInv.closeChannel (hI : EchoInv s) {v : View} (h : s.view.closeChannel self = .ok v) :
    EchoInv { s with view := v, ended := true } := by
  have hhalf := hI.halfClose.closeChannel h
  have hstream := hI.stream.closeChannel h
  obtain ⟨p, ch, -, rfl⟩ := View.closeChannel_cases h
  exact hI.keep hhalf hstream rfl nofun

/-- Every step keeps the invariant. -/
lemma EchoInv.step {a : Act} (hI : EchoInv s) (h : s.step self a = some s') : EchoInv s' := by
  cases a with
  | handleRead bytes w =>
    obtain ⟨⟨-, hlen⟩, h⟩ := Option.ite_none_right_eq_some.mp h
    obtain ⟨v, hread, h⟩ := Option.bind_eq_some_iff.mp h
    obtain ⟨⟨msg, v'⟩, hmessage, h⟩ := Option.bind_eq_some_iff.mp h
    obtain ⟨hw, h⟩ := Option.ite_none_right_eq_some.mp h
    obtain rfl := Option.some.inj h
    obtain ⟨rfl, b, r, hwf, hempty, hsend, rfl⟩ := hI.exists_read hlen
      (Except.toOption_eq_some_iff.mp hread) (Except.toOption_eq_some_iff.mp hmessage)
    by_cases hstate : s.view.conn.state = .kConnected
    · have hsmall := length_lt_of_new ((hI.fresh hstate).1 ▸ hlen)
      simpa [hstate] using hI.reply hstate hsmall hw hwf hempty hsend
    · simpa [hstate] using hI.ignore hstate hwf hempty hsend
  | handleWrite w =>
    obtain ⟨-, h⟩ := Option.ite_none_right_eq_some.mp h
    obtain ⟨v, hv, rfl⟩ := Option.map_eq_some_iff.mp h
    have hv := Except.toOption_eq_some_iff.mp hv
    obtain ⟨hinput, hstate⟩ := View.handleWrite_kept hv
    exact hI.keep (hI.halfClose.handleWrite hv) (hI.stream.handleWrite hv) hinput
      fun hc => hstate.symm.trans hc
  | handleClose =>
    obtain ⟨v, hv, rfl⟩ := Option.map_eq_some_iff.mp h
    exact hI.closeChannel (Except.toOption_eq_some_iff.mp hv)
  | connectDestroyed =>
    simp only [EchoServer.step] at h
    split at h
    · obtain ⟨v, hv, rfl⟩ := Option.map_eq_some_iff.mp h
      exact hI.closeChannel (Except.toOption_eq_some_iff.mp hv)
    · obtain rfl := Option.some.inj h
      exact hI.keep hI.halfClose.markEnded hI.stream rfl id
  | channelRemove =>
    obtain ⟨v, hv, rfl⟩ := Option.map_eq_some_iff.mp h
    have hstream : OutgoingStream.act self s.toOutgoingStream.view .channelRemove = some v := hv
    have hhalf : (toHalfClose s).step self .channelRemove =
        some ⟨v, s.request.isSome, s.ended⟩ := Option.map_eq_some_iff.mpr ⟨v, hv, rfl⟩
    obtain ⟨p, ch, -, rfl⟩ := View.channelRemove_cases (Except.toOption_eq_some_iff.mp hv)
    exact hI.keep (hI.halfClose.step hhalf) (hI.stream.act hstream) rfl id

/-- The invariant holds in every run. -/
theorem echoInv_of_reach (h : (system self).Reach s) : EchoInv s :=
  h.invariant (fun _ hs => echoInv_of_init hs) fun _ _ _ hI hs => hI.step hs

/-- What the kernel has accepted and what is buffered is the first message that found the
connection connected, which is the beginning of what was read, or nothing if its direct write
failed and the error found behind the log message was that of a peer that is gone; the write side
is shut down at most once, after such a message and with nothing left to send, and it is shut down
when nothing is left, unless the connection is closed first; and no input is left in the buffer. -/
theorem echo (h : (system self).Reach s) :
    s.view.accepted ++ s.view.buffered = s.answer ∧ s.answer <+: s.received ∧
    s.view.shutWr ≤ 1 ∧ (0 < s.view.shutWr → s.request.isSome ∧ s.view.accepted = s.answer) ∧
    (s.request.isSome → s.ended = false → s.view.accepted = s.answer → s.view.shutWr = 1) ∧
    s.view.conn.inputBuffer.readable = [] := by
  have hI := echoInv_of_reach h
  have hstream : s.view.accepted ++ s.view.buffered = s.answer := by
    have hflat : s.view.accepted ++ s.view.buffered = [s.answer].flatten := hI.stream.stream
    rwa [List.flatten_singleton] at hflat
  have hdrained : s.view.accepted = s.answer ↔ s.view.buffered = [] := by
    rw [← hstream]
    exact List.self_eq_append_right
  obtain ⟨honce, hsettled⟩ := hI.halfClose.settled
  refine ⟨hstream, ?_, honce, fun hpos => ?_, fun hasked hended hall => ?_, hI.empty⟩
  · rw [answer]
    split
    · exact List.nil_prefix
    · exact hI.prefix_received
  · obtain ⟨hasked, hempty⟩ := hsettled hpos
    exact ⟨hasked, hdrained.mpr hempty⟩
  · exact hI.halfClose.shutWr_eq_one hasked hended (hdrained.mp hall)

/-- Three bytes are read, the kernel takes one of them at once and two later, and a byte that comes
after them is not answered. -/
def echoRun : List Act :=
  [.handleRead [1, 2, 3] (.wrote 1), .handleWrite (.wrote 2), .handleRead [4] (.wrote 0)]

theorem echo_echoRun : ∃ s, (system 0).Reach s ∧ s.answer = [1, 2, 3] ∧
    s.received = [1, 2, 3, 4] ∧ s.view.accepted = [1, 2, 3] ∧ s.view.shutWr = 1 := by
  have hestablished : OutgoingStream.Established OutgoingStream.exampleStream.view :=
    ⟨rfl, by decide, Buffer.wellFormed_new, Buffer.readable_new, rfl⟩
  obtain ⟨s, hs, hv⟩ := TransitionSystem.exists_reach_of_run (M := system 0)
    (s := ⟨OutgoingStream.exampleStream.view, [], none, false, false⟩)
    (v := ([1, 2, 3], [1, 2, 3, 4], [1, 2, 3], true, false)) echoRun
    (fun s => (s.answer, s.received, s.view.accepted, s.request.isSome, s.ended))
    ⟨hestablished, rfl, rfl, rfl, rfl, rfl⟩ (by decide +kernel)
  obtain ⟨hanswer, hv⟩ := Prod.mk.inj hv
  obtain ⟨hreceived, hv⟩ := Prod.mk.inj hv
  obtain ⟨haccepted, hv⟩ := Prod.mk.inj hv
  obtain ⟨hasked, hended⟩ := Prod.mk.inj hv
  obtain ⟨-, -, -, -, hshut, -⟩ := echo hs
  exact ⟨s, hs, hanswer, hreceived, haccepted,
    hshut hasked hended (haccepted.trans hanswer.symm)⟩

end EchoServer

end HzhMuduo
