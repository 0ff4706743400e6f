import HzhMuduo.Foundation.TransitionSystem
import HzhMuduo.TcpConnection

/-!
# The outgoing stream of a connection

One connection, from the moment it is established, with the steps its loop thread can take on
its output: `sendInLoop`, `handleWrite`, `shutdown`, `handleClose` and the two halves of
`connectDestroyed`, in any order and with any answer of the kernel.

The bytes the kernel has accepted followed by the readable content of `outputBuffer_` are
messages, one after the other.  The direct write and the buffer never overtake each other because
write interest is on exactly while the buffer holds something, until the connection is closed.

`kept` is the history of the messages that were not to be discarded whole: a message is, if the
connection is disconnected or the direct write reports that the peer is gone.  `sendInLoop` tests
for the latter only after it has logged the failure, and the logging may change `errno`.  It
discards exactly these messages as long as the error found there is of the kind that was reported
(`whole_iff_errnoKept`); otherwise a message is kept that should have been discarded
(`exists_kept_of_epipe`), or the other way round.
-/

namespace HzhMuduo

open MachineWord TcpConnection

namespace TcpConnection.View

variable {r r' : View} {self : ConnId}

/-- What the kernel has accepted on the connection. -/
def accepted (r : View) : List UInt8 := r.conn.socket.sent

/-- What waits in the output buffer. -/
def buffered (r : View) : List UInt8 := r.conn.outputBuffer.readable

/-- A message passed to `sendInLoop` is thrown away whole: the connection is disconnected, or
the direct write is taken for a fault. -/
def Discards (r : View) (w : WriteResult) : Prop :=
  r.conn.state = .kDisconnected ∨ r.Idle ∧ w.isFault = true

instance (r : View) (w : WriteResult) : Decidable (r.Discards w) :=
  inferInstanceAs (Decidable (_ ∨ _))

/-- A message passed to `sendInLoop` is to be thrown away whole: the connection is disconnected,
or the direct write reports that the peer is gone. -/
def Forfeits (r : View) (w : WriteResult) : Prop :=
  r.conn.state = .kDisconnected ∨ r.Idle ∧ w.reportsGone = true

instance (r : View) (w : WriteResult) : Decidable (r.Forfeits w) :=
  inferInstanceAs (Decidable (_ ∨ _))

/-- If message `m` is written directly and that fails, the logging leaves an error of the same
kind. -/
def ErrnoKept (r : View) (m : List UInt8) (w : WriteResult) : Prop :=
  r.conn.state ≠ .kDisconnected → r.Idle → m ≠ [] → w.ErrnoKept

instance (r : View) (m : List UInt8) (w : WriteResult) : Decidable (r.ErrnoKept m w) :=
  inferInstanceAs (Decidable (_ → _))

/-- A message with bytes is discarded as it should be exactly if the error is kept. -/
lemma discards_iff_forfeits (r : View) (w : WriteResult) {m : List UInt8} (hm : m ≠ []) :
    (r.Discards w ↔ r.Forfeits w) ↔ r.ErrnoKept m w := by
  unfold Discards Forfeits ErrnoKept
  by_cases hdisc : r.conn.state = .kDisconnected
  · simp [hdisc]
  · by_cases hidle : r.Idle
    · rw [w.errnoKept_iff, Bool.eq_iff_iff]
      simp [hdisc, hidle, hm]
    · simp [hidle]

/-- Write interest is on exactly while there is something to write. -/
def Interested (r : View) : Prop := r.conn.channel.isWriting = true ↔ r.buffered ≠ []

/-- What the write interest and the output buffer say. -/
lemma Interested.congr (h : r.Interested)
    (hbuffer : r'.conn.outputBuffer = r.conn.outputBuffer)
    (hwriting : r'.conn.channel.isWriting = r.conn.channel.isWriting) : r'.Interested := by
  have hbuffered : r'.buffered = r.buffered := congrArg Buffer.readable hbuffer
  unfold Interested at h ⊢
  rw [hbuffered, hwriting]
  exact h

/-- Without write interest and without anything to write. -/
lemma Interested.of_empty (hwriting : r.conn.channel.isWriting = false) (hempty : r.buffered = []) :
    r.Interested := by
  unfold Interested
  rw [hwriting, hempty]
  exact iff_of_false Bool.false_ne_true fun hne => hne rfl

/-- An idle connection has an empty output buffer. -/
lemma Idle.buffered_eq_nil (hwf : r.conn.outputBuffer.WellFormed) (h : r.Idle) : r.buffered = [] := by
  have hlen := hwf.readableBytes_eq_length
  rw [h.2] at hlen
  exact List.length_eq_zero_iff.mp hlen.symm

/-- Switching write interest on. -/
lemma WriteInterest.isWriting {p : EPOLLPoller ChannelId} {ch : Channel}
    (h : r.WriteInterest self p ch) : ch.isWriting = true := by
  rcases h with ⟨hwriting, -, rfl⟩ | ⟨-, hact⟩
  · exact hwriting
  · rw [EPOLLPoller.updateChannel_channel hact]
    exact EventMask.has_or_kWriteEvent _

/-- `bufferRest` appends the rest of the message and switches write interest on if there is a
rest. -/
lemma bufferRest_stream {data : Memory} {nwrote remaining : ℕ}
    (hwf : r.conn.outputBuffer.WellFormed)
    (h : r.bufferRest self data nwrote remaining = .ok r') :
    r'.conn.outputBuffer.WellFormed ∧ r'.buffered = r.buffered ++ data.bytes nwrote remaining ∧
    r'.accepted = r.accepted ∧ r'.conn.state = r.conn.state ∧
    (r'.conn.channel.isWriting = true ↔ r.conn.channel.isWriting = true ∨ remaining ≠ 0) := by
  rcases bufferRest_cases h with ⟨rfl, rfl⟩ | ⟨hne, fs, b, p, ch, -, happend, hinterest, rfl⟩
  · simp [hwf, Memory.bytes]
  · obtain ⟨hwf', hread⟩ := Buffer.append_spec hwf happend
    refine ⟨hwf', hread, rfl, rfl, ?_⟩
    have hwriting : ch.isWriting = true := hinterest.isWriting
    simp [withChannel, hwriting, hne]

/-- A message is split into two parts that make the whole, as far as its size survived the
conversions. -/
lemma Split.add_eq {len : ℤ} {w : WriteResult} {nwrote remaining : ℕ}
    (h : Split r len w nwrote remaining) (hw : w.taken ≤ toSize len) :
    nwrote + remaining = toSize len ∧ (nwrote ≠ 0 → r.Idle) := by
  cases h with
  | direct hidle =>
    simp only [WriteResult.taken_wrote] at hw
    rw [toSize_sub hw]
    exact ⟨by omega, fun _ => hidle⟩
  | refused hidle he => exact ⟨by omega, fun h => absurd rfl h⟩
  | queued hbusy => exact ⟨by omega, fun h => absurd rfl h⟩

/-- `sendInLoop` behind its test of the state adds the bytes at `data` to the stream, or nothing
if the direct write is taken for a fault. -/
theorem sendBody_stream {data : Memory} {len : ℤ} {w : WriteResult}
    (hwf : r.conn.outputBuffer.WellFormed) (hi : r.Interested) (hw : w.taken ≤ toSize len)
    (h : r.sendBody self data len w = .ok r') :
    r'.conn.outputBuffer.WellFormed ∧ r'.Interested ∧ r'.conn.state = r.conn.state ∧
    r'.accepted ++ r'.buffered = r.accepted ++ r.buffered ++
      (if r.Idle ∧ w.isFault = true then [] else data.bytes 0 (toSize len)) := by
  rcases sendBody_cases h with ⟨hidle, hfault, rfl⟩ | ⟨hgood, nwrote, remaining, fs, hsplit, -, hrest⟩
  · simp [hidle, hfault, hwf, hi]
  · obtain ⟨hsum, hdirect⟩ := hsplit.add_eq hw
    obtain ⟨hwf', hbuffered, haccepted, hstate, hwriting⟩ := bufferRest_stream
      (r := (r.transmit (data.bytes 0 nwrote)).queueAll fs) hwf hrest
    have hbuffered : r'.buffered = r.buffered ++ data.bytes nwrote remaining := hbuffered
    have haccepted : r'.accepted = r.accepted ++ data.bytes 0 nwrote := haccepted
    have hmessage : data.bytes 0 nwrote ++ data.bytes nwrote remaining =
        data.bytes 0 (toSize len) := by
      rw [Memory.bytes_append, hsum]
    refine ⟨hwf', ?_, hstate, ?_⟩
    · -- interest was in step with the buffer, and both change exactly when there is a rest
      have hwriting : r'.conn.channel.isWriting = true ↔
          r.conn.channel.isWriting = true ∨ remaining ≠ 0 := hwriting
      have hlen : data.bytes nwrote remaining = [] ↔ remaining = 0 := by
        rw [← List.length_eq_zero_iff, Memory.length_bytes]
      unfold Interested at hi ⊢
      rw [hwriting, hbuffered, hi, ne_eq, ne_eq, ne_eq, List.append_eq_nil_iff, hlen]
      exact Decidable.not_and_iff_or_not.symm
    · rw [if_neg hgood, haccepted, hbuffered]
      by_cases hzero : nwrote = 0
      · subst hzero
        rw [show data.bytes 0 0 = [] from rfl] at hmessage ⊢
        rw [List.append_nil, List.append_assoc, ← List.nil_append (data.bytes 0 remaining), hmessage]
      · have hnil : r.buffered = [] := (hdirect hzero).buffered_eq_nil hwf
        rw [hnil, List.nil_append, List.append_nil, List.append_assoc, hmessage]

/-- Shutting the write side down leaves both ends of the stream alone. -/
lemma shutdownInLoop_stream (r : View) :
    r.shutdownInLoop.conn.outputBuffer = r.conn.outputBuffer ∧
    r.shutdownInLoop.accepted = r.accepted ∧ r.shutdownInLoop.conn.state = r.conn.state ∧
    r.shutdownInLoop.conn.channel = r.conn.channel := by
  unfold shutdownInLoop
  split <;> exact ⟨rfl, rfl, rfl, rfl⟩

/-- Bytes handed to the kernel by `handleWrite` move from the front of the buffer to the end of
what is accepted. -/
theorem writeOutput_stream {w : WriteResult} {drained : Bool}
    (hwf : r.conn.outputBuffer.WellFormed) (hi : r.Interested)
    (h : r.writeOutput self w = .ok (r', drained)) :
    r'.conn.outputBuffer.WellFormed ∧ r'.Interested ∧ r'.conn.state = r.conn.state ∧
    r'.accepted ++ r'.buffered = r.accepted ++ r.buffered := by
  rcases writeOutput_cases h with ⟨-, rfl, -⟩ | ⟨hwriting, -, r₁, hr₁, hr'⟩
  · exact ⟨hwf, hi, rfl, rfl⟩
  · have hwf₁ : r₁.conn.outputBuffer.WellFormed := by
      rw [hr₁]
      exact Buffer.retrieve_wellFormed hwf _
    have hbuffered : r₁.buffered = r.buffered.drop w.taken := by
      rw [hr₁]
      exact Buffer.readable_retrieve hwf _
    have haccepted : r₁.accepted = r.accepted ++ r.buffered.take w.taken := by
      rw [hr₁]
      rfl
    have hstate : r₁.conn.state = r.conn.state := by
      rw [hr₁]
      rfl
    have hchannel : r₁.conn.channel = r.conn.channel := by
      rw [hr₁]
      rfl
    have hstream : r₁.accepted ++ r₁.buffered = r.accepted ++ r.buffered := by
      rw [haccepted, hbuffered, List.append_assoc, List.take_append_drop]
    have hlen : r₁.conn.outputBuffer.readableBytes = r₁.buffered.length :=
      hwf₁.readableBytes_eq_length
    rcases hr' with ⟨hrest, rfl, -⟩ | ⟨hempty, -, fs, p, ch, -, hact, rfl⟩
    · refine ⟨hwf₁, ?_, hstate, hstream⟩
      unfold Interested
      rw [hchannel, hwriting, eq_self, true_iff]
      intro hnil
      rw [hlen, hnil] at hrest
      exact hrest rfl
    · refine ⟨hwf₁, ?_, hstate, hstream⟩
      have hoff : ch.isWriting = false := by
        rw [EPOLLPoller.updateChannel_channel hact]
        exact EventMask.has_and_not_kWriteEvent _
      have hnil : r₁.buffered = [] := by
        rw [hlen] at hempty
        exact List.length_eq_zero_iff.mp hempty
      constructor
      · intro hon
        rw [show ch.isWriting = true from hon] at hoff
        cases hoff
      · exact fun hne => absurd hnil hne

end TcpConnection.View

/-! ## Runs -/

/-- A connection and the messages passed to `sendInLoop` that were not to be discarded whole. -/
structure OutgoingStream where
  view : View
  kept : List (List UInt8)

namespace OutgoingStream

variable {s s' : OutgoingStream} {self : ConnId}

/-- A step of the loop thread; `::write` takes at most what it is offered. -/
inductive Act
  | sendInLoop (m : List UInt8) (w : WriteResult)
  | handleWrite (w : WriteResult)
  | shutdown
  | handleClose
  | connectDestroyed
  | channelRemove

/-- What the step `a` does to connection `self`. -/
def act (self : ConnId) (r : View) : Act → Option View
  | .sendInLoop m w =>
    if m.length < 2 ^ 31 ∧ w.taken ≤ m.length then
      (r.sendInLoop self (.ofString m) (toInt m.length) w).toOption
    else none
  | .handleWrite w =>
    if w.taken ≤ r.conn.outputBuffer.readableBytes then (r.handleWrite self w).toOption else none
  | .shutdown => some r.shutdown
  | .handleClose => (r.handleClose self).toOption
  | .connectDestroyed =>
    if r.conn.state = .kConnected then (r.destroyConnected self).toOption else some r
  | .channelRemove => (r.channelRemove self).toOption

/-- The message of the step, unless the code discards it. -/
def passed (r : View) : Act → List (List UInt8)
  | .sendInLoop m w => if r.Discards w then [] else [m]
  | _ => []

/-- The message of the step, unless it is to be discarded. -/
def due (r : View) : Act → List (List UInt8)
  | .sendInLoop m w => if r.Forfeits w then [] else [m]
  | _ => []

/-- The step `a` on connection `self`, with its history. -/
def step (self : ConnId) (s : OutgoingStream) (a : Act) : Option OutgoingStream :=
  (act self s.view a).map fun v => { view := v, kept := s.kept ++ due s.view a }

/-- A connection that `connectEstablished` has just set up. -/
structure Established (v : View) : Prop where
  state : v.conn.state = .kConnected
  writing : v.conn.channel.isWriting = false
  wellFormed : v.conn.outputBuffer.WellFormed
  buffered : v.buffered = []
  accepted : v.accepted = []

/-- The runs of one connection. -/
def system (self : ConnId) : TransitionSystem OutgoingStream Act where
  init s := Established s.view ∧ s.kept = []
  step := step self

/-- The bytes the kernel has accepted followed by the buffered ones are the messages that were
not to be discarded, one after the other. -/
def Whole (s : OutgoingStream) : Prop := s.view.accepted ++ s.view.buffered = s.kept.flatten

/-- The invariant of the runs, with the messages that have made the stream. -/
structure StreamInv (s : OutgoingStream) : Prop where
  wellFormed : s.view.conn.outputBuffer.WellFormed
  interested : s.view.conn.state ≠ .kDisconnected → s.view.Interested
  closed : s.view.conn.state = .kDisconnected → s.view.conn.channel.isWriting = false
  stream : s.view.accepted ++ s.view.buffered = s.kept.flatten

/-- The constructor and `connectEstablished` set a connection up. -/
theorem established_of_connectEstablished {loop : LoopId} {name : List Char} {fd : Fd} {cb : Bool}
    {poller : EPOLLPoller ChannelId} {v : View}
    (h : View.tieAndEnableReading self
      (View.setState ⟨.new loop name fd cb, poller, []⟩ .kConnected) = .ok v) : Established v := by
  obtain ⟨p, ch, hact, rfl⟩ := View.withPoller_eq_ok_iff.mp h
  refine ⟨rfl, ?_, Buffer.wellFormed_new, Buffer.readable_new, rfl⟩
  have hch := EPOLLPoller.updateChannel_channel hact
  change ch.isWriting = false
  rw [hch]
  change EventMask.has (Channel.kNoneEvent ||| Channel.kReadEvent) Channel.kWriteEvent = false
  decide

/-- An established connection satisfies the invariant. -/
lemma streamInv_of_established (h : Established s.view) (hk : s.kept = []) : StreamInv s where
  wellFormed := h.wellFormed
  interested _ := .of_empty h.writing h.buffered
  closed _ := h.writing
  stream := by rw [h.buffered, h.accepted, hk]; rfl

/-- A step that leaves both ends of the stream alone, and either switches write interest off
for good or keeps it while it keeps the connection open or closed. -/
lemma StreamInv.of_eq (hI : StreamInv s) {v : View}
    (hbuffer : v.conn.outputBuffer = s.view.conn.outputBuffer)
    (haccepted : v.accepted = s.view.accepted)
    (hchannel : (v.conn.state = .kDisconnected ∧ v.conn.channel.isWriting = false) ∨
      ((v.conn.state = .kDisconnected ↔ s.view.conn.state = .kDisconnected) ∧
        v.conn.channel.isWriting = s.view.conn.channel.isWriting)) :
    StreamInv { s with view := v } := by
  have hbuffered : v.buffered = s.view.buffered := congrArg Buffer.readable hbuffer
  have hstream : v.accepted ++ v.buffered = s.kept.flatten :=
    (congrArg₂ (· ++ ·) haccepted hbuffered).trans hI.stream
  rcases hchannel with ⟨hstate, hoff⟩ | ⟨hstate, hwriting⟩
  · exact ⟨hbuffer ▸ hI.wellFormed, fun hne => absurd hstate hne, fun _ => hoff, hstream⟩
  · refine ⟨hbuffer ▸ hI.wellFormed, fun hne => ?_, fun heq => ?_, hstream⟩
    · have hold := hI.interested fun heq => hne (hstate.mpr heq)
      exact hold.congr hbuffer hwriting
    · exact hwriting.trans (hI.closed (hstate.mp heq))

/-- Closing the channel, as `handleClose` and `connectDestroyed` do. -/
lemma StreamInv.closeChannel (hI : StreamInv s) {v : View}
    (h : s.view.closeChannel self = .ok v) : StreamInv { s with view := v } := by
  obtain ⟨p, ch, hact, rfl⟩ := View.withPoller_eq_ok_iff.mp h
  have hoff : ch.isWriting = false := by
    rw [EPOLLPoller.updateChannel_channel hact]
    exact EventMask.has_kNoneEvent _
  exact hI.of_eq rfl rfl (.inl ⟨rfl, hoff⟩)

/-- Some messages explain what the kernel has accepted and what is buffered. -/
def Explained (r : View) : Prop := ∃ kept, StreamInv ⟨r, kept⟩

lemma Explained.wellFormed {r : View} (h : Explained r) : r.conn.outputBuffer.WellFormed := by
  obtain ⟨kept, hI⟩ := h
  exact hI.wellFormed

lemma Explained.interested {r : View} (h : Explained r) (hopen : r.conn.state ≠ .kDisconnected) :
    r.Interested := by
  obtain ⟨kept, hI⟩ := h
  exact hI.interested hopen

lemma Explained.closed {r : View} (h : Explained r) (hclosed : r.conn.state = .kDisconnected) :
    r.conn.channel.isWriting = false := by
  obtain ⟨kept, hI⟩ := h
  exact hI.closed hclosed

/-- Only the bytes of the messages matter. -/
lemma StreamInv.congr (hI : StreamInv s) {kept : List (List UInt8)}
    (hkept : kept.flatten = s.kept.flatten) : StreamInv { s with kept := kept } :=
  ⟨hI.wellFormed, hI.interested, hI.closed, hI.stream.trans hkept.symm⟩

/-- A message that is not discarded whole is added to the stream. -/
lemma StreamInv.sendBody (hI : StreamInv s) {data : Memory} {len : ℤ} {w : WriteResult} {v : View}
    (hopen : s.view.conn.state ≠ .kDisconnected) (hw : w.taken ≤ toSize len)
    (h : s.view.sendBody self data len w = .ok v) :
    StreamInv
      { view := v
        kept := if s.view.Discards w then s.kept else s.kept ++ [data.bytes 0 (toSize len)] } := by
  obtain ⟨hwf, hi, hstate, hstream⟩ :=
    View.sendBody_stream hI.wellFormed (hI.interested hopen) hw h
  refine ⟨hwf, fun _ => hi, fun hc => absurd (hstate.symm.trans hc) hopen, hstream.trans ?_⟩
  have hdiscards : s.view.Discards w ↔ s.view.Idle ∧ w.isFault = true := or_iff_right hopen
  rw [hI.stream]
  by_cases hfault : s.view.Idle ∧ w.isFault = true
  · rw [if_pos hfault, if_pos (hdiscards.mpr hfault), List.append_nil]
  · rw [if_neg hfault, if_neg (fun hc => hfault (hdiscards.mp hc)), List.flatten_append,
      List.flatten_singleton]

/-- The first part of `handleWrite` keeps the stream. -/
lemma StreamInv.writeOutput (hI : StreamInv s) {w : WriteResult} {v : View} {drained : Bool}
    (h : s.view.writeOutput self w = .ok (v, drained)) : StreamInv { s with view := v } := by
  by_cases hstate : s.view.conn.state = .kDisconnected
  · -- write interest is off, so nothing happens
    rcases View.writeOutput_cases h with ⟨-, rfl, -⟩ | ⟨hwriting, -⟩
    · exact hI
    · rw [hI.closed hstate] at hwriting
      cases hwriting
  · obtain ⟨hwf, hi, hstate₁, hstream⟩ :=
      View.writeOutput_stream hI.wellFormed (hI.interested hstate) h
    exact ⟨hwf, fun _ => hi, fun hc => absurd (hstate₁.symm.trans hc) hstate,
      hstream.trans hI.stream⟩

/-- Shutting the write side down keeps the stream. -/
lemma StreamInv.shutdownInLoop (hI : StreamInv s) :
    StreamInv { s with view := s.view.shutdownInLoop } := by
  obtain ⟨hbuffer, haccepted, hstate, hchannel⟩ := s.view.shutdownInLoop_stream
  exact hI.of_eq hbuffer haccepted (.inr ⟨by rw [hstate], congrArg Channel.isWriting hchannel⟩)

/-- The whole of `handleWrite`. -/
lemma StreamInv.handleWrite (hI : StreamInv s) {w : WriteResult} {v : View}
    (h : s.view.handleWrite self w = .ok v) : StreamInv { s with view := v } := by
  obtain ⟨⟨v₁, drained⟩, hout, hv⟩ := Except.bind_eq_ok_iff.mp h
  have hI₁ := hI.writeOutput hout
  obtain rfl := Except.ok.inj hv
  unfold View.afterDrain
  split
  · split
    · exact hI₁.shutdownInLoop
    · exact hI₁
  · exact hI₁

/-- `shutdown` moves on to another state in which the connection is open. -/
lemma StreamInv.shutdown (hI : StreamInv s) : StreamInv { s with view := s.view.shutdown } := by
  unfold View.shutdown
  split
  · next hconnected =>
    obtain ⟨hbuffer, haccepted, hstate, hchannel⟩ :=
      (s.view.setState .kDisconnecting).shutdownInLoop_stream
    refine hI.of_eq hbuffer haccepted (.inr ⟨?_, congrArg Channel.isWriting hchannel⟩)
    rw [hstate, hconnected]
    simp [View.setState]
  · exact hI

/-- Every step keeps the invariant, with the messages that the code has not discarded. -/
lemma StreamInv.act {a : Act} {v : View} (hI : StreamInv s) (h : act self s.view a = some v) :
    StreamInv { view := v, kept := s.kept ++ passed s.view a } := by
  have hnone : StreamInv { s with view := v } → StreamInv { view := v, kept := s.kept ++ [] } := by
    rw [List.append_nil]
    exact id
  cases a with
  | sendInLoop m w =>
    obtain ⟨⟨hm, hw⟩, h⟩ := Option.ite_none_right_eq_some.mp h
    have hv := Except.toOption_eq_some_iff.mp h
    rw [passed]
    unfold View.sendInLoop at hv
    split at hv
    · next hdisc =>
      obtain rfl := Except.ok.inj hv
      rw [if_pos (.inl hdisc)]
      exact hnone hI
    · next hdisc =>
      have hsize : toSize (toInt m.length) = m.length := toSize_toInt_of_lt hm
      have hI' := hI.sendBody hdisc (hsize.symm ▸ hw) hv
      rw [hsize, Memory.bytes_ofString] at hI'
      refine hI'.congr ?_
      split <;> simp
  | handleWrite w =>
    obtain ⟨-, h⟩ := Option.ite_none_right_eq_some.mp h
    exact hnone (hI.handleWrite (Except.toOption_eq_some_iff.mp h))
  | shutdown =>
    obtain rfl := Option.some.inj h
    exact hnone hI.shutdown
  | handleClose => exact hnone (hI.closeChannel (Except.toOption_eq_some_iff.mp h))
  | connectDestroyed =>
    simp only [OutgoingStream.act] at h
    split at h
    · exact hnone (hI.closeChannel (Except.toOption_eq_some_iff.mp h))
    · obtain rfl := Option.some.inj h
      exact hnone hI
  | channelRemove =>
    obtain ⟨p, ch, hact, rfl⟩ := View.withPoller_eq_ok_iff.mp (Except.toOption_eq_some_iff.mp h)
    have hch := (EPOLLPoller.removeChannel_eq hact).1
    exact hnone (hI.of_eq rfl rfl (.inr ⟨Iff.rfl, by rw [hch]; rfl⟩))

/-- Every step keeps the explanation of the stream. -/
lemma Explained.step {a : Act} (h : Explained s.view) (hs : s.step self a = some s') :
    Explained s'.view := by
  obtain ⟨kept, hI⟩ := h
  obtain ⟨v, hv, rfl⟩ := Option.map_eq_some_iff.mp hs
  exact ⟨_, hI.act hv⟩

/-- Write interest is on exactly while the output buffer holds something, until the connection
is closed. -/
theorem interested_of_reach (h : (system self).Reach s)
    (hopen : s.view.conn.state ≠ .kDisconnected) : s.view.Interested := by
  have hE : Explained s.view :=
    h.invariant (I := fun s => Explained s.view)
      (fun _ hs => ⟨[], streamInv_of_established hs.1 rfl⟩) fun _ _ _ hE hs => hE.step hs
  exact hE.interested hopen

/-- The error of a direct write that fails is kept while it is logged. -/
def ErrnoKept (s : OutgoingStream) : Act → Prop
  | .sendInLoop m w => s.view.ErrnoKept m w
  | _ => True

instance (s : OutgoingStream) (a : Act) : Decidable (s.ErrnoKept a) := by
  unfold ErrnoKept
  split <;> infer_instance

/-- The code discards what is to be discarded exactly if the error is kept; a message without
bytes does not count. -/
lemma flatten_passed_iff (s : OutgoingStream) (a : Act) :
    (passed s.view a).flatten = (due s.view a).flatten ↔ s.ErrnoKept a := by
  cases a with
  | sendInLoop m w =>
    rw [passed, due, ErrnoKept]
    by_cases hm : m = []
    · subst hm
      refine iff_of_true ?_ fun _ _ hne => absurd rfl hne
      split <;> split <;> rfl
    · rw [← View.discards_iff_forfeits s.view w hm]
      by_cases hdiscards : s.view.Discards w <;> by_cases hforfeits : s.view.Forfeits w <;>
        simp [hdiscards, hforfeits, hm]
  | _ => exact iff_of_true rfl trivial

/-- One step of a connection whose stream is whole. -/
lemma whole_step {a : Act} (hI : StreamInv s) (h : s.step self a = some s') :
    (s'.Whole ↔ s.ErrnoKept a) ∧ (s'.Whole → StreamInv s') := by
  obtain ⟨v, hv, rfl⟩ := Option.map_eq_some_iff.mp h
  have hI' := hI.act hv
  refine ⟨?_, fun hwhole => ⟨hI'.wellFormed, hI'.interested, hI'.closed, hwhole⟩⟩
  rw [← flatten_passed_iff s a, Whole, hI'.stream, List.flatten_append, List.flatten_append,
    List.append_cancel_left_eq]

/-- In every run of a connection from its establishment on, what the kernel has accepted followed
by what is buffered is always what was not to be discarded, one message after the other, if and
only if the error of every direct write that fails is kept while it is logged. -/
theorem whole_iff_errnoKept (h : (system self).init s) (as : List Act) :
    (system self).Always Whole s as ↔ (system self).Along ErrnoKept s as := by
  have hI := streamInv_of_established h.1 h.2
  exact TransitionSystem.always_iff_along (M := system self) (I := StreamInv) (P := Whole)
    (fun _ _ _ hI _ hs => whole_step hI hs) hI hI.stream as

/-- A connection on descriptor 7 as `connectEstablished` leaves it. -/
def exampleStream : OutgoingStream where
  view :=
    { conn :=
        { TcpConnection.new 0 [] 7 true with
          state := .kConnected
          channel := { Channel.new 7 with events := Channel.kReadEvent, index := kAdded, tied := true } }
      poller :=
        { channels := fun fd => if fd = 7 then some (.conn 0) else none
          epoll := fun fd => if fd = 7 then some (Channel.kReadEvent, .conn 0) else none }
      queued := [] }
  kept := []

lemma exampleStream_init : (system 0).init exampleStream :=
  ⟨⟨rfl, by decide, Buffer.wellFormed_new, Buffer.readable_new, rfl⟩, rfl⟩

/-- A partial direct write, a second message behind the rest, a partial and a final
`handleWrite`, and a message discarded on `EPIPE`. -/
def exampleRun : List Act :=
  [.sendInLoop [1, 2, 3] (.wrote 1), .sendInLoop [4, 5] (.wrote 0), .handleWrite (.wrote 3),
    .handleWrite (.failed EWOULDBLOCK EWOULDBLOCK), .handleWrite (.wrote 1),
    .sendInLoop [6] (.failed EPIPE EPIPE)]

/-- The theorem at that run. -/
theorem whole_iff_errnoKept_exampleRun : (system 0).Always Whole exampleStream exampleRun := by
  apply (whole_iff_errnoKept exampleStream_init _).mpr
  decide +kernel

/-- The direct write of a message finds the peer gone, and the logging of that leaves the `errno`
of a file that is not there: the message is buffered. -/
theorem exists_kept_of_epipe : ∃ s, (system 0).Reach s ∧ s.kept = [] ∧ s.view.buffered = [6] ∧
    ¬ s.Whole := by
  obtain ⟨s, hs, hv⟩ := TransitionSystem.exists_reach_of_run (M := system 0) (s := exampleStream)
    (v := ([], [], [6])) [.sendInLoop [6] (.failed EPIPE 2)]
    (fun s => (s.kept, s.view.accepted, s.view.buffered)) exampleStream_init (by decide +kernel)
  simp only [Prod.mk.injEq] at hv
  obtain ⟨hkept, haccepted, hbuffered⟩ := hv
  refine ⟨s, hs, hkept, hbuffered, ?_⟩
  rw [Whole, hkept, haccepted, hbuffered]
  decide

end OutgoingStream

end HzhMuduo
