import HzhMuduo.OutgoingStream

/-!
# The half-close of a connection

One established connection whose `send` and `shutdown` are called on the loop thread only, in
any order with the events of the loop.  `shutdown` records its wish in the state, and whoever
finds the output buffer empty first closes the write side: `shutdownInLoop` at once, or
`handleWrite` at the drain.  Both look at the write interest of the channel and not at the buffer.

`asked` and `ended` are history: a call of `shutdown` has found the connection connected, and
`handleClose` or `connectDestroyed` has been called.
-/

namespace HzhMuduo

open MachineWord TcpConnection

namespace TcpConnection.View

variable {r r' : View} {self : ConnId}

/-- How often the write side was shut down. -/
def shutWr (r : View) : ℕ := r.conn.socket.shutWr

/-- Sending does not shut the write side down. -/
lemma sendBody_shutWr {data : Memory} {len : ℤ} {w : WriteResult}
    (h : r.sendBody self data len w = .ok r') : r'.shutWr = r.shutWr := by
  rcases sendBody_cases h with ⟨-, -, rfl⟩ | ⟨-, n, m, fs, -, -, hrest⟩
  · rfl
  · rcases bufferRest_cases hrest with ⟨-, rfl⟩ | ⟨-, fs', b, p, ch, -, -, -, rfl⟩
    · rfl
    · rfl

/-- The first part of `handleWrite` does not shut the write side down, and write interest stays
as it is unless the buffer was emptied. -/
lemma writeOutput_shutWr {w : WriteResult} {drained : Bool}
    (h : r.writeOutput self w = .ok (r', drained)) :
    r'.shutWr = r.shutWr ∧
      (if drained then r.conn.channel.isWriting = true ∧ r'.conn.channel.isWriting = false
        else r'.conn.channel.isWriting = r.conn.channel.isWriting) := by
  rcases writeOutput_cases h with ⟨-, rfl, rfl⟩ | ⟨hwriting, -, r₁, rfl, hrest⟩
  · exact ⟨rfl, rfl⟩
  · rcases hrest with ⟨-, rfl, rfl⟩ | ⟨-, rfl, fs, p, ch, -, hact, rfl⟩
    · exact ⟨rfl, rfl⟩
    · refine ⟨rfl, hwriting, ?_⟩
      have hch := EPOLLPoller.updateChannel_channel hact
      change ch.isWriting = false
      rw [hch]
      exact EventMask.has_and_not_kWriteEvent _

/-- `shutdownInLoop` shuts the write side down where no write is awaited. -/
lemma shutWr_shutdownInLoop (r : View) :
    r.shutdownInLoop.shutWr = if r.conn.channel.isWriting then r.shutWr else r.shutWr + 1 := by
  unfold shutdownInLoop
  by_cases hwriting : r.conn.channel.isWriting = true
  · rw [if_neg (not_not_intro hwriting), if_pos hwriting]
  · rw [if_pos hwriting, if_neg hwriting]
    rfl

end TcpConnection.View

/-- A connection with the history of its end. -/
structure HalfClose where
  view : View
  asked : Bool
  ended : Bool

namespace HalfClose

variable {s s' : HalfClose} {self : ConnId}

/-- A step of the loop thread; `::write` takes at most what it is offered. -/
inductive Act
  | send (data : Memory) (size : ℕ) (w : WriteResult)
  | shutdown
  | handleRead (bytes : List UInt8)
  | handleWrite (w : WriteResult)
  | handleClose
  | connectDestroyed
  | channelRemove

/-- The step `a` on connection `self`. -/
def step (self : ConnId) (s : HalfClose) : Act → Option HalfClose
  | .send data size w =>
    if w.taken ≤ toSize (toInt size) then
      (s.view.send self data size w).toOption.map fun v => { s with view := v }
    else none
  | .shutdown =>
    some { s with
      view := s.view.shutdown
      asked := s.asked || s.view.conn.state == .kConnected }
  | .handleRead bytes => (s.view.readInput bytes).toOption.map fun v => { s with view := v }
  | .handleWrite w =>
    if w.taken ≤ s.view.conn.outputBuffer.readableBytes then
      (s.view.handleWrite self w).toOption.map fun v => { s with view := v }
    else none
  | .handleClose =>
    (s.view.handleClose self).toOption.map fun v => { s with view := v, ended := true }
  | .connectDestroyed =>
    if s.view.conn.state = .kConnected then
      (s.view.destroyConnected self).toOption.map fun v => { s with view := v, ended := true }
    else some { s with ended := true }
  | .channelRemove => (s.view.channelRemove self).toOption.map fun v => { s with view := v }

/-- The runs of one connection. -/
def system (self : ConnId) : TransitionSystem HalfClose Act where
  init s := OutgoingStream.Established s.view ∧ s.view.shutWr = 0 ∧ s.asked = false ∧
    s.ended = false
  step := step self

/-- What the state says about the write side: it is open while the connection is connected; it
is shut down once, in step with the write interest, while the connection is disconnecting. -/
def Phase (s : HalfClose) : StateE → Prop
  | .kConnecting => False
  | .kConnected => s.asked = false ∧ s.view.shutWr = 0
  | .kDisconnecting =>
    s.asked = true ∧ s.view.shutWr = if s.view.conn.channel.isWriting then 0 else 1
  | .kDisconnected => s.ended = true ∧ s.view.shutWr ≤ 1 ∧
    (0 < s.view.shutWr → s.asked = true ∧ s.view.buffered = [])

/-- The invariant of the runs. -/
structure HalfCloseInv (s : HalfClose) : Prop where
  wellFormed : s.view.conn.outputBuffer.WellFormed
  interested : s.view.conn.state ≠ .kDisconnected → s.view.Interested
  closed : s.view.conn.state = .kDisconnected → s.view.conn.channel.isWriting = false
  phase : s.Phase s.view.conn.state

/-- In every phase the write side is shut down at most once, after it was asked for and with an
empty output buffer. -/
lemma HalfCloseInv.settled (hI : HalfCloseInv s) : s.view.shutWr ≤ 1 ∧
    (0 < s.view.shutWr → s.asked = true ∧ s.view.buffered = []) := by
  have hphase := hI.phase
  have hinterested := hI.interested
  cases hstate : s.view.conn.state with
  | kConnecting =>
    rw [hstate] at hphase
    exact hphase.elim
  | kConnected =>
    rw [hstate] at hphase
    have hzero := hphase.2
    exact ⟨by omega, fun hpos => by omega⟩
  | kDisconnecting =>
    rw [hstate] at hphase hinterested
    obtain ⟨hasked, hshut⟩ := hphase
    have hi := hinterested (by decide)
    by_cases hwriting : s.view.conn.channel.isWriting = true
    · rw [if_pos hwriting] at hshut
      exact ⟨by omega, fun hpos => by omega⟩
    · rw [if_neg hwriting] at hshut
      refine ⟨by omega, fun _ => ⟨hasked, ?_⟩⟩
      exact Decidable.not_not.mp fun hne => hwriting (hi.mpr hne)
  | kDisconnected =>
    rw [hstate] at hphase
    exact hphase.2

/-- A connection that `connectEstablished` has just set up satisfies the invariant. -/
lemma halfCloseInv_of_init (h : (system self).init s) : HalfCloseInv s := by
  obtain ⟨⟨hstate, hwriting, hwf, hbuffered, -⟩, hshut, hasked, -⟩ := h
  refine ⟨hwf, fun _ => .of_empty hwriting hbuffered, fun _ => hwriting, ?_⟩
  rw [hstate]
  exact ⟨hasked, hshut⟩

/-- A step that touches nothing the invariant speaks about. -/
lemma HalfCloseInv.of_eq (hI : HalfCloseInv s) {v : View}
    (hbuffer : v.conn.outputBuffer = s.view.conn.outputBuffer)
    (hstate : v.conn.state = s.view.conn.state) (hshut : v.shutWr = s.view.shutWr)
    (hwriting : v.conn.channel.isWriting = s.view.conn.channel.isWriting) :
    HalfCloseInv { s with view := v } := by
  have hbuffered : v.buffered = s.view.buffered := congrArg Buffer.readable hbuffer
  refine ⟨hbuffer ▸ hI.wellFormed, fun hopen => ?_, fun hclosed => ?_, ?_⟩
  · exact (hI.interested (hstate ▸ hopen)).congr hbuffer hwriting
  · exact hwriting.trans (hI.closed (hstate.symm.trans hclosed))
  · have hphase := hI.phase
    change Phase { s with view := v } v.conn.state
    rw [hstate]
    cases hold : s.view.conn.state with
    | kConnecting =>
      rw [hold] at hphase
      exact hphase
    | kConnected =>
      rw [hold] at hphase
      exact ⟨hphase.1, hshut.trans hphase.2⟩
    | kDisconnecting =>
      rw [hold] at hphase
      refine ⟨hphase.1, hshut.trans ?_⟩
      rw [hwriting]
      exact hphase.2
    | kDisconnected =>
      rw [hold] at hphase
      refine ⟨hphase.1, hshut ▸ hphase.2.1, fun hpos => ?_⟩
      rw [hbuffered]
      exact hphase.2.2 (hshut ▸ hpos)

/-- `connectDestroyed` on a connection that is not connected. -/
lemma HalfCloseInv.markEnded (hI : HalfCloseInv s) : HalfCloseInv { s with ended := true } := by
  refine ⟨hI.wellFormed, hI.interested, hI.closed, ?_⟩
  have hphase := hI.phase
  cases hstate : s.view.conn.state with
  | kConnecting =>
    rw [hstate] at hphase
    exact hphase.elim
  | kConnected =>
    rw [hstate] at hphase
    exact hphase
  | kDisconnecting =>
    rw [hstate] at hphase
    exact hphase
  | kDisconnected =>
    rw [hstate] at hphase
    exact ⟨rfl, hphase.2⟩

/-- `handleClose`, and `connectDestroyed` on a connected connection. -/
lemma HalfCloseInv.closeChannel (hI : HalfCloseInv s) {v : View}
    (h : s.view.closeChannel self = .ok v) : HalfCloseInv { s with view := v, ended := true } := by
  have hsettled := hI.settled
  obtain ⟨p, ch, hact, rfl⟩ := View.closeChannel_cases h
  have hoff : ch.isWriting = false := by
    rw [EPOLLPoller.updateChannel_channel hact]
    exact EventMask.has_kNoneEvent _
  exact ⟨hI.wellFormed, fun hopen => absurd rfl hopen, fun _ => hoff, rfl, hsettled⟩

/-- `send` sends only while the connection is connected, and leaves it so. -/
lemma HalfCloseInv.send (hI : HalfCloseInv s) {data : Memory} {size : ℕ} {w : WriteResult}
    {v : View} (hw : w.taken ≤ toSize (toInt size)) (h : s.view.send self data size w = .ok v) :
    HalfCloseInv { s with view := v } := by
  unfold View.send at h
  split at h
  · next hconnected =>
    have hopen : s.view.conn.state ≠ .kDisconnected := by
      rw [hconnected]
      decide
    unfold View.sendInLoop at h
    rw [if_neg hopen] at h
    obtain ⟨hwf, hi, hstate, -⟩ := View.sendBody_stream hI.wellFormed (hI.interested hopen) hw h
    have hphase := hI.phase
    rw [hconnected] at hphase
    refine ⟨hwf, fun _ => hi, fun hclosed => absurd (hstate.symm.trans hclosed) hopen, ?_⟩
    change Phase { s with view := v } v.conn.state
    rw [hstate, hconnected]
    exact ⟨hphase.1, (View.sendBody_shutWr h).trans hphase.2⟩
  · obtain rfl := Except.ok.inj h
    exact hI

/-- `shutdown` on a connected connection shuts the write side down, unless a write is awaited. -/
lemma HalfCloseInv.shutdown (hI : HalfCloseInv s) :
    HalfCloseInv { s with
      view := s.view.shutdown
      asked := s.asked || s.view.conn.state == .kConnected } := by
  unfold View.shutdown
  split
  · next hconnected =>
    have hphase := hI.phase
    rw [hconnected] at hphase
    have hi := hI.interested (by rw [hconnected]; decide)
    obtain ⟨hbuffer, -, hstate, hchannel⟩ := (s.view.setState .kDisconnecting).shutdownInLoop_stream
    have hshut := (s.view.setState .kDisconnecting).shutWr_shutdownInLoop
    have hzero : (s.view.setState .kDisconnecting).shutWr = 0 := hphase.2
    have hstate : (s.view.setState .kDisconnecting).shutdownInLoop.conn.state = .kDisconnecting :=
      hstate
    refine ⟨hbuffer ▸ hI.wellFormed, fun _ => ?_, fun hclosed => ?_, ?_⟩
    · exact hi.congr hbuffer (congrArg Channel.isWriting hchannel)
    · rw [hstate] at hclosed
      cases hclosed
    · rw [hstate]
      refine ⟨by simp [hconnected], hshut.trans ?_⟩
      rw [hzero, hchannel]
  · next hne =>
    have hasked : (s.asked || s.view.conn.state == .kConnected) = s.asked := by simp [hne]
    rw [hasked]
    exact hI

/-- `handleWrite` up to the drain: the write side stays as it is, and the state too. -/
lemma HalfCloseInv.writeOutput (hI : HalfCloseInv s) {w : WriteResult} {v : View} {drained : Bool}
    (h : s.view.writeOutput self w = .ok (v, drained))
    (hkept : drained = true → s.view.conn.state = .kConnected) :
    HalfCloseInv { s with view := v } := by
  obtain ⟨hshut, hwriting⟩ := View.writeOutput_shutWr h
  by_cases hclosed : s.view.conn.state = .kDisconnected
  · -- write interest is off, so nothing happens
    have hoff := hI.closed hclosed
    rcases View.writeOutput_cases h with ⟨-, rfl, -⟩ | ⟨hon, -⟩
    · exact hI
    · rw [hoff] at hon
      cases hon
  · obtain ⟨hwf, hi, hstate, -⟩ := View.writeOutput_stream hI.wellFormed (hI.interested hclosed) h
    have hphase := hI.phase
    refine ⟨hwf, fun _ => hi, fun hc => absurd (hstate.symm.trans hc) hclosed, ?_⟩
    change Phase _ v.conn.state
    rw [hstate]
    cases hold : s.view.conn.state with
    | kConnecting =>
      rw [hold] at hphase
      exact hphase.elim
    | kDisconnected => exact absurd hold hclosed
    | kConnected =>
      rw [hold] at hphase
      exact ⟨hphase.1, hshut.trans hphase.2⟩
    | kDisconnecting =>
      rw [hold] at hphase hkept
      obtain ⟨hasked, hcount⟩ := hphase
      cases drained with
      | true => cases hkept rfl
      | false =>
        have hsame : v.conn.channel.isWriting = s.view.conn.channel.isWriting := hwriting
        refine ⟨hasked, hshut.trans ?_⟩
        rw [hcount, ← hsame]

/-- `handleWrite` shuts the write side down when it empties the buffer of a disconnecting
connection. -/
lemma HalfCloseInv.drain (hI : HalfCloseInv s) {w : WriteResult} {v : View}
    (h : s.view.writeOutput self w = .ok (v, true))
    (hstate : s.view.conn.state = .kDisconnecting) :
    HalfCloseInv { s with view := v.shutdownInLoop } := by
  have hopen : s.view.conn.state ≠ .kDisconnected := by
    rw [hstate]
    decide
  obtain ⟨hshut, hwriting⟩ := View.writeOutput_shutWr h
  obtain ⟨hwf, hi, hstate₁, -⟩ := View.writeOutput_stream hI.wellFormed (hI.interested hopen) h
  obtain ⟨hon, hoff⟩ : s.view.conn.channel.isWriting = true ∧
    v.conn.channel.isWriting = false := hwriting
  obtain ⟨hbuffer, -, hstate₂, hchannel⟩ := v.shutdownInLoop_stream
  have hafter : v.shutdownInLoop.conn.state = .kDisconnecting :=
    hstate₂.trans (hstate₁.trans hstate)
  have hphase := hI.phase
  rw [hstate] at hphase
  obtain ⟨hasked, hcount⟩ := hphase
  refine ⟨hbuffer ▸ hwf, fun _ => hi.congr hbuffer (congrArg Channel.isWriting hchannel),
    fun hc => absurd (hafter.symm.trans hc) (by decide), ?_⟩
  rw [hafter]
  refine ⟨hasked, v.shutWr_shutdownInLoop.trans ?_⟩
  rw [hshut, hcount, hon, hoff, hchannel, hoff]
  rfl

lemma HalfCloseInv.handleWrite (hI : HalfCloseInv s) {w : WriteResult} {v : View}
    (h : s.view.handleWrite self w = .ok v) : HalfCloseInv { s with view := v } := by
  obtain ⟨⟨v₁, drained⟩, hout, hv⟩ := Except.bind_eq_ok_iff.mp h
  obtain rfl := Except.ok.inj hv
  cases drained with
  | false => exact hI.writeOutput hout nofun
  | true =>
    have hon : s.view.conn.channel.isWriting = true := (View.writeOutput_shutWr hout).2.1
    have hopen : s.view.conn.state ≠ .kDisconnected := by
      intro hclosed
      rw [hI.closed hclosed] at hon
      cases hon
    have hstate := (View.writeOutput_stream hI.wellFormed (hI.interested hopen) hout).2.2.1
    rw [if_pos rfl, View.afterDrain]
    split
    · next hdisconnecting => exact hI.drain hout (hstate.symm.trans hdisconnecting)
    · next hne =>
      refine hI.writeOutput hout fun _ => ?_
      have hphase := hI.phase
      rw [hstate] at hne
      cases hold : s.view.conn.state with
      | kConnecting =>
        rw [hold] at hphase
        exact hphase.elim
      | kConnected => rfl
      | kDisconnecting => exact absurd hold hne
      | kDisconnected => exact absurd hold hopen

/-- Every step keeps the invariant. -/
lemma HalfCloseInv.step {a : Act} (hI : HalfCloseInv s) (h : s.step self a = some s') :
    HalfCloseInv s' := by
  cases a with
  | send data size w =>
    obtain ⟨hw, h⟩ := Option.ite_none_right_eq_some.mp h
    obtain ⟨v, hv, rfl⟩ := Option.map_eq_some_iff.mp h
    exact hI.send hw (Except.toOption_eq_some_iff.mp hv)
  | shutdown =>
    obtain rfl := Option.some.inj h
    exact hI.shutdown
  | handleRead bytes =>
    obtain ⟨v, hv, rfl⟩ := Option.map_eq_some_iff.mp h
    obtain ⟨b, rfl⟩ := View.readInput_cases (Except.toOption_eq_some_iff.mp hv)
    exact hI.of_eq rfl rfl rfl rfl
  | handleWrite w =>
    obtain ⟨-, h⟩ := Option.ite_none_right_eq_some.mp h
    obtain ⟨v, hv, rfl⟩ := Option.map_eq_some_iff.mp h
    exact hI.handleWrite (Except.toOption_eq_some_iff.mp hv)
  | handleClose =>
    obtain ⟨v, hv, rfl⟩ := Option.map_eq_some_iff.mp h
    exact hI.closeChannel (Except.toOption_eq_some_iff.mp hv)
  | connectDestroyed =>
    simp only [HalfClose.step] at h
    split at h
    · obtain ⟨v, hv, rfl⟩ := Option.map_eq_some_iff.mp h
      exact hI.closeChannel (Except.toOption_eq_some_iff.mp hv)
    · obtain rfl := Option.some.inj h
      exact hI.markEnded
  | channelRemove =>
    obtain ⟨v, hv, rfl⟩ := Option.map_eq_some_iff.mp h
    obtain ⟨p, ch, hact, rfl⟩ := View.channelRemove_cases (Except.toOption_eq_some_iff.mp hv)
    have hch := (EPOLLPoller.removeChannel_eq hact).1
    refine hI.of_eq rfl rfl rfl ?_
    change ch.isWriting = _
    rw [hch]
    rfl

/-- The invariant holds in every run. -/
theorem halfCloseInv_of_reach (h : (system self).Reach s) : HalfCloseInv s :=
  h.invariant (fun _ hs => halfCloseInv_of_init hs) fun _ _ _ hI hs => hI.step hs

/-- The write side is shut down at most once, only after a call of `shutdown` that found the
connection connected, and only while the output buffer is empty; and after such a call it is
shut down as soon as the buffer is empty, unless the connection is closed or destroyed first. -/
theorem shutWr_at_drain (h : (system self).Reach s) :
    (0 < s.view.shutWr → s.view.buffered = []) ∧ (0 < s.view.shutWr → s.asked = true) ∧
    s.view.shutWr ≤ 1 ∧
    (s.asked = true → s.ended = false → s.view.buffered = [] → s.view.shutWr = 1) := by
  have hI := halfCloseInv_of_reach h
  obtain ⟨honce, hsettled⟩ := hI.settled
  refine ⟨fun hpos => (hsettled hpos).2, fun hpos => (hsettled hpos).1, honce, ?_⟩
  intro hasked hended hempty
  have hphase := hI.phase
  cases hstate : s.view.conn.state with
  | kConnecting =>
    rw [hstate] at hphase
    exact hphase.elim
  | kConnected =>
    rw [hstate] at hphase
    exact absurd (hphase.1.symm.trans hasked) (by decide)
  | kDisconnecting =>
    rw [hstate] at hphase
    have hi := hI.interested (by rw [hstate]; decide)
    have hoff : ¬ s.view.conn.channel.isWriting = true := fun hon => hi.mp hon hempty
    rw [hphase.2, if_neg hoff]
  | kDisconnected =>
    rw [hstate] at hphase
    exact absurd (hended.symm.trans hphase.1) (by decide)

/-- A partial write, `shutdown` with two bytes in the buffer, and the drain. -/
def drainRun : List Act :=
  [.send (.ofString [1, 2, 3]) 3 (.wrote 1), .shutdown, .handleWrite (.wrote 2)]

/-- At the end of that run the write side is shut down, once. -/
theorem shutWr_at_drain_drainRun : ∃ s, (system 0).Reach s ∧ s.view.shutWr = 1 := by
  have hestablished : OutgoingStream.Established OutgoingStream.exampleStream.view :=
    ⟨rfl, by decide, Buffer.wellFormed_new, Buffer.readable_new, rfl⟩
  obtain ⟨s, hs, hv⟩ := TransitionSystem.exists_reach_of_run (M := system 0)
    (s := ⟨OutgoingStream.exampleStream.view, false, false⟩) (v := (true, false, []))
    drainRun (fun s => (s.asked, s.ended, s.view.buffered)) ⟨hestablished, rfl, rfl, rfl⟩
    (by decide +kernel)
  obtain ⟨hasked, hrest⟩ := Prod.mk.inj hv
  obtain ⟨hended, hempty⟩ := Prod.mk.inj hrest
  exact ⟨s, hs, (shutWr_at_drain hs).2.2.2 hasked hended hempty⟩

end HalfClose

end HzhMuduo
