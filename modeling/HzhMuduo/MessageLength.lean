import HzhMuduo.OutgoingStream

/-!
# The length of a message

`send` hands the size of its string to the `int` parameter of `sendInLoop`, which widens it back
to a `size_t`.  On a connected, idle connection the bytes written at once and the bytes appended
to the output buffer are the whole message exactly if its size is below `2 ^ 31`
(`complete_iff`).  A larger size is cut to its last 32 bits, or becomes a size close to `2 ^ 64`
that no vector can hold.
-/

namespace HzhMuduo

open MachineWord TcpConnection

/-- `::write` transfers at most this many bytes. -/
def maxRwCount : ℕ := 0x7ffff000

namespace TcpConnection.View

variable {r : View} {self : ConnId} {data : Memory} {size : ℕ} {w : WriteResult}

/-- A connected, idle connection whose channel is registered with the poller. -/
structure Ready (r : View) : Prop where
  state : r.conn.state = .kConnected
  idle : r.Idle
  wellFormed : r.conn.outputBuffer.WellFormed
  added : r.conn.channel.index = kAdded
  registered : (r.poller.epoll r.conn.channel.fd).isSome

/-- `connectEstablished` makes a new connection ready. -/
theorem ready_of_connectEstablished {loop : LoopId} {name : List Char} {fd : Fd} {cb : Bool}
    {poller : EPOLLPoller ChannelId} {v : View}
    (h : View.tieAndEnableReading self
      (View.setState ⟨.new loop name fd cb, poller, []⟩ .kConnected) = .ok v) : Ready v := by
  obtain ⟨hstate, hwriting, hwf, hbuffered, -⟩ := OutgoingStream.established_of_connectEstablished h
  obtain ⟨p, ch, hact, rfl⟩ := tieAndEnableReading_cases h
  obtain ⟨hch, -, hepoll⟩ := EPOLLPoller.updateChannel_eq (Or.inl rfl) hact
  have hadded : ch.index = kAdded := by
    rw [hch]
    rfl
  refine ⟨hstate, ⟨hwriting, ?_⟩, hwf, hadded, ?_⟩
  · have hlen := hwf.readableBytes_eq_length
    rw [show Buffer.readable _ = [] from hbuffered] at hlen
    exact hlen
  · change (p.epoll ch.fd).isSome
    rw [hepoll, if_pos hadded, hch]
    simp

/-- The message is sent in full: the call returns, and what was written and what was appended
make `size` bytes. -/
def Complete (self : ConnId) (data : Memory) (size : ℕ) (w : WriteResult) (r : View) : Prop :=
  ∃ r', r.send self data size w = .ok r' ∧
    r'.accepted.length + r'.buffered.length =
      r.accepted.length + r.buffered.length + size

/-- An empty output buffer takes the rest of a message of moderate size. -/
lemma bufferRest_isOk {nwrote remaining : ℕ} (hwf : r.conn.outputBuffer.WellFormed)
    (hempty : r.conn.outputBuffer.readableBytes = 0) (hadded : r.conn.channel.index = kAdded)
    (hregistered : (r.poller.epoll r.conn.channel.fd).isSome) (hsmall : remaining < 2 ^ 61) :
    ∃ r', r.bufferRest self data nwrote remaining = .ok r' := by
  unfold bufferRest
  split
  · exact ⟨r, rfl⟩
  · obtain ⟨fs, -, hsignal⟩ := signalHighWater_eq self remaining r
    have hlen : (data.bytes nwrote remaining).length = remaining := Memory.length_bytes _ _ _
    rcases Buffer.append_cases hwf (by omega : (data.bytes nwrote remaining).length < 2 ^ 63) with
      ⟨-, b, hb, -⟩ | ⟨hover, -⟩
    · have hb' : (r.queueAll fs).conn.outputBuffer.append (data.bytes nwrote remaining) = .ok b := hb
      dsimp only
      rw [hsignal, hb', Except.ok_bind]
      split
      · exact ⟨_, rfl⟩
      · obtain ⟨⟨p, ch⟩, hact⟩ :
            ∃ q, r.poller.enableWriteing (.conn self) r.conn.channel = .ok q :=
          EPOLLPoller.enableWriteing_isOk hadded hregistered
        exact ⟨_, withPoller_eq_ok_iff.mpr ⟨p, ch, hact, rfl⟩⟩
    · rw [hlen] at hover
      exact absurd hover (hwf.not_overflows hempty hsmall)

namespace Ready

/-- On a ready connection `send` comes to the direct write. -/
lemma send_eq (h : r.Ready) : r.send self data size w = r.sendBody self data (toInt size) w := by
  rw [send, if_pos h.state, sendInLoop, if_neg (by rw [h.state]; decide)]

lemma interested (h : r.Ready) : r.Interested :=
  .of_empty h.idle.1 (h.idle.buffered_eq_nil h.wellFormed)

/-- A message of moderate size goes through, unless its direct write is taken for a fault. -/
lemma sendBody_isOk (h : r.Ready) {len : ℤ} (hsmall : toSize len < 2 ^ 61)
    (hoffer : w.taken ≤ toSize len) (hgood : w.isFault = false) :
    ∃ r', r.sendBody self data len w = .ok r' := by
  unfold sendBody
  rw [if_pos h.idle]
  cases w with
  | wrote n =>
    have hn : n ≤ toSize len := hoffer
    have hrest : toSize (len - n) < 2 ^ 61 := by
      rw [toSize_sub hn]
      omega
    dsimp only
    split
    · obtain ⟨fs, -, hsignal⟩ := signalWriteComplete_eq self (r.transmit (data.bytes 0 n))
      rw [hsignal]
      exact bufferRest_isOk h.wellFormed h.idle.2 h.added h.registered hrest
    · exact bufferRest_isOk h.wellFormed h.idle.2 h.added h.registered hrest
  | failed e =>
    dsimp only
    rw [hgood, if_neg Bool.false_ne_true]
    exact bufferRest_isOk h.wellFormed h.idle.2 h.added h.registered hsmall

/-- The bytes written and appended are as many as were offered. -/
lemma sendBody_total (h : r.Ready) {r' : View} {len : ℤ} (hoffer : w.taken ≤ toSize len)
    (hgood : w.isFault = false) (hr' : r.sendBody self data len w = .ok r') :
    r'.accepted.length + r'.buffered.length =
      r.accepted.length + r.buffered.length + toSize len := by
  obtain ⟨-, -, -, hstream⟩ := sendBody_stream h.wellFormed h.interested hoffer hr'
  rw [if_neg (by simp [hgood])] at hstream
  have hlength := congrArg List.length hstream
  simp only [List.length_append, Memory.length_bytes] at hlength
  exact hlength

/-- What is not written at once fits into a vector. -/
lemma toSize_le (h : r.Ready) {r' : View} {len : ℤ} (hoffer : w.taken ≤ toSize len)
    (hgood : w.isFault = false) (hr' : r.sendBody self data len w = .ok r') :
    toSize len ≤ w.taken + maxSize := by
  rcases sendBody_cases hr' with ⟨-, hfault, -⟩ | ⟨-, nwrote, remaining, fs, hsplit, -, hrest⟩
  · rw [hgood] at hfault
    cases hfault
  · have hsum := (hsplit.add_eq hoffer).1
    have hnwrote : nwrote ≤ w.taken := by
      cases hsplit with
      | direct hidle => exact Nat.le_refl _
      | refused hidle he => exact Nat.zero_le _
      | queued hbusy => exact Nat.zero_le _
    rcases bufferRest_cases hrest with ⟨hzero, -⟩ | ⟨-, -, b, -, -, -, happend, -, -⟩
    · omega
    · have hfits := Buffer.length_of_append h.wellFormed.length_le happend
      rw [Memory.length_bytes] at hfits
      omega

/-- Only a size that survives the conversions is sent in full. -/
lemma toSize_toInt_eq (h : r.Ready) (hoffer : w.taken ≤ toSize (toInt size))
    (hgood : w.isFault = false) (hc : r.Complete self data size w) :
    toSize (toInt size) = size := by
  obtain ⟨r', hr', htotal⟩ := hc
  rw [h.send_eq] at hr'
  have hoffered := h.sendBody_total hoffer hgood hr'
  omega

/-- A message is sent in full exactly if its size is below `2 ^ 31`, unless the direct write
is taken for a fault. -/
theorem complete_iff (h : r.Ready) (hsize : size < 2 ^ 64)
    (hoffer : w.taken ≤ toSize (toInt size)) (hmax : w.taken ≤ maxRwCount)
    (hgood : w.isFault = false) : r.Complete self data size w ↔ size < 2 ^ 31 := by
  constructor
  · intro hc
    have hsurvives := h.toSize_toInt_eq hoffer hgood hc
    obtain ⟨r', hr', -⟩ := hc
    rw [h.send_eq] at hr'
    have hfits := h.toSize_le hoffer hgood hr'
    unfold maxRwCount at hmax
    unfold maxSize at hfits
    rcases (toSize_toInt_eq_iff hsize).mp hsurvives with hsmall | hhuge
    · exact hsmall
    · omega
  · intro hsmall
    have hsurvives : toSize (toInt size) = size := toSize_toInt_of_lt hsmall
    obtain ⟨r', hr'⟩ := h.sendBody_isOk (by omega) hoffer hgood
    refine ⟨r', h.send_eq.trans hr', ?_⟩
    rw [h.sendBody_total hoffer hgood hr', hsurvives]

end Ready

/-- The connection of `OutgoingStream.exampleStream` is ready. -/
lemma ready_exampleStream : OutgoingStream.exampleStream.view.Ready where
  state := rfl
  idle := by decide
  wellFormed := Buffer.wellFormed_new
  added := rfl
  registered := rfl

/-- Three bytes of which the kernel takes one are sent in full. -/
theorem complete_three :
    OutgoingStream.exampleStream.view.Complete 0 (.ofString [1, 2, 3]) 3 (.wrote 1) :=
  (ready_exampleStream.complete_iff (by decide) (by decide) (by decide) rfl).mpr (by decide)

/-- A message of `2 ^ 32` bytes is offered as one of none, and `send` takes it for sent. -/
theorem not_complete_two_pow :
    OutgoingStream.exampleStream.view.Ready ∧ toSize (toInt (2 ^ 32)) = 0 ∧
      ¬ OutgoingStream.exampleStream.view.Complete 0 (fun _ => 0) (2 ^ 32) (.wrote 0) := by
  have hzero : toSize (toInt (2 ^ 32)) = 0 := by decide
  refine ⟨ready_exampleStream, hzero, ?_⟩
  intro hc
  have hsurvives := ready_exampleStream.toSize_toInt_eq (by decide) rfl hc
  exact absurd (hzero.symm.trans hsurvives) (by decide)

end TcpConnection.View

end HzhMuduo
