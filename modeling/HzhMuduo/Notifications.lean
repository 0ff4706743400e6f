import HzhMuduo.OutgoingStream

/-!
# The notifications of a connection

`sendInLoop` and `handleWrite` tell the application, by functors queued in the loop, when all its
bytes are with the kernel (`writeCompleteCallback_`) and when too many of them wait
(`highWaterMarkCallback_`).  The runs are those of the loop thread of one established connection,
with messages of any `int` length and any answer of the kernel; `queued` collects the functors of
the whole run.

Both functions test sizes before they act.  The invariant that write interest is on exactly while
something is buffered turns these tests into statements about the bytes waiting before and after
the step: write-complete is queued at each step that hands the last byte to the kernel
(`writeComplete_step`), and high-water at each step that takes the output buffer from below the
mark to it or above (`highWater_step`).
-/

namespace HzhMuduo

open MachineWord TcpConnection

namespace TcpConnection.View

variable {r r' : View} {self : ConnId}

/-- `outputBuffer_.readableBytes()`. -/
def level (r : View) : ℕ := r.conn.outputBuffer.readableBytes

/-- The number of bytes the kernel has accepted. -/
def sent (r : View) : ℕ := r.accepted.length

/-- The functor for a step from `r` to `r'` that takes the output buffer to the mark. -/
def crossing (self : ConnId) (r r' : View) : List Functor :=
  if r.conn.highWaterMarkCallback = true ∧ r.level < r.conn.highWaterMark ∧
      r.conn.highWaterMark ≤ r'.level then
    [.highWaterMarkCallback self r'.level]
  else []

/-- The functor for a write that has left nothing. -/
def writeCompleteSignal (self : ConnId) (r : View) : List Functor :=
  if r.conn.writeCompleteCallback then [.writeCompleteCallback self] else []

/-- How many bytes of a message `sendInLoop` keeps for the output buffer. -/
def rest (len : ℤ) (w : WriteResult) (r : View) : ℕ :=
  if r.Idle then
    match w with
    | .wrote n => toSize (len - n)
    | .failed _ _ => if w.isFault then 0 else toSize len
  else toSize len

/-- `sendInLoop` writes the whole message directly. -/
def WritesAll (len : ℤ) (w : WriteResult) (r : View) : Prop :=
  r.Idle ∧ w = .wrote w.taken ∧ r.rest len w = 0

instance (len : ℤ) (w : WriteResult) (r : View) : Decidable (r.WritesAll len w) :=
  inferInstanceAs (Decidable (_ ∧ _))

/-- `handleWrite` writes all that is left. -/
def Empties (w : WriteResult) (r : View) : Prop :=
  r.conn.channel.isWriting = true ∧ 0 < w.taken ∧ r.level ≤ w.taken

instance (w : WriteResult) (r : View) : Decidable (r.Empties w) :=
  inferInstanceAs (Decidable (_ ∧ _))

lemma level_eq_length (hwf : r.conn.outputBuffer.WellFormed) : r.level = r.buffered.length :=
  hwf.readableBytes_eq_length

/-- A level that does not rise crosses no mark. -/
lemma crossing_of_le (h : r'.level ≤ r.level) : crossing self r r' = [] :=
  if_neg fun hc => absurd (Nat.lt_of_lt_of_le hc.2.1 hc.2.2) (Nat.not_lt_of_le h)

/-- Appending what fits in a vector adds up without wrapping. -/
lemma level_append {bytes : List UInt8} {b : Buffer} (hwf : r.conn.outputBuffer.WellFormed)
    (h : r.conn.outputBuffer.append bytes = .ok b) :
    b.readableBytes = r.level + bytes.length ∧ r.level + bytes.length < 2 ^ 64 := by
  obtain ⟨hwf', hread⟩ := Buffer.append_spec hwf h
  have hlength : b.readableBytes = r.level + bytes.length := by
    rw [hwf'.readableBytes_eq_length, hread, List.length_append, level,
      hwf.readableBytes_eq_length]
  have h₁ := hwf'.readableBytes_eq
  have h₂ := hwf'.writer_le
  have h₃ := hwf'.length_le
  simp only [maxSize] at h₃
  exact ⟨hlength, by omega⟩

lemma signalWriteComplete_eq_queueAll (self : ConnId) (r : View) :
    r.signalWriteComplete self = r.queueAll (r.writeCompleteSignal self) := by
  unfold signalWriteComplete writeCompleteSignal
  split
  · rfl
  · exact r.queueAll_nil.symm

lemma signalHighWater_conn (self : ConnId) (remaining : ℕ) (r : View) :
    (r.signalHighWater self remaining).conn = r.conn := by
  unfold signalHighWater
  dsimp only
  split <;> rfl

/-- The test before an append is a test of the level after it. -/
lemma signalHighWater_queued {remaining : ℕ} (hlt : r.level + remaining < 2 ^ 64)
    (hlevel : r'.level = r.level + remaining) :
    (r.signalHighWater self remaining).queued = r.queued ++ crossing self r r' := by
  have hsum : addSize r.level remaining = r'.level := (addSize_of_lt hlt).trans hlevel.symm
  change (if r.conn.highWaterMark ≤ addSize r.level remaining ∧ r.level < r.conn.highWaterMark ∧
      r.conn.highWaterMarkCallback = true then
    r.queueInLoop (.highWaterMarkCallback self (addSize r.level remaining)) else r).queued = _
  rw [hsum, crossing]
  split
  · next hmark =>
    rw [if_pos ⟨hmark.2.2, hmark.2.1, hmark.1⟩]
    rfl
  · next hmark => rw [if_neg fun hc => hmark ⟨hc.2.2, hc.2.1, hc.1⟩, List.append_nil]

/-- `bufferRest` tests the sizes before the append, and what it tests is the level after it. -/
lemma bufferRest_signals {data : Memory} {nwrote remaining : ℕ}
    (hwf : r.conn.outputBuffer.WellFormed)
    (h : r.bufferRest self data nwrote remaining = .ok r') :
    r'.queued = r.queued ++ crossing self r r' ∧ r'.level = r.level + remaining := by
  unfold bufferRest at h
  split at h
  · next hzero =>
    obtain rfl := Except.ok.inj h
    rw [crossing_of_le le_rfl, List.append_nil, hzero]
    exact ⟨rfl, rfl⟩
  · obtain ⟨b, happend, h⟩ := Except.bind_eq_ok_iff.mp h
    rw [signalHighWater_conn] at happend
    obtain ⟨hlevel, hlt⟩ := level_append hwf happend
    rw [Memory.length_bytes] at hlevel hlt
    have hkeep : r'.queued = (r.signalHighWater self remaining).queued ∧
        r'.level = r.level + remaining := by
      dsimp only at h
      split at h
      · obtain rfl := Except.ok.inj h
        exact ⟨rfl, hlevel⟩
      · obtain ⟨p, ch, -, rfl⟩ := withPoller_eq_ok_iff.mp h
        exact ⟨rfl, hlevel⟩
    exact ⟨hkeep.1.trans (signalHighWater_queued hlt hkeep.2), hkeep.2⟩

/-- `sendInLoop` behind its test of the state. -/
theorem sendBody_signals {data : Memory} {len : ℤ} {w : WriteResult}
    (hwf : r.conn.outputBuffer.WellFormed) (h : r.sendBody self data len w = .ok r') :
    r'.queued = r.queued ++
      ((if r.WritesAll len w then r.writeCompleteSignal self else []) ++ crossing self r r') ∧
    r'.level = r.level + r.rest len w := by
  unfold sendBody at h
  split at h
  · next hidle =>
    cases w with
    | wrote n =>
      have hrest : r.rest len (.wrote n) = toSize (len - n) := if_pos hidle
      dsimp only at h
      split at h
      · next hzero =>
        have hall : r.WritesAll len (.wrote n) := ⟨hidle, rfl, hrest.trans hzero⟩
        rw [hzero, bufferRest, if_pos rfl, signalWriteComplete_eq_queueAll] at h
        have hr' := Except.ok.inj h
        have hlevel : r'.level = r.level := by
          rw [← hr']
          rfl
        rw [if_pos hall, crossing_of_le hlevel.le, List.append_nil, hrest, hzero, ← hr']
        exact ⟨rfl, rfl⟩
      · next hne =>
        have hnot : ¬ r.WritesAll len (.wrote n) := fun hc => hne (hrest.symm.trans hc.2.2)
        obtain ⟨hqueued, hlevel⟩ := bufferRest_signals (r := r.transmit (data.bytes 0 n)) hwf h
        rw [if_neg hnot, hrest]
        exact ⟨hqueued, hlevel⟩
    | failed e logged =>
      have hnot : ¬ r.WritesAll len (.failed e logged) := fun hc => nomatch hc.2.1
      rw [if_neg hnot, List.nil_append]
      dsimp only at h
      split at h
      · next hfault =>
        obtain rfl := Except.ok.inj h
        have hrest : r.rest len (.failed e logged) = 0 := by
          unfold rest
          rw [if_pos hidle]
          exact if_pos hfault
        rw [crossing_of_le le_rfl, List.append_nil, hrest]
        exact ⟨rfl, rfl⟩
      · next hfault =>
        have hrest : r.rest len (.failed e logged) = toSize len := by
          unfold rest
          rw [if_pos hidle]
          exact if_neg hfault
        rw [hrest]
        exact bufferRest_signals hwf h
  · next hbusy =>
    have hnot : ¬ r.WritesAll len w := fun hc => hbusy hc.1
    have hrest : r.rest len w = toSize len := if_neg hbusy
    rw [if_neg hnot, List.nil_append, hrest]
    exact bufferRest_signals hwf h

/-- `handleWrite` up to its test of the state, which is reached when the buffer was emptied. -/
theorem writeOutput_signals {w : WriteResult} {drained : Bool}
    (hwf : r.conn.outputBuffer.WellFormed) (h : r.writeOutput self w = .ok (r', drained)) :
    r'.queued = r.queued ++ (if r.Empties w then r.writeCompleteSignal self else []) ∧
    r'.level = if r.conn.channel.isWriting = true then r.level - w.taken else r.level := by
  have hlevel : (r.conn.outputBuffer.retrieve w.taken).readableBytes = r.level - w.taken := by
    rw [(Buffer.retrieve_wellFormed hwf w.taken).readableBytes_eq_length,
      Buffer.readable_retrieve hwf, List.length_drop, level_eq_length hwf]
    rfl
  unfold writeOutput at h
  split at h
  · next hcond =>
    rw [if_pos hcond.1]
    dsimp only at h
    split at h
    · next hempty =>
      have hempties : r.Empties w := by
        refine ⟨hcond.1, hcond.2, Nat.le_of_sub_eq_zero ?_⟩
        exact hlevel.symm.trans hempty
      obtain ⟨r₂, hact, h⟩ := Except.bind_eq_ok_iff.mp h
      obtain ⟨p, ch, -, rfl⟩ := withPoller_eq_ok_iff.mp hact
      rw [signalWriteComplete_eq_queueAll] at h
      obtain ⟨rfl, -⟩ := Prod.mk.inj (Except.ok.inj h)
      rw [if_pos hempties]
      exact ⟨rfl, hlevel⟩
    · next hrest =>
      have hnot : ¬ r.Empties w := fun hc =>
        hrest (hlevel.trans (Nat.sub_eq_zero_of_le hc.2.2))
      obtain ⟨rfl, -⟩ := Prod.mk.inj (Except.ok.inj h)
      rw [if_neg hnot, List.append_nil]
      exact ⟨rfl, hlevel⟩
  · next hcond =>
    have hnot : ¬ r.Empties w := fun hc => hcond ⟨hc.1, hc.2.1⟩
    obtain ⟨rfl, -⟩ := Prod.mk.inj (Except.ok.inj h)
    rw [if_neg hnot, List.append_nil]
    refine ⟨rfl, ?_⟩
    split
    · next hwriting =>
      have htaken : w.taken = 0 := Nat.eq_zero_of_not_pos fun hpos => hcond ⟨hwriting, hpos⟩
      rw [htaken, Nat.sub_zero]
    · rfl

/-- What `sendInLoop` does not throw away goes to the kernel or to the buffer. -/
lemma sendBody_sent {data : Memory} {len : ℤ} {w : WriteResult}
    (hwf : r.conn.outputBuffer.WellFormed) (hi : r.Interested) (hw : w.taken ≤ toSize len)
    (h : r.sendBody self data len w = .ok r') :
    r'.sent + r'.level = r.sent + r.level +
      if r.Idle ∧ w.isFault = true then 0 else toSize len := by
  obtain ⟨hwf', -, -, hstream⟩ := sendBody_stream hwf hi hw h
  have hlength := congrArg List.length hstream
  rw [List.length_append, List.length_append, List.length_append, ← level_eq_length hwf,
    ← level_eq_length hwf'] at hlength
  refine hlength.trans ?_
  split
  · rfl
  · rw [Memory.length_bytes]
    rfl

/-- `handleWrite` gives to the kernel what it takes from the buffer. -/
lemma writeOutput_sent {w : WriteResult} {drained : Bool}
    (hwf : r.conn.outputBuffer.WellFormed) (hi : r.Interested)
    (h : r.writeOutput self w = .ok (r', drained)) : r'.sent + r'.level = r.sent + r.level := by
  obtain ⟨hwf', -, -, hstream⟩ := writeOutput_stream hwf hi h
  have hlength := congrArg List.length hstream
  rw [List.length_append, List.length_append, ← level_eq_length hwf,
    ← level_eq_length hwf'] at hlength
  exact hlength

/-- The callbacks for the output that are set, and the mark. -/
def settings (r : View) : Bool × Bool × ℕ :=
  (r.conn.writeCompleteCallback, r.conn.highWaterMarkCallback, r.conn.highWaterMark)

/-- What a notification depends on, and the notifications themselves. -/
structure SameOutput (r r' : View) : Prop where
  queued : r'.queued = r.queued
  level : r'.level = r.level
  sent : r'.sent = r.sent
  settings : r'.settings = r.settings

lemma sameOutput_shutdownInLoop (r : View) : r.SameOutput r.shutdownInLoop := by
  unfold shutdownInLoop
  split <;> exact ⟨rfl, rfl, rfl, rfl⟩

lemma sameOutput_shutdown (r : View) : r.SameOutput r.shutdown := by
  unfold shutdown
  split
  · obtain ⟨hqueued, hlevel, hsent, hsettings⟩ :=
      sameOutput_shutdownInLoop (r.setState .kDisconnecting)
    exact ⟨hqueued, hlevel, hsent, hsettings⟩
  · exact ⟨rfl, rfl, rfl, rfl⟩

/-- The end of `handleWrite` notifies nobody. -/
lemma handleWrite_cases {w : WriteResult} (h : r.handleWrite self w = .ok r') :
    ∃ r₁ drained, r.writeOutput self w = .ok (r₁, drained) ∧ r₁.SameOutput r' := by
  obtain ⟨⟨r₁, drained⟩, hout, h⟩ := Except.bind_eq_ok_iff.mp h
  obtain rfl := Except.ok.inj h
  refine ⟨r₁, drained, hout, ?_⟩
  unfold afterDrain
  split
  · split
    · exact sameOutput_shutdownInLoop r₁
    · exact ⟨rfl, rfl, rfl, rfl⟩
  · exact ⟨rfl, rfl, rfl, rfl⟩

end TcpConnection.View

/-! ## Runs -/

namespace Notifications

open OutgoingStream (Explained)

variable {self : ConnId} {v v' : View}

/-- A step of the loop thread; `::write` takes at most what it is offered. -/
inductive Act
  | sendInLoop (data : Memory) (len : ℤ) (w : WriteResult)
  | handleWrite (w : WriteResult)
  | shutdown
  | handleClose

/-- The step `a` on connection `self`. -/
def step (self : ConnId) (v : View) : Act → Option View
  | .sendInLoop data len w =>
    if w.taken ≤ toSize len then (v.sendInLoop self data len w).toOption else none
  | .handleWrite w => if w.taken ≤ v.level then (v.handleWrite self w).toOption else none
  | .shutdown => some v.shutdown
  | .handleClose => (v.handleClose self).toOption

/-- The runs of one established connection. -/
def system (self : ConnId) : TransitionSystem View Act where
  init := OutgoingStream.Established
  step := step self

/-- What a step can be. -/
inductive Step (self : ConnId) (v : View) : Act → View → Prop
  | closed {data len w} (h : v.conn.state = .kDisconnected) : Step self v (.sendInLoop data len w) v
  | send {data len w v'} (hopen : v.conn.state ≠ .kDisconnected) (hw : w.taken ≤ toSize len)
      (h : v.sendBody self data len w = .ok v') : Step self v (.sendInLoop data len w) v'
  | write {w v₁ v' drained} (hw : w.taken ≤ v.level) (hwhole : v.handleWrite self w = .ok v')
      (h : v.writeOutput self w = .ok (v₁, drained)) (hsame : v₁.SameOutput v') :
      Step self v (.handleWrite w) v'
  | shutdown : Step self v .shutdown v.shutdown
  | close {p ch} (h : v.closeChannel self = .ok ((v.setState .kDisconnected).withChannel p ch)) :
      Step self v .handleClose ((v.setState .kDisconnected).withChannel p ch)

/-- Every step is one of these. -/
theorem step_cases {a : Act} (h : step self v a = some v') : Step self v a v' := by
  cases a with
  | sendInLoop data len w =>
    obtain ⟨hw, h⟩ := Option.ite_none_right_eq_some.mp h
    have h := Except.toOption_eq_some_iff.mp h
    unfold View.sendInLoop at h
    split at h
    · next hclosed =>
      obtain rfl := Except.ok.inj h
      exact .closed hclosed
    · next hopen => exact .send hopen hw h
  | handleWrite w =>
    obtain ⟨hw, h⟩ := Option.ite_none_right_eq_some.mp h
    have h := Except.toOption_eq_some_iff.mp h
    obtain ⟨v₁, drained, hout, hsame⟩ := View.handleWrite_cases h
    exact .write hw h hout hsame
  | shutdown =>
    obtain rfl := Option.some.inj h
    exact .shutdown
  | handleClose =>
    have h := Except.toOption_eq_some_iff.mp h
    obtain ⟨p, ch, -, rfl⟩ := View.closeChannel_cases h
    exact .close h

lemma explained_step {a : Act} (hI : Explained v) (h : step self v a = some v') : Explained v' := by
  obtain ⟨kept, hI⟩ := hI
  cases step_cases h with
  | closed hclosed => exact ⟨kept, hI⟩
  | send hopen hw hsend => exact ⟨_, hI.sendBody hopen hw hsend⟩
  | write hw hwhole hout hsame => exact ⟨kept, hI.handleWrite hwhole⟩
  | shutdown => exact ⟨kept, hI.shutdown⟩
  | close hclose => exact ⟨kept, hI.closeChannel hclose⟩

lemma explained_of_reach (h : (system self).Reach v) : Explained v :=
  h.invariant (fun _ hv => ⟨[], OutgoingStream.streamInv_of_established hv rfl⟩)
    fun _ _ _ hI hs => explained_step hI hs

/-- No step changes the callbacks. -/
lemma settings_eq {a : Act} (h : step self v a = some v') : v'.settings = v.settings := by
  cases step_cases h with
  | closed hclosed => rfl
  | send hopen hw hsend =>
    obtain ⟨fs, socket, b, p, ch, -, -, rfl⟩ := View.sendBody_effect hsend
    rfl
  | write hw hwhole hout hsame =>
    obtain ⟨fs, socket, b, p, ch, -, -, rfl⟩ := View.writeOutput_effect hout
    exact hsame.settings
  | shutdown => exact v.sameOutput_shutdown.settings
  | close hclose => rfl

/-! ### Write-complete -/

/-- The step finds out that everything is with the kernel. -/
def Completes (v : View) : Act → Prop
  | .sendInLoop _ len w => v.conn.state ≠ .kDisconnected ∧ v.WritesAll len w
  | .handleWrite w => v.Empties w
  | .shutdown | .handleClose => False

instance (v : View) : (a : Act) → Decidable (Completes v a)
  | .sendInLoop _ _ _ => inferInstanceAs (Decidable (_ ∧ _))
  | .handleWrite _ => inferInstanceAs (Decidable (View.Empties _ _))
  | .shutdown | .handleClose => inferInstanceAs (Decidable False)

/-- The functors a step queues. -/
theorem step_signals {a : Act} (hI : Explained v) (h : step self v a = some v') :
    v'.queued = v.queued ++
      ((if Completes v a then v.writeCompleteSignal self else []) ++ v.crossing self v') := by
  have hwf := hI.wellFormed
  cases step_cases h with
  | @closed data len w hclosed =>
    have hnot : ¬ Completes v (.sendInLoop data len w) := fun hc => hc.1 hclosed
    rw [if_neg hnot, View.crossing_of_le le_rfl, List.append_nil, List.append_nil]
  | @send data len w v' hopen hw hsend =>
    have hcompletes : Completes v (.sendInLoop data len w) ↔ v.WritesAll len w :=
      and_iff_right hopen
    simp only [hcompletes]
    exact (View.sendBody_signals hwf hsend).1
  | write hw hwhole hout hsame =>
    obtain ⟨hqueued, hlevel⟩ := View.writeOutput_signals hwf hout
    have hle : v'.level ≤ v.level := by
      rw [hsame.level, hlevel]
      split <;> omega
    rw [View.crossing_of_le hle, List.append_nil, hsame.queued]
    exact hqueued
  | shutdown =>
    have hsame := v.sameOutput_shutdown
    have hnot : ¬ Completes v .shutdown := id
    rw [if_neg hnot, View.crossing_of_le hsame.level.le, List.append_nil, List.append_nil]
    exact hsame.queued
  | @close p ch hclose =>
    have hnot : ¬ Completes v .handleClose := id
    have hle : View.level ((v.setState .kDisconnected).withChannel p ch) ≤ v.level := le_rfl
    rw [if_neg hnot, View.crossing_of_le hle, List.append_nil, List.append_nil]
    rfl

/-- The length of the message in hand. -/
def inHand : Act → ℕ
  | .sendInLoop _ len _ => toSize len
  | _ => 0

/-- The step hands all the pending bytes to the kernel, and there are some. -/
structure Drains (v : View) (a : Act) (v' : View) : Prop where
  pending : 0 < v.level + inHand a
  level : v'.level = 0
  sent : v'.sent = v.sent + (v.level + inHand a)

/-- The step sends an empty message while nothing is pending. -/
def SendsEmpty (v : View) : Act → Prop
  | .sendInLoop _ len w =>
    v.conn.state ≠ .kDisconnected ∧ v.level = 0 ∧ toSize len = 0 ∧ w = .wrote 0
  | _ => False

/-- The step throws its message away. -/
def Drops (v : View) : Act → Prop
  | .sendInLoop _ _ w => v.Discards w
  | _ => False

/-- `sendInLoop` completes exactly if it drains, or sends an empty message. -/
lemma sendBody_completes_iff {data : Memory} {len : ℤ} {w : WriteResult}
    (hwf : v.conn.outputBuffer.WellFormed) (hi : v.Interested) (hw : w.taken ≤ toSize len)
    (h : v.sendBody self data len w = .ok v') :
    v.WritesAll len w ↔ Drains v (.sendInLoop data len w) v' ∨
      v.level = 0 ∧ toSize len = 0 ∧ w = .wrote 0 := by
  obtain ⟨-, hlevel⟩ := View.sendBody_signals hwf h
  have hsent := View.sendBody_sent hwf hi hw h
  have hidle : v.level = 0 → v.Idle := by
    intro hzero
    have hnil : v.buffered = [] :=
      List.length_eq_zero_iff.mp ((View.level_eq_length hwf).symm.trans hzero)
    exact ⟨eq_false_of_ne_true fun hon => hi.mp hon hnil, hzero⟩
  constructor
  · rintro ⟨hid, hwrote, hrest⟩
    have hzero : v.level = 0 := hid.2
    have hgood : ¬ (v.Idle ∧ w.isFault = true) := by
      rw [hwrote]
      exact fun hc => absurd hc.2 (by simp [WriteResult.isFault])
    rw [if_neg hgood] at hsent
    rcases Nat.eq_zero_or_pos (toSize len) with hempty | hpos
    · have htaken : w.taken = 0 := Nat.le_zero.mp (hempty ▸ hw)
      exact .inr ⟨hzero, hempty, hwrote.trans (congrArg WriteResult.wrote htaken)⟩
    · refine .inl ⟨Nat.lt_of_lt_of_le hpos (Nat.le_add_left _ _), by omega, ?_⟩
      simp only [inHand]
      omega
  · rintro (⟨hpending, hlevel', hsent'⟩ | ⟨hzero, hempty, rfl⟩)
    · simp only [inHand] at hpending hsent'
      have hid := hidle (by omega)
      refine ⟨hid, ?_, by omega⟩
      cases w with
      | wrote n => rfl
      | failed e logged =>
        -- nothing was handed over, or all of it was kept
        exfalso
        have hrest : v.rest len (.failed e logged) = 0 := by omega
        unfold View.rest at hrest
        rw [if_pos hid] at hrest
        dsimp only at hrest
        split at hrest
        · next hfault =>
          rw [if_pos ⟨hid, hfault⟩] at hsent
          omega
        · omega
    · refine ⟨hidle hzero, rfl, ?_⟩
      unfold View.rest
      rw [if_pos (hidle hzero)]
      simpa using hempty

/-- `handleWrite` completes exactly if it drains. -/
lemma writeOutput_completes_iff (hI : Explained v) {w : WriteResult} (hw : w.taken ≤ v.level)
    {drained : Bool} (h : v.writeOutput self w = .ok (v', drained)) :
    v.Empties w ↔ Drains v (.handleWrite w) v' := by
  have hwf := hI.wellFormed
  have hlevel := (View.writeOutput_signals hwf h).2
  constructor
  · rintro ⟨hwriting, hpos, hle⟩
    rw [if_pos hwriting] at hlevel
    have hopen : v.conn.state ≠ .kDisconnected := fun hclosed =>
      Bool.false_ne_true ((hI.closed hclosed).symm.trans hwriting)
    have hsent := View.writeOutput_sent hwf (hI.interested hopen) h
    exact ⟨by simp only [inHand]; omega, by omega, by simp only [inHand]; omega⟩
  · rintro ⟨hpending, hzero, -⟩
    simp only [inHand] at hpending
    split at hlevel
    · next hwriting => exact ⟨hwriting, by omega, by omega⟩
    · omega

/-- A step that leaves the level as it is, with no message in hand, does not drain. -/
lemma not_drains_of_level {a : Act} (hhand : inHand a = 0) (hlevel : v'.level = v.level) :
    ¬ Drains v a v' := by
  rintro ⟨hpending, hzero, -⟩
  omega

/-- The tests of the code are about what is pending. -/
lemma completes_iff {a : Act} (hI : Explained v) (h : step self v a = some v') :
    Completes v a ↔ Drains v a v' ∨ SendsEmpty v a := by
  cases step_cases h with
  | closed hclosed =>
    refine iff_of_false (fun hc => hc.1 hclosed) ?_
    rintro (⟨hpending, hzero, hsent⟩ | ⟨hopen, -⟩)
    · omega
    · exact hopen hclosed
  | send hopen hw hsend =>
    have hexact := sendBody_completes_iff hI.wellFormed (hI.interested hopen) hw hsend
    exact (and_iff_right hopen).trans (hexact.trans (or_congr_right (and_iff_right hopen).symm))
  | @write w v₁ v' drained hw hwhole hout hsame =>
    have hexact := writeOutput_completes_iff hI hw hout
    have hdrains : Drains v (.handleWrite w) v₁ ↔ Drains v (.handleWrite w) v' := by
      constructor
      · rintro ⟨hpending, hzero, hsent⟩
        exact ⟨hpending, hsame.level.trans hzero, hsame.sent.trans hsent⟩
      · rintro ⟨hpending, hzero, hsent⟩
        exact ⟨hpending, hsame.level.symm.trans hzero, hsame.sent.symm.trans hsent⟩
    exact hexact.trans (hdrains.trans (or_iff_left id).symm)
  | shutdown =>
    exact iff_of_false id fun hc =>
      hc.elim (not_drains_of_level rfl v.sameOutput_shutdown.level) id
  | close hclose => exact iff_of_false id fun hc => hc.elim (not_drains_of_level rfl rfl) id

/-- A step that completes leaves nothing. -/
lemma level_of_completes {a : Act} (hI : Explained v) (h : step self v a = some v')
    (hcompletes : Completes v a) : v'.level = 0 := by
  rcases (completes_iff hI h).mp hcompletes with hdrains | hempty
  · exact hdrains.level
  · cases step_cases h with
    | closed hclosed => exact hempty.2.1
    | send hopen hw hsend =>
      obtain ⟨-, hidle, -, hrest⟩ := hcompletes
      rw [(View.sendBody_signals hI.wellFormed hsend).2, hrest]
      exact hidle.2
    | _ => exact hempty.elim

/-- Where the level is zero, write interest is off. -/
lemma off_of_level (hI : Explained v) (hzero : v.level = 0) :
    v.buffered = [] ∧ v.conn.channel.isWriting = false := by
  have hnil : v.buffered = [] :=
    List.length_eq_zero_iff.mp ((View.level_eq_length hI.wellFormed).symm.trans hzero)
  refine ⟨hnil, ?_⟩
  by_cases hclosed : v.conn.state = .kDisconnected
  · exact hI.closed hclosed
  · exact eq_false_of_ne_true fun hon => (hI.interested hclosed).mp hon hnil

/-- A message that is thrown away changes nothing. -/
lemma eq_of_drops {a : Act} (h : step self v a = some v') (hdrops : Drops v a) : v' = v := by
  cases step_cases h with
  | closed hclosed => rfl
  | send hopen hw hsend =>
    obtain ⟨hidle, hfault⟩ := hdrops.resolve_left hopen
    rcases View.sendBody_cases hsend with ⟨-, -, rfl⟩ | ⟨hgood, -⟩
    · rfl
    · exact absurd ⟨hidle, hfault⟩ hgood
  | _ => exact hdrops.elim

/-- With the callback set, a step that completes queues it once, and no other step does. -/
lemma count_signals (hcb : v.conn.writeCompleteCallback = true) (a : Act) (v' : View) :
    ((if Completes v a then v.writeCompleteSignal self else []) ++ v.crossing self v').count
      (.writeCompleteCallback self) = if Completes v a then 1 else 0 := by
  have hcrossing : (v.crossing self v').count (.writeCompleteCallback self) = 0 := by
    unfold View.crossing
    split <;> simp
  rw [List.count_append, hcrossing, Nat.add_zero, View.writeCompleteSignal, if_pos hcb]
  split
  · exact List.count_singleton_self
  · rfl

/-- With a write-complete callback set, a step queues it once if it drains or sends an empty
message, and not otherwise; when it is queued nothing is buffered and write interest is off.  A
message that is thrown away notifies nobody. -/
theorem writeComplete_step (h : (system self).Reach v) (hcb : v.conn.writeCompleteCallback = true)
    {a : Act} (hs : step self v a = some v') :
    ∃ fs, v'.queued = v.queued ++ fs ∧
      (Drains v a v' ∨ SendsEmpty v a → fs.count (.writeCompleteCallback self) = 1 ∧
        v'.buffered = [] ∧ v'.conn.channel.isWriting = false) ∧
      (¬ (Drains v a v' ∨ SendsEmpty v a) → fs.count (.writeCompleteCallback self) = 0) ∧
      (Drops v a → fs = []) := by
  have hI := explained_of_reach h
  have hsignals := step_signals hI hs
  refine ⟨_, hsignals, fun hdrains => ?_, fun hnot => ?_, fun hdrops => ?_⟩
  · have hcompletes := (completes_iff hI hs).mpr hdrains
    refine ⟨?_, off_of_level (explained_step hI hs) (level_of_completes hI hs hcompletes)⟩
    rw [count_signals hcb, if_pos hcompletes]
  · rw [count_signals hcb, if_neg fun hcompletes => hnot ((completes_iff hI hs).mp hcompletes)]
  · obtain rfl := eq_of_drops hs hdrops
    exact List.self_eq_append_right.mp hsignals

/-- The number of steps of a run that complete. -/
def completions (self : ConnId) : View → List Act → ℕ
  | _, [] => 0
  | v, a :: as =>
    match step self v a with
    | none => 0
    | some v' => (if Completes v a then 1 else 0) + completions self v' as

/-- Over a whole run the callback is queued once for each step that completes. -/
theorem count_of_run {as : List Act} (hI : Explained v)
    (hcb : v.conn.writeCompleteCallback = true) (hrun : (system self).run v as = some v') :
    v'.queued.count (.writeCompleteCallback self) =
      v.queued.count (.writeCompleteCallback self) + completions self v as := by
  induction as generalizing v with
  | nil =>
    obtain rfl : v = v' := by simpa using hrun
    rfl
  | cons a as ih =>
    rw [TransitionSystem.run_cons, Option.bind_eq_some_iff] at hrun
    obtain ⟨u, hu, hrun⟩ := hrun
    have hu : step self v a = some u := hu
    have hcbu : u.conn.writeCompleteCallback = true := (Prod.mk.inj (settings_eq hu)).1.trans hcb
    rw [ih (explained_step hI hu) hcbu hrun, step_signals hI hu, List.count_append, count_signals hcb,
      completions, hu, Nat.add_assoc]

/-! ### High-water -/

/-- The functor is a high-water callback. -/
def isHighWater : Functor → Bool
  | .highWaterMarkCallback _ _ => true
  | _ => false

/-- The high-water functors queued on the way from `v` to `v'`. -/
def newHighWater (v v' : View) : List Functor :=
  (v'.queued.drop v.queued.length).filter isHighWater

/-- They are those of a crossing. -/
lemma newHighWater_eq {a : Act} (hI : Explained v) (h : step self v a = some v') :
    newHighWater v v' = v.crossing self v' := by
  have hcomplete : (if Completes v a then v.writeCompleteSignal self else []).filter
      isHighWater = [] := by
    unfold View.writeCompleteSignal
    split
    · split <;> rfl
    · rfl
  have hcrossing : (v.crossing self v').filter isHighWater = v.crossing self v' := by
    unfold View.crossing
    split <;> rfl
  rw [newHighWater, step_signals hI h, List.drop_left, List.filter_append, hcomplete,
    hcrossing, List.nil_append]

/-- Only `handleWrite` lowers the level. -/
lemma level_le_of_step {a : Act} (hI : Explained v) (h : step self v a = some v') :
    (∃ w, a = .handleWrite w) ∨ v.level ≤ v'.level := by
  cases step_cases h with
  | closed hclosed => exact .inr le_rfl
  | send hopen hw hsend =>
    rw [(View.sendBody_signals hI.wellFormed hsend).2]
    exact .inr (Nat.le_add_right _ _)
  | write hw hwhole hout hsame => exact .inl ⟨_, rfl⟩
  | shutdown => exact .inr v.sameOutput_shutdown.level.ge
  | close hclose => exact .inr le_rfl

/-- With the callback set, a step queues it exactly if it takes the level to the mark. -/
lemma newHighWater_ne_nil_iff {a : Act} (hI : Explained v) (h : step self v a = some v')
    (hcb : v.conn.highWaterMarkCallback = true) :
    newHighWater v v' ≠ [] ↔ v.level < v.conn.highWaterMark ∧ v.conn.highWaterMark ≤ v'.level := by
  rw [newHighWater_eq hI h, View.crossing]
  split
  · next hmark => exact iff_of_true (List.cons_ne_nil _ _) hmark.2
  · next hmark => exact iff_of_false (fun hc => hc rfl) fun hc => hmark ⟨hcb, hc⟩

/-- The callback and its mark are the same at both ends of a run. -/
lemma mark_of_run {as : List Act} (hrun : (system self).run v as = some v')
    (hcb : v.conn.highWaterMarkCallback = true) :
    v'.conn.highWaterMarkCallback = true ∧ v'.conn.highWaterMark = v.conn.highWaterMark := by
  have hsettings : v'.settings = v.settings :=
    TransitionSystem.run_congr (fun _ _ _ hs => settings_eq hs) hrun
  obtain ⟨hcb', hmark⟩ := Prod.mk.inj (Prod.mk.inj hsettings).2
  exact ⟨hcb'.trans hcb, hmark⟩

/-- Where a run takes the level from the mark to below it, a `handleWrite` has done so. -/
lemma exists_fall {as : List Act} {mark : ℕ} (h : (system self).Reach v)
    (hrun : (system self).run v as = some v') (hhigh : mark ≤ v.level) (hlow : v'.level < mark) :
    ∃ as₁ w as₂ u u', as = as₁ ++ .handleWrite w :: as₂ ∧ (system self).run v as₁ = some u ∧
      step self u (.handleWrite w) = some u' ∧ mark ≤ u.level ∧ u'.level < mark := by
  obtain ⟨as₁, a, as₂, u, u', rfl, hu, hstep, hnot, hbelow, -⟩ :=
    TransitionSystem.exists_change (P := fun v : View => v.level < mark) hrun
      (Nat.not_lt_of_le hhigh) hlow
  have habove : mark ≤ u.level := Nat.le_of_not_lt hnot
  rcases level_le_of_step (explained_of_reach (h.run hu)) hstep with ⟨w, rfl⟩ | hle
  · exact ⟨as₁, w, as₂, u, u', rfl, hu, hstep, habove, hbelow⟩
  · omega

/-- Where a run takes the level from below the mark to it, the last step to do so has queued the
callback. -/
lemma exists_rise {as : List Act} (h : (system self).Reach v)
    (hcb : v.conn.highWaterMarkCallback = true) (hrun : (system self).run v as = some v')
    (hlow : v.level < v.conn.highWaterMark) (hhigh : v.conn.highWaterMark ≤ v'.level) :
    ∃ as₁ a as₂ u u', as = as₁ ++ a :: as₂ ∧ (system self).run v as₁ = some u ∧
      step self u a = some u' ∧ newHighWater u u' ≠ [] ∧
      (system self).Always (fun u => v.conn.highWaterMark ≤ u.level) u' as₂ := by
  obtain ⟨as₁, a, as₂, u, u', rfl, hu, hstep, hnot, habove, hstays⟩ :=
    TransitionSystem.exists_change (P := fun u : View => v.conn.highWaterMark ≤ u.level) hrun
      (Nat.not_le_of_lt hlow) hhigh
  obtain ⟨hcbu, hmark⟩ := mark_of_run hu hcb
  refine ⟨as₁, a, as₂, u, u', rfl, hu, hstep, ?_, hstays⟩
  rw [newHighWater_ne_nil_iff (explained_of_reach (h.run hu)) hstep hcbu, hmark]
  exact ⟨Nat.lt_of_not_le hnot, habove⟩

/-- With a high-water callback and its mark set, a step queues the callback exactly if it takes
the level from below the mark to it or above, with the level after the step.  Between two such
steps a `handleWrite` has taken the level below the mark, and where the level has come from below
the mark the callback was queued and the level has stayed up since. -/
theorem highWater_step (h : (system self).Reach v) (hcb : v.conn.highWaterMarkCallback = true) :
    (∀ a v', step self v a = some v' → newHighWater v v' =
      if v.level < v.conn.highWaterMark ∧ v.conn.highWaterMark ≤ v'.level then
        [.highWaterMarkCallback self v'.level] else []) ∧
    (∀ a v₁ as v₂ b v₃, step self v a = some v₁ → newHighWater v v₁ ≠ [] →
      (system self).run v₁ as = some v₂ → step self v₂ b = some v₃ → newHighWater v₂ v₃ ≠ [] →
      ∃ as₁ w as₂ u u', as = as₁ ++ .handleWrite w :: as₂ ∧ (system self).run v₁ as₁ = some u ∧
        step self u (.handleWrite w) = some u' ∧ v.conn.highWaterMark ≤ u.level ∧
        u'.level < v.conn.highWaterMark) ∧
    (∀ as v', (system self).run v as = some v' → v.level < v.conn.highWaterMark →
      v.conn.highWaterMark ≤ v'.level →
      ∃ as₁ a as₂ u u', as = as₁ ++ a :: as₂ ∧ (system self).run v as₁ = some u ∧
        step self u a = some u' ∧ newHighWater u u' ≠ [] ∧
        (system self).Always (fun u => v.conn.highWaterMark ≤ u.level) u' as₂) := by
  have hI := explained_of_reach h
  refine ⟨fun a v' hs => ?_, fun a v₁ as v₂ b v₃ hs hnew hrun hs' hnew' => ?_,
    fun as v' hrun hlow hhigh => exists_rise h hcb hrun hlow hhigh⟩
  · rw [newHighWater_eq hI hs, View.crossing]
    simp only [hcb, true_and]
  · have h₁ : (system self).Reach v₁ := h.step trivial hs
    obtain ⟨hcb₁, hmark₁⟩ := Prod.mk.inj (Prod.mk.inj (settings_eq hs)).2
    obtain ⟨hcb₂, hmark₂⟩ := mark_of_run hrun (hcb₁.trans hcb)
    have hup := ((newHighWater_ne_nil_iff hI hs hcb).mp hnew).2
    have hlow := ((newHighWater_ne_nil_iff (explained_of_reach (h₁.run hrun)) hs' hcb₂).mp hnew').1
    rw [hmark₂, hmark₁] at hlow
    exact exists_fall h₁ hrun hup hlow

/-- The connection of `exampleStream` with both callbacks and a high-water mark of 3. -/
def exampleView : View :=
  { OutgoingStream.exampleStream.view with
    conn :=
      { OutgoingStream.exampleStream.view.conn with
        highWaterMarkCallback := true
        highWaterMark := 3 } }

lemma reach_exampleView : (system 0).Reach exampleView :=
  .init ⟨rfl, by decide, Buffer.wellFormed_new, Buffer.readable_new, rfl⟩

/-- Three bytes of which the kernel has taken one. -/
def partlyWritten : View :=
  (step 0 exampleView (.sendInLoop (.ofString [1, 2, 3]) 3 (.wrote 1))).getD exampleView

lemma reach_partlyWritten : (system 0).Reach partlyWritten := by
  have hsome : (step 0 exampleView (.sendInLoop (.ofString [1, 2, 3]) 3 (.wrote 1))).isSome := by
    decide +kernel
  obtain ⟨v, hv⟩ := Option.isSome_iff_exists.mp hsome
  have hstep : ∀ a, (system 0).step exampleView a = step 0 exampleView a := fun _ => rfl
  rw [partlyWritten, hv, Option.getD_some]
  exact reach_exampleView.step trivial ((hstep _).trans hv)

/-- `handleWrite` hands the other two over. -/
theorem writeComplete_partlyWritten : ∃ v',
    step 0 partlyWritten (.handleWrite (.wrote 2)) = some v' ∧ partlyWritten.queued = [] ∧
    v'.queued.count (.writeCompleteCallback 0) = 1 ∧ v'.conn.channel.isWriting = false := by
  have hobserved : (step 0 partlyWritten (.handleWrite (.wrote 2))).map
      (fun v => (v.level, v.sent)) = some (0, 3) := by decide +kernel
  obtain ⟨v', hs, hv⟩ := Option.map_eq_some_iff.mp hobserved
  obtain ⟨hlevel, hsent⟩ := Prod.mk.inj hv
  have hnone : partlyWritten.queued = [] := by decide +kernel
  have hcb : partlyWritten.conn.writeCompleteCallback = true := by decide +kernel
  obtain ⟨fs, hqueued, hcount, -⟩ := writeComplete_step reach_partlyWritten hcb hs
  have hdrains : Drains partlyWritten (.handleWrite (.wrote 2)) v' :=
    ⟨by decide +kernel, hlevel, hsent.trans (by decide +kernel)⟩
  obtain ⟨hone, -, hoff⟩ := hcount (.inl hdrains)
  refine ⟨v', hs, hnone, ?_, hoff⟩
  rw [hqueued, hnone]
  exact hone

/-- Five bytes of which the kernel takes one. -/
theorem highWater_exampleView : ∃ v',
    step 0 exampleView (.sendInLoop (.ofString [1, 2, 3, 4, 5]) 5 (.wrote 1)) = some v' ∧
    newHighWater exampleView v' = [.highWaterMarkCallback 0 4] := by
  have hobserved : (step 0 exampleView (.sendInLoop (.ofString [1, 2, 3, 4, 5]) 5 (.wrote 1))).map
      View.level = some 4 := by decide +kernel
  obtain ⟨v', hs, hlevel⟩ := Option.map_eq_some_iff.mp hobserved
  have hnew := (highWater_step reach_exampleView rfl).1 _ v' hs
  rw [hlevel, if_pos (by decide +kernel)] at hnew
  exact ⟨v', hs, hnew⟩

end Notifications

end HzhMuduo
