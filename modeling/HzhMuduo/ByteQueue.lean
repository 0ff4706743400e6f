import HzhMuduo.Buffer
import HzhMuduo.Foundation.TransitionSystem
import Mathlib.Algebra.GroupWithZero.Nat

/-!
# The buffer as a byte queue

What `Buffer` is for: a queue of bytes.  `ByteQueue` is that queue, a list with the strings
handed out so far, and `queueSystem` is what the calls on it mean; `bufferSystem` makes the same
calls on a `Buffer`.  A call of the queue is a call of the buffer, with the same strings, as
long as the vector can hold the bytes asked for.

The last section compares `readFd` with `append`: a scatter read into the free space and a stack
block stores the bytes as one `append` would.
-/

namespace HzhMuduo

/-- The calls on a buffer, with the bytes at `data` and the answer of `::readv`. -/
inductive BufferCall
  | append (bytes : List UInt8)
  | retrieve (len : ℕ)
  | retrieveAll
  | retrieveAllAsString
  | retrieveAsString (len : ℕ)
  | ensureWritableBytes (len : ℕ)
  | readFd (savedErrno : Errno) (r : ReadResult)

namespace BufferCall

/-- The number of bytes a call asks the buffer to hold. -/
def demand : BufferCall → ℕ
  | append bytes => bytes.length
  | ensureWritableBytes len => len
  | readFd _ (.read bytes) => bytes.length
  | _ => 0

/-- The number of bytes the calls ask for together. -/
def demands (calls : List BufferCall) : ℕ := (calls.map demand).sum

/-- Make a call; the strings it hands out come with the buffer it leaves. -/
def run (b : Buffer) : BufferCall → Except Fault (Buffer × List (List UInt8))
  | append bytes => do return (← b.append bytes, [])
  | retrieve len => .ok (b.retrieve len, [])
  | retrieveAll => .ok (b.retrieveAll, [])
  | retrieveAllAsString => do
    let (result, b) ← b.retrieveAllAsString
    return (b, [result])
  | retrieveAsString len => do
    let (result, b) ← b.retrieveAsString len
    return (b, [result])
  | ensureWritableBytes len => do return (← b.ensureWritableBytes len, [])
  | readFd savedErrno r => do
    let (b, _, _) ← b.readFdFrom savedErrno r
    return (b, [])

end BufferCall

/-- A buffer and the strings handed out so far. -/
structure BufferClient where
  buffer : Buffer
  strings : List (List UInt8)
  deriving DecidableEq

/-- The calls on a new buffer; a call that throws or leaves the vector has no next state. -/
def bufferSystem : TransitionSystem BufferClient BufferCall where
  init s := s = ⟨.new, []⟩
  step s call := (call.run s.buffer).toOption.map fun (b, strings) => ⟨b, s.strings ++ strings⟩

/-- A queue of bytes and the strings handed out so far. -/
structure ByteQueue where
  content : List UInt8
  strings : List (List UInt8)

namespace ByteQueue

/-- Add at the back. -/
def push (q : ByteQueue) (bytes : List UInt8) : ByteQueue :=
  { q with content := q.content ++ bytes }

/-- Drop `len` bytes from the front, or all of them when there are fewer. -/
def pop (q : ByteQueue) (len : ℕ) : ByteQueue :=
  { q with content := q.content.drop (min len q.content.length) }

/-- Drop bytes from the front and hand them out. -/
def take (q : ByteQueue) (len : ℕ) : ByteQueue :=
  { q.pop len with strings := q.strings ++ [q.content.take len] }

end ByteQueue

/-- What the calls mean; a string longer than the content cannot be taken. -/
def queueSystem : TransitionSystem ByteQueue BufferCall where
  init q := q = ⟨[], []⟩
  step q
    | .append bytes => some (q.push bytes)
    | .retrieve len => some (q.pop len)
    | .retrieveAll => some (q.pop q.content.length)
    | .retrieveAllAsString => some (q.take q.content.length)
    | .retrieveAsString len => if len ≤ q.content.length then some (q.take len) else none
    | .ensureWritableBytes _ => some q
    | .readFd _ (.read bytes) => some (q.push bytes)
    | .readFd _ (.failed _) => some q

/-! ## The calls one by one -/

namespace Buffer

variable {b : Buffer}

/-- Room for `len` more bytes is made by moving the readable bytes down. -/
def MovesDown (b : Buffer) (len : ℕ) : Prop :=
  b.writableBytes < len ∧
    ¬ MachineWord.addSize b.writableBytes b.prependableBytes <
      MachineWord.addSize len kCheapPrepend

/-- The readable bytes move down only if something in front of them was retrieved: the
destination of the copy is before its source. -/
theorem MovesDown.lt_peek (h : b.WellFormed) {len : ℕ} (hlen : len ≤ maxSize)
    (hmove : b.MovesDown len) : kCheapPrepend < b.peek := by
  obtain ⟨hroom, hmove⟩ := hmove
  have h₃ := h.writer_le
  have h₄ := h.length_le
  have h₂ := h.reader_le
  simp only [maxSize] at hlen h₄
  have hneed : MachineWord.addSize len kCheapPrepend = len + kCheapPrepend :=
    MachineWord.addSize_of_lt (by simp only [kCheapPrepend]; omega)
  rw [h.writableBytes_eq] at hroom hmove
  rw [hneed, prependableBytes, MachineWord.addSize_of_lt (by omega)] at hmove
  unfold peek
  omega

/-- A string of at most the readable bytes is copied from inside the vector. -/
lemma retrieveAsString_eq (h : b.WellFormed) {len : ℕ} (hlen : len ≤ b.readable.length) :
    b.retrieveAsString len = .ok (b.readable.take len, b.retrieve len) := by
  have h₂ := h.reader_le
  have h₃ := h.writer_le
  rw [h.length_readable] at hlen
  unfold retrieveAsString peek readable
  rw [if_pos (by omega), List.take_slice (by omega)]

/-- Taking out a string keeps the representation invariant. -/
lemma retrieveAsString_wellFormed (h : b.WellFormed) {len : ℕ} {result : List UInt8}
    {b' : Buffer} (hrun : b.retrieveAsString len = .ok (result, b')) : b'.WellFormed := by
  unfold retrieveAsString at hrun
  split at hrun
  · obtain ⟨-, rfl⟩ := Prod.mk.inj (Except.ok.inj hrun)
    exact retrieve_wellFormed h len
  · cases hrun

/-- Retrieving never moves the write index up. -/
lemma retrieve_writerIndex_le (h : b.WellFormed) (len : ℕ) :
    (b.retrieve len).writerIndex ≤ b.writerIndex := by
  unfold retrieve
  split
  · exact Nat.le_refl _
  · exact Nat.le_trans h.prepend_le h.reader_le

end Buffer

/-- The buffer holds the queue, and its write index is at most `limit`. -/
structure Holds (limit : ℕ) (s : BufferClient) (q : ByteQueue) : Prop where
  wellFormed : s.buffer.WellFormed
  readable_eq : s.buffer.readable = q.content
  strings_eq : s.strings = q.strings
  writer_le : s.buffer.writerIndex ≤ limit

section Step

variable {limit : ℕ} {s : BufferClient} {q q' : ByteQueue}

/-- The buffer that answers a call. -/
lemma step_eq_some {call : BufferCall} {b : Buffer} {strings : List (List UInt8)}
    (h : call.run s.buffer = .ok (b, strings)) :
    bufferSystem.step s call = some ⟨b, s.strings ++ strings⟩ := by
  simp [bufferSystem, h, Except.toOption]

/-- A call that adds bytes at the back. -/
lemma Holds.push (h : Holds limit s q) {call : BufferCall} {bytes : List UInt8} {b : Buffer}
    (hrun : call.run s.buffer = .ok (b, [])) (happended : s.buffer.Appended bytes b) :
    ∃ s', bufferSystem.step s call = some s' ∧ Holds (limit + bytes.length) s' (q.push bytes) := by
  refine ⟨_, step_eq_some hrun, happended.wellFormed, ?_, ?_, ?_⟩
  · rw [happended.readable_eq, h.readable_eq, ByteQueue.push]
  · rw [List.append_nil, h.strings_eq, ByteQueue.push]
  · exact Nat.le_trans happended.writer_le (Nat.add_le_add_right h.writer_le _)

/-- What is left behind a retrieval. -/
lemma Holds.pop (h : Holds limit s q) (len : ℕ) (strings : List (List UInt8)) :
    Holds limit ⟨s.buffer.retrieve len, s.strings ++ strings⟩
      { q.pop len with strings := q.strings ++ strings } where
  wellFormed := Buffer.retrieve_wellFormed h.wellFormed len
  readable_eq := by
    rw [Buffer.readable_retrieve h.wellFormed, h.readable_eq, ByteQueue.pop, ← List.drop_eq_drop_min]
  strings_eq := by rw [h.strings_eq]
  writer_le := Nat.le_trans (Buffer.retrieve_writerIndex_le h.wellFormed len) h.writer_le

/-- A call that takes out bytes as a string. -/
lemma Holds.take (h : Holds limit s q) {len : ℕ} (hlen : len ≤ q.content.length)
    {call : BufferCall}
    (hcall : call.run s.buffer = do
      let (result, b) ← s.buffer.retrieveAsString len
      return (b, [result])) :
    ∃ s', bufferSystem.step s call = some s' ∧ Holds limit s' (q.take len) := by
  have hlen' : len ≤ s.buffer.readable.length := by rwa [h.readable_eq]
  rw [Buffer.retrieveAsString_eq h.wellFormed hlen', h.readable_eq] at hcall
  exact ⟨_, step_eq_some hcall, h.pop len _⟩

/-- A call of the queue is a call of the buffer, as long as the vector can hold what is asked
for. -/
theorem Holds.step (h : Holds limit s q) {call : BufferCall}
    (hq : queueSystem.step q call = some q') (hlimit : limit + call.demand ≤ maxSize) :
    ∃ s', bufferSystem.step s call = some s' ∧ Holds (limit + call.demand) s' q' := by
  have hwf := h.wellFormed
  have hwriter := h.writer_le
  have hfits : ∀ n, limit + n ≤ maxSize → n < 2 ^ 63 ∧ ¬ s.buffer.Overflows n := by
    intro n hn
    refine ⟨by simp only [maxSize] at hn; omega, fun hover => ?_⟩
    have hmax := hover.2
    omega
  cases call with
  | append bytes =>
    obtain rfl := Option.some.inj hq
    obtain ⟨hlen, hok⟩ := hfits _ hlimit
    rcases Buffer.append_cases hwf hlen with ⟨-, b, hb, happended⟩ | ⟨hover, -⟩
    · exact h.push (by simp [BufferCall.run, hb]) happended
    · exact absurd hover hok
  | retrieve len =>
    obtain rfl := Option.some.inj hq
    refine ⟨_, step_eq_some rfl, ?_⟩
    have hpop := h.pop len []
    simp only [List.append_nil] at hpop ⊢
    exact hpop
  | retrieveAll =>
    obtain rfl := Option.some.inj hq
    refine ⟨_, step_eq_some rfl, Buffer.retrieveAll_wellFormed hwf, ?_, ?_, ?_⟩
    · simp [ByteQueue.pop]
    · rw [List.append_nil, h.strings_eq, ByteQueue.pop]
    · exact Nat.le_trans (Nat.le_trans hwf.prepend_le hwf.reader_le) hwriter
  | retrieveAllAsString =>
    obtain rfl := Option.some.inj hq
    refine h.take (Nat.le_refl _) ?_
    rw [← h.readable_eq, ← hwf.readableBytes_eq_length]
    rfl
  | retrieveAsString len =>
    obtain ⟨hlen, hq⟩ := Option.ite_none_right_eq_some.mp hq
    obtain rfl := Option.some.inj hq
    exact h.take hlen rfl
  | ensureWritableBytes len =>
    obtain rfl := Option.some.inj hq
    obtain ⟨hlen, hok⟩ := hfits len hlimit
    rcases Buffer.ensureWritableBytes_cases hwf (hwf.writer_add_lt hlen) with
      ⟨-, b, hb, hroomy⟩ | ⟨hover, -⟩
    · have hrun : (BufferCall.ensureWritableBytes len).run s.buffer = .ok (b, []) := by
        simp [BufferCall.run, hb]
      refine ⟨_, step_eq_some hrun, hroomy.wellFormed, ?_, ?_, ?_⟩
      · rw [hroomy.readable_eq, h.readable_eq]
      · rw [List.append_nil, h.strings_eq]
      · exact Nat.le_add_right_of_le (Nat.le_trans hroomy.writer_le hwriter)
    · exact absurd hover hok
  | readFd savedErrno r =>
    cases r with
    | read bytes =>
      obtain rfl := Option.some.inj hq
      obtain ⟨hlen, hok⟩ := hfits _ hlimit
      rcases Buffer.readFd_cases hwf hlen with ⟨-, b, hb, happended⟩ | ⟨hover, -⟩
      · exact h.push (by simp [BufferCall.run, Buffer.readFdFrom, hb]) happended
      · exact absurd hover hok
    | failed e =>
      obtain rfl := Option.some.inj hq
      refine ⟨_, step_eq_some rfl, hwf, h.readable_eq, ?_, hwriter⟩
      rw [List.append_nil, h.strings_eq]

/-- A run of the queue is a run of the buffer. -/
theorem Holds.run {calls : List BufferCall} (h : Holds limit s q)
    (hq : queueSystem.run q calls = some q')
    (hlimit : limit + BufferCall.demands calls ≤ maxSize) :
    ∃ s', bufferSystem.run s calls = some s' ∧
      Holds (limit + BufferCall.demands calls) s' q' := by
  induction calls generalizing limit s q with
  | nil =>
    obtain rfl := Option.some.inj hq
    exact ⟨s, rfl, h⟩
  | cons call calls ih =>
    have hsum : BufferCall.demands (call :: calls) = call.demand + BufferCall.demands calls := by
      simp [BufferCall.demands]
    rw [hsum, ← Nat.add_assoc] at hlimit ⊢
    rw [TransitionSystem.run_cons, Option.bind_eq_some_iff] at hq
    obtain ⟨q₁, hq₁, hq⟩ := hq
    obtain ⟨s₁, hs₁, h₁⟩ := h.step hq₁ (by omega)
    rw [TransitionSystem.run_cons, hs₁]
    exact ih h₁ hq hlimit

end Step

/-- A new buffer is an empty queue. -/
lemma holds_new : Holds kCheapPrepend ⟨.new, []⟩ ⟨[], []⟩ :=
  ⟨Buffer.wellFormed_new, Buffer.readable_new, rfl, Nat.le_refl _⟩

/-- A buffer is a byte queue: any calls the queue allows, which ask for no more bytes than a
vector can hold, all return; the indices are in order, the readable content and the strings
handed out are those of the queue, and a copy inside the vector would go to lower cells. -/
theorem buffer_isByteQueue (calls : List BufferCall) {q : ByteQueue}
    (hq : queueSystem.run ⟨[], []⟩ calls = some q)
    (hlimit : kCheapPrepend + BufferCall.demands calls ≤ maxSize) :
    ∃ s, bufferSystem.run ⟨.new, []⟩ calls = some s ∧ s.buffer.WellFormed ∧
      s.buffer.readable = q.content ∧ s.strings = q.strings ∧
      ∀ len ≤ maxSize, s.buffer.MovesDown len → kCheapPrepend < s.buffer.peek := by
  obtain ⟨s, hs, hholds⟩ := holds_new.run hq hlimit
  refine ⟨s, hs, hholds.wellFormed, hholds.readable_eq, hholds.strings_eq, ?_⟩
  intro len hlen hmove
  exact hmove.lt_peek hholds.wellFormed hlen

/-- Three bytes go in, one is dropped, and two leave as strings around a growth of the vector. -/
theorem buffer_isByteQueue_strings :
    ∃ s, bufferSystem.run ⟨.new, []⟩ [.append [1, 2, 3], .retrieve 1, .retrieveAsString 1,
      .ensureWritableBytes 2000, .retrieveAllAsString] = some s ∧ s.buffer.readable = [] ∧
      s.strings = [[2], [3]] := by
  have hq : queueSystem.run ⟨[], []⟩ [.append [1, 2, 3], .retrieve 1, .retrieveAsString 1,
      .ensureWritableBytes 2000, .retrieveAllAsString] = some ⟨[], [[2], [3]]⟩ := rfl
  obtain ⟨s, hs, -, hreadable, hstrings, -⟩ := buffer_isByteQueue _ hq (by decide)
  exact ⟨s, hs, hreadable, hstrings⟩

/-! ## Scatter reads -/

/-- Every call keeps the representation invariant, as long as the end of a room asked for has an
index. -/
lemma BufferCall.run_wellFormed {b b' : Buffer} (h : b.WellFormed) {call : BufferCall}
    (hroom : ∀ len, call = .ensureWritableBytes len → b.writerIndex + len < 2 ^ 64)
    (hread : ∀ savedErrno bytes, call = .readFd savedErrno (.read bytes) → bytes.length < 2 ^ 63)
    {strings : List (List UInt8)} (hrun : call.run b = .ok (b', strings)) : b'.WellFormed := by
  cases call with
  | append bytes =>
    obtain ⟨c, hc, hrun⟩ := Except.bind_eq_ok_iff.mp hrun
    obtain ⟨rfl, -⟩ := Prod.mk.inj (Except.ok.inj hrun)
    exact (Buffer.append_spec h hc).1
  | retrieve len =>
    obtain ⟨rfl, -⟩ := Prod.mk.inj (Except.ok.inj hrun)
    exact Buffer.retrieve_wellFormed h len
  | retrieveAll =>
    obtain ⟨rfl, -⟩ := Prod.mk.inj (Except.ok.inj hrun)
    exact Buffer.retrieveAll_wellFormed h
  | retrieveAllAsString =>
    obtain ⟨⟨result, c⟩, hc, hrun⟩ := Except.bind_eq_ok_iff.mp hrun
    obtain ⟨rfl, -⟩ := Prod.mk.inj (Except.ok.inj hrun)
    exact Buffer.retrieveAsString_wellFormed h hc
  | retrieveAsString len =>
    obtain ⟨⟨result, c⟩, hc, hrun⟩ := Except.bind_eq_ok_iff.mp hrun
    obtain ⟨rfl, -⟩ := Prod.mk.inj (Except.ok.inj hrun)
    exact Buffer.retrieveAsString_wellFormed h hc
  | ensureWritableBytes len =>
    obtain ⟨c, hc, hrun⟩ := Except.bind_eq_ok_iff.mp hrun
    obtain ⟨rfl, -⟩ := Prod.mk.inj (Except.ok.inj hrun)
    rcases Buffer.ensureWritableBytes_cases h (hroom len rfl) with ⟨-, d, hd, hroomy⟩ | ⟨-, hd⟩
    · obtain rfl := Except.ok.inj (hd.symm.trans hc)
      exact hroomy.wellFormed
    · cases hd.symm.trans hc
  | readFd savedErrno r =>
    obtain ⟨⟨c, n, e⟩, hc, hrun⟩ := Except.bind_eq_ok_iff.mp hrun
    obtain ⟨rfl, -⟩ := Prod.mk.inj (Except.ok.inj hrun)
    cases r with
    | read bytes =>
      obtain ⟨d, hd, hc⟩ := Except.bind_eq_ok_iff.mp hc
      obtain ⟨rfl, -⟩ := Prod.mk.inj (Except.ok.inj hc)
      rcases Buffer.readFd_cases h (hread _ _ rfl) with ⟨-, d', hd', happended⟩ | ⟨-, hd'⟩
      · obtain rfl := Except.ok.inj (hd'.symm.trans hd)
        exact happended.wellFormed
      · cases hd'.symm.trans hd
    | failed e =>
      obtain ⟨rfl, -⟩ := Prod.mk.inj (Except.ok.inj hc)
      exact h

/-- The buffer of every run is well formed, if no call asks for more bytes than a vector can
hold. -/
theorem buffer_wellFormed {s : BufferClient}
    (h : bufferSystem.ReachWhere (fun _ call => call.demand ≤ maxSize) s) :
    s.buffer.WellFormed := by
  refine h.invariant (I := fun s => s.buffer.WellFormed) ?_ ?_
  · rintro s rfl
    exact Buffer.wellFormed_new
  · intro s call s' hwf hdemand hs
    obtain ⟨⟨b, strings⟩, hrun, rfl⟩ := Option.map_eq_some_iff.mp hs
    have hlen : call.demand < 2 ^ 63 := by simp only [maxSize] at hdemand; omega
    refine BufferCall.run_wellFormed hwf ?_ ?_ (Except.toOption_eq_some_iff.mp hrun)
    · rintro len rfl
      exact hwf.writer_add_lt hlen
    · rintro savedErrno bytes rfl
      exact hlen

/-- A scatter read of as many bytes as the two blocks offer is an `append` of these bytes: both
add them at the back of the readable content, or both throw because the vector cannot grow that
much.  A failed read changes nothing and reports its error. -/
theorem readFd_eq_append {s : BufferClient}
    (h : bufferSystem.ReachWhere (fun _ call => call.demand ≤ maxSize) s) (savedErrno : Errno) :
    (∀ bytes : List UInt8, bytes.length ≤ s.buffer.readCapacity →
      (∃ b b', s.buffer.readFdFrom savedErrno (.read bytes) = .ok (b, bytes.length, savedErrno) ∧
        s.buffer.append bytes = .ok b' ∧ b.WellFormed ∧
        b.readable = s.buffer.readable ++ bytes ∧ b'.readable = b.readable) ∨
      (maxSize < s.buffer.writerIndex + bytes.length ∧
        s.buffer.readFdFrom savedErrno (.read bytes) = .error .lengthError ∧
        s.buffer.append bytes = .error .lengthError)) ∧
    ∀ e, s.buffer.readFdFrom savedErrno (.failed e) = .ok (s.buffer, -1, e) := by
  have hwf := buffer_wellFormed h
  refine ⟨fun bytes hcapacity => ?_, fun e => rfl⟩
  have hlen : bytes.length < 2 ^ 63 := Nat.lt_of_le_of_lt hcapacity hwf.readCapacity_lt
  rcases Buffer.append_cases hwf hlen with ⟨hfits, b', hb', happended⟩ | ⟨hover, happend⟩
  · rcases Buffer.readFd_cases hwf hlen with ⟨-, b, hb, hread⟩ | ⟨hover, -⟩
    · refine .inl ⟨b, b', ?_, hb', hread.wellFormed, hread.readable_eq, ?_⟩
      · rw [Buffer.readFdFrom, hb]
        rfl
      · rw [happended.readable_eq, hread.readable_eq]
    · exact absurd hover hfits
  · rcases Buffer.readFd_cases hwf hlen with ⟨hfits, -⟩ | ⟨-, hread⟩
    · exact absurd hover hfits
    · refine .inr ⟨hover.2, ?_, happend⟩
      rw [Buffer.readFdFrom, hread]
      rfl

/-- A thousand bytes have come in and nine hundred have left. -/
def partlyRead : List BufferCall := [.append (List.replicate 1000 1), .retrieve 900]

/-- A read finds room for 24 bytes behind the hundred that are left, and the stack block takes the
rest of it: more bytes than 24 make the content move down, and more than 924 make the vector
grow. -/
theorem readFd_eq_append_partlyRead :
    ∃ s, bufferSystem.ReachWhere (fun _ call => call.demand ≤ maxSize) s ∧
      s.buffer.writableBytes = 24 ∧ ∀ n ≤ 24 + extraSize, ∃ b,
        s.buffer.readFdFrom 0 (.read (List.replicate n 9)) = .ok (b, n, 0) ∧
        b.readable = List.replicate 100 1 ++ List.replicate n 9 := by
  obtain ⟨s, hs, hobserved⟩ := TransitionSystem.exists_reach_of_run
    (M := bufferSystem.restrict fun _ call => call.demand ≤ maxSize) (s := ⟨.new, []⟩)
    (v := (24, 1008, List.replicate 100 1)) partlyRead
    (fun s => (s.buffer.writableBytes, s.buffer.writerIndex, s.buffer.readable)) rfl
    (by decide +kernel)
  simp only [Prod.mk.injEq] at hobserved
  obtain ⟨hroom, hwriter, hcontent⟩ := hobserved
  have hreach := TransitionSystem.Reach.of_restrict hs
  refine ⟨s, hreach, hroom, fun n hn => ?_⟩
  have hcapacity : (List.replicate n (9 : UInt8)).length ≤ s.buffer.readCapacity := by
    rw [List.length_replicate, Buffer.readCapacity, hroom, if_pos (by decide)]
    exact hn
  rcases (readFd_eq_append hreach 0).1 _ hcapacity with ⟨b, b', hb, -, -, hread, -⟩ | ⟨hmax, -⟩
  · rw [List.length_replicate] at hb
    rw [hcontent] at hread
    exact ⟨b, hb, hread⟩
  · rw [hwriter, List.length_replicate, maxSize] at hmax
    simp only [extraSize] at hn
    omega

end HzhMuduo
