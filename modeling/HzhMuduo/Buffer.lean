import HzhMuduo.Foundation.Fallible
import HzhMuduo.Foundation.Window
import HzhMuduo.Kernel

/-!
# The byte buffer

`Buffer` is a vector of bytes with two indices; the bytes between them are the readable
content, the bytes after the second one are free.  The functions are those of `Buffer.h` and
`Buffer.cc`, with the index arithmetic of `size_t` and with the faults a call can end in.

`Buffer.WellFormed` is the representation invariant.  The specification of each function is
given once in terms of `Buffer.readable`: `retrieve` drops from the front, `append` adds at
the back, and making room changes nothing.
-/

namespace HzhMuduo

open MachineWord

/-- The bytes kept free in front of the readable content. -/
def kCheapPrepend : ℕ := 8

/-- The free space of a new buffer. -/
def kInitialSize : ℕ := 1024

/-- `max_size()` of a vector of bytes. -/
def maxSize : ℕ := 2 ^ 63 - 1

/-- The size of the stack block `readFd` offers the kernel besides the free space. -/
def extraSize : ℕ := 65536

structure Buffer where
  buffer : List UInt8
  readerIndex : ℕ
  writerIndex : ℕ
  deriving DecidableEq

namespace Buffer

/-- A new buffer; the constructor ignores its argument. -/
def new : Buffer where
  buffer := List.replicate (kCheapPrepend + kInitialSize) 0
  readerIndex := kCheapPrepend
  writerIndex := kCheapPrepend

def readableBytes (b : Buffer) : ℕ := subSize b.writerIndex b.readerIndex

def writableBytes (b : Buffer) : ℕ := subSize b.buffer.length b.writerIndex

def prependableBytes (b : Buffer) : ℕ := b.readerIndex

/-- The readable content. -/
def readable (b : Buffer) : List UInt8 := b.buffer.slice b.readerIndex b.writerIndex

def retrieveAll (b : Buffer) : Buffer :=
  { b with readerIndex := kCheapPrepend, writerIndex := kCheapPrepend }

def retrieve (b : Buffer) (len : ℕ) : Buffer :=
  if len < b.readableBytes then { b with readerIndex := addSize b.readerIndex len }
  else b.retrieveAll

/-- `peek()` as an index into the vector. -/
def peek (b : Buffer) : ℕ := b.readerIndex

/-- `retrieveAsString(len)`; the string is copied from the cells at `peek()` on. -/
def retrieveAsString (b : Buffer) (len : ℕ) : Except Fault (List UInt8 × Buffer) :=
  if b.peek + len ≤ b.buffer.length then
    .ok (b.buffer.slice b.peek (b.peek + len), b.retrieve len)
  else .error .outOfBounds

def retrieveAllAsString (b : Buffer) : Except Fault (List UInt8 × Buffer) :=
  b.retrieveAsString b.readableBytes

/-- `vector::resize`: new cells are zero, and a size above `max_size()` throws. -/
def resize (b : Buffer) (n : ℕ) : Except Fault Buffer :=
  if maxSize < n then .error .lengthError
  else .ok { b with buffer := b.buffer.take n ++ List.replicate (n - b.buffer.length) 0 }

/-- `std::copy` of `bytes` to the cells from `dst` on. -/
def copyTo (b : Buffer) (dst : ℕ) (bytes : List UInt8) : Except Fault Buffer :=
  if dst + bytes.length ≤ b.buffer.length then .ok { b with buffer := b.buffer.splice dst bytes }
  else .error .outOfBounds

def makeSpace (b : Buffer) (len : ℕ) : Except Fault Buffer :=
  if addSize b.writableBytes b.prependableBytes < addSize len kCheapPrepend then
    b.resize (addSize b.writerIndex len)
  else do
    let readable := b.readableBytes
    let b ← b.copyTo kCheapPrepend b.readable
    return { b with readerIndex := kCheapPrepend, writerIndex := addSize kCheapPrepend readable }

def ensureWritableBytes (b : Buffer) (len : ℕ) : Except Fault Buffer :=
  if b.writableBytes < len then b.makeSpace len else .ok b

/-- `append(data, len)`, given the `len` bytes at `data`. -/
def append (b : Buffer) (bytes : List UInt8) : Except Fault Buffer := do
  let b ← b.ensureWritableBytes bytes.length
  let b ← b.copyTo b.writerIndex bytes
  return { b with writerIndex := addSize b.writerIndex bytes.length }

/-- How many bytes `readFd` offers room for: the free space, and the stack block too when the
free space is smaller than it. -/
def readCapacity (b : Buffer) : ℕ :=
  if b.writableBytes < extraSize then b.writableBytes + extraSize else b.writableBytes

/-- `readFd` when the kernel read `bytes`, filling the free space first. -/
def readFd (b : Buffer) (bytes : List UInt8) : Except Fault Buffer :=
  let writeable := b.writableBytes
  if bytes.length ≤ writeable then do
    let b ← b.copyTo b.writerIndex bytes
    return { b with writerIndex := addSize b.writerIndex bytes.length }
  else do
    let b ← b.copyTo b.writerIndex (bytes.take writeable)
    append { b with writerIndex := b.buffer.length } (bytes.drop writeable)

/-- `readFd` with the answer of `::readv`; it returns the byte count or `-1`, and `*savedErrno`
after the call. -/
def readFdFrom (b : Buffer) (savedErrno : Errno) : ReadResult → Except Fault (Buffer × ℤ × Errno)
  | .read bytes => do
    let b ← b.readFd bytes
    return (b, bytes.length, savedErrno)
  | .failed e => .ok (b, -1, e)

/-! ## The representation invariant -/

/-- The indices are in order and inside the vector. -/
structure WellFormed (b : Buffer) : Prop where
  prepend_le : kCheapPrepend ≤ b.readerIndex
  reader_le : b.readerIndex ≤ b.writerIndex
  writer_le : b.writerIndex ≤ b.buffer.length
  length_le : b.buffer.length ≤ maxSize

/-- A new buffer is well formed. -/
theorem wellFormed_new : new.WellFormed where
  prepend_le := Nat.le_refl _
  reader_le := Nat.le_refl _
  writer_le := by rw [new, List.length_replicate]; exact Nat.le_add_right _ _
  length_le := by rw [new, List.length_replicate, maxSize, kCheapPrepend, kInitialSize]; omega

/-- A new buffer is empty. -/
@[simp] lemma readable_new : new.readable = [] :=
  List.slice_self _ _

variable {b b' : Buffer}

lemma WellFormed.readableBytes_eq (h : b.WellFormed) :
    b.readableBytes = b.writerIndex - b.readerIndex := by
  have := h.writer_le
  have := h.length_le
  exact subSize_of_le h.reader_le (by simp only [maxSize] at *; omega)

lemma WellFormed.writableBytes_eq (h : b.WellFormed) :
    b.writableBytes = b.buffer.length - b.writerIndex := by
  have := h.length_le
  exact subSize_of_le h.writer_le (by simp only [maxSize] at *; omega)

/-- The end of a room of moderate size has an index. -/
lemma WellFormed.writer_add_lt (h : b.WellFormed) {len : ℕ} (hlen : len < 2 ^ 63) :
    b.writerIndex + len < 2 ^ 64 := by
  have h₃ := h.writer_le
  have h₄ := h.length_le
  simp only [maxSize] at h₄
  omega

lemma WellFormed.length_readable (h : b.WellFormed) :
    b.readable.length = b.writerIndex - b.readerIndex :=
  List.length_slice h.writer_le

/-- `readableBytes()` is the length of the readable content. -/
lemma WellFormed.readableBytes_eq_length (h : b.WellFormed) :
    b.readableBytes = b.readable.length := by
  rw [h.readableBytes_eq, h.length_readable]

/-! ## Taking out -/

lemma retrieveAll_wellFormed (h : b.WellFormed) : b.retrieveAll.WellFormed where
  prepend_le := Nat.le_refl _
  reader_le := Nat.le_refl _
  writer_le := Nat.le_trans h.prepend_le (Nat.le_trans h.reader_le h.writer_le)
  length_le := h.length_le

@[simp] lemma readable_retrieveAll (b : Buffer) : b.retrieveAll.readable = [] := by
  simp [retrieveAll, readable]

/-- `retrieve` keeps the representation invariant. -/
theorem retrieve_wellFormed (h : b.WellFormed) (len : ℕ) : (b.retrieve len).WellFormed := by
  unfold retrieve
  split
  · next hlt =>
    rw [h.readableBytes_eq] at hlt
    have h₁ := h.prepend_le
    have h₂ := h.writer_le
    have h₃ := h.length_le
    have hadd : addSize b.readerIndex len = b.readerIndex + len :=
      addSize_of_lt (by simp only [maxSize] at h₃; omega)
    exact ⟨by simp only [hadd]; omega, by simp only [hadd]; omega, h₂, h₃⟩
  · exact retrieveAll_wellFormed h

/-- `retrieve len` drops `len` readable bytes, or all of them when there are fewer. -/
theorem readable_retrieve (h : b.WellFormed) (len : ℕ) :
    (b.retrieve len).readable = b.readable.drop len := by
  unfold retrieve
  split
  · next hlt =>
    rw [h.readableBytes_eq] at hlt
    have h₂ := h.writer_le
    have h₃ := h.length_le
    have hadd : addSize b.readerIndex len = b.readerIndex + len :=
      addSize_of_lt (by simp only [maxSize] at h₃; omega)
    simp only [readable, hadd, List.drop_slice]
  · next hge =>
    rw [readable_retrieveAll, List.drop_eq_nil_of_le]
    rw [← h.readableBytes_eq_length]
    omega

/-! ## Making room and putting in -/

lemma copyTo_eq_ok_iff {dst : ℕ} {bytes : List UInt8} :
    b.copyTo dst bytes = .ok b' ↔
      dst + bytes.length ≤ b.buffer.length ∧ b' = { b with buffer := b.buffer.splice dst bytes } := by
  unfold copyTo
  split
  · next hfit => simp [hfit, eq_comm]
  · next hfit => simp [hfit]

/-- What `ensureWritableBytes` leaves: a well-formed buffer with the same content and the room
asked for, its content not further back than before. -/
structure Roomy (b : Buffer) (len : ℕ) (b' : Buffer) : Prop where
  wellFormed : b'.WellFormed
  readable_eq : b'.readable = b.readable
  room : b'.writerIndex + len ≤ b'.buffer.length
  writer_le : b'.writerIndex ≤ b.writerIndex

/-- The vector would have to grow beyond its size limit to hold `len` more bytes. -/
def Overflows (b : Buffer) (len : ℕ) : Prop :=
  b.buffer.length - b.writerIndex + b.readerIndex < len + kCheapPrepend ∧
    maxSize < b.writerIndex + len

/-- An empty buffer has room for everything of moderate size. -/
lemma WellFormed.not_overflows (h : b.WellFormed) (hempty : b.readableBytes = 0) {len : ℕ}
    (hlen : len < 2 ^ 61) : ¬ b.Overflows len := by
  rintro ⟨hroom, hmax⟩
  have h₂ := h.reader_le
  have h₃ := h.writer_le
  rw [h.readableBytes_eq] at hempty
  simp only [maxSize, kCheapPrepend] at hroom hmax
  omega

/-- The readable bytes moved to the front of the vector. -/
def moveDown (b : Buffer) : Buffer where
  buffer := b.buffer.splice kCheapPrepend b.readable
  readerIndex := kCheapPrepend
  writerIndex := kCheapPrepend + b.readable.length

/-- The branch of `makeSpace` that moves the readable bytes. -/
lemma makeSpace_of_not_lt (h : b.WellFormed) {len : ℕ}
    (hroom : ¬ addSize b.writableBytes b.prependableBytes < addSize len kCheapPrepend) :
    b.makeSpace len = .ok b.moveDown := by
  have h₁ := h.prepend_le
  have h₂ := h.reader_le
  have h₃ := h.writer_le
  have h₄ := h.length_le
  have hread := h.length_readable
  simp only [maxSize, kCheapPrepend] at h₁ h₄
  have hend : addSize kCheapPrepend b.readableBytes = kCheapPrepend + b.readable.length := by
    rw [h.readableBytes_eq_length]
    exact addSize_of_lt (by simp only [kCheapPrepend]; omega)
  have hcopy : b.copyTo kCheapPrepend b.readable =
      .ok { b with buffer := b.buffer.splice kCheapPrepend b.readable } :=
    copyTo_eq_ok_iff.mpr ⟨by simp only [kCheapPrepend]; omega, rfl⟩
  unfold makeSpace
  rw [if_neg hroom, hcopy, Except.ok_bind, hend]
  rfl

/-- The free space at the two ends together. -/
lemma WellFormed.addSize_writable_prependable (h : b.WellFormed) :
    addSize b.writableBytes b.prependableBytes =
      b.buffer.length - b.writerIndex + b.readerIndex := by
  have h₂ := h.reader_le
  have h₃ := h.writer_le
  have h₄ := h.length_le
  simp only [maxSize] at h₄
  rw [h.writableBytes_eq, prependableBytes, addSize_of_lt (by omega)]

/-- `makeSpace` without the wrapping of the index arithmetic. -/
lemma makeSpace_eq (h : b.WellFormed) {len : ℕ} (hlen : b.writerIndex + len < 2 ^ 64) :
    b.makeSpace len =
      if b.buffer.length - b.writerIndex + b.readerIndex < len + kCheapPrepend then
        b.resize (b.writerIndex + len)
      else .ok b.moveDown := by
  have h₁ := h.prepend_le
  have h₂ := h.reader_le
  simp only [kCheapPrepend] at h₁
  have hneed : addSize len kCheapPrepend = len + kCheapPrepend :=
    addSize_of_lt (by simp only [kCheapPrepend]; omega)
  have htest := h.addSize_writable_prependable
  split
  · next hshort =>
    rw [← htest, ← hneed] at hshort
    rw [makeSpace, if_pos hshort, addSize_of_lt hlen]
  · next hroom =>
    rw [← htest, ← hneed] at hroom
    exact makeSpace_of_not_lt h hroom

/-- Growing the vector gives the room asked for. -/
lemma resize_roomy (h : b.WellFormed) {len : ℕ} (hlen : b.buffer.length < b.writerIndex + len)
    (hr : b.resize (b.writerIndex + len) = .ok b') : Roomy b len b' := by
  unfold resize at hr
  split at hr
  · cases hr
  · next hmax =>
    obtain rfl := Except.ok.inj hr
    have hsize : (b.buffer.take (b.writerIndex + len) ++
        List.replicate (b.writerIndex + len - b.buffer.length) 0).length = b.writerIndex + len := by
      simp only [List.length_append, List.length_take, List.length_replicate]
      omega
    refine ⟨⟨h.prepend_le, h.reader_le, ?_, ?_⟩, ?_, ?_, Nat.le_refl _⟩
    · simp only [hsize]; omega
    · simp only [hsize]; omega
    · simp only [readable]
      rw [List.take_of_length_le (by omega), List.slice_append h.writer_le]
    · simp only [hsize]; omega

/-- Moving the readable bytes down gives the room asked for, when there is that much free space
at the two ends together. -/
lemma moveDown_roomy (h : b.WellFormed) {len : ℕ}
    (hroom : len + kCheapPrepend ≤ b.buffer.length - b.writerIndex + b.readerIndex) :
    Roomy b len b.moveDown := by
  have h₁ := h.prepend_le
  have h₂ := h.reader_le
  have h₃ := h.writer_le
  have h₄ := h.length_le
  have hread := h.length_readable
  have hsize : b.moveDown.buffer.length = b.buffer.length :=
    List.length_splice (by omega)
  have hwriter : b.moveDown.writerIndex = kCheapPrepend + b.readable.length := rfl
  refine ⟨⟨Nat.le_refl _, Nat.le_add_right _ _, ?_, ?_⟩, ?_, ?_, ?_⟩
  · omega
  · omega
  · exact List.slice_splice_self (by omega)
  · omega
  · omega

/-- `ensureWritableBytes` makes the room asked for, or throws because the vector cannot grow
that much, as long as the end of that room has an index. -/
theorem ensureWritableBytes_cases (h : b.WellFormed) {len : ℕ}
    (hlen : b.writerIndex + len < 2 ^ 64) :
    (¬ b.Overflows len ∧ ∃ b', b.ensureWritableBytes len = .ok b' ∧ Roomy b len b') ∨
    (b.Overflows len ∧ b.ensureWritableBytes len = .error .lengthError) := by
  have h₃ := h.writer_le
  have h₄ := h.length_le
  unfold ensureWritableBytes Overflows
  rw [h.writableBytes_eq, makeSpace_eq h hlen]
  split
  · split
    · next hgrow =>
      by_cases hmax : maxSize < b.writerIndex + len
      · refine .inr ⟨⟨hgrow, hmax⟩, ?_⟩
        rw [resize, if_pos hmax]
      · have hok : b.resize (b.writerIndex + len) = .ok _ := if_neg hmax
        exact .inl ⟨fun hover => hmax hover.2, _, hok, resize_roomy h (by omega) hok⟩
    · next hmove =>
      exact .inl ⟨fun hover => hmove hover.1, _, rfl, moveDown_roomy h (Nat.le_of_not_lt hmove)⟩
  · exact .inl ⟨by omega, b, rfl, ⟨h, rfl, by omega, Nat.le_refl _⟩⟩

/-- What `append` leaves: the bytes are added at the back of the readable content. -/
structure Appended (b : Buffer) (bytes : List UInt8) (b' : Buffer) : Prop where
  wellFormed : b'.WellFormed
  readable_eq : b'.readable = b.readable ++ bytes
  writer_le : b'.writerIndex ≤ b.writerIndex + bytes.length

/-- Storing bytes in the free space and moving the write index behind them. -/
lemma store_appended (h : b.WellFormed) {bytes : List UInt8}
    (hroom : b.writerIndex + bytes.length ≤ b.buffer.length) :
    Appended b bytes { b with
      buffer := b.buffer.splice b.writerIndex bytes
      writerIndex := b.writerIndex + bytes.length } := by
  have hsize := List.length_splice hroom
  refine ⟨⟨h.prepend_le, Nat.le_add_right_of_le h.reader_le, ?_, ?_⟩, ?_, Nat.le_refl _⟩
  · rw [hsize]
    exact hroom
  · rw [hsize]
    exact h.length_le
  · simp only [readable]
    rw [← List.slice_append_slice h.reader_le (Nat.le_add_right _ _),
      List.slice_splice_of_le (Nat.le_refl _) h.writer_le, List.slice_splice_self h.writer_le]

/-- `append` adds the bytes at the back, or throws because the vector cannot grow that much. -/
theorem append_cases (h : b.WellFormed) {bytes : List UInt8} (hlen : bytes.length < 2 ^ 63) :
    (¬ b.Overflows bytes.length ∧ ∃ b', b.append bytes = .ok b' ∧ Appended b bytes b') ∨
    (b.Overflows bytes.length ∧ b.append bytes = .error .lengthError) := by
  rcases ensureWritableBytes_cases h (h.writer_add_lt hlen) with
    ⟨hfits, c, hc, hroomy⟩ | ⟨hover, hc⟩
  · obtain ⟨hwf, hread, hroom, hwriter⟩ := hroomy
    have hcopy : c.copyTo c.writerIndex bytes =
        .ok { c with buffer := c.buffer.splice c.writerIndex bytes } :=
      copyTo_eq_ok_iff.mpr ⟨hroom, rfl⟩
    have h₄ := hwf.length_le
    have hadd : addSize c.writerIndex bytes.length = c.writerIndex + bytes.length :=
      addSize_of_lt (by simp only [maxSize] at h₄; omega)
    obtain ⟨hwf', hread', -⟩ := store_appended hwf hroom
    refine .inl ⟨hfits, _, ?_, hwf', by rw [hread', hread], Nat.add_le_add_right hwriter _⟩
    rw [append, hc, Except.ok_bind, hcopy, Except.ok_bind]
    simp only [hadd]
    rfl
  · refine .inr ⟨hover, ?_⟩
    rw [append, hc, Except.error_bind]

/-- A copy never goes beyond the vector. -/
lemma length_of_copyTo {dst : ℕ} {bytes : List UInt8} (h : b.copyTo dst bytes = .ok b') :
    bytes.length ≤ b.buffer.length ∧ b'.buffer.length = b.buffer.length := by
  obtain ⟨hfit, rfl⟩ := copyTo_eq_ok_iff.mp h
  exact ⟨by omega, List.length_splice hfit⟩

/-- Making room leaves a vector that is not too long, whatever it is asked for. -/
lemma length_of_ensureWritableBytes (h : b.buffer.length ≤ maxSize) {len : ℕ}
    (he : b.ensureWritableBytes len = .ok b') : b'.buffer.length ≤ maxSize := by
  unfold ensureWritableBytes makeSpace at he
  split at he
  · split at he
    · unfold resize at he
      split at he
      · cases he
      · next hmax =>
        obtain rfl := Except.ok.inj he
        simp only [List.length_append, List.length_take, List.length_replicate]
        omega
    · obtain ⟨c, hc, he⟩ := Except.bind_eq_ok_iff.mp he
      obtain rfl := Except.ok.inj he
      rw [← (length_of_copyTo hc).2] at h
      exact h
  · obtain rfl := Except.ok.inj he
    exact h

/-- Only bytes that fit into a vector can be appended. -/
lemma length_of_append (h : b.buffer.length ≤ maxSize) {bytes : List UInt8}
    (ha : b.append bytes = .ok b') : bytes.length ≤ maxSize := by
  obtain ⟨c, hc, ha⟩ := Except.bind_eq_ok_iff.mp ha
  obtain ⟨d, hd, -⟩ := Except.bind_eq_ok_iff.mp ha
  exact Nat.le_trans (length_of_copyTo hd).1 (length_of_ensureWritableBytes h hc)

/-- `append` adds the bytes at the back of the readable content and keeps the representation
invariant. -/
theorem append_spec (h : b.WellFormed) {bytes : List UInt8} (ha : b.append bytes = .ok b') :
    b'.WellFormed ∧ b'.readable = b.readable ++ bytes := by
  have hlen : bytes.length < 2 ^ 63 := Nat.lt_succ_of_le (length_of_append h.length_le ha)
  rcases append_cases h hlen with ⟨-, c, hc, happended⟩ | ⟨-, hc⟩
  · obtain rfl := Except.ok.inj (hc.symm.trans ha)
    exact ⟨happended.wellFormed, happended.readable_eq⟩
  · cases hc.symm.trans ha

/-- What `readFd` offers the kernel is less than a vector can hold. -/
lemma WellFormed.readCapacity_lt (h : b.WellFormed) : b.readCapacity < 2 ^ 63 := by
  have h₁ := h.prepend_le
  have h₂ := h.reader_le
  have h₄ := h.length_le
  have h₃ := h.writer_le
  unfold readCapacity
  rw [h.writableBytes_eq]
  simp only [maxSize, kCheapPrepend] at h₁ h₄
  split
  · next hsmall =>
    simp only [extraSize] at hsmall ⊢
    omega
  · omega

/-- The buffer with its free space filled by `bytes`. -/
def fill (b : Buffer) (bytes : List UInt8) : Buffer where
  buffer := b.buffer.splice b.writerIndex bytes
  readerIndex := b.readerIndex
  writerIndex := b.buffer.length

/-- Filling the free space first does not change whether the vector has to grow too much. -/
lemma overflows_fill (h : b.WellFormed) {bytes : List UInt8} {n : ℕ}
    (hfull : b.writerIndex + bytes.length = b.buffer.length) (hn : bytes.length ≤ n) :
    (b.fill bytes).Overflows (n - bytes.length) ↔ b.Overflows n := by
  have h₃ := h.writer_le
  have hsize : (b.fill bytes).buffer.length = b.buffer.length :=
    List.length_splice (Nat.le_of_eq hfull)
  have hwriter : (b.fill bytes).writerIndex = b.buffer.length := rfl
  have hreader : (b.fill bytes).readerIndex = b.readerIndex := rfl
  unfold Overflows
  rw [hsize, hwriter, hreader]
  constructor
  · rintro ⟨hroom, hmax⟩
    exact ⟨by omega, by omega⟩
  · rintro ⟨hroom, hmax⟩
    exact ⟨by omega, by omega⟩

/-- Filling the free space adds the bytes at the back. -/
lemma fill_appended (h : b.WellFormed) {bytes : List UInt8}
    (hfull : b.writerIndex + bytes.length = b.buffer.length) :
    Appended b bytes (b.fill bytes) := by
  have hstore := store_appended h (Nat.le_of_eq hfull)
  rw [hfull] at hstore
  exact hstore

/-- `readFd` stores what the kernel read as `append` would, and throws exactly when `append`
would. -/
theorem readFd_cases (h : b.WellFormed) {bytes : List UInt8} (hlen : bytes.length < 2 ^ 63) :
    (¬ b.Overflows bytes.length ∧ ∃ b', b.readFd bytes = .ok b' ∧ Appended b bytes b') ∨
    (b.Overflows bytes.length ∧ b.readFd bytes = .error .lengthError) := by
  have h₃ := h.writer_le
  have h₄ := h.length_le
  unfold readFd
  dsimp only
  rw [h.writableBytes_eq]
  split
  · next hfits =>
    have hroom : b.writerIndex + bytes.length ≤ b.buffer.length := by omega
    have hcopy : b.copyTo b.writerIndex bytes =
        .ok { b with buffer := b.buffer.splice b.writerIndex bytes } :=
      copyTo_eq_ok_iff.mpr ⟨hroom, rfl⟩
    have hadd : addSize b.writerIndex bytes.length = b.writerIndex + bytes.length :=
      addSize_of_lt (by simp only [maxSize] at h₄; omega)
    refine .inl ⟨fun hover => ?_, _, ?_, store_appended h hroom⟩
    · have hmax := hover.2
      omega
    · rw [hcopy, Except.ok_bind]
      simp only [hadd]
      rfl
  · next hrest =>
    -- the free space is filled up, and the rest goes through `append`
    obtain ⟨first, hfirst⟩ : ∃ first, bytes.take (b.buffer.length - b.writerIndex) = first :=
      ⟨_, rfl⟩
    obtain ⟨rest, hdrop⟩ : ∃ rest, bytes.drop (b.buffer.length - b.writerIndex) = rest := ⟨_, rfl⟩
    have hsplit : first ++ rest = bytes := by rw [← hfirst, ← hdrop, List.take_append_drop]
    have hlength : first.length + rest.length = bytes.length := by
      rw [← hsplit, List.length_append]
    have hfull : b.writerIndex + first.length = b.buffer.length := by
      rw [← hfirst, List.length_take]
      omega
    have hcopy : b.copyTo b.writerIndex first =
        .ok { b with buffer := b.buffer.splice b.writerIndex first } :=
      copyTo_eq_ok_iff.mpr ⟨Nat.le_of_eq hfull, rfl⟩
    have hsize := List.length_splice (Nat.le_of_eq hfull)
    obtain ⟨hwf, hread, -⟩ := fill_appended h hfull
    have hover : (b.fill first).Overflows rest.length ↔ b.Overflows bytes.length := by
      rw [← overflows_fill h hfull (by omega), ← hlength, Nat.add_sub_cancel_left]
    rw [hfirst, hdrop, hcopy, Except.ok_bind, ← hover]
    dsimp only
    rw [hsize]
    rcases append_cases hwf (by omega : rest.length < 2 ^ 63) with
      ⟨hfits, b', hb', happended⟩ | ⟨hoverflow, herror⟩
    · refine .inl ⟨hfits, b', hb', happended.wellFormed, ?_, ?_⟩
      · rw [happended.readable_eq, hread, List.append_assoc, hsplit]
      · have hwriter : b'.writerIndex ≤ b.buffer.length + rest.length := happended.writer_le
        omega
    · exact .inr ⟨hoverflow, herror⟩

end Buffer

end HzhMuduo
