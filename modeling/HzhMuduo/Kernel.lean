import HzhMuduo.Foundation.MachineWord

/-!
# What the library sees of the kernel and of memory

File descriptors, error numbers, event masks, the possible results of `::write` and
`::readv`, the bytes behind a pointer, and the ways in which a call of the library can end
without returning.
-/

namespace HzhMuduo

/-- A file descriptor returned by the kernel. -/
abbrev Fd := ℕ

/-- A value of `errno`. -/
abbrev Errno := ℕ

/-- The operation would block; the same number as `EAGAIN`. -/
def EWOULDBLOCK : Errno := 11

/-- The peer closed the connection. -/
def EPIPE : Errno := 32

/-- The connection was reset. -/
def ECONNRESET : Errno := 104

/-- A set of epoll events, the `int` of `events_` and `revents_`. -/
abbrev EventMask := BitVec 32

def EPOLLIN : EventMask := 0x001
def EPOLLPRI : EventMask := 0x002
def EPOLLOUT : EventMask := 0x004
def EPOLLERR : EventMask := 0x008
def EPOLLHUP : EventMask := 0x010

/-- `mask & flags` is not zero. -/
def EventMask.has (mask flags : EventMask) : Bool := mask &&& flags != 0

/-- How a call can end without returning: `std::length_error` out of `vector::resize`, a copy
outside the storage of a vector, and the `exit(-1)` of `LOG_FATAL`. -/
inductive Fault
  | lengthError
  | outOfBounds
  | fatal
  deriving DecidableEq, Repr

/-- The peer has closed or reset the connection. -/
def Errno.isGone (e : Errno) : Bool := e == EPIPE || e == ECONNRESET

/-- The result of `::write`: a byte count, or `-1` with an `errno`.  `logged` is the `errno` that
is found behind the `LOG_ERROR` that reports the failure, whose calls may have set it anew. -/
inductive WriteResult
  | wrote (n : ℕ)
  | failed (e logged : Errno)
  deriving DecidableEq

/-- The number of bytes the kernel took. -/
def WriteResult.taken : WriteResult → ℕ
  | .wrote n => n
  | .failed _ _ => 0

@[simp] lemma WriteResult.taken_wrote (n : ℕ) : (WriteResult.wrote n).taken = n := rfl

/-- `::write` reports that the peer is gone. -/
def WriteResult.reportsGone : WriteResult → Bool
  | .wrote _ => false
  | .failed e _ => e.isGone

/-- `faultError` of `sendInLoop`.  The test for `EPIPE` and `ECONNRESET` stands behind the
`LOG_ERROR`, so it is the `errno` found there that decides. -/
def WriteResult.isFault : WriteResult → Bool
  | .wrote _ => false
  | .failed e logged => e != EWOULDBLOCK && logged.isGone

/-- The logging of a failed `::write` leaves an `errno` of the same kind. -/
def WriteResult.ErrnoKept : WriteResult → Prop
  | .wrote _ => True
  | .failed e logged => e ≠ EWOULDBLOCK → logged.isGone = e.isGone

instance (w : WriteResult) : Decidable w.ErrnoKept := by
  unfold WriteResult.ErrnoKept
  split <;> infer_instance

/-- Then, and only then, `faultError` says what `::write` has reported. -/
lemma WriteResult.errnoKept_iff (w : WriteResult) : w.ErrnoKept ↔ w.isFault = w.reportsGone := by
  cases w with
  | wrote n => exact iff_of_true trivial rfl
  | failed e logged =>
    by_cases hblock : e = EWOULDBLOCK
    · subst hblock
      exact iff_of_true (fun hne => absurd rfl hne) rfl
    · have htest : (e != EWOULDBLOCK) = true := bne_iff_ne.mpr hblock
      simp [ErrnoKept, isFault, reportsGone, hblock, htest]

/-- The result of `::readv`: the bytes read, none of them at end of file, or `-1` with an
`errno`. -/
inductive ReadResult
  | read (bytes : List UInt8)
  | failed (e : Errno)
  deriving DecidableEq

/-- The bytes at a pointer and after it. -/
abbrev Memory := ℕ → UInt8

/-- The `n` bytes from offset `off` on. -/
def Memory.bytes (p : Memory) (off n : ℕ) : List UInt8 :=
  (List.range n).map fun i => p (off + i)

/-- The storage of a string as `c_str()` gives it, closed by a null byte. -/
def Memory.ofString (m : List UInt8) : Memory := fun i => m.getD i 0

@[simp] lemma Memory.length_bytes (p : Memory) (off n : ℕ) : (p.bytes off n).length = n := by
  simp [Memory.bytes]

/-- Two adjacent stretches of memory make one. -/
lemma Memory.bytes_append (p : Memory) (a b : ℕ) :
    p.bytes 0 a ++ p.bytes a b = p.bytes 0 (a + b) := by
  simp [Memory.bytes, List.range_add]

/-- A pointer and a length read a string back. -/
lemma Memory.bytes_ofString (m : List UInt8) : (Memory.ofString m).bytes 0 m.length = m := by
  apply List.ext_getElem
  · simp [Memory.bytes]
  · intro i h₁ h₂
    simp [Memory.bytes, Memory.ofString, h₂]

end HzhMuduo
