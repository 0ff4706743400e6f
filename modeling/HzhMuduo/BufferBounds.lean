import HzhMuduo.ByteQueue

/-!
# The buffer at its bounds

Two functions of `Buffer` trust the length they are given.

`makeSpace` adds the length to a constant and to the write index without a look at the result.
Where the end of the room asked for has no index (`2 ^ 64 ≤ writerIndex + len`), one of the sums
wraps: either the test finds room enough and the readable bytes are only moved down, or `resize`
cuts the vector below the write index.  In all other cases the room is made or the vector throws
(`ensures_iff`).

`retrieveAsString` copies as many bytes as it is told, where `retrieve` takes at most the
readable ones.  The string depends on the readable content alone exactly if it is not longer
than that (`readableOnly_iff`); a longer one shows what earlier messages left behind the write
index, or leaves the vector.
-/

namespace HzhMuduo

open MachineWord

/-- What the calls of a run rely on: the end of a room asked for has an index, and the kernel
fills no more than it was offered. -/
def BufferCall.Fits (b : Buffer) : BufferCall → Prop
  | ensureWritableBytes len => b.writerIndex + len < 2 ^ 64
  | readFd _ (.read bytes) => bytes.length ≤ b.readCapacity
  | _ => True

instance (b : Buffer) : (call : BufferCall) → Decidable (call.Fits b)
  | .ensureWritableBytes _ => inferInstanceAs (Decidable (_ < _))
  | .readFd _ (.read _) => inferInstanceAs (Decidable (_ ≤ _))
  | .readFd _ (.failed _) | .append _ | .retrieve _ | .retrieveAll | .retrieveAllAsString
  | .retrieveAsString _ => inferInstanceAs (Decidable True)

/-- The runs all of whose calls fit. -/
def FittingReach (s : BufferClient) : Prop :=
  bufferSystem.ReachWhere (fun s call => call.Fits s.buffer) s

/-- The buffer of such a run is well formed. -/
theorem FittingReach.wellFormed {s : BufferClient} (h : FittingReach s) : s.buffer.WellFormed := by
  refine h.invariant (I := fun s => s.buffer.WellFormed) ?_ ?_
  · rintro s rfl
    exact Buffer.wellFormed_new
  · intro s call s' hwf hfits hs
    obtain ⟨⟨b, strings⟩, hrun, rfl⟩ := Option.map_eq_some_iff.mp hs
    refine BufferCall.run_wellFormed hwf ?_ ?_ (Except.toOption_eq_some_iff.mp hrun)
    · rintro len rfl
      exact hfits
    · rintro savedErrno bytes rfl
      exact Nat.lt_of_le_of_lt hfits hwf.readCapacity_lt

/-! ## Making room -/

namespace Buffer

variable {b b' : Buffer} {len : ℕ}

/-- What `ensureWritableBytes(len)` is for.  It throws before it assigns anything, or it returns
with the room asked for, the readable content as it was and the indices in order. -/
def Ensures (b : Buffer) (len : ℕ) : Prop :=
  b.ensureWritableBytes len = .error .lengthError ∨
  ∃ b', b.ensureWritableBytes len = .ok b' ∧ len ≤ b'.writableBytes ∧
    b'.readable = b.readable ∧ kCheapPrepend ≤ b'.readerIndex ∧
    b'.readerIndex ≤ b'.writerIndex ∧ b'.writerIndex ≤ b'.buffer.length

/-- Where the end of the room has an index nothing wraps. -/
lemma ensures_of_lt (h : b.WellFormed) (hlen : b.writerIndex + len < 2 ^ 64) : b.Ensures len := by
  rcases ensureWritableBytes_cases h hlen with ⟨-, b', hb', hwf, hread, hroom, -⟩ | ⟨-, hthrow⟩
  · refine .inr ⟨b', hb', ?_, hread, hwf.prepend_le, hwf.reader_le, hwf.writer_le⟩
    rw [hwf.writableBytes_eq]
    omega
  · exact .inl hthrow

/-- Moving down needs no room at all. -/
lemma moveDown_wellFormed (h : b.WellFormed) : b.moveDown.WellFormed := by
  have h₁ := h.prepend_le
  exact (moveDown_roomy h (by omega : 0 + kCheapPrepend ≤ _)).wellFormed

/-- Where the end of the room has no index, a length near `2 ^ 64` passes for a small one and the
readable bytes are only moved down; any other length is taken for the new size of the vector
less `2 ^ 64`, which is below the write index. -/
lemma ensureWritableBytes_of_le (h : b.WellFormed) (hlen : len < 2 ^ 64)
    (hwrap : 2 ^ 64 ≤ b.writerIndex + len) :
    b.ensureWritableBytes len = .ok b.moveDown ∨
    ∃ b', b.ensureWritableBytes len = .ok b' ∧ b'.buffer.length < b'.writerIndex := by
  have h₁ := h.prepend_le
  have h₂ := h.reader_le
  have h₃ := h.writer_le
  have h₄ := h.length_le
  simp only [maxSize, kCheapPrepend] at h₁ h₄
  have htest := h.addSize_writable_prependable
  have hshort : b.writableBytes < len := by
    rw [h.writableBytes_eq]
    omega
  unfold ensureWritableBytes
  rw [if_pos hshort]
  by_cases hneed : 2 ^ 64 ≤ len + kCheapPrepend
  · refine .inl (makeSpace_of_not_lt h ?_)
    rw [htest]
    simp only [addSize, kCheapPrepend] at hneed ⊢
    omega
  · refine .inr ⟨{ b with buffer := b.buffer.take (b.writerIndex + len - 2 ^ 64) }, ?_, ?_⟩
    · have hsize : addSize b.writerIndex len = b.writerIndex + len - 2 ^ 64 := by
        unfold addSize
        omega
      have hgrow : addSize b.writableBytes b.prependableBytes < addSize len kCheapPrepend := by
        rw [htest]
        simp only [addSize, kCheapPrepend] at hneed ⊢
        omega
      have hnone : b.writerIndex + len - 2 ^ 64 - b.buffer.length = 0 := by omega
      rw [makeSpace, if_pos hgrow, hsize, resize, if_neg (by simp only [maxSize]; omega), hnone,
        List.replicate_zero, List.append_nil]
    · simp only [List.length_take]
      omega

/-- Then either the room is not there or the indices have left the vector. -/
lemma not_ensures_of_le (h : b.WellFormed) (hlen : len < 2 ^ 64)
    (hwrap : 2 ^ 64 ≤ b.writerIndex + len) : ¬ b.Ensures len := by
  rintro (hthrow | ⟨b', hb', hroom, -, -, -, hwriter⟩)
  · rcases ensureWritableBytes_of_le h hlen hwrap with hok | ⟨c, hok, -⟩
    · cases hok.symm.trans hthrow
    · cases hok.symm.trans hthrow
  · rcases ensureWritableBytes_of_le h hlen hwrap with hok | ⟨c, hok, hcut⟩
    · obtain rfl := Except.ok.inj (hok.symm.trans hb')
      have hwf := moveDown_wellFormed h
      have h₃ := h.writer_le
      have h₄ := h.length_le
      have hmax := hwf.length_le
      rw [hwf.writableBytes_eq] at hroom
      simp only [maxSize] at h₄ hmax
      omega
    · obtain rfl := Except.ok.inj (hok.symm.trans hb')
      omega

/-- `append` then copies to cells outside the vector. -/
theorem append_of_le (h : b.WellFormed) {bytes : List UInt8} (hlen : bytes.length < 2 ^ 64)
    (hwrap : 2 ^ 64 ≤ b.writerIndex + bytes.length) : b.append bytes = .error .outOfBounds := by
  have hcopy : ∀ c : Buffer, c.buffer.length < c.writerIndex + bytes.length →
      c.copyTo c.writerIndex bytes = .error .outOfBounds :=
    fun c hc => if_neg (Nat.not_le_of_lt hc)
  rcases ensureWritableBytes_of_le h hlen hwrap with hok | ⟨c, hok, hcut⟩
  · have hmax := (moveDown_wellFormed h).length_le
    have h₃ := h.writer_le
    have h₄ := h.length_le
    simp only [maxSize] at h₄ hmax
    rw [append, hok, Except.ok_bind, hcopy _ (by omega), Except.error_bind]
  · rw [append, hok, Except.ok_bind, hcopy c (by omega), Except.error_bind]

end Buffer

/-- In the runs whose calls fit, `ensureWritableBytes` does what it is for exactly if the end of
the room asked for has an index. -/
theorem ensures_iff {s : BufferClient} (h : FittingReach s) {len : ℕ} (hlen : len < 2 ^ 64) :
    s.buffer.Ensures len ↔ s.buffer.writerIndex + len < 2 ^ 64 := by
  have hwf := h.wellFormed
  constructor
  · intro hensures
    by_contra hwrap
    exact Buffer.not_ensures_of_le hwf hlen (Nat.le_of_not_lt hwrap) hensures
  · exact Buffer.ensures_of_lt hwf

/-- A new buffer makes room for 2000 bytes. -/
theorem ensures_new : Buffer.new.Ensures 2000 :=
  (ensures_iff (s := ⟨.new, []⟩) (.init rfl) (by decide)).mpr (by decide)

/-- Asked for `2 ^ 64 - 1` bytes, a new buffer returns with the room it had. -/
theorem not_ensures_new : FittingReach ⟨.new, []⟩ ∧ ¬ Buffer.new.Ensures (2 ^ 64 - 1) :=
  ⟨.init rfl, Buffer.not_ensures_of_le Buffer.wellFormed_new (by decide) (by decide)⟩

/-! ## Taking out -/

/-- Every buffer of a run with this readable content hands out its first `len` bytes, or all of
them when there are fewer, and keeps the others.  So nothing but the readable content can be
learnt from the string. -/
def ReadableOnly (content : List UInt8) (len : ℕ) : Prop :=
  ∀ s, FittingReach s → s.buffer.readable = content →
    ∃ b, s.buffer.retrieveAsString len = .ok (content.take len, b) ∧ b.readable = content.drop len

/-- A string is as long as was asked for. -/
lemma Buffer.length_of_retrieveAsString {b b' : Buffer} {len : ℕ} {result : List UInt8}
    (h : b.retrieveAsString len = .ok (result, b')) : result.length = len := by
  unfold retrieveAsString at h
  split at h
  · next hfits =>
    obtain ⟨rfl, -⟩ := Prod.mk.inj (Except.ok.inj h)
    rw [List.length_slice hfits]
    omega
  · cases h

/-- What a run hands out and keeps depends on the readable content alone exactly if no more is
asked for than that. -/
theorem readableOnly_iff {s : BufferClient} (h : FittingReach s) (len : ℕ) :
    ReadableOnly s.buffer.readable len ↔ len ≤ s.buffer.readableBytes := by
  rw [h.wellFormed.readableBytes_eq_length]
  constructor
  · intro honly
    obtain ⟨b, hb, -⟩ := honly s h rfl
    have hlength := Buffer.length_of_retrieveAsString hb
    rw [List.length_take] at hlength
    omega
  · intro hlen s₂ h₂ hcontent
    have hwf₂ := h₂.wellFormed
    rw [← hcontent] at hlen ⊢
    exact ⟨_, Buffer.retrieveAsString_eq hwf₂ hlen, Buffer.readable_retrieve hwf₂ len⟩

/-- A run through calls that fit, with an observation at its end. -/
lemma exists_fittingReach {γ : Type*} (calls : List BufferCall) (f : BufferClient → γ) {v : γ}
    (hrun : ((bufferSystem.restrict fun s call => call.Fits s.buffer).run ⟨.new, []⟩ calls).map f =
      some v) : ∃ s, FittingReach s ∧ f s = v := by
  obtain ⟨s, hs, hv⟩ := TransitionSystem.exists_reach_of_run
    (M := bufferSystem.restrict fun s call => call.Fits s.buffer) calls f rfl hrun
  exact ⟨s, TransitionSystem.Reach.of_restrict hs, hv⟩

/-- Two of three readable bytes. -/
theorem readableOnly_two : ReadableOnly [1, 2, 3] 2 := by
  obtain ⟨s, hs, hcontent⟩ := exists_fittingReach (v := ([1, 2, 3], 3)) [.append [1, 2, 3]]
    (fun s => (s.buffer.readable, s.buffer.readableBytes)) (by decide +kernel)
  obtain ⟨hread, hbytes⟩ := Prod.mk.inj hcontent
  have honly := readableOnly_iff hs 2
  rw [hread, hbytes] at honly
  exact honly.mpr (by decide)

/-- Two runs end with the one readable byte 4.  Asked for three bytes, the buffer that held the
message 1, 2, 3 before shows the rest of it. -/
theorem exists_stale : ∃ s₁ s₂, FittingReach s₁ ∧ FittingReach s₂ ∧
    s₁.buffer.readable = [4] ∧ s₂.buffer.readable = [4] ∧
    (s₁.buffer.retrieveAsString 3).toOption.map Prod.fst = some [4, 0, 0] ∧
    (s₂.buffer.retrieveAsString 3).toOption.map Prod.fst = some [4, 2, 3] := by
  obtain ⟨s₁, hs₁, hv₁⟩ := exists_fittingReach (v := ([4], some [4, 0, 0])) [.append [4]]
    (fun s => (s.buffer.readable, (s.buffer.retrieveAsString 3).toOption.map Prod.fst))
    (by decide +kernel)
  obtain ⟨s₂, hs₂, hv₂⟩ := exists_fittingReach (v := ([4], some [4, 2, 3]))
    [.append [1, 2, 3], .retrieve 3, .append [4]]
    (fun s => (s.buffer.readable, (s.buffer.retrieveAsString 3).toOption.map Prod.fst))
    (by decide +kernel)
  obtain ⟨hread₁, hstring₁⟩ := Prod.mk.inj hv₁
  obtain ⟨hread₂, hstring₂⟩ := Prod.mk.inj hv₂
  exact ⟨s₁, s₂, hs₁, hs₂, hread₁, hread₂, hstring₁, hstring₂⟩

end HzhMuduo
