import HzhMuduo.ByteQueue

/-!
# The space a buffer takes

The vector of a `Buffer` never shrinks.  It grows only when the free space at its two ends together
is too small, so what was retrieved is used again: the vector is never much longer than twice the
largest content any call had to hold (`buffer_space`), however many bytes pass through the buffer,
and within that space no call throws.
-/

namespace HzhMuduo

open MachineWord

namespace Buffer

variable {b b' : Buffer} {len : ℕ}

/-- What a call that asks for room for `len` bytes may do to the vector: it never gets shorter, and
longer only up to the content and twice these bytes. -/
structure Grows (b : Buffer) (len : ℕ) (b' : Buffer) : Prop where
  le : b.buffer.length ≤ b'.buffer.length
  le_max : b'.buffer.length ≤ max b.buffer.length (kCheapPrepend + b.readable.length + 2 * len)

lemma Grows.of_eq (h : b'.buffer.length = b.buffer.length) : b.Grows len b' :=
  ⟨Nat.le_of_eq h.symm, h ▸ Nat.le_max_left _ _⟩

/-- The vector is made longer only if the read index is below the room asked for. -/
lemma grows_of_ensureWritableBytes (h : b.WellFormed) (hlen : b.writerIndex + len < 2 ^ 64)
    (he : b.ensureWritableBytes len = .ok b') : b.Grows len b' := by
  have hread := h.length_readable
  have h₁ := h.prepend_le
  have h₂ := h.reader_le
  have h₃ := h.writer_le
  unfold ensureWritableBytes at he
  rw [h.writableBytes_eq, makeSpace_eq h hlen] at he
  split at he
  · next hshort =>
    split at he
    · next hgrow =>
      unfold resize at he
      split at he
      · cases he
      · obtain rfl := Except.ok.inj he
        have hsize : (b.buffer.take (b.writerIndex + len) ++
            List.replicate (b.writerIndex + len - b.buffer.length) 0).length =
              b.writerIndex + len := by
          simp only [List.length_append, List.length_take, List.length_replicate]
          omega
        refine ⟨?_, Nat.le_trans ?_ (Nat.le_max_right _ _)⟩
        · rw [hsize]
          omega
        · rw [hsize, hread]
          omega
    · obtain rfl := Except.ok.inj he
      exact .of_eq (List.length_splice (by omega))
  · obtain rfl := Except.ok.inj he
    exact .of_eq rfl

lemma grows_of_append (h : b.WellFormed) {bytes : List UInt8} (ha : b.append bytes = .ok b') :
    b.Grows bytes.length b' := by
  have hlen : bytes.length < 2 ^ 63 := Nat.lt_succ_of_le (length_of_append h.length_le ha)
  obtain ⟨c, hc, ha⟩ := Except.bind_eq_ok_iff.mp ha
  obtain ⟨d, hd, ha⟩ := Except.bind_eq_ok_iff.mp ha
  obtain rfl := Except.ok.inj ha
  obtain ⟨hle, hle_max⟩ := grows_of_ensureWritableBytes h (h.writer_add_lt hlen) hc
  rw [← (length_of_copyTo hd).2] at hle hle_max
  exact ⟨hle, hle_max⟩

/-- A read that fills the free space appends the rest only. -/
lemma grows_of_readFd (h : b.WellFormed) {bytes : List UInt8} (hr : b.readFd bytes = .ok b') :
    b.Grows bytes.length b' := by
  unfold readFd at hr
  dsimp only at hr
  rw [h.writableBytes_eq] at hr
  split at hr
  · obtain ⟨c, hc, hr⟩ := Except.bind_eq_ok_iff.mp hr
    obtain rfl := Except.ok.inj hr
    exact .of_eq (length_of_copyTo hc).2
  · next hrest =>
    obtain ⟨c, hc, hr⟩ := Except.bind_eq_ok_iff.mp hr
    obtain ⟨hfits, rfl⟩ := copyTo_eq_ok_iff.mp hc
    have hfirst : (bytes.take (b.buffer.length - b.writerIndex)).length =
        b.buffer.length - b.writerIndex := by
      rw [List.length_take]
      omega
    have hfull : b.writerIndex + (bytes.take (b.buffer.length - b.writerIndex)).length =
        b.buffer.length := by
      have h₃ := h.writer_le
      omega
    have hsize := List.length_splice hfits
    obtain ⟨hwf, hread, -⟩ := fill_appended h hfull
    dsimp only at hr
    rw [hsize] at hr
    obtain ⟨hle, hle_max⟩ := grows_of_append hwf hr
    rw [hread, List.length_append, hfirst, List.length_drop] at hle_max
    have hfill : (b.fill (bytes.take (b.buffer.length - b.writerIndex))).buffer.length =
        b.buffer.length := hsize
    rw [hfill] at hle hle_max
    exact ⟨hle, by omega⟩

end Buffer

/-- Every call lets the vector grow for what it asks for, and for nothing else. -/
lemma BufferCall.grows_of_run {b b' : Buffer} (h : b.WellFormed) {call : BufferCall}
    (hroom : ∀ len, call = .ensureWritableBytes len → b.writerIndex + len < 2 ^ 64)
    {strings : List (List UInt8)} (hrun : call.run b = .ok (b', strings)) :
    b.Grows call.demand b' := by
  have hretrieve : ∀ len, (b.retrieve len).buffer.length = b.buffer.length := by
    intro len
    unfold Buffer.retrieve
    split <;> rfl
  have hstring : ∀ len result c, b.retrieveAsString len = .ok (result, c) →
      c.buffer.length = b.buffer.length := by
    intro len result c hc
    unfold Buffer.retrieveAsString at hc
    split at hc
    · obtain ⟨-, rfl⟩ := Prod.mk.inj (Except.ok.inj hc)
      exact hretrieve len
    · cases hc
  cases call with
  | append bytes =>
    obtain ⟨c, hc, hrun⟩ := Except.bind_eq_ok_iff.mp hrun
    obtain ⟨rfl, -⟩ := Prod.mk.inj (Except.ok.inj hrun)
    exact Buffer.grows_of_append h hc
  | retrieve len =>
    obtain ⟨rfl, -⟩ := Prod.mk.inj (Except.ok.inj hrun)
    exact .of_eq (hretrieve len)
  | retrieveAll =>
    obtain ⟨rfl, -⟩ := Prod.mk.inj (Except.ok.inj hrun)
    exact .of_eq rfl
  | retrieveAllAsString =>
    obtain ⟨⟨result, c⟩, hc, hrun⟩ := Except.bind_eq_ok_iff.mp hrun
    obtain ⟨rfl, -⟩ := Prod.mk.inj (Except.ok.inj hrun)
    exact .of_eq (hstring _ _ _ hc)
  | retrieveAsString len =>
    obtain ⟨⟨result, c⟩, hc, hrun⟩ := Except.bind_eq_ok_iff.mp hrun
    obtain ⟨rfl, -⟩ := Prod.mk.inj (Except.ok.inj hrun)
    exact .of_eq (hstring _ _ _ hc)
  | ensureWritableBytes len =>
    obtain ⟨c, hc, hrun⟩ := Except.bind_eq_ok_iff.mp hrun
    obtain ⟨rfl, -⟩ := Prod.mk.inj (Except.ok.inj hrun)
    exact Buffer.grows_of_ensureWritableBytes h (hroom len rfl) hc
  | readFd savedErrno r =>
    obtain ⟨⟨c, n, e⟩, hc, hrun⟩ := Except.bind_eq_ok_iff.mp hrun
    obtain ⟨rfl, -⟩ := Prod.mk.inj (Except.ok.inj hrun)
    cases r with
    | read bytes =>
      obtain ⟨d, hd, hc⟩ := Except.bind_eq_ok_iff.mp hc
      obtain ⟨rfl, -⟩ := Prod.mk.inj (Except.ok.inj hc)
      exact Buffer.grows_of_readFd h hd
    | failed e =>
      obtain ⟨rfl, -⟩ := Prod.mk.inj (Except.ok.inj hc)
      exact .of_eq rfl

/-- A call after which the queue holds at most `N` bytes, or would if the room was used. -/
def BufferCall.Within (N : ℕ) (q : ByteQueue) (call : BufferCall) : Prop :=
  q.content.length + call.demand ≤ N

instance (N : ℕ) (q : ByteQueue) (call : BufferCall) : Decidable (call.Within N q) :=
  inferInstanceAs (Decidable (_ ≤ _))

/-- The cells a buffer of at most `N` bytes ever takes. -/
def space (N : ℕ) : ℕ := max (kCheapPrepend + kInitialSize) (kCheapPrepend + 2 * N)

/-- A call within the limit returns, with the strings of the queue, and stays within the space. -/
lemma step_within {N : ℕ} (hN : space N + N ≤ maxSize) {s : BufferClient} {q q' : ByteQueue}
    {call : BufferCall} (hholds : Holds s.buffer.writerIndex s q)
    (hspace : s.buffer.buffer.length ≤ space N) (hwithin : call.Within N q)
    (hq : queueSystem.step q call = some q') :
    ∃ s', bufferSystem.step s call = some s' ∧ Holds s'.buffer.writerIndex s' q' ∧
      s'.buffer.buffer.length ≤ space N := by
  have hwf := hholds.wellFormed
  have hwriter := hwf.writer_le
  have hlimit : s.buffer.writerIndex + call.demand ≤ maxSize := by
    unfold BufferCall.Within at hwithin
    omega
  obtain ⟨s', hs', hholds'⟩ := hholds.step hq hlimit
  refine ⟨s', hs', { hholds' with writer_le := Nat.le_refl _ }, ?_⟩
  obtain ⟨⟨b, strings⟩, hrun, rfl⟩ := Option.map_eq_some_iff.mp hs'
  have hrun := Except.toOption_eq_some_iff.mp hrun
  have hroom : ∀ len, call = .ensureWritableBytes len → s.buffer.writerIndex + len < 2 ^ 64 := by
    rintro len rfl
    exact Nat.lt_of_le_of_lt hlimit (by decide)
  obtain ⟨-, hle_max⟩ := BufferCall.grows_of_run hwf hroom hrun
  rw [hholds.readable_eq] at hle_max
  unfold BufferCall.Within at hwithin
  unfold space at hspace ⊢
  dsimp only
  omega

/-- A buffer never takes more space than twice the most it was ever asked to hold at one time, or
the space it started with if that is more: a run of the queue of any length, in which no call asks
it to hold more than `N` bytes, is a run of the buffer within `space N`. -/
theorem buffer_space {N : ℕ} (hN : space N + N ≤ maxSize) (calls : List BufferCall) {q : ByteQueue}
    (hq : (queueSystem.restrict (fun q call => call.Within N q)).run ⟨[], []⟩ calls = some q) :
    ∃ s, bufferSystem.run ⟨.new, []⟩ calls = some s ∧ s.buffer.WellFormed ∧
      s.buffer.readable = q.content ∧ s.strings = q.strings ∧
      s.buffer.buffer.length ≤ space N := by
  have hnew : Holds Buffer.new.writerIndex ⟨.new, []⟩ ⟨[], []⟩ ∧
      Buffer.new.buffer.length ≤ space N := by
    refine ⟨holds_new, ?_⟩
    rw [Buffer.new, List.length_replicate]
    exact Nat.le_max_left _ _
  obtain ⟨s, hs, hholds, hspace⟩ := TransitionSystem.run_lockstep
    (t := ⟨.new, []⟩)
    (R := fun q s => Holds s.buffer.writerIndex s q ∧ s.buffer.buffer.length ≤ space N)
    (fun q call q' s hR hstep => by
      obtain ⟨hwithin, hstep⟩ := Option.ite_none_right_eq_some.mp hstep
      exact step_within hN hR.1 hR.2 hwithin hstep) hnew hq
  exact ⟨s, hs, hholds.wellFormed, hholds.readable_eq, hholds.strings_eq, hspace⟩

/-- More bytes pass through a buffer than it had space for, and it did not grow. -/
theorem buffer_space_reused :
    ∃ s, bufferSystem.run ⟨.new, []⟩ [.append (List.replicate 500 1), .retrieve 499,
        .append (List.replicate 511 2), .retrieve 511, .append (List.replicate 511 3)] = some s ∧
      s.buffer.readable = 2 :: List.replicate 511 3 ∧ s.buffer.buffer.length ≤ 1032 := by
  obtain ⟨q, hq, hcontent⟩ : ∃ q, (queueSystem.restrict (fun q call => call.Within 512 q)).run
      ⟨[], []⟩ [.append (List.replicate 500 1), .retrieve 499, .append (List.replicate 511 2),
        .retrieve 511, .append (List.replicate 511 3)] = some q ∧
      q.content = 2 :: List.replicate 511 3 :=
    Option.map_eq_some_iff.mp (by decide +kernel)
  obtain ⟨s, hs, -, hreadable, -, hspace⟩ := buffer_space (by decide) _ hq
  exact ⟨s, hs, hreadable.trans hcontent, hspace⟩

end HzhMuduo
