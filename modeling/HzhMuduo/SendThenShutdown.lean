import HzhMuduo.Foundation.BatchQueue
import HzhMuduo.HalfClose

/-!
# `send` before `shutdown`, across threads

One established connection whose `send` and `shutdown` are called by any threads, the loop
thread included.  A call is cut at its load and its store of `state_`; on the loop thread it ends
in `sendInLoop` or `shutdownInLoop`, on another thread in a push to the queue that the loop works
off in batches, between two rounds of events.

`Ledger` holds the queue and the history: the messages whose `send` found the connection
connected, numbered as the calls were executed or pushed; what `sendInLoop` has passed on of them;
and `mark`, the number of messages at the moment the first call of `shutdown` began.  The
messages below the mark are owed to the peer before the write side is shut down.  The peer stays:
`::write` reports a broken pipe only behind the `SHUT_WR` of the connection itself, and no reset.

A `shutdown` that goes through the queue comes behind what is owed.  One that is executed at once
on the loop thread, and the drain in `handleWrite`, look only at the write interest and may
overtake a queued `send`.  And `sendInLoop` may throw away a message whose direct write failed for
another reason, if the logging of the failure leaves the error of a peer that is gone.
`accepted_of_shutWr` excludes that, `exists_overtaken` shows the first of the two.
-/

namespace HzhMuduo

open MachineWord TcpConnection

/-- What other threads queue: message number `n`, or the end. -/
inductive Task
  | send (n : ℕ) (m : List UInt8)
  | shutdown
  deriving DecidableEq

/-- The queue and the history of the calls. -/
structure Ledger where
  queue : BatchQueue Task
  messages : List (List UInt8)
  delivered : List (ℕ × List UInt8)
  mark : Option ℕ

namespace Ledger

variable {l l' : Ledger}

/-- The tasks waiting, the next one first. -/
def tasks (l : Ledger) : List Task := l.queue.content.map Stamped.item

/-- Message `n` was sent before the first call of `shutdown`. -/
def Owed (l : Ledger) (n : ℕ) : Prop := ∃ k ∈ l.mark, n < k

/-- Message `n` was not sent after the beginning of a call of `shutdown`. -/
def MayBeOwed (l : Ledger) (n : ℕ) : Prop := ∀ k ∈ l.mark, n < k

/-- The task carries a message that is owed. -/
def Owes (l : Ledger) : Task → Prop
  | .send n _ => l.Owed n
  | .shutdown => False

instance (l : Ledger) (n : ℕ) : Decidable (l.Owed n) :=
  inferInstanceAs (Decidable (∃ k ∈ l.mark, n < k))

instance (l : Ledger) (n : ℕ) : Decidable (l.MayBeOwed n) :=
  inferInstanceAs (Decidable (∀ k ∈ l.mark, n < k))

instance (l : Ledger) (x : Task) : Decidable (l.Owes x) := by
  cases x with
  | send n m => exact inferInstanceAs (Decidable (l.Owed n))
  | shutdown => exact inferInstanceAs (Decidable False)

/-- No message that is owed waits in the queue. -/
def NoneQueued (l : Ledger) : Prop := ∀ x ∈ l.tasks, ¬ l.Owes x

instance (l : Ledger) : Decidable l.NoneQueued :=
  inferInstanceAs (Decidable (∀ x ∈ l.tasks, ¬ l.Owes x))

/-- Every byte of message `n` is among the bytes `sent`, which begin with what was delivered up
to this message. -/
def Accepted (l : Ledger) (sent : List UInt8) (n : ℕ) : Prop :=
  ∃ before m after, l.delivered = before ++ (n, m) :: after ∧ l.messages[n]? = some m ∧
    (before.map Prod.snd).flatten ++ m <+: sent

/-- What is owed depends on the mark alone. -/
lemma owed_congr (h : l'.mark = l.mark) (n : ℕ) : l'.Owed n ↔ l.Owed n := by
  unfold Owed
  rw [h]

/-- A message keeps its number. -/
lemma getElem?_of_prefix {xs ys : List (List UInt8)} (h : xs <+: ys) {n : ℕ} {m : List UInt8}
    (hm : xs[n]? = some m) : ys[n]? = some m := by
  obtain ⟨rest, rfl⟩ := h
  obtain ⟨hn, -⟩ := List.getElem?_eq_some_iff.mp hm
  exact (List.getElem?_append_left hn).trans hm

/-- What was accepted stays accepted. -/
lemma Accepted.mono {sent sent' : List UInt8} {n : ℕ} (h : l.Accepted sent n)
    (hdelivered : l.delivered <+: l'.delivered) (hmessages : l.messages <+: l'.messages)
    (hsent : sent <+: sent') : l'.Accepted sent' n := by
  obtain ⟨before, m, after, heq, hm, hprefix⟩ := h
  obtain ⟨rest, hrest⟩ := hdelivered
  refine ⟨before, m, after ++ rest, ?_, getElem?_of_prefix hmessages hm, hprefix.trans hsent⟩
  rw [← hrest, heq, List.append_assoc, List.cons_append]

/-- The invariant of the history. -/
structure Sound (l : Ledger) : Prop where
  /-- No message is lost between its call and `sendInLoop`. -/
  covered : ∀ n < l.messages.length,
    (∃ bytes, (n, bytes) ∈ l.delivered) ∨ ∃ m, .send n m ∈ l.tasks
  tasks : ∀ n m, .send n m ∈ l.tasks → l.messages[n]? = some m
  delivered : ∀ n bytes, (n, bytes) ∈ l.delivered → l.MayBeOwed n → l.messages[n]? = some bytes
  mark : ∀ k ∈ l.mark, k ≤ l.messages.length
  /-- What is owed does not wait behind a `shutdown`. -/
  order : l.tasks.Pairwise fun x y => x = .shutdown → ¬ l.Owes y
  unmarked : l.mark = none → .shutdown ∉ l.tasks

/-- Nothing has been sent yet. -/
def empty : Ledger where
  queue := .empty
  messages := []
  delivered := []
  mark := none

lemma Sound.empty : Sound empty where
  covered n hn := absurd hn (Nat.not_lt_zero n)
  tasks n m h := by cases h
  delivered n bytes h := by cases h
  mark k h := by cases h
  order := List.Pairwise.nil
  unmarked _ h := by cases h

/-- A push of a message from another thread, which makes it the next one. -/
def pushSend (l : Ledger) (m : List UInt8) : Ledger :=
  { l with queue := l.queue.push (.send l.messages.length m), messages := l.messages ++ [m] }

/-- A push of `shutdownInLoop` from another thread. -/
def pushShutdown (l : Ledger) : Ledger := { l with queue := l.queue.push .shutdown }

/-- `doPendingFunctors` takes the queue over. -/
def swap (l : Ledger) : Ledger := { l with queue := l.queue.swap }

/-- A message sent on the loop thread, of which `sendInLoop` has passed on `bytes`. -/
def sendHere (l : Ledger) (m bytes : List UInt8) : Ledger :=
  { l with
    messages := l.messages ++ [m]
    delivered := l.delivered ++ [(l.messages.length, bytes)] }

/-- A call of `shutdown` begins. -/
def setMark (l : Ledger) : Ledger := { l with mark := some (l.mark.getD l.messages.length) }

/-- The queue after the first task was taken, and what `sendInLoop` has passed on of it. -/
def taken (l : Ledger) (q : BatchQueue Task) (delivered : List (ℕ × List UInt8)) : Ledger :=
  { l with queue := q, delivered := l.delivered ++ delivered }

lemma tasks_pushSend (l : Ledger) (m : List UInt8) :
    (l.pushSend m).tasks = l.tasks ++ [.send l.messages.length m] := by
  unfold tasks pushSend
  rw [BatchQueue.content_push, List.map_append]
  rfl

lemma tasks_pushShutdown (l : Ledger) : l.pushShutdown.tasks = l.tasks ++ [.shutdown] := by
  unfold tasks pushShutdown
  rw [BatchQueue.content_push, List.map_append]
  rfl

/-- The task taken was the next one. -/
lemma tasks_eq_cons {x : Stamped Task} {q : BatchQueue Task} (h : l.queue.take = some (x, q))
    (delivered : List (ℕ × List UInt8)) : l.tasks = x.item :: (l.taken q delivered).tasks := by
  unfold tasks taken
  rw [BatchQueue.content_take h, List.map_cons]

/-- The next message is not owed once a call of `shutdown` has begun. -/
lemma Sound.not_owed_length (h : l.Sound) : ¬ l.Owed l.messages.length := by
  rintro ⟨k, hk, hlt⟩
  exact absurd (h.mark k hk) (Nat.not_le_of_lt hlt)

lemma Sound.pushSend (h : l.Sound) (m : List UInt8) : (l.pushSend m).Sound := by
  have hprefix : l.messages <+: (l.pushSend m).messages := List.prefix_append _ _
  have hlast : (l.pushSend m).messages[l.messages.length]? = some m := by simp [Ledger.pushSend]
  refine ⟨fun n hn => ?_, fun n m' hm => ?_, ?_, fun k hk => ?_, ?_, fun hmark => ?_⟩
  · rw [tasks_pushSend]
    rcases Nat.lt_or_ge n l.messages.length with hlt | hge
    · refine (h.covered n hlt).imp_right ?_
      rintro ⟨m', hm'⟩
      exact ⟨m', List.mem_append_left _ hm'⟩
    · have heq : n = l.messages.length := by
        simp only [Ledger.pushSend, List.length_append, List.length_singleton] at hn
        omega
      subst heq
      exact .inr ⟨m, List.mem_append_right _ (List.mem_singleton_self _)⟩
  · rw [tasks_pushSend] at hm
    rcases List.mem_append.mp hm with hm | hm
    · exact getElem?_of_prefix hprefix (h.tasks n m' hm)
    · obtain ⟨rfl, rfl⟩ := Task.send.inj (List.mem_singleton.mp hm)
      exact hlast
  · intro n bytes hmem howed
    exact getElem?_of_prefix hprefix (h.delivered n bytes hmem howed)
  · exact Nat.le_trans (h.mark k hk) hprefix.length_le
  · rw [tasks_pushSend, List.pairwise_append]
    refine ⟨h.order, List.pairwise_singleton _ _, fun x hx y hy _ => ?_⟩
    obtain rfl := List.mem_singleton.mp hy
    exact h.not_owed_length
  · rw [tasks_pushSend]
    intro hmem
    rcases List.mem_append.mp hmem with hmem | hmem
    · exact h.unmarked hmark hmem
    · cases List.mem_singleton.mp hmem

lemma Sound.pushShutdown (h : l.Sound) (hmark : l.mark ≠ none) : l.pushShutdown.Sound := by
  have hmem : ∀ n m, .send n m ∈ l.pushShutdown.tasks ↔ .send n m ∈ l.tasks := by
    intro n m
    rw [tasks_pushShutdown]
    simp
  refine ⟨fun n hn => ?_, fun n m hm => ?_, h.delivered, h.mark, ?_, fun hc => absurd hc hmark⟩
  · refine (h.covered n hn).imp_right ?_
    rintro ⟨m, hm⟩
    exact ⟨m, (hmem n m).mpr hm⟩
  · exact h.tasks n m ((hmem n m).mp hm)
  · rw [tasks_pushShutdown, List.pairwise_append]
    refine ⟨h.order, List.pairwise_singleton _ _, fun x hx y hy _ => ?_⟩
    obtain rfl := List.mem_singleton.mp hy
    exact id

/-- Taking the queue over does not change what waits. -/
lemma tasks_swap (hb : l.queue.batch = []) : l.swap.tasks = l.tasks := by
  unfold Ledger.tasks Ledger.swap
  rw [BatchQueue.content_swap hb]

lemma Sound.swap (h : l.Sound) (hb : l.queue.batch = []) : l.swap.Sound := by
  have htasks := tasks_swap hb
  exact ⟨htasks ▸ h.covered, htasks ▸ h.tasks, h.delivered, h.mark, htasks ▸ h.order,
    htasks ▸ h.unmarked⟩

/-- A message sent on the loop thread, whole unless it comes after a call of `shutdown`. -/
lemma Sound.sendHere (h : l.Sound) {m bytes : List UInt8} (hbytes : l.mark = none → bytes = m) :
    (l.sendHere m bytes).Sound := by
  have hprefix : l.messages <+: (l.sendHere m bytes).messages := List.prefix_append _ _
  refine ⟨fun n hn => ?_, fun n m' hm => ?_, fun n bytes' hmem howed => ?_, fun k hk => ?_,
    h.order, h.unmarked⟩
  · rcases Nat.lt_or_ge n l.messages.length with hlt | hge
    · refine (h.covered n hlt).imp_left ?_
      rintro ⟨bytes', hmem⟩
      exact ⟨bytes', List.mem_append_left _ hmem⟩
    · have heq : n = l.messages.length := by
        simp only [Ledger.sendHere, List.length_append, List.length_singleton] at hn
        omega
      subst heq
      exact .inl ⟨bytes, List.mem_append_right _ (List.mem_singleton_self _)⟩
  · exact getElem?_of_prefix hprefix (h.tasks n m' hm)
  · rcases List.mem_append.mp hmem with hmem | hmem
    · exact getElem?_of_prefix hprefix (h.delivered n bytes' hmem howed)
    · obtain ⟨rfl, rfl⟩ := Prod.mk.inj (List.mem_singleton.mp hmem)
      have hunmarked : l.mark = none := by
        refine Option.eq_none_iff_forall_not_mem.mpr fun k hk => ?_
        exact h.not_owed_length ⟨k, hk, howed k hk⟩
      rw [hbytes hunmarked]
      simp [Ledger.sendHere]
  · exact Nat.le_trans (h.mark k hk) hprefix.length_le

/-- Only the first call of `shutdown` sets the mark. -/
lemma setMark_of_mark {k : ℕ} (hmark : l.mark = some k) : l.setMark = l := by
  unfold Ledger.setMark
  rw [hmark, Option.getD_some, ← hmark]

lemma Sound.setMark (h : l.Sound) : l.setMark.Sound := by
  cases hmark : l.mark with
  | some k =>
    rw [setMark_of_mark hmark]
    exact h
  | none =>
    have hnew : l.setMark.mark = some l.messages.length := by
      unfold Ledger.setMark
      rw [hmark, Option.getD_none]
    have hall : ∀ n, l.MayBeOwed n := fun n k hk => by rw [hmark] at hk; cases hk
    refine ⟨h.covered, h.tasks, fun n bytes hmem _ => h.delivered n bytes hmem (hall n),
      fun k hk => ?_, ?_, fun hc => ?_⟩
    · rw [hnew] at hk
      obtain rfl := Option.some.inj hk
      exact Nat.le_refl _
    · refine List.Pairwise.imp_of_mem ?_ (List.pairwise_of_forall fun _ _ => trivial)
      intro x y hx _ _ heq
      exact absurd (heq ▸ hx) (h.unmarked hmark)
    · rw [hnew] at hc
      cases hc

/-- `sendInLoop` is run for a queued message, whole unless it comes after a call of `shutdown`. -/
lemma Sound.runSend (h : l.Sound) {x : Stamped Task} {q : BatchQueue Task}
    (htake : l.queue.take = some (x, q)) {n : ℕ} {m bytes : List UInt8} (hx : x.item = .send n m)
    (hbytes : l.MayBeOwed n → bytes = m) : (l.taken q [(n, bytes)]).Sound := by
  have htasks := tasks_eq_cons htake [(n, bytes)]
  rw [hx] at htasks
  have horder := h.order
  rw [htasks, List.pairwise_cons] at horder
  have hhead : l.messages[n]? = some m := h.tasks n m (by rw [htasks]; exact List.mem_cons_self)
  refine ⟨fun n' hn' => ?_, fun n' m' hm' => ?_, fun n' bytes' hmem howed => ?_, h.mark, horder.2,
    fun hmark hmem => ?_⟩
  · rcases h.covered n' hn' with ⟨bytes', hmem⟩ | ⟨m', hm'⟩
    · exact .inl ⟨bytes', List.mem_append_left _ hmem⟩
    · rw [htasks] at hm'
      rcases List.mem_cons.mp hm' with heq | hm'
      · obtain ⟨rfl, -⟩ := Task.send.inj heq
        exact .inl ⟨bytes, List.mem_append_right _ (List.mem_singleton_self _)⟩
      · exact .inr ⟨m', hm'⟩
  · exact h.tasks n' m' (by rw [htasks]; exact List.mem_cons_of_mem _ hm')
  · rcases List.mem_append.mp hmem with hmem | hmem
    · exact h.delivered n' bytes' hmem howed
    · obtain ⟨rfl, rfl⟩ := Prod.mk.inj (List.mem_singleton.mp hmem)
      rw [hbytes howed]
      exact hhead
  · exact h.unmarked hmark (by rw [htasks]; exact List.mem_cons_of_mem _ hmem)

/-- When `shutdownInLoop` is run for a queued `shutdown`, nothing that is owed is queued. -/
lemma Sound.runShutdown (h : l.Sound) {x : Stamped Task} {q : BatchQueue Task}
    (htake : l.queue.take = some (x, q)) (hx : x.item = .shutdown) :
    (l.taken q []).Sound ∧ (l.taken q []).NoneQueued := by
  have htasks := tasks_eq_cons htake []
  rw [hx] at htasks
  have horder := h.order
  rw [htasks, List.pairwise_cons] at horder
  have hdelivered : (l.taken q []).delivered = l.delivered := List.append_nil _
  refine ⟨⟨fun n hn => ?_, fun n m hm => ?_, ?_, h.mark, horder.2, fun hmark hmem => ?_⟩,
    fun y hy => horder.1 y hy rfl⟩
  · rw [hdelivered]
    rcases h.covered n hn with hmem | ⟨m, hm⟩
    · exact .inl hmem
    · rw [htasks] at hm
      rcases List.mem_cons.mp hm with heq | hm
      · cases heq
      · exact .inr ⟨m, hm⟩
  · exact h.tasks n m (by rw [htasks]; exact List.mem_cons_of_mem _ hm)
  · rw [hdelivered]
    exact h.delivered
  · exact h.unmarked hmark (by rw [htasks]; exact List.mem_cons_of_mem _ hmem)

/-- The message of a push is not owed once a call of `shutdown` has begun. -/
lemma NoneQueued.pushSend (hnone : l.NoneQueued) (h : l.Sound) (m : List UInt8) :
    (l.pushSend m).NoneQueued := by
  intro x hx
  rw [tasks_pushSend] at hx
  rcases List.mem_append.mp hx with hx | hx
  · exact hnone x hx
  · obtain rfl := List.mem_singleton.mp hx
    exact h.not_owed_length

lemma NoneQueued.pushShutdown (hnone : l.NoneQueued) : l.pushShutdown.NoneQueued := by
  intro x hx
  rw [tasks_pushShutdown] at hx
  rcases List.mem_append.mp hx with hx | hx
  · exact hnone x hx
  · obtain rfl := List.mem_singleton.mp hx
    exact id

lemma NoneQueued.swap (hnone : l.NoneQueued) (hb : l.queue.batch = []) : l.swap.NoneQueued := by
  intro x hx
  rw [tasks_swap hb] at hx
  exact hnone x hx

lemma NoneQueued.taken (hnone : l.NoneQueued) {x : Stamped Task} {q : BatchQueue Task}
    (htake : l.queue.take = some (x, q)) (delivered : List (ℕ × List UInt8)) :
    (l.taken q delivered).NoneQueued := by
  intro y hy
  refine hnone y ?_
  rw [tasks_eq_cons htake delivered]
  exact List.mem_cons_of_mem _ hy

/-- When everything delivered has been sent and nothing that is owed is queued, every message
that is owed has been accepted. -/
theorem Sound.accepted (h : l.Sound) (hnone : l.NoneQueued) {n : ℕ} (howed : l.Owed n) :
    l.Accepted (l.delivered.map Prod.snd).flatten n := by
  obtain ⟨k, hk, hlt⟩ := howed
  rcases h.covered n (Nat.lt_of_lt_of_le hlt (h.mark k hk)) with ⟨bytes, hmem⟩ | ⟨m, hm⟩
  · have hmay : l.MayBeOwed n := by
      intro k' hk'
      obtain rfl := Option.some.inj (hk.symm.trans hk')
      exact hlt
    obtain ⟨before, after, heq⟩ := List.append_of_mem hmem
    refine ⟨before, bytes, after, heq, h.delivered n bytes hmem hmay, ?_⟩
    rw [heq, List.map_append, List.flatten_append, List.map_cons, List.flatten_cons,
      ← List.append_assoc]
    exact List.prefix_append _ _
  · exact absurd ⟨k, hk, hlt⟩ (hnone _ hm)

end Ledger

namespace TcpConnection.View

variable {r r' : View} {self : ConnId}

/-- `sendInLoop` behind its test only adds to what is accepted. -/
lemma accepted_prefix_sendBody {data : Memory} {len : ℤ} {w : WriteResult}
    (h : r.sendBody self data len w = .ok r') : r.accepted <+: r'.accepted := by
  rcases sendBody_cases h with ⟨-, -, rfl⟩ | ⟨-, n, m, fs, -, -, hrest⟩
  · exact List.prefix_refl _
  · rcases bufferRest_cases hrest with ⟨-, rfl⟩ | ⟨-, fs', b, p, ch, -, -, -, rfl⟩
    · exact List.prefix_append _ _
    · exact List.prefix_append _ _

/-- The first part of `handleWrite` only adds to what is accepted. -/
lemma accepted_prefix_writeOutput {w : WriteResult} {drained : Bool}
    (h : r.writeOutput self w = .ok (r', drained)) : r.accepted <+: r'.accepted := by
  rcases writeOutput_cases h with ⟨-, rfl, -⟩ | ⟨-, -, r₁, rfl, hrest⟩
  · exact List.prefix_refl _
  · rcases hrest with ⟨-, rfl, -⟩ | ⟨-, -, fs, p, ch, -, -, rfl⟩
    · exact List.prefix_append _ _
    · exact List.prefix_append _ _

/-- The peer neither closes nor resets the connection: `::write` does not report a reset, and it
reports a broken pipe only when the connection has shut its own write side down. -/
def PeerStays (r : View) : WriteResult → Prop
  | .wrote _ => True
  | .failed e _ => e ≠ ECONNRESET ∧ (e = EPIPE → 0 < r.shutWr)

instance (r : View) : (w : WriteResult) → Decidable (r.PeerStays w)
  | .wrote _ => inferInstanceAs (Decidable True)
  | .failed _ _ => inferInstanceAs (Decidable (_ ∧ _))

/-- Before the write side is shut down, no write reports that the peer is gone. -/
lemma PeerStays.reportsGone {w : WriteResult} (h : r.PeerStays w) (hshut : r.shutWr = 0) :
    w.reportsGone = false := by
  cases w with
  | wrote n => rfl
  | failed e logged =>
    have hpipe : e ≠ EPIPE := fun heq => absurd (h.2 heq) (by omega)
    simp [WriteResult.reportsGone, Errno.isGone, hpipe, h.1]

/-- Then a message is passed on, if the error of a write that fails is kept while it is logged. -/
lemma PeerStays.not_discards {w : WriteResult} {m : List UInt8} (h : r.PeerStays w)
    (hshut : r.shutWr = 0) (hopen : r.conn.state ≠ .kDisconnected) (hkept : r.ErrnoKept m w)
    (hm : m ≠ []) : ¬ r.Discards w := by
  rw [(discards_iff_forfeits r w hm).mpr hkept]
  rintro (hclosed | ⟨-, hgone⟩)
  · exact hopen hclosed
  · rw [h.reportsGone hshut] at hgone
    cases hgone

end TcpConnection.View

/-- Where a thread stands in a call: behind the load of `send`, or in `shutdown` before its load,
before its store and behind it; the loop thread may also stand between the drain in `handleWrite`
and the test of the state. -/
inductive CallPc
  | idle
  | sending (m : List UInt8)
  | shutBegun
  | shutLoaded
  | shutStored
  | drained
  deriving DecidableEq

/-- The thread is in a call of `shutdown`. -/
def CallPc.inShutdown : CallPc → Bool
  | .shutBegun | .shutLoaded | .shutStored => true
  | _ => false

/-- A connection, the threads that use it (`none` is the loop thread), and the ledger. -/
structure SendThenShutdown where
  view : View
  pc : Option ℕ → CallPc
  ledger : Ledger

namespace SendThenShutdown

variable {s s' : SendThenShutdown} {self : ConnId}

/-- A step of a thread; the steps without a thread are those of the loop thread. -/
inductive Act
  | send (t : Option ℕ) (m : List UInt8)
  | sendInLoop (w : WriteResult)
  | pushSend (u : ℕ)
  | shutdown (t : Option ℕ)
  | load (t : Option ℕ)
  | store (t : Option ℕ)
  | shutdownInLoop
  | pushShutdown (u : ℕ)
  | swap
  | run (data : Memory) (w : WriteResult)
  | handleWrite (w : WriteResult)
  | afterDrain

/-- Thread `t` goes to `pc`. -/
def setPc (s : SendThenShutdown) (t : Option ℕ) (pc : CallPc) : SendThenShutdown :=
  { s with pc := Function.update s.pc t pc }

/-- `sendInLoop` for a message of `size` bytes at `data`; the peer stays, and `::write` takes at
most what it is offered. -/
def transmit (self : ConnId) (s : SendThenShutdown) (data : Memory) (size : ℕ) (w : WriteResult) :
    Option View :=
  if w.taken ≤ toSize (toInt size) ∧ s.view.PeerStays w then
    (s.view.sendInLoop self data (toInt size) w).toOption
  else none

/-- The bytes `sendInLoop` passes on of a message of `size` bytes at `data`. -/
def passed (s : SendThenShutdown) (data : Memory) (size : ℕ) (w : WriteResult) : List UInt8 :=
  if s.view.Discards w then [] else data.bytes 0 (toSize (toInt size))

def step (self : ConnId) (s : SendThenShutdown) : Act → Option SendThenShutdown
  | .send t m =>
    if s.pc t = .idle then
      some (if s.view.conn.state = .kConnected then s.setPc t (.sending m) else s)
    else none
  | .sendInLoop w =>
    match s.pc none with
    | .sending m => (transmit self s (.ofString m) m.length w).map fun v =>
      { s.setPc none .idle with
        view := v
        ledger := s.ledger.sendHere m (s.passed (.ofString m) m.length w) }
    | _ => none
  | .pushSend u =>
    match s.pc (some u) with
    | .sending m => some { s.setPc (some u) .idle with ledger := s.ledger.pushSend m }
    | _ => none
  | .shutdown t =>
    if s.pc t = .idle then some { s.setPc t .shutBegun with ledger := s.ledger.setMark } else none
  | .load t =>
    if s.pc t = .shutBegun then
      some (s.setPc t (if s.view.conn.state = .kConnected then .shutLoaded else .idle))
    else none
  | .store t =>
    if s.pc t = .shutLoaded then
      some { s.setPc t .shutStored with view := s.view.setState .kDisconnecting }
    else none
  | .shutdownInLoop =>
    if s.pc none = .shutStored then
      some { s.setPc none .idle with view := s.view.shutdownInLoop }
    else none
  | .pushShutdown u =>
    if s.pc (some u) = .shutStored then
      some { s.setPc (some u) .idle with ledger := s.ledger.pushShutdown }
    else none
  | .swap =>
    if s.pc none = .idle ∧ s.ledger.queue.batch = [] then some { s with ledger := s.ledger.swap }
    else none
  | .run data w =>
    if s.pc none = .idle then
      match s.ledger.queue.take with
      | some (⟨.send n m, _⟩, q) => (transmit self s data m.length w).map fun v =>
        { s with view := v, ledger := s.ledger.taken q [(n, s.passed data m.length w)] }
      | some (⟨.shutdown, _⟩, q) =>
        some { s with view := s.view.shutdownInLoop, ledger := s.ledger.taken q [] }
      | none => none
    else none
  | .handleWrite w =>
    if s.pc none = .idle ∧ s.ledger.queue.batch = [] ∧
        w.taken ≤ s.view.conn.outputBuffer.readableBytes then
      (s.view.writeOutput self w).toOption.map fun x =>
        { s.setPc none (if x.2 then .drained else .idle) with view := x.1 }
    else none
  | .afterDrain =>
    if s.pc none = .drained then some { s.setPc none .idle with view := s.view.afterDrain }
    else none

/-- The runs of an established connection on which nobody has called anything yet. -/
def system (self : ConnId) : TransitionSystem SendThenShutdown Act where
  init s := OutgoingStream.Established s.view ∧ s.view.shutWr = 0 ∧ (∀ t, s.pc t = .idle) ∧
    s.ledger = .empty
  step := step self

/-- A message sent on the loop thread before any call of `shutdown` is short, and the error of its
direct write is kept while it is logged. -/
def Short (s : SendThenShutdown) (w : WriteResult) : CallPc → Prop
  | .sending m => s.ledger.mark = none → m.length < 2 ^ 31 ∧ s.view.ErrnoKept m w
  | _ => True

/-- A queued message that may be owed is short, `data` still shows it, and the error of its direct
write is kept while it is logged. -/
def Intact (s : SendThenShutdown) (data : Memory) (w : WriteResult) : Option Task → Prop
  | some (.send n m) => s.ledger.MayBeOwed n →
      m.length < 2 ^ 31 ∧ data.bytes 0 m.length = m ∧ s.view.ErrnoKept m w
  | _ => True

instance (s : SendThenShutdown) (w : WriteResult) (pc : CallPc) : Decidable (s.Short w pc) := by
  unfold Short
  split <;> infer_instance

instance (s : SendThenShutdown) (data : Memory) (w : WriteResult) (x : Option Task) :
    Decidable (s.Intact data w x) := by
  unfold Intact
  split <;> infer_instance

/-- No `send` that is owed is overtaken: neither a `shutdown` executed at once on the loop thread
nor the drain finds one in the queue; and `sendInLoop` is given the message that was sent and does
not mistake the error of its direct write, unless a call of `shutdown` had begun before. -/
def InOrder (s : SendThenShutdown) : Act → Prop
  | .shutdownInLoop => s.view.conn.channel.isWriting = true ∨ s.ledger.NoneQueued
  | .afterDrain => s.view.conn.state = .kDisconnecting → s.ledger.NoneQueued
  | .sendInLoop w => s.Short w (s.pc none)
  | .run data w => s.Intact data w s.ledger.tasks.head?
  | _ => True

/-- The invariant of the runs in order. -/
structure ShutInv (s : SendThenShutdown) : Prop where
  stream : OutgoingStream.StreamInv ⟨s.view, s.ledger.delivered.map Prod.snd⟩
  isOpen : s.view.conn.state ≠ .kDisconnected
  ledger : s.ledger.Sound
  /-- Nothing has happened to the write side before the first call of `shutdown`. -/
  quiet : s.ledger.mark = none → s.view.shutWr = 0 ∧ s.view.conn.state ≠ .kDisconnecting ∧
    ∀ t, (s.pc t).inShutdown = false
  accepted : 0 < s.view.shutWr → ∀ n, s.ledger.Owed n → s.ledger.Accepted s.view.accepted n
  /-- What comes to the queue behind `SHUT_WR` is not owed. -/
  late : 0 < s.view.shutWr → s.ledger.NoneQueued

lemma shutInv_of_init (h : (system self).init s) : ShutInv s := by
  obtain ⟨hestablished, hshut, hpc, hledger⟩ := h
  have hstate := hestablished.state
  refine ⟨?_, by rw [hstate]; decide, hledger ▸ .empty, fun _ => ⟨hshut, ?_, fun t => ?_⟩, ?_, ?_⟩
  · refine OutgoingStream.streamInv_of_established hestablished ?_
    rw [hledger]
    rfl
  · rw [hstate]
    decide
  · rw [hpc t]
    rfl
  · intro hpos
    omega
  · intro hpos
    omega

/-- A thread goes on; before the first call of `shutdown` it goes to none. -/
lemma ShutInv.setPc (hI : ShutInv s) (t : Option ℕ) {pc : CallPc}
    (hpc : s.ledger.mark = none → pc.inShutdown = false) : ShutInv (s.setPc t pc) := by
  refine ⟨hI.stream, hI.isOpen, hI.ledger, fun hmark => ?_, hI.accepted, hI.late⟩
  obtain ⟨hshut, hstate, hall⟩ := hI.quiet hmark
  refine ⟨hshut, hstate, fun t' => ?_⟩
  by_cases heq : t' = t
  · subst heq
    simp only [SendThenShutdown.setPc, Function.update_self]
    exact hpc hmark
  · simp only [SendThenShutdown.setPc, Function.update_of_ne heq]
    exact hall t'

/-- A thread in a call of `shutdown` shows that there has been one. -/
lemma ShutInv.mark_ne_none (hI : ShutInv s) {t : Option ℕ} (ht : (s.pc t).inShutdown = true) :
    s.ledger.mark ≠ none := by
  intro hmark
  exact absurd (((hI.quiet hmark).2.2 t).symm.trans ht) (by decide)

/-- A change of the ledger that delivers nothing and owes nothing new. -/
lemma ShutInv.setLedger (hI : ShutInv s) {l : Ledger} (hsound : l.Sound)
    (hdelivered : l.delivered = s.ledger.delivered) (hmark : l.mark = s.ledger.mark)
    (hmessages : s.ledger.messages <+: l.messages)
    (hlate : s.ledger.NoneQueued → l.NoneQueued) : ShutInv { s with ledger := l } := by
  refine ⟨?_, hI.isOpen, hsound, fun hnone => hI.quiet (hmark ▸ hnone), fun hpos n howed => ?_,
    fun hpos => hlate (hI.late hpos)⟩
  · change OutgoingStream.StreamInv ⟨s.view, l.delivered.map Prod.snd⟩
    rw [hdelivered]
    exact hI.stream
  · have howed' := (Ledger.owed_congr hmark n).mp howed
    exact (hI.accepted hpos n howed').mono (hdelivered ▸ List.prefix_refl _) hmessages
      (List.prefix_refl _)

/-- The first call of `shutdown` marks what has been sent; no later call does. -/
lemma ShutInv.setMark (hI : ShutInv s) : ShutInv { s with ledger := s.ledger.setMark } := by
  have hsame : 0 < s.view.shutWr → s.ledger.setMark = s.ledger := by
    intro hpos
    cases hmark : s.ledger.mark with
    | none => exact absurd (hI.quiet hmark).1 (Nat.ne_of_gt hpos)
    | some k => exact Ledger.setMark_of_mark hmark
  refine ⟨hI.stream, hI.isOpen, hI.ledger.setMark, fun hnone => ?_, fun hpos n howed => ?_,
    fun hpos => ?_⟩
  · cases hnone
  · simp only [hsame hpos] at howed ⊢
    exact hI.accepted hpos n howed
  · simp only [hsame hpos]
    exact hI.late hpos

/-- The write side is shut down, or a write is awaited, when nothing that is owed is queued. -/
lemma ShutInv.shutdownInLoop (hI : ShutInv s) (hmark : s.ledger.mark ≠ none)
    (hok : s.view.conn.channel.isWriting = true ∨ s.ledger.NoneQueued) :
    ShutInv { s with view := s.view.shutdownInLoop } := by
  obtain ⟨-, haccepted, hstate, -⟩ := s.view.shutdownInLoop_stream
  refine ⟨hI.stream.shutdownInLoop, hstate ▸ hI.isOpen, hI.ledger,
    fun hnone => absurd hnone hmark, fun hpos n howed => ?_, fun hpos => ?_⟩
  · change s.ledger.Accepted s.view.shutdownInLoop.accepted n
    rw [haccepted]
    by_cases hwriting : s.view.conn.channel.isWriting = true
    · refine hI.accepted ?_ n howed
      rw [View.shutWr_shutdownInLoop, if_pos hwriting] at hpos
      exact hpos
    · -- the buffer is empty, so the kernel has accepted everything delivered
      have hnone := hok.resolve_left hwriting
      have hi := hI.stream.interested hI.isOpen
      have hempty : s.view.buffered = [] := Decidable.not_not.mp fun hne => hwriting (hi.mpr hne)
      have hall : s.view.accepted ++ s.view.buffered =
          (s.ledger.delivered.map Prod.snd).flatten := hI.stream.stream
      rw [hempty, List.append_nil] at hall
      rw [hall]
      exact hI.ledger.accepted hnone howed
  · rcases hok with hwriting | hnone
    · rw [View.shutWr_shutdownInLoop, if_pos hwriting] at hpos
      exact hI.late hpos
    · exact hnone

/-- Before the write side is shut down, a short message is passed on whole. -/
lemma ShutInv.passed_eq (hI : ShutInv s) {data : Memory} {m : List UInt8} {w : WriteResult}
    (hshut : s.view.shutWr = 0) (hstays : s.view.PeerStays w) (hshort : m.length < 2 ^ 31)
    (hshows : data.bytes 0 m.length = m) (hkept : s.view.ErrnoKept m w) :
    s.passed data m.length w = m := by
  rw [passed, toSize_toInt_of_lt hshort, hshows]
  by_cases hm : m = []
  · rw [hm, ite_self]
  · exact if_neg (hstays.not_discards hshut hI.isOpen hkept hm)

/-- `sendInLoop` runs on a connection that is not closed, and its peer stays. -/
lemma ShutInv.transmit (hI : ShutInv s) {data : Memory} {size : ℕ} {w : WriteResult} {v : View}
    (h : s.transmit self data size w = some v) {l : Ledger} {n : ℕ}
    (hsound : s.view.PeerStays w → l.Sound)
    (hdelivered : l.delivered = s.ledger.delivered ++ [(n, s.passed data size w)])
    (hmark : l.mark = s.ledger.mark) (hmessages : s.ledger.messages <+: l.messages)
    (hlate : s.ledger.NoneQueued → l.NoneQueued) : ShutInv { s with view := v, ledger := l } := by
  obtain ⟨⟨hw, hstays⟩, h⟩ := Option.ite_none_right_eq_some.mp h
  have hv := Except.toOption_eq_some_iff.mp h
  rw [View.sendInLoop, if_neg hI.isOpen] at hv
  have hstate := (View.sendBody_stream hI.stream.wellFormed
    (hI.stream.interested hI.isOpen) hw hv).2.2.1
  have hshut := View.sendBody_shutWr hv
  refine ⟨?_, hstate ▸ hI.isOpen, hsound hstays, fun hnone => ?_, fun hpos n' howed => ?_,
    fun hpos => hlate (hI.late (hshut ▸ hpos))⟩
  · refine (hI.stream.sendBody hI.isOpen hw hv).congr ?_
    rw [hdelivered, List.map_append, List.map_singleton, passed]
    split <;> simp
  · obtain ⟨hzero, hopen, hall⟩ := hI.quiet (hmark ▸ hnone)
    exact ⟨hshut.trans hzero, hstate ▸ hopen, hall⟩
  · have howed' := (Ledger.owed_congr hmark n').mp howed
    exact (hI.accepted (hshut ▸ hpos) n' howed').mono (hdelivered ▸ List.prefix_append _ _)
      hmessages (View.accepted_prefix_sendBody hv)

/-- The store in `shutdown`. -/
lemma ShutInv.setDisconnecting (hI : ShutInv s) (hmark : s.ledger.mark ≠ none) :
    ShutInv { s with view := s.view.setState .kDisconnecting } := by
  have hopen : (s.view.setState .kDisconnecting).conn.state ≠ .kDisconnected := nofun
  exact ⟨hI.stream.of_eq rfl rfl (.inr ⟨iff_of_false hopen hI.isOpen, rfl⟩), hopen, hI.ledger,
    fun hnone => absurd hnone hmark, hI.accepted, hI.late⟩

/-- `handleWrite` up to the drain. -/
lemma ShutInv.writeOutput (hI : ShutInv s) {w : WriteResult} {v : View} {drained : Bool}
    (h : s.view.writeOutput self w = .ok (v, drained)) : ShutInv { s with view := v } := by
  have hstate := (View.writeOutput_stream hI.stream.wellFormed
    (hI.stream.interested hI.isOpen) h).2.2.1
  have hshut := (View.writeOutput_shutWr h).1
  refine ⟨hI.stream.writeOutput h, hstate ▸ hI.isOpen, hI.ledger, fun hnone => ?_,
    fun hpos n howed => ?_, fun hpos => hI.late (hshut ▸ hpos)⟩
  · obtain ⟨hzero, hopen, hall⟩ := hI.quiet hnone
    exact ⟨hshut.trans hzero, hstate ▸ hopen, hall⟩
  · exact (hI.accepted (hshut ▸ hpos) n howed).mono (List.prefix_refl _) (List.prefix_refl _)
      (View.accepted_prefix_writeOutput h)

/-- While a message that may be owed is queued, the write side is not shut down. -/
lemma ShutInv.shutWr_eq_zero (hI : ShutInv s) {n : ℕ} {m : List UInt8} {born : ℕ}
    {q : BatchQueue Task} (htake : s.ledger.queue.take = some (⟨.send n m, born⟩, q))
    (howed : s.ledger.MayBeOwed n) : s.view.shutWr = 0 := by
  cases hmark : s.ledger.mark with
  | none => exact (hI.quiet hmark).1
  | some k =>
    refine Nat.eq_zero_of_not_pos fun hpos => hI.late hpos (.send n m) ?_ ⟨k, hmark, howed k hmark⟩
    rw [Ledger.tasks_eq_cons htake []]
    exact List.mem_cons_self

/-- Every step in order keeps the invariant. -/
lemma ShutInv.step {a : Act} (hI : ShutInv s) (hok : s.InOrder a) (h : s.step self a = some s') :
    ShutInv s' := by
  cases a with
  | send t m =>
    obtain ⟨-, h⟩ := Option.ite_none_right_eq_some.mp h
    obtain rfl := Option.some.inj h
    split
    · exact hI.setPc t fun _ => rfl
    · exact hI
  | sendInLoop w =>
    simp only [SendThenShutdown.step] at h
    split at h
    · next m hm =>
      obtain ⟨v, hv, rfl⟩ := Option.map_eq_some_iff.mp h
      have hsound : s.view.PeerStays w →
          (s.ledger.sendHere m (s.passed (.ofString m) m.length w)).Sound := by
        refine fun hstays => hI.ledger.sendHere fun hmark => ?_
        have hshort : s.Short w (s.pc none) := hok
        rw [hm] at hshort
        obtain ⟨hlen, hkept⟩ := hshort hmark
        exact hI.passed_eq (hI.quiet hmark).1 hstays hlen (Memory.bytes_ofString m) hkept
      exact (hI.transmit hv hsound rfl rfl (List.prefix_append _ _) id).setPc none fun _ => rfl
    · cases h
  | pushSend u =>
    simp only [SendThenShutdown.step] at h
    split at h
    · next m hm =>
      obtain rfl := Option.some.inj h
      exact (hI.setLedger (hI.ledger.pushSend m) rfl rfl (List.prefix_append _ _)
        fun hnone => hnone.pushSend hI.ledger m).setPc (some u) fun _ => rfl
    · cases h
  | shutdown t =>
    obtain ⟨-, h⟩ := Option.ite_none_right_eq_some.mp h
    obtain rfl := Option.some.inj h
    exact hI.setMark.setPc t fun hnone => by cases hnone
  | load t =>
    obtain ⟨hpc, h⟩ := Option.ite_none_right_eq_some.mp h
    obtain rfl := Option.some.inj h
    have hmark := hI.mark_ne_none (t := t) (by rw [hpc]; rfl)
    exact hI.setPc t fun hnone => absurd hnone hmark
  | store t =>
    obtain ⟨hpc, h⟩ := Option.ite_none_right_eq_some.mp h
    obtain rfl := Option.some.inj h
    have hmark := hI.mark_ne_none (t := t) (by rw [hpc]; rfl)
    exact (hI.setDisconnecting hmark).setPc t fun hnone => absurd hnone hmark
  | shutdownInLoop =>
    obtain ⟨hpc, h⟩ := Option.ite_none_right_eq_some.mp h
    obtain rfl := Option.some.inj h
    have hmark := hI.mark_ne_none (t := none) (by rw [hpc]; rfl)
    exact (hI.shutdownInLoop hmark hok).setPc none fun _ => rfl
  | pushShutdown u =>
    obtain ⟨hpc, h⟩ := Option.ite_none_right_eq_some.mp h
    obtain rfl := Option.some.inj h
    have hmark := hI.mark_ne_none (t := some u) (by rw [hpc]; rfl)
    exact (hI.setLedger (hI.ledger.pushShutdown hmark) rfl rfl (List.prefix_refl _)
      fun hnone => hnone.pushShutdown).setPc (some u) fun _ => rfl
  | swap =>
    obtain ⟨⟨-, hbatch⟩, h⟩ := Option.ite_none_right_eq_some.mp h
    obtain rfl := Option.some.inj h
    exact hI.setLedger (hI.ledger.swap hbatch) rfl rfl (List.prefix_refl _) fun hnone =>
      hnone.swap hbatch
  | run data w =>
    obtain ⟨-, h⟩ := Option.ite_none_right_eq_some.mp h
    split at h
    · next n m born q htake =>
      obtain ⟨v, hv, rfl⟩ := Option.map_eq_some_iff.mp h
      have hsound : s.view.PeerStays w →
          (s.ledger.taken q [(n, s.passed data m.length w)]).Sound := by
        refine fun hstays => hI.ledger.runSend htake rfl fun howed => ?_
        have hintact : s.Intact data w s.ledger.tasks.head? := hok
        rw [Ledger.tasks_eq_cons htake []] at hintact
        obtain ⟨hlen, hshows, hkept⟩ := hintact howed
        exact hI.passed_eq (hI.shutWr_eq_zero htake howed) hstays hlen hshows hkept
      exact hI.transmit hv hsound rfl rfl (List.prefix_refl _) fun hnone => hnone.taken htake _
    · next born q htake =>
      obtain rfl := Option.some.inj h
      obtain ⟨hsound, hnone⟩ := hI.ledger.runShutdown htake rfl
      have hmem : Task.shutdown ∈ s.ledger.tasks := by
        rw [Ledger.tasks_eq_cons htake []]
        exact List.mem_cons_self
      have hmark : s.ledger.mark ≠ none := fun hunmarked => hI.ledger.unmarked hunmarked hmem
      have hI₁ := hI.setLedger hsound (List.append_nil _) rfl (List.prefix_refl _) fun _ => hnone
      exact hI₁.shutdownInLoop hmark (.inr hnone)
    · cases h
  | handleWrite w =>
    obtain ⟨-, h⟩ := Option.ite_none_right_eq_some.mp h
    obtain ⟨⟨v, drained⟩, hv, rfl⟩ := Option.map_eq_some_iff.mp h
    refine (hI.writeOutput (Except.toOption_eq_some_iff.mp hv)).setPc none fun _ => ?_
    cases drained <;> rfl
  | afterDrain =>
    obtain ⟨-, h⟩ := Option.ite_none_right_eq_some.mp h
    obtain rfl := Option.some.inj h
    unfold View.afterDrain
    split
    · next hstate =>
      have hmark : s.ledger.mark ≠ none := fun hunmarked => (hI.quiet hunmarked).2.1 hstate
      exact (hI.shutdownInLoop hmark (.inr (hok hstate))).setPc none fun _ => rfl
    · exact hI.setPc none fun _ => rfl

/-- In every run in order, when the write side has been shut down, every byte of every message
whose `send` had returned before the first call of `shutdown` began has been accepted by the
kernel. -/
theorem accepted_of_shutWr (h : (system self).ReachWhere InOrder s) (hshut : 0 < s.view.shutWr) :
    ∀ n, s.ledger.Owed n → s.ledger.Accepted s.view.accepted n := by
  have hI : ShutInv s := by
    refine h.invariant ?_ fun _ _ _ hI hok hs => hI.step hok hs
    exact fun _ hs => shutInv_of_init hs
  exact hI.accepted hshut

instance (s : SendThenShutdown) (a : Act) : Decidable (s.InOrder a) := by
  unfold InOrder
  split <;> infer_instance

/-- An established connection nobody has called anything on. -/
def exampleStart : SendThenShutdown where
  view := OutgoingStream.exampleStream.view
  pc := fun _ => .idle
  ledger := .empty

lemma exampleStart_init : (system 0).init exampleStart :=
  ⟨⟨rfl, by decide, Buffer.wellFormed_new, Buffer.readable_new, rfl⟩, rfl, fun _ => rfl, rfl⟩

/-- Thread 0 sends, thread 1 shuts down, and the loop runs both functors and that of a `send` which
came too late: its direct write finds the pipe broken. -/
def inOrderRun : List Act :=
  [.send (some 0) [1, 2, 3], .pushSend 0, .send (some 2) [7], .shutdown (some 1), .load (some 1),
    .store (some 1), .pushShutdown 1, .pushSend 2, .swap, .run (.ofString [1, 2, 3]) (.wrote 3),
    .run (.ofString []) (.wrote 0), .run (.ofString [7]) (.failed EPIPE EPIPE)]

/-- The theorem at the end of that run. -/
theorem accepted_of_shutWr_inOrderRun : ∃ s, (system 0).Reach s ∧ s.view.shutWr = 1 ∧
    s.ledger.Owed 0 ∧ s.ledger.Accepted s.view.accepted 0 := by
  obtain ⟨s, hs, hv⟩ := TransitionSystem.exists_reach_of_run
    (M := (system 0).restrict InOrder) (s := exampleStart) (v := (1, some 1)) inOrderRun
    (fun s => (s.view.shutWr, s.ledger.mark)) exampleStart_init (by decide +kernel)
  obtain ⟨hshut, hmark⟩ := Prod.mk.inj hv
  have hwhere := TransitionSystem.Reach.of_restrict hs
  have howed : s.ledger.Owed 0 := ⟨1, hmark, Nat.one_pos⟩
  exact ⟨s, hwhere.reach, hshut, howed, accepted_of_shutWr hwhere (by omega) 0 howed⟩

/-- Thread 0 sends, and its `send` returns; then the loop thread calls `shutdown`. -/
def overtakenRun : List Act :=
  [.send (some 0) [1, 2, 3], .pushSend 0, .shutdown none, .load none, .store none, .shutdownInLoop]

/-- The write side is shut down with the message still in the queue. -/
theorem exists_overtaken : ∃ s, (system 0).Reach s ∧ 0 < s.view.shutWr ∧ s.ledger.Owed 0 ∧
    ¬ s.ledger.Accepted s.view.accepted 0 := by
  obtain ⟨s, hs, hv⟩ := TransitionSystem.exists_reach_of_run (M := system 0) (s := exampleStart)
    (v := (1, some 1, [])) overtakenRun
    (fun s => (s.view.shutWr, s.ledger.mark, s.ledger.delivered)) exampleStart_init
    (by decide +kernel)
  simp only [Prod.mk.injEq] at hv
  obtain ⟨hshut, hmark, hdelivered⟩ := hv
  refine ⟨s, hs, by omega, ⟨1, hmark, Nat.one_pos⟩, ?_⟩
  rintro ⟨before, m, after, heq, -⟩
  rw [hdelivered] at heq
  simp at heq

end SendThenShutdown

end HzhMuduo
