import HzhMuduo.Foundation.TransitionSystem

/-!
# Queues drained in batches

A batch queue has two lists.  Producers append to `pending`; the consumer, once its `batch`
is used up, takes the whole of `pending` as the next batch in one move (`swap`) and then
takes items from the front of the batch (`take`).

The queue keeps its own history: `accepted` is what was ever pushed, `taken` what was ever
taken, and every item is stamped with the number of batches begun before it was pushed.
`Sound` is the invariant of that history.  It says that the history is one of a plain first
in, first out queue (`accepted = taken ++ batch ++ pending`), and that no item is taken in a
batch that had already begun when the item was pushed.

The last section makes the first half into a simulation: `batchSystem` is refined by nothing
else than `fifoSystem`, the queue with a single list, where `swap` is invisible.
-/

/-- An item together with the number of batches begun before it was pushed. -/
structure Stamped (α : Type*) where
  item : α
  born : ℕ
  deriving DecidableEq

/-- A queue drained in batches, with its history. -/
structure BatchQueue (α : Type*) where
  pending : List (Stamped α)
  batch : List (Stamped α)
  begun : ℕ
  accepted : List (Stamped α)
  taken : List (Stamped α × ℕ)

namespace BatchQueue

variable {α : Type*}

/-- The queue nothing was pushed to yet. -/
def empty : BatchQueue α where
  pending := []
  batch := []
  begun := 0
  accepted := []
  taken := []

/-- Append an item to `pending`. -/
def push (q : BatchQueue α) (a : α) : BatchQueue α :=
  { q with
    pending := q.pending ++ [⟨a, q.begun⟩]
    accepted := q.accepted ++ [⟨a, q.begun⟩] }

/-- Begin the next batch: the whole of `pending` becomes the batch. -/
def swap (q : BatchQueue α) : BatchQueue α :=
  { q with pending := [], batch := q.pending, begun := q.begun + 1 }

/-- Take the first item of the batch. -/
def take (q : BatchQueue α) : Option (Stamped α × BatchQueue α) :=
  match q.batch with
  | [] => none
  | x :: xs => some (x, { q with batch := xs, taken := q.taken ++ [(x, q.begun)] })

/-- The items waiting in the queue, the next one to be taken first. -/
def content (q : BatchQueue α) : List (Stamped α) := q.batch ++ q.pending

@[simp] lemma push_batch (q : BatchQueue α) (a : α) : (q.push a).batch = q.batch := rfl

@[simp] lemma push_taken (q : BatchQueue α) (a : α) : (q.push a).taken = q.taken := rfl

@[simp] lemma push_pending (q : BatchQueue α) (a : α) :
    (q.push a).pending = q.pending ++ [⟨a, q.begun⟩] := rfl

@[simp] lemma push_accepted (q : BatchQueue α) (a : α) :
    (q.push a).accepted = q.accepted ++ [⟨a, q.begun⟩] := rfl

@[simp] lemma swap_batch (q : BatchQueue α) : q.swap.batch = q.pending := rfl

@[simp] lemma swap_pending (q : BatchQueue α) : q.swap.pending = [] := rfl

@[simp] lemma swap_accepted (q : BatchQueue α) : q.swap.accepted = q.accepted := rfl

@[simp] lemma swap_taken (q : BatchQueue α) : q.swap.taken = q.taken := rfl

/-- Taking succeeds exactly on a nonempty batch, and only moves its first item to the
history. -/
lemma take_eq_some_iff {q q' : BatchQueue α} {x : Stamped α} :
    q.take = some (x, q') ↔
      ∃ xs, q.batch = x :: xs ∧ q' = { q with batch := xs, taken := q.taken ++ [(x, q.begun)] } := by
  unfold take
  cases hb : q.batch with
  | nil => simp
  | cons y ys => aesop

/-- What is pushed waits behind everything else. -/
lemma content_push (q : BatchQueue α) (a : α) :
    (q.push a).content = q.content ++ [⟨a, q.begun⟩] := by
  simp [content]

/-- Beginning a batch changes nothing of what waits, once the previous batch is used up. -/
lemma content_swap {q : BatchQueue α} (hb : q.batch = []) : q.swap.content = q.content := by
  simp [content, hb]

/-- What is taken was the next in line. -/
lemma content_take {q q' : BatchQueue α} {x : Stamped α} (h : q.take = some (x, q')) :
    q.content = x :: q'.content := by
  obtain ⟨xs, hb, rfl⟩ := take_eq_some_iff.mp h
  simp [content, hb]

/-- The history of a batch queue is that of a first in, first out queue, and every item is
taken in a batch begun after the item was pushed. -/
structure Sound (q : BatchQueue α) : Prop where
  fifo : q.accepted = q.taken.map Prod.fst ++ q.content
  pending_born : ∀ x ∈ q.pending, x.born ≤ q.begun
  batch_born : ∀ x ∈ q.batch, x.born < q.begun
  taken_born : ∀ x ∈ q.taken, x.1.born < x.2 ∧ x.2 ≤ q.begun

/-- A new queue is sound. -/
theorem Sound.empty : Sound (empty : BatchQueue α) := by
  constructor <;> simp [BatchQueue.empty, content]

/-- Pushing keeps a queue sound. -/
theorem Sound.push {q : BatchQueue α} (h : q.Sound) (a : α) : (q.push a).Sound where
  fifo := by simp [h.fifo, content]
  pending_born x hx := by
    rcases List.mem_append.mp hx with hx | hx
    · exact h.pending_born x hx
    · obtain rfl := List.mem_singleton.mp hx
      exact Nat.le_refl _
  batch_born := h.batch_born
  taken_born := h.taken_born

/-- Beginning the next batch keeps a queue sound, once the previous batch is used up. -/
theorem Sound.swap {q : BatchQueue α} (h : q.Sound) (hb : q.batch = []) : q.swap.Sound where
  fifo := by simp [h.fifo, content, hb]
  pending_born x hx := absurd hx List.not_mem_nil
  batch_born x hx := Nat.lt_succ_of_le (h.pending_born x hx)
  taken_born x hx := ⟨(h.taken_born x hx).1, Nat.le_succ_of_le (h.taken_born x hx).2⟩

/-- Taking keeps a queue sound. -/
theorem Sound.take {q q' : BatchQueue α} {x : Stamped α} (h : q.Sound)
    (ht : q.take = some (x, q')) : q'.Sound := by
  obtain ⟨xs, hb, rfl⟩ := take_eq_some_iff.mp ht
  have hx : x.born < q.begun := h.batch_born x (by simp [hb])
  refine ⟨?_, h.pending_born, fun y hy => h.batch_born y (by simp [hb, hy]), ?_⟩
  · simpa [content, hb] using h.fifo
  · intro y hy
    rcases List.mem_append.mp hy with hy | hy
    · exact h.taken_born y hy
    · obtain rfl := List.mem_singleton.mp hy
      exact ⟨hx, Nat.le_refl _⟩

/-- Items taken so far are the oldest of the accepted ones, in the order of acceptance. -/
theorem Sound.taken_prefix {q : BatchQueue α} (h : q.Sound) :
    q.taken.map Prod.fst <+: q.accepted :=
  ⟨q.content, h.fifo.symm⟩

/-- The order of acceptance is kept for every selection of items, for instance for those of
one producer. -/
theorem Sound.filter_taken_prefix {q : BatchQueue α} (h : q.Sound) (p : Stamped α → Bool) :
    (q.taken.map Prod.fst).filter p <+: q.accepted.filter p :=
  h.taken_prefix.filter p

/-! ## The batch queue as a plain queue -/

/-- The moves of a batch queue. -/
inductive Move (α : Type*)
  | push (a : α)
  | swap
  | take

/-- A batch queue whose batch is used up before the next one begins. -/
def batchSystem (α : Type*) : TransitionSystem (BatchQueue α) (Move α) where
  init q := q = empty
  step q
    | .push a => some (q.push a)
    | .swap => if q.batch.isEmpty then some q.swap else none
    | .take => q.take.map Prod.snd

/-- A queue with a single list and what was taken from it. -/
structure Fifo (α : Type*) where
  waiting : List α
  taken : List α

/-- The first in, first out queue: items enter at the back and leave at the front. -/
def fifoSystem (α : Type*) : TransitionSystem (Fifo α) (Option α) where
  init q := q = ⟨[], []⟩
  step q
    | some a => some { q with waiting := q.waiting ++ [a] }
    | none =>
      match q.waiting with
      | [] => none
      | x :: xs => some ⟨xs, q.taken ++ [x]⟩

/-- What a plain queue keeps of a batch queue. -/
def toFifo (q : BatchQueue α) : Fifo α where
  waiting := q.content.map Stamped.item
  taken := q.taken.map fun x => x.1.item

/-- A batch queue simulates the plain queue: pushes and takes are pushes and takes, and
beginning a batch cannot be observed. -/
theorem batchSystem_refines_fifoSystem :
    TransitionSystem.Refinement (batchSystem α) (fifoSystem α) fun q f => f = q.toFifo where
  init q hq := ⟨q.toFifo, by subst hq; rfl, rfl⟩
  step q a q' f hf hs := by
    subst hf
    cases a with
    | push a =>
      obtain rfl : q.push a = q' := by simpa [batchSystem] using hs
      exact ⟨[some a], _, rfl, by simp [toFifo, content]⟩
    | swap =>
      obtain ⟨hb, rfl⟩ : q.batch = [] ∧ q.swap = q' := by
        simpa [batchSystem] using hs
      exact ⟨[], _, rfl, by simp [toFifo, content, hb]⟩
    | take =>
      obtain ⟨⟨x, t⟩, ht, rfl⟩ := Option.map_eq_some_iff.mp hs
      obtain ⟨xs, hb, rfl⟩ := take_eq_some_iff.mp ht
      exact ⟨[none], _, by simp [fifoSystem, toFifo, content, hb]; rfl, by simp [toFifo, content]⟩

end BatchQueue
