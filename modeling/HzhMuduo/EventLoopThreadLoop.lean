import HzhMuduo.Foundation.MachineWord
import HzhMuduo.Foundation.RoundRobin
import HzhMuduo.TcpConnection

/-!
# The pool of loops

`EventLoopThreadLoop` starts `numThreads_` threads with a loop each and hands the loops out one
after the other.  `start` is given here as what it leaves behind when it returns; the steps in
which the threads come to publish their loops are those of `StartUp`.

The base loop is loop 0, and the loop on the stack of the thread that was started as number `i`
is loop `i + 1`.
-/

namespace HzhMuduo

open MachineWord

/-- The loop on the stack of thread `i` of the pool. -/
def subLoop (i : ℕ) : LoopId := i + 1

lemma subLoop_ne_zero (i : ℕ) : subLoop i ≠ 0 := Nat.succ_ne_zero i

lemma subLoop_injective : Function.Injective subLoop := fun _ _ h => Nat.succ.inj h

/-- The thread pool; `numThreads_` and `next_` are `int`s. -/
structure EventLoopThreadLoop where
  baseLoop : LoopId
  started : Bool
  numThreads : ℤ
  next : ℤ
  loops : List LoopId
  deriving DecidableEq

namespace EventLoopThreadLoop

/-- The constructor. -/
def new (baseLoop : LoopId) : EventLoopThreadLoop where
  baseLoop := baseLoop
  started := false
  numThreads := 0
  next := 0
  loops := []

def setThreadNum (p : EventLoopThreadLoop) (numThreads : ℤ) : EventLoopThreadLoop :=
  { p with numThreads := numThreads }

/-- `start`, when it returns. -/
def start (p : EventLoopThreadLoop) : EventLoopThreadLoop :=
  { p with started := true, loops := p.loops ++ (List.range p.numThreads.toNat).map subLoop }

/-- `getNextLoop`.  There is no result where `next_` is no index of `loops_` or has no
successor. -/
def getNextLoop (p : EventLoopThreadLoop) : Option (LoopId × EventLoopThreadLoop) :=
  if p.loops = [] then some (p.baseLoop, p)
  else
    match p.loops[toSize p.next]? with
    | none => none
    | some loop =>
      if p.next = 2 ^ 31 - 1 then none
      else
        let next := p.next + 1
        some (loop, { p with next := if p.loops.length ≤ toSize next then 0 else next })

def getAllLoops (p : EventLoopThreadLoop) : List LoopId :=
  if p.loops = [] then [p.baseLoop] else p.loops

/-- The choices of `k` calls in a row. -/
def getNextLoops (p : EventLoopThreadLoop) : ℕ → Option (List LoopId × EventLoopThreadLoop)
  | 0 => some ([], p)
  | k + 1 =>
    (p.getNextLoops k).bind fun (calls, q) =>
      q.getNextLoop.map fun (loop, r) => (calls ++ [loop], r)

/-- A pool of `n` threads after `start`. -/
def pool (baseLoop : LoopId) (n : ℕ) : EventLoopThreadLoop :=
  ((new baseLoop).setThreadNum n).start

variable {p : EventLoopThreadLoop}

@[simp] lemma loops_pool (baseLoop : LoopId) (n : ℕ) :
    (pool baseLoop n).loops = (List.range n).map subLoop := rfl

lemma length_pool (baseLoop : LoopId) (n : ℕ) : (pool baseLoop n).loops.length = n := by
  rw [loops_pool, List.length_map, List.length_range]

/-- The loops of a pool: its sub-loops, or the base loop where there are none. -/
lemma getAllLoops_pool (baseLoop : LoopId) (n : ℕ) :
    (pool baseLoop n).getAllLoops = if n = 0 then [baseLoop] else (List.range n).map subLoop := by
  unfold getAllLoops
  rw [loops_pool]
  simp only [List.map_eq_nil_iff, List.range_eq_nil]
  rfl

lemma subLoop_mem_getAllLoops {k n : ℕ} : subLoop k ∈ (pool 0 n).getAllLoops ↔ k < n := by
  rw [getAllLoops_pool]
  split
  · next hzero => simp [hzero, subLoop_ne_zero]
  · simp [List.mem_map_of_injective subLoop_injective]

lemma base_mem_getAllLoops {n : ℕ} : 0 ∈ (pool 0 n).getAllLoops ↔ n = 0 := by
  rw [getAllLoops_pool]
  split
  · next hzero => simp [hzero]
  · next hne => simp [hne, subLoop_ne_zero]

/-- What `start` leaves behind. -/
structure Started (p : EventLoopThreadLoop) (n : ℕ) : Prop where
  length_eq : p.loops.length = n
  length_lt : n < 2 ^ 31
  nodup : p.loops.Nodup
  next_eq : p.next = 0

/-- The loops of different threads are different. -/
lemma nodup_subLoops (n : ℕ) : ((List.range n).map subLoop).Nodup :=
  List.nodup_range.map subLoop_injective

lemma started_pool (baseLoop : LoopId) {n : ℕ} (hn : n < 2 ^ 31) : (pool baseLoop n).Started n where
  length_eq := length_pool baseLoop n
  length_lt := hn
  nodup := nodup_subLoops n
  next_eq := rfl

/-- Without sub-loops the base loop is the choice. -/
lemma getNextLoop_of_nil (h : p.loops = []) : p.getNextLoop = some (p.baseLoop, p) :=
  if_pos h

/-- One call, with the cursor at an index of `loops_`. -/
lemma getNextLoop_of_lt {n i : ℕ} (h : p.Started n) (hi : i < n) :
    ∃ loop, p.loops[i]? = some loop ∧
      { p with next := i }.getNextLoop = some (loop, { p with next := ((i + 1) % n : ℕ) }) := by
  have hlength := h.length_eq
  have hlt := h.length_lt
  have hne : p.loops ≠ [] := List.ne_nil_of_length_pos (by omega)
  have hsize : toSize ((i : ℤ) + 1) = i + 1 := by
    exact_mod_cast toSize_of_lt (n := i + 1) (by omega)
  refine ⟨p.loops[i], List.getElem?_eq_getElem (by omega), ?_⟩
  simp only [getNextLoop, if_neg hne, toSize_of_lt (n := i) (by omega),
    List.getElem?_eq_getElem (hlength ▸ hi), hsize, hlength]
  rw [if_neg (by omega)]
  rcases Nat.lt_or_ge (i + 1) n with hnext | hwrap
  · rw [if_neg (by omega), Nat.mod_eq_of_lt hnext, Nat.cast_add, Nat.cast_one]
  · obtain rfl : i + 1 = n := by omega
    rw [if_pos le_rfl, Nat.mod_self, Nat.cast_zero]

/-- One call more. -/
lemma getNextLoops_succ {q r : EventLoopThreadLoop} {k : ℕ} {calls : List LoopId} {loop : LoopId}
    (hcalls : p.getNextLoops k = some (calls, q)) (hcall : q.getNextLoop = some (loop, r)) :
    p.getNextLoops (k + 1) = some (calls ++ [loop], r) := by
  simp only [getNextLoops, hcalls, hcall, Option.bind_some, Option.map_some]

/-- `k` calls in a row go round the sub-loops. -/
lemma getNextLoops_eq {n : ℕ} (h : p.Started n) (hpos : 0 < n) (k : ℕ) :
    p.getNextLoops k = some (p.loops.roundRobin k, { p with next := (k % n : ℕ) }) := by
  induction k with
  | zero =>
    rw [getNextLoops, Nat.zero_mod, Nat.cast_zero, ← h.next_eq]
    rfl
  | succ k ih =>
    obtain ⟨loop, hloop, hcall⟩ := getNextLoop_of_lt h (Nat.mod_lt k hpos)
    rw [getNextLoops_succ ih hcall, List.roundRobin_succ, h.length_eq, hloop, Nat.mod_add_mod,
      Option.toList_some]

/-- Without sub-loops `k` calls change nothing. -/
lemma getNextLoops_of_nil (h : p.loops = []) (k : ℕ) :
    p.getNextLoops k = some (List.replicate k p.baseLoop, p) := by
  induction k with
  | zero => rfl
  | succ k ih =>
    rw [getNextLoops_succ ih (getNextLoop_of_nil h), List.replicate_succ']

/-- The choices of a started pool.  With sub-loops the cursor stays at an index of `loops_`, the
call number `i` returns the loop at `i` modulo their number, and their shares differ by at most
one.  Without, every call returns the base loop and the pool stays as it is. -/
theorem getNextLoops_pool (baseLoop : LoopId) {n : ℕ} (hn : n < 2 ^ 31) (k : ℕ) :
    ∃ calls p, (pool baseLoop n).getNextLoops k = some (calls, p) ∧ calls.length = k ∧
      p.loops = (pool baseLoop n).loops ∧ p.loops.length = n ∧ p.loops.Nodup ∧
      (0 < n → 0 ≤ p.next ∧ p.next < n ∧ (∀ i < k, calls[i]? = p.loops[i % n]?) ∧
        ∀ x ∈ p.loops, ∀ y ∈ p.loops, calls.count x ≤ calls.count y + 1) ∧
      (n = 0 → p = pool baseLoop n ∧ ∀ loop ∈ calls, loop = baseLoop) := by
  have h := started_pool baseLoop hn
  rcases Nat.eq_zero_or_pos n with rfl | hpos
  · refine ⟨_, _, getNextLoops_of_nil rfl k, List.length_replicate, rfl, rfl, List.nodup_nil, ?_,
      fun _ => ⟨rfl, fun loop hloop => List.eq_of_mem_replicate hloop⟩⟩
    exact fun hlt => absurd hlt (Nat.lt_irrefl 0)
  · have hlength : 0 < (pool baseLoop n).loops.length := h.length_eq.symm ▸ hpos
    have hmod : k % n < n := Nat.mod_lt k hpos
    refine ⟨_, _, getNextLoops_eq h hpos k, List.length_roundRobin hlength k, rfl, h.length_eq,
      h.nodup, fun _ => ⟨Int.natCast_nonneg _, Int.ofNat_lt.mpr hmod, fun i hi => ?_,
        fun x hx y hy => List.count_roundRobin_le h.nodup hx hy k⟩, fun hzero => ?_⟩
    · rw [List.getElem?_roundRobin hlength hi, h.length_eq]
    · omega

/-- Seven choices among three sub-loops. -/
theorem getNextLoops_pool_three : ∃ calls p, (pool 0 3).getNextLoops 7 = some (calls, p) ∧
    ∀ x ∈ p.loops, ∀ y ∈ p.loops, calls.count x ≤ calls.count y + 1 := by
  obtain ⟨calls, p, hcalls, -, -, -, -, hfair, -⟩ :=
    getNextLoops_pool 0 (n := 3) (by decide) 7
  exact ⟨calls, p, hcalls, (hfair (by decide)).2.2.2⟩

example : ((pool 0 3).getNextLoops 7).map (fun x => (x.1, x.2.next)) =
    some ([1, 2, 3, 1, 2, 3, 1], 1) := by
  decide +kernel

end EventLoopThreadLoop

end HzhMuduo
