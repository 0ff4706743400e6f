import HzhMuduo.EventLoopThreadLoop
import HzhMuduo.Foundation.Handshake

/-!
# Start-up

`TcpServer::start`, called by any number of threads, with the threads it starts.  The first call
finds `started_` at zero.  It starts the threads of the pool one after the other, each with a
semaphore for the thread id and a handshake for the address of the loop, appends the loops to
`loops_`, and has the acceptor listen, at once on the thread of the base loop and through its
queue on any other.  A thread of the pool builds its loop, runs the init callback, and publishes
the loop.

The steps are single reads and writes of the shared variables.  `inits`, `listens` and `calls`
are histories: how often the init callback has completed on a loop, `Acceptor::listen` was
executed and `start` was called.
-/

namespace HzhMuduo

/-- What the server is started with; the flag says that `threadInitCallback_` is set. -/
structure StartConfig where
  numThreads : ℕ
  threadInitCallback : Bool

/-- Where a thread of the pool stands. -/
inductive StartUp.WorkerPc
  | notStarted
  | posting
  | constructing
  | callback
  | publishing
  | looping
  deriving DecidableEq

/-- An `EventLoopThread`: its thread, the semaphore of `Thread::start`, and `loop_` with
`mutex_` and `cond_`. -/
structure StartUp.Worker where
  pc : StartUp.WorkerPc
  sem : ℕ
  handshake : Handshake LoopId

/-- Where a thread that may call `TcpServer::start` stands: in no call, or in the call that found
`started_` at zero.  `i` is the variable of the loop in `EventLoopThreadLoop::start`, `k` the
number of the thread object. -/
inductive StartUp.Caller
  | idle
  | entering
  | atHead (i : ℕ)
  | starting (i : ℕ)
  | semWait (i k : ℕ)
  | waiting (i k : ℕ)
  | storing (i : ℕ) (loop : LoopId)
  | baseCallback
  | listening
  deriving DecidableEq

/-- The server while it starts.  Caller 0 is the thread of the base loop; `created` is the number
of elements of `threads_`, and `queued` the number of calls of `listen` queued in the base loop. -/
structure StartUp where
  started : BitVec 32
  pool : EventLoopThreadLoop
  created : ℕ
  callers : ℕ → StartUp.Caller
  workers : ℕ → StartUp.Worker
  queued : ℕ
  inits : LoopId → ℕ
  listens : ℕ
  calls : ℕ

namespace StartUp

open Handshake (WaiterAct PublisherAct)

/-- Steps of the callers of `start`, of the threads of the pool, and of the base loop. -/
inductive Act
  | call (j : ℕ)
  | enter (j : ℕ)
  | test (j : ℕ)
  | create (j : ℕ)
  | semWait (j : ℕ)
  | waiter (j : ℕ) (a : WaiterAct)
  | store (j : ℕ)
  | baseCallback (j : ℕ)
  | runInLoop (j : ℕ)
  | post (k : ℕ)
  | construct (k : ℕ)
  | callback (k : ℕ)
  | publisher (k : ℕ) (a : PublisherAct)
  | runFunctor

/-- An `EventLoopThread` after its constructor. -/
def Worker.new : Worker where
  pc := .notStarted
  sem := 0
  handshake := .new LoopId

section Updates

variable (s : StartUp)

def setCaller (j : ℕ) (p : Caller) : StartUp := { s with callers := Function.update s.callers j p }

def setWorker (k : ℕ) (w : Worker) : StartUp := { s with workers := Function.update s.workers k w }

/-- The init callback has returned on `loop`. -/
def initialized (loop : LoopId) : StartUp :=
  { s with inits := Function.update s.inits loop (s.inits loop + 1) }

@[simp] lemma setWorker_self (k : ℕ) (w : Worker) : (s.setWorker k w).workers k = w :=
  Function.update_self ..

lemma setWorker_of_ne {k k' : ℕ} (h : k' ≠ k) (w : Worker) :
    (s.setWorker k w).workers k' = s.workers k' :=
  Function.update_of_ne h ..

@[simp] lemma initialized_self (loop : LoopId) :
    (s.initialized loop).inits loop = s.inits loop + 1 :=
  Function.update_self ..

lemma initialized_of_ne {loop loop' : LoopId} (h : loop' ≠ loop) :
    (s.initialized loop).inits loop' = s.inits loop' :=
  Function.update_of_ne h ..

end Updates

/-- `startLoop` returns when the handshake is over. -/
def afterWait (i k : ℕ) : Handshake.Waiter LoopId → Caller
  | .done loop => .storing i loop
  | _ => .waiting i k

/-- `threadFunc` goes on to `loop()` when the handshake is over. -/
def afterPublish : Handshake.Publisher → WorkerPc
  | .done => .looping
  | _ => .publishing

def step (cfg : StartConfig) (s : StartUp) : Act → Option StartUp
  -- `if(started_++ == 0)`
  | .call j =>
    if s.callers j = .idle then
      let s' := { s with started := s.started + 1, calls := s.calls + 1 }
      some (if s.started = 0 then s'.setCaller j .entering else s')
    else none
  -- `EventLoopThreadLoop::start`
  | .enter j =>
    if s.callers j = .entering then
      some ({ s with pool := { s.pool with started := true } }.setCaller j (.atHead 0))
    else none
  | .test j =>
    match s.callers j with
    | .atHead i =>
      some (s.setCaller j
        (if (i : ℤ) < s.pool.numThreads then .starting i
        else if s.pool.numThreads = 0 ∧ cfg.threadInitCallback then .baseCallback
        else .listening))
    | _ => none
  -- `new EventLoopThread`, `threads_.emplace_back`, and `Thread::start` up to `sem_wait`
  | .create j =>
    match s.callers j with
    | .starting i =>
      some (({ s with created := s.created + 1 }.setWorker s.created
        { Worker.new with pc := .posting }).setCaller j (.semWait i s.created))
    | _ => none
  | .semWait j =>
    match s.callers j with
    | .semWait i k =>
      if 0 < (s.workers k).sem then
        some ((s.setWorker k { s.workers k with sem := (s.workers k).sem - 1 }).setCaller j
          (.waiting i k))
      else none
    | _ => none
  -- `startLoop` behind `thread_.start()`
  | .waiter j a =>
    match s.callers j with
    | .waiting i k =>
      ((s.workers k).handshake.waiterStep a).map fun h =>
        (s.setWorker k { s.workers k with handshake := h }).setCaller j (afterWait i k h.waiter)
    | _ => none
  | .store j =>
    match s.callers j with
    | .storing i loop =>
      some ({ s with pool := { s.pool with loops := s.pool.loops ++ [loop] } }.setCaller j
        (.atHead (i + 1)))
    | _ => none
  | .baseCallback j =>
    if s.callers j = .baseCallback then some ((s.initialized 0).setCaller j .listening) else none
  -- `loop_->runInLoop(std::bind(&Acceptor::listen, acceptor_.get()))`
  | .runInLoop j =>
    if s.callers j = .listening then
      let s' := if j = 0 then { s with listens := s.listens + 1 }
        else { s with queued := s.queued + 1 }
      some (s'.setCaller j .idle)
    else none
  -- the thread function, and `threadFunc`
  | .post k =>
    if (s.workers k).pc = .posting then
      some (s.setWorker k { s.workers k with pc := .constructing, sem := (s.workers k).sem + 1 })
    else none
  | .construct k =>
    if (s.workers k).pc = .constructing then
      some (s.setWorker k { s.workers k with
        pc := if cfg.threadInitCallback then .callback else .publishing })
    else none
  | .callback k =>
    if (s.workers k).pc = .callback then
      some ((s.initialized (subLoop k)).setWorker k { s.workers k with pc := .publishing })
    else none
  | .publisher k a =>
    if (s.workers k).pc = .publishing then
      ((s.workers k).handshake.publisherStep (subLoop k) a).map fun h =>
        s.setWorker k { s.workers k with pc := afterPublish h.publisher, handshake := h }
    else none
  -- `doPendingFunctors` of the base loop
  | .runFunctor =>
    if s.callers 0 = .idle ∧ 0 < s.queued then
      some { s with queued := s.queued - 1, listens := s.listens + 1 }
    else none

/-- A server with its thread number set, before `start`. -/
def new (cfg : StartConfig) : StartUp where
  started := 0
  pool := (EventLoopThreadLoop.new 0).setThreadNum cfg.numThreads
  created := 0
  callers := fun _ => .idle
  workers := fun _ => .new
  queued := 0
  inits := fun _ => 0
  listens := 0
  calls := 0

/-- All the threads, interleaved. -/
def system (cfg : StartConfig) : TransitionSystem StartUp Act where
  init s := s = new cfg
  step := step cfg

/-! ## What a step can be -/

variable {cfg : StartConfig} {s s' : StartUp}

/-- The steps of start-up. -/
inductive Step (cfg : StartConfig) (s : StartUp) : Act → StartUp → Prop
  | first {j} (hj : s.callers j = .idle) (hzero : s.started = 0) :
      Step cfg s (.call j)
        ({ s with started := s.started + 1, calls := s.calls + 1 }.setCaller j .entering)
  | later {j} (hj : s.callers j = .idle) (hne : s.started ≠ 0) :
      Step cfg s (.call j) { s with started := s.started + 1, calls := s.calls + 1 }
  | enter {j} (hj : s.callers j = .entering) :
      Step cfg s (.enter j)
        ({ s with pool := { s.pool with started := true } }.setCaller j (.atHead 0))
  | test {j i} (hj : s.callers j = .atHead i) :
      Step cfg s (.test j) (s.setCaller j
        (if (i : ℤ) < s.pool.numThreads then .starting i
        else if s.pool.numThreads = 0 ∧ cfg.threadInitCallback then .baseCallback
        else .listening))
  | create {j i} (hj : s.callers j = .starting i) :
      Step cfg s (.create j) (({ s with created := s.created + 1 }.setWorker s.created
        { Worker.new with pc := .posting }).setCaller j (.semWait i s.created))
  | semWait {j i k} (hj : s.callers j = .semWait i k) (hsem : 0 < (s.workers k).sem) :
      Step cfg s (.semWait j)
        ((s.setWorker k { s.workers k with sem := (s.workers k).sem - 1 }).setCaller j
          (.waiting i k))
  | waiter {j i k a x} (hj : s.callers j = .waiting i k)
      (hx : (s.workers k).handshake.waiterStep a = some x) :
      Step cfg s (.waiter j a)
        ((s.setWorker k { s.workers k with handshake := x }).setCaller j (afterWait i k x.waiter))
  | store {j i loop} (hj : s.callers j = .storing i loop) :
      Step cfg s (.store j)
        ({ s with pool := { s.pool with loops := s.pool.loops ++ [loop] } }.setCaller j
          (.atHead (i + 1)))
  | baseCallback {j} (hj : s.callers j = .baseCallback) :
      Step cfg s (.baseCallback j) ((s.initialized 0).setCaller j .listening)
  | listen (h0 : s.callers 0 = .listening) :
      Step cfg s (.runInLoop 0) ({ s with listens := s.listens + 1 }.setCaller 0 .idle)
  | queueListen {j} (hj : s.callers j = .listening) (hne : j ≠ 0) :
      Step cfg s (.runInLoop j) ({ s with queued := s.queued + 1 }.setCaller j .idle)
  | post {k} (hk : (s.workers k).pc = .posting) :
      Step cfg s (.post k)
        (s.setWorker k { s.workers k with pc := .constructing, sem := (s.workers k).sem + 1 })
  | construct {k} (hk : (s.workers k).pc = .constructing) :
      Step cfg s (.construct k) (s.setWorker k { s.workers k with
        pc := if cfg.threadInitCallback then .callback else .publishing })
  | callback {k} (hk : (s.workers k).pc = .callback) :
      Step cfg s (.callback k)
        ((s.initialized (subLoop k)).setWorker k { s.workers k with pc := .publishing })
  | publisher {k a x} (hk : (s.workers k).pc = .publishing)
      (hx : (s.workers k).handshake.publisherStep (subLoop k) a = some x) :
      Step cfg s (.publisher k a)
        (s.setWorker k { s.workers k with pc := afterPublish x.publisher, handshake := x })
  | runFunctor (h0 : s.callers 0 = .idle) (hqueued : 0 < s.queued) :
      Step cfg s .runFunctor { s with queued := s.queued - 1, listens := s.listens + 1 }

/-- Every step is one of these. -/
theorem step_cases {a : Act} (h : step cfg s a = some s') : Step cfg s a s' := by
  cases a with
  | call j =>
    obtain ⟨hj, h⟩ := Option.ite_none_right_eq_some.mp h
    obtain rfl := Option.some.inj h
    split
    · next hzero => exact .first hj hzero
    · next hne => exact .later hj hne
  | enter j =>
    obtain ⟨hj, h⟩ := Option.ite_none_right_eq_some.mp h
    obtain rfl := Option.some.inj h
    exact .enter hj
  | test j =>
    simp only [step] at h
    split at h
    · next i hj =>
      obtain rfl := Option.some.inj h
      exact .test hj
    · cases h
  | create j =>
    simp only [step] at h
    split at h
    · next i hj =>
      obtain rfl := Option.some.inj h
      exact .create hj
    · cases h
  | semWait j =>
    simp only [step] at h
    split at h
    · next i k hj =>
      obtain ⟨hsem, h⟩ := Option.ite_none_right_eq_some.mp h
      obtain rfl := Option.some.inj h
      exact .semWait hj hsem
    · cases h
  | waiter j a =>
    simp only [step] at h
    split at h
    · next i k hj =>
      obtain ⟨x, hx, rfl⟩ := Option.map_eq_some_iff.mp h
      exact .waiter hj hx
    · cases h
  | store j =>
    simp only [step] at h
    split at h
    · next i loop hj =>
      obtain rfl := Option.some.inj h
      exact .store hj
    · cases h
  | baseCallback j =>
    obtain ⟨hj, h⟩ := Option.ite_none_right_eq_some.mp h
    obtain rfl := Option.some.inj h
    exact .baseCallback hj
  | runInLoop j =>
    obtain ⟨hj, h⟩ := Option.ite_none_right_eq_some.mp h
    obtain rfl := Option.some.inj h
    split
    · next hbase =>
      subst hbase
      exact .listen hj
    · next hne => exact .queueListen hj hne
  | post k =>
    obtain ⟨hk, h⟩ := Option.ite_none_right_eq_some.mp h
    obtain rfl := Option.some.inj h
    exact .post hk
  | construct k =>
    obtain ⟨hk, h⟩ := Option.ite_none_right_eq_some.mp h
    obtain rfl := Option.some.inj h
    exact .construct hk
  | callback k =>
    obtain ⟨hk, h⟩ := Option.ite_none_right_eq_some.mp h
    obtain rfl := Option.some.inj h
    exact .callback hk
  | publisher k a =>
    obtain ⟨hk, h⟩ := Option.ite_none_right_eq_some.mp h
    obtain ⟨x, hx, rfl⟩ := Option.map_eq_some_iff.mp h
    exact .publisher hk hx
  | runFunctor =>
    obtain ⟨⟨h0, hqueued⟩, h⟩ := Option.ite_none_right_eq_some.mp h
    obtain rfl := Option.some.inj h
    exact .runFunctor h0 hqueued

/-- Calls are only added. -/
lemma calls_le_of_step {a : Act} (h : step cfg s a = some s') : s.calls ≤ s'.calls := by
  cases step_cases h with
  | first | later => exact Nat.le_succ _
  | _ => exact le_rfl

/-! ## The invariant -/

/-- How many thread objects the call that does the work has constructed. -/
def Caller.begun (n : ℕ) : Caller → ℕ
  | .entering => 0
  | .atHead i | .starting i => i
  | .semWait i _ | .waiting i _ | .storing i _ => i + 1
  | .baseCallback | .listening | .idle => n

/-- How many `startLoop` calls have returned to it. -/
def Caller.taken (n : ℕ) : Caller → ℕ
  | .entering => 0
  | .atHead i | .starting i | .semWait i _ | .waiting i _ => i
  | .storing i _ => i + 1
  | .baseCallback | .listening | .idle => n

/-- How many loops it has appended to `loops_`. -/
def Caller.appended (n : ℕ) : Caller → ℕ
  | .entering => 0
  | .atHead i | .starting i | .semWait i _ | .waiting i _ | .storing i _ => i
  | .baseCallback | .listening | .idle => n

/-- It has finished with the pool. -/
def Caller.pastPool : Caller → Bool
  | .listening | .idle => true
  | _ => false

/-- Its variables are those of the loop it is in. -/
def Caller.Fits (cfg : StartConfig) : Caller → Prop
  | .atHead i => i ≤ cfg.numThreads
  | .starting i => i < cfg.numThreads
  | .semWait i k | .waiting i k => i < cfg.numThreads ∧ k = i
  | .storing i loop => i < cfg.numThreads ∧ loop = subLoop i
  | .baseCallback => cfg.numThreads = 0 ∧ cfg.threadInitCallback = true
  | .entering | .listening | .idle => True

/-- The number of times the init callback is to run on a loop. -/
def once (b : Bool) : ℕ := if b then 1 else 0

/-- The state while the call that does the work stands at `p`; after it, `p` is `idle`. -/
structure Stage (cfg : StartConfig) (s : StartUp) (p : Caller) : Prop where
  fits : p.Fits cfg
  pool : s.pool =
    { (EventLoopThreadLoop.new 0).setThreadNum cfg.numThreads with
      started := decide (p ≠ .entering)
      loops := (List.range (p.appended cfg.numThreads)).map subLoop }
  created : s.created = p.begun cfg.numThreads
  fresh : ∀ k, p.begun cfg.numThreads ≤ k → s.workers k = .new
  returned : ∀ k < p.taken cfg.numThreads, (s.workers k).handshake.waiter = .done (subLoop k)
  base : s.inits 0 =
    once (cfg.threadInitCallback && decide (cfg.numThreads = 0) && p.pastPool)
  listens : s.listens + s.queued = once (decide (p = .idle))

/-- The init callback is behind the thread. -/
def WorkerPc.initialized : WorkerPc → Bool
  | .publishing | .looping => true
  | _ => false

/-- What holds of the thread object `k` of the pool, on whose loop the init callback has
completed `inits` times. -/
structure WorkerInv (cfg : StartConfig) (k : ℕ) (w : Worker) (inits : ℕ) : Prop where
  handshake : w.handshake.Inv (subLoop k)
  outside : w.pc.initialized = false → w.handshake.publisher = .outside
  called : w.pc = .callback → cfg.threadInitCallback = true
  inits : inits = once (cfg.threadInitCallback && w.pc.initialized)

/-- The invariant of the runs with fewer than `2 ^ 32` calls. -/
structure Inv (cfg : StartConfig) (s : StartUp) : Prop where
  started : s.started = BitVec.ofNat 32 s.calls
  workers : ∀ k, WorkerInv cfg k (s.workers k) (s.inits (subLoop k))
  first : s.calls = 0 → s = new cfg
  stage : s.calls ≠ 0 → ∃ j, (∀ j', j' ≠ j → s.callers j' = .idle) ∧ Stage cfg s (s.callers j)

lemma workerInv_new (cfg : StartConfig) (k : ℕ) : WorkerInv cfg k .new 0 where
  handshake := Handshake.inv_new _
  outside _ := rfl
  called := nofun
  inits := by simp [Worker.new, WorkerPc.initialized, once]

lemma inv_new (cfg : StartConfig) : Inv cfg (new cfg) where
  started := rfl
  workers k := workerInv_new cfg k
  first _ := rfl
  stage h := absurd rfl h

/-- A call that comes later finds `started_` above zero and leaves everything as it is. -/
lemma Stage.call {p : Caller} (h : Stage cfg s p) :
    Stage cfg { s with started := s.started + 1, calls := s.calls + 1 } p :=
  ⟨h.fits, h.pool, h.created, h.fresh, h.returned, h.base, h.listens⟩

/-- The first call. -/
lemma stage_entering (cfg : StartConfig) (j : ℕ) :
    Stage cfg ({ new cfg with started := 1, calls := 1 }.setCaller j .entering) .entering where
  fits := trivial
  pool := rfl
  created := rfl
  fresh _ _ := rfl
  returned _ hk := absurd hk (Nat.not_lt_zero _)
  base := by simp [Caller.pastPool, once, setCaller, new]
  listens := rfl

/-! ### Steps of the call that does the work -/

section Stages

variable {p : Caller} {i j k : ℕ} {loop : LoopId}

/-- A thread object that exists may change, as long as what `startLoop` has returned stays. -/
lemma Stage.setWorker (h : Stage cfg s p) (hk : k < p.begun cfg.numThreads) {w : Worker}
    (hw : k < p.taken cfg.numThreads → w.handshake.waiter = .done (subLoop k)) :
    Stage cfg (s.setWorker k w) p where
  fits := h.fits
  pool := h.pool
  created := h.created
  fresh k' hk' := by
    rw [setWorker_of_ne s (by omega)]
    exact h.fresh k' hk'
  returned k' hk' := by
    by_cases heq : k' = k
    · subst heq
      rw [setWorker_self]
      exact hw hk'
    · rw [setWorker_of_ne s heq]
      exact h.returned k' hk'
  base := h.base
  listens := h.listens

/-- The callback on a sub-loop. -/
lemma Stage.callback (h : Stage cfg s p) (k : ℕ) : Stage cfg (s.initialized (subLoop k)) p where
  fits := h.fits
  pool := h.pool
  created := h.created
  fresh := h.fresh
  returned := h.returned
  base := by
    rw [initialized_of_ne s (subLoop_ne_zero k).symm]
    exact h.base
  listens := h.listens

lemma Stage.enter (h : Stage cfg s .entering) :
    Stage cfg { s with pool := { s.pool with started := true } } (.atHead 0) where
  fits := Nat.zero_le _
  pool := by
    rw [h.pool]
    rfl
  created := h.created
  fresh := h.fresh
  returned := h.returned
  base := h.base
  listens := h.listens

/-- The head of the loop: one more thread, or the end of the pool's `start`. -/
lemma Stage.test (h : Stage cfg s (.atHead i)) :
    Stage cfg s (if (i : ℤ) < s.pool.numThreads then .starting i
      else if s.pool.numThreads = 0 ∧ cfg.threadInitCallback = true then .baseCallback
      else .listening) := by
  have hnum : s.pool.numThreads = cfg.numThreads := by
    rw [h.pool]
    rfl
  have hle : i ≤ cfg.numThreads := h.fits
  rw [hnum]
  split
  · next hlt => exact ⟨Int.ofNat_lt.mp hlt, h.pool, h.created, h.fresh, h.returned, h.base, h.listens⟩
  · next hge =>
    obtain rfl : i = cfg.numThreads := by omega
    split
    · next hbase =>
      exact ⟨⟨Int.ofNat_eq_zero.mp hbase.1, hbase.2⟩, h.pool, h.created, h.fresh, h.returned,
        h.base, h.listens⟩
    · next hbase =>
      have hnot : ¬ (cfg.threadInitCallback = true ∧ cfg.numThreads = 0) := fun hc =>
        hbase ⟨Int.ofNat_eq_zero.mpr hc.2, hc.1⟩
      refine ⟨trivial, h.pool, h.created, h.fresh, h.returned, ?_, h.listens⟩
      rw [h.base]
      simp [Caller.pastPool, once, hnot]

/-- A new thread object, with its thread. -/
lemma Stage.create (h : Stage cfg s (.starting i)) :
    Stage cfg ({ s with created := s.created + 1 }.setWorker s.created
      { Worker.new with pc := .posting }) (.semWait i s.created) := by
  have hcreated : s.created = i := h.created
  refine ⟨⟨h.fits, hcreated⟩, h.pool, congrArg (· + 1) hcreated, fun k hk => ?_, fun k hk => ?_,
    h.base, h.listens⟩
  · have hk : i + 1 ≤ k := hk
    rw [setWorker_of_ne _ (by omega)]
    exact h.fresh k (Nat.le_of_succ_le hk)
  · have hk : k < i := hk
    rw [setWorker_of_ne _ (by omega)]
    exact h.returned k hk

/-- The new thread has posted. -/
lemma Stage.semWait (h : Stage cfg s (.semWait i k)) (n : ℕ) :
    Stage cfg (s.setWorker k { s.workers k with sem := n }) (.waiting i k) := by
  have hk : k < i + 1 := Nat.lt_succ_of_le h.fits.2.le
  have h' := h.setWorker hk (w := { s.workers k with sem := n }) (h.returned k)
  exact ⟨h.fits, h'.pool, h'.created, h'.fresh, h'.returned, h'.base, h'.listens⟩

/-- A step of `startLoop`, the last of which returns the loop of its own thread. -/
lemma Stage.waiter (h : Stage cfg s (.waiting i k))
    (hk : (s.workers k).handshake.Inv (subLoop k)) {a : WaiterAct} {x : Handshake LoopId} (hx : (s.workers k).handshake.waiterStep a = some x) :
    Stage cfg (s.setWorker k { s.workers k with handshake := x }) (afterWait i k x.waiter) := by
  obtain ⟨hi, rfl⟩ := h.fits
  have h' := h.setWorker (Nat.lt_succ_self k) (w := { s.workers k with handshake := x })
    fun hlt => absurd hlt (Nat.lt_irrefl k)
  cases hwaiter : x.waiter with
  | done loop =>
    have hloop : loop = subLoop k := ((hk.waiterStep hx).eq_of_done hwaiter).1
    refine ⟨⟨hi, hloop⟩, h'.pool, h'.created, h'.fresh, fun k' hk' => ?_, h'.base, h'.listens⟩
    rcases Nat.lt_succ_iff_lt_or_eq.mp hk' with hlt | rfl
    · exact h'.returned k' hlt
    · rw [setWorker_self, hwaiter, hloop]
  | _ => exact ⟨⟨hi, rfl⟩, h'.pool, h'.created, h'.fresh, h'.returned, h'.base, h'.listens⟩

lemma Stage.store (h : Stage cfg s (.storing i loop)) :
    Stage cfg { s with pool := { s.pool with loops := s.pool.loops ++ [loop] } }
      (.atHead (i + 1)) := by
  obtain ⟨hi, rfl⟩ := h.fits
  refine ⟨hi, ?_, h.created, h.fresh, h.returned, h.base, h.listens⟩
  rw [h.pool]
  simp [Caller.appended, List.range_succ]

/-- The init callback on the base loop. -/
lemma Stage.baseCallback (h : Stage cfg s .baseCallback) :
    Stage cfg (s.initialized 0) .listening := by
  refine ⟨trivial, h.pool, h.created, h.fresh, h.returned, ?_, h.listens⟩
  rw [initialized_self, h.base]
  simp [Caller.pastPool, once, h.fits.1, h.fits.2]

/-- `listen` is called. -/
lemma Stage.listen (h : Stage cfg s .listening) :
    Stage cfg { s with listens := s.listens + 1 } .idle := by
  have hnone : s.listens + s.queued = 0 := h.listens
  refine ⟨trivial, h.pool, h.created, h.fresh, h.returned, h.base, ?_⟩
  show s.listens + 1 + s.queued = 1
  omega

/-- `listen` is queued. -/
lemma Stage.queueListen (h : Stage cfg s .listening) :
    Stage cfg { s with queued := s.queued + 1 } .idle := by
  have hnone : s.listens + s.queued = 0 := h.listens
  refine ⟨trivial, h.pool, h.created, h.fresh, h.returned, h.base, ?_⟩
  show s.listens + (s.queued + 1) = 1
  omega

/-- A queued `listen` is called. -/
lemma Stage.runFunctor (h : Stage cfg s p) (hqueued : 0 < s.queued) :
    Stage cfg { s with queued := s.queued - 1, listens := s.listens + 1 } p := by
  refine ⟨h.fits, h.pool, h.created, h.fresh, h.returned, h.base, ?_⟩
  rw [← h.listens]
  show s.listens + 1 + (s.queued - 1) = s.listens + s.queued
  omega

end Stages

/-! ### Steps of the threads of the pool -/

namespace WorkerInv

variable {k n : ℕ} {w : Worker}

/-- The thread has not run the init callback yet. -/
lemma inits_eq_zero (h : WorkerInv cfg k w n) (hpc : w.pc.initialized = false) : n = 0 := by
  rw [h.inits, hpc, Bool.and_false]
  rfl

/-- A step of the thread in front of the init callback. -/
lemma before (h : WorkerInv cfg k w n) (hpc : w.pc.initialized = false) {pc : WorkerPc} (sem : ℕ)
    (hpc' : pc.initialized = false) (hcalled : pc = .callback → cfg.threadInitCallback = true) :
    WorkerInv cfg k { w with pc := pc, sem := sem } n where
  handshake := h.handshake
  outside _ := h.outside hpc
  called := hcalled
  inits := by rw [h.inits, hpc, hpc']

/-- The semaphore says nothing about the callback. -/
lemma setSem (h : WorkerInv cfg k w n) (sem : ℕ) : WorkerInv cfg k { w with sem := sem } n :=
  ⟨h.handshake, h.outside, h.called, h.inits⟩

/-- A step of `startLoop`. -/
lemma waiter (h : WorkerInv cfg k w n) {a : WaiterAct} {x : Handshake LoopId}
    (hx : w.handshake.waiterStep a = some x) : WorkerInv cfg k { w with handshake := x } n where
  handshake := h.handshake.waiterStep hx
  outside hpc := (Handshake.publisher_of_waiterStep hx).trans (h.outside hpc)
  called := h.called
  inits := h.inits

/-- The loop is constructed, and there may be a callback to run on it. -/
lemma construct (h : WorkerInv cfg k w n) (hpc : w.pc = .constructing) :
    WorkerInv cfg k { w with pc := if cfg.threadInitCallback then .callback else .publishing } n := by
  have hzero := h.inits_eq_zero (hpc ▸ rfl)
  split
  · next hcb => exact h.before (hpc ▸ rfl) w.sem rfl fun _ => hcb
  · next hcb =>
    refine ⟨h.handshake, nofun, nofun, ?_⟩
    rw [hzero, eq_false_of_ne_true hcb]
    rfl

/-- The callback has returned. -/
lemma callback (h : WorkerInv cfg k w n) (hpc : w.pc = .callback) :
    WorkerInv cfg k { w with pc := .publishing } (n + 1) := by
  refine ⟨h.handshake, nofun, nofun, ?_⟩
  rw [h.inits_eq_zero (hpc ▸ rfl), h.called hpc]
  rfl

/-- A step of the publication. -/
lemma publisher (h : WorkerInv cfg k w n) (hpc : w.pc = .publishing) {a : PublisherAct}
    {x : Handshake LoopId} (hx : w.handshake.publisherStep (subLoop k) a = some x) :
    WorkerInv cfg k { w with pc := afterPublish x.publisher, handshake := x } n := by
  have hpc' : (afterPublish x.publisher).initialized = true := by
    cases x.publisher <;> rfl
  refine ⟨h.handshake.publisherStep hx, fun hc => ?_, fun hc => ?_, ?_⟩
  · cases hpc'.symm.trans hc
  · rw [show afterPublish x.publisher = .callback from hc] at hpc'
    cases hpc'
  · rw [h.inits, hpc, hpc']
    rfl

end WorkerInv

/-- A thread object is replaced, and the others stay. -/
lemma workers_setWorker (h : ∀ k, WorkerInv cfg k (s.workers k) (s.inits (subLoop k))) {k : ℕ}
    {w : Worker} (hk : WorkerInv cfg k w (s.inits (subLoop k))) (k' : ℕ) :
    WorkerInv cfg k' ((s.setWorker k w).workers k') (s.inits (subLoop k')) := by
  by_cases heq : k' = k
  · subst heq
    rw [setWorker_self]
    exact hk
  · rw [setWorker_of_ne s heq]
    exact h k'

/-- The init callback has returned on the loop of thread `k`. -/
lemma workers_callback (h : ∀ k, WorkerInv cfg k (s.workers k) (s.inits (subLoop k))) {k : ℕ}
    (hk : (s.workers k).pc = .callback) (k' : ℕ) :
    WorkerInv cfg k'
      (((s.initialized (subLoop k)).setWorker k { s.workers k with pc := .publishing }).workers k')
      ((s.initialized (subLoop k)).inits (subLoop k')) := by
  by_cases heq : k' = k
  · subst heq
    rw [setWorker_self, initialized_self]
    exact (h k').callback hk
  · rw [setWorker_of_ne _ heq, initialized_of_ne s (subLoop_injective.ne heq)]
    exact h k'

/-- A caller that is in a call is the one that does the work. -/
lemma Inv.owner (hI : Inv cfg s) {j : ℕ} (hj : s.callers j ≠ .idle) :
    s.calls ≠ 0 ∧ (∀ j', j' ≠ j → s.callers j' = .idle) ∧ Stage cfg s (s.callers j) := by
  have hcalls : s.calls ≠ 0 := by
    intro hzero
    rw [hI.first hzero] at hj
    exact hj rfl
  obtain ⟨j₀, hothers, hstage⟩ := hI.stage hcalls
  obtain rfl : j = j₀ := by
    by_contra hne
    exact hj (hothers j hne)
  exact ⟨hcalls, hothers, hstage⟩

/-- Where it stands. -/
lemma Inv.stageAt (hI : Inv cfg s) {j : ℕ} {p : Caller} (hj : s.callers j = p) (hp : p ≠ .idle) :
    Stage cfg s p := by
  subst hj
  exact (hI.owner hp).2.2

/-- A step of the caller that does the work. -/
lemma Inv.caller (hI : Inv cfg s) {j : ℕ} {p₀ : Caller} (hj : s.callers j = p₀) (hp₀ : p₀ ≠ .idle)
    {t : StartUp} {p : Caller}
    (hstarted : t.started = s.started) (hcalls : t.calls = s.calls)
    (hcallers : t.callers = s.callers)
    (hworkers : ∀ k, WorkerInv cfg k (t.workers k) (t.inits (subLoop k)))
    (hstage : Stage cfg t p) : Inv cfg (t.setCaller j p) := by
  obtain ⟨hpos, hothers, -⟩ := hI.owner (hj ▸ hp₀)
  refine ⟨?_, hworkers, fun hzero => absurd (hcalls.symm.trans hzero) hpos, fun _ => ⟨j, ?_, ?_⟩⟩
  · exact (hstarted.trans hI.started).trans (congrArg _ hcalls.symm)
  · intro j' hne
    exact (Function.update_of_ne hne ..).trans ((congrFun hcallers j').trans (hothers j' hne))
  · rw [show (t.setCaller j p).callers j = p from Function.update_self ..]
    exact ⟨hstage.fits, hstage.pool, hstage.created, hstage.fresh, hstage.returned, hstage.base,
      hstage.listens⟩

/-- A step of a thread of the pool, or of the base loop. -/
lemma Inv.other (hI : Inv cfg s) (hpos : s.calls ≠ 0) {t : StartUp}
    (hstarted : t.started = s.started) (hcalls : t.calls = s.calls)
    (hcallers : t.callers = s.callers)
    (hworkers : ∀ k, WorkerInv cfg k (t.workers k) (t.inits (subLoop k)))
    (hstage : ∀ p, Stage cfg s p → Stage cfg t p) : Inv cfg t := by
  obtain ⟨j, hothers, hs⟩ := hI.stage hpos
  refine ⟨?_, hworkers, fun hzero => absurd (hcalls.symm.trans hzero) hpos, fun _ => ⟨j, ?_, ?_⟩⟩
  · exact (hstarted.trans hI.started).trans (congrArg _ hcalls.symm)
  · exact fun j' hne => (congrFun hcallers j').trans (hothers j' hne)
  · rw [hcallers]
    exact hstage _ hs

/-- A thread that runs was started. -/
lemma Inv.begun (hI : Inv cfg s) {k : ℕ} (hk : (s.workers k).pc ≠ .notStarted) :
    s.calls ≠ 0 ∧ ∀ p, Stage cfg s p → k < p.begun cfg.numThreads := by
  constructor
  · intro hzero
    rw [hI.first hzero] at hk
    exact hk rfl
  · intro p hp
    by_contra hge
    rw [hp.fresh k (Nat.le_of_not_lt hge)] at hk
    exact hk rfl

/-- `started_` counts the calls. -/
lemma Inv.started_add_one (hI : Inv cfg s) : s.started + 1 = BitVec.ofNat 32 (s.calls + 1) := by
  rw [hI.started, BitVec.ofNat_add]
  rfl

/-- It is zero only before the first call. -/
lemma Inv.started_eq_zero_iff (hI : Inv cfg s) (hlt : s.calls < 2 ^ 32) :
    s.started = 0 ↔ s.calls = 0 := by
  rw [hI.started]
  constructor
  · intro hzero
    have hval := congrArg BitVec.toNat hzero
    rwa [BitVec.toNat_ofNat, Nat.mod_eq_of_lt hlt] at hval
  · intro hzero
    rw [hzero]
    rfl

/-- Every step keeps the invariant, as long as there are fewer than `2 ^ 32` calls. -/
lemma Inv.step {a : Act} (hI : Inv cfg s) (hlt : s.calls < 2 ^ 32) (h : step cfg s a = some s') :
    Inv cfg s' := by
  cases step_cases h with
  | @first j hj hzero =>
    obtain rfl := hI.first ((hI.started_eq_zero_iff hlt).mp hzero)
    refine ⟨hI.started_add_one, hI.workers, nofun, fun _ => ⟨j, ?_, ?_⟩⟩
    · exact fun j' hne => Function.update_of_ne hne ..
    · rw [show (StartUp.setCaller _ j .entering).callers j = .entering from Function.update_self ..]
      exact stage_entering cfg j
  | later hj hne =>
    obtain ⟨j, hothers, hstage⟩ := hI.stage fun hzero =>
      hne ((hI.started_eq_zero_iff hlt).mpr hzero)
    exact ⟨hI.started_add_one, hI.workers, nofun, fun _ => ⟨j, hothers, hstage.call⟩⟩
  | enter hj => exact hI.caller hj nofun rfl rfl rfl hI.workers (hI.stageAt hj nofun).enter
  | test hj => exact hI.caller hj nofun rfl rfl rfl hI.workers (hI.stageAt hj nofun).test
  | create hj =>
    have hstage := hI.stageAt hj nofun
    have hfresh : s.workers s.created = .new := hstage.fresh _ hstage.created.ge
    have hzero : s.inits (subLoop s.created) = 0 :=
      (hI.workers s.created).inits_eq_zero (by rw [hfresh]; rfl)
    have hposting : WorkerInv cfg s.created { Worker.new with pc := .posting }
        (s.inits (subLoop s.created)) := by
      rw [hzero]
      exact (workerInv_new cfg s.created).before rfl 0 rfl nofun
    exact hI.caller hj nofun rfl rfl rfl
      (workers_setWorker (s := { s with created := s.created + 1 }) hI.workers hposting)
      hstage.create
  | @semWait j i k hj hsem =>
    exact hI.caller hj nofun rfl rfl rfl
      (workers_setWorker hI.workers ((hI.workers k).setSem _)) ((hI.stageAt hj nofun).semWait _)
  | @waiter j i k a x hj hx =>
    exact hI.caller hj nofun rfl rfl rfl
      (workers_setWorker hI.workers ((hI.workers k).waiter hx))
      ((hI.stageAt hj nofun).waiter (hI.workers k).handshake hx)
  | store hj => exact hI.caller hj nofun rfl rfl rfl hI.workers (hI.stageAt hj nofun).store
  | baseCallback hj =>
    refine hI.caller hj nofun rfl rfl rfl (fun k => ?_) (hI.stageAt hj nofun).baseCallback
    rw [initialized_of_ne s (subLoop_ne_zero k)]
    exact hI.workers k
  | listen h0 => exact hI.caller h0 nofun rfl rfl rfl hI.workers (hI.stageAt h0 nofun).listen
  | queueListen hj hne =>
    exact hI.caller hj nofun rfl rfl rfl hI.workers (hI.stageAt hj nofun).queueListen
  | @post k hk =>
    obtain ⟨hpos, hbegun⟩ := hI.begun (k := k) (hk ▸ nofun)
    exact hI.other hpos rfl rfl rfl
      (workers_setWorker hI.workers ((hI.workers k).before (hk ▸ rfl) _ rfl nofun))
      fun p hp => hp.setWorker (hbegun p hp) (hp.returned k)
  | @construct k hk =>
    obtain ⟨hpos, hbegun⟩ := hI.begun (k := k) (hk ▸ nofun)
    exact hI.other hpos rfl rfl rfl
      (workers_setWorker hI.workers ((hI.workers k).construct hk))
      fun p hp => hp.setWorker (hbegun p hp) (hp.returned k)
  | @callback k hk =>
    obtain ⟨hpos, hbegun⟩ := hI.begun (k := k) (hk ▸ nofun)
    exact hI.other hpos rfl rfl rfl (workers_callback hI.workers hk)
      fun p hp => (hp.callback k).setWorker (hbegun p hp) (hp.returned k)
  | @publisher k a x hk hx =>
    obtain ⟨hpos, hbegun⟩ := hI.begun (k := k) (hk ▸ nofun)
    exact hI.other hpos rfl rfl rfl
      (workers_setWorker hI.workers ((hI.workers k).publisher hk hx))
      fun p hp => hp.setWorker (hbegun p hp) fun htaken =>
        Handshake.done_of_publisherStep hx (hp.returned k htaken)
  | runFunctor h0 hqueued =>
    have hpos : s.calls ≠ 0 := by
      intro hzero
      rw [hI.first hzero] at hqueued
      exact absurd hqueued (Nat.lt_irrefl 0)
    exact hI.other hpos rfl rfl rfl hI.workers fun p hp => hp.runFunctor hqueued

/-- The invariant holds in the runs with fewer than `2 ^ 32` calls. -/
lemma inv_of_reach (h : (system cfg).Reach s) (hlt : s.calls < 2 ^ 32) : Inv cfg s := by
  refine h.invariant (I := fun s => s.calls < 2 ^ 32 → Inv cfg s) ?_ ?_ hlt
  · rintro s rfl -
    exact inv_new cfg
  · intro s a s' hI hs hlt'
    have hlt := Nat.lt_of_le_of_lt (calls_le_of_step hs) hlt'
    exact (hI hlt).step hlt hs

/-- What start-up is for: the acceptor listens once, on a complete pool whose loops come from
their own threads, and the init callback has run once on each of them, or on the base loop where
there are none. -/
structure Complete (cfg : StartConfig) (s : StartUp) : Prop where
  listens : s.listens = 1
  pool : s.pool = EventLoopThreadLoop.pool 0 cfg.numThreads
  length : s.pool.loops.length = cfg.numThreads
  nodup : s.pool.loops.Nodup
  published : ∀ k < cfg.numThreads, s.pool.loops[k]? = (s.workers k).handshake.slot
  inits : ∀ loop, s.inits loop =
    once (cfg.threadInitCallback && decide (loop ∈ s.pool.getAllLoops))

/-- A thread whose loop was returned by `startLoop` has published it, and the init callback was
behind it then. -/
lemma WorkerInv.of_done {k n : ℕ} {w : Worker} (h : WorkerInv cfg k w n)
    (hw : w.handshake.waiter = .done (subLoop k)) :
    w.handshake.slot = some (subLoop k) ∧ n = once cfg.threadInitCallback := by
  obtain ⟨-, hslot, hstored⟩ := h.handshake.eq_of_done hw
  have hpc : w.pc.initialized = true := by
    by_contra hpc
    rw [h.outside (eq_false_of_ne_true hpc)] at hstored
    exact hstored
  refine ⟨hslot, ?_⟩
  rw [h.inits, hpc, Bool.and_true]

/-- The count of the init callback on every loop, once the work is done. -/
lemma Inv.inits_of_idle (hI : Inv cfg s) (hs : Stage cfg s .idle) (loop : LoopId) :
    s.inits loop = once (cfg.threadInitCallback &&
      decide (loop ∈ (EventLoopThreadLoop.pool 0 cfg.numThreads).getAllLoops)) := by
  rcases Nat.eq_zero_or_pos loop with rfl | hpos
  · simp only [EventLoopThreadLoop.base_mem_getAllLoops]
    rw [hs.base, Caller.pastPool, Bool.and_true]
  · obtain ⟨k, rfl⟩ : ∃ k, loop = subLoop k := ⟨loop - 1, (Nat.sub_add_cancel hpos).symm⟩
    simp only [EventLoopThreadLoop.subLoop_mem_getAllLoops]
    rcases Nat.lt_or_ge k cfg.numThreads with hk | hk
    · rw [((hI.workers k).of_done (hs.returned k hk)).2]
      simp [hk]
    · have hzero := (hI.workers k).inits_eq_zero (by rw [hs.fresh k hk]; rfl)
      rw [hzero]
      simp [Nat.not_lt_of_le hk, once]

/-- When the acceptor listens, start-up is complete. -/
lemma Inv.complete (hI : Inv cfg s) (hlisten : 0 < s.listens) : Complete cfg s := by
  have hcalls : s.calls ≠ 0 := by
    intro hzero
    rw [hI.first hzero] at hlisten
    exact absurd hlisten (Nat.lt_irrefl 0)
  obtain ⟨j, -, hs⟩ := hI.stage hcalls
  have hidle : s.callers j = .idle := by
    by_contra hne
    have hnone := hs.listens
    rw [decide_eq_false hne] at hnone
    have hnone : s.listens + s.queued = 0 := hnone
    omega
  rw [hidle] at hs
  have hone : s.listens + s.queued = 1 := hs.listens
  have hpool : s.pool = EventLoopThreadLoop.pool 0 cfg.numThreads := hs.pool
  refine ⟨by omega, hpool, ?_, ?_, fun k hk => ?_, fun loop => ?_⟩
  · rw [hpool, EventLoopThreadLoop.length_pool]
  · rw [hpool]
    exact EventLoopThreadLoop.nodup_subLoops _
  · rw [((hI.workers k).of_done (hs.returned k hk)).1, hpool, EventLoopThreadLoop.loops_pool,
      List.getElem?_map, List.getElem?_range hk]
    rfl
  · rw [hpool]
    exact hI.inits_of_idle hs loop

/-- `listen` is never taken back. -/
lemma listens_le_of_step {a : Act} (h : step cfg s a = some s') : s.listens ≤ s'.listens := by
  cases step_cases h with
  | listen | runFunctor => exact Nat.le_succ _
  | _ => exact le_rfl

/-- In every run with fewer than `2 ^ 32` calls of `start`, start-up is complete when the acceptor
listens, and it stays as it is. -/
theorem complete_of_listens (h : (system cfg).Reach s) (hlt : s.calls < 2 ^ 32)
    (hlisten : 0 < s.listens) :
    Complete cfg s ∧ ∀ as s', (system cfg).run s as = some s' → s'.calls < 2 ^ 32 →
      s'.pool = s.pool ∧ s'.inits = s.inits ∧ s'.listens = s.listens := by
  have hcomplete := (inv_of_reach h hlt).complete hlisten
  refine ⟨hcomplete, fun as s' hrun hlt' => ?_⟩
  have hlisten' : 0 < s'.listens :=
    Nat.lt_of_lt_of_le hlisten (TransitionSystem.run_mono (fun _ _ _ hs => listens_le_of_step hs) hrun)
  have hcomplete' := (inv_of_reach (h.run hrun) hlt').complete hlisten'
  have hpool := hcomplete'.pool.trans hcomplete.pool.symm
  refine ⟨hpool, funext fun loop => ?_, hcomplete'.listens.trans hcomplete.listens.symm⟩
  rw [hcomplete'.inits, hcomplete.inits, hpool]

/-- One sub-loop with an init callback, started on the thread of the base loop: the caller waits
before the thread publishes. -/
def exampleRun : List Act :=
  [.call 0, .enter 0, .test 0, .create 0, .post 0, .semWait 0, .waiter 0 .lock, .waiter 0 .test,
    .construct 0, .callback 0, .publisher 0 .lock, .publisher 0 .store, .publisher 0 .notify,
    .publisher 0 .unlock, .waiter 0 .relock, .waiter 0 .test, .waiter 0 .read, .waiter 0 .unlock,
    .store 0, .test 0, .runInLoop 0]

/-- Start-up is complete at the end of that run. -/
theorem complete_exampleRun :
    ∃ s, (system ⟨1, true⟩).Reach s ∧ s.listens = 1 ∧ Complete ⟨1, true⟩ s := by
  obtain ⟨s, hs, hobserved⟩ := TransitionSystem.exists_reach_of_run (M := system ⟨1, true⟩)
    (v := (1, 1)) exampleRun (fun s => (s.listens, s.calls)) rfl (by decide +kernel)
  obtain ⟨hlistens, hcalls⟩ := Prod.mk.inj hobserved
  have hlt : s.calls < 2 ^ 32 := by
    rw [hcalls]
    decide
  have hpos : 0 < s.listens := by
    rw [hlistens]
    decide
  exact ⟨s, hs, hlistens, (complete_of_listens hs hlt hpos).1⟩

end StartUp

end HzhMuduo
