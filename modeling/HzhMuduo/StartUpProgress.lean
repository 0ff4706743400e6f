import HzhMuduo.StartUp
import Mathlib.Algebra.BigOperators.Finprod

/-!
# Start-up comes to an end

Two things can hold up the call that does the work: the semaphore of `Thread::start` and the
handshake of `startLoop`.  The new thread posts the semaphore before anything else, and neither
side of the handshake can leave the other one waiting for good.  So the caller, or the thread it
waits for, always has a step to take that needs no spurious wakeup (`exists_step`).

There are only so many such steps: a potential, which only spurious wakeups raise, bounds them by
a multiple of the number of threads (`deliberate_le`).
-/

namespace HzhMuduo

namespace StartUp

open Handshake (WaiterAct PublisherAct)

variable {cfg : StartConfig} {s s' : StartUp} {j k : ℕ} {p : Caller} {w : Worker}

/-- The steps in which start-up itself goes on. -/
def Act.deliberate : Act → Bool
  | .call _ | .waiter _ .wakeup | .runFunctor => false
  | _ => true

/-- The thread is in `loop()` exactly when it has published its loop. -/
structure Worker.Live (w : Worker) : Prop where
  publishing : w.pc = .publishing → w.handshake.publisher ≠ .done
  looping : w.pc = .looping → w.handshake.publisher = .done

/-- What the caller waits for is to come. -/
def Caller.Live (workers : ℕ → Worker) : Caller → Prop
  | .semWait _ k => (workers k).handshake.waiter = .outside ∧
      ((workers k).pc = .posting ∨ 0 < (workers k).sem)
  | .waiting _ k => ∀ loop, (workers k).handshake.waiter ≠ .done loop
  | _ => True

/-- The invariant. -/
structure Live (s : StartUp) : Prop where
  running : ∀ k < s.created, (s.workers k).pc ≠ .notStarted
  workers : ∀ k, (s.workers k).Live
  callers : ∀ j, (s.callers j).Live s.workers

lemma afterPublish_cases (y : Handshake.Publisher) : (afterPublish y = .publishing → y ≠ .done) ∧
    (afterPublish y = .looping → y = .done) ∧ afterPublish y ≠ .notStarted := by
  cases y <;> simp [afterPublish]

lemma live_new (cfg : StartConfig) : Live (new cfg) where
  running _ hk := absurd hk (Nat.not_lt_zero _)
  workers _ := ⟨by simp [new, Worker.new], by simp [new, Worker.new]⟩
  callers _ := trivial

/-- The thread that a caller waits for was constructed. -/
lemma Inv.lt_created (hI : Inv cfg s) {i : ℕ}
    (hj : s.callers j = .semWait i k ∨ s.callers j = .waiting i k) : k < s.created := by
  rcases hj with hj | hj
  · have hstage := hI.stageAt hj (by simp)
    rw [hstage.created, hstage.fits.2]
    exact Nat.lt_succ_self i
  · have hstage := hI.stageAt hj (by simp)
    rw [hstage.created, hstage.fits.2]
    exact Nat.lt_succ_self i

namespace Live

/-- A step of one caller. -/
lemma caller {t : StartUp} (hothers : ∀ j', j' ≠ j → (t.callers j').Live t.workers)
    (hrunning : ∀ k < t.created, (t.workers k).pc ≠ .notStarted)
    (hworkers : ∀ k, (t.workers k).Live) (hp : p.Live t.workers) : Live (t.setCaller j p) := by
  refine ⟨hrunning, hworkers, fun j' => ?_⟩
  by_cases heq : j' = j
  · subst heq
    rw [show (t.setCaller j' p).callers j' = p from Function.update_self ..]
    exact hp
  · rw [show (t.setCaller j p).callers j' = t.callers j' from Function.update_of_ne heq ..]
    exact hothers j' heq

/-- The other thread objects stay. -/
lemma workers_setWorker (hL : Live s) (hw : w.Live) (k' : ℕ) :
    ((s.setWorker k w).workers k').Live := by
  by_cases heq : k' = k
  · subst heq
    rw [setWorker_self]
    exact hw
  · rw [setWorker_of_ne s heq]
    exact hL.workers k'

/-- A thread that runs stays started. -/
lemma running_setWorker (hL : Live s) (hw : w.pc ≠ .notStarted) (k' : ℕ) (hk' : k' < s.created) :
    ((s.setWorker k w).workers k').pc ≠ .notStarted := by
  by_cases heq : k' = k
  · subst heq
    rw [setWorker_self]
    exact hw
  · rw [setWorker_of_ne s heq]
    exact hL.running k' hk'

/-- A step of a thread of the pool, which takes nothing from the caller. -/
lemma worker (hL : Live s) (hw : w.Live) (hpc : w.pc ≠ .notStarted)
    (hposted : (s.workers k).pc = .posting ∨ 0 < (s.workers k).sem → w.pc = .posting ∨ 0 < w.sem)
    (houtside : (s.workers k).handshake.waiter = .outside → w.handshake.waiter = .outside)
    (hwaiting : ∀ loop, w.handshake.waiter = .done loop →
      (s.workers k).handshake.waiter = .done loop) : Live (s.setWorker k w) := by
  refine ⟨hL.running_setWorker hpc, hL.workers_setWorker hw, fun j => ?_⟩
  have hold := hL.callers j
  show (s.callers j).Live (s.setWorker k w).workers
  cases hj : s.callers j with
  | semWait i k' =>
    rw [hj] at hold
    by_cases heq : k' = k
    · subst heq
      rw [Caller.Live, setWorker_self]
      exact ⟨houtside hold.1, hposted hold.2⟩
    · rw [Caller.Live, setWorker_of_ne s heq]
      exact hold
  | waiting i k' =>
    rw [hj] at hold
    by_cases heq : k' = k
    · subst heq
      rw [Caller.Live, setWorker_self]
      exact fun loop hdone => hold loop (hwaiting loop hdone)
    · rw [Caller.Live, setWorker_of_ne s heq]
      exact hold
  | _ => trivial

/-- Every step keeps it. -/
lemma step {a : Act} (hL : Live s) (hI : Inv cfg s) (h : StartUp.step cfg s a = some s') :
    Live s' := by
  -- where one caller is in a call, the others are idle
  have hothers : ∀ {j p}, s.callers j = p → p ≠ .idle → ∀ {workers} j', j' ≠ j →
      (s.callers j').Live workers := by
    rintro j p rfl hp workers j' hne
    rw [(hI.owner hp).2.1 j' hne]
    trivial
  cases step_cases h with
  | first hj hzero => exact caller (fun j' _ => hL.callers j') hL.running hL.workers trivial
  | later hj hne => exact ⟨hL.running, hL.workers, hL.callers⟩
  | enter hj => exact caller (hothers hj (by simp)) hL.running hL.workers trivial
  | test hj =>
    refine caller (hothers hj (by simp)) hL.running hL.workers ?_
    split
    · trivial
    · split <;> trivial
  | @create j i hj =>
    have hworker : ({ Worker.new with pc := .posting } : Worker).Live :=
      ⟨by simp [Worker.new], by simp⟩
    refine caller (hothers hj (by simp)) (fun k hk => ?_) (fun k => ?_) ?_
    · rcases Nat.lt_succ_iff_lt_or_eq.mp hk with hlt | rfl
      · exact hL.running_setWorker (w := { Worker.new with pc := .posting }) (by simp) k hlt
      · simp [setWorker]
    · exact hL.workers_setWorker (k := s.created) hworker k
    · simp [Caller.Live, setWorker, Worker.new, Handshake.new]
  | @semWait j i k hj hsem =>
    have hold := hL.callers j
    rw [hj] at hold
    have hk := hI.lt_created (.inl hj)
    refine caller (hothers hj (by simp)) (hL.running_setWorker (hL.running k hk))
      (hL.workers_setWorker ⟨(hL.workers k).publishing, (hL.workers k).looping⟩) ?_
    rw [Caller.Live, setWorker_self]
    intro loop hdone
    cases hold.1.symm.trans hdone
  | @waiter j i k a x hj hx =>
    have hpublisher := Handshake.publisher_of_waiterStep hx
    have hk := hI.lt_created (.inr hj)
    refine caller (hothers hj (by simp)) (hL.running_setWorker (hL.running k hk))
      (hL.workers_setWorker ⟨?_, ?_⟩) ?_
    · rw [hpublisher]
      exact (hL.workers k).publishing
    · rw [hpublisher]
      exact (hL.workers k).looping
    · cases hwaiter : x.waiter with
      | done loop => trivial
      | _ =>
        show ∀ loop, ((s.setWorker k { s.workers k with handshake := x }).workers k).handshake.waiter
          ≠ .done loop
        rw [setWorker_self]
        intro loop hdone
        cases hwaiter.symm.trans hdone
  | store hj => exact caller (hothers hj (by simp)) hL.running hL.workers trivial
  | baseCallback hj => exact caller (hothers hj (by simp)) hL.running hL.workers trivial
  | listen h0 => exact caller (hothers h0 (by simp)) hL.running hL.workers trivial
  | queueListen hj hne => exact caller (hothers hj (by simp)) hL.running hL.workers trivial
  | @post k hk =>
    exact hL.worker ⟨by simp, by simp⟩ (by simp) (fun _ => .inr (Nat.succ_pos _)) id fun _ => id
  | @construct k hk =>
    have hpublisher : (s.workers k).handshake.publisher = .outside :=
      (hI.workers k).outside (hk ▸ rfl)
    refine hL.worker ⟨fun _ => ?_, fun hc => ?_⟩ ?_ (fun hposted => ?_) id fun _ => id
    · rw [hpublisher]
      simp
    · split at hc <;> cases hc
    · split <;> simp
    · rw [hk] at hposted
      exact .inr (hposted.resolve_left (by simp))
  | @callback k hk =>
    have hpublisher : (s.workers k).handshake.publisher = .outside :=
      (hI.workers k).outside (hk ▸ rfl)
    refine Live.worker (s := s.initialized (subLoop k)) ⟨hL.running, hL.workers, hL.callers⟩
      ⟨fun _ => ?_, by simp⟩ (by simp) (fun hposted => ?_) id fun _ => id
    · rw [hpublisher]
      simp
    · exact .inr (hposted.resolve_left fun hpc => by cases hk.symm.trans hpc)
  | @publisher k a x hk hx =>
    obtain ⟨hpublishing, hlooping, hstarted⟩ := afterPublish_cases x.publisher
    have hwaiter := Handshake.waiter_of_publisherStep hx
    refine hL.worker ⟨hpublishing, hlooping⟩ hstarted (fun hposted => ?_) (fun hout => ?_)
      fun loop hdone => ?_
    · exact .inr (hposted.resolve_left fun hpc => by cases hk.symm.trans hpc)
    · rcases hwaiter with hsame | ⟨hblocked, -⟩
      · exact hsame.trans hout
      · cases hblocked.symm.trans hout
    · rcases hwaiter with hsame | ⟨-, hwoken⟩
      · exact hsame.symm.trans hdone
      · cases hwoken.symm.trans hdone
  | runFunctor h0 hqueued => exact ⟨hL.running, hL.workers, hL.callers⟩

end Live

/-- It holds in the runs with fewer than `2 ^ 32` calls. -/
lemma live_of_reach (h : (system cfg).Reach s) (hlt : s.calls < 2 ^ 32) : Live s := by
  refine h.invariant_of (I := fun s => s.calls < 2 ^ 32 → Live s)
    (J := fun s => s.calls < 2 ^ 32 → Inv cfg s) (fun s hs => inv_of_reach hs) ?_ ?_ hlt
  · rintro s rfl -
    exact live_new cfg
  · intro s a s' hI _ hL _ hs hlt'
    have hlt := Nat.lt_of_le_of_lt (calls_le_of_step hs) hlt'
    exact (hL hlt).step (hI hlt) hs

/-- The thread of the pool, or the caller in its handshake, has a step to take. -/
lemma exists_step_of_waiting (hI : Inv cfg s) (hL : Live s) {i : ℕ}
    (hj : s.callers j = .waiting i k) :
    ∃ a s', a.deliberate = true ∧ StartUp.step cfg s a = some s' := by
  have hhandshake := (hI.workers k).handshake
  have hk := hI.lt_created (.inr hj)
  have hwaits : ∀ loop, (s.workers k).handshake.waiter ≠ .done loop := by
    have hold := hL.callers j
    rw [hj] at hold
    exact hold
  have hcaller : (∃ a x, a ≠ .wakeup ∧ (s.workers k).handshake.waiterStep a = some x) →
      ∃ a s', a.deliberate = true ∧ StartUp.step cfg s a = some s' := by
    rintro ⟨a, x, ha, hx⟩
    refine ⟨.waiter j a, _, ?_, by simp only [StartUp.step, hj, hx]; rfl⟩
    cases a <;> first | rfl | exact absurd rfl ha
  cases hpc : (s.workers k).pc with
  | notStarted => exact absurd hpc (hL.running k hk)
  | posting => exact ⟨.post k, _, rfl, by rw [StartUp.step, if_pos hpc]⟩
  | constructing => exact ⟨.construct k, _, rfl, by rw [StartUp.step, if_pos hpc]⟩
  | callback => exact ⟨.callback k, _, rfl, by rw [StartUp.step, if_pos hpc]⟩
  | publishing =>
    rcases hhandshake.exists_step ((hL.workers k).publishing hpc) with hwaiter | ⟨a, x, hx⟩
    · exact hcaller hwaiter
    · exact ⟨.publisher k a, _, rfl, by rw [StartUp.step, if_pos hpc, hx]; rfl⟩
  | looping => exact hcaller (hhandshake.exists_waiterStep ((hL.workers k).looping hpc) hwaits)

/-- In every run with fewer than `2 ^ 32` calls of `start`, as long as a call is under way, start-up
has a step to take that needs neither another call nor a spurious wakeup. -/
theorem exists_step (h : (system cfg).Reach s) (hlt : s.calls < 2 ^ 32)
    (hj : s.callers j ≠ .idle) : ∃ a s', a.deliberate = true ∧ StartUp.step cfg s a = some s' := by
  have hI := inv_of_reach h hlt
  have hL := live_of_reach h hlt
  cases hcaller : s.callers j with
  | idle => exact absurd hcaller hj
  | entering => exact ⟨.enter j, _, rfl, by rw [StartUp.step, if_pos hcaller]⟩
  | atHead i => exact ⟨.test j, _, rfl, by rw [StartUp.step, hcaller]⟩
  | starting i => exact ⟨.create j, _, rfl, by rw [StartUp.step, hcaller]⟩
  | semWait i k =>
    have hold := hL.callers j
    rw [hcaller] at hold
    rcases hold.2 with hpc | hsem
    · exact ⟨.post k, _, rfl, by rw [StartUp.step, if_pos hpc]⟩
    · exact ⟨.semWait j, _, rfl, by rw [StartUp.step, hcaller]; exact if_pos hsem⟩
  | waiting i k => exact exists_step_of_waiting hI hL hcaller
  | storing i loop => exact ⟨.store j, _, rfl, by rw [StartUp.step, hcaller]⟩
  | baseCallback => exact ⟨.baseCallback j, _, rfl, by rw [StartUp.step, if_pos hcaller]⟩
  | listening => exact ⟨.runInLoop j, _, rfl, by rw [StartUp.step, if_pos hcaller]⟩

/-! ### The potential -/

/-- How many steps the call has left, apart from those of the handshakes, with `n` threads. -/
def Caller.rank (n : ℕ) : Caller → ℕ
  | .idle => 0
  | .listening => 1
  | .baseCallback => 2
  | .waiting i _ | .storing i _ => 4 * (n - i)
  | .semWait i _ => 4 * (n - i) + 1
  | .starting i => 4 * (n - i) + 2
  | .atHead i => 4 * (n - i) + 3
  | .entering => 4 * n + 4

/-- How many steps the thread has left before its handshake. -/
def WorkerPc.rank : WorkerPc → ℕ
  | .notStarted | .posting => 3
  | .constructing => 2
  | .callback => 1
  | .publishing | .looping => 0

def Worker.rank (w : Worker) : ℕ := w.pc.rank + w.handshake.rank

/-- The steps left to the threads of the pool. -/
def crew (cfg : StartConfig) (s : StartUp) : ℕ :=
  ∑ k ∈ Finset.range cfg.numThreads, (s.workers k).rank

/-- The steps left to start-up; before the first call it has them all before it. -/
noncomputable def potential (cfg : StartConfig) (s : StartUp) : ℕ :=
  (if s.calls = 0 then 4 * cfg.numThreads + 4 else 0) +
    ∑ᶠ j, (s.callers j).rank cfg.numThreads + s.crew cfg

/-- The step is a wakeup without a reason. -/
def Act.spurious : Act → Bool
  | .waiter _ a => a.spurious
  | _ => false

/-- What the steps of one thread of the pool cost. -/
lemma crew_setWorker {k : ℕ} (hk : k < cfg.numThreads) (w : Worker) :
    (s.setWorker k w).crew cfg + (s.workers k).rank = s.crew cfg + w.rank := by
  have hmem := Finset.mem_range.mpr hk
  have hcomp : Worker.rank ∘ Function.update s.workers k w =
      Function.update (Worker.rank ∘ s.workers) k w.rank := Function.comp_update ..
  have hnew : (s.setWorker k w).crew cfg =
      w.rank + ∑ x ∈ Finset.range cfg.numThreads \ {k}, (s.workers x).rank := by
    calc (s.setWorker k w).crew cfg
        = ∑ x ∈ Finset.range cfg.numThreads,
            Function.update (Worker.rank ∘ s.workers) k w.rank x := by rw [← hcomp]; rfl
      _ = _ := Finset.sum_update_of_mem hmem _ _
  have hold : s.crew cfg =
      (s.workers k).rank + ∑ x ∈ Finset.range cfg.numThreads \ {k}, (s.workers x).rank :=
    Finset.sum_eq_add_sum_sdiff_singleton_of_mem hmem _
  omega

lemma potential_setWorker {k : ℕ} (hk : k < cfg.numThreads) (w : Worker) :
    (s.setWorker k w).potential cfg + (s.workers k).rank = s.potential cfg + w.rank := by
  have hcrew := crew_setWorker (s := s) hk w
  have hnew : (s.setWorker k w).potential cfg = (if s.calls = 0 then 4 * cfg.numThreads + 4 else 0) +
      ∑ᶠ j, (s.callers j).rank cfg.numThreads + (s.setWorker k w).crew cfg := rfl
  rw [hnew, potential]
  omega

/-- After the first call only the call that does the work counts. -/
lemma potential_eq {j : ℕ} (hpos : s.calls ≠ 0) (hothers : ∀ j', j' ≠ j → s.callers j' = .idle) :
    s.potential cfg = (s.callers j).rank cfg.numThreads + s.crew cfg := by
  have hsum : ∑ᶠ j', (s.callers j').rank cfg.numThreads = (s.callers j).rank cfg.numThreads := by
    refine finsum_eq_single _ j fun j' hne => ?_
    rw [hothers j' hne]
    rfl
  rw [potential, if_neg hpos, hsum, Nat.zero_add]

/-- What a step of the call that does the work costs. -/
lemma Inv.potential_caller (hI : Inv cfg s) {t : StartUp} (hj : s.callers j = p) (hp : p ≠ .idle)
    (hcalls : t.calls = s.calls) (hcallers : t.callers = s.callers) (p' : Caller) :
    (t.setCaller j p').potential cfg + p.rank cfg.numThreads + s.crew cfg =
      s.potential cfg + p'.rank cfg.numThreads + t.crew cfg := by
  obtain ⟨hpos, hothers, -⟩ := hI.owner (hj ▸ hp)
  have hothers' : ∀ j', j' ≠ j → (t.setCaller j p').callers j' = .idle := by
    intro j' hne
    exact (Function.update_of_ne hne ..).trans ((congrFun hcallers j').trans (hothers j' hne))
  have hnew : (t.setCaller j p').potential cfg = p'.rank cfg.numThreads + t.crew cfg := by
    have hself : (t.setCaller j p').callers j = p' := Function.update_self ..
    rw [potential_eq (s := t.setCaller j p') (hcalls ▸ hpos) hothers', hself]
    rfl
  have hold : s.potential cfg = p.rank cfg.numThreads + s.crew cfg := by
    rw [potential_eq hpos hothers, hj]
  omega

/-- The call never has more threads behind it than it starts. -/
lemma Stage.begun_le (h : Stage cfg s p) : p.begun cfg.numThreads ≤ cfg.numThreads := by
  have hfits := h.fits
  cases p with
  | entering => exact Nat.zero_le _
  | atHead i => exact hfits
  | starting i => exact Nat.le_of_lt hfits
  | semWait i k | waiting i k | storing i loop => exact hfits.1
  | _ => exact Nat.le_refl _

/-- A thread that runs belongs to the pool. -/
lemma Inv.lt_numThreads (hI : Inv cfg s) (hk : (s.workers k).pc ≠ .notStarted) :
    k < cfg.numThreads := by
  obtain ⟨hpos, hbegun⟩ := hI.begun hk
  obtain ⟨j, -, hstage⟩ := hI.stage hpos
  exact Nat.lt_of_lt_of_le (hbegun _ hstage) hstage.begun_le

/-- A thread of the pool takes a step that brings it closer to the end. -/
lemma potential_worker {k : ℕ} {w : Worker} {n : ℕ} (hk : k < cfg.numThreads)
    (hw : w.rank + 1 ≤ (s.workers k).rank + n) :
    (s.setWorker k w).potential cfg + 1 ≤ s.potential cfg + n := by
  have hkept := potential_setWorker (s := s) hk w
  omega

/-- The call goes on and leaves the threads where they are. -/
lemma Inv.potential_advance (hI : Inv cfg s) {t : StartUp} (hj : s.callers j = p) (hp : p ≠ .idle)
    (hcalls : t.calls = s.calls) (hcallers : t.callers = s.callers) (hcrew : t.crew cfg = s.crew cfg)
    {p' : Caller} (hrank : p'.rank cfg.numThreads + 1 ≤ p.rank cfg.numThreads) :
    (t.setCaller j p').potential cfg + 1 ≤ s.potential cfg := by
  have hcost := hI.potential_caller hj hp hcalls hcallers p'
  omega

/-- Another round, or what comes after the last one. -/
lemma rank_test (s : StartUp) (i : ℕ) :
    Caller.rank cfg.numThreads (if (i : ℤ) < s.pool.numThreads then .starting i
      else if s.pool.numThreads = 0 ∧ cfg.threadInitCallback = true then .baseCallback
      else .listening) + 1 ≤ Caller.rank cfg.numThreads (.atHead i) := by
  split
  · simp only [Caller.rank, Nat.le_refl]
  · split
    · simp only [Caller.rank]
      omega
    · simp only [Caller.rank]
      omega

/-- The handshake counts with the thread, not with the call. -/
lemma rank_afterWait (n i k : ℕ) (w : Handshake.Waiter LoopId) :
    (afterWait i k w).rank n = (Caller.waiting i k).rank n := by
  cases w <;> rfl

/-- The thread object that is constructed has all its steps before it. -/
lemma Stage.crew_create {i : ℕ} (h : Stage cfg s (.starting i)) :
    ({ s with created := s.created + 1 }.setWorker s.created
      { Worker.new with pc := .posting }).crew cfg = s.crew cfg := by
  have hcreated : s.created = i := h.created
  have hi : i < cfg.numThreads := h.fits
  have hfresh : s.workers s.created = .new := h.fresh _ (Nat.le_of_eq hcreated.symm)
  have hcrew := crew_setWorker (s := { s with created := s.created + 1 }) (hcreated ▸ hi)
    { Worker.new with pc := .posting }
  have hrank : ({ Worker.new with pc := .posting } : Worker).rank = (s.workers s.created).rank := by
    rw [hfresh]
    rfl
  rw [hrank] at hcrew
  exact Nat.add_right_cancel hcrew

/-- The semaphore does not count. -/
lemma Stage.crew_semWait {i : ℕ} (h : Stage cfg s (.semWait i k)) (n : ℕ) :
    (s.setWorker k { s.workers k with sem := n }).crew cfg = s.crew cfg := by
  obtain ⟨hi, rfl⟩ := h.fits
  exact Nat.add_right_cancel (crew_setWorker hi { s.workers k with sem := n })

/-- The first call begins with all its steps before it. -/
lemma potential_first (cfg : StartConfig) (j : ℕ) :
    ({ new cfg with started := 1, calls := 1 }.setCaller j .entering).potential cfg ≤
      (new cfg).potential cfg := by
  have hothers : ∀ j', j' ≠ j →
      ({ new cfg with started := 1, calls := 1 }.setCaller j .entering).callers j' = .idle :=
    fun j' hne => Function.update_of_ne hne ..
  have hself : ({ new cfg with started := 1, calls := 1 }.setCaller j .entering).callers j =
      .entering := Function.update_self ..
  have hzero : (new cfg).calls = 0 := rfl
  rw [potential_eq Nat.one_ne_zero hothers, hself, potential, if_pos hzero]
  exact Nat.add_le_add_right (Nat.le_add_right _ _) _

/-- What a step costs, and what it brings along. -/
lemma Inv.potential_step {a : Act} (hI : Inv cfg s) (hlt : s.calls < 2 ^ 32)
    (h : StartUp.step cfg s a = some s') :
    s'.potential cfg + (if a.deliberate then 1 else 0) ≤
      s.potential cfg + if a.spurious then 2 else 0 := by
  cases StartUp.step_cases h with
  | @first j hj hzero =>
    obtain rfl := hI.first ((hI.started_eq_zero_iff hlt).mp hzero)
    exact potential_first cfg j
  | later hj hne =>
    have hpos : s.calls ≠ 0 := fun hzero => hne ((hI.started_eq_zero_iff hlt).mpr hzero)
    simp only [potential, crew, if_neg hpos, Nat.succ_ne_zero, if_false, Act.deliberate,
      Bool.false_eq_true, Act.spurious, Nat.add_zero, Nat.le_refl]
  | enter hj => exact hI.potential_advance hj nofun rfl rfl rfl (Nat.le_refl _)
  | test hj => exact hI.potential_advance hj nofun rfl rfl rfl (rank_test s _)
  | create hj =>
    have hstage := hI.stageAt hj nofun
    refine hI.potential_advance (t := { s with created := s.created + 1 }.setWorker s.created
      { Worker.new with pc := .posting }) hj nofun rfl rfl hstage.crew_create ?_
    exact Nat.le_refl _
  | @semWait j i k hj hsem =>
    have hstage := hI.stageAt hj nofun
    exact hI.potential_advance
      (t := s.setWorker k { s.workers k with sem := (s.workers k).sem - 1 }) hj nofun rfl rfl
      (hstage.crew_semWait _) (Nat.le_refl _)
  | @waiter j i k a x hj hx =>
    have hstage := hI.stageAt hj nofun
    obtain ⟨hi, rfl⟩ := hstage.fits
    have hhandshake := Handshake.rank_waiterStep hx
    have hcrew := crew_setWorker (s := s) hi { s.workers k with handshake := x }
    have hcost := hI.potential_caller (t := s.setWorker k { s.workers k with handshake := x }) hj
      nofun rfl rfl (afterWait k k x.waiter)
    rw [rank_afterWait] at hcost
    have hworker : ({ s.workers k with handshake := x } : Worker).rank + 1 ≤
        (s.workers k).rank + if a.spurious then 3 else 0 := by
      simp only [Worker.rank]
      omega
    have htotal : ((s.setWorker k { s.workers k with handshake := x }).setCaller j
        (afterWait k k x.waiter)).potential cfg + 1 ≤
          s.potential cfg + if a.spurious then 3 else 0 := by
      omega
    cases a with
    | wakeup => exact Nat.le_of_succ_le_succ htotal
    | _ => exact htotal
  | @store j i loop hj =>
    have hstage := hI.stageAt hj nofun
    refine hI.potential_advance hj nofun rfl rfl rfl ?_
    have hi : i < cfg.numThreads := hstage.fits.1
    simp only [Caller.rank]
    omega
  | baseCallback hj => exact hI.potential_advance hj nofun rfl rfl rfl (Nat.le_refl _)
  | listen hj => exact hI.potential_advance hj nofun rfl rfl rfl (Nat.le_refl _)
  | queueListen hj hne => exact hI.potential_advance hj nofun rfl rfl rfl (Nat.le_refl _)
  | @post k hk =>
    refine potential_worker (hI.lt_numThreads (hk ▸ nofun)) ?_
    simp only [Worker.rank, hk, WorkerPc.rank]
    omega
  | @construct k hk =>
    refine potential_worker (hI.lt_numThreads (hk ▸ nofun)) ?_
    have hrank : ∀ b : Bool, (if b = true then WorkerPc.callback else .publishing).rank ≤ 1 := by
      decide
    have hnext := hrank cfg.threadInitCallback
    simp only [Worker.rank, hk, WorkerPc.rank] at hnext ⊢
    omega
  | @callback k hk =>
    refine potential_worker (s := s.initialized (subLoop k)) (hI.lt_numThreads (hk ▸ nofun)) ?_
    simp only [Worker.rank, initialized, hk, WorkerPc.rank]
    omega
  | @publisher k a x hk hx =>
    refine potential_worker (hI.lt_numThreads (hk ▸ nofun)) ?_
    have hhandshake := Handshake.rank_publisherStep hx
    have hpc : (afterPublish x.publisher).rank = 0 := by
      cases x.publisher <;> rfl
    simp only [Worker.rank, hk, hpc]
    exact Nat.le_trans (by omega) (Nat.le_add_right _ _)
  | runFunctor h0 hqueued => exact Nat.le_refl _

/-- What start-up has before it at the beginning. -/
lemma potential_new (cfg : StartConfig) : (new cfg).potential cfg = 17 * cfg.numThreads + 4 := by
  have hsum : ∑ᶠ j, ((new cfg).callers j).rank cfg.numThreads = 0 := finsum_zero
  have hcrew : (new cfg).crew cfg = cfg.numThreads * 13 := by
    have hrank : ∀ k, ((new cfg).workers k).rank = 13 := fun _ => rfl
    simp only [crew, hrank, Finset.sum_const, Finset.card_range, smul_eq_mul]
  have hzero : (new cfg).calls = 0 := rfl
  rw [potential, if_pos hzero, hsum, hcrew]
  omega

/-- In every run with fewer than `2 ^ 32` calls of `start`, start-up takes at most `17` steps for
each thread and four more, and two for each spurious wakeup; and as long as a call is under way, it
has such a step to take.  So every call of `start` comes to an end. -/
theorem deliberate_le {as : List Act} (hrun : (system cfg).run (new cfg) as = some s)
    (hlt : s.calls < 2 ^ 32) :
    as.countP Act.deliberate ≤ 17 * cfg.numThreads + 4 + 2 * as.countP Act.spurious ∧
      ∀ j, s.callers j ≠ .idle → ∃ a s', a.deliberate = true ∧ StartUp.step cfg s a = some s' := by
  have hreach : (system cfg).Reach (new cfg) := .init rfl
  refine ⟨?_, fun j hj => exists_step (hreach.run hrun) hlt hj⟩
  have hstep : ∀ s a s', (system cfg).Reach s → s'.calls < 2 ^ 32 →
      (system cfg).step s a = some s' → s'.potential cfg + (if a.deliberate then 1 else 0) ≤
        s.potential cfg + if a.spurious then 2 else 0 := by
    intro s a s' hs hlt' hstep
    have hlt := Nat.lt_of_le_of_lt (calls_le_of_step hstep) hlt'
    exact (inv_of_reach hs hlt).potential_step hlt hstep
  have hcalls : ∀ s a s', (system cfg).step s a = some s' → s'.calls < 2 ^ 32 → s.calls < 2 ^ 32 :=
    fun s a s' hs hlt' => Nat.lt_of_le_of_lt (calls_le_of_step hs) hlt'
  have hcosts := (TransitionSystem.countP_le_of_potential hcalls hstep hreach hrun hlt).2
  rw [potential_new] at hcosts
  exact Nat.le_trans (Nat.le_add_left _ _) hcosts

/-- One sub-loop, started without a spurious wakeup. -/
theorem deliberate_le_exampleRun :
    exampleRun.countP Act.deliberate = 20 ∧ exampleRun.countP Act.deliberate ≤ 21 ∧
      ∃ s, (system ⟨1, true⟩).run (new ⟨1, true⟩) exampleRun = some s ∧ s.callers 0 = .idle := by
  obtain ⟨s, hrun, hobserved⟩ : ∃ s, (system ⟨1, true⟩).run (new ⟨1, true⟩) exampleRun = some s ∧
      (s.callers 0, s.calls) = (.idle, 1) :=
    Option.map_eq_some_iff.mp
      (show ((system ⟨1, true⟩).run (new ⟨1, true⟩) exampleRun).map
        (fun s => (s.callers 0, s.calls)) = some (.idle, 1) by decide +kernel)
  obtain ⟨hidle, hcalls⟩ := Prod.mk.inj hobserved
  have hlt : s.calls < 2 ^ 32 := by
    rw [hcalls]
    decide
  exact ⟨by decide, (deliberate_le hrun hlt).1, s, hrun, hidle⟩

end StartUp

end HzhMuduo
