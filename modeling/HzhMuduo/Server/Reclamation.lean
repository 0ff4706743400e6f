import HzhMuduo.Server.Registry

/-!
# Nothing outlives its close

A connection is closed while events are dispatched, and its object, with the descriptor in it, is
to go when `connectDestroyed` and the notifications queued before have run.  All of them run in
the same pass of the loop: what an operation queues outside the dispatching of events is never
about a closed connection (`Spent`).  So at `poll` the objects there are, and the descriptors that
are open, are those of `connections_` and those the application holds on to
(`reclaimed_of_polling`).
-/

namespace HzhMuduo

open MachineWord TcpConnection TransitionSystem

namespace Server

variable {cfg : Config} {s s' : Server} {a : Act} {c : ConnId} {l : LoopId} {f : Functor}

/-- The application holds a pointer to the connection: one it has kept, or one in a functor that
it has queued. -/
inductive HeldByUser (s : Server) (c : ConnId) : Prop
  | kept {t} (h : (t, c) ∈ s.held)
  | queued {cs} (hf : .user cs ∈ s.objects.pendingFunctors 0) (hc : c ∈ cs)

/-- No notification of the connection is queued, but for the time events are dispatched. -/
def Spent (s : Server) (c : ConnId) : Prop :=
  ∀ f ∈ s.objects.pendingFunctors 0, f.Notifies c → (s.phase 0).isDispatching = true

/-! ### What is queued while the base loop does not dispatch -/

/-- The base loop was not dispatching before another phase was entered from one in which a loop
does not dispatch. -/
lemma not_isDispatching_of_setPhase {p : Phase} (hold : (s.phase l).isDispatching = false)
    (hphase : ((s.setPhase l p).phase 0).isDispatching = false) :
    (s.phase 0).isDispatching = false := by
  by_cases hl : 0 = l
  · subst hl
    exact hold
  · simpa [setPhase, Function.update_of_ne hl] using hphase

/-- A functor that is queued while the base loop does not dispatch was queued before and outside
the dispatching too, or by the application, or by the operation executed just now. -/
lemma pending_of_not_dispatching (hR : Registered cfg s) (hstep : Step cfg s a s')
    (hf : f ∈ s'.objects.pendingFunctors 0) (hphase : (s'.phase 0).isDispatching = false) :
    (f ∈ s.objects.pendingFunctors 0 ∧ (s.phase 0).isDispatching = false) ∨
      (∃ cs, f = .user cs) ∨
      ∃ t i op rest, a = .exec t i ∧ s.stack t = op :: rest ∧
        op.Queues s.objects.created f := by
  cases hstep with
  | enter hl hat => exact .inl ⟨hf, not_isDispatching_of_setPhase (by rw [hat.1]; rfl) hphase⟩
  | leave hat => exact .inl ⟨hf, not_isDispatching_of_setPhase (by rw [hat.1]; rfl) hphase⟩
  | release hat => exact .inl ⟨hf, not_isDispatching_of_setPhase (by rw [hat.1]; rfl) hphase⟩
  | poll hat hnodup hactive =>
    exact .inl ⟨hf, not_isDispatching_of_setPhase (by rw [hat.1]; rfl) hphase⟩
  | next hat => exact .inl ⟨hf, not_isDispatching_of_setPhase (by rw [hat.1]; rfl) hphase⟩
  | @dispatch l x active hat halive =>
    by_cases hl : 0 = l
    · subst hl
      simp [setStack, setPhase, Phase.isDispatching] at hphase
    · refine .inl ⟨hf, ?_⟩
      simpa [setStack, setPhase, Function.update_of_ne hl] using hphase
  | @swap l hat =>
    -- the functors queued during the dispatching are those of the batch now
    have hmem := Objects.mem_clearPending hf
    refine .inl ⟨hmem.1, ?_⟩
    by_cases hl : 0 = l
    · subst hl
      simp [Objects.clearPending] at hf
    · simpa [setPhase, Function.update_of_ne hl] using hphase
  | @exec t i op rest o ops hstack hready hrun =>
    rcases hrun.effect.mem_pending hR.objects.loop hf with hold | ⟨hqueues, -⟩
    · exact .inl ⟨hold, hphase⟩
    · exact .inr (.inr ⟨t, i, op, rest, rfl, hstack, hqueues⟩)
  | queueInLoop hframe hl hsees =>
    rcases Objects.mem_queueInLoop hf with hold | ⟨rfl, -⟩
    · exact .inl ⟨hold, hphase⟩
    · exact .inr (.inl ⟨_, rfl⟩)
  | _ => exact .inl ⟨hf, hphase⟩

/-- The handlers of a channel run while events are dispatched. -/
lemma isDispatching_of_mem (hS : Shape cfg s) {t : Tid} {op : Op} (hmem : op ∈ s.stack t)
    (hbase : op.onSubLoop = false) (hop : op.handling = true) :
    (s.phase 0).isDispatching = true :=
  (hS.fits (.loop 0) op (hS.eq_base hmem hbase ▸ hmem)).1 hop

/-! ### A closed connection -/

section Steps

variable (hR : Registered cfg s) (hS : Shape cfg s) (hstep : Step cfg s a s')

include hR hS hstep

/-- A connection is closed by `handleClose` and by nothing else. -/
lemma Life.closed_or_closes (hok : s.Settled a) (hcfg : cfg.numThreads = 0) (hrhythm : Rhythm s)
    (hL : Life s c) (hC : Closed s' c) : Closed s c ∨ s.Closes a c := by
  cases hL with
  | unborn hU =>
    rcases hU.step hR hS hstep hcfg with hU' | hE'
    · exact absurd hC.created (Nat.not_lt_of_le hU'.created)
    · exact absurd hC hE'.not_closed
  | early hE =>
    rcases hE.step hR hS hok hstep with hE' | hU'
    · exact absurd hC hE'.not_closed
    · exact absurd hC hU'.not_closed
  | up hU =>
    by_contra hnot
    have hU' := hU.step hR hS hok hstep hrhythm fun hclose => hnot (.inr hclose)
    exact hU'.not_closed hC
  | closed hC => exact .inl hC

omit hR in
/-- A connection is closed while events are dispatched. -/
lemma isDispatching_of_closes (hclose : s.Closes a c) : (s'.phase 0).isDispatching = true := by
  obtain ⟨t, i, rest, rfl, hstack⟩ := hclose
  have hmem : .handleClose c ∈ s.stack t := hstack ▸ List.mem_cons_self
  have hdispatching := isDispatching_of_mem hS hmem rfl rfl
  cases hstep with
  | exec hstack hready hrun => exact hdispatching

/-- No operation queues a notification of a closed connection while no events are dispatched. -/
lemma Closed.spent_step (hC : Closed s c) (hspent : Spent s c) : Spent s' c := by
  intro f hf hn
  by_contra hphase
  have hphase : (s'.phase 0).isDispatching = false := by simpa using hphase
  rcases pending_of_not_dispatching hR hstep hf hphase with
    ⟨hold, hbefore⟩ | ⟨cs, rfl⟩ | ⟨t, i, op, rest, rfl, hstack, hqueues⟩
  · rw [hspent f hold hn] at hbefore
    cases hbefore
  · rcases hn with heq | ⟨len, heq⟩ <;> cases heq
  · have hmem : op ∈ s.stack t := hstack ▸ List.mem_cons_self
    have hconn : op.conn? = some c := by
      have hfunctor : f.conn? = some c := by
        rcases hn with rfl | ⟨len, rfl⟩ <;> rfl
      rcases hqueues.conn? hfunctor with hop | ⟨rfl, -⟩
      · exact hop
      · rcases hn with rfl | ⟨len, rfl⟩ <;> cases hqueues
    cases op with
    | sendBody c' len =>
      obtain rfl := Option.some.inj hconn
      exact hC.unsent len (hS.eq_base hmem rfl ▸ hmem)
    | handleWrite c' =>
      have hdispatching := isDispatching_of_mem hS hmem rfl rfl
      cases hstep with
      | exec hstack hready hrun => exact absurd (hdispatching.symm.trans hphase) (by decide)
    | accept => cases hconn
    | _ => rcases hn with rfl | ⟨len, rfl⟩ <;> cases hqueues

end Steps

/-- In settled runs no notification of a closed connection waits outside the dispatching. -/
theorem spent_of_reach (hcfg : cfg.numThreads = 0) (h : (system cfg).ReachWhere Settled s) :
    ∀ c, Closed s c → Spent s c := by
  refine h.invariant_of (I := fun s => ∀ c, Closed s c → Spent s c)
    (J := fun s => (∀ c, Life s c) ∧ Registered cfg s ∧ Shape cfg s ∧ Rhythm s)
    (fun s hs => ⟨life_of_reach hcfg hs, registered_of_reach hs.reach, shape_of_reach hs.reach,
      rhythm_of_reach hs.reach⟩) ?_ ?_
  · rintro s rfl c - f hf
    cases hf
  · rintro s a s' ⟨hL, hR, hS, hrhythm⟩ - hI hok hs c hC
    have hstep := step_cases hs
    rcases (hL c).closed_or_closes hR hS hstep hok hcfg hrhythm hC with hbefore | hclose
    · exact hbefore.spent_step hR hS hstep (hI c hbefore)
    · exact fun f hf hn => isDispatching_of_closes hS hstep hclose

/-- At `poll` only the application holds a closed connection. -/
lemma Closed.heldByUser (hC : Closed s c) (hS : Shape cfg s) (hrhythm : Rhythm s)
    (hspent : Spent s c) (hcfg : cfg.numThreads = 0) (hat : s.AtPhase 0 .polling)
    (howns : Owns cfg s c) : s.HeldByUser c := by
  have hzero : ∀ {l : LoopId}, l ≤ cfg.numThreads → l = 0 := by
    intro l hl
    rwa [hcfg, Nat.le_zero] at hl
  cases howns with
  | table hx => exact absurd ⟨_, hx⟩ (hC.index_of_polling hrhythm hat).2
  | batch hl hf hc =>
    obtain rfl := hzero hl
    rw [hat.1] at hf
    cases hf
  | stack hl hop hc =>
    obtain rfl := hzero hl
    rw [hat.2] at hop
    cases hop
  | held h => exact .kept h
  | @pending l f hl hf hc =>
    obtain rfl := hzero hl
    have hwaiting : f ∈ s.waiting 0 := List.mem_append_left _ hf
    have hidle : (s.phase 0).isDispatching ≠ true := by
      rw [hat.1]
      exact Bool.false_ne_true
    cases f with
    | user cs => exact .queued hf hc
    | connectEstablished c' =>
      obtain rfl := List.mem_singleton.mp hc
      rcases hC.waiting 0 _ hwaiting rfl with hclass | hclass <;> cases hclass
    | connectDestroyed c' => exact absurd hwaiting (hrhythm.not_waiting hat.1)
    | removeConnectionInLoop c' => cases hS.queued 0 _ hwaiting
    | writeCompleteCallback c' =>
      obtain rfl := List.mem_singleton.mp hc
      exact absurd (hspent _ hf (.inl rfl)) hidle
    | highWaterMarkCallback c' len =>
      obtain rfl := List.mem_singleton.mp hc
      exact absurd (hspent _ hf (.inr ⟨len, rfl⟩)) hidle
    | sendInLoop | shutdownInLoop => cases hc

/-- When the base loop is about to poll, a connection exists only if `connections_` has it or the
application holds it. -/
lemma alive_iff_of_polling (hcfg : cfg.numThreads = 0) (h : (system cfg).ReachWhere Settled s)
    (hat : s.AtPhase 0 .polling) (c : ConnId) :
    s.Alive cfg c ↔ s.objects.InTable c ∨ s.HeldByUser c := by
  rw [alive_iff]
  constructor
  · intro howns
    cases life_of_reach hcfg h c with
    | unborn hU =>
      have hcreated := (registered_of_reach h.reach).created c howns
      exact absurd hcreated (Nat.not_lt_of_le hU.created)
    | early hE => exact .inl hE.table
    | up hU => exact .inl hU.table
    | closed hC =>
      exact .inr (hC.heldByUser (shape_of_reach h.reach) (rhythm_of_reach h.reach)
        (spent_of_reach hcfg h c hC) hcfg hat howns)
  · rintro (⟨name, hx⟩ | hheld)
    · exact .table hx
    · cases hheld with
      | kept h => exact .held h
      | queued hf hc => exact .pending (Nat.zero_le _) hf hc

/-- When the base loop of a server without sub-loops is about to poll, the connections that exist
are those in `connections_` and those the application holds on to, and a descriptor is in use only
if it is the listening one or that of such a connection. -/
theorem reclaimed_of_polling (hcfg : cfg.numThreads = 0)
    (h : (system cfg).ReachWhere Settled s) (hat : s.AtPhase 0 .polling) :
    (∀ c, s.Alive cfg c ↔ s.objects.InTable c ∨ s.HeldByUser c) ∧
      ∀ fd, s.FdFree cfg fd ↔ fd ≠ cfg.listenFd ∧
        ∀ c, s.objects.InTable c ∨ s.HeldByUser c → (s.objects.conn c).channel.fd ≠ fd := by
  refine ⟨alive_iff_of_polling hcfg h hat, fun fd => and_congr_right fun _ => ?_⟩
  constructor
  · intro hfree c hc
    have halive := (alive_iff_of_polling hcfg h hat c).mpr hc
    exact hfree c ((registered_of_reach h.reach).created c (alive_iff.mp halive)) halive
  · intro hfree c _ halive
    exact hfree c ((alive_iff_of_polling hcfg h hat c).mp halive)

/-- A connection that was closed is gone, and its descriptor 4 is free. -/
theorem reclaimed_of_polling_closedRun :
    ∃ s, (system (exampleConfig 0 false)).ReachWhere Settled s ∧ s.AtPhase 0 .polling ∧
      s.objects.created = 1 ∧ ¬ s.Alive (exampleConfig 0 false) 0 ∧
      s.FdFree (exampleConfig 0 false) 4 := by
  obtain ⟨s, hs, hobserved⟩ := exists_reach_of_run
    (M := (system (exampleConfig 0 false)).restrict Ordinary) (s := new (exampleConfig 0 false))
    (v := (true, 1, true, true, true)) closedRun
    (fun s => (decide (s.AtPhase 0 .polling), s.objects.created, s.objects.connections.isEmpty,
      s.held.isEmpty, (s.objects.pendingFunctors 0).isEmpty)) rfl (by decide +kernel)
  simp only [Prod.mk.injEq, decide_eq_true_eq, List.isEmpty_iff] at hobserved
  obtain ⟨hat, hcreated, htable, hheld, hpending⟩ := hobserved
  have hreach := settled_of_ordinary (Reach.of_restrict hs)
  obtain ⟨halive, hfree⟩ := reclaimed_of_polling rfl hreach hat
  have hnone : ∀ c, ¬ (s.objects.InTable c ∨ s.HeldByUser c) := by
    rintro c (⟨name, hx⟩ | hheldBy)
    · rw [htable] at hx
      cases hx
    · cases hheldBy with
      | kept h =>
        rw [hheld] at h
        cases h
      | queued hf hc =>
        rw [hpending] at hf
        cases hf
  refine ⟨s, hreach, hat, hcreated, fun h => hnone 0 ((halive 0).mp h), (hfree 4).mpr ⟨?_, ?_⟩⟩
  · decide
  · exact fun c hc => absurd hc (hnone c)

end Server

end HzhMuduo
