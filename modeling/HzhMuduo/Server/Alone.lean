import HzhMuduo.Server.Shape

/-!
# The base loop alone

Runs of a server without sub-loops in which no thread of the application acts on its own: the
callbacks and the functors run in the base loop, so its stack and its queue are all there is.
-/

namespace HzhMuduo

namespace Server

/-- The thread that takes a step. -/
def Act.tid : Act → Tid
  | .enter l | .leave l | .poll l _ | .dispatch l | .swap l | .next l | .release l => .loop l
  | .exec t _ | .user t _ => t
  | .destroyServer _ => .loop 0

variable {cfg : Config} {s s' : Server} {a : Act} {l : LoopId}

/-- Nothing is on the stack of another thread or waits in another loop. -/
structure Alone (s : Server) : Prop where
  stack : ∀ t ≠ .loop 0, s.stack t = []
  waiting : ∀ l ≠ 0, s.waiting l = []

namespace Alone

/-- The base loop goes on to another phase. -/
lemma setPhase (h : Alone s) {p : Phase} : Alone (s.setPhase 0 p) := by
  refine ⟨h.stack, fun l hl => ?_⟩
  have hold := h.waiting l hl
  simpa [Server.waiting, Server.setPhase, Function.update_of_ne hl] using hold

/-- The base loop has another stack. -/
lemma setStack (h : Alone s) {ops : List Op} : Alone (s.setStack (.loop 0) ops) := by
  refine ⟨fun t ht => ?_, h.waiting⟩
  simp only [Server.setStack, Function.update_of_ne ht]
  exact h.stack t ht

/-- Every step of the base loop leaves it alone. -/
lemma step (h : Alone s) (hcfg : cfg.numThreads = 0) (hR : Registered cfg s)
    (hstep : Step cfg s a s') (ha : a.tid = .loop 0) : Alone s' := by
  cases hstep with
  | enter hl hphase =>
    obtain rfl := Tid.loop.inj ha
    exact h.setPhase
  | leave hphase =>
    obtain rfl := Tid.loop.inj ha
    exact h.setPhase
  | poll hphase hnodup hactive =>
    obtain rfl := Tid.loop.inj ha
    exact h.setPhase
  | release hphase =>
    obtain rfl := Tid.loop.inj ha
    exact h.setPhase
  | dispatch hphase halive =>
    obtain rfl := Tid.loop.inj ha
    exact h.setPhase.setStack
  | next hphase =>
    obtain rfl := Tid.loop.inj ha
    exact h.setPhase.setStack
  | swap hphase =>
    obtain rfl := Tid.loop.inj ha
    refine ⟨h.stack, fun l hl => ?_⟩
    have hold := h.waiting l hl
    simpa [Server.waiting, Server.setPhase, Objects.clearPending, Function.update_of_ne hl]
      using hold
  | @exec t i op rest o ops hstack hready hrun =>
    obtain rfl : t = .loop 0 := ha
    refine ⟨fun t ht => ?_, fun l hl => ?_⟩
    · simp only [executed, Server.setStack, Function.update_of_ne ht]
      exact h.stack t ht
    · refine List.eq_nil_iff_forall_not_mem.mpr fun f hf => ?_
      have hnil := h.waiting l hl
      have hold : f ∈ s.waiting l := by
        rcases List.mem_append.mp hf with hf | hf
        · rcases hrun.effect.mem_pending hR.objects.loop hf with hf | ⟨-, ⟨hzero, -⟩ | ⟨-, hloop, -⟩⟩
          · exact List.mem_append_left _ hf
          · exact absurd hzero hl
          · rw [Objects.getNextLoop, if_pos hcfg] at hloop
            exact absurd hloop hl
        · exact List.mem_append_right _ hf
      rw [hnil] at hold
      cases hold
  | @queueInLoop t l cs' cs buffer hframe hl hsees =>
    rw [hcfg, Nat.le_zero] at hl
    subst hl
    refine ⟨h.stack, fun l hl => ?_⟩
    have hold := h.waiting l hl
    simpa [Server.waiting, Objects.queueInLoop, Function.update_of_ne hl] using hold
  | send hframe hsees =>
    subst ha
    exact h.setStack
  | shutdown hframe hsees =>
    subst ha
    exact h.setStack
  | ret hstack =>
    subst ha
    exact h.setStack
  | destroyServer halive hphase horder =>
    exact ⟨h.setStack.stack, h.waiting⟩
  | _ => exact ⟨h.stack, h.waiting⟩

end Alone

/-- When only the base loop acts, it stays alone. -/
theorem alone_of_reach (hcfg : cfg.numThreads = 0)
    (h : (system cfg).ReachWhere (fun _ a => a.tid = .loop 0) s) : Alone s := by
  refine h.invariant_of (J := Registered cfg) (fun s hs => registered_of_reach hs.reach) ?_
    fun s a s' hR _ hI ha hs => hI.step hcfg hR (step_cases hs) ha
  rintro s rfl
  exact ⟨fun _ _ => rfl, fun _ _ => rfl⟩

/-- The base loop accepts a connection on descriptor 4 and is about to poll again. -/
def acceptedRun : List Act :=
  [.enter 0, .poll 0 [(3, EPOLLIN)], .dispatch 0,
    .exec (.loop 0) (.accept (some 4)), .exec (.loop 0) .none, .exec (.loop 0) .none,
    .exec (.loop 0) .none, .user (.loop 0) .ret, .exec (.loop 0) .none, .exec (.loop 0) .none,
    .swap 0, .release 0]

/-- A connection is accepted; then its peer closes it. -/
def closedRun : List Act :=
  acceptedRun ++ [.poll 0 [(4, EPOLLHUP)], .dispatch 0, .exec (.loop 0) .none,
    .exec (.loop 0) .none, .user (.loop 0) .ret, .exec (.loop 0) .none, .exec (.loop 0) .none,
    .exec (.loop 0) .none, .exec (.loop 0) .none, .swap 0, .next 0, .exec (.loop 0) .none,
    .exec (.loop 0) .none, .release 0]

end Server

end HzhMuduo
