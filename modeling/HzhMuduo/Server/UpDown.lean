import HzhMuduo.Server.Removal

/-!
# Up and down

An application that was told that a connection is up expects to be told that it is down before
the connection is destroyed.  Two functions tell it: `handleClose`, whatever the state, and
`connectDestroyed`, if the state is `kConnected`.  Between them they miss the connection that the
destructor of the server finds half closed: the state is `kDisconnecting`, `handleClose` was
never called, and `connectDestroyed` removes the channel without a word.  In runs in which this
does not happen, and no `shutdown` comes between the store of `kDisconnected` and the call of the
callback (`Forthcoming`), every up notification is matched (`matched_of_reach`).
-/

namespace HzhMuduo

open MachineWord TcpConnection TransitionSystem

namespace Server

variable {cfg : Config} {s s' : Server} {a : Act} {c : ConnId}

/-- `connectEstablished` of `c` has called the connection callback. -/
def Announced (s : Server) (c : ConnId) : Prop :=
  List.Sublist [.enableReading c, .connectionCallback c] (s.trace.map Event.op)

/-- The connection callback was called with `c` in state `kDisconnected`. -/
def ToldDown (s : Server) (c : ConnId) : Prop :=
  ∃ e ∈ s.trace, e.op = .connectionCallback c ∧ e.state = .kDisconnected

/-- If the application was told that `c` is up and `connectDestroyed` of `c` has returned, the
application was told that `c` is down. -/
def Matched (s : Server) (c : ConnId) : Prop := s.Announced c → s.Removed c → s.ToldDown c

/-- `setState(kDisconnected)` was executed, by `handleClose` or by `connectDestroyed`. -/
def Ended (s : Server) (c : ConnId) : Prop :=
  ∃ e ∈ s.trace, e.op = .handleClose c ∨ e.op = .destroyConnected c

instance (s : Server) (c : ConnId) : Decidable (s.Announced c) :=
  inferInstanceAs (Decidable (List.Sublist _ _))

instance (s : Server) (c : ConnId) : Decidable (s.Removed c) :=
  inferInstanceAs (Decidable (∃ e ∈ s.trace, _))

instance (s : Server) (c : ConnId) : Decidable (s.ToldDown c) :=
  inferInstanceAs (Decidable (∃ e ∈ s.trace, _))

instance (s : Server) (c : ConnId) : Decidable (s.Ended c) :=
  inferInstanceAs (Decidable (∃ e ∈ s.trace, _))

/-- The discipline that the source does not enforce: `connectDestroyed` finds `kDisconnecting`
only if the state was set to `kDisconnected` before, and `shutdown` does not overwrite
`kDisconnected` while the connection callback has still to be called. -/
def Forthcoming (s : Server) : Act → Prop
  | .exec t _ => ∀ op ∈ (s.stack t).head?, ∀ c ∈ op.conn?,
      (op = .connectDestroyed c → (s.objects.conn c).state = .kDisconnecting → s.Ended c) ∧
      (op = .setDisconnecting c → (s.objects.conn c).state = .kDisconnected →
        .connectionCallback c ∉ s.stack (.loop 0))
  | _ => True

instance (s : Server) : (a : Act) → Decidable (s.Forthcoming a)
  | .exec t _ => inferInstanceAs (Decidable (∀ op ∈ (s.stack t).head?, _))
  | .enter _ | .leave _ | .poll _ _ | .dispatch _ | .swap _ | .next _ | .release _ | .user _ _
  | .destroyServer _ => inferInstanceAs (Decidable True)

/-- How far the application was told of the end of a connection. -/
structure Farewell (s : Server) (c : ConnId) : Prop where
  created : s.Ended c → c < s.objects.created
  /-- A connection that is not established is about to be. -/
  connecting : c < s.objects.created → (s.objects.conn c).state = .kConnecting →
    .connectEstablished c ∈ s.stack (.loop 0)
  ended : (s.objects.conn c).state = .kDisconnected → s.Ended c
  told : s.Ended c → s.ToldDown c ∨
    (s.objects.conn c).state = .kDisconnected ∧ .connectionCallback c ∈ s.stack (.loop 0)
  removing : .channelRemove c ∈ s.stack (.loop 0) → s.Ended c
  removed : s.Removed c → s.ToldDown c

lemma Ended.of_kept (h : Kept c s s') : s'.Ended c ↔ s.Ended c := by
  refine h.exists_trace fun e hop => ?_
  rcases hop with hop | hop
  · rw [hop]
    rfl
  · rw [hop]
    rfl

lemma ToldDown.of_kept (h : Kept c s s') : s'.ToldDown c ↔ s.ToldDown c := by
  refine h.exists_trace fun e he => ?_
  rw [he.1]
  rfl

lemma ended_executed {t : Tid} {op : Op} {ops : List Op} {o : Objects} :
    (s.executed t op o ops).Ended c ↔
      s.Ended c ∨ op = .handleClose c ∨ op = .destroyConnected c :=
  exists_trace_executed

lemma toldDown_executed {t : Tid} {op : Op} {ops : List Op} {o : Objects} :
    (s.executed t op o ops).ToldDown c ↔
      s.ToldDown c ∨ op = .connectionCallback c ∧ (s.objects.conn c).state = .kDisconnected := by
  refine exists_trace_executed.trans (or_congr_right (and_congr_right ?_))
  rintro rfl
  rfl

/-- Only `handleClose` and `connectDestroyed` store `kDisconnected`. -/
lemma ended_executed_of_state {t : Tid} {i : Input} {op : Op} {ops ops' : List Op} {o : Objects}
    (hR : Registered cfg s) (hready : s.Ready cfg op i)
    (hrun : Op.Runs cfg s.objects t i op o ops) (hop : op.conn? = some c)
    (hended : (s.objects.conn c).state = .kDisconnected → s.Ended c)
    (hstate : (o.conn c).state = .kDisconnected) : (s.executed t op o ops').Ended c := by
  have hc : c < s.objects.created := hR.lt_of_ready hready c hop
  have hchange := hrun.stateChange hc
  rw [hstate] at hchange
  generalize hold : (s.objects.conn c).state = state at hchange
  refine ended_executed.mpr ?_
  cases hchange with
  | same hne => exact .inl (hended hold)
  | destroyConnected => exact .inr (.inr rfl)
  | handleClose => exact .inr (.inl rfl)

namespace Farewell

/-- A connection that does not exist yet. -/
lemma of_new (cfg : Config) (c : ConnId) : Farewell (new cfg) c := by
  have hended : ¬ (new cfg).Ended c := by
    rintro ⟨e, he, -⟩
    cases he
  constructor
  · intro h
    exact absurd h hended
  · intro hc
    exact absurd hc (Nat.not_lt_zero c)
  · intro hstate
    cases hstate
  · intro h
    exact absurd h hended
  · intro hop
    cases hop
  · rintro ⟨e, he, -⟩
    cases he

/-- Steps that only start something. -/
lemma kept (hF : Farewell s c) (h : Kept c s s') : Farewell s' c := by
  constructor
  · intro hended
    exact h.created.mpr (hF.created ((Ended.of_kept h).mp hended))
  · intro hc hstate
    rw [h.state] at hstate
    exact (h.stack _ _ rfl rfl).mpr (hF.connecting (h.created.mp hc) hstate)
  · intro hstate
    rw [h.state] at hstate
    exact (Ended.of_kept h).mpr (hF.ended hstate)
  · intro hended
    rw [ToldDown.of_kept h, h.state, h.stack _ (.connectionCallback c) rfl rfl]
    exact hF.told ((Ended.of_kept h).mp hended)
  · intro hop
    exact (Ended.of_kept h).mpr (hF.removing ((h.stack _ _ rfl rfl).mp hop))
  · intro hremoved
    exact (ToldDown.of_kept h).mpr (hF.removed ((Removed.of_kept h).mp hremoved))

/-- The call of a functor. -/
lemma next (hF : Farewell s c) {l : LoopId} {ran rest : List Functor} {f : Functor}
    (h : s.AtPhase l (.functors ran (f :: rest))) :
    Farewell ((s.setPhase l (.functors (ran ++ [f]) rest)).setStack (.loop l) [f.op]) c := by
  refine ⟨hF.created, ?_, hF.ended, ?_, ?_, hF.removed⟩
  · intro hc hstate
    exact mem_next_of_mem h.2 (hF.connecting hc hstate)
  · intro hended
    refine (hF.told hended).imp_right ?_
    rintro ⟨hstate, hop⟩
    exact ⟨hstate, mem_next_of_mem h.2 hop⟩
  · intro hop
    rcases mem_next hop with ⟨-, heq⟩ | hold
    · cases f <;> cases heq
    · exact hF.removing hold

section Exec

variable {t : Tid} {i : Input} {op : Op} {rest ops : List Op} {o : Objects}

/-- A connection that is created is established by the base loop next. -/
lemma create (hF : Farewell s c) (hcfg : cfg.numThreads = 0) (hS : Shape cfg s)
    (hstack : s.stack t = op :: rest) (hrun : Op.Runs cfg s.objects t i op o ops)
    (hnew : op.Creates s.objects o c) : Farewell (s.executed t op o (ops ++ rest)) c := by
  obtain ⟨fd, hconn⟩ := hnew.conn_eq hrun
  obtain ⟨rfl, rfl⟩ := hS.establishes hcfg hstack hrun hnew
  obtain ⟨rfl, rfl, -⟩ := hnew
  have hstate : (o.conn s.objects.created).state = .kConnecting := by
    rw [hconn]
    rfl
  have hended : ¬ s.Ended s.objects.created := fun h => Nat.lt_irrefl _ (hF.created h)
  have hended' : ¬ (s.executed (.loop 0) .accept o
      ([.connectEstablished s.objects.created, .release s.objects.created] ++ rest)).Ended
        s.objects.created := by
    rw [ended_executed]
    rintro (h | h | h)
    · exact hended h
    · cases h
    · cases h
  constructor
  · intro h
    exact absurd h hended'
  · intro _ _
    exact mem_executed_self List.mem_cons_self
  · intro h
    exact absurd (hstate.symm.trans h) (by decide)
  · intro h
    exact absurd h hended'
  · intro hop
    rcases mem_executed hstack hop with ⟨-, hop⟩ | ⟨hold, -⟩
    · cases hrun.follows hop
    · exact absurd (hF.removing hold) hended
  · intro hremoved
    rcases removed_executed.mp hremoved with h | h
    · exact toldDown_executed.mpr (.inl (hF.removed h))
    · cases h

/-- When the channel is removed, the callback has been called. -/
lemma removed_executed (hF : Farewell s c) (hS : Shape cfg s) (hstack : s.stack t = op :: rest)
    (hremoved : (s.executed t op o (ops ++ rest)).Removed c) :
    (s.executed t op o (ops ++ rest)).ToldDown c := by
  refine toldDown_executed.mpr (.inl ?_)
  rcases Server.removed_executed.mp hremoved with h | rfl
  · exact hF.removed h
  · have hmem : .channelRemove c ∈ s.stack t := hstack ▸ List.mem_cons_self
    obtain rfl : t = .loop 0 := hS.eq_base hmem rfl
    rcases hF.told (hF.removing hmem) with htold | ⟨-, hcall⟩
    · exact htold
    · exact nomatch hS.eq_head hstack hcall rfl

variable (hR : Registered cfg s) (hstack : s.stack t = op :: rest) (hready : s.Ready cfg op i)
  (hrun : Op.Runs cfg s.objects t i op o ops) (hop : op.conn? = some c)

include hR hstack hready hrun hop

/-- A connection is established by the operation that the base loop executes next. -/
lemma connecting_executed (hF : Farewell s c) (hstate : (o.conn c).state = .kConnecting) :
    .connectEstablished c ∈ (s.executed t op o (ops ++ rest)).stack (.loop 0) := by
  have hc : c < s.objects.created := hR.lt_of_ready hready c hop
  have hchange := hrun.stateChange hc
  rw [hstate] at hchange
  generalize hold : (s.objects.conn c).state = state at hchange
  cases hchange with
  | same hne => exact mem_executed_of_mem hstack (hF.connecting hc hold) hne.1.symm

/-- The store of `kDisconnected` leaves the call of the connection callback to be executed. -/
lemma told_of_ends (hS : Shape cfg s) (hends : op = .handleClose c ∨ op = .destroyConnected c) :
    (o.conn c).state = .kDisconnected ∧
      .connectionCallback c ∈ (s.executed t op o (ops ++ rest)).stack (.loop 0) := by
  have hc : c < s.objects.created := hR.lt_of_ready hready c hop
  have hmem : op ∈ s.stack t := hstack ▸ List.mem_cons_self
  have hchange := hrun.stateChange hc
  generalize (s.objects.conn c).state = state at hchange
  generalize (o.conn c).state = state' at hchange ⊢
  rcases hends with rfl | rfl
  · obtain rfl : t = .loop 0 := hS.eq_base hmem rfl
    refine ⟨?_, mem_executed_self ?_⟩
    · cases hchange with
      | same hne => exact absurd rfl hne.2.2.1
      | handleClose => rfl
    · cases hrun with
      | handleClose h => exact List.mem_cons_self
  · obtain rfl : t = .loop 0 := hS.eq_base hmem rfl
    refine ⟨?_, mem_executed_self ?_⟩
    · cases hchange with
      | same hne => exact absurd rfl hne.2.1
      | destroyConnected => rfl
    · cases hrun with
      | destroyConnected h => exact List.mem_cons_self

/-- As long as the call is outstanding, nothing overwrites the state. -/
lemma told_executed (hF : Farewell s c) (hcfg : cfg.numThreads = 0) (hS : Shape cfg s)
    (hok : s.Forthcoming (.exec t i)) (hended : s.Ended c) :
    (s.executed t op o (ops ++ rest)).ToldDown c ∨ (o.conn c).state = .kDisconnected ∧
      .connectionCallback c ∈ (s.executed t op o (ops ++ rest)).stack (.loop 0) := by
  have hc : c < s.objects.created := hR.lt_of_ready hready c hop
  rcases hF.told hended with htold | ⟨hstate, hcall⟩
  · exact .inl (toldDown_executed.mpr (.inl htold))
  by_cases hopcall : op = .connectionCallback c
  · exact .inl (toldDown_executed.mpr (.inr ⟨hopcall, hstate⟩))
  refine .inr ⟨?_, mem_executed_of_mem hstack hcall (Ne.symm hopcall)⟩
  have hchange := hrun.stateChange hc
  rw [hstate] at hchange
  generalize (o.conn c).state = state' at hchange ⊢
  cases hchange with
  | same hne => rfl
  | connectEstablished =>
    have hmem : .connectEstablished c ∈ s.stack t := hstack ▸ List.mem_cons_self
    obtain rfl : t = .loop 0 := hS.eq_base_of_cfg hcfg hmem rfl
    exact nomatch hS.eq_head hstack hcall rfl
  | destroyConnected => rfl
  | handleClose => rfl
  | setDisconnecting =>
    exact absurd hcall ((hok _ (by rw [hstack]; rfl) c rfl).2 rfl hstate)

/-- `connectDestroyed` removes the channel of a connection whose end was stored. -/
lemma ended_of_removing (hF : Farewell s c) (hS : Shape cfg s) (hok : s.Forthcoming (.exec t i))
    (hmem : .channelRemove c ∈ (s.executed t op o (ops ++ rest)).stack (.loop 0)) :
    (s.executed t op o (ops ++ rest)).Ended c := by
  have hc : c < s.objects.created := hR.lt_of_ready hready c hop
  rcases mem_executed hstack hmem with ⟨rfl, hnew⟩ | ⟨hold, -⟩
  · cases hrun.follows hnew with
    | destroyRemove => exact ended_executed.mpr (.inr (.inr rfl))
    | channelRemove hnot =>
      refine ended_executed.mpr (.inl ?_)
      cases hstate : (s.objects.conn c).state with
      | kDisconnected => exact hF.ended hstate
      | kConnecting => exact nomatch hS.eq_head hstack (hF.connecting hc hstate) rfl
      | kConnected => exact absurd hstate hnot
      | kDisconnecting => exact (hok _ (by rw [hstack]; rfl) c rfl).1 rfl hstate
  · exact ended_executed.mpr (.inl (hF.removing hold))

/-- An operation on the connection. -/
lemma exec (hF : Farewell s c) (hcfg : cfg.numThreads = 0) (hS : Shape cfg s)
    (hok : s.Forthcoming (.exec t i)) : Farewell (s.executed t op o (ops ++ rest)) c := by
  have hc : c < s.objects.created := hR.lt_of_ready hready c hop
  constructor
  · intro _
    exact Nat.lt_of_lt_of_le hc hrun.effect.created_le
  · intro _ hstate
    exact connecting_executed hR hstack hready hrun hop hF hstate
  · intro hstate
    exact ended_executed_of_state hR hready hrun hop hF.ended hstate
  · intro hended
    rcases ended_executed.mp hended with hold | hends
    · exact told_executed hR hstack hready hrun hop hF hcfg hS hok hold
    · exact .inr (told_of_ends hR hstack hready hrun hop hS hends)
  · intro hmem
    exact ended_of_removing hR hstack hready hrun hop hF hS hok hmem
  · intro hremoved
    exact removed_executed hF hS hstack hremoved

end Exec

/-- Every step of such a run keeps it. -/
theorem step (hF : Farewell s c) (hcfg : cfg.numThreads = 0) (hR : Registered cfg s)
    (hS : Shape cfg s) (hok : s.Forthcoming a) (hstep : Step cfg s a s') : Farewell s' c := by
  cases hstep.concerns hR c with
  | untouched h hnot => exact hF.kept h.kept
  | poll h hnodup hactive => exact hF.kept (kept_poll h)
  | dispatch h halive => exact hF.kept (kept_dispatch h)
  | next h hf => exact hF.next h
  | exec hstack hready hrun hc =>
    rcases hc with hop | hnew
    · exact exec hR hstack hready hrun hop hF hcfg hS hok
    · exact hF.create hcfg hS hstack hrun hnew
  | call hframe hsees hop => exact hF.kept (kept_call hop)
  | destroyServer halive h => exact hF.kept (kept_destroyServer h)

end Farewell

/-- Without sub-loops, in runs that meet `Forthcoming`, this holds of every connection. -/
theorem farewell_of_reach (hcfg : cfg.numThreads = 0)
    (h : (system cfg).ReachWhere Forthcoming s) : ∀ c, Farewell s c := by
  refine h.invariant_of (I := fun s => ∀ c, Farewell s c)
    (J := fun s => Registered cfg s ∧ Shape cfg s)
    (fun s hs => ⟨registered_of_reach hs.reach, shape_of_reach hs.reach⟩) ?_ ?_
  · rintro s rfl c
    exact .of_new cfg c
  · rintro s a s' ⟨hR, hS⟩ - hI hok hs c
    exact (hI c).step hcfg hR hS hok (step_cases hs)

/-- On a server without sub-loops, in runs that meet `Forthcoming`, every up notification is
matched by a down notification before `connectDestroyed` returns. -/
theorem matched_of_reach (hcfg : cfg.numThreads = 0)
    (h : (system cfg).ReachWhere Forthcoming s) (c : ConnId) : s.Matched c := by
  intro _ hremoved
  exact (farewell_of_reach hcfg h c).removed hremoved

theorem matched_of_reach_closedRun :
    ∃ s, (system (exampleConfig 0 false)).ReachWhere Forthcoming s ∧
      s.Announced 0 ∧ s.Removed 0 ∧ s.Matched 0 := by
  obtain ⟨s, hs, hobserved⟩ := exists_reach_of_run
    (M := (system (exampleConfig 0 false)).restrict Forthcoming) (s := new (exampleConfig 0 false))
    (v := (true, true)) closedRun (fun s => (decide (s.Announced 0), decide (s.Removed 0)))
    rfl (by decide +kernel)
  obtain ⟨hup, hremoved⟩ := Prod.mk.inj hobserved
  have hreach := Reach.of_restrict hs
  have hmatched : s.Matched 0 := matched_of_reach rfl hreach 0
  exact ⟨s, hreach, of_decide_eq_true hup, of_decide_eq_true hremoved, hmatched⟩

/-- The application sends two bytes, of which the kernel takes one, and shuts the connection
down; then the server is destroyed. -/
def halfClosedRun : List Act :=
  [.enter 0, .poll 0 [(3, EPOLLIN)], .dispatch 0,
    .exec (.loop 0) (.accept (some 4)), .exec (.loop 0) .none, .exec (.loop 0) .none,
    .exec (.loop 0) .none, .user (.loop 0) (.send 0 2), .exec (.loop 0) .none,
    .exec (.loop 0) .none, .exec (.loop 0) (.write (.ofString [65, 66]) (.wrote 1)),
    .user (.loop 0) (.shutdown 0), .exec (.loop 0) .none, .exec (.loop 0) .none,
    .exec (.loop 0) .none, .exec (.loop 0) .none, .user (.loop 0) .ret, .exec (.loop 0) .none,
    .exec (.loop 0) .none, .swap 0, .release 0, .leave 0, .destroyServer [0],
    .exec (.loop 0) .none, .exec (.loop 0) .none, .exec (.loop 0) .none]

/-- The connection is destroyed half closed, with a byte still to be sent, and the application is
not told. -/
theorem exists_not_matched :
    ∃ s, (system (exampleConfig 0 false)).Reach s ∧
      (s.objects.conn 0).state = .kDisconnecting ∧
      (s.objects.conn 0).outputBuffer.readableBytes = 1 ∧ ¬ s.Matched 0 := by
  obtain ⟨s, hs, hobserved⟩ := exists_reach_of_run (M := system (exampleConfig 0 false))
    (s := new (exampleConfig 0 false)) (v := (true, true, false, .kDisconnecting, 1)) halfClosedRun
    (fun s => (decide (s.Announced 0), decide (s.Removed 0), decide (s.ToldDown 0),
      (s.objects.conn 0).state, (s.objects.conn 0).outputBuffer.readableBytes))
    rfl (by decide +kernel)
  simp only [Prod.mk.injEq, decide_eq_true_eq, decide_eq_false_iff_not] at hobserved
  obtain ⟨hup, hremoved, htold, hstate, hbytes⟩ := hobserved
  exact ⟨s, hs, hstate, hbytes, fun h => htold (h hup hremoved)⟩

end Server

end HzhMuduo
