import HzhMuduo.Server.Shape

/-!
# Thread affinity

`newConnection` chooses a loop with `getNextLoop` and has `connectEstablished` called there, but
the constructor of the connection is given the base loop.  The two are the same loop exactly
when there are no sub-loops (`affine_iff`).
-/

namespace HzhMuduo

open MachineWord TcpConnection

/-- The connection whose channel, poller entry or buffers an operation works on. -/
def Op.touches : Op → Option ConnId
  | .connectEstablished c | .enableReading c | .connectDestroyed c | .destroyConnected c
  | .channelRemove c | .handleClose c | .handleError c | .handleRead c | .handleWrite c
  | .afterDrain c | .sendInLoop c _ | .sendBody c _ | .shutdownInLoop c => some c
  | _ => none

namespace Server

variable {cfg : Config} {s s' : Server} {a : Act} {t : Tid} {c : ConnId}

/-- The step is taken by thread `t` and touches the channel, the poller entry or the buffers of
connection `c`: an operation, the report of an event, the start of its handlers, or the
application reading from the input buffer. -/
inductive Touches (s : Server) : Act → Tid → ConnId → Prop
  | exec {t i op rest c} (h : s.stack t = op :: rest) (hc : op.touches = some c) :
      Touches s (.exec t i) t c
  | poll {l ready fd revents events c} (hready : (fd, revents) ∈ ready)
      (h : (s.objects.poller l).epoll fd = some (events, .conn c)) :
      Touches s (.poll l ready) (.loop l) c
  | dispatch {l revents active c} (h : s.phase l = .dispatching ((.conn c, revents) :: active)) :
      Touches s (.dispatch l) (.loop l) c
  | retrieve {t c len} : Touches s (.user t (.retrieve c len)) t c

/-- Every step that touches a connection is taken by the thread of the connection's own loop. -/
def Affine (cfg : Config) (s : Server) : Prop :=
  ∀ a s' t c, s.step cfg a = some s' → s.Touches a t c → t = .loop (s.objects.conn c).loop

/-- Without sub-loops the base loop does everything. -/
lemma affine_of_reach (hcfg : cfg.numThreads = 0) (h : (system cfg).Reach s) : Affine cfg s := by
  have hR := registered_of_reach h
  have hS := shape_of_reach h
  have hbase : ∀ l, l ≤ cfg.numThreads → Tid.loop l = .loop 0 := by
    intro l hl
    rw [hcfg, Nat.le_zero] at hl
    rw [hl]
  intro a s' t c hstep htouches
  rw [hR.objects.loop c]
  cases htouches with
  | @exec t i op rest c hstack hc =>
    have hmem : op ∈ s.stack t := hstack ▸ List.mem_cons_self
    rcases t with l | u
    · refine hbase l ?_
      by_contra hlt
      rw [(hS.idle l (Nat.lt_of_not_le hlt)).2] at hmem
      cases hmem
    · have hremote : op.remote = true := hS.fits (.user u) op hmem
      cases op <;> simp_all [Op.remote, Op.touches]
  | @poll l ready fd revents events c hready hentry =>
    by_cases hl : l = 0
    · rw [hl]
    · rw [hR.objects.subPoller l hl] at hentry
      cases hentry
  | dispatch hphase => exact hbase _ (hS.le_of_phase (by simp [hphase]))
  | @retrieve t c len =>
    cases step_cases hstep with
    | retrieve hframe halive =>
      rcases t with l | u
      · exact hbase l (hS.frame_ne hframe rfl).2
      · cases hstack : s.stack (.user u) with
        | nil => simp [frame, hstack] at hframe
        | cons op rest =>
          have hremote : op.remote = true :=
            hS.fits (.user u) op (hstack ▸ List.mem_cons_self)
          cases op <;> simp_all [Op.remote, frame]

/-- The base loop, just before it accepts a first connection. -/
def accepting (cfg : Config) : Server :=
  ((new cfg).setPhase 0 (.dispatching [])).setStack (.loop 0) [.accept]

lemma reach_accepting (cfg : Config) : (system cfg).Reach (accepting cfg) := by
  have hin : handleEvent (.acceptor, EPOLLIN) = [.accept] := by decide
  have hrun : (system cfg).run (new cfg)
      [.enter 0, .poll 0 [(cfg.listenFd, EPOLLIN)], .dispatch 0] = some (accepting cfg) := by
    simp [system, step, AtPhase, setPhase, setStack, EPOLLPoller.fillActiveChannels, ChannelAlive,
      accepting, new, hin]
  have hnew : (system cfg).Reach (new cfg) := .init rfl
  exact hnew.run hrun

/-- With a sub-loop the first connection is established by loop 1. -/
lemma exists_established_elsewhere (hcfg : cfg.numThreads ≠ 0) :
    ∃ s, (system cfg).Reach s ∧ s.stack (.loop 1) = [.connectEstablished 0] ∧ Owns cfg s 0 := by
  have hle : 1 ≤ cfg.numThreads := Nat.one_le_iff_ne_zero.mpr hcfg
  have hrun : ((system cfg).run (accepting cfg)
      [.exec (.loop 0) (.accept (some (cfg.listenFd + 1))),
        .enter 1, .poll 1 [], .swap 1, .next 1]).map
      (fun s => (s.stack (.loop 1), s.objects.connections.map Prod.snd)) =
      some ([.connectEstablished 0], [0]) := by
    simp [system, step, accepting, new, hle, AtPhase, setPhase, EPOLLPoller.fillActiveChannels,
      setStack, exec, Ready, Op.conn?, Op.acceptedFd, FdFree, Op.run, nextConnIdOverflows,
      Objects.newConnection, Objects.getNextLoop, hcfg, executed, Objects.insert,
      Objects.queueInLoop, Objects.clearPending, Functor.op]
  obtain ⟨s, hs, hobserved⟩ := Option.map_eq_some_iff.mp hrun
  obtain ⟨hstack, htable⟩ := Prod.mk.inj hobserved
  have hzero : 0 ∈ s.objects.connections.map Prod.snd := by
    rw [htable]
    exact List.mem_singleton_self 0
  obtain ⟨⟨name, c⟩, hx, rfl⟩ := List.mem_map.mp hzero
  exact ⟨s, (reach_accepting cfg).run hs, hstack, .table hx⟩

/-- With a sub-loop some step is taken by another thread than the connection's own. -/
lemma exists_not_affine (hcfg : cfg.numThreads ≠ 0) :
    ∃ s, (system cfg).Reach s ∧ s.stack (.loop 1) = [.connectEstablished 0] ∧
      (s.objects.conn 0).loop = 0 ∧ ¬ Affine cfg s := by
  obtain ⟨s, hs, hstack, howned⟩ := exists_established_elsewhere hcfg
  have hloop := (registered_of_reach hs).objects.loop 0
  refine ⟨s, hs, hstack, hloop, fun haffine => ?_⟩
  have hready : s.Ready cfg (.connectEstablished 0) .none := by
    refine ⟨fun c hc => ?_, nofun⟩
    obtain rfl : 0 = c := Option.some.inj hc
    exact alive_iff.mpr howned
  have hstep : s.step cfg (.exec (.loop 1) .none) = some (s.executed (.loop 1)
      (.connectEstablished 0)
      (s.objects.setView 0 ((s.objects.view 0).setState .kConnected)) [.enableReading 0]) := by
    simp [step, exec, hstack, hready, Op.run]
  have hthread := haffine _ _ _ _ hstep (.exec hstack rfl)
  rw [hloop] at hthread
  exact absurd (Tid.loop.inj hthread) (by decide)

/-- In the runs of a server every step that touches a connection is taken by the thread of the
connection's own loop exactly if the server has no sub-loops. -/
theorem affine_iff (cfg : Config) :
    (∀ s, (system cfg).Reach s → Affine cfg s) ↔ cfg.numThreads = 0 := by
  constructor
  · intro h
    by_contra hcfg
    obtain ⟨s, hs, -, -, hnot⟩ := exists_not_affine hcfg
    exact hnot (h s hs)
  · intro hcfg s hs
    exact affine_of_reach hcfg hs

/-- With one sub-loop the first connection is established by the thread of loop 1, and its own
loop is the base loop. -/
theorem exists_not_affine_oneSubLoop :
    ∃ s, (system (exampleConfig 1 false)).Reach s ∧ s.stack (.loop 1) = [.connectEstablished 0] ∧
      (s.objects.conn 0).loop = 0 ∧ ¬ Affine (exampleConfig 1 false) s :=
  exists_not_affine (by decide)

end Server

end HzhMuduo
