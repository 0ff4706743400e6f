import HzhMuduo.EventLoop.Fifo
import HzhMuduo.Server.Frame

/-!
# The loops of the server are event loops

The server has its loops in large steps: a functor is queued in one step, and the wakeups and the
tests of `quit_` are left out.  Each of them is the event loop of `EventLoop.Basic` all the same
(`server_refines_eventLoop`): every run of the server is, for each of its loops, a run of that event
loop and its threads, with the same functors pending, in the batch and called, and the loop thread
at the same place.  What holds of every run of an event loop so holds of the loops of a server; that
the functors of a loop are called in the order in which they were queued is `exists_fifo_of_run`.
-/

namespace HzhMuduo

open TransitionSystem

namespace EventLoop

variable {F : Type*} {e e' : EventLoop F} {pending batch called : List F} {pc : LoopPc}

/-- What there is to see of an event loop when no other thread is in a call of its functions. -/
structure Shows (e : EventLoop F) (pending batch called : List F) (pc : LoopPc) : Prop where
  pending_eq : e.pendingFunctors.map (fun x => x.item.functor) = pending
  batch_eq : e.functors.map (fun x => x.item.functor) = batch
  called_eq : e.executed.map (fun x => x.item.functor) = called
  pc_eq : e.pc = pc
  idle : ∀ u, e.other u = .idle
  quit_eq : pc ≠ .outside → e.quit = false

/-- Some run of the event loop leads to where this is seen. -/
def Leads (e : EventLoop F) (pending batch called : List F) (pc : LoopPc) : Prop :=
  ∃ as e', (system F).run e as = some e' ∧ e'.Shows pending batch called pc

/-- One run after the other. -/
lemma Leads.trans {pending' batch' called' : List F} {pc' : LoopPc}
    (h : e.Leads pending batch called pc)
    (hnext : ∀ e' : EventLoop F, e'.Shows pending batch called pc →
      e'.Leads pending' batch' called' pc') : e.Leads pending' batch' called' pc' := by
  obtain ⟨as, e', hrun, hshows⟩ := h
  obtain ⟨bs, e'', hrun', hshows'⟩ := hnext e' hshows
  refine ⟨as ++ bs, e'', ?_, hshows'⟩
  rw [run_append, hrun]
  exact hrun'

namespace Shows

/-- Nothing has to be done. -/
lemma leads (h : e.Shows pending batch called pc) : e.Leads pending batch called pc :=
  ⟨[], e, rfl, h⟩

/-- `loop()` begins. -/
lemma enter (h : e.Shows pending batch called .outside) :
    e.Leads pending batch called .testing := by
  refine ⟨[.loop .enter, .loop .clearQuit],
    { e with looping := true, quit := false, pc := .testing }, ?_,
    h.pending_eq, h.batch_eq, h.called_eq, rfl, h.idle, fun _ => rfl⟩
  simp [system, EventLoop.step, loopStep, h.pc_eq]

/-- `loop()` returns, when another thread has asked it to. -/
lemma leave (h : e.Shows pending batch called .testing) :
    e.Leads pending batch called .outside := by
  refine ⟨[.other 0 .quit, .other 0 (.wakeup true), .loop .test],
    { e with quit := true, quitDone := true, wakeupFd := e.wakeupFd + 1, looping := false,
             pc := .outside }, ?_, h.pending_eq, h.batch_eq, h.called_eq, rfl, h.idle, by simp⟩
  have hother : Function.update (Function.update e.other 0 .quitting) 0 .idle = e.other := by
    rw [Function.update_idem, ← h.idle 0, Function.update_eq_self]
  simp [system, EventLoop.step, otherStep, loopStep, EventLoop.wakeup, setOther, h.idle, h.pc_eq,
    hother]

/-- `loop()` tests the flag and polls. -/
lemma poll (h : e.Shows pending batch called .testing) (ready : List Ready) :
    e.Leads pending batch called (.dispatching ready) := by
  have hquit : e.quit = false := h.quit_eq (by decide)
  refine ⟨[.loop .test, .loop (.poll ready)], { e with pc := .dispatching ready }, ?_,
    h.pending_eq, h.batch_eq, h.called_eq, rfl, h.idle, fun _ => hquit⟩
  simp [system, EventLoop.step, loopStep, h.pc_eq, hquit]

/-- A handler is called. -/
lemma dispatch {active : List Ready}
    (h : e.Shows pending batch called (.dispatching (.io :: active))) :
    e.Leads pending batch called (.user (.handler active) .free) := by
  have hquit : e.quit = false := h.quit_eq (by simp)
  refine ⟨[.loop .dispatch], { e with pc := .user (.handler active) .free }, ?_,
    h.pending_eq, h.batch_eq, h.called_eq, rfl, h.idle, fun _ => hquit⟩
  simp [system, EventLoop.step, loopStep, h.pc_eq]

/-- A handler or a functor returns. -/
lemma ret {ctx : Context} (h : e.Shows pending batch called (.user ctx .free)) :
    e.Leads pending batch called
      (match ctx with
      | .handler active => .dispatching active
      | .functor => .running) := by
  have hquit : e.quit = false := h.quit_eq (by simp)
  cases ctx with
  | handler active =>
    refine ⟨[.loop .ret], { e with pc := .dispatching active }, ?_,
      h.pending_eq, h.batch_eq, h.called_eq, rfl, h.idle, fun _ => hquit⟩
    simp [system, EventLoop.step, loopStep, h.pc_eq]
  | functor =>
    refine ⟨[.loop .ret], { e with pc := .running }, ?_,
      h.pending_eq, h.batch_eq, h.called_eq, rfl, h.idle, fun _ => hquit⟩
    simp [system, EventLoop.step, loopStep, h.pc_eq]

/-- `doPendingFunctors` begins: what was pending is the batch. -/
lemma swap (h : e.Shows pending batch called (.dispatching [])) :
    e.Leads [] pending called .running := by
  have hquit : e.quit = false := h.quit_eq (by simp)
  refine ⟨[.loop .setFlag, .loop .swap],
    { e with callingPendingFuntors := true, queue := e.queue.swap, pc := .running }, ?_,
    rfl, h.pending_eq, h.called_eq, rfl, h.idle, fun _ => hquit⟩
  simp [system, EventLoop.step, loopStep, h.pc_eq]

/-- `doPendingFunctors` calls the next functor of the batch. -/
lemma call {f : F} (h : e.Shows pending (f :: batch) called .running) :
    e.Leads pending batch (called ++ [f]) (.user .functor .free) := by
  have hquit : e.quit = false := h.quit_eq (by simp)
  obtain ⟨x, xs, hbatch, hf, hxs⟩ := List.map_eq_cons_iff.mp h.batch_eq
  let q := { e.queue with batch := xs, taken := e.queue.taken ++ [(x, e.queue.begun)] }
  have htake : e.queue.take = some (x, q) := BatchQueue.take_eq_some_iff.mpr ⟨xs, hbatch, rfl⟩
  refine ⟨[.loop .call], { e with queue := q, pc := .user .functor .free }, ?_,
    h.pending_eq, hxs, ?_, rfl, h.idle, fun _ => hquit⟩
  · simp [system, EventLoop.step, loopStep, h.pc_eq, htake]
  · have hcalled := h.called_eq
    simp only [executed, List.map_map] at hcalled
    simp [q, executed, hcalled, hf]

/-- `doPendingFunctors` returns. -/
lemma clearFlag (h : e.Shows pending [] called .running) : e.Leads pending [] called .testing := by
  have hquit : e.quit = false := h.quit_eq (by simp)
  have hbatch : e.queue.batch = [] := List.map_eq_nil_iff.mp h.batch_eq
  refine ⟨[.loop .clearFlag], { e with callingPendingFuntors := false, pc := .testing }, ?_,
    h.pending_eq, h.batch_eq, h.called_eq, rfl, h.idle, fun _ => hquit⟩
  simp [system, EventLoop.step, loopStep, h.pc_eq, hbatch]

/-- The queue with one more functor. -/
lemma pending_push (h : e.Shows pending batch called pc) (caller : Option ℕ) (f : F) :
    (e.queue.push ⟨caller, f⟩).pending.map (fun x => x.item.functor) = pending ++ [f] := by
  have hpending : e.queue.pending.map (fun x => x.item.functor) = pending := h.pending_eq
  rw [BatchQueue.push_pending, List.map_append, hpending]
  rfl

/-- Another thread queues a functor and wakes the loop up. -/
lemma push (h : e.Shows pending batch called pc) (u : ℕ) (f : F) :
    e.Leads (pending ++ [f]) batch called pc := by
  refine ⟨[.other u (.queueInLoop f), .other u .push, .other u (.wakeup true)],
    { e with queue := e.queue.push ⟨some u, f⟩, wakeupFd := e.wakeupFd + 1
             calls := Function.update e.calls u (e.calls u ++ [f]) }, ?_,
    h.pending_push (some u) f, h.batch_eq, h.called_eq, h.pc_eq, h.idle, h.quit_eq⟩
  simp [system, EventLoop.step, otherStep, EventLoop.wakeup, beginCall, setOther, h.idle]

/-- A handler or a functor queues a functor, and wakes the loop up in the second case. -/
lemma pushSelf {ctx : Context} (h : e.Shows pending batch called (.user ctx .free)) (f : F) :
    e.Leads (pending ++ [f]) batch called (.user ctx .free) := by
  have hquit : e.quit = false := h.quit_eq (by simp)
  cases hcalling : e.callingPendingFuntors with
  | false =>
    refine ⟨[.loop (.queueInLoop f), .loop (.wakeup true)],
      { e with queue := e.queue.push ⟨none, f⟩ }, ?_,
      h.pending_push none f, h.batch_eq, h.called_eq, h.pc_eq, h.idle, fun _ => hquit⟩
    simp [system, EventLoop.step, loopStep, h.pc_eq, hcalling]
  | true =>
    refine ⟨[.loop (.queueInLoop f), .loop (.wakeup true)],
      { e with queue := e.queue.push ⟨none, f⟩, wakeupFd := e.wakeupFd + 1 }, ?_,
      h.pending_push none f, h.batch_eq, h.called_eq, h.pc_eq, h.idle, fun _ => hquit⟩
    simp [system, EventLoop.step, loopStep, EventLoop.wakeup, h.pc_eq, hcalling]

/-- Several functors are queued in the same way. -/
lemma pushAll (hpush : ∀ (e : EventLoop F) (pending : List F) (f : F),
      e.Shows pending batch called pc → e.Leads (pending ++ [f]) batch called pc)
    (h : e.Shows pending batch called pc) (fs : List F) :
    e.Leads (pending ++ fs) batch called pc := by
  induction fs generalizing e pending with
  | nil =>
    rw [List.append_nil]
    exact h.leads
  | cons f fs ih =>
    refine (hpush e pending f h).trans fun e' h' => ?_
    rw [List.append_cons]
    exact ih h'

end Shows

end EventLoop

/-- A thread, as one of the callers of a loop. -/
def Tid.caller : Tid → ℕ
  | .loop l => 2 * l
  | .user u => 2 * u + 1

/-- The channels still to be dispatched, as the event loop has them. -/
def Phase.ready (active : List (ChannelId × EventMask)) : List Ready := active.map fun _ => .io

/-- Where the thread of a loop stands, from its phase and its stack. -/
def Phase.pc : Phase → List Op → LoopPc
  | .outside, _ => .outside
  | .polling, _ => .testing
  | .dispatching active, [] => .dispatching (Phase.ready active)
  | .dispatching active, _ :: _ => .user (.handler (Phase.ready active)) .free
  | .functors _ _, [] => .running
  | .functors _ _, _ :: _ => .user .functor .free

section Threads

variable {e : EventLoop Functor} {pending batch called : List Functor} {p : Phase}

/-- The last operation on the stack of a loop was executed, or another one is next. -/
lemma EventLoop.Shows.onward {op : Op} {ops : List Op}
    (h : e.Shows pending batch called (p.pc (op :: ops))) (ops' : List Op) :
    e.Leads pending batch called (p.pc ops') := by
  cases ops' with
  | cons op' ops' => cases p <;> exact h.leads
  | nil =>
    cases p with
    | outside | polling => exact h.leads
    | dispatching active =>
      have hhandler : e.Shows pending batch called
          (.user (.handler (Phase.ready active)) .free) := h
      exact hhandler.ret
    | functors ran rest =>
      have hfunctor : e.Shows pending batch called (.user .functor .free) := h
      exact hfunctor.ret

/-- A thread queues functors in the loop. -/
lemma EventLoop.Shows.pushFrom {ops : List Op} (h : e.Shows pending batch called (p.pc ops))
    (l : LoopId) (t : Tid) (fs : List Functor) :
    e.Leads (pending ++ fs) batch called (p.pc ops) := by
  by_cases hself : t = .loop l ∧ ∃ ctx, p.pc ops = .user ctx .free
  · obtain ⟨-, ctx, hctx⟩ := hself
    rw [hctx] at h ⊢
    exact EventLoop.Shows.pushAll (fun e pending f h => h.pushSelf f) h fs
  · -- so is what the thread of the loop queues outside `loop()`, in the destructor of the server
    exact EventLoop.Shows.pushAll (fun e pending f h => h.push t.caller f) h fs

end Threads

/-- An operation appends to the queues of the loops. -/
lemma Op.Effect.exists_pending_append {cfg : Config} {o o' : Objects} {t : Tid} {i : Input} {op : Op}
    (h : Op.Effect cfg o t i op o') (l : LoopId) :
    ∃ fs, o'.pendingFunctors l = o.pendingFunctors l ++ fs := by
  have hupdate : ∀ (l' : LoopId) (fs : List Functor), ∃ gs,
      Function.update o.pendingFunctors l' (o.pendingFunctors l' ++ fs) l =
        o.pendingFunctors l ++ gs := by
    intro l' fs
    by_cases hl : l = l'
    · subst hl
      exact ⟨fs, Function.update_self ..⟩
    · exact ⟨[], by rw [Function.update_of_ne hl, List.append_nil]⟩
  have hsame : ∃ gs, o.pendingFunctors l = o.pendingFunctors l ++ gs :=
    ⟨[], (List.append_nil _).symm⟩
  cases h with
  | none | forget | removeAcceptor => exact hsame
  | act | queue | erase | forgetThere => exact hupdate _ _
  | @accept fd hop hi hid =>
    obtain ⟨o₁, rfl, ⟨-, heq⟩ | ⟨-, heq⟩⟩ := o.newConnection_cases cfg t fd
    · rw [heq]
      exact hsame
    · rw [heq]
      exact hupdate _ _

namespace Server

variable {cfg : Config} {s s' : Server} {a : Act} {l : LoopId} {called : List Functor}

/-- The functor that a step calls in loop `l`. -/
def calls (l : LoopId) (s : Server) : Act → List Functor
  | .next l' =>
    if l' = l then
      match s.phase l with
      | .functors _ (f :: _) => [f]
      | _ => []
    else []
  | _ => []

/-- The event loop `e` shows what loop `l` is at, when it has called these functors. -/
def ShownBy (s : Server) (l : LoopId) (called : List Functor) (e : EventLoop Functor) : Prop :=
  e.Shows (s.objects.pendingFunctors l) (s.phase l).rest called ((s.phase l).pc (s.stack (.loop l)))

/-- Some run of the event loop `e` leads to where loop `l` is. -/
def LedTo (s : Server) (l : LoopId) (called : List Functor) (e : EventLoop Functor) : Prop :=
  e.Leads (s.objects.pendingFunctors l) (s.phase l).rest called ((s.phase l).pc (s.stack (.loop l)))

/-- A step that is none of loop `l`. -/
lemma ShownBy.same {e : EventLoop Functor} (h : s.ShownBy l called e)
    (hpending : s'.objects.pendingFunctors l = s.objects.pendingFunctors l)
    (hphase : s'.phase l = s.phase l) (hstack : s'.stack (.loop l) = s.stack (.loop l)) :
    s'.LedTo l called e := by
  rw [LedTo, hpending, hphase, hstack]
  exact EventLoop.Shows.leads h

/-- The code of the application runs on the thread of a loop in a call of that loop. -/
lemma exists_stack_of_frame {x : List ConnId × Option ConnId} (h : s.frame (.loop l) = some x) :
    ∃ op ops, s.stack (.loop l) = op :: ops := by
  refine List.exists_cons_of_ne_nil fun hnil => ?_
  simp [frame, hnil] at h

/-- The stack of a thread that is in a call is replaced. -/
lemma ShownBy.setStack {e : EventLoop Functor} (h : s.ShownBy l called e) {t : Tid} {ops : List Op}
    (hbusy : t = .loop l → ∃ op ops, s.stack (.loop l) = op :: ops) :
    (s.setStack t ops).LedTo l called e := by
  by_cases ht : t = .loop l
  · obtain ⟨op, ops', hstack⟩ := hbusy ht
    subst ht
    rw [ShownBy, hstack] at h
    simpa only [LedTo, Server.setStack, Function.update_self] using h.onward ops
  · exact h.same rfl rfl (Function.update_of_ne (Ne.symm ht) _ _)

/-- A loop between two operations. -/
lemma ShownBy.at_phase {e : EventLoop Functor} {p : Phase} (h : s.ShownBy l called e)
    (hat : s.AtPhase l p) :
    e.Shows (s.objects.pendingFunctors l) p.rest called (p.pc []) := by
  rwa [ShownBy, hat.1, hat.2] at h

lemma ledTo_of_leads {e : EventLoop Functor} {pending : List Functor} {p : Phase} {ops : List Op}
    (hpending : s.objects.pendingFunctors l = pending) (hphase : s.phase l = p)
    (hstack : s.stack (.loop l) = ops) (h : e.Leads pending p.rest called (p.pc ops)) :
    s.LedTo l called e := by
  rwa [LedTo, hpending, hphase, hstack]

/-- Every step of the server is, for each loop, a run of the event loop. -/
lemma ShownBy.step {e : EventLoop Functor} (h : s.ShownBy l called e) (hstep : Step cfg s a s') :
    s'.LedTo l (called ++ s.calls l a) e := by
  have hnone : ∀ {s' : Server}, s'.LedTo l called e → s'.LedTo l (called ++ []) e := by
    intro s' hled
    rwa [List.append_nil]
  have hother : ∀ {l' : LoopId} {p : Phase}, l ≠ l' → (s.setPhase l' p).phase l = s.phase l :=
    fun hl => Function.update_of_ne hl _ _
  cases hstep with
  | @enter l' hl hat =>
    refine hnone ?_
    by_cases hll : l = l'
    · subst hll
      exact ledTo_of_leads rfl (Function.update_self ..) hat.2 (h.at_phase hat).enter
    · exact h.same rfl (hother hll) rfl
  | @leave l' hat =>
    refine hnone ?_
    by_cases hll : l = l'
    · subst hll
      exact ledTo_of_leads rfl (Function.update_self ..) hat.2 (h.at_phase hat).leave
    · exact h.same rfl (hother hll) rfl
  | @poll l' ready active hat hnodup hactive =>
    refine hnone ?_
    by_cases hll : l = l'
    · subst hll
      have hpoll := (h.at_phase hat).poll (Phase.ready active)
      exact ledTo_of_leads rfl (Function.update_self ..) hat.2 hpoll
    · exact h.same rfl (hother hll) rfl
  | @dispatch l' x active hat halive =>
    refine hnone ?_
    by_cases hll : l = l'
    · subst hll
      refine ledTo_of_leads rfl (Function.update_self ..) (Function.update_self ..) ?_
      refine (h.at_phase hat).dispatch.trans fun e' h' => ?_
      have hbusy : e'.Shows (s.objects.pendingFunctors l) [] called
          ((Phase.dispatching active).pc [.accept]) := h'
      exact hbusy.onward (handleEvent x)
    · refine h.same rfl (hother hll) (Function.update_of_ne ?_ _ _)
      simpa using hll
  | @swap l' hat =>
    refine hnone ?_
    by_cases hll : l = l'
    · subst hll
      exact ledTo_of_leads (Function.update_self ..) (Function.update_self ..) hat.2
        (h.at_phase hat).swap
    · exact h.same (Function.update_of_ne hll _ _) (hother hll) rfl
  | @next l' ran f rest hat =>
    by_cases hll : l = l'
    · subst hll
      have hcalls : s.calls l (.next l) = [f] := by
        rw [calls, if_pos rfl, hat.1]
      rw [hcalls]
      exact ledTo_of_leads rfl (Function.update_self ..) (Function.update_self ..)
        (h.at_phase hat).call
    · have hcalls : s.calls l (.next l') = [] := if_neg (Ne.symm hll)
      rw [hcalls]
      refine hnone (h.same rfl (hother hll) (Function.update_of_ne ?_ _ _))
      simpa using hll
  | @release l' ran hat =>
    refine hnone ?_
    by_cases hll : l = l'
    · subst hll
      exact ledTo_of_leads rfl (Function.update_self ..) hat.2 (h.at_phase hat).clearFlag
    · exact h.same rfl (hother hll) rfl
  | @exec t i op rest o ops hstack hready hrun =>
    refine hnone ?_
    obtain ⟨fs, hfs⟩ := hrun.effect.exists_pending_append l
    have hpushed : LedTo { s with objects := o } l called e := by
      refine ledTo_of_leads hfs rfl rfl ?_
      exact EventLoop.Shows.pushFrom h l t fs
    refine hpushed.trans fun e' h' => ?_
    have hshown : ShownBy { s with objects := o } l called e' := h'
    have hbusy : t = .loop l → ∃ op ops, s.stack (.loop l) = op :: ops := by
      rintro rfl
      exact ⟨op, rest, hstack⟩
    have hled : LedTo (Server.setStack { s with objects := o } t (ops ++ rest)) l called e' :=
      hshown.setStack hbusy
    exact hled
  | send hframe hsees | shutdown hframe hsees =>
    refine hnone (h.setStack ?_)
    rintro rfl
    exact exists_stack_of_frame hframe
  | @ret t cs buffer rest hstack =>
    refine hnone (h.setStack ?_)
    rintro rfl
    exact ⟨_, rest, hstack⟩
  | @queueInLoop t l' cs' cs buffer hframe hl hsees =>
    refine hnone ?_
    by_cases hll : l = l'
    · subst hll
      have hpushed := EventLoop.Shows.pushFrom h l t [.user cs']
      exact ledTo_of_leads (Function.update_self ..) rfl rfl hpushed
    · exact h.same (Function.update_of_ne hll _ _) rfl rfl
  | copy hframe hsees halive | drop hframe hheld | setHighWaterMark hframe hsees halive
  | retrieve hframe halive => exact hnone (h.same rfl rfl rfl)
  | @destroyServer order halive hat horder =>
    refine hnone ?_
    by_cases hll : l = 0
    · subst hll
      -- the base loop is outside `loop()`, whatever its thread does
      have hshows : e.Leads (s.objects.pendingFunctors 0) Phase.outside.rest called .outside :=
        (h.at_phase hat).leads
      exact ledTo_of_leads rfl hat.1 rfl hshows
    · refine h.same rfl rfl (Function.update_of_ne ?_ _ _)
      simpa using hll

/-- Each loop of the server, with a log of the functors it has called, refines an event loop. -/
theorem server_refines_eventLoop (cfg : Config) (l : LoopId) :
    Refinement ((system cfg).logged fun s a => s.calls l a) (EventLoop.system Functor)
      fun x e => x.1.ShownBy l x.2 e where
  init := by
    rintro ⟨s, called⟩ ⟨rfl, rfl⟩
    exact ⟨.new Functor 0, ⟨0, rfl⟩, rfl, rfl, rfl, rfl, fun _ => rfl, fun _ => rfl⟩
  step := by
    rintro ⟨s, called⟩ a x e h hs
    obtain ⟨s', hs', rfl⟩ := Option.map_eq_some_iff.mp hs
    exact h.step (step_cases hs')

/-- The functors that a loop of the server has called and those that wait there are what a first in,
first out queue has delivered and holds. -/
theorem exists_fifo_of_run {as : List Act} (hrun : (system cfg).run (new cfg) as = some s) :
    ∃ q, (BatchQueue.fifoSystem (Call Functor)).Reach q ∧
      q.taken.map Call.functor = (system cfg).collect (fun s a => s.calls l a) (new cfg) as ∧
      q.waiting.map Call.functor = (s.phase l).rest ++ s.objects.pendingFunctors l := by
  have hinit : ((system cfg).logged fun s a => s.calls l a).Reach (new cfg, []) :=
    .init ⟨rfl, rfl⟩
  have hreach := hinit.run (logged_run [] hrun)
  obtain ⟨e, he, hshows⟩ := (server_refines_eventLoop cfg l).exists_reach hreach
  refine ⟨_, EventLoop.reach_toFifo he, ?_, ?_⟩
  · have hcalled := hshows.called_eq
    simpa [BatchQueue.toFifo, EventLoop.executed, Function.comp_def] using hcalled
  · have hpending := hshows.pending_eq
    have hbatch := hshows.batch_eq
    rw [← hpending, ← hbatch]
    simp [BatchQueue.toFifo, BatchQueue.content, EventLoop.functors, EventLoop.pendingFunctors,
      Function.comp_def]

end Server

end HzhMuduo
