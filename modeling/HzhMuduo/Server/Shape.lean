import HzhMuduo.Server.Ownership

/-!
# Which operation is where

The threads of the application are only ever inside `send` and `shutdown`, the sub-loops also
inside `connectEstablished`; everything else happens in the base loop, the handlers while it
dispatches events and the destruction while it does not.  A cut operation continues on top of
its stack, so the operations below the top are few (`Op.waits`).
-/

namespace HzhMuduo

open MachineWord TcpConnection

namespace Op

/-- The parts of `send` and `shutdown` that run on the thread of the caller. -/
def remote : Op → Bool
  | .send _ _ | .sendRun _ _ | .shutdown _ | .setDisconnecting _ | .shutdownRun _ => true
  | _ => false

/-- What a sub-loop does. -/
def onSubLoop : Op → Bool
  | .connectEstablished _ | .enableReading _ | .connectionCallback _ | .user _ _ | .release _ =>
    true
  | op => op.remote

/-- What happens while events are dispatched. -/
def handling : Op → Bool
  | .accept | .handleClose _ | .handleError _ | .handleRead _ | .handleWrite _ | .afterDrain _
  | .messageCallback _ | .closeCallback _ | .removeConnectionInLoop _ => true
  | _ => false

/-- What happens in functors and in the destructor of the server. -/
def destroying : Op → Bool
  | .connectDestroyed _ | .destroyConnected _ | .channelRemove _ | .destroyItem _
  | .removeAcceptor => true
  | _ => false

/-- The destructor of the server. -/
def destructor : Op → Bool
  | .destroyItem _ | .removeAcceptor => true
  | _ => false

/-- What can be below the top of a stack. -/
def waits : Op → Bool
  | .channelRemove _ | .release _ | .closeCallback _ | .user _ _ | .handleError _ | .handleRead _
  | .handleWrite _ | .destroyItem _ | .removeAcceptor => true
  | _ => false

end Op

/-- The loop calls the handlers of events. -/
def Phase.isDispatching : Phase → Bool
  | .dispatching _ => true
  | _ => false

section Classes

variable {cfg : Config} {o o' : Objects} {t : Tid} {i : Input} {op op' : Op} {ops : List Op}

lemma Op.Follows.handling (h : Op.Follows o o' op op') (hh : op'.handling = true) :
    op.handling = true := by
  cases h <;> first | rfl | cases hh

lemma Op.Follows.destroying (h : Op.Follows o o' op op') (hd : op'.destroying = true) :
    op.destroying = true := by
  cases h <;> first | rfl | cases hd

lemma Op.Follows.destructor (h : Op.Follows o o' op op') : op'.destructor = false := by
  cases h <;> rfl

/-- Away from the base loop a call of `send` or `shutdown` never turns into one of the parts
that run in the loop. -/
lemma Op.Runs.remote (h : Op.Runs cfg o t i op o' ops) (ht : t ≠ .loop 0)
    (hloop : ∀ c, (o.conn c).loop = 0) (hop : op' ∈ ops) (hr : op.remote = true) :
    op'.remote = true := by
  cases h <;> simp only [List.mem_cons, List.not_mem_nil, or_false] at hop <;>
    grind [Op.remote]

lemma Op.Runs.onSubLoop (h : Op.Runs cfg o t i op o' ops) (ht : t ≠ .loop 0)
    (hloop : ∀ c, (o.conn c).loop = 0) (hop : op' ∈ ops) (hr : op.onSubLoop = true) :
    op'.onSubLoop = true := by
  cases h <;> simp only [List.mem_cons, List.not_mem_nil, or_false] at hop <;>
    grind [Op.remote, Op.onSubLoop]

/-- What follows the next part of an operation can wait. -/
lemma Op.Runs.waits (h : Op.Runs cfg o t i op o' ops) {first : Op} {more : List Op}
    (hops : ops = first :: more) (hop : op' ∈ more) : op'.waits = true := by
  cases h <;> grind [Op.waits]

end Classes

namespace Server

variable {cfg : Config} {s s' : Server} {a : Act} {t : Tid} {op : Op} {l : LoopId}

/-- The functors of a loop that have not been called yet. -/
def waiting (s : Server) (l : LoopId) : List Functor :=
  s.objects.pendingFunctors l ++ (s.phase l).rest

/-- The operation may be on this stack. -/
def Fits (s : Server) : Tid → Op → Prop
  | .user _, op => op.remote = true
  | .loop 0, op => (op.handling = true → (s.phase 0).isDispatching = true) ∧
      (op.destroying = true → (s.phase 0).isDispatching = false) ∧
      (op.destructor = true → s.objects.serverAlive = false)
  | .loop (_ + 1), op => op.onSubLoop = true

/-- The functors of the batch that have not been called wait. -/
lemma waiting_of_rest {p : Phase} (h : s.phase l = p) {f : Functor} (hf : f ∈ p.rest) :
    f ∈ s.waiting l := by
  rw [waiting, h]
  exact List.mem_append_right _ hf

/-- What waits after the phase of one loop was replaced. -/
lemma waiting_setPhase {l' : LoopId} {p : Phase} {f : Functor}
    (hf : f ∈ (s.setPhase l p).waiting l') : f ∈ s.waiting l' ∨ l' = l ∧ f ∈ p.rest := by
  rcases List.mem_append.mp hf with hf | hf
  · exact .inl (List.mem_append_left _ hf)
  · by_cases hl : l' = l
    · subst hl
      simp only [setPhase, Function.update_self] at hf
      exact .inr ⟨rfl, hf⟩
    · simp only [setPhase, Function.update_of_ne hl] at hf
      exact .inl (List.mem_append_right _ hf)

/-- What waits when the pending functors have become the batch waited before. -/
lemma waiting_swap {l' : LoopId} {f : Functor} (hf : f ∈
    Server.waiting { s.setPhase l (.functors [] (s.objects.pendingFunctors l)) with
      objects := s.objects.clearPending l } l') : f ∈ s.waiting l' := by
  rcases List.mem_append.mp hf with hf | hf
  · exact List.mem_append_left _ (Objects.mem_clearPending hf).1
  · by_cases hl : l' = l
    · subst hl
      simp only [setPhase, Function.update_self] at hf
      exact List.mem_append_left _ hf
    · simp only [setPhase, Function.update_of_ne hl] at hf
      exact List.mem_append_right _ hf

/-- What waits after `queueInLoop`. -/
lemma waiting_queueInLoop {l' : LoopId} {f g : Functor}
    (hf : f ∈ Server.waiting { s with objects := s.objects.queueInLoop l g } l') :
    f ∈ s.waiting l' ∨ f = g ∧ l' = l := by
  rcases List.mem_append.mp hf with hf | hf
  · exact (Objects.mem_queueInLoop hf).imp_left fun hf => List.mem_append_left _ hf
  · exact .inl (List.mem_append_right _ hf)

/-- The functor may be in this queue. -/
def QueueFits : LoopId → Functor → Prop
  | 0, f => f.op.handling = false
  | _ + 1, f => f.op.onSubLoop = true

/-- The shape of the stacks and the queues. -/
structure Shape (cfg : Config) (s : Server) : Prop where
  fits : ∀ t, ∀ op ∈ s.stack t, s.Fits t op
  queued : ∀ l, ∀ f ∈ s.waiting l, QueueFits l f
  top : ∀ t op rest, s.stack t = op :: rest → ∀ op' ∈ rest, op'.waits = true
  polling : ∀ l, s.phase l = .polling → s.stack (.loop l) = []
  idle : ∀ l, cfg.numThreads < l → s.phase l = .outside ∧ s.stack (.loop l) = []
  active : ∀ l ≠ 0, (s.phase l).active = []

/-- A part of `send` or `shutdown` fits everywhere. -/
lemma fits_of_remote (h : op.remote = true) : s.Fits t op := by
  have hsub : op.onSubLoop = true ∧ op.handling = false ∧ op.destroying = false ∧
      op.destructor = false := by
    cases op <;> simp_all [Op.remote, Op.onSubLoop, Op.handling, Op.destroying, Op.destructor]
  obtain ⟨hsub, hh, hd, hx⟩ := hsub
  rcases t with (_ | l) | u
  · exact ⟨by simp [hh], by simp [hd], by simp [hx]⟩
  · exact hsub
  · exact h

/-- A functor never starts one of the parts of the destructor. -/
lemma destructor_op (f : Functor) : f.op.destructor = false := by
  cases f <;> rfl

namespace Shape

/-- A thread whose code is running is not at `poll`, and its loop is not idle. -/
lemma frame_ne (h : Shape cfg s) {x : List ConnId × Option ConnId} (hframe : s.frame t = some x)
    (ht : t = .loop l) : s.phase l ≠ .polling ∧ l ≤ cfg.numThreads := by
  subst ht
  have hne : s.stack (.loop l) ≠ [] := by
    intro hnil
    simp [frame, hnil] at hframe
  refine ⟨fun hp => hne (h.polling l hp), ?_⟩
  by_contra hlt
  exact hne (h.idle l (Nat.lt_of_not_le hlt)).2

/-- The loop of a step is not idle. -/
lemma le_of_phase (h : Shape cfg s) (hphase : s.phase l ≠ .outside) : l ≤ cfg.numThreads := by
  by_contra hlt
  exact hphase (h.idle l (Nat.lt_of_not_le hlt)).1

/-- Steps of control and of the objects that leave all stacks alone. -/
lemma of_stack_eq (h : Shape cfg s) (hstack : s'.stack = s.stack)
    (halive : s'.objects.serverAlive = s.objects.serverAlive)
    (hphase : ∀ l, s'.phase l = s.phase l ∨ s.stack (.loop l) = [] ∧ l ≤ cfg.numThreads)
    (hqueued : ∀ l, ∀ f ∈ s'.waiting l, f ∈ s.waiting l ∨ QueueFits l f)
    (hactive : ∀ l ≠ 0, (s'.phase l).active = []) : Shape cfg s' := by
  refine ⟨fun t op hop => ?_, fun l f hf => (hqueued l f hf).elim (h.queued l f) id, ?_,
    fun l hl => ?_, fun l hl => ?_, hactive⟩
  · rw [hstack] at hop
    have hfits := h.fits t op hop
    rcases t with (_ | l) | u
    · rcases hphase 0 with heq | ⟨hnil, -⟩
      · simp only [Fits] at hfits ⊢
        rwa [heq, halive]
      · rw [hnil] at hop
        cases hop
    · exact hfits
    · exact hfits
  · rw [hstack]
    exact h.top
  · rw [hstack]
    rcases hphase l with heq | ⟨hnil, -⟩
    · exact h.polling l (heq ▸ hl)
    · exact hnil
  · rw [hstack]
    rcases hphase l with heq | ⟨-, hle⟩
    · rw [heq]
      exact h.idle l hl
    · exact absurd hl (Nat.not_lt_of_le hle)

/-- A stack is replaced by one whose operations fit. -/
lemma setStack (h : Shape cfg s) {ops : List Op} (hfits : ∀ op ∈ ops, s.Fits t op)
    (htop : ∀ op rest, ops = op :: rest → ∀ op' ∈ rest, op'.waits = true)
    (hrun : ∀ l, t = .loop l → s.phase l ≠ .polling ∧ l ≤ cfg.numThreads) :
    Shape cfg (s.setStack t ops) := by
  refine ⟨fun t' op hop => ?_, h.queued, fun t' op rest hstack => ?_, fun l hl => ?_,
    fun l hl => ?_, h.active⟩
  · rcases mem_setStack hop with ⟨rfl, hnew⟩ | hold
    · exact hfits op hnew
    · exact h.fits t' op hold
  · by_cases ht : t' = t
    · subst ht
      simp only [Server.setStack, Function.update_self] at hstack
      exact htop op rest hstack
    · simp only [Server.setStack, Function.update_of_ne ht] at hstack
      exact h.top t' op rest hstack
  · by_cases ht : Tid.loop l = t
    · exact absurd hl (hrun l ht.symm).1
    · simp only [Server.setStack, Function.update_of_ne ht]
      exact h.polling l hl
  · by_cases ht : Tid.loop l = t
    · exact absurd hl (Nat.not_lt_of_le (hrun l ht.symm).2)
    · simp only [Server.setStack, Function.update_of_ne ht]
      exact h.idle l hl

/-- A loop with an empty stack goes on to another phase. -/
lemma setPhase (h : Shape cfg s) {p : Phase} (hstack : s.stack (.loop l) = [])
    (hl : l ≤ cfg.numThreads) (hrest : ∀ f ∈ p.rest, f ∈ s.waiting l)
    (hactive : l ≠ 0 → p.active = []) : Shape cfg (s.setPhase l p) := by
  refine h.of_stack_eq rfl rfl (fun l' => ?_) (fun l' f hf => ?_) fun l' hne => ?_
  · by_cases hl' : l' = l
    · subst hl'
      exact .inr ⟨hstack, hl⟩
    · exact .inl (Function.update_of_ne hl' _ _)
  · rcases waiting_setPhase hf with hold | ⟨rfl, hnew⟩
    · exact .inl hold
    · exact .inl (hrest f hnew)
  · by_cases hl' : l' = l
    · subst hl'
      simpa [Server.setPhase] using hactive hne
    · simpa [Server.setPhase, Function.update_of_ne hl'] using h.active l' hne

/-- Only the handlers behind the first one wait. -/
lemma handleEvent_waits {x : ChannelId × EventMask} {rest : List Op} {op' : Op}
    (h : handleEvent x = op :: rest) (hop : op' ∈ rest) : op'.waits = true := by
  obtain ⟨k, revents⟩ := x
  cases k with
  | acceptor =>
    simp only [handleEvent] at h
    split at h
    · obtain ⟨-, rfl⟩ := List.cons.inj h
      cases hop
    · cases h
  | conn c =>
    simp only [handleEvent, handlers] at h
    split at h <;> split at h <;> split at h <;> split at h <;>
      simp only [List.nil_append, List.cons_append, List.cons.injEq] at h <;>
      grind [Op.waits]

/-- The handlers of an event fit on the stack of a loop that dispatches. -/
lemma handleEvent_fits {x : ChannelId × EventMask} (h : op ∈ handleEvent x)
    (hphase : (s.phase 0).isDispatching = true) : s.Fits (.loop 0) op := by
  rcases mem_handleEvent h with ⟨-, rfl⟩ | ⟨c, -, (rfl | rfl | rfl | rfl) | rfl⟩ <;>
    exact ⟨fun _ => hphase, nofun, nofun⟩

/-- A functor queued by an operation starts none of the handlers, but for `removeConnection`
called away from the base loop. -/
lemma handling_of_queues {created : ℕ} {f : Functor} (h : op.Queues created f)
    (hclose : ∀ c, op ≠ .closeCallback c) : f.op.handling = false := by
  cases op with
  | closeCallback c => exact absurd rfl (hclose c)
  | sendBody c len | handleWrite c => rcases h with rfl | ⟨n, rfl⟩ <;> rfl
  | _ => simp_all [Op.Queues, Functor.op, Op.handling]

/-- Executing the operation on top of a stack. -/
lemma executed (h : Shape cfg s) (hR : Registered cfg s) {i : Input} {rest ops : List Op}
    {o : Objects} (hstack : s.stack t = op :: rest)
    (hrun : Op.Runs cfg s.objects t i op o ops) :
    Shape cfg (s.executed t op o (ops ++ rest)) := by
  have heffect := hrun.effect
  have hmem : op ∈ s.stack t := hstack ▸ List.mem_cons_self
  have hop := h.fits t op hmem
  have hloop := hR.objects.loop
  have hclose : ∀ c, op = .closeCallback c → o = s.objects := by
    rintro c rfl
    cases hrun with
    | closeHere => rfl
    | closeThere hserver ht =>
      rcases t with (_ | l) | u
      · exact absurd rfl ht
      · cases hop
      · cases hop
  have hobjects : Shape cfg { s with objects := o } := by
    refine h.of_stack_eq rfl heffect.serverAlive_eq (fun l => .inl rfl) (fun l f hf => ?_) h.active
    rcases List.mem_append.mp hf with hf | hf
    · rcases heffect.mem_pending hloop hf with hold | ⟨hqueues, ⟨rfl, hne⟩ | ⟨hnew, -, -⟩⟩
      · exact .inl (List.mem_append_left _ hold)
      · by_cases hc : ∃ c, op = .closeCallback c
        · obtain ⟨c, hc⟩ := hc
          rw [hclose c hc] at hf
          exact .inl (List.mem_append_left _ hf)
        · exact .inr (handling_of_queues hqueues fun c hcc => hc ⟨c, hcc⟩)
      · rw [hnew.op] at hqueues
        obtain rfl := hqueues
        cases l <;> exact .inr rfl
    · exact .inl (List.mem_append_right _ hf)
  have hexecuted : Shape cfg (Server.setStack { s with objects := o } t (ops ++ rest)) := by
    refine hobjects.setStack (fun op' hop' => ?_) (fun first more hops op' hop' => ?_) ?_
    · rcases List.mem_append.mp hop' with hop' | hop'
      · rcases t with (_ | l) | u
        · have hfollows := hrun.follows hop'
          refine ⟨fun hh => hop.1 (hfollows.handling hh),
            fun hd => hop.2.1 (hfollows.destroying hd), fun hx => ?_⟩
          rw [hfollows.destructor] at hx
          cases hx
        · exact hrun.onSubLoop (by simp) hloop hop' hop
        · exact hrun.remote (by simp) hloop hop' hop
      · exact hobjects.fits t op' (hstack ▸ List.mem_cons_of_mem _ hop')
    · cases ops with
      | nil =>
        have hrest : op' ∈ rest := by
          rw [show rest = first :: more from hops]
          exact List.mem_cons_of_mem _ hop'
        exact h.top t op rest hstack op' hrest
      | cons op₁ ops =>
        obtain ⟨rfl, rfl⟩ := List.cons.inj hops
        rcases List.mem_append.mp hop' with hop' | hop'
        · exact hrun.waits rfl hop'
        · exact h.top t op rest hstack op' hop'
    · rintro l rfl
      refine ⟨fun hp => ?_, ?_⟩
      · rw [h.polling l hp] at hstack
        cases hstack
      · by_contra hlt
        rw [(h.idle l (Nat.lt_of_not_le hlt)).2] at hstack
        cases hstack
  exact ⟨hexecuted.fits, hexecuted.queued, hexecuted.top, hexecuted.polling, hexecuted.idle,
    hexecuted.active⟩

/-- A new part of `send` or `shutdown` on the stack of a thread whose code is running. -/
lemma push (h : Shape cfg s) {x : List ConnId × Option ConnId} (hframe : s.frame t = some x)
    (hop : op.remote = true) : Shape cfg (s.setStack t (op :: s.stack t)) := by
  refine h.setStack (fun op' hop' => ?_) (fun first more hops op' hop' => ?_) fun l ht => ?_
  · rcases List.mem_cons.mp hop' with rfl | hop'
    · exact fits_of_remote hop
    · exact h.fits t op' hop'
  · obtain ⟨-, rfl⟩ := List.cons.inj hops
    cases hstack : s.stack t with
    | nil =>
      rw [hstack] at hop'
      cases hop'
    | cons op₁ rest =>
      rw [hstack] at hop'
      rcases List.mem_cons.mp hop' with rfl | hop'
      · cases op' <;> simp_all [frame, Op.waits]
      · exact h.top t op₁ rest hstack op' hop'
  · exact h.frame_ne hframe ht

/-- A sub-loop has no channels. -/
lemma fillActiveChannels_new {ready : List (Fd × EventMask)} {active : List (ChannelId × EventMask)}
    (h : (EPOLLPoller.new : EPOLLPoller ChannelId).fillActiveChannels ready = some active) :
    active = [] := by
  cases ready with
  | nil => exact (Option.some.inj h).symm
  | cons x ready => simp [EPOLLPoller.fillActiveChannels, EPOLLPoller.new] at h

/-- Events are only dispatched in the base loop. -/
lemma eq_zero_of_dispatching (h : Shape cfg s) {x : ChannelId × EventMask}
    {active : List (ChannelId × EventMask)} (hphase : s.phase l = .dispatching (x :: active)) :
    l = 0 := by
  by_contra hl
  have hnil := h.active l hl
  rw [hphase] at hnil
  cases hnil

/-- The handlers of an event start. -/
lemma dispatch (h : Shape cfg s) {x : ChannelId × EventMask}
    {active : List (ChannelId × EventMask)} (hphase : s.AtPhase l (.dispatching (x :: active))) :
    Shape cfg ((s.setPhase l (.dispatching active)).setStack (.loop l) (handleEvent x)) := by
  have hle := h.le_of_phase (l := l) (by simp [hphase.1])
  obtain rfl := h.eq_zero_of_dispatching hphase.1
  have hdispatching : Shape cfg (s.setPhase 0 (.dispatching active)) :=
    h.setPhase hphase.2 hle (by simp [Phase.rest]) fun hne => absurd rfl hne
  refine hdispatching.setStack (fun op hop => ?_)
    (fun op rest hops op' hop' => handleEvent_waits hops hop') fun l' hl' => ?_
  · exact handleEvent_fits hop (by simp [Server.setPhase, Phase.isDispatching])
  · obtain rfl := Tid.loop.inj hl'
    exact ⟨by simp [Server.setPhase], hle⟩

/-- The pending functors become the batch. -/
lemma swap (h : Shape cfg s) (hphase : s.AtPhase l (.dispatching [])) :
    Shape cfg { s.setPhase l (.functors [] (s.objects.pendingFunctors l)) with
      objects := s.objects.clearPending l } := by
  have hle := h.le_of_phase (l := l) (by simp [hphase.1])
  have hswapped : Shape cfg (s.setPhase l (.functors [] (s.objects.pendingFunctors l))) :=
    h.setPhase hphase.2 hle (fun f hf => List.mem_append_left _ hf) fun _ => rfl
  exact ⟨hswapped.fits, fun l' f hf => h.queued l' f (waiting_swap hf), hswapped.top,
    hswapped.polling, hswapped.idle, hswapped.active⟩

/-- A functor is called. -/
lemma next (h : Shape cfg s) {ran rest : List Functor} {f : Functor}
    (hphase : s.AtPhase l (.functors ran (f :: rest))) :
    Shape cfg ((s.setPhase l (.functors (ran ++ [f]) rest)).setStack (.loop l) [f.op]) := by
  have hle := h.le_of_phase (l := l) (by simp [hphase.1])
  have hwaiting : ∀ g ∈ f :: rest, g ∈ s.waiting l := fun g hg => waiting_of_rest hphase.1 hg
  have hnext : Shape cfg (s.setPhase l (.functors (ran ++ [f]) rest)) :=
    h.setPhase hphase.2 hle (fun g hg => hwaiting g (List.mem_cons_of_mem _ hg)) fun _ => rfl
  have hqueued := h.queued l f (hwaiting f List.mem_cons_self)
  refine hnext.setStack (fun op hop => ?_) (fun op rest' hops op' hop' => ?_) fun l' hl' => ?_
  · obtain rfl := List.mem_singleton.mp hop
    cases l with
    | zero =>
      refine ⟨fun hh => ?_, fun _ => ?_, fun hx => ?_⟩
      · exact absurd (hh.symm.trans hqueued) (by decide)
      · simp [Server.setPhase, Phase.isDispatching]
      · exact absurd (hx.symm.trans (destructor_op f)) (by decide)
    | succ l => exact hqueued
  · obtain ⟨-, rfl⟩ := List.cons.inj hops
    cases hop'
  · obtain rfl := Tid.loop.inj hl'
    exact ⟨by simp [Server.setPhase], hle⟩

/-- A functor of the application is queued; it starts no handler. -/
lemma queueUser (h : Shape cfg s) (cs : List ConnId) :
    Shape cfg { s with objects := s.objects.queueInLoop l (.user cs) } := by
  refine h.of_stack_eq rfl rfl (fun _ => .inl rfl) (fun l' f hf => ?_) h.active
  rcases waiting_queueInLoop hf with hf | ⟨rfl, -⟩
  · exact .inl hf
  · cases l' <;> exact .inr rfl

/-- The destructor of the server begins. -/
lemma destroyServer (h : Shape cfg s) {order : List ConnId} (hphase : s.AtPhase 0 .outside) :
    Shape cfg { s.setStack (.loop 0) (order.map Op.destroyItem ++ [.removeAcceptor]) with
      objects := { s.objects with serverAlive := false } } := by
  have hdead : Shape cfg { s with objects := { s.objects with serverAlive := false } } := by
    refine ⟨fun t op hop => ?_, h.queued, h.top, h.polling, h.idle, h.active⟩
    have hfits := h.fits t op hop
    rcases t with (_ | l) | u
    · exact ⟨hfits.1, hfits.2.1, fun _ => rfl⟩
    · exact hfits
    · exact hfits
  have hops : ∀ op ∈ order.map Op.destroyItem ++ [.removeAcceptor],
      op.handling = false ∧ op.waits = true := by
    intro op hop
    obtain ⟨c, -, rfl⟩ | rfl := mem_destroyServer hop
    · exact ⟨rfl, rfl⟩
    · exact ⟨rfl, rfl⟩
  refine hdead.setStack (fun op hop => ⟨fun hh => ?_, fun _ => ?_, fun _ => rfl⟩)
    (fun op rest heq op' hop' => (hops op' (heq ▸ List.mem_cons_of_mem _ hop')).2) fun l hl => ?_
  · exact absurd (hh.symm.trans (hops op hop).1) (by decide)
  · show (s.phase 0).isDispatching = false
    rw [hphase.1]
    rfl
  · obtain rfl := Tid.loop.inj hl
    refine ⟨?_, Nat.zero_le _⟩
    show s.phase 0 ≠ .polling
    rw [hphase.1]
    decide

/-- Every step keeps the shape. -/
lemma step (h : Shape cfg s) (hR : Registered cfg s) (hstep : Step cfg s a s') : Shape cfg s' := by
  cases hstep with
  | enter hl hphase => exact h.setPhase hphase.2 hl (by simp [Phase.rest]) fun _ => rfl
  | leave hphase =>
    exact h.setPhase hphase.2 (h.le_of_phase (by simp [hphase.1])) (by simp [Phase.rest])
      fun _ => rfl
  | @poll l ready active hphase hnodup hactive =>
    refine h.setPhase hphase.2 (h.le_of_phase (by simp [hphase.1])) (by simp [Phase.rest])
      fun hl => ?_
    rw [hR.objects.subPoller l hl] at hactive
    exact fillActiveChannels_new hactive
  | release hphase =>
    exact h.setPhase hphase.2 (h.le_of_phase (by simp [hphase.1])) (by simp [Phase.rest])
      fun _ => rfl
  | dispatch hphase halive => exact h.dispatch hphase
  | swap hphase => exact h.swap hphase
  | next hphase => exact h.next hphase
  | exec hstack hready hrun => exact h.executed hR hstack hrun
  | send hframe hsees => exact h.push hframe rfl
  | shutdown hframe hsees => exact h.push hframe rfl
  | copy hframe hsees halive =>
    exact h.of_stack_eq rfl rfl (fun _ => .inl rfl) (fun _ _ hf => .inl hf) h.active
  | drop hframe hheld =>
    exact h.of_stack_eq rfl rfl (fun _ => .inl rfl) (fun _ _ hf => .inl hf) h.active
  | @queueInLoop t l cs' cs buffer hframe hl hsees => exact h.queueUser cs'
  | setHighWaterMark hframe hsees halive =>
    exact h.of_stack_eq rfl rfl (fun _ => .inl rfl) (fun _ _ hf => .inl hf) h.active
  | retrieve hframe halive =>
    exact h.of_stack_eq rfl rfl (fun _ => .inl rfl) (fun _ _ hf => .inl hf) h.active
  | @ret t cs buffer rest hstack =>
    have hframe : s.frame t = some (cs, buffer) := by simp [frame, hstack]
    refine h.setStack (fun op hop => h.fits t op (hstack ▸ List.mem_cons_of_mem _ hop))
      (fun op rest' hops op' hop' => ?_) fun l ht => h.frame_ne hframe ht
    exact h.top t _ rest hstack op' (hops ▸ List.mem_cons_of_mem _ hop')
  | destroyServer halive hphase horder => exact h.destroyServer hphase

/-- During the destruction of a connection no handler is on the stack. -/
lemma not_handling (h : Shape cfg s) {op op' : Op} (hop : op ∈ s.stack (.loop 0))
    (hd : op.destroying = true) (hop' : op' ∈ s.stack (.loop 0)) : ¬ op'.handling = true := by
  intro hh
  obtain ⟨-, hnot, -⟩ := h.fits (.loop 0) op hop
  obtain ⟨hdispatching, -⟩ := h.fits (.loop 0) op' hop'
  have hfalse := hnot hd
  rw [hdispatching hh] at hfalse
  cases hfalse

/-- During the destruction of a connection no event waits. -/
lemma not_active (h : Shape cfg s) {op : Op} (hop : op ∈ s.stack (.loop 0))
    (hd : op.destroying = true) {x : ChannelId × EventMask} : x ∉ (s.phase 0).active := by
  intro hx
  obtain ⟨-, hnot, -⟩ := h.fits (.loop 0) op hop
  have hfalse := hnot hd
  cases hphase : s.phase 0 with
  | dispatching active =>
    rw [hphase] at hfalse
    cases hfalse
  | _ =>
    rw [hphase] at hx
    cases hx

/-- The event that is dispatched next is active. -/
lemma mem_active (h : Shape cfg s) {x : ChannelId × EventMask}
    {active : List (ChannelId × EventMask)} (hphase : s.phase l = .dispatching (x :: active)) :
    x ∈ (s.phase 0).active := by
  obtain rfl := h.eq_zero_of_dispatching hphase
  rw [hphase]
  exact List.mem_cons_self

end Shape

/-- The shape in every run. -/
theorem shape_of_reach (h : (system cfg).Reach s) : Shape cfg s := by
  refine h.invariant_of (J := Registered cfg) (fun s hs => registered_of_reach hs) ?_
    fun s a s' hR _ hI _ hs => hI.step hR (step_cases hs)
  rintro s rfl
  refine ⟨fun _ _ hop => absurd hop List.not_mem_nil, fun _ _ hf => absurd hf List.not_mem_nil,
    ?_, fun _ _ => rfl, fun _ _ => ⟨rfl, rfl⟩, fun _ _ => rfl⟩
  intro t op rest hstack
  cases hstack

end Server

end HzhMuduo
