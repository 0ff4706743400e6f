import HzhMuduo.Server.Stages
import HzhMuduo.Server.UpDown

/-!
# The order of the states

`StateE` lists the states of a connection in the order in which it goes through them.  The
stores that move it on are `connectEstablished`, which is run once and before anything else can
store (`Arrival`), `shutdown`, and the end in `handleClose` or `connectDestroyed`.  Only
`shutdown` can move it back: it tests and stores in two steps, and its store of `kDisconnecting`
may come after the end (`InTime`).  A run in which this does not happen, and only such a run,
has the states in order (`neverBack_iff`).
-/

namespace HzhMuduo

open MachineWord TcpConnection TransitionSystem

/-- The value of an enumerator. -/
def StateE.toNat : StateE → ℕ
  | .kConnecting => 0
  | .kConnected => 1
  | .kDisconnecting => 2
  | .kDisconnected => 3

/-- `kDisconnected` is the last state. -/
lemma StateE.toNat_le (state : StateE) : state.toNat ≤ StateE.kDisconnected.toNat := by
  cases state <;> decide

/-! ### What is outstanding of `connectEstablished` -/

section Queues

variable {cfg : Config} {o o' : Objects} {t : Tid} {i : Input} {op : Op} {ops : List Op} {c : ConnId}

/-- A functor that is not put into a queue is there as often as before. -/
lemma count_update_append {queues : LoopId → List Functor} {l l' : LoopId} {fs : List Functor}
    {f : Functor} (hf : f ∉ fs) :
    (Function.update queues l (queues l ++ fs) l').count f = (queues l').count f := by
  by_cases hl : l' = l
  · subst hl
    rw [Function.update_self, List.count_append, List.count_eq_zero_of_not_mem hf, Nat.add_zero]
  · rw [Function.update_of_ne hl]

/-- A functor that an operation does not queue is in the queues as often as before. -/
lemma Op.Effect.count_pending (h : Op.Effect cfg o t i op o') {f : Functor}
    (hf : ¬ op.Queues o.created f) (l : LoopId) :
    (o'.pendingFunctors l).count f = (o.pendingFunctors l).count f := by
  have hsingle : ∀ {g : Functor}, op.Queues o.created g → f ∉ [g] := by
    intro g hg hmem
    obtain rfl := List.mem_singleton.mp hmem
    exact hf hg
  cases h with
  | none => rfl
  | act hc hacts hqueued => exact count_update_append fun hmem => hf (hqueued f hmem)
  | queue hc hl hfunctor => exact count_update_append (hsingle hfunctor)
  | erase hop =>
    subst hop
    exact count_update_append (hsingle rfl)
  | forget hop => rfl
  | forgetThere hop =>
    subst hop
    exact count_update_append (hsingle rfl)
  | @accept fd hop hi hid =>
    subst hop
    obtain ⟨o₁, rfl, ⟨-, heq⟩ | ⟨-, heq⟩⟩ := o.newConnection_cases cfg t fd
    · rw [heq]
      rfl
    · rw [heq]
      exact count_update_append (hsingle rfl)
  | removeAcceptor hop h h' => rfl

/-- A connection that stays in the loop that accepts it is not queued. -/
lemma Objects.newConnection_pending_here (o : Objects) (fd : Fd) {t : Tid}
    (ht : t = .loop (o.getNextLoop cfg).1) :
    (o.newConnection cfg t fd).1.pendingFunctors = o.pendingFunctors := by
  obtain ⟨o₁, rfl, ⟨-, heq⟩ | ⟨ht', -⟩⟩ := o.newConnection_cases cfg t fd
  · rw [heq]
    rfl
  · exact absurd ht ht'

/-- Any other is queued in its loop. -/
lemma Objects.newConnection_pending_there (o : Objects) (fd : Fd) {t : Tid}
    (ht : t ≠ .loop (o.getNextLoop cfg).1) :
    (o.newConnection cfg t fd).1.pendingFunctors =
      Function.update o.pendingFunctors (o.getNextLoop cfg).1
        (o.pendingFunctors (o.getNextLoop cfg).1 ++ [.connectEstablished o.created]) := by
  obtain ⟨o₁, rfl, ⟨ht', -⟩ | ⟨-, heq⟩⟩ := o.newConnection_cases cfg t fd
  · exact absurd ht' ht
  · rw [heq]
    rfl

/-- `connectEstablished` is queued by `accept` only. -/
lemma Op.Queues.connectEstablished {created : ℕ}
    (h : op.Queues created (.connectEstablished c)) : op = .accept ∧ c = created := by
  cases op with
  | accept => exact ⟨rfl, Functor.connectEstablished.inj h⟩
  | sendBody | handleWrite => rcases h with heq | ⟨n, heq⟩ <;> cases heq
  | _ => cases h

/-- `connectEstablished` is called by `accept` only. -/
lemma Op.Follows.connectEstablished (h : Op.Follows o o' op (.connectEstablished c)) :
    op.Creates o o' c := by
  cases h with
  | establish hcreated => exact ⟨rfl, rfl, hcreated⟩

/-- What there can be of a connection that is not established. -/
def Op.premature : Op → Bool
  | .connectEstablished _ | .destroyItem _ | .connectDestroyed _ | .channelRemove _ => true
  | _ => false

lemma Op.Follows.premature {op' : Op} (h : Op.Follows o o' op op') (hop : op.premature = true)
    (hopc : op.conn? = some c) (hnot : op ≠ .connectEstablished c)
    (hstate : (o.conn c).state = .kConnecting) (hc : op'.conn? = some c) :
    op'.premature = true := by
  cases h with
  | enableReading =>
    obtain rfl := Option.some.inj hopc
    exact absurd rfl hnot
  | destroyConnected hconnected =>
    obtain rfl := Option.some.inj hopc
    exact absurd (hstate.symm.trans hconnected) (by decide)
  | _ => first | rfl | (cases hop; done) | cases hc

end Queues

namespace Server

variable {cfg : Config} {s s' : Server} {a : Act} {c : ConnId} {t : Tid} {l : LoopId}

/-- How often `connectEstablished` of the connection is still to be executed in a loop. -/
def arrivals (s : Server) (c : ConnId) (l : LoopId) : ℕ :=
  (s.waiting l).count (.connectEstablished c) + (s.stack (.loop l)).count (.connectEstablished c)

lemma arrivals_eq_zero_iff : s.arrivals c l = 0 ↔
    .connectEstablished c ∉ s.waiting l ∧ .connectEstablished c ∉ s.stack (.loop l) := by
  rw [arrivals, Nat.add_eq_zero_iff, List.count_eq_zero, List.count_eq_zero]

/-- The same functors wait. -/
lemma arrivals_setPhase {p : Phase}
    (hrest : p.rest.count (.connectEstablished c) = (s.phase l).rest.count (.connectEstablished c))
    (l' : LoopId) : (s.setPhase l p).arrivals c l' = s.arrivals c l' := by
  by_cases hl : l' = l
  · subst hl
    simp [arrivals, waiting, setPhase, hrest]
  · simp [arrivals, waiting, setPhase, Function.update_of_ne hl]

/-- The same operations are on the stack. -/
lemma arrivals_setStack {ops : List Op}
    (hops : ops.count (.connectEstablished c) = (s.stack t).count (.connectEstablished c))
    (l : LoopId) : (s.setStack t ops).arrivals c l = s.arrivals c l := by
  by_cases ht : .loop l = t
  · subst ht
    simp [arrivals, waiting, setStack, hops]
  · simp [arrivals, waiting, setStack, Function.update_of_ne ht]

/-- Steps that execute no operation leave `connectEstablished` to be executed as often. -/
theorem Step.arrivals_eq (hstep : Step cfg s a s') (hexec : ∀ t i, a ≠ .exec t i) (l' : LoopId) :
    s'.arrivals c l' = s.arrivals c l' := by
  cases hstep with
  | enter hl h | leave h | poll h hnodup hactive | release h =>
    exact arrivals_setPhase (by rw [h.1]; rfl) l'
  | @dispatch l x active h halive =>
    refine (arrivals_setStack ?_ l').trans (arrivals_setPhase (by rw [h.1]; rfl) l')
    rw [List.count_eq_zero_of_not_mem (not_mem_handleEvent rfl)]
    show 0 = (s.stack (.loop l)).count _
    rw [h.2]
    rfl
  | @swap l h =>
    by_cases hl : l' = l
    · subst hl
      simp [arrivals, waiting, setPhase, Objects.clearPending, h.1, Phase.rest]
    · simp [arrivals, waiting, setPhase, Objects.clearPending, Function.update_of_ne hl]
  | @next l ran f rest h =>
    by_cases hl : l' = l
    · subst hl
      -- what is called no longer waits
      have hcalled : (f :: rest).count (.connectEstablished c) =
          rest.count (.connectEstablished c) + [f.op].count (.connectEstablished c) := by
        cases f <;> simp [Functor.op, List.count_cons]
      simp only [arrivals, waiting, h.1, h.2, setStack, setPhase, Function.update_self, Phase.rest,
        List.count_append, hcalled, List.count_nil]
      omega
    · have ht : Tid.loop l' ≠ .loop l := fun heq => hl (Tid.loop.inj heq)
      simp [arrivals, waiting, setStack, setPhase, Function.update_of_ne hl, Function.update_of_ne ht]
  | exec hstack hready hrun => exact absurd rfl (hexec _ _)
  | send hframe hsees => exact arrivals_setStack (List.count_cons_of_ne (by simp)) l'
  | shutdown hframe hsees => exact arrivals_setStack (List.count_cons_of_ne (by simp)) l'
  | @queueInLoop t l cs' cs buffer hframe hl hsees =>
    have hpending : (Function.update s.objects.pendingFunctors l
        (s.objects.pendingFunctors l ++ [.user cs']) l').count (.connectEstablished c) =
          (s.objects.pendingFunctors l').count (.connectEstablished c) :=
      count_update_append (by simp)
    simp only [arrivals, waiting, List.count_append, Objects.queueInLoop, hpending]
  | ret hstack =>
    refine arrivals_setStack ?_ l'
    rw [hstack, List.count_cons_of_ne (by simp)]
  | destroyServer halive h horder =>
    refine arrivals_setStack ?_ l'
    rw [h.2, List.count_eq_zero_of_not_mem (by simp)]
    rfl
  | _ => rfl

section Exec

variable {i : Input} {op : Op} {rest ops : List Op} {o : Objects}

lemma arrivals_executed : (s.executed t op o ops).arrivals c l =
    (o.pendingFunctors l).count (.connectEstablished c) +
      (s.phase l).rest.count (.connectEstablished c) +
        (Function.update s.stack t ops (.loop l)).count (.connectEstablished c) := by
  rw [arrivals, waiting, List.count_append]
  rfl

/-- The other operations leave `connectEstablished` to be executed as often, unless they create
the connection. -/
lemma arrivals_executed_of_ne (hstack : s.stack t = op :: rest)
    (hrun : Op.Runs cfg s.objects t i op o ops) (hnot : op ≠ .connectEstablished c)
    (hnew : ¬ op.Creates s.objects o c) (l : LoopId) :
    (s.executed t op o (ops ++ rest)).arrivals c l = s.arrivals c l := by
  have hpending : (o.pendingFunctors l).count (.connectEstablished c) =
      (s.objects.pendingFunctors l).count (.connectEstablished c) := by
    by_cases hqueues : op.Queues s.objects.created (.connectEstablished c)
    · obtain ⟨rfl, rfl⟩ := hqueues.connectEstablished
      cases hrun with
      | acceptFailed => rfl
      | acceptedHere hid ht => exact absurd ⟨rfl, rfl, Objects.newConnection_created ..⟩ hnew
      | acceptedThere hid ht => exact absurd ⟨rfl, rfl, Objects.newConnection_created ..⟩ hnew
    · exact hrun.effect.count_pending hqueues l
  have hops : (ops ++ rest).count (.connectEstablished c) =
      (s.stack t).count (.connectEstablished c) := by
    have hnone : .connectEstablished c ∉ ops := fun hmem =>
      hnew (hrun.follows hmem).connectEstablished
    rw [hstack, List.count_append, List.count_eq_zero_of_not_mem hnone, Nat.zero_add,
      List.count_cons_of_ne hnot]
  have hstacked := arrivals_setStack hops l
  rw [arrivals, waiting, List.count_append] at hstacked
  rw [arrivals_executed, hpending]
  exact hstacked

/-- `connectEstablished` is executed once less afterwards. -/
lemma arrivals_executed_self (hstack : s.stack (.loop l) = .connectEstablished c :: rest)
    (hrun : Op.Runs cfg s.objects (.loop l) i (.connectEstablished c) o ops) :
    (s.executed (.loop l) (.connectEstablished c) o (ops ++ rest)).arrivals c l + 1 =
        s.arrivals c l ∧
      ∀ l' ≠ l, (s.executed (.loop l) (.connectEstablished c) o (ops ++ rest)).arrivals c l' =
        s.arrivals c l' := by
  have hpending := hrun.effect.count_pending (f := .connectEstablished c) id
  have hnone : .connectEstablished c ∉ ops := fun hmem => by
    cases (hrun.follows hmem).connectEstablished.op
  refine ⟨?_, fun l' hl => ?_⟩
  · rw [arrivals_executed, hpending, Function.update_self, List.count_append,
      List.count_eq_zero_of_not_mem hnone, arrivals, waiting, List.count_append, hstack,
      List.count_cons_self]
    omega
  · have ht : Tid.loop l' ≠ .loop l := fun heq => hl (Tid.loop.inj heq)
    rw [arrivals_executed, hpending, Function.update_of_ne ht, arrivals, waiting, List.count_append]

/-- What is to be executed of a connection that does not exist. -/
lemma Unborn.arrivals_eq_zero (hU : Unborn s c) (l : LoopId) : s.arrivals c l = 0 := by
  refine arrivals_eq_zero_iff.mpr ⟨fun hf => ?_, fun hop => ?_⟩
  · exact hU.waiting l _ hf rfl
  · exact hU.stack _ _ hop rfl

/-- `accept` leaves `connectEstablished` to be executed once, in the loop that was chosen. -/
lemma arrivals_executed_of_creates (hU : Unborn s c) (hstack : s.stack t = op :: rest)
    (hrun : Op.Runs cfg s.objects t i op o ops) (hnew : op.Creates s.objects o c) :
    ∃ l, (s.executed t op o (ops ++ rest)).arrivals c l = 1 ∧
      ∀ l' ≠ l, (s.executed t op o (ops ++ rest)).arrivals c l' = 0 := by
  obtain ⟨rfl, rfl, hcreated⟩ := hnew
  have hzero := hU.arrivals_eq_zero
  have hrest : rest.count (.connectEstablished s.objects.created) = 0 := by
    refine List.count_eq_zero_of_not_mem fun hop => ?_
    exact hU.stack t _ (hstack ▸ List.mem_cons_of_mem _ hop) rfl
  simp only [arrivals, waiting, List.count_append] at hzero
  refine ⟨(s.objects.getNextLoop cfg).1, ?_⟩
  cases hrun with
  | acceptFailed => exact absurd hcreated (Nat.succ_ne_self _).symm
  | @acceptedHere fd hid ht =>
    have hpending := s.objects.newConnection_pending_here fd ht
    subst ht
    refine ⟨?_, fun l' hl => ?_⟩
    · have hl := hzero (s.objects.getNextLoop cfg).1
      have hone : [Op.connectEstablished s.objects.created, .release s.objects.created].count
          (.connectEstablished s.objects.created) = 1 := by simp
      rw [arrivals_executed, hpending, Function.update_self, List.count_append, hrest, hone]
      omega
    · have ht : Tid.loop l' ≠ .loop (s.objects.getNextLoop cfg).1 := fun heq =>
        hl (Tid.loop.inj heq)
      rw [arrivals_executed, hpending, Function.update_of_ne ht]
      exact hzero l'
  | @acceptedThere fd hid ht =>
    have hpending := s.objects.newConnection_pending_there fd ht
    have hops : ∀ l, (Function.update s.stack t ([] ++ rest) (.loop l)).count
        (.connectEstablished s.objects.created) = 0 := by
      intro l
      by_cases hl : .loop l = t
      · subst hl
        rw [Function.update_self]
        exact hrest
      · rw [Function.update_of_ne hl]
        have hl := hzero l
        omega
    refine ⟨?_, fun l' hl => ?_⟩
    · have hl := hzero (s.objects.getNextLoop cfg).1
      rw [arrivals_executed, hpending, Function.update_self, hops, List.count_append,
        List.count_singleton_self]
      omega
    · have hl' := hzero l'
      rw [arrivals_executed, hpending, Function.update_of_ne hl, hops]
      omega

end Exec

/-- Steps that neither execute `connectEstablished` of a connection nor create it. -/
theorem Step.arrivals_kept (hstep : Step cfg s a s') (hc : c < s.objects.created)
    (hnot : ∀ t i rest, a = .exec t i → s.stack t ≠ .connectEstablished c :: rest) (l : LoopId) :
    s'.arrivals c l = s.arrivals c l := by
  by_cases hexec : ∃ t i, a = .exec t i
  · obtain ⟨t, i, rfl⟩ := hexec
    cases hstep with
    | @exec t i op rest o ops hstack hready hrun =>
      refine arrivals_executed_of_ne hstack hrun ?_ (fun hnew => hc.ne hnew.conn) l
      rintro rfl
      exact hnot t i rest rfl hstack
  · exact hstep.arrivals_eq (fun t i heq => hexec ⟨t, i, heq⟩) l

/-! ### Before a connection is established -/

/-- A connection that was accepted and is not established.  The destructor of the server may have
come to it already. -/
structure Fledgling (s : Server) (c : ConnId) : Prop where
  created : c < s.objects.created
  state : (s.objects.conn c).state = .kConnecting
  index : (s.objects.conn c).channel.index = kNew
  unseen : s.Unseen c
  stack : ∀ t, ∀ op ∈ s.stack t, op.conn? = some c → op.premature = true
  waiting : ∀ l, ∀ f ∈ s.waiting l, f.conn? = some c → f = .connectEstablished c
  inactive : ∀ m, (.conn c, m) ∉ (s.phase 0).active
  arrival : ∃ l, s.arrivals c l = 1 ∧ ∀ l' ≠ l, s.arrivals c l' = 0

namespace Fledgling

/-- As far as the number of its arrivals goes, nothing changes. -/
lemma arrival_of_eq (hF : Fledgling s c) (h : ∀ l, s'.arrivals c l = s.arrivals c l) :
    ∃ l, s'.arrivals c l = 1 ∧ ∀ l' ≠ l, s'.arrivals c l' = 0 := by
  obtain ⟨l, hone, hzero⟩ := hF.arrival
  exact ⟨l, (h l).trans hone, fun l' hl => (h l').trans (hzero l' hl)⟩

/-- A new connection. -/
lemma of_creates {i : Input} {op : Op} {rest ops : List Op} {o : Objects} (hU : Unborn s c)
    (hR : Registered cfg s) (hstack : s.stack t = op :: rest)
    (hrun : Op.Runs cfg s.objects t i op o ops) (hnew : op.Creates s.objects o c)
    (hunseen : (s.executed t op o (ops ++ rest)).Unseen c) :
    Fledgling (s.executed t op o (ops ++ rest)) c := by
  have harrival := arrivals_executed_of_creates hU hstack hrun hnew
  obtain ⟨fd, hconn⟩ := hnew.conn_eq hrun
  have hconn : (s.executed t op o (ops ++ rest)).objects.conn c = _ := hconn
  obtain ⟨rfl, hc, hcreated⟩ := hnew
  refine ⟨?_, ?_, ?_, hunseen, fun t' op' hop' hc' => ?_, fun l f hf hc' => ?_, hU.inactive,
    harrival⟩
  · exact (hc.trans_lt (Nat.lt_succ_self _)).trans_eq hcreated.symm
  · rw [hconn]
    rfl
  · rw [hconn]
    rfl
  · rcases mem_executed hstack hop' with ⟨-, hnew⟩ | ⟨hold, -⟩
    · cases hrun.follows hnew with
      | establish => rfl
      | establishRelease => cases hc'
    · exact absurd hc' (hU.stack t' op' hold)
  · rcases waiting_executed hR hrun hf with hold | hqueues
    · exact absurd hc' (hU.waiting l f hold)
    · rw [hc]
      exact hqueues

/-- Steps that leave it alone. -/
lemma untouched (hF : Fledgling s c) (h : Untouched c s s') (hunseen : s'.Unseen c)
    (harrivals : ∀ l, s'.arrivals c l = s.arrivals c l) : Fledgling s' c := by
  refine ⟨h.created.mpr hF.created, h.state.trans hF.state, ?_, hunseen, fun t op hop hc => ?_,
    fun l f hf hc => ?_, fun m hm => ?_, hF.arrival_of_eq harrivals⟩
  · rw [h.channel]
    exact hF.index
  · exact hF.stack t op ((h.stack t op hc).mp hop) hc
  · exact hF.waiting l f ((h.waiting l f hc).mp hf) hc
  · exact hF.inactive m ((h.active m).mp hm)

/-- Its events are not reported. -/
lemma poll (hF : Fledgling s c) (hR : Registered cfg s) {ready : List (Fd × EventMask)}
    {active : List (ChannelId × EventMask)} (h : s.AtPhase 0 .polling)
    (hactive : (s.objects.poller 0).fillActiveChannels ready = some active)
    (hunseen : (s.setPhase 0 (.dispatching active)).Unseen c)
    (harrivals : ∀ l, (s.setPhase 0 (.dispatching active)).arrivals c l = s.arrivals c l) :
    Fledgling (s.setPhase 0 (.dispatching active)) c := by
  refine ⟨hF.created, hF.state, hF.index, hunseen, hF.stack, fun l f hf hc => ?_,
    hR.not_mem_active hF.index hactive, hF.arrival_of_eq harrivals⟩
  exact hF.waiting l f (((kept_poll h).waiting l f hc).mp hf) hc

/-- The call of `connectEstablished`. -/
lemma next (hF : Fledgling s c) {ran rest : List Functor} {f : Functor}
    (h : s.AtPhase l (.functors ran (f :: rest))) (hf : f.conn? = some c)
    (hunseen : ((s.setPhase l (.functors (ran ++ [f]) rest)).setStack (.loop l) [f.op]).Unseen c)
    (harrivals : ∀ l', ((s.setPhase l (.functors (ran ++ [f]) rest)).setStack (.loop l)
      [f.op]).arrivals c l' = s.arrivals c l') :
    Fledgling ((s.setPhase l (.functors (ran ++ [f]) rest)).setStack (.loop l) [f.op]) c := by
  refine ⟨hF.created, hF.state, hF.index, hunseen, fun t op hop hc => ?_, fun l' g hg hc => ?_,
    fun m => ?_, hF.arrival_of_eq harrivals⟩
  · rcases mem_next hop with ⟨-, rfl⟩ | hold
    · rw [hF.waiting l f (waiting_of_next h.1) hf]
      rfl
    · exact hF.stack t op hold hc
  · exact hF.waiting l' g (waiting_next h.1 hg) hc
  · by_cases hl : 0 = l
    · subst hl
      simp [setStack, setPhase, Phase.active]
    · simpa [setStack, setPhase, Function.update_of_ne hl] using hF.inactive m

/-- The destructor of the server begins. -/
lemma destroyServer (hF : Fledgling s c) {order : List ConnId}
    (hunseen : Server.Unseen { s.setStack (.loop 0)
      (order.map Op.destroyItem ++ [.removeAcceptor]) with
        objects := { s.objects with serverAlive := false } } c)
    (harrivals : ∀ l, Server.arrivals { s.setStack (.loop 0)
      (order.map Op.destroyItem ++ [.removeAcceptor]) with
        objects := { s.objects with serverAlive := false } } c l = s.arrivals c l) :
    Fledgling { s.setStack (.loop 0) (order.map Op.destroyItem ++ [.removeAcceptor]) with
      objects := { s.objects with serverAlive := false } } c := by
  refine ⟨hF.created, hF.state, hF.index, hunseen, fun t op hop hc => ?_, hF.waiting, hF.inactive,
    hF.arrival_of_eq harrivals⟩
  rcases mem_setStack hop with ⟨-, hnew⟩ | hold
  · obtain ⟨c', -, rfl⟩ | rfl := mem_destroyServer hnew
    · rfl
    · cases hc
  · exact hF.stack t op hold hc

/-- What the destructor of the server does to it before it is established. -/
lemma exec {i : Input} {op : Op} {rest ops : List Op} {o : Objects} (hF : Fledgling s c)
    (hR : Registered cfg s) (hS : Shape cfg s) (hstack : s.stack t = op :: rest)
    (hrun : Op.Runs cfg s.objects t i op o ops) (hop : op.conn? = some c)
    (hnot : op ≠ .connectEstablished c)
    (hunseen : (s.executed t op o (ops ++ rest)).Unseen c)
    (harrivals : ∀ l, (s.executed t op o (ops ++ rest)).arrivals c l = s.arrivals c l) :
    Fledgling (s.executed t op o (ops ++ rest)) c := by
  have hmem : op ∈ s.stack t := hstack ▸ List.mem_cons_self
  have hpremature := hF.stack t op hmem hop
  have hstate := hrun.stateChange hF.created
  have hchannel := hrun.channelChange hR.objects hF.created
  refine ⟨Nat.lt_of_lt_of_le hF.created hrun.effect.created_le, ?_, ?_, hunseen,
    fun t' op' hop' hc => ?_, fun l f hf hc => ?_, hF.inactive, hF.arrival_of_eq harrivals⟩
  · show (o.conn c).state = .kConnecting
    generalize (o.conn c).state = state at hstate
    cases hstate with
    | same h => exact hF.state
    | connectEstablished => exact absurd rfl hnot
    | _ => cases hpremature
  · show (o.conn c).channel.index = kNew
    generalize (o.conn c).channel = ch at hchannel
    cases hchannel with
    | same h => exact hF.index
    | channelRemove => rfl
    | _ => cases hpremature
  · rcases mem_executed hstack hop' with ⟨-, hnew⟩ | ⟨hold, -⟩
    · exact (hrun.follows hnew).premature hpremature hop hnot hF.state hc
    · exact hF.stack t' op' hold hc
  · rcases waiting_executed hR hrun hf with hold | hqueues
    · exact hF.waiting l f hold hc
    · cases op with
      | destroyItem c' =>
        -- the destructor runs in the base loop and calls `connectDestroyed` there
        obtain rfl : t = .loop 0 := hS.eq_base hmem rfl
        cases hrun with
        | destroyHere ht => exact hF.waiting l f hf hc
        | destroyThere ht => exact absurd (congrArg Tid.loop (hR.objects.loop _).symm) ht
      | connectEstablished | connectDestroyed | channelRemove => cases hqueues
      | _ => cases hpremature

end Fledgling

/-- How far a connection is from `connectEstablished`. -/
inductive Arrival (s : Server) (c : ConnId) : Prop
  | unborn (h : Unborn s c)
  | fledgling (h : Fledgling s c)
  | established (hc : c < s.objects.created) (h : ∀ l, s.arrivals c l = 0)

namespace Arrival

/-- `connectEstablished` is executed by a loop, once, and finds `kConnecting`. -/
lemma of_connectEstablished (hA : Arrival s c) (hS : Shape cfg s) {rest : List Op}
    (hstack : s.stack t = .connectEstablished c :: rest) :
    Fledgling s c ∧ ∃ l, t = .loop l ∧ s.arrivals c l = 1 ∧ ∀ l' ≠ l, s.arrivals c l' = 0 := by
  have hmem : .connectEstablished c ∈ s.stack t := hstack ▸ List.mem_cons_self
  cases t with
  | user u => cases hS.fits (.user u) _ hmem
  | loop l =>
    have hne : s.arrivals c l ≠ 0 := fun hzero => (arrivals_eq_zero_iff.mp hzero).2 hmem
    cases hA with
    | unborn hU => exact absurd rfl (hU.stack _ _ hmem)
    | established hc hzero => exact absurd (hzero l) hne
    | fledgling hF =>
      obtain ⟨l₀, hone, hzero⟩ := hF.arrival
      obtain rfl : l = l₀ := by
        by_contra hl
        exact hne (hzero l hl)
      exact ⟨hF, l, rfl, hone, hzero⟩

/-- A connection that is not established stays so until `connectEstablished` is executed. -/
lemma of_fledgling (hF : Fledgling s c) (hR : Registered cfg s) (hS : Shape cfg s)
    (hstep : Step cfg s a s')
    (hnot : ∀ t i rest, a = .exec t i → s.stack t ≠ .connectEstablished c :: rest) :
    Fledgling s' c := by
  have harrivals := hstep.arrivals_kept hF.created hnot
  have hunseen : s'.Unseen c := by
    refine hF.unseen.step hR hstep fun t i op rest ha hstack hop => ?_
    have hpremature := hF.stack t op (hstack ▸ List.mem_cons_self) hop
    cases op <;> first | rfl | cases hpremature
  cases hstep.concerns hR c with
  | untouched h hother => exact hF.untouched h hunseen harrivals
  | poll h hnodup hactive => exact hF.poll hR h hactive hunseen harrivals
  | dispatch h halive => exact absurd (hS.mem_active h.1) (hF.inactive _)
  | next h hf => exact hF.next h hf hunseen harrivals
  | exec hstack hready hrun hc =>
    have hop := hc.resolve_right fun hnew => hF.created.ne hnew.conn
    refine hF.exec hR hS hstack hrun hop ?_ hunseen harrivals
    rintro rfl
    exact hnot _ _ _ rfl hstack
  | call hframe hsees hop => exact absurd hsees (hF.unseen.not_sees hframe)
  | destroyServer halive h => exact hF.destroyServer hunseen harrivals

/-- A connection is accepted, established, and then never established again. -/
theorem step (hA : Arrival s c) (hR : Registered cfg s) (hS : Shape cfg s)
    (hstep : Step cfg s a s') : Arrival s' c := by
  by_cases hexec : ∃ t i rest, a = .exec t i ∧ s.stack t = .connectEstablished c :: rest
  · obtain ⟨t, i, rest, rfl, hstack⟩ := hexec
    obtain ⟨hF, l, rfl, hone, hzero⟩ := hA.of_connectEstablished hS hstack
    cases hstep with
    | @exec t i op rest' o ops hstack' hready hrun =>
      obtain ⟨rfl, rfl⟩ := List.cons.inj (hstack'.symm.trans hstack)
      obtain ⟨hself, hother⟩ := arrivals_executed_self hstack hrun
      refine .established (Nat.lt_of_lt_of_le hF.created hrun.effect.created_le) fun l' => ?_
      by_cases hl : l' = l
      · subst hl
        omega
      · exact (hother l' hl).trans (hzero l' hl)
  · have hnot : ∀ t i rest, a = .exec t i → s.stack t ≠ .connectEstablished c :: rest :=
      fun t i rest ha hstack => hexec ⟨t, i, rest, ha, hstack⟩
    cases hA with
    | unborn hU =>
      rcases hU.step_or_creates hR hS hstep with hU' | ⟨hunseen, t, i, op, rest, o, ops, hstack,
        hrun, hnew, rfl⟩
      · exact .unborn hU'
      · exact .fledgling (.of_creates hU hR hstack hrun hnew hunseen)
    | fledgling hF => exact .fledgling (of_fledgling hF hR hS hstep hnot)
    | established hc hzero =>
      refine .established (Nat.lt_of_lt_of_le hc ?_) fun l => ?_
      · cases hstep with
        | exec hstack hready hrun => exact hrun.effect.created_le
        | _ => exact Nat.le_refl _
      · exact (hstep.arrivals_kept hc hnot l).trans (hzero l)

end Arrival

/-- In every run, `connectEstablished` is executed at most once for a connection, before anything
else stores its state. -/
theorem arrival_of_reach (h : (system cfg).Reach s) (c : ConnId) : Arrival s c := by
  refine h.invariant_of (I := fun s => Arrival s c) (J := fun s => Registered cfg s ∧ Shape cfg s)
    (fun s hs => ⟨registered_of_reach hs, shape_of_reach hs⟩) ?_
    fun s a s' hJ _ hI _ hs => hI.step hJ.1 hJ.2 (step_cases hs)
  rintro s rfl
  exact .unborn (unborn_new cfg c)

/-! ### Forward and back -/

/-- No connection goes back to an earlier state from `s` to `s'`. -/
def Forward (s s' : Server) : Prop :=
  ∀ c, (s.objects.conn c).state.toNat ≤ (s'.objects.conn c).state.toNat

lemma Forward.refl (s : Server) : Forward s s := fun _ => Nat.le_refl _

lemma Forward.trans {s₁ s₂ s₃ : Server} (h : Forward s₁ s₂) (h' : Forward s₂ s₃) :
    Forward s₁ s₃ :=
  fun c => Nat.le_trans (h c) (h' c)

/-- Behind the last state there is no other. -/
lemma Forward.disconnected (h : Forward s s') (hdown : (s.objects.conn c).state = .kDisconnected) :
    (s'.objects.conn c).state = .kDisconnected := by
  have hle := h c
  rw [hdown] at hle
  cases hstate : (s'.objects.conn c).state with
  | kDisconnected => rfl
  | _ => exact absurd (hstate ▸ hle) (by decide)

/-- In the run through the labels, the connections only go forward. -/
def NeverBack (cfg : Config) (as : List Act) : Prop :=
  (system cfg).Ordered Forward (new cfg) as

/-- `shutdown` does not store `kDisconnecting` when `handleClose` or `connectDestroyed` has already
stored `kDisconnected`. -/
def InTime (s : Server) : Act → Prop
  | .exec t _ => ∀ c rest, s.stack t = .setDisconnecting c :: rest → ¬ s.Ended c
  | _ => True

/-- What has ended is down. -/
def EndedDown (s : Server) : Prop := ∀ c, s.Ended c → (s.objects.conn c).state = .kDisconnected

/-- A connection that is down has ended. -/
lemma ended_of_reach (h : (system cfg).Reach s) (c : ConnId)
    (hdown : (s.objects.conn c).state = .kDisconnected) : s.Ended c := by
  refine h.invariant_of (I := fun s => (s.objects.conn c).state = .kDisconnected → s.Ended c)
    (J := Registered cfg) (fun s hs => registered_of_reach hs) ?_ ?_ hdown
  · rintro s rfl hstate
    cases hstate
  · intro s a s' hR _ hI _ hs hstate
    have hkept : Kept c s s' → s'.Ended c := fun hk =>
      (Ended.of_kept hk).mpr (hI (hk.state ▸ hstate))
    cases (step_cases hs).concerns hR c with
    | untouched h hnot => exact hkept h.kept
    | poll h hnodup hactive => exact hkept (kept_poll h)
    | dispatch h halive => exact hkept (kept_dispatch h)
    | next h hf => exact hI hstate
    | exec hstack hready hrun hc =>
      rcases hc with hop | hnew
      · exact ended_executed_of_state hR hready hrun hop hI hstate
      · obtain ⟨fd, hconn⟩ := hnew.conn_eq hrun
        have hconnecting : StateE.kConnecting = .kDisconnected :=
          (congrArg TcpConnection.state hconn).symm.trans hstate
        cases hconnecting
    | call hframe hsees hop => exact hkept (kept_call hop)
    | destroyServer halive h => exact hkept (kept_destroyServer h)

section Exec

variable {i : Input} {op : Op} {rest ops : List Op} {o : Objects} (hR : Registered cfg s)
  (hS : Shape cfg s) (hA : ∀ c, Arrival s c) (hstack : s.stack t = op :: rest)
  (hrun : Op.Runs cfg s.objects t i op o ops)

include hR hS hA hstack hrun

/-- Every store moves the state on, but for the one of `shutdown`. -/
lemma forward_executed (hnot : ∀ c, op ≠ .setDisconnecting c) :
    Forward s (s.executed t op o (ops ++ rest)) := by
  intro c
  by_cases hc : c < s.objects.created
  · have hchange := hrun.stateChange hc
    show _ ≤ (o.conn c).state.toNat
    generalize (o.conn c).state = state at hchange ⊢
    cases hchange with
    | same h => exact Nat.le_refl _
    | connectEstablished =>
      rw [((hA c).of_connectEstablished hS hstack).1.state]
      decide
    | destroyConnected => exact StateE.toNat_le _
    | handleClose => exact StateE.toNat_le _
    | setDisconnecting => exact absurd rfl (hnot c)
  · rw [hR.objects.fresh c (Nat.le_of_not_lt hc)]
    exact Nat.zero_le _

/-- A step is forward exactly if it is in time. -/
lemma forward_executed_iff (hready : s.Ready cfg op i) (hD : EndedDown s)
    (hE : ∀ c, (s.objects.conn c).state = .kDisconnected → s.Ended c) :
    Forward s (s.executed t op o (ops ++ rest)) ↔ s.InTime (.exec t i) := by
  by_cases hset : ∃ c, op = .setDisconnecting c
  · obtain ⟨c, rfl⟩ := hset
    have hc : c < s.objects.created := hR.lt_of_ready hready c rfl
    cases hrun with
    | setDisconnecting =>
      constructor
      · intro hforward c' rest' hstack' hended
        obtain ⟨heq, -⟩ := List.cons.inj (hstack'.symm.trans hstack)
        obtain rfl := Op.setDisconnecting.inj heq
        -- the store of `kDisconnecting` would follow `kDisconnected`
        have hle := hforward c'
        rw [hD c' hended, executed, Objects.setView_conn_self] at hle
        have hback : StateE.kDisconnected.toNat ≤ StateE.kDisconnecting.toNat := hle
        exact absurd hback (by decide)
      · intro htime c'
        by_cases hcc : c' = c
        · subst hcc
          have hopen : (s.objects.conn c').state ≠ .kDisconnected := fun hdown =>
            htime c' rest hstack (hE c' hdown)
          rw [executed, Objects.setView_conn_self]
          show _ ≤ StateE.kDisconnecting.toNat
          revert hopen
          cases (s.objects.conn c').state <;> decide
        · have hconn : (s.objects.setView c ((s.objects.view c).setState .kDisconnecting)).conn c' =
              s.objects.conn c' := Function.update_of_ne hcc ..
          rw [executed, hconn]
  · have hnot : ∀ c, op ≠ .setDisconnecting c := fun c hop => hset ⟨c, hop⟩
    refine iff_of_true (forward_executed hR hS hA hstack hrun hnot) fun c rest' hstack' => ?_
    obtain ⟨heq, -⟩ := List.cons.inj (hstack'.symm.trans hstack)
    exact absurd heq.symm (hnot c)

end Exec

/-- Steps that execute no operation change no state. -/
lemma Step.state_eq (hstep : Step cfg s a s') (hexec : ∀ t i, a ≠ .exec t i) (c : ConnId) :
    (s'.objects.conn c).state = (s.objects.conn c).state := by
  have hset : ∀ c' x, x.state = (s.objects.conn c').state →
      x.channel = (s.objects.conn c').channel →
      ((s.setConn c' x).objects.conn c).state = (s.objects.conn c).state :=
    fun c' x hstate hchannel => (untouched_setConn hstate hchannel).state
  cases hstep with
  | exec hstack hready hrun => exact absurd rfl (hexec _ _)
  | setHighWaterMark hframe hsees halive => exact hset _ _ rfl rfl
  | retrieve hframe halive => exact hset _ _ rfl rfl
  | _ => rfl

/-- In every run, a step is forward exactly if it is in time, and keeps what has ended down. -/
lemma forward_iff_inTime (h : (system cfg).Reach s) (hD : EndedDown s)
    (hstep : Step cfg s a s') : (Forward s s' ↔ s.InTime a) ∧ (Forward s s' → EndedDown s') := by
  have hR := registered_of_reach h
  have hS := shape_of_reach h
  by_cases hexec : ∃ t i, a = .exec t i
  · obtain ⟨t, i, rfl⟩ := hexec
    cases hstep with
    | @exec t i op rest o ops hstack hready hrun =>
      refine ⟨forward_executed_iff hR hS (arrival_of_reach h) hstack hrun hready hD
        (ended_of_reach h), fun hforward c hended => ?_⟩
      rcases ended_executed.mp hended with hold | hends
      · exact hforward.disconnected (hD c hold)
      · have hop : op.conn? = some c := by
          rcases hends with rfl | rfl
          · rfl
          · rfl
        exact (Farewell.told_of_ends hR hstack hready hrun hop hS hends).1
  · have hnot : ∀ t i, a ≠ .exec t i := fun t i heq => hexec ⟨t, i, heq⟩
    have hsame := hstep.state_eq hnot
    have htime : s.InTime a := by
      cases a with
      | exec t i => exact absurd rfl (hnot t i)
      | _ => trivial
    have htrace : s'.trace = s.trace := by
      cases hstep with
      | exec hstack hready hrun => exact absurd rfl (hnot _ _)
      | _ => rfl
    refine ⟨iff_of_true (fun c => (congrArg StateE.toNat (hsame c)).ge) htime, fun _ c hended => ?_⟩
    rw [hsame]
    refine hD c ?_
    rwa [Ended, htrace] at hended

/-- The state of every connection only moves forward in the runs in which no `shutdown` stores
`kDisconnecting` late, and only in these. -/
theorem neverBack_iff (cfg : Config) (as : List Act) :
    NeverBack cfg as ↔ (system cfg).Along InTime (new cfg) as := by
  refine ordered_iff_along (I := fun s => (system cfg).Reach s ∧ EndedDown s) Forward.refl
    (fun _ _ _ => Forward.trans) ?_ ⟨.init rfl, ?_⟩ as
  · rintro s a s' ⟨hreach, hD⟩ hs
    obtain ⟨hexact, hkeep⟩ := forward_iff_inTime hreach hD (step_cases hs)
    exact ⟨hexact, fun hforward => ⟨hreach.step trivial hs, hkeep hforward⟩⟩
  · rintro c ⟨e, he, -⟩
    cases he

/-- In such a run a connection that is down stays down. -/
theorem NeverBack.disconnected {as bs cs : List Act} {s s' : Server} (h : NeverBack cfg as)
    (has : bs ++ cs <+: as) (hs : (system cfg).run (new cfg) bs = some s)
    (hs' : (system cfg).run s cs = some s') (hdown : (s.objects.conn c).state = .kDisconnected) :
    (s'.objects.conn c).state = .kDisconnected :=
  Forward.disconnected (h bs cs s s' has hs hs') hdown

/-- A connection is accepted, another thread calls `shutdown` and finds it connected; then the
peer closes it. -/
def overtakenRun : List Act :=
  [.enter 0, .poll 0 [(3, EPOLLIN)], .dispatch 0, .exec (.loop 0) (.accept (some 4)),
    .exec (.loop 0) .none, .exec (.loop 0) .none, .exec (.loop 0) .none,
    .user (.loop 0) (.copy 0 (.user 0)), .user (.loop 0) .ret, .exec (.loop 0) .none,
    .exec (.loop 0) .none, .swap 0, .release 0, .user (.user 0) (.shutdown 0),
    .exec (.user 0) .none, .poll 0 [(4, EPOLLHUP)], .dispatch 0, .exec (.loop 0) .none]

/-- The thread executes its store of `kDisconnecting`: the connection was down and is half closed
again. -/
theorem not_neverBack_overtakenRun :
    ¬ NeverBack (exampleConfig 0 false) (overtakenRun ++ [.exec (.user 0) .none]) := by
  intro h
  have hdown : ((system (exampleConfig 0 false)).run (new (exampleConfig 0 false))
      overtakenRun).map (fun s => (s.objects.conn 0).state) = some .kDisconnected := by
    decide +kernel
  have hback : ((system (exampleConfig 0 false)).run (new (exampleConfig 0 false))
      (overtakenRun ++ [.exec (.user 0) .none])).map (fun s => (s.objects.conn 0).state) =
        some .kDisconnecting := by
    decide +kernel
  obtain ⟨s, hs, hstate⟩ := Option.map_eq_some_iff.mp hdown
  obtain ⟨s', hs', hstate'⟩ := Option.map_eq_some_iff.mp hback
  rw [run_append, hs] at hs'
  have hfinal := h.disconnected (List.prefix_refl _) hs hs' hstate
  exact absurd (hstate'.symm.trans hfinal) (by decide)

end Server

end HzhMuduo
