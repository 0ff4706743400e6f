import HzhMuduo.Server.Progress

/-!
# The end of the server

`~TcpServer` takes the connections that are left out of the map and out of the poller, one after
the other, and then the acceptor.  In between the application is told, and what it does then may
send on other connections or shut them down.  When a single-threaded server is gone, its poller
has no channel and its epoll instance watches nothing but the loop's own eventfd, which is not part
of this model, whatever the loop does afterwards: no step brings an operation of the destructor
back (`empty_of_destroyed`).
-/

namespace HzhMuduo

open MachineWord TcpConnection TransitionSystem

namespace Op

/-- What happens once the server is being destroyed. -/
def late : Op → Bool
  | .destroyItem _ | .removeAcceptor | .connectDestroyed _ | .destroyConnected _
  | .channelRemove _ | .connectionCallback _ | .writeCompleteCallback _
  | .highWaterMarkCallback _ _ | .user _ _ | .release _ | .send _ _ | .sendInLoop _ _
  | .sendBody _ _ | .shutdown _ | .setDisconnecting _ | .shutdownRun _ | .shutdownInLoop _ => true
  | _ => false

/-- What the destructor has to do. -/
def destructs : Op → Bool
  | .destroyItem _ | .removeAcceptor | .connectDestroyed _ | .destroyConnected _
  | .channelRemove _ => true
  | _ => false

end Op

/-- The functors that can still wait then. -/
def Functor.late : Functor → Bool
  | .writeCompleteCallback _ | .highWaterMarkCallback _ _ | .user _ => true
  | _ => false

section Classes

variable {cfg : Config} {o o' : Objects} {i : Input} {op op' : Op} {ops : List Op} {f : Functor}

lemma Op.Runs.late (h : Op.Runs cfg o (.loop 0) i op o' ops) (hloop : ∀ c, (o.conn c).loop = 0)
    (hop : op' ∈ ops) (hlate : op.late = true) : op'.late = true := by
  cases h <;> simp only [List.mem_cons, List.not_mem_nil, or_false] at hop <;> grind [Op.late]

/-- Nothing but the destructor goes on with the destructor then. -/
lemma Op.Runs.destructs (h : Op.Runs cfg o (.loop 0) i op o' ops) (hlate : op.late = true)
    (hnot : op.destructs = false) (hop : op' ∈ ops) : op'.destructs = false := by
  cases h <;> simp only [List.mem_cons, List.not_mem_nil, or_false] at hop <;>
    grind [Op.late, Op.destructs]

/-- In the base loop nothing else is queued then. -/
lemma Op.Runs.queues_late (h : Op.Runs cfg o (.loop 0) i op o' ops)
    (hloop : ∀ c, (o.conn c).loop = 0) (hlate : op.late = true) {l : LoopId}
    (hf : f ∈ o'.pendingFunctors l) : f ∈ o.pendingFunctors l ∨ f.late = true := by
  rcases h.effect.mem_pending hloop hf with hold | ⟨hqueues, -⟩
  · exact .inl hold
  · cases op with
    | sendBody | handleWrite =>
      rcases hqueues with rfl | ⟨n, rfl⟩ <;> exact .inr rfl
    | destroyItem c =>
      cases h with
      | destroyHere ht => exact .inl hf
      | destroyThere ht => exact absurd (congrArg Tid.loop (hloop c).symm) ht
    | shutdownRun c =>
      cases h with
      | shutdownHere ht => exact .inl hf
      | shutdownThere ht => exact absurd (congrArg Tid.loop (hloop c).symm) ht
    | _ => first | (cases hlate; done) | cases hqueues

lemma Functor.late_op (h : f.late = true) : f.op.late = true := by
  cases f <;> first | rfl | cases h

lemma Functor.destructs_op (h : f.late = true) : f.op.destructs = false := by
  cases f <;> first | rfl | cases h

end Classes

namespace Server

variable {cfg : Config} {s s' : Server} {a : Act} {c : ConnId}

/-- The base loop alone acts; the server may be destroyed. -/
def OnBaseLoop (_ : Server) (a : Act) : Prop := a.tid = .loop 0

instance (s : Server) (a : Act) : Decidable (s.OnBaseLoop a) := inferInstanceAs (Decidable (_ = _))

/-- The destructor has not finished the connection yet, and its state was not stored. -/
def Undismissed (s : Server) (c : ConnId) : Prop :=
  .destroyItem c ∈ s.stack (.loop 0) ∨ .connectDestroyed c ∈ s.stack (.loop 0) ∨
    .destroyConnected c ∈ s.stack (.loop 0)

/-- The destructor has nothing left to do. -/
def Destructed (s : Server) : Prop := ∀ op ∈ s.stack (.loop 0), op.destructs = false

lemma destructed_of_idle (hstack : s.stack (.loop 0) = []) : s.Destructed := by
  intro op hop
  rw [hstack] at hop
  cases hop

/-- The destructor does not have to do this any more. -/
lemma Destructed.not_mem (h : s.Destructed) {op : Op} (hop : op.destructs = true) :
    op ∉ s.stack (.loop 0) := fun hmem => absurd ((h op hmem).symm.trans hop) Bool.false_ne_true

lemma Destructed.not_undismissed (h : s.Destructed) (c : ConnId) : ¬ s.Undismissed c := by
  rintro (hop | hop | hop) <;> exact h.not_mem rfl hop

/-- A server that is being destroyed, or was. -/
structure Teardown (s : Server) : Prop where
  dead : s.objects.serverAlive = false
  late : ∀ op ∈ s.stack (.loop 0), op.late = true
  queued : ∀ f ∈ s.waiting 0, f.late = true
  inactive : (s.phase 0).active = []
  /-- The map has a connection until its turn comes. -/
  table : ∀ c, s.objects.InTable c → .destroyItem c ∈ s.stack (.loop 0)
  /-- The poller has a channel until `remove`. -/
  left : ∀ c, (s.objects.conn c).channel.index ≠ kNew →
    s.Undismissed c ∨ .channelRemove c ∈ s.stack (.loop 0)
  connected : ∀ c, (s.objects.conn c).state = .kConnected →
    (s.objects.conn c).channel.index ≠ kNew ∧ s.Undismissed c ∧
      .channelRemove c ∉ s.stack (.loop 0)
  sending : ∀ c len, .sendInLoop c len ∈ s.stack (.loop 0) ∨ .sendBody c len ∈ s.stack (.loop 0) →
    (s.objects.conn c).state = .kConnected
  acceptor : s.objects.acceptChannel.index ≠ kNew → .removeAcceptor ∈ s.stack (.loop 0)

namespace Teardown

/-- When the destructor has nothing left to do, nothing is left. -/
lemma index_eq (h : Teardown s) (hdone : s.Destructed) (k : ChannelId) :
    (s.objects.chan k).index = kNew := by
  by_contra hindex
  cases k with
  | acceptor => exact hdone.not_mem rfl (h.acceptor hindex)
  | conn c =>
    rcases h.left c hindex with hund | hop
    · exact hdone.not_undismissed c hund
    · exact hdone.not_mem rfl hop

lemma not_inTable (h : Teardown s) (hdone : s.Destructed) (c : ConnId) : ¬ s.objects.InTable c :=
  fun hin => hdone.not_mem rfl (h.table c hin)

lemma not_connected (h : Teardown s) (hdone : s.Destructed) (c : ConnId) :
    (s.objects.conn c).state ≠ .kConnected :=
  fun hstate => hdone.not_undismissed c (h.connected c hstate).2.1

/-- The poller is empty. -/
lemma poller_eq (h : Teardown s) (hR : Registered cfg s) (hdone : s.Destructed) (fd : Fd) :
    (s.objects.poller 0).channels fd = none ∧ (s.objects.poller 0).epoll fd = none := by
  constructor
  · by_contra hne
    obtain ⟨k, hk⟩ := Option.ne_none_iff_exists'.mp hne
    exact (hR.objects.sound.channels fd k hk).2 (h.index_eq hdone k)
  · by_contra hne
    obtain ⟨⟨m, k⟩, hk⟩ := Option.ne_none_iff_exists'.mp hne
    have hadded := (hR.objects.sound.epoll fd m k hk).2
    rw [h.index_eq hdone k] at hadded
    exact absurd hadded (by decide)

/-- Steps of the loop between two operations, when the destructor has returned. -/
lemma of_idle (h : Teardown s) (hstack : s.stack (.loop 0) = []) (hchan : s'.objects.chan = s.objects.chan)
    (hstate : ∀ c, (s'.objects.conn c).state = (s.objects.conn c).state)
    (hdead : s'.objects.serverAlive = s.objects.serverAlive)
    (htable : s'.objects.connections = s.objects.connections)
    (hlate : ∀ op ∈ s'.stack (.loop 0), op.late = true ∧ ∀ c len, op ≠ .sendInLoop c len ∧
      op ≠ .sendBody c len) (hqueued : ∀ f ∈ s'.waiting 0, f.late = true)
    (hinactive : (s'.phase 0).active = []) : Teardown s' := by
  have hdone := destructed_of_idle hstack
  have hindex : ∀ k, (s'.objects.chan k).index = kNew := fun k => by
    rw [hchan]
    exact h.index_eq hdone k
  refine ⟨hdead.trans h.dead, fun op hop => (hlate op hop).1, hqueued, hinactive, fun c hin => ?_,
    fun c hne => absurd (hindex (.conn c)) hne, fun c hconnected => ?_, fun c len hop => ?_,
    fun hne => absurd (hindex .acceptor) hne⟩
  · obtain ⟨name, hx⟩ := hin
    exact absurd ⟨name, htable ▸ hx⟩ (h.not_inTable hdone c)
  · exact absurd ((hstate c).symm.trans hconnected) (h.not_connected hdone c)
  · rcases hop with hop | hop
    · exact absurd rfl ((hlate _ hop).2 c len).1
    · exact absurd rfl ((hlate _ hop).2 c len).2

section Exec

variable {i : Input} {op : Op} {rest ops : List Op} {o : Objects} (h : Teardown s)
  (hR : Registered cfg s) (hS : Shape cfg s) (hstack : s.stack (.loop 0) = op :: rest)
  (hready : s.Ready cfg op i) (hrun : Op.Runs cfg s.objects (.loop 0) i op o ops)

include h hstack

lemma late_self : op.late = true := h.late op (hstack ▸ List.mem_cons_self)

include hrun

/-- An operation of another connection. -/
lemma conn_eq_of_other (hop : op.conn? ≠ some c) : o.conn c = s.objects.conn c := by
  refine hrun.effect.conn_of_ne hop ?_
  rintro rfl
  cases h.late_self hstack

include hR hready

/-- The states that are stored. -/
lemma state_of_connected (hstate : (o.conn c).state = .kConnected) :
    (s.objects.conn c).state = .kConnected ∧ op ≠ .destroyConnected c := by
  by_cases hop : op.conn? = some c
  · have hchange := hrun.stateChange (hR.lt_of_ready hready c hop)
    rw [hstate] at hchange
    generalize hold : (s.objects.conn c).state = old at hchange
    cases hchange with
    | same hne => exact ⟨rfl, hne.2.1⟩
    | connectEstablished => cases h.late_self hstack
  · rw [conn_eq_of_other h hstack hrun hop] at hstate
    refine ⟨hstate, ?_⟩
    rintro rfl
    exact hop rfl

omit h hready in
/-- The destructor goes on with a connection it has begun with. -/
lemma undismissed_executed (hold : s.Undismissed c)
    (hstate : op = .connectDestroyed c → (s.objects.conn c).state = .kConnected)
    (hne : op ≠ .destroyConnected c) :
    (s.executed (.loop 0) op o (ops ++ rest)).Undismissed c := by
  rcases hold with hop | hop | hop
  · by_cases heq : op = .destroyItem c
    · subst heq
      cases hrun with
      | destroyHere ht => exact .inr (.inl (mem_executed_self List.mem_cons_self))
      | destroyThere ht => exact absurd (congrArg Tid.loop (hR.objects.loop c).symm) ht
    · exact .inl (mem_executed_of_mem hstack hop (Ne.symm heq))
  · by_cases heq : op = .connectDestroyed c
    · subst heq
      cases hrun with
      | destroyOpen hs => exact .inr (.inr (mem_executed_self List.mem_cons_self))
      | destroyClosed hs => exact absurd (hstate rfl) hs
    · exact .inr (.inl (mem_executed_of_mem hstack hop (Ne.symm heq)))
  · exact .inr (.inr (mem_executed_of_mem hstack hop (Ne.symm hne)))

lemma left_executed (hindex : (o.conn c).channel.index ≠ kNew) :
    (s.executed (.loop 0) op o (ops ++ rest)).Undismissed c ∨
      .channelRemove c ∈ (s.executed (.loop 0) op o (ops ++ rest)).stack (.loop 0) := by
  by_cases hdown : op = .destroyConnected c
  · subst hdown
    cases hrun with
    | destroyConnected hv => exact .inr (mem_executed_self (by simp))
  by_cases hclosed : op = .connectDestroyed c ∧ (s.objects.conn c).state ≠ .kConnected
  · obtain ⟨rfl, hs⟩ := hclosed
    cases hrun with
    | destroyOpen hs' => exact absurd hs' hs
    | destroyClosed hs' => exact .inr (mem_executed_self List.mem_cons_self)
  have hmem : op ∈ s.stack (.loop 0) := hstack ▸ List.mem_cons_self
  -- neither of the two, so the channel was in the poller before
  obtain ⟨hne, hold⟩ : op ≠ .channelRemove c ∧ (s.objects.conn c).channel.index ≠ kNew := by
    by_cases hop : op.conn? = some c
    · have hchange := hrun.channelChange hR.objects (hR.lt_of_ready hready c hop)
      generalize (o.conn c).channel = ch at hchange hindex
      cases hchange with
      | same hother => exact ⟨hother.2.2.2, hindex⟩
      | destroyConnected => exact absurd rfl hdown
      | channelRemove => exact absurd rfl hindex
      | enableWriteing => exact ⟨nofun, (h.connected c (h.sending c _ (.inr hmem))).1⟩
      | _ => cases h.late_self hstack
    · rw [conn_eq_of_other h hstack hrun hop] at hindex
      refine ⟨?_, hindex⟩
      rintro rfl
      exact hop rfl
  rcases h.left c hold with hund | hop
  · refine .inl (undismissed_executed hR hstack hrun hund (fun heq => ?_) hdown)
    exact not_not.mp fun hs => hclosed ⟨heq, hs⟩
  · exact .inr (mem_executed_of_mem hstack hop (Ne.symm hne))

lemma connected_executed (hstate : (o.conn c).state = .kConnected) :
    (o.conn c).channel.index ≠ kNew ∧
      (s.executed (.loop 0) op o (ops ++ rest)).Undismissed c ∧
      .channelRemove c ∉ (s.executed (.loop 0) op o (ops ++ rest)).stack (.loop 0) := by
  obtain ⟨hstate, hdown⟩ := state_of_connected h hR hstack hready hrun hstate
  obtain ⟨hindex, hund, hremove⟩ := h.connected c hstate
  refine ⟨?_, undismissed_executed hR hstack hrun hund (fun _ => hstate) hdown, ?_⟩
  · by_cases hop : op.conn? = some c
    · have hchange := hrun.channelChange hR.objects (hR.lt_of_ready hready c hop)
      generalize (o.conn c).channel = ch at hchange
      cases hchange with
      | same hother => exact hindex
      | destroyConnected => exact absurd rfl hdown
      | channelRemove => exact absurd (hstack ▸ List.mem_cons_self) hremove
      | enableWriteing =>
        exact EPOLLPoller.nextIndex_ne_kNew _ _
      | _ => cases h.late_self hstack
    · rw [conn_eq_of_other h hstack hrun hop]
      exact hindex
  · intro hop
    rcases mem_executed hstack hop with ⟨-, hnew⟩ | ⟨hold, -⟩
    · cases hrun.follows hnew with
      | channelRemove hs => exact hs hstate
      | destroyRemove => exact hdown rfl
    · exact hremove hold

lemma table_executed (hin : o.InTable c) :
    .destroyItem c ∈ (s.executed (.loop 0) op o (ops ++ rest)).stack (.loop 0) := by
  have hold : s.objects.InTable c := by
    obtain ⟨name, hx⟩ := hin
    rcases hrun.effect.mem_connections hx with hx | ⟨hnew, -⟩
    · exact ⟨name, hx⟩
    · have hlate := h.late_self hstack
      rw [hnew.op] at hlate
      cases hlate
  have hcreated : c < s.objects.created := by
    obtain ⟨name, hx⟩ := hold
    exact (hR.objects.table _ hx).1
  have hne := (Objects.inTable_iff_of_runs hrun hR.objects (hR.lt_of_ready hready) hcreated).mp hin
  exact mem_executed_of_mem hstack (h.table c hold) (Ne.symm hne.2.2)

omit hR hready in
lemma acceptor_executed (hindex : o.acceptChannel.index ≠ kNew) :
    .removeAcceptor ∈ (s.executed (.loop 0) op o (ops ++ rest)).stack (.loop 0) := by
  have hlate := h.late_self hstack
  cases hrun with
  | removeAcceptor hv hv' =>
    obtain ⟨rfl, -⟩ := EPOLLPoller.removeChannel_eq hv'
    exact absurd rfl hindex
  | acceptedHere | acceptedThere => cases hlate
  | _ => exact mem_executed_of_mem hstack (h.acceptor hindex) (by simp)

include hS

lemma sending_executed {len : ℕ}
    (hop : .sendInLoop c len ∈ (s.executed (.loop 0) op o (ops ++ rest)).stack (.loop 0) ∨
      .sendBody c len ∈ (s.executed (.loop 0) op o (ops ++ rest)).stack (.loop 0)) :
    (o.conn c).state = .kConnected := by
  -- these two are not found below the top of a stack
  have hnew : .sendInLoop c len ∈ ops ∨ .sendBody c len ∈ ops := by
    refine hop.imp (fun hop => ?_) fun hop => ?_ <;>
    · rcases mem_executed hstack hop with ⟨-, hnew⟩ | ⟨-, hrest⟩
      · exact hnew
      · cases hS.top _ _ _ hstack _ (hrest rfl)
  have hself : op.conn? = some c ∧ (s.objects.conn c).state = .kConnected ∧
      op ≠ .connectEstablished c ∧ op ≠ .destroyConnected c ∧ op ≠ .handleClose c ∧
      op ≠ .setDisconnecting c := by
    rcases hnew with hnew | hnew
    · cases hrun.follows hnew with
      | sendHere hs => exact ⟨rfl, hs, nofun, nofun, nofun, nofun⟩
    · cases hrun.follows hnew with
      | sendBody hs =>
        exact ⟨rfl, h.sending c len (.inl (hstack ▸ List.mem_cons_self)), nofun, nofun, nofun, nofun⟩
  obtain ⟨hconn, hstate, hne⟩ := hself
  have hchange := hrun.stateChange (hR.lt_of_ready hready c hconn)
  rw [hstate] at hchange
  generalize (o.conn c).state = state at hchange
  cases hchange with
  | same => rfl
  | connectEstablished => rfl
  | destroyConnected => exact absurd rfl hne.2.1
  | handleClose => exact absurd rfl hne.2.2.1
  | setDisconnecting => exact absurd rfl hne.2.2.2

/-- Executing an operation brings the destructor forward. -/
lemma exec : Teardown (s.executed (.loop 0) op o (ops ++ rest)) := by
  refine ⟨hrun.effect.serverAlive_eq.trans h.dead, fun op' hop => ?_, fun f hf => ?_, h.inactive,
    fun c hin => table_executed h hR hstack hready hrun hin,
    fun c hindex => left_executed h hR hstack hready hrun hindex,
    fun c hstate => connected_executed h hR hstack hready hrun hstate,
    fun c len hop => sending_executed h hR hS hstack hready hrun hop,
    fun hindex => acceptor_executed h hstack hrun hindex⟩
  · rcases mem_executed hstack hop with ⟨-, hnew⟩ | ⟨hold, -⟩
    · exact hrun.late hR.objects.loop hnew (h.late_self hstack)
    · exact h.late op' hold
  · rcases List.mem_append.mp hf with hf | hf
    · rcases hrun.queues_late hR.objects.loop (h.late_self hstack) hf with hold | hlate
      · exact h.queued f (List.mem_append_left _ hold)
      · exact hlate
    · exact h.queued f (List.mem_append_right _ hf)

end Exec

/-- The code of the application calls or returns. -/
lemma setStack (h : Teardown s) {ops : List Op}
    (hlate : ∀ op ∈ ops, op.late = true ∧
      ((∀ c len, op ≠ .sendInLoop c len ∧ op ≠ .sendBody c len) ∨ op ∈ s.stack (.loop 0)))
    (hkept : ∀ op ∈ s.stack (.loop 0), (∀ cs buffer, op ≠ .user cs buffer) → op ∈ ops)
    (hremove : ∀ c, .channelRemove c ∈ ops → .channelRemove c ∈ s.stack (.loop 0)) :
    Teardown (s.setStack (.loop 0) ops) := by
  have hstack : (s.setStack (.loop 0) ops).stack (.loop 0) = ops := by
    simp only [Server.setStack, Function.update_self]
  have hund : ∀ c, s.Undismissed c → (s.setStack (.loop 0) ops).Undismissed c := by
    intro c hund
    rw [Undismissed, hstack]
    exact hund.imp (fun hop => hkept _ hop (by simp))
      (.imp (fun hop => hkept _ hop (by simp)) fun hop => hkept _ hop (by simp))
  refine ⟨h.dead, ?_, h.queued, h.inactive, ?_, ?_, ?_, ?_, ?_⟩ <;> rw [hstack]
  · exact fun op hop => (hlate op hop).1
  · exact fun c hin => hkept _ (h.table c hin) (by simp)
  · exact fun c hindex => (h.left c hindex).imp (hund c) fun hop => hkept _ hop (by simp)
  · intro c hstate
    obtain ⟨hindex, hold, hnot⟩ := h.connected c hstate
    exact ⟨hindex, hund c hold, fun hop => hnot (hremove c hop)⟩
  · intro c len hop
    refine h.sending c len (hop.imp (fun hop => ?_) fun hop => ?_)
    · exact (hlate _ hop).2.resolve_left fun hne => (hne c len).1 rfl
    · exact (hlate _ hop).2.resolve_left fun hne => (hne c len).2 rfl
  · exact fun hindex => hkept _ (h.acceptor hindex) (by simp)

/-- Settings and input of a connection do not matter. -/
lemma setConn (h : Teardown s) {x : TcpConnection} (hstate : x.state = (s.objects.conn c).state)
    (hchannel : x.channel = (s.objects.conn c).channel) : Teardown (s.setConn c x) := by
  have hconn : ∀ c', ((s.setConn c x).objects.conn c').state = (s.objects.conn c').state ∧
      ((s.setConn c x).objects.conn c').channel = (s.objects.conn c').channel := by
    intro c'
    by_cases hc : c' = c
    · subst hc
      simp [Server.setConn, hstate, hchannel]
    · simp [Server.setConn, Function.update_of_ne hc]
  refine ⟨h.dead, h.late, h.queued, h.inactive, h.table, fun c' hindex => ?_, fun c' hs => ?_,
    fun c' len hop => ?_, h.acceptor⟩
  · rw [(hconn c').2] at hindex
    exact h.left c' hindex
  · rw [(hconn c').1] at hs
    rw [(hconn c').2]
    exact h.connected c' hs
  · rw [(hconn c').1]
    exact h.sending c' len hop

/-- Nothing is reported by an epoll instance that watches nothing. -/
lemma active_eq (h : Teardown s) (hR : Registered cfg s) (hstack : s.stack (.loop 0) = [])
    {ready : List (Fd × EventMask)} {active : List (ChannelId × EventMask)}
    (hactive : (s.objects.poller 0).fillActiveChannels ready = some active) : active = [] := by
  refine List.eq_nil_iff_forall_not_mem.mpr ?_
  rintro ⟨k, m⟩ hmem
  obtain ⟨fd, -, events, hentry⟩ := EPOLLPoller.mem_fillActiveChannels hactive hmem
  rw [(h.poller_eq hR (destructed_of_idle hstack) fd).2] at hentry
  cases hentry

/-- Every step of the base loop keeps to the end of the server. -/
lemma step (h : Teardown s) (hR : Registered cfg s) (hS : Shape cfg s) (ha : s.OnBaseLoop a)
    (hstep : Step cfg s a s') : Teardown s' := by
  have hpush : ∀ {op : Op}, op.late = true → (∀ c len, op ≠ .sendInLoop c len ∧
      op ≠ .sendBody c len) → (∀ c, op ≠ .channelRemove c) →
      Teardown (s.setStack (.loop 0) (op :: s.stack (.loop 0))) := by
    intro op hlate hne hremove
    refine h.setStack (fun op' hop => ?_) (fun op' hop _ => List.mem_cons_of_mem _ hop)
      fun c hop => (List.mem_cons.mp hop).resolve_left (hremove c).symm
    rcases List.mem_cons.mp hop with rfl | hop
    · exact ⟨hlate, .inl hne⟩
    · exact ⟨h.late op' hop, .inr hop⟩
  have hphase : ∀ {p : Phase}, s.stack (.loop 0) = [] → (∀ f ∈ p.rest, f ∈ s.waiting 0) →
      p.active = [] → Teardown (s.setPhase 0 p) := by
    intro p hstack hrest hinactive
    refine h.of_idle hstack rfl (fun _ => rfl) rfl rfl (fun op hop => ?_) (fun f hf => ?_) ?_
    · have hop : op ∈ s.stack (.loop 0) := hop
      rw [hstack] at hop
      cases hop
    · rcases waiting_setPhase hf with hold | ⟨-, hnew⟩
      · exact h.queued f hold
      · exact h.queued f (hrest f hnew)
    · simpa [Server.setPhase] using hinactive
  cases hstep with
  | enter hl hat | leave hat | release hat =>
    obtain rfl := Tid.loop.inj ha
    exact hphase hat.2 (fun f hf => absurd hf List.not_mem_nil) rfl
  | poll hat hnodup hactive =>
    obtain rfl := Tid.loop.inj ha
    exact hphase hat.2 (fun f hf => absurd hf List.not_mem_nil) (h.active_eq hR hat.2 hactive)
  | dispatch hat halive =>
    obtain rfl := Tid.loop.inj ha
    have hinactive := h.inactive
    rw [hat.1] at hinactive
    cases hinactive
  | swap hat =>
    obtain rfl := Tid.loop.inj ha
    refine h.of_idle hat.2 rfl (fun _ => rfl) rfl rfl (fun op hop => ?_)
      (fun f hf => h.queued f (waiting_swap hf)) (by simp [Server.setPhase, Phase.active])
    have hop : op ∈ s.stack (.loop 0) := hop
    rw [hat.2] at hop
    cases hop
  | @next l ran f rest hat =>
    obtain rfl := Tid.loop.inj ha
    have hlate := h.queued f (waiting_of_next hat.1)
    refine h.of_idle hat.2 rfl (fun _ => rfl) rfl rfl (fun op hop => ?_)
      (fun g hg => h.queued g (waiting_next hat.1 hg))
      (by simp [Server.setStack, Server.setPhase, Phase.active])
    rcases mem_next hop with ⟨-, rfl⟩ | hold
    · refine ⟨Functor.late_op hlate, fun c len => ?_⟩
      cases f <;> first | (cases hlate; done) | simp [Functor.op]
    · rw [hat.2] at hold
      cases hold
  | @exec t i op rest o ops hstack hready hrun =>
    obtain rfl : t = .loop 0 := ha
    exact h.exec hR hS hstack hready hrun
  | @send t c len cs buffer hframe hsees =>
    obtain rfl : t = .loop 0 := ha
    exact hpush rfl (by simp) (by simp)
  | @shutdown t c cs buffer hframe hsees =>
    obtain rfl : t = .loop 0 := ha
    exact hpush rfl (by simp) (by simp)
  | copy hframe hsees halive | drop hframe hheld =>
    exact ⟨h.dead, h.late, h.queued, h.inactive, h.table, h.left, h.connected, h.sending, h.acceptor⟩
  | @queueInLoop t l cs' cs buffer hframe hl hsees =>
    refine ⟨h.dead, h.late, fun f hf => ?_, h.inactive, h.table, h.left, h.connected, h.sending,
      h.acceptor⟩
    rcases waiting_queueInLoop hf with hold | ⟨rfl, -⟩
    · exact h.queued f hold
    · rfl
  | setHighWaterMark hframe hsees halive => exact h.setConn rfl rfl
  | retrieve hframe halive => exact h.setConn rfl rfl
  | @ret t cs buffer rest hstack =>
    obtain rfl : t = .loop 0 := ha
    have hsub : ∀ op ∈ rest, op ∈ s.stack (.loop 0) := fun op hop =>
      hstack ▸ List.mem_cons_of_mem _ hop
    refine h.setStack (fun op hop => ⟨h.late op (hsub op hop), .inr (hsub op hop)⟩)
      (fun op hop hne => ?_) fun c hop => hsub _ hop
    rw [hstack] at hop
    exact (List.mem_cons.mp hop).resolve_left (hne cs buffer)
  | destroyServer halive hat horder => exact absurd (h.dead.symm.trans halive) Bool.false_ne_true

/-- No step of the base loop brings the destructor back. -/
lemma destructed (h : Teardown s) (hdone : s.Destructed) (ha : s.OnBaseLoop a)
    (hstep : Step cfg s a s') : s'.Destructed := by
  have hpush : ∀ {op : Op}, op.destructs = false →
      (s.setStack (.loop 0) (op :: s.stack (.loop 0))).Destructed := by
    intro op hnot op' hop
    simp only [Server.setStack, Function.update_self] at hop
    rcases List.mem_cons.mp hop with rfl | hop
    · exact hnot
    · exact hdone op' hop
  cases hstep with
  | @next l ran f rest hat =>
    obtain rfl := Tid.loop.inj ha
    intro op hop
    rcases mem_next hop with ⟨-, rfl⟩ | hold
    · exact Functor.destructs_op (h.queued f (waiting_of_next hat.1))
    · exact hdone op hold
  | dispatch hat halive =>
    obtain rfl := Tid.loop.inj ha
    have hinactive := h.inactive
    rw [hat.1] at hinactive
    cases hinactive
  | @exec t i op rest o ops hstack hready hrun =>
    obtain rfl : t = .loop 0 := ha
    have hmem : op ∈ s.stack (.loop 0) := hstack ▸ List.mem_cons_self
    intro op' hop
    rcases mem_executed hstack hop with ⟨-, hnew⟩ | ⟨hold, -⟩
    · exact hrun.destructs (h.late op hmem) (hdone op hmem) hnew
    · exact hdone op' hold
  | @send t c len cs buffer hframe hsees =>
    obtain rfl : t = .loop 0 := ha
    exact hpush rfl
  | @shutdown t c cs buffer hframe hsees =>
    obtain rfl : t = .loop 0 := ha
    exact hpush rfl
  | @ret t cs buffer rest hstack =>
    obtain rfl : t = .loop 0 := ha
    intro op hop
    simp only [Server.setStack, Function.update_self] at hop
    exact hdone op (hstack ▸ List.mem_cons_of_mem _ hop)
  | destroyServer halive hat horder => exact absurd (h.dead.symm.trans halive) Bool.false_ne_true
  | _ => exact hdone

end Teardown

/-- Between two calls of `loop`, what the poller has, and what is connected, is in the map. -/
lemma Ledger.inTable_of_outside (h : Ledger cfg s) (hphase : s.AtPhase 0 .outside)
    (hc : (s.objects.conn c).channel.index ≠ kNew ∨ (s.objects.conn c).state = .kConnected) :
    s.objects.InTable c ∧ (s.objects.conn c).channel.index ≠ kNew := by
  cases h.life c with
  | unborn hU =>
    rw [h.registered.objects.fresh c hU.created] at hc
    rcases hc with hindex | hstate
    · exact absurd rfl hindex
    · cases hstate
  | early hE =>
    cases hE.progress with
    | establishing hop | enabling hop | announcing hop =>
      rw [hphase.2] at hop
      cases hop
  | up hU =>
    refine ⟨hU.table, ?_⟩
    rw [hU.index]
    decide
  | closed hC =>
    rcases hc with hindex | hstate
    · have hgone := hC.index_of_idle h.rhythm hphase.2 (by rw [hphase.1]; rfl) (by rw [hphase.1]; rfl)
      exact absurd hgone.1 hindex
    · exact absurd hstate hC.quiet.ne_kConnected

/-- What waits between two calls of `loop`. -/
lemma Ledger.late_of_outside (h : Ledger cfg s) (hS : Shape cfg s) (hunbound : Unbound s)
    (hphase : s.AtPhase 0 .outside) {f : Functor} (hf : f ∈ s.waiting 0) : f.late = true := by
  have hpending : f ∈ s.objects.pendingFunctors 0 := by
    rcases List.mem_append.mp hf with hf | hf
    · exact hf
    · rw [hphase.1] at hf
      cases hf
  have hraw := hunbound f (.inl hpending)
  cases f with
  | writeCompleteCallback | highWaterMarkCallback | user => rfl
  | sendInLoop | shutdownInLoop => cases hraw
  | removeConnectionInLoop c => cases hS.queued 0 _ hf
  | connectDestroyed c =>
    have hdispatching := h.rhythm.pending c hpending
    rw [hphase.1] at hdispatching
    cases hdispatching
  | connectEstablished c =>
    cases h.life c with
    | unborn hU => exact absurd rfl (hU.waiting 0 _ hf)
    | early hE => exact absurd rfl (hE.waiting 0 _ hf)
    | up hU => cases hU.waiting 0 _ hf rfl
    | closed hC => rcases hC.waiting 0 _ hf rfl with hclass | hclass <;> cases hclass

/-- The destructor is called between two calls of `loop`. -/
lemma Ledger.teardown (h : Ledger cfg s) (hS : Shape cfg s) (hunbound : Unbound s)
    (hphase : s.AtPhase 0 .outside) {order : List ConnId}
    (horder : order.isPerm (s.objects.connections.map Prod.snd) = true) :
    Teardown { s.setStack (.loop 0) (order.map Op.destroyItem ++ [.removeAcceptor]) with
      objects := { s.objects with serverAlive := false } } := by
  have hstack : (s.setStack (.loop 0) (order.map Op.destroyItem ++ [.removeAcceptor])).stack
      (.loop 0) = order.map Op.destroyItem ++ [.removeAcceptor] := by
    simp only [setStack, Function.update_self]
  have hmem : ∀ c, s.objects.InTable c →
      .destroyItem c ∈ order.map Op.destroyItem ++ [.removeAcceptor] := by
    rintro c ⟨name, hx⟩
    refine List.mem_append_left _ (List.mem_map_of_mem ?_)
    exact (List.isPerm_iff.mp horder).mem_iff.mpr (List.mem_map.mpr ⟨_, hx, rfl⟩)
  refine ⟨rfl, ?_, fun f hf => h.late_of_outside hS hunbound hphase hf, ?_, ?_, ?_, ?_, ?_, ?_⟩
  all_goals dsimp only [Undismissed]
  all_goals try rw [hstack]
  · intro op hop
    obtain ⟨c, -, rfl⟩ | rfl := mem_destroyServer hop <;> rfl
  · rw [setStack, hphase.1]
    rfl
  · exact hmem
  · exact fun c hindex => .inl (.inl (hmem c (h.inTable_of_outside hphase (.inl hindex)).1))
  · intro c hstate
    obtain ⟨hin, hindex⟩ := h.inTable_of_outside hphase (.inr hstate)
    refine ⟨hindex, .inl (hmem c hin), fun hop => ?_⟩
    obtain ⟨c', -, heq⟩ | heq := mem_destroyServer hop <;> cases heq
  · rintro c len (hop | hop)
    · obtain ⟨c', -, heq⟩ | heq := mem_destroyServer hop <;> cases heq
    · obtain ⟨c', -, heq⟩ | heq := mem_destroyServer hop <;> cases heq
  · exact fun _ => List.mem_append_right _ (List.mem_singleton_self _)

/-- A run of the base loop alone is ordinary until the server is destroyed. -/
theorem ordinary_or_teardown (hcfg : cfg.numThreads = 0) (h : (system cfg).ReachWhere OnBaseLoop s) :
    (system cfg).ReachWhere Ordinary s ∨ Teardown s := by
  refine h.invariant_of (I := fun s => (system cfg).ReachWhere Ordinary s ∨ Teardown s)
    (J := fun s => Registered cfg s ∧ Shape cfg s)
    (fun s hs => ⟨registered_of_reach hs.reach, shape_of_reach hs.reach⟩)
    (fun s hs => .inl (.init hs)) ?_
  rintro s a s' ⟨hR, hS⟩ - (hordinary | hT) ha hs
  · cases hdestroys : a.destroys with
    | false => exact .inl (hordinary.step ⟨ha, hdestroys⟩ hs)
    | true =>
      cases step_cases hs with
      | destroyServer halive hphase horder =>
        have hledger := ledger_of_reach hcfg hordinary
        exact .inr (hledger.teardown hS (unbound_of_reach hordinary) hphase horder)
      | _ => cases hdestroys
  · exact .inr (hT.step hR hS ha (step_cases hs))

/-- A server that is not alive is being destroyed, or was. -/
lemma teardown_of_dead (hcfg : cfg.numThreads = 0) (h : (system cfg).ReachWhere OnBaseLoop s)
    (hdead : s.objects.serverAlive = false) : Teardown s := by
  refine (ordinary_or_teardown hcfg h).resolve_left fun hordinary => ?_
  have halive := (ledger_of_reach hcfg hordinary).sequential.serverAlive
  exact Bool.false_ne_true (hdead.symm.trans halive)

/-- `connections_` is empty, no connection is connected, and the poller has no channel and its
epoll instance watches nothing. -/
structure Emptied (s : Server) : Prop where
  connections : s.objects.connections = []
  down : ∀ c, (s.objects.conn c).state ≠ .kConnected
  poller : ∀ fd, (s.objects.poller 0).channels fd = none ∧ (s.objects.poller 0).epoll fd = none

lemma Teardown.emptied (h : Teardown s) (hR : Registered cfg s) (hdone : s.Destructed) :
    s.Emptied := by
  refine ⟨List.eq_nil_iff_forall_not_mem.mpr fun x hx => ?_, h.not_connected hdone,
    h.poller_eq hR hdone⟩
  exact h.not_inTable hdone x.2 ⟨x.1, hx⟩

/-- When the destructor of a single-threaded server has nothing left to do, everything is empty,
and it stays so in every continuation of the run. -/
theorem empty_of_destroyed (hcfg : cfg.numThreads = 0) (h : (system cfg).ReachWhere OnBaseLoop s)
    (hdead : s.objects.serverAlive = false) (hdone : s.Destructed) :
    s.Emptied ∧ ∀ as s', ((system cfg).restrict OnBaseLoop).run s as = some s' → s'.Emptied := by
  have hempty : ∀ t, (system cfg).ReachWhere OnBaseLoop t →
      t.objects.serverAlive = false ∧ t.Destructed → t.Emptied := by
    intro t ht hP
    exact (teardown_of_dead hcfg ht hP.1).emptied (registered_of_reach ht.reach) hP.2
  have hkeep : ∀ t a t', (system cfg).ReachWhere OnBaseLoop t →
      t.objects.serverAlive = false ∧ t.Destructed → t.OnBaseLoop a →
      (system cfg).step t a = some t' → t'.objects.serverAlive = false ∧ t'.Destructed := by
    intro t a t' ht hP ha hstep
    have hT := teardown_of_dead hcfg ht hP.1
    have hcases := step_cases hstep
    have hT' := hT.step (registered_of_reach ht.reach) (shape_of_reach ht.reach) ha hcases
    exact ⟨hT'.dead, hT.destructed hP.2 ha hcases⟩
  refine ⟨hempty s h ⟨hdead, hdone⟩, fun as s' hrun => ?_⟩
  obtain ⟨h', hP⟩ := h.stable ⟨hdead, hdone⟩ hkeep hrun
  exact hempty s' h' hP

instance (s : Server) : Decidable s.Destructed :=
  inferInstanceAs (Decidable (∀ op ∈ s.stack (.loop 0), op.destructs = false))

/-- The loop stops and the server is destroyed while a connection is up. -/
def destroyedRun : List Act :=
  acceptedRun ++ [.leave 0, .destroyServer [0], .exec (.loop 0) .none, .exec (.loop 0) .none,
    .exec (.loop 0) .none, .exec (.loop 0) .none, .user (.loop 0) .ret, .exec (.loop 0) .none,
    .exec (.loop 0) .none, .exec (.loop 0) .none, .exec (.loop 0) .none]

theorem empty_of_destroyed_destroyedRun :
    ∃ s, (system (exampleConfig 0 false)).ReachWhere OnBaseLoop s ∧ s.objects.created = 1 ∧
      s.Emptied ∧ ∀ as s', ((system (exampleConfig 0 false)).restrict OnBaseLoop).run s as = some s' →
        s'.Emptied := by
  obtain ⟨s, hs, hobserved⟩ := exists_reach_of_run
    (M := (system (exampleConfig 0 false)).restrict OnBaseLoop) (s := new (exampleConfig 0 false))
    (v := (1, false, true)) destroyedRun
    (fun s => (s.objects.created, s.objects.serverAlive, decide s.Destructed)) rfl
    (by decide +kernel)
  obtain ⟨hcreated, hrest⟩ := Prod.mk.inj hobserved
  obtain ⟨hdead, hdone⟩ := Prod.mk.inj hrest
  have hreach := Reach.of_restrict hs
  exact ⟨s, hreach, hcreated, empty_of_destroyed rfl hreach hdead (of_decide_eq_true hdone)⟩

end Server

end HzhMuduo
