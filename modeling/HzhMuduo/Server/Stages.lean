import HzhMuduo.Server.Announcement

/-!
# The life of a connection

On a server without sub-loops that is not destroyed, every connection goes through the same
stages: it is accepted and established (`Early`), announced to the application and served
(`Up`), and from `handleClose` on it is taken down (`Closed`).  A stage says which operations
and functors of the connection there can be, where its channel is and whether the map has it.
The only way back would be a `shutdown` that overwrites the state of a closed connection while a
`send` is on its way (`Settled`).
-/

namespace HzhMuduo

open MachineWord TcpConnection

namespace Op

/-- What establishes and announces a connection. -/
def starting : Op → Bool
  | .connectEstablished _ | .enableReading _ | .connectionCallback _ => true
  | _ => false

/-- What happens on a connection that is up. -/
def serving : Op → Bool
  | .handleClose _ | .handleError _ | .handleRead _ | .handleWrite _ | .afterDrain _
  | .messageCallback _ | .writeCompleteCallback _ | .highWaterMarkCallback _ _ | .send _ _
  | .sendRun _ _ | .sendInLoop _ _ | .sendBody _ _ | .shutdown _ | .setDisconnecting _
  | .shutdownRun _ | .shutdownInLoop _ => true
  | _ => false

/-- What takes a connection down, behind `handleClose`. -/
def ending : Op → Bool
  | .connectionCallback _ | .closeCallback _ | .removeConnectionInLoop _ | .connectDestroyed _
  | .channelRemove _ => true
  | _ => false

end Op

section Classes

variable {cfg : Config} {o o' : Objects} {op op' : Op} {c : ConnId}

lemma Op.Follows.serving (h : Op.Follows o o' op op') (hop : op.serving = true)
    (hclose : ∀ c, op ≠ .handleClose c) (hc : op'.conn? = some c) : op'.serving = true := by
  cases h with
  | down => exact absurd rfl (hclose _)
  | close => exact absurd rfl (hclose _)
  | _ => first | rfl | (cases hop; done) | cases hc

lemma Op.Follows.ending (h : Op.Follows o o' op op')
    (hop : op.serving = true ∨ op.ending = true) (hopc : op.conn? = some c)
    (hstate : (o.conn c).state ≠ .kConnected) (hc : op'.conn? = some c) :
    op'.serving = true ∨ op'.ending = true := by
  cases h with
  | destroyConnected hconnected =>
    obtain rfl := Option.some.inj hopc
    exact absurd hconnected hstate
  | _ => 
    first | exact .inl rfl | exact .inr rfl | (cases hc; done) | (rcases hop with h | h <;> cases h)

lemma Op.Queues.serving {created : ℕ} {f : Functor} (h : op.Queues created f)
    (hop : op.serving = true) : f.op.serving = true := by
  cases op with
  | sendBody | handleWrite => rcases h with rfl | ⟨n, rfl⟩ <;> rfl
  | sendRun | shutdownRun =>
    simp only [Op.Queues] at h
    subst h
    rfl
  | _ => first | (cases hop; done) | cases h

lemma Op.Queues.ending {created : ℕ} {f : Functor} (h : op.Queues created f)
    (hop : op.serving = true ∨ op.ending = true) : f.op.serving = true ∨ f.op.ending = true := by
  rcases hop with hop | hop
  · exact .inl (h.serving hop)
  · cases op with
    | closeCallback | removeConnectionInLoop =>
      simp only [Op.Queues] at h
      subst h
      exact .inr rfl
    | _ => first | (cases hop; done) | cases h

end Classes

namespace Server

variable {cfg : Config} {s s' : Server} {a : Act} {c : ConnId}

/-- The server is not destroyed, and `shutdown` does not overwrite the state of a connection that
is down while a `send` is on its way. -/
def Settled (s : Server) : Act → Prop
  | .exec t _ => ∀ c rest, s.stack t = .setDisconnecting c :: rest →
      (s.objects.conn c).state = .kDisconnected → ¬ s.InFlight c
  | .destroyServer _ => False
  | _ => True

/-- A connection that does not exist yet. -/
structure Unborn (s : Server) (c : ConnId) : Prop where
  created : s.objects.created ≤ c
  unseen : s.Unseen c
  stack : ∀ t, ∀ op ∈ s.stack t, op.conn? ≠ some c
  waiting : ∀ l, ∀ f ∈ s.waiting l, f.conn? ≠ some c
  inactive : ∀ m, (.conn c, m) ∉ (s.phase 0).active

/-- How far the establishment of a connection is; each stage is on the stack of the base loop. -/
inductive Progress (s : Server) (c : ConnId) : Prop
  | establishing (hop : .connectEstablished c ∈ s.stack (.loop 0))
      (hstate : (s.objects.conn c).state = .kConnecting)
      (hindex : (s.objects.conn c).channel.index = kNew)
  | enabling (hop : .enableReading c ∈ s.stack (.loop 0))
      (hstate : (s.objects.conn c).state = .kConnected)
      (hindex : (s.objects.conn c).channel.index = kNew)
  | announcing (hop : .connectionCallback c ∈ s.stack (.loop 0))
      (hstate : (s.objects.conn c).state = .kConnected)
      (hindex : (s.objects.conn c).channel.index = kAdded)
      (hreading : (s.objects.conn c).channel.isReading = true)

/-- A connection that was accepted and is not announced yet. -/
structure Early (s : Server) (c : ConnId) : Prop where
  created : c < s.objects.created
  table : s.objects.InTable c
  unseen : s.Unseen c
  stack : ∀ t, ∀ op ∈ s.stack t, op.conn? = some c → t = .loop 0 ∧ op.starting = true
  waiting : ∀ l, ∀ f ∈ s.waiting l, f.conn? ≠ some c
  inactive : ∀ m, (.conn c, m) ∉ (s.phase 0).active
  progress : s.Progress c

/-- A connection that is up. -/
structure Up (s : Server) (c : ConnId) : Prop where
  created : c < s.objects.created
  table : s.objects.InTable c
  state : (s.objects.conn c).state = .kConnected ∨ (s.objects.conn c).state = .kDisconnecting
  index : (s.objects.conn c).channel.index = kAdded
  reading : (s.objects.conn c).channel.isReading = true
  stack : ∀ t, ∀ op ∈ s.stack t, op.conn? = some c → op.serving = true
  waiting : ∀ l, ∀ f ∈ s.waiting l, f.conn? = some c → f.op.serving = true
  /-- Handlers run for the one event that was reported. -/
  handled : ∀ op ∈ s.stack (.loop 0), op.conn? = some c → op.handling = true →
    ∀ m, (.conn c, m) ∉ (s.phase 0).active

/-- `connectDestroyed` of the connection is queued or under way. -/
def Destroying (s : Server) (c : ConnId) : Prop :=
  .connectDestroyed c ∈ s.waiting 0 ∨ .connectDestroyed c ∈ s.stack (.loop 0) ∨
    .channelRemove c ∈ s.stack (.loop 0)

/-- A connection on which `handleClose` was executed. -/
structure Closed (s : Server) (c : ConnId) : Prop where
  created : c < s.objects.created
  events : (s.objects.conn c).channel.events = Channel.kNoneEvent
  quiet : s.Quiet c
  unsent : ∀ len, .sendBody c len ∉ s.stack (.loop 0)
  stack : ∀ t, ∀ op ∈ s.stack t, op.conn? = some c → op.serving = true ∨ op.ending = true
  waiting : ∀ l, ∀ f ∈ s.waiting l, f.conn? = some c → f.op.serving = true ∨ f.op.ending = true
  inactive : ∀ m, (.conn c, m) ∉ (s.phase 0).active
  /-- The map has it until `removeConnectionInLoop`, which is under way. -/
  closing : s.objects.InTable c →
    .closeCallback c ∈ s.stack (.loop 0) ∨ .removeConnectionInLoop c ∈ s.stack (.loop 0)
  /-- The poller has it until `connectDestroyed`, which is under way or will be. -/
  kept : (s.objects.conn c).channel.index ≠ kNew → s.objects.InTable c ∨ s.Destroying c
  handled : ∀ op ∈ s.stack (.loop 0), op.conn? = some c → op.handling = true →
    (s.objects.conn c).channel.index ≠ kNew

/-- The stages. -/
inductive Life (s : Server) (c : ConnId) : Prop
  | unborn (h : Unborn s c)
  | early (h : Early s c)
  | up (h : Up s c)
  | closed (h : Closed s c)

/-- A channel that is read from has events. -/
lemma Closed.not_isReading (hC : Closed s c) : (s.objects.conn c).channel.isReading ≠ true := by
  rw [Channel.isReading, hC.events, EventMask.has_kNoneEvent]
  exact Bool.false_ne_true

lemma Up.not_closed (hU : Up s c) : ¬ Closed s c := fun hC => hC.not_isReading hU.reading

lemma Early.not_closed (hE : Early s c) : ¬ Closed s c := by
  intro hC
  cases hE.progress with
  | establishing hop =>
    rcases hC.stack _ _ hop rfl with h | h <;> cases h
  | enabling hop =>
    rcases hC.stack _ _ hop rfl with h | h <;> cases h
  | announcing hop hstate hindex hreading => exact hC.not_isReading hreading

/-! ### Steps that leave the connection alone -/

lemma Destroying.of_untouched (h : Untouched c s s') : s'.Destroying c ↔ s.Destroying c :=
  or_congr (h.waiting 0 _ rfl) (or_congr (h.stack _ _ rfl) (h.stack _ _ rfl))

/-- Before the first step no connection exists. -/
lemma unborn_new (cfg : Config) (c : ConnId) : Unborn (new cfg) c :=
  ⟨Nat.zero_le c, ⟨nofun, nofun, nofun⟩, nofun, nofun, nofun⟩

lemma Unborn.untouched (hU : Unborn s c) (h : Untouched c s s') (hseen : s'.Unseen c) :
    Unborn s' c := by
  refine ⟨?_, hseen, fun t op hop hc => ?_, fun l f hf hc => ?_, fun m hm => ?_⟩
  · exact Nat.le_of_not_lt fun hlt => absurd hU.created (Nat.not_le_of_lt (h.created.mp hlt))
  · exact hU.stack t op ((h.stack t op hc).mp hop) hc
  · exact hU.waiting l f ((h.waiting l f hc).mp hf) hc
  · exact hU.inactive m ((h.active m).mp hm)

/-- A connection that does not exist stays so, in every run, until `accept` creates it. -/
theorem Unborn.step_or_creates (hU : Unborn s c) (hR : Registered cfg s) (hS : Shape cfg s)
    (hstep : Step cfg s a s') :
    Unborn s' c ∨ s'.Unseen c ∧ ∃ t i op rest o ops, s.stack t = op :: rest ∧
      Op.Runs cfg s.objects t i op o ops ∧ op.Creates s.objects o c ∧
        s' = s.executed t op o (ops ++ rest) := by
  have hnot : ¬ s.Executes a c := by
    rintro ⟨t, i, op, rest, -, hstack, hop⟩
    exact hU.stack t op (hstack ▸ List.mem_cons_self) hop
  have hunseen : s'.Unseen c := hU.unseen.step hR hstep fun t i op rest ha hstack hop =>
    absurd ⟨t, i, op, rest, ha, hstack, hop⟩ hnot
  cases hstep.concerns hR c with
  | untouched h hnot => exact .inl (hU.untouched h hunseen)
  | poll h hnodup hactive =>
    refine .inl ⟨hU.created, hunseen, hU.stack, fun l f hf hc => ?_, fun m => ?_⟩
    · exact hU.waiting l f (((kept_poll h).waiting l f hc).mp hf) hc
    · refine hR.not_mem_active ?_ hactive m
      rw [hR.objects.fresh c hU.created]
      rfl
  | dispatch h halive => exact absurd (hS.mem_active h.1) (hU.inactive _)
  | next h hf => exact absurd hf (hU.waiting _ _ (waiting_of_next h.1))
  | exec hstack hready hrun hc =>
    have hop := hU.stack _ _ (hstack ▸ List.mem_cons_self)
    exact .inr ⟨hunseen, _, _, _, _, _, _, hstack, hrun, hc.resolve_left hop, rfl⟩
  | call hframe hsees hop => exact absurd hsees (hU.unseen.not_sees hframe)
  | @destroyServer order halive h =>
    refine .inl ⟨hU.created, hunseen, fun t op hop => ?_, hU.waiting, hU.inactive⟩
    rcases mem_setStack hop with ⟨-, hnew⟩ | hold
    · -- the destructor works on the connections of the map, which exist
      obtain ⟨c', hc', rfl⟩ | rfl := mem_destroyServer hnew
      · cases hstep with
        | destroyServer halive h horder =>
          have hmem := (List.isPerm_iff.mp horder).mem_iff.mp hc'
          obtain ⟨x, hx, rfl⟩ := List.mem_map.mp hmem
          rintro heq
          obtain rfl := Option.some.inj heq
          exact absurd (hR.objects.table x hx).1 (Nat.not_lt_of_le hU.created)
      · nofun
    · exact hU.stack t op hold

lemma Progress.untouched (hP : s.Progress c) (h : Untouched c s s') : s'.Progress c := by
  cases hP with
  | establishing hop hstate hindex =>
    exact .establishing ((h.stack _ _ rfl).mpr hop) (h.state.trans hstate) (h.channel ▸ hindex)
  | enabling hop hstate hindex =>
    exact .enabling ((h.stack _ _ rfl).mpr hop) (h.state.trans hstate) (h.channel ▸ hindex)
  | announcing hop hstate hindex hreading =>
    exact .announcing ((h.stack _ _ rfl).mpr hop) (h.state.trans hstate) (h.channel ▸ hindex)
      (h.channel ▸ hreading)

lemma Early.untouched (hE : Early s c) (h : Untouched c s s') (hseen : s'.Unseen c)
    (htable : s'.objects.InTable c ↔ s.objects.InTable c) : Early s' c := by
  refine ⟨h.created.mpr hE.created, htable.mpr hE.table, hseen, fun t op hop hc => ?_,
    fun l f hf hc => ?_, fun m hm => ?_, hE.progress.untouched h⟩
  · exact hE.stack t op ((h.stack t op hc).mp hop) hc
  · exact hE.waiting l f ((h.waiting l f hc).mp hf) hc
  · exact hE.inactive m ((h.active m).mp hm)

lemma Up.untouched (hU : Up s c) (h : Untouched c s s')
    (htable : s'.objects.InTable c ↔ s.objects.InTable c) : Up s' c := by
  refine ⟨h.created.mpr hU.created, htable.mpr hU.table, ?_, ?_, ?_, fun t op hop hc => ?_,
    fun l f hf hc => ?_, fun op hop hc hh m hm => ?_⟩
  · rw [h.state]
    exact hU.state
  · rw [h.channel]
    exact hU.index
  · rw [h.channel]
    exact hU.reading
  · exact hU.stack t op ((h.stack t op hc).mp hop) hc
  · exact hU.waiting l f ((h.waiting l f hc).mp hf) hc
  · exact hU.handled op ((h.stack _ op hc).mp hop) hc hh m ((h.active m).mp hm)

lemma Closed.untouched (hC : Closed s c) (h : Untouched c s s')
    (htable : s'.objects.InTable c ↔ s.objects.InTable c) : Closed s' c := by
  refine ⟨h.created.mpr hC.created, ?_, (Quiet.of_kept h.kept).mpr hC.quiet, fun len hop => ?_,
    fun t op hop hc => ?_, fun l f hf hc => ?_, fun m hm => ?_, fun hin => ?_, ?_,
    fun op hop hc hh => ?_⟩
  · rw [h.channel]
    exact hC.events
  · exact hC.unsent len ((h.stack _ _ rfl).mp hop)
  · exact hC.stack t op ((h.stack t op hc).mp hop) hc
  · exact hC.waiting l f ((h.waiting l f hc).mp hf) hc
  · exact hC.inactive m ((h.active m).mp hm)
  · exact (hC.closing (htable.mp hin)).imp (h.stack _ _ rfl).mpr (h.stack _ _ rfl).mpr
  · rw [h.channel, htable, Destroying.of_untouched h]
    exact hC.kept
  · rw [h.channel]
    exact hC.handled op ((h.stack _ op hc).mp hop) hc hh

/-! ### Acceptance and establishment -/

section Exec

variable {t : Tid} {i : Input} {op : Op} {rest ops : List Op} {o : Objects}

/-- A connection is born when it is accepted, and established in the base loop. -/
lemma Early.of_creates (hcfg : cfg.numThreads = 0) (hU : Unborn s c) (hS : Shape cfg s)
    (hstack : s.stack t = op :: rest) (hrun : Op.Runs cfg s.objects t i op o ops)
    (hnew : op.Creates s.objects o c) (hseen : (s.executed t op o (ops ++ rest)).Unseen c) :
    Early (s.executed t op o (ops ++ rest)) c := by
  obtain ⟨rfl, rfl, hcreated⟩ := hnew
  have hloop : (s.objects.getNextLoop cfg).1 = 0 := by rw [Objects.getNextLoop, if_pos hcfg]
  have hbase : t = .loop 0 := hS.eq_base (hstack ▸ List.mem_cons_self) rfl
  cases hrun with
  | acceptFailed => exact absurd hcreated (Nat.succ_ne_self _).symm
  | acceptedThere hid ht => exact absurd (hbase.trans (congrArg Tid.loop hloop.symm)) ht
  | @acceptedHere fd hid ht =>
    obtain ⟨o₁, rfl, ⟨-, heq⟩ | ⟨ht', -⟩⟩ := s.objects.newConnection_cases cfg t fd
    swap
    · exact absurd ht ht'
    have hstack' := hU.stack
    have hwaiting' := hU.waiting
    rw [heq] at hcreated hseen ⊢
    dsimp only at hcreated hseen ⊢
    refine ⟨Nat.lt_succ_self _, ⟨_, List.mem_append_right _ (List.mem_singleton_self _)⟩, hseen,
      fun t' op hop hc => ?_, hwaiting', hU.inactive, ?_⟩
    · rcases mem_executed hstack hop with ⟨rfl, hnew⟩ | ⟨hold, -⟩
      · rcases List.mem_cons.mp hnew with rfl | hnew
        · exact ⟨hbase, rfl⟩
        · obtain rfl := List.mem_singleton.mp hnew
          cases hc
      · exact absurd hc (hstack' t' op hold)
    · refine .establishing (hbase ▸ mem_executed_self List.mem_cons_self) ?_ ?_
      · simp [executed, TcpConnection.new]
      · simp [executed, TcpConnection.new, Channel.new]

/-- The map keeps a connection while it is established. -/
lemma Early.inTable_executed (hE : Early s c) (hR : Registered cfg s)
    (hready : s.Ready cfg op i) (hrun : Op.Runs cfg s.objects t i op o ops)
    (hstarting : op.starting = true) : o.InTable c := by
  have htable := Objects.inTable_iff_of_runs hrun hR.objects (hR.lt_of_ready hready) hE.created
  refine htable.mpr ⟨hE.table, ?_⟩
  constructor <;> rintro rfl <;> cases hstarting

/-- Nothing of the connection is below the stage on the stack. -/
lemma Early.mem_ops (hE : Early s c) (hS : Shape cfg s) (hstack : s.stack (.loop 0) = op :: rest)
    {t' : Tid} {op' : Op} (hop : op' ∈ (s.executed (.loop 0) op o (ops ++ rest)).stack t')
    (hc : op'.conn? = some c) : t' = .loop 0 ∧ op' ∈ ops := by
  rcases mem_executed hstack hop with hnew | ⟨hold, hrest⟩
  · exact hnew
  · obtain ⟨ht, hstarting⟩ := hE.stack t' op' hold hc
    have hwaits := hS.top _ _ _ hstack op' (hrest ht)
    cases op' <;> first | (cases hwaits; done) | cases hstarting

/-- What waits for the connection was queued just now. -/
lemma Early.queues_of_waiting (hE : Early s c) (hR : Registered cfg s)
    (hrun : Op.Runs cfg s.objects t i op o ops) {l : LoopId} {f : Functor}
    (hf : f ∈ (s.executed t op o (ops ++ rest)).waiting l) (hc : f.conn? = some c) :
    op.Queues s.objects.created f :=
  (waiting_executed hR hrun hf).resolve_left fun hold => hE.waiting l f hold hc

/-- Until its callback is called, the application does not know the connection. -/
lemma Early.unseen_executed (hE : Early s c) (hR : Registered cfg s)
    (hstack : s.stack t = op :: rest)
    (hstep : Step cfg s (.exec t i) (s.executed t op o (ops ++ rest)))
    (hcall : op.callback = false) : (s.executed t op o (ops ++ rest)).Unseen c := by
  refine hE.unseen.step hR hstep fun t' i' op' rest' heq hstack' _ => ?_
  obtain ⟨rfl, rfl⟩ := Act.exec.inj heq
  obtain ⟨rfl, -⟩ := List.cons.inj (hstack.symm.trans hstack')
  exact hcall

/-- A new connection is established and announced, and then up. -/
lemma Early.exec (hE : Early s c) (hR : Registered cfg s) (hS : Shape cfg s)
    (hstack : s.stack t = op :: rest) (hready : s.Ready cfg op i)
    (hrun : Op.Runs cfg s.objects t i op o ops) (hop : op.conn? = some c)
    (hstep : Step cfg s (.exec t i) (s.executed t op o (ops ++ rest))) :
    Early (s.executed t op o (ops ++ rest)) c ∨ Up (s.executed t op o (ops ++ rest)) c := by
  obtain ⟨rfl, -⟩ := hE.stack t op (hstack ▸ List.mem_cons_self) hop
  have hcreated : c < o.created := Nat.lt_of_lt_of_le hE.created hrun.effect.created_le
  have hstate := hrun.stateChange hE.created
  have hchannel := hrun.channelChange hR.objects hE.created
  have htable := hE.inTable_executed hR hready hrun
  have hseen := hE.unseen_executed hR hstack hstep
  cases hE.progress with
  | establishing hstage hconnecting hindex =>
    obtain rfl : .connectEstablished c = op := hS.eq_head hstack hstage rfl
    refine .inl ⟨hcreated, htable rfl, hseen rfl, fun t' op' hop' hc => ?_,
      fun l f hf hc => (nomatch hE.queues_of_waiting hR hrun hf hc), hE.inactive, ?_⟩
    · obtain ⟨ht, hnew⟩ := hE.mem_ops hS hstack hop' hc
      cases hrun.follows hnew with
      | enableReading => exact ⟨ht, rfl⟩
    · have hkept : (o.conn c).channel = (s.objects.conn c).channel := by
        generalize (o.conn c).channel = ch at hchannel
        cases hchannel with
        | same h => rfl
      have hconnected : (o.conn c).state = .kConnected := by
        generalize (o.conn c).state = state at hstate
        cases hstate with
        | same h => exact absurd rfl h.1
        | connectEstablished => rfl
      cases hrun with
      | connectEstablished =>
        exact .enabling (mem_executed_self List.mem_cons_self) hconnected (hkept ▸ hindex)
  | enabling hstage hconnected hindex =>
    obtain rfl : .enableReading c = op := hS.eq_head hstack hstage rfl
    refine .inl ⟨hcreated, htable rfl, hseen rfl, fun t' op' hop' hc => ?_,
      fun l f hf hc => (nomatch hE.queues_of_waiting hR hrun hf hc), hE.inactive, ?_⟩
    · obtain ⟨ht, hnew⟩ := hE.mem_ops hS hstack hop' hc
      cases hrun.follows hnew with
      | up => exact ⟨ht, rfl⟩
      | upRelease => cases hc
    · have hkept : (o.conn c).state = .kConnected := by
        generalize (o.conn c).state = state at hstate
        cases hstate with
        | same h => exact hconnected
      have hadded : (o.conn c).channel.index = kAdded ∧ (o.conn c).channel.isReading = true := by
        generalize (o.conn c).channel = ch at hchannel
        cases hchannel with
        | same h => exact absurd rfl h.1
        | enableReading =>
          refine ⟨if_pos (.inl hindex), ?_⟩
          exact EventMask.has_or_kReadEvent _
      cases hrun with
      | enableReading h =>
        exact .announcing (mem_executed_self List.mem_cons_self) hkept hadded.1 hadded.2
  | announcing hstage hconnected hindex hreading =>
    obtain rfl : .connectionCallback c = op := hS.eq_head hstack hstage rfl
    have hnothing : ∀ t', ∀ op' ∈ (s.executed (.loop 0) (.connectionCallback c) o
        (ops ++ rest)).stack t', op'.conn? ≠ some c := by
      intro t' op' hop' hc
      obtain ⟨-, hnew⟩ := hE.mem_ops hS hstack hop' hc
      cases hrun.follows hnew with
      | userConnection => cases hc
    have hwaiting : ∀ l, ∀ f ∈ (s.executed (.loop 0) (.connectionCallback c) o
        (ops ++ rest)).waiting l, f.conn? ≠ some c := by
      intro l f hf hc
      cases hE.queues_of_waiting hR hrun hf hc
    cases hrun with
    | connectionCallback =>
      exact .inr ⟨hcreated, hE.table, .inl hconnected, hindex, hreading,
        fun t' op' hop' hc => absurd hc (hnothing t' op' hop'),
        fun l f hf hc => absurd hc (hwaiting l f hf),
        fun op' hop' hc => absurd hc (hnothing _ op' hop')⟩

end Exec

end Server

end HzhMuduo
