import HzhMuduo.Server.Frame

/-!
# Ownership

Where the pointers to a connection can be (`Owns`), and the two facts every lifetime argument
rests on: a connection that lost its last owner never gets one again, and connections that are
alive have different descriptors.  With them come the invariants of the objects in every run:
the map holds each connection under its own name, all connections belong to the base loop, and
what its poller has stored is right.
-/

namespace HzhMuduo

open MachineWord TcpConnection

namespace Server

variable {cfg : Config} {s s' : Server} {a : Act} {c : ConnId}

/-- Something holds a pointer to `c`. -/
inductive Owns (cfg : Config) (s : Server) (c : ConnId) : Prop
  | table {name} (h : (name, c) ∈ s.objects.connections)
  | pending {l f} (hl : l ≤ cfg.numThreads) (hf : f ∈ s.objects.pendingFunctors l)
      (hc : c ∈ f.owns)
  | batch {l f} (hl : l ≤ cfg.numThreads) (hf : f ∈ (s.phase l).batch) (hc : c ∈ f.owns)
  | stack {l op} (hl : l ≤ cfg.numThreads) (hop : op ∈ s.stack (.loop l)) (hc : c ∈ op.owns)
  | held {t} (h : (t, c) ∈ s.held)

/-- The reference count counts exactly these pointers. -/
theorem alive_iff : s.Alive cfg c ↔ Owns cfg s c := by
  rw [Alive, refCount, List.count_pos_iff, owners]
  simp only [List.mem_append, List.mem_map, List.mem_flatMap, List.mem_range]
  constructor
  · rintro ((⟨⟨name, c'⟩, hx, rfl⟩ | ⟨l, hl, (⟨f, hf, hc⟩ | ⟨f, hf, hc⟩) | ⟨op, hop, hc⟩⟩) |
      ⟨⟨t, c'⟩, hx, rfl⟩)
    · exact .table hx
    · exact .pending (by omega) hf hc
    · exact .batch (by omega) hf hc
    · exact .stack (by omega) hop hc
    · exact .held hx
  · intro h
    cases h with
    | table h => exact .inl (.inl ⟨_, h, rfl⟩)
    | pending hl hf hc => exact .inl (.inr ⟨_, by omega, .inl (.inl ⟨_, hf, hc⟩)⟩)
    | batch hl hf hc => exact .inl (.inr ⟨_, by omega, .inl (.inr ⟨_, hf, hc⟩)⟩)
    | stack hl hop hc => exact .inl (.inr ⟨_, by omega, .inr ⟨_, hop, hc⟩⟩)
    | held h => exact .inr ⟨_, h, rfl⟩

/-- An owner of a later state that is not new was there before. -/
lemma Owns.of_new (h : Owns cfg s' c)
    (htable : ∀ x ∈ s'.objects.connections, x ∈ s.objects.connections)
    (hpending : ∀ l, ∀ f ∈ s'.objects.pendingFunctors l, c ∈ f.owns →
      f ∈ s.objects.pendingFunctors l ∨ Owns cfg s c)
    (hbatch : ∀ l ≤ cfg.numThreads, ∀ f ∈ (s'.phase l).batch, c ∈ f.owns →
      f ∈ (s.phase l).batch ∨ Owns cfg s c)
    (hstack : ∀ l, ∀ op ∈ s'.stack (.loop l), c ∈ op.owns →
      op ∈ s.stack (.loop l) ∨ Owns cfg s c)
    (hheld : ∀ t, (t, c) ∈ s'.held → (t, c) ∈ s.held ∨ Owns cfg s c) : Owns cfg s c := by
  cases h with
  | table h => exact .table (htable _ h)
  | pending hl hf hc => exact (hpending _ _ hf hc).elim (fun hf => .pending hl hf hc) id
  | batch hl hf hc => exact (hbatch _ hl _ hf hc).elim (fun hf => .batch hl hf hc) id
  | stack hl hop hc => exact (hstack _ _ hop hc).elim (fun hop => .stack hl hop hc) id
  | held h => exact (hheld _ h).elim .held id

/-- A loop that goes on without a batch. -/
lemma Owns.of_setPhase {l : LoopId} {p : Phase} (h : Owns cfg (s.setPhase l p) c)
    (hp : p.batch = []) : Owns cfg s c := by
  refine h.of_new (fun _ hx => hx) (fun _ _ hf _ => .inl hf) (fun l' _ f hf _ => ?_)
    (fun _ _ hop _ => .inl hop) fun _ hheld => .inl hheld
  rcases mem_batch_setPhase hf with ⟨-, hf⟩ | hf
  · rw [hp] at hf
    cases hf
  · exact .inl hf

/-- A stack with other operations on it. -/
lemma Owns.of_setStack {t : Tid} {ops : List Op} (h : Owns cfg (s.setStack t ops) c)
    (hops : ∀ op ∈ ops, c ∈ op.owns → op ∈ s.stack t) : Owns cfg s c := by
  refine h.of_new (fun _ hx => hx) (fun _ _ hf _ => .inl hf) (fun _ _ _ hf _ => .inl hf)
    (fun l op hop hc => ?_) fun _ hheld => .inl hheld
  rcases mem_setStack hop with ⟨rfl, hnew⟩ | hold
  · exact .inl (hops op hnew hc)
  · exact .inl hold

/-- An operation leaves no owner behind that was not there, but for the connection it creates. -/
lemma Owns.of_executed {t : Tid} {i : Input} {op : Op} {rest ops : List Op} {o : Objects}
    (hloop : ∀ c, (s.objects.conn c).loop = 0) (hstack : s.stack t = op :: rest)
    (hready : s.Ready cfg op i) (hrun : Op.Runs cfg s.objects t i op o ops)
    (h : Owns cfg (s.executed t op o (ops ++ rest)) c) :
    Owns cfg s c ∨ op.Creates s.objects o c := by
  have heffect := hrun.effect
  have halive : op.conn? = some c → Owns cfg s c := fun hc => alive_iff.mp (hready.1 c hc)
  cases h with
  | table h =>
    rcases heffect.mem_connections h with h | ⟨hnew, heq⟩
    · exact .inl (.table h)
    · obtain ⟨-, rfl⟩ := Prod.mk.inj heq
      exact .inr hnew
  | pending hl hf hc =>
    rcases heffect.mem_pending hloop hf with hf | ⟨hqueues, hwhere⟩
    · exact .inl (.pending hl hf hc)
    · rcases hqueues.owns hc with hop | ⟨hop, rfl⟩
      · exact .inl (halive hop)
      · rcases hwhere with ⟨-, hne⟩ | ⟨hnew, -⟩
        · exact absurd hop hne
        · exact .inr hnew
  | batch hl hf hc => exact .inl (.batch hl hf hc)
  | @stack l op' hl hop' hc =>
    by_cases ht : Tid.loop l = t
    · subst ht
      simp only [executed, setStack, Function.update_self] at hop'
      rcases List.mem_append.mp hop' with hop' | hop'
      · exact ((hrun.follows hop').owns hc).imp_left halive
      · exact .inl (.stack hl (hstack ▸ List.mem_cons_of_mem _ hop') hc)
    · simp only [executed, setStack, Function.update_of_ne ht] at hop'
      exact .inl (.stack hl hop' hc)
  | held h => exact .inl (.held h)

/-- The handlers of an event hold no pointer but the guard. -/
lemma Owns.of_mem_handleEvent {x : ChannelId × EventMask} {op : Op}
    (halive : s.ChannelAlive cfg x.1) (hop : op ∈ handleEvent x) (hc : c ∈ op.owns) :
    Owns cfg s c := by
  rcases mem_handleEvent hop with ⟨-, rfl⟩ | ⟨c', hx, (rfl | rfl | rfl | rfl) | rfl⟩
  · cases hc
  · cases hc
  · cases hc
  · cases hc
  · cases hc
  · obtain rfl := List.mem_singleton.mp hc
    rw [hx] at halive
    exact alive_iff.mp halive

/-- Every step adds at most the owners of a connection it creates: a connection that is dead
stays dead. -/
theorem Owns.of_step (hloop : ∀ c, (s.objects.conn c).loop = 0) (hstep : Step cfg s a s')
    (h : Owns cfg s' c) :
    Owns cfg s c ∨ c = s.objects.created ∧ s'.objects.created = s.objects.created + 1 := by
  cases hstep with
  | enter hl hphase => exact .inl (h.of_setPhase rfl)
  | leave hphase => exact .inl (h.of_setPhase rfl)
  | poll hphase hnodup hactive => exact .inl (h.of_setPhase rfl)
  | release hphase => exact .inl (h.of_setPhase rfl)
  | dispatch hphase halive =>
    refine .inl (h.of_new (fun _ hx => hx) (fun _ _ hf _ => .inl hf) (fun l _ f hf _ => ?_)
      (fun l op hop hc => ?_) fun _ hheld => .inl hheld)
    · rcases mem_batch_setPhase hf with ⟨-, hf⟩ | hf
      · cases hf
      · exact .inl hf
    · rcases mem_setStack hop with ⟨-, hnew⟩ | hold
      · exact .inr (.of_mem_handleEvent halive hnew hc)
      · exact .inl hold
  | @swap l hphase =>
    refine .inl (h.of_new (fun _ hx => hx) (fun l' f hf _ => ?_) (fun l' hl f hf hc => ?_)
      (fun _ _ hop _ => .inl hop) fun _ hheld => .inl hheld)
    · exact .inl (Objects.mem_clearPending hf).1
    · rcases mem_batch_setPhase hf with ⟨rfl, hnew⟩ | hold
      · exact .inr (.pending hl hnew hc)
      · exact .inl hold
  | @next l ran f rest hphase =>
    refine .inl (h.of_new (fun _ hx => hx) (fun _ _ hf _ => .inl hf) (fun l' _ g hg _ => ?_)
      (fun l' op hop hc => ?_) fun _ hheld => .inl hheld)
    · rcases mem_batch_setPhase hg with ⟨rfl, hnew⟩ | hold
      · rw [hphase.1]
        simp only [Phase.batch, List.append_assoc, List.singleton_append] at hnew
        exact .inl hnew
      · exact .inl hold
    · rcases mem_setStack hop with ⟨-, hnew⟩ | hold
      · obtain rfl := List.mem_singleton.mp hnew
        cases f <;> cases hc
      · exact .inl hold
  | exec hstack hready hrun =>
    exact (Owns.of_executed hloop hstack hready hrun h).imp_right fun hnew => ⟨hnew.conn, hnew.created⟩
  | send hframe hsees =>
    refine .inl (h.of_setStack fun op hop hc => ?_)
    rcases List.mem_cons.mp hop with rfl | hop
    · cases hc
    · exact hop
  | shutdown hframe hsees =>
    refine .inl (h.of_setStack fun op hop hc => ?_)
    rcases List.mem_cons.mp hop with rfl | hop
    · cases hc
    · exact hop
  | copy hframe hsees halive =>
    refine .inl (h.of_new (fun _ hx => hx) (fun _ _ hf _ => .inl hf) (fun _ _ _ hf _ => .inl hf)
      (fun _ _ hop _ => .inl hop) fun t ht => ?_)
    rcases List.mem_cons.mp ht with heq | ht
    · obtain ⟨-, rfl⟩ := Prod.mk.inj heq
      exact .inr (alive_iff.mp halive)
    · exact .inl ht
  | drop hframe hheld =>
    exact .inl (h.of_new (fun _ hx => hx) (fun _ _ hf _ => .inl hf) (fun _ _ _ hf _ => .inl hf)
      (fun _ _ hop _ => .inl hop) fun t ht => .inl (List.mem_of_mem_erase ht))
  | @queueInLoop t l cs' cs buffer hframe hl hsees =>
    refine .inl (h.of_new (fun _ hx => hx) (fun l' f hf hc => ?_) (fun _ _ _ hf _ => .inl hf)
      (fun _ _ hop _ => .inl hop) fun _ hheld => .inl hheld)
    rcases Objects.mem_queueInLoop hf with hf | ⟨rfl, -⟩
    · exact .inl hf
    · exact .inr (alive_iff.mp (hsees c hc).2)
  | setHighWaterMark hframe hsees halive =>
    exact .inl (h.of_new (fun _ hx => hx) (fun _ _ hf _ => .inl hf) (fun _ _ _ hf _ => .inl hf)
      (fun _ _ hop _ => .inl hop) fun _ hheld => .inl hheld)
  | retrieve hframe halive =>
    exact .inl (h.of_new (fun _ hx => hx) (fun _ _ hf _ => .inl hf) (fun _ _ _ hf _ => .inl hf)
      (fun _ _ hop _ => .inl hop) fun _ hheld => .inl hheld)
  | ret hstack =>
    exact .inl (h.of_setStack fun op hop _ => hstack ▸ List.mem_cons_of_mem _ hop)
  | destroyServer halive hphase horder =>
    refine .inl (h.of_new (fun _ hx => hx) (fun _ _ hf _ => .inl hf) (fun _ _ _ hf _ => .inl hf)
      (fun l op hop hc => ?_) fun _ hheld => .inl hheld)
    rcases mem_setStack hop with ⟨-, hnew⟩ | hold
    · obtain ⟨c', -, rfl⟩ | rfl := mem_destroyServer hnew
      · cases hc
      · cases hc
    · exact .inl hold

end Server

/-! ## The objects in every run -/

namespace Objects

variable {cfg : Config} {o o' : Objects} {c : ConnId}

/-- The channels of the base loop. -/
def chan (o : Objects) : ChannelId → Channel
  | .acceptor => o.acceptChannel
  | .conn c => (o.conn c).channel

/-- Storing a connection stores its channel. -/
lemma chan_update {x : TcpConnection} (h : o'.conn = Function.update o.conn c x)
    (hacceptor : o'.acceptChannel = o.acceptChannel) :
    o'.chan = Function.update o.chan (.conn c) x.channel := by
  funext k
  cases k with
  | acceptor =>
    have hne : ChannelId.acceptor ≠ .conn c := nofun
    rw [Function.update_of_ne hne]
    exact hacceptor
  | conn c' =>
    by_cases hc : c' = c
    · subst hc
      simp [chan, h]
    · have hne : ChannelId.conn c' ≠ .conn c := fun heq => hc (ChannelId.conn.inj heq)
      rw [Function.update_of_ne hne]
      simp [chan, h, Function.update_of_ne hc]

/-- What holds of the objects in every run. -/
structure WellFormed (cfg : Config) (o : Objects) : Prop where
  loop : ∀ c, (o.conn c).loop = 0
  nextConnId : o.nextConnId.toInt = o.created + 1
  fresh : ∀ c, o.created ≤ c → o.conn c = .new 0 [] cfg.listenFd cfg.writeCompleteCallback
  name : ∀ c < o.created,
    (o.conn c).name = connName cfg.name cfg.listenAddr.toIpPort ((c + 1 : ℕ) : ℤ)
  table : ∀ x ∈ o.connections, x.2 < o.created ∧ x.1 = (o.conn x.2).name
  acceptFd : o.acceptChannel.fd = cfg.listenFd
  sound : (o.poller 0).Sound o.chan
  subPoller : ∀ l ≠ 0, o.poller l = .new

namespace WellFormed

/-- The queues do not matter. -/
lemma queueInLoop (h : o.WellFormed cfg) (l : LoopId) (f : Functor) :
    (o.queueInLoop l f).WellFormed cfg :=
  ⟨h.loop, h.nextConnId, h.fresh, h.name, h.table, h.acceptFd, h.sound, h.subPoller⟩

/-- The map may lose entries. -/
lemma filter (h : o.WellFormed cfg) (p : List Char × ConnId → Bool) :
    { o with connections := o.connections.filter p }.WellFormed cfg :=
  ⟨h.loop, h.nextConnId, h.fresh, h.name, fun x hx => h.table x (List.mem_filter.mp hx).1,
    h.acceptFd, h.sound, h.subPoller⟩

/-- The number of connections is within `int`. -/
lemma created_lt (h : o.WellFormed cfg) : o.created < 2 ^ 31 := by
  have hlt := BitVec.toInt_lt (x := o.nextConnId)
  have hid := h.nextConnId
  omega

/-- Connections have different names. -/
lemma name_inj (h : o.WellFormed cfg) {c' : ConnId} (hc : c < o.created) (hc' : c' < o.created)
    (hname : (o.conn c).name = (o.conn c').name) : c = c' := by
  have hlt : ∀ c₁ < o.created, c₁ + 1 < 2 ^ 31 := fun c₁ hc₁ =>
    Nat.lt_of_le_of_lt (Nat.succ_le_of_lt hc₁) h.created_lt
  rw [h.name c hc, h.name c' hc'] at hname
  exact Nat.succ.inj (connName_inj (hlt c hc) (hlt c' hc') hname)

/-- A call on one connection. -/
lemma update (h : o.WellFormed cfg) (hc : c < o.created) {x : TcpConnection}
    {p : EPOLLPoller ChannelId} (hloop : x.loop = (o.conn c).loop)
    (hname : x.name = (o.conn c).name)
    (hstep : (o.poller 0).ChannelStep (.conn c) (o.conn c).channel p x.channel) :
    { o with
      conn := Function.update o.conn c x
      poller := Function.update o.poller 0 p }.WellFormed cfg := by
  have hkept : ∀ c', (Function.update o.conn c x c').loop = (o.conn c').loop ∧
      (Function.update o.conn c x c').name = (o.conn c').name := by
    intro c'
    by_cases hcc : c' = c
    · subst hcc
      simp [hloop, hname]
    · simp [Function.update_of_ne hcc]
  refine ⟨fun c' => ?_, h.nextConnId, fun c' hc' => ?_, fun c' hc' => ?_, fun y hy => ?_,
    h.acceptFd, ?_, fun l hl => ?_⟩
  · rw [(hkept c').1]
    exact h.loop c'
  · have hcc : c' ≠ c := (Nat.lt_of_lt_of_le hc hc').ne'
    simp only [Function.update_of_ne hcc]
    exact h.fresh c' hc'
  · rw [(hkept c').2]
    exact h.name c' hc'
  · rw [(hkept y.2).2]
    exact h.table y hy
  · have hchan : chan { o with
        conn := Function.update o.conn c x
        poller := Function.update o.poller 0 p } = Function.update o.chan (.conn c) x.channel :=
      chan_update rfl rfl
    rw [hchan]
    simp only [Function.update_self]
    exact h.sound.channelStep hstep
  · simp only [Function.update_of_ne hl]
    exact h.subPoller l hl

/-- The object of a new connection, and its entry. -/
lemma create (h : o.WellFormed cfg) (hid : ¬ nextConnIdOverflows o) (fd : Fd) (next : ℕ) :
    { o.insert (o.nextName cfg) o.created with
      next := next
      nextConnId := o.nextConnId + 1
      created := o.created + 1
      conn := Function.update o.conn o.created
        (.new 0 (o.nextName cfg) fd cfg.writeCompleteCallback) }.WellFormed cfg := by
  refine ⟨fun c' => ?_, ?_, fun c' hc' => ?_, fun c' hc' => ?_, fun x hx => ?_, h.acceptFd, ?_,
    h.subPoller⟩
  · by_cases hc : c' = o.created
    · subst hc
      simp [TcpConnection.new]
    · simp only [Function.update_of_ne hc]
      exact h.loop c'
  · have hlt := BitVec.toInt_lt (x := o.nextConnId)
    have hle := BitVec.le_toInt (x := o.nextConnId)
    have hone : (1 : BitVec 32).toInt = 1 := by decide
    have hadd : (o.nextConnId + 1).toInt = o.nextConnId.toInt + 1 := by
      unfold nextConnIdOverflows at hid
      rw [BitVec.toInt_add, hone]
      apply Int.bmod_eq_of_le <;> omega
    calc (o.nextConnId + 1).toInt = o.nextConnId.toInt + 1 := hadd
      _ = ((o.created + 1 : ℕ) : ℤ) + 1 := by rw [h.nextConnId]; rfl
  · have hc : c' ≠ o.created := (Nat.lt_of_succ_le hc').ne'
    simp only [Function.update_of_ne hc]
    exact h.fresh c' (Nat.le_of_succ_le hc')
  · by_cases hc : c' = o.created
    · subst hc
      have hold := h.nextConnId
      simp [TcpConnection.new, nextName, hold]
    · simp only [Function.update_of_ne hc]
      exact h.name c' (Nat.lt_of_le_of_ne (Nat.le_of_lt_succ hc') hc)
  · rcases List.mem_append.mp hx with hx | hx
    · obtain ⟨hlt, hname⟩ := h.table x (List.mem_filter.mp hx).1
      simp only [Function.update_of_ne hlt.ne]
      exact ⟨Nat.lt_succ_of_lt hlt, hname⟩
    · obtain rfl := List.mem_singleton.mp hx
      exact ⟨Nat.lt_succ_self _, by simp [TcpConnection.new]⟩
  · have hchan : chan { o.insert (o.nextName cfg) o.created with
        next := next
        nextConnId := o.nextConnId + 1
        created := o.created + 1
        conn := Function.update o.conn o.created
          (.new 0 (o.nextName cfg) fd cfg.writeCompleteCallback) } =
        Function.update o.chan (.conn o.created) (.new fd) :=
      chan_update (x := .new 0 (o.nextName cfg) fd cfg.writeCompleteCallback) rfl rfl
    rw [hchan]
    refine h.sound.replace ?_ rfl
    rw [chan, h.fresh o.created le_rfl]
    rfl

/-- Every operation on existing connections keeps the objects well formed. -/
theorem effect (h : o.WellFormed cfg) {t : Tid} {i : Input} {op : Op}
    (hc : ∀ c, op.conn? = some c → c < o.created) (heffect : Op.Effect cfg o t i op o') :
    o'.WellFormed cfg := by
  cases heffect with
  | none => exact h
  | @act c v hop hacts hqueued =>
    have hstep := hacts.channel
    have hview : (o.view c).poller = o.poller 0 := congrArg o.poller (h.loop c)
    rw [hview] at hstep
    have hupdate := h.update (hc c hop) hacts.loop hacts.name hstep
    have hloop := h.loop c
    refine ⟨hupdate.loop, hupdate.nextConnId, hupdate.fresh, hupdate.name, hupdate.table,
      hupdate.acceptFd, ?_, fun l hl => ?_⟩
    · have hsound := hupdate.sound
      simp only [setView, hloop]
      exact hsound
    · simp only [setView, hloop]
      exact hupdate.subPoller l hl
  | queue hop hl hf => exact h.queueInLoop _ _
  | erase hop => exact (h.filter _).queueInLoop _ _
  | forget hop => exact h.filter _
  | forgetThere hop => exact (h.filter _).queueInLoop _ _
  | @accept fd hop hi hid =>
    obtain ⟨o₁, rfl, ⟨-, heq⟩ | ⟨-, heq⟩⟩ := o.newConnection_cases cfg t fd
    · rw [heq]
      exact h.create hid fd _
    · rw [heq]
      exact (h.create hid fd _).queueInLoop _ _
  | @removeAcceptor p p' ch ch' hop hdisable hremove =>
    have hdisabled : p.Sound (Function.update o.chan .acceptor ch) := by
      refine h.sound.updateChannel ?_ ?_ hdisable <;> rfl
    have hself : Function.update o.chan .acceptor ch .acceptor = ch := Function.update_self ..
    have hremoved := hdisabled.removeChannel (hself.symm ▸ hremove)
    rw [Function.update_idem] at hremoved
    have hfd : ch'.fd = o.acceptChannel.fd := by
      have hkept := EPOLLPoller.updateChannel_channel hdisable
      rw [(EPOLLPoller.removeChannel_eq hremove).1, hkept]
    refine ⟨h.loop, h.nextConnId, h.fresh, h.name, h.table, hfd.trans h.acceptFd, ?_, fun l hl => ?_⟩
    · have hchan : chan { o with poller := Function.update o.poller 0 p', acceptChannel := ch' } =
          Function.update o.chan .acceptor ch' := by
        funext k
        cases k with
        | acceptor => simp [chan]
        | conn c => simp [chan]
      rw [hchan]
      simpa using hremoved
    · simp only [Function.update_of_ne hl]
      exact h.subPoller l hl

end WellFormed

end Objects

namespace Server

variable {cfg : Config} {s s' : Server} {a : Act} {c : ConnId}

/-- What every step keeps of a connection that exists. -/
lemma Step.kept (hstep : Step cfg s a s') (hc : c < s.objects.created) :
    c < s'.objects.created ∧ (s'.objects.conn c).name = (s.objects.conn c).name ∧
      (s'.objects.conn c).channel.fd = (s.objects.conn c).channel.fd := by
  have hsetConn : ∀ (c' : ConnId) (x : TcpConnection), x.name = (s.objects.conn c').name →
      x.channel.fd = (s.objects.conn c').channel.fd →
      (Function.update s.objects.conn c' x c).name = (s.objects.conn c).name ∧
      (Function.update s.objects.conn c' x c).channel.fd = (s.objects.conn c).channel.fd := by
    intro c' x hname hfd
    by_cases hcc : c = c'
    · subst hcc
      simp [hname, hfd]
    · simp [Function.update_of_ne hcc]
  cases hstep with
  | exec hstack hready hrun =>
    have heffect := hrun.effect
    exact ⟨Nat.lt_of_lt_of_le hc heffect.created_le, (heffect.conn_kept hc).2⟩
  | setHighWaterMark hframe hsees halive => exact ⟨hc, hsetConn _ _ rfl rfl⟩
  | retrieve hframe halive => exact ⟨hc, hsetConn _ _ rfl rfl⟩
  | _ => exact ⟨hc, rfl, rfl⟩

/-- The invariant of all runs: the objects are well formed, what is owned exists, and the
descriptors of connections that are alive are different. -/
structure Registered (cfg : Config) (s : Server) : Prop where
  objects : s.objects.WellFormed cfg
  created : ∀ c, Owns cfg s c → c < s.objects.created
  listen : ∀ c, Owns cfg s c → (s.objects.conn c).channel.fd ≠ cfg.listenFd
  fds : ∀ c c', Owns cfg s c → Owns cfg s c' → c ≠ c' →
    (s.objects.conn c).channel.fd ≠ (s.objects.conn c').channel.fd

/-- An operation is executed on a connection that was created. -/
lemma Registered.lt_of_ready {op : Op} {i : Input} (h : Registered cfg s)
    (hready : s.Ready cfg op i) (c : ConnId) (hc : op.conn? = some c) : c < s.objects.created :=
  h.created c (alive_iff.mp (hready.1 c hc))

/-- A channel that the poller does not know is not reported. -/
lemma Registered.not_mem_active (h : Registered cfg s)
    (hindex : (s.objects.conn c).channel.index = kNew) {ready : List (Fd × EventMask)}
    {active : List (ChannelId × EventMask)}
    (hactive : (s.objects.poller 0).fillActiveChannels ready = some active) (m : EventMask) :
    (.conn c, m) ∉ active := by
  intro hm
  obtain ⟨fd, -, events, hentry⟩ := EPOLLPoller.mem_fillActiveChannels hactive hm
  have hadded : (s.objects.conn c).channel.index = kAdded :=
    (h.objects.sound.epoll _ _ _ hentry).2
  exact absurd (hindex.symm.trans hadded) (by decide)

/-- The new connection has a descriptor that no connection alive has. -/
lemma Registered.fresh_fd {t : Tid} {i : Input} {op : Op} {o : Objects} {ops : List Op}
    (h : Registered cfg s) (hready : s.Ready cfg op i) (hrun : Op.Runs cfg s.objects t i op o ops)
    (hcreated : o.created = s.objects.created + 1) :
    (o.conn s.objects.created).channel.fd ≠ cfg.listenFd ∧ ∀ c, Owns cfg s c →
      (s.objects.conn c).channel.fd ≠ (o.conn s.objects.created).channel.fd := by
  cases hrun.effect with
  | @accept fd hop hi hid =>
    subst hop hi
    obtain ⟨hlisten, hfree⟩ := hready.2 fd rfl
    have hfd : ((s.objects.newConnection cfg t fd).1.conn s.objects.created).channel.fd = fd := by
      obtain ⟨o₁, rfl, ⟨-, heq⟩ | ⟨-, heq⟩⟩ := s.objects.newConnection_cases cfg t fd
      · rw [heq]
        simp [TcpConnection.new, Channel.new]
      · rw [heq]
        simp [TcpConnection.new, Channel.new, Objects.queueInLoop]
    rw [hfd]
    exact ⟨hlisten, fun c hc => hfree c (h.created c hc) (alive_iff.mpr hc)⟩
  | _ => simp [Objects.setView, Objects.queueInLoop, Objects.erase, Objects.forget] at hcreated

/-- Every step keeps the objects well formed. -/
lemma Registered.objects_step (h : Registered cfg s) (hstep : Step cfg s a s') :
    s'.objects.WellFormed cfg := by
  have hsetConn : ∀ (c' : ConnId) (x : TcpConnection), s.Alive cfg c' →
      x.loop = (s.objects.conn c').loop → x.name = (s.objects.conn c').name →
      x.channel = (s.objects.conn c').channel → (s.setConn c' x).objects.WellFormed cfg := by
    intro c' x halive hloop hname hchannel
    have hsame : (s.objects.poller 0).ChannelStep (.conn c') (s.objects.conn c').channel
        (s.objects.poller 0) x.channel := by
      rw [hchannel]
      exact .same
    have hupdate := h.objects.update (h.created c' (alive_iff.mp halive)) hloop hname hsame
    simpa [setConn] using hupdate
  cases hstep with
  | exec hstack hready hrun =>
    refine h.objects.effect (fun c hc => ?_) hrun.effect
    exact h.lt_of_ready hready c hc
  | swap hphase =>
    exact ⟨h.objects.loop, h.objects.nextConnId, h.objects.fresh, h.objects.name, h.objects.table,
      h.objects.acceptFd, h.objects.sound, h.objects.subPoller⟩
  | queueInLoop hframe hl hsees => exact h.objects.queueInLoop _ _
  | setHighWaterMark hframe hsees halive => exact hsetConn _ _ halive rfl rfl rfl
  | retrieve hframe halive => exact hsetConn _ _ halive rfl rfl rfl
  | destroyServer halive hphase horder =>
    exact ⟨h.objects.loop, h.objects.nextConnId, h.objects.fresh, h.objects.name, h.objects.table,
      h.objects.acceptFd, h.objects.sound, h.objects.subPoller⟩
  | _ => exact h.objects

/-- Every step keeps the invariant. -/
lemma Registered.step (h : Registered cfg s) (hstep : Step cfg s a s') : Registered cfg s' := by
  have hnew : s'.objects.created = s.objects.created + 1 →
      (s'.objects.conn s.objects.created).channel.fd ≠ cfg.listenFd ∧ ∀ c, Owns cfg s c →
        (s.objects.conn c).channel.fd ≠ (s'.objects.conn s.objects.created).channel.fd := by
    intro hcreated
    cases hstep with
    | exec hstack hready hrun => exact h.fresh_fd hready hrun hcreated
    | _ => exact absurd hcreated (Nat.succ_ne_self _).symm
  have hfd : ∀ c, Owns cfg s c →
      (s'.objects.conn c).channel.fd = (s.objects.conn c).channel.fd := fun c hc =>
    (hstep.kept (h.created c hc)).2.2
  refine ⟨h.objects_step hstep, fun c hc => ?_, fun c hc => ?_, fun c c' hc hc' hne => ?_⟩
  · rcases hc.of_step h.objects.loop hstep with hc | ⟨rfl, hcreated⟩
    · exact (hstep.kept (h.created c hc)).1
    · rw [hcreated]
      exact Nat.lt_succ_self _
  · rcases hc.of_step h.objects.loop hstep with hc | ⟨rfl, hcreated⟩
    · rw [hfd c hc]
      exact h.listen c hc
    · exact (hnew hcreated).1
  · rcases hc.of_step h.objects.loop hstep with hc | ⟨rfl, hcreated⟩
    · rcases hc'.of_step h.objects.loop hstep with hc' | ⟨rfl, hcreated⟩
      · rw [hfd c hc, hfd c' hc']
        exact h.fds c c' hc hc' hne
      · rw [hfd c hc]
        exact (hnew hcreated).2 c hc
    · rcases hc'.of_step h.objects.loop hstep with hc' | ⟨rfl, hcreated'⟩
      · rw [hfd c' hc']
        exact ((hnew hcreated).2 c' hc').symm
      · exact absurd rfl hne

/-- At the start the poller of the base loop knows the acceptor's channel and no other. -/
lemma agree_new (cfg : Config) : ((new cfg).objects.poller 0).Agree (new cfg).objects.chan := by
  have hnew : ∀ c, ((new cfg).objects.chan (.conn c)).index = kNew := fun _ => rfl
  have hadded : ((new cfg).objects.chan .acceptor).index = kAdded := rfl
  have hne : kAdded ≠ kNew := by decide
  refine ⟨fun k => ?_, fun fd k => ?_, fun fd m k => ?_⟩
  · cases k with
    | acceptor => exact .inr (.inl hadded)
    | conn c => exact .inl (hnew c)
  · constructor
    · intro h
      obtain ⟨rfl, hk⟩ := Option.ite_none_right_eq_some.mp h
      obtain rfl := Option.some.inj hk
      exact ⟨rfl, hadded ▸ hne⟩
    · rintro ⟨hfd, hindex⟩
      cases k with
      | acceptor => exact if_pos hfd.symm
      | conn c => exact absurd (hnew c) hindex
  · constructor
    · intro h
      obtain ⟨rfl, hk⟩ := Option.ite_none_right_eq_some.mp h
      obtain ⟨rfl, rfl⟩ := Prod.mk.inj (Option.some.inj hk)
      exact ⟨rfl, hadded, rfl⟩
    · rintro ⟨hfd, hindex, hevents⟩
      cases k with
      | acceptor =>
        subst hevents
        exact if_pos hfd.symm
      | conn c => exact absurd (hindex.symm.trans (hnew c)) hne

/-- Nothing is owned at the start. -/
lemma not_owns_new (cfg : Config) (c : ConnId) : ¬ Owns cfg (new cfg) c := by
  intro h
  cases h with
  | table h => cases h
  | pending hl hf hc => cases hf
  | batch hl hf hc => cases hf
  | stack hl hop hc => cases hop
  | held h => cases h

/-- The new server. -/
lemma registered_new (cfg : Config) : Registered cfg (new cfg) := by
  refine ⟨⟨fun _ => rfl, rfl, fun _ _ => rfl, fun c hc => absurd hc (Nat.not_lt_zero c),
    fun x hx => absurd hx List.not_mem_nil, rfl, (agree_new cfg).sound, fun l hl => if_neg hl⟩,
    fun c hc => absurd hc (not_owns_new cfg c), fun c hc => absurd hc (not_owns_new cfg c),
    fun c _ hc => absurd hc (not_owns_new cfg c)⟩

/-- The invariant holds in every run. -/
theorem registered_of_reach (h : (system cfg).Reach s) : Registered cfg s := by
  refine h.invariant ?_ fun s a s' hI hs => hI.step (step_cases hs)
  rintro s rfl
  exact registered_new cfg

end Server

end HzhMuduo
