import HzhMuduo.Server.Steps

/-!
# What an operation leaves alone

The branches of the operations fall into a few kinds (`Op.Effect`): most act on the view of one
connection, some queue a functor, some touch the map of connections.  From the kinds follow the
frame lemmas: the connections an operation is not about keep everything, and of the connection
it is about the loop, the name and the descriptor stay.
-/

namespace HzhMuduo

open MachineWord TcpConnection

/-- The connection a functor works on. -/
def Functor.conn? : Functor → Option ConnId
  | .connectEstablished c | .connectDestroyed c | .removeConnectionInLoop c | .sendInLoop c _
  | .shutdownInLoop c | .writeCompleteCallback c | .highWaterMarkCallback c _ => some c
  | .user _ => none

namespace TcpConnection.View

/-- What any member function of `c` can make of a view. -/
structure Acts (c : ConnId) (r r' : View) : Prop where
  loop : r'.conn.loop = r.conn.loop
  name : r'.conn.name = r.conn.name
  channel : r.poller.ChannelStep (.conn c) r.conn.channel r'.poller r'.conn.channel
  queued : ∀ f ∈ r'.queued, f ∈ r.queued ∨ f.Notifies c

variable {c : ConnId} {r r' : View}

/-- A member function that touches neither the channel nor the queue. -/
lemma Acts.of_eq (hloop : r'.conn.loop = r.conn.loop) (hname : r'.conn.name = r.conn.name)
    (hchannel : r'.conn.channel = r.conn.channel) (hpoller : r'.poller = r.poller)
    (hqueued : r'.queued = r.queued) : Acts c r r' := by
  refine ⟨hloop, hname, ?_, fun f hf => .inl (hqueued ▸ hf)⟩
  rw [hchannel, hpoller]
  exact .same

lemma Acts.tieAndEnableReading (h : r.tieAndEnableReading c = .ok r') : Acts c r r' := by
  obtain ⟨p, ch, hup, rfl⟩ := tieAndEnableReading_cases h
  exact ⟨rfl, rfl, .update hup, fun f hf => .inl hf⟩

lemma Acts.closeChannel (h : r.closeChannel c = .ok r') : Acts c r r' := by
  obtain ⟨p, ch, hup, rfl⟩ := closeChannel_cases h
  exact ⟨rfl, rfl, .update hup, fun f hf => .inl hf⟩

lemma Acts.channelRemove (h : r.channelRemove c = .ok r') : Acts c r r' := by
  obtain ⟨p, ch, hremove, rfl⟩ := channelRemove_cases h
  exact ⟨rfl, rfl, .remove hremove, fun f hf => .inl hf⟩

lemma Acts.readInput {bytes : List UInt8} (h : r.readInput bytes = .ok r') : Acts c r r' := by
  obtain ⟨b, rfl⟩ := readInput_cases h
  exact .of_eq rfl rfl rfl rfl rfl

lemma Acts.sendBody {data : Memory} {len : ℤ} {w : WriteResult}
    (h : r.sendBody c data len w = .ok r') : Acts c r r' := by
  obtain ⟨fs, socket, b, p, ch, hfs, hch, rfl⟩ := sendBody_effect h
  refine ⟨rfl, rfl, ?_, fun f hf => (List.mem_append.mp hf).imp_right (hfs f)⟩
  rcases hch with ⟨rfl, rfl⟩ | hup
  · exact .same
  · exact .update hup

lemma Acts.writeOutput {w : WriteResult} {drained : Bool}
    (h : r.writeOutput c w = .ok (r', drained)) : Acts c r r' := by
  obtain ⟨fs, socket, b, p, ch, hfs, hch, rfl⟩ := writeOutput_effect h
  refine ⟨rfl, rfl, ?_, fun f hf => (List.mem_append.mp hf).imp_right (hfs f)⟩
  rcases hch with ⟨-, rfl, rfl⟩ | ⟨-, hup⟩
  · exact .same
  · exact .update hup

/-- `shutdownInLoop` only shuts the socket down. -/
lemma shutdownInLoop_cases (r : View) :
    ∃ socket, r.shutdownInLoop = { r with conn := { r.conn with socket := socket } } := by
  unfold View.shutdownInLoop
  split
  · exact ⟨_, rfl⟩
  · exact ⟨r.conn.socket, rfl⟩

/-- The end of `handleWrite` only shuts the socket down. -/
lemma afterDrain_cases (r : View) :
    ∃ socket, r.afterDrain = { r with conn := { r.conn with socket := socket } } := by
  unfold View.afterDrain
  split
  · exact r.shutdownInLoop_cases
  · exact ⟨r.conn.socket, rfl⟩

end TcpConnection.View

/-- The functors an operation can queue, when `created` connections exist. -/
def Op.Queues (created : ℕ) (f : Functor) : Op → Prop
  | .accept => f = .connectEstablished created
  | .removeConnectionInLoop c | .destroyItem c => f = .connectDestroyed c
  | .closeCallback c => f = .removeConnectionInLoop c
  | .sendRun c len => f = .sendInLoop c len
  | .shutdownRun c => f = .shutdownInLoop c
  | .sendBody c _ | .handleWrite c => f.Notifies c
  | _ => False

variable {cfg : Config} {o o' : Objects} {t : Tid} {i : Input} {op : Op} {ops : List Op}

/-- The kinds of effects an operation has on the objects. -/
inductive Op.Effect (cfg : Config) (o : Objects) (t : Tid) (i : Input) (op : Op) : Objects → Prop
  | none : Effect cfg o t i op o
  | act {c v} (hc : op.conn? = some c) (h : (o.view c).Acts c v)
      (hqueued : ∀ f ∈ v.queued, op.Queues o.created f) : Effect cfg o t i op (o.setView c v)
  | queue {c l f} (hc : op.conn? = some c) (hl : l = (o.conn c).loop ∨ l = 0)
      (hf : op.Queues o.created f) : Effect cfg o t i op (o.queueInLoop l f)
  | erase {c} (hop : op = .removeConnectionInLoop c) :
      Effect cfg o t i op
        ((o.erase (o.conn c).name).queueInLoop (o.conn c).loop (.connectDestroyed c))
  | forget {c} (hop : op = .destroyItem c) : Effect cfg o t i op (o.forget c)
  | forgetThere {c} (hop : op = .destroyItem c) :
      Effect cfg o t i op ((o.forget c).queueInLoop (o.conn c).loop (.connectDestroyed c))
  | accept {fd} (hop : op = .accept) (hi : i = .accept (some fd)) (h : ¬ nextConnIdOverflows o) :
      Effect cfg o t i op (o.newConnection cfg t fd).1
  | removeAcceptor {p p' ch ch'} (hop : op = .removeAcceptor)
      (h : (o.poller 0).disbleALL .acceptor o.acceptChannel = .ok (p, ch))
      (h' : p.removeChannel .acceptor ch = .ok (p', ch')) :
      Effect cfg o t i op
        { o with poller := Function.update o.poller 0 p', acceptChannel := ch' }

/-- Every branch is of one of these kinds. -/
theorem Op.Runs.effect (h : Op.Runs cfg o t i op o' ops) : Op.Effect cfg o t i op o' := by
  have hnil : ∀ {op : Op} {f : Functor}, f ∈ ([] : List Functor) → op.Queues o.created f :=
    fun hf => absurd hf List.not_mem_nil
  cases h with
  | connectEstablished => exact .act rfl (.of_eq rfl rfl rfl rfl rfl) fun f hf => hnil hf
  | enableReading h =>
    refine .act rfl (.tieAndEnableReading h) fun f hf => ?_
    obtain ⟨p, ch, -, rfl⟩ := View.tieAndEnableReading_cases h
    exact hnil hf
  | destroyOpen h => exact .none
  | destroyClosed h => exact .none
  | destroyConnected h =>
    refine .act rfl (.closeChannel h) fun f hf => ?_
    obtain ⟨p, ch, -, rfl⟩ := View.closeChannel_cases h
    exact hnil hf
  | channelRemove h =>
    refine .act rfl (.channelRemove h) fun f hf => ?_
    obtain ⟨p, ch, -, rfl⟩ := View.channelRemove_cases h
    exact hnil hf
  | removeConnectionInLoop h => exact .erase rfl
  | acceptFailed => exact .none
  | acceptedHere h ht => exact .accept rfl rfl h
  | acceptedThere h ht => exact .accept rfl rfl h
  | handleClose h =>
    refine .act rfl (.closeChannel h) fun f hf => ?_
    obtain ⟨p, ch, -, rfl⟩ := View.closeChannel_cases h
    exact hnil hf
  | handleError => exact .none
  | readEnd => exact .none
  | readSome hne h =>
    refine .act rfl (.readInput h) fun f hf => ?_
    obtain ⟨b, rfl⟩ := View.readInput_cases h
    exact hnil hf
  | readFailed => exact .none
  | writeSome h =>
    have hacts := View.Acts.writeOutput h
    exact .act rfl hacts fun f hf => (hacts.queued f hf).resolve_left List.not_mem_nil
  | writeAll h =>
    have hacts := View.Acts.writeOutput h
    exact .act rfl hacts fun f hf => (hacts.queued f hf).resolve_left List.not_mem_nil
  | @afterDrain i c =>
    obtain ⟨socket, hdrain⟩ := (o.view c).afterDrain_cases
    rw [hdrain]
    exact .act rfl (.of_eq rfl rfl rfl rfl rfl) fun f hf => hnil hf
  | connectionCallback => exact .none
  | messageCallback => exact .none
  | writeCompleteCallback => exact .none
  | highWaterMarkCallback => exact .none
  | closeHere h ht => exact .none
  | closeThere h ht => exact .queue rfl (.inr rfl) rfl
  | sendNot h => exact .none
  | sendHere h ht => exact .none
  | sendThere h ht => exact .none
  | sendRun => exact .queue rfl (.inl rfl) rfl
  | sendLate h => exact .none
  | sendInLoop h => exact .none
  | sendBody h =>
    have hacts := View.Acts.sendBody h
    exact .act rfl hacts fun f hf => (hacts.queued f hf).resolve_left List.not_mem_nil
  | shutdownNot h => exact .none
  | shutdown h => exact .none
  | setDisconnecting => exact .act rfl (.of_eq rfl rfl rfl rfl rfl) fun f hf => hnil hf
  | shutdownHere ht => exact .none
  | shutdownThere ht => exact .queue rfl (.inl rfl) rfl
  | @shutdownInLoop i c =>
    obtain ⟨socket, hshut⟩ := (o.view c).shutdownInLoop_cases
    rw [hshut]
    exact .act rfl (.of_eq rfl rfl rfl rfl rfl) fun f hf => hnil hf
  | release => exact .none
  | destroyHere ht => exact .forget rfl
  | destroyThere ht => exact .forgetThere rfl
  | removeAcceptor h h' => exact .removeAcceptor rfl h h'

/-- `accept` was answered with a descriptor, and `c` is the connection made for it. -/
structure Op.Creates (o : Objects) (op : Op) (o' : Objects) (c : ConnId) : Prop where
  op : op = .accept
  conn : c = o.created
  created : o'.created = o.created + 1

/-- The connection that is created is new. -/
lemma Op.Creates.conn_eq {c : ConnId} (h : op.Creates o o' c) (hrun : Op.Runs cfg o t i op o' ops) :
    ∃ fd, o'.conn c = .new 0 (o.nextName cfg) fd cfg.writeCompleteCallback := by
  obtain ⟨rfl, rfl, hcreated⟩ := h
  have hnew : ∀ fd, (o.newConnection cfg t fd).1.conn o.created =
      .new 0 (o.nextName cfg) fd cfg.writeCompleteCallback := by
    intro fd
    obtain ⟨o₁, rfl, ⟨-, heq⟩ | ⟨-, heq⟩⟩ := o.newConnection_cases cfg t fd
    · rw [heq]
      exact Function.update_self ..
    · rw [heq]
      exact Function.update_self ..
  cases hrun with
  | acceptFailed => exact absurd hcreated (Nat.succ_ne_self _).symm
  | acceptedHere hid ht => exact ⟨_, hnew _⟩
  | acceptedThere hid ht => exact ⟨_, hnew _⟩

/-! ### Queues -/

/-- What is in the queues after one queue got functors at its end. -/
lemma mem_update_append {queues : LoopId → List Functor} {l l' : LoopId} {fs : List Functor}
    {f : Functor} (hf : f ∈ Function.update queues l (queues l ++ fs) l') :
    f ∈ queues l' ∨ f ∈ fs ∧ l' = l := by
  by_cases hl : l' = l
  · subst hl
    rw [Function.update_self] at hf
    exact (List.mem_append.mp hf).imp_right fun hf => ⟨hf, rfl⟩
  · rw [Function.update_of_ne hl] at hf
    exact .inl hf

/-- What is queued after `queueInLoop`. -/
lemma Objects.mem_queueInLoop {l l' : LoopId} {f g : Functor}
    (hf : f ∈ (o.queueInLoop l g).pendingFunctors l') :
    f ∈ o.pendingFunctors l' ∨ f = g ∧ l' = l :=
  (mem_update_append hf).imp_right fun ⟨hf, hl⟩ => ⟨List.mem_singleton.mp hf, hl⟩

/-- What is queued after the functors of one loop were taken over. -/
lemma Objects.mem_clearPending {l l' : LoopId} {f : Functor}
    (hf : f ∈ (o.clearPending l).pendingFunctors l') : f ∈ o.pendingFunctors l' ∧ l' ≠ l := by
  by_cases hl : l' = l
  · subst hl
    simp [Objects.clearPending] at hf
  · simp only [Objects.clearPending, Function.update_of_ne hl] at hf
    exact ⟨hf, hl⟩

/-! ### Frames -/

namespace Op.Effect

variable {c : ConnId} {l : LoopId} {f : Functor}

lemma serverAlive_eq (h : Op.Effect cfg o t i op o') : o'.serverAlive = o.serverAlive := by
  cases h with
  | @accept fd hop hi hid =>
    obtain ⟨o₁, rfl, ⟨-, heq⟩ | ⟨-, heq⟩⟩ := o.newConnection_cases cfg t fd
    · rw [heq]
      rfl
    · rw [heq]
      rfl
  | _ => rfl

/-- Only `accept` creates a connection. -/
lemma created_cases (h : Op.Effect cfg o t i op o') :
    o'.created = o.created ∨ op = .accept ∧ o'.created = o.created + 1 := by
  cases h with
  | @accept fd hop hi hid =>
    exact .inr ⟨hop, o.newConnection_created cfg t fd⟩
  | _ => exact .inl rfl

lemma created_le (h : Op.Effect cfg o t i op o') : o.created ≤ o'.created := by
  rcases h.created_cases with heq | ⟨-, heq⟩ <;> omega

/-- The connections an operation is not about are left alone. -/
lemma conn_of_ne (h : Op.Effect cfg o t i op o') (hc : op.conn? ≠ some c)
    (hnew : op = .accept → c ≠ o.created) : o'.conn c = o.conn c := by
  cases h with
  | @act c' v hc' hacts hqueued =>
    have hne : c ≠ c' := by
      rintro rfl
      exact hc hc'
    exact Function.update_of_ne hne _ _
  | @accept fd hop hi hid =>
    obtain ⟨o₁, rfl, ⟨-, heq⟩ | ⟨-, heq⟩⟩ := o.newConnection_cases cfg t fd
    · rw [heq]
      exact Function.update_of_ne (hnew hop) _ _
    · rw [heq]
      exact Function.update_of_ne (hnew hop) _ _
  | _ => rfl

/-- A connection keeps its loop, its name and its descriptor. -/
lemma conn_kept (h : Op.Effect cfg o t i op o') (hc : c < o.created) :
    (o'.conn c).loop = (o.conn c).loop ∧ (o'.conn c).name = (o.conn c).name ∧
      (o'.conn c).channel.fd = (o.conn c).channel.fd := by
  by_cases hop : op.conn? = some c
  · cases h with
    | @act c' v hc' hacts hqueued =>
      obtain rfl : c' = c := Option.some.inj (hc'.symm.trans hop)
      have hconn : (o.setView c' v).conn c' = v.conn := Function.update_self ..
      rw [hconn]
      exact ⟨hacts.loop, hacts.name, hacts.channel.fd⟩
    | accept hacc =>
      rw [hacc] at hop
      cases hop
    | _ => exact ⟨rfl, rfl, rfl⟩
  · rw [h.conn_of_ne hop fun _ => hc.ne]
    exact ⟨rfl, rfl, rfl⟩

/-- A queue only grows. -/
lemma mem_pending_of_mem (h : Op.Effect cfg o t i op o') (hf : f ∈ o.pendingFunctors l) :
    f ∈ o'.pendingFunctors l := by
  have hupdate : ∀ (l' : LoopId) (fs : List Functor),
      f ∈ Function.update o.pendingFunctors l' (o.pendingFunctors l' ++ fs) l := by
    intro l' fs
    by_cases hl : l = l'
    · subst hl
      rw [Function.update_self]
      exact List.mem_append_left _ hf
    · rw [Function.update_of_ne hl]
      exact hf
  cases h with
  | none => exact hf
  | act hc hacts hqueued => exact hupdate _ _
  | queue hc hl hfunctor => exact hupdate _ _
  | erase hop => exact hupdate _ _
  | forget hop => exact hf
  | forgetThere hop => exact hupdate _ _
  | @accept fd hop hi hid =>
    obtain ⟨o₁, rfl, ⟨-, heq⟩ | ⟨-, heq⟩⟩ := o.newConnection_cases cfg t fd
    · rw [heq]
      exact hf
    · rw [heq]
      exact hupdate _ _
  | removeAcceptor hop h h' => exact hf

/-- What is new in a queue was queued by the operation; only a new connection is handed to
another loop than the base loop. -/
lemma mem_pending (h : Op.Effect cfg o t i op o') (hloop : ∀ c, (o.conn c).loop = 0)
    (hf : f ∈ o'.pendingFunctors l) :
    f ∈ o.pendingFunctors l ∨ op.Queues o.created f ∧
      (l = 0 ∧ op ≠ .accept ∨
        op.Creates o o' o.created ∧ l = (o.getNextLoop cfg).1 ∧ t ≠ .loop l) := by
  cases h with
  | none => exact .inl hf
  | act hc hacts hqueued =>
    refine (mem_update_append hf).imp_right fun ⟨hf, hl⟩ => ⟨hqueued f hf, .inl ⟨?_, ?_⟩⟩
    · rw [hl, hloop]
    · rintro rfl
      cases hc
  | queue hc hl hfunctor =>
    refine (Objects.mem_queueInLoop hf).imp_right fun ⟨heq, hl'⟩ => ?_
    obtain rfl := heq
    refine ⟨hfunctor, .inl ⟨?_, ?_⟩⟩
    · rcases hl with hl | hl
      · rw [hl', hl, hloop]
      · rw [hl', hl]
    · rintro rfl
      cases hc
  | erase hop =>
    refine (Objects.mem_queueInLoop hf).imp_right fun ⟨heq, hl⟩ => ?_
    rw [hop, hl, heq]
    exact ⟨rfl, .inl ⟨hloop _, nofun⟩⟩
  | forget hop => exact .inl hf
  | forgetThere hop =>
    refine (Objects.mem_queueInLoop hf).imp_right fun ⟨heq, hl⟩ => ?_
    rw [hop, hl, heq]
    exact ⟨rfl, .inl ⟨hloop _, nofun⟩⟩
  | @accept fd hop hi hid =>
    obtain ⟨o₁, rfl, ⟨-, heq⟩ | ⟨ht, heq⟩⟩ := o.newConnection_cases cfg t fd
    · rw [heq] at hf
      exact .inl hf
    · rw [heq] at hf
      refine (Objects.mem_queueInLoop hf).imp_right fun ⟨hfunctor, hl⟩ => ?_
      rw [hop, heq, hfunctor]
      exact ⟨rfl, .inr ⟨⟨rfl, rfl, rfl⟩, hl, hl ▸ ht⟩⟩
  | removeAcceptor hop h h' => exact .inl hf

/-- Entries of the map are only added by `accept`. -/
lemma mem_connections (h : Op.Effect cfg o t i op o') {x : List Char × ConnId}
    (hx : x ∈ o'.connections) :
    x ∈ o.connections ∨ op.Creates o o' o.created ∧ x = (o.nextName cfg, o.created) := by
  cases h with
  | erase hop => exact .inl (List.mem_filter.mp hx).1
  | forget hop => exact .inl (List.mem_filter.mp hx).1
  | forgetThere hop => exact .inl (List.mem_filter.mp hx).1
  | @accept fd hop hi hid =>
    have hinsert : x ∈ (o.insert (o.nextName cfg) o.created).connections := by
      obtain ⟨o₁, rfl, ⟨-, heq⟩ | ⟨-, heq⟩⟩ := o.newConnection_cases cfg t fd <;>
        rwa [heq] at hx
    rcases List.mem_append.mp hinsert with hx | hx
    · exact .inl (List.mem_filter.mp hx).1
    · exact .inr ⟨⟨hop, rfl, o.newConnection_created cfg t fd⟩, List.mem_singleton.mp hx⟩
  | _ => exact .inl hx

end Op.Effect

/-! ### Pointers on the stacks and in the queues -/

/-- A functor holds pointers only to the connection of the operation that queues it. -/
lemma Op.Queues.owns {created : ℕ} {f : Functor} {c : ConnId} (h : op.Queues created f)
    (hc : c ∈ f.owns) : op.conn? = some c ∨ op = .accept ∧ c = created := by
  cases op with
  | accept =>
    obtain rfl : f = .connectEstablished created := h
    exact .inr ⟨rfl, List.mem_singleton.mp hc⟩
  | removeConnectionInLoop c' | destroyItem c' | closeCallback c' =>
    simp only [Op.Queues] at h
    subst h
    exact .inl (congrArg some (List.mem_singleton.mp hc).symm)
  | sendRun c' len | shutdownRun c' =>
    simp only [Op.Queues] at h
    subst h
    cases hc
  | sendBody c' len | handleWrite c' =>
    rcases h with rfl | ⟨n, rfl⟩ <;> exact .inl (congrArg some (List.mem_singleton.mp hc).symm)
  | _ => cases h

/-! ### What is left of an operation -/

/-- `Follows o o' op op'`: `op'` is part of what is left to do when `op` was executed on `o`. -/
inductive Op.Follows (o o' : Objects) : Op → Op → Prop
  | enableReading {c} : Follows o o' (.connectEstablished c) (.enableReading c)
  | up {c} : Follows o o' (.enableReading c) (.connectionCallback c)
  | upRelease {c} : Follows o o' (.enableReading c) (.release c)
  | destroyConnected {c} (h : (o.conn c).state = .kConnected) :
      Follows o o' (.connectDestroyed c) (.destroyConnected c)
  | channelRemove {c} (h : (o.conn c).state ≠ .kConnected) :
      Follows o o' (.connectDestroyed c) (.channelRemove c)
  | destroyDown {c} : Follows o o' (.destroyConnected c) (.connectionCallback c)
  | destroyRelease {c} : Follows o o' (.destroyConnected c) (.release c)
  | destroyRemove {c} : Follows o o' (.destroyConnected c) (.channelRemove c)
  | establish (h : o'.created = o.created + 1) :
      Follows o o' .accept (.connectEstablished o.created)
  | establishRelease (h : o'.created = o.created + 1) : Follows o o' .accept (.release o.created)
  | down {c} : Follows o o' (.handleClose c) (.connectionCallback c)
  | close {c} : Follows o o' (.handleClose c) (.closeCallback c)
  | closeRelease {c} : Follows o o' (.handleClose c) (.release c)
  | readEnd {c} : Follows o o' (.handleRead c) (.handleClose c)
  | message {c} : Follows o o' (.handleRead c) (.messageCallback c)
  | messageRelease {c} : Follows o o' (.handleRead c) (.release c)
  | readFailed {c} : Follows o o' (.handleRead c) (.handleError c)
  | afterDrain {c} : Follows o o' (.handleWrite c) (.afterDrain c)
  | userConnection {c} : Follows o o' (.connectionCallback c) (.user [c] none)
  | userMessage {c} : Follows o o' (.messageCallback c) (.user [c] (some c))
  | userWriteComplete {c} : Follows o o' (.writeCompleteCallback c) (.user [c] none)
  | userHighWater {c len} : Follows o o' (.highWaterMarkCallback c len) (.user [c] none)
  | remove {c} : Follows o o' (.closeCallback c) (.removeConnectionInLoop c)
  | sendHere {c len} (h : (o.conn c).state = .kConnected) :
      Follows o o' (.send c len) (.sendInLoop c len)
  | sendThere {c len} (h : (o.conn c).state = .kConnected) :
      Follows o o' (.send c len) (.sendRun c len)
  | sendBody {c len} (h : (o.conn c).state ≠ .kDisconnected) :
      Follows o o' (.sendInLoop c len) (.sendBody c len)
  | setDisconnecting {c} (h : (o.conn c).state = .kConnected) :
      Follows o o' (.shutdown c) (.setDisconnecting c)
  | shutdownRun {c} : Follows o o' (.setDisconnecting c) (.shutdownRun c)
  | shutdownInLoop {c} : Follows o o' (.shutdownRun c) (.shutdownInLoop c)
  | destroy {c} : Follows o o' (.destroyItem c) (.connectDestroyed c)
  | destroyItemRelease {c} : Follows o o' (.destroyItem c) (.release c)

theorem Op.Runs.follows (h : Op.Runs cfg o t i op o' ops) {op' : Op} (hop : op' ∈ ops) :
    Op.Follows o o' op op' := by
  have hcreated := o.newConnection_created cfg t
  cases h <;> simp only [List.mem_cons, List.not_mem_nil, or_false] at hop
  case acceptedHere fd hid ht =>
    rcases hop with rfl | rfl
    · exact .establish (hcreated fd)
    · exact .establishRelease (hcreated fd)
  all_goals rcases hop with rfl | rfl | rfl <;> constructor <;> assumption

/-- The local pointers of an operation are to its connection. -/
lemma Op.Follows.owns {op' : Op} {c : ConnId} (h : Op.Follows o o' op op') (hc : c ∈ op'.owns) :
    op.conn? = some c ∨ op.Creates o o' c := by
  cases h with
  | establishRelease h => exact .inr ⟨rfl, List.mem_singleton.mp hc, h⟩
  | upRelease | destroyRelease | closeRelease | messageRelease | destroyItemRelease =>
    exact .inl (congrArg some (List.mem_singleton.mp hc).symm)
  | _ => cases hc

/-- What is left of an operation is about its connection. -/
lemma Op.Follows.conn? {op' : Op} {c : ConnId} (h : Op.Follows o o' op op')
    (hc : op'.conn? = some c) : op.conn? = some c ∨ op.Creates o o' c := by
  cases h with
  | establish h => exact .inr ⟨rfl, (Option.some.inj hc).symm, h⟩
  | _ => first | exact .inl hc | cases hc

/-- The operations that an event starts. -/
def Op.ofEvent : Op → Bool
  | .accept | .handleClose _ | .handleError _ | .handleRead _ | .handleWrite _ | .release _ => true
  | _ => false

/-! ### Control -/

namespace Server

variable {s : Server} {t' : Tid} {l l' : LoopId} {p : Phase}

/-- What is on a stack after one stack was replaced. -/
lemma mem_setStack (h : op ∈ (s.setStack t ops).stack t') :
    t' = t ∧ op ∈ ops ∨ op ∈ s.stack t' := by
  by_cases ht : t' = t
  · subst ht
    simp only [setStack, Function.update_self] at h
    exact .inl ⟨rfl, h⟩
  · simp only [setStack, Function.update_of_ne ht] at h
    exact .inr h

/-- What the destructor of the server does. -/
lemma mem_destroyServer {order : List ConnId}
    (h : op ∈ order.map Op.destroyItem ++ [.removeAcceptor]) :
    (∃ c ∈ order, op = .destroyItem c) ∨ op = .removeAcceptor := by
  rcases List.mem_append.mp h with h | h
  · obtain ⟨c, hc, rfl⟩ := List.mem_map.mp h
    exact .inl ⟨c, hc, rfl⟩
  · exact .inr (List.mem_singleton.mp h)

/-- What is in a batch after the phase of one loop was replaced. -/
lemma mem_batch_setPhase {f : Functor} (h : f ∈ ((s.setPhase l p).phase l').batch) :
    l' = l ∧ f ∈ p.batch ∨ f ∈ (s.phase l').batch := by
  by_cases hl : l' = l
  · subst hl
    simp only [setPhase, Function.update_self] at h
    exact .inl ⟨rfl, h⟩
  · simp only [setPhase, Function.update_of_ne hl] at h
    exact .inr h

/-- The operations an event of a connection starts. -/
def IsHandler (c : ConnId) (op : Op) : Prop :=
  op = .handleClose c ∨ op = .handleError c ∨ op = .handleRead c ∨ op = .handleWrite c

lemma isHandler_of_mem_handlers {c : ConnId} {revents : EventMask} (h : op ∈ handlers c revents) :
    IsHandler c op := by
  have hsplit : ∀ (b : Bool) (op' : Op), op ∈ (if b then [op'] else []) → op = op' := by
    intro b op' hop
    cases b with
    | true => exact List.mem_singleton.mp hop
    | false => cases hop
  simp only [handlers, List.mem_append] at h
  rcases h with ((h | h) | h) | h
  · exact .inl (hsplit _ _ h)
  · exact .inr (.inl (hsplit _ _ h))
  · exact .inr (.inr (.inl (hsplit _ _ h)))
  · exact .inr (.inr (.inr (hsplit _ _ h)))

/-- What an event starts: `accept`, or handlers of one connection under a guard. -/
lemma mem_handleEvent {x : ChannelId × EventMask} (h : op ∈ handleEvent x) :
    (x.1 = .acceptor ∧ op = .accept) ∨
      ∃ c, x.1 = .conn c ∧ (IsHandler c op ∨ op = .release c) := by
  obtain ⟨k, revents⟩ := x
  cases k with
  | acceptor =>
    simp only [handleEvent] at h
    split at h
    · exact .inl ⟨rfl, List.mem_singleton.mp h⟩
    · cases h
  | conn c =>
    rcases List.mem_append.mp h with h | h
    · exact .inr ⟨c, rfl, .inl (isHandler_of_mem_handlers h)⟩
    · exact .inr ⟨c, rfl, .inr (List.mem_singleton.mp h)⟩

/-- An event starts no other operation. -/
lemma not_mem_handleEvent {x : ChannelId × EventMask} (h : op.ofEvent = false) :
    op ∉ handleEvent x := by
  intro hop
  rcases mem_handleEvent hop with ⟨-, rfl⟩ | ⟨c, -, (rfl | rfl | rfl | rfl) | rfl⟩ <;> cases h

end Server

end HzhMuduo
