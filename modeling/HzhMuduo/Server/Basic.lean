import HzhMuduo.Foundation.TransitionSystem
import HzhMuduo.InetAddress
import HzhMuduo.TcpConnection

/-!
# The server and its threads

`TcpServer` after `start`, with its base loop, `numThreads` sub-loops, the connections, and any
number of threads of the application.  Every thread has a stack of operations (`Op`): the
member functions it is in the middle of, cut at each call of the user and at each load and
store of `state_` that another thread can come between.  A step executes the operation on top
of one thread's stack, or lets the code of the user act, or moves a loop on.

The part of the state the operations work on is `Objects`; `Op.run` says what an operation does
to it and what is left to do.  The rest of `Server` is control: where each loop stands, the
stacks, the pointers held by the application, and the trace of the operations executed.

A `TcpConnection` exists as long as something holds a `TcpConnectionPtr` to it (`owners`).  An
operation on an object that no longer exists is undefined, and the model has no step for it.
The eventfd and the timing of the wakeups are left out here: a loop may return from `poll` at
any time.
-/

namespace HzhMuduo

open MachineWord TcpConnection

/-- What the server is constructed with. -/
structure Config where
  name : List Char
  listenAddr : InetAddress
  listenFd : Fd
  numThreads : ℕ
  writeCompleteCallback : Bool

/-- A server on descriptor 3, with a number of sub-loops. -/
def exampleConfig (numThreads : ℕ) (writeCompleteCallback : Bool) : Config where
  name := ['s']
  listenAddr := ⟨fun _ => 1, 80⟩
  listenFd := 3
  numThreads := numThreads
  writeCompleteCallback := writeCompleteCallback

/-- Threads: those of the loops, and those of the application. -/
inductive Tid
  | loop (l : LoopId)
  | user (u : ℕ)
  deriving DecidableEq

/-- What a thread has still to do.  The names are those of the member functions; where a
function is cut, the parts behind the cut have names of their own. -/
inductive Op
  -- `connectEstablished`, `connectDestroyed`, `removeConnectionInLoop`
  | connectEstablished (c : ConnId)
  | enableReading (c : ConnId)
  | connectDestroyed (c : ConnId)
  | destroyConnected (c : ConnId)
  | channelRemove (c : ConnId)
  | removeConnectionInLoop (c : ConnId)
  -- `Acceptor::handleRead` and the handlers of a connection
  | accept
  | handleClose (c : ConnId)
  | handleError (c : ConnId)
  | handleRead (c : ConnId)
  | handleWrite (c : ConnId)
  | afterDrain (c : ConnId)
  -- the callbacks
  | connectionCallback (c : ConnId)
  | messageCallback (c : ConnId)
  | writeCompleteCallback (c : ConnId)
  | highWaterMarkCallback (c : ConnId) (len : ℕ)
  | closeCallback (c : ConnId)
  -- `send` and `shutdown`
  | send (c : ConnId) (len : ℕ)
  | sendRun (c : ConnId) (len : ℕ)
  | sendInLoop (c : ConnId) (len : ℕ)
  | sendBody (c : ConnId) (len : ℕ)
  | shutdown (c : ConnId)
  | setDisconnecting (c : ConnId)
  | shutdownRun (c : ConnId)
  | shutdownInLoop (c : ConnId)
  -- code of the application, with the pointers and the buffer it was passed
  | user (cs : List ConnId) (buffer : Option ConnId)
  -- a local `TcpConnectionPtr` goes out of scope
  | release (c : ConnId)
  -- one round of the loop in `~TcpServer`, and `~Acceptor`
  | destroyItem (c : ConnId)
  | removeAcceptor
  deriving DecidableEq

/-- The operation a queued functor starts. -/
def Functor.op : Functor → Op
  | .connectEstablished c => .connectEstablished c
  | .connectDestroyed c => .connectDestroyed c
  | .removeConnectionInLoop c => .removeConnectionInLoop c
  | .sendInLoop c len => .sendInLoop c len
  | .shutdownInLoop c => .shutdownInLoop c
  | .writeCompleteCallback c => .writeCompleteCallback c
  | .highWaterMarkCallback c len => .highWaterMarkCallback c len
  | .user cs => .user cs none

/-- The pointers a functor holds; `sendInLoop` and `shutdownInLoop` hold none. -/
def Functor.owns : Functor → List ConnId
  | .connectEstablished c | .connectDestroyed c | .removeConnectionInLoop c
  | .writeCompleteCallback c | .highWaterMarkCallback c _ => [c]
  | .sendInLoop _ _ | .shutdownInLoop _ => []
  | .user cs => cs

/-- The pointers an operation holds. -/
def Op.owns : Op → List ConnId
  | .release c => [c]
  | _ => []

/-- The connection an operation works on. -/
def Op.conn? : Op → Option ConnId
  | .connectEstablished c | .enableReading c | .connectDestroyed c | .destroyConnected c
  | .channelRemove c | .removeConnectionInLoop c | .handleClose c | .handleError c | .handleRead c
  | .handleWrite c | .afterDrain c | .connectionCallback c | .messageCallback c
  | .writeCompleteCallback c | .highWaterMarkCallback c _ | .closeCallback c | .send c _
  | .sendRun c _ | .sendInLoop c _ | .sendBody c _ | .shutdown c | .setDisconnecting c
  | .shutdownRun c | .shutdownInLoop c | .destroyItem c => some c
  | .accept | .user _ _ | .release _ | .removeAcceptor => none

/-- The server object, the connections, and what belongs to the loops. -/
structure Objects where
  /-- The destructor has not begun. -/
  serverAlive : Bool
  nextConnId : BitVec 32
  /-- `next_` of the thread pool. -/
  next : ℕ
  connections : List (List Char × ConnId)
  /-- The number of connection objects constructed so far. -/
  created : ℕ
  conn : ConnId → TcpConnection
  acceptChannel : Channel
  poller : LoopId → EPOLLPoller ChannelId
  pendingFunctors : LoopId → List Functor

namespace Objects

variable (o : Objects)

/-- Connection `c` with what its member functions reach. -/
def view (c : ConnId) : View := ⟨o.conn c, o.poller (o.conn c).loop, []⟩

/-- Store what a member function of `c` has done. -/
def setView (c : ConnId) (v : View) : Objects :=
  let l := (o.conn c).loop
  { o with
    conn := Function.update o.conn c v.conn
    poller := Function.update o.poller l v.poller
    pendingFunctors := Function.update o.pendingFunctors l (o.pendingFunctors l ++ v.queued) }

/-- `queueInLoop` on loop `l`. -/
def queueInLoop (l : LoopId) (f : Functor) : Objects :=
  { o with pendingFunctors := Function.update o.pendingFunctors l (o.pendingFunctors l ++ [f]) }

/-- The pending functors of loop `l` are swapped out. -/
def clearPending (l : LoopId) : Objects :=
  { o with pendingFunctors := Function.update o.pendingFunctors l [] }

/-- `connections_.erase(name)`. -/
def erase (name : List Char) : Objects :=
  { o with connections := o.connections.filter fun x => x.1 ≠ name }

/-- `connections_[name] = conn`. -/
def insert (name : List Char) (c : ConnId) : Objects :=
  { o with connections := o.connections.filter (fun x => x.1 ≠ name) ++ [(name, c)] }

/-- `item.second.reset()` for the entry of `c`. -/
def forget (c : ConnId) : Objects :=
  { o with connections := o.connections.filter fun x => x.2 ≠ c }

/-- `getNextLoop`: the loop chosen and the next value of `next_`. -/
def getNextLoop (cfg : Config) : LoopId × ℕ :=
  if cfg.numThreads = 0 then (0, o.next)
  else (o.next + 1, if cfg.numThreads ≤ o.next + 1 then 0 else o.next + 1)

/-- `newConnection` on thread `t`, up to the handing over of `connectEstablished`.  The
constructor is given `loop_`, the base loop. -/
def newConnection (cfg : Config) (t : Tid) (sockfd : Fd) : Objects × List Op :=
  let (ioLoop, next) := o.getNextLoop cfg
  let c := o.created
  let name := connName cfg.name cfg.listenAddr.toIpPort o.nextConnId.toInt
  let o := { o with
    next := next
    nextConnId := o.nextConnId + 1
    created := c + 1
    conn := Function.update o.conn c (.new 0 name sockfd cfg.writeCompleteCallback) }
  let o := o.insert name c
  if t = .loop ioLoop then (o, [.connectEstablished c, .release c])
  else (o.queueInLoop ioLoop (.connectEstablished c), [])

end Objects

/-- What the environment answers to an operation. -/
inductive Input
  | none
  | accept (fd : Option Fd)
  | read (r : ReadResult)
  | write (data : Memory) (w : WriteResult)

/-- The descriptor an operation receives from the kernel. -/
def Op.acceptedFd : Op → Input → Option Fd
  | .accept, .accept fd => fd
  | _, _ => none

/-- `++nextConnId_` overflows, which is undefined for an `int`. -/
def nextConnIdOverflows (o : Objects) : Prop := o.nextConnId.toInt = 2 ^ 31 - 1

instance (o : Objects) : Decidable (nextConnIdOverflows o) := inferInstanceAs (Decidable (_ = _))

/-- Operation `op` on thread `t`: the objects after it, and what the thread does next. -/
def Op.run (cfg : Config) (o : Objects) (t : Tid) (i : Input) : Op → Option (Objects × List Op)
  | .connectEstablished c =>
    some (o.setView c ((o.view c).setState .kConnected), [.enableReading c])
  | .enableReading c =>
    ((o.view c).tieAndEnableReading c).toOption.map fun v =>
      (o.setView c v, [.connectionCallback c, .release c])
  | .connectDestroyed c =>
    some (o, if (o.conn c).state = .kConnected then [.destroyConnected c] else [.channelRemove c])
  | .destroyConnected c =>
    ((o.view c).destroyConnected c).toOption.map fun v =>
      (o.setView c v, [.connectionCallback c, .release c, .channelRemove c])
  | .channelRemove c => ((o.view c).channelRemove c).toOption.map fun v => (o.setView c v, [])
  | .removeConnectionInLoop c =>
    if o.serverAlive then
      some ((o.erase (o.conn c).name).queueInLoop (o.conn c).loop (.connectDestroyed c), [])
    else none
  | .accept =>
    match i with
    | .accept none => some (o, [])
    | .accept (some fd) =>
      if nextConnIdOverflows o then none else some (o.newConnection cfg t fd)
    | _ => none
  | .handleClose c =>
    ((o.view c).handleClose c).toOption.map fun v =>
      (o.setView c v, [.connectionCallback c, .closeCallback c, .release c])
  | .handleError _ => some (o, [])
  | .handleRead c =>
    match i with
    | .read (.read []) => some (o, [.handleClose c])
    | .read (.read (b :: bytes)) =>
      if (b :: bytes).length ≤ (o.conn c).inputBuffer.readCapacity then
        ((o.view c).readInput (b :: bytes)).toOption.map fun v =>
          (o.setView c v, [.messageCallback c, .release c])
      else none
    | .read (.failed _) => some (o, [.handleError c])
    | _ => none
  | .handleWrite c =>
    match i with
    | .write _ w =>
      if w.taken ≤ (o.conn c).outputBuffer.readableBytes then
        ((o.view c).writeOutput c w).toOption.map fun x =>
          (o.setView c x.1, if x.2 then [.afterDrain c] else [])
      else none
    | _ => none
  | .afterDrain c => some (o.setView c (o.view c).afterDrain, [])
  | .connectionCallback c | .writeCompleteCallback c | .highWaterMarkCallback c _ =>
    some (o, [.user [c] none])
  | .messageCallback c => some (o, [.user [c] (some c)])
  -- `removeConnection`: `loop_->runInLoop`
  | .closeCallback c =>
    if o.serverAlive then
      if t = .loop 0 then some (o, [.removeConnectionInLoop c])
      else some (o.queueInLoop 0 (.removeConnectionInLoop c), [])
    else none
  | .send c len =>
    some (o,
      if (o.conn c).state = .kConnected then
        if t = .loop (o.conn c).loop then [.sendInLoop c len] else [.sendRun c len]
      else [])
  | .sendRun c len => some (o.queueInLoop (o.conn c).loop (.sendInLoop c len), [])
  | .sendInLoop c len =>
    some (o, if (o.conn c).state = .kDisconnected then [] else [.sendBody c len])
  | .sendBody c len =>
    match i with
    | .write data w =>
      if w.taken ≤ toSize (toInt len) then
        ((o.view c).sendBody c data (toInt len) w).toOption.map fun v => (o.setView c v, [])
      else none
    | _ => none
  | .shutdown c =>
    some (o, if (o.conn c).state = .kConnected then [.setDisconnecting c] else [])
  | .setDisconnecting c =>
    some (o.setView c ((o.view c).setState .kDisconnecting), [.shutdownRun c])
  | .shutdownRun c =>
    if t = .loop (o.conn c).loop then some (o, [.shutdownInLoop c])
    else some (o.queueInLoop (o.conn c).loop (.shutdownInLoop c), [])
  | .shutdownInLoop c => some (o.setView c (o.view c).shutdownInLoop, [])
  | .user _ _ => none
  | .release _ => some (o, [])
  | .destroyItem c =>
    if t = .loop (o.conn c).loop then some (o.forget c, [.connectDestroyed c, .release c])
    else some ((o.forget c).queueInLoop (o.conn c).loop (.connectDestroyed c), [])
  | .removeAcceptor => do
    let (p, ch) ← ((o.poller 0).disbleALL .acceptor o.acceptChannel).toOption
    let (p, ch) ← (p.removeChannel .acceptor ch).toOption
    return ({ o with poller := Function.update o.poller 0 p, acceptChannel := ch }, [])

/-- Where a loop stands: outside `loop()`, before `poll`, with channels still to be dispatched,
or in `doPendingFunctors` with the functors called and those still to be called. -/
inductive Phase
  | outside
  | polling
  | dispatching (active : List (ChannelId × EventMask))
  | functors (ran rest : List Functor)
  deriving DecidableEq

/-- The local vector of `doPendingFunctors`; it is destroyed as a whole. -/
def Phase.batch : Phase → List Functor
  | .functors ran rest => ran ++ rest
  | _ => []

/-- The channels still to be dispatched. -/
def Phase.active : Phase → List (ChannelId × EventMask)
  | .dispatching active => active
  | _ => []

/-- The functors still to be called. -/
def Phase.rest : Phase → List Functor
  | .functors _ rest => rest
  | _ => []

/-- An operation executed by a thread, with the state its connection had. -/
structure Event where
  thread : Tid
  op : Op
  state : StateE
  deriving DecidableEq

structure Server where
  objects : Objects
  phase : LoopId → Phase
  stack : Tid → List Op
  held : List (Tid × ConnId)
  trace : List Event

namespace Server

/-- What the code of the application can do on a thread. -/
inductive UserAct
  | send (c : ConnId) (len : ℕ)
  | shutdown (c : ConnId)
  | copy (c : ConnId) (heir : Tid)
  | drop (c : ConnId)
  | queueInLoop (l : LoopId) (cs : List ConnId)
  | setHighWaterMarkCallBack (c : ConnId) (highWaterMark : ℕ)
  | retrieve (c : ConnId) (len : ℕ)
  | ret

/-- Steps of the whole. -/
inductive Act
  | enter (l : LoopId)
  | leave (l : LoopId)
  | poll (l : LoopId) (ready : List (Fd × EventMask))
  | dispatch (l : LoopId)
  | swap (l : LoopId)
  | next (l : LoopId)
  | release (l : LoopId)
  | exec (t : Tid) (i : Input)
  | user (t : Tid) (a : UserAct)
  | destroyServer (order : List ConnId)

variable (cfg : Config) (s : Server)

/-- All `TcpConnectionPtr`s there are: in `connections_`, in the functors queued in a loop or in
the batch it runs, in local variables, and with the application. -/
def owners : List ConnId :=
  s.objects.connections.map Prod.snd ++
    ((List.range (cfg.numThreads + 1)).flatMap fun l =>
      (s.objects.pendingFunctors l).flatMap Functor.owns ++ (s.phase l).batch.flatMap Functor.owns ++
        (s.stack (.loop l)).flatMap Op.owns) ++
    s.held.map Prod.snd

/-- The reference count of a connection. -/
def refCount (c : ConnId) : ℕ := (s.owners cfg).count c

/-- The object exists. -/
def Alive (c : ConnId) : Prop := 0 < s.refCount cfg c

instance (c : ConnId) : Decidable (s.Alive cfg c) := inferInstanceAs (Decidable (_ < _))

/-- The kernel gives out only descriptors that are not open. -/
def FdFree (fd : Fd) : Prop :=
  fd ≠ cfg.listenFd ∧ ∀ c < s.objects.created, s.Alive cfg c → (s.objects.conn c).channel.fd ≠ fd

instance (fd : Fd) : Decidable (s.FdFree cfg fd) := inferInstanceAs (Decidable (_ ∧ _))

/-- What an operation needs of the control state: its connection exists, and a descriptor
returned by `accept` was not open. -/
def Ready (op : Op) (i : Input) : Prop :=
  (∀ c ∈ op.conn?, s.Alive cfg c) ∧ ∀ fd ∈ op.acceptedFd i, s.FdFree cfg fd

instance (op : Op) (i : Input) : Decidable (s.Ready cfg op i) :=
  inferInstanceAs (Decidable (_ ∧ _))

/-- Replace the record of connection `c`. -/
def setConn (c : ConnId) (conn : TcpConnection) : Server :=
  { s with objects := { s.objects with conn := Function.update s.objects.conn c conn } }

/-- Replace the stack of a thread. -/
def setStack (t : Tid) (ops : List Op) : Server :=
  { s with stack := Function.update s.stack t ops }

/-- Replace the phase of a loop. -/
def setPhase (l : LoopId) (p : Phase) : Server :=
  { s with phase := Function.update s.phase l p }

/-- The state recorded for an operation. -/
def stateAt (op : Op) : StateE :=
  match op.conn? with
  | some c => (s.objects.conn c).state
  | none => .kConnecting

/-- The state after `op` was executed on thread `t`, leaving `o` and `ops`. -/
def executed (t : Tid) (op : Op) (o : Objects) (ops : List Op) : Server :=
  { s.setStack t ops with objects := o, trace := s.trace ++ [⟨t, op, s.stateAt op⟩] }

/-- Execute the operation on top of the stack of thread `t`. -/
def exec (t : Tid) (i : Input) : Option Server :=
  match s.stack t with
  | [] => none
  | op :: rest =>
    if s.Ready cfg op i then
      (op.run cfg s.objects t i).map fun x => s.executed t op x.1 (x.2 ++ rest)
    else none

/-- `handleEventWithGuard`: the handlers called for the events of a connection. -/
def handlers (c : ConnId) (revents : EventMask) : List Op :=
  (if revents.has EPOLLHUP && !revents.has EPOLLIN then [.handleClose c] else []) ++
    (if revents.has EPOLLERR then [.handleError c] else []) ++
    (if revents.has (EPOLLIN ||| EPOLLPRI) then [.handleRead c] else []) ++
    (if revents.has EPOLLOUT then [.handleWrite c] else [])

/-- `handleEvent` of a channel.  The acceptor's channel has only a read callback; a tied channel
keeps its connection alive for the time of the handlers. -/
def handleEvent : ChannelId × EventMask → List Op
  | (.acceptor, revents) => if revents.has (EPOLLIN ||| EPOLLPRI) then [.accept] else []
  | (.conn c, revents) => handlers c revents ++ [.release c]

/-- The connection of a channel exists. -/
def ChannelAlive : ChannelId → Prop
  | .acceptor => s.objects.serverAlive
  | .conn c => s.Alive cfg c

instance : (k : ChannelId) → Decidable (s.ChannelAlive cfg k)
  | .acceptor => inferInstanceAs (Decidable (_ = true))
  | .conn c => inferInstanceAs (Decidable (s.Alive cfg c))

/-- The pointers and the buffer within reach of the application's code on thread `t`, if it is
running there. -/
def frame (t : Tid) : Option (List ConnId × Option ConnId) :=
  match s.stack t, t with
  | .user cs buffer :: _, _ => some (cs, buffer)
  | [], .user _ => some ([], none)
  | _, _ => none

/-- The code running on `t` has a pointer to `c`. -/
def Sees (t : Tid) (cs : List ConnId) (c : ConnId) : Prop := c ∈ cs ∨ (t, c) ∈ s.held

instance (t : Tid) (cs : List ConnId) (c : ConnId) : Decidable (s.Sees t cs c) :=
  inferInstanceAs (Decidable (_ ∨ _))

/-- The code of the application acts on thread `t`. -/
def userStep (t : Tid) (a : UserAct) : Option Server :=
  match s.frame t with
  | none => none
  | some (cs, buffer) =>
    match a with
    | .send c len => if s.Sees t cs c then some (s.setStack t (.send c len :: s.stack t)) else none
    | .shutdown c => if s.Sees t cs c then some (s.setStack t (.shutdown c :: s.stack t)) else none
    | .copy c heir =>
      if s.Sees t cs c ∧ s.Alive cfg c then some { s with held := (heir, c) :: s.held } else none
    | .drop c => if (t, c) ∈ s.held then some { s with held := s.held.erase (t, c) } else none
    | .queueInLoop l cs' =>
      if l ≤ cfg.numThreads ∧ ∀ c ∈ cs', s.Sees t cs c ∧ s.Alive cfg c then
        some { s with objects := s.objects.queueInLoop l (.user cs') }
      else none
    | .setHighWaterMarkCallBack c highWaterMark =>
      if s.Sees t cs c ∧ s.Alive cfg c then
        some (s.setConn c { s.objects.conn c with
          highWaterMarkCallback := true, highWaterMark := highWaterMark })
      else none
    | .retrieve c len =>
      if buffer = some c ∧ s.Alive cfg c then
        some (s.setConn c { s.objects.conn c with
          inputBuffer := (s.objects.conn c).inputBuffer.retrieve len })
      else none
    | .ret =>
      match s.stack t with
      | .user _ _ :: rest => some (s.setStack t rest)
      | _ => none

/-- A loop between two operations. -/
def AtPhase (l : LoopId) (p : Phase) : Prop := s.phase l = p ∧ s.stack (.loop l) = []

instance (l : LoopId) (p : Phase) : Decidable (s.AtPhase l p) :=
  inferInstanceAs (Decidable (_ ∧ _))

/-- A step of some thread. -/
def step : Act → Option Server
  | .enter l =>
    if l ≤ cfg.numThreads ∧ s.AtPhase l .outside then some (s.setPhase l .polling) else none
  | .leave l => if s.AtPhase l .polling then some (s.setPhase l .outside) else none
  | .poll l ready =>
    if s.AtPhase l .polling ∧ (ready.map Prod.fst).Nodup then
      ((s.objects.poller l).fillActiveChannels ready).map fun active =>
        s.setPhase l (.dispatching active)
    else none
  | .dispatch l =>
    match s.phase l with
    | .dispatching (x :: active) =>
      if s.stack (.loop l) = [] ∧ s.ChannelAlive cfg x.1 then
        some ((s.setPhase l (.dispatching active)).setStack (.loop l) (handleEvent x))
      else none
    | _ => none
  | .swap l =>
    if s.AtPhase l (.dispatching []) then
      some { s.setPhase l (.functors [] (s.objects.pendingFunctors l)) with
        objects := s.objects.clearPending l }
    else none
  | .next l =>
    match s.phase l with
    | .functors ran (f :: rest) =>
      if s.stack (.loop l) = [] then
        some ((s.setPhase l (.functors (ran ++ [f]) rest)).setStack (.loop l) [f.op])
      else none
    | _ => none
  | .release l =>
    match s.phase l with
    | .functors _ [] => if s.stack (.loop l) = [] then some (s.setPhase l .polling) else none
    | _ => none
  | .exec t i => s.exec cfg t i
  | .user t a => s.userStep cfg t a
  | .destroyServer order =>
    if s.objects.serverAlive ∧ s.AtPhase 0 .outside ∧
        order.isPerm (s.objects.connections.map Prod.snd) then
      some { s.setStack (.loop 0) (order.map Op.destroyItem ++ [.removeAcceptor]) with
        objects := { s.objects with serverAlive := false } }
    else none

/-- The server after `start`: the acceptor listens, the sub-loops exist, no loop runs yet. -/
def new : Server where
  objects :=
    { serverAlive := true
      nextConnId := 1
      next := 0
      connections := []
      created := 0
      conn := fun _ => .new 0 [] cfg.listenFd cfg.writeCompleteCallback
      acceptChannel :=
        { Channel.new cfg.listenFd with events := Channel.kReadEvent, index := kAdded }
      poller := fun l =>
        if l = 0 then
          { channels := fun fd => if fd = cfg.listenFd then some .acceptor else none
            epoll := fun fd =>
              if fd = cfg.listenFd then some (Channel.kReadEvent, .acceptor) else none }
        else .new
      pendingFunctors := fun _ => [] }
  phase := fun _ => .outside
  stack := fun _ => []
  held := []
  trace := []

/-- The server with all its threads, interleaved. -/
def system : TransitionSystem Server Act where
  init s := s = new cfg
  step s a := s.step cfg a

end Server

end HzhMuduo
