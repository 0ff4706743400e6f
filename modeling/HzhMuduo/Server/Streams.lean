import HzhMuduo.OutgoingStream
import HzhMuduo.Server.Progress

/-!
# The bytes of every connection

Whatever the threads of a server do, and however the work on its connections is interleaved, each
connection has two streams of its own.  What `sendInLoop` is handed, message after message but for
those whose direct write it takes for a fault, is what the kernel has accepted on this connection
followed by what waits in its output buffer; and what was read from its socket is what the
application has retrieved followed by what is left in its input buffer (`streams_of_run`).  Nothing
else is lost, and nothing is repeated, reordered or taken from another connection.
-/

namespace HzhMuduo

open MachineWord TcpConnection TransitionSystem

namespace TcpConnection

/-- What the kernel has accepted and what waits behind it. -/
def outgoing (conn : TcpConnection) : List UInt8 := conn.socket.sent ++ conn.outputBuffer.readable

/-- The bytes `sent` were added to the outgoing stream, and `received` to the input buffer. -/
structure Moves (x : TcpConnection) (sent received : List UInt8) (x' : TcpConnection) : Prop where
  outgoing : x'.outgoing = x.outgoing ++ sent
  incoming : x'.inputBuffer.readable = x.inputBuffer.readable ++ received

lemma Moves.refl (x : TcpConnection) : x.Moves [] [] x :=
  ⟨(List.append_nil _).symm, (List.append_nil _).symm⟩

/-- The socket's write side may be shut down, and the channel and the state may change. -/
lemma Moves.of_eq {x x' : TcpConnection} (hsent : x'.socket.sent = x.socket.sent)
    (houtput : x'.outputBuffer = x.outputBuffer) (hinput : x'.inputBuffer = x.inputBuffer) :
    x.Moves [] [] x' := by
  refine ⟨?_, ?_⟩
  · rw [TcpConnection.outgoing, hsent, houtput, List.append_nil]
    rfl
  · rw [hinput, List.append_nil]

namespace View

variable {r r' : View} {self : ConnId} {data : Memory} {w : WriteResult}

/-- The bytes `sendInLoop` adds to the stream behind its test of the state: all of them, unless
`faultError` is set. -/
def written (data : Memory) (len : ℤ) (w : WriteResult) (r : View) : List UInt8 :=
  if r.Idle ∧ w.isFault then [] else data.bytes 0 (toSize len)

/-- A message joins the stream as a whole, or not at all if the direct write is taken for a fault.
The kernel never gets a byte of it before the bytes that were buffered earlier. -/
lemma sendBody_moves {len : ℤ} (hwf : r.conn.outputBuffer.WellFormed) (hw : w.taken ≤ toSize len)
    (h : r.sendBody self data len w = .ok r') :
    r.conn.Moves (r.written data len w) [] r'.conn := by
  obtain ⟨fs, socket, b, p, ch, -, -, heffect⟩ := sendBody_effect h
  refine ⟨?_, by rw [heffect, List.append_nil]⟩
  by_cases hidle : r.Idle
  · have hi : r.Interested := .of_empty hidle.1 (hidle.buffered_eq_nil hwf)
    exact (sendBody_stream hwf hi hw h).2.2.2
  · unfold sendBody at h
    rw [if_neg hidle] at h
    obtain ⟨-, hbuffered, haccepted, -, -⟩ := bufferRest_stream hwf h
    have hstream : r'.accepted ++ r'.buffered =
        r.accepted ++ r.buffered ++ data.bytes 0 (toSize len) := by
      rw [haccepted, hbuffered, List.append_assoc]
    rw [written, if_neg fun hand => hidle hand.1]
    exact hstream

/-- `handleWrite` moves bytes from the front of the buffer to the kernel. -/
lemma writeOutput_moves {drained : Bool} (hwf : r.conn.outputBuffer.WellFormed)
    (h : r.writeOutput self w = .ok (r', drained)) : r.conn.Moves [] [] r'.conn := by
  rcases writeOutput_cases h with ⟨-, rfl, -⟩ | ⟨-, -, r₁, rfl, hrest⟩
  · exact .refl _
  · have hbuffered : (r.conn.outputBuffer.retrieve w.taken).readable =
        r.conn.outputBuffer.readable.drop w.taken := Buffer.readable_retrieve hwf _
    have hmove : r.conn.socket.sent ++ r.conn.outputBuffer.readable.take w.taken ++
        (r.conn.outputBuffer.retrieve w.taken).readable =
          r.conn.socket.sent ++ r.conn.outputBuffer.readable ++ [] := by
      rw [hbuffered, List.append_assoc, List.take_append_drop, List.append_nil]
    rcases hrest with ⟨-, rfl, -⟩ | ⟨-, -, fs, p, ch, -, -, rfl⟩
    · exact ⟨hmove, (List.append_nil _).symm⟩
    · exact ⟨hmove, (List.append_nil _).symm⟩

/-- What was read is added to the input buffer. -/
lemma readInput_moves {bytes : List UInt8} (hwf : r.conn.inputBuffer.WellFormed)
    (hlen : bytes.length ≤ r.conn.inputBuffer.readCapacity) (h : r.readInput bytes = .ok r') :
    r.conn.Moves [] bytes r'.conn := by
  obtain ⟨b, hb, h⟩ := Except.bind_eq_ok_iff.mp h
  obtain rfl := Except.ok.inj h
  have hsmall := Nat.lt_of_le_of_lt hlen hwf.readCapacity_lt
  rcases Buffer.readFd_cases hwf hsmall with ⟨-, b', hb', happended⟩ | ⟨-, herror⟩
  · obtain rfl := Except.ok.inj (hb'.symm.trans hb)
    exact ⟨(List.append_nil _).symm, happended.readable_eq⟩
  · cases herror.symm.trans hb

lemma shutdownInLoop_moves (r : View) : r.conn.Moves [] [] r.shutdownInLoop.conn := by
  obtain ⟨houtput, hsent, -, -⟩ := r.shutdownInLoop_stream
  obtain ⟨socket, heq⟩ := r.shutdownInLoop_cases
  exact .of_eq hsent houtput (by rw [heq])

lemma afterDrain_moves (r : View) : r.conn.Moves [] [] r.afterDrain.conn := by
  unfold afterDrain
  split
  · exact r.shutdownInLoop_moves
  · exact .refl _

end View

end TcpConnection

/-! ## The operations -/

namespace Op

variable {cfg : Config} {o o' : Objects} {t : Tid} {i : Input} {op : Op} {ops : List Op}
  {c : ConnId}

/-- The bytes an operation adds to the outgoing stream of `c`. -/
def written (o : Objects) (c : ConnId) (i : Input) : Op → List UInt8
  | .sendBody c' len =>
    match i with
    | .write data w => if c' = c then (o.view c).written data (toInt len) w else []
    | _ => []
  | _ => []

/-- The bytes an operation reads from the socket of `c`. -/
def received (c : ConnId) (i : Input) : Op → List UInt8
  | .handleRead c' =>
    match i with
    | .read (.read bytes) => if c' = c then bytes else []
    | _ => []
  | _ => []

/-- An operation on another connection adds nothing. -/
lemma written_eq_nil (hop : op.conn? ≠ some c) : op.written o c i = [] := by
  cases op with
  | sendBody c' len =>
    cases i with
    | write data w => exact if_neg fun hc => hop (congrArg some hc)
    | _ => rfl
  | _ => rfl

lemma received_eq_nil (hop : op.conn? ≠ some c) : op.received c i = [] := by
  cases op with
  | handleRead c' =>
    cases i with
    | read r =>
      cases r with
      | read bytes => exact if_neg fun hc => hop (congrArg some hc)
      | failed e => rfl
    | _ => rfl
  | _ => rfl

/-- The kernel takes no more of a message than it is offered. -/
lemma taken_le_of_run {data : Memory} {w : WriteResult} {len : ℕ} {x : Objects × List Op}
    (h : (Op.sendBody c len).run cfg o t (.write data w) = some x) : w.taken ≤ toSize (toInt len) :=
  (Option.ite_none_right_eq_some.mp h).1

/-- The streams of the connection an operation is about. -/
lemma moves_self (h : o.Sane) (hrun : op.run cfg o t i = some (o', ops)) (hop : op.conn? = some c) :
    (o.conn c).Moves (op.written o c i) (op.received c i) (o'.conn c) := by
  have hset : ∀ v, (o.setView c v).conn c = v.conn := fun v => Function.update_self ..
  cases Op.run_cases hrun with
  | connectEstablished | setDisconnecting =>
    obtain rfl := Option.some.inj hop
    rw [hset]
    exact .of_eq rfl rfl rfl
  | enableReading hv =>
    obtain rfl := Option.some.inj hop
    obtain ⟨p, ch, -, rfl⟩ := View.tieAndEnableReading_cases hv
    rw [hset]
    exact .of_eq rfl rfl rfl
  | destroyConnected hv | handleClose hv =>
    obtain rfl := Option.some.inj hop
    obtain ⟨p, ch, -, rfl⟩ := View.closeChannel_cases hv
    rw [hset]
    exact .of_eq rfl rfl rfl
  | channelRemove hv =>
    obtain rfl := Option.some.inj hop
    obtain ⟨p, ch, -, rfl⟩ := View.channelRemove_cases hv
    rw [hset]
    exact .of_eq rfl rfl rfl
  | @readSome c' v bytes hne hv =>
    obtain rfl := Option.some.inj hop
    rw [hset]
    have hmoves : (o.conn c').Moves [] bytes v.conn :=
      View.readInput_moves (r := o.view c') (h c').1 (Op.length_le_of_run hne hrun) hv
    simpa [written, received] using hmoves
  | readEnd =>
    obtain rfl := Option.some.inj hop
    simpa [written, received] using Moves.refl _
  | writeSome hv | writeAll hv =>
    obtain rfl := Option.some.inj hop
    rw [hset]
    exact View.writeOutput_moves (h _).2 hv
  | @sendBody c' data w len v hv =>
    obtain rfl := Option.some.inj hop
    rw [hset]
    have hmoves : (o.conn c').Moves ((o.view c').written data (toInt len) w) [] v.conn :=
      View.sendBody_moves (r := o.view c') (h c').2 (taken_le_of_run hrun) hv
    simpa [written, received] using hmoves
  | @afterDrain i c' =>
    obtain rfl := Option.some.inj hop
    rw [hset]
    exact (o.view c').afterDrain_moves
  | @shutdownInLoop i c' =>
    obtain rfl := Option.some.inj hop
    rw [hset]
    exact (o.view c').shutdownInLoop_moves
  | acceptFailed | acceptedHere | acceptedThere | release | removeAcceptor => cases hop
  | _ => exact .refl _

/-- The streams of every connection; a new one has empty streams. -/
lemma moves_of_run (hW : o.WellFormed cfg) (h : o.Sane) (hrun : op.run cfg o t i = some (o', ops))
    (c : ConnId) : (o.conn c).Moves (op.written o c i) (op.received c i) (o'.conn c) := by
  by_cases hop : op.conn? = some c
  · exact moves_self h hrun hop
  have hruns := Op.run_cases hrun
  rw [written_eq_nil hop, received_eq_nil hop]
  by_cases hnew : op = .accept ∧ c = o.created
  · obtain ⟨rfl, rfl⟩ := hnew
    by_cases hcreated : o'.created = o.created + 1
    · obtain ⟨fd, hconn⟩ := Op.Creates.conn_eq ⟨rfl, rfl, hcreated⟩ hruns
      rw [hconn, hW.fresh _ (Nat.le_refl _)]
      exact .of_eq rfl rfl rfl
    · cases hruns with
      | acceptFailed => exact .refl _
      | acceptedHere | acceptedThere => exact absurd (o.newConnection_created cfg t _) hcreated
  · rw [hruns.effect.conn_of_ne hop fun hacc hc => hnew ⟨hacc, hc⟩]
    exact .refl _

end Op

/-! ## The runs -/

namespace Server

variable {cfg : Config} {s s' : Server} {a : Act} {c : ConnId}

/-- The bytes a step adds to the outgoing stream of `c`. -/
def written (c : ConnId) (s : Server) : Act → List UInt8
  | .exec t i =>
    match s.stack t with
    | [] => []
    | op :: _ => op.written s.objects c i
  | _ => []

/-- The bytes a step reads from the socket of `c`. -/
def received (c : ConnId) (s : Server) : Act → List UInt8
  | .exec t i =>
    match s.stack t with
    | [] => []
    | op :: _ => op.received c i
  | _ => []

/-- The bytes the application takes out of the input buffer of `c`. -/
def retrieved (c : ConnId) (s : Server) : Act → List UInt8
  | .user _ (.retrieve c' len) =>
    if c' = c then (s.objects.conn c).inputBuffer.readable.take len else []
  | _ => []

lemma setConn_self (s : Server) (c : ConnId) (x : TcpConnection) :
    (s.setConn c x).objects.conn c = x :=
  Function.update_self ..

lemma setConn_of_ne {c' : ConnId} (hc : c' ≠ c) (s : Server) (x : TcpConnection) :
    (s.setConn c' x).objects.conn c = s.objects.conn c :=
  Function.update_of_ne hc.symm ..

/-- What a step adds to the two streams of a connection, and what it takes out. -/
lemma flow_step (hR : Registered cfg s) (hsane : s.objects.Sane) (hs : s.step cfg a = some s')
    (c : ConnId) :
    (s'.objects.conn c).outgoing = (s.objects.conn c).outgoing ++ s.written c a ∧
    (s.objects.conn c).inputBuffer.readable ++ s.received c a =
      s.retrieved c a ++ (s'.objects.conn c).inputBuffer.readable := by
  cases step_cases hs with
  | @exec t i op rest o ops hstack hready hrun =>
    have hexec : s.exec cfg t i = some (s.executed t op o (ops ++ rest)) := hs
    rw [Server.exec, hstack] at hexec
    obtain ⟨-, hexec⟩ := Option.ite_none_right_eq_some.mp hexec
    obtain ⟨⟨o', ops'⟩, hrun', heq⟩ := Option.map_eq_some_iff.mp hexec
    obtain rfl : o' = o := congrArg Server.objects heq
    obtain ⟨houtgoing, hincoming⟩ := Op.moves_of_run hR.objects hsane hrun' c
    have hwritten : s.written c (.exec t i) = op.written s.objects c i := by rw [written, hstack]
    have hreceived : s.received c (.exec t i) = op.received c i := by rw [received, hstack]
    rw [hwritten, hreceived]
    exact ⟨houtgoing, hincoming.symm⟩
  | @setHighWaterMark t c' n cs buffer hframe hsees halive =>
    by_cases hc : c' = c
    · subst hc
      rw [setConn_self]
      exact ⟨(List.append_nil _).symm, List.append_nil _⟩
    · rw [setConn_of_ne hc]
      exact ⟨(List.append_nil _).symm, List.append_nil _⟩
  | @retrieve t c' len cs hframe halive =>
    by_cases hc : c' = c
    · subst hc
      rw [setConn_self, Buffer.readable_retrieve (hsane c').1, retrieved, if_pos rfl,
        List.take_append_drop]
      exact ⟨(List.append_nil _).symm, List.append_nil _⟩
    · rw [setConn_of_ne hc, retrieved, if_neg hc]
      exact ⟨(List.append_nil _).symm, List.append_nil _⟩
  | _ => exact ⟨(List.append_nil _).symm, List.append_nil _⟩

/-- In every run, for every connection: the messages handed to `sendInLoop` while the connection is
not disconnected, one after the other but for those whose direct write is taken for a fault, are
what the kernel has accepted followed by what waits in the output buffer; and the bytes read are
those the application has taken out followed by what is left in the input buffer. -/
theorem streams_of_run {as : List Act} (hrun : (system cfg).run (new cfg) as = some s)
    (c : ConnId) :
    (s.objects.conn c).socket.sent ++ (s.objects.conn c).outputBuffer.readable =
      (system cfg).collect (written c) (new cfg) as ∧
    (system cfg).collect (received c) (new cfg) as =
      (system cfg).collect (retrieved c) (new cfg) as ++
        (s.objects.conn c).inputBuffer.readable := by
  have hinit : (system cfg).Reach (new cfg) := .init rfl
  have hflow : ∀ s a s', (system cfg).Reach s → (system cfg).step s a = some s' → _ :=
    fun s a s' h hs => flow_step (registered_of_reach h) (sane_of_reach h) hs c
  refine ⟨?_, ?_⟩
  · have hout := hinit.conserved (fun s => (s.objects.conn c).outgoing) (written c) (fun _ _ => [])
      (fun s a s' h hs => (hflow s a s' h hs).1.symm) hrun
    rw [collect_nil] at hout
    exact hout.symm
  · exact hinit.conserved (fun s => (s.objects.conn c).inputBuffer.readable) (received c)
      (retrieved c) (fun s a s' h hs => (hflow s a s' h hs).2) hrun

/-- The application takes two of three bytes and answers, and the kernel takes half of the
answer. -/
def answeredRun : List Act :=
  acceptedRun ++ [.poll 0 [(4, EPOLLIN)], .dispatch 0, .exec (.loop 0) (.read (.read [7, 8, 9])),
    .exec (.loop 0) .none, .user (.loop 0) (.retrieve 0 2), .user (.loop 0) (.send 0 2),
    .exec (.loop 0) .none, .exec (.loop 0) .none,
    .exec (.loop 0) (.write (.ofString [65, 66]) (.wrote 1))]

theorem streams_of_run_answeredRun :
    ∃ s, (system (exampleConfig 0 false)).run (new (exampleConfig 0 false)) answeredRun = some s ∧
      (s.objects.conn 0).socket.sent ++ (s.objects.conn 0).outputBuffer.readable = [65, 66] ∧
      [7, 8, 9] = [7, 8] ++ (s.objects.conn 0).inputBuffer.readable := by
  obtain ⟨s, hs⟩ := Option.isSome_iff_exists.mp (show ((system (exampleConfig 0 false)).run
    (new (exampleConfig 0 false)) answeredRun).isSome = true by decide +kernel)
  have hwritten : (system (exampleConfig 0 false)).collect (written 0) (new (exampleConfig 0 false))
      answeredRun = [65, 66] := by decide +kernel
  have hreceived : (system (exampleConfig 0 false)).collect (received 0)
      (new (exampleConfig 0 false)) answeredRun = [7, 8, 9] := by decide +kernel
  have hretrieved : (system (exampleConfig 0 false)).collect (retrieved 0)
      (new (exampleConfig 0 false)) answeredRun = [7, 8] := by decide +kernel
  have hstreams := streams_of_run hs 0
  rw [hwritten, hreceived, hretrieved] at hstreams
  exact ⟨s, hs, hstreams⟩

end Server

end HzhMuduo
