import HzhMuduo.Server.Basic

/-!
# What a step of the server can be

The inversion lemmas of the model: one case for each branch of an operation (`Op.Runs`), and
for each kind of step the state it leads to.  Every invariant is proved from these cases and
from the frame lemmas at the end, which say what an operation leaves alone.
-/

namespace HzhMuduo

open MachineWord TcpConnection

variable {cfg : Config} {o o' : Objects} {t : Tid} {i : Input} {op : Op} {ops : List Op}

namespace Objects

/-- The name of the next connection. -/
def nextName (cfg : Config) (o : Objects) : List Char :=
  connName cfg.name cfg.listenAddr.toIpPort o.nextConnId.toInt

/-- What `newConnection` leaves: a new object, its entry in the map, and `connectEstablished` to
be called here or to be queued in the loop chosen. -/
lemma newConnection_cases (o : Objects) (cfg : Config) (t : Tid) (fd : Fd) :
    ∃ o₁ : Objects, o₁ = { (o.insert (o.nextName cfg) o.created) with
        next := (o.getNextLoop cfg).2
        nextConnId := o.nextConnId + 1
        created := o.created + 1
        conn := Function.update o.conn o.created
          (.new 0 (o.nextName cfg) fd cfg.writeCompleteCallback) } ∧
      ((t = .loop (o.getNextLoop cfg).1 ∧
        o.newConnection cfg t fd = (o₁, [.connectEstablished o.created, .release o.created])) ∨
       (t ≠ .loop (o.getNextLoop cfg).1 ∧ o.newConnection cfg t fd =
        (o₁.queueInLoop (o.getNextLoop cfg).1 (.connectEstablished o.created), []))) := by
  refine ⟨_, rfl, ?_⟩
  by_cases ht : t = .loop (o.getNextLoop cfg).1
  · refine .inl ⟨ht, ?_⟩
    simp only [newConnection]
    rw [if_pos ht]
    rfl
  · refine .inr ⟨ht, ?_⟩
    simp only [newConnection]
    rw [if_neg ht]
    rfl

lemma newConnection_created (o : Objects) (cfg : Config) (t : Tid) (fd : Fd) :
    (o.newConnection cfg t fd).1.created = o.created + 1 := by
  obtain ⟨o₁, rfl, ⟨-, heq⟩ | ⟨-, heq⟩⟩ := o.newConnection_cases cfg t fd
  · rw [heq]
  · rw [heq]
    rfl

end Objects

/-- The branches of the operations. -/
inductive Op.Runs (cfg : Config) (o : Objects) (t : Tid) : Input → Op → Objects → List Op → Prop
  | connectEstablished {i c} :
      Runs cfg o t i (.connectEstablished c) (o.setView c ((o.view c).setState .kConnected))
        [.enableReading c]
  | enableReading {i c v} (h : (o.view c).tieAndEnableReading c = .ok v) :
      Runs cfg o t i (.enableReading c) (o.setView c v) [.connectionCallback c, .release c]
  | destroyOpen {i c} (h : (o.conn c).state = .kConnected) :
      Runs cfg o t i (.connectDestroyed c) o [.destroyConnected c]
  | destroyClosed {i c} (h : (o.conn c).state ≠ .kConnected) :
      Runs cfg o t i (.connectDestroyed c) o [.channelRemove c]
  | destroyConnected {i c v} (h : (o.view c).closeChannel c = .ok v) :
      Runs cfg o t i (.destroyConnected c) (o.setView c v)
        [.connectionCallback c, .release c, .channelRemove c]
  | channelRemove {i c v} (h : (o.view c).channelRemove c = .ok v) :
      Runs cfg o t i (.channelRemove c) (o.setView c v) []
  | removeConnectionInLoop {i c} (h : o.serverAlive = true) :
      Runs cfg o t i (.removeConnectionInLoop c)
        ((o.erase (o.conn c).name).queueInLoop (o.conn c).loop (.connectDestroyed c)) []
  | acceptFailed : Runs cfg o t (.accept none) .accept o []
  | acceptedHere {fd} (h : ¬ nextConnIdOverflows o) (ht : t = .loop (o.getNextLoop cfg).1) :
      Runs cfg o t (.accept (some fd)) .accept (o.newConnection cfg t fd).1
        [.connectEstablished o.created, .release o.created]
  | acceptedThere {fd} (h : ¬ nextConnIdOverflows o) (ht : t ≠ .loop (o.getNextLoop cfg).1) :
      Runs cfg o t (.accept (some fd)) .accept (o.newConnection cfg t fd).1 []
  | handleClose {i c v} (h : (o.view c).closeChannel c = .ok v) :
      Runs cfg o t i (.handleClose c) (o.setView c v)
        [.connectionCallback c, .closeCallback c, .release c]
  | handleError {i c} : Runs cfg o t i (.handleError c) o []
  | readEnd {c} : Runs cfg o t (.read (.read [])) (.handleRead c) o [.handleClose c]
  | readSome {c v bytes} (hne : bytes ≠ []) (h : (o.view c).readInput bytes = .ok v) :
      Runs cfg o t (.read (.read bytes)) (.handleRead c) (o.setView c v)
        [.messageCallback c, .release c]
  | readFailed {c e} : Runs cfg o t (.read (.failed e)) (.handleRead c) o [.handleError c]
  | writeSome {c data w v} (h : (o.view c).writeOutput c w = .ok (v, false)) :
      Runs cfg o t (.write data w) (.handleWrite c) (o.setView c v) []
  | writeAll {c data w v} (h : (o.view c).writeOutput c w = .ok (v, true)) :
      Runs cfg o t (.write data w) (.handleWrite c) (o.setView c v) [.afterDrain c]
  | afterDrain {i c} : Runs cfg o t i (.afterDrain c) (o.setView c (o.view c).afterDrain) []
  | connectionCallback {i c} : Runs cfg o t i (.connectionCallback c) o [.user [c] none]
  | messageCallback {i c} : Runs cfg o t i (.messageCallback c) o [.user [c] (some c)]
  | writeCompleteCallback {i c} : Runs cfg o t i (.writeCompleteCallback c) o [.user [c] none]
  | highWaterMarkCallback {i c len} :
      Runs cfg o t i (.highWaterMarkCallback c len) o [.user [c] none]
  | closeHere {i c} (h : o.serverAlive = true) (ht : t = .loop 0) :
      Runs cfg o t i (.closeCallback c) o [.removeConnectionInLoop c]
  | closeThere {i c} (h : o.serverAlive = true) (ht : t ≠ .loop 0) :
      Runs cfg o t i (.closeCallback c) (o.queueInLoop 0 (.removeConnectionInLoop c)) []
  | sendNot {i c len} (h : (o.conn c).state ≠ .kConnected) : Runs cfg o t i (.send c len) o []
  | sendHere {i c len} (h : (o.conn c).state = .kConnected) (ht : t = .loop (o.conn c).loop) :
      Runs cfg o t i (.send c len) o [.sendInLoop c len]
  | sendThere {i c len} (h : (o.conn c).state = .kConnected) (ht : t ≠ .loop (o.conn c).loop) :
      Runs cfg o t i (.send c len) o [.sendRun c len]
  | sendRun {i c len} :
      Runs cfg o t i (.sendRun c len) (o.queueInLoop (o.conn c).loop (.sendInLoop c len)) []
  | sendLate {i c len} (h : (o.conn c).state = .kDisconnected) :
      Runs cfg o t i (.sendInLoop c len) o []
  | sendInLoop {i c len} (h : (o.conn c).state ≠ .kDisconnected) :
      Runs cfg o t i (.sendInLoop c len) o [.sendBody c len]
  | sendBody {c data w len v} (h : (o.view c).sendBody c data (toInt len) w = .ok v) :
      Runs cfg o t (.write data w) (.sendBody c len) (o.setView c v) []
  | shutdownNot {i c} (h : (o.conn c).state ≠ .kConnected) : Runs cfg o t i (.shutdown c) o []
  | shutdown {i c} (h : (o.conn c).state = .kConnected) :
      Runs cfg o t i (.shutdown c) o [.setDisconnecting c]
  | setDisconnecting {i c} :
      Runs cfg o t i (.setDisconnecting c) (o.setView c ((o.view c).setState .kDisconnecting))
        [.shutdownRun c]
  | shutdownHere {i c} (ht : t = .loop (o.conn c).loop) :
      Runs cfg o t i (.shutdownRun c) o [.shutdownInLoop c]
  | shutdownThere {i c} (ht : t ≠ .loop (o.conn c).loop) :
      Runs cfg o t i (.shutdownRun c) (o.queueInLoop (o.conn c).loop (.shutdownInLoop c)) []
  | shutdownInLoop {i c} :
      Runs cfg o t i (.shutdownInLoop c) (o.setView c (o.view c).shutdownInLoop) []
  | release {i c} : Runs cfg o t i (.release c) o []
  | destroyHere {i c} (ht : t = .loop (o.conn c).loop) :
      Runs cfg o t i (.destroyItem c) (o.forget c) [.connectDestroyed c, .release c]
  | destroyThere {i c} (ht : t ≠ .loop (o.conn c).loop) :
      Runs cfg o t i (.destroyItem c)
        ((o.forget c).queueInLoop (o.conn c).loop (.connectDestroyed c)) []
  | removeAcceptor {i p p' ch ch'} (h : (o.poller 0).disbleALL .acceptor o.acceptChannel = .ok (p, ch))
      (h' : p.removeChannel .acceptor ch = .ok (p', ch')) :
      Runs cfg o t i .removeAcceptor
        { o with poller := Function.update o.poller 0 p', acceptChannel := ch' } []

/-- A step built on a call returns when the call does. -/
lemma exists_ok_of_toOption_map {α β : Type*} {x : Except Fault α} {f : α → β} {b : β}
    (h : x.toOption.map f = some b) : ∃ a, x = .ok a ∧ b = f a := by
  obtain ⟨a, ha, rfl⟩ := Option.map_eq_some_iff.mp h
  exact ⟨a, Except.toOption_eq_some_iff.mp ha, rfl⟩

/-- An operation takes one of these branches. -/
theorem Op.run_cases (h : op.run cfg o t i = some (o', ops)) : Op.Runs cfg o t i op o' ops := by
  cases op with
  | connectEstablished c | afterDrain c | setDisconnecting c | shutdownInLoop c | sendRun c len
  | release c | handleError c | connectionCallback c | messageCallback c | writeCompleteCallback c
  | highWaterMarkCallback c len =>
    obtain ⟨rfl, rfl⟩ := Prod.mk.inj (Option.some.inj h)
    constructor
  | enableReading c | destroyConnected c | channelRemove c | handleClose c =>
    obtain ⟨v, hv, heq⟩ := exists_ok_of_toOption_map h
    obtain ⟨rfl, rfl⟩ := Prod.mk.inj heq
    constructor
    exact hv
  | connectDestroyed c =>
    obtain ⟨rfl, rfl⟩ := Prod.mk.inj (Option.some.inj h)
    split
    · next hs => exact .destroyOpen hs
    · next hs => exact .destroyClosed hs
  | removeConnectionInLoop c =>
    obtain ⟨halive, h⟩ := Option.ite_none_right_eq_some.mp h
    obtain ⟨rfl, rfl⟩ := Prod.mk.inj (Option.some.inj h)
    exact .removeConnectionInLoop halive
  | accept =>
    simp only [Op.run] at h
    split at h
    · obtain ⟨rfl, rfl⟩ := Prod.mk.inj (Option.some.inj h)
      exact .acceptFailed
    · next fd =>
      obtain ⟨hoverflow, h⟩ := Option.ite_none_left_eq_some.mp h
      have hnew : o.newConnection cfg t fd = (o', ops) := Option.some.inj h
      obtain ⟨o₁, -, ⟨ht, heq⟩ | ⟨ht, heq⟩⟩ := o.newConnection_cases cfg t fd
      · obtain ⟨rfl, rfl⟩ := Prod.mk.inj (heq.symm.trans hnew)
        have hhere := @Op.Runs.acceptedHere cfg o t fd hoverflow ht
        rwa [hnew] at hhere
      · obtain ⟨rfl, rfl⟩ := Prod.mk.inj (heq.symm.trans hnew)
        have hthere := @Op.Runs.acceptedThere cfg o t fd hoverflow ht
        rwa [hnew] at hthere
    · cases h
  | handleRead c =>
    simp only [Op.run] at h
    split at h
    · obtain ⟨rfl, rfl⟩ := Prod.mk.inj (Option.some.inj h)
      exact .readEnd
    · obtain ⟨-, h⟩ := Option.ite_none_right_eq_some.mp h
      obtain ⟨v, hv, heq⟩ := exists_ok_of_toOption_map h
      obtain ⟨rfl, rfl⟩ := Prod.mk.inj heq
      exact .readSome (List.cons_ne_nil _ _) hv
    · obtain ⟨rfl, rfl⟩ := Prod.mk.inj (Option.some.inj h)
      exact .readFailed
    · cases h
  | handleWrite c =>
    simp only [Op.run] at h
    split at h
    · obtain ⟨-, h⟩ := Option.ite_none_right_eq_some.mp h
      obtain ⟨⟨v, drained⟩, hv, heq⟩ := exists_ok_of_toOption_map h
      obtain ⟨rfl, rfl⟩ := Prod.mk.inj heq
      cases drained with
      | false => exact .writeSome hv
      | true => exact .writeAll hv
    · cases h
  | closeCallback c =>
    obtain ⟨halive, h⟩ := Option.ite_none_right_eq_some.mp h
    split at h
    · next ht =>
      obtain ⟨rfl, rfl⟩ := Prod.mk.inj (Option.some.inj h)
      exact .closeHere halive ht
    · next ht =>
      obtain ⟨rfl, rfl⟩ := Prod.mk.inj (Option.some.inj h)
      exact .closeThere halive ht
  | send c len =>
    obtain ⟨rfl, rfl⟩ := Prod.mk.inj (Option.some.inj h)
    split
    · next hs =>
      split
      · next ht => exact .sendHere hs ht
      · next ht => exact .sendThere hs ht
    · next hs => exact .sendNot hs
  | sendInLoop c len =>
    obtain ⟨rfl, rfl⟩ := Prod.mk.inj (Option.some.inj h)
    split
    · next hs => exact .sendLate hs
    · next hs => exact .sendInLoop hs
  | sendBody c len =>
    simp only [Op.run] at h
    split at h
    · obtain ⟨-, h⟩ := Option.ite_none_right_eq_some.mp h
      obtain ⟨v, hv, heq⟩ := exists_ok_of_toOption_map h
      obtain ⟨rfl, rfl⟩ := Prod.mk.inj heq
      exact .sendBody hv
    · cases h
  | shutdown c =>
    obtain ⟨rfl, rfl⟩ := Prod.mk.inj (Option.some.inj h)
    split
    · next hs => exact .shutdown hs
    · next hs => exact .shutdownNot hs
  | shutdownRun c =>
    simp only [Op.run] at h
    split at h
    · next ht =>
      obtain ⟨rfl, rfl⟩ := Prod.mk.inj (Option.some.inj h)
      exact .shutdownHere ht
    · next ht =>
      obtain ⟨rfl, rfl⟩ := Prod.mk.inj (Option.some.inj h)
      exact .shutdownThere ht
  | user cs buffer => cases h
  | destroyItem c =>
    simp only [Op.run] at h
    split at h
    · next ht =>
      obtain ⟨rfl, rfl⟩ := Prod.mk.inj (Option.some.inj h)
      exact .destroyHere ht
    · next ht =>
      obtain ⟨rfl, rfl⟩ := Prod.mk.inj (Option.some.inj h)
      exact .destroyThere ht
  | removeAcceptor =>
    obtain ⟨⟨p, ch⟩, hp, h⟩ := Option.bind_eq_some_iff.mp h
    obtain ⟨⟨p', ch'⟩, hp', h⟩ := Option.bind_eq_some_iff.mp h
    obtain ⟨rfl, rfl⟩ := Prod.mk.inj (Option.some.inj h)
    exact .removeAcceptor (Except.toOption_eq_some_iff.mp hp) (Except.toOption_eq_some_iff.mp hp')

namespace Server

variable {s s' : Server} {a : Act}

/-- The steps of the server. -/
inductive Step (cfg : Config) (s : Server) : Act → Server → Prop
  | enter {l} (hl : l ≤ cfg.numThreads) (h : s.AtPhase l .outside) :
      Step cfg s (.enter l) (s.setPhase l .polling)
  | leave {l} (h : s.AtPhase l .polling) : Step cfg s (.leave l) (s.setPhase l .outside)
  | poll {l ready active} (h : s.AtPhase l .polling) (hnodup : (ready.map Prod.fst).Nodup)
      (hactive : (s.objects.poller l).fillActiveChannels ready = some active) :
      Step cfg s (.poll l ready) (s.setPhase l (.dispatching active))
  | dispatch {l x active} (h : s.AtPhase l (.dispatching (x :: active)))
      (halive : s.ChannelAlive cfg x.1) :
      Step cfg s (.dispatch l)
        ((s.setPhase l (.dispatching active)).setStack (.loop l) (handleEvent x))
  | swap {l} (h : s.AtPhase l (.dispatching [])) :
      Step cfg s (.swap l) { s.setPhase l (.functors [] (s.objects.pendingFunctors l)) with
        objects := s.objects.clearPending l }
  | next {l ran f rest} (h : s.AtPhase l (.functors ran (f :: rest))) :
      Step cfg s (.next l)
        ((s.setPhase l (.functors (ran ++ [f]) rest)).setStack (.loop l) [f.op])
  | release {l ran} (h : s.AtPhase l (.functors ran [])) :
      Step cfg s (.release l) (s.setPhase l .polling)
  | exec {t i op rest o ops} (hstack : s.stack t = op :: rest) (hready : s.Ready cfg op i)
      (hrun : Op.Runs cfg s.objects t i op o ops) :
      Step cfg s (.exec t i) (s.executed t op o (ops ++ rest))
  | send {t c len cs buffer} (hframe : s.frame t = some (cs, buffer)) (hsees : s.Sees t cs c) :
      Step cfg s (.user t (.send c len)) (s.setStack t (.send c len :: s.stack t))
  | shutdown {t c cs buffer} (hframe : s.frame t = some (cs, buffer)) (hsees : s.Sees t cs c) :
      Step cfg s (.user t (.shutdown c)) (s.setStack t (.shutdown c :: s.stack t))
  | copy {t c heir cs buffer} (hframe : s.frame t = some (cs, buffer)) (hsees : s.Sees t cs c)
      (halive : s.Alive cfg c) :
      Step cfg s (.user t (.copy c heir)) { s with held := (heir, c) :: s.held }
  | drop {t c cs buffer} (hframe : s.frame t = some (cs, buffer)) (hheld : (t, c) ∈ s.held) :
      Step cfg s (.user t (.drop c)) { s with held := s.held.erase (t, c) }
  | queueInLoop {t l cs' cs buffer} (hframe : s.frame t = some (cs, buffer))
      (hl : l ≤ cfg.numThreads) (hsees : ∀ c ∈ cs', s.Sees t cs c ∧ s.Alive cfg c) :
      Step cfg s (.user t (.queueInLoop l cs'))
        { s with objects := s.objects.queueInLoop l (.user cs') }
  | setHighWaterMark {t c n cs buffer} (hframe : s.frame t = some (cs, buffer))
      (hsees : s.Sees t cs c) (halive : s.Alive cfg c) :
      Step cfg s (.user t (.setHighWaterMarkCallBack c n)) (s.setConn c
        { s.objects.conn c with highWaterMarkCallback := true, highWaterMark := n })
  | retrieve {t c len cs} (hframe : s.frame t = some (cs, some c)) (halive : s.Alive cfg c) :
      Step cfg s (.user t (.retrieve c len)) (s.setConn c
        { s.objects.conn c with inputBuffer := (s.objects.conn c).inputBuffer.retrieve len })
  | ret {t cs buffer rest} (hstack : s.stack t = .user cs buffer :: rest) :
      Step cfg s (.user t .ret) (s.setStack t rest)
  | destroyServer {order} (halive : s.objects.serverAlive = true) (h : s.AtPhase 0 .outside)
      (horder : order.isPerm (s.objects.connections.map Prod.snd) = true) :
      Step cfg s (.destroyServer order)
        { s.setStack (.loop 0) (order.map Op.destroyItem ++ [.removeAcceptor]) with
          objects := { s.objects with serverAlive := false } }

/-- What the code of the application does is one of these steps. -/
lemma userStep_cases {a : UserAct} (h : s.userStep cfg t a = some s') :
    Step cfg s (.user t a) s' := by
  unfold userStep at h
  split at h
  · cases h
  · next cs buffer hframe =>
    cases a with
    | send c len =>
      obtain ⟨hsees, h⟩ := Option.ite_none_right_eq_some.mp h
      obtain rfl := Option.some.inj h
      exact .send hframe hsees
    | shutdown c =>
      obtain ⟨hsees, h⟩ := Option.ite_none_right_eq_some.mp h
      obtain rfl := Option.some.inj h
      exact .shutdown hframe hsees
    | copy c heir =>
      obtain ⟨⟨hsees, halive⟩, h⟩ := Option.ite_none_right_eq_some.mp h
      obtain rfl := Option.some.inj h
      exact .copy hframe hsees halive
    | drop c =>
      obtain ⟨hheld, h⟩ := Option.ite_none_right_eq_some.mp h
      obtain rfl := Option.some.inj h
      exact .drop hframe hheld
    | queueInLoop l cs' =>
      obtain ⟨⟨hl, hsees⟩, h⟩ := Option.ite_none_right_eq_some.mp h
      obtain rfl := Option.some.inj h
      exact .queueInLoop hframe hl hsees
    | setHighWaterMarkCallBack c n =>
      obtain ⟨⟨hsees, halive⟩, h⟩ := Option.ite_none_right_eq_some.mp h
      obtain rfl := Option.some.inj h
      exact .setHighWaterMark hframe hsees halive
    | retrieve c len =>
      obtain ⟨⟨hbuffer, halive⟩, h⟩ := Option.ite_none_right_eq_some.mp h
      obtain rfl := Option.some.inj h
      rw [hbuffer] at hframe
      exact .retrieve hframe halive
    | ret =>
      dsimp only at h
      split at h
      · next hstack =>
        obtain rfl := Option.some.inj h
        exact .ret hstack
      · cases h

/-- Every step of the server is one of these. -/
theorem step_cases (h : s.step cfg a = some s') : Step cfg s a s' := by
  cases a with
  | enter l =>
    obtain ⟨⟨hl, hphase⟩, h⟩ := Option.ite_none_right_eq_some.mp h
    obtain rfl := Option.some.inj h
    exact .enter hl hphase
  | leave l =>
    obtain ⟨hphase, h⟩ := Option.ite_none_right_eq_some.mp h
    obtain rfl := Option.some.inj h
    exact .leave hphase
  | poll l ready =>
    obtain ⟨⟨hphase, hnodup⟩, h⟩ := Option.ite_none_right_eq_some.mp h
    obtain ⟨active, hactive, rfl⟩ := Option.map_eq_some_iff.mp h
    exact .poll hphase hnodup hactive
  | dispatch l =>
    simp only [step] at h
    split at h
    · next x active hphase =>
      obtain ⟨⟨hstack, halive⟩, h⟩ := Option.ite_none_right_eq_some.mp h
      obtain rfl := Option.some.inj h
      exact .dispatch ⟨hphase, hstack⟩ halive
    · cases h
  | swap l =>
    obtain ⟨hphase, h⟩ := Option.ite_none_right_eq_some.mp h
    obtain rfl := Option.some.inj h
    exact .swap hphase
  | next l =>
    simp only [step] at h
    split at h
    · next hphase =>
      obtain ⟨hstack, h⟩ := Option.ite_none_right_eq_some.mp h
      obtain rfl := Option.some.inj h
      exact .next ⟨hphase, hstack⟩
    · cases h
  | release l =>
    simp only [step] at h
    split at h
    · next hphase =>
      obtain ⟨hstack, h⟩ := Option.ite_none_right_eq_some.mp h
      obtain rfl := Option.some.inj h
      exact .release ⟨hphase, hstack⟩
    · cases h
  | exec t i =>
    simp only [step, exec] at h
    split at h
    · cases h
    · next hstack =>
      obtain ⟨hready, h⟩ := Option.ite_none_right_eq_some.mp h
      obtain ⟨⟨o, ops⟩, hrun, rfl⟩ := Option.map_eq_some_iff.mp h
      exact .exec hstack hready (Op.run_cases hrun)
  | user t a => exact userStep_cases h
  | destroyServer order =>
    obtain ⟨⟨halive, hphase, horder⟩, h⟩ := Option.ite_none_right_eq_some.mp h
    obtain rfl := Option.some.inj h
    exact .destroyServer halive hphase horder

end Server

end HzhMuduo
