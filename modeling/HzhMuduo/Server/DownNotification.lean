import HzhMuduo.Server.Registry

/-!
# The last call

When a connection goes down, `connectionCallback_` is called once more, and that should be the
last the application hears of the connection (`DownIsFinal`).  It is, unless a read handler that
runs after the close finds data or the end of the stream, or a write-complete or high-water
functor was already queued when the connection was closed (`Conclusive`).
-/

namespace HzhMuduo

open MachineWord TcpConnection TransitionSystem

/-- Once the connection callback was called with the connection down, no callback of the
connection is called. -/
def DownIsFinal (c : ConnId) (trace : List Event) : Prop :=
  trace.Pairwise fun e e' => e.op = .connectionCallback c → e.state ≠ .kConnected →
    e'.op.conn? = some c → e'.op.callback = false

instance (c : ConnId) (trace : List Event) : Decidable (DownIsFinal c trace) :=
  inferInstanceAs (Decidable (List.Pairwise _ _))

namespace Server

variable {cfg : Config} {s s' : Server} {a : Act} {c : ConnId}

/-- The discipline that the source does not enforce: a read on a channel without events reports
an error, and when `handleClose` is called, no functor that notifies the application is queued;
and `shutdown` does not overwrite the state of a connection that is down (`Settled`). -/
def Conclusive (s : Server) (a : Act) : Prop :=
  s.Settled a ∧ ∀ t i, a = .exec t i → ∀ c rest,
    (s.stack t = .handleRead c :: rest → (s.objects.conn c).channel.isNoneEvent = true →
      ∃ e, i = .read (.failed e)) ∧
    (s.stack t = .handleClose c :: rest → ∀ f ∈ s.waiting 0, ¬ f.Notifies c)

/-- The application was told that the connection is down. -/
def Down (s : Server) (c : ConnId) : Prop :=
  ∃ e ∈ s.trace, e.op = .connectionCallback c ∧ e.state ≠ .kConnected

/-- The step calls the connection callback of a connection that is down. -/
def TellsDown (s : Server) (a : Act) (c : ConnId) : Prop :=
  ∃ t i rest, a = .exec t i ∧ s.stack t = .connectionCallback c :: rest ∧
    (s.objects.conn c).state ≠ .kConnected

lemma down_executed {t : Tid} {op : Op} {ops : List Op} {o : Objects} :
    (s.executed t op o ops).Down c ↔
      s.Down c ∨ op = .connectionCallback c ∧ (s.objects.conn c).state ≠ .kConnected := by
  have hstate : op = .connectionCallback c → s.stateAt op = (s.objects.conn c).state := by
    rintro rfl
    rfl
  simp only [Down, executed, List.mem_append, List.mem_singleton, or_and_right, exists_or]
  refine or_congr_right ⟨?_, ?_⟩
  · rintro ⟨e, rfl, hop, hdown⟩
    exact ⟨hop, hstate hop ▸ hdown⟩
  · rintro ⟨hop, hdown⟩
    exact ⟨_, rfl, hop, (hstate hop).symm ▸ hdown⟩

/-- Only such a step tells the application. -/
lemma Down.of_step (hstep : Step cfg s a s') (h : s'.Down c) : s.Down c ∨ s.TellsDown a c := by
  cases hstep with
  | exec hstack hready hrun =>
    refine (down_executed.mp h).imp_right ?_
    rintro ⟨rfl, hdown⟩
    exact ⟨_, _, _, rfl, hstack, hdown⟩
  | _ => exact .inl h

/-- Nothing is left of a closed connection that would call the application, but for the down
notification itself, and after that not even this. -/
structure Muted (s : Server) (c : ConnId) : Prop where
  callbacks : ∀ t, ∀ op ∈ s.stack t, op.conn? = some c → op.callback = true →
    op = .connectionCallback c
  close : ∀ t, .handleClose c ∉ s.stack t
  notify : ∀ l, ∀ f ∈ s.waiting l, ¬ f.Notifies c
  last : s.Down c → ∀ t, .connectionCallback c ∉ s.stack t

namespace Muted

/-- A functor that starts a callback notifies the application. -/
lemma notifies_of_callback {f : Functor} (hf : f.conn? = some c) (h : f.op.callback = true) :
    f.Notifies c := by
  cases f with
  | writeCompleteCallback c' =>
    obtain rfl := Option.some.inj hf
    exact .inl rfl
  | highWaterMarkCallback c' len =>
    obtain rfl := Option.some.inj hf
    exact .inr ⟨len, rfl⟩
  | _ => cases h

lemma conn?_of_notifies {f : Functor} (h : f.Notifies c) : f.conn? = some c := by
  rcases h with rfl | ⟨n, rfl⟩ <;> rfl

/-- Steps that leave the connection alone. -/
lemma untouched (hM : Muted s c) (h : Untouched c s s') : Muted s' c := by
  refine ⟨fun t op hop hc => hM.callbacks t op ((h.stack t op hc).mp hop) hc,
    fun t hop => hM.close t ((h.stack t _ rfl).mp hop), fun l f hf hn => ?_,
    fun ⟨e, he, hop, hdown⟩ t hcall => ?_⟩
  · exact hM.notify l f ((h.waiting l f (conn?_of_notifies hn)).mp hf) hn
  · refine hM.last ⟨e, (h.trace e ?_).mp he, hop, hdown⟩ t ((h.stack t _ rfl).mp hcall)
    rw [hop]
    rfl

/-- The call of a functor. -/
lemma next (hM : Muted s c) {l : LoopId} {ran rest : List Functor} {f : Functor}
    (h : s.AtPhase l (.functors ran (f :: rest))) (hf : f.conn? = some c) :
    Muted ((s.setPhase l (.functors (ran ++ [f]) rest)).setStack (.loop l) [f.op]) c := by
  have hmute : f.op.callback = false := by
    by_contra hcallback
    have hcallback : f.op.callback = true := by simpa using hcallback
    exact hM.notify l f (waiting_of_next h.1) (notifies_of_callback hf hcallback)
  refine ⟨fun t op hop hc hcall => ?_, fun t hop => ?_,
    fun l' g hg => hM.notify l' g (waiting_next h.1 hg), fun hd t hop => ?_⟩
  · rcases mem_next hop with ⟨-, rfl⟩ | hold
    · rw [hmute] at hcall
      cases hcall
    · exact hM.callbacks t op hold hc hcall
  · rcases mem_next hop with ⟨-, heq⟩ | hold
    · cases f <;> cases heq
    · exact hM.close t hold
  · rcases mem_next hop with ⟨-, heq⟩ | hold
    · rw [← heq] at hmute
      cases hmute
    · exact hM.last hd t hold

/-- A call of the application. -/
lemma call (hM : Muted s c) {t : Tid} {op : Op}
    (hop : (∃ len, op = .send c len) ∨ op = .shutdown c) :
    Muted (s.setStack t (op :: s.stack t)) c := by
  have hclass : op.callback = false ∧ op ≠ .handleClose c := by
    rcases hop with ⟨len, rfl⟩ | rfl <;> exact ⟨rfl, nofun⟩
  refine ⟨fun t' op' hop' hc hcall => ?_, fun t' hop' => ?_, hM.notify, fun hd t' hop' => ?_⟩
  · rcases mem_call hop' with rfl | hold
    · rw [hclass.1] at hcall
      cases hcall
    · exact hM.callbacks t' op' hold hc hcall
  · rcases mem_call hop' with heq | hold
    · exact hclass.2 heq.symm
    · exact hM.close t' hold
  · rcases mem_call hop' with heq | hold
    · rw [← heq] at hclass
      cases hclass.1
    · exact hM.last hd t' hold

/-- A handler without events to handle. -/
lemma read_failed {i : Input} {ops : List Op} {o : Objects} {t : Tid}
    (hrun : Op.Runs cfg s.objects t i (.handleRead c) o ops) (hi : ∃ e, i = .read (.failed e)) :
    ops = [.handleError c] := by
  obtain ⟨e, rfl⟩ := hi
  cases hrun with
  | readFailed => rfl

/-- A write handler without write interest queues nothing. -/
lemma write_idle {i : Input} {ops : List Op} {o : Objects} {t : Tid} {l : LoopId} {f : Functor}
    (hrun : Op.Runs cfg s.objects t i (.handleWrite c) o ops)
    (hwriting : (s.objects.conn c).channel.isWriting = false) (hf : f ∈ o.pendingFunctors l) :
    f ∈ s.objects.pendingFunctors l := by
  have hidle : ∀ v w drained, (s.objects.view c).writeOutput c w = .ok (v, drained) →
      f ∈ (s.objects.setView c v).pendingFunctors l → f ∈ s.objects.pendingFunctors l := by
    intro v w drained h hf
    obtain ⟨fs, socket, b, p, ch, -, ⟨rfl, -, -⟩ | ⟨hwrite, -⟩, rfl⟩ := View.writeOutput_effect h
    · by_cases hl : l = (s.objects.conn c).loop
      · subst hl
        simpa [Objects.setView, Objects.view] using hf
      · simpa [Objects.setView, Objects.view, Function.update_of_ne hl] using hf
    · exact absurd (hwrite.symm.trans hwriting) (by decide)
  cases hrun with
  | writeSome h => exact hidle _ _ _ h hf
  | writeAll h => exact hidle _ _ _ h hf

section Exec

variable {t : Tid} {i : Input} {op : Op} {rest ops : List Op} {o : Objects}

/-- Every operation leaves a muted connection muted. -/
lemma exec (hM : Muted s c) (hC : Closed s c) (hcfg : cfg.numThreads = 0) (hR : Registered cfg s)
    (hS : Shape cfg s) (hok : s.Conclusive (.exec t i)) (hstack : s.stack t = op :: rest)
    (hrun : Op.Runs cfg s.objects t i op o ops) (hop : op.conn? = some c) :
    Muted (s.executed t op o (ops ++ rest)) c := by
  have hmem : op ∈ s.stack t := hstack ▸ List.mem_cons_self
  have hclass := hC.stack t op hmem hop
  have hnone : (s.objects.conn c).channel.isNoneEvent = true := by
    rw [Channel.isNoneEvent, hC.events]
    exact beq_self_eq_true _
  have hwriting : (s.objects.conn c).channel.isWriting = false := by
    rw [Channel.isWriting, hC.events]
    exact EventMask.has_kNoneEvent _
  -- nothing that follows calls the application or closes the connection
  have hfollow : ∀ op' ∈ ops, op'.conn? = some c → op'.callback = false ∧ op' ≠ .handleClose c := by
    intro op' hop' hc
    by_cases hread : op = .handleRead c
    · subst hread
      have hi := ((hok.2 t i rfl) c rest).1 hstack hnone
      rw [read_failed hrun hi, List.mem_singleton] at hop'
      subst hop'
      exact ⟨rfl, by simp⟩
    · cases hrun.follows hop' with
      | up => rcases hclass with h | h <;> cases h
      | destroyDown => rcases hclass with h | h <;> cases h
      | down =>
        obtain rfl := Option.some.inj hop
        exact absurd hmem (hM.close t)
      | readEnd | message =>
        obtain rfl := Option.some.inj hop
        exact absurd rfl hread
      | _ => exact ⟨rfl, by simp⟩
  have hqueue : ∀ l, ∀ f ∈ (s.executed t op o (ops ++ rest)).waiting l, f.Notifies c →
      f ∈ s.waiting l := by
    intro l f hf hn
    rcases List.mem_append.mp hf with hf | hf
    · rcases hrun.effect.mem_pending hR.objects.loop hf with hold | ⟨hqueues, -⟩
      · exact List.mem_append_left _ hold
      · cases op with
        | handleWrite c' =>
          obtain rfl := Option.some.inj hop
          exact List.mem_append_left _ (write_idle hrun hwriting hf)
        | sendBody c' len =>
          obtain rfl := Option.some.inj hop
          exact absurd (hS.eq_base hmem rfl ▸ hmem) (hC.unsent len)
        | accept => cases hop
        | _ =>
          rcases hn with rfl | ⟨n, rfl⟩ <;> cases hqueues
    · exact List.mem_append_right _ hf
  refine ⟨fun t' op' hop' hc hcall => ?_, fun t' hop' => ?_,
    fun l f hf hn => hM.notify l f (hqueue l f hf hn) hn, fun hd t' hop' => ?_⟩
  · rcases mem_executed hstack hop' with ⟨-, hnew⟩ | ⟨hold, -⟩
    · rw [(hfollow op' hnew hc).1] at hcall
      cases hcall
    · exact hM.callbacks t' op' hold hc hcall
  · rcases mem_executed hstack hop' with ⟨-, hnew⟩ | ⟨hold, -⟩
    · exact (hfollow _ hnew rfl).2 rfl
    · exact hM.close t' hold
  · rcases mem_executed hstack hop' with ⟨-, hnew⟩ | ⟨hold, hrest⟩
    · cases (hfollow _ hnew rfl).1
    · rcases down_executed.mp hd with hd | ⟨rfl, -⟩
      · exact hM.last hd t' hold
      · have hthreads : t' = t :=
          (hS.eq_base_of_cfg hcfg hold rfl).trans (hS.eq_base_of_cfg hcfg hmem rfl).symm
        cases hS.top _ _ _ hstack _ (hrest hthreads)

/-- `handleClose` mutes the connection. -/
lemma of_close (hd : ¬ s.Down c) (hcfg : cfg.numThreads = 0) (hR : Registered cfg s)
    (hS : Shape cfg s) (hok : s.Conclusive (.exec t i))
    (hstack : s.stack t = .handleClose c :: rest)
    (hrun : Op.Runs cfg s.objects t i (.handleClose c) o ops) :
    Muted (s.executed t (.handleClose c) o (ops ++ rest)) c := by
  have hmem : .handleClose c ∈ s.stack t := hstack ▸ List.mem_cons_self
  obtain rfl : t = .loop 0 := hS.eq_base hmem rfl
  have hnotify := ((hok.2 (.loop 0) i rfl) c rest).2 hstack
  -- what was there and does not run on the threads of the application is below on the stack
  have hbelow : ∀ t', ∀ op' ∈ s.stack t', op'.remote = false →
      (t' = .loop 0 → op' ∈ rest) → op'.waits = true := by
    intro t' op' hop' hremote hrest
    exact hS.top _ _ _ hstack op' (hrest (hS.eq_base_of_cfg hcfg hop' hremote))
  refine ⟨fun t' op' hop' hc hcall => ?_, fun t' hop' => ?_, fun l f hf hn => ?_, fun hd' => ?_⟩
  · rcases mem_executed hstack hop' with ⟨-, hnew⟩ | ⟨hold, hrest⟩
    · cases hrun.follows hnew with
      | down => rfl
      | close => cases hcall
      | closeRelease => cases hc
    · have hwaits := hbelow t' op' hold (by cases op' <;> first | rfl | cases hcall) hrest
      cases op' <;> first | (cases hwaits; done) | cases hcall
  · rcases mem_executed hstack hop' with ⟨-, hnew⟩ | ⟨hold, hrest⟩
    · cases hrun.follows hnew
    · cases hbelow t' _ hold rfl hrest
  · rcases waiting_executed hR hrun hf with hold | hqueues
    · by_cases hl : l = 0
      · exact hnotify f (hl ▸ hold) hn
      · obtain ⟨l, rfl⟩ := Nat.exists_eq_succ_of_ne_zero hl
        have hqueued : f.op.onSubLoop = true := hS.queued (l + 1) f hold
        rcases hn with rfl | ⟨n, rfl⟩ <;> cases hqueued
    · cases hqueues
  · rcases down_executed.mp hd' with hd' | ⟨heq, -⟩
    · exact absurd hd' hd
    · cases heq

end Exec

/-- Every conclusive step leaves a muted connection muted. -/
lemma step (hM : Muted s c) (hC : Closed s c) (hcfg : cfg.numThreads = 0) (hR : Registered cfg s)
    (hS : Shape cfg s) (hok : s.Conclusive a) (hstep : Step cfg s a s') : Muted s' c := by
  cases hstep.concerns hR c with
  | untouched h hnot => exact hM.untouched h
  | poll h hnodup hactive =>
    refine ⟨hM.callbacks, hM.close, fun l f hf hn => ?_, hM.last⟩
    exact hM.notify l f (((kept_poll h).waiting l f (conn?_of_notifies hn)).mp hf) hn
  | dispatch h halive => exact absurd (hS.mem_active h.1) (hC.inactive _)
  | next h hf => exact hM.next h hf
  | exec hstack hready hrun hc =>
    have hop := hc.resolve_right fun hnew => hC.created.ne hnew.conn
    exact hM.exec hC hcfg hR hS hok hstack hrun hop
  | call hframe hsees hop => exact hM.call hop
  | destroyServer halive h => cases hok.1

end Muted

/-- The stages of a connection, with what the application was told. -/
inductive Course (s : Server) (c : ConnId) : Prop
  | unborn (h : Unborn s c) (hd : ¬ s.Down c)
  | early (h : Early s c) (hd : ¬ s.Down c)
  | up (h : Up s c) (hd : ¬ s.Down c)
  | closed (h : Closed s c) (hm : Muted s c)

namespace Course

/-- The down notification is only sent when the connection is closed. -/
lemma closed_of_tellsDown (h : Course s c) (hS : Shape cfg s) (htells : s.TellsDown a c) :
    Closed s c := by
  obtain ⟨t, i, rest, -, hstack, hdown⟩ := htells
  have hmem : .connectionCallback c ∈ s.stack t := hstack ▸ List.mem_cons_self
  cases h with
  | unborn hU => exact absurd rfl (hU.stack t _ hmem)
  | early hE =>
    obtain ⟨rfl, -⟩ := hE.stack t _ hmem rfl
    cases hE.progress with
    | establishing hop => exact nomatch hS.eq_head hstack hop rfl
    | enabling hop => exact nomatch hS.eq_head hstack hop rfl
    | announcing hop hconnected => exact absurd hconnected hdown
  | up hU => cases hU.stack t _ hmem rfl
  | closed hC hM => exact hC

/-- Once the application was told, its callbacks are not on any stack. -/
lemma callback_eq_false (h : Course s c) (hd : s.Down c) {t : Tid} {op : Op} (hop : op ∈ s.stack t)
    (hc : op.conn? = some c) : op.callback = false := by
  cases h with
  | unborn hU hnot => exact absurd hd hnot
  | early hE hnot => exact absurd hd hnot
  | up hU hnot => exact absurd hd hnot
  | closed hC hM =>
    by_contra hcall
    have hcall : op.callback = true := by simpa using hcall
    obtain rfl := hM.callbacks t op hop hc hcall
    exact hM.last hd t hop

/-- Every conclusive step keeps the course. -/
theorem step (h : Course s c) (hcfg : cfg.numThreads = 0) (hR : Registered cfg s)
    (hS : Shape cfg s) (hrhythm : Rhythm s) (hok : s.Conclusive a) (hstep : Step cfg s a s') :
    Course s' c := by
  have hnot : ¬ s.Down c → ¬ Closed s c → ¬ s'.Down c := by
    intro hd hopen hd'
    exact (hd'.of_step hstep).elim hd fun htells => hopen (h.closed_of_tellsDown hS htells)
  cases h with
  | unborn hU hd =>
    have hd' := hnot hd fun hC => absurd hC.created (Nat.not_lt_of_le hU.created)
    exact (hU.step hR hS hstep hcfg).elim (.unborn · hd') (.early · hd')
  | early hE hd =>
    have hd' := hnot hd hE.not_closed
    exact (hE.step hR hS hok.1 hstep).elim (.early · hd') (.up · hd')
  | up hU hd =>
    have hd' := hnot hd hU.not_closed
    by_cases hclose : s.Closes a c
    · refine .closed (hU.step_of_closes hR hS hstep hclose) ?_
      obtain ⟨t, i, rest, rfl, hstack⟩ := hclose
      cases hstep with
      | @exec t i op rest' o ops hstack' hready hrun =>
        obtain ⟨rfl, rfl⟩ := List.cons.inj (hstack'.symm.trans hstack)
        exact .of_close hd hcfg hR hS hok hstack' hrun
    · exact .up (hU.step hR hS hok.1 hstep hrhythm hclose) hd'
  | closed hC hM =>
    exact .closed (hC.step hR hS hok.1 hstep hrhythm) (hM.step hC hcfg hR hS hok hstep)

end Course

/-- In conclusive runs every connection keeps its course. -/
theorem course_of_reach (hcfg : cfg.numThreads = 0) (h : (system cfg).ReachWhere Conclusive s) :
    ∀ c, Course s c := by
  refine h.invariant_of (I := fun s => ∀ c, Course s c)
    (J := fun s => Registered cfg s ∧ Shape cfg s ∧ Rhythm s)
    (fun s hs => ⟨registered_of_reach hs.reach, shape_of_reach hs.reach, rhythm_of_reach hs.reach⟩)
    ?_ ?_
  · rintro s rfl c
    refine .unborn (unborn_new cfg c) ?_
    rintro ⟨e, he, -⟩
    cases he
  · rintro s a s' ⟨hR, hS, hrhythm⟩ - hcourse hok hs c
    exact (hcourse c).step hcfg hR hS hrhythm hok (step_cases hs)

/-- Executing an operation keeps the down notifications of the trace final. -/
lemma downIsFinal_executed (hcourse : Course s c) (h : DownIsFinal c s.trace) {t : Tid} {op : Op}
    {rest ops : List Op} {o : Objects} (hstack : s.stack t = op :: rest) :
    DownIsFinal c (s.executed t op o ops).trace := by
  refine List.pairwise_append.mpr ⟨h, List.pairwise_singleton _ _, ?_⟩
  intro e he e' he' hop hdown hc
  obtain rfl := List.mem_singleton.mp he'
  exact hcourse.callback_eq_false ⟨e, he, hop, hdown⟩ (hstack ▸ List.mem_cons_self) hc

/-- On a server without sub-loops, in runs that meet `Conclusive`, the connection callback is
called at most once with the connection down, and no callback of the connection after that. -/
theorem downIsFinal_of_reach (hcfg : cfg.numThreads = 0)
    (h : (system cfg).ReachWhere Conclusive s) (c : ConnId) : DownIsFinal c s.trace := by
  refine h.invariant_of (I := fun s => DownIsFinal c s.trace) (J := fun s => Course s c)
    (fun s hs => course_of_reach hcfg hs c) ?_ ?_
  · rintro s rfl
    exact .nil
  · intro s a s' hcourse _ hI _ hs
    cases step_cases hs with
    | exec hstack hready hrun => exact downIsFinal_executed hcourse hI hstack
    | _ => exact hI

/-- What a run of the base loop alone has to heed: a read on a channel without events does not
come up, and nothing of the connection waits when it is closed. -/
def quick (s : Server) : Op → Bool
  | .handleRead c => !(s.objects.conn c).channel.isNoneEvent
  | .handleClose c => (s.waiting 0).all fun f => f.conn? ≠ some c
  | _ => true

/-- Ordinary steps that are quick. -/
def Quick (s : Server) (a : Act) : Prop :=
  s.Ordinary a ∧ (s.stack (.loop 0)).head?.all s.quick = true

instance (s : Server) (a : Act) : Decidable (s.Quick a) := inferInstanceAs (Decidable (_ ∧ _))

/-- Quick steps are conclusive. -/
lemma conclusive_of_quick (hsettled : s.Settled a) (h : s.Quick a) : s.Conclusive a := by
  refine ⟨hsettled, ?_⟩
  rintro t i rfl c rest
  obtain ⟨⟨htid, -⟩, hquick⟩ := h
  obtain rfl : t = .loop 0 := htid
  refine ⟨fun hstack hnone => ?_, fun hstack f hf hn => ?_⟩
  · rw [hstack] at hquick
    simp [quick, hnone] at hquick
  · rw [hstack] at hquick
    have hall := List.all_eq_true.mp hquick f hf
    exact of_decide_eq_true hall (Muted.conn?_of_notifies hn)

/-- In a run that is only quick, the discipline is kept. -/
lemma conclusive_of_reach_quick (h : (system cfg).ReachWhere Quick s) :
    (system cfg).ReachWhere Conclusive s := by
  refine h.mono_of (J := Uninterrupted)
    (fun s hs => uninterrupted_of_reach (hs.mono fun _ _ h => h.1)) fun s a hU ha => ?_
  exact conclusive_of_quick (hU.settled ha.1) ha

theorem downIsFinal_of_reach_closedRun :
    ∃ s, (system (exampleConfig 0 false)).ReachWhere Conclusive s ∧
      ⟨.loop 0, .connectionCallback 0, .kDisconnected⟩ ∈ s.trace ∧ DownIsFinal 0 s.trace := by
  obtain ⟨s, hs, hdown⟩ := exists_reach_of_run
    (M := (system (exampleConfig 0 false)).restrict Quick) (s := new (exampleConfig 0 false))
    (v := true) closedRun
    (fun s => decide (⟨.loop 0, .connectionCallback 0, .kDisconnected⟩ ∈ s.trace))
    rfl (by decide +kernel)
  have hreach := conclusive_of_reach_quick (Reach.of_restrict hs)
  exact ⟨s, hreach, of_decide_eq_true hdown, downIsFinal_of_reach rfl hreach 0⟩

/-- The peer closes the connection while a write-complete notification is queued. -/
def lateNotificationRun : List Act :=
  [.enter 0, .poll 0 [(3, EPOLLIN)], .dispatch 0,
    .exec (.loop 0) (.accept (some 4)), .exec (.loop 0) .none, .exec (.loop 0) .none,
    .exec (.loop 0) .none, .user (.loop 0) (.queueInLoop 0 [0]), .user (.loop 0) .ret,
    .exec (.loop 0) .none, .exec (.loop 0) .none, .swap 0, .next 0,
    .user (.loop 0) (.send 0 1), .exec (.loop 0) .none, .exec (.loop 0) .none,
    .exec (.loop 0) (.write (.ofString [65]) (.wrote 1)), .user (.loop 0) .ret, .release 0,
    .poll 0 [(4, EPOLLIN)], .dispatch 0, .exec (.loop 0) (.read (.read [])),
    .exec (.loop 0) .none, .exec (.loop 0) .none, .user (.loop 0) .ret, .exec (.loop 0) .none,
    .exec (.loop 0) .none, .exec (.loop 0) .none, .exec (.loop 0) .none,
    .swap 0, .next 0, .exec (.loop 0) .none]

/-- A hang-up is reported together with urgent data, and the read finds the end of the stream. -/
def closedTwiceRun : List Act :=
  acceptedRun ++ [.poll 0 [(4, EPOLLHUP ||| EPOLLPRI)], .dispatch 0, .exec (.loop 0) .none,
    .exec (.loop 0) .none, .user (.loop 0) .ret, .exec (.loop 0) .none, .exec (.loop 0) .none,
    .exec (.loop 0) .none, .exec (.loop 0) (.read (.read [])), .exec (.loop 0) .none,
    .exec (.loop 0) .none]

/-- The write-complete callback is called after the application was told that the connection is
down; and in another run it is told twice. -/
theorem exists_callback_of_down :
    (∃ s, (system (exampleConfig 0 true)).Reach s ∧ ¬ DownIsFinal 0 s.trace) ∧
      ∃ s, (system (exampleConfig 0 false)).Reach s ∧ ¬ DownIsFinal 0 s.trace ∧
        1 < s.trace.count ⟨.loop 0, .connectionCallback 0, .kDisconnected⟩ := by
  constructor
  · obtain ⟨s, hs, hfinal⟩ := exists_reach_of_run (M := system (exampleConfig 0 true))
      (s := new (exampleConfig 0 true)) (v := false) lateNotificationRun
      (fun s => decide (DownIsFinal 0 s.trace)) rfl (by decide +kernel)
    exact ⟨s, hs, of_decide_eq_false hfinal⟩
  · obtain ⟨s, hs, hobserved⟩ := exists_reach_of_run (M := system (exampleConfig 0 false))
      (s := new (exampleConfig 0 false)) (v := (false, 2)) closedTwiceRun
      (fun s => (decide (DownIsFinal 0 s.trace),
        s.trace.count ⟨.loop 0, .connectionCallback 0, .kDisconnected⟩)) rfl (by decide +kernel)
    obtain ⟨hfinal, htwice⟩ := Prod.mk.inj hobserved
    refine ⟨s, hs, of_decide_eq_false hfinal, ?_⟩
    rw [htwice]
    decide

end Server

end HzhMuduo
