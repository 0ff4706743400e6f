import HzhMuduo.Server.DownNotification

/-!
# What the application hears of a connection

The callbacks of a connection tell the application that it is up, that a message arrived, that
everything was written, that much is buffered, and that it is down.  On a server without
sub-loops the first of these notices says that the connection is up, and no later one does; in
conclusive runs (`Conclusive`) the notices are a prefix of `up, …, down`.
-/

namespace HzhMuduo

open MachineWord TcpConnection TransitionSystem

/-- What a callback tells the application. -/
inductive Notice
  | up
  | message
  | writeComplete
  | highWaterMark (len : ℕ)
  | down
  deriving DecidableEq

/-- The notice given by a call of a callback of connection `c`: the connection callback asks the
connection for its state. -/
def Event.notice? (c : ConnId) (e : Event) : Option Notice :=
  match e.op with
  | .connectionCallback c' =>
    if c' = c then some (if e.state = .kConnected then .up else .down) else none
  | .messageCallback c' => if c' = c then some .message else none
  | .writeCompleteCallback c' => if c' = c then some .writeComplete else none
  | .highWaterMarkCallback c' len => if c' = c then some (.highWaterMark len) else none
  | _ => none

namespace Event

variable {c : ConnId} {e : Event} {n : Notice}

/-- Only the callbacks of the connection give notice. -/
lemma callback_of_notice? (h : e.notice? c = some n) :
    e.op.conn? = some c ∧ e.op.callback = true := by
  have hif : ∀ {c' : ConnId} {m : Notice}, (if c' = c then some m else none) = some n →
      some c' = some c := by
    intro c' m h
    by_contra hne
    rw [if_neg fun heq => hne (congrArg some heq)] at h
    cases h
  obtain ⟨t, op, state⟩ := e
  cases op with
  | connectionCallback | messageCallback | writeCompleteCallback | highWaterMarkCallback =>
    exact ⟨hif h, rfl⟩
  | _ => cases h

lemma notice?_eq_up : e.notice? c = some .up ↔
    e.op = .connectionCallback c ∧ e.state = .kConnected := by
  obtain ⟨t, op, state⟩ := e
  cases op <;> simp [notice?]

lemma notice?_eq_down : e.notice? c = some .down ↔
    e.op = .connectionCallback c ∧ e.state ≠ .kConnected := by
  obtain ⟨t, op, state⟩ := e
  cases op <;> simp [notice?]

end Event

namespace Server

variable {cfg : Config} {s s' : Server} {a : Act} {c : ConnId}

/-- The notices of connection `c`, in the order in which they were given. -/
def notices (s : Server) (c : ConnId) : List Notice := s.trace.filterMap (Event.notice? c)

lemma down_mem_notices : .down ∈ s.notices c ↔ s.Down c := by
  rw [notices, List.mem_filterMap]
  exact exists_congr fun e => and_congr_right fun _ => Event.notice?_eq_down

/-- The notice of connection `c` that the step gives. -/
def noticed (s : Server) (a : Act) (c : ConnId) : Option Notice :=
  match a with
  | .exec t _ =>
    match s.stack t with
    | [] => none
    | op :: _ => Event.notice? c ⟨t, op, s.stateAt op⟩
  | _ => none

lemma Step.notices_eq (hstep : Step cfg s a s') :
    s'.notices c = s.notices c ++ (s.noticed a c).toList := by
  cases hstep with
  | @exec t i op rest o ops hstack hready hrun =>
    rw [notices, executed, List.filterMap_append, noticed, hstack]
    cases h : Event.notice? c ⟨t, op, s.stateAt op⟩ with
    | none => simp [notices, h]
    | some n => simp [notices, h]
  | _ => exact (List.append_nil _).symm

/-- Such a step executes a callback. -/
lemma exists_callback_of_noticed {n : Notice} (h : s.noticed a c = some n) :
    ∃ t i op rest, a = .exec t i ∧ s.stack t = op :: rest ∧ op.conn? = some c ∧
      op.callback = true ∧ Event.notice? c ⟨t, op, s.stateAt op⟩ = some n := by
  cases a with
  | exec t i =>
    simp only [noticed] at h
    cases hstack : s.stack t with
    | nil =>
      rw [hstack] at h
      cases h
    | cons op rest =>
      rw [hstack] at h
      obtain ⟨hc, hcallback⟩ := Event.callback_of_notice? h
      exact ⟨t, i, op, rest, rfl, hstack, hc, hcallback, h⟩
  | _ => cases h

/-- The connection is announced by the call of its connection callback. -/
lemma noticed_eq_up (h : s.noticed a c = some .up) :
    ∃ t i rest, a = .exec t i ∧ s.stack t = .connectionCallback c :: rest ∧
      (s.objects.conn c).state = .kConnected := by
  obtain ⟨t, i, op, rest, rfl, hstack, -, -, hn⟩ := exists_callback_of_noticed h
  obtain ⟨rfl, hstate⟩ := Event.notice?_eq_up.mp hn
  exact ⟨t, i, rest, rfl, hstack, hstate⟩

/-! ### One step -/

/-- Nobody gives notice of a connection that does not exist. -/
lemma Unborn.noticed_eq_none (hU : Unborn s c) : s.noticed a c = none := by
  by_contra hne
  obtain ⟨n, hn⟩ := Option.ne_none_iff_exists'.mp hne
  obtain ⟨t, i, op, rest, -, hstack, hc, -⟩ := exists_callback_of_noticed hn
  exact hU.stack t op (hstack ▸ List.mem_cons_self) hc

/-- The first notice makes the connection known to the application. -/
lemma Early.noticed_eq_none (hE : Early s c) (hstep : Step cfg s a s') (hE' : Early s' c) :
    s.noticed a c = none := by
  by_contra hne
  obtain ⟨n, hn⟩ := Option.ne_none_iff_exists'.mp hne
  obtain ⟨t, i, op, rest, rfl, hstack, hc, hcallback, -⟩ := exists_callback_of_noticed hn
  obtain ⟨-, hstarting⟩ := hE.stack t op (hstack ▸ List.mem_cons_self) hc
  cases op with
  | connectionCallback c' =>
    obtain rfl := Option.some.inj hc
    cases hstep with
    | @exec t i op' rest' o ops hstack' hready hrun =>
      obtain ⟨rfl, rfl⟩ := List.cons.inj (hstack'.symm.trans hstack)
      cases hrun with
      | connectionCallback =>
        refine hE'.unseen.stack t [c'] none ?_ (List.mem_singleton_self _)
        exact mem_executed_self (List.mem_singleton_self _)
  | _ => first | (cases hstarting; done) | cases hcallback

/-- A connection is up when it was announced. -/
lemma Early.noticed_eq_up (hE : Early s c) (hR : Registered cfg s) (hS : Shape cfg s)
    (hok : s.Settled a) (hstep : Step cfg s a s') (hU : Up s' c) : s.noticed a c = some .up := by
  -- the stage is on the stack, and nothing that establishes a connection is left when it is up
  have hstage : ∃ op ∈ s.stack (.loop 0), op.conn? = some c ∧ op.starting = true := by
    cases hE.progress with
    | establishing hop | enabling hop | announcing hop => exact ⟨_, hop, rfl, rfl⟩
  have hnone : ∀ t, ∀ op ∈ s'.stack t, op.conn? = some c → op.starting = true → False := by
    intro t op hop hc hstarting
    have hserving := hU.stack t op hop hc
    cases op <;> first | (cases hstarting; done) | cases hserving
  obtain ⟨op₀, hop₀, hc₀, hstarting₀⟩ := hstage
  have hbusy : s.stack (.loop 0) ≠ [] := List.ne_nil_of_mem hop₀
  cases hstep.concerns hR c with
  | untouched h hnot =>
    exact (hnone _ op₀ ((h.stack _ op₀ hc₀).mpr hop₀) hc₀ hstarting₀).elim
  | poll h hnodup hactive => exact absurd h.2 hbusy
  | dispatch h halive =>
    obtain rfl := hS.eq_zero_of_dispatching h.1
    exact absurd h.2 hbusy
  | next h hf => exact absurd hf (hE.waiting _ _ (waiting_of_next h.1))
  | @exec t i op rest ops o hstack hready hrun hc =>
    have hop := hc.resolve_right fun hnew => hE.created.ne hnew.conn
    obtain ⟨rfl, -⟩ := hE.stack t op (hstack ▸ List.mem_cons_self) hop
    cases hE.progress with
    | establishing hstage =>
      obtain rfl : .connectEstablished c = op := hS.eq_head hstack hstage rfl
      cases hrun with
      | connectEstablished =>
        exact (hnone _ _ (mem_executed_self List.mem_cons_self) rfl rfl).elim
    | enabling hstage =>
      obtain rfl : .enableReading c = op := hS.eq_head hstack hstage rfl
      cases hrun with
      | enableReading h =>
        exact (hnone _ _ (mem_executed_self List.mem_cons_self) rfl rfl).elim
    | announcing hstage hconnected =>
      obtain rfl : .connectionCallback c = op := hS.eq_head hstack hstage rfl
      rw [noticed, hstack]
      exact Event.notice?_eq_up.mpr ⟨rfl, hconnected⟩
  | call hframe hsees hop => exact absurd hsees (hE.unseen.not_sees hframe)
  | destroyServer halive h => cases hok

/-- A connection that is up is not announced again. -/
lemma Up.noticed_ne_up (hU : Up s c) : s.noticed a c ≠ some .up := by
  intro h
  obtain ⟨t, i, rest, -, hstack, -⟩ := Server.noticed_eq_up h
  cases hU.stack t _ (hstack ▸ List.mem_cons_self) rfl

/-- Nor is one that was closed. -/
lemma Closed.noticed_ne_up (hC : Closed s c) : s.noticed a c ≠ some .up := by
  intro h
  obtain ⟨t, i, rest, -, -, hconnected⟩ := Server.noticed_eq_up h
  exact hC.quiet.ne_kConnected hconnected

/-- The application is told of the end of a closed connection. -/
lemma Closed.toldDown_step (hC : Closed s c) (hR : Registered cfg s) (hS : Shape cfg s)
    (hok : s.Settled a) (hstep : Step cfg s a s')
    (htold : s.Down c ∨ .connectionCallback c ∈ s.stack (.loop 0)) :
    s'.Down c ∨ .connectionCallback c ∈ s'.stack (.loop 0) := by
  rcases htold with hd | hop
  · left
    rw [← down_mem_notices] at hd ⊢
    rw [hstep.notices_eq]
    exact List.mem_append_left _ hd
  cases hstep.concerns hR c with
  | untouched h hnot => exact .inr ((h.stack _ _ rfl).mpr hop)
  | poll h hnodup hactive => exact .inr hop
  | dispatch h halive => exact absurd (hS.mem_active h.1) (hC.inactive _)
  | next h hf => exact .inr (mem_next_of_mem h.2 hop)
  | @exec t i op rest ops o hstack hready hrun hc =>
    by_cases heq : op = .connectionCallback c
    · subst heq
      exact .inl (down_executed.mpr (.inr ⟨rfl, hC.quiet.ne_kConnected⟩))
    · exact .inr (mem_executed_of_mem hstack hop (Ne.symm heq))
  | @call t a op cs buffer hframe hsees hcall =>
    by_cases ht : Tid.loop 0 = t
    · subst ht
      right
      simpa [setStack] using .inr hop
    · right
      simpa [setStack, Function.update_of_ne ht] using hop
  | destroyServer halive h => cases hok

/-- `handleClose` is about to tell the application. -/
lemma mem_stack_of_closes (hS : Shape cfg s) (hstep : Step cfg s a s') (hclose : s.Closes a c) :
    .connectionCallback c ∈ s'.stack (.loop 0) := by
  obtain ⟨t, i, rest, rfl, hstack⟩ := hclose
  obtain rfl : t = .loop 0 := hS.eq_base (hstack ▸ List.mem_cons_self) rfl
  cases hstep with
  | @exec t i op rest' o ops hstack' hready hrun =>
    obtain ⟨rfl, rfl⟩ := List.cons.inj (hstack'.symm.trans hstack)
    cases hrun with
    | handleClose h => exact mem_executed_self List.mem_cons_self

/-! ### Whole runs -/

/-- The connection was announced, once, before anything else was said about it. -/
def UpFirst (s : Server) (c : ConnId) : Prop := ∃ ns, s.notices c = .up :: ns ∧ .up ∉ ns

/-- What comes after the announcement. -/
lemma UpFirst.step (h : s.UpFirst c) (hstep : Step cfg s a s') (hup : s.noticed a c ≠ some .up) :
    s'.UpFirst c := by
  obtain ⟨ns, hns, hnot⟩ := h
  refine ⟨ns ++ (s.noticed a c).toList, ?_, ?_⟩
  · rw [hstep.notices_eq, hns, List.cons_append]
  · rw [List.mem_append, Option.mem_toList]
    rintro (hmem | hmem)
    · exact hnot hmem
    · exact hup hmem

/-- The stages of a connection, with the notices given so far. -/
inductive Heard (s : Server) (c : ConnId) : Prop
  | unborn (h : Unborn s c) (hs : s.notices c = [])
  | early (h : Early s c) (hs : s.notices c = [])
  | up (h : Up s c) (hs : s.UpFirst c) (hd : ¬ s.Down c)
  | closed (h : Closed s c) (hs : s.UpFirst c)
      (hd : s.Down c ∨ .connectionCallback c ∈ s.stack (.loop 0))

/-- Every settled step agrees with the stage. -/
lemma Heard.step (h : Heard s c) (hcfg : cfg.numThreads = 0) (hR : Registered cfg s)
    (hS : Shape cfg s) (hrhythm : Rhythm s) (hok : s.Settled a) (hstep : Step cfg s a s') :
    Heard s' c := by
  have hsilent : s.notices c = [] → s.noticed a c = none → s'.notices c = [] := by
    intro hs hn
    rw [hstep.notices_eq, hs, hn]
    rfl
  cases h with
  | unborn hU hs =>
    have hs' := hsilent hs hU.noticed_eq_none
    exact (hU.step hR hS hstep hcfg).elim (.unborn · hs') (.early · hs')
  | early hE hs =>
    rcases hE.step hR hS hok hstep with hE' | hU'
    · exact .early hE' (hsilent hs (hE.noticed_eq_none hstep hE'))
    · have hs' : s'.notices c = [.up] := by
        rw [hstep.notices_eq, hs, hE.noticed_eq_up hR hS hok hstep hU']
        rfl
      refine .up hU' ⟨[], hs', List.not_mem_nil⟩ ?_
      rw [← down_mem_notices, hs']
      decide
  | up hU hs hd =>
    have hs' := hs.step hstep hU.noticed_ne_up
    by_cases hclose : s.Closes a c
    · exact .closed (hU.step_of_closes hR hS hstep hclose) hs'
        (.inr (mem_stack_of_closes hS hstep hclose))
    · refine .up (hU.step hR hS hok hstep hrhythm hclose) hs' fun hd' => ?_
      rcases hd'.of_step hstep with hold | ⟨t, i, rest, -, hstack, -⟩
      · exact hd hold
      · cases hU.stack t _ (hstack ▸ List.mem_cons_self) rfl
  | closed hC hs hd =>
    exact .closed (hC.step hR hS hok hstep hrhythm) (hs.step hstep hC.noticed_ne_up)
      (hC.toldDown_step hR hS hok hstep hd)

/-- In settled runs the notices agree with the stage. -/
lemma heard_of_reach (hcfg : cfg.numThreads = 0) (h : (system cfg).ReachWhere Settled s) :
    ∀ c, Heard s c := by
  refine h.invariant_of (I := fun s => ∀ c, Heard s c)
    (J := fun s => Registered cfg s ∧ Shape cfg s ∧ Rhythm s)
    (fun s hs => ⟨registered_of_reach hs.reach, shape_of_reach hs.reach, rhythm_of_reach hs.reach⟩)
    ?_ ?_
  · rintro s rfl c
    exact .unborn (unborn_new cfg c) rfl
  · rintro s a s' ⟨hR, hS, hrhythm⟩ - hH hok hs c
    exact (hH c).step hcfg hR hS hrhythm hok (step_cases hs)

/-- What the stages have in common. -/
lemma Heard.nil_or_upFirst (h : Heard s c) : s.notices c = [] ∨ s.UpFirst c := by
  cases h with
  | unborn hU hs | early hU hs => exact .inl hs
  | up hU hs | closed hU hs => exact .inr hs

/-- On a server without sub-loops, in settled runs, the first notice of a connection says that it
is up, and no later one does. -/
theorem upFirst_of_reach (hcfg : cfg.numThreads = 0) (h : (system cfg).ReachWhere Settled s)
    (c : ConnId) : s.notices c = [] ∨ ∃ ns, s.notices c = .up :: ns ∧ .up ∉ ns :=
  (heard_of_reach hcfg h c).nil_or_upFirst

theorem upFirst_of_reach_closedRun :
    ∃ s, (system (exampleConfig 0 false)).ReachWhere Settled s ∧
      s.notices 0 = [.up, .down] ∧ ∃ ns, s.notices 0 = .up :: ns ∧ .up ∉ ns := by
  obtain ⟨s, hs, hnotices⟩ := exists_reach_of_run
    (M := (system (exampleConfig 0 false)).restrict Ordinary) (s := new (exampleConfig 0 false))
    (v := [.up, .down]) closedRun (fun s => s.notices 0) rfl (by decide +kernel)
  have hreach := settled_of_ordinary (Reach.of_restrict hs)
  refine ⟨s, hreach, hnotices, (upFirst_of_reach rfl hreach 0).resolve_left ?_⟩
  rw [hnotices]
  exact List.cons_ne_nil _ _

/-! ### What the application knows when the loop polls -/

lemma UpFirst.up_mem (h : s.UpFirst c) : .up ∈ s.notices c := by
  obtain ⟨ns, hns, -⟩ := h
  rw [hns]
  exact List.mem_cons_self

/-- On a server without sub-loops, in settled runs, whenever the base loop is about to poll, the
application was told of every connection that was accepted, and the map has exactly those of
which it was not told that they are down. -/
theorem informed_of_polling (hcfg : cfg.numThreads = 0) (h : (system cfg).ReachWhere Settled s)
    (hphase : s.AtPhase 0 .polling) (c : ConnId) :
    (c < s.objects.created ↔ .up ∈ s.notices c) ∧
      (s.objects.InTable c ↔ .up ∈ s.notices c ∧ .down ∉ s.notices c) := by
  have hR := registered_of_reach h.reach
  cases heard_of_reach hcfg h c with
  | unborn hU hs =>
    have habsent : ¬ s.objects.InTable c := by
      rintro ⟨name, hx⟩
      exact absurd (hR.objects.table _ hx).1 (Nat.not_lt_of_le hU.created)
    simp [hs, Nat.not_lt_of_le hU.created, habsent]
  | early hE hs =>
    -- what establishes the connection would be on the stack
    cases hE.progress with
    | establishing hop | enabling hop | announcing hop =>
      rw [hphase.2] at hop
      cases hop
  | up hU hs hd =>
    rw [down_mem_notices]
    exact ⟨iff_of_true hU.created hs.up_mem, iff_of_true hU.table ⟨hs.up_mem, hd⟩⟩
  | closed hC hs hd =>
    have habsent : ¬ s.objects.InTable c := by
      intro hin
      rcases hC.closing hin with hop | hop <;>
      · rw [hphase.2] at hop
        cases hop
    have hdown : s.Down c := hd.resolve_right fun hop => by
      rw [hphase.2] at hop
      cases hop
    rw [down_mem_notices]
    exact ⟨iff_of_true hC.created hs.up_mem, iff_of_false habsent fun hnot => hnot.2 hdown⟩

theorem informed_of_polling_acceptedRun :
    ∃ s, (system (exampleConfig 0 false)).ReachWhere Settled s ∧ s.AtPhase 0 .polling ∧
      s.objects.created = 1 ∧ s.notices 0 = [.up] ∧
      (0 < s.objects.created ↔ .up ∈ s.notices 0) ∧
      (s.objects.InTable 0 ↔ .up ∈ s.notices 0 ∧ .down ∉ s.notices 0) := by
  obtain ⟨s, hs, hobserved⟩ := exists_reach_of_run
    (M := (system (exampleConfig 0 false)).restrict Ordinary) (s := new (exampleConfig 0 false))
    (v := (true, 1, [.up])) acceptedRun
    (fun s => (decide (s.AtPhase 0 .polling), s.objects.created, s.notices 0)) rfl
    (by decide +kernel)
  obtain ⟨hphase, hrest⟩ := Prod.mk.inj hobserved
  obtain ⟨hcreated, hnotices⟩ := Prod.mk.inj hrest
  have hreach := settled_of_ordinary (Reach.of_restrict hs)
  have hpolling := of_decide_eq_true hphase
  exact ⟨s, hreach, hpolling, hcreated, hnotices, informed_of_polling rfl hreach hpolling 0⟩

/-! ### The last notice -/

/-- Once the application was told that the connection is down, no notice is given. -/
lemma Course.noticed_eq_none (h : Course s c) (hd : s.Down c) : s.noticed a c = none := by
  by_contra hne
  obtain ⟨n, hn⟩ := Option.ne_none_iff_exists'.mp hne
  obtain ⟨t, i, op, rest, -, hstack, hc, hcallback, -⟩ := exists_callback_of_noticed hn
  have hmute := h.callback_eq_false hd (hstack ▸ List.mem_cons_self) hc
  exact Bool.false_ne_true (hmute.symm.trans hcallback)

/-- Nothing follows the notice that the connection is down. -/
def DownLast (s : Server) (c : ConnId) : Prop := (s.notices c).Pairwise fun n _ => n ≠ .down

lemma DownLast.step (h : s.DownLast c) (hcourse : Course s c) (hstep : Step cfg s a s') :
    s'.DownLast c := by
  by_cases hd : s.Down c
  · rw [DownLast, hstep.notices_eq, hcourse.noticed_eq_none hd, Option.toList_none,
      List.append_nil]
    exact h
  · rw [DownLast, hstep.notices_eq]
    refine List.pairwise_append.mpr ⟨h, ?_, ?_⟩
    · cases s.noticed a c with
      | none => exact .nil
      | some n => exact List.pairwise_singleton _ _
    · rintro n hn - - rfl
      exact hd (down_mem_notices.mp hn)

/-- In conclusive runs. -/
lemma downLast_of_reach (hcfg : cfg.numThreads = 0) (h : (system cfg).ReachWhere Conclusive s)
    (c : ConnId) : s.DownLast c := by
  refine h.invariant_of (I := fun s => s.DownLast c) (J := fun s => Course s c)
    (fun s hs => course_of_reach hcfg hs c) ?_
    fun s a s' hcourse _ hI _ hs => hI.step hcourse (step_cases hs)
  rintro s rfl
  exact .nil

/-- A list in which only the last element can be `x`. -/
lemma eq_or_eq_append_of_pairwise {α : Type*} {x : α} {l : List α}
    (h : l.Pairwise fun y _ => y ≠ x) : ∃ l', x ∉ l' ∧ (l = l' ∨ l = l' ++ [x]) := by
  induction l with
  | nil => exact ⟨[], List.not_mem_nil, .inl rfl⟩
  | cons y l ih =>
    obtain ⟨hy, hl⟩ := List.pairwise_cons.mp h
    obtain ⟨l', hnot, heq⟩ := ih hl
    by_cases hyx : y = x
    · -- nothing can follow
      have hnil : l = [] := List.eq_nil_iff_forall_not_mem.mpr fun z hz => hy z hz hyx
      exact ⟨[], List.not_mem_nil, .inr (by rw [hyx, hnil, List.nil_append])⟩
    · refine ⟨y :: l', ?_, ?_⟩
      · rw [List.mem_cons]
        exact not_or.mpr ⟨Ne.symm hyx, hnot⟩
      · exact heq.imp (congrArg (y :: ·)) (congrArg (y :: ·))

/-- On a server without sub-loops, in conclusive runs, the notices of a connection are a prefix
of `up, …, down`, where the notices between say neither. -/
theorem notices_prefix_of_reach (hcfg : cfg.numThreads = 0)
    (h : (system cfg).ReachWhere Conclusive s) (c : ConnId) :
    ∃ ns, (∀ n ∈ ns, n ≠ .up ∧ n ≠ .down) ∧ s.notices c <+: .up :: (ns ++ [.down]) := by
  have hsettled : (system cfg).ReachWhere Settled s := h.mono fun _ _ hok => hok.1
  rcases (heard_of_reach hcfg hsettled c).nil_or_upFirst with hnil | ⟨ns, hns, hup⟩
  · refine ⟨[], fun n hn => absurd hn List.not_mem_nil, ?_⟩
    rw [hnil]
    exact List.nil_prefix
  · have hlast := downLast_of_reach hcfg h c
    rw [DownLast, hns] at hlast
    obtain ⟨ms, hdown, heq⟩ := eq_or_eq_append_of_pairwise (List.pairwise_cons.mp hlast).2
    have hsub : ∀ m ∈ ms, m ∈ ns := by
      intro m hm
      rcases heq with rfl | rfl
      · exact hm
      · exact List.mem_append_left _ hm
    refine ⟨ms, fun m hm => ⟨?_, ?_⟩, ?_⟩
    · rintro rfl
      exact hup (hsub _ hm)
    · rintro rfl
      exact hdown hm
    · rw [hns, List.prefix_cons_inj]
      rcases heq with rfl | rfl
      · exact List.prefix_append _ _
      · exact List.prefix_rfl

theorem notices_prefix_of_reach_closedRun :
    ∃ s, (system (exampleConfig 0 false)).ReachWhere Conclusive s ∧ s.notices 0 = [.up, .down] ∧
      ∃ ns, (∀ n ∈ ns, n ≠ .up ∧ n ≠ .down) ∧ s.notices 0 <+: .up :: (ns ++ [.down]) := by
  obtain ⟨s, hs, hnotices⟩ := exists_reach_of_run
    (M := (system (exampleConfig 0 false)).restrict Quick) (s := new (exampleConfig 0 false))
    (v := [.up, .down]) closedRun (fun s => s.notices 0) rfl (by decide +kernel)
  have hreach := conclusive_of_reach_quick (Reach.of_restrict hs)
  exact ⟨s, hreach, hnotices, notices_prefix_of_reach rfl hreach 0⟩

end Server

end HzhMuduo
