import HzhMuduo.Server.Alone
import HzhMuduo.Server.Announcement

/-!
# Queued calls on the raw object

`send` and `shutdown` from another thread queue a functor that is bound to the raw object.  While
it is queued, the object is kept alive by whatever pointers there are.  The teardown in the base
loop always leaves one; a pointer that a thread of the application gives up may have been the
last (`Considerate`).
-/

namespace HzhMuduo

open MachineWord TcpConnection TransitionSystem

/-- The connection a functor is bound to without holding a pointer. -/
def Functor.rawConn? : Functor → Option ConnId
  | .sendInLoop c _ | .shutdownInLoop c => some c
  | _ => none

/-- The functors that have been called. -/
def Phase.ran : Phase → List Functor
  | .functors ran _ => ran
  | _ => []

/-- The connections an operation will use. -/
def Op.needs : Op → List ConnId
  | .user cs _ => cs
  | op => op.conn?.toList

namespace Server

variable {cfg : Config} {s s' : Server} {a : Act} {c : ConnId} {t : Tid} {l : LoopId}
  {f : Functor}

/-- The functor a loop is in the middle of. -/
def running (s : Server) (l : LoopId) : List Functor :=
  if s.stack (.loop l) = [] then [] else (s.phase l).ran.getLast?.toList

/-- The functors in the batch of the base loop that have not returned. -/
def unfinished (s : Server) : List Functor := s.running 0 ++ (s.phase 0).rest

/-- The functors whose pointers outlast the batch of the base loop. -/
def backlog (s : Server) (l : LoopId) : List Functor :=
  s.objects.pendingFunctors l ++ if l = 0 then [] else (s.phase l).batch

/-- The pointers that outlast the batch of the base loop: those in `connections_`, in functors
that are queued or in the batch of a sub-loop, and with the application. -/
def lasting (cfg : Config) (s : Server) : List ConnId :=
  s.objects.connections.map Prod.snd ++
    ((List.range (cfg.numThreads + 1)).flatMap fun l => (s.backlog l).flatMap Functor.owns) ++
    s.held.map Prod.snd

/-- A functor in the batch of the base loop holds a pointer. -/
def Seated (s : Server) (c : ConnId) : Prop := ∃ f ∈ (s.phase 0).batch, c ∈ f.owns

instance (s : Server) (c : ConnId) : Decidable (s.Seated c) :=
  inferInstanceAs (Decidable (∃ f ∈ _, _))

/-- `connections_`, a functor that is queued or in a batch, or the application holds a pointer. -/
def Anchored (cfg : Config) (s : Server) (c : ConnId) : Prop := c ∈ s.lasting cfg ∨ s.Seated c

instance (s : Server) (c : ConnId) : Decidable (s.Anchored cfg c) :=
  inferInstanceAs (Decidable (_ ∨ _))

/-- The lasting pointers a step gives up: one that the application drops, those in the batch of
a sub-loop, or the entry of the map that `~TcpServer` takes out. -/
def surrendered (s : Server) : Act → List ConnId
  | .user _ (.drop c) => [c]
  | .release l => if l = 0 then [] else (s.phase l).batch.flatMap Functor.owns
  | .exec t _ =>
    match s.stack t with
    | .destroyItem c :: _ => [c]
    | _ => []
  | _ => []

/-- The state without the pointers the step gives up. -/
def remaining (s : Server) : Act → Server
  | .user t (.drop c) => { s with held := s.held.erase (t, c) }
  | .release l => s.setPhase l .polling
  | .exec t _ =>
    match s.stack t with
    | .destroyItem c :: _ => { s with objects := s.objects.forget c }
    | _ => s
  | _ => s

/-- The discipline that the source does not enforce: who gives up a pointer while a functor bound
to the raw object is outstanding leaves a pointer that outlasts it. -/
def Considerate (cfg : Config) (s : Server) (a : Act) : Prop :=
  ∀ c ∈ s.surrendered a,
    ((∃ f ∈ s.objects.pendingFunctors 0, f.rawConn? = some c) → c ∈ (s.remaining a).lasting cfg) ∧
    ((∃ f ∈ s.unfinished, f.rawConn? = some c) →
      c ∈ (s.remaining a).lasting cfg ∨ s.Seated c)

instance (cfg : Config) (s : Server) (a : Act) : Decidable (s.Considerate cfg a) :=
  inferInstanceAs (Decidable (∀ c ∈ _, _))

/-! ### Pointers that outlast the batch -/

lemma mem_lasting : c ∈ s.lasting cfg ↔ s.objects.InTable c ∨
    (∃ l ≤ cfg.numThreads, ∃ f ∈ s.backlog l, c ∈ f.owns) ∨ ∃ t, (t, c) ∈ s.held := by
  simp only [lasting, List.mem_append, List.mem_map, List.mem_flatMap, List.mem_range,
    Nat.lt_succ_iff, or_assoc, Objects.InTable, Prod.exists, exists_eq_right]

/-- The stacks hold no such pointers. -/
lemma lasting_setStack {ops : List Op} : (s.setStack t ops).lasting cfg = s.lasting cfg := rfl

/-- What is anchored exists. -/
lemma Anchored.alive (h : s.Anchored cfg c) : s.Alive cfg c := by
  refine alive_iff.mpr ?_
  rcases h with h | ⟨f, hf, hc⟩
  · rcases mem_lasting.mp h with ⟨name, hx⟩ | ⟨l, hl, f, hf, hc⟩ | ⟨t, hheld⟩
    · exact .table hx
    · rcases List.mem_append.mp hf with hf | hf
      · exact .pending hl hf hc
      · by_cases hl' : l = 0
        · rw [if_pos hl'] at hf
          cases hf
        · rw [if_neg hl'] at hf
          exact .batch hl hf hc
    · exact .held hheld
  · exact .batch (Nat.zero_le _) hf hc

/-- The pointers last where the map, the queues and the application keep theirs. -/
lemma lasting_mono (h : c ∈ s.lasting cfg)
    (htable : s.objects.InTable c → c ∈ s'.lasting cfg)
    (hbacklog : ∀ l, ∀ f ∈ s.backlog l, c ∈ f.owns → f ∈ s'.backlog l)
    (hheld : ∀ t, (t, c) ∈ s.held → (t, c) ∈ s'.held) : c ∈ s'.lasting cfg := by
  rcases mem_lasting.mp h with hc | ⟨l, hl, f, hf, hc⟩ | ⟨t, hc⟩
  · exact htable hc
  · exact mem_lasting.mpr (.inr (.inl ⟨l, hl, f, hbacklog l f hf hc, hc⟩))
  · exact mem_lasting.mpr (.inr (.inr ⟨t, hheld t hc⟩))

/-- A loop goes on to a phase that keeps its batch. -/
lemma lasting_setPhase {p : Phase} (h : c ∈ s.lasting cfg)
    (hp : l ≠ 0 → ∀ f ∈ (s.phase l).batch, f ∈ p.batch) : c ∈ (s.setPhase l p).lasting cfg := by
  refine lasting_mono h (fun htable => mem_lasting.mpr (.inl htable)) (fun l' f hf _ => ?_)
    fun _ => id
  refine List.mem_append.mpr ((List.mem_append.mp hf).imp_right fun hf => ?_)
  by_cases hl : l' = 0
  · rw [if_pos hl] at hf
    cases hf
  · rw [if_neg hl] at hf ⊢
    by_cases heq : l' = l
    · subst heq
      simp only [setPhase, Function.update_self]
      exact hp hl f hf
    · simp only [setPhase, Function.update_of_ne heq]
      exact hf

/-- An operation keeps the pointers; `removeConnectionInLoop` exchanges the entry of the map for
a queued functor. -/
lemma lasting_executed (hR : Registered cfg s) {i : Input} {op : Op} {rest ops : List Op}
    {o : Objects} (hstack : s.stack t = op :: rest) (hready : s.Ready cfg op i)
    (hrun : Op.Runs cfg s.objects t i op o ops) (h : c ∈ s.lasting cfg)
    (hdestroy : op = .destroyItem c →
      c ∈ ({ s with objects := s.objects.forget c } : Server).lasting cfg) :
    c ∈ (s.executed t op o (ops ++ rest)).lasting cfg := by
  have hbacklog : ∀ l, ∀ f ∈ s.backlog l, f ∈ (s.executed t op o (ops ++ rest)).backlog l := by
    intro l f hf
    exact List.mem_append.mpr ((List.mem_append.mp hf).imp_left hrun.effect.mem_pending_of_mem)
  have hc := hR.created c (alive_iff.mp (Anchored.alive (.inl h)))
  have hop := hR.lt_of_ready hready
  have htable := Objects.inTable_iff_of_runs hrun hR.objects hop hc
  by_cases hitem : op = .destroyItem c
  · rcases mem_lasting.mp (hdestroy hitem) with ⟨name, hx⟩ | ⟨l, hl, f, hf, hf'⟩ | hheld
    · exact absurd rfl (of_decide_eq_true (List.mem_filter.mp hx).2)
    · exact mem_lasting.mpr (.inr (.inl ⟨l, hl, f, hbacklog l f hf, hf'⟩))
    · exact mem_lasting.mpr (.inr (.inr hheld))
  · refine lasting_mono h (fun hin => ?_) (fun l f hf _ => hbacklog l f hf) fun _ => id
    by_cases hremove : op = .removeConnectionInLoop c
    · subst hremove
      refine mem_lasting.mpr (.inr (.inl ⟨0, Nat.zero_le _, .connectDestroyed c, ?_,
        List.mem_singleton_self c⟩))
      refine List.mem_append_left _ ?_
      cases hrun with
      | removeConnectionInLoop halive =>
        simp [executed, Objects.queueInLoop, Objects.erase, hR.objects.loop]
    · exact mem_lasting.mpr (.inl (htable.mpr ⟨hin, hremove, hitem⟩))

/-- Every step but the swap of the base loop keeps the pointers it does not give up. -/
theorem lasting_step (hR : Registered cfg s) (hstep : Step cfg s a s') (hswap : a ≠ .swap 0)
    (h : c ∈ s.lasting cfg) (hleft : c ∈ s.surrendered a → c ∈ (s.remaining a).lasting cfg) :
    c ∈ s'.lasting cfg := by
  cases hstep with
  | enter hl hphase =>
    refine lasting_setPhase h fun _ f hf => ?_
    rw [hphase.1] at hf
    cases hf
  | leave hphase =>
    refine lasting_setPhase h fun _ f hf => ?_
    rw [hphase.1] at hf
    cases hf
  | poll hphase hnodup hactive =>
    refine lasting_setPhase h fun _ f hf => ?_
    rw [hphase.1] at hf
    cases hf
  | dispatch hphase halive =>
    rw [lasting_setStack]
    refine lasting_setPhase h fun _ f hf => ?_
    rw [hphase.1] at hf
    cases hf
  | @swap l hphase =>
    refine lasting_mono h (fun htable => mem_lasting.mpr (.inl htable)) (fun l' f hf _ => ?_)
      fun _ => id
    by_cases hl : l' = l
    · subst hl
      have hne : l' ≠ 0 := fun hzero => hswap (congrArg Act.swap hzero)
      simp only [backlog, if_neg hne, hphase.1, Phase.batch, List.append_nil] at hf
      simp [backlog, if_neg hne, setPhase, Phase.batch, hf]
    · simpa [backlog, setPhase, Objects.clearPending, Function.update_of_ne hl] using hf
  | next hphase =>
    rw [lasting_setStack]
    refine lasting_setPhase h fun _ f hf => ?_
    rw [hphase.1] at hf
    simpa [Phase.batch] using hf
  | @release l ran hphase =>
    by_cases hl : l = 0
    · exact lasting_setPhase h fun hne => absurd hl hne
    · by_cases hc : c ∈ s.surrendered (.release l)
      · exact hleft hc
      · refine lasting_mono h (fun htable => mem_lasting.mpr (.inl htable)) (fun l' f hf hcf => ?_)
          fun _ => id
        refine List.mem_append.mpr ((List.mem_append.mp hf).imp_right fun hf => ?_)
        by_cases heq : l' = l
        · subst heq
          rw [if_neg hl] at hf
          refine absurd ?_ hc
          simp only [surrendered, if_neg hl]
          exact List.mem_flatMap.mpr ⟨f, hf, hcf⟩
        · simpa [setPhase, Function.update_of_ne heq] using hf
  | @exec t i op rest o ops hstack hready hrun =>
    refine lasting_executed hR hstack hready hrun h fun hop => ?_
    subst hop
    simp only [surrendered, remaining, hstack, List.mem_singleton] at hleft
    exact hleft trivial
  | copy hframe hsees halive =>
    exact lasting_mono h (fun htable => mem_lasting.mpr (.inl htable)) (fun _ _ hf _ => hf)
      fun _ => List.mem_cons_of_mem _
  | @drop t c' cs buffer hframe hheld =>
    by_cases hc : c = c'
    · subst hc
      exact hleft (List.mem_singleton_self c)
    · refine lasting_mono h (fun htable => mem_lasting.mpr (.inl htable)) (fun _ _ hf _ => hf)
        fun t' ht' => ?_
      have hne : (t', c) ≠ (t, c') := fun heq => hc (Prod.mk.inj heq).2
      exact (List.mem_erase_of_ne hne).mpr ht'
  | @queueInLoop t l cs' cs buffer hframe hl hsees =>
    refine lasting_mono h (fun htable => mem_lasting.mpr (.inl htable)) (fun l' f hf _ => ?_)
      fun _ => id
    refine List.mem_append.mpr ((List.mem_append.mp hf).imp_left fun hf => ?_)
    by_cases heq : l' = l
    · subst heq
      simp [Objects.queueInLoop, hf]
    · simpa [Objects.queueInLoop, Function.update_of_ne heq] using hf
  | _ => exact h

/-! ### Who is inside a call has a pointer -/

/-- Code on thread `t` has a pointer to `c`: one of its own if it is inside `send` or `shutdown`,
or one in the batch of its sub-loop. -/
def HasPointer (s : Server) (t : Tid) (remote : Bool) (c : ConnId) : Prop :=
  remote = true ∧ (t, c) ∈ s.held ∨ ∃ l, t = .loop l ∧ ∃ f ∈ (s.phase l).batch, c ∈ f.owns

/-- The operations of all threads but that of the base loop have pointers to what they need, and
the base loop is never about to queue a `sendInLoop`. -/
structure Supplied (s : Server) : Prop where
  pointer : ∀ t ≠ .loop 0, ∀ op ∈ s.stack t, ∀ c ∈ op.needs, s.HasPointer t op.remote c
  direct : ∀ c len, .sendRun c len ∉ s.stack (.loop 0)

/-- What a sub-loop starts needs no more than its functor holds. -/
lemma owns_of_needs (hf : f.op.onSubLoop = true) (hc : c ∈ f.op.needs) : c ∈ f.owns := by
  cases f with
  | connectEstablished c' | user cs => simpa [Functor.op, Op.needs, Op.conn?, Functor.owns] using hc
  | _ => cases hf

/-- What is left of an operation needs no more than the operation. -/
lemma needs_of_follows {o o' : Objects} {op op' : Op} (h : Op.Follows o o' op op')
    (hop : op ≠ .accept) (hc : c ∈ op'.needs) : c ∈ op.needs := by
  cases h with
  | establish | establishRelease => exact absurd rfl hop
  | upRelease | destroyRelease | closeRelease | messageRelease | destroyItemRelease => cases hc
  | _ => simpa [Op.needs, Op.conn?] using hc

lemma not_remote_of_waits {op : Op} (h : op.waits = true) : op.remote = false := by
  cases op <;> first | rfl | cases h

/-- The stacks are as they were, and so are the pointers of the threads. -/
lemma Supplied.of_stack_eq (h : Supplied s) (hstack : s'.stack = s.stack)
    (hpointer : ∀ t ≠ .loop 0, ∀ op ∈ s.stack t, ∀ c, s.HasPointer t op.remote c →
      s'.HasPointer t op.remote c) : Supplied s' := by
  refine ⟨fun t ht op hop c hc => ?_, fun c len => hstack ▸ h.direct c len⟩
  rw [hstack] at hop
  exact hpointer t ht op hop c (h.pointer t ht op hop c hc)

/-- A loop between two operations goes on. -/
lemma Supplied.setPhase (h : Supplied s) {p : Phase} (hempty : s.stack (.loop l) = []) :
    Supplied (s.setPhase l p) := by
  refine h.of_stack_eq rfl fun t ht op hop c hc => ?_
  refine hc.imp_right fun ⟨l', heq, hbatch⟩ => ⟨l', heq, ?_⟩
  by_cases hl : l' = l
  · subst hl heq
    rw [hempty] at hop
    cases hop
  · simpa [Server.setPhase, Function.update_of_ne hl] using hbatch

/-- Operations with pointers are put on a stack. -/
lemma Supplied.push (h : Supplied s) {ops : List Op}
    (hpointer : t ≠ .loop 0 → ∀ op ∈ ops, op ∈ s.stack t ∨
      ∀ c ∈ op.needs, s.HasPointer t op.remote c)
    (hdirect : t = .loop 0 → ∀ op ∈ ops, op ∈ s.stack t ∨ ∀ c len, op ≠ .sendRun c len) :
    Supplied (s.setStack t ops) := by
  refine ⟨fun t' ht' op hop c hc => ?_, fun c len hop => ?_⟩
  · rcases mem_setStack hop with ⟨rfl, hnew⟩ | hold
    · exact (hpointer ht' op hnew).elim (fun hold => h.pointer _ ht' op hold c hc) fun hp => hp c hc
    · exact h.pointer t' ht' op hold c hc
  · rcases mem_setStack hop with ⟨rfl, hnew⟩ | hold
    · exact (hdirect rfl _ hnew).elim (h.direct c len) fun hne => hne c len rfl
    · exact h.direct c len hold

/-- The code of the application calls `send` or `shutdown`. -/
lemma Supplied.call (h : Supplied s) {op : Op} {cs : List ConnId} {buffer : Option ConnId}
    (hframe : s.frame t = some (cs, buffer)) (hsees : s.Sees t cs c)
    (hop : op.needs = [c] ∧ op.remote = true ∧ ∀ c len, op ≠ .sendRun c len) :
    Supplied (s.setStack t (op :: s.stack t)) := by
  refine h.push (fun ht op' hop' => ?_) fun _ op' hop' => ?_
  · rcases List.mem_cons.mp hop' with rfl | hold
    · refine .inr fun c' hc' => ?_
      rw [hop.1, List.mem_singleton] at hc'
      subst hc'
      rcases hsees with hc | hheld
      · cases hstack : s.stack t with
        | nil =>
          cases t with
          | loop l => simp [frame, hstack] at hframe
          | user u =>
            simp only [frame, hstack] at hframe
            rw [← (Prod.mk.inj (Option.some.inj hframe)).1] at hc
            cases hc
        | cons top rest =>
          have hmem : top ∈ s.stack t := hstack ▸ List.mem_cons_self
          cases top with
          | user cs' buffer' =>
            simp only [frame, hstack] at hframe
            obtain ⟨rfl, -⟩ := Prod.mk.inj (Option.some.inj hframe)
            exact (h.pointer t ht _ hmem _ hc).imp_left fun hr => ⟨hop.2.1, hr.2⟩
          | _ => simp [frame, hstack] at hframe
      · exact .inl ⟨hop.2.1, hheld⟩
    · exact .inl hold
  · rcases List.mem_cons.mp hop' with rfl | hold
    · exact .inr hop.2.2
    · exact .inl hold

/-- An operation is executed. -/
lemma Supplied.executed (h : Supplied s) (hR : Registered cfg s) (hS : Shape cfg s) {i : Input}
    {op : Op} {rest ops : List Op} {o : Objects} (hstack : s.stack t = op :: rest)
    (hrun : Op.Runs cfg s.objects t i op o ops) : Supplied (s.executed t op o (ops ++ rest)) := by
  have hmem : op ∈ s.stack t := hstack ▸ List.mem_cons_self
  have hrest : ∀ op' ∈ rest, op' ∈ s.stack t := fun op' hop' =>
    hstack ▸ List.mem_cons_of_mem _ hop'
  have hpushed : Supplied (s.setStack t (ops ++ rest)) := by
    refine h.push (fun ht op' hop' => ?_) fun ht op' hop' => ?_
    · rcases List.mem_append.mp hop' with hnew | hold
      · refine .inr fun c hc => ?_
        have haccept : op ≠ .accept := by
          rintro rfl
          exact ht (hS.eq_base hmem rfl)
        refine (h.pointer t ht op hmem c (needs_of_follows (hrun.follows hnew) haccept hc)).imp_left
          fun hr => ⟨hrun.remote ht hR.objects.loop hnew hr.1, hr.2⟩
      · exact .inl (hrest _ hold)
    · rcases List.mem_append.mp hop' with hnew | hold
      · refine .inr fun c len heq => ?_
        subst heq ht
        cases hrun with
        | sendThere hstate ht => exact ht (by rw [hR.objects.loop])
        | _ => simp at hnew
      · exact .inl (hrest _ hold)
  exact ⟨hpushed.pointer, hpushed.direct⟩

/-- Every step keeps the threads supplied. -/
lemma Supplied.step (h : Supplied s) (hR : Registered cfg s) (hS : Shape cfg s)
    (hstep : Step cfg s a s') : Supplied s' := by
  cases hstep with
  | enter hl hphase => exact h.setPhase hphase.2
  | leave hphase => exact h.setPhase hphase.2
  | poll hphase hnodup hactive => exact h.setPhase hphase.2
  | release hphase => exact h.setPhase hphase.2
  | swap hphase => exact ⟨(h.setPhase hphase.2).pointer, h.direct⟩
  | @dispatch l x active hphase halive =>
    obtain rfl := hS.eq_zero_of_dispatching hphase.1
    refine (h.setPhase hphase.2).push (fun ht => absurd rfl ht) fun _ op hop => .inr ?_
    rintro c len rfl
    exact absurd hop (not_mem_handleEvent rfl)
  | @next l ran f rest hphase =>
    refine (h.setPhase hphase.2).push (fun ht op hop => .inr fun c hc => ?_) fun _ op hop => .inr ?_
    · obtain rfl := List.mem_singleton.mp hop
      obtain ⟨l, rfl⟩ := Nat.exists_eq_succ_of_ne_zero fun hl => ht (congrArg Tid.loop hl)
      have hsub : f.op.onSubLoop = true := hS.queued (l + 1) f (waiting_of_next hphase.1)
      refine .inr ⟨l + 1, rfl, f, ?_, owns_of_needs hsub hc⟩
      simp [Server.setPhase, Phase.batch]
    · rintro c len rfl
      cases f <;> simp [Functor.op] at hop
  | exec hstack hready hrun => exact h.executed hR hS hstack hrun
  | send hframe hsees => exact h.call hframe hsees ⟨rfl, rfl, by simp⟩
  | shutdown hframe hsees => exact h.call hframe hsees ⟨rfl, rfl, by simp⟩
  | copy hframe hsees halive =>
    refine h.of_stack_eq rfl fun t ht op hop c hc => ?_
    exact hc.imp_left fun hr => ⟨hr.1, List.mem_cons_of_mem _ hr.2⟩
  | @drop t c' cs buffer hframe hheld =>
    refine h.of_stack_eq rfl fun t' ht' op hop c hc => ?_
    refine hc.imp_left fun hr => ⟨hr.1, ?_⟩
    -- a thread whose code is running is not inside a call
    have hne : (t', c) ≠ (t, c') := by
      intro heq
      obtain ⟨rfl, -⟩ := Prod.mk.inj heq
      cases hstack : s.stack t' with
      | nil =>
        rw [hstack] at hop
        cases hop
      | cons top rest =>
        rw [hstack] at hop
        rcases List.mem_cons.mp hop with rfl | hrest
        · cases op <;> first | (cases hr.1; done) | simp [frame, hstack] at hframe
        · rw [not_remote_of_waits (hS.top _ _ _ hstack _ hrest)] at hr
          cases hr.1
    exact (List.mem_erase_of_ne hne).mpr hr.2
  | ret hstack =>
    refine h.push (fun _ op hop => .inl ?_) fun _ op hop => .inl ?_
    · rw [hstack]
      exact List.mem_cons_of_mem _ hop
    · rw [hstack]
      exact List.mem_cons_of_mem _ hop
  | @destroyServer order halive hphase horder =>
    have hpushed : Supplied (s.setStack (.loop 0)
        (order.map Op.destroyItem ++ [.removeAcceptor])) := by
      refine h.push (fun ht => absurd rfl ht) fun _ op hop => .inr ?_
      rintro c len rfl
      obtain ⟨c', -, heq⟩ | heq := mem_destroyServer hop
      · cases heq
      · cases heq
    exact ⟨hpushed.pointer, hpushed.direct⟩
  | _ => exact ⟨h.pointer, h.direct⟩

/-- The threads are supplied in every run. -/
lemma supplied_of_reach (h : (system cfg).Reach s) : Supplied s := by
  refine h.invariant_of (J := fun s => Registered cfg s ∧ Shape cfg s)
    (fun s hs => ⟨registered_of_reach hs, shape_of_reach hs⟩) ?_
    fun s a s' hJ _ hI _ hs => hI.step hJ.1 hJ.2 (step_cases hs)
  rintro s rfl
  exact ⟨fun _ _ _ hop => absurd hop List.not_mem_nil, fun _ _ => List.not_mem_nil⟩

/-- Who has a pointer away from the base loop has one that lasts. -/
lemma HasPointer.lasting {remote : Bool} (h : s.HasPointer t remote c) (hS : Shape cfg s)
    (ht : t ≠ .loop 0) : c ∈ s.lasting cfg := by
  rcases h with ⟨-, hheld⟩ | ⟨l, rfl, f, hf, hc⟩
  · exact mem_lasting.mpr (.inr (.inr ⟨t, hheld⟩))
  · have hl : l ≠ 0 := fun hzero => ht (congrArg Tid.loop hzero)
    have hrunning : l ≤ cfg.numThreads := by
      refine hS.le_of_phase fun houtside => ?_
      rw [houtside] at hf
      cases hf
    refine mem_lasting.mpr (.inr (.inl ⟨l, hrunning, f, List.mem_append_right _ ?_, hc⟩))
    rwa [if_neg hl]

/-! ### Functors bound to the raw object -/

/-- Outside of a batch nothing is unfinished. -/
lemma not_mem_unfinished (hran : (s.phase 0).ran = []) (hrest : (s.phase 0).rest = []) :
    f ∉ s.unfinished := by
  rw [unfinished, running, hran, hrest]
  split <;> exact List.not_mem_nil

/-- The base loop does not go on to another phase, and starts nothing. -/
lemma unfinished_mono (hphase : s'.phase 0 = s.phase 0)
    (hstack : s.stack (.loop 0) = [] → s'.stack (.loop 0) = []) (hf : f ∈ s'.unfinished) :
    f ∈ s.unfinished ∧ ∀ c, s.Seated c → s'.Seated c := by
  refine ⟨?_, fun c hc => by rwa [Seated, hphase]⟩
  rw [unfinished, running, hphase] at hf
  refine List.mem_append.mpr ((List.mem_append.mp hf).imp_left fun hf => ?_)
  by_cases hempty : s.stack (.loop 0) = []
  · rw [if_pos (hstack hempty)] at hf
    cases hf
  · rw [running, if_neg hempty]
    split at hf
    · cases hf
    · exact hf

/-- A step of another loop. -/
lemma unfinished_of_ne {p : Phase} {ops : List Op} (hl : l ≠ 0)
    (hf : f ∈ ((s.setPhase l p).setStack (.loop l) ops).unfinished) :
    f ∈ s.unfinished ∧ ∀ c, s.Seated c → ((s.setPhase l p).setStack (.loop l) ops).Seated c := by
  have hne : Tid.loop 0 ≠ .loop l := fun heq => hl (Tid.loop.inj heq).symm
  refine unfinished_mono (Function.update_of_ne hl.symm _ _) (fun hempty => ?_) hf
  simp only [setStack, Function.update_of_ne hne]
  exact hempty

/-- A loop between two operations goes on to a phase that is not a batch. -/
lemma unfinished_setPhase {p : Phase} (hran : p.ran = []) (hrest : p.rest = [])
    (hf : f ∈ (s.setPhase l p).unfinished) :
    f ∈ s.unfinished ∧ ∀ c, s.Seated c → (s.setPhase l p).Seated c := by
  by_cases hl : l = 0
  · subst hl
    refine absurd hf (not_mem_unfinished ?_ ?_)
    · simpa [setPhase] using hran
    · simpa [setPhase] using hrest
  · exact unfinished_mono (Function.update_of_ne (Ne.symm hl) _ _) id hf

/-- Of the functors that are not finished, each step brings in only those that the base loop swaps
in; the batch keeps its pointers until it is finished. -/
lemma mem_unfinished_of_step (hS : Shape cfg s) (hstep : Step cfg s a s') (hswap : a ≠ .swap 0)
    (hf : f ∈ s'.unfinished) : f ∈ s.unfinished ∧ ∀ c, s.Seated c → s'.Seated c := by
  have hframe : ∀ {t x}, s.frame t = some x → t = .loop 0 → s.stack (.loop 0) ≠ [] := by
    rintro t x hframe rfl hnil
    simp [frame, hnil] at hframe
  have hupdate : ∀ {t : Tid} {ops : List Op}, (t = .loop 0 → s.stack (.loop 0) ≠ []) →
      s.stack (.loop 0) = [] → Function.update s.stack t ops (.loop 0) = [] := by
    intro t ops ht hnil
    rw [Function.update_of_ne fun heq => ht heq.symm hnil]
    exact hnil
  cases hstep with
  | enter hl hphase => exact unfinished_setPhase rfl rfl hf
  | leave hphase => exact unfinished_setPhase rfl rfl hf
  | poll hphase hnodup hactive => exact unfinished_setPhase rfl rfl hf
  | release hphase => exact unfinished_setPhase rfl rfl hf
  | @dispatch l x active hphase halive =>
    obtain rfl := hS.eq_zero_of_dispatching hphase.1
    refine absurd hf (not_mem_unfinished ?_ ?_) <;> simp [setStack, setPhase, Phase.ran, Phase.rest]
  | @swap l hphase =>
    have hl : l ≠ 0 := fun hzero => hswap (congrArg Act.swap hzero)
    exact unfinished_mono (Function.update_of_ne hl.symm _ _) id hf
  | @next l ran g rest hphase =>
    by_cases hl : l = 0
    · subst hl
      refine ⟨?_, fun c hc => ?_⟩
      · simp only [unfinished, running, setStack, setPhase, Function.update_self, Phase.ran,
          Phase.rest, List.getLast?_concat, if_neg (List.cons_ne_nil _ _), Option.toList_some] at hf
        exact List.mem_append_right _ (by rwa [hphase.1])
      · rw [Seated, hphase.1] at hc
        simpa [Seated, setStack, setPhase, Phase.batch] using hc
    · exact unfinished_of_ne hl hf
  | exec hstack hready hrun =>
    refine unfinished_mono rfl (hupdate ?_) hf
    rintro rfl hnil
    rw [hnil] at hstack
    cases hstack
  | send hframe' hsees => exact unfinished_mono rfl (hupdate (hframe hframe')) hf
  | shutdown hframe' hsees => exact unfinished_mono rfl (hupdate (hframe hframe')) hf
  | ret hstack =>
    refine unfinished_mono rfl (hupdate ?_) hf
    rintro rfl hnil
    rw [hnil] at hstack
    cases hstack
  | destroyServer halive hphase horder =>
    have hphase : s.phase 0 = .outside := hphase.1
    refine absurd hf (not_mem_unfinished ?_ ?_)
    · exact congrArg Phase.ran hphase
    · exact congrArg Phase.rest hphase
  | _ => exact ⟨hf, fun c => id⟩

/-- Where a functor is bound to the raw object of `c`, `c` is anchored: by a lasting pointer if the
functor is still queued, by one of these or of the same batch if it is in the batch. -/
structure Backed (cfg : Config) (s : Server) : Prop where
  pending : ∀ f ∈ s.objects.pendingFunctors 0, ∀ c, f.rawConn? = some c → c ∈ s.lasting cfg
  batch : ∀ f ∈ s.unfinished, ∀ c, f.rawConn? = some c → s.Anchored cfg c

namespace Backed

/-- Only `send` and `shutdown` away from the base loop queue such a functor. -/
lemma of_queues {created : ℕ} {op : Op} (h : op.Queues created f) (hraw : f.rawConn? = some c) :
    (∃ len, op = .sendRun c len) ∨ op = .shutdownRun c := by
  cases op with
  | sendRun c' len =>
    obtain rfl : f = .sendInLoop c' len := h
    obtain rfl := Option.some.inj hraw
    exact .inl ⟨len, rfl⟩
  | shutdownRun c' =>
    obtain rfl : f = .shutdownInLoop c' := h
    obtain rfl := Option.some.inj hraw
    exact .inr rfl
  | sendBody c' len | handleWrite c' => rcases h with rfl | ⟨n, rfl⟩ <;> cases hraw
  | accept | removeConnectionInLoop c' | destroyItem c' | closeCallback c' =>
    simp only [Op.Queues] at h
    subst h
    cases hraw
  | _ => cases h

/-- When such a functor is queued, the thread that queues it has a lasting pointer. -/
lemma lasting_of_queues (hI : Supplied s) (hR : Registered cfg s) (hS : Shape cfg s) {i : Input}
    {op : Op} {rest ops : List Op} {o : Objects} (hstack : s.stack t = op :: rest)
    (hrun : Op.Runs cfg s.objects t i op o ops) (hqueues : op.Queues s.objects.created f)
    (hnew : f ∉ s.objects.pendingFunctors 0) (hf : f ∈ o.pendingFunctors 0)
    (hraw : f.rawConn? = some c) : c ∈ s.lasting cfg := by
  have hmem : op ∈ s.stack t := hstack ▸ List.mem_cons_self
  have haway : t ≠ .loop 0 := by
    rintro rfl
    rcases of_queues hqueues hraw with ⟨len, rfl⟩ | rfl
    · exact hI.direct c len hmem
    · cases hrun with
      | shutdownHere ht => exact hnew hf
      | shutdownThere ht => exact ht (by rw [hR.objects.loop])
  have hneeds : c ∈ op.needs := by
    rcases of_queues hqueues hraw with ⟨len, rfl⟩ | rfl
    · exact List.mem_singleton_self c
    · exact List.mem_singleton_self c
  exact (hI.pointer t haway op hmem c hneeds).lasting hS haway

/-- The batch is swapped. -/
lemma swap (h : Backed cfg s) (hphase : s.AtPhase 0 (.dispatching [])) :
    Backed cfg { s.setPhase 0 (.functors [] (s.objects.pendingFunctors 0)) with
      objects := s.objects.clearPending 0 } := by
  refine ⟨fun f hf => ?_, fun f hf c hraw => ?_⟩
  · simp [Objects.clearPending] at hf
  · have hf : f ∈ s.objects.pendingFunctors 0 := by
      simpa [unfinished, running, setPhase, Phase.ran, Phase.rest, hphase.2] using hf
    rcases mem_lasting.mp (h.pending f hf c hraw) with htable | ⟨l, hl, g, hg, hc⟩ | hheld
    · exact .inl (mem_lasting.mpr (.inl htable))
    · by_cases hzero : l = 0
      · subst hzero
        have hg : g ∈ s.objects.pendingFunctors 0 := by simpa [backlog] using hg
        exact .inr ⟨g, by simpa [setPhase, Phase.batch] using hg, hc⟩
      · refine .inl (mem_lasting.mpr (.inr (.inl ⟨l, hl, g, ?_, hc⟩)))
        simpa [backlog, setPhase, Objects.clearPending, Function.update_of_ne hzero] using hg
    · exact .inl (mem_lasting.mpr (.inr (.inr hheld)))

/-- Every considerate step keeps the connections anchored. -/
theorem step (h : Backed cfg s) (hI : Supplied s) (hR : Registered cfg s) (hS : Shape cfg s)
    (hok : s.Considerate cfg a) (hstep : Step cfg s a s') : Backed cfg s' := by
  by_cases hswap : a = .swap 0
  · subst hswap
    cases hstep with
    | swap hphase => exact h.swap hphase
  have hlasting : ∀ c, c ∈ s.lasting cfg →
      (∃ f ∈ s.objects.pendingFunctors 0, f.rawConn? = some c) → c ∈ s'.lasting cfg :=
    fun c hc hraw => lasting_step hR hstep hswap hc fun hgiven => (hok c hgiven).1 hraw
  have hpending : (∀ f ∈ s'.objects.pendingFunctors 0, f.rawConn? ≠ none →
      f ∈ s.objects.pendingFunctors 0) → ∀ f ∈ s'.objects.pendingFunctors 0, ∀ c,
      f.rawConn? = some c → c ∈ s'.lasting cfg := by
    intro hold f hf c hraw
    have hf := hold f hf (by rw [hraw]; exact Option.some_ne_none c)
    exact hlasting c (h.pending f hf c hraw) ⟨f, hf, hraw⟩
  refine ⟨?_, fun f hf c hraw => ?_⟩
  · cases hstep with
    | @exec t i op rest o ops hstack hready hrun =>
      intro f hf c hraw
      by_cases hold : f ∈ s.objects.pendingFunctors 0
      · exact hlasting c (h.pending f hold c hraw) ⟨f, hold, hraw⟩
      · rcases hrun.effect.mem_pending hR.objects.loop hf with hin | ⟨hqueues, -⟩
        · exact absurd hin hold
        · have hc := lasting_of_queues hI hR hS hstack hrun hqueues hold hf hraw
          refine lasting_executed hR hstack hready hrun hc fun hitem => ?_
          subst hitem
          rcases of_queues hqueues hraw with ⟨len, heq⟩ | heq <;> cases heq
    | swap hphase => exact hpending fun f hf _ => (Objects.mem_clearPending hf).1
    | @queueInLoop t l cs' cs buffer hframe hl hsees =>
      refine hpending fun f hf hraw => ?_
      rcases Objects.mem_queueInLoop hf with hf | ⟨rfl, -⟩
      · exact hf
      · exact absurd rfl hraw
    | _ => exact hpending fun f hf _ => hf
  · obtain ⟨hold, hseated⟩ := mem_unfinished_of_step hS hstep hswap hf
    by_cases hgiven : c ∈ s.surrendered a
    · rcases h.batch f hold c hraw with hc | hc
      · rcases (hok c hgiven).2 ⟨f, hold, hraw⟩ with hleft | hc
        · exact .inl (lasting_step hR hstep hswap hc fun _ => hleft)
        · exact .inr (hseated c hc)
      · exact .inr (hseated c hc)
    · rcases h.batch f hold c hraw with hc | hc
      · exact .inl (lasting_step hR hstep hswap hc fun hin => absurd hin hgiven)
      · exact .inr (hseated c hc)

end Backed

/-- The functors in the batch of a sub-loop are such as a sub-loop runs. -/
lemma batch_onSubLoop_of_step (hS : Shape cfg s) (hstep : Step cfg s a s')
    (h : ∀ l ≠ 0, ∀ f ∈ (s.phase l).batch, f.op.onSubLoop = true) :
    ∀ l ≠ 0, ∀ f ∈ (s'.phase l).batch, f.op.onSubLoop = true := by
  have hqueued : ∀ l ≠ 0, ∀ f ∈ s.waiting l, f.op.onSubLoop = true := by
    intro l hl f hf
    obtain ⟨l, rfl⟩ := Nat.exists_eq_succ_of_ne_zero hl
    exact hS.queued (l + 1) f hf
  have hsetPhase : ∀ {l p}, (∀ f ∈ p.batch, f ∈ s.waiting l ∨ f ∈ (s.phase l).batch) →
      ∀ l' ≠ 0, ∀ f ∈ ((s.setPhase l p).phase l').batch, f.op.onSubLoop = true := by
    intro l p hp l' hl' f hf
    rcases mem_batch_setPhase hf with ⟨rfl, hnew⟩ | hold
    · exact (hp f hnew).elim (hqueued _ hl' f) (h _ hl' f)
    · exact h l' hl' f hold
  cases hstep with
  | enter hl hphase => exact hsetPhase nofun
  | leave hphase => exact hsetPhase nofun
  | poll hphase hnodup hactive => exact hsetPhase nofun
  | release hphase => exact hsetPhase nofun
  | dispatch hphase halive => exact hsetPhase nofun
  | swap hphase => exact hsetPhase fun f hf => .inl (List.mem_append_left _ hf)
  | next hphase =>
    refine hsetPhase fun f hf => .inr ?_
    rw [hphase.1]
    simpa [Phase.batch] using hf
  | _ => exact h

lemma batch_onSubLoop_of_reach (h : (system cfg).Reach s) :
    ∀ l ≠ 0, ∀ f ∈ (s.phase l).batch, f.op.onSubLoop = true := by
  refine h.invariant_of (J := Shape cfg)
    (I := fun s => ∀ l ≠ 0, ∀ f ∈ (s.phase l).batch, f.op.onSubLoop = true)
    (fun s hs => shape_of_reach hs) ?_
    fun s a s' hS _ hI _ hs => batch_onSubLoop_of_step hS (step_cases hs) hI
  rintro s rfl l - f hf
  cases hf

/-- What a loop is in the middle of is in its batch. -/
lemma mem_batch_of_running (hf : f ∈ s.running l) : f ∈ (s.phase l).batch := by
  rw [running] at hf
  split at hf
  · cases hf
  · cases hphase : s.phase l with
    | functors ran rest =>
      simp only [hphase, Phase.ran, Option.mem_toList] at hf
      exact List.mem_append_left _ (List.mem_of_getLast? hf)
    | _ =>
      rw [hphase] at hf
      cases hf

/-- In considerate runs, whenever a loop is executing a functor that is bound to the raw object of
a connection, `connections_`, a functor or the application holds a pointer to it. -/
theorem anchored_of_running (h : (system cfg).ReachWhere (Considerate cfg) s) (l : LoopId)
    (hf : f ∈ s.running l) (hraw : f.rawConn? = some c) : s.Anchored cfg c := by
  have hS := shape_of_reach h.reach
  have hbacked : Backed cfg s := by
    refine h.invariant_of (I := Backed cfg)
      (J := fun s => Supplied s ∧ Registered cfg s ∧ Shape cfg s)
      (fun s hs => ⟨supplied_of_reach hs.reach, registered_of_reach hs.reach,
        shape_of_reach hs.reach⟩) ?_
      fun s a s' hJ _ hI hok hs => hI.step hJ.1 hJ.2.1 hJ.2.2 hok (step_cases hs)
    rintro s rfl
    exact ⟨fun _ hf => absurd hf List.not_mem_nil, fun _ hf => absurd hf List.not_mem_nil⟩
  by_cases hl : l = 0
  · subst hl
    exact hbacked.batch f (List.mem_append_left _ hf) c hraw
  · have hsub := batch_onSubLoop_of_reach h.reach l hl f (mem_batch_of_running hf)
    cases f <;> first | (cases hraw; done) | cases hsub

/-- A thread of the application that is given a pointer is inside `send` when the peer closes the
connection.  It queues its functor when `connectDestroyed` has been executed; then another
thread drops its pointer. -/
def belatedSendRun : List Act :=
  [.enter 0, .poll 0 [(3, EPOLLIN)], .dispatch 0, .exec (.loop 0) (.accept (some 4)),
    .exec (.loop 0) .none, .exec (.loop 0) .none, .exec (.loop 0) .none,
    .user (.loop 0) (.copy 0 (.user 0)), .user (.loop 0) (.copy 0 (.user 1)),
    .user (.loop 0) .ret, .exec (.loop 0) .none, .exec (.loop 0) .none, .swap 0, .release 0,
    .user (.user 0) (.send 0 1), .exec (.user 0) .none, .poll 0 [(4, EPOLLHUP)], .dispatch 0,
    .exec (.loop 0) .none, .exec (.loop 0) .none, .user (.loop 0) .ret, .exec (.loop 0) .none,
    .exec (.loop 0) .none, .exec (.loop 0) .none, .exec (.loop 0) .none, .swap 0, .next 0,
    .exec (.loop 0) .none, .exec (.loop 0) .none, .exec (.user 0) .none,
    .user (.user 1) (.drop 0)]

/-- The batch is released, and the base loop runs the functor. -/
def belatedCall : List Act := [.release 0, .poll 0 [], .swap 0, .next 0]

theorem anchored_of_running_belatedSendRun :
    ∃ s, (system (exampleConfig 0 false)).ReachWhere (Considerate (exampleConfig 0 false)) s ∧
      s.objects.connections = [] ∧ .sendInLoop 0 1 ∈ s.running 0 ∧
      s.Anchored (exampleConfig 0 false) 0 := by
  obtain ⟨s, hs, hobserved⟩ := exists_reach_of_run
    (M := (system (exampleConfig 0 false)).restrict (Considerate (exampleConfig 0 false)))
    (s := new (exampleConfig 0 false)) (v := ([], [.sendInLoop 0 1]))
    (belatedSendRun ++ belatedCall) (fun s => (s.objects.connections, s.running 0)) rfl
    (by decide +kernel)
  obtain ⟨htable, hrunning⟩ := Prod.mk.inj hobserved
  have hreach := Reach.of_restrict hs
  have hf : .sendInLoop 0 1 ∈ s.running 0 := hrunning ▸ List.mem_singleton_self _
  exact ⟨s, hreach, htable, hf, anchored_of_running hreach 0 hf rfl⟩

/-- The first thread also drops its pointer before the batch is released: the base loop runs
`sendInLoop` on an object that no longer exists. -/
theorem exists_running_not_anchored :
    ∃ s, (system (exampleConfig 0 false)).Reach s ∧ .sendInLoop 0 1 ∈ s.running 0 ∧
      ¬ s.Anchored (exampleConfig 0 false) 0 ∧ s.refCount (exampleConfig 0 false) 0 = 0 := by
  obtain ⟨s, hs, hobserved⟩ := exists_reach_of_run (M := system (exampleConfig 0 false))
    (s := new (exampleConfig 0 false)) (v := ([.sendInLoop 0 1], false, 0))
    (belatedSendRun ++ .user (.user 0) (.drop 0) :: belatedCall)
    (fun s => (s.running 0, decide (s.Anchored (exampleConfig 0 false) 0),
      s.refCount (exampleConfig 0 false) 0)) rfl (by decide +kernel)
  obtain ⟨hrunning, hrest⟩ := Prod.mk.inj hobserved
  obtain ⟨hnot, hcount⟩ := Prod.mk.inj hrest
  exact ⟨s, hs, hrunning ▸ List.mem_singleton_self _, of_decide_eq_false hnot, hcount⟩

end Server

end HzhMuduo
