import HzhMuduo.Server.Connection

/-!
# Who knows a connection

Beside the operations and functors of a connection, the map of the server (`InTable`) and the
code of the application can know it; until the connection is announced to the application, this
has no pointer to it (`Unseen`).  Steps that execute no operation of the connection change
neither.

`Rhythm` is what the phases of the base loop give: every channel is reported once, and a
`connectDestroyed` that is queued is called before the next `poll`.
-/

namespace HzhMuduo

open MachineWord TcpConnection

/-- The calls of the application's callbacks. -/
def Op.callback : Op → Bool
  | .connectionCallback _ | .messageCallback _ | .writeCompleteCallback _
  | .highWaterMarkCallback _ _ => true
  | _ => false

variable {cfg : Config} {o o' : Objects} {t : Tid} {i : Input} {op : Op} {ops : List Op} {c : ConnId}

/-- Code of the application starts in a callback, with the connection's pointer. -/
lemma Op.Follows.user {cs : List ConnId} {buffer : Option ConnId}
    (h : Op.Follows o o' op (.user cs buffer)) :
    op.callback = true ∧ ∃ c, op.conn? = some c ∧ cs = [c] := by
  cases h <;> exact ⟨rfl, _, rfl, rfl⟩

/-- No operation queues a functor of the application. -/
lemma Op.Queues.ne_user {created : ℕ} {cs : List ConnId} : ¬ op.Queues created (.user cs) := by
  intro h
  cases op with
  | sendBody | handleWrite => rcases h with heq | ⟨n, heq⟩ <;> cases heq
  | _ => cases h

namespace Objects

/-- The name of the next connection is new. -/
lemma WellFormed.name_ne_nextName (hW : o.WellFormed cfg) (hc : c < o.created) :
    (o.conn c).name ≠ o.nextName cfg := by
  intro heq
  have hid : o.nextConnId.toInt = ((o.created + 1 : ℕ) : ℤ) := hW.nextConnId
  have hlt : o.created + 1 < 2 ^ 31 := by
    have hmax := BitVec.toInt_lt (x := o.nextConnId)
    omega
  rw [hW.name c hc, nextName, hid] at heq
  have hinj := connName_inj (Nat.lt_trans (Nat.succ_lt_succ hc) hlt) hlt heq
  exact absurd (Nat.succ.inj hinj) hc.ne

/-- The connection has an entry in `connections_`. -/
def InTable (o : Objects) (c : ConnId) : Prop := ∃ name, (name, c) ∈ o.connections

/-- Only `removeConnectionInLoop` and the destructor of the server take an entry out. -/
theorem inTable_iff_of_runs (h : Op.Runs cfg o t i op o' ops) (hW : o.WellFormed cfg)
    (hop : ∀ c', op.conn? = some c' → c' < o.created) (hc : c < o.created) :
    o'.InTable c ↔
      o.InTable c ∧ op ≠ .removeConnectionInLoop c ∧ op ≠ .destroyItem c := by
  have hforget : ∀ c', (o.forget c').InTable c ↔ o.InTable c ∧ c' ≠ c := by
    intro c'
    simp only [InTable, forget, List.mem_filter, decide_eq_true_eq, ← exists_and_right]
    exact exists_congr fun name => and_congr_right fun _ => ne_comm
  have hcreate : ∀ fd, (o.newConnection cfg t fd).1.InTable c ↔ o.InTable c := by
    intro fd
    have hinsert : (o.insert (o.nextName cfg) o.created).InTable c ↔ o.InTable c := by
      refine exists_congr fun name => ⟨fun hx => ?_, fun hx => ?_⟩
      · rcases List.mem_append.mp hx with hx | hx
        · exact (List.mem_filter.mp hx).1
        · obtain ⟨-, rfl⟩ := Prod.mk.inj (List.mem_singleton.mp hx)
          exact absurd hc (Nat.lt_irrefl _)
      · refine List.mem_append_left _ (List.mem_filter.mpr ⟨hx, decide_eq_true ?_⟩)
        rw [(hW.table _ hx).2]
        exact hW.name_ne_nextName hc
    obtain ⟨o₁, rfl, ⟨-, heq⟩ | ⟨-, heq⟩⟩ := o.newConnection_cases cfg t fd
    · rw [heq]
      exact hinsert
    · rw [heq]
      exact hinsert
  have hkept : op ≠ .removeConnectionInLoop c → op ≠ .destroyItem c →
      (o.InTable c ↔ o.InTable c ∧ op ≠ .removeConnectionInLoop c ∧ op ≠ .destroyItem c) :=
    fun hremove hdestroy => (and_iff_left ⟨hremove, hdestroy⟩).symm
  cases h with
  | @removeConnectionInLoop i c' halive =>
    constructor
    · rintro ⟨name, hx⟩
      obtain ⟨hx, hne⟩ := List.mem_filter.mp hx
      refine ⟨⟨name, hx⟩, ?_, by simp⟩
      intro heq
      obtain rfl := Op.removeConnectionInLoop.inj heq
      exact of_decide_eq_true hne (hW.table _ hx).2
    · rintro ⟨⟨name, hx⟩, hne, -⟩
      refine ⟨name, List.mem_filter.mpr ⟨hx, decide_eq_true fun heq => hne ?_⟩⟩
      obtain rfl := hW.name_inj (hop c' rfl) hc (heq.symm.trans (hW.table _ hx).2)
      rfl
  | acceptedHere hid ht => exact (hcreate _).trans (hkept (by simp) (by simp))
  | acceptedThere hid ht => exact (hcreate _).trans (hkept (by simp) (by simp))
  | destroyHere ht =>
    refine (hforget _).trans (and_congr_right fun _ => ⟨fun hne => ⟨by simp, ?_⟩, fun hne => ?_⟩)
    · exact fun heq => hne (Op.destroyItem.inj heq)
    · exact fun heq => hne.2 (congrArg _ heq)
  | destroyThere ht =>
    refine (hforget _).trans (and_congr_right fun _ => ⟨fun hne => ⟨by simp, ?_⟩, fun hne => ?_⟩)
    · exact fun heq => hne (Op.destroyItem.inj heq)
    · exact fun heq => hne.2 (congrArg _ heq)
  | _ => exact hkept (by simp) (by simp)

end Objects

namespace Server

variable {s s' : Server} {a : Act} {l : LoopId}

/-- Steps that execute no operation of the connection leave its entry alone. -/
theorem Step.inTable_iff (hstep : Step cfg s a s') (hR : Registered cfg s)
    (hc : c < s.objects.created) (hnot : ¬ s.Executes a c) :
    s'.objects.InTable c ↔ s.objects.InTable c := by
  cases hstep with
  | @exec t i op rest o ops hstack hready hrun =>
    have hother : ∀ op' : Op, op'.conn? = some c → op ≠ op' := by
      rintro op' hop' rfl
      exact hnot ⟨t, i, op, rest, rfl, hstack, hop'⟩
    rw [executed, Objects.inTable_iff_of_runs hrun hR.objects (hR.lt_of_ready hready) hc]
    exact and_iff_left ⟨hother _ rfl, hother _ rfl⟩
  | _ => exact .rfl

/-- The application has not been passed a pointer to the connection. -/
structure Unseen (s : Server) (c : ConnId) : Prop where
  held : ∀ t, (t, c) ∉ s.held
  stack : ∀ t cs buffer, .user cs buffer ∈ s.stack t → c ∉ cs
  waiting : ∀ l cs, .user cs ∈ s.waiting l → c ∉ cs

namespace Unseen

/-- The application cannot name the connection. -/
lemma not_sees (h : s.Unseen c) {x : List ConnId × Option ConnId} (hframe : s.frame t = some x) :
    ¬ s.Sees t x.1 c := by
  rintro (hc | hheld)
  · cases hstack : s.stack t with
    | nil =>
      cases t with
      | loop l => simp [frame, hstack] at hframe
      | user u =>
        simp only [frame, hstack] at hframe
        rw [← Option.some.inj hframe] at hc
        cases hc
    | cons op rest =>
      cases op with
      | user cs buffer =>
        simp only [frame, hstack] at hframe
        rw [← Option.some.inj hframe] at hc
        exact h.stack t cs buffer (hstack ▸ List.mem_cons_self) hc
      | _ => simp [frame, hstack] at hframe
  · exact h.held t hheld

/-- The loop goes on to another phase. -/
lemma setPhase (h : s.Unseen c) {p : Phase} (hrest : ∀ f ∈ p.rest, f ∈ s.waiting l) :
    (s.setPhase l p).Unseen c := by
  refine ⟨h.held, h.stack, fun l' cs hf => ?_⟩
  rcases waiting_setPhase hf with hold | ⟨rfl, hnew⟩
  · exact h.waiting l' cs hold
  · exact h.waiting l' cs (hrest _ hnew)

/-- Another stack, on which no code of the application has a pointer to the connection. -/
lemma setStack (h : s.Unseen c) (hops : ∀ cs buffer, .user cs buffer ∈ ops → c ∉ cs) :
    (s.setStack t ops).Unseen c := by
  refine ⟨h.held, fun t' cs buffer hop => ?_, h.waiting⟩
  rcases mem_setStack hop with ⟨-, hnew⟩ | hold
  · exact hops cs buffer hnew
  · exact h.stack t' cs buffer hold

/-- Only the callbacks of the connection show it to the application. -/
theorem step (h : s.Unseen c) (hR : Registered cfg s) (hstep : Step cfg s a s')
    (hcall : ∀ t i op rest, a = .exec t i → s.stack t = op :: rest → op.conn? = some c →
      op.callback = false) : s'.Unseen c := by
  have hpush : ∀ {t : Tid} {op : Op}, (∀ cs buffer, op ≠ .user cs buffer) →
      (s.setStack t (op :: s.stack t)).Unseen c := by
    intro t op hop
    refine h.setStack fun cs buffer hmem => ?_
    rcases List.mem_cons.mp hmem with heq | hmem
    · exact absurd heq.symm (hop cs buffer)
    · exact h.stack t cs buffer hmem
  cases hstep with
  | enter hl hphase => exact h.setPhase fun f hf => absurd hf List.not_mem_nil
  | leave hphase => exact h.setPhase fun f hf => absurd hf List.not_mem_nil
  | poll hphase hnodup hactive => exact h.setPhase fun f hf => absurd hf List.not_mem_nil
  | release hphase => exact h.setPhase fun f hf => absurd hf List.not_mem_nil
  | dispatch hphase halive =>
    refine (h.setPhase fun f hf => absurd hf List.not_mem_nil).setStack fun cs buffer hop => ?_
    exact absurd hop (not_mem_handleEvent rfl)
  | swap hphase => exact ⟨h.held, h.stack, fun l' cs hf => h.waiting l' cs (waiting_swap hf)⟩
  | @next l ran f rest hphase =>
    have hrest : ∀ g ∈ f :: rest, g ∈ s.waiting l := fun g hg => waiting_of_rest hphase.1 hg
    have hphased : (s.setPhase l (.functors (ran ++ [f]) rest)).Unseen c :=
      h.setPhase fun g hg => hrest g (List.mem_cons_of_mem _ hg)
    refine hphased.setStack fun cs buffer hop => ?_
    have heq := List.mem_singleton.mp hop
    cases f with
    | user cs' =>
      obtain ⟨rfl, -⟩ := Op.user.inj heq
      exact h.waiting l cs (hrest _ List.mem_cons_self)
    | _ => cases heq
  | @exec t i op rest o ops hstack hready hrun =>
    refine ⟨h.held, fun t' cs buffer hop => ?_, fun l cs hf => ?_⟩
    · rcases mem_executed hstack hop with ⟨-, hnew⟩ | ⟨hold, -⟩
      · obtain ⟨hcallback, c', hconn, rfl⟩ := (hrun.follows hnew).user
        intro hc
        obtain rfl := List.mem_singleton.mp hc
        rw [hcall t i op rest rfl hstack hconn] at hcallback
        cases hcallback
      · exact h.stack t' cs buffer hold
    · rcases waiting_executed hR hrun hf with hf | hqueues
      · exact h.waiting l cs hf
      · exact absurd hqueues Op.Queues.ne_user
  | send hframe hsees => exact hpush nofun
  | shutdown hframe hsees => exact hpush nofun
  | @copy t c' heir cs buffer hframe hsees halive =>
    refine ⟨fun t' hmem => ?_, h.stack, h.waiting⟩
    rcases List.mem_cons.mp hmem with heq | hmem
    · obtain ⟨-, rfl⟩ := Prod.mk.inj heq
      exact h.not_sees hframe hsees
    · exact h.held t' hmem
  | drop hframe hheld =>
    exact ⟨fun t' hmem => h.held t' (List.mem_of_mem_erase hmem), h.stack, h.waiting⟩
  | @queueInLoop t l cs' cs buffer hframe hl hsees =>
    refine ⟨h.held, h.stack, fun l' cs₁ hf hc => ?_⟩
    rcases waiting_queueInLoop hf with hf | ⟨heq, -⟩
    · exact h.waiting l' cs₁ hf hc
    · obtain rfl := Functor.user.inj heq
      exact h.not_sees hframe (hsees c hc).1
  | setHighWaterMark hframe hsees halive => exact ⟨h.held, h.stack, h.waiting⟩
  | retrieve hframe halive => exact ⟨h.held, h.stack, h.waiting⟩
  | ret hstack =>
    exact h.setStack fun cs buffer hop => h.stack _ cs buffer (hstack ▸ List.mem_cons_of_mem _ hop)
  | @destroyServer order halive hphase horder =>
    have hstack : (s.setStack (.loop 0) (order.map Op.destroyItem ++ [.removeAcceptor])).Unseen c := by
      refine h.setStack fun cs buffer hop => ?_
      obtain ⟨c', -, heq⟩ | heq := mem_destroyServer hop
      · cases heq
      · cases heq
    exact ⟨hstack.held, hstack.stack, hstack.waiting⟩

end Unseen

/-! ### The rhythm of the base loop -/

/-- What the phases of the base loop give. -/
structure Rhythm (s : Server) : Prop where
  /-- `connectDestroyed` is only queued while events are dispatched. -/
  pending : ∀ c, .connectDestroyed c ∈ s.objects.pendingFunctors 0 →
    (s.phase 0).isDispatching = true
  /-- A channel is reported once. -/
  nodup : ((s.phase 0).active.map Prod.fst).Nodup

namespace Rhythm

/-- At `poll` no `connectDestroyed` waits. -/
lemma not_waiting (h : Rhythm s) (hphase : s.phase 0 = .polling) :
    .connectDestroyed c ∉ s.waiting 0 := by
  intro hf
  rcases List.mem_append.mp hf with hf | hf
  · have hdispatching := h.pending c hf
    rw [hphase] at hdispatching
    cases hdispatching
  · rw [hphase] at hf
    cases hf

/-- A loop that is not dispatching goes on to another phase. -/
lemma setPhase (h : Rhythm s) {p : Phase} (hold : (s.phase l).isDispatching = false)
    (hnodup : (p.active.map Prod.fst).Nodup) : Rhythm (s.setPhase l p) := by
  by_cases hl : 0 = l
  · subst hl
    refine ⟨fun c hf => ?_, by simpa [Server.setPhase] using hnodup⟩
    rw [h.pending c hf] at hold
    cases hold
  · refine ⟨fun c hf => ?_, ?_⟩
    · simpa [Server.setPhase, Function.update_of_ne hl] using h.pending c hf
    · simpa [Server.setPhase, Function.update_of_ne hl] using h.nodup

/-- Every step keeps the rhythm. -/
lemma step (h : Rhythm s) (hR : Registered cfg s) (hS : Shape cfg s) (hstep : Step cfg s a s') :
    Rhythm s' := by
  cases hstep with
  | enter hl hphase => exact h.setPhase (by rw [hphase.1]; rfl) .nil
  | leave hphase => exact h.setPhase (by rw [hphase.1]; rfl) .nil
  | release hphase => exact h.setPhase (by rw [hphase.1]; rfl) .nil
  | @poll l ready active hphase hnodup hactive =>
    refine h.setPhase (by rw [hphase.1]; rfl) ?_
    by_cases hl : l = 0
    · subst hl
      exact hR.objects.sound.nodup_fillActiveChannels hnodup hactive
    · rw [hR.objects.subPoller l hl] at hactive
      obtain rfl := Shape.fillActiveChannels_new hactive
      exact .nil
  | @dispatch l x active hphase halive =>
    by_cases hl : 0 = l
    · subst hl
      refine ⟨fun c hf => by simp [Server.setStack, Server.setPhase, Phase.isDispatching], ?_⟩
      have hnodup := h.nodup
      rw [hphase.1] at hnodup
      simpa [Server.setStack, Server.setPhase, Phase.active] using (List.nodup_cons.mp hnodup).2
    · exact ⟨fun c hf => by
        simpa [Server.setStack, Server.setPhase, Function.update_of_ne hl] using h.pending c hf,
        by simpa [Server.setStack, Server.setPhase, Function.update_of_ne hl] using h.nodup⟩
  | @swap l hphase =>
    by_cases hl : 0 = l
    · subst hl
      refine ⟨fun c hf => ?_, by simp [Server.setPhase, Phase.active]⟩
      simp [Objects.clearPending] at hf
    · refine ⟨fun c hf => ?_, ?_⟩
      · have hold := h.pending c (Objects.mem_clearPending hf).1
        simpa [Server.setPhase, Function.update_of_ne hl] using hold
      · simpa [Server.setPhase, Function.update_of_ne hl] using h.nodup
  | @next l ran f rest hphase =>
    have hnext : Rhythm (s.setPhase l (.functors (ran ++ [f]) rest)) :=
      h.setPhase (by rw [hphase.1]; rfl) .nil
    exact ⟨hnext.pending, hnext.nodup⟩
  | @exec t i op rest o ops hstack hready hrun =>
    refine ⟨fun c hf => ?_, h.nodup⟩
    have hmem : op ∈ s.stack t := hstack ▸ List.mem_cons_self
    rcases hrun.effect.mem_pending hR.objects.loop hf with hf | ⟨hqueues, -⟩
    · exact h.pending c hf
    · cases op with
      | removeConnectionInLoop c' =>
        obtain ⟨hdispatching, -⟩ := hS.fits (.loop 0) _ (hS.eq_base hmem rfl ▸ hmem)
        exact hdispatching rfl
      | destroyItem c' =>
        obtain rfl : t = .loop 0 := hS.eq_base hmem rfl
        cases hrun with
        | destroyHere ht => exact h.pending c hf
        | destroyThere ht => exact absurd (congrArg Tid.loop (hR.objects.loop c').symm) ht
      | sendBody | handleWrite => rcases hqueues with heq | ⟨n, heq⟩ <;> cases heq
      | _ => cases hqueues
  | @queueInLoop t l cs' cs buffer hframe hl hsees =>
    refine ⟨fun c hf => ?_, h.nodup⟩
    rcases Objects.mem_queueInLoop hf with hf | ⟨heq, -⟩
    · exact h.pending c hf
    · cases heq
  | _ => exact ⟨h.pending, h.nodup⟩

end Rhythm

/-- The rhythm in every run. -/
theorem rhythm_of_reach (h : (system cfg).Reach s) : Rhythm s := by
  refine h.invariant_of (J := fun s => Registered cfg s ∧ Shape cfg s)
    (fun s hs => ⟨registered_of_reach hs, shape_of_reach hs⟩) ?_
    fun s a s' hJ _ hI _ hs => hI.step hJ.1 hJ.2 (step_cases hs)
  rintro s rfl
  exact ⟨nofun, .nil⟩

end Server

end HzhMuduo
