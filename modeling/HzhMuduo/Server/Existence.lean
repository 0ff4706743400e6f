import HzhMuduo.Server.Lifetime
import Mathlib.Data.List.Nodup

/-!
# No operation on an object that is gone

A member function of a connection is called through a raw pointer, and the functions it calls go
on using the object.  Something has to keep the object until they are done: the guard of an event,
a local pointer further down on the stack, the functor being run, a pointer of the application, or,
in the destructor of the server, the entry of the map (`Shelter`).  In considerate runs every
operation on every stack has one (`alive_of_mem_stack`).
-/

namespace HzhMuduo

open MachineWord TcpConnection TransitionSystem

/-- The parts of `send` and `shutdown`. -/
def Op.calling : Op → Bool
  | .send _ _ | .sendRun _ _ | .sendInLoop _ _ | .sendBody _ _ | .shutdown _ | .setDisconnecting _
  | .shutdownRun _ | .shutdownInLoop _ => true
  | _ => false

section Classes

variable {o o' : Objects} {op op' : Op} {f : Functor} {c : ConnId}

/-- A call does not wait. -/
lemma Op.calling_of_waits (h : op.waits = true) : op.calling = false := by
  cases op <;> first | rfl | cases h

/-- What is left of a call is part of it. -/
lemma Op.Follows.calling (h : Op.Follows o o' op op') (hop : op.calling = true) :
    op'.calling = true := by
  cases h <;> first | rfl | cases hop

/-- A functor is bound to the raw object of the connection it works on, or holds a pointer to it. -/
lemma Functor.raw_or_owns (hc : c ∈ f.op.needs) :
    (f.rawConn? = some c ∧ f.op.calling = true) ∨ c ∈ f.owns := by
  cases f with
  | sendInLoop c' len | shutdownInLoop c' =>
    obtain rfl : c = c' := by simpa [Functor.op, Op.needs, Op.conn?] using hc
    exact .inl ⟨rfl, rfl⟩
  | user cs => exact .inr hc
  | _ => exact .inr (by simpa [Functor.op, Op.needs, Op.conn?, Functor.owns] using hc)

end Classes

namespace Server

variable {cfg : Config} {s s' : Server} {a : Act} {c : ConnId} {t : Tid} {op : Op} {ops : List Op}

lemma setStack_self : (s.setStack t ops).stack t = ops := by
  simp [setStack]

/-- What keeps `c` for the operation `op` of the base loop, which has `rest` below it on the
stack. -/
inductive Shelter (s : Server) (op : Op) (rest : List Op) (c : ConnId) : Prop
  | guarded (h : .release c ∈ rest)
  | seated (h : s.Seated c)
  | held (hop : op.calling = true) (h : (.loop 0, c) ∈ s.held)
  | running {f} (hop : op.calling = true) (hf : f ∈ s.running 0) (hraw : f.rawConn? = some c)
  | table (hop : op = .destroyItem c) (h : s.objects.InTable c)

/-- All operations of a stack of the base loop have a shelter. -/
def Sheltered (s : Server) : List Op → Prop
  | [] => True
  | op :: rest => (∀ c ∈ op.needs, s.Shelter op rest c) ∧ s.Sheltered rest

/-- The destructor takes the entries of the map one by one. -/
structure Secure (s : Server) : Prop where
  sheltered : s.Sheltered (s.stack (.loop 0))
  once : ∀ c, (s.stack (.loop 0)).count (.destroyItem c) ≤ 1
  entries : (s.objects.connections.map Prod.snd).Nodup

/-- What a shelter consists of stays. -/
lemma Shelter.mono {rest : List Op} (h : s.Shelter op rest c) (hphase : s'.phase 0 = s.phase 0)
    (hrunning : op.calling = true → ∀ f ∈ s.running 0, f ∈ s'.running 0)
    (hheld : op.calling = true → (.loop 0, c) ∈ s.held → (.loop 0, c) ∈ s'.held)
    (htable : op = .destroyItem c → s.objects.InTable c → s'.objects.InTable c) :
    s'.Shelter op rest c := by
  cases h with
  | guarded h => exact .guarded h
  | seated h => exact .seated (by rwa [Seated, hphase])
  | held hop h => exact .held hop (hheld hop h)
  | running hop hf hraw => exact .running hop (hrunning hop _ hf) hraw
  | table hop h => exact .table hop (htable hop h)

namespace Sheltered

lemma mono (h : s.Sheltered ops)
    (hmono : ∀ op ∈ ops, ∀ rest c, s.Shelter op rest c → s'.Shelter op rest c) :
    s'.Sheltered ops := by
  induction ops with
  | nil => trivial
  | cons op rest ih =>
    exact ⟨fun c hc => hmono op List.mem_cons_self rest c (h.1 c hc),
      ih h.2 fun op' hop' => hmono op' (List.mem_cons_of_mem _ hop')⟩

/-- Operations are put on top of a stack. -/
lemma append {rest : List Op} (hrest : s.Sheltered rest)
    (hops : ∀ pre op post, ops = pre ++ op :: post → ∀ c ∈ op.needs, s.Shelter op (post ++ rest) c) :
    s.Sheltered (ops ++ rest) := by
  induction ops with
  | nil => exact hrest
  | cons op ops ih =>
    refine ⟨hops [] op ops rfl, ih fun pre op' post heq => ?_⟩
    exact hops (op :: pre) op' post (by rw [heq, List.cons_append])

/-- Whoever has a shelter exists. -/
lemma alive (h : s.Sheltered ops) (hops : ∀ op ∈ ops, op ∈ s.stack (.loop 0))
    (hraw : ∀ f ∈ s.running 0, ∀ c, f.rawConn? = some c → s.Anchored cfg c) (hop : op ∈ ops)
    (hc : c ∈ op.needs) : s.Alive cfg c := by
  induction ops with
  | nil => cases hop
  | cons first rest ih =>
    rcases List.mem_cons.mp hop with rfl | hop
    · cases h.1 c hc with
      | guarded hrelease =>
        have hmem := hops _ (List.mem_cons_of_mem _ hrelease)
        exact alive_iff.mpr (.stack (Nat.zero_le _) hmem (List.mem_singleton_self c))
      | seated hseated => exact Anchored.alive (.inr hseated)
      | held _ hheld => exact alive_iff.mpr (.held hheld)
      | running _ hf hfc => exact (hraw _ hf c hfc).alive
      | table _ htable =>
        obtain ⟨name, hx⟩ := htable
        exact alive_iff.mpr (.table hx)
    · exact ih h.2 (fun op' hop' => hops op' (List.mem_cons_of_mem _ hop')) hop

end Sheltered

namespace Secure

/-- Steps that leave the stack and the batch of the base loop alone. -/
lemma of_same (h : Secure s) (hphase : s'.phase 0 = s.phase 0)
    (hstack : s'.stack (.loop 0) = s.stack (.loop 0))
    (hheld : ∀ op ∈ s.stack (.loop 0), op.calling = true → ∀ c, (.loop 0, c) ∈ s.held →
      (.loop 0, c) ∈ s'.held)
    (htable : ∀ c, .destroyItem c ∈ s.stack (.loop 0) → s.objects.InTable c →
      s'.objects.InTable c)
    (hentries : (s'.objects.connections.map Prod.snd).Nodup) : Secure s' := by
  refine ⟨?_, fun c => hstack ▸ h.once c, hentries⟩
  rw [hstack]
  refine h.sheltered.mono fun op hop rest c hc => hc.mono hphase (fun _ f hf => ?_)
    (fun hcall => hheld op hop hcall c) fun heq => htable c (heq ▸ hop)
  rwa [running, hstack, hphase]

/-- The base loop has nothing on its stack. -/
lemma of_nil (hstack : s'.stack (.loop 0) = [])
    (hentries : (s'.objects.connections.map Prod.snd).Nodup) : Secure s' := by
  refine ⟨?_, fun c => ?_, hentries⟩
  · rw [hstack]
    trivial
  · rw [hstack]
    exact Nat.zero_le _

/-- A loop between two operations goes on. -/
lemma setPhase (h : Secure s) {l : LoopId} {p : Phase} (hempty : s.stack (.loop l) = []) :
    Secure (s.setPhase l p) := by
  by_cases hl : l = 0
  · subst hl
    exact of_nil hempty h.entries
  · exact h.of_same (Function.update_of_ne (Ne.symm hl) _ _) rfl (fun _ _ _ _ => id) (fun _ _ => id)
      h.entries

/-- The stack of another thread. -/
lemma setStack_of_ne (h : Secure s) (ht : t ≠ .loop 0) : Secure (s.setStack t ops) :=
  h.of_same rfl (Function.update_of_ne (Ne.symm ht) _ _) (fun _ _ _ _ => id) (fun _ _ => id) h.entries

/-- An operation that is followed by the release of its pointer. -/
lemma release_mem_of_pair {first : Op} {c' : ConnId} {pre post : List Op}
    (h : pre ++ op :: post = [first, .release c']) (hfirst : first.needs = [c'])
    (hc : c ∈ op.needs) : .release c ∈ post := by
  cases pre with
  | nil =>
    obtain ⟨rfl, rfl⟩ := List.cons.inj h
    rw [hfirst, List.mem_singleton] at hc
    subst hc
    exact List.mem_singleton_self _
  | cons x pre =>
    have hrest := (List.cons.inj h).2
    cases pre with
    | nil =>
      obtain ⟨rfl, -⟩ := List.cons.inj hrest
      cases hc
    | cons y pre => simp at hrest

/-- The operation on top of the stack of the base loop is executed. -/
lemma executed (h : Secure s) (hR : Registered cfg s) (hS : Shape cfg s) {i : Input}
    {rest : List Op} {o : Objects} (hstack : s.stack (.loop 0) = op :: rest)
    (hready : s.Ready cfg op i) (hrun : Op.Runs cfg s.objects (.loop 0) i op o ops)
    (hentries : (o.connections.map Prod.snd).Nodup) :
    Secure (s.executed (.loop 0) op o (ops ++ rest)) := by
  have hmem : op ∈ s.stack (.loop 0) := hstack ▸ List.mem_cons_self
  have hsheltered := h.sheltered
  rw [hstack] at hsheltered
  have hnew : (s.executed (.loop 0) op o (ops ++ rest)).stack (.loop 0) = ops ++ rest := by
    simp [Server.executed, setStack]
  have hrunning : ops ++ rest ≠ [] → ∀ f ∈ s.running 0,
      f ∈ (s.executed (.loop 0) op o (ops ++ rest)).running 0 := by
    intro hne f hf
    rw [running, if_neg (by rw [hstack]; exact List.cons_ne_nil _ _)] at hf
    rw [running, hnew, if_neg hne]
    exact hf
  -- the destructor does not take an entry that is still to come
  have htable : ∀ c, .destroyItem c ∈ rest → s.objects.InTable c → o.InTable c := by
    rintro c hitem ⟨name, hx⟩
    have hdead := (hS.fits (.loop 0) _ (hstack ▸ List.mem_cons_of_mem _ hitem)).2.2 rfl
    refine (Objects.inTable_iff_of_runs hrun hR.objects (hR.lt_of_ready hready)
      (hR.objects.table _ hx).1).mpr ⟨⟨name, hx⟩, ?_, ?_⟩
    · rintro rfl
      cases hrun with
      | removeConnectionInLoop halive => cases halive.symm.trans hdead
    · rintro rfl
      have honce := h.once c
      rw [hstack, List.count_cons_self] at honce
      have hpos := List.count_pos_iff.mpr hitem
      omega
  refine ⟨?_, fun c => ?_, hentries⟩
  · rw [hnew]
    refine Sheltered.append (hsheltered.2.mono fun op' hop' below c hc => ?_) ?_
    · have hne : ops ++ rest ≠ [] := List.append_ne_nil_of_right_ne_nil _ (List.ne_nil_of_mem hop')
      exact hc.mono rfl (fun _ => hrunning hne) (fun _ => id) fun heq => htable c (heq ▸ hop')
    · intro pre op' post hops c hc
      have hop' : op' ∈ ops := hops ▸ List.mem_append_right _ List.mem_cons_self
      have hfollows := hrun.follows hop'
      by_cases haccept : op = .accept
      · subst haccept
        cases hrun with
        | acceptFailed => cases hop'
        | acceptedThere => cases hop'
        | acceptedHere hid ht =>
          exact .guarded (List.mem_append_left _ (release_mem_of_pair hops.symm rfl hc))
      · have hneeds := needs_of_follows hfollows haccept hc
        have hne : ops ++ rest ≠ [] := List.append_ne_nil_of_left_ne_nil (List.ne_nil_of_mem hop') _
        cases hsheltered.1 c hneeds with
        | guarded hrelease => exact .guarded (List.mem_append_right _ hrelease)
        | seated hseated => exact .seated hseated
        | held hcall hheld => exact .held (hfollows.calling hcall) hheld
        | running hcall hf hraw => exact .running (hfollows.calling hcall) (hrunning hne _ hf) hraw
        | table heq _ =>
          subst heq
          cases hrun with
          | destroyThere ht => cases hop'
          | destroyHere ht =>
            exact .guarded (List.mem_append_left _ (release_mem_of_pair hops.symm rfl hc))
  · rw [hnew, List.count_append, List.count_eq_zero.mpr, Nat.zero_add]
    · refine Nat.le_trans ?_ (h.once c)
      rw [hstack]
      exact List.count_le_count_cons
    · intro hitem
      cases (hrun.follows hitem).destructor

/-- An operation of another thread is executed. -/
lemma executed_of_ne (h : Secure s) (hR : Registered cfg s) (hS : Shape cfg s) {i : Input}
    {rest : List Op} {o : Objects} (ht : t ≠ .loop 0) (hstack : s.stack t = op :: rest)
    (hready : s.Ready cfg op i) (hrun : Op.Runs cfg s.objects t i op o ops)
    (hentries : (o.connections.map Prod.snd).Nodup) :
    Secure (s.executed t op o (ops ++ rest)) := by
  have haway : op.remote = true ∨ op.onSubLoop = true := by
    have hfits := hS.fits t op (hstack ▸ List.mem_cons_self)
    rcases t with (_ | l) | u
    · exact absurd rfl ht
    · exact .inr hfits
    · exact .inl hfits
  refine h.of_same rfl ?_ (fun _ _ _ _ => id) (fun c _ => ?_) hentries
  · simp [Server.executed, setStack, Function.update_of_ne ht.symm]
  · rintro ⟨name, hx⟩
    refine (Objects.inTable_iff_of_runs hrun hR.objects (hR.lt_of_ready hready)
      (hR.objects.table _ hx).1).mpr ⟨⟨name, hx⟩, ?_, ?_⟩
    · rintro rfl
      rcases haway with hop | hop <;> cases hop
    · rintro rfl
      rcases haway with hop | hop <;> cases hop

/-- The handlers of an event are guarded. -/
lemma sheltered_handleEvent (x : ChannelId × EventMask) : s.Sheltered (handleEvent x) := by
  rw [← List.append_nil (handleEvent x)]
  refine Sheltered.append trivial fun pre op post hsplit c hc => ?_
  have hop : op ∈ handleEvent x := hsplit ▸ List.mem_append_right _ List.mem_cons_self
  rcases mem_handleEvent hop with ⟨-, heq⟩ | ⟨c', hx, hkind⟩
  · rw [heq] at hc
    cases hc
  · refine .guarded ?_
    obtain ⟨k, revents⟩ := x
    obtain rfl : k = .conn c' := hx
    have hneeds : op = .release c' ∨ c = c' := by
      rcases hkind with (rfl | rfl | rfl | rfl) | rfl
      all_goals first | exact .inr (List.mem_singleton.mp hc) | exact .inl rfl
    rcases hneeds with rfl | rfl
    · cases hc
    · -- the guard is the last operation of all
      have hlast : (pre ++ op :: post).getLast? = some (.release c) := by
        rw [← hsplit, handleEvent, List.getLast?_concat]
      cases post with
      | nil =>
        rw [List.getLast?_concat] at hlast
        obtain rfl := Option.some.inj hlast
        cases hc
      | cons y post =>
        have hmem : .release c ∈ y :: post := by
          refine List.mem_of_getLast? ?_
          simpa [List.getLast?_append, List.getLast?_cons_cons] using hlast
        simpa using hmem

/-- The base loop dispatches an event. -/
lemma dispatch (h : Secure s) (x : ChannelId × EventMask) {p : Phase} :
    Secure ((s.setPhase 0 p).setStack (.loop 0) (handleEvent x)) := by
  have hnew : ((s.setPhase 0 p).setStack (.loop 0) (handleEvent x)).stack (.loop 0) =
      handleEvent x := setStack_self
  refine ⟨?_, fun c => ?_, h.entries⟩
  · rw [hnew]
    exact sheltered_handleEvent x
  · rw [hnew, List.count_eq_zero.mpr (not_mem_handleEvent rfl)]
    exact Nat.zero_le _

/-- The base loop calls a functor. -/
lemma next (h : Secure s) {ran rest : List Functor} {f : Functor} :
    Secure ((s.setPhase 0 (.functors (ran ++ [f]) rest)).setStack (.loop 0) [f.op]) := by
  have hnew : ((s.setPhase 0 (.functors (ran ++ [f]) rest)).setStack (.loop 0) [f.op]).stack
      (.loop 0) = [f.op] := setStack_self
  have hphase : ((s.setPhase 0 (.functors (ran ++ [f]) rest)).setStack (.loop 0) [f.op]).phase 0 =
      .functors (ran ++ [f]) rest := by
    simp [Server.setStack, Server.setPhase]
  refine ⟨?_, fun c => ?_, h.entries⟩
  · rw [hnew]
    refine ⟨fun c hc => ?_, trivial⟩
    rcases Functor.raw_or_owns hc with ⟨hraw, hcall⟩ | howns
    · refine .running hcall (f := f) ?_ hraw
      rw [running, hnew, hphase, if_neg (List.cons_ne_nil _ _), Phase.ran, List.getLast?_concat]
      exact List.mem_singleton_self f
    · refine .seated ⟨f, ?_, howns⟩
      rw [hphase]
      simp [Phase.batch]
  · rw [hnew]
    exact List.count_le_length

/-- The code of the application calls `send` or `shutdown` on the base loop. -/
lemma call (h : Secure s) {cs : List ConnId} {buffer : Option ConnId}
    (hframe : s.frame (.loop 0) = some (cs, buffer)) (hsees : s.Sees (.loop 0) cs c)
    (hop : op.needs = [c] ∧ op.calling = true ∧ ∀ c, op ≠ .destroyItem c) :
    Secure (s.setStack (.loop 0) (op :: s.stack (.loop 0))) := by
  have hnew : (s.setStack (.loop 0) (op :: s.stack (.loop 0))).stack (.loop 0) =
      op :: s.stack (.loop 0) := setStack_self
  obtain ⟨cs', buffer', rest, hstack, rfl⟩ :
      ∃ cs' buffer' rest, s.stack (.loop 0) = .user cs' buffer' :: rest ∧ cs' = cs := by
    simp only [frame] at hframe
    split at hframe
    · next cs' buffer' rest hstack =>
      exact ⟨cs', buffer', rest, hstack, (Prod.mk.inj (Option.some.inj hframe)).1⟩
    · next heq => cases heq
    · cases hframe
  have hsheltered := h.sheltered
  have hmono : ∀ (op' : Op) rest c, s.Shelter op' rest c →
      (s.setStack (.loop 0) (op :: s.stack (.loop 0))).Shelter op' rest c := by
    intro op' rest c hc
    refine hc.mono rfl (fun _ f hf => ?_) (fun _ => id) fun _ => id
    rw [running, if_neg (by rw [hstack]; exact List.cons_ne_nil _ _)] at hf
    rw [running, hnew, if_neg (List.cons_ne_nil _ _)]
    exact hf
  refine ⟨?_, fun c' => ?_, h.entries⟩
  · rw [hnew]
    refine ⟨fun c' hc' => ?_, hsheltered.mono fun op' _ => hmono op'⟩
    rw [hop.1, List.mem_singleton] at hc'
    subst hc'
    rcases hsees with hc | hheld
    · rw [hstack] at hsheltered ⊢
      cases hsheltered.1 c' hc with
      | guarded hrelease => exact .guarded (List.mem_cons_of_mem _ hrelease)
      | seated hseated => exact .seated hseated
      | held hcall => cases hcall
      | running hcall => cases hcall
      | table heq => cases heq
    · exact .held hop.2.1 hheld
  · rw [hnew, List.count_cons_of_ne (hop.2.2 c')]
    exact h.once c'

/-- The destructor of the server begins. -/
lemma destroyServer (h : Secure s) {order : List ConnId}
    (horder : order.isPerm (s.objects.connections.map Prod.snd) = true) :
    Secure { s.setStack (.loop 0) (order.map Op.destroyItem ++ [.removeAcceptor]) with
      objects := { s.objects with serverAlive := false } } := by
  have hperm := List.isPerm_iff.mp horder
  have hnew : (s.setStack (.loop 0) (order.map Op.destroyItem ++ [.removeAcceptor])).stack (.loop 0) =
      order.map Op.destroyItem ++ [.removeAcceptor] := setStack_self
  refine ⟨?_, fun c => ?_, h.entries⟩
  · show Sheltered _ ((s.setStack (.loop 0) _).stack (.loop 0))
    rw [hnew]
    refine Sheltered.append ⟨nofun, trivial⟩ fun pre op post hsplit c hc => ?_
    obtain ⟨c', hc', rfl⟩ := List.mem_map.mp (hsplit ▸ List.mem_append_right pre List.mem_cons_self)
    obtain rfl := List.mem_singleton.mp hc
    obtain ⟨x, hx, rfl⟩ := List.mem_map.mp (hperm.mem_iff.mp hc')
    exact .table rfl ⟨x.1, hx⟩
  · have hitems : (order.map Op.destroyItem).Nodup :=
      (hperm.nodup_iff.mpr h.entries).map fun _ _ heq => Op.destroyItem.inj heq
    have hcount : List.count (.destroyItem c) (order.map Op.destroyItem ++ [Op.removeAcceptor]) =
        List.count (.destroyItem c) (order.map Op.destroyItem) := by
      simp [List.count_append]
    rw [← hnew] at hcount
    exact Nat.le_trans (Nat.le_of_eq hcount) (List.nodup_iff_count_le_one.mp hitems _)

/-- Every step keeps the entries of the map apart. -/
lemma entries_step (h : Secure s) (hR : Registered cfg s) (hstep : Step cfg s a s') :
    (s'.objects.connections.map Prod.snd).Nodup := by
  cases hstep with
  | @exec t i op rest o ops hstack hready hrun =>
    have hfilter : ∀ p : List Char × ConnId → Bool,
        ((s.objects.connections.filter p).map Prod.snd).Nodup := fun p =>
      h.entries.sublist (List.filter_sublist.map Prod.snd)
    cases hrun.effect with
    | erase => exact hfilter _
    | forget => exact hfilter _
    | forgetThere => exact hfilter _
    | @accept fd =>
      have hinsert : ((s.objects.insert (s.objects.nextName cfg) s.objects.created).connections.map
          Prod.snd).Nodup := by
        simp only [Objects.insert, List.map_append, List.map_cons, List.map_nil]
        refine List.nodup_append.mpr ⟨hfilter _, List.nodup_singleton _, ?_⟩
        rintro c hc c' hc' rfl
        obtain rfl := List.mem_singleton.mp hc'
        obtain ⟨x, hx, heq⟩ := List.mem_map.mp hc
        exact absurd heq (hR.objects.table x (List.mem_filter.mp hx).1).1.ne
      obtain ⟨o₁, rfl, ⟨-, heq⟩ | ⟨-, heq⟩⟩ := s.objects.newConnection_cases cfg t fd
      · simp only [Server.executed, heq]
        exact hinsert
      · simp only [Server.executed, heq]
        exact hinsert
    | _ => exact h.entries
  | _ => exact h.entries

/-- Every step keeps the base loop secure. -/
theorem step (h : Secure s) (hR : Registered cfg s) (hS : Shape cfg s) (hstep : Step cfg s a s') :
    Secure s' := by
  have hentries := h.entries_step hR hstep
  -- where the code of the application runs on the base loop, nothing of `send` is on its stack
  have hframe : ∀ {t x}, s.frame t = some x → ∀ op ∈ s.stack t, t = .loop 0 →
      op.calling = false := by
    rintro t x hframe op hop rfl
    simp only [frame] at hframe
    split at hframe
    · next cs buffer rest hstack =>
      rw [hstack] at hop
      rcases List.mem_cons.mp hop with rfl | hop
      · rfl
      · exact Op.calling_of_waits (hS.top _ _ _ hstack op hop)
    · next heq => cases heq
    · cases hframe
  cases hstep with
  | enter hl hphase => exact h.setPhase hphase.2
  | leave hphase => exact h.setPhase hphase.2
  | poll hphase hnodup hactive => exact h.setPhase hphase.2
  | release hphase => exact h.setPhase hphase.2
  | @swap l hphase =>
    have hswapped := h.setPhase (p := .functors [] (s.objects.pendingFunctors l)) hphase.2
    exact hswapped.of_same rfl rfl (fun _ _ _ _ => id) (fun _ _ => id) hentries
  | @dispatch l x active hphase halive =>
    obtain rfl := hS.eq_zero_of_dispatching hphase.1
    exact h.dispatch x
  | @next l ran f rest hphase =>
    by_cases hl : l = 0
    · subst hl
      exact h.next
    · exact (h.setPhase hphase.2).setStack_of_ne fun heq => hl (Tid.loop.inj heq)
  | @exec t i op rest o ops hstack hready hrun =>
    by_cases ht : t = .loop 0
    · subst ht
      exact h.executed hR hS hstack hready hrun hentries
    · exact h.executed_of_ne hR hS ht hstack hready hrun hentries
  | @send t c len cs buffer hframe' hsees =>
    by_cases ht : t = .loop 0
    · subst ht
      exact h.call hframe' hsees ⟨rfl, rfl, fun c' heq => by cases heq⟩
    · exact h.setStack_of_ne ht
  | @shutdown t c cs buffer hframe' hsees =>
    by_cases ht : t = .loop 0
    · subst ht
      exact h.call hframe' hsees ⟨rfl, rfl, fun c' heq => by cases heq⟩
    · exact h.setStack_of_ne ht
  | copy hframe' hsees halive =>
    exact h.of_same rfl rfl (fun _ _ _ _ => List.mem_cons_of_mem _) (fun _ _ => id) hentries
  | @drop t c cs buffer hframe' hheld =>
    refine h.of_same rfl rfl (fun op hop hcall c' hc' => ?_) (fun _ _ => id) hentries
    have hne : (Tid.loop 0, c') ≠ (t, c) := by
      intro heq
      obtain ⟨rfl, -⟩ := Prod.mk.inj heq
      rw [hframe hframe' op hop rfl] at hcall
      cases hcall
    exact (List.mem_erase_of_ne hne).mpr hc'
  | queueInLoop hframe' hl hsees =>
    exact h.of_same rfl rfl (fun _ _ _ _ => id) (fun _ _ => id) hentries
  | setHighWaterMark hframe' hsees halive =>
    exact h.of_same rfl rfl (fun _ _ _ _ => id) (fun _ _ => id) hentries
  | retrieve hframe' halive =>
    exact h.of_same rfl rfl (fun _ _ _ _ => id) (fun _ _ => id) hentries
  | @ret t cs buffer rest hstack =>
    by_cases ht : t = .loop 0
    · subst ht
      have hsheltered := h.sheltered
      rw [hstack] at hsheltered
      refine ⟨?_, fun c => ?_, hentries⟩
      · rw [setStack_self]
        refine hsheltered.2.mono fun op hop below c hc => hc.mono rfl (fun hcall => ?_)
          (fun _ => id) fun _ => id
        rw [Op.calling_of_waits (hS.top _ _ _ hstack op hop)] at hcall
        cases hcall
      · rw [setStack_self]
        refine Nat.le_trans ?_ (h.once c)
        rw [hstack]
        exact List.count_le_count_cons
    · exact h.setStack_of_ne ht
  | destroyServer halive hphase horder => exact h.destroyServer horder

end Secure

/-- The base loop is secure in every run. -/
lemma secure_of_reach (h : (system cfg).Reach s) : Secure s := by
  refine h.invariant_of (J := fun s => Registered cfg s ∧ Shape cfg s)
    (fun s hs => ⟨registered_of_reach hs, shape_of_reach hs⟩) ?_
    fun s a s' hJ _ hI _ hs => hI.step hJ.1 hJ.2 (step_cases hs)
  rintro s rfl
  exact .of_nil rfl .nil

/-- In considerate runs the functors bound to a raw object are backed. -/
lemma backed_of_reach (h : (system cfg).ReachWhere (Considerate cfg) s) : Backed cfg s := by
  refine h.invariant_of (J := fun s => Supplied s ∧ Registered cfg s ∧ Shape cfg s)
    (fun s hs => ⟨supplied_of_reach hs.reach, registered_of_reach hs.reach,
      shape_of_reach hs.reach⟩) ?_
    fun s a s' hJ _ hI hok hs => hI.step hJ.1 hJ.2.1 hJ.2.2 hok (step_cases hs)
  rintro s rfl
  exact ⟨fun _ hf => absurd hf List.not_mem_nil, fun _ hf => absurd hf List.not_mem_nil⟩

/-- In considerate runs, with any number of sub-loops and threads, and also while the server is
destroyed, every connection that an operation on some stack is about to use exists. -/
theorem alive_of_mem_stack (h : (system cfg).ReachWhere (Considerate cfg) s)
    (hop : op ∈ s.stack t) (hc : c ∈ op.needs) : s.Alive cfg c := by
  by_cases ht : t = .loop 0
  · subst ht
    refine (secure_of_reach h.reach).sheltered.alive (fun _ => id) (fun f hf c hraw => ?_) hop hc
    exact (backed_of_reach h).batch f (List.mem_append_left _ hf) c hraw
  · have hS := shape_of_reach h.reach
    have hpointer := (supplied_of_reach h.reach).pointer t ht op hop c hc
    exact Anchored.alive (.inl (hpointer.lasting hS ht))

/-- A thread of the application is inside `send` while the server is destroyed on the base loop,
which has queued work on the raw object before. -/
def destroyedWhileSendingRun : List Act :=
  [.enter 0, .poll 0 [(3, EPOLLIN)], .dispatch 0, .exec (.loop 0) (.accept (some 4)),
    .exec (.loop 0) .none, .exec (.loop 0) .none, .exec (.loop 0) .none,
    .user (.loop 0) (.copy 0 (.user 0)), .user (.loop 0) .ret, .exec (.loop 0) .none,
    .exec (.loop 0) .none, .swap 0, .release 0, .leave 0, .user (.user 0) (.send 0 1),
    .exec (.user 0) .none, .destroyServer [0], .exec (.loop 0) .none, .exec (.loop 0) .none,
    .exec (.loop 0) .none, .exec (.loop 0) .none]

theorem alive_of_mem_stack_destroyedWhileSendingRun :
    ∃ s, (system (exampleConfig 0 false)).ReachWhere (Considerate (exampleConfig 0 false)) s ∧
      .sendRun 0 1 ∈ s.stack (.user 0) ∧ .user [0] none ∈ s.stack (.loop 0) ∧
      s.Alive (exampleConfig 0 false) 0 := by
  obtain ⟨s, hs, hobserved⟩ := exists_reach_of_run
    (M := (system (exampleConfig 0 false)).restrict (Considerate (exampleConfig 0 false)))
    (s := new (exampleConfig 0 false)) (v := (true, true)) destroyedWhileSendingRun
    (fun s => (decide (.sendRun 0 1 ∈ s.stack (.user 0)),
      decide (.user [0] none ∈ s.stack (.loop 0)))) rfl (by decide +kernel)
  obtain ⟨hsend, huser⟩ := Prod.mk.inj hobserved
  have hreach := Reach.of_restrict hs
  have hop := of_decide_eq_true huser
  exact ⟨s, hreach, of_decide_eq_true hsend, hop,
    alive_of_mem_stack hreach hop (List.mem_singleton_self 0)⟩

end Server

end HzhMuduo
