import HzhMuduo.Server.Steps

/-!
# The connection table over long runs

`newConnection` and `removeConnectionInLoop` of one server, called any number of times in any
order, with `nextConnId_` an `int` that wraps.  `live` is the history of the connections that
were accepted and not removed.

The name of a connection is a function of its 32 bits of identifier that loses nothing, so the
table is right as long as identifiers of live connections do not repeat (`tracks_iff`).  After
`2 ^ 32` connections they do, and a connection that is still open is dropped from the table
(`exists_replaced`).
-/

namespace HzhMuduo

/-- The server's objects, and the connections accepted and not removed. -/
structure TableRun where
  objects : Objects
  live : List ConnId

namespace TableRun

variable {cfg : Config} {s s' : TableRun}

/-- The two calls; `newConnection` is given a descriptor, on some thread. -/
inductive Act
  | newConnection (t : Tid) (sockfd : Fd)
  | removeConnectionInLoop (c : ConnId)

/-- The step `a` of the server. -/
def step (cfg : Config) (s : TableRun) : Act → Option TableRun
  | .newConnection t sockfd =>
    some ⟨(s.objects.newConnection cfg t sockfd).1, s.live ++ [s.objects.created]⟩
  | .removeConnectionInLoop c =>
    if c < s.objects.created then
      (Op.run cfg s.objects (.loop 0) .none (.removeConnectionInLoop c)).map fun x =>
        ⟨x.1, s.live.filter fun d => d ≠ c⟩
    else none

/-- A new server. -/
def new (cfg : Config) : TableRun := ⟨(Server.new cfg).objects, []⟩

/-- The runs of the two calls. -/
def system (cfg : Config) : TransitionSystem TableRun Act where
  init s := s = new cfg
  step := step cfg

/-- `connections_` holds exactly the live connections, each under its own name. -/
def Tracks (s : TableRun) : Prop :=
  ∀ name c, (name, c) ∈ s.objects.connections ↔ c ∈ s.live ∧ (s.objects.conn c).name = name

/-- The `nextConnId_` that connection `c` was accepted with. -/
def idOf (c : ConnId) : BitVec 32 := BitVec.ofNat 32 (c + 1)

/-- No live connection has the identifier of the connection accepted next, or of the removed
connection that is removed again. -/
def NoCollision (s : TableRun) : Act → Prop
  | .newConnection _ _ => ∀ d ∈ s.live, idOf d ≠ s.objects.nextConnId
  | .removeConnectionInLoop c => c ∈ s.live ∨ ∀ d ∈ s.live, idOf d ≠ idOf c

/-- What the runs keep, whether the table is right or not. -/
structure TableInv (cfg : Config) (s : TableRun) : Prop where
  alive : s.objects.serverAlive = true
  nextConnId : s.objects.nextConnId = idOf s.objects.created
  name : ∀ c < s.objects.created,
    (s.objects.conn c).name = connName cfg.name cfg.listenAddr.toIpPort (idOf c).toInt
  live : ∀ c ∈ s.live, c < s.objects.created
  unique : ∀ name c d, (name, c) ∈ s.objects.connections → (name, d) ∈ s.objects.connections → c = d

/-- The table of a new server is right. -/
lemma tracks_new : Tracks (new cfg) := by
  intro name c
  simp [new, Server.new]

lemma tableInv_new : TableInv cfg (new cfg) where
  alive := rfl
  nextConnId := rfl
  name c hc := absurd hc (Nat.not_lt_zero c)
  live c hc := by cases hc
  unique name c d hc := by cases hc

/-- Connections have the same name exactly if they have the same identifier. -/
lemma TableInv.name_eq_iff (hI : TableInv cfg s) {c d : ConnId} (hc : c < s.objects.created)
    (hd : d < s.objects.created) :
    (s.objects.conn c).name = (s.objects.conn d).name ↔ idOf c = idOf d := by
  rw [hI.name c hc, hI.name d hd]
  exact ⟨connName_toInt_inj, fun h => by rw [h]⟩

/-- The name of the next connection is that of a connection exactly if the identifier is. -/
lemma TableInv.name_eq_nextName_iff (hI : TableInv cfg s) {c : ConnId}
    (hc : c < s.objects.created) :
    (s.objects.conn c).name = s.objects.nextName cfg ↔ idOf c = s.objects.nextConnId := by
  rw [hI.name c hc, Objects.nextName]
  exact ⟨connName_toInt_inj, fun h => by rw [h]⟩

/-- What `newConnection` does to the table. -/
lemma newConnection_fields (o : Objects) (cfg : Config) (t : Tid) (fd : Fd) :
    (o.newConnection cfg t fd).1.connections =
        o.connections.filter (fun x => x.1 ≠ o.nextName cfg) ++ [(o.nextName cfg, o.created)] ∧
      (o.newConnection cfg t fd).1.conn = Function.update o.conn o.created
        (.new 0 (o.nextName cfg) fd cfg.writeCompleteCallback) ∧
      (o.newConnection cfg t fd).1.nextConnId = o.nextConnId + 1 ∧
      (o.newConnection cfg t fd).1.serverAlive = o.serverAlive := by
  obtain ⟨o₁, rfl, ⟨-, heq⟩ | ⟨-, heq⟩⟩ := o.newConnection_cases cfg t fd
  · rw [heq]
    exact ⟨rfl, rfl, rfl, rfl⟩
  · rw [heq]
    exact ⟨rfl, rfl, rfl, rfl⟩

/-- Accepting a connection keeps what all runs keep. -/
lemma TableInv.newConnection (hI : TableInv cfg s) (t : Tid) (fd : Fd) :
    TableInv cfg ⟨(s.objects.newConnection cfg t fd).1, s.live ++ [s.objects.created]⟩ := by
  obtain ⟨hconnections, hconn, hid, halive⟩ := newConnection_fields s.objects cfg t fd
  have hcreated := Objects.newConnection_created s.objects cfg t fd
  refine ⟨halive.trans hI.alive, ?_, fun c hc => ?_, fun c hc => ?_, fun name c d hc hd => ?_⟩
  · rw [hid, hcreated, hI.nextConnId, idOf, idOf, BitVec.ofNat_add (s.objects.created + 1)]
    rfl
  · simp only [hcreated] at hc
    simp only [hconn]
    by_cases heq : c = s.objects.created
    · subst heq
      rw [Function.update_self, ← hI.nextConnId]
      rfl
    · rw [Function.update_of_ne heq]
      exact hI.name c (by omega)
  · simp only [hcreated]
    rcases List.mem_append.mp hc with hc | hc
    · exact Nat.lt_succ_of_lt (hI.live c hc)
    · obtain rfl := List.mem_singleton.mp hc
      exact Nat.lt_succ_self _
  · simp only [hconnections, List.mem_append, List.mem_filter, List.mem_singleton,
      decide_eq_true_eq, Prod.mk.injEq] at hc hd
    rcases hc with ⟨hc, hne⟩ | ⟨hname, hc⟩
    · rcases hd with ⟨hd, -⟩ | ⟨hname, -⟩
      · exact hI.unique name c d hc hd
      · exact absurd hname hne
    · rcases hd with ⟨-, hne⟩ | ⟨-, hd⟩
      · exact absurd hname hne
      · exact hc.trans hd.symm

/-- A right table stays right if and only if the new connection's identifier is not in use. -/
lemma tracks_newConnection_iff (hI : TableInv cfg s) (hP : s.Tracks) (t : Tid) (fd : Fd) :
    Tracks ⟨(s.objects.newConnection cfg t fd).1, s.live ++ [s.objects.created]⟩ ↔
      ∀ d ∈ s.live, idOf d ≠ s.objects.nextConnId := by
  obtain ⟨hconnections, hconn, -, -⟩ := newConnection_fields s.objects cfg t fd
  have hold : ∀ c ∈ s.live, ((s.objects.newConnection cfg t fd).1.conn c).name =
      (s.objects.conn c).name := by
    intro c hc
    have hne : c ≠ s.objects.created := Nat.ne_of_lt (hI.live c hc)
    rw [hconn, Function.update_of_ne hne]
  have hnew : ((s.objects.newConnection cfg t fd).1.conn s.objects.created).name =
      s.objects.nextName cfg := by
    rw [hconn, Function.update_self]
    rfl
  have hmem : ∀ name c, (name, c) ∈ (s.objects.newConnection cfg t fd).1.connections ↔
      ((name, c) ∈ s.objects.connections ∧ name ≠ s.objects.nextName cfg) ∨
        name = s.objects.nextName cfg ∧ c = s.objects.created := by
    intro name c
    rw [hconnections]
    simp only [List.mem_append, List.mem_filter, List.mem_singleton, decide_eq_true_eq,
      Prod.mk.injEq]
  constructor
  · -- the entry of a live connection with that identifier has been replaced
    intro htracks d hd hcollide
    have hname := (hI.name_eq_nextName_iff (hI.live d hd)).mpr hcollide
    have hentry := (htracks (s.objects.nextName cfg) d).mpr
      ⟨List.mem_append_left _ hd, (hold d hd).trans hname⟩
    rcases (hmem _ d).mp hentry with ⟨-, hne⟩ | ⟨-, heq⟩
    · exact hne rfl
    · exact absurd heq (Nat.ne_of_lt (hI.live d hd))
  · intro hfree name c
    rw [hmem, hP name c, List.mem_append, List.mem_singleton]
    constructor
    · rintro (⟨⟨hc, hname⟩, -⟩ | ⟨rfl, rfl⟩)
      · exact ⟨.inl hc, (hold c hc).trans hname⟩
      · exact ⟨.inr rfl, hnew⟩
    · rintro ⟨hc | rfl, hname⟩
      · rw [hold c hc] at hname
        refine .inl ⟨⟨hc, hname⟩, fun heq => hfree c hc ?_⟩
        exact (hI.name_eq_nextName_iff (hI.live c hc)).mp (hname.trans heq)
      · exact .inr ⟨hname.symm.trans hnew, rfl⟩

/-- The objects after the removal of `c`. -/
lemma removeConnectionInLoop_eq (hI : TableInv cfg s) (c : ConnId) :
    Op.run cfg s.objects (.loop 0) .none (.removeConnectionInLoop c) =
      some ((s.objects.erase (s.objects.conn c).name).queueInLoop (s.objects.conn c).loop
        (.connectDestroyed c), []) :=
  if_pos hI.alive

/-- Removing a connection keeps what all runs keep. -/
lemma TableInv.remove (hI : TableInv cfg s) (c : ConnId) :
    TableInv cfg ⟨(s.objects.erase (s.objects.conn c).name).queueInLoop (s.objects.conn c).loop
      (.connectDestroyed c), s.live.filter fun d => d ≠ c⟩ where
  alive := hI.alive
  nextConnId := hI.nextConnId
  name := hI.name
  live d hd := hI.live d (List.mem_filter.mp hd).1
  unique name d e hd he := hI.unique name d e (List.mem_filter.mp hd).1 (List.mem_filter.mp he).1

/-- A right table stays right if and only if the removed connection was live or its identifier
is not in use. -/
lemma tracks_remove_iff (hI : TableInv cfg s) (hP : s.Tracks) {c : ConnId}
    (hc : c < s.objects.created) :
    Tracks ⟨(s.objects.erase (s.objects.conn c).name).queueInLoop (s.objects.conn c).loop
      (.connectDestroyed c), s.live.filter fun d => d ≠ c⟩ ↔
      c ∈ s.live ∨ ∀ d ∈ s.live, idOf d ≠ idOf c := by
  have hmem : ∀ name d, (name, d) ∈ (s.objects.erase (s.objects.conn c).name).connections ↔
      (d ∈ s.live ∧ (s.objects.conn d).name = name) ∧ name ≠ (s.objects.conn c).name := by
    intro name d
    rw [← hP name d]
    simp only [Objects.erase, List.mem_filter, decide_eq_true_eq]
  have hlive : ∀ d, d ∈ s.live.filter (fun d => d ≠ c) ↔ d ∈ s.live ∧ d ≠ c := by
    intro d
    simp only [List.mem_filter, decide_eq_true_eq]
  constructor
  · intro htracks
    by_cases hlast : c ∈ s.live
    · exact .inl hlast
    · -- nothing was to be removed, so nothing may have been erased
      refine .inr fun d hd hcollide => ?_
      have hname := (hI.name_eq_iff (hI.live d hd) hc).mpr hcollide
      have hne : d ≠ c := fun heq => hlast (heq ▸ hd)
      have hentry := (htracks (s.objects.conn d).name d).mpr ⟨(hlive d).mpr ⟨hd, hne⟩, rfl⟩
      exact ((hmem _ d).mp hentry).2 hname
  · intro hok name d
    have hother : d ∈ s.live → d ≠ c → (s.objects.conn d).name ≠ (s.objects.conn c).name := by
      intro hd hne hname
      rcases hok with hin | hfree
      · have hentry := (hP (s.objects.conn c).name d).mpr ⟨hd, hname⟩
        exact hne (hI.unique _ d c hentry ((hP _ c).mpr ⟨hin, rfl⟩))
      · exact hfree d hd ((hI.name_eq_iff (hI.live d hd) hc).mp hname)
    constructor
    · intro hentry
      obtain ⟨⟨hd, hname⟩, hne⟩ := (hmem name d).mp hentry
      refine ⟨(hlive d).mpr ⟨hd, fun heq => hne ?_⟩, hname⟩
      rw [← hname, heq]
    · rintro ⟨hd, hname⟩
      obtain ⟨hd, hne⟩ := (hlive d).mp hd
      exact (hmem name d).mpr ⟨⟨hd, hname⟩, hname ▸ hother hd hne⟩

/-- The table holds exactly the live connections throughout a run if and only if no connection
of the run meets the identifier of a live one. -/
theorem tracks_iff (cfg : Config) (as : List Act) :
    (system cfg).Always Tracks (new cfg) as ↔ (system cfg).Along NoCollision (new cfg) as := by
  refine TransitionSystem.always_iff_along (I := TableInv cfg) ?_ tableInv_new tracks_new as
  intro s a s' hI hP hs
  cases a with
  | newConnection t fd =>
    obtain rfl := Option.some.inj hs
    exact ⟨tracks_newConnection_iff hI hP t fd, fun _ => hI.newConnection t fd⟩
  | removeConnectionInLoop c =>
    obtain ⟨hc, hs⟩ := Option.ite_none_right_eq_some.mp hs
    rw [removeConnectionInLoop_eq hI] at hs
    obtain rfl := Option.some.inj hs
    exact ⟨tracks_remove_iff hI hP hc, fun _ => hI.remove c⟩

/-! ## A run around the identifiers -/

/-- One connection that stays, and `n` connections that come and go. -/
def churn : ℕ → List Act
  | 0 => [.newConnection (.loop 0) 7]
  | n + 1 => churn n ++ [.newConnection (.loop 0) 8, .removeConnectionInLoop (n + 1)]

/-- Identifiers come around after `2 ^ 32` connections, and not before. -/
lemma idOf_zero_eq_iff {c : ℕ} (hc : 0 < c) (hle : c ≤ 2 ^ 32) :
    idOf 0 = idOf c ↔ c = 2 ^ 32 := by
  unfold idOf
  rw [← BitVec.toNat_inj, BitVec.toNat_ofNat, BitVec.toNat_ofNat]
  omega

/-- As long as the identifiers have not come around, the table is right and the first connection
is the only one left. -/
lemma run_churn (cfg : Config) {n : ℕ} (hn : n < 2 ^ 32) : ∃ s,
    (system cfg).run (new cfg) (churn n) = some s ∧ TableInv cfg s ∧ s.Tracks ∧
      s.objects.created = n + 1 ∧ s.live = [0] := by
  induction n with
  | zero =>
    have hI := (@tableInv_new cfg).newConnection (.loop 0) 7
    have hP := (tracks_newConnection_iff (@tableInv_new cfg) tracks_new (.loop 0) 7).mpr
      fun d hd => by cases hd
    exact ⟨_, rfl, hI, hP, Objects.newConnection_created .., rfl⟩
  | succ n ih =>
    obtain ⟨s, hs, hI, hP, hcreated, hlive⟩ := ih (Nat.lt_of_succ_lt hn)
    have hP₁ := (tracks_newConnection_iff hI hP (.loop 0) 8).mpr (by
      intro d hd hid
      rw [hlive] at hd
      obtain rfl := List.mem_singleton.mp hd
      rw [hI.nextConnId, hcreated, idOf_zero_eq_iff (Nat.succ_pos n) (Nat.le_of_lt hn)] at hid
      exact Nat.ne_of_lt hn hid)
    have hI₁ := hI.newConnection (.loop 0) 8
    have hcreated₁ : (s.objects.newConnection cfg (.loop 0) 8).1.created = n + 2 := by
      rw [Objects.newConnection_created, hcreated]
    have hlive₁ : s.live ++ [s.objects.created] = [0, n + 1] := by rw [hlive, hcreated]; rfl
    have hP₂ := (tracks_remove_iff (c := n + 1) hI₁ hP₁ (hcreated₁ ▸ Nat.lt_succ_self (n + 1))).mpr
      (.inl (by rw [hlive₁]; simp))
    refine ⟨_, ?_, hI₁.remove (n + 1), hP₂, hcreated₁, ?_⟩
    · have hstep : (system cfg).step s (.newConnection (.loop 0) 8) =
          some ⟨(s.objects.newConnection cfg (.loop 0) 8).1, s.live ++ [s.objects.created]⟩ := rfl
      rw [churn, TransitionSystem.run_append, hs, Option.bind_some, TransitionSystem.run_cons,
        hstep, Option.bind_some, TransitionSystem.run_cons]
      change (TableRun.step cfg _ (.removeConnectionInLoop (n + 1))).bind _ = _
      rw [TableRun.step, if_pos (hcreated₁ ▸ Nat.lt_succ_self (n + 1)), removeConnectionInLoop_eq hI₁]
      rfl
    · simp only [hlive₁]
      simp

/-- The connection accepted after `2 ^ 32 - 1` others have come and gone takes the place of the
first one, which is still live. -/
theorem exists_replaced : ∃ s, (system (exampleConfig 0 false)).Reach s ∧ 0 ∈ s.live ∧
    ¬ s.Tracks := by
  obtain ⟨s, hs, hI, hP, hcreated, hlive⟩ :=
    run_churn (exampleConfig 0 false) (by decide : 2 ^ 32 - 1 < 2 ^ 32)
  have hreach : (system (exampleConfig 0 false)).Reach s :=
    TransitionSystem.Reach.run (.init rfl) hs
  have hmem : 0 ∈ s.live := by
    rw [hlive]
    exact List.mem_singleton_self 0
  refine ⟨_, hreach.step trivial (a := .newConnection (.loop 0) 9) rfl,
    List.mem_append_left _ hmem, fun htracks => ?_⟩
  refine (tracks_newConnection_iff hI hP (.loop 0) 9).mp htracks 0 hmem ?_
  rw [hI.nextConnId, hcreated]
  exact (idOf_zero_eq_iff (by decide) (by decide)).mpr rfl

end TableRun

end HzhMuduo
