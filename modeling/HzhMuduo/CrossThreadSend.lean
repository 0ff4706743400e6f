import HzhMuduo.OutgoingStream

/-!
# `send` from a thread that is not the loop's

`TcpConnection::send` called on another thread queues a functor with the address and the size
of the string it was given; the bytes are read when the loop runs the functor.  Here the
callers' strings are cells of a storage that the callers may overwrite and destroy, and the
functor keeps, besides the address and the size, the value the cell had at the call.  That
value is history; only the address and the size reach `sendInLoop`.

What is transmitted is the value of the call as long as no string is touched while a functor
refers to it and no string has 2 ^ 31 bytes or more (`delivered_of_undisturbed`).  The source
gives the caller no way to know when the functor has run, and `exists_delivered_ne_value`
shows what a reused string does.
-/

namespace HzhMuduo

open MachineWord TcpConnection

/-- A functor bound to `sendInLoop`, with the value of the string at the call. -/
structure BoundSend where
  addr : ℕ
  len : ℕ
  value : List UInt8
  deriving DecidableEq

/-- The functor still describes the string it was bound to. -/
structure BoundSend.Current (f : BoundSend) (storage : ℕ → Option (List UInt8)) : Prop where
  stored : storage f.addr = some f.value
  len : f.len = f.value.length
  short : f.value.length < 2 ^ 31

/-- What a functor transmitted, next to the value it was meant to. -/
structure Delivery where
  value : List UInt8
  discarded : Bool
  delivered : List UInt8
  deriving DecidableEq

/-- The callers' strings, the calls on their way to the queue, the queue, and the connection. -/
structure CrossThreadSend where
  storage : ℕ → Option (List UInt8)
  caller : ℕ → Option BoundSend
  queue : List BoundSend
  stream : OutgoingStream
  log : List Delivery

namespace CrossThreadSend

variable {s s' : CrossThreadSend} {self : ConnId}

/-- Steps of a caller `u`, of the callers' strings, and of the loop thread. -/
inductive Act
  | send (u addr : ℕ)
  | push (u : ℕ)
  | overwrite (addr : ℕ) (bytes : List UInt8)
  | destroy (addr : ℕ)
  | run (data : Memory) (w : WriteResult)
  | loop (a : OutgoingStream.Act)

/-- The bytes the memory at an address can show: a string that is there shows itself. -/
def Shows (s : CrossThreadSend) (addr : ℕ) (data : Memory) : Prop :=
  ∀ bytes ∈ s.storage addr, data.bytes 0 bytes.length = bytes

instance (s : CrossThreadSend) (addr : ℕ) (data : Memory) : Decidable (s.Shows addr data) :=
  inferInstanceAs (Decidable (∀ bytes ∈ s.storage addr, _))

/-- `send` on another thread loads the state and binds the functor; the push is a step of its
own. -/
def send (s : CrossThreadSend) (u addr : ℕ) : Option CrossThreadSend :=
  match s.caller u, s.storage addr with
  | none, some bytes =>
    if s.stream.view.conn.state = .kConnected then
      some { s with caller := Function.update s.caller u (some ⟨addr, bytes.length, bytes⟩) }
    else some s
  | _, _ => none

/-- `sendInLoop` run by the loop for a queued functor. -/
def run (self : ConnId) (s : CrossThreadSend) (data : Memory) (w : WriteResult) :
    Option CrossThreadSend :=
  match s.queue with
  | [] => none
  | f :: queue =>
    if s.Shows f.addr data ∧ w.taken ≤ toSize (toInt f.len) then
      (s.stream.view.sendInLoop self data (toInt f.len) w).toOption.map fun v =>
        let discarded := decide (s.stream.view.Discards w)
        let before := s.stream.view.accepted ++ s.stream.view.buffered
        { s with
          queue := queue
          stream :=
            { view := v
              kept := s.stream.kept ++ if s.stream.view.Forfeits w then [] else [f.value] }
          log := s.log ++ [⟨f.value, discarded, (v.accepted ++ v.buffered).drop before.length⟩] }
    else none

def step (self : ConnId) (s : CrossThreadSend) : Act → Option CrossThreadSend
  | .send u addr => s.send u addr
  | .push u =>
    match s.caller u with
    | some f =>
      some { s with caller := Function.update s.caller u none, queue := s.queue ++ [f] }
    | none => none
  | .overwrite addr bytes =>
    some { s with storage := Function.update s.storage addr (some bytes) }
  | .destroy addr => some { s with storage := Function.update s.storage addr none }
  | .run data w => run self s data w
  | .loop a => (s.stream.step self a).map fun stream => { s with stream := stream }

/-- An established connection, some strings, and nothing sent yet. -/
def system (self : ConnId) : TransitionSystem CrossThreadSend Act where
  init s := OutgoingStream.Established s.stream.view ∧ s.stream.kept = [] ∧
    (∀ u, s.caller u = none) ∧ s.queue = [] ∧ s.log = []
  step := step self

/-- A call or a functor that has not run yet refers to the string at `addr`. -/
def Refers (s : CrossThreadSend) (addr : ℕ) : Prop :=
  (∃ u, ∃ f ∈ s.caller u, f.addr = addr) ∨ ∃ f ∈ s.queue, f.addr = addr

/-- The discipline that the source leaves to the callers: strings are shorter than 2 ^ 31, and a
string is left alone while a functor refers to it. -/
def Undisturbed (s : CrossThreadSend) : Act → Prop
  | .send _ addr => ∀ bytes ∈ s.storage addr, bytes.length < 2 ^ 31
  | .overwrite addr _ | .destroy addr => ¬ s.Refers addr
  | _ => True

/-- The invariant of the undisturbed runs. -/
structure SendInv (s : CrossThreadSend) : Prop where
  stream : OutgoingStream.Explained s.stream.view
  caller : ∀ u, ∀ f ∈ s.caller u, f.Current s.storage
  queue : ∀ f ∈ s.queue, f.Current s.storage
  log : ∀ d ∈ s.log, d.delivered = if d.discarded then [] else d.value

/-- Touching a string no functor refers to leaves all functors current. -/
lemma SendInv.setStorage (hI : SendInv s) {addr : ℕ} (h : ¬ s.Refers addr)
    (b : Option (List UInt8)) :
    SendInv { s with storage := Function.update s.storage addr b } := by
  have hkeep : ∀ f : BoundSend, f.addr ≠ addr → f.Current s.storage →
      f.Current (Function.update s.storage addr b) := by
    intro f hne hf
    exact ⟨by rw [Function.update_of_ne hne]; exact hf.stored, hf.len, hf.short⟩
  refine ⟨hI.stream, fun u f hf => ?_, fun f hf => ?_, hI.log⟩
  · exact hkeep f (fun heq => h (.inl ⟨u, f, hf, heq⟩)) (hI.caller u f hf)
  · exact hkeep f (fun heq => h (.inr ⟨f, hf, heq⟩)) (hI.queue f hf)

/-- Binding a functor to a short string. -/
lemma SendInv.send (hI : SendInv s) {u addr : ℕ}
    (hshort : ∀ bytes ∈ s.storage addr, bytes.length < 2 ^ 31) (h : s.send u addr = some s') :
    SendInv s' := by
  unfold CrossThreadSend.send at h
  split at h
  · next bytes hcaller hstored =>
    split at h
    · obtain rfl := Option.some.inj h
      refine ⟨hI.stream, fun v f hf => ?_, hI.queue, hI.log⟩
      by_cases hvu : v = u
      · subst hvu
        obtain rfl : ⟨addr, bytes.length, bytes⟩ = f := by simpa using hf
        exact ⟨hstored, rfl, hshort bytes hstored⟩
      · exact hI.caller v f (by simpa [hvu] using hf)
    · obtain rfl := Option.some.inj h
      exact hI
  · cases h

/-- The push ends the call. -/
lemma SendInv.push (hI : SendInv s) {u : ℕ} {f : BoundSend} (hf : s.caller u = some f) :
    SendInv { s with caller := Function.update s.caller u none, queue := s.queue ++ [f] } := by
  refine ⟨hI.stream, fun v g hg => ?_, fun g hg => ?_, hI.log⟩
  · by_cases hvu : v = u
    · subst hvu
      simp at hg
    · exact hI.caller v g (by simpa [hvu] using hg)
  · rcases List.mem_append.mp hg with hg | hg
    · exact hI.queue g hg
    · obtain rfl := List.mem_singleton.mp hg
      exact hI.caller u g hf

/-- A functor that is current transmits the value of the call. -/
lemma SendInv.run (hI : SendInv s) {data : Memory} {w : WriteResult}
    (h : CrossThreadSend.run self s data w = some s') : SendInv s' := by
  unfold CrossThreadSend.run at h
  split at h
  · cases h
  · next f queue hqueue =>
    obtain ⟨⟨hshows, hw⟩, h⟩ := Option.ite_none_right_eq_some.mp h
    obtain ⟨v, hv, rfl⟩ := Option.map_eq_some_iff.mp h
    have hv := Except.toOption_eq_some_iff.mp hv
    have hcurrent : f.Current s.storage := hI.queue f (by rw [hqueue]; exact List.mem_cons_self)
    have hqueue' : ∀ g ∈ queue, g.Current s.storage := fun g hg =>
      hI.queue g (by rw [hqueue]; exact List.mem_cons_of_mem f hg)
    have hlen : f.len < 2 ^ 31 := hcurrent.len ▸ hcurrent.short
    have hvalue : data.bytes 0 f.len = f.value := by
      rw [hcurrent.len]
      exact hshows f.value hcurrent.stored
    have hsize : toSize (toInt f.len) = f.len := toSize_toInt_of_lt hlen
    unfold View.sendInLoop at hv
    split at hv
    · next hdisc =>
      obtain rfl := Except.ok.inj hv
      have hdiscards : s.stream.view.Discards w := .inl hdisc
      refine ⟨hI.stream, hI.caller, hqueue', fun d hd => ?_⟩
      rcases List.mem_append.mp hd with hd | hd
      · exact hI.log d hd
      · obtain rfl := List.mem_singleton.mp hd
        simp [hdiscards]
    · next hdisc =>
      obtain ⟨kept, hkept⟩ := hI.stream
      have hstream := hkept.sendBody hdisc hw hv
      rw [hsize, hvalue] at hstream
      refine ⟨⟨_, hstream⟩, hI.caller, hqueue', fun d hd => ?_⟩
      rcases List.mem_append.mp hd with hd | hd
      · exact hI.log d hd
      · obtain rfl := List.mem_singleton.mp hd
        have hboth := hstream.stream
        have hbefore := hkept.stream
        simp only at hboth
        simp only [hboth, hbefore]
        by_cases hdiscards : s.stream.view.Discards w
        · simp [hdiscards]
        · simp [hdiscards]

/-- Every undisturbed step keeps the invariant. -/
lemma SendInv.step {a : Act} (hI : SendInv s) (hok : s.Undisturbed a)
    (h : s.step self a = some s') : SendInv s' := by
  cases a with
  | send u addr => exact hI.send hok h
  | push u =>
    simp only [CrossThreadSend.step] at h
    split at h
    · next f hf =>
      obtain rfl := Option.some.inj h
      exact hI.push hf
    · cases h
  | overwrite addr bytes =>
    obtain rfl := Option.some.inj h
    exact hI.setStorage hok (some bytes)
  | destroy addr =>
    obtain rfl := Option.some.inj h
    exact hI.setStorage hok none
  | run data w => exact hI.run h
  | loop a =>
    obtain ⟨stream, hs, rfl⟩ := Option.map_eq_some_iff.mp h
    exact ⟨hI.stream.step hs, hI.caller, hI.queue, hI.log⟩

/-- In every run in which the strings sent are shorter than 2 ^ 31 and are left alone while a
functor refers to them, `sendInLoop` transmits the value of each call, or discards it whole. -/
theorem delivered_of_undisturbed
    (h : (CrossThreadSend.system self).ReachWhere Undisturbed s) :
    ∀ d ∈ s.log, d.delivered = if d.discarded then [] else d.value := by
  have hI : SendInv s := by
    refine h.invariant ?_ fun _ _ _ hI hok hs => hI.step hok hs
    rintro t ⟨hestablished, hkept, hcaller, hqueue, hlog⟩
    refine ⟨⟨_, OutgoingStream.streamInv_of_established hestablished hkept⟩, ?_, ?_, ?_⟩
    · intro u f hf
      rw [hcaller u] at hf
      cases hf
    · simp [hqueue]
    · simp [hlog]
  exact hI.log

/-- An established connection and one string, `"A"`, at address 3. -/
def oneString : CrossThreadSend where
  storage addr := if addr = 3 then some [65] else none
  caller _ := none
  queue := []
  stream := OutgoingStream.exampleStream
  log := []

/-- The functor of a `send` of that string. -/
def oneSend : BoundSend := ⟨3, 1, [65]⟩

/-- The state after that `send` has loaded the state, called by thread 1. -/
def oneStringSent : CrossThreadSend :=
  { oneString with caller := Function.update oneString.caller 1 (some oneSend) }

/-- The state after the push. -/
def oneStringPushed : CrossThreadSend :=
  { oneString with
    caller := Function.update oneStringSent.caller 1 none
    queue := [oneSend] }

lemma oneString_init : (CrossThreadSend.system 0).init oneString :=
  ⟨⟨rfl, by decide, Buffer.wellFormed_new, Buffer.readable_new, rfl⟩, rfl, fun _ => rfl, rfl, rfl⟩

/-- The theorem at a run that leaves the string alone. -/
theorem delivered_of_undisturbed_oneString :
    ∃ s, (CrossThreadSend.system 0).ReachWhere Undisturbed s ∧ s.log = [⟨[65], false, [65]⟩] ∧
      ∀ d ∈ s.log, d.delivered = if d.discarded then [] else d.value := by
  have hinit : (CrossThreadSend.system 0).ReachWhere Undisturbed oneString := .init oneString_init
  have hsend : (CrossThreadSend.system 0).ReachWhere Undisturbed oneStringSent := by
    refine hinit.step (a := Act.send 1 3) (fun bytes hbytes => ?_) rfl
    obtain rfl : [65] = bytes := by simpa [oneString] using hbytes
    decide
  have hpush : (CrossThreadSend.system 0).ReachWhere Undisturbed oneStringPushed :=
    hsend.step (a := Act.push 1) trivial rfl
  have hlog : (CrossThreadSend.step 0 oneStringPushed (.run (.ofString [65]) (.wrote 1))).map
      (fun s => s.log) = some [⟨[65], false, [65]⟩] := by decide +kernel
  obtain ⟨s, hs, hlog⟩ := Option.map_eq_some_iff.mp hlog
  have hrun : (CrossThreadSend.system 0).ReachWhere Undisturbed s :=
    hpush.step (a := Act.run (.ofString [65]) (.wrote 1)) trivial hs
  exact ⟨s, hrun, hlog, delivered_of_undisturbed hrun⟩

/-- The caller reuses its string before the loop runs the functor: the new content is sent. -/
theorem exists_delivered_ne_value : ∃ s, (CrossThreadSend.system 0).Reach s ∧
    s.log = [⟨[65], false, [66]⟩] := by
  exact TransitionSystem.exists_reach_of_run (M := CrossThreadSend.system 0)
    (v := [⟨[65], false, [66]⟩])
    [.send 1 3, .push 1, .overwrite 3 [66], .run (.ofString [66]) (.wrote 1)] (fun s => s.log)
    oneString_init (by decide +kernel)

end CrossThreadSend

end HzhMuduo
