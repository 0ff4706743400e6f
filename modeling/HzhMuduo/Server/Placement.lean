import HzhMuduo.EventLoopThreadLoop
import HzhMuduo.Server.Frame

/-!
# The loops the connections are handed to

The server keeps of its pool only the cursor `next_`.  In every state it is where the pool's own
`getNextLoop` has left it after one call for each connection accepted, so connection `c` is handed
to the sub-loop at `c` modulo their number (`getNextLoops_created`).
-/

namespace HzhMuduo

open TcpConnection

/-- The pool of a server. -/
def Objects.pool (cfg : Config) (o : Objects) : EventLoopThreadLoop :=
  { EventLoopThreadLoop.pool 0 cfg.numThreads with next := o.next }

/-- The cursor counts the connections round and round. -/
def Objects.CursorInv (cfg : Config) (o : Objects) : Prop := o.next = o.created % cfg.numThreads

variable {cfg : Config} {o o' : Objects} {t : Tid} {i : Input} {op : Op}

namespace Objects

/-- One choice moves the cursor on. -/
lemma getNextLoop_cursor (hcfg : 0 < cfg.numThreads) (h : o.CursorInv cfg) :
    (o.getNextLoop cfg).2 = (o.created + 1) % cfg.numThreads := by
  have hlt : o.created % cfg.numThreads < cfg.numThreads := Nat.mod_lt _ hcfg
  unfold CursorInv at h
  rw [getNextLoop, if_neg hcfg.ne', h, ← Nat.mod_add_mod]
  rcases Nat.lt_or_ge (o.created % cfg.numThreads + 1) cfg.numThreads with hnext | hwrap
  · rw [if_neg (by omega), Nat.mod_eq_of_lt hnext]
  · rw [if_pos hwrap, show o.created % cfg.numThreads + 1 = cfg.numThreads by omega, Nat.mod_self]

/-- The choice of the server is that of its pool. -/
lemma getNextLoop_pool (hcfg : cfg.numThreads < 2 ^ 31) (h : o.CursorInv cfg) :
    (o.pool cfg).getNextLoop =
      some ((o.getNextLoop cfg).1, { o.pool cfg with next := (o.getNextLoop cfg).2 }) := by
  rcases Nat.eq_zero_or_pos cfg.numThreads with hzero | hpos
  · have hnil : (o.pool cfg).loops = [] := by
      rw [pool, EventLoopThreadLoop.loops_pool, hzero, List.range_zero, List.map_nil]
    rw [EventLoopThreadLoop.getNextLoop_of_nil hnil, getNextLoop, if_pos hzero]
    rfl
  · have hlt : o.next < cfg.numThreads := h ▸ Nat.mod_lt _ hpos
    obtain ⟨loop, hloop, hcall⟩ := EventLoopThreadLoop.getNextLoop_of_lt
      (EventLoopThreadLoop.started_pool 0 hcfg) hlt
    have hsub : loop = o.next + 1 := by
      rw [EventLoopThreadLoop.loops_pool, List.getElem?_map, List.getElem?_range hlt] at hloop
      exact (Option.some.inj hloop).symm
    have hcursor : (o.next + 1) % cfg.numThreads = (o.getNextLoop cfg).2 := by
      rw [getNextLoop_cursor hpos h, h, Nat.mod_add_mod]
    rw [hcursor] at hcall
    rw [pool, hcall, hsub, getNextLoop, if_neg hpos.ne']

end Objects

/-- An operation keeps the cursor, or accepts a connection and moves it on. -/
lemma Op.Effect.cursor (hcfg : 0 < cfg.numThreads) (h : Op.Effect cfg o t i op o')
    (hcursor : o.CursorInv cfg) : o'.CursorInv cfg := by
  cases h with
  | @accept fd hop hi hid =>
    have hnext := Objects.getNextLoop_cursor hcfg hcursor
    obtain ⟨o₁, rfl, ⟨-, heq⟩ | ⟨-, heq⟩⟩ := o.newConnection_cases cfg t fd
    · rw [heq]
      exact hnext
    · rw [heq]
      exact hnext
  | _ => exact hcursor

namespace Server

variable {s : Server}

/-- So does every step. -/
lemma cursor_of_reach (hcfg : 0 < cfg.numThreads) (h : (system cfg).Reach s) :
    s.objects.CursorInv cfg := by
  refine h.invariant (I := fun s => s.objects.CursorInv cfg) ?_ ?_
  · rintro s rfl
    exact (Nat.zero_mod _).symm
  · intro s a s' hI hs
    cases step_cases hs with
    | exec hstack hready hrun => exact hrun.effect.cursor hcfg hI
    | _ => exact hI

/-- The pool of a server with `n ≥ 1` sub-loops has made one choice for each connection
accepted, and makes the choice for the next one. -/
theorem getNextLoops_created (hpos : 0 < cfg.numThreads) (hcfg : cfg.numThreads < 2 ^ 31)
    (h : (system cfg).Reach s) :
    ∃ calls, (EventLoopThreadLoop.pool 0 cfg.numThreads).getNextLoops s.objects.created =
        some (calls, s.objects.pool cfg) ∧
      (s.objects.pool cfg).getNextLoop = some ((s.objects.getNextLoop cfg).1,
        { s.objects.pool cfg with next := (s.objects.getNextLoop cfg).2 }) := by
  have hcursor := cursor_of_reach hpos h
  have hnext : s.objects.next = s.objects.created % cfg.numThreads := hcursor
  have hcalls := EventLoopThreadLoop.getNextLoops_eq (EventLoopThreadLoop.started_pool 0 hcfg) hpos
    s.objects.created
  rw [← hnext] at hcalls
  exact ⟨_, hcalls, Objects.getNextLoop_pool hcfg hcursor⟩

end Server

end HzhMuduo
