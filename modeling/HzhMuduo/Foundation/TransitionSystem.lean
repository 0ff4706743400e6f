import Mathlib.Logic.Relation
import Mathlib.Order.Basic
import Mathlib.Tactic.Common

/-!
# Labelled transition systems

A transition system is a set of initial states and a partial step function: a label says
which party moves and what its environment answered, and the step of that label is either a
single next state or impossible.  A nondeterministic program is one whose runs may take any
label at any time, so a statement about every interleaving is a statement about every run.

Two kinds of runs occur.  `Reach` collects the states of all runs.  `ReachWhere ok` collects
the states of the runs each of whose steps meets `ok`, a condition on the label and on the
state *before* the step; this is how a property that needs a discipline from the environment
is stated.  `ReachWhere.invariant` is the induction rule for both, `Reach.run` and
`Reach.of_restrict` turn a concrete list of labels into a reachable state, and `Refinement`
transports reachability along a simulation.
-/

/-- A system whose steps are determined by their labels. -/
structure TransitionSystem (σ α : Type*) where
  init : σ → Prop
  step : σ → α → Option σ

namespace TransitionSystem

variable {σ α τ β : Type*}

section Runs

variable (M : TransitionSystem σ α)

/-- The states of the runs of `M` each of whose steps meets `ok`. -/
inductive ReachWhere (ok : σ → α → Prop) : σ → Prop
  | init {s : σ} (h : M.init s) : ReachWhere ok s
  | step {s s' : σ} {a : α} (h : ReachWhere ok s) (hok : ok s a) (hs : M.step s a = some s') :
      ReachWhere ok s'

/-- The states of all runs of `M`. -/
def Reach (s : σ) : Prop := M.ReachWhere (fun _ _ => True) s

/-- Run `M` through a list of labels, from the first to the last. -/
def run : σ → List α → Option σ
  | s, [] => some s
  | s, a :: as => (M.step s a).bind fun s' => run s' as

@[simp] lemma run_nil (s : σ) : M.run s [] = some s := rfl

@[simp] lemma run_cons (s : σ) (a : α) (as : List α) :
    M.run s (a :: as) = (M.step s a).bind fun s' => M.run s' as := rfl

/-- A run through `as ++ bs` is a run through `as` continued through `bs`. -/
lemma run_append (s : σ) (as bs : List α) :
    M.run s (as ++ bs) = (M.run s as).bind fun s' => M.run s' bs := by
  induction as generalizing s with
  | nil => rfl
  | cons a as ih =>
    rw [List.cons_append, run_cons, run_cons]
    cases M.step s a with
    | none => rfl
    | some s' => exact ih s'

end Runs

variable {M : TransitionSystem σ α} {ok ok' : σ → α → Prop}

/-- A stricter condition on the steps leaves fewer runs. -/
theorem ReachWhere.mono (hok : ∀ s a, ok s a → ok' s a) {s : σ} (h : M.ReachWhere ok s) :
    M.ReachWhere ok' s := by
  induction h with
  | init h => exact .init h
  | step _ h hs ih => exact .step ih (hok _ _ h) hs

/-- A condition that is stricter on the steps of its own runs, by invariants `J` of these. -/
theorem ReachWhere.mono_of {J : σ → Prop} {s : σ} (h : M.ReachWhere ok s)
    (hJ : ∀ s, M.ReachWhere ok s → J s) (hok : ∀ s a, J s → ok s a → ok' s a) :
    M.ReachWhere ok' s := by
  induction h with
  | init h => exact .init h
  | step hreach h hs ih => exact .step ih (hok _ _ (hJ _ hreach) h) hs

/-- Every restricted run is a run. -/
theorem ReachWhere.reach {s : σ} (h : M.ReachWhere ok s) : M.Reach s :=
  h.mono fun _ _ _ => trivial

/-- The induction rule: what holds initially and is kept by every allowed step holds in
every state reached. -/
theorem ReachWhere.invariant {I : σ → Prop} {s : σ} (h : M.ReachWhere ok s)
    (hinit : ∀ s, M.init s → I s)
    (hstep : ∀ s a s', I s → ok s a → M.step s a = some s' → I s') : I s := by
  induction h with
  | init h => exact hinit _ h
  | step _ hok hs ih => exact hstep _ _ _ ih hok hs

/-- The induction rule relative to invariants `J` already known: a step may use `J` before
and after it. -/
theorem ReachWhere.invariant_of {I J : σ → Prop} {s : σ} (h : M.ReachWhere ok s)
    (hJ : ∀ s, M.ReachWhere ok s → J s) (hinit : ∀ s, M.init s → I s)
    (hstep : ∀ s a s', J s → J s' → I s → ok s a → M.step s a = some s' → I s') : I s := by
  induction h with
  | init h => exact hinit _ h
  | step h hok hs ih => exact hstep _ _ _ (hJ _ h) (hJ _ (h.step hok hs)) ih hok hs

/-- The induction rule for all runs. -/
theorem Reach.invariant {I : σ → Prop} {s : σ} (h : M.Reach s) (hinit : ∀ s, M.init s → I s)
    (hstep : ∀ s a s', I s → M.step s a = some s' → I s') : I s :=
  ReachWhere.invariant h hinit fun s a s' hI _ hs => hstep s a s' hI hs

/-- A concrete run from a reachable state ends in a reachable state. -/
theorem Reach.run {as : List α} {s s' : σ} (h : M.Reach s) (hrun : M.run s as = some s') :
    M.Reach s' := by
  induction as generalizing s with
  | nil =>
    obtain rfl : s = s' := by simpa using hrun
    exact h
  | cons a as ih =>
    rw [run_cons, Option.bind_eq_some_iff] at hrun
    obtain ⟨t, ht, hrun⟩ := hrun
    exact ih (h.step trivial ht) hrun

/-- A concrete run from an initial state that reports an observation `f s' = v` at its end
reaches a state with that observation. -/
theorem exists_reach_of_run {γ : Type*} (as : List α) (f : σ → γ) {s : σ} {v : γ}
    (hs : M.init s) (hrun : (M.run s as).map f = some v) : ∃ s', M.Reach s' ∧ f s' = v := by
  obtain ⟨s', hs', hv⟩ := Option.map_eq_some_iff.mp hrun
  exact ⟨s', Reach.run (.init hs) hs', hv⟩

/-- The system whose steps are those that meet `ok`; it turns a concrete run of allowed steps
into a restricted run. -/
def restrict (M : TransitionSystem σ α) (ok : σ → α → Prop) [∀ s a, Decidable (ok s a)] :
    TransitionSystem σ α where
  init := M.init
  step s a := if ok s a then M.step s a else none

/-- The runs of the restricted system are the restricted runs. -/
lemma Reach.of_restrict [∀ s a, Decidable (ok s a)] {s : σ} (h : (M.restrict ok).Reach s) :
    M.ReachWhere ok s := by
  refine h.invariant (fun s hs => .init hs) fun s a s' hI hs => ?_
  obtain ⟨hok, hs⟩ := Option.ite_none_right_eq_some.mp hs
  exact hI.step hok hs

lemma ReachWhere.to_restrict [∀ s a, Decidable (ok s a)] {s : σ} (h : M.ReachWhere ok s) :
    (M.restrict ok).Reach s :=
  h.invariant (fun _ hs => .init hs) fun _ _ _ hI hok hs => hI.step trivial ((if_pos hok).trans hs)

/-! ## Conditions that are exact

`Along ok` and `Always P` speak about one run.  Where, from a state with `P`, a step leads to a
state with `P` exactly if it meets `ok`, a run has `P` all the time exactly if all its steps
meet `ok`. -/

/-- Every step of the run from `s` through the labels meets `ok`. -/
def Along (M : TransitionSystem σ α) (ok : σ → α → Prop) : σ → List α → Prop
  | _, [] => True
  | s, a :: as => ∀ s' ∈ M.step s a, ok s a ∧ M.Along ok s' as

instance decidableAlong (M : TransitionSystem σ α) (ok : σ → α → Prop)
    [∀ s a, Decidable (ok s a)] : (s : σ) → (as : List α) → Decidable (M.Along ok s as)
  | _, [] => inferInstanceAs (Decidable True)
  | s, a :: as =>
    have : ∀ s', Decidable (M.Along ok s' as) := fun s' => decidableAlong M ok s' as
    inferInstanceAs (Decidable (∀ s' ∈ M.step s a, ok s a ∧ M.Along ok s' as))

/-- Every state of the run from `s` through the labels has `P`. -/
def Always (M : TransitionSystem σ α) (P : σ → Prop) : σ → List α → Prop
  | s, [] => P s
  | s, a :: as => P s ∧ ∀ s' ∈ M.step s a, M.Always P s' as

lemma Always.first {P : σ → Prop} {s : σ} {as : List α} (h : M.Always P s as) : P s := by
  cases as with
  | nil => exact h
  | cons a as => exact h.1

/-- The rule for exact conditions; `I` is what the runs with `P` keep besides. -/
theorem always_iff_along {I P : σ → Prop}
    (hstep : ∀ s a s', I s → P s → M.step s a = some s' → (P s' ↔ ok s a) ∧ (P s' → I s'))
    {s : σ} (hI : I s) (hP : P s) (as : List α) : M.Always P s as ↔ M.Along ok s as := by
  induction as generalizing s with
  | nil => exact iff_of_true hP trivial
  | cons a as ih =>
    constructor
    · rintro ⟨-, hrest⟩ s' hs
      obtain ⟨hexact, hkeep⟩ := hstep s a s' hI hP hs
      have hP' := (hrest s' hs).first
      exact ⟨hexact.mp hP', (ih (hkeep hP') hP').mp (hrest s' hs)⟩
    · intro hrest
      refine ⟨hP, fun s' hs => ?_⟩
      obtain ⟨hexact, hkeep⟩ := hstep s a s' hI hP hs
      have hP' := hexact.mpr (hrest s' hs).1
      exact (ih (hkeep hP') hP').mpr (hrest s' hs).2

/-! ## Changes along a run -/

/-- Where a run ends with `P`, it had `P` all the time, or one of its steps came to `P` and the
run kept it from there. -/
lemma always_or_exists_change {P : σ → Prop} {s s' : σ} {as : List α}
    (hrun : M.run s as = some s') (h' : P s') :
    M.Always P s as ∨ ∃ as₁ a as₂ t t', as = as₁ ++ a :: as₂ ∧ M.run s as₁ = some t ∧
      M.step t a = some t' ∧ ¬ P t ∧ P t' ∧ M.Always P t' as₂ := by
  induction as generalizing s with
  | nil =>
    obtain rfl : s = s' := by simpa using hrun
    exact .inl h'
  | cons a as ih =>
    rw [run_cons, Option.bind_eq_some_iff] at hrun
    obtain ⟨t, ht, hrun⟩ := hrun
    rcases ih hrun with halways | ⟨as₁, b, as₂, u, u', rfl, hu, hu', hnot, hP, halways⟩
    · by_cases hs : P s
      · refine .inl ⟨hs, fun t' ht' => ?_⟩
        obtain rfl : t = t' := Option.some.inj (ht.symm.trans ht')
        exact halways
      · exact .inr ⟨[], a, as, s, t, rfl, rfl, ht, hs, halways.first, halways⟩
    · refine .inr ⟨a :: as₁, b, as₂, u, u', rfl, ?_, hu', hnot, hP, halways⟩
      rw [run_cons, ht]
      exact hu

/-- Where `P` does not hold at the beginning of a run and holds at its end, there is a last step
that came to it. -/
theorem exists_change {P : σ → Prop} {s s' : σ} {as : List α} (hrun : M.run s as = some s')
    (h : ¬ P s) (h' : P s') :
    ∃ as₁ a as₂ t t', as = as₁ ++ a :: as₂ ∧ M.run s as₁ = some t ∧ M.step t a = some t' ∧
      ¬ P t ∧ P t' ∧ M.Always P t' as₂ :=
  (always_or_exists_change hrun h').resolve_left fun halways => h halways.first

/-- What holds between the two ends of each step, holds between the two ends of a run. -/
lemma run_rel {r : σ → σ → Prop} (hrefl : ∀ s, r s s) (htrans : ∀ s t u, r s t → r t u → r s u)
    (hstep : ∀ s a s', M.step s a = some s' → r s s') {s s' : σ} {as : List α}
    (hrun : M.run s as = some s') : r s s' := by
  induction as generalizing s with
  | nil =>
    obtain rfl : s = s' := by simpa using hrun
    exact hrefl s
  | cons a as ih =>
    rw [run_cons, Option.bind_eq_some_iff] at hrun
    obtain ⟨t, ht, hrun⟩ := hrun
    exact htrans s t s' (hstep s a t ht) (ih hrun)

/-- What no step changes is the same at both ends of a run. -/
lemma run_congr {γ : Type*} {f : σ → γ} (hstep : ∀ s a s', M.step s a = some s' → f s' = f s)
    {s s' : σ} {as : List α} (hrun : M.run s as = some s') : f s' = f s :=
  run_rel (r := fun s s' => f s' = f s) (fun _ => rfl) (fun _ _ _ h h' => h'.trans h) hstep hrun

/-- What no step lowers is no lower at the end of a run. -/
lemma run_mono {γ : Type*} [Preorder γ] {f : σ → γ}
    (hstep : ∀ s a s', M.step s a = some s' → f s ≤ f s') {s s' : σ} {as : List α}
    (hrun : M.run s as = some s') : f s ≤ f s' :=
  run_rel (r := fun s s' => f s ≤ f s') (fun _ => le_rfl) (fun _ _ _ h h' => h.trans h') hstep hrun

/-- Where `W` is kept by every step, counting the labels of one kind, it is kept by a run. -/
theorem Reach.run_counted {W : ℕ → σ → Prop} {p : α → Bool} {s s' : σ} {as : List α} {k : ℕ}
    (h : M.Reach s)
    (hstep : ∀ k s a s', M.Reach s → W k s → M.step s a = some s' → W (k + if p a then 1 else 0) s')
    (hW : W k s) (hrun : M.run s as = some s') : W (k + as.countP p) s' := by
  induction as generalizing s k with
  | nil =>
    obtain rfl : s = s' := by simpa using hrun
    exact hW
  | cons a as ih =>
    rw [run_cons, Option.bind_eq_some_iff] at hrun
    obtain ⟨t, ht, hrun⟩ := hrun
    have hrest := ih (h.step trivial ht) (hstep k s a t h hW ht) hrun
    rwa [List.countP_cons, Nat.add_comm (as.countP p), ← Nat.add_assoc]

/-- What the allowed steps keep from the states reached on, holds at the end of every allowed run
that began with it. -/
theorem ReachWhere.stable [∀ s a, Decidable (ok s a)] {P : σ → Prop} {s s' : σ} {as : List α}
    (h : M.ReachWhere ok s) (hP : P s)
    (hstep : ∀ s a s', M.ReachWhere ok s → P s → ok s a → M.step s a = some s' → P s')
    (hrun : (M.restrict ok).run s as = some s') : M.ReachWhere ok s' ∧ P s' := by
  refine ⟨Reach.of_restrict (h.to_restrict.run hrun), ?_⟩
  refine h.to_restrict.run_counted (p := fun _ => false) (W := fun _ s => P s) (k := 0) ?_ hP hrun
  intro k s a s' hs hP hs'
  obtain ⟨hok, hs'⟩ := Option.ite_none_right_eq_some.mp hs'
  exact hstep s a s' (Reach.of_restrict hs) hP hok hs'

/-! ## Potentials -/

/-- The method of potentials.  Where each step of one kind is paid out of the potential, and only
the steps of another kind raise it, by at most `n`, there are only so many steps of the first kind in
a run.  `K` is a condition on the states that holds before a step if it holds after it. -/
theorem countP_le_of_potential {K : σ → Prop} {Φ : σ → ℕ} {pays raises : α → Bool} {n : ℕ}
    (hK : ∀ s a s', M.step s a = some s' → K s' → K s)
    (hstep : ∀ s a s', M.Reach s → K s' → M.step s a = some s' →
      Φ s' + (if pays a then 1 else 0) ≤ Φ s + if raises a then n else 0)
    {s s' : σ} {as : List α} (hs : M.Reach s) (hrun : M.run s as = some s') (hs' : K s') :
    K s ∧ Φ s' + as.countP pays ≤ Φ s + n * as.countP raises := by
  induction as generalizing s with
  | nil =>
    obtain rfl : s = s' := by simpa using hrun
    exact ⟨hs', Nat.le_refl _⟩
  | cons a as ih =>
    rw [run_cons, Option.bind_eq_some_iff] at hrun
    obtain ⟨t, ht, hrun⟩ := hrun
    obtain ⟨hKt, hrest⟩ := ih (hs.step trivial ht) hrun
    have hfirst := hstep s a t hs hKt ht
    have hraise : n * (a :: as).countP raises =
        n * as.countP raises + if raises a then n else 0 := by
      rw [List.countP_cons]
      split <;> simp [Nat.mul_add]
    refine ⟨hK s a t ht hKt, ?_⟩
    rw [List.countP_cons, hraise]
    omega

/-! ## Orders along a run -/

/-- Of any two states of the run from `s` through the labels, the earlier and the later one are
in the relation `r`. -/
def Ordered (M : TransitionSystem σ α) (r : σ → σ → Prop) (s : σ) (as : List α) : Prop :=
  ∀ bs cs t u, bs ++ cs <+: as → M.run s bs = some t → M.run t cs = some u → r t u

/-- A run is ordered if its first step is, and the rest of it. -/
lemma ordered_cons {r : σ → σ → Prop} (hrefl : ∀ s, r s s)
    (htrans : ∀ s t u, r s t → r t u → r s u) {s : σ} {a : α} {as : List α} :
    M.Ordered r s (a :: as) ↔ ∀ s' ∈ M.step s a, r s s' ∧ M.Ordered r s' as := by
  constructor
  · intro h s' hs
    have hrun : ∀ bs, M.run s (a :: bs) = M.run s' bs := by
      intro bs
      rw [run_cons, hs]
      rfl
    refine ⟨h [] [a] s s' (List.prefix_append [a] as) rfl (hrun []), fun bs cs t u hpre ht hu => ?_⟩
    exact h (a :: bs) cs t u (List.cons_prefix_cons.mpr ⟨rfl, hpre⟩) ((hrun bs).trans ht) hu
  · intro h bs cs t u hpre ht hu
    have hfirst : ∀ b ds v, b :: ds <+: a :: as → M.run s (b :: ds) = some v →
        ∃ s' ∈ M.step s a, ds <+: as ∧ M.run s' ds = some v := by
      intro b ds v hpre hv
      obtain ⟨rfl, hrest⟩ := List.cons_prefix_cons.mp hpre
      obtain ⟨s', hs, hv⟩ := Option.bind_eq_some_iff.mp hv
      exact ⟨s', hs, hrest, hv⟩
    cases bs with
    | nil =>
      obtain rfl : s = t := Option.some.inj ht
      cases cs with
      | nil =>
        obtain rfl : s = u := Option.some.inj hu
        exact hrefl s
      | cons b cs =>
        obtain ⟨s', hs, hrest, hu⟩ := hfirst b cs u hpre hu
        exact htrans s s' u (h s' hs).1 ((h s' hs).2 [] cs s' u hrest rfl hu)
    | cons b bs =>
      obtain ⟨rfl, hrest⟩ := List.cons_prefix_cons.mp hpre
      obtain ⟨s', hs, ht⟩ := Option.bind_eq_some_iff.mp ht
      exact (h s' hs).2 bs cs t u hrest ht hu

/-- The rule for exact conditions on orders; `I` is what ordered runs keep besides. -/
theorem ordered_iff_along {I : σ → Prop} {r : σ → σ → Prop} (hrefl : ∀ s, r s s)
    (htrans : ∀ s t u, r s t → r t u → r s u)
    (hstep : ∀ s a s', I s → M.step s a = some s' → (r s s' ↔ ok s a) ∧ (r s s' → I s'))
    {s : σ} (hI : I s) (as : List α) : M.Ordered r s as ↔ M.Along ok s as := by
  induction as generalizing s with
  | nil =>
    refine iff_of_true (fun bs cs t u hpre ht hu => ?_) trivial
    obtain ⟨rfl, rfl⟩ := List.append_eq_nil_iff.mp (List.prefix_nil.mp hpre)
    obtain rfl : s = t := Option.some.inj ht
    obtain rfl : s = u := Option.some.inj hu
    exact hrefl s
  | cons a as ih =>
    rw [ordered_cons hrefl htrans]
    refine forall₂_congr fun s' hs => ?_
    obtain ⟨hexact, hkeep⟩ := hstep s a s' hI hs
    constructor
    · rintro ⟨hr, hrest⟩
      exact ⟨hexact.mp hr, (ih (hkeep hr)).mp hrest⟩
    · rintro ⟨hok, hrest⟩
      exact ⟨hexact.mpr hok, (ih (hkeep (hexact.mpr hok))).mpr hrest⟩

/-! ## What passes through a run

Where every step takes in some items, lets some out and holds the rest in order, the same is true
of a run. -/

/-- What `f` says of the steps of the run from `s` through the labels, one after the other. -/
def collect {β : Type*} (M : TransitionSystem σ α) (f : σ → α → List β) : σ → List α → List β
  | _, [] => []
  | s, a :: as =>
    match M.step s a with
    | none => []
    | some s' => f s a ++ M.collect f s' as

lemma collect_nil {β : Type*} (s : σ) (as : List α) :
    M.collect (fun _ _ => ([] : List β)) s as = [] := by
  induction as generalizing s with
  | nil => rfl
  | cons a as ih =>
    rw [collect]
    split
    · rfl
    · exact ih _

lemma collect_cons {β : Type*} {f : σ → α → List β} {s s' : σ} {a : α} (hs : M.step s a = some s')
    (as : List α) : M.collect f s (a :: as) = f s a ++ M.collect f s' as := by
  rw [collect, hs]

/-- What was held and what came in, in this order, is what went out and what is held. -/
theorem Reach.conserved {β : Type*} (held : σ → List β) (enters leaves : σ → α → List β)
    (hstep : ∀ s a s', M.Reach s → M.step s a = some s' →
      held s ++ enters s a = leaves s a ++ held s')
    {as : List α} {s s' : σ} (h : M.Reach s) (hrun : M.run s as = some s') :
    held s ++ M.collect enters s as = M.collect leaves s as ++ held s' := by
  induction as generalizing s with
  | nil =>
    obtain rfl : s = s' := by simpa using hrun
    exact List.append_nil _
  | cons a as ih =>
    rw [run_cons, Option.bind_eq_some_iff] at hrun
    obtain ⟨s₁, hs, hrun⟩ := hrun
    have hrest := ih (h.step trivial hs) hrun
    calc held s ++ M.collect enters s (a :: as)
        = (held s ++ enters s a) ++ M.collect enters s₁ as := by
          rw [collect_cons hs, List.append_assoc]
      _ = leaves s a ++ (held s₁ ++ M.collect enters s₁ as) := by
          rw [hstep s a s₁ h hs, List.append_assoc]
      _ = M.collect leaves s (a :: as) ++ held s' := by
          rw [hrest, collect_cons hs, List.append_assoc]

/-- The system with a log, in which every step writes down what `f` says of it. -/
def logged {β : Type*} (M : TransitionSystem σ α) (f : σ → α → List β) :
    TransitionSystem (σ × List β) α where
  init x := M.init x.1 ∧ x.2 = []
  step x a := (M.step x.1 a).map fun s' => (s', x.2 ++ f x.1 a)

/-- A run adds to the log what is collected along it. -/
lemma logged_run {β : Type*} {f : σ → α → List β} {as : List α} {s s' : σ} (log : List β)
    (hrun : M.run s as = some s') :
    (M.logged f).run (s, log) as = some (s', log ++ M.collect f s as) := by
  induction as generalizing s log with
  | nil =>
    obtain rfl : s = s' := by simpa using hrun
    rw [run_nil, collect, List.append_nil]
  | cons a as ih =>
    rw [run_cons, Option.bind_eq_some_iff] at hrun
    obtain ⟨t, ht, hrun⟩ := hrun
    have hstep : (M.logged f).step (s, log) a = some (t, log ++ f s a) :=
      congrArg (Option.map fun s' => (s', log ++ f s a)) ht
    rw [run_cons, hstep, Option.bind_some, ih _ hrun, collect_cons ht, List.append_assoc]

/-! ## Refinement -/

/-- `R` is a simulation of `M` by `N`: a step of `M` is matched by a run of `N`, which may be
empty. -/
structure Refinement (M : TransitionSystem σ α) (N : TransitionSystem τ β) (R : σ → τ → Prop) :
    Prop where
  init : ∀ s, M.init s → ∃ t, N.init t ∧ R s t
  step : ∀ s a s' t, R s t → M.step s a = some s' → ∃ bs t', N.run t bs = some t' ∧ R s' t'

/-- A simulation matches runs by runs. -/
lemma Refinement.run {N : TransitionSystem τ β} {R : σ → τ → Prop} (hR : Refinement M N R)
    {as : List α} {s s' : σ} {t : τ} (hst : R s t) (hrun : M.run s as = some s') :
    ∃ bs t', N.run t bs = some t' ∧ R s' t' := by
  induction as generalizing s t with
  | nil =>
    obtain rfl : s = s' := by simpa using hrun
    exact ⟨[], t, rfl, hst⟩
  | cons a as ih =>
    rw [run_cons, Option.bind_eq_some_iff] at hrun
    obtain ⟨s₁, hs, hrun⟩ := hrun
    obtain ⟨bs, t₁, ht, hst₁⟩ := hR.step _ _ _ t hst hs
    obtain ⟨bs', t', ht', hst'⟩ := ih hst₁ hrun
    refine ⟨bs ++ bs', t', ?_, hst'⟩
    rw [run_append, ht]
    exact ht'

/-- Where every step is matched by a step with the same label, a run is matched by a run with the
same labels. -/
theorem run_lockstep {N : TransitionSystem τ α} {R : σ → τ → Prop}
    (hstep : ∀ s a s' t, R s t → M.step s a = some s' → ∃ t', N.step t a = some t' ∧ R s' t')
    {as : List α} {s s' : σ} {t : τ} (hst : R s t) (hrun : M.run s as = some s') :
    ∃ t', N.run t as = some t' ∧ R s' t' := by
  induction as generalizing s t with
  | nil =>
    obtain rfl : s = s' := by simpa using hrun
    exact ⟨t, rfl, hst⟩
  | cons a as ih =>
    rw [run_cons, Option.bind_eq_some_iff] at hrun
    obtain ⟨s₁, hs, hrun⟩ := hrun
    obtain ⟨t₁, ht, hst₁⟩ := hstep s a s₁ t hst hs
    rw [run_cons, ht]
    exact ih hst₁ hrun

/-- Simulations compose. -/
theorem Refinement.trans {υ γ : Type*} {N : TransitionSystem τ β} {O : TransitionSystem υ γ}
    {R : σ → τ → Prop} {S : τ → υ → Prop} (hR : Refinement M N R) (hS : Refinement N O S) :
    Refinement M O fun s u => ∃ t, R s t ∧ S t u where
  init s hs := by
    obtain ⟨t, ht, hst⟩ := hR.init s hs
    obtain ⟨u, hu, htu⟩ := hS.init t ht
    exact ⟨u, hu, t, hst, htu⟩
  step s a s' u := by
    rintro ⟨t, hst, htu⟩ hs
    obtain ⟨bs, t', hrun, hst'⟩ := hR.step s a s' t hst hs
    obtain ⟨cs, u', hrun', htu'⟩ := hS.run htu hrun
    exact ⟨cs, u', hrun', t', hst', htu'⟩

/-- Along a simulation every reachable state has a reachable counterpart. -/
theorem Refinement.exists_reach {N : TransitionSystem τ β} {R : σ → τ → Prop}
    (hR : Refinement M N R) {s : σ} (h : M.Reach s) : ∃ t, N.Reach t ∧ R s t := by
  induction h with
  | init h =>
    obtain ⟨t, ht, hst⟩ := hR.init _ h
    exact ⟨t, .init ht, hst⟩
  | step _ _ hs ih =>
    obtain ⟨t, ht, hst⟩ := ih
    obtain ⟨bs, t', hrun, hst'⟩ := hR.step _ _ _ t hst hs
    exact ⟨t', ht.run hrun, hst'⟩

end TransitionSystem
