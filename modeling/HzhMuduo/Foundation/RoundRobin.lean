import Mathlib.Data.Int.CardIntervalMod
import Mathlib.Data.List.Nodup

/-!
# Round robin

The choices of a cursor that goes through a list round and round.  The choice number `i` is the
element at `i` modulo the length, and a list without duplicates gives its elements equal shares,
up to one.
-/

namespace List

variable {α : Type*} {xs : List α} {x y : α} {i k : ℕ}

/-- The first `k` choices. -/
def roundRobin (xs : List α) (k : ℕ) : List α :=
  (List.range k).filterMap fun i => xs[i % xs.length]?

@[simp] lemma roundRobin_zero (xs : List α) : xs.roundRobin 0 = [] := rfl

lemma roundRobin_succ (xs : List α) (k : ℕ) :
    xs.roundRobin (k + 1) = xs.roundRobin k ++ xs[k % xs.length]?.toList := by
  unfold roundRobin
  rw [List.range_succ, List.filterMap_append, List.filterMap_cons, List.filterMap_nil]
  cases xs[k % xs.length]? with
  | none => rfl
  | some x => rfl

/-- Each round of a list that is not empty is full. -/
lemma length_roundRobin (hpos : 0 < xs.length) (k : ℕ) : (xs.roundRobin k).length = k := by
  induction k with
  | zero => rfl
  | succ k ih =>
    rw [roundRobin_succ, List.getElem?_eq_getElem (Nat.mod_lt k hpos), List.length_append, ih]
    rfl

/-- The choice number `i`. -/
lemma getElem?_roundRobin (hpos : 0 < xs.length) (hi : i < k) :
    (xs.roundRobin k)[i]? = xs[i % xs.length]? := by
  induction k with
  | zero => exact absurd hi (Nat.not_lt_zero i)
  | succ k ih =>
    rw [roundRobin_succ]
    rcases Nat.lt_succ_iff_lt_or_eq.mp hi with hlt | rfl
    · rw [List.getElem?_append_left (by rwa [length_roundRobin hpos])]
      exact ih hlt
    · rw [List.getElem?_append_right (by rw [length_roundRobin hpos]), length_roundRobin hpos,
        Nat.sub_self, List.getElem?_eq_getElem (Nat.mod_lt i hpos)]
      rfl

variable [DecidableEq α]

/-- An element is chosen as often as its residue occurs among the numbers below `k`. -/
lemma count_roundRobin (hnodup : xs.Nodup) (hi : i < xs.length) (k : ℕ) :
    (xs.roundRobin k).count xs[i] = k.count (· ≡ i [MOD xs.length]) := by
  have hpos : 0 < xs.length := Nat.zero_lt_of_lt hi
  induction k with
  | zero => rfl
  | succ k ih =>
    have hmod : k % xs.length < xs.length := Nat.mod_lt k hpos
    have hsame : xs[k % xs.length] = xs[i] ↔ k ≡ i [MOD xs.length] := by
      rw [hnodup.getElem_inj_iff, Nat.ModEq, Nat.mod_eq_of_lt hi]
    rw [roundRobin_succ, List.getElem?_eq_getElem hmod, Option.toList_some, List.count_append, ih,
      List.count_singleton, Nat.count_succ]
    simp only [beq_iff_eq, hsame]

/-- The shares of two elements differ by at most one. -/
lemma count_roundRobin_le (hnodup : xs.Nodup) (hx : x ∈ xs) (hy : y ∈ xs) (k : ℕ) :
    (xs.roundRobin k).count x ≤ (xs.roundRobin k).count y + 1 := by
  obtain ⟨i, hi, rfl⟩ := List.getElem_of_mem hx
  obtain ⟨j, hj, rfl⟩ := List.getElem_of_mem hy
  have hpos : 0 < xs.length := Nat.zero_lt_of_lt hi
  rw [count_roundRobin hnodup hi, count_roundRobin hnodup hj, Nat.count_modEq_card _ hpos,
    Nat.count_modEq_card _ hpos]
  split <;> split <;> omega

end List
