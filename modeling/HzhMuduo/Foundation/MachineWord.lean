import Mathlib.Algebra.Group.Int.Defs
import Mathlib.Algebra.Group.Nat.Defs
import Mathlib.Data.Int.Basic
import Mathlib.Tactic.Common

/-!
# Machine words

Arithmetic of a 64-bit `size_t` and a 32-bit `int` on natural numbers and integers: sums and
differences of sizes wrap at `2 ^ 64`, a size passed as an `int` is reduced to the balanced
remainder modulo `2 ^ 32`, and an `int` widened back to a size is sign extended.  Each
operation agrees with the exact one as long as nothing wraps.
-/

namespace MachineWord

/-- `a + b` on `size_t`. -/
def addSize (a b : ℕ) : ℕ := (a + b) % 2 ^ 64

/-- `a - b` on `size_t`. -/
def subSize (a b : ℕ) : ℕ := (a + (2 ^ 64 - b)) % 2 ^ 64

/-- A `size_t` converted to `int`. -/
def toInt (n : ℕ) : ℤ := Int.bmod n (2 ^ 32)

/-- An `int`, or a difference computed in 64 bits, converted to `size_t`. -/
def toSize (i : ℤ) : ℕ := (i % 2 ^ 64).toNat

lemma addSize_of_lt {a b : ℕ} (h : a + b < 2 ^ 64) : addSize a b = a + b :=
  Nat.mod_eq_of_lt h

lemma subSize_of_le {a b : ℕ} (hb : b ≤ a) (ha : a < 2 ^ 64) : subSize a b = a - b := by
  unfold subSize
  omega

lemma toInt_of_lt {n : ℕ} (h : n < 2 ^ 31) : toInt n = n := by
  unfold toInt
  rw [Int.bmod_def]
  omega

lemma toSize_of_lt {n : ℕ} (h : n < 2 ^ 64) : toSize n = n := by
  unfold toSize
  omega

/-- What is taken off a size after the conversion can be taken off before. -/
lemma toSize_sub {i : ℤ} {k : ℕ} (h : k ≤ toSize i) : toSize (i - k) = toSize i - k := by
  unfold toSize at h ⊢
  omega

/-- A size below `2 ^ 31` survives the way through an `int`. -/
lemma toSize_toInt_of_lt {n : ℕ} (h : n < 2 ^ 31) : toSize (toInt n) = n := by
  rw [toInt_of_lt h]
  exact toSize_of_lt (by omega)

/-- A size survives the way through an `int` only if it is small or almost `2 ^ 64`. -/
lemma toSize_toInt_eq_iff {n : ℕ} (h : n < 2 ^ 64) :
    toSize (toInt n) = n ↔ n < 2 ^ 31 ∨ 2 ^ 64 - 2 ^ 31 ≤ n := by
  unfold toSize toInt
  rw [Int.bmod_def]
  constructor
  · intro heq
    omega
  · intro hn
    omega

end MachineWord
