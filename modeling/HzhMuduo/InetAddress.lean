import Mathlib.Algebra.Group.Int.Defs
import Mathlib.Algebra.Group.Nat.Defs
import Mathlib.Tactic.Common

/-!
# Addresses and connection names

The text of an IPv4 address with its port, and the name `TcpServer` gives to a connection: its
own name followed by what `snprintf` writes into a buffer of 64 bytes.  For the addresses that
occur nothing is cut off, so different identifiers make different names.
-/

namespace HzhMuduo

structure InetAddress where
  ip : Fin 4 → UInt8
  port : UInt16

namespace InetAddress

/-- `%u` of a number. -/
def decimal (n : ℕ) : List Char := Nat.toDigits 10 n

/-- `%d` of an `int`. -/
def decimalInt : ℤ → List Char
  | .ofNat n => decimal n
  | .negSucc n => '-' :: decimal (n + 1)

/-- `toIp`, as `inet_ntop` writes it. -/
def toIp (a : InetAddress) : List Char :=
  decimal (a.ip 0).toNat ++ '.' :: decimal (a.ip 1).toNat ++ '.' :: decimal (a.ip 2).toNat ++
    '.' :: decimal (a.ip 3).toNat

def toIpPort (a : InetAddress) : List Char := a.toIp ++ ':' :: decimal a.port.toNat

/-- A number below `10 ^ k` has at most `k` digits. -/
lemma length_decimal_le {n k : ℕ} (hk : 0 < k) (hn : n < 10 ^ k) : (decimal n).length ≤ k :=
  (Nat.length_toDigits_le_iff (by decide) hk).mpr hn

/-- The text of an address has at most 21 characters. -/
theorem length_toIpPort_le (a : InetAddress) : a.toIpPort.length ≤ 21 := by
  have hbyte : ∀ b : UInt8, (decimal b.toNat).length ≤ 3 := fun b =>
    length_decimal_le (by decide) (Nat.lt_of_lt_of_le b.toNat_lt (by decide))
  have hport : (decimal a.port.toNat).length ≤ 5 :=
    length_decimal_le (by decide) (Nat.lt_of_lt_of_le a.port.toNat_lt (by decide))
  have h₀ := hbyte (a.ip 0)
  have h₁ := hbyte (a.ip 1)
  have h₂ := hbyte (a.ip 2)
  have h₃ := hbyte (a.ip 3)
  simp only [toIpPort, toIp, List.length_append, List.length_cons]
  omega

/-- Decimal texts tell numbers apart. -/
lemma decimal_injective : Function.Injective decimal := by
  intro m n h
  rw [← Nat.ofDigitChars_ten_toDigits (n := m), ← Nat.ofDigitChars_ten_toDigits (n := n)]
  exact congrArg (Nat.ofDigitChars 10 · 0) h

/-- A minus sign tells the negative numbers apart. -/
lemma decimalInt_injective : Function.Injective decimalInt := by
  have hminus : ∀ m n : ℕ, decimal m ≠ '-' :: decimal (n + 1) := by
    intro m n h
    have hmem : '-' ∈ decimal m := by
      rw [h]
      exact List.mem_cons_self
    have hdigit := Nat.isDigit_of_mem_toDigits (by decide) (by decide) hmem
    exact absurd hdigit (by decide)
  intro i j h
  cases i with
  | ofNat m =>
    cases j with
    | ofNat n => exact congrArg Int.ofNat (decimal_injective h)
    | negSucc n => exact absurd h (hminus m n)
  | negSucc m =>
    cases j with
    | ofNat n => exact absurd h.symm (hminus n m)
    | negSucc n =>
      have hsucc := decimal_injective (List.cons.inj h).2
      exact congrArg Int.negSucc (Nat.succ.inj hsucc)

/-- The text of an `int` has at most 11 characters. -/
lemma length_decimalInt_le {i : ℤ} (hlow : -2 ^ 31 ≤ i) (hhigh : i < 2 ^ 31) :
    (decimalInt i).length ≤ 11 := by
  cases i with
  | ofNat n =>
    have hn : (Int.ofNat n) = (n : ℤ) := rfl
    have hdigits : (decimal n).length ≤ 10 := length_decimal_le (by decide) (by omega)
    exact Nat.le_succ_of_le hdigits
  | negSucc n =>
    have hdigits : (decimal (n + 1)).length ≤ 10 := length_decimal_le (by decide) (by omega)
    exact Nat.succ_le_succ hdigits

end InetAddress

open InetAddress

/-- The name of connection number `id`: `snprintf(buf, 64, "-%s#%d", ...)` keeps 63 characters. -/
def connName (name ipPort : List Char) (id : ℤ) : List Char :=
  name ++ ('-' :: ipPort ++ '#' :: decimalInt id).take 63

/-- Nothing is cut off the name of a connection. -/
lemma connName_eq (name : List Char) (a : InetAddress) {i : ℤ} (hlow : -2 ^ 31 ≤ i)
    (hhigh : i < 2 ^ 31) :
    connName name a.toIpPort i = name ++ '-' :: a.toIpPort ++ '#' :: decimalInt i := by
  have hid := length_decimalInt_le hlow hhigh
  have haddr := a.length_toIpPort_le
  have hwhole : ('-' :: a.toIpPort ++ '#' :: decimalInt i).take 63 =
      '-' :: a.toIpPort ++ '#' :: decimalInt i := by
    refine List.take_of_length_le ?_
    simp only [List.length_append, List.length_cons]
    omega
  rw [connName, hwhole, List.append_assoc]

/-- Different identifiers make different names. -/
theorem connName_toInt_inj {name : List Char} {a : InetAddress} {i j : BitVec 32}
    (h : connName name a.toIpPort i.toInt = connName name a.toIpPort j.toInt) : i = j := by
  rw [connName_eq name a i.le_toInt i.toInt_lt, connName_eq name a j.le_toInt j.toInt_lt] at h
  have hcons := List.append_cancel_left h
  exact BitVec.eq_of_toInt_eq (decimalInt_injective (List.cons.inj hcons).2)

/-- Different identifiers that have not overflowed make different names. -/
theorem connName_inj {name : List Char} {a : InetAddress} {i j : ℕ} (hi : i < 2 ^ 31)
    (hj : j < 2 ^ 31) (h : connName name a.toIpPort i = connName name a.toIpPort j) : i = j := by
  rw [connName_eq name a (by omega) (by omega), connName_eq name a (by omega) (by omega)] at h
  have hcons := List.append_cancel_left h
  exact Int.ofNat.inj (decimalInt_injective (List.cons.inj hcons).2)

end HzhMuduo
