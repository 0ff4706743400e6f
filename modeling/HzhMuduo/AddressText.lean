import HzhMuduo.InetAddress
import Mathlib.Data.Fintype.Basic
import Mathlib.Data.List.Basic
import Mathlib.Tactic.FinCases

/-!
# Addresses from text

The constructor of `InetAddress` reads its text with `inet_addr`, which knows more forms than
`toIp` writes: one to four parts, each of them decimal, octal or hexadecimal.  What `toIp` writes
is read back as the address it came from, and the text of an address with its port belongs to no
other (`new_toIp_and_injective`).
-/

namespace HzhMuduo

namespace InetAddress

/-- The value of a digit, letters included; at least every base for other characters. -/
def digit (c : Char) : ℕ :=
  if c.isDigit then c.toNat - '0'.toNat
  else if c.isAlpha then c.toLower.toNat - 'a'.toNat + 10
  else 36

/-- The number in front of a text, and what is behind it. -/
def number (base : ℕ) (cs : List Char) : ℕ × List Char :=
  ((cs.takeWhile fun c => digit c < base).foldl (fun n c => base * n + digit c) 0,
    cs.dropWhile fun c => digit c < base)

/-- `strtoul(cp, &endp, 0)` of a text that begins with a digit. -/
def strtoul : List Char → ℕ × List Char
  | '0' :: x :: c :: cs =>
    if (x = 'x' ∨ x = 'X') ∧ digit c < 16 then number 16 (c :: cs)
    else number 8 ('0' :: x :: c :: cs)
  | '0' :: cs => number 8 ('0' :: cs)
  | cs => number 10 cs

/-- The text ends here; a C string at its first null byte, and an address at white space. -/
def ends : List Char → Bool
  | [] => true
  | c :: _ => c ∈ ['\x00', ' ', '\t', '\n', '\x0b', '\x0c', '\r']

/-- The parts of an address, with at most `n` dots between them.  All but the last are bytes. -/
def parts (n : ℕ) (cs : List Char) : Option (List ℕ) :=
  if cs.head?.any Char.isDigit then
    match strtoul cs with
    | (val, '.' :: rest) =>
      match n with
      | 0 => none
      | n + 1 => if val ≤ 0xff then (parts n rest).map (val :: ·) else none
    | (val, rest) => if val ≤ 0xffffffff ∧ ends rest then some [val] else none
  else none

/-- `INADDR_NONE` -/
def inaddrNone : ℕ := 0xffffffff

/-- `inet_addr`; the first byte of the address is the most significant one.  The last part fills the
bytes that the parts before it leave. -/
def inetAddr (cs : List Char) : ℕ :=
  match parts 3 cs with
  | some [a] => a
  | some [a, b] => if b ≤ 0xffffff then a * 2 ^ 24 + b else inaddrNone
  | some [a, b, c] => if c ≤ 0xffff then a * 2 ^ 24 + b * 2 ^ 16 + c else inaddrNone
  | some [a, b, c, d] =>
    if d ≤ 0xff then a * 2 ^ 24 + b * 2 ^ 16 + c * 2 ^ 8 + d else inaddrNone
  | _ => inaddrNone

/-- `InetAddress(port, ip)` -/
def new (port : UInt16) (ip : List Char) : InetAddress where
  ip i := UInt8.ofNat (inetAddr ip / 2 ^ (8 * (3 - i.val)))
  port := port

def toPort (a : InetAddress) : UInt16 := a.port

/-! ### Numbers in decimal -/

/-- A decimal digit counts as itself. -/
lemma digit_of_isDigit {c : Char} (h : c.isDigit = true) :
    digit c = c.toNat - '0'.toNat ∧ digit c < 10 := by
  have hvalue : digit c = c.toNat - '0'.toNat := if_pos h
  have hle : c.toNat ≤ '9'.toNat := (Char.isDigit_iff_toNat.mp h).2
  refine ⟨hvalue, ?_⟩
  rw [hvalue]
  change c.toNat ≤ 57 at hle
  change c.toNat - 48 < 10
  omega

lemma isDigit_of_mem_decimal {n : ℕ} {c : Char} (h : c ∈ decimal n) : c.isDigit = true :=
  Nat.isDigit_of_mem_toDigits (by decide) (by decide) h

lemma decimal_ne_nil (n : ℕ) : decimal n ≠ [] := Nat.toDigits_ne_nil

/-- Only zero is written with a leading zero. -/
lemma head?_decimal {n : ℕ} (hn : n ≠ 0) : (decimal n).head? ≠ some '0' := by
  induction n using Nat.strongRecOn with
  | ind n ih =>
    unfold decimal at ih ⊢
    by_cases hsmall : n < 10
    · rw [Nat.toDigits_of_lt_base hsmall, List.head?_cons]
      intro h
      have hvalue := Nat.toNat_digitChar_of_lt_ten hsmall
      rw [Option.some.inj h] at hvalue
      change 48 = 48 + n at hvalue
      omega
    · rw [Nat.toDigits_of_base_le (by decide) (by omega),
        List.head?_append_of_ne_nil _ Nat.toDigits_ne_nil]
      exact ih (n / 10) (by omega) (by omega)

/-- A number in decimal is read back, when no digit follows. -/
lemma number_decimal (n : ℕ) {rest : List Char} (hrest : ∀ c ∈ rest.head?, 10 ≤ digit c) :
    number 10 (decimal n ++ rest) = (n, rest) := by
  have hdigits : ∀ c ∈ decimal n, decide (digit c < 10) = true := fun c hc =>
    decide_eq_true (digit_of_isDigit (isDigit_of_mem_decimal hc)).2
  have hstop : rest.takeWhile (fun c => digit c < 10) = [] ∧
      rest.dropWhile (fun c => digit c < 10) = rest := by
    cases rest with
    | nil => exact ⟨rfl, rfl⟩
    | cons c cs =>
      have hc : ¬ digit c < 10 := Nat.not_lt.mpr (hrest c rfl)
      simp [hc]
  have hvalue : (decimal n).foldl (fun n c => 10 * n + digit c) 0 = n := by
    have hext : (decimal n).foldl (fun n c => 10 * n + digit c) 0 =
        Nat.ofDigitChars 10 (decimal n) 0 :=
      List.foldl_ext _ _ _ fun m c hc => by rw [(digit_of_isDigit (isDigit_of_mem_decimal hc)).1]
    rw [hext]
    exact Nat.ofDigitChars_ten_toDigits
  rw [number, List.takeWhile_append_of_pos hdigits, List.dropWhile_append_of_pos hdigits, hstop.1,
    hstop.2, List.append_nil, hvalue]

/-- What stands behind a part of an address: a dot, or nothing. -/
def Bounded (rest : List Char) : Prop := rest = [] ∨ ∃ cs, rest = '.' :: cs

lemma Bounded.le_digit {rest : List Char} (h : Bounded rest) : ∀ c ∈ rest.head?, 10 ≤ digit c := by
  rintro c hc
  rcases h with rfl | ⟨cs, rfl⟩
  · cases hc
  · obtain rfl := Option.some.inj hc
    decide

/-- A number without leading zeros is taken for a decimal one, and a single zero for zero. -/
lemma strtoul_decimal (n : ℕ) {rest : List Char} (h : Bounded rest) :
    strtoul (decimal n ++ rest) = (n, rest) := by
  by_cases hn : n = 0
  · subst hn
    rcases h with rfl | ⟨cs, rfl⟩
    · rfl
    · cases cs with
      | nil => rfl
      | cons c cs => rfl
  · rw [← number_decimal n h.le_digit]
    have hhead := head?_decimal hn
    obtain ⟨c, cs, hcs⟩ := List.exists_cons_of_ne_nil (decimal_ne_nil n)
    rw [hcs, List.head?_cons] at hhead
    have hzero : c ≠ '0' := fun heq => hhead (congrArg some heq)
    rw [hcs, List.cons_append]
    unfold strtoul
    split
    · next heq => exact absurd (List.cons.inj heq).1 hzero
    · next heq => exact absurd (List.cons.inj heq).1 hzero
    · rfl

/-! ### Addresses -/

/-- A part of an address begins with a digit. -/
lemma head?_part (n : ℕ) (rest : List Char) :
    (decimal n ++ rest).head?.any Char.isDigit = true := by
  obtain ⟨c, cs, hcs⟩ := List.exists_cons_of_ne_nil (decimal_ne_nil n)
  have hc : c.isDigit = true := isDigit_of_mem_decimal (hcs ▸ List.mem_cons_self)
  rw [hcs, List.cons_append, List.head?_cons, Option.any_some, hc]

lemma parts_dot {b : ℕ} (hb : b ≤ 0xff) (n : ℕ) (rest : List Char) :
    parts (n + 1) (decimal b ++ '.' :: rest) = (parts n rest).map (b :: ·) := by
  rw [parts, if_pos (head?_part _ _), strtoul_decimal _ (.inr ⟨rest, rfl⟩)]
  exact if_pos hb

lemma parts_last {b : ℕ} (hb : b ≤ 0xff) (n : ℕ) : parts n (decimal b) = some [b] := by
  have hstrtoul := strtoul_decimal b (.inl rfl)
  have hhead := head?_part b []
  rw [List.append_nil] at hstrtoul hhead
  rw [parts.eq_def, if_pos hhead, hstrtoul]
  exact if_pos ⟨by omega, rfl⟩

/-- What `toIp` writes has four parts. -/
lemma parts_toIp (a : InetAddress) : parts 3 a.toIp =
    some [(a.ip 0).toNat, (a.ip 1).toNat, (a.ip 2).toNat, (a.ip 3).toNat] := by
  have hbyte : ∀ i, (a.ip i).toNat ≤ 0xff := fun i => Nat.le_of_lt_succ (a.ip i).toNat_lt
  unfold toIp
  rw [List.append_assoc, List.append_assoc]
  simp only [List.cons_append]
  rw [parts_dot (hbyte 0), parts_dot (hbyte 1), parts_dot (hbyte 2), parts_last (hbyte 3)]
  rfl

/-- `inet_addr` reads back what `inet_ntop` has written. -/
lemma inetAddr_toIp (a : InetAddress) :
    inetAddr a.toIp = (a.ip 0).toNat * 2 ^ 24 + (a.ip 1).toNat * 2 ^ 16 +
      (a.ip 2).toNat * 2 ^ 8 + (a.ip 3).toNat := by
  rw [inetAddr, parts_toIp]
  exact if_pos (Nat.le_of_lt_succ (a.ip 3).toNat_lt)

/-- The address made of the text and the port of an address is this address. -/
lemma new_toIp (a : InetAddress) : new a.toPort a.toIp = a := by
  have h₀ := (a.ip 0).toNat_lt
  have h₁ := (a.ip 1).toNat_lt
  have h₂ := (a.ip 2).toNat_lt
  have h₃ := (a.ip 3).toNat_lt
  have hip : ∀ i, UInt8.ofNat (inetAddr a.toIp / 2 ^ (8 * (3 - i.val))) = a.ip i := by
    intro i
    rw [inetAddr_toIp]
    apply UInt8.toNat_inj.mp
    rw [UInt8.toNat_ofNat']
    fin_cases i <;> simp only [Fin.zero_eta, Fin.mk_one, Fin.reduceFinMk] <;> omega
  exact congrArg (InetAddress.mk · a.port) (funext hip)

lemma colon_not_mem_decimal (n : ℕ) : ':' ∉ decimal n := fun hmem =>
  absurd (isDigit_of_mem_decimal hmem) (by decide)

/-- An address has no colon. -/
lemma colon_not_mem_toIp (a : InetAddress) : ':' ∉ a.toIp := by
  simp [toIp, colon_not_mem_decimal]

/-- Different addresses have different texts. -/
lemma toIpPort_injective : Function.Injective toIpPort := by
  intro a b h
  obtain ⟨hip, -, hport⟩ := (List.append_cons_inj_of_notMem a.colon_not_mem_toIp
    (colon_not_mem_decimal _)).mp h
  have hport : a.toPort = b.toPort := UInt16.toNat_inj.mp (decimal_injective hport)
  calc a = new a.toPort a.toIp := a.new_toIp.symm
    _ = new b.toPort b.toIp := by rw [hport, hip]
    _ = b := b.new_toIp

/-- The constructor undoes `toIp` and `toPort`, and `toIpPort` tells all addresses apart. -/
theorem new_toIp_and_injective :
    (∀ a : InetAddress, new a.toPort a.toIp = a) ∧ Function.Injective toIpPort :=
  ⟨new_toIp, toIpPort_injective⟩

example : (new 0 "127.0.0.1".toList).toIpPort = "127.0.0.1:0".toList := by decide +kernel

example : (new 80 "0x7f.1".toList).toIpPort = "127.0.0.1:80".toList := by decide +kernel

example : (new 80 "localhost".toList).toIp = "255.255.255.255".toList := by decide +kernel

end InetAddress

end HzhMuduo
