import Mathlib.Algebra.Group.Int.Defs
import Mathlib.Algebra.Group.Nat.Defs

/-!
# Numbers and fields in C strings

`strtol` in base ten with a 64-bit `long`, `atoi`, which converts its result to `int`, `strtoul` in
base zero with a 64-bit `unsigned long`, and the directives of `fscanf` that read a number, a word
and a character.  A string is the list of its characters without the terminating zero.
-/

namespace HamiCore

/-- `isspace` in the C locale. -/
def isSpace (c : Char) : Bool := c = ' ' || (9 ≤ c.toNat && c.toNat ≤ 13)

/-- The value of the longest initial run of decimal digits, after `acc`. -/
def digitsValue (acc : ℕ) : List Char → ℕ
  | [] => acc
  | c :: cs => if c.isDigit then digitsValue (10 * acc + (c.toNat - 48)) cs else acc

/-- `strtol(s, NULL, 10)`: blanks, an optional sign, digits; out of range it saturates. -/
def strtol (s : List Char) : ℤ :=
  match s.dropWhile isSpace with
  | '-' :: cs => max (-2 ^ 63) (-digitsValue 0 cs)
  | '+' :: cs => min (2 ^ 63 - 1) (digitsValue 0 cs)
  | cs => min (2 ^ 63 - 1) (digitsValue 0 cs)

/-- `atoi`: the low 32 bits of the result of `strtol`, as a signed number. -/
def atoi (s : List Char) : ℤ := (strtol s).bmod (2 ^ 32)

/-- The value of a digit in the bases up to 36, and 36 for a character that is no digit. -/
def digitOf (c : Char) : ℕ :=
  if '0' ≤ c ∧ c ≤ '9' then c.toNat - 48
  else if 'a' ≤ c ∧ c ≤ 'z' then c.toNat - 87
  else if 'A' ≤ c ∧ c ≤ 'Z' then c.toNat - 55
  else 36

/-- The value of the longest initial run of digits of a base, after `acc`. -/
def numeralValue (base acc : ℕ) : List Char → ℕ
  | [] => acc
  | c :: cs => if digitOf c < base then numeralValue base (base * acc + digitOf c) cs else acc

/-- The number a string starts with in base zero, 0 where it starts with none: hexadecimal behind
`0x`, octal behind `0`, decimal otherwise. -/
def unsignedNumber : List Char → ℕ
  | '0' :: x :: cs => if x = 'x' ∨ x = 'X' then numeralValue 16 0 cs else numeralValue 8 0 (x :: cs)
  | cs => numeralValue 10 0 cs

/-- The sign (`true` for a minus) and the number behind the blanks at the start of a string. -/
def signedNumber (s : List Char) : Bool × ℕ :=
  match s.dropWhile isSpace with
  | '-' :: cs => (true, unsignedNumber cs)
  | '+' :: cs => (false, unsignedNumber cs)
  | cs => (false, unsignedNumber cs)

/-- `strtoul(s, &end, 0)`: out of range it saturates, and a minus negates modulo `2 ^ 64`. -/
def strtoul (s : List Char) : UInt64 :=
  if 2 ^ 64 ≤ (signedNumber s).2 then -1
  else if (signedNumber s).1 then -UInt64.ofNat (signedNumber s).2
  else UInt64.ofNat (signedNumber s).2

/-- The number that a sequence of decimal digits denotes. -/
def decimalValue (ds : List Char) : ℕ := ds.foldl (fun n c => 10 * n + (c.toNat - 48)) 0

/-- A decimal digit is its own value in base ten. -/
theorem digitOf_of_isDigit {c : Char} (hc : c.isDigit) : digitOf c = c.toNat - 48 := by
  have h : '0' ≤ c ∧ c ≤ '9' := by simpa [Char.isDigit, Char.le_def] using hc
  rw [digitOf, if_pos h]

/-- A run of decimal digits is read to its end. -/
theorem numeralValue_append {ds rest : List Char} (hds : ∀ c ∈ ds, c.isDigit)
    (hrest : ∀ c ∈ rest.head?, 10 ≤ digitOf c) (acc : ℕ) :
    numeralValue 10 acc (ds ++ rest)
      = ds.foldl (fun n c => 10 * n + (c.toNat - 48)) acc := by
  induction ds generalizing acc with
  | nil =>
    cases rest with
    | nil => rfl
    | cons c rest => exact if_neg (Nat.not_lt.mpr (hrest c rfl))
  | cons c ds ih =>
    have hc : c.isDigit := hds c (by simp)
    have hv := digitOf_of_isDigit hc
    have hlt : digitOf c < 10 := by
      rw [hv]
      have := (Char.isDigit_iff_toNat.mp hc).2
      simp at this ⊢
      omega
    rw [List.cons_append, numeralValue, if_pos hlt, hv, List.foldl_cons]
    exact ih (fun d hd => hds d (by simp [hd])) _

/-- A digit is not a blank. -/
theorem isSpace_of_isDigit {c : Char} (hc : c.isDigit) : isSpace c = false := by
  have hc' := Char.isDigit_iff_toNat.mp hc
  have hne : c ≠ ' ' := by
    rintro rfl
    cases hc
  simp only [isSpace, hne, decide_false, Bool.false_or, Bool.and_eq_false_iff,
    decide_eq_false_iff_not]
  simp at hc'
  omega

/-- Nor is it a sign. -/
theorem ne_sign_of_isDigit {c : Char} (hc : c.isDigit) : c ≠ '-' ∧ c ≠ '+' := by
  constructor
  · rintro rfl
    cases hc
  · rintro rfl
    cases hc

/-- A digit is neither a blank nor a sign, so the number starts right there. -/
theorem signedNumber_of_isDigit {c : Char} (hc : c.isDigit) (cs : List Char) :
    signedNumber (c :: cs) = (false, unsignedNumber (c :: cs)) := by
  obtain ⟨hminus, hplus⟩ := ne_sign_of_isDigit hc
  rw [signedNumber, List.dropWhile_cons_of_neg (by simp [isSpace_of_isDigit hc])]
  simp [hminus, hplus]

/-- A number that does not start with a zero is decimal. -/
theorem unsignedNumber_of_ne {c : Char} (hc : c ≠ '0') (cs : List Char) :
    unsignedNumber (c :: cs) = numeralValue 10 0 (c :: cs) := by
  unfold unsignedNumber
  split
  · rename_i h
    injection h with h
    exact absurd h hc
  · rfl

/-- What `strtoul` returns, as a natural number. -/
theorem toNat_strtoul (s : List Char) :
    (strtoul s).toNat = if 2 ^ 64 ≤ (signedNumber s).2 then 2 ^ 64 - 1
      else if (signedNumber s).1 ∧ (signedNumber s).2 ≠ 0 then 2 ^ 64 - (signedNumber s).2
      else (signedNumber s).2 := by
  unfold strtoul
  generalize (signedNumber s).2 = m
  by_cases hbig : 2 ^ 64 ≤ m
  · rw [if_pos hbig, if_pos hbig]
    decide
  · rw [if_neg hbig, if_neg hbig]
    have hm : m % 2 ^ 64 = m := Nat.mod_eq_of_lt (by omega)
    by_cases hneg : (signedNumber s).1 = true
    · rw [if_pos hneg, UInt64.toNat_neg, UInt64.toNat_ofNat', hm]
      by_cases hz : m = 0
      · rw [if_neg (by simp [hz]), hz]
        decide
      · rw [if_pos ⟨hneg, hz⟩]
        exact Nat.mod_eq_of_lt (by simp only [UInt64.size]; omega)
    · rw [if_neg hneg, if_neg (fun h => hneg h.1), UInt64.toNat_ofNat', hm]

/-- Only the number 0 is converted to 0. -/
theorem toNat_strtoul_eq_zero (s : List Char) :
    (strtoul s).toNat = 0 ↔ (signedNumber s).2 = 0 := by
  rw [toNat_strtoul]
  by_cases hbig : 2 ^ 64 ≤ (signedNumber s).2
  · rw [if_pos hbig]
    omega
  · rw [if_neg hbig]
    by_cases hneg : (signedNumber s).1 ∧ (signedNumber s).2 ≠ 0
    · rw [if_pos hneg]
      omega
    · rw [if_neg hneg]

/-- So is it by `strtol`. -/
theorem digitsValue_append {ds rest : List Char} (hds : ∀ c ∈ ds, c.isDigit)
    (hrest : ∀ c ∈ rest.head?, c.isDigit = false) (acc : ℕ) :
    digitsValue acc (ds ++ rest) = Nat.ofDigitChars 10 ds acc := by
  induction ds generalizing acc with
  | nil =>
    rw [List.nil_append, Nat.ofDigitChars_nil]
    cases rest with
    | nil => rfl
    | cons c rest => exact if_neg (by simp [hrest c rfl])
  | cons d ds ih =>
    rw [List.cons_append, digitsValue, if_pos (hds d (by simp)), Nat.ofDigitChars_cons]
    exact ih (fun c hc => hds c (by simp [hc])) _

/-- The decimal form of an `int` that is not negative is read as it is written. -/
theorem atoi_toDigits {n : ℕ} (hn : n < 2 ^ 31) {rest : List Char}
    (hrest : ∀ c ∈ rest.head?, c.isDigit = false) : atoi (Nat.toDigits 10 n ++ rest) = n := by
  have hdigit : ∀ c ∈ Nat.toDigits 10 n, c.isDigit := fun c hc =>
    Nat.isDigit_of_mem_toDigits (by decide) (by decide) hc
  have hvalue : digitsValue 0 (Nat.toDigits 10 n ++ rest) = n := by
    rw [digitsValue_append hdigit hrest, Nat.ofDigitChars_ten_toDigits]
  obtain ⟨d, ds, hds⟩ := List.exists_cons_of_ne_nil (Nat.toDigits_ne_nil (n := n) (b := 10))
  have hd : d.isDigit := hdigit d (by simp [hds])
  have hstrtol : strtol (Nat.toDigits 10 n ++ rest) = n := by
    obtain ⟨hminus, hplus⟩ := ne_sign_of_isDigit hd
    rw [hds, List.cons_append] at hvalue ⊢
    rw [strtol, List.dropWhile_cons_of_neg (by simp [isSpace_of_isDigit hd])]
    simp only [hminus, hplus, List.cons.injEq, false_and, imp_self, implies_true, hvalue]
    omega
  rw [atoi, hstrtol]
  exact Int.bmod_eq_of_le (by omega) (by omega)

/-! ### Directives of `fscanf` -/

/-- A blank in a format: it skips the blanks there are. -/
def scanSpace (s : List Char) : List Char := s.dropWhile isSpace

/-- At least one decimal digit, and as many as there are. -/
def scanDigits (s : List Char) : Option (List Char) :=
  if (s.takeWhile Char.isDigit).isEmpty then none else some (s.dropWhile Char.isDigit)

/-- `%d`, up to the number it stores: blanks, an optional sign and digits. -/
def scanInt (s : List Char) : Option (List Char) :=
  match scanSpace s with
  | '-' :: cs => scanDigits cs
  | '+' :: cs => scanDigits cs
  | cs => scanDigits cs

/-- `%s`: behind the blanks, the characters up to the next blank, at least one. -/
def scanWord (s : List Char) : Option (List Char × List Char) :=
  if scanSpace s = [] then none
  else some ((scanSpace s).takeWhile (!isSpace ·), (scanSpace s).dropWhile (!isSpace ·))

/-- `%c`: the next character, a blank like any other. -/
def scanChar (s : List Char) : Option Char := s.head?

/-- An integer as `%d` prints it. -/
def decimal (n : ℤ) : List Char :=
  if n < 0 then '-' :: Nat.toDigits 10 n.natAbs else Nat.toDigits 10 n.natAbs

/-- Digits are read up to a character that is none. -/
theorem scanDigits_toDigits (n : ℕ) {c : Char} (hc : c.isDigit = false) (cs : List Char) :
    scanDigits (Nat.toDigits 10 n ++ c :: cs) = some (c :: cs) := by
  have hdigit : ∀ d ∈ Nat.toDigits 10 n, d.isDigit := fun d hd =>
    Nat.isDigit_of_mem_toDigits (by decide) (by decide) hd
  have hstop : (c :: cs).takeWhile Char.isDigit = [] := by simp [hc]
  rw [scanDigits, List.takeWhile_append_of_pos hdigit, List.dropWhile_append_of_pos hdigit, hstop,
    List.append_nil, if_neg (by simp [Nat.toDigits_ne_nil]),
    List.dropWhile_cons_of_neg (by simp [hc])]

/-- A digit is neither a blank nor a sign, so `%d` reads digits at once. -/
theorem scanInt_of_isDigit {c : Char} (hc : c.isDigit) (cs : List Char) :
    scanInt (c :: cs) = scanDigits (c :: cs) := by
  obtain ⟨hminus, hplus⟩ := ne_sign_of_isDigit hc
  rw [scanInt, scanSpace, List.dropWhile_cons_of_neg (by simp [isSpace_of_isDigit hc])]
  simp [hminus, hplus]

/-- What `%d` prints, `%d` reads. -/
theorem scanInt_decimal (n : ℤ) {c : Char} (hc : c.isDigit = false) (cs : List Char) :
    scanInt (decimal n ++ c :: cs) = some (c :: cs) := by
  unfold decimal
  by_cases hn : n < 0
  · rw [if_pos hn, List.cons_append, scanInt, scanSpace,
      List.dropWhile_cons_of_neg (by decide)]
    exact scanDigits_toDigits _ hc cs
  · rw [if_neg hn]
    obtain ⟨d, ds, hds⟩ := List.exists_cons_of_ne_nil
      (Nat.toDigits_ne_nil (n := n.natAbs) (b := 10))
    have hd : d.isDigit :=
      Nat.isDigit_of_mem_toDigits (b := 10) (n := n.natAbs) (by decide) (by decide) (by simp [hds])
    have hread := scanDigits_toDigits n.natAbs hc cs
    rw [hds, List.cons_append] at hread ⊢
    rw [scanInt_of_isDigit hd, hread]

end HamiCore
