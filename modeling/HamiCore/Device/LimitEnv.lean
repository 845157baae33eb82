import HamiCore.Library.CString
import Mathlib.Logic.Basic
import Mathlib.Tactic.SplitIfs

/-!
# Limits from the environment

`get_limit_from_env` looks at the last character of the variable for a unit, converts the string
with `strtoul` in base zero, multiplies and tests the product for overflow.  The end pointer it
prepares for the conversion is overwritten by it and never looked at, and neither is `errno`.  So a
decimal number of `2 ^ 64` and more without a unit comes out as the largest 64-bit number
(`getLimitFromEnv_decimal_iff`), and a string that is no number with a unit is taken for the number
it starts with (`malformed_limit_iff`).
-/

namespace HamiCore

/-- `scalar` of `get_limit_from_env`, from the last character of the string. -/
def limitScalar (last : Char) : UInt64 :=
  if last = 'G' ∨ last = 'g' then 1024 * 1024 * 1024
  else if last = 'M' ∨ last = 'm' then 1024 * 1024
  else if last = 'K' ∨ last = 'k' then 1024
  else 1

/-- `get_limit_from_env(env_name)`, where `envLimit` is what `getenv(env_name)` returns. -/
def getLimitFromEnv (envLimit : Option (List Char)) : UInt64 :=
  match envLimit with
  | none => 0
  | some s =>
    match s.getLast? with
    | none => 0
    | some last =>
      let scalar := limitScalar last
      let res := strtoul s
      let scaledRes := res * scalar
      if scaledRes = 0 then 0
      else if scaledRes ≠ 0 ∧ scaledRes / scalar ≠ res then 0
      else scaledRes

/-- `CUDA_DEVICE_MEMORY_LIMIT`. -/
def cudaDeviceMemoryLimit : List Char := "CUDA_DEVICE_MEMORY_LIMIT".toList

/-- `CUDA_DEVICE_MEMORY_LIMIT_KEY_LENGTH`. -/
def cudaDeviceMemoryLimitKeyLength : ℕ := 32

/-- The variable of device `i`, as `snprintf` writes it into the buffer of that length. -/
def deviceMemoryLimitKey (i : ℕ) : List Char :=
  (cudaDeviceMemoryLimit ++ '_' :: Nat.toDigits 10 i).take (cudaDeviceMemoryLimitKeyLength - 1)

/-- `do_init_device_memory_limits(arr, len)`: what it stores in the first `len` entries. -/
def doInitDeviceMemoryLimits (getenv : List Char → Option (List Char)) (len : ℕ) : List UInt64 :=
  let fallbackLimit := getLimitFromEnv (getenv cudaDeviceMemoryLimit)
  (List.range len).map fun i =>
    let curLimit := getLimitFromEnv (getenv (deviceMemoryLimitKey i))
    if curLimit > 0 then curLimit
    else if fallbackLimit > 0 then fallbackLimit
    else 0

/-! ### The scaling and its two tests -/

/-- The zero test and the division test together let exactly the products below `2 ^ 64` pass. -/
theorem toNat_scaled (res scalar : UInt64) (hscalar : 0 < scalar.toNat) :
    (if res * scalar = 0 then 0
      else if res * scalar ≠ 0 ∧ res * scalar / scalar ≠ res then 0
      else res * scalar : UInt64).toNat
      = if res.toNat * scalar.toNat < 2 ^ 64 then res.toNat * scalar.toNat else 0 := by
  have hmul : (res * scalar).toNat = res.toNat * scalar.toNat % 2 ^ 64 := UInt64.toNat_mul _ _
  by_cases hfit : res.toNat * scalar.toNat < 2 ^ 64
  · rw [if_pos hfit]
    rw [Nat.mod_eq_of_lt hfit] at hmul
    have hdiv : res * scalar / scalar = res := by
      apply UInt64.toNat_inj.mp
      rw [UInt64.toNat_div, hmul, Nat.mul_div_cancel _ hscalar]
    by_cases hzero : res * scalar = 0
    · rw [if_pos hzero, ← hmul, hzero]
    · rw [if_neg hzero, if_neg (fun h => h.2 hdiv), hmul]
  · rw [if_neg hfit]
    have hlt : (res * scalar).toNat < res.toNat * scalar.toNat := by
      rw [hmul]
      exact Nat.lt_of_lt_of_le (Nat.mod_lt _ (by decide)) (Nat.le_of_not_lt hfit)
    have hdiv : res * scalar / scalar ≠ res := by
      intro h
      have hres : (res * scalar).toNat / scalar.toNat = res.toNat := by
        rw [← UInt64.toNat_div, h]
      exact absurd (Nat.div_lt_of_lt_mul (by rwa [Nat.mul_comm] at hlt)) (by rw [hres]; omega)
    by_cases hzero : res * scalar = 0
    · rw [if_pos hzero]
      rfl
    · rw [if_neg hzero, if_pos ⟨hzero, hdiv⟩]
      rfl

/-- The unit is at least one. -/
theorem limitScalar_pos (last : Char) : 0 < (limitScalar last).toNat := by
  unfold limitScalar
  split_ifs <;> decide

/-- **What `get_limit_from_env` returns** for a string that is not empty. -/
theorem toNat_getLimitFromEnv {s : List Char} {last : Char} (hlast : s.getLast? = some last) :
    (getLimitFromEnv (some s)).toNat
      = if (strtoul s).toNat * (limitScalar last).toNat < 2 ^ 64
        then (strtoul s).toNat * (limitScalar last).toNat else 0 := by
  rw [← toNat_scaled _ _ (limitScalar_pos last)]
  simp only [getLimitFromEnv, hlast]

/-! ### Decimal numbers with a unit -/

/-- A non-empty sequence of decimal digits without a leading zero. -/
structure DecimalNumeral where
  digits : List Char
  ne_nil : digits ≠ []
  isDigit : ∀ c ∈ digits, c.isDigit
  noLeadingZero : digits = ['0'] ∨ digits.head? ≠ some '0'

/-- The number it denotes. -/
def DecimalNumeral.value (n : DecimalNumeral) : ℕ := decimalValue n.digits

/-- The six unit letters. -/
inductive LimitSuffix
  | g | G | m | M | k | K
  deriving DecidableEq, Repr

/-- The letter. -/
def LimitSuffix.char : LimitSuffix → Char
  | g => 'g' | G => 'G' | m => 'm' | M => 'M' | k => 'k' | K => 'K'

/-- What the letter stands for. -/
def LimitSuffix.scale : LimitSuffix → ℕ
  | g | G => 2 ^ 30
  | m | M => 2 ^ 20
  | k | K => 2 ^ 10

/-- Every unit is a proper multiple. -/
theorem LimitSuffix.two_le_scale (u : LimitSuffix) : 2 ≤ u.scale := by
  cases u <;> decide

/-- The spelling of a limit: the digits, and the letter where there is one. -/
def limitString (n : DecimalNumeral) (suffix : Option LimitSuffix) : List Char :=
  n.digits ++ (suffix.map LimitSuffix.char).toList

/-- The number of bytes it stands for. -/
def limitValue (n : DecimalNumeral) (suffix : Option LimitSuffix) : ℕ :=
  n.value * (suffix.map LimitSuffix.scale).getD 1

/-- The scale of a last character: that of a unit letter, or one. -/
theorem limitScalar_cases (last : Char) :
    (∃ u : LimitSuffix, last = u.char ∧ (limitScalar last).toNat = u.scale) ∨
      (∀ u : LimitSuffix, last ≠ u.char) ∧ (limitScalar last).toNat = 1 := by
  by_cases h : ∃ u : LimitSuffix, last = u.char
  · obtain ⟨u, rfl⟩ := h
    refine Or.inl ⟨u, rfl, ?_⟩
    cases u <;> decide
  · have hne : ∀ u : LimitSuffix, last ≠ u.char := fun u hu => h ⟨u, hu⟩
    refine Or.inr ⟨hne, ?_⟩
    have hG : ¬ (last = 'G' ∨ last = 'g') := not_or.mpr ⟨hne .G, hne .g⟩
    have hM : ¬ (last = 'M' ∨ last = 'm') := not_or.mpr ⟨hne .M, hne .m⟩
    have hK : ¬ (last = 'K' ∨ last = 'k') := not_or.mpr ⟨hne .K, hne .k⟩
    rw [limitScalar, if_neg hG, if_neg hM, if_neg hK]
    rfl

/-- A digit is no unit letter. -/
theorem limitScalar_of_isDigit {c : Char} (hc : c.isDigit) : (limitScalar c).toNat = 1 := by
  rcases limitScalar_cases c with ⟨u, rfl, -⟩ | ⟨-, hone⟩
  · cases u <;> cases hc
  · exact hone

/-- The last character of the spelling gives the scale of the unit. -/
theorem limitString_getLast (n : DecimalNumeral) (suffix : Option LimitSuffix) :
    ∃ last, (limitString n suffix).getLast? = some last ∧
      (limitScalar last).toNat = (suffix.map LimitSuffix.scale).getD 1 := by
  cases suffix with
  | none =>
    obtain ⟨c, hc⟩ := Option.isSome_iff_exists.mp (List.getLast?_isSome.mpr n.ne_nil)
    refine ⟨c, by simpa [limitString] using hc, ?_⟩
    exact limitScalar_of_isDigit (n.isDigit c (List.mem_of_getLast? hc))
  | some u =>
    refine ⟨u.char, by simp [limitString], ?_⟩
    cases u <;> decide

/-- The spelling is read as the number its digits denote. -/
theorem signedNumber_limitString (n : DecimalNumeral) (suffix : Option LimitSuffix) :
    signedNumber (limitString n suffix) = (false, n.value) := by
  obtain ⟨digits, hne, hdigit, hzero⟩ := n
  obtain ⟨c, ds, rfl⟩ := List.exists_cons_of_ne_nil hne
  have hc : c.isDigit := hdigit c (by simp)
  simp only [limitString, DecimalNumeral.value, List.cons_append]
  rw [signedNumber_of_isDigit hc]
  congr 1
  by_cases h0 : c = '0'
  · -- a zero in front stands alone, and no unit letter makes it hexadecimal
    obtain ⟨rfl, rfl⟩ : c = '0' ∧ ds = [] := by simpa [h0] using hzero
    cases suffix with
    | none => rfl
    | some u => cases u <;> rfl
  · rw [unsignedNumber_of_ne h0, ← List.cons_append]
    apply numeralValue_append hdigit
    intro d hd
    cases suffix with
    | none => cases hd
    | some u =>
      obtain rfl : u.char = d := by simpa using hd
      cases u <;> decide

/-- **Limits in the documented form are read exactly, except for one kind.**  The value comes out
where it fits in 64 bits, and 0 where it does not, unless the number alone is too large and no unit
follows: then the conversion has saturated and nothing notices. -/
theorem getLimitFromEnv_decimal_iff (n : DecimalNumeral) (suffix : Option LimitSuffix) :
    (getLimitFromEnv (some (limitString n suffix))).toNat
        = (if limitValue n suffix < 2 ^ 64 then limitValue n suffix else 0) ↔
      suffix ≠ none ∨ n.value < 2 ^ 64 := by
  obtain ⟨last, hlast, hscale⟩ := limitString_getLast n suffix
  have hnum := signedNumber_limitString n suffix
  rw [toNat_getLimitFromEnv hlast, hscale, toNat_strtoul, hnum, limitValue]
  simp only [Bool.false_eq_true, false_and, if_false]
  generalize n.value = v
  by_cases hbig : 2 ^ 64 ≤ v
  · rw [if_pos hbig]
    cases suffix with
    | none =>
      show (if (2 ^ 64 - 1) * 1 < 2 ^ 64 then (2 ^ 64 - 1) * 1 else 0)
        = (if v * 1 < 2 ^ 64 then v * 1 else 0) ↔ _
      rw [if_pos (by decide), if_neg (by omega)]
      exact iff_of_false (by decide) (by simpa using hbig)
    | some u =>
      show (if (2 ^ 64 - 1) * u.scale < 2 ^ 64 then (2 ^ 64 - 1) * u.scale else 0)
        = (if v * u.scale < 2 ^ 64 then v * u.scale else 0) ↔ _
      have hu : 2 ≤ u.scale := u.two_le_scale
      rw [if_neg (Nat.not_lt.mpr (Nat.le_trans (by decide) (Nat.mul_le_mul_left _ hu))),
        if_neg (Nat.not_lt.mpr (Nat.le_trans (by omega) (Nat.mul_le_mul hbig hu)))]
      exact iff_of_true rfl (Or.inl (by simp))
  · rw [if_neg hbig]
    exact iff_of_true rfl (Or.inr (Nat.lt_of_not_le hbig))

/-- `2 ^ 64` written out is read as `2 ^ 64 - 1`. -/
theorem limit_saturated :
    ∃ n : DecimalNumeral, n.digits = "18446744073709551616".toList ∧
      ¬ ((getLimitFromEnv (some (limitString n none))).toNat
        = if limitValue n none < 2 ^ 64 then limitValue n none else 0) := by
  refine ⟨⟨"18446744073709551616".toList, by decide, List.all_eq_true.mp (by decide), by decide⟩,
    rfl, ?_⟩
  decide

/-! ### Strings that are no such number -/

/-- An unsigned integer literal of base zero: decimal, octal behind `0`, hexadecimal behind `0x`. -/
def isUnsignedLiteral : List Char → Bool
  | '0' :: x :: cs =>
    if x = 'x' ∨ x = 'X' then !cs.isEmpty && cs.all fun c => digitOf c < 16
    else (x :: cs).all fun c => digitOf c < 8
  | cs => !cs.isEmpty && cs.all fun c => digitOf c < 10

/-- A literal, with at most one unit letter behind it. -/
def WellFormedLimit (s : List Char) : Prop :=
  isUnsignedLiteral s ∨
    ∃ c ∈ ['g', 'G', 'm', 'M', 'k', 'K'], s = s.dropLast ++ [c] ∧ isUnsignedLiteral s.dropLast

instance (s : List Char) : Decidable (WellFormedLimit s) :=
  @instDecidableOr _ _ _ (List.decidableBEx _ _)

/-- The value is not enforced: it is read as 0, and a device whose variable holds it gets the limit
that is independent of the device. -/
def LimitRejected (s : List Char) : Prop :=
  getLimitFromEnv (some s) = 0 ∧
    ∀ (getenv : List Char → Option (List Char)) (len i : ℕ), i < len →
      getenv (deviceMemoryLimitKey i) = some s →
      (doInitDeviceMemoryLimits getenv len)[i]?
        = some (getLimitFromEnv (getenv cudaDeviceMemoryLimit))

/-- Behind the blanks and the sign the string has no number or the number 0, or it ends in a unit
letter with which that number, negated modulo `2 ^ 64` behind a minus, does not fit in 64 bits. -/
def StartsWithNoLimit (s : List Char) : Prop :=
  (signedNumber s).2 = 0 ∨ ∃ u : LimitSuffix, s.getLast? = some u.char ∧
    (2 ^ 64 ≤ (signedNumber s).2 ∨
      2 ^ 64 ≤ (if (signedNumber s).1 then 2 ^ 64 - (signedNumber s).2 else (signedNumber s).2)
        * u.scale)

/-- The letters tell the units apart, up to their scale. -/
theorem LimitSuffix.scale_eq_of_char_eq {u v : LimitSuffix} (h : u.char = v.char) :
    u.scale = v.scale := by
  cases u <;> cases v <;> first | rfl | exact absurd h (by decide)

/-- A device whose own limit is 0 gets the common one. -/
theorem doInitDeviceMemoryLimits_fallback {getenv : List Char → Option (List Char)} {len i : ℕ}
    (hi : i < len) (hzero : getLimitFromEnv (getenv (deviceMemoryLimitKey i)) = 0) :
    (doInitDeviceMemoryLimits getenv len)[i]?
      = some (getLimitFromEnv (getenv cudaDeviceMemoryLimit)) := by
  simp only [doInitDeviceMemoryLimits, List.getElem?_map, List.getElem?_range hi, Option.map_some,
    hzero]
  generalize getLimitFromEnv (getenv cudaDeviceMemoryLimit) = fallback
  by_cases h : fallback > 0
  · simp [h]
  · have : fallback = 0 := by simpa using h
    simp [this]

/-- For every string that is not empty, 0 is read exactly when it starts with no limit. -/
theorem getLimitFromEnv_eq_zero_iff {s : List Char} (hs : s ≠ []) :
    getLimitFromEnv (some s) = 0 ↔ StartsWithNoLimit s := by
  obtain ⟨last, hlast⟩ := Option.isSome_iff_exists.mp (List.getLast?_isSome.mpr hs)
  have hzero : getLimitFromEnv (some s) = 0 ↔
      (signedNumber s).2 = 0 ∨ 2 ^ 64 ≤ (strtoul s).toNat * (limitScalar last).toNat := by
    rw [← UInt64.toNat_inj, toNat_getLimitFromEnv hlast, ← toNat_strtoul_eq_zero]
    have hpos := limitScalar_pos last
    split_ifs with hfit
    · rw [UInt64.toNat_zero, Nat.mul_eq_zero]
      omega
    · exact iff_of_true rfl (Or.inr (Nat.le_of_not_lt hfit))
  rw [hzero, StartsWithNoLimit]
  apply or_congr_right'
  intro hm
  rcases limitScalar_cases last with ⟨u, rfl, hscale⟩ | ⟨hne, hone⟩
  · rw [hscale, toNat_strtoul]
    constructor
    · intro h
      refine ⟨u, hlast, ?_⟩
      by_cases hbig : 2 ^ 64 ≤ (signedNumber s).2
      · exact Or.inl hbig
      · rw [if_neg hbig] at h
        simpa [hm] using Or.inr h
    · rintro ⟨v, hv, hbig | hfit⟩
      · rw [if_pos hbig]
        exact Nat.le_trans (by decide) (Nat.mul_le_mul_left _ u.two_le_scale)
      · have hchar : u.char = v.char := by simpa [hlast] using hv
        rw [LimitSuffix.scale_eq_of_char_eq hchar]
        by_cases hbig : 2 ^ 64 ≤ (signedNumber s).2
        · rw [if_pos hbig]
          exact Nat.le_trans (by decide) (Nat.mul_le_mul_left _ v.two_le_scale)
        · rw [if_neg hbig]
          simpa [hm] using hfit
  · rw [hone]
    refine iff_of_false ?_ ?_
    · have := (strtoul s).toNat_lt
      omega
    · rintro ⟨v, hv, -⟩
      exact hne v (by simpa [hlast] using hv)

/-- **Malformed limits are rejected only where the number they start with is.**  The string is not
looked at behind that number, except for its last character: it is rejected exactly when the number
is missing or 0, or when it does not fit with the unit of the last character. -/
theorem malformed_limit_iff (s : List Char) :
    (s ≠ [] → ¬ WellFormedLimit s → LimitRejected s) ↔
      s = [] ∨ WellFormedLimit s ∨ StartsWithNoLimit s := by
  constructor
  · intro h
    by_cases hs : s = []
    · exact Or.inl hs
    by_cases hwf : WellFormedLimit s
    · exact Or.inr (Or.inl hwf)
    · exact Or.inr (Or.inr ((getLimitFromEnv_eq_zero_iff hs).mp (h hs hwf).1))
  · rintro (hs | hwf | hno) hne hbad
    · exact absurd hs hne
    · exact absurd hwf hbad
    · have hzero := (getLimitFromEnv_eq_zero_iff hne).mpr hno
      refine ⟨hzero, fun getenv len i hi henv => ?_⟩
      exact doInitDeviceMemoryLimits_fallback hi (by rw [henv, hzero])

/-- `10MB` is taken for a limit of 10 bytes. -/
theorem malformed_limit_enforced :
    ¬ ("10MB".toList ≠ [] → ¬ WellFormedLimit "10MB".toList → LimitRejected "10MB".toList) ∧
      getLimitFromEnv (some "10MB".toList) = 10 := by
  have hten : getLimitFromEnv (some "10MB".toList) = 10 := by decide
  refine ⟨fun h => ?_, hten⟩
  have hzero := (h (by decide) (by decide)).1
  rw [hten] at hzero
  exact absurd hzero (by decide)

end HamiCore
