import Mathlib.Algebra.Order.Floor.Ring
import Mathlib.Data.Int.Log
import Mathlib.Data.Rat.Floor
import Mathlib.Tactic.FieldSimp
import Mathlib.Tactic.Linarith
import Mathlib.Tactic.NormNum
import Mathlib.Tactic.Positivity
import Mathlib.Tactic.Ring

/-!
# Rounding to nearest, ties to even

Binary floating point with a precision and a least exponent, its numbers taken as the
rationals they stand for.  A number that is not negative is rounded to the nearest multiple
of a power of two, which depends on its own magnitude; the error is half of that power, and
the order of numbers is kept.

## Main definitions

* `nearestEven q` — the integer nearest to `q`, the even one of two.
* `floatExponent p emin q`, `floatRound p emin q` — what `q` is rounded to a multiple of, and
  what it is rounded to.
-/

set_option autoImplicit false

namespace HlOrderbook

/-! ## Integers -/

/-- The integer nearest to a number; the even one if there are two. -/
def nearestEven (q : ℚ) : ℤ :=
  if q - ⌊q⌋ < 1 / 2 then ⌊q⌋
  else if 1 / 2 < q - ⌊q⌋ then ⌊q⌋ + 1
  else if ⌊q⌋ % 2 = 0 then ⌊q⌋ else ⌊q⌋ + 1

variable {q r : ℚ}

theorem abs_nearestEven_sub_le (q : ℚ) : |(nearestEven q : ℚ) - q| ≤ 1 / 2 := by
  have hle := Int.floor_le q
  have hlt := Int.lt_floor_add_one q
  rw [nearestEven, abs_le]
  split
  · constructor <;> linarith
  · split
    · push_cast
      constructor <;> linarith
    · split
      · constructor <;> linarith
      · push_cast
        constructor <;> linarith

@[simp] theorem nearestEven_intCast (n : ℤ) : nearestEven (n : ℚ) = n := by
  simp [nearestEven]

/-- An integer within less than a half is the nearest one. -/
theorem nearestEven_eq {n : ℤ} (h : |q - n| < 1 / 2) : nearestEven q = n := by
  have hclose := abs_nearestEven_sub_le q
  rw [abs_lt] at h
  rw [abs_le] at hclose
  have hlt : (nearestEven q : ℚ) < n + 1 := by linarith
  have hgt : (n : ℚ) < nearestEven q + 1 := by linarith
  have hlt' : nearestEven q < n + 1 := by exact_mod_cast hlt
  have hgt' : n < nearestEven q + 1 := by exact_mod_cast hgt
  omega

theorem floor_le_nearestEven (q : ℚ) : ⌊q⌋ ≤ nearestEven q ∧ nearestEven q ≤ ⌊q⌋ + 1 := by
  rw [nearestEven]
  split
  · omega
  · split
    · omega
    · split <;> omega

/-- Rounding keeps the order. -/
theorem nearestEven_mono (h : q ≤ r) : nearestEven q ≤ nearestEven r := by
  have hq := floor_le_nearestEven q
  have hr := floor_le_nearestEven r
  rcases (Int.floor_mono h).lt_or_eq with hlt | heq
  · omega
  · have hfract : q - ⌊q⌋ ≤ r - ⌊r⌋ := by
      rw [heq]
      linarith
    rcases lt_trichotomy (q - ⌊q⌋) (1 / 2) with hlow | hhalf | hhigh
    · have : nearestEven q = ⌊q⌋ := if_pos hlow
      omega
    · rcases hhalf.symm.le.trans hfract |>.lt_or_eq with hhigh | hhalf'
      · have : nearestEven r = ⌊r⌋ + 1 := by rw [nearestEven, if_neg (by linarith), if_pos hhigh]
        omega
      · rw [nearestEven, nearestEven, hhalf, ← hhalf', heq]
    · have : nearestEven r = ⌊r⌋ + 1 := by
        rw [nearestEven, if_neg (by linarith), if_pos (by linarith)]
      omega

theorem nearestEven_nonneg (h : 0 ≤ q) : 0 ≤ nearestEven q := by
  have := nearestEven_mono h
  rwa [← Int.cast_zero, nearestEven_intCast] at this

/-! ## Floating point -/

/-- The exponent of the last place of a number, for a precision and a least exponent. -/
def floatExponent (p : ℕ) (emin : ℤ) (q : ℚ) : ℤ := max (Int.log 2 q - (p - 1)) emin

/-- The floating-point number nearest to a number that is not negative. -/
def floatRound (p : ℕ) (emin : ℤ) (q : ℚ) : ℚ :=
  nearestEven (q / 2 ^ floatExponent p emin q) * 2 ^ floatExponent p emin q

variable {p : ℕ} {emin : ℤ}

theorem two_zpow_pos (e : ℤ) : (0 : ℚ) < 2 ^ e := zpow_pos (by norm_num) e

/-- The error is half of the last place. -/
theorem abs_floatRound_sub_le (p : ℕ) (emin : ℤ) (q : ℚ) :
    |floatRound p emin q - q| ≤ 2 ^ floatExponent p emin q / 2 := by
  have hpos := two_zpow_pos (floatExponent p emin q)
  have hq : q = q / 2 ^ floatExponent p emin q * 2 ^ floatExponent p emin q := by field_simp
  calc |floatRound p emin q - q|
      = |(nearestEven (q / 2 ^ floatExponent p emin q) : ℚ) - q / 2 ^ floatExponent p emin q| *
          2 ^ floatExponent p emin q := by
        rw [floatRound, ← abs_of_pos hpos, ← abs_mul, abs_of_pos hpos, sub_mul, ← hq]
    _ ≤ 1 / 2 * 2 ^ floatExponent p emin q :=
        mul_le_mul_of_nonneg_right (abs_nearestEven_sub_le _) hpos.le
    _ = 2 ^ floatExponent p emin q / 2 := by ring

/-- **The relative error** of a number that is not too small. -/
theorem abs_floatRound_sub_le_mul (hq : 2 ^ (emin + (p - 1)) ≤ q) :
    |floatRound p emin q - q| ≤ q / 2 ^ p := by
  have hpos : 0 < q := (two_zpow_pos _).trans_le hq
  have hlog : emin + (p - 1) ≤ Int.log 2 q :=
    (Int.zpow_le_iff_le_log (by norm_num) hpos).mp (by exact_mod_cast hq)
  have hexp : floatExponent p emin q = Int.log 2 q - (p - 1) := max_eq_left (by omega)
  refine (abs_floatRound_sub_le p emin q).trans ?_
  have hself : (2 : ℚ) ^ Int.log 2 q ≤ q := by
    exact_mod_cast Int.zpow_log_le_self (b := 2) (by norm_num) hpos
  calc (2 : ℚ) ^ floatExponent p emin q / 2 = 2 ^ Int.log 2 q / 2 ^ p := by
        rw [hexp, zpow_sub₀ (by norm_num), zpow_sub₀ (by norm_num), zpow_natCast, zpow_one]
        field_simp
    _ ≤ q / 2 ^ p := by gcongr

@[simp] theorem floatRound_zero (p : ℕ) (emin : ℤ) : floatRound p emin 0 = 0 := by
  have := nearestEven_intCast 0
  rw [Int.cast_zero] at this
  simp [floatRound, this]

theorem floatRound_nonneg (hq : 0 ≤ q) : 0 ≤ floatRound p emin q :=
  mul_nonneg
    (by exact_mod_cast nearestEven_nonneg (div_nonneg hq (two_zpow_pos _).le))
    (two_zpow_pos _).le

/-- A power of two above the last place, in last places. -/
theorem zpow_div_floatExponent {e : ℤ} (he : floatExponent p emin q ≤ e) :
    ∃ k : ℤ, (2 : ℚ) ^ e = k * 2 ^ floatExponent p emin q := by
  obtain ⟨k, hk⟩ := Int.eq_ofNat_of_zero_le (Int.sub_nonneg_of_le he)
  refine ⟨2 ^ k, ?_⟩
  push_cast
  rw [← zpow_natCast, ← zpow_add₀ (by norm_num), ← hk, sub_add_cancel]

/-- A multiple of a power of two above the last place bounds what is rounded if it bounds the
number. -/
theorem floatRound_le {m e : ℤ} (he : floatExponent p emin q ≤ e) (h : q ≤ m * 2 ^ e) :
    floatRound p emin q ≤ m * 2 ^ e := by
  obtain ⟨k, hk⟩ := zpow_div_floatExponent he
  have hpos := two_zpow_pos (floatExponent p emin q)
  rw [hk, ← mul_assoc] at h ⊢
  have hle := nearestEven_mono ((div_le_iff₀ hpos).mpr h)
  rw [← Int.cast_mul, nearestEven_intCast] at hle
  rw [floatRound]
  refine mul_le_mul_of_nonneg_right ?_ hpos.le
  exact_mod_cast hle

theorem le_floatRound {m e : ℤ} (he : floatExponent p emin q ≤ e) (h : m * 2 ^ e ≤ q) :
    m * 2 ^ e ≤ floatRound p emin q := by
  obtain ⟨k, hk⟩ := zpow_div_floatExponent he
  have hpos := two_zpow_pos (floatExponent p emin q)
  rw [hk, ← mul_assoc] at h ⊢
  have hle := nearestEven_mono ((le_div_iff₀ hpos).mpr h)
  rw [← Int.cast_mul, nearestEven_intCast] at hle
  rw [floatRound]
  refine mul_le_mul_of_nonneg_right ?_ hpos.le
  exact_mod_cast hle

/-- A whole number that fits the precision is rounded to itself. -/
theorem floatRound_natCast {n : ℕ} (hn : n < 2 ^ p) (hmin : emin ≤ 0) :
    floatRound p emin n = n := by
  rcases Nat.eq_zero_or_pos n with rfl | hpos
  · simp
  · have hlog : Nat.log 2 n < p := Nat.log_lt_of_lt_pow hpos.ne' hn
    have hexp : floatExponent p emin (n : ℚ) ≤ 0 := by
      simp only [floatExponent, Int.log_natCast]
      omega
    have hle : floatRound p emin n ≤ (n : ℤ) * 2 ^ (0 : ℤ) := floatRound_le hexp (by simp)
    have hge : (n : ℤ) * 2 ^ (0 : ℤ) ≤ floatRound p emin n := le_floatRound hexp (by simp)
    simpa using le_antisymm hle hge

/-- A power of two is rounded to itself. -/
theorem floatRound_zpow {e : ℤ} (hp : 0 < p) (he : emin ≤ e) :
    floatRound p emin (2 ^ e) = 2 ^ e := by
  have hlog : Int.log 2 ((2 : ℚ) ^ e) = e := by
    exact_mod_cast Int.log_zpow (R := ℚ) (by norm_num : 1 < 2) e
  have hexp : floatExponent p emin (2 ^ e) ≤ e := by
    rw [floatExponent, hlog]
    omega
  have hle : floatRound p emin (2 ^ e) ≤ (1 : ℤ) * 2 ^ e := floatRound_le hexp (by simp)
  have hge : (1 : ℤ) * 2 ^ e ≤ floatRound p emin (2 ^ e) := le_floatRound hexp (by simp)
  simpa using le_antisymm hle hge

theorem floatExponent_mono (hq : 0 < q) (h : q ≤ r) :
    floatExponent p emin q ≤ floatExponent p emin r :=
  max_le_max (Int.sub_le_sub_right (Int.log_mono_right hq h) _) le_rfl

/-- Between the multiples of different powers of two there is a power of two. -/
theorem floatRound_le_of_exponent_lt (hq : 0 < q) (h : q ≤ r) (hp : 0 < p)
    (hlt : floatExponent p emin q < floatExponent p emin r) :
    floatRound p emin q ≤ floatRound p emin r := by
  have hexp : floatExponent p emin r = Int.log 2 r - (p - 1) := by
    have := le_max_right (Int.log 2 q - (p - 1)) emin
    simp only [floatExponent] at *
    omega
  have hlog : Int.log 2 q + 1 ≤ Int.log 2 r := by
    have := le_max_left (Int.log 2 q - (p - 1)) emin
    simp only [floatExponent] at *
    omega
  have hbelow : q ≤ ((1 : ℤ) : ℚ) * 2 ^ Int.log 2 r := by
    have hself : q < 2 ^ (Int.log 2 q + 1) := by
      exact_mod_cast Int.lt_zpow_succ_log_self (b := 2) (by norm_num) q
    rw [Int.cast_one, one_mul]
    exact hself.le.trans (zpow_le_zpow_right₀ (by norm_num) hlog)
  have habove : ((1 : ℤ) : ℚ) * 2 ^ Int.log 2 r ≤ r := by
    rw [Int.cast_one, one_mul]
    exact_mod_cast Int.zpow_log_le_self (b := 2) (by norm_num) (hq.trans_le h)
  exact (floatRound_le (by omega) hbelow).trans (le_floatRound (by omega) habove)

/-- **Rounding keeps the order.** -/
theorem floatRound_mono (hp : 0 < p) (hq : 0 ≤ q) (h : q ≤ r) :
    floatRound p emin q ≤ floatRound p emin r := by
  rcases hq.eq_or_lt with rfl | hpos
  · rw [floatRound_zero]
    exact floatRound_nonneg h
  · have hexp : floatExponent p emin q ≤ floatExponent p emin r := floatExponent_mono hpos h
    rcases hexp.eq_or_lt with heq | hlt
    · have hexp := two_zpow_pos (floatExponent p emin r)
      have hle : nearestEven (q / 2 ^ floatExponent p emin r) ≤
          nearestEven (r / 2 ^ floatExponent p emin r) :=
        nearestEven_mono (div_le_div_of_nonneg_right h hexp.le)
      rw [floatRound, floatRound, heq]
      exact mul_le_mul_of_nonneg_right (by exact_mod_cast hle) hexp.le
    · exact floatRound_le_of_exponent_lt hpos h hp hlt

end HlOrderbook
