import Mathlib.Algebra.GroupWithZero.Nat
import Mathlib.Data.Nat.Log
import Mathlib.Order.Closure
import Mathlib.Tactic.Set

/-!
# Rounding to significant figures

A number is rounded up or down to a multiple of an increment that depends on its number
of digits only.  As long as the increments divide the powers of the base on either side
of the numbers they are used for, rounding up is a closure operator, across those powers
too, and rounding down is one for the reverse order.

## Main definitions

* `Increments B inc` — the increments fit the powers of the base.
* `roundUp`, `roundDown`, and the closure operators `upClosure`, `downClosure`.
-/

set_option autoImplicit false
set_option linter.unusedSectionVars false

namespace HlOrderbook

/-- The number of digits; zero has one. -/
def digitCount (B n : ℕ) : ℕ := Nat.log B n + 1

/-- Round up to a multiple of the increment for this number of digits. -/
def roundUp (B : ℕ) (inc : ℕ → ℕ) (n : ℕ) : ℕ :=
  (n + inc (digitCount B n) - 1) / inc (digitCount B n) * inc (digitCount B n)

/-- Round down to a multiple of the increment for this number of digits. -/
def roundDown (B : ℕ) (inc : ℕ → ℕ) (n : ℕ) : ℕ :=
  n / inc (digitCount B n) * inc (digitCount B n)

/-- Increments, by number of digits, that divide the powers of the base above and below
the numbers of that many digits. -/
structure Increments (B : ℕ) (inc : ℕ → ℕ) : Prop where
  base : 1 < B
  pos : ∀ k, 0 < inc k
  above : ∀ k, 0 < k → inc k ∣ B ^ k
  below : ∀ k, 0 < k → inc (k + 1) ∣ B ^ k

namespace Increments

variable {B : ℕ} {inc : ℕ → ℕ} (h : Increments B inc) {m n q : ℕ}

include h

theorem lt_pow (n : ℕ) : n < B ^ digitCount B n := Nat.lt_pow_succ_log_self h.base n

theorem pow_le (hn : n ≠ 0) : B ^ (digitCount B n - 1) ≤ n := Nat.pow_log_le_self B hn

theorem digitCount_eq {k : ℕ} (hlow : B ^ k ≤ n) (hhigh : n < B ^ (k + 1)) :
    digitCount B n = k + 1 := by
  have hn : n ≠ 0 := by
    have := Nat.pow_pos (n := k) (Nat.zero_lt_of_lt h.base)
    omega
  rw [digitCount, (Nat.log_eq_iff (Or.inr ⟨h.base, hn⟩)).mpr ⟨hlow, hhigh⟩]

theorem digitCount_mono (hmn : m ≤ n) : digitCount B m ≤ digitCount B n :=
  Nat.succ_le_succ (Nat.log_mono_right hmn)

/-! ### One number -/

theorem le_roundUp (n : ℕ) : n ≤ roundUp B inc n := by
  have hpos := h.pos (digitCount B n)
  have := Nat.div_add_mod (n + inc (digitCount B n) - 1) (inc (digitCount B n))
  have hmod := Nat.mod_lt (n + inc (digitCount B n) - 1) hpos
  rw [roundUp, Nat.mul_comm]
  omega

theorem roundUp_le (hdvd : inc (digitCount B n) ∣ q) (hn : n ≤ q) : roundUp B inc n ≤ q := by
  obtain ⟨c, rfl⟩ := hdvd
  have hpos := h.pos (digitCount B n)
  rw [roundUp, Nat.mul_comm (inc _) c]
  refine Nat.mul_le_mul_right _ (Nat.lt_succ_iff.mp ?_)
  rw [Nat.div_lt_iff_lt_mul hpos, Nat.succ_mul, Nat.mul_comm]
  omega

theorem roundDown_le (n : ℕ) : roundDown B inc n ≤ n := Nat.div_mul_le_self _ _

theorem le_roundDown (hdvd : inc (digitCount B n) ∣ q) (hn : q ≤ n) : q ≤ roundDown B inc n := by
  obtain ⟨c, rfl⟩ := hdvd
  rw [roundDown, Nat.mul_comm]
  refine Nat.mul_le_mul_right _ ?_
  rw [Nat.le_div_iff_mul_le (h.pos _), Nat.mul_comm]
  exact hn

omit h in
theorem dvd_roundUp (n : ℕ) : inc (digitCount B n) ∣ roundUp B inc n := Nat.dvd_mul_left _ _

omit h in
theorem dvd_roundDown (n : ℕ) : inc (digitCount B n) ∣ roundDown B inc n := Nat.dvd_mul_left _ _

/-- Rounding up adds less than an increment. -/
theorem roundUp_lt (n : ℕ) : roundUp B inc n < n + inc (digitCount B n) := by
  have hpos := h.pos (digitCount B n)
  have := Nat.div_mul_le_self (n + inc (digitCount B n) - 1) (inc (digitCount B n))
  rw [roundUp]
  omega

/-- Rounding down takes less than an increment away. -/
theorem lt_roundDown_add (n : ℕ) : n < roundDown B inc n + inc (digitCount B n) := by
  have hmod := Nat.mod_lt n (h.pos (digitCount B n))
  have := Nat.div_add_mod' n (inc (digitCount B n))
  rw [roundDown]
  omega

/-- A number rounds up to no more than a limit exactly up to the last multiple of its
increment under the limit. -/
theorem roundUp_le_iff (n limit : ℕ) :
    roundUp B inc n ≤ limit ↔
      n ≤ limit / inc (digitCount B n) * inc (digitCount B n) := by
  constructor
  · intro hle
    obtain ⟨c, hc⟩ : inc (digitCount B n) ∣ roundUp B inc n := dvd_roundUp n
    have hn := h.le_roundUp n
    rw [hc, Nat.mul_comm] at hle hn
    have := (Nat.le_div_iff_mul_le (h.pos (digitCount B n))).mpr hle
    exact hn.trans (Nat.mul_le_mul_right _ this)
  · intro hle
    exact (h.roundUp_le (Nat.dvd_mul_left _ _) hle).trans (Nat.div_mul_le_self _ _)

/-- A number rounds up to no more than the next power of the base. -/
theorem roundUp_le_pow (n : ℕ) : roundUp B inc n ≤ B ^ digitCount B n :=
  h.roundUp_le (h.above _ (Nat.succ_pos _)) (h.lt_pow n).le

/-- A number of more than one digit rounds down to no less than the last power. -/
theorem pow_le_roundDown (hk : 1 < digitCount B n) :
    B ^ (digitCount B n - 1) ≤ roundDown B inc n := by
  have hn : n ≠ 0 := by
    rintro rfl
    rw [digitCount, Nat.log_zero_right] at hk
    omega
  have hbelow := h.below (digitCount B n - 1) (by omega)
  rw [Nat.sub_add_cancel hk.le] at hbelow
  exact h.le_roundDown hbelow (h.pow_le hn)

/-! ### Closure -/

/-- **A number rounded up is a multiple of its own increment**, also when it has one
digit more than before. -/
theorem dvd_roundUp_self (n : ℕ) :
    inc (digitCount B (roundUp B inc n)) ∣ roundUp B inc n := by
  set k := digitCount B n with hk
  have hle : roundUp B inc n ≤ B ^ k := h.roundUp_le_pow n
  rcases Nat.lt_or_eq_of_le hle with hlt | heq
  · have hsame : digitCount B (roundUp B inc n) = k := by
      refine Nat.le_antisymm ?_ (h.digitCount_mono (h.le_roundUp n))
      rw [digitCount, Nat.succ_le_iff]
      exact Nat.log_lt_of_lt_pow' (by rw [hk, digitCount]; omega) hlt
    rw [hsame]
    exact dvd_roundUp n
  · rw [heq, h.digitCount_eq (le_refl _) (Nat.pow_lt_pow_right h.base (Nat.lt_succ_self k))]
    exact h.below k (Nat.succ_pos _)

/-- **A number rounded down is a multiple of its own increment.** -/
theorem dvd_roundDown_self (n : ℕ) :
    inc (digitCount B (roundDown B inc n)) ∣ roundDown B inc n := by
  have hsame : digitCount B (roundDown B inc n) = digitCount B n := by
    refine Nat.le_antisymm (h.digitCount_mono (h.roundDown_le n)) ?_
    by_cases hk : 1 < digitCount B n
    · have := h.pow_le_roundDown hk
      have hlog := Nat.le_log_of_pow_le h.base this
      rw [digitCount] at hlog ⊢
      rw [digitCount]
      omega
    · rw [digitCount, digitCount] at *
      omega
  rw [hsame]
  exact dvd_roundDown n

theorem roundUp_mono (hmn : m ≤ n) : roundUp B inc m ≤ roundUp B inc n := by
  rcases Nat.lt_or_eq_of_le (h.digitCount_mono hmn) with hlt | heq
  · have hn : n ≠ 0 := by
      rintro rfl
      rw [Nat.le_zero.mp hmn] at hlt
      exact Nat.lt_irrefl _ hlt
    calc roundUp B inc m ≤ B ^ digitCount B m := h.roundUp_le_pow m
      _ ≤ B ^ (digitCount B n - 1) := Nat.pow_le_pow_right (Nat.zero_lt_of_lt h.base) (by omega)
      _ ≤ n := h.pow_le hn
      _ ≤ roundUp B inc n := h.le_roundUp n
  · exact h.roundUp_le (heq ▸ dvd_roundUp n) (hmn.trans (h.le_roundUp n))

theorem roundDown_mono (hmn : m ≤ n) : roundDown B inc m ≤ roundDown B inc n := by
  rcases Nat.lt_or_eq_of_le (h.digitCount_mono hmn) with hlt | heq
  · have hk : 1 < digitCount B n := by
      have : 0 < digitCount B m := Nat.succ_pos _
      omega
    calc roundDown B inc m ≤ m := h.roundDown_le m
      _ ≤ B ^ digitCount B m := (h.lt_pow m).le
      _ ≤ B ^ (digitCount B n - 1) := Nat.pow_le_pow_right (Nat.zero_lt_of_lt h.base) (by omega)
      _ ≤ roundDown B inc n := h.pow_le_roundDown hk
  · exact h.le_roundDown (heq ▸ dvd_roundDown m) ((h.roundDown_le m).trans hmn)

end Increments

/-- **Rounding up is a closure operator.** -/
def upClosure {B : ℕ} {inc : ℕ → ℕ} (h : Increments B inc) : ClosureOperator ℕ where
  toFun := roundUp B inc
  monotone' := fun _ _ hmn => h.roundUp_mono hmn
  le_closure' := h.le_roundUp
  idempotent' := fun n =>
    Nat.le_antisymm (h.roundUp_le (h.dvd_roundUp_self n) (le_refl _)) (h.le_roundUp _)

/-- **Rounding down is a closure operator for the reverse order.** -/
def downClosure {B : ℕ} {inc : ℕ → ℕ} (h : Increments B inc) : ClosureOperator ℕᵒᵈ where
  toFun n := OrderDual.toDual (roundDown B inc (OrderDual.ofDual n))
  monotone' := fun _ _ hmn => h.roundDown_mono hmn
  le_closure' := fun n => h.roundDown_le (OrderDual.ofDual n)
  idempotent' := fun n => congrArg OrderDual.toDual (Nat.le_antisymm (h.roundDown_le _)
    (h.le_roundDown (h.dvd_roundDown_self (OrderDual.ofDual n)) (le_refl _)))

end HlOrderbook
