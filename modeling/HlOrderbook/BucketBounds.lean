import HlOrderbook.Buckets

/-!
# The bucket of one price

Rounding moves a price away from the spread by less than an increment.  On the bid side
it always stays within a `u64`; on the ask side it does so up to the last multiple of the
increment that a `u64` holds, and wraps around above it.

## Main definitions

* `OnItsSide` — a price is bucketed without overflow, away from the spread, and by less
  than an increment.
* `topPrice` — the last multiple of the coarsest increment within a `u64`.
-/

set_option autoImplicit false
set_option linter.unusedSectionVars false

namespace HlOrderbook

variable [FixedPoint]

/-- The step between the buckets of prices with as many digits as this one. -/
def increment (px : ℕ) (nSigFigs mantissa : Option ℕ) : ℕ :=
  match nSigFigs with
  | none => 1
  | some n => mantissa.getD 1 * 10 ^ (FixedPoint.numDigits px - n)

/-- The bucket of a price is computed without overflow and lies on the price's side of
the book, less than an increment away from it. -/
structure OnItsSide (px : ℕ) (side : Side) (nSigFigs mantissa : Option ℕ) : Prop where
  fits : BucketFits px side nSigFigs mantissa
  away : match side with
    | .ask => px ≤ bucket px .ask nSigFigs mantissa ∧
        bucket px .ask nSigFigs mantissa < px + increment px nSigFigs mantissa
    | .bid => bucket px .bid nSigFigs mantissa ≤ px ∧
        px < bucket px .bid nSigFigs mantissa + increment px nSigFigs mantissa

/-- The last multiple within a `u64` of the increment for prices of twenty digits. -/
def topPrice (n m : ℕ) : ℕ :=
  u64Max / (m * 10 ^ (20 - n)) * (m * 10 ^ (20 - n))

/-! ## Accepted increments -/

section Accepted

variable {n m k : ℕ}

/-- A `u64` has twenty digits at most. -/
theorem digitCount_le_twenty {px : ℕ} (hpx : px ≤ u64Max) : digitCount 10 px ≤ 20 := by
  have hlog : Nat.log 10 px ≤ Nat.log 10 u64Max := Nat.log_mono_right hpx
  have hmax : Nat.log 10 u64Max = 19 := by
    rw [Nat.log_eq_iff (Or.inr ⟨by decide, by decide⟩)]
    decide
  rw [digitCount]
  omega

theorem increment_dvd_pow (hn : 2 ≤ n) (hm : m ∣ 10) (hk : k ≤ 20) :
    m * 10 ^ (k - n) ∣ 10 ^ 19 := by
  have hpow : 10 ^ (k - n) ∣ 10 ^ 18 := Nat.pow_dvd_pow 10 (by omega)
  have := Nat.mul_dvd_mul hm hpow
  rwa [← Nat.pow_succ'] at this

theorem increment_le (hn : 2 ≤ n) (hm : m ∣ 10) (hk : k ≤ 20) : m * 10 ^ (k - n) ≤ u64Max := by
  have := Nat.le_of_dvd (by decide) (increment_dvd_pow hn hm hk)
  exact this.trans (by decide)

/-- The first price of twenty digits is not above the top price. -/
theorem pow_le_topPrice (hn : 2 ≤ n) (hm : m ∣ 10) : 10 ^ 19 ≤ topPrice n m := by
  obtain ⟨c, hc⟩ := increment_dvd_pow hn hm (le_refl 20)
  have hpos : 0 < m * 10 ^ (20 - n) := by
    refine Nat.pos_of_ne_zero fun h => ?_
    rw [h, Nat.zero_mul] at hc
    exact absurd hc (by decide)
  rw [topPrice, hc, Nat.mul_comm]
  refine Nat.mul_le_mul_right _ ((Nat.le_div_iff_mul_le hpos).mpr ?_)
  rw [Nat.mul_comm, ← hc]
  decide

/-- **An ask rounds up within a `u64` exactly up to the top price.** -/
theorem roundUp_fits_iff (hn : 2 ≤ n) (hm : m ∣ 10) {px : ℕ} (hpx : px ≤ u64Max) :
    roundUp 10 (fun k => m * 10 ^ (k - n)) px ≤ u64Max ↔ px ≤ topPrice n m := by
  have hinc := increments_of_accepted hn hm
  have hdigits := digitCount_le_twenty hpx
  rcases Nat.lt_or_eq_of_le hdigits with hfewer | htwenty
  · have hpow : 10 ^ digitCount 10 px ≤ 10 ^ 19 := Nat.pow_le_pow_right (by decide) (by omega)
    have hup := (hinc.roundUp_le_pow px).trans hpow
    have htop := pow_le_topPrice hn hm
    have hlt := (hinc.le_roundUp px).trans hup
    exact iff_of_true (hup.trans (by decide)) (hlt.trans htop)
  · rw [hinc.roundUp_le_iff, htwenty, topPrice]

end Accepted

/-! ## Bucketing -/

theorem increment_some (hdigits : ∀ px, FixedPoint.numDigits px = (Nat.toDigits 10 px).length)
    (px n : ℕ) (mantissa : Option ℕ) :
    increment px (some n) mantissa = mantissa.getD 1 * 10 ^ (digitCount 10 px - n) := by
  rw [increment, hdigits, length_toDigits]

/-- The products fit for accepted parameters, the rounded ask apart. -/
theorem bucketFits_iff (hdigits : ∀ px, FixedPoint.numDigits px = (Nat.toDigits 10 px).length)
    {n : ℕ} {mantissa : Option ℕ} (hn : 2 ≤ n) (hm : mantissa.getD 1 ∣ 10) {px : ℕ}
    (hpx : px ≤ u64Max) (side : Side) :
    BucketFits px side (some n) mantissa ↔ side = .bid ∨ px ≤ topPrice n (mantissa.getD 1) := by
  have hle := increment_le hn hm (digitCount_le_twenty hpx)
  cases side with
  | ask =>
    simp only [BucketFits, hdigits, length_toDigits]
    exact ⟨fun h => Or.inr ((roundUp_fits_iff hn hm hpx).mp h.2),
      fun h => ⟨hle, (roundUp_fits_iff hn hm hpx).mpr (h.resolve_left (by decide))⟩⟩
  | bid =>
    simp only [BucketFits, hdigits, length_toDigits]
    exact iff_of_true ⟨hle, (Nat.div_mul_le_self _ _).trans hpx⟩ (Or.inl trivial)

/-- A bucket that fits is on its side of the price. -/
theorem onItsSide_of_fits
    (hdigits : ∀ px, FixedPoint.numDigits px = (Nat.toDigits 10 px).length)
    {n : ℕ} {mantissa : Option ℕ} (hn : 2 ≤ n) (hm : mantissa.getD 1 ∣ 10) {px : ℕ}
    {side : Side} (hfits : BucketFits px side (some n) mantissa) :
    OnItsSide px side (some n) mantissa := by
  have hinc := increments_of_accepted hn hm
  have hbucket := bucket_eq hdigits (Nat.pos_of_dvd_of_pos hm (by decide)) hfits
  refine ⟨hfits, ?_⟩
  cases side with
  | ask =>
    simp only at hbucket ⊢
    rw [hbucket, increment_some hdigits]
    exact ⟨hinc.le_roundUp px, hinc.roundUp_lt px⟩
  | bid =>
    simp only at hbucket ⊢
    rw [hbucket, increment_some hdigits]
    exact ⟨hinc.roundDown_le px, hinc.lt_roundDown_add px⟩

/-- A price that is not aggregated is its own bucket. -/
theorem onItsSide_none (px : ℕ) (side : Side) (mantissa : Option ℕ) :
    OnItsSide px side none mantissa := by
  refine ⟨trivial, ?_⟩
  cases side with
  | ask => exact ⟨le_refl px, Nat.lt_succ_self px⟩
  | bid => exact ⟨le_refl px, Nat.lt_succ_self px⟩

/-- **A price is bucketed on its side and in range exactly when it is a bid, is not
aggregated, or is no higher than the last multiple of its increment within a `u64`.** -/
theorem onItsSide_iff (hdigits : ∀ px, FixedPoint.numDigits px = (Nat.toDigits 10 px).length)
    {s : L2Subscription} {univ : Std.ExtTreeSet Coin} (hvalid : s.validate univ = true)
    {px : ℕ} (hpx : px ≤ u64Max) (side : Side) :
    OnItsSide px side s.nSigFigs s.mantissa ↔
      side = .bid ∨ ∀ n, s.nSigFigs = some n → px ≤ topPrice n (s.mantissa.getD 1) := by
  have haccepted := L2Subscription.digits_of_validate hvalid
  cases hn : s.nSigFigs with
  | none => exact iff_of_true (onItsSide_none px side s.mantissa) (Or.inr fun n h => nomatch h)
  | some n =>
    have hdigitsOf := haccepted n hn
    have hfits := bucketFits_iff hdigits hdigitsOf.1 hdigitsOf.2 hpx side
    constructor
    · intro h
      refine (hfits.mp h.fits).imp_right fun hle n' hn' => ?_
      rwa [Option.some.inj hn'] at hle
    · intro h
      exact onItsSide_of_fits hdigits hdigitsOf.1 hdigitsOf.2
        (hfits.mpr (h.imp_right fun hle => hle n rfl))

end HlOrderbook

namespace HlOrderbook

section Example

attribute [local instance] FixedPoint.decimal

/-- Two figures, and a price just below ten billion billion. -/
theorem onItsSide_belowPower :
    OnItsSide 9999999999999999999 .ask (some 2) none ∧
      bucket 9999999999999999999 .ask (some 2) none = 10000000000000000000 := by
  have hvalid : (L2Subscription.mk "BTC" (some 2) none none).validate
      ((∅ : Std.ExtTreeSet Coin).insert "BTC") = true := by decide +kernel
  refine ⟨(onItsSide_iff (fun _ => rfl) hvalid (by decide) .ask).mpr (Or.inr ?_),
    by decide +kernel⟩
  intro n hn
  rw [← Option.some.inj hn]
  decide

/-- The highest price wraps around: its ask bucket at five figures is far below it. -/
theorem not_onItsSide_highest :
    (L2Subscription.mk "BTC" (some 5) none none).validate
      ((∅ : Std.ExtTreeSet Coin).insert "BTC") = true ∧
    bucket u64Max .ask (some 5) none = 255926290448384 ∧
    ¬ OnItsSide u64Max .ask (some 5) none := by
  have hbucket : bucket u64Max .ask (some 5) none = 255926290448384 := by decide +kernel
  refine ⟨by decide +kernel, hbucket, fun h => ?_⟩
  have haway := h.away.1
  rw [hbucket] at haway
  exact absurd haway (by decide)

end Example

end HlOrderbook
