import HlOrderbook.Lib.NearestEven
import HlOrderbook.Types
import Mathlib.Data.List.DropRight

/-!
# Numbers as the code reads and prints them

Prices and sizes travel as decimal texts and are kept as whole numbers of 10⁻⁸.  On the way in
and out they pass through double precision: a text is rounded, multiplied, rounded again and
rounded to a whole number; a price is divided, rounded and printed to eight places.

## Main definitions

* `F64` — a double: a sign and a magnitude, an infinity, or not a number.
* `F64.parse`, `numeralValue` — what a text is read as, and the number that it stands for.
* `parseFixedPoint`, `pxToStr`, `FixedPoint.float` — the source's conversions.

## Main results

* `float_exact` — below 2⁵¹ units nothing is lost, in either direction or both.
* `parseFixedPoint_le` — reading keeps the order of the numbers, whatever their texts.
-/

set_option autoImplicit false
set_option linter.unusedSectionVars false

namespace HlOrderbook

/-! ## Doubles -/

/-- A double, with the magnitude as the number it is. -/
inductive F64
  | finite (neg : Bool) (x : ℚ)
  | inf (neg : Bool)
  | nan
  deriving DecidableEq

/-- The magnitude that a number is rounded to. -/
abbrev f64Round (q : ℚ) : ℚ := floatRound 53 (-1074) q

namespace F64

/-- The double nearest to a number; from 2¹⁰²⁴ on it is infinite. -/
def round (neg : Bool) (q : ℚ) : F64 :=
  if f64Round q < 2 ^ 1024 then .finite neg (f64Round q) else .inf neg

def isFinite : F64 → Bool
  | .finite _ _ => true
  | _ => false

/-- Below zero; minus zero is not. -/
def isNegative : F64 → Bool
  | .finite neg x => neg && decide (0 < x)
  | .inf neg => neg
  | .nan => false

/-- Times `MULTIPLIER`. -/
def scale : F64 → F64
  | .finite neg x => round neg (x * 10 ^ 8)
  | x => x

/-- The nearest whole number, away from zero if there are two. -/
def toInteger : F64 → F64
  | .finite neg x => .finite neg ⌊x + 1 / 2⌋
  | x => x

/-- Above 2⁶⁴, which is what the largest whole number of 64 bits is as a double. -/
def aboveU64 : F64 → Bool
  | .finite neg x => !neg && decide (2 ^ 64 < x)
  | .inf neg => !neg
  | .nan => false

/-- As a whole number of 64 bits, the nearest one that there is. -/
def toU64 : F64 → ℕ
  | .finite neg x => if neg then 0 else min ⌊x⌋.toNat (2 ^ 64 - 1)
  | .inf neg => if neg then 0 else 2 ^ 64 - 1
  | .nan => 0

end F64

/-! ## Reading -/

/-- Take a sign off the front. -/
def readSign : List Char → Bool × List Char
  | '-' :: cs => (true, cs)
  | '+' :: cs => (false, cs)
  | cs => (false, cs)

/-- The exponent at the end of a numeral, if there is one. -/
def readExponent : List Char → Option ℤ
  | [] => some 0
  | c :: cs =>
    let (neg, digits) := readSign cs
    if c.toLower = 'e' ∧ digits ≠ [] ∧ digits.all Char.isDigit then
      let n : ℤ := Nat.ofDigitChars 10 digits 0
      some (if neg then -n else n)
    else none

/-- A numeral without its sign: digits with at most one point among them, then an exponent. -/
def readNumber (cs : List Char) : Option ℚ :=
  let whole := cs.takeWhile Char.isDigit
  let rest := cs.dropWhile Char.isDigit
  let frac := if rest.head? = some '.' then rest.tail.takeWhile Char.isDigit else []
  let rest := if rest.head? = some '.' then rest.tail.dropWhile Char.isDigit else rest
  if whole ++ frac = [] then none
  else (readExponent rest).map fun (e : ℤ) =>
    (Nat.ofDigitChars 10 (whole ++ frac) 0 : ℚ) * 10 ^ (e - (frac.length : ℤ))

/-- The number that a numeral stands for. -/
def numeralValue (value : String) : Option ℚ :=
  let (neg, cs) := readSign value.toList
  (readNumber cs).map fun q => if neg then -q else q

/-- The double that a text is read as. -/
def F64.parse (value : String) : Except String F64 :=
  if value.isEmpty then .error "cannot parse float from empty string"
  else
    let (neg, cs) := readSign value.toList
    match readNumber cs with
    | some q => .ok (F64.round neg q)
    | none =>
      let word := String.ofList (cs.map Char.toLower)
      if word = "inf" ∨ word = "infinity" then .ok (.inf neg)
      else if word = "nan" then .ok .nan
      else .error "invalid float literal"

/-- A price or a size from its text. -/
def parseFixedPoint (value : String) : Except String ℕ := do
  let parsed ← F64.parse value
  if !parsed.isFinite then throw ("non-finite numeric input: " ++ value)
  if parsed.isNegative then throw ("negative numeric input: " ++ value)
  let scaled := parsed.scale.toInteger
  if scaled.aboveU64 then throw ("numeric input overflows u64: " ++ value)
  return scaled.toU64

/-! ## Printing -/

/-- A number printed to eight places after the point. -/
def fixedEight (x : ℚ) : List Char :=
  let n := (nearestEven (x * 10 ^ 8)).toNat
  Nat.toDigits 10 (n / 10 ^ 8) ++ '.' :: (Nat.toDigits 10 (10 ^ 8 + n % 10 ^ 8)).drop 1

/-- A price or a size as a text: eight places, less the zeros and the point at its end. -/
def pxToStr (v : ℕ) : String :=
  let s := fixedEight (f64Round (f64Round v / 10 ^ 8))
  String.ofList ((s.rdropWhile (· = '0')).rdropWhile (· = '.'))

/-! ## Plain decimals -/

section Plain

open FixedPoint (readDecimal decimal)

variable {cs whole frac : List Char} {acc k n : ℕ}

theorem isDigit_ne_point {c : Char} (h : c.isDigit) : c ≠ '.' := by
  rintro rfl
  exact absurd h (by decide)

/-- What stands after the point of a plain decimal. -/
theorem readDecimal_frac (h : readDecimal cs acc (some k) = some n) :
    (∀ c ∈ cs, c.isDigit) ∧ k + cs.length ≤ 8 ∧
      n = Nat.ofDigitChars 10 cs acc * 10 ^ (8 - (k + cs.length)) := by
  induction cs generalizing acc k with
  | nil =>
    simp only [readDecimal, Option.ite_none_right_eq_some, Option.some.injEq] at h
    simp [h.1, h.2]
  | cons c cs ih =>
    simp only [readDecimal, Option.isNone_some, Bool.false_eq_true, if_false,
      Option.map_some] at h
    by_cases hpoint : c = '.'
    · simp [hpoint] at h
    by_cases hdigit : c.isDigit
    · rw [if_neg hpoint, if_pos hdigit] at h
      obtain ⟨hdigits, hlen, hn⟩ := ih h
      refine ⟨List.forall_mem_cons.mpr ⟨hdigit, hdigits⟩, by simp; omega, ?_⟩
      rw [hn, Nat.ofDigitChars_cons, Nat.mul_comm acc, List.length_cons, Nat.add_right_comm]
      rfl
    · rw [if_neg hpoint, if_neg hdigit] at h
      cases h

/-- A plain decimal: digits, or digits with a point among them and at most eight after it. -/
theorem readDecimal_whole (h : readDecimal cs acc none = some n) :
    ∃ whole frac, (cs = whole ∧ frac = [] ∨ cs = whole ++ '.' :: frac) ∧
      (∀ c ∈ whole, c.isDigit) ∧ (∀ c ∈ frac, c.isDigit) ∧ frac.length ≤ 8 ∧
      n = Nat.ofDigitChars 10 (whole ++ frac) acc * 10 ^ (8 - frac.length) := by
  induction cs generalizing acc with
  | nil =>
    simp only [readDecimal, Option.some.injEq] at h
    exact ⟨[], [], by simp [← h]⟩
  | cons c cs ih =>
    simp only [readDecimal, Option.isNone_none, if_true, Option.map_none] at h
    by_cases hpoint : c = '.'
    · rw [if_pos hpoint] at h
      obtain ⟨hdigits, hlen, hn⟩ := readDecimal_frac h
      exact ⟨[], cs, by simpa [hpoint, hn] using ⟨hdigits, by omega⟩⟩
    by_cases hdigit : c.isDigit
    · rw [if_neg hpoint, if_pos hdigit] at h
      obtain ⟨whole, frac, hcs, hwhole, hfrac, hlen, hn⟩ := ih h
      refine ⟨c :: whole, frac, ?_, List.forall_mem_cons.mpr ⟨hdigit, hwhole⟩, hfrac, hlen, ?_⟩
      · simpa using hcs
      · rw [hn, List.cons_append, Nat.ofDigitChars_cons, Nat.mul_comm acc]
        rfl
    · rw [if_neg hpoint, if_neg hdigit] at h
      cases h

theorem takeWhile_digits (rest : List Char) (hcs : ∀ c ∈ cs, c.isDigit)
    (hrest : rest.takeWhile Char.isDigit = []) :
    (cs ++ rest).takeWhile Char.isDigit = cs ∧ (cs ++ rest).dropWhile Char.isDigit = rest := by
  have hdrop := List.takeWhile_append_dropWhile (p := Char.isDigit) (l := rest)
  rw [hrest, List.nil_append] at hdrop
  rw [List.takeWhile_append_of_pos hcs, List.dropWhile_append_of_pos hcs, hrest, hdrop]
  simp

/-- The number that digits with a point among them stand for. -/
theorem readNumber_digits (hcs : cs = whole ∧ frac = [] ∨ cs = whole ++ '.' :: frac)
    (hwhole : ∀ c ∈ whole, c.isDigit) (hfrac : ∀ c ∈ frac, c.isDigit)
    (hne : whole ++ frac ≠ []) :
    readNumber cs = some
      ((Nat.ofDigitChars 10 (whole ++ frac) 0 : ℚ) * 10 ^ (-(frac.length : ℤ))) := by
  have hall : frac.takeWhile Char.isDigit = frac ∧ frac.dropWhile Char.isDigit = [] := by
    simpa using takeWhile_digits [] hfrac rfl
  rcases hcs with ⟨rfl, rfl⟩ | rfl
  · obtain ⟨htake, hdrop⟩ := takeWhile_digits [] hwhole rfl
    simp only [List.append_nil] at htake hdrop hne
    simp [readNumber, htake, hdrop, hne, readExponent]
  · obtain ⟨htake, hdrop⟩ := takeWhile_digits ('.' :: frac) hwhole rfl
    simp only [readNumber, htake, hdrop, List.head?_cons, if_true, List.tail_cons, hall, if_neg hne]
    simp [readExponent]

theorem readSign_digits (hcs : cs = whole ∧ frac = [] ∨ cs = whole ++ '.' :: frac)
    (hwhole : ∀ c ∈ whole, c.isDigit) : readSign cs = (false, cs) := by
  cases hw : whole with
  | nil =>
    rcases hcs with ⟨rfl, -⟩ | rfl
    · rw [hw]
      rfl
    · rw [hw]
      rfl
  | cons c whole' =>
    have hdigit : c.isDigit := hwhole c (by simp [hw])
    have hcons : ∃ cs', cs = c :: cs' := by
      rcases hcs with ⟨rfl, -⟩ | rfl
      · exact ⟨whole', hw⟩
      · exact ⟨whole' ++ '.' :: frac, by simp [hw]⟩
    obtain ⟨cs', rfl⟩ := hcons
    unfold readSign
    split
    · next heq => simp [(List.cons.inj heq).1] at hdigit
    · next heq => simp [(List.cons.inj heq).1] at hdigit
    · rfl

/-- A plain decimal is read as the number that it stands for. -/
theorem numeral_of_decimal {s : String} (h : decimal.parse s = some n) (hpoint : s ≠ ".") :
    readSign s.toList = (false, s.toList) ∧
      readNumber s.toList = some ((n : ℚ) / 10 ^ 8) := by
  have hread : (if s.isEmpty then none else readDecimal s.toList 0 none) = some n := h
  obtain ⟨hempty, hread⟩ := Option.ite_none_left_eq_some.mp hread
  obtain ⟨whole, frac, hcs, hwhole, hfrac, hlen, hn⟩ := readDecimal_whole hread
  have hne : whole ++ frac ≠ [] := by
    intro hnil
    obtain ⟨rfl, rfl⟩ := List.append_eq_nil_iff.mp hnil
    rcases hcs with ⟨hcs, -⟩ | hcs
    · exact hempty (by simpa using hcs)
    · exact hpoint (String.toList_inj.mp hcs)
  refine ⟨readSign_digits hcs hwhole, ?_⟩
  rw [readNumber_digits hcs hwhole hfrac hne, hn]
  have hpow : (10 : ℚ) ^ 8 = 10 ^ frac.length * 10 ^ (8 - frac.length) := by
    rw [← pow_add, Nat.add_sub_cancel' hlen]
  rw [hpow, zpow_neg, zpow_natCast]
  push_cast
  field_simp

end Plain

/-! ## What reading comes to -/

section Reading

variable {q r : ℚ} {neg : Bool} {value : String} {cs : List Char} {n : ℕ}

/-- The whole number that a number is read as, if it is neither negative nor too large. -/
def unitsOf (q : ℚ) : ℤ := ⌊f64Round (f64Round q * 10 ^ 8) + 1 / 2⌋

theorem f64Round_nonneg (hq : 0 ≤ q) : 0 ≤ f64Round q := floatRound_nonneg hq

theorem f64Round_mono (hq : 0 ≤ q) (h : q ≤ r) : f64Round q ≤ f64Round r :=
  floatRound_mono (by norm_num) hq h

theorem unitsOf_eq_zero (h : f64Round q = 0) : unitsOf q = 0 := by
  norm_num [unitsOf, h, f64Round]

/-- Reading keeps the order. -/
theorem unitsOf_mono (hq : 0 ≤ q) (h : q ≤ r) : unitsOf q ≤ unitsOf r := by
  have hmul : f64Round q * 10 ^ 8 ≤ f64Round r * 10 ^ 8 :=
    mul_le_mul_of_nonneg_right (f64Round_mono hq h) (by norm_num)
  have hnonneg : 0 ≤ f64Round q * 10 ^ 8 := mul_nonneg (f64Round_nonneg hq) (by norm_num)
  exact Int.floor_mono (add_le_add_left (f64Round_mono hnonneg hmul) _)

theorem f64Round_two_pow : f64Round (2 ^ 1024) = 2 ^ 1024 := by
  have : f64Round (2 ^ (1024 : ℤ)) = 2 ^ (1024 : ℤ) := floatRound_zpow (by norm_num) (by norm_num)
  exact_mod_cast this

/-- What is not finite is too large. -/
theorem lt_unitsOf (hq : 0 ≤ q)
    (h : 2 ^ 1024 ≤ f64Round q ∨ 2 ^ 1024 ≤ f64Round (f64Round q * 10 ^ 8)) :
    2 ^ 64 < unitsOf q := by
  have hscaled : (2 : ℚ) ^ 1024 ≤ f64Round (f64Round q * 10 ^ 8) := by
    rcases h with h | h
    · have hmul : (2 : ℚ) ^ 1024 ≤ f64Round q * 10 ^ 8 :=
        h.trans (le_mul_of_one_le_right (f64Round_nonneg hq) (by norm_num))
      calc (2 : ℚ) ^ 1024 = f64Round (2 ^ 1024) := f64Round_two_pow.symm
        _ ≤ f64Round (f64Round q * 10 ^ 8) := f64Round_mono (by positivity) hmul
    · exact h
  have hfloor : (2 : ℤ) ^ 64 + 1 ≤ unitsOf q := by
    rw [unitsOf, Int.le_floor]
    have hlarge : (((2 : ℤ) ^ 64 + 1 : ℤ) : ℚ) ≤ 2 ^ 1024 := by
      have : (2 : ℚ) ^ 65 ≤ 2 ^ 1024 := pow_le_pow_right₀ (by norm_num) (by norm_num)
      exact le_trans (by norm_num) this
    exact (hlarge.trans hscaled).trans (le_add_of_nonneg_right (by norm_num))
  omega

theorem parse_eq_round (hsign : readSign value.toList = (neg, cs))
    (hnumber : readNumber cs = some q) : F64.parse value = .ok (F64.round neg q) := by
  have hne : ¬ value.isEmpty := by
    intro hempty
    have hnil : value.toList = [] := by simpa using hempty
    rw [hnil] at hsign
    cases hsign
    cases hnumber
  simp only [F64.parse, if_neg hne, hsign, hnumber]

theorem parseFixedPoint_of_parse {parsed : F64} (h : F64.parse value = .ok parsed) :
    parseFixedPoint value = .ok n ↔ parsed.isFinite ∧ ¬ parsed.isNegative ∧
      ¬ parsed.scale.toInteger.aboveU64 ∧ parsed.scale.toInteger.toU64 = n := by
  simp only [parseFixedPoint, h, bind, Except.bind, throw, throwThe, MonadExceptOf.throw]
  cases parsed.isFinite <;> cases parsed.isNegative <;>
    cases parsed.scale.toInteger.aboveU64 <;> simp [pure, Except.pure]

/-- What a finite double becomes once scaled. -/
theorem toInteger_scale (hfinite : f64Round (f64Round q * 10 ^ 8) < 2 ^ 1024) :
    (F64.finite neg (f64Round q)).scale.toInteger = .finite neg (unitsOf q) := by
  simp only [F64.scale, F64.round, if_pos hfinite, F64.toInteger, unitsOf]

/-- A numeral is read as a price exactly when the number, once rounded, is neither below zero nor
too large. -/
theorem parseFixedPoint_eq_ok (hsign : readSign value.toList = (neg, cs))
    (hnumber : readNumber cs = some q) (hq : 0 ≤ q) :
    parseFixedPoint value = .ok n ↔ (neg → f64Round q = 0) ∧ unitsOf q ≤ 2 ^ 64 ∧
      min (unitsOf q).toNat (2 ^ 64 - 1) = n := by
  have hlarge := lt_unitsOf hq
  rw [parseFixedPoint_of_parse (parse_eq_round hsign hnumber), F64.round]
  by_cases hparsed : f64Round q < 2 ^ 1024
  · rw [if_pos hparsed]
    by_cases hscaled : f64Round (f64Round q * 10 ^ 8) < 2 ^ 1024
    · rw [toInteger_scale hscaled]
      cases neg with
      | false =>
        have hcast : (2 : ℚ) ^ 64 < (unitsOf q : ℚ) ↔ 2 ^ 64 < unitsOf q := by
          exact_mod_cast Iff.rfl
        simp [F64.isFinite, F64.isNegative, F64.aboveU64, F64.toU64, hcast]
      | true =>
        have hnonneg := f64Round_nonneg hq
        by_cases hq0 : f64Round q = 0
        · simp [F64.isFinite, F64.isNegative, F64.aboveU64, F64.toU64, hq0, unitsOf_eq_zero hq0]
        · have hpos : 0 < f64Round q := lt_of_le_of_ne hnonneg (Ne.symm hq0)
          simp [F64.isNegative, hpos, hq0]
    · have hout := hlarge (.inr (not_lt.mp hscaled))
      have hinf : (F64.finite neg (f64Round q)).scale = .inf neg := by
        simp only [F64.scale, F64.round, if_neg hscaled]
      have hpos : 0 < f64Round q := by
        rcases (f64Round_nonneg hq).eq_or_lt with hzero | hpos
        · rw [unitsOf_eq_zero hzero.symm] at hout
          omega
        · exact hpos
      have hout' : ¬ unitsOf q ≤ 2 ^ 64 := by omega
      cases neg with
      | false =>
        simp only [hinf, F64.toInteger, F64.aboveU64, hout', Bool.not_false, not_true_eq_false,
          false_and, and_false]
      | true => simp [F64.isNegative, hpos, hpos.ne']
  · have := hlarge (.inl (not_lt.mp hparsed))
    simp only [if_neg hparsed, F64.isFinite, Bool.false_eq_true, false_and, false_iff]
    omega

theorem readNumber_nonneg (h : readNumber cs = some q) : 0 ≤ q := by
  simp only [readNumber, Option.ite_none_left_eq_some, Option.map_eq_some_iff] at h
  obtain ⟨-, e, -, rfl⟩ := h
  exact mul_nonneg (Nat.cast_nonneg _) (zpow_nonneg (by norm_num) _)

/-- The parts of a numeral. -/
theorem numeralValue_parts (h : numeralValue value = some q) :
    ∃ neg cs m, readSign value.toList = (neg, cs) ∧ readNumber cs = some m ∧ 0 ≤ m ∧
      q = if neg then -m else m := by
  simp only [numeralValue, Option.map_eq_some_iff] at h
  obtain ⟨m, hnumber, rfl⟩ := h
  exact ⟨_, _, m, rfl, hnumber, readNumber_nonneg hnumber, rfl⟩

end Reading

/-! ## What rounding loses -/

section Exact

variable {n v : ℕ} {s : String}

/-- The relative error of a double, for the numbers that occur. -/
theorem abs_f64Round_sub_le {x : ℚ} (hx : 1 / 10 ^ 9 ≤ x) : |f64Round x - x| ≤ x / 2 ^ 53 := by
  refine abs_floatRound_sub_le_mul (le_trans ?_ hx)
  calc (2 : ℚ) ^ (-1074 + ((53 : ℕ) - 1 : ℤ)) ≤ 2 ^ (-30 : ℤ) :=
        zpow_le_zpow_right₀ (by norm_num) (by norm_num)
    _ ≤ 1 / 10 ^ 9 := by norm_num

/-- A number of units, divided and rounded. -/
theorem abs_divided_sub_le (n : ℕ) :
    |f64Round ((n : ℚ) / 10 ^ 8) * 10 ^ 8 - n| ≤ (n : ℚ) / 2 ^ 53 := by
  rcases Nat.eq_zero_or_pos n with rfl | hpos
  · simp
  · have hone : (1 : ℚ) ≤ n := by exact_mod_cast hpos
    have hdiv := abs_f64Round_sub_le (x := (n : ℚ) / 10 ^ 8) (by linarith)
    rw [abs_le] at hdiv ⊢
    constructor <;> linarith [hdiv.1, hdiv.2]

/-- **Below 2⁵¹ units nothing is lost** in reading. -/
theorem unitsOf_div (hn : n < 2 ^ 51) : unitsOf ((n : ℚ) / 10 ^ 8) = n := by
  rcases Nat.eq_zero_or_pos n with rfl | hpos
  · rw [Nat.cast_zero, zero_div]
    exact unitsOf_eq_zero (floatRound_zero _ _)
  · have hone : (1 : ℚ) ≤ n := by exact_mod_cast hpos
    have hmax : (n : ℚ) + 1 ≤ 2 ^ 51 := by exact_mod_cast hn
    have hdiv := abs_divided_sub_le n
    have hmul := abs_f64Round_sub_le (x := f64Round ((n : ℚ) / 10 ^ 8) * 10 ^ 8)
      (by rw [abs_le] at hdiv; linarith [hdiv.1])
    rw [abs_le] at hdiv hmul
    rw [unitsOf, Int.floor_eq_iff]
    push_cast
    constructor <;> linarith [hdiv.1, hdiv.2, hmul.1, hmul.2]

/-- **Plain decimals below 2⁵¹ units are read exactly.** -/
theorem parseFixedPoint_eq_decimal (h : FixedPoint.decimal.parse s = some n) (hpoint : s ≠ ".")
    (hn : n < 2 ^ 51) : parseFixedPoint s = .ok n := by
  obtain ⟨hsign, hnumber⟩ := numeral_of_decimal h hpoint
  rw [parseFixedPoint_eq_ok hsign hnumber (by positivity), unitsOf_div hn]
  exact ⟨fun hneg => absurd hneg (by simp), by omega, by omega⟩

/-- What is printed of a number of units below 2⁵² is the number. -/
theorem nearestEven_divided (hv : v < 2 ^ 52) :
    nearestEven (f64Round (f64Round v / 10 ^ 8) * 10 ^ 8) = v := by
  have hround : f64Round (v : ℚ) = v := floatRound_natCast (by omega) (by norm_num)
  have hmax : (v : ℚ) + 1 ≤ 2 ^ 52 := by exact_mod_cast hv
  refine nearestEven_eq ?_
  rw [hround]
  exact (abs_divided_sub_le v).trans_lt (by linarith)

/-- No digit at the end is trimmed as a point. -/
theorem rdropWhile_point {cs : List Char} (h : ∀ c ∈ cs, c.isDigit) (xs : List Char)
    (hne : cs ≠ []) : (xs ++ cs).rdropWhile (· = '.') = xs ++ cs := by
  rw [List.rdropWhile_eq_self_iff]
  intro hne'
  rw [List.getLast_append_of_right_ne_nil _ _ hne]
  simpa using isDigit_ne_point (h _ (List.getLast_mem hne))

/-- The zeros at the end go, and the point if no digit is left after it. -/
theorem trim_fixed {whole frac : List Char} (hwhole : ∀ c ∈ whole, c.isDigit)
    (hne : whole ≠ []) (hfrac : ∀ c ∈ frac, c.isDigit) :
    ((whole ++ '.' :: frac).rdropWhile (· = '0')).rdropWhile (· = '.') =
      whole ++ if (frac.reverse.dropWhile (· = '0')).isEmpty then []
        else '.' :: (frac.reverse.dropWhile (· = '0')).reverse := by
  have hzeros : (whole ++ '.' :: frac).rdropWhile (· = '0') =
      whole ++ '.' :: (frac.reverse.dropWhile (· = '0')).reverse := by
    rw [List.rdropWhile, List.reverse_append, List.reverse_cons, List.append_assoc,
      List.dropWhile_append]
    split
    · next hnil => simp [List.isEmpty_iff.mp hnil]
    · simp
  rw [hzeros]
  split
  · next hnil =>
    rw [List.isEmpty_iff.mp hnil, List.reverse_nil, List.rdropWhile_concat_pos _ _ _ (by simp),
      List.append_nil]
    exact rdropWhile_point hwhole [] hne
  · next hsome =>
    rw [List.append_cons]
    refine rdropWhile_point (fun c hc => ?_) _ (by simpa using hsome)
    exact hfrac c (List.mem_reverse.mp
      ((List.dropWhile_sublist _).mem (List.mem_reverse.mp hc)))

theorem pxToStr_eq_decimal (hv : v < 2 ^ 52) : pxToStr v = FixedPoint.decimal.toStr v := by
  have hdigits : ∀ n, ∀ c ∈ Nat.toDigits 10 n, c.isDigit := fun n c hc =>
    Nat.isDigit_of_mem_toDigits (by norm_num) (by norm_num) hc
  have hfrac : ∀ c ∈ (Nat.toDigits 10 (10 ^ 8 + v % 10 ^ 8)).drop 1, c.isDigit :=
    fun c hc => hdigits _ c (List.mem_of_mem_drop hc)
  have hprinted : fixedEight (f64Round (f64Round v / 10 ^ 8)) =
      Nat.toDigits 10 (v / 10 ^ 8) ++
        '.' :: (Nat.toDigits 10 (10 ^ 8 + v % 10 ^ 8)).drop 1 := by
    rw [fixedEight, nearestEven_divided hv, Int.toNat_natCast]
  rw [pxToStr, hprinted, trim_fixed (hdigits _) Nat.toDigits_ne_nil hfrac]
  rfl

open FixedPoint (readDecimal decimal)

theorem readDecimal_digits {cs : List Char} (h : ∀ c ∈ cs, c.isDigit) (acc : ℕ)
    (rest : List Char) :
    readDecimal (cs ++ rest) acc none = readDecimal rest (Nat.ofDigitChars 10 cs acc) none := by
  induction cs generalizing acc with
  | nil => simp
  | cons c cs ih =>
    obtain ⟨hc, hcs⟩ := List.forall_mem_cons.mp h
    rw [List.cons_append, readDecimal, if_neg (isDigit_ne_point hc), if_pos hc, Option.map_none,
      ih hcs, Nat.ofDigitChars_cons, Nat.mul_comm acc]
    rfl

theorem readDecimal_some {cs : List Char} (h : ∀ c ∈ cs, c.isDigit) {k : ℕ} (acc : ℕ)
    (hk : k + cs.length ≤ 8) : readDecimal cs acc (some k) =
      some (Nat.ofDigitChars 10 cs acc * 10 ^ (8 - (k + cs.length))) := by
  induction cs generalizing acc k with
  | nil =>
    rw [readDecimal, if_pos (by simpa using hk)]
    simp
  | cons c cs ih =>
    obtain ⟨hc, hcs⟩ := List.forall_mem_cons.mp h
    rw [List.length_cons] at hk
    rw [readDecimal, if_neg (isDigit_ne_point hc), if_pos hc, Option.map_some,
      ih hcs _ (by omega), Nat.ofDigitChars_cons, Nat.mul_comm acc, List.length_cons,
      Nat.add_right_comm, Nat.add_assoc]
    rfl

theorem ofDigitChars_lt {cs : List Char} (h : ∀ c ∈ cs, c.isDigit) (acc : ℕ) :
    Nat.ofDigitChars 10 cs acc < 10 ^ cs.length * (acc + 1) := by
  induction cs generalizing acc with
  | nil => simp
  | cons c cs ih =>
    obtain ⟨hc, hcs⟩ := List.forall_mem_cons.mp h
    have hdigit : c.toNat - 48 ≤ 9 := by
      have : c.toNat ≤ 57 := (Char.isDigit_iff_toNat.mp hc).2
      omega
    calc Nat.ofDigitChars 10 (c :: cs) acc
        < 10 ^ cs.length * (10 * acc + (c.toNat - 48) + 1) := by
          rw [Nat.ofDigitChars_cons]
          exact ih hcs _
      _ ≤ 10 ^ cs.length * (10 * (acc + 1)) := Nat.mul_le_mul_left _ (by omega)
      _ = 10 ^ (c :: cs).length * (acc + 1) := by
          rw [List.length_cons, Nat.pow_succ, Nat.mul_assoc]

/-- The digits after the point, before the zeros at their end are trimmed. -/
theorem fracDigits {m : ℕ} (hm : m < 10 ^ 8) :
    ((Nat.toDigits 10 (10 ^ 8 + m)).drop 1).length = 8 ∧
      Nat.ofDigitChars 10 ((Nat.toDigits 10 (10 ^ 8 + m)).drop 1) 0 = m := by
  have hmax := Nat.length_toDigits_le_iff (b := 10) (n := 10 ^ 8 + m) (k := 9) (by norm_num)
    (by norm_num)
  have hmin := Nat.length_toDigits_le_iff (b := 10) (n := 10 ^ 8 + m) (k := 8) (by norm_num)
    (by norm_num)
  have hlen : (Nat.toDigits 10 (10 ^ 8 + m)).length = 9 := by omega
  have hdigits : ∀ c ∈ Nat.toDigits 10 (10 ^ 8 + m), c.isDigit := fun c hc =>
    Nat.isDigit_of_mem_toDigits (by norm_num) (by norm_num) hc
  have hvalue := Nat.ofDigitChars_ten_toDigits (n := 10 ^ 8 + m)
  cases hds : Nat.toDigits 10 (10 ^ 8 + m) with
  | nil => exact absurd hds Nat.toDigits_ne_nil
  | cons c ds =>
    rw [hds] at hlen hdigits hvalue
    rw [List.length_cons] at hlen
    rw [Nat.ofDigitChars_cons, Nat.ofDigitChars_eq_ofDigitChars_zero] at hvalue
    have hlt := ofDigitChars_lt (fun c hc => hdigits c (List.mem_cons_of_mem _ hc)) 0
    have hlen' : ds.length = 8 := by omega
    rw [hlen'] at hvalue hlt
    refine ⟨hlen', ?_⟩
    rw [List.drop_one, List.tail_cons]
    omega

/-- Trimmed zeros do not count. -/
theorem ofDigitChars_trim (frac : List Char) (acc : ℕ) :
    (frac.rdropWhile (· = '0')).length ≤ frac.length ∧
      Nat.ofDigitChars 10 (frac.rdropWhile (· = '0')) acc *
        10 ^ (frac.length - (frac.rdropWhile (· = '0')).length) =
          Nat.ofDigitChars 10 frac acc := by
  have hsplit := List.rdropWhile_append_rtakeWhile (p := (· = '0')) (l := frac)
  have hzeros : frac.rtakeWhile (· = '0') =
      List.replicate (frac.rtakeWhile (· = '0')).length '0' :=
    List.eq_replicate_of_mem fun c hc => by simpa using List.mem_rtakeWhile_imp hc
  have hlen := congrArg List.length hsplit
  rw [List.length_append] at hlen
  refine ⟨by omega, ?_⟩
  calc Nat.ofDigitChars 10 (frac.rdropWhile (· = '0')) acc *
        10 ^ (frac.length - (frac.rdropWhile (· = '0')).length)
      = 10 ^ (frac.rtakeWhile (· = '0')).length *
          Nat.ofDigitChars 10 (frac.rdropWhile (· = '0')) acc := by
        rw [← hlen, Nat.add_sub_cancel_left, Nat.mul_comm]
    _ = Nat.ofDigitChars 10 (frac.rtakeWhile (· = '0'))
          (Nat.ofDigitChars 10 (frac.rdropWhile (· = '0')) acc) := by
        rw [hzeros, Nat.ofDigitChars_replicate_zero, List.length_replicate]
    _ = Nat.ofDigitChars 10 frac acc := by rw [← Nat.ofDigitChars_append, hsplit]

/-- A plain decimal of the code's is read back. -/
theorem decimal_parse_toStr (v : ℕ) : decimal.parse (decimal.toStr v) = some v := by
  have hdigits : ∀ n, ∀ c ∈ Nat.toDigits 10 n, c.isDigit := fun n c hc =>
    Nat.isDigit_of_mem_toDigits (by norm_num) (by norm_num) hc
  have hfrac : ∀ c ∈ (Nat.toDigits 10 (10 ^ 8 + v % 10 ^ 8)).drop 1, c.isDigit :=
    fun c hc => hdigits _ c (List.mem_of_mem_drop hc)
  have htext : (decimal.toStr v).toList = Nat.toDigits 10 (v / 10 ^ 8) ++
      if (((Nat.toDigits 10 (10 ^ 8 + v % 10 ^ 8)).drop 1).reverse.dropWhile (· = '0')).isEmpty
      then [] else '.' :: ((Nat.toDigits 10 (10 ^ 8 + v % 10 ^ 8)).drop 1).rdropWhile (· = '0') :=
    String.toList_ofList
  obtain ⟨hlen, hvalue⟩ := fracDigits (Nat.mod_lt v (by norm_num : 0 < 10 ^ 8))
  generalize (Nat.toDigits 10 (10 ^ 8 + v % 10 ^ 8)).drop 1 = frac at hlen hvalue hfrac htext
  obtain ⟨htrim, htrimmed⟩ := ofDigitChars_trim frac (v / 10 ^ 8)
  rw [hlen, Nat.ofDigitChars_eq_ofDigitChars_zero (l := frac), hlen, hvalue] at htrimmed
  have hread : readDecimal (decimal.toStr v).toList 0 none = some v := by
    rw [htext, readDecimal_digits (hdigits _), Nat.ofDigitChars_ten_toDigits]
    split
    · next hnil =>
      have hnone : frac.rdropWhile (· = '0') = [] := by
        rw [List.rdropWhile, List.isEmpty_iff.mp hnil, List.reverse_nil]
      rw [hnone] at htrimmed
      rw [readDecimal]
      simp only [Nat.ofDigitChars_nil, List.length_nil] at htrimmed
      rw [Option.some.injEq]
      omega
    · have hsub : ∀ c ∈ frac.rdropWhile (· = '0'), c.isDigit := fun c hc =>
        hfrac c ((List.rdropWhile_prefix _ _).subset hc)
      rw [readDecimal, if_pos rfl, if_pos Option.isNone_none, readDecimal_some hsub _ (by omega),
        Nat.zero_add, htrimmed, Nat.div_add_mod]
  have hne : ¬ (decimal.toStr v).isEmpty := by
    intro hempty
    rw [String.isEmpty_iff.mp hempty] at htext
    exact absurd htext.symm (by simp)
  exact (if_neg hne).trans hread

/-- **Round trip**: below 2⁵¹ units, what is printed reads back the same. -/
theorem parseFixedPoint_pxToStr (hv : v < 2 ^ 51) : parseFixedPoint (pxToStr v) = .ok v := by
  rw [pxToStr_eq_decimal (by omega)]
  refine parseFixedPoint_eq_decimal (decimal_parse_toStr v) (fun hpoint => ?_) hv
  have hparse := decimal_parse_toStr v
  have hzero : decimal.parse "." = some 0 := by decide
  rw [hpoint, hzero] at hparse
  cases hparse
  exact absurd hpoint (by decide)

end Exact

/-! ## The conversions of the code -/

/-- The conversions as the code has them.  The number of digits of a price goes through a
logarithm and stays open. -/
@[reducible] def FixedPoint.float (numDigits : ℕ → ℕ) : FixedPoint where
  parse s := (parseFixedPoint s).toOption
  toStr := pxToStr
  numDigits := numDigits

section Conversions

variable {n : ℕ}

/-- **Below 2⁵¹ units floating point loses nothing**: plain decimals are read and printed exactly,
and what is printed reads back the same. -/
theorem float_exact (numDigits : ℕ → ℕ) (s : String) (hn : n < 2 ^ 51) :
    (FixedPoint.decimal.parse s = some n → s ≠ "." →
      (FixedPoint.float numDigits).parse s = some n) ∧
    (FixedPoint.float numDigits).toStr n = FixedPoint.decimal.toStr n ∧
    (FixedPoint.float numDigits).parse ((FixedPoint.float numDigits).toStr n) = some n := by
  refine ⟨fun h hpoint => ?_, pxToStr_eq_decimal (by omega), ?_⟩
  · exact congrArg Except.toOption (parseFixedPoint_eq_decimal h hpoint hn)
  · exact congrArg Except.toOption (parseFixedPoint_pxToStr hn)

theorem float_exact_price :
    10050000000 < 2 ^ 51 ∧ (FixedPoint.float fun _ => 1).parse "100.50" = some 10050000000 ∧
      (FixedPoint.float fun _ => 1).toStr 10050000000 = "100.5" := by
  have h := float_exact (fun _ => 1) "100.50" (by norm_num : 10050000000 < 2 ^ 51)
  exact ⟨by norm_num, h.1 (by decide) (by decide), h.2.1.trans (by decide)⟩

/-- **Reading keeps the order** of the numbers, whatever their texts: a text that stands for no
more than an accepted one is accepted too if it is not below zero, and is read as no more. -/
theorem parseFixedPoint_le {q r : ℚ} {s t : String} {w : ℕ} (hs : numeralValue s = some q)
    (ht : numeralValue t = some r) (hle : q ≤ r) (hw : parseFixedPoint t = .ok w) :
    (0 ≤ q → ∃ v, parseFixedPoint s = .ok v) ∧ ∀ v, parseFixedPoint s = .ok v → v ≤ w := by
  obtain ⟨neg, cs, m, hsign, hnumber, hm, rfl⟩ := numeralValue_parts hs
  obtain ⟨neg', cs', m', hsign', hnumber', hm', rfl⟩ := numeralValue_parts ht
  rw [parseFixedPoint_eq_ok hsign' hnumber' hm'] at hw
  obtain ⟨hzero', hmax', rfl⟩ := hw
  simp only [parseFixedPoint_eq_ok hsign hnumber hm]
  by_cases hplus : neg = false ∧ neg' = false
  · obtain ⟨rfl, rfl⟩ := hplus
    simp only [Bool.false_eq_true, if_false] at hle
    have hunits := unitsOf_mono hm hle
    exact ⟨fun _ => ⟨_, by simp, hunits.trans hmax', rfl⟩, fun v hv => by omega⟩
  · -- One of the two is not above zero, so that the first is read as zero if it is read.
    have hsmall : 0 ≤ (if neg then -m else m) → m = 0 := by
      intro hnonneg
      cases neg <;> cases neg' <;> simp at hplus hle hnonneg <;> linarith
    have hzero : (neg → f64Round m = 0) → unitsOf m = 0 := by
      intro hneg
      cases neg with
      | true => exact unitsOf_eq_zero (hneg rfl)
      | false => exact unitsOf_eq_zero (by rw [hsmall hm]; exact floatRound_zero _ _)
    refine ⟨fun hnonneg => ?_, fun v hv => ?_⟩
    · have hround : f64Round m = 0 := by rw [hsmall hnonneg]; exact floatRound_zero _ _
      exact ⟨_, fun _ => hround, by rw [unitsOf_eq_zero hround]; omega, rfl⟩
    · have := hzero hv.1
      omega

theorem parseFixedPoint_le_exponent :
    ∃ v w, parseFixedPoint "99.99" = .ok v ∧ parseFixedPoint "1e2" = .ok w ∧ v ≤ w := by
  have hw : parseFixedPoint "1e2" = .ok (10 ^ 10) := by decide +kernel
  have h := parseFixedPoint_le (by decide +kernel : numeralValue "99.99" = some (9999 / 100))
    (by decide +kernel : numeralValue "1e2" = some 100) (by norm_num) hw
  obtain ⟨v, hv⟩ := h.1 (by norm_num)
  exact ⟨v, _, hv, hw, h.2 v hv⟩

end Conversions

end HlOrderbook
