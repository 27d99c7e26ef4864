import HlOrderbook.MultiBook

/-!
# Aggregated levels

The book as most clients see it: one side is a list of levels, each a price, the
sum of the sizes there and the number of orders.  Prices can be rounded to a few
significant figures, away from the spread, and the levels that fall on one
rounded price are added up.  The list is built from the best price on and can
stop after a number of levels.

## Main definitions

* `bucket` — the rounded price.
* `mapToL2Levels` — the levels of one side.
* `OrderBook.toL2Snapshot` — both sides.
-/

set_option autoImplicit false
set_option linter.unusedSectionVars false

namespace HlOrderbook

/-- One aggregated level. -/
structure InnerLevel where
  px : ℕ
  sz : ℕ
  n : ℕ
  deriving DecidableEq

/-- What unsigned 64-bit arithmetic leaves of a number. -/
def wrap64 (n : ℕ) : ℕ := n % 2 ^ 64

section Bucket

variable [FixedPoint]

/-- Round a price to a number of significant figures, up for asks and down for
bids.  The increment of the accepted parameters is positive. -/
def bucket (px : ℕ) (side : Side) (nSigFigs mantissa : Option ℕ) : ℕ :=
  let m := mantissa.getD 1
  match nSigFigs with
  | none => px
  | some n =>
    let p := FixedPoint.numDigits px - n
    let inc := wrap64 (m * wrap64 (10 ^ p))
    match side with
    | .ask => wrap64 ((px + inc - 1) / inc * inc)
    | .bid => wrap64 (px / inc * inc)

/-- Whether a price lies beyond the level that is being added up. -/
def isNewBucket (curLevel : Option InnerLevel) (side : Side) (px : ℕ) : Bool :=
  match curLevel, side with
  | none, _ => true
  | some c, .ask => c.px < px
  | some c, .bid => px < c.px

/-- Add one price level: to the level that is being added up, or as the beginning
of the next one.  The last answer is whether there are enough. -/
def buildL2Level (curLevel : Option InnerLevel) (levels : List InnerLevel)
    (nLevels nSigFigs mantissa : Option ℕ) (side : Side) (level : InnerLevel) :
    Option InnerLevel × List InnerLevel × Bool :=
  if isNewBucket curLevel side level.px then
    let levels := levels ++ curLevel.toList
    if nLevels = some levels.length then (none, levels, true)
    else
      (some { level with px := bucket level.px side nSigFigs mantissa }, levels, false)
  else
    (curLevel.map fun c => { c with sz := saturatingAdd level.sz c.sz, n := c.n + level.n },
      levels, false)

/-- The loop over the price levels, best first. -/
def mapLoop (nLevels nSigFigs mantissa : Option ℕ) (side : Side) :
    List InnerLevel → Option InnerLevel → List InnerLevel → List InnerLevel
  | [], curLevel, levels => levels ++ curLevel.toList
  | level :: rest, curLevel, levels =>
    match buildL2Level curLevel levels nLevels nSigFigs mantissa side level with
    | (curLevel, levels, true) => levels ++ curLevel.toList
    | (curLevel, levels, false) => mapLoop nLevels nSigFigs mantissa side rest curLevel levels

variable {O : Type} [InnerOrder O]

/-- The price levels of one side, best first. -/
def priceLevels (orders : Levels O) (side : Side) : List InnerLevel :=
  let levels := orders.toList.map fun x => ⟨x.1, x.2.totalSz, x.2.len⟩
  match side with
  | .ask => levels
  | .bid => levels.reverse

/-- The aggregated levels of one side. -/
def mapToL2Levels (orders : Levels O) (side : Side) (nLevels nSigFigs mantissa : Option ℕ) :
    List InnerLevel :=
  if nLevels = some 0 then []
  else mapLoop nLevels nSigFigs mantissa side (priceLevels orders side) none []

/-- The aggregated levels of a book. -/
def OrderBook.toL2Snapshot (b : OrderBook O) (nLevels nSigFigs mantissa : Option ℕ) :
    Snapshot InnerLevel :=
  ⟨mapToL2Levels b.raw.bids .bid nLevels nSigFigs mantissa,
    mapToL2Levels b.raw.asks .ask nLevels nSigFigs mantissa⟩

/-! ## Stopping early -/

theorem buildL2Level_none (curLevel : Option InnerLevel) (nSigFigs mantissa : Option ℕ)
    (side : Side) (level : InnerLevel) :
    ∃ cur closed, ∀ levels, buildL2Level curLevel levels none nSigFigs mantissa side level =
      (cur, levels ++ closed, false) := by
  by_cases hnew : isNewBucket curLevel side level.px
  · exact ⟨_, curLevel.toList, fun levels => by simp [buildL2Level, hnew]; rfl⟩
  · exact ⟨_, [], fun levels => by simp [buildL2Level, hnew]; rfl⟩

/-- Without a limit, the levels that are closed already only stand in front. -/
theorem mapLoop_none (nSigFigs mantissa : Option ℕ) (side : Side) (rest : List InnerLevel)
    (curLevel : Option InnerLevel) (levels : List InnerLevel) :
    mapLoop none nSigFigs mantissa side rest curLevel levels =
      levels ++ mapLoop none nSigFigs mantissa side rest curLevel [] := by
  induction rest generalizing curLevel levels with
  | nil => simp [mapLoop]
  | cons level rest ih =>
    obtain ⟨cur, closed, h⟩ := buildL2Level_none curLevel nSigFigs mantissa side level
    simp only [mapLoop, h]
    rw [ih cur (levels ++ closed), ih cur ([] ++ closed), List.nil_append, List.append_assoc]

/-- The loop that stops after `k` levels finds the first `k` of all. -/
theorem mapLoop_some (nSigFigs mantissa : Option ℕ) (side : Side) (rest : List InnerLevel)
    (curLevel : Option InnerLevel) {levels : List InnerLevel} {k : ℕ} (h : levels.length < k) :
    mapLoop (some k) nSigFigs mantissa side rest curLevel levels =
      (mapLoop none nSigFigs mantissa side rest curLevel levels).take k := by
  have hle : (levels ++ curLevel.toList).length ≤ k := by
    cases curLevel <;> simp <;> omega
  induction rest generalizing curLevel levels with
  | nil => simp only [mapLoop, List.take_of_length_le hle]
  | cons level rest ih =>
    simp only [mapLoop, buildL2Level]
    by_cases hnew : isNewBucket curLevel side level.px
    · by_cases hk : k = (levels ++ curLevel.toList).length
      · subst hk
        simp only [hnew, if_true, reduceCtorEq, if_false]
        rw [mapLoop_none, List.take_left, Option.toList_none, List.append_nil]
      · have hlt : (levels ++ curLevel.toList).length < k := by omega
        simp only [hnew, if_true, Option.some.injEq, hk, reduceCtorEq, if_false]
        exact ih _ hlt (by simp at hlt ⊢; omega)
    · simp only [hnew, Bool.false_eq_true, if_false]
      exact ih _ h (by cases curLevel <;> simp at hle ⊢ <;> omega)

/-- **A limited side is the beginning of the whole side.** -/
theorem mapToL2Levels_some (orders : Levels O) (side : Side) (k : ℕ)
    (nSigFigs mantissa : Option ℕ) :
    mapToL2Levels orders side (some k) nSigFigs mantissa =
      (mapToL2Levels orders side none nSigFigs mantissa).take k := by
  rcases Nat.eq_zero_or_pos k with rfl | hk
  · simp [mapToL2Levels]
  · have hne : k ≠ 0 := by omega
    simp only [mapToL2Levels, Option.some.injEq, hne, reduceCtorEq, if_false]
    exact mapLoop_some _ _ _ _ _ hk

/-- A level that is being added up is found. -/
theorem mapLoop_ne_nil (nSigFigs mantissa : Option ℕ) (side : Side) (rest : List InnerLevel)
    (cur : InnerLevel) (levels : List InnerLevel) :
    mapLoop none nSigFigs mantissa side rest (some cur) levels ≠ [] := by
  induction rest generalizing cur levels with
  | nil => simp [mapLoop]
  | cons level rest ih =>
    by_cases hnew : isNewBucket (some cur) side level.px
    · simp only [mapLoop, buildL2Level, hnew, if_true, reduceCtorEq, if_false]
      exact ih _ _
    · simp only [mapLoop, buildL2Level, hnew, if_false, Option.map_some, Bool.false_eq_true]
      exact ih _ _

/-- **A side has no aggregated level only if it has no level**, or none was asked for. -/
theorem mapToL2Levels_eq_nil (orders : Levels O) (side : Side) (k : ℕ)
    (nSigFigs mantissa : Option ℕ) :
    mapToL2Levels orders side (some k) nSigFigs mantissa = [] ↔ k = 0 ∨ orders = ∅ := by
  have hnil : priceLevels orders side = [] ↔ orders = ∅ := by
    rw [← Std.ExtTreeMap.toList_eq_nil_iff]
    cases side <;> simp [priceLevels]
  rw [mapToL2Levels_some, List.take_eq_nil_iff, or_congr_right]
  rw [← hnil, mapToL2Levels, if_neg (by simp)]
  cases hlevels : priceLevels orders side with
  | nil => simp [mapLoop]
  | cons level rest =>
    have hnew : isNewBucket none side level.px = true := by cases side <;> rfl
    simp only [mapLoop, buildL2Level, hnew, if_true, reduceCtorEq, if_false, iff_false]
    exact mapLoop_ne_nil _ _ _ _ _ _

/-- A book cut at `k` levels, and cut again at no more, is the book cut at the
smaller number. -/
theorem OrderBook.truncate_toL2Snapshot (b : OrderBook O) {n k : ℕ} (h : n ≤ k)
    (nSigFigs mantissa : Option ℕ) :
    (b.toL2Snapshot (some k) nSigFigs mantissa).truncate n =
      b.toL2Snapshot (some n) nSigFigs mantissa := by
  simp only [toL2Snapshot, Snapshot.truncate, mapToL2Levels_some, List.take_take,
    Nat.min_eq_left h]

end Bucket

end HlOrderbook
