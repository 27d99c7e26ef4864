import HlOrderbook.Aggregates
import HlOrderbook.L2Frames
import HlOrderbook.Lib.ClosedRuns
import HlOrderbook.Lib.SigFigs

/-!
# Aggregation as grouping

The loop over the price levels compares raw prices with the rounded price of the level
it is adding up, and never two rounded prices.  For the parameters a subscription may
have, rounding is a closure operator on prices, away from the spread, so that the loop
groups the levels by their rounded price.

## Main definitions

* `BucketFits` — rounding a price stays within a `u64`.
* `BucketLevels` — a list of levels is a grouping of price levels by rounded price.
-/

set_option autoImplicit false
set_option linter.unusedSectionVars false

namespace HlOrderbook

variable [FixedPoint]

/-- Whether one price comes before another on a side. -/
def ahead (side : Side) (px px' : ℕ) : Prop :=
  match side with
  | .ask => px < px'
  | .bid => px' < px

/-- The products of the rounding of a price stay within a `u64`. -/
def BucketFits (px : ℕ) (side : Side) (nSigFigs mantissa : Option ℕ) : Prop :=
  match nSigFigs with
  | none => True
  | some n =>
    let inc := mantissa.getD 1 * 10 ^ (FixedPoint.numDigits px - n)
    inc ≤ u64Max ∧
      match side with
      | .ask => (px + inc - 1) / inc * inc ≤ u64Max
      | .bid => px / inc * inc ≤ u64Max

instance (px : ℕ) (side : Side) (nSigFigs mantissa : Option ℕ) :
    Decidable (BucketFits px side nSigFigs mantissa) := by
  unfold BucketFits
  cases nSigFigs <;> cases side <;> infer_instance

/-- A list of levels groups price levels by their rounded price: one level for each, in
the order of the side, with the sums over exactly the price levels that round to it. -/
structure BucketLevels (bucket : ℕ → ℕ) (side : Side) (levels grouped : List InnerLevel) :
    Prop where
  sorted : (grouped.map InnerLevel.px).Pairwise (ahead side)
  mem_px : ∀ v, v ∈ grouped.map InnerLevel.px ↔ ∃ l ∈ levels, bucket l.px = v
  sz : ∀ g ∈ grouped, g.sz = ((levels.filter fun l => bucket l.px = g.px).map InnerLevel.sz).sum
  n : ∀ g ∈ grouped, g.n = ((levels.filter fun l => bucket l.px = g.px).map InnerLevel.n).sum

/-! ## The loop -/

/-- The level shown for a group. -/
def groupLevel {α : Type} (val : α → ℕ) (g : α × List InnerLevel) : InnerLevel :=
  ⟨val g.1, min (g.2.map InnerLevel.sz).sum u64Max, (g.2.map InnerLevel.n).sum⟩

section Loop

variable {α : Type} [LinearOrder α] {c : α → α} {enc : ℕ → α} {val : α → ℕ}
  {side : Side} {nSigFigs mantissa : Option ℕ}

theorem mapLoop_eq_closedRunsFrom (hval : ∀ px, val (enc px) = px)
    (hnew : ∀ cur px, isNewBucket (some cur) side px = decide (enc cur.px < enc px))
    {rest : List InnerLevel}
    (hbucket : ∀ l ∈ rest, enc (bucket l.px side nSigFigs mantissa) = c (enc l.px))
    (hsz : ∀ l ∈ rest, l.sz ≤ u64Max) (cur : InnerLevel) (group : List InnerLevel)
    (hcur : cur = groupLevel val (enc cur.px, group)) :
    mapLoop none nSigFigs mantissa side rest (some cur) [] =
      (closedRunsFrom c (fun l => enc l.px) (enc cur.px) group rest).map (groupLevel val) := by
  induction rest generalizing cur group with
  | nil =>
    rw [mapLoop, closedRunsFrom, List.map_singleton, ← hcur]
    rfl
  | cons l rest ih =>
    have hb := fun l' hl' => hbucket l' (List.mem_cons_of_mem _ hl')
    have hs := fun l' hl' => hsz l' (List.mem_cons_of_mem _ hl')
    rw [closedRunsFrom]
    by_cases hlt : enc cur.px < enc l.px
    · have hisNew : isNewBucket (some cur) side l.px = true := by
        rw [hnew, decide_eq_true hlt]
      have hfirst := ih hb hs { l with px := bucket l.px side nSigFigs mantissa } [l]
        (by simp [groupLevel, hval, Nat.min_eq_left (hsz l List.mem_cons_self)])
      simp only [mapLoop, buildL2Level, hisNew, if_true, reduceCtorEq, if_false, hlt,
        List.map_cons]
      rw [mapLoop_none, hfirst, hbucket l List.mem_cons_self, ← hcur]
      rfl
    · have hnotNew : isNewBucket (some cur) side l.px = false := by
        rw [hnew, decide_eq_false hlt]
      have hnext : ({ cur with sz := saturatingAdd l.sz cur.sz, n := cur.n + l.n } : InnerLevel) =
          groupLevel val (enc cur.px, group ++ [l]) := by
        rw [groupLevel, hval] at hcur ⊢
        rw [hcur]
        simp [saturatingAdd]
        omega
      simp only [mapLoop, buildL2Level, hnotNew, Bool.false_eq_true, if_false, hlt,
        Option.map_some]
      exact ih hb hs _ _ hnext

theorem mapLoop_eq_closedRuns (hval : ∀ px, val (enc px) = px)
    (hnew : ∀ cur px, isNewBucket (some cur) side px = decide (enc cur.px < enc px))
    {levels : List InnerLevel}
    (hbucket : ∀ l ∈ levels, enc (bucket l.px side nSigFigs mantissa) = c (enc l.px))
    (hsz : ∀ l ∈ levels, l.sz ≤ u64Max) :
    mapLoop none nSigFigs mantissa side levels none [] =
      (closedRuns c (fun l => enc l.px) levels).map (groupLevel val) := by
  cases levels with
  | nil => rfl
  | cons l rest =>
    have hisNew : isNewBucket none side l.px = true := by cases side <;> rfl
    simp only [mapLoop, buildL2Level, hisNew, if_true, reduceCtorEq, if_false]
    rw [Option.toList_none, List.append_nil, closedRuns, ← hbucket l List.mem_cons_self]
    refine mapLoop_eq_closedRunsFrom hval hnew
      (fun l' hl' => hbucket l' (List.mem_cons_of_mem _ hl'))
      (fun l' hl' => hsz l' (List.mem_cons_of_mem _ hl')) _ _ ?_
    simp [groupLevel, hval, Nat.min_eq_left (hsz l List.mem_cons_self)]

/-- **Where rounding is a closure, the loop groups by rounded price.** -/
theorem bucketLevels_of_closure (c : ClosureOperator α) (enc : ℕ → α) (val : α → ℕ)
    (side : Side) (hval : ∀ px, val (enc px) = px)
    (hnew : ∀ cur px, isNewBucket (some cur) side px = decide (enc cur.px < enc px))
    (hahead : ∀ k k', k < k' → ahead side (val k) (val k'))
    {levels : List InnerLevel}
    (hsorted : levels.Pairwise fun (l l' : InnerLevel) => enc l.px ≤ enc l'.px)
    (hbucket : ∀ l ∈ levels, enc (bucket l.px side nSigFigs mantissa) = c (enc l.px))
    (hfits : ∀ v, ((levels.filter fun l => bucket l.px side nSigFigs mantissa = v).map
      InnerLevel.sz).sum ≤ u64Max) :
    BucketLevels (fun px => bucket px side nSigFigs mantissa) side levels
      (mapLoop none nSigFigs mantissa side levels none []) := by
  have hsz : ∀ l ∈ levels, l.sz ≤ u64Max := by
    intro l hl
    refine le_trans (List.single_le_sum (fun _ _ => Nat.zero_le _) _ ?_)
      (hfits (bucket l.px side nSigFigs mantissa))
    exact List.mem_map_of_mem (List.mem_filter.mpr ⟨hl, by simp⟩)
  have henc : ∀ px px', enc px = enc px' ↔ px = px' := by
    intro px px'
    constructor
    · intro h
      rw [← hval px, h, hval]
    · rintro rfl
      rfl
  have hgroups := groupsBy_closedRuns c (fun l : InnerLevel => enc l.px) hsorted
  rw [mapLoop_eq_closedRuns hval hnew hbucket hsz]
  -- the elements of a group are the levels that round to its price
  have hgroup : ∀ g ∈ closedRuns c (fun l : InnerLevel => enc l.px) levels,
      g.2 = levels.filter fun l => bucket l.px side nSigFigs mantissa = val g.1 := by
    intro g hg
    obtain ⟨y, hy, hk⟩ := (hgroups.mem_keys g.1).mp (List.mem_map_of_mem hg)
    rw [hgroups.group g hg]
    refine List.filter_congr fun l hl => ?_
    rw [← hk, ← hbucket l hl, ← hbucket y hy, hval, decide_eq_decide]
    exact henc _ _
  refine ⟨?_, ?_, ?_, ?_⟩
  · rw [List.map_map]
    have := List.pairwise_map.mp hgroups.sorted
    exact List.pairwise_map.mpr (this.imp fun h => hahead _ _ h)
  · intro v
    rw [List.map_map, List.mem_map]
    constructor
    · rintro ⟨g, hg, rfl⟩
      obtain ⟨y, hy, hk⟩ := (hgroups.mem_keys g.1).mp (List.mem_map_of_mem hg)
      refine ⟨y, hy, ?_⟩
      rw [Function.comp_apply, groupLevel, ← hk, ← hbucket y hy, hval]
    · rintro ⟨y, hy, rfl⟩
      have hmem := (hgroups.mem_keys _).mpr ⟨y, hy, rfl⟩
      obtain ⟨g, hg, hk⟩ := List.mem_map.mp hmem
      refine ⟨g, hg, ?_⟩
      rw [Function.comp_apply, groupLevel, hk, ← hbucket y hy, hval]
  · intro l hl
    obtain ⟨g, hg, rfl⟩ := List.mem_map.mp hl
    simp only [groupLevel]
    rw [hgroup g hg, Nat.min_eq_left (hfits _)]
    rfl
  · intro l hl
    obtain ⟨g, hg, rfl⟩ := List.mem_map.mp hl
    simp only [groupLevel]
    rw [hgroup g hg]
    rfl

end Loop

/-! ## The accepted parameters -/

/-- What an accepted subscription may ask for. -/
theorem L2Subscription.digits_of_validate {s : L2Subscription} {univ : Std.ExtTreeSet Coin}
    (h : s.validate univ = true) :
    ∀ n, s.nSigFigs = some n → 2 ≤ n ∧ s.mantissa.getD 1 ∣ 10 := by
  intro n hn
  rw [validate, hn] at h
  by_cases hcoin : (!univ.contains s.coin) = true
  · simp [hcoin] at h
  · by_cases hdefault : s.nLevels = some defaultLevels
    · simp [hdefault] at h
    · by_cases hdepth : maxLevels < s.depth
      · simp [hdepth] at h
      · cases hm : s.mantissa with
        | none =>
          simp [hcoin, hdefault, hdepth, hm] at h
          exact ⟨h.1, one_dvd 10⟩
        | some m =>
          simp [hcoin, hdefault, hdepth, hm] at h
          refine ⟨h.1.1, ?_⟩
          rcases h.2.2 with rfl | rfl <;> decide

/-- **The increments of accepted parameters fit the powers of ten.** -/
theorem increments_of_accepted {n m : ℕ} (hn : 2 ≤ n) (hm : m ∣ 10) :
    Increments 10 fun k => m * 10 ^ (k - n) := by
  have hdvd : ∀ j k, 0 < k → j ≤ k - 1 → m * 10 ^ j ∣ 10 ^ k := by
    intro j k hk hj
    obtain ⟨i, rfl⟩ : ∃ i, k = i + 1 := ⟨k - 1, by omega⟩
    rw [Nat.pow_succ']
    exact Nat.mul_dvd_mul hm (Nat.pow_dvd_pow 10 (by omega))
  refine ⟨by omega, ?_, ?_, ?_⟩
  · intro k
    exact Nat.mul_pos (Nat.pos_of_dvd_of_pos hm (by omega)) (Nat.pow_pos (by omega))
  · intro k hk
    exact hdvd _ k hk (by omega)
  · intro k hk
    exact hdvd _ k hk (by omega)

/-! ## The aggregated levels -/

/-- The digits a price has, counted on its decimal numeral. -/
theorem length_toDigits (n : ℕ) : (Nat.toDigits 10 n).length = digitCount 10 n := by
  refine Nat.le_antisymm ?_ ?_
  · rw [digitCount, Nat.length_toDigits_le_iff (by decide) (Nat.succ_pos _)]
    exact Nat.lt_pow_succ_log_self (by decide) n
  · have hlt := (Nat.length_toDigits_le_iff (n := n) (b := 10) (by decide)
      (Nat.length_toDigits_pos (b := 10) (n := n))).mp (le_refl _)
    exact Nat.succ_le_iff.mpr (Nat.log_lt_of_lt_pow' Nat.length_toDigits_pos.ne' hlt)

/-- With exact digits, and products within a `u64`, prices are rounded to significant
figures. -/
theorem bucket_eq (hdigits : ∀ px, FixedPoint.numDigits px = (Nat.toDigits 10 px).length)
    {px n : ℕ} {side : Side} {mantissa : Option ℕ} (hm : 0 < mantissa.getD 1)
    (hfits : BucketFits px side (some n) mantissa) :
    bucket px side (some n) mantissa = match side with
      | .ask => roundUp 10 (fun k => mantissa.getD 1 * 10 ^ (k - n)) px
      | .bid => roundDown 10 (fun k => mantissa.getD 1 * 10 ^ (k - n)) px := by
  obtain ⟨hinc, hresult⟩ := hfits
  rw [hdigits, length_toDigits] at hinc hresult
  have hwrap : ∀ {x : ℕ}, x ≤ u64Max → wrap64 x = x := fun hx =>
    Nat.mod_eq_of_lt (Nat.lt_of_le_of_lt hx (by decide))
  have hp : 10 ^ (digitCount 10 px - n) ≤ u64Max := (Nat.le_mul_of_pos_left _ hm).trans hinc
  simp only [bucket, hdigits, length_toDigits, hwrap hp, hwrap hinc]
  cases side with
  | ask => exact hwrap hresult
  | bid => exact hwrap hresult

theorem priceLevels_pairwise {O : Type} [InnerOrder O] (orders : Levels O) (side : Side) :
    (priceLevels orders side).Pairwise fun l l' => ahead side l.px l'.px := by
  have hlt : orders.toList.Pairwise fun x y => x.1 < y.1 :=
    orders.ordered_keys_toList.imp fun h => Nat.compare_eq_lt.mp h
  cases side with
  | ask => exact List.pairwise_map.mpr hlt
  | bid =>
    rw [priceLevels, List.pairwise_reverse]
    exact List.pairwise_map.mpr hlt

/-- **Aggregation is grouping by rounded price.**  For the parameters of an accepted
subscription the levels of a side are one for each rounded price, in strict order, with
the sums over exactly the price levels that round to it; with a limit they are the first
of that list. -/
theorem mapToL2Levels_groups
    (hdigits : ∀ px, FixedPoint.numDigits px = (Nat.toDigits 10 px).length)
    {s : L2Subscription} {univ : Std.ExtTreeSet Coin} (hvalid : s.validate univ = true)
    {O : Type} [InnerOrder O] (orders : Levels O) (side : Side)
    (hbuckets : ∀ l ∈ priceLevels orders side, BucketFits l.px side s.nSigFigs s.mantissa)
    (hsums : ∀ v, (((priceLevels orders side).filter fun l =>
      bucket l.px side s.nSigFigs s.mantissa = v).map InnerLevel.sz).sum ≤ u64Max) :
    BucketLevels (fun px => bucket px side s.nSigFigs s.mantissa) side (priceLevels orders side)
      (mapToL2Levels orders side none s.nSigFigs s.mantissa) ∧
    ∀ k, mapToL2Levels orders side (some k) s.nSigFigs s.mantissa =
      (mapToL2Levels orders side none s.nSigFigs s.mantissa).take k := by
  refine ⟨?_, fun k => mapToL2Levels_some _ _ _ _ _⟩
  rw [mapToL2Levels, if_neg (by simp)]
  have hsorted := priceLevels_pairwise orders side
  have haccepted := L2Subscription.digits_of_validate hvalid
  cases hn : s.nSigFigs with
  | none =>
    rw [hn] at hsums
    cases side with
    | ask =>
      exact bucketLevels_of_closure (ClosureOperator.id ℕ) id id .ask (fun _ => rfl)
        (fun _ _ => rfl) (fun _ _ h => h) (hsorted.imp fun h => Nat.le_of_lt h)
        (fun _ _ => rfl) hsums
    | bid =>
      exact bucketLevels_of_closure (ClosureOperator.id ℕᵒᵈ) OrderDual.toDual OrderDual.ofDual
        .bid (fun _ => rfl) (fun _ _ => rfl) (fun _ _ h => h)
        (hsorted.imp fun h => Nat.le_of_lt h) (fun _ _ => rfl) hsums
  | some n =>
    rw [hn] at hbuckets hsums
    have hm := Nat.pos_of_dvd_of_pos (haccepted n hn).2 (by decide)
    have hinc := increments_of_accepted (haccepted n hn).1 (haccepted n hn).2
    cases side with
    | ask =>
      refine bucketLevels_of_closure (upClosure hinc) id id .ask (fun _ => rfl)
        (fun _ _ => rfl) (fun _ _ h => h) (hsorted.imp fun h => Nat.le_of_lt h) ?_ hsums
      intro l hl
      exact bucket_eq hdigits hm (hbuckets l hl)
    | bid =>
      refine bucketLevels_of_closure (downClosure hinc) OrderDual.toDual OrderDual.ofDual .bid
        (fun _ => rfl) (fun _ _ => rfl) (fun _ _ h => h)
        (hsorted.imp fun h => Nat.le_of_lt h) ?_ hsums
      intro l hl
      exact congrArg OrderDual.toDual (bucket_eq hdigits hm (hbuckets l hl))

end HlOrderbook

namespace HlOrderbook

section Example

attribute [local instance] SlabPolicy.latest FixedPoint.decimal

/-- Asks on either side of a power of ten. -/
def acrossTen : Levels InnerL4Order :=
  ((RawBook.new : RawBook InnerL4Order).run
    [.addOrderBefore (orderAt .ask 99996 1 1) none, .addOrderBefore (orderAt .ask 99999 2 2) none,
      .addOrderBefore (orderAt .ask 100000 3 3) none,
      .addOrderBefore (orderAt .ask 100001 4 4) none]).asks

/-- Five figures in steps of five: a group may begin with five digits and end with six. -/
theorem groups_acrossTen :
    mapToL2Levels acrossTen .ask none (some 5) (some 5) = [⟨100000, 6, 3⟩, ⟨100050, 4, 1⟩] ∧
    BucketLevels (fun px => bucket px .ask (some 5) (some 5)) .ask (priceLevels acrossTen .ask)
      (mapToL2Levels acrossTen .ask none (some 5) (some 5)) := by
  have hvalid : (L2Subscription.mk "BTC" (some 5) none (some 5)).validate
      ((∅ : Std.ExtTreeSet Coin).insert "BTC") = true := by decide +kernel
  have htotal : ((priceLevels acrossTen .ask).map InnerLevel.sz).sum ≤ u64Max := by
    decide +kernel
  refine ⟨by decide +kernel,
    (mapToL2Levels_groups (fun _ => rfl) hvalid acrossTen .ask (by decide +kernel) ?_).1⟩
  intro v
  exact (List.Sublist.sum_le_sum (List.filter_sublist.map _) (by simp)).trans htotal

end Example

end HlOrderbook
