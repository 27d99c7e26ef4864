import HlOrderbook.Levels
import Mathlib.Data.Finset.Basic

/-!
# The cache of aggregated books

Clients ask for a coin's book in a shape: a number of significant figures and a
mantissa.  For each coin the server keeps the book in every shape that some client
wants, and rebuilds only the coins that changed.  Coins that have a book and no
entry are built a few at a time.

## Main definitions

* `L2SnapshotParams` — a shape.
* `computeL2VariantsForCoin` — one entry.
* `computeL2SnapshotsIncremental` — the rebuild.
-/

set_option autoImplicit false
set_option linter.unusedSectionVars false

namespace HlOrderbook

/-- The most levels a subscription can ask for. -/
def maxLevels : ℕ := 1000

/-- How many coins without an entry are built in one go. -/
def l2BackfillCoinsPerFlush : ℕ := 32

/-- The shape of an aggregated book. -/
structure L2SnapshotParams where
  nSigFigs : Option ℕ
  mantissa : Option ℕ
  deriving DecidableEq

/-- The shape that does not aggregate. -/
def L2SnapshotParams.base : L2SnapshotParams := ⟨none, none⟩

/-- One coin's book in the shapes it was built in. -/
abbrev L2Variants := L2SnapshotParams → Option (Snapshot InnerLevel)

/-- The entries of all coins. -/
abbrev L2Snapshots := Std.ExtTreeMap Coin L2Variants

variable [FixedPoint] {O : Type} [InnerOrder O]

/-- A coin's book in every active shape, and unaggregated. -/
def computeL2VariantsForCoin (book : OrderBook O) (active : Finset L2SnapshotParams) :
    L2Variants := fun p =>
  if active.Nonempty ∧ (p ∈ active ∨ p = .base) then
    some (book.toL2Snapshot (some maxLevels) p.nSigFigs p.mantissa)
  else none

/-- The coins to build: those that changed and have a book, and the first of those
that have a book and no entry. -/
def coinsToCompute (books : OrderBooks O) (changed : Std.ExtTreeSet Coin) (cache : L2Snapshots) :
    List Coin :=
  changed.toList.filter books.orderBooks.contains ++
    (books.orderBooks.keys.filter fun coin => !cache.contains coin && !changed.contains coin).take
      l2BackfillCoinsPerFlush

/-- Drop the entries of coins without a book. -/
def evict (books : OrderBooks O) (cache : L2Snapshots) : L2Snapshots :=
  cache.filter fun coin _ => books.orderBooks.contains coin

/-- Rebuild the entries of the coins that changed and of some that have none.  The
answer is the new cache, the coins whose entry is not what it was, and whether a
coin has come or gone. -/
def computeL2SnapshotsIncremental (books : OrderBooks O) (changed : Std.ExtTreeSet Coin)
    (active : Finset L2SnapshotParams) (cache : L2Snapshots) :
    L2Snapshots × Std.ExtTreeSet Coin × Bool :=
  let kept := evict books cache
  let toCompute := coinsToCompute books changed kept
  let coinSetChanged := kept.size != cache.size || toCompute.any fun coin => !kept.contains coin
  let updates := toCompute.filterMap fun coin =>
    books.orderBooks[coin]?.map fun book => (coin, computeL2VariantsForCoin book active)
  let recomputed := (∅ : Std.ExtTreeSet Coin).insertMany (updates.map Prod.fst)
  let gone := changed.toList.filter fun coin => !books.orderBooks.contains coin
  (updates.foldl (fun cache x => cache.insert x.1 x.2) kept, recomputed.insertMany gone,
    coinSetChanged)

/-! ## What the rebuild leaves -/

theorem computeL2VariantsForCoin_eq_some {book : OrderBook O} {active : Finset L2SnapshotParams}
    {p : L2SnapshotParams} (hp : p ∈ active) : computeL2VariantsForCoin book active p =
      some (book.toL2Snapshot (some maxLevels) p.nSigFigs p.mantissa) :=
  if_pos ⟨⟨p, hp⟩, Or.inl hp⟩

@[simp] theorem getElem?_evict (books : OrderBooks O) (cache : L2Snapshots) (c : Coin) :
    (evict books cache)[c]? = if books.orderBooks.contains c then cache[c]? else none := by
  rw [evict, Std.ExtTreeMap.getElem?_filter']
  cases hc : cache[c]? <;> by_cases hb : books.orderBooks.contains c <;> simp [hb]

theorem mem_coinsToCompute_of_changed {books : OrderBooks O} {changed : Std.ExtTreeSet Coin}
    {cache : L2Snapshots} {c : Coin} (hc : c ∈ changed) (hb : books.orderBooks.contains c = true) :
    c ∈ coinsToCompute books changed cache := by
  refine List.mem_append_left _ (List.mem_filter.mpr ⟨?_, hb⟩)
  exact Std.ExtTreeSet.mem_toList.mpr hc

/-- A coin that is built has changed, or has a book and no entry. -/
theorem of_mem_coinsToCompute {books : OrderBooks O} {changed : Std.ExtTreeSet Coin}
    {cache : L2Snapshots} {c : Coin} (h : c ∈ coinsToCompute books changed cache) :
    books.orderBooks.contains c = true ∧ (c ∈ changed ∨ cache[c]? = none) := by
  rcases List.mem_append.mp h with h | h
  · obtain ⟨hc, hb⟩ := List.mem_filter.mp h
    exact ⟨hb, Or.inl (Std.ExtTreeSet.mem_toList.mp hc)⟩
  · obtain ⟨hk, hcond⟩ := List.mem_filter.mp (List.mem_of_mem_take h)
    simp only [Bool.and_eq_true, Bool.not_eq_true', Std.ExtTreeMap.contains_eq_isSome_getElem?,
      Option.isSome_eq_false_iff, Option.isNone_iff_eq_none] at hcond
    exact ⟨by simpa using Std.ExtTreeMap.mem_keys.mp hk, Or.inr hcond.1⟩

/-- Inserting the entries of a list whose value depends on the coin alone. -/
theorem getElem?_foldl_insert (value : Coin → Option L2Variants) (coins : List Coin)
    (cache : L2Snapshots) (c : Coin) :
    ((coins.filterMap fun coin => (value coin).map fun v => (coin, v)).foldl
      (fun cache x => cache.insert x.1 x.2) cache)[c]? =
      if c ∈ coins then (value c).or cache[c]? else cache[c]? := by
  induction coins generalizing cache with
  | nil => simp
  | cons coin coins ih =>
    cases hv : value coin with
    | none =>
      rw [List.filterMap_cons_none (by simp [hv]), ih]
      by_cases hc : c = coin
      · subst hc
        simp [hv]
      · simp [hc]
    | some v =>
      rw [List.filterMap_cons_some (b := (coin, v)) (by simp [hv]), List.foldl_cons, ih,
        Std.ExtTreeMap.getElem?_insert]
      by_cases hc : coin = c
      · subst hc
        simp [hv]
      · have hc' : ¬ c = coin := fun h => hc h.symm
        simp [hc, hc']

variable (books : OrderBooks O) (changed : Std.ExtTreeSet Coin) (active : Finset L2SnapshotParams)
  (cache : L2Snapshots)

/-- **The cache after a rebuild.** -/
theorem getElem?_computeL2SnapshotsIncremental (c : Coin) :
    (computeL2SnapshotsIncremental books changed active cache).1[c]? =
      if c ∈ coinsToCompute books changed (evict books cache) then
        books.orderBooks[c]?.map fun book => computeL2VariantsForCoin book active
      else if books.orderBooks.contains c then cache[c]? else none := by
  have h := getElem?_foldl_insert
    (fun c => books.orderBooks[c]?.map fun book => computeL2VariantsForCoin book active)
    (coinsToCompute books changed (evict books cache)) (evict books cache) c
  simp only [Option.map_map] at h
  rw [computeL2SnapshotsIncremental]
  refine h.trans ?_
  rw [getElem?_evict]
  split
  case isTrue hc =>
    have hb := (of_mem_coinsToCompute hc).1
    rw [Std.ExtTreeMap.contains_eq_isSome_getElem?] at hb
    cases hbook : books.orderBooks[c]? with
    | none => simp [hbook] at hb
    | some book => simp
  case isFalse => rfl

/-- **The coins reported**: those that were built, and those that changed and have
no book. -/
theorem mem_recomputed (c : Coin) :
    c ∈ (computeL2SnapshotsIncremental books changed active cache).2.1 ↔
      c ∈ coinsToCompute books changed (evict books cache) ∨
        (c ∈ changed ∧ books.orderBooks[c]? = none) := by
  have hb : ∀ c, books.orderBooks.contains c = (books.orderBooks[c]?).isSome := fun c =>
    Std.ExtTreeMap.contains_eq_isSome_getElem?
  simp only [computeL2SnapshotsIncremental, Std.ExtTreeSet.mem_insertMany_list,
    Std.ExtTreeSet.not_mem_empty, false_or, List.contains_iff_mem, List.mem_filter,
    Std.ExtTreeSet.mem_toList, hb, Bool.not_eq_true', Option.isSome_eq_false_iff,
    Option.isNone_iff_eq_none, List.mem_map, List.mem_filterMap, Option.map_eq_some_iff]
  apply or_congr_left
  constructor
  · rintro ⟨x, ⟨a, ha, book, -, rfl⟩, rfl⟩
    exact ha
  · intro hc
    obtain ⟨book, hbook⟩ := Option.isSome_iff_exists.mp ((hb c) ▸ (of_mem_coinsToCompute hc).1)
    exact ⟨_, ⟨c, hc, book, hbook, rfl⟩, rfl⟩

end HlOrderbook
