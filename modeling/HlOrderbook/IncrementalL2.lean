import HlOrderbook.Aggregates
import HlOrderbook.L2Snapshots
import Mathlib.Data.List.Nodup

/-!
# The incremental rebuild

The cache of aggregated books is rebuilt for the coins that changed and for the first
few of those that have a book and no entry.  An entry that is current before a call, for
every coin outside the changed ones, makes every entry current after it; and the coins
without an entry become fewer with every call, by as many as one call may build.

## Main definitions

* `CurrentOutside` — the entries of unchanged coins are what their books give.
* `Rebuilt` — what a call answers.
* `rebuilds calls cache` — the cache after several calls.
* `uncached books changed cache` — the coins that wait for their entry.
-/

set_option autoImplicit false
set_option linter.unusedSectionVars false

namespace HlOrderbook

variable [FixedPoint] {O : Type} [InnerOrder O]

/-- Every entry of a coin outside the changed ones is what its book gives. -/
def CurrentOutside (books : OrderBooks O) (changed : Std.ExtTreeSet Coin)
    (active : Finset L2SnapshotParams) (cache : L2Snapshots) : Prop :=
  ∀ (c : Coin) entry, cache[c]? = some entry → c ∉ changed →
    ∀ book, books.orderBooks[c]? = some book → entry = computeL2VariantsForCoin book active

/-- What a call answers: every entry is what a rebuild from the coin's book gives, in
every active shape; every changed coin with a book has one; and the coins reported are
those built and the changed ones without a book. -/
structure Rebuilt (books : OrderBooks O) (changed : Std.ExtTreeSet Coin)
    (active : Finset L2SnapshotParams) (cache : L2Snapshots)
    (r : L2Snapshots × Std.ExtTreeSet Coin × Bool) : Prop where
  entry : ∀ (c : Coin) entry, r.1[c]? = some entry → ∃ book, books.orderBooks[c]? = some book ∧
    entry = computeL2VariantsForCoin book active ∧ ∀ p ∈ active,
      entry p = some (book.toL2Snapshot (some maxLevels) p.nSigFigs p.mantissa)
  changed_mem : ∀ c ∈ changed, books.orderBooks.contains c = true → r.1.contains c = true
  book_mem : ∀ c, r.1.contains c = true → books.orderBooks.contains c = true
  recomputed : ∀ c, c ∈ r.2.1 ↔ c ∈ coinsToCompute books changed (evict books cache) ∨
    c ∈ changed ∧ books.orderBooks.contains c = false

theorem contains_eq_isSome {books : OrderBooks O} {c : Coin} :
    books.orderBooks.contains c = (books.orderBooks[c]?).isSome :=
  Std.ExtTreeMap.contains_eq_isSome_getElem?

/-- **A call answers with rebuilt entries.** -/
theorem CurrentOutside.rebuilt {books : OrderBooks O} {changed : Std.ExtTreeSet Coin}
    {active : Finset L2SnapshotParams} {cache : L2Snapshots}
    (h : CurrentOutside books changed active cache) :
    Rebuilt books changed active cache
      (computeL2SnapshotsIncremental books changed active cache) := by
  have hentry : ∀ (c : Coin) entry,
      (computeL2SnapshotsIncremental books changed active cache).1[c]? = some entry →
      ∃ book, books.orderBooks[c]? = some book ∧
        entry = computeL2VariantsForCoin book active := by
    intro c entry hc
    rw [getElem?_computeL2SnapshotsIncremental] at hc
    by_cases hbuilt : c ∈ coinsToCompute books changed (evict books cache)
    · rw [if_pos hbuilt, Option.map_eq_some_iff] at hc
      obtain ⟨book, hbook, rfl⟩ := hc
      exact ⟨book, hbook, rfl⟩
    · rw [if_neg hbuilt] at hc
      cases hbook : books.orderBooks[c]? with
      | none => simp [contains_eq_isSome, hbook] at hc
      | some book =>
        rw [contains_eq_isSome, hbook, Option.isSome_some, if_pos rfl] at hc
        have hunchanged : c ∉ changed := fun hmem => hbuilt
          (mem_coinsToCompute_of_changed hmem (by rw [contains_eq_isSome, hbook]; rfl))
        exact ⟨book, rfl, h c entry hc hunchanged book hbook⟩
  refine ⟨?_, ?_, ?_, ?_⟩
  · intro c entry hc
    obtain ⟨book, hbook, rfl⟩ := hentry c entry hc
    exact ⟨book, hbook, rfl, fun p hp => computeL2VariantsForCoin_eq_some hp⟩
  · intro c hc hbook
    have hbuilt : c ∈ coinsToCompute books changed (evict books cache) :=
      mem_coinsToCompute_of_changed hc hbook
    rw [Std.ExtTreeMap.contains_eq_isSome_getElem?, getElem?_computeL2SnapshotsIncremental,
      if_pos hbuilt, Option.isSome_map, ← contains_eq_isSome]
    exact hbook
  · intro c hc
    rw [Std.ExtTreeMap.contains_eq_isSome_getElem?, Option.isSome_iff_exists] at hc
    obtain ⟨entry, hc⟩ := hc
    obtain ⟨book, hbook, -⟩ := hentry c entry hc
    rw [contains_eq_isSome, hbook]
    rfl
  · intro c
    rw [mem_recomputed, contains_eq_isSome, Option.isSome_eq_false_iff,
      Option.isNone_iff_eq_none]

/-! ## Calls one after the other -/

/-- The cache after calls with the same active shapes, each with its books and the coins
that changed before it. -/
def rebuilds (active : Finset L2SnapshotParams) :
    List (OrderBooks O × Std.ExtTreeSet Coin) → L2Snapshots → L2Snapshots
  | [], cache => cache
  | (books, changed) :: calls, cache =>
    rebuilds active calls (computeL2SnapshotsIncremental books changed active cache).1

/-- **After a call every entry is current.** -/
theorem CurrentOutside.call {books : OrderBooks O} {changed : Std.ExtTreeSet Coin}
    {active : Finset L2SnapshotParams} {cache : L2Snapshots}
    (h : CurrentOutside books changed active cache) : CurrentOutside books ∅ active
      (computeL2SnapshotsIncremental books changed active cache).1 := by
  intro c entry hc _ book hbook
  obtain ⟨book', hbook', heq, -⟩ := h.rebuilt.entry c entry hc
  rw [hbook, Option.some.injEq] at hbook'
  rw [hbook']
  exact heq

/-- Each call names the coins whose book is another than at the call before. -/
def NamesChanges : OrderBooks O → List (OrderBooks O × Std.ExtTreeSet Coin) → Prop
  | _, [] => True
  | before, (books, changed) :: calls =>
    (∀ c : Coin, c ∉ changed → books.orderBooks[c]? = before.orderBooks[c]?) ∧
      NamesChanges books calls

/-- The books at the last call. -/
def booksAfter (before : OrderBooks O) (calls : List (OrderBooks O × Std.ExtTreeSet Coin)) :
    OrderBooks O := calls.foldl (fun _ call => call.1) before

/-- **No entry is ever stale**: however the books change between the calls, after each
of them every entry is what its book gives.  A change of shapes clears the cache, and
nothing is stale in an empty one. -/
theorem CurrentOutside.rebuilds {active : Finset L2SnapshotParams} {before : OrderBooks O}
    {cache : L2Snapshots} (h : CurrentOutside before ∅ active cache)
    {calls : List (OrderBooks O × Std.ExtTreeSet Coin)} (hcalls : NamesChanges before calls) :
    CurrentOutside (booksAfter before calls) ∅ active (rebuilds active calls cache) := by
  induction calls generalizing before cache with
  | nil => exact h
  | cons call calls ih =>
    obtain ⟨books, changed⟩ := call
    have houtside : CurrentOutside books changed active cache := by
      intro c entry hc hunchanged book hbook
      rw [hcalls.1 c hunchanged] at hbook
      exact h c entry hc Std.ExtTreeSet.not_mem_empty book hbook
    exact ih houtside.call hcalls.2

/-- The coins that have a book, have not changed and wait for their entry. -/
def uncached (books : OrderBooks O) (changed : Std.ExtTreeSet Coin) (cache : L2Snapshots) :
    List Coin :=
  books.orderBooks.keys.filter fun c => !cache.contains c && !changed.contains c

/-- Dropping the first of some distinct elements is dropping what is among them. -/
private theorem filter_notMem_take {A : Type} [DecidableEq A] {l : List A} (h : l.Nodup) (n : ℕ) :
    (l.filter fun a => a ∉ l.take n) = l.drop n := by
  have hsplit := List.take_append_drop n l
  have hdisjoint : ∀ a ∈ l.drop n, a ∉ l.take n := by
    intro a ha hmem
    rw [← hsplit, List.nodup_append] at h
    exact h.2.2 a hmem a ha rfl
  conv_lhs => rw [← hsplit]
  rw [List.filter_append, hsplit]
  rw [List.filter_eq_nil_iff.mpr (by simp), List.nil_append,
    List.filter_eq_self.mpr (by simpa using hdisjoint)]

variable (books : OrderBooks O) (changed : Std.ExtTreeSet Coin) (active : Finset L2SnapshotParams)
  (cache : L2Snapshots)

/-- **A call builds the first of the coins that wait.** -/
theorem uncached_computeL2SnapshotsIncremental :
    uncached books ∅ (computeL2SnapshotsIncremental books changed active cache).1 =
      (uncached books changed cache).drop l2BackfillCoinsPerFlush := by
  have hnodup : (uncached books changed cache).Nodup :=
    (Std.ExtTreeMap.nodup_keys (t := books.orderBooks)).filter _
  have hwait : (books.orderBooks.keys.filter fun c =>
      !(evict books cache).contains c && !changed.contains c) = uncached books changed cache := by
    refine List.filter_congr fun c hc => ?_
    have hb : books.orderBooks.contains c = true := by
      simpa using Std.ExtTreeMap.mem_keys.mp hc
    rw [Std.ExtTreeMap.contains_eq_isSome_getElem?, getElem?_evict, if_pos hb,
      ← Std.ExtTreeMap.contains_eq_isSome_getElem?]
  rw [← filter_notMem_take hnodup]
  -- the coins built beside the changed ones
  generalize htake : (uncached books changed cache).take l2BackfillCoinsPerFlush = built
  have hcontains : ∀ c ∈ books.orderBooks.keys,
      ((computeL2SnapshotsIncremental books changed active cache).1.contains c = true ↔
        (c ∈ changed ∨ c ∈ built) ∨ cache.contains c = true) := by
    intro c hc
    have hb : books.orderBooks.contains c = true := by
      simpa using Std.ExtTreeMap.mem_keys.mp hc
    have hbuilt : c ∈ coinsToCompute books changed (evict books cache) ↔
        c ∈ changed ∨ c ∈ built := by
      rw [coinsToCompute, hwait, htake, List.mem_append, List.mem_filter,
        Std.ExtTreeSet.mem_toList]
      simp [hb]
    rw [Std.ExtTreeMap.contains_eq_isSome_getElem?, getElem?_computeL2SnapshotsIncremental,
      if_pos hb, ← hbuilt, Std.ExtTreeMap.contains_eq_isSome_getElem? (t := cache)]
    split
    case isTrue hc' =>
      rw [Option.isSome_map, ← contains_eq_isSome]
      exact iff_of_true hb (Or.inl hc')
    case isFalse hc' => simp [hc']
  rw [uncached, uncached, List.filter_filter]
  refine List.filter_congr fun c hc => ?_
  rw [Bool.eq_iff_iff]
  simp only [Bool.and_eq_true, Bool.not_eq_true', ← Bool.not_eq_true, hcontains c hc,
    decide_eq_true_eq, Std.ExtTreeSet.contains_iff_mem, Std.ExtTreeSet.not_mem_empty,
    not_false_eq_true, and_true]
  tauto

/-- The coins that wait after one call and others without changes. -/
theorem uncached_rebuilds (n : ℕ) :
    uncached books ∅ (rebuilds active ((books, changed) :: List.replicate n (books, ∅)) cache) =
      (uncached books changed cache).drop (l2BackfillCoinsPerFlush * (n + 1)) := by
  induction n generalizing changed cache with
  | zero =>
    rw [List.replicate_zero, rebuilds, rebuilds, Nat.zero_add, Nat.mul_one]
    exact uncached_computeL2SnapshotsIncremental books changed active cache
  | succ n ih =>
    rw [List.replicate_succ, rebuilds, ih, uncached_computeL2SnapshotsIncremental, List.drop_drop]
    congr 1
    rw [Nat.mul_succ _ (n + 1), Nat.add_comm]

/-- Every coin with a book has its current entry. -/
def AllCurrent (books : OrderBooks O) (active : Finset L2SnapshotParams) (cache : L2Snapshots) :
    Prop :=
  ∀ (c : Coin) book, books.orderBooks[c]? = some book →
    cache[c]? = some (computeL2VariantsForCoin book active)

/-- Where no entry is stale, all are there once no coin waits. -/
theorem CurrentOutside.allCurrent_iff {books : OrderBooks O} {active : Finset L2SnapshotParams}
    {cache : L2Snapshots} (h : CurrentOutside books ∅ active cache) :
    AllCurrent books active cache ↔ uncached books ∅ cache = [] := by
  rw [uncached, List.filter_eq_nil_iff]
  constructor
  · intro hall c hc
    have hb : books.orderBooks.contains c = true := by
      simpa using Std.ExtTreeMap.mem_keys.mp hc
    rw [contains_eq_isSome, Option.isSome_iff_exists] at hb
    obtain ⟨book, hbook⟩ := hb
    simp [Std.ExtTreeMap.contains_eq_isSome_getElem?, hall c book hbook]
  · intro hall c book hbook
    have hc : c ∈ books.orderBooks.keys := by
      rw [Std.ExtTreeMap.mem_keys, ← Std.ExtTreeMap.contains_iff_mem, contains_eq_isSome, hbook]
      rfl
    have := hall c hc
    cases hentry : cache[c]? with
    | none => simp [Std.ExtTreeMap.contains_eq_isSome_getElem?, hentry] at this
    | some entry => rw [h c entry hentry Std.ExtTreeSet.not_mem_empty book hbook]

/-- **Incremental aggregation equals a full rebuild.**  With entries that are current
outside the changed coins, the answer is rebuilt; and the call and others without
changes reach all coins exactly when there are as many calls as there are thirty-twos,
rounded up, among the coins that wait. -/
theorem incremental_eq_rebuild {books : OrderBooks O} {changed : Std.ExtTreeSet Coin}
    {active : Finset L2SnapshotParams} {cache : L2Snapshots}
    (h : CurrentOutside books changed active cache) :
    Rebuilt books changed active cache
      (computeL2SnapshotsIncremental books changed active cache) ∧
    ∀ n, AllCurrent books active
        (rebuilds active ((books, changed) :: List.replicate n (books, ∅)) cache) ↔
      ((uncached books changed cache).length + 31) / 32 ≤ n + 1 := by
  refine ⟨h.rebuilt, fun n => ?_⟩
  have hsame : ∀ n, NamesChanges books (List.replicate n (books, (∅ : Std.ExtTreeSet Coin))) := by
    intro n
    induction n with
    | zero => trivial
    | succ n ih => exact ⟨fun _ _ => rfl, ih⟩
  have hlast : ∀ n, booksAfter books (List.replicate n (books, (∅ : Std.ExtTreeSet Coin))) =
      books := by
    intro n
    induction n with
    | zero => rfl
    | succ n ih => exact ih
  have hcurrent : CurrentOutside books ∅ active
      (rebuilds active ((books, changed) :: List.replicate n (books, ∅)) cache) := by
    have hcalls := h.call.rebuilds (hsame n)
    rwa [hlast] at hcalls
  rw [hcurrent.allCurrent_iff, uncached_rebuilds, List.drop_eq_nil_iff, l2BackfillCoinsPerFlush]
  omega

end HlOrderbook

namespace HlOrderbook

section Example

attribute [local instance] SlabPolicy.latest FixedPoint.decimal

/-- Two coins with an ask each. -/
def twoCoins : OrderBooks InnerL4Order :=
  ((OrderBooks.mk ∅).addOrderBefore (orderAt .ask 101 5 1) none).1.addOrderBefore
    { orderAt .ask 7 3 2 with coin := "ETH" } none |>.1

/-- One of them gets another ask. -/
def twoCoinsLater : OrderBooks InnerL4Order := (twoCoins.addOrderBefore (orderAt .ask 100 2 3) none).1

/-- A call with the coin that changed: its entry is new, the other is kept. -/
theorem rebuilt_twoCoinsLater :
    let cache := rebuilds {.base} [(twoCoins, ∅)] ∅
    let changed := (∅ : Std.ExtTreeSet Coin).insert "BTC"
    Rebuilt twoCoinsLater changed {.base} cache
      (computeL2SnapshotsIncremental twoCoinsLater changed {.base} cache) ∧
    ((computeL2SnapshotsIncremental twoCoinsLater changed {.base} cache).1["BTC"]?.bind
      fun entry => (entry .base).map Snapshot.asks) = some [⟨100, 2, 1⟩, ⟨101, 5, 1⟩] := by
  intro cache changed
  have hempty : CurrentOutside twoCoins ∅ {.base} ∅ := by
    intro c entry hc
    simp at hc
  have hcache : CurrentOutside twoCoins ∅ {.base} cache :=
    hempty.rebuilds ⟨fun _ _ => rfl, trivial⟩
  have houtside : CurrentOutside twoCoinsLater changed {.base} cache := by
    intro c entry hc hunchanged book hbook
    refine hcache c entry hc Std.ExtTreeSet.not_mem_empty book ?_
    have hne : ¬ "BTC" = c := by
      rintro rfl
      exact hunchanged (by simp [changed])
    have hinsert : twoCoinsLater.orderBooks[c]? = if "BTC" = c then _ else twoCoins.orderBooks[c]? :=
      Std.ExtTreeMap.getElem?_insert.trans (by simp; rfl)
    rw [hinsert, if_neg hne] at hbook
    exact hbook
  exact ⟨(incremental_eq_rebuild houtside).1, by decide +kernel⟩

end Example

end HlOrderbook
