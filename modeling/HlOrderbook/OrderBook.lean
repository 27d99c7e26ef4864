import HlOrderbook.Matching
import Mathlib.Logic.Function.Basic

/-!
# The order book of one coin

A book is an index of the resting orders and, for each side, a sorted map of
price levels.  `RawBook` is the code.  What a book is for is said by a partial
map from identifiers to orders: `Shows b g` states that the four structures of
`b` all spell out `g`, and every operation is specified by what it does to `g`.
`OrderBook` is the sealed handle, whose representation shows some valid `g`.

## Main definitions

* `Levels.range` — the entries of a sorted map between two bounds.
* `RawBook O` and its operations.
* `Valid g` — identifiers, sizes and prices of the resting orders are in order.
* `RawBook.Shows b g` — the book spells out `g`.
* `Matched g taker g' taker'` — what matching does to the resting orders.
* `OrderBook O` — the sealed handle, read through `OrderBook.find?`.
-/

set_option autoImplicit false
set_option linter.unusedSectionVars false

namespace HlOrderbook

/-! ## Snapshots -/

/-- The orders of a book, by side, in priority order. -/
structure Snapshot (O : Type) where
  bids : List O
  asks : List O

namespace Snapshot

variable {O : Type} [InnerOrder O]

open InnerOrder

/-- The first `n` entries of each side. -/
def truncate {α : Type} (s : Snapshot α) (n : ℕ) : Snapshot α := ⟨s.bids.take n, s.asks.take n⟩

/-- Pop the orders at the end of one side while they satisfy `p`: what is left,
and the orders popped, in the order they were popped. -/
def popWhile (p : O → Bool) (orders : List O) : List O × List O :=
  ((orders.reverse.dropWhile p).reverse, orders.reverse.takeWhile p)

/-- Strip the orders that stand at the end of both sides, which are those waiting
for their trigger; the answer lists each popped copy. -/
def extractTriggers (s : Snapshot O) : Snapshot O × List O :=
  let inBoth (o : O) : Bool := (s.bids.map oid).contains (oid o) && (s.asks.map oid).contains (oid o)
  let (bids, bidTriggers) := popWhile inBoth s.bids
  let (asks, askTriggers) := popWhile inBoth s.asks
  (⟨bids, asks⟩, bidTriggers ++ askTriggers)

/-- Strip the orders waiting for their trigger. -/
def removeTriggers (s : Snapshot O) : Snapshot O := s.extractTriggers.1

theorem popWhile_popWhile {p p' : O → Bool} (h : ∀ o, p' o = true → p o = true) (orders : List O) :
    (popWhile p' (popWhile p orders).1).1 = (popWhile p orders).1 := by
  simp only [popWhile, List.reverse_reverse, List.reverse_inj]
  cases hd : orders.reverse.dropWhile p with
  | nil => rfl
  | cons o rest =>
    have hp : p o = false := by simpa [hd] using List.head?_dropWhile_not p orders.reverse
    have hp' : p' o = false := by
      by_contra hx
      simp [h o (by simpa using hx)] at hp
    simp [hp']

/-- Stripping the orders waiting for their trigger twice strips them once. -/
theorem removeTriggers_removeTriggers (s : Snapshot O) :
    s.removeTriggers.removeTriggers = s.removeTriggers := by
  have hsub : ∀ (p : O → Bool) (orders : List O) k,
      k ∈ ((popWhile p orders).1.map oid) → k ∈ orders.map oid := by
    intro p orders k hk
    obtain ⟨o, ho, rfl⟩ := List.mem_map.mp hk
    rw [popWhile, List.mem_reverse] at ho
    exact List.mem_map_of_mem (List.mem_reverse.mp ((List.dropWhile_suffix p).subset ho))
  simp only [removeTriggers, extractTriggers, Snapshot.mk.injEq]
  refine ⟨popWhile_popWhile ?_ _, popWhile_popWhile ?_ _⟩ <;>
  · intro o ho
    simp only [Bool.and_eq_true, List.contains_iff_mem] at ho ⊢
    exact ⟨hsub _ _ _ ho.1, hsub _ _ _ ho.2⟩

/-- The orders a book is built from, in the order they are added. -/
def taken (s : Snapshot O) (ignoreTriggers : Bool) : List O :=
  let s := if ignoreTriggers then s.removeTriggers else s
  s.bids ++ s.asks

end Snapshot

/-- An optional inclusive price band. -/
structure PxBand where
  min : Option ℕ
  max : Option ℕ
  deriving DecidableEq

/-- Both bounds are present and the lower is above the upper. -/
def PxBand.isInverted (band : PxBand) : Bool :=
  match band.min, band.max with
  | some lo, some hi => hi < lo
  | _, _ => false

/-- Whether a price is inside the band. -/
def PxBand.contains (band : PxBand) (px : ℕ) : Bool :=
  band.min.all (· ≤ px) && band.max.all (px ≤ ·)

/-- A bound of a range of prices. -/
inductive Bound where
  | included (px : ℕ)
  | unbounded

/-- The bounds of a band. -/
def PxBand.rangeBounds (band : PxBand) : Bound × Bound :=
  (band.min.elim .unbounded .included, band.max.elim .unbounded .included)

/-- A range that starts above its end. -/
def Bound.Crossed : Bound × Bound → Prop
  | (.included lo, .included hi) => hi < lo
  | _ => False

theorem PxBand.crossed_rangeBounds_iff (band : PxBand) :
    Bound.Crossed band.rangeBounds ↔ band.isInverted = true := by
  obtain ⟨lo | lo, hi | hi⟩ := band <;> simp [rangeBounds, Bound.Crossed, isInverted]

/-- The entries between two bounds, found by seeking the lower one and walking to the
upper one.  A range that starts above its end panics. -/
def Levels.range {O : Type} [InnerOrder O] (m : Levels O) (bounds : Bound × Bound)
    (_ : ¬ Bound.Crossed bounds) : List (ℕ × PriceLevel O) :=
  match bounds with
  | (.unbounded, .unbounded) => m.toList
  | (.included lo, .unbounded) => m.toList.dropWhile fun x => x.1 < lo
  | (.unbounded, .included hi) => m.toList.takeWhile fun x => x.1 ≤ hi
  | (.included lo, .included hi) =>
    (m.toList.dropWhile fun x => x.1 < lo).takeWhile fun x => x.1 ≤ hi

/-- On a sorted list, seeking a bound leaves the entries from it on. -/
private theorem dropWhile_lt_eq_filter {α : Type} {l : List (ℕ × α)}
    (h : (l.map Prod.fst).Pairwise (· < ·)) (lo : ℕ) :
    (l.dropWhile fun x => x.1 < lo) = l.filter fun x => lo ≤ x.1 := by
  induction l with
  | nil => rfl
  | cons x l ih =>
    rw [List.map_cons, List.pairwise_cons] at h
    by_cases hx : x.1 < lo
    · rw [List.dropWhile_cons_of_pos (by simpa using hx),
        List.filter_cons_of_neg (by simpa using hx), ih h.2]
    · rw [List.dropWhile_cons_of_neg (by simpa using hx), eq_comm, List.filter_eq_self]
      intro y hy
      rcases List.mem_cons.mp hy with rfl | hy
      · simpa using hx
      · have := h.1 y.1 (List.mem_map_of_mem hy)
        simp only [decide_eq_true_eq]
        omega

/-- And walking to a bound takes the entries up to it. -/
private theorem takeWhile_le_eq_filter {α : Type} {l : List (ℕ × α)}
    (h : (l.map Prod.fst).Pairwise (· < ·)) (hi : ℕ) :
    (l.takeWhile fun x => x.1 ≤ hi) = l.filter fun x => x.1 ≤ hi := by
  refine takeWhile_eq_filter ((List.pairwise_map.mp h).imp ?_)
  intro x y hxy hy
  simp only [decide_eq_true_eq] at hy ⊢
  omega

/-- **The range of a band is the levels inside it.** -/
theorem Levels.range_rangeBounds {O : Type} [InnerOrder O] (m : Levels O) (band : PxBand)
    (hbounds : ¬ Bound.Crossed band.rangeBounds) :
    Levels.range m band.rangeBounds hbounds = m.toList.filter fun x => band.contains x.1 := by
  have hlt : (m.toList.map Prod.fst).Pairwise (· < ·) := by
    rw [List.pairwise_map]
    exact m.ordered_keys_toList.imp fun h => Nat.compare_eq_lt.mp h
  obtain ⟨lo | lo, hi | hi⟩ := band
  · simp [PxBand.rangeBounds, Levels.range, PxBand.contains]
  · simp [PxBand.rangeBounds, Levels.range, PxBand.contains, takeWhile_le_eq_filter hlt]
  · simp [PxBand.rangeBounds, Levels.range, PxBand.contains, dropWhile_lt_eq_filter hlt]
  · have hdrop := hlt.sublist ((List.dropWhile_sublist fun x => x.1 < lo).map Prod.fst)
    have htake := takeWhile_le_eq_filter hdrop hi
    rw [dropWhile_lt_eq_filter hlt, List.filter_filter] at htake
    simp [PxBand.rangeBounds, Levels.range, PxBand.contains, dropWhile_lt_eq_filter hlt, htake,
      Bool.and_comm]

/-! ## The code -/

/-- The index of the resting orders, and the levels of the two sides. -/
structure RawBook (O : Type) where
  oidToSidePx : Std.ExtTreeMap ℕ (Side × ℕ)
  bids : Levels O
  asks : Levels O

variable {O : Type} [InnerOrder O]

open InnerOrder

/-- Rest an order at its price level, in front of its anchor when it has one.  An
anchor that is not at the level degrades to the back of it, and is reported. -/
def addOrderToBook [SlabPolicy] (map : Levels O) (order : O) (insertBefore : Option ℕ) :
    Levels O × Bool :=
  let px := limitPx order
  let level := (map[px]?).getD PriceLevel.new
  match insertBefore with
  | none => (map.insert px (level.pushBack (oid order) order).1, false)
  | some before =>
    if level.contains before then
      (map.insert px (level.insertBefore before (oid order) order).1, false)
    else (map.insert px (level.pushBack (oid order) order).1, true)

namespace RawBook

/-- The levels of one side. -/
def side (b : RawBook O) : Side → Levels O
  | .ask => b.asks
  | .bid => b.bids

/-- Replace the levels of one side. -/
def setSide (b : RawBook O) (s : Side) (levels : Levels O) : RawBook O :=
  match s with
  | .ask => { b with asks := levels }
  | .bid => { b with bids := levels }

/-- A book with no order. -/
def new : RawBook O := ⟨∅, ∅, ∅⟩

/-- The number of orders. -/
def orderCount (b : RawBook O) : ℕ := b.oidToSidePx.size

/-- Match an order against the other side, and rest what is left of it.  An
identifier that is in the book already is ignored.  The answer is whether an
anchor was not found. -/
def addOrderBefore [SlabPolicy] (b : RawBook O) (order : O) (insertBefore : Option ℕ) :
    RawBook O × Bool :=
  if b.oidToSidePx.contains (oid order) then (b, false)
  else
    let takerSide := InnerOrder.side order
    let (makerOrders, order, oids) := matchOrder (b.side takerSide.opposite) order
    let index := oids.foldl (fun m k => m.erase k) b.oidToSidePx
    let b := { b.setSide takerSide.opposite makerOrders with oidToSidePx := index }
    if 0 < sz order then
      let (restingBook, fellBack) := addOrderToBook (b.side takerSide) order insertBefore
      ({ b.setSide takerSide restingBook with
        oidToSidePx := index.insert (oid order) (takerSide, limitPx order) }, fellBack)
    else (b, false)

/-- Rest an order at the back of its level. -/
def addOrder [SlabPolicy] (b : RawBook O) (order : O) : RawBook O := (b.addOrderBefore order none).1

/-- Remove an order; `false` when it is not in the book. -/
def cancelOrder (b : RawBook O) (oid : ℕ) : RawBook O × Bool :=
  match b.oidToSidePx[oid]? with
  | none => (b, false)
  | some (s, px) =>
    let b := { b with oidToSidePx := b.oidToSidePx.erase oid }
    match (b.side s)[px]? with
    | none => (b, false)
    | some level =>
      let (level, removed) := level.remove oid
      let levels := if level.isEmpty then (b.side s).erase px else (b.side s).insert px level
      (b.setSide s levels, removed.isSome)

/-- Change an order's size; zero removes it.  `false` when it is not in the
book. -/
def modifySz (b : RawBook O) (oid newSz : ℕ) : RawBook O × Bool :=
  if newSz = 0 then b.cancelOrder oid
  else match b.oidToSidePx[oid]? with
    | none => (b, false)
    | some (s, px) =>
      match (b.side s)[px]? with
      | none => (b, false)
      | some level =>
        let (level, modified) := level.modifyOrderSz oid newSz
        (b.setSide s ((b.side s).insert px level), modified)

/-- Compact every level; the answer counts the levels that were rebuilt. -/
def compact [SlabPolicy] (b : RawBook O) : RawBook O × ℕ :=
  let rebuilt (m : Levels O) : ℕ := m.values.countP fun level => level.compact.2
  ({ b with
    bids := b.bids.map fun _ level => level.compact.1
    asks := b.asks.map fun _ level => level.compact.1 }, rebuilt b.bids + rebuilt b.asks)

/-- The orders inside a band, best price first.  The guard keeps an inverted band from
panicking. -/
def toSnapshotInBand (b : RawBook O) (band : PxBand) : Snapshot O :=
  if hinverted : band.isInverted = true then ⟨[], []⟩
  else
    have hbounds := mt band.crossed_rangeBounds_iff.mp hinverted
    ⟨(Levels.range b.bids band.rangeBounds hbounds).reverse.flatMap fun x => x.2.toVec,
      (Levels.range b.asks band.rangeBounds hbounds).flatMap fun x => x.2.toVec⟩

/-- **The snapshot in a band is made of the levels inside it.** -/
theorem toSnapshotInBand_eq_filter (b : RawBook O) (band : PxBand) :
    b.toSnapshotInBand band =
      if band.isInverted then ⟨[], []⟩
      else ⟨(b.bids.toList.filter fun x => band.contains x.1).reverse.flatMap fun x => x.2.toVec,
        (b.asks.toList.filter fun x => band.contains x.1).flatMap fun x => x.2.toVec⟩ := by
  rw [toSnapshotInBand]
  split
  case isTrue => rfl
  case isFalse => simp only [Levels.range_rangeBounds]

/-- The order with an identifier, found through the index. -/
def find? (b : RawBook O) (k : ℕ) : Option O := do
  let (s, px) ← b.oidToSidePx[k]?
  let level ← (b.side s)[px]?
  level.orders.nodeValue k

@[simp] theorem side_setSide (b : RawBook O) (s : Side) (m : Levels O) :
    (b.setSide s m).side s = m := by
  cases s <;> rfl

theorem side_setSide_of_ne (b : RawBook O) {s t : Side} (h : t ≠ s) (m : Levels O) :
    (b.setSide s m).side t = b.side t := by
  cases s <;> cases t <;> simp_all [side, setSide]

@[simp] theorem oidToSidePx_setSide (b : RawBook O) (s : Side) (m : Levels O) :
    (b.setSide s m).oidToSidePx = b.oidToSidePx := by
  cases s <;> rfl

@[simp] theorem side_withIndex (b : RawBook O) (index : Std.ExtTreeMap ℕ (Side × ℕ)) (s : Side) :
    ({ b with oidToSidePx := index } : RawBook O).side s = b.side s := by
  cases s <;> rfl

theorem setSide_withIndex (b : RawBook O) (index : Std.ExtTreeMap ℕ (Side × ℕ)) (s : Side)
    (m : Levels O) : ({ b with oidToSidePx := index } : RawBook O).setSide s m =
      { b.setSide s m with oidToSidePx := index } := by
  cases s <;> rfl

end RawBook

/-! ## What a book is for -/

/-- The resting orders are in order: each under its identifier, of positive size,
and no bid at or above an ask. -/
structure Valid (g : ℕ → Option O) : Prop where
  oid_eq : ∀ {k o}, g k = some o → oid o = k
  positive : ∀ {k o}, g k = some o → 0 < sz o
  uncrossed : ∀ {j k b a}, g j = some b → g k = some a → side b = .bid → side a = .ask →
    limitPx b < limitPx a

/-- Whether a resting order trades with a taker. -/
def meets (taker o : O) : Bool :=
  side o = (side taker).opposite && crosses (side taker) (limitPx taker) (limitPx o)

theorem meets_iff {taker o : O} : meets taker o = true ↔ side o = (side taker).opposite ∧
    crosses (side taker) (limitPx taker) (limitPx o) = true := by
  simp [meets]

@[simp] theorem meets_modifySz_left (taker o : O) (s : ℕ) :
    meets (modifySz taker s) o = meets taker o := by
  simp [meets]

@[simp] theorem meets_modifySz_right (taker o : O) (s : ℕ) :
    meets taker (modifySz o s) = meets taker o := by
  simp [meets]

/-- What matching a taker does to the resting orders: the orders it does not meet
stay as they are, those it meets are gone or smaller, and if something is left
of it then all of those are gone. -/
structure Matched (g : ℕ → Option O) (taker : O) (g' : ℕ → Option O) (taker' : O) : Prop where
  none : ∀ k, g k = .none → g' k = .none
  unmet : ∀ k o, g k = some o → meets taker o = false → g' k = some o
  met : ∀ k o, g k = some o → g' k = .none ∨
    ∃ s, 0 < s ∧ s ≤ sz o ∧ g' k = some (modifySz o s)
  exhausted : sz taker' ≠ 0 → ∀ k o, g k = some o → meets taker o = true → g' k = .none
  taker_eq : taker' = modifySz taker (sz taker')
  taker_le : sz taker' ≤ sz taker
  idle : (∀ k o, g k = some o → meets taker o = false) → taker' = taker

/-- A taker that meets no order changes nothing. -/
theorem Matched.eq_of_unmet {g g' : ℕ → Option O} {taker taker' : O}
    (hm : Matched g taker g' taker') (h : ∀ k o, g k = some o → meets taker o = false) :
    g' = g ∧ taker' = taker := by
  refine ⟨funext fun k => ?_, hm.idle h⟩
  cases hk : g k with
  | none => exact hm.none k hk
  | some o => exact hm.unmet k o hk (h k o hk)

namespace Valid

variable {g g' : ℕ → Option O} {taker taker' : O}

theorem empty : Valid (fun _ => none : ℕ → Option O) :=
  ⟨by simp, by simp, by simp⟩

/-- Removing an order. -/
theorem cancel (h : Valid g) (k : ℕ) : Valid (Function.update g k none) := by
  have hsub : ∀ {j o}, Function.update g k none j = some o → g j = some o := by
    intro j o hj
    by_cases hk : j = k
    · subst hk
      simp at hj
    · simpa [Function.update_of_ne hk] using hj
  exact ⟨fun hj => h.oid_eq (hsub hj), fun hj => h.positive (hsub hj),
    fun hj hk => h.uncrossed (hsub hj) (hsub hk)⟩

/-- An order of `g'` is one of `g` with another positive size. -/
theorem of_resized (h : Valid g)
    (hsub : ∀ {k o'}, g' k = some o' → ∃ o, g k = some o ∧ o' = modifySz o (sz o') ∧ 0 < sz o') :
    Valid g' := by
  refine ⟨?_, ?_, ?_⟩
  · intro k o' hk
    obtain ⟨o, ho, heq, -⟩ := hsub hk
    rw [heq, oid_modifySz]
    exact h.oid_eq ho
  · intro k o' hk
    obtain ⟨o, -, -, hpos⟩ := hsub hk
    exact hpos
  · intro j k b' a' hj hk hb ha
    obtain ⟨b, hjb, hbeq, -⟩ := hsub hj
    obtain ⟨a, hka, haeq, -⟩ := hsub hk
    rw [hbeq, side_modifySz] at hb
    rw [haeq, side_modifySz] at ha
    rw [hbeq, haeq, limitPx_modifySz, limitPx_modifySz]
    exact h.uncrossed hjb hka hb ha

/-- Changing an order's size. -/
theorem resize (h : Valid g) (k : ℕ) {s : ℕ} (hs : 0 < s) :
    Valid (Function.update g k ((g k).map (modifySz · s))) := by
  refine h.of_resized ?_
  intro j o' hj
  by_cases hk : j = k
  · subst hk
    rw [Function.update_self, Option.map_eq_some_iff] at hj
    obtain ⟨o, ho, rfl⟩ := hj
    exact ⟨o, ho, by simp, by simpa using hs⟩
  · rw [Function.update_of_ne hk] at hj
    exact ⟨o', hj, by simp, h.positive hj⟩

/-- Matching a taker. -/
theorem matched (h : Valid g) (hm : Matched g taker g' taker') : Valid g' := by
  refine h.of_resized ?_
  intro k o' hk
  cases hg : g k with
  | none => rw [hm.none k hg] at hk; simp at hk
  | some o =>
    rcases hm.met k o hg with hnone | ⟨s, hs, -, hsome⟩
    · rw [hnone] at hk; simp at hk
    · rw [hsome, Option.some.injEq] at hk
      subst hk
      exact ⟨o, rfl, by simp, by simpa using hs⟩

/-- **Resting what is left of a taker.**  It meets no order any more, so the book
stays uncrossed. -/
theorem rest (h : Valid g) (hm : Matched g taker g' taker') (hpos : sz taker' ≠ 0) :
    Valid (Function.update g' (oid taker') (some taker')) := by
  have hg' := h.matched hm
  have hunmet : ∀ k o, g' k = some o → meets taker o = false := by
    intro k o hk
    cases hg : g k with
    | none => rw [hm.none k hg] at hk; simp at hk
    | some o₀ =>
      by_cases hmeet : meets taker o₀ = true
      · rw [hm.exhausted hpos k o₀ hg hmeet] at hk
        simp at hk
      · rw [hm.unmet k o₀ hg (by simpa using hmeet)] at hk
        cases hk
        simpa using hmeet
  have hside : side taker' = side taker := by rw [hm.taker_eq, side_modifySz]
  have hlimit : limitPx taker' = limitPx taker := by rw [hm.taker_eq, limitPx_modifySz]
  have hcases : ∀ {k o}, Function.update g' (oid taker') (some taker') k = some o →
      (k = oid taker' ∧ o = taker') ∨ g' k = some o := by
    intro k o hk
    by_cases he : k = oid taker'
    · subst he
      rw [Function.update_self, Option.some.injEq] at hk
      exact Or.inl ⟨rfl, hk.symm⟩
    · rw [Function.update_of_ne he] at hk
      exact Or.inr hk
  refine ⟨?_, ?_, ?_⟩
  · intro k o hk
    rcases hcases hk with ⟨rfl, rfl⟩ | hk
    · rfl
    · exact hg'.oid_eq hk
  · intro k o hk
    rcases hcases hk with ⟨rfl, rfl⟩ | hk
    · omega
    · exact hg'.positive hk
  · intro j k b a hj hk hb ha
    rcases hcases hj with ⟨rfl, rfl⟩ | hj' <;> rcases hcases hk with ⟨rfl, rfl⟩ | hk'
    · rw [hb] at ha
      cases ha
    · have := hunmet k a hk'
      simp [meets, crosses, ← hside, ← hlimit, hb, ha, Side.opposite] at this
      exact this
    · have := hunmet j b hj'
      simp [meets, crosses, ← hside, ← hlimit, hb, ha, Side.opposite] at this
      exact this
    · exact hg'.uncrossed hj' hk' hb ha

end Valid

end HlOrderbook
