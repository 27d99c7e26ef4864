import HlOrderbook.BookSpec

/-!
# Runs of the order book

The operations a caller can make on a book, in any order, from an empty book or
from one built out of two lists of orders; and the representation invariant that
every run keeps, stated on the four structures themselves.

## Main definitions

* `RawBook.fromSnapshot`, `RawBook.getBbo` — building a book and its best prices.
* `BookOp O`, `BookStart O`, `RawBook.run` — the runs.
* `RawBook.Represents` — the representation invariant.
-/

set_option autoImplicit false
set_option linter.unusedSectionVars false

namespace HlOrderbook

variable {O : Type} [InnerOrder O]

open InnerOrder

namespace RawBook

/-- Build a book by adding the bids, then the asks. -/
def fromSnapshot [SlabPolicy] (snapshot : Snapshot O) (ignoreTriggers : Bool) : RawBook O :=
  let snapshot := if ignoreTriggers then snapshot.removeTriggers else snapshot
  snapshot.asks.foldl addOrder (snapshot.bids.foldl addOrder new)

/-- A level's price, the sum of its sizes and its number of orders. -/
def aggregateEntry (x : ℕ × PriceLevel O) : ℕ × ℕ × ℕ :=
  (x.1, x.2.totalSz, min x.2.len (2 ^ 32 - 1))

/-- The best bid and the best ask. -/
def getBbo (b : RawBook O) : Option (ℕ × ℕ × ℕ) × Option (ℕ × ℕ × ℕ) :=
  (b.bids.toList.getLast?.map aggregateEntry, b.asks.toList.head?.map aggregateEntry)

/-- The resting orders, the bids first, from the lowest price of each side. -/
def restingOrders (b : RawBook O) : List O :=
  (b.bids.toList ++ b.asks.toList).flatMap fun x => x.2.toVec

/-- An identifier with the side and price it is indexed under. -/
def indexEntry (o : O) : ℕ × Side × ℕ := (oid o, InnerOrder.side o, limitPx o)

/-- The representation invariant: the index lists each resting order once, under
its side and price; an order rests on its side, at its price, under its key; no
level is empty, no size is zero, and the best bid is below the best ask. -/
structure Represents (b : RawBook O) : Prop where
  index : (b.restingOrders.map indexEntry).Perm b.oidToSidePx.toList
  once : (b.restingOrders.map oid).Nodup
  placed : ∀ s (px : ℕ) (l : PriceLevel O), (b.side s)[px]? = some l → ∀ x ∈ l.items,
    oid x.2 = x.1 ∧ InnerOrder.side x.2 = s ∧ limitPx x.2 = px
  nonempty : ∀ s (px : ℕ) (l : PriceLevel O), (b.side s)[px]? = some l → l.isEmpty = false
  positive : ∀ o ∈ b.restingOrders, 0 < sz o
  uncrossed : ∀ x y, b.getBbo = (some x, some y) → x.1 < y.1

end RawBook

/-! ## Runs -/

/-- An operation on a book. -/
inductive BookOp (O : Type) where
  | addOrderBefore (order : O) (insertBefore : Option ℕ)
  | cancelOrder (oid : ℕ)
  | modifySz (oid newSz : ℕ)
  | compact

/-- How a book begins. -/
inductive BookStart (O : Type) where
  | new
  | fromSnapshot (snapshot : Snapshot O) (ignoreTriggers : Bool)

namespace RawBook

/-- The book a run begins with. -/
def start [SlabPolicy] : BookStart O → RawBook O
  | .new => new
  | .fromSnapshot snapshot ignoreTriggers => fromSnapshot snapshot ignoreTriggers

/-- One operation. -/
def step [SlabPolicy] (b : RawBook O) : BookOp O → RawBook O
  | .addOrderBefore order insertBefore => (b.addOrderBefore order insertBefore).1
  | .cancelOrder oid => (b.cancelOrder oid).1
  | .modifySz oid newSz => (b.modifySz oid newSz).1
  | .compact => b.compact.1

/-- A run of operations. -/
def run [SlabPolicy] (b : RawBook O) (ops : List (BookOp O)) : RawBook O := ops.foldl step b

/-! ## The invariant over runs -/

/-- A book is sound when it shows a valid map. -/
def Sound (b : RawBook O) : Prop := ∃ g, b.Shows g ∧ Valid g

theorem Sound.new : Sound (RawBook.new : RawBook O) := OrderBook.new.sound

/-- **One operation keeps a book sound.** -/
theorem Sound.step [SlabPolicy] {b : RawBook O} (h : Sound b) (op : BookOp O) :
    Sound (b.step op) := by
  cases op with
  | addOrderBefore order anchor => exact (OrderBook.addOrderBefore ⟨b, h⟩ order anchor).1.sound
  | cancelOrder oid => exact (OrderBook.cancelOrder ⟨b, h⟩ oid).1.sound
  | modifySz oid newSz => exact (OrderBook.modifySz ⟨b, h⟩ oid newSz).1.sound
  | compact => exact (OrderBook.compact ⟨b, h⟩).1.sound

theorem Sound.run [SlabPolicy] {b : RawBook O} (h : Sound b) (ops : List (BookOp O)) :
    Sound (b.run ops) := by
  induction ops generalizing b with
  | nil => exact h
  | cons op ops ih => exact ih (h.step op)

theorem Sound.addOrders [SlabPolicy] {b : RawBook O} (h : Sound b) (orders : List O) :
    Sound (orders.foldl addOrder b) := by
  induction orders generalizing b with
  | nil => exact h
  | cons o orders ih => exact ih (h.step (.addOrderBefore o none))

theorem Sound.fromSnapshot [SlabPolicy] (snapshot : Snapshot O) (ignoreTriggers : Bool) :
    Sound (RawBook.fromSnapshot snapshot ignoreTriggers) :=
  (Sound.new.addOrders _).addOrders _

theorem Sound.start [SlabPolicy] (s : BookStart O) : Sound (RawBook.start s) := by
  cases s with
  | new => exact Sound.new
  | fromSnapshot snapshot ignoreTriggers => exact Sound.fromSnapshot snapshot ignoreTriggers

namespace Shows

variable {b : RawBook O} {g : ℕ → Option O}

/-- The orders at the levels of one side are the orders shown there. -/
theorem mem_levels (h : Shows b g) (s : Side) {o : O} :
    o ∈ (b.side s).toList.flatMap (fun x => x.2.toVec) ↔
      ∃ k, g k = some o ∧ InnerOrder.side o = s := by
  rw [List.mem_flatMap]
  constructor
  · rintro ⟨⟨px, l⟩, hl, ho⟩
    rw [PriceLevel.toVec_eq] at ho
    obtain ⟨⟨k, o'⟩, hmem, rfl⟩ := List.mem_map.mp ho
    rw [Std.ExtTreeMap.mem_toList_iff_getElem?_eq_some] at hl
    have := (h.queue s px k o').mp (by rwa [queueAt_of_some hl])
    exact ⟨k, this.1, this.2.1⟩
  · rintro ⟨k, hk, rfl⟩
    obtain ⟨l, hl, hmem⟩ := h.exists_level hk
    exact ⟨(limitPx o, l), Std.ExtTreeMap.mem_toList_iff_getElem?_eq_some.mpr hl,
      List.mem_map.mpr ⟨_, hmem, rfl⟩⟩

theorem mem_restingOrders (h : Shows b g) {o : O} :
    o ∈ b.restingOrders ↔ ∃ k, g k = some o := by
  rw [restingOrders, List.flatMap_append, List.mem_append]
  rw [show b.bids = b.side .bid from rfl, show b.asks = b.side .ask from rfl, h.mem_levels,
    h.mem_levels]
  constructor
  · rintro (⟨k, hk, -⟩ | ⟨k, hk, -⟩) <;> exact ⟨k, hk⟩
  · rintro ⟨k, hk⟩
    cases hs : InnerOrder.side o with
    | ask => exact Or.inr ⟨k, hk, rfl⟩
    | bid => exact Or.inl ⟨k, hk, rfl⟩

/-- The identifiers at the levels of one side are distinct. -/
theorem nodup_levels (h : Shows b g) (hv : Valid g) (s : Side) :
    (((b.side s).toList.flatMap fun x => x.2.toVec).map oid).Nodup := by
  have hoid : ∀ {px : ℕ} {l : PriceLevel O}, (px, l) ∈ (b.side s).toList →
      l.toVec.map oid = l.items.map Prod.fst := by
    intro px l hl
    rw [Std.ExtTreeMap.mem_toList_iff_getElem?_eq_some] at hl
    rw [PriceLevel.toVec_eq, List.map_map]
    refine List.map_congr_left fun x hx => ?_
    exact hv.oid_eq ((h.queue s px x.1 x.2).mp (by rwa [queueAt_of_some hl])).1
  rw [List.map_flatMap, List.nodup_flatMap]
  refine ⟨?_, ?_⟩
  · rintro ⟨px, l⟩ hl
    rw [hoid hl]
    exact l.nodup_items
  · have hd := (b.side s).distinct_keys_toList
    refine (List.Pairwise.and_mem.mp hd).imp ?_
    rintro ⟨px, l⟩ ⟨px', l'⟩ ⟨hl, hl', hne⟩ k hk hk'
    simp only [hoid hl, hoid hl', List.mem_map] at hk hk'
    obtain ⟨⟨k, o⟩, ho, rfl⟩ := hk
    obtain ⟨⟨k', o'⟩, ho', rfl⟩ := hk'
    rw [Std.ExtTreeMap.mem_toList_iff_getElem?_eq_some] at hl hl'
    obtain ⟨hg, -, hpx⟩ := (h.queue s px _ o).mp (by rwa [queueAt_of_some hl])
    obtain ⟨hg', -, hpx'⟩ := (h.queue s px' _ o').mp (by rwa [queueAt_of_some hl'])
    rw [hg, Option.some.injEq] at hg'
    subst hg'
    exact hne (by simp [← hpx, ← hpx'])

theorem nodup_restingOrders (h : Shows b g) (hv : Valid g) : (b.restingOrders.map oid).Nodup := by
  rw [restingOrders, List.flatMap_append, List.map_append, List.nodup_append]
  refine ⟨h.nodup_levels hv .bid, h.nodup_levels hv .ask, ?_⟩
  rintro k hk k' hk' rfl
  obtain ⟨o, ho, rfl⟩ := List.mem_map.mp hk
  obtain ⟨o', ho', he⟩ := List.mem_map.mp hk'
  obtain ⟨j, hj, hs⟩ := (h.mem_levels .bid).mp ho
  obtain ⟨j', hj', hs'⟩ := (h.mem_levels .ask).mp ho'
  rw [hv.oid_eq hj, hv.oid_eq hj'] at he
  subst he
  rw [hj, Option.some.injEq] at hj'
  subst hj'
  rw [hs] at hs'
  cases hs'

/-- **A sound book satisfies the representation invariant.** -/
theorem represents (h : Shows b g) (hv : Valid g) : Represents b := by
  have hplaced : ∀ s (px : ℕ) (l : PriceLevel O), (b.side s)[px]? = some l → ∀ x ∈ l.items,
      g x.1 = some x.2 ∧ InnerOrder.side x.2 = s ∧ limitPx x.2 = px := by
    intro s px l hl x hx
    exact (h.queue s px x.1 x.2).mp (by rwa [queueAt_of_some hl])
  have hbest : ∀ {s : Side} {x : ℕ × PriceLevel O}, x ∈ (b.side s).toList →
      ∃ k o, g k = some o ∧ InnerOrder.side o = s ∧ limitPx o = x.1 := by
    rintro s ⟨px, l⟩ hl
    rw [Std.ExtTreeMap.mem_toList_iff_getElem?_eq_some] at hl
    obtain ⟨x, hx⟩ := List.exists_mem_of_ne_nil _ (h.nonempty s px l hl)
    exact ⟨x.1, x.2, hplaced s px l hl x hx⟩
  refine ⟨?_, h.nodup_restingOrders hv, ?_, ?_, ?_, ?_⟩
  · have hnd : (b.restingOrders.map indexEntry).Nodup := by
      refine List.Nodup.of_map Prod.fst ?_
      rw [List.map_map]
      exact h.nodup_restingOrders hv
    have hnd' : b.oidToSidePx.toList.Nodup := by
      refine List.Nodup.of_map Prod.fst ?_
      rw [Std.ExtTreeMap.map_fst_toList_eq_keys]
      exact Std.ExtTreeMap.nodup_keys
    rw [List.perm_ext_iff_of_nodup hnd hnd']
    rintro ⟨k, e⟩
    rw [List.mem_map, Std.ExtTreeMap.mem_toList_iff_getElem?_eq_some, h.index,
      Option.map_eq_some_iff]
    constructor
    · rintro ⟨o, ho, he⟩
      obtain ⟨j, hj⟩ := h.mem_restingOrders.mp ho
      cases he
      rw [hv.oid_eq hj]
      exact ⟨o, hj, rfl⟩
    · rintro ⟨o, hk, rfl⟩
      refine ⟨o, h.mem_restingOrders.mpr ⟨k, hk⟩, ?_⟩
      rw [indexEntry, hv.oid_eq hk]
  · intro s px l hl x hx
    obtain ⟨hg, hs, hpx⟩ := hplaced s px l hl x hx
    exact ⟨hv.oid_eq hg, hs, hpx⟩
  · intro s px l hl
    rw [← Bool.not_eq_true, PriceLevel.isEmpty_iff]
    exact h.nonempty s px l hl
  · intro o ho
    obtain ⟨k, hk⟩ := h.mem_restingOrders.mp ho
    exact hv.positive hk
  · rintro x y hxy
    obtain ⟨hx, hy⟩ := Prod.mk.inj hxy
    obtain ⟨bid, hbid, rfl⟩ := Option.map_eq_some_iff.mp hx
    obtain ⟨ask, hask, rfl⟩ := Option.map_eq_some_iff.mp hy
    obtain ⟨j, o, hj, hso, hpo⟩ := hbest (s := .bid) (List.mem_of_getLast? hbid)
    obtain ⟨k, o', hk, hso', hpo'⟩ := hbest (s := .ask) (List.mem_of_head? hask)
    have := hv.uncrossed hj hk hso hso'
    simpa [aggregateEntry, ← hpo, ← hpo'] using this

end Shows

/-- **Every run of a book keeps the representation invariant.** -/
theorem represents_run [SlabPolicy] (s : BookStart O) (ops : List (BookOp O)) :
    Represents ((start s).run ops) := by
  obtain ⟨g, hg, hv⟩ := (Sound.start s).run ops
  exact hg.represents hv

end RawBook

end HlOrderbook
