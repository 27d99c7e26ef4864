import HlOrderbook.BookRefinement
import HlOrderbook.StateSpec

/-!
# Which half of an order comes first

The status and the `New` diff of an order come from two streams and either may be
read first.  A status that finds no diff is kept only if the node rests an order with
it; a diff that finds no status is kept, and then paired with whatever status of the
order comes.  So the two ways part at the statuses that do not rest an order, and at
those from before 1970, which the diff cannot convert.

## Main definitions

* `statusFirst`, `diffFirst` — the two ways.

## Main results

* `pairing_commutes_iff` — when the two ways rest the same orders.
-/

set_option autoImplicit false
set_option linter.unusedSectionVars false

namespace HlOrderbook

variable [SlabPolicy]

/-- **Adding an order that is new to its coin leaves what rests as it is exactly when
the order has no size.** -/
theorem OrderBooks.find?_addOrderBefore_eq_iff {O : Type} [InnerOrder O] {bs : OrderBooks O}
    {order : O} (h : bs.find? (InnerOrder.coin order) (InnerOrder.oid order) = none)
    (anchor : Option ℕ) :
    (∀ c k, (bs.addOrderBefore order anchor).1.find? c k = bs.find? c k) ↔
      InnerOrder.sz order = 0 := by
  rw [bs.find?_eq_book] at h
  constructor
  · intro hsame
    by_contra hpos
    apply OrderBook.addOrderBefore_changes h (Nat.pos_of_ne_zero hpos) anchor
    funext k
    have hk := hsame (InnerOrder.coin order) k
    rwa [bs.find?_addOrderBefore, if_pos rfl, bs.find?_eq_book] at hk
  · intro h0 c k
    rw [bs.find?_addOrderBefore]
    split
    · rename_i hc
      rw [OrderBook.addOrderBefore_zero h0, bs.find?_eq_book]
    · rfl

variable [FixedPoint]

/-- The batch of one event. -/
def Batch.one {E : Type} (blockTime : ℤ) (blockNumber : ℕ) (event : E) : Batch E :=
  ⟨blockTime, blockNumber, [event]⟩

namespace OrderBookState

/-- Apply a batch of statuses, then one of diffs. -/
def statusFirst (s : OrderBookState) (now now' : ℕ) (statuses : Batch NodeDataOrderStatus)
    (diffs : Batch NodeDataOrderDiff) : OrderBookState :=
  ((s.applyOrderStatusesHft now statuses).1.applyOrderDiffsHft now' diffs).1

/-- Apply a batch of diffs, then one of statuses. -/
def diffFirst (s : OrderBookState) (now now' : ℕ) (statuses : Batch NodeDataOrderStatus)
    (diffs : Batch NodeDataOrderDiff) : OrderBookState :=
  ((s.applyOrderDiffsHft now diffs).1.applyOrderStatusesHft now' statuses).1

/-! ## One event of each stream -/

theorem applyAll_one {E : Type}
    (apply : OrderBookState → E → OrderBookState × Except Failure (List Coin)) (e : E)
    (s : OrderBookState) : (applyAll apply [e] s ∅).1 = (apply s e).1 := by
  simp only [applyAll]
  split <;> simp_all

theorem applyOrderStatusesHft_one (s : OrderBookState) (now : ℕ) (t : ℤ) (n : ℕ)
    (st : NodeDataOrderStatus) : ∃ s₁ : OrderBookState, s₁.orderBook = s.orderBook ∧
      s₁.pendingOrderStatuses = s.pendingOrderStatuses ∧
      s₁.pendingNewDiffs = s.pendingNewDiffs ∧ s₁.ignoreSpot = s.ignoreSpot ∧
      (s.applyOrderStatusesHft now (.one t n st)).1 = (s₁.applyOrderStatus now st).1 :=
  ⟨s.advance n t.toNat, by simp, by simp, by simp, by simp, applyAll_one _ _ _⟩

theorem applyOrderDiffsHft_one (s : OrderBookState) (now : ℕ) (t : ℤ) (n : ℕ)
    (d : NodeDataOrderDiff) : ∃ s₁ : OrderBookState, s₁.orderBook = s.orderBook ∧
      s₁.pendingOrderStatuses = s.pendingOrderStatuses ∧
      s₁.pendingNewDiffs = s.pendingNewDiffs ∧ s₁.ignoreSpot = s.ignoreSpot ∧
      (s.applyOrderDiffsHft now (.one t n d)).1 = (s₁.applyOrderDiff now n d).1 :=
  ⟨(s.forgetZeroed n).advance n t.toNat, by simp [forgetZeroed], by simp [forgetZeroed],
    by simp [forgetZeroed], by simp [forgetZeroed], applyAll_one _ _ _⟩

/-- Rest the order of a status with the size of its diff, if the order parses. -/
def paired (bs : OrderBooks InnerL4Order) (st : NodeDataOrderStatus) (sz : ℕ)
    (anchor : Option ℕ) : OrderBooks InnerL4Order :=
  match InnerL4Order.tryFrom st.user st.order with
  | none => bs
  | some inner =>
    (bs.addOrderBefore ((inner.modifySz sz).convertTrigger st.time.toNat) anchor).1

section OneOrder

variable {s : OrderBookState} {st : NodeDataOrderStatus} {d : NodeDataOrderDiff} {sz : ℕ}
  {anchor : Option ℕ}

/-- A status of an unknown order changes no book, and waits if it rests an order. -/
theorem applyOrderStatus_unknown (now : ℕ) (h : s.pendingNewDiffs[st.order.oid]? = none) :
    (s.applyOrderStatus now st).1.orderBook = s.orderBook ∧
      (s.applyOrderStatus now st).1.ignoreSpot = s.ignoreSpot ∧
      (s.applyOrderStatus now st).1.pendingOrderStatuses[st.order.oid]? =
        if st.isInsertedIntoBook then some (st, now) else s.pendingOrderStatuses[st.order.oid]? := by
  simp only [applyOrderStatus, pendingNewDiffs_trackStatus, h]
  split <;> simp

/-- A status whose diff waits rests the order. -/
theorem applyOrderStatus_waiting (now : ℕ) {pending : PendingNew}
    (h : s.pendingNewDiffs[st.order.oid]? = some pending) :
    (s.applyOrderStatus now st).1.orderBook =
      paired s.orderBook st pending.sz pending.insertBefore := by
  simp only [applyOrderStatus, pendingNewDiffs_trackStatus, h, paired]
  cases InnerL4Order.tryFrom st.user st.order <;> simp

/-- A `New` diff of an unknown order changes no book, and waits. -/
theorem applyOrderDiff_unknown (now height : ℕ) (h : s.pendingOrderStatuses[d.oid]? = none)
    (hparse : InnerOrderDiff.tryFrom d.rawBookDiff = some (.new sz anchor)) :
    (s.applyOrderDiff now height d).1.orderBook = s.orderBook ∧
      (s.applyOrderDiff now height d).1.pendingNewDiffs[d.oid]? =
        if d.coin.isSpot && s.ignoreSpot then s.pendingNewDiffs[d.oid]?
        else some ⟨sz, anchor, now, d.user⟩ := by
  simp only [applyOrderDiff, hparse, applyInnerDiff, h]
  split <;> simp

/-- A `New` diff whose status waits rests the order, unless the status is from before
1970. -/
theorem applyOrderDiff_waiting (now height : ℕ) {since : ℕ}
    (h : s.pendingOrderStatuses[d.oid]? = some (st, since))
    (hparse : InnerOrderDiff.tryFrom d.rawBookDiff = some (.new sz anchor)) :
    (s.applyOrderDiff now height d).1.orderBook =
      if (d.coin.isSpot && s.ignoreSpot) = true ∨ st.time < 0 then s.orderBook
      else paired s.orderBook st sz anchor := by
  simp only [applyOrderDiff, hparse, applyInnerDiff, h, paired]
  by_cases hskip : (d.coin.isSpot && s.ignoreSpot) = true
  · rw [if_pos hskip, if_pos (Or.inl hskip)]
  · rw [if_neg hskip]
    cases InnerL4Order.tryFrom st.user st.order with
    | none => simp
    | some inner =>
      by_cases htime : st.time < 0
      · simp only [if_pos htime, if_pos (Or.inr htime : _ ∨ st.time < 0)]
      · simp only [if_neg htime, if_neg (not_or.mpr ⟨hskip, htime⟩), orderBook_restPaired]

variable (now now' : ℕ) (t t' : ℤ) (n n' : ℕ)

/-- **The status first.** -/
theorem orderBook_statusFirst (hstatus : s.pendingOrderStatuses[d.oid]? = none)
    (hdiff : s.pendingNewDiffs[d.oid]? = none) (hoid : st.order.oid = d.oid)
    (hparse : InnerOrderDiff.tryFrom d.rawBookDiff = some (.new sz anchor)) :
    (s.statusFirst now now' (.one t n st) (.one t' n' d)).orderBook =
      if (d.coin.isSpot && s.ignoreSpot) = true ∨ st.isInsertedIntoBook = false ∨ st.time < 0 then
        s.orderBook
      else paired s.orderBook st sz anchor := by
  obtain ⟨s₁, hbook, hstatuses, hdiffs, hspot, h₁⟩ := applyOrderStatusesHft_one s now t n st
  rw [← hoid] at hstatus hdiff
  rw [← hdiffs] at hdiff
  rw [← hstatuses] at hstatus
  obtain ⟨hbook₁, hspot₁, hwaits⟩ := applyOrderStatus_unknown now hdiff
  rw [← h₁] at hbook₁ hspot₁ hwaits
  obtain ⟨s₂, hbook₂, hstatuses₂, hdiffs₂, hspot₂, h₂⟩ :=
    applyOrderDiffsHft_one (s.applyOrderStatusesHft now (.one t n st)).1 now' t' n' d
  rw [← hstatuses₂, hoid] at hwaits
  rw [statusFirst, h₂]
  by_cases hin : st.isInsertedIntoBook = true
  · rw [if_pos hin] at hwaits
    rw [applyOrderDiff_waiting now' n' hwaits hparse, hspot₂, hspot₁, hspot, hbook₂, hbook₁, hbook]
    simp [hin]
  · rw [if_neg hin, ← hoid, hstatus, hoid] at hwaits
    rw [(applyOrderDiff_unknown now' n' hwaits hparse).1, hbook₂, hbook₁, hbook]
    simp [hin]

/-- **The diff first.** -/
theorem orderBook_diffFirst (hstatus : s.pendingOrderStatuses[d.oid]? = none)
    (hdiff : s.pendingNewDiffs[d.oid]? = none) (hoid : st.order.oid = d.oid)
    (hparse : InnerOrderDiff.tryFrom d.rawBookDiff = some (.new sz anchor)) :
    (s.diffFirst now now' (.one t n st) (.one t' n' d)).orderBook =
      if (d.coin.isSpot && s.ignoreSpot) = true then s.orderBook
      else paired s.orderBook st sz anchor := by
  obtain ⟨s₁, hbook, hstatuses, hdiffs, hspot, h₁⟩ := applyOrderDiffsHft_one s now t' n' d
  rw [← hdiffs] at hdiff
  rw [← hstatuses] at hstatus
  obtain ⟨hbook₁, hwaits⟩ := applyOrderDiff_unknown now n' hstatus hparse
  rw [← h₁] at hbook₁ hwaits
  obtain ⟨s₂, hbook₂, hstatuses₂, hdiffs₂, hspot₂, h₂⟩ :=
    applyOrderStatusesHft_one (s.applyOrderDiffsHft now (.one t' n' d)).1 now' t n st
  rw [← hdiffs₂, ← hoid, hspot] at hwaits
  rw [diffFirst, h₂]
  by_cases hskip : (d.coin.isSpot && s.ignoreSpot) = true
  · rw [if_pos hskip, hoid, hdiff, ← hoid] at hwaits
    rw [if_pos hskip, (applyOrderStatus_unknown now' hwaits).1, hbook₂, hbook₁, hbook]
  · rw [if_neg hskip] at hwaits
    rw [if_neg hskip, applyOrderStatus_waiting now' hwaits, hbook₂, hbook₁, hbook]

/-- Pairing an order that is new to its coin changes nothing exactly when the order
does not parse or its diff has no size. -/
theorem find?_paired_eq_iff {bs : OrderBooks InnerL4Order}
    (h : bs.find? st.order.coin st.order.oid = none) :
    (∀ c k, (paired bs st sz anchor).find? c k = bs.find? c k) ↔
      InnerL4Order.tryFrom st.user st.order = none ∨ sz = 0 := by
  rw [paired]
  cases hi : InnerL4Order.tryFrom st.user st.order with
  | none => simp
  | some inner =>
    obtain ⟨hcoin, -, hoid, -⟩ := InnerL4Order.tryFrom_eq_some hi
    set order := (inner.modifySz sz).convertTrigger st.time.toNat with horder
    have hc : InnerOrder.coin order = st.order.coin :=
      (InnerL4Order.coin_convertTrigger _ _).trans hcoin
    have ho : InnerOrder.oid order = st.order.oid :=
      (InnerL4Order.oid_convertTrigger _ _).trans hoid
    have hsz : InnerOrder.sz order = sz := InnerL4Order.sz_convertTrigger _ _
    rw [← hc, ← ho] at h
    simpa [hsz] using OrderBooks.find?_addOrderBefore_eq_iff h anchor

/-- **The two ways rest the same orders** exactly when the coin is skipped, or the
status rests an order and is not from before 1970, or there is nothing to rest.  The
order is unknown: it neither rests nor waits. -/
theorem pairing_commutes_iff (hresting : ∀ c, s.orderBook.find? c d.oid = none)
    (hstatus : s.pendingOrderStatuses[d.oid]? = none) (hdiff : s.pendingNewDiffs[d.oid]? = none)
    (hoid : st.order.oid = d.oid)
    (hparse : InnerOrderDiff.tryFrom d.rawBookDiff = some (.new sz anchor)) :
    (∀ c k, (s.statusFirst now now' (.one t n st) (.one t' n' d)).orderBook.find? c k =
        (s.diffFirst now now' (.one t n st) (.one t' n' d)).orderBook.find? c k) ↔
      (d.coin.isSpot && s.ignoreSpot) = true ∨ (st.isInsertedIntoBook = true ∧ 0 ≤ st.time) ∨
        InnerL4Order.tryFrom st.user st.order = none ∨ sz = 0 := by
  have hfree : s.orderBook.find? st.order.coin st.order.oid = none := by
    rw [hoid]
    exact hresting _
  rw [orderBook_statusFirst now now' t t' n n' hstatus hdiff hoid hparse,
    orderBook_diffFirst now now' t t' n n' hstatus hdiff hoid hparse]
  by_cases hskip : (d.coin.isSpot && s.ignoreSpot) = true
  · simp [hskip]
  · by_cases hrests : st.isInsertedIntoBook = true ∧ 0 ≤ st.time
    · have htime : ¬ st.time < 0 := not_lt.mpr hrests.2
      simp [hskip, hrests, htime]
    · have hpart : (d.coin.isSpot && s.ignoreSpot) = true ∨ st.isInsertedIntoBook = false ∨
          st.time < 0 := by
        rw [not_and_or, not_le, Bool.not_eq_true] at hrests
        exact Or.inr hrests
      have hiff : (∀ c k, (paired s.orderBook st sz anchor).find? c k = s.orderBook.find? c k) ↔
          _ := find?_paired_eq_iff hfree
      rw [if_pos hpart, if_neg hskip, or_iff_right hskip, or_iff_right hrests, ← hiff]
      exact ⟨fun h c k => (h c k).symm, fun h c k => (h c k).symm⟩

end OneOrder

end OrderBookState

end HlOrderbook

namespace HlOrderbook

section Example

attribute [local instance] SlabPolicy.latest FixedPoint.decimal

/-- The two ways agree on an order that opened. -/
theorem pairing_commutes_opened :
    (NodeDataOrderStatus.opened (.limit "BTC" .bid "100" "2" 7)).isInsertedIntoBook = true ∧
    ∀ c k, ((OrderBookState.fromSnapshot ∅ [] 0 0 true false true).statusFirst 0 0
      (.one 5 5 (.opened (.limit "BTC" .bid "100" "2" 7)))
      (.one 5 5 ⟨1, 7, "100", "BTC", .new "2" none⟩)).orderBook.find? c k =
    ((OrderBookState.fromSnapshot ∅ [] 0 0 true false true).diffFirst 0 0
      (.one 5 5 (.opened (.limit "BTC" .bid "100" "2" 7)))
      (.one 5 5 ⟨1, 7, "100", "BTC", .new "2" none⟩)).orderBook.find? c k := by
  have hparse : InnerOrderDiff.tryFrom (.new "2" none) = some (.new 200000000 none) := by decide
  refine ⟨by decide,
    (OrderBookState.pairing_commutes_iff 0 0 5 5 5 5 (fun c => rfl) rfl rfl rfl hparse).mpr ?_⟩
  decide

/-- **They part on one that was canceled**: the diff rests it if it comes first. -/
theorem pairing_canceled_apart :
    (∀ c, (OrderBookState.fromSnapshot ∅ [] 0 0 true false true).orderBook.find? c 7 = none) ∧
    (OrderBookState.fromSnapshot ∅ [] 0 0 true false true).pendingOrderStatuses[7]? = none ∧
    ((OrderBookState.fromSnapshot ∅ [] 0 0 true false true).pendingNewDiffs[7]?).isNone ∧
    InnerOrderDiff.tryFrom (.new "2" none) = some (.new 200000000 none) ∧
    ¬ ∀ c k, ((OrderBookState.fromSnapshot ∅ [] 0 0 true false true).statusFirst 0 0
        (.one 5 5 ⟨1, 1, "canceled", .limit "BTC" .bid "100" "2" 7⟩)
        (.one 5 5 ⟨1, 7, "100", "BTC", .new "2" none⟩)).orderBook.find? c k =
      ((OrderBookState.fromSnapshot ∅ [] 0 0 true false true).diffFirst 0 0
        (.one 5 5 ⟨1, 1, "canceled", .limit "BTC" .bid "100" "2" 7⟩)
        (.one 5 5 ⟨1, 7, "100", "BTC", .new "2" none⟩)).orderBook.find? c k := by
  refine ⟨fun c => rfl, rfl, rfl, by decide, fun h => absurd (h "BTC" 7) ?_⟩
  decide +kernel

end Example

end HlOrderbook
