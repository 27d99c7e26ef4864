import HlOrderbook.Levels
import HlOrderbook.StateSpec

/-!
# What is seen of the books, and what a batch changes

The aggregated books and the best prices see of a level its price, the sum of its
sizes and its number of orders.  A batch that succeeds reports every coin of whose
book it changed that; a batch that fails reports none.

## Main definitions

* `OrderBook.SameLevels`, `OrderBooks.SameLevels` — books that look alike.
* `applyOrderStatusesHft_reports`, `applyOrderDiffsHft_reports`.
-/

set_option autoImplicit false
set_option linter.unusedSectionVars false

namespace HlOrderbook

section Levels

variable {O : Type} [InnerOrder O]

/-- What is seen of a side: the sum of the sizes and the number of orders, by price. -/
def RawBook.seen (b : RawBook O) (s : Side) : Std.ExtTreeMap ℕ (ℕ × ℕ) :=
  (b.side s).map fun _ l => (l.totalSz, l.len)

/-- Two books that look alike. -/
def OrderBook.SameLevels (b b' : OrderBook O) : Prop := ∀ s, b.raw.seen s = b'.raw.seen s

namespace OrderBook.SameLevels

variable {b b' b'' : OrderBook O}

theorem refl (b : OrderBook O) : b.SameLevels b := fun _ => rfl

theorem symm (h : b.SameLevels b') : b'.SameLevels b := fun s => (h s).symm

theorem trans (h : b.SameLevels b') (h' : b'.SameLevels b'') : b.SameLevels b'' :=
  fun s => (h s).trans (h' s)

end OrderBook.SameLevels

theorem toList_side (b : RawBook O) (s : Side) {α : Type} (f : ℕ × ℕ × ℕ → α) :
    (b.side s).toList.map (fun x => f (x.1, x.2.totalSz, x.2.len)) = (b.seen s).toList.map f := by
  rw [RawBook.seen, Std.ExtTreeMap.toList_map, List.map_map]
  rfl

/-- **Books that look alike have the same aggregated levels.** -/
theorem OrderBook.SameLevels.toL2Snapshot [FixedPoint] {b b' : OrderBook O} (h : b.SameLevels b')
    (nLevels nSigFigs mantissa : Option ℕ) :
    b.toL2Snapshot nLevels nSigFigs mantissa = b'.toL2Snapshot nLevels nSigFigs mantissa := by
  have hside : ∀ s, priceLevels (b.raw.side s) s = priceLevels (b'.raw.side s) s := by
    intro s
    have hlist : (b.raw.side s).toList.map (fun x => (⟨x.1, x.2.totalSz, x.2.len⟩ : InnerLevel)) =
        (b'.raw.side s).toList.map fun x => ⟨x.1, x.2.totalSz, x.2.len⟩ := by
      rw [toList_side b.raw s fun x => (⟨x.1, x.2.1, x.2.2⟩ : InnerLevel),
        toList_side b'.raw s fun x => (⟨x.1, x.2.1, x.2.2⟩ : InnerLevel), h s]
    cases s <;> simp only [priceLevels, hlist]
  have hbids := hside .bid
  have hasks := hside .ask
  simp only [RawBook.side] at hbids hasks
  simp only [OrderBook.toL2Snapshot, mapToL2Levels, hbids, hasks]

/-- **Books that look alike have the same best prices.** -/
theorem OrderBook.SameLevels.getBbo {b b' : OrderBook O} (h : b.SameLevels b') :
    b.raw.getBbo = b'.raw.getBbo := by
  have hside : ∀ s, (b.raw.side s).toList.map RawBook.aggregateEntry =
      (b'.raw.side s).toList.map RawBook.aggregateEntry := by
    intro s
    have hfun : (RawBook.aggregateEntry : ℕ × PriceLevel O → _) =
        fun x => (x.1, x.2.totalSz, min x.2.len (2 ^ 32 - 1)) := rfl
    rw [hfun, toList_side b.raw s fun x => (x.1, x.2.1, min x.2.2 (2 ^ 32 - 1)),
      toList_side b'.raw s fun x => (x.1, x.2.1, min x.2.2 (2 ^ 32 - 1)), h s]
  have hbids := hside .bid
  have hasks := hside .ask
  simp only [RawBook.side] at hbids hasks
  rw [RawBook.getBbo, RawBook.getBbo, ← List.getLast?_map, ← List.getLast?_map, ← List.head?_map,
    ← List.head?_map, hbids, hasks]

/-- Compaction is not seen. -/
theorem OrderBook.sameLevels_compact [SlabPolicy] (b : OrderBook O) :
    b.SameLevels b.compact.1 := by
  intro s
  have hside : b.compact.1.raw.side s = (b.raw.side s).map fun _ l => l.compact.1 := by
    cases s <;> rfl
  rw [RawBook.seen, RawBook.seen, hside]
  apply Std.ExtTreeMap.ext_getElem?
  intro px
  rw [Std.ExtTreeMap.getElem?_map, Std.ExtTreeMap.getElem?_map, Std.ExtTreeMap.getElem?_map,
    Option.map_map]
  apply Option.map_congr
  intro l _
  have hlen : l.compact.1.len = l.len := by rw [PriceLevel.len_eq, PriceLevel.items_compact,
    PriceLevel.len_eq]
  simp only [Function.comp, hlen]
  rfl

/-- A book rests no order if and only if its sides have no level. -/
theorem OrderBook.orderCount_eq_zero_iff_side (b : OrderBook O) :
    b.orderCount = 0 ↔ ∀ s, b.raw.side s = ∅ := by
  constructor
  · intro h s
    have hnone := b.orderCount_eq_zero.mp h
    apply Std.ExtTreeMap.ext_getElem?
    intro px
    cases hl : (b.raw.side s)[px]? with
    | none => simp
    | some l =>
      obtain ⟨x, hx⟩ := List.exists_mem_of_ne_nil _ (b.shows_find?.nonempty s px l hl)
      have hg := ((b.shows_find?.queue s px x.1 x.2).mp (by rwa [queueAt_of_some hl])).1
      rw [hnone] at hg
      cases hg
  · intro h
    apply b.orderCount_eq_zero.mpr
    intro k
    cases hk : b.find? k with
    | none => rfl
    | some o =>
      have hmem :=
        (b.shows_find?.queue (InnerOrder.side o) (InnerOrder.limitPx o) k o).mpr ⟨hk, rfl, rfl⟩
      rw [queueAt_of_none (by rw [h]; simp)] at hmem
      cases hmem

/-- A book without orders looks like a new one. -/
theorem OrderBook.sameLevels_new {b : OrderBook O} (h : b.orderCount = 0) :
    b.SameLevels OrderBook.new := by
  intro s
  rw [RawBook.seen, RawBook.seen, b.orderCount_eq_zero_iff_side.mp h s]
  cases s <;> rfl

end Levels

namespace OrderBooks

variable {O : Type} [InnerOrder O]

/-- The books of a coin look alike; no book looks like an empty one. -/
def SameLevels (bs bs' : OrderBooks O) (c : Coin) : Prop := (bs.book c).SameLevels (bs'.book c)

variable {bs bs' bs'' : OrderBooks O} {c : Coin}

theorem SameLevels.of_eq (h : bs'.orderBooks[c]? = bs.orderBooks[c]?) : bs.SameLevels bs' c := by
  intro s
  rw [book, book, h]

theorem SameLevels.trans (h : bs.SameLevels bs' c) (h' : bs'.SameLevels bs'' c) :
    bs.SameLevels bs'' c := OrderBook.SameLevels.trans h h'

theorem sameLevels_compactAll [SlabPolicy] (bs : OrderBooks O) (c : Coin) :
    bs.SameLevels bs.compactAll.1 c := by
  have hget : bs.compactAll.1.orderBooks[c]? =
      (bs.orderBooks[c]?.map fun book => book.compact.1).filter fun book => book.orderCount > 0 := by
    rw [compactAll, Std.ExtTreeMap.getElem?_filter', Std.ExtTreeMap.getElem?_map]
  cases hbook : bs.orderBooks[c]? with
  | none =>
    apply SameLevels.of_eq
    rw [hget, hbook]
    rfl
  | some b =>
    rw [hbook, Option.map_some] at hget
    have hb : bs.book c = b := by rw [book, hbook]; rfl
    rw [SameLevels, hb]
    by_cases h0 : b.compact.1.orderCount = 0
    · have hb' : bs.compactAll.1.book c = OrderBook.new := by
        rw [book, hget]
        simp [Option.filter, h0]
      rw [hb']
      exact b.sameLevels_compact.trans (OrderBook.sameLevels_new h0)
    · have hb' : bs.compactAll.1.book c = b.compact.1 := by
        have hpos : b.compact.1.orderCount > 0 := by omega
        rw [book, hget]
        simp [Option.filter, hpos]
      rw [hb']
      exact b.sameLevels_compact

theorem getElem?_addOrderBefore [SlabPolicy] (bs : OrderBooks O) (order : O) (anchor : Option ℕ)
    (h : InnerOrder.coin order ≠ c) :
    (bs.addOrderBefore order anchor).1.orderBooks[c]? = bs.orderBooks[c]? := by
  simp [addOrderBefore, Std.ExtTreeMap.getElem?_insert, h]

theorem getElem?_putBack (bs : OrderBooks O) {coin : Coin} (book : OrderBook O) (h : coin ≠ c) :
    (bs.putBack coin book).orderBooks[c]? = bs.orderBooks[c]? := by
  rw [putBack]
  split <;> simp [Std.ExtTreeMap.getElem?_insert, Std.ExtTreeMap.getElem?_erase, h]

theorem getElem?_cancelOrder (bs : OrderBooks O) (oid : ℕ) {coin : Coin} (h : coin ≠ c) :
    (bs.cancelOrder oid coin).1.orderBooks[c]? = bs.orderBooks[c]? := by
  rw [cancelOrder]
  split
  · rfl
  · exact getElem?_putBack bs _ h

theorem getElem?_modifySz (bs : OrderBooks O) (oid newSz : ℕ) {coin : Coin} (h : coin ≠ c) :
    (bs.modifySz oid coin newSz).1.orderBooks[c]? = bs.orderBooks[c]? := by
  rw [modifySz]
  split
  · rfl
  · exact getElem?_putBack bs _ h

end OrderBooks

/-! ## What a batch reports -/

variable [SlabPolicy] [FixedPoint]

namespace OrderBookState

variable {s s' : OrderBookState} {c : Coin} {now height : ℕ}

theorem getElem?_restPaired {inner : InnerL4Order} (h : inner.coin ≠ c) (sz : ℕ)
    (anchor : Option ℕ) (ts : ℕ) :
    (s.restPaired inner sz anchor ts).orderBook.orderBooks[c]? = s.orderBook.orderBooks[c]? := by
  rw [orderBook_restPaired]
  apply OrderBooks.getElem?_addOrderBefore
  rw [show InnerOrder.coin ((inner.modifySz sz).convertTrigger ts) = inner.coin from
    InnerL4Order.coin_convertTrigger _ _]
  exact h

@[simp] theorem orderBook_noteZeroed (s : OrderBookState) (height k : ℕ) :
    (s.noteZeroed height k).orderBook = s.orderBook := by
  obtain ⟨q, set, h⟩ := s.noteZeroed_eq height k
  rw [h]

@[simp] theorem orderBook_applyDiffToPendingNew (s : OrderBookState) (k : ℕ) (newSz : Option ℕ) :
    (s.applyDiffToPendingNew k newSz).orderBook = s.orderBook := by
  obtain ⟨m, h⟩ := s.applyDiffToPendingNew_eq k newSz
  rw [h]

@[simp] theorem orderBook_forgetZeroed (s : OrderBookState) (height : ℕ) :
    (s.forgetZeroed height).orderBook = s.orderBook := rfl

/-- An order status that succeeds reports the coin whose book it changed. -/
theorem applyOrderStatus_reports {status : NodeDataOrderStatus} {coins : List Coin}
    (h : s.applyOrderStatus now status = (s', .ok coins)) (hc : c ∉ coins) :
    s'.orderBook.orderBooks[c]? = s.orderBook.orderBooks[c]? := by
  have htrack := s.orderBook_trackStatus status
  simp only [applyOrderStatus] at h
  generalize s.trackStatus status = t at h htrack
  split at h
  · split at h
    · simp only [Prod.mk.injEq, reduceCtorEq, and_false] at h
    · rename_i inner hinner
      simp only [Prod.mk.injEq, Except.ok.injEq] at h
      obtain ⟨rfl, rfl⟩ := h
      obtain ⟨hcoin, -⟩ := InnerL4Order.tryFrom_eq_some hinner
      rw [getElem?_restPaired (by rw [hcoin]; simpa [eq_comm] using hc)]
      exact congrArg (fun bs => bs.orderBooks[c]?) htrack
  · split at h <;>
    · simp only [Prod.mk.injEq, Except.ok.injEq] at h
      obtain ⟨rfl, -⟩ := h
      exact congrArg (fun bs => bs.orderBooks[c]?) htrack

/-- A raw diff that succeeds reports the coin whose book it changed. -/
theorem applyOrderDiff_reports {diff : NodeDataOrderDiff} {coins : List Coin}
    (h : s.applyOrderDiff now height diff = (s', .ok coins)) (hc : c ∉ coins) :
    s'.orderBook.orderBooks[c]? = s.orderBook.orderBooks[c]? := by
  rw [applyOrderDiff] at h
  split at h
  · cases h
    rfl
  · split at h
    · cases h
    · rename_i inner hinner
      cases inner with
      | new sz anchor =>
        simp only [applyInnerDiff] at h
        split at h
        · split at h
          · cases h
          · split at h
            · cases h
            · rename_i status _ hstatus inner hinner' _
              simp only [Prod.mk.injEq, Except.ok.injEq] at h
              obtain ⟨rfl, rfl⟩ := h
              obtain ⟨hcoin, -⟩ := InnerL4Order.tryFrom_eq_some hinner'
              exact getElem?_restPaired (by rw [hcoin]; simpa [eq_comm] using hc) _ _ _
        · cases h
          rfl
      | update origSz newSz =>
        have hbook : s'.orderBook = (s.orderBook.modifySz diff.oid diff.coin newSz).1 ∧
            coins = [diff.coin] := by
          simp only [applyInnerDiff] at h
          split at h
          · simp only [Prod.mk.injEq, Except.ok.injEq] at h
            obtain ⟨rfl, rfl⟩ := h
            refine ⟨?_, rfl⟩
            split <;> simp
          · simp only [Prod.mk.injEq, Except.ok.injEq] at h
            obtain ⟨rfl, rfl⟩ := h
            exact ⟨by simp, rfl⟩
        obtain ⟨hbook, rfl⟩ := hbook
        rw [hbook]
        exact OrderBooks.getElem?_modifySz _ _ _ (by simpa [eq_comm] using hc)
      | remove =>
        have hbook : s'.orderBook = (s.orderBook.cancelOrder diff.oid diff.coin).1 ∧
            coins = [diff.coin] := by
          simp only [applyInnerDiff] at h
          split at h
          · simp only [Prod.mk.injEq, Except.ok.injEq] at h
            obtain ⟨rfl, rfl⟩ := h
            exact ⟨rfl, rfl⟩
          · split at h <;>
            · simp only [Prod.mk.injEq, Except.ok.injEq] at h
              obtain ⟨rfl, rfl⟩ := h
              exact ⟨by simp, rfl⟩
        obtain ⟨hbook, rfl⟩ := hbook
        rw [hbook]
        exact OrderBooks.getElem?_cancelOrder _ _ (by simpa [eq_comm] using hc)

/-- **The batch rule for what is reported.** -/
theorem applyAll_reports {E : Type}
    {apply : OrderBookState → E → OrderBookState × Except Failure (List Coin)}
    (happly : ∀ s e s' coins, apply s e = (s', .ok coins) → c ∉ coins →
      s'.orderBook.orderBooks[c]? = s.orderBook.orderBooks[c]?)
    {es : List E} {changed changed' : Std.ExtTreeSet Coin}
    (h : applyAll apply es s changed = (s', .ok changed')) :
    (∀ c, c ∈ changed → c ∈ changed') ∧
      (c ∉ changed' → s'.orderBook.orderBooks[c]? = s.orderBook.orderBooks[c]?) := by
  induction es generalizing s changed with
  | nil =>
    simp only [applyAll, Prod.mk.injEq, Except.ok.injEq] at h
    obtain ⟨rfl, rfl⟩ := h
    exact ⟨fun _ hc => hc, fun _ => rfl⟩
  | cons e es ih =>
    simp only [applyAll] at h
    split at h
    · rename_i s₁ coins hstep
      obtain ⟨hmono, hrest⟩ := ih h
      refine ⟨fun c hc => hmono c (Std.ExtTreeSet.mem_insertMany_list.mpr (Or.inl hc)), ?_⟩
      intro hc
      refine (hrest hc).trans (happly _ _ _ _ hstep fun hmem => hc ?_)
      exact hmono c (Std.ExtTreeSet.mem_insertMany_list.mpr
        (Or.inr (List.contains_iff_mem.mpr hmem)))
    · cases h

/-- **A batch of order statuses that succeeds reports every coin whose book it
changed.** -/
theorem applyOrderStatusesHft_reports {batch : Batch NodeDataOrderStatus}
    {changed : Std.ExtTreeSet Coin} (h : s.applyOrderStatusesHft now batch = (s', .ok changed))
    (hc : c ∉ changed) : s'.orderBook.orderBooks[c]? = s.orderBook.orderBooks[c]? := by
  have hall := (applyAll_reports (c := c) (fun _ _ _ _ h hc => applyOrderStatus_reports h hc) h).2 hc
  rwa [orderBook_advance] at hall

/-- **A batch of raw diffs that succeeds reports every coin whose book it
changed.** -/
theorem applyOrderDiffsHft_reports {batch : Batch NodeDataOrderDiff}
    {changed : Std.ExtTreeSet Coin} (h : s.applyOrderDiffsHft now batch = (s', .ok changed))
    (hc : c ∉ changed) : s'.orderBook.orderBooks[c]? = s.orderBook.orderBooks[c]? := by
  have hall := (applyAll_reports (c := c) (fun _ _ _ _ h hc => applyOrderDiff_reports h hc) h).2 hc
  rwa [orderBook_advance, orderBook_forgetZeroed] at hall

end OrderBookState

end HlOrderbook
