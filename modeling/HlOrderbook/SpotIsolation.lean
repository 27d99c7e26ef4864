import HlOrderbook.BookViews
import HlOrderbook.L2Flush
import HlOrderbook.NewDiffs
import HlOrderbook.Untriggered

/-!
# Spot isolation

A server that ignores spot coins is to serve no book of one: their diffs are passed
over, and such a book would never change again.  The diffs, the table of orders waiting
for their trigger, what is broadcast of the diffs and the subscriptions each pass over
spot coins.  The books of a dump do not, nor does the pairing of a status with a diff;
and the request for a book looks it up under any coin.

## Main definitions

* `OrderBookState.NoSpot` — nothing of a spot coin is kept.
* `ServesNoSpot`, `InternalMessage.NamesNoSpot` — none is served.
* `SpotApart` — the dumps hold no spot coin, and no diff is of a spot order.

## Main results

* `servesNoSpot_run`.
-/

set_option autoImplicit false
set_option linter.unusedSectionVars false

namespace HlOrderbook

variable [SlabPolicy] [FixedPoint]

/-! ## The books and the table -/

theorem ne_of_isSpot {c c' : Coin} (h : c.isSpot = false) (h' : c'.isSpot = true) : c ≠ c' := by
  rintro rfl
  exact absurd (h.symm.trans h') Bool.false_ne_true

namespace OrderBooks

/-- No spot coin has a book. -/
def NoSpot (bs : OrderBooks InnerL4Order) : Prop :=
  ∀ c : Coin, c.isSpot = true → bs.orderBooks[c]? = none

variable {bs : OrderBooks InnerL4Order} {c : Coin}

theorem NoSpot.addOrderBefore (h : bs.NoSpot) {order : InnerL4Order}
    (hcoin : order.coin.isSpot = false) (anchor : Option ℕ) :
    (bs.addOrderBefore order anchor).1.NoSpot := by
  intro c hc
  rw [getElem?_addOrderBefore bs order anchor (ne_of_isSpot hcoin hc)]
  exact h c hc

theorem NoSpot.modifySz (h : bs.NoSpot) (k newSz : ℕ) (hcoin : c.isSpot = false) :
    (bs.modifySz k c newSz).1.NoSpot := by
  intro c' hc
  rw [getElem?_modifySz bs k newSz (ne_of_isSpot hcoin hc)]
  exact h c' hc

theorem NoSpot.cancelOrder (h : bs.NoSpot) (k : ℕ) (hcoin : c.isSpot = false) :
    (bs.cancelOrder k c).1.NoSpot := by
  intro c' hc
  rw [getElem?_cancelOrder bs k (ne_of_isSpot hcoin hc)]
  exact h c' hc

theorem NoSpot.compactAll (h : bs.NoSpot) : bs.compactAll.1.NoSpot := by
  intro c hc
  rw [OrderBooks.compactAll, Std.ExtTreeMap.getElem?_filter', Std.ExtTreeMap.getElem?_map, h c hc]
  rfl

theorem noSpot_fromSnapshots {snapshots : Snapshots InnerL4Order} {ignoreTriggers : Bool}
    (h : ∀ c ∈ snapshots, c.isSpot = false) : (fromSnapshots snapshots ignoreTriggers).NoSpot := by
  intro c hc
  rw [fromSnapshots, Std.ExtTreeMap.getElem?_map, Option.map_eq_none_iff]
  exact Std.ExtTreeMap.getElem?_eq_none fun hmem => ne_of_isSpot (h c hmem) hc rfl

end OrderBooks

/-- No order of a table is of a spot coin, and none is kept under one. -/
def TableNoSpot (table : Std.ExtTreeMap Coin (Std.ExtTreeMap ℕ InnerL4Order)) : Prop :=
  ∀ (c : Coin) orders, table[c]? = some orders →
    c.isSpot = false ∧ ∀ (k : ℕ) o, orders[k]? = some o → o.coin.isSpot = false

namespace TableNoSpot

open OrderBookState

variable {table : Std.ExtTreeMap Coin (Std.ExtTreeMap ℕ InnerL4Order)}

theorem empty : TableNoSpot ∅ := by
  intro c orders h
  simp at h

theorem insertUntriggered (h : TableNoSpot table) {order : InnerL4Order}
    (hcoin : order.coin.isSpot = false) : TableNoSpot (insertUntriggered table order) := by
  intro c orders hget
  rw [OrderBookState.insertUntriggered, Std.ExtTreeMap.getElem?_insert] at hget
  split at hget
  case isFalse => exact h c orders hget
  case isTrue hc =>
    cases hget
    rw [Std.compare_eq_iff_eq] at hc
    refine ⟨hc ▸ hcoin, fun k o ho => ?_⟩
    rw [Std.ExtTreeMap.getElem?_insert] at ho
    split at ho
    · cases ho
      exact hcoin
    · cases hbefore : table[order.coin]? with
      | none => simp [hbefore] at ho
      | some orders =>
        rw [hbefore, Option.getD_some] at ho
        exact (h order.coin orders hbefore).2 k o ho

theorem foldl_insertUntriggered (h : TableNoSpot table) {added : List InnerL4Order}
    (hadded : ∀ o ∈ added, o.coin.isSpot = false) :
    TableNoSpot (added.foldl OrderBookState.insertUntriggered table) := by
  induction added generalizing table with
  | nil => exact h
  | cons o added ih =>
    rw [List.forall_mem_cons] at hadded
    exact ih (h.insertUntriggered hadded.1) hadded.2

theorem erase (h : TableNoSpot table) (c : Coin) : TableNoSpot (table.erase c) := by
  intro c' orders hget
  rw [Std.ExtTreeMap.getElem?_erase] at hget
  split at hget
  · cases hget
  · exact h c' orders hget

theorem eraseOrder (h : TableNoSpot table) {c : Coin} {orders : Std.ExtTreeMap ℕ InnerL4Order}
    (hget : table[c]? = some orders) (k : ℕ) : TableNoSpot (table.insert c (orders.erase k)) := by
  intro c' orders' hget'
  rw [Std.ExtTreeMap.getElem?_insert] at hget'
  split at hget'
  case isFalse => exact h c' orders' hget'
  case isTrue hc =>
    cases hget'
    rw [Std.compare_eq_iff_eq] at hc
    subst hc
    refine ⟨(h c orders hget).1, fun k' o ho => (h c orders hget).2 k' o ?_⟩
    rw [Std.ExtTreeMap.getElem?_erase] at ho
    split at ho
    · cases ho
    · exact ho

end TableNoSpot

namespace OrderBookState

/-! ## One event -/

/-- **Nothing of a spot coin is kept**, but statuses of orders that `spotOid` holds of; no
diff of one of those is waiting. -/
structure NoSpot (spotOid : ℕ → Prop) (s : OrderBookState) : Prop where
  ignored : s.ignoreSpot = true
  books : s.orderBook.NoSpot
  table : TableNoSpot s.untriggeredOrders
  statuses : ∀ (k : ℕ) x, s.pendingOrderStatuses[k]? = some x → x.1.order.coin.isSpot = true →
    spotOid k
  diffs : ∀ k ∈ s.pendingNewDiffs, ¬ spotOid k

variable {spotOid : ℕ → Prop} {s : OrderBookState}

theorem noSpot_trackStatus (h : s.NoSpot spotOid) (st : NodeDataOrderStatus) :
    (s.trackStatus st).NoSpot spotOid := by
  have htable : TableNoSpot (s.trackStatus st).untriggeredOrders := by
    rw [trackStatus]
    split
    · exact h.table
    split
    · split
      case isTrue hentered =>
        split
        case h_1 inner hinner =>
          refine h.table.insertUntriggered ?_
          rw [(InnerL4Order.tryFrom_eq_some hinner).1]
          simpa [h.ignored] using (Bool.and_eq_true_iff.mp hentered).2
        case h_2 => exact h.table
      case isFalse => exact h.table
    · split
      case h_1 => exact h.table
      case h_2 orders horders =>
        split
        case isTrue =>
          simp only
          split
          · exact h.table.erase _
          · exact h.table.eraseOrder horders _
        case isFalse => exact h.table
  obtain ⟨table, heq⟩ := s.trackStatus_eq st
  rw [heq] at htable ⊢
  exact ⟨h.ignored, h.books, htable, h.statuses, h.diffs⟩

/-- A diff that waits is given up. -/
theorem NoSpot.eraseDiff (h : s.NoSpot spotOid) (k : ℕ) :
    NoSpot spotOid { s with pendingNewDiffs := s.pendingNewDiffs.erase k } :=
  ⟨h.ignored, h.books, h.table, h.statuses,
    fun k' hk => h.diffs k' (Std.ExtTreeMap.mem_erase.mp hk).2⟩

/-- A status that waits is given up. -/
theorem NoSpot.eraseStatus (h : s.NoSpot spotOid) (k : ℕ) :
    NoSpot spotOid { s with pendingOrderStatuses := s.pendingOrderStatuses.erase k } := by
  refine ⟨h.ignored, h.books, h.table, fun k' x hx => ?_, h.diffs⟩
  rw [Std.ExtTreeMap.getElem?_erase] at hx
  split at hx
  · cases hx
  · exact h.statuses k' x hx

/-- An order of no spot coin rests. -/
theorem NoSpot.restPaired (h : s.NoSpot spotOid) {inner : InnerL4Order}
    (hcoin : inner.coin.isSpot = false) (sz : ℕ) (anchor : Option ℕ) (ts : ℕ) :
    (s.restPaired inner sz anchor ts).NoSpot spotOid := by
  obtain ⟨n, heq⟩ := s.restPaired_eq inner sz anchor ts
  rw [heq]
  refine ⟨h.ignored, h.books.addOrderBefore ?_ anchor, h.table, h.statuses, h.diffs⟩
  rw [InnerL4Order.coin_convertTrigger]
  exact hcoin

theorem NoSpot.noteZeroed (h : s.NoSpot spotOid) (height k : ℕ) :
    (s.noteZeroed height k).NoSpot spotOid := by
  obtain ⟨q, set, heq⟩ := s.noteZeroed_eq height k
  rw [heq]
  exact ⟨h.ignored, h.books, h.table, h.statuses, h.diffs⟩

theorem NoSpot.applyDiffToPendingNew (h : s.NoSpot spotOid) (k : ℕ) (newSz : Option ℕ) :
    (s.applyDiffToPendingNew k newSz).NoSpot spotOid := by
  rw [OrderBookState.applyDiffToPendingNew]
  split
  case h_1 => exact h
  case h_2 pending hpending =>
    have hmem : k ∈ s.pendingNewDiffs :=
      Std.ExtTreeMap.mem_iff_isSome_getElem?.mpr (by rw [hpending]; rfl)
    split
    case h_1 sz =>
      split
      · refine ⟨h.ignored, h.books, h.table, h.statuses, fun k' hk => ?_⟩
        rw [Std.ExtTreeMap.mem_insert, Std.compare_eq_iff_eq] at hk
        rcases hk with rfl | hk
        · exact h.diffs _ hmem
        · exact h.diffs k' hk
      · exact h.eraseDiff k
    case h_2 => exact h.eraseDiff k

/-- **A status** keeps spot coins out, and reports none. -/
theorem NoSpot.applyOrderStatus (h : s.NoSpot spotOid) {st : NodeDataOrderStatus}
    (hfits : st.order.coin.isSpot = true → spotOid st.order.oid) (now : ℕ) :
    (s.applyOrderStatus now st).1.NoSpot spotOid ∧
      ∀ coins, (s.applyOrderStatus now st).2 = .ok coins → ∀ c ∈ coins, c.isSpot = false := by
  have htracked := noSpot_trackStatus h st
  have houtcome := s.statusOutcome now st
  generalize s.applyOrderStatus now st = r at houtcome ⊢
  cases houtcome with
  | passed =>
    refine ⟨htracked, fun coins hcoins => ?_⟩
    cases hcoins
    exact fun c hc => absurd hc List.not_mem_nil
  | kept =>
    refine ⟨⟨htracked.ignored, htracked.books, htracked.table, fun k x hx hspot => ?_,
      htracked.diffs⟩, fun coins hcoins => ?_⟩
    · rw [Std.ExtTreeMap.getElem?_insert] at hx
      split at hx
      case isTrue hk =>
        cases hx
        rw [Std.compare_eq_iff_eq] at hk
        subst hk
        exact hfits hspot
      case isFalse => exact htracked.statuses k x hx hspot
    · cases hcoins
      exact fun c hc => absurd hc List.not_mem_nil
  | rejected => exact ⟨htracked.eraseDiff _, fun coins hcoins => by cases hcoins⟩
  | @paired pending inner waits parses =>
    -- the diff that waits is of no spot order, so neither is the status
    have hcoin : st.order.coin.isSpot = false := by
      rw [Bool.eq_false_iff]
      intro hspot
      exact h.diffs _ (Std.ExtTreeMap.mem_iff_isSome_getElem?.mpr (by rw [waits]; rfl))
        (hfits hspot)
    refine ⟨(htracked.eraseDiff _).restPaired ?_ _ _ _, fun coins hcoins => ?_⟩
    · rw [(InnerL4Order.tryFrom_eq_some parses).1]
      exact hcoin
    · cases hcoins
      exact List.forall_mem_singleton.mpr hcoin

/-- The diff is the first of an order of no spot coin. -/
def opensOther (d : NodeDataOrderDiff) : Bool :=
  !d.coin.isSpot &&
    match InnerOrderDiff.tryFrom d.rawBookDiff with
    | some (.new _ _) => true
    | _ => false

/-- **A diff** keeps spot coins out, and reports none. -/
theorem NoSpot.applyOrderDiff (h : s.NoSpot spotOid) {d : NodeDataOrderDiff}
    (hfits : opensOther d = true → ¬ spotOid d.oid) (now height : ℕ) :
    (s.applyOrderDiff now height d).1.NoSpot spotOid ∧
      ∀ coins, (s.applyOrderDiff now height d).2 = .ok coins → ∀ c ∈ coins, c.isSpot = false := by
  have hcoin : s.skips d = false → d.coin.isSpot = false := by
    intro hskips
    simpa [skips, h.ignored] using hskips
  have hopens : ∀ {sz : ℕ} {anchor : Option ℕ}, s.skips d = false →
      InnerOrderDiff.tryFrom d.rawBookDiff = some (.new sz anchor) → ¬ spotOid d.oid := by
    intro sz anchor hskips hparses
    refine hfits ?_
    rw [opensOther, hcoin hskips, hparses]
    rfl
  have hmodify := fun hskips newSz => h.books.modifySz d.oid newSz (hcoin hskips)
  have hcancel := fun hskips => h.books.cancelOrder d.oid (hcoin hskips)
  have hnone : ∀ coins : List Coin, (Except.ok [] : Except Failure (List Coin)) = .ok coins →
      ∀ c ∈ coins, c.isSpot = false := by
    intro coins hcoins
    cases hcoins
    exact fun c hc => absurd hc List.not_mem_nil
  have hone : s.skips d = false → ∀ coins, (Except.ok [d.coin] : Except Failure (List Coin)) =
      .ok coins → ∀ c ∈ coins, c.isSpot = false := by
    intro hskips coins hcoins
    cases hcoins
    exact List.forall_mem_singleton.mpr (hcoin hskips)
  have houtcome := s.diffOutcome now height d
  generalize s.applyOrderDiff now height d = r at houtcome ⊢
  cases houtcome with
  | skipped => exact ⟨h, hnone⟩
  | unparsed => exact ⟨h, fun coins hcoins => by cases hcoins⟩
  | rejected => exact ⟨h.eraseStatus _, fun coins hcoins => by cases hcoins⟩
  | trapped => exact ⟨h.eraseStatus _, fun coins hcoins => by cases hcoins⟩
  | @paired sz since anchor st inner hskips parses waits order =>
    -- the status that waits is of no spot order, as the diff is of none
    have hst : st.order.coin.isSpot = false := by
      rw [Bool.eq_false_iff]
      intro hspot
      exact hopens hskips parses (h.statuses _ _ waits hspot)
    refine ⟨(h.eraseStatus _).restPaired ?_ _ _ _, fun coins hcoins => ?_⟩
    · rw [(InnerL4Order.tryFrom_eq_some order).1]
      exact hst
    · cases hcoins
      exact List.forall_mem_singleton.mpr hst
  | waits hskips parses =>
    refine ⟨⟨h.ignored, h.books, h.table, h.statuses, fun k hk => ?_⟩, hnone⟩
    rw [Std.ExtTreeMap.mem_insert, Std.compare_eq_iff_eq] at hk
    rcases hk with rfl | hk
    · exact hopens hskips parses
    · exact h.diffs k hk
  | @resized origSz newSz hskips =>
    exact ⟨⟨h.ignored, hmodify hskips newSz, h.table, h.statuses, h.diffs⟩, hone hskips⟩
  | zeroed hskips =>
    have hresized : NoSpot spotOid
        { s with orderBook := (s.orderBook.modifySz d.oid d.coin 0).1 } :=
      ⟨h.ignored, hmodify hskips 0, h.table, h.statuses, h.diffs⟩
    exact ⟨hresized.noteZeroed _ _, hone hskips⟩
  | @updated origSz newSz hskips =>
    have hresized : NoSpot spotOid
        { s with orderBook := (s.orderBook.modifySz d.oid d.coin newSz).1 } :=
      ⟨h.ignored, hmodify hskips newSz, h.table, h.statuses, h.diffs⟩
    exact ⟨hresized.applyDiffToPendingNew d.oid (some newSz), hone hskips⟩
  | cancelled hskips =>
    exact ⟨⟨h.ignored, hcancel hskips, h.table, h.statuses, h.diffs⟩, hone hskips⟩
  | followed hskips =>
    exact ⟨⟨h.ignored, hcancel hskips, h.table, h.statuses, h.diffs⟩, hone hskips⟩
  | removed hskips =>
    have hcancelled : NoSpot spotOid
        { s with orderBook := (s.orderBook.cancelOrder d.oid d.coin).1 } :=
      ⟨h.ignored, hcancel hskips, h.table, h.statuses, h.diffs⟩
    exact ⟨hcancelled.applyDiffToPendingNew d.oid none, hone hskips⟩

/-! ## Batches, ticks and replays -/

/-- **The batch rule for an invariant and what is reported**, failed batches among them. -/
theorem applyAll_keeps {E : Type}
    {apply : OrderBookState → E → OrderBookState × Except Failure (List Coin)}
    {I : OrderBookState → Prop} {Q : Coin → Prop} {events : List E}
    (hstep : ∀ s, ∀ e ∈ events, I s → I (apply s e).1 ∧
      ∀ coins, (apply s e).2 = .ok coins → ∀ c ∈ coins, Q c)
    (h : I s) {changed : Std.ExtTreeSet Coin} (hchanged : ∀ c ∈ changed, Q c) :
    I (applyAll apply events s changed).1 ∧
      ∀ changed', (applyAll apply events s changed).2 = .ok changed' → ∀ c ∈ changed', Q c := by
  induction events generalizing s changed with
  | nil =>
    refine ⟨h, fun changed' hchanged' => ?_⟩
    cases hchanged'
    exact hchanged
  | cons e events ih =>
    obtain ⟨hkeeps, hreports⟩ := hstep s e List.mem_cons_self h
    rw [applyAll]
    generalize apply s e = r at hkeeps hreports
    obtain ⟨s₁, result⟩ := r
    cases result with
    | error f => exact ⟨hkeeps, fun changed' hchanged' => by cases hchanged'⟩
    | ok coins =>
      refine ih (fun s e he => hstep s e (List.mem_cons_of_mem _ he)) hkeeps fun c hc => ?_
      rw [Std.ExtTreeSet.mem_insertMany_list, List.contains_iff_mem] at hc
      exact hc.elim (hchanged c) (hreports coins rfl c)

/-- The statuses of spot orders and the diffs that open other orders are told apart. -/
def FitsBatch (spotOid : ℕ → Prop) : EventBatch → Prop
  | .orders batch => ∀ st ∈ batch.events, st.order.coin.isSpot = true → spotOid st.order.oid
  | .bookDiffs batch => ∀ d ∈ batch.events, opensOther d = true → ¬ spotOid d.oid
  | .fills _ => True

theorem NoSpot.advance (h : s.NoSpot spotOid) (height time : ℕ) :
    (s.advance height time).NoSpot spotOid := by
  rw [OrderBookState.advance]
  split
  · exact ⟨h.ignored, h.books, h.table, h.statuses, h.diffs⟩
  · exact h

theorem NoSpot.forgetZeroed (h : s.NoSpot spotOid) (height : ℕ) :
    (s.forgetZeroed height).NoSpot spotOid :=
  ⟨h.ignored, h.books, h.table, h.statuses, h.diffs⟩

theorem NoSpot.takeInsertBeforeFallbacks (h : s.NoSpot spotOid) :
    s.takeInsertBeforeFallbacks.1.NoSpot spotOid :=
  ⟨h.ignored, h.books, h.table, h.statuses, h.diffs⟩

theorem NoSpot.applyOrderStatusesHft (h : s.NoSpot spotOid) {batch : Batch NodeDataOrderStatus}
    (hfits : FitsBatch spotOid (.orders batch)) (now : ℕ) :
    (s.applyOrderStatusesHft now batch).1.NoSpot spotOid ∧
      ∀ changed, (s.applyOrderStatusesHft now batch).2 = .ok changed →
        ∀ c ∈ changed, c.isSpot = false :=
  applyAll_keeps (fun _ st hst h => h.applyOrderStatus (hfits st hst) now) (h.advance _ _)
    fun _ hc => absurd hc Std.ExtTreeSet.not_mem_empty

theorem NoSpot.applyOrderDiffsHft (h : s.NoSpot spotOid) {batch : Batch NodeDataOrderDiff}
    (hfits : FitsBatch spotOid (.bookDiffs batch)) (now : ℕ) :
    (s.applyOrderDiffsHft now batch).1.NoSpot spotOid ∧
      ∀ changed, (s.applyOrderDiffsHft now batch).2 = .ok changed →
        ∀ c ∈ changed, c.isSpot = false :=
  applyAll_keeps (fun _ d hd h => h.applyOrderDiff (hfits d hd) now _)
    ((h.forgetZeroed _).advance _ _) fun _ hc => absurd hc Std.ExtTreeSet.not_mem_empty

theorem NoSpot.cleanupStalePending (h : s.NoSpot spotOid) (now : ℕ) :
    (s.cleanupStalePending now).1.NoSpot spotOid := by
  refine ⟨h.ignored, h.books.compactAll, h.table, fun k x hx => h.statuses k x ?_, fun k hk => ?_⟩
  · rw [OrderBookState.cleanupStalePending] at hx
    simp only at hx
    rw [getElem?_capped fun x : NodeDataOrderStatus × ℕ => decide (now - x.2 < pendingMaxAge)] at hx
    split at hx
    · cases hx
    · exact (Option.filter_eq_some_iff.mp hx).1
  · refine h.diffs k ?_
    rw [Std.ExtTreeMap.mem_iff_isSome_getElem?] at hk ⊢
    have hleft : (s.cleanupStalePending now).1.pendingNewDiffs[k]? = s.pendingNewDiffs[k]? ∨
        (s.cleanupStalePending now).1.pendingNewDiffs[k]? = none := getElem?_pendingNewDiffs_cleanup
    rcases hleft with heq | hnone
    · rw [← heq]
      exact hk
    · rw [hnone] at hk
      cases hk

/-- A batch that is replayed. -/
theorem NoSpot.replayBatchAbove (h : s.NoSpot spotOid) {batch : EventBatch}
    (hfits : FitsBatch spotOid batch) {now height : ℕ} {s' : OrderBookState} {failed : Bool}
    (hreplay : replayBatchAbove now height s batch = some (s', failed)) : s'.NoSpot spotOid := by
  cases batch with
  | orders batch =>
    obtain ⟨r, hr⟩ : ∃ r, r = if height < batch.blockNumber then s.applyOrderStatusesHft now batch
        else (s, .ok ∅) := ⟨_, rfl⟩
    have hresult : r.1.NoSpot spotOid := by
      rw [hr]
      split
      · exact (h.applyOrderStatusesHft hfits now).1
      · exact h
    simp only [HlOrderbook.replayBatchAbove, ← hr] at hreplay
    split at hreplay <;> cases hreplay <;> exact hresult
  | bookDiffs batch =>
    obtain ⟨r, hr⟩ : ∃ r, r = if height < batch.blockNumber then s.applyOrderDiffsHft now batch
        else (s, .ok ∅) := ⟨_, rfl⟩
    have hresult : r.1.NoSpot spotOid := by
      rw [hr]
      split
      · exact (h.applyOrderDiffsHft hfits now).1
      · exact h
    simp only [HlOrderbook.replayBatchAbove, ← hr] at hreplay
    split at hreplay <;> cases hreplay <;> exact hresult
  | fills batch =>
    cases hreplay
    exact h

theorem NoSpot.replayAll (h : s.NoSpot spotOid) {batches : List EventBatch}
    (hfits : ∀ batch ∈ batches, FitsBatch spotOid batch) {now height : ℕ} {s' : OrderBookState}
    {failed failed' : Bool} (hreplay : replayAll now height batches s failed = some (s', failed')) :
    s'.NoSpot spotOid := by
  induction batches generalizing s failed with
  | nil =>
    cases hreplay
    exact h
  | cons batch batches ih =>
    rw [List.forall_mem_cons] at hfits
    rw [HlOrderbook.replayAll] at hreplay
    split at hreplay
    · cases hreplay
    · next s₁ failed₁ hbatch =>
      exact ih (h.replayBatchAbove hfits.1 hbatch) hfits.2 hreplay

/-! ## Snapshots -/

/-- **A dump without spot coins.**  The orders it lists as waiting for their trigger are
filtered anyway. -/
theorem noSpot_fromSnapshot {snapshot : Snapshots InnerL4Order}
    (hsnapshot : ∀ c ∈ snapshot, c.isSpot = false) (untriggered : List InnerL4Order)
    (height time : ℕ) (ignoreTriggers trackUntriggered : Bool) :
    (fromSnapshot snapshot untriggered height time ignoreTriggers true
      trackUntriggered).NoSpot spotOid := by
  have hcut : ∀ c ∈ (Snapshots.extractTriggers snapshot).1, c.isSpot = false := by
    intro c hc
    rw [Snapshots.extractTriggers, Std.ExtTreeMap.mem_map] at hc
    exact hsnapshot c hc
  have hkept : ∀ orders : List InnerL4Order,
      ∀ o ∈ orders.filter fun order => !(true && order.coin.isSpot), o.coin.isSpot = false := by
    intro orders o ho
    simpa using (List.mem_filter.mp ho).2
  refine ⟨?_, ?_, ?_, fun k x hx => ?_, fun k hk => ?_⟩
  · cases ignoreTriggers <;> cases trackUntriggered <;> rfl
  · cases ignoreTriggers with
    | false => exact OrderBooks.noSpot_fromSnapshots hsnapshot
    | true =>
      cases trackUntriggered with
      | false => exact OrderBooks.noSpot_fromSnapshots hsnapshot
      | true => exact OrderBooks.noSpot_fromSnapshots hcut
  · cases trackUntriggered with
    | false => cases ignoreTriggers <;> exact .empty
    | true =>
      have hlisted := TableNoSpot.empty.foldl_insertUntriggered (hkept untriggered)
      cases ignoreTriggers with
      | false => exact hlisted
      | true => exact hlisted.foldl_insertUntriggered (hkept _)
  · have hnone : ((∅ : Std.ExtTreeMap ℕ (NodeDataOrderStatus × ℕ))[k]?) = some x := by
      cases ignoreTriggers <;> cases trackUntriggered <;> exact hx
    simp at hnone
  · have hnone : k ∈ (∅ : Std.ExtTreeMap ℕ PendingNew) := by
      cases ignoreTriggers <;> cases trackUntriggered <;> exact hk
    exact absurd hnone Std.ExtTreeMap.not_mem_empty

theorem NoSpot.carryForwardUntriggered (h : s.NoSpot spotOid) {prev : OrderBookState}
    (hprev : prev.NoSpot spotOid) : (s.carryForwardUntriggered prev).NoSpot spotOid := by
  rw [OrderBookState.carryForwardUntriggered]
  split
  · exact ⟨h.ignored, h.books, hprev.table, h.statuses, h.diffs⟩
  · exact h

end OrderBookState

/-! ## The listener -/

open OrderBookState

/-- No book of a spot coin is in a message. -/
def InternalMessage.NamesNoSpot : InternalMessage → Prop
  | .snapshot l2Snapshots previous _ _ dirty univ => ∀ c : Coin, c.isSpot = true →
    c ∉ l2Snapshots ∧ c ∉ previous ∧ c ∉ dirty ∧ ∀ coins ∈ univ, c ∉ coins
  | .bboUpdate bbos _ => ∀ c : Coin, c.isSpot = true → c ∉ bbos
  | _ => True

namespace OrderBookListener

/-- **No request is served a book of a spot coin.** -/
structure ServesNoSpot (l : OrderBookListener) : Prop where
  snapshot : ∀ (c : Coin) (band : PxBand), c.isSpot = true →
    l.computeSnapshotForCoin c band = none
  l2 : ∀ c : Coin, c.isSpot = true → c ∉ l.l2SnapshotCache
  univ : ∀ c : Coin, c.isSpot = true → c ∉ l.univ
  untriggered : ∀ (coin : Option Coin) time height orders,
    l.computeUntriggeredSnapshot coin = some (time, height, orders) →
      ∀ o ∈ orders, o.coin.isSpot = false
  untriggeredOf : ∀ (c : Coin) time height orders, c.isSpot = true →
    l.computeUntriggeredSnapshot (some c) = some (time, height, orders) → orders = []

/-- Nothing of a spot coin is kept by the listener. -/
structure NoSpot (spotOid : ℕ → Prop) (l : OrderBookListener) : Prop where
  ignored : l.ignoreSpot = true
  state : ∀ s, l.orderBookState = some s → s.NoSpot spotOid
  kept : ∀ batch ∈ l.fetchedSnapshotCache.getD [], FitsBatch spotOid batch
  cache : ∀ c ∈ l.l2SnapshotCache, c.isSpot = false
  dirty : ∀ c ∈ l.pendingDirtyL2Coins, c.isSpot = false

variable {spotOid : ℕ → Prop} {l l' : OrderBookListener} {s : OrderBookState}

theorem NoSpot.univ (h : l.NoSpot spotOid) : ∀ c ∈ l.univ, c.isSpot = false := by
  intro c hc
  rw [OrderBookListener.univ] at hc
  split at hc
  · exact absurd hc Std.ExtTreeSet.not_mem_empty
  · next s hs =>
    rw [Std.ExtTreeSet.mem_ofList, List.contains_iff_mem, List.mem_filter,
      Std.ExtTreeMap.mem_keys, Std.ExtTreeMap.mem_iff_isSome_getElem?] at hc
    rw [Bool.eq_false_iff]
    intro hspot
    rw [(h.state s hs).books c hspot] at hc
    cases hc.1

/-- **A listener that keeps nothing of a spot coin serves nothing of one.** -/
theorem NoSpot.servesNoSpot (h : l.NoSpot spotOid) : l.ServesNoSpot := by
  have hlisted : ∀ (coin : Option Coin) s, l.orderBookState = some s →
      ∀ o ∈ (s.untriggeredSnapshot coin).2.2, o.coin.isSpot = false := by
    intro coin s hs o ho
    have htable := (h.state s hs).table
    have hmem : ∀ (c : Coin) orders, s.untriggeredOrders[c]? = some orders →
        o ∈ Std.ExtTreeMap.values orders → o.coin.isSpot = false := by
      intro c orders hget hvalues
      obtain ⟨k, hk⟩ := (mem_values_iff _).mp hvalues
      exact (htable c orders hget).2 k o hk
    cases coin with
    | none =>
      obtain ⟨orders, horders, hvalues⟩ := List.mem_flatMap.mp ho
      obtain ⟨c, hc⟩ := (mem_values_iff _).mp horders
      exact hmem c orders hc hvalues
    | some c =>
      simp only [untriggeredSnapshot] at ho
      cases hget : s.untriggeredOrders[c]? with
      | none => simp [hget] at ho
      | some orders =>
        rw [hget] at ho
        exact hmem c orders hget ho
  refine ⟨fun c band hc => ?_, fun c hc hmem => ?_, fun c hc hmem => ?_,
    fun coin time height orders heq => ?_, fun c time height orders hc heq => ?_⟩
  · rw [computeSnapshotForCoin]
    cases hs : l.orderBookState with
    | none => rfl
    | some s =>
      rw [Option.bind_some, OrderBookState.computeSnapshotForCoin, OrderBooks.snapshotForCoin,
        (h.state s hs).books c hc]
      rfl
  · exact ne_of_isSpot (h.cache c hmem) hc rfl
  · exact ne_of_isSpot (h.univ c hmem) hc rfl
  · obtain ⟨s, hs, hsnapshot⟩ := Option.map_eq_some_iff.mp heq
    have := hlisted coin s hs
    rw [hsnapshot] at this
    exact this
  · obtain ⟨s, hs, hsnapshot⟩ := Option.map_eq_some_iff.mp heq
    have hnone : s.untriggeredOrders[c]? = none := by
      cases hget : s.untriggeredOrders[c]? with
      | none => rfl
      | some orders => exact absurd rfl (ne_of_isSpot ((h.state s hs).table c orders hget).1 hc)
    simp only [untriggeredSnapshot, hnone, Prod.mk.injEq] at hsnapshot
    exact hsnapshot.2.2.symm

/-! ### What is kept for the replay -/

theorem NoSpot.markDesynced (h : l.NoSpot spotOid) : l.markDesynced.NoSpot spotOid := by
  rw [OrderBookListener.markDesynced]
  split
  · exact h
  · exact ⟨h.ignored, h.state, h.kept, h.cache, h.dirty⟩

theorem NoSpot.cacheForReplay (h : l.NoSpot spotOid) {batch : EventBatch}
    (hfits : FitsBatch spotOid batch) : (l.cacheForReplay batch).1.NoSpot spotOid := by
  have hpush : (l.pushToReplayCache batch).NoSpot spotOid := by
    rw [pushToReplayCache]
    split
    · refine NoSpot.markDesynced ⟨h.ignored, h.state, ?_, h.cache, h.dirty⟩
      exact fun batch hbatch => absurd hbatch List.not_mem_nil
    · refine ⟨h.ignored, h.state, fun batch' hbatch => ?_, h.cache, h.dirty⟩
      cases hkept : l.fetchedSnapshotCache with
      | none => simp [hkept] at hbatch
      | some batches =>
        simp only [hkept, Option.map_some, Option.getD_some, List.mem_append,
          List.mem_singleton] at hbatch
        rcases hbatch with hbatch | rfl
        · exact h.kept batch' (by rw [hkept]; exact hbatch)
        · exact hfits
  rw [OrderBookListener.cacheForReplay]
  split
  · exact h
  · split
    · exact hpush
    · exact hpush

theorem NoSpot.drainReplayCache (h : l.NoSpot spotOid) : l.drainReplayCache.1.NoSpot spotOid := by
  refine ⟨h.ignored, h.state, fun batch hbatch => ?_, h.cache, h.dirty⟩
  simp only [OrderBookListener.drainReplayCache] at hbatch
  cases hkept : l.fetchedSnapshotCache <;> simp [hkept] at hbatch

theorem NoSpot.abandonReplayCache (h : l.NoSpot spotOid) :
    l.abandonReplayCache.NoSpot spotOid :=
  ⟨h.ignored, h.state, fun _ hbatch => absurd hbatch List.not_mem_nil, h.cache, h.dirty⟩

theorem NoSpot.beginFetch (h : l.NoSpot spotOid) (head : ℕ) :
    (l.beginFetch head).NoSpot spotOid := by
  rw [OrderBookListener.beginFetch, beginCaching]
  split
  · exact ⟨h.ignored, h.state, fun _ hbatch => absurd hbatch List.not_mem_nil, h.cache, h.dirty⟩
  · exact ⟨h.ignored, h.state, h.kept, h.cache, h.dirty⟩

/-! ### Taking in a batch -/

/-- Applying a batch to the book keeps spot coins out, and reports none. -/
theorem NoSpot.applyToState (h : l.NoSpot spotOid) (hs : s.NoSpot spotOid) {batch : EventBatch}
    (hfits : FitsBatch spotOid batch) (env : Env) :
    (l.applyToState env s batch).1.NoSpot spotOid ∧
      ∀ changed, (l.applyToState env s batch).2.2 = .ok changed →
        ∀ c ∈ changed, c.isSpot = false := by
  cases batch with
  | orders batch =>
    obtain ⟨hkeeps, hreports⟩ := hs.applyOrderStatusesHft hfits env.now
    refine ⟨⟨h.ignored, fun s' hs' => ?_, h.kept, h.cache, h.dirty⟩, hreports⟩
    cases hs'
    exact hkeeps.takeInsertBeforeFallbacks
  | bookDiffs batch =>
    obtain ⟨hkeeps, hreports⟩ := hs.applyOrderDiffsHft hfits env.now
    refine ⟨⟨h.ignored, fun s' hs' => ?_, h.kept, h.cache, h.dirty⟩, hreports⟩
    cases hs'
    exact hkeeps.takeInsertBeforeFallbacks
  | fills batch =>
    have hset : ∀ pairer, NoSpot spotOid { l with
        orderBookState := some s.takeInsertBeforeFallbacks.1, tradePairer := pairer } := by
      refine fun pairer => ⟨h.ignored, fun s' hs' => ?_, h.kept, h.cache, h.dirty⟩
      cases hs'
      exact hs.takeInsertBeforeFallbacks
    have hnone : ∀ changed : Std.ExtTreeSet Coin,
        (Except.ok ∅ : Except Failure (Std.ExtTreeSet Coin)) = .ok changed →
          ∀ c ∈ changed, Coin.isSpot c = false := by
      intro changed hchanged
      cases hchanged
      exact fun c hc => absurd hc Std.ExtTreeSet.not_mem_empty
    simp only [OrderBookListener.applyToState]
    split
    · exact ⟨hset _, hnone⟩
    · exact ⟨hset _, hnone⟩

theorem NoSpot.maintain (h : l.NoSpot spotOid) (now : ℕ) : (l.maintain now).1.NoSpot spotOid := by
  simp only [OrderBookListener.maintain]
  split
  case h_1 s hs =>
    split
    · refine ⟨h.ignored, fun s' hs' => ?_, h.kept, h.cache, h.dirty⟩
      cases hs'
      exact (h.state s hs).cleanupStalePending now
    · exact ⟨h.ignored, h.state, h.kept, h.cache, h.dirty⟩
  case h_2 => exact ⟨h.ignored, h.state, h.kept, h.cache, h.dirty⟩

theorem NoSpot.extendDirty (h : l.NoSpot spotOid) {changed : Std.ExtTreeSet Coin}
    (hchanged : ∀ c ∈ changed, Coin.isSpot c = false) : (l.extendDirty changed).NoSpot spotOid :=
  ⟨h.ignored, h.state, h.kept, h.cache, fun c hc =>
    (mem_extendDirty.mp hc).elim (h.dirty c) (hchanged c)⟩

/-- The best prices are those of the coins that changed. -/
theorem namesNoSpot_bboBroadcast (env : Env) {changed : Std.ExtTreeSet Coin}
    (hchanged : ∀ c ∈ changed, Coin.isSpot c = false) :
    ∀ m ∈ l.bboBroadcast env changed, m.NamesNoSpot := by
  intro m hm
  simp only [bboBroadcast] at hm
  split at hm
  case h_2 => cases hm
  case h_1 =>
    split at hm
    case isFalse => cases hm
    case isTrue =>
      rw [List.mem_singleton] at hm
      subst hm
      intro c hspot hc
      rw [getBbosForCoins, Std.ExtTreeMap.mem_ofList, List.contains_iff_mem, List.map_map,
        List.mem_map] at hc
      obtain ⟨c', hc', rfl⟩ := hc
      exact ne_of_isSpot (hchanged c' (Std.ExtTreeSet.mem_toList.mp hc')) hspot rfl

/-- **Taking in a batch** keeps spot coins out, and sends nothing of one. -/
theorem NoSpot.applyEventBatch (h : l.NoSpot spotOid) {batch : EventBatch}
    (hfits : FitsBatch spotOid batch) {env : Env} {height : ℕ} {sent : List InternalMessage}
    (happly : l.applyEventBatch env height batch = some (l', sent)) :
    l'.NoSpot spotOid ∧ ∀ m ∈ sent, m.NamesNoSpot := by
  have hsee : (l.see height).NoSpot spotOid :=
    ⟨h.ignored, h.state, h.kept, h.cache, h.dirty⟩
  rcases applyEventBatch_cases happly with ⟨-, rfl, rfl⟩ | ⟨-, -, rfl, rfl⟩ | ⟨-, s, hs, hlive⟩
  · exact ⟨hsee.markDesynced, fun m hm => absurd hm List.not_mem_nil⟩
  · exact ⟨hsee.cacheForReplay hfits, fun m hm => absurd hm List.not_mem_nil⟩
  · obtain ⟨l₁, sent₁, result, heq, -, rfl, rfl⟩ := applyLive_eq_some hlive
    obtain ⟨hkeeps, hreports⟩ := (hsee.cacheForReplay hfits).applyToState (h.state s hs) hfits env
    have hsingle : ∀ m ∈ (((l.see height).cacheForReplay batch).1.applyToState env s batch).2.1,
        (∃ time height byCoin, m = .l4OrderStatuses time height byCoin) ∨
        (∃ time height byCoin, m = .l4OrderDiffs time height byCoin) ∨
          ∃ byCoin, m = .fills byCoin := fun m hm => mem_applyToState hm
    rw [heq] at hkeeps hreports hsingle
    have hchanged : ∀ c ∈ result.toOption.getD ∅, c.isSpot = false := by
      cases result with
      | ok changed => exact hreports changed rfl
      | error f => exact fun c hc => absurd hc Std.ExtTreeSet.not_mem_empty
    refine ⟨?_, fun m hm => ?_⟩
    · rw [conclude_fst]
      refine NoSpot.extendDirty ?_ hchanged
      split
      · exact (hkeeps.maintain _).markDesynced
      · exact hkeeps.maintain _
    · rcases List.mem_append.mp hm with hm | hm
      · rcases hsingle m hm with ⟨_, _, _, rfl⟩ | ⟨_, _, _, rfl⟩ | ⟨_, rfl⟩ <;> trivial
      · exact namesNoSpot_bboBroadcast env hchanged m hm

/-! ### Sending the aggregated books -/

theorem NoSpot.retune (h : l.NoSpot spotOid) (active : Finset L2SnapshotParams) :
    (l.retune active).NoSpot spotOid := by
  rw [OrderBookListener.retune]
  split
  · exact h
  · exact ⟨h.ignored, h.state, h.kept, fun c hc => absurd hc Std.ExtTreeMap.not_mem_empty, h.dirty⟩

/-- **A send** keeps spot coins out, and has nothing of one. -/
theorem NoSpot.broadcastL2 (h : l.NoSpot spotOid) (hs : s.NoSpot spotOid) (env : Env) :
    (l.broadcastL2 env s).1.NoSpot spotOid ∧ ∀ m ∈ (l.broadcastL2 env s).2, m.NamesNoSpot := by
  have hcontains : ∀ c : Coin, c.isSpot = true → s.orderBook.orderBooks.contains c = false := by
    intro c hc
    rw [Std.ExtTreeMap.contains_eq_isSome_getElem?, hs.books c hc]
    rfl
  have hcompute : ∀ (c : Coin) (changed : Std.ExtTreeSet Coin) (cache : L2Snapshots),
      c.isSpot = true → c ∉ coinsToCompute s.orderBook changed cache := by
    intro c changed cache hc hmem
    have := (of_mem_coinsToCompute hmem).1
    rw [hcontains c hc] at this
    cases this
  have hbuilt : ∀ c : Coin, c.isSpot = true →
      c ∉ (computeL2SnapshotsIncremental s.orderBook l.pendingDirtyL2Coins env.active
        l.l2SnapshotCache).1 := by
    intro c hc
    rw [Std.ExtTreeMap.mem_iff_isSome_getElem?, getElem?_computeL2SnapshotsIncremental,
      if_neg (hcompute c _ _ hc), hcontains c hc]
    simp
  refine ⟨⟨h.ignored, h.state, h.kept, fun c hc => ?_,
    fun c hc => absurd hc Std.ExtTreeSet.not_mem_empty⟩, fun m hm => ?_⟩
  · rw [Bool.eq_false_iff]
    exact fun hspot => hbuilt c hspot hc
  · simp only [OrderBookListener.broadcastL2] at hm
    split at hm
    case isFalse => cases hm
    case isTrue =>
      rw [List.mem_singleton] at hm
      subst hm
      refine fun c hspot => ⟨hbuilt c hspot, fun hc => ?_, fun hc => ?_, fun coins hcoins hc => ?_⟩
      · exact ne_of_isSpot (h.cache c (Std.ExtTreeMap.mem_of_mem_filter hc)) hspot rfl
      · rcases (mem_recomputed _ _ _ _ c).mp hc with hc | ⟨hc, -⟩
        · exact hcompute c _ _ hspot hc
        · exact ne_of_isSpot (h.dirty c hc) hspot rfl
      · split at hcoins
        · cases hcoins
          exact ne_of_isSpot (h.univ c hc) hspot rfl
        · cases hcoins

theorem NoSpot.flushL2IfDue (h : l.NoSpot spotOid) (env : Env) :
    (l.flushL2IfDue env).1.NoSpot spotOid ∧ ∀ m ∈ (l.flushL2IfDue env).2, m.NamesNoSpot := by
  have hretune := h.retune env.active
  rcases flushL2IfDue_cases env l with ⟨hsent, last, hfst⟩ | ⟨-, hsent, last, hfst⟩ |
    ⟨-, -, s, hs, last, heq⟩
  · rw [hsent, hfst]
    exact ⟨⟨h.ignored, h.state, h.kept, h.cache, h.dirty⟩, fun m hm => absurd hm List.not_mem_nil⟩
  · rw [hsent, hfst]
    exact ⟨⟨hretune.ignored, hretune.state, hretune.kept, hretune.cache, hretune.dirty⟩,
      fun m hm => absurd hm List.not_mem_nil⟩
  · have hlast : NoSpot spotOid
        ({ l.retune env.active with lastL2Broadcast := last } : OrderBookListener) :=
      ⟨hretune.ignored, hretune.state, hretune.kept, hretune.cache, hretune.dirty⟩
    rw [heq]
    exact hlast.broadcastL2 (h.state s hs) env

/-! ### Installing a snapshot -/

theorem NoSpot.settleLosses (h : l.NoSpot spotOid) (height prior covers : ℕ) (failed : Bool) :
    (l.settleLosses height prior covers failed).NoSpot spotOid := by
  have hcleared : NoSpot spotOid
      { l with needsResync := false, maxLossHeight := 0, resyncDataLoss := false } :=
    ⟨h.ignored, h.state, h.kept, h.cache, h.dirty⟩
  simp only [OrderBookListener.settleLosses]
  split
  · exact hcleared.markDesynced
  · split
    · exact ⟨h.ignored, h.state, h.kept, h.cache, h.dirty⟩
    · exact hcleared

theorem NoSpot.finishInstall (h : l.NoSpot spotOid) (hs : s.NoSpot spotOid) {now height : ℕ}
    {failed : Bool} (hfinish : l.finishInstall now s height failed = some l') :
    l'.NoSpot spotOid := by
  rw [OrderBookListener.finishInstall] at hfinish
  split at hfinish
  · cases hfinish
  · next s' failed' hreplay =>
    have hs' := (hs.replayAll h.kept hreplay).takeInsertBeforeFallbacks
    have hset : NoSpot spotOid { l with
        fetchedSnapshotCache := none
        cachedEventCount := 0
        installCovers := 0
        orderBookState := some s'.takeInsertBeforeFallbacks.1 } := by
      refine ⟨h.ignored, fun s'' heq => ?_, fun batch hbatch => absurd hbatch List.not_mem_nil,
        h.cache, h.dirty⟩
      cases heq
      exact hs'
    have hsettled := hset.settleLosses height l.maxLossHeight (max l.installCovers height) failed'
    rw [Option.some.injEq] at hfinish
    subst hfinish
    exact ⟨hsettled.ignored, hsettled.state, hsettled.kept,
      fun c hc => absurd hc Std.ExtTreeMap.not_mem_empty,
      fun c hc => absurd hc Std.ExtTreeSet.not_mem_empty⟩

end OrderBookListener

/-! ## Runs -/

/-- The snapshots a step makes books of. -/
def IngestOp.dumps : IngestOp → List (Snapshots InnerL4Order)
  | .build snapshot _ _ => [snapshot]
  | .init _ snapshot _ => [snapshot]
  | _ => []

/-- The statuses a step takes in. -/
def IngestOp.statuses : IngestOp → List NodeDataOrderStatus
  | .apply _ _ (.orders batch) => batch.events
  | _ => []

/-- The diffs a step takes in. -/
def IngestOp.diffs : IngestOp → List NodeDataOrderDiff
  | .apply _ _ (.bookDiffs batch) => batch.events
  | _ => []

/-- No dump holds a spot coin, and no status of a spot order carries the identifier of an
order that a diff of another coin opens. -/
structure SpotApart (ops : List IngestOp) : Prop where
  dumps : ∀ snapshot ∈ ops.flatMap IngestOp.dumps, ∀ c ∈ snapshot.keys, Coin.isSpot c = false
  oids : ∀ st ∈ ops.flatMap IngestOp.statuses, st.order.coin.isSpot = true →
    ∀ d ∈ ops.flatMap IngestOp.diffs, opensOther d = true → d.oid ≠ st.order.oid

/-- What a step is to be for spot orders to have the identifiers of `spotOid`. -/
structure IngestOp.Fits (spotOid : ℕ → Prop) (op : IngestOp) : Prop where
  dumps : ∀ snapshot ∈ op.dumps, ∀ c ∈ snapshot, Coin.isSpot c = false
  statuses : ∀ st ∈ op.statuses, st.order.coin.isSpot = true → spotOid st.order.oid
  diffs : ∀ d ∈ op.diffs, opensOther d = true → ¬ spotOid d.oid

theorem SpotApart.fits {ops : List IngestOp} (h : SpotApart ops) : ∀ op ∈ ops, op.Fits fun k =>
    ∃ st ∈ ops.flatMap IngestOp.statuses, st.order.coin.isSpot = true ∧ st.order.oid = k := by
  intro op hop
  refine ⟨fun snapshot hs c hc => ?_, fun st hst hspot => ?_, fun d hd hopens hspot => ?_⟩
  · exact h.dumps snapshot (List.mem_flatMap.mpr ⟨op, hop, hs⟩) c (Std.ExtTreeMap.mem_keys.mpr hc)
  · exact ⟨st, List.mem_flatMap.mpr ⟨op, hop, hst⟩, hspot, rfl⟩
  · obtain ⟨st, hst, hspot, hoid⟩ := hspot
    exact h.oids st hst hspot d (List.mem_flatMap.mpr ⟨op, hop, hd⟩) hopens hoid.symm

theorem IngestOp.Fits.batch {spotOid : ℕ → Prop} {env : Env} {height : ℕ} {batch : EventBatch}
    (h : (IngestOp.apply env height batch).Fits spotOid) : FitsBatch spotOid batch := by
  cases batch with
  | orders batch => exact h.statuses
  | bookDiffs batch => exact h.diffs
  | fills batch => trivial

namespace Ingest

variable {spotOid : ℕ → Prop} {i i' : Ingest} {op : IngestOp} {sent : List InternalMessage}

/-- Nothing of a spot coin is kept by the listener, nor by the install in progress. -/
structure NoSpot (spotOid : ℕ → Prop) (i : Ingest) : Prop where
  listener : i.listener.NoSpot spotOid
  install : ∀ p, i.install = some p → p.state.NoSpot spotOid

/-- A state that is built of a dump, what the dump does not hold carried over. -/
theorem noSpot_built (h : i.NoSpot spotOid) {snapshot : Snapshots InnerL4Order}
    (hsnapshot : ∀ c ∈ snapshot, Coin.isSpot c = false) (untriggered : List InnerL4Order)
    (height : ℕ) :
    (PhasedInstall.build i.listener snapshot untriggered height).state.NoSpot spotOid := by
  have hbuilt : (fromSnapshot snapshot untriggered height 0 true i.listener.ignoreSpot
      i.listener.trackUntriggered).NoSpot spotOid := by
    rw [h.listener.ignored]
    exact noSpot_fromSnapshot hsnapshot untriggered height 0 true _
  rw [PhasedInstall.build]
  simp only
  split
  case h_1 s hs => exact hbuilt.carryForwardUntriggered (h.listener.state s hs)
  case h_2 => exact hbuilt

/-- **One step** keeps spot coins out, and sends nothing of one. -/
theorem NoSpot.step (h : i.NoSpot spotOid) (hfits : op.Fits spotOid)
    (hstep : i.step op = some (i', sent)) : i'.NoSpot spotOid ∧ ∀ m ∈ sent, m.NamesNoSpot := by
  have hsilent : ∀ m ∈ ([] : List InternalMessage), m.NamesNoSpot :=
    fun m hm => absurd hm List.not_mem_nil
  cases op with
  | apply env height batch =>
    simp only [Ingest.step, Option.map_eq_some_iff, Prod.exists, Prod.mk.injEq] at hstep
    obtain ⟨l', sent', happly, rfl, rfl⟩ := hstep
    obtain ⟨hl, hsent⟩ := h.listener.applyEventBatch hfits.batch happly
    exact ⟨⟨hl, h.install⟩, hsent⟩
  | desync line =>
    cases hstep
    exact ⟨⟨h.listener.markDesynced, h.install⟩, hsilent⟩
  | flush env =>
    cases hstep
    obtain ⟨hl, hsent⟩ := h.listener.flushL2IfDue env
    exact ⟨⟨hl, h.install⟩, hsent⟩
  | beginFetch head =>
    cases hstep
    exact ⟨⟨h.listener.beginFetch head, fun p hp => by cases hp⟩, hsilent⟩
  | build snapshot untriggered height =>
    cases hstep
    refine ⟨⟨h.listener, fun p hp => ?_⟩, hsilent⟩
    cases hp
    exact noSpot_built h (hfits.dumps snapshot (List.mem_singleton.mpr rfl)) untriggered height
  | chase now =>
    rw [Ingest.step] at hstep
    cases hinstall : i.install with
    | none => simp [hinstall] at hstep
    | some p =>
      simp only [hinstall] at hstep
      split at hstep
      case isFalse => cases hstep
      case isTrue =>
        obtain ⟨r, hchase, hr⟩ := Option.map_eq_some_iff.mp hstep
        cases hr
        simp only [PhasedInstall.chase] at hchase
        split at hchase
        · cases hchase
        · next s failed hreplay =>
          cases hchase
          refine ⟨⟨h.listener.drainReplayCache, fun p' hp' => ?_⟩, hsilent⟩
          cases hp'
          exact (h.install p hinstall).replayAll h.listener.kept hreplay
  | commit now =>
    rw [Ingest.step] at hstep
    cases hinstall : i.install with
    | none => simp [hinstall] at hstep
    | some p =>
      have hp := h.install p hinstall
      simp only [hinstall] at hstep
      split at hstep
      case isTrue => cases hstep
      case isFalse =>
        obtain ⟨l', hcommit, hr⟩ := Option.map_eq_some_iff.mp hstep
        cases hr
        refine ⟨⟨?_, fun p hp => by cases hp⟩, hsilent⟩
        rw [PhasedInstall.commit] at hcommit
        split at hcommit
        · obtain ⟨l₁, hfinish, rfl⟩ := Option.map_eq_some_iff.mp hcommit
          exact (h.listener.abandonReplayCache.finishInstall hp hfinish).markDesynced
        · exact h.listener.finishInstall hp hcommit
  | init now snapshot height =>
    simp only [Ingest.step, Option.map_eq_some_iff, Prod.mk.injEq] at hstep
    obtain ⟨l', hinit, rfl, rfl⟩ := hstep
    rw [OrderBookListener.initFromSnapshot] at hinit
    have hstripped : OrderBookListener.NoSpot spotOid
        { i.listener with orderBookState := none, l2SnapshotCache := ∅ } :=
      ⟨h.listener.ignored, fun s hs => (by cases hs), h.listener.kept,
        fun c hc => absurd hc Std.ExtTreeMap.not_mem_empty, h.listener.dirty⟩
    exact ⟨⟨hstripped.finishInstall (noSpot_built h (hfits.dumps snapshot
      (List.mem_singleton.mpr rfl)) [] height) hinit, h.install⟩, hsilent⟩

end Ingest

/-- **Spot isolation.**  With spot coins ignored, in every run whose dumps hold no spot
coin, and none of whose statuses of a spot order carries the identifier of an order that a
diff of another coin opens, no state serves a book of a spot coin and no message has one. -/
theorem servesNoSpot_run {internalMessageTx : Bool} {marketFilter : MarketFilter}
    {ops : List IngestOp} (hapart : SpotApart ops) {i : Ingest} {said : List InternalMessage}
    (hrun : runSteps Ingest.step ops
      ⟨OrderBookListener.new internalMessageTx true marketFilter, none⟩ = some (i, said)) :
    i.listener.ServesNoSpot ∧ ∀ m ∈ said, m.NamesNoSpot := by
  have hnew : Ingest.NoSpot (fun k => ∃ st ∈ ops.flatMap IngestOp.statuses,
      st.order.coin.isSpot = true ∧ st.order.oid = k)
      ⟨OrderBookListener.new internalMessageTx true marketFilter, none⟩ := by
    refine ⟨⟨rfl, fun s hs => (by cases hs), fun batch hbatch => absurd hbatch List.not_mem_nil,
      fun c hc => absurd hc Std.ExtTreeMap.not_mem_empty,
      fun c hc => absurd hc Std.ExtTreeSet.not_mem_empty⟩, fun p hp => by cases hp⟩
  obtain ⟨hi, hsaid⟩ := Runs.invariant_said
    (fun _ _ _ _ hfits h hstep => Ingest.NoSpot.step h hfits hstep) hnew hapart.fits hrun
  exact ⟨hi.listener.servesNoSpot, hsaid⟩

end HlOrderbook

namespace HlOrderbook

section Example

attribute [local instance] SlabPolicy.latest FixedPoint.decimal

/-- A dump of one book, with one bid. -/
private def dumped (coin : Coin) : Snapshots InnerL4Order :=
  (∅ : Snapshots InnerL4Order).insert coin ⟨[.limit coin .bid 99 1 1], []⟩

private def everything : BroadcastKind → Bool := fun _ => true

/-- A dump is installed; then come the status and the diff of a spot order, and those of
another. -/
private def mixed : List IngestOp :=
  [.build (dumped "BTC") [] 7, .commit 0,
    .apply ⟨1, {.base}, everything, 1⟩ 8
      (.orders ⟨8, 8, [.opened (.limit "@1" .bid "2" "1" 9), .opened (.limit "BTC" .bid "98" "2" 8)]⟩),
    .apply ⟨2, {.base}, everything, 1⟩ 8
      (.bookDiffs ⟨8, 8, [⟨1, 9, "2", "@1", .new "1" none⟩, ⟨1, 8, "98", "BTC", .new "2" none⟩]⟩),
    .flush ⟨3, {.base}, everything, 1⟩]

theorem servesNoSpot_mixed : ∃ i said,
    runSteps Ingest.step mixed ⟨.new true true ⟨true, true, true⟩, none⟩ = some (i, said) ∧
    (i.listener.computeSnapshotForCoin "BTC" ⟨none, none⟩).isSome = true ∧
    i.listener.computeSnapshotForCoin "@1" ⟨none, none⟩ = none ∧
    said.length = 4 ∧ ∀ m ∈ said, m.NamesNoSpot := by
  have hend : (runSteps Ingest.step mixed ⟨.new true true ⟨true, true, true⟩, none⟩).map (fun r =>
      ((r.1.listener.computeSnapshotForCoin "BTC" ⟨none, none⟩).isSome, r.2.length)) =
      some (true, 4) := by
    decide +kernel
  obtain ⟨i, said, hrun, hi⟩ := Runs.exists_of_map hend
  have hapart : SpotApart mixed := ⟨by decide +kernel, by decide +kernel⟩
  obtain ⟨hserves, hsaid⟩ := servesNoSpot_run hapart hrun
  rw [Prod.mk.injEq] at hi
  exact ⟨i, said, hrun, hi.1, hserves.snapshot "@1" _ (by decide), hi.2, hsaid⟩

/-- **The books of a dump are all installed**, and the diff that removes the order of the
spot coin is passed over. -/
theorem not_servesNoSpot_spotDump : ¬ ∀ (internalMessageTx : Bool) (marketFilter : MarketFilter)
    (ops : List IngestOp) (i : Ingest) (said : List InternalMessage),
    runSteps Ingest.step ops
      ⟨OrderBookListener.new internalMessageTx true marketFilter, none⟩ = some (i, said) →
    i.listener.ServesNoSpot ∧ ∀ m ∈ said, m.NamesNoSpot := by
  intro h
  have hend : (runSteps Ingest.step
      [.build (dumped "@1") [] 7, .commit 0,
        .apply ⟨1, ∅, everything, 1⟩ 8 (.bookDiffs ⟨8, 8, [⟨1, 1, "99", "@1", .remove⟩]⟩)]
      ⟨.new true true ⟨true, true, true⟩, none⟩).map (fun r =>
        (r.1.listener.computeSnapshotForCoin "@1" ⟨none, none⟩).map fun x =>
          x.2.2.bids.map fun o => o.oid) = some (some [1]) := by
    decide +kernel
  obtain ⟨i, said, hrun, hi⟩ := Runs.exists_of_map hend
  rw [(h true _ _ i said hrun).1.snapshot "@1" _ (by decide)] at hi
  cases hi

end Example

end HlOrderbook
