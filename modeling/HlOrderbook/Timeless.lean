import HlOrderbook.Listener
import HlOrderbook.StateSpec

/-!
# States without their instants

A replay does not look at the clock: it only stores the instant at which it leaves a
half pending.  A state without those instants, and without the orders that wait for
their trigger, is replayed on as the state itself.

## Main definitions

* `OrderBookState.timeless` — a state without its instants.
* `OrderBookState.SameHoldings` — what two states share whose timeless states are equal.
* `timeless_replayAll` — a replay does the same to a state without its instants.
-/

set_option autoImplicit false
set_option linter.unusedSectionVars false

namespace HlOrderbook

variable [SlabPolicy] [FixedPoint]

namespace OrderBookState

/-! ## States without their instants -/

/-- A state whose pending halves all wait from the same instant, and which waits for
no trigger. -/
def timeless (s : OrderBookState) : OrderBookState :=
  { s with
    pendingOrderStatuses := s.pendingOrderStatuses.map fun _ x => (x.1, 0)
    pendingNewDiffs := s.pendingNewDiffs.map fun _ p => { p with since := 0 }
    untriggeredOrders := ∅
    trackUntriggered := false }

section Maps

variable {V W : Type} (f : V → W) (m : Std.ExtTreeMap ℕ V) (k : ℕ)

theorem map_insert (v : V) :
    (m.insert k v).map (fun _ x => f x) = (m.map fun _ x => f x).insert k (f v) := by
  ext1 j
  simp only [Std.ExtTreeMap.getElem?_map, Std.ExtTreeMap.getElem?_insert]
  split <;> rfl

theorem map_erase : (m.erase k).map (fun _ x => f x) = (m.map fun _ x => f x).erase k := by
  ext1 j
  simp only [Std.ExtTreeMap.getElem?_map, Std.ExtTreeMap.getElem?_erase]
  split <;> rfl

end Maps

section Timeless

variable (s : OrderBookState)

@[simp] theorem orderBook_timeless : s.timeless.orderBook = s.orderBook := rfl

@[simp] theorem zeroedSet_timeless : s.timeless.zeroedSet = s.zeroedSet := rfl

@[simp] theorem ignoreSpot_timeless : s.timeless.ignoreSpot = s.ignoreSpot := rfl

@[simp] theorem getElem?_pendingNewDiffs_timeless (k : ℕ) :
    s.timeless.pendingNewDiffs[k]? =
      s.pendingNewDiffs[k]?.map fun p => { p with since := 0 } := by
  simp [timeless]

@[simp] theorem getElem?_pendingOrderStatuses_timeless (k : ℕ) :
    s.timeless.pendingOrderStatuses[k]? = s.pendingOrderStatuses[k]?.map fun x => (x.1, 0) := by
  simp [timeless]

theorem timeless_trackStatus (st : NodeDataOrderStatus) :
    (s.trackStatus st).timeless = s.timeless := by
  obtain ⟨table, h⟩ := s.trackStatus_eq st
  rw [h]
  rfl

theorem trackStatus_timeless (st : NodeDataOrderStatus) : s.timeless.trackStatus st = s.timeless :=
  rfl

theorem timeless_advance (height time : ℕ) :
    (s.advance height time).timeless = s.timeless.advance height time := by
  rw [advance, advance]
  split
  case isTrue hle => exact (if_pos hle).symm
  case isFalse hlt => exact (if_neg hlt).symm

theorem timeless_forgetZeroed (height : ℕ) :
    (s.forgetZeroed height).timeless = s.timeless.forgetZeroed height := rfl

theorem timeless_noteZeroed (height k : ℕ) :
    (s.noteZeroed height k).timeless = s.timeless.noteZeroed height k := by
  simp only [noteZeroed, zeroedSet_timeless]
  split
  case isTrue hin => exact (if_pos hin).symm
  case isFalse hout => exact (if_neg hout).symm

theorem timeless_restPaired (inner : InnerL4Order) (sz : ℕ) (anchor : Option ℕ) (ts : ℕ) :
    (s.restPaired inner sz anchor ts).timeless = s.timeless.restPaired inner sz anchor ts := by
  simp only [restPaired, orderBook_timeless]
  split
  case isTrue hfell => exact (if_pos hfell).symm
  case isFalse hkept => exact (if_neg hkept).symm

theorem timeless_eraseNew (k : ℕ) :
    ({ s with pendingNewDiffs := s.pendingNewDiffs.erase k } : OrderBookState).timeless =
      { s.timeless with pendingNewDiffs := s.timeless.pendingNewDiffs.erase k } := by
  simp only [timeless, map_erase]

theorem timeless_insertNew (k : ℕ) (p : PendingNew) :
    ({ s with pendingNewDiffs := s.pendingNewDiffs.insert k p } : OrderBookState).timeless =
      { s.timeless with
        pendingNewDiffs := s.timeless.pendingNewDiffs.insert k { p with since := 0 } } := by
  simp only [timeless, map_insert (fun p : PendingNew => { p with since := 0 })]

theorem timeless_eraseStatus (k : ℕ) :
    ({ s with pendingOrderStatuses := s.pendingOrderStatuses.erase k } : OrderBookState).timeless =
      { s.timeless with pendingOrderStatuses := s.timeless.pendingOrderStatuses.erase k } := by
  simp only [timeless, map_erase]

theorem timeless_insertStatus (k now : ℕ) (st : NodeDataOrderStatus) :
    ({ s with
        pendingOrderStatuses := s.pendingOrderStatuses.insert k (st, now) } :
      OrderBookState).timeless =
      { s.timeless with
        pendingOrderStatuses := s.timeless.pendingOrderStatuses.insert k (st, 0) } := by
  simp only [timeless, map_insert (fun x : NodeDataOrderStatus × ℕ => (x.1, 0))]

theorem timeless_applyDiffToPendingNew (k : ℕ) (newSz : Option ℕ) :
    (s.applyDiffToPendingNew k newSz).timeless = s.timeless.applyDiffToPendingNew k newSz := by
  simp only [applyDiffToPendingNew, getElem?_pendingNewDiffs_timeless]
  cases s.pendingNewDiffs[k]? with
  | none => rfl
  | some p =>
    cases newSz with
    | none => exact s.timeless_eraseNew k
    | some sz =>
      simp only [Option.map_some]
      split
      · exact s.timeless_insertNew k _
      · exact s.timeless_eraseNew k

/-! ## Replaying without instants -/

/-- **A status does the same to a state without its instants.** -/
theorem timeless_applyOrderStatus (now : ℕ) (st : NodeDataOrderStatus) :
    (s.applyOrderStatus now st).map timeless id = s.timeless.applyOrderStatus 0 st := by
  have htrack := s.timeless_trackStatus st
  rw [applyOrderStatus, applyOrderStatus, trackStatus_timeless, ← htrack]
  simp only [getElem?_pendingNewDiffs_timeless]
  cases (s.trackStatus st).pendingNewDiffs[st.order.oid]? with
  | none =>
    simp only [Option.map_none]
    split
    · simp only [Prod.map_apply, timeless_insertStatus, id]
    · rfl
  | some p =>
    simp only [Option.map_some]
    cases InnerL4Order.tryFrom st.user st.order with
    | none => simp only [Prod.map_apply, timeless_eraseNew, id]
    | some inner => simp only [Prod.map_apply, timeless_restPaired, timeless_eraseNew, id]

/-- **A diff does the same to a state without its instants.** -/
theorem timeless_applyOrderDiff (now height : ℕ) (d : NodeDataOrderDiff) :
    (s.applyOrderDiff now height d).map timeless id = s.timeless.applyOrderDiff 0 height d := by
  rw [applyOrderDiff, applyOrderDiff, ignoreSpot_timeless]
  split
  · rfl
  · cases InnerOrderDiff.tryFrom d.rawBookDiff with
    | none => rfl
    | some inner =>
      cases inner with
      | new sz anchor =>
        simp only [applyInnerDiff, getElem?_pendingOrderStatuses_timeless]
        cases s.pendingOrderStatuses[d.oid]? with
        | none => simp only [Option.map_none, Prod.map_apply, timeless_insertNew, id]
        | some x =>
          simp only [Option.map_some]
          cases InnerL4Order.tryFrom x.1.user x.1.order with
          | none => simp only [Prod.map_apply, timeless_eraseStatus, id]
          | some order =>
            simp only
            split
            · simp only [Prod.map_apply, timeless_eraseStatus, id]
            · simp only [Prod.map_apply, timeless_restPaired, timeless_eraseStatus, id]
      | update origSz newSz =>
        simp only [applyInnerDiff, orderBook_timeless]
        by_cases hmodified : (s.orderBook.modifySz d.oid d.coin newSz).2 = true
        · by_cases hzero : newSz = 0
          · subst hzero
            simp only [hmodified, if_true, Prod.map_apply, timeless_noteZeroed, id]
            rfl
          · simp only [hmodified, hzero, if_true, if_false, Prod.map_apply, id]
            rfl
        · simp only [hmodified, Bool.false_eq_true, if_false, Prod.map_apply,
            timeless_applyDiffToPendingNew, id]
          rfl
      | remove =>
        simp only [applyInnerDiff, orderBook_timeless, zeroedSet_timeless]
        by_cases hcancelled : (s.orderBook.cancelOrder d.oid d.coin).2 = true
        · simp only [hcancelled, if_true, Prod.map_apply, id]
          rfl
        · by_cases hzeroed : s.zeroedSet.contains d.oid = true
          · simp only [hcancelled, hzeroed, Bool.false_eq_true, if_false, if_true,
              Prod.map_apply, id]
            rfl
          · simp only [hcancelled, hzeroed, Bool.false_eq_true, if_false, Prod.map_apply,
              timeless_applyDiffToPendingNew, id]
            rfl

theorem timeless_applyAll {E : Type}
    {apply apply' : OrderBookState → E → OrderBookState × Except Failure (List Coin)}
    (h : ∀ s e, (apply s e).map timeless id = apply' s.timeless e) (es : List E)
    (changed : Std.ExtTreeSet Coin) :
    (applyAll apply es s changed).map timeless id = applyAll apply' es s.timeless changed := by
  induction es generalizing s changed with
  | nil => rfl
  | cons e es ih =>
    rw [applyAll, applyAll, ← h]
    generalize apply s e = r
    obtain ⟨s', result⟩ := r
    cases result with
    | error f => rfl
    | ok coins => exact ih s' _

theorem timeless_applyOrderStatusesHft (now : ℕ) (batch : Batch NodeDataOrderStatus) :
    (s.applyOrderStatusesHft now batch).map timeless id =
      s.timeless.applyOrderStatusesHft 0 batch := by
  rw [applyOrderStatusesHft, applyOrderStatusesHft, ← timeless_advance]
  exact timeless_applyAll _ (fun s e => s.timeless_applyOrderStatus now e) _ _

theorem timeless_applyOrderDiffsHft (now : ℕ) (batch : Batch NodeDataOrderDiff) :
    (s.applyOrderDiffsHft now batch).map timeless id =
      s.timeless.applyOrderDiffsHft 0 batch := by
  rw [applyOrderDiffsHft, applyOrderDiffsHft, ← timeless_forgetZeroed, ← timeless_advance]
  exact timeless_applyAll _ (fun s e => s.timeless_applyOrderDiff now batch.blockNumber e) _ _

end Timeless

section Replay

variable (s prev : OrderBookState) (now height : ℕ)

/-- What the replay makes of a batch that was applied, or skipped. -/
def replayed : OrderBookState × Except Failure (Std.ExtTreeSet Coin) →
    Option (OrderBookState × Bool)
  | (state, .ok _) => some (state, false)
  | (state, .error .parse) => some (state, true)
  | (_, .error .panic) => none

theorem timeless_replayed (r : OrderBookState × Except Failure (Std.ExtTreeSet Coin)) :
    (replayed r).map (Prod.map timeless id) = replayed (r.map timeless id) := by
  obtain ⟨state, result⟩ := r
  cases result with
  | ok coins => rfl
  | error f => cases f <;> rfl

theorem replayBatchAbove_orders (b : Batch NodeDataOrderStatus) :
    replayBatchAbove now height s (.orders b) =
      replayed (if height < b.blockNumber then s.applyOrderStatusesHft now b else (s, .ok ∅)) :=
  rfl

theorem replayBatchAbove_bookDiffs (b : Batch NodeDataOrderDiff) :
    replayBatchAbove now height s (.bookDiffs b) =
      replayed (if height < b.blockNumber then s.applyOrderDiffsHft now b else (s, .ok ∅)) :=
  rfl

theorem timeless_replayBatchAbove (batch : EventBatch) :
    (replayBatchAbove now height s batch).map (Prod.map timeless id) =
      replayBatchAbove 0 height s.timeless batch := by
  cases batch with
  | orders b =>
    rw [replayBatchAbove_orders, replayBatchAbove_orders, timeless_replayed,
      ← timeless_applyOrderStatusesHft s now]
    split <;> rfl
  | bookDiffs b =>
    rw [replayBatchAbove_bookDiffs, replayBatchAbove_bookDiffs, timeless_replayed,
      ← timeless_applyOrderDiffsHft s now]
    split <;> rfl
  | fills b => rfl

/-- **A replay does the same to a state without its instants.** -/
theorem timeless_replayAll (batches : List EventBatch) (failed : Bool) :
    (replayAll now height batches s failed).map (Prod.map timeless id) =
      replayAll 0 height batches s.timeless failed := by
  induction batches generalizing s failed with
  | nil => rfl
  | cons batch batches ih =>
    rw [replayAll, replayAll, ← timeless_replayBatchAbove s now]
    cases replayBatchAbove now height s batch with
    | none => rfl
    | some r => exact ih r.1 _

theorem replayAll_append (batches batches' : List EventBatch) (failed : Bool) :
    replayAll now height (batches ++ batches') s failed =
      (replayAll now height batches s failed).bind fun r =>
        replayAll now height batches' r.1 r.2 := by
  induction batches generalizing s failed with
  | nil => rfl
  | cons batch batches ih =>
    rw [List.cons_append, replayAll, replayAll]
    cases replayBatchAbove now height s batch with
    | none => rfl
    | some r => exact ih r.1 _

theorem timeless_carryForwardUntriggered :
    (s.carryForwardUntriggered prev).timeless = s.timeless := by
  rw [carryForwardUntriggered]
  split <;> rfl

/-- What waits for its trigger does not enter the book. -/
theorem timeless_fromSnapshot (snapshot : Snapshots InnerL4Order)
    (untriggered untriggered' : List InnerL4Order) (time : ℕ)
    (ignoreTriggers ignoreSpot trackUntriggered : Bool) :
    (fromSnapshot snapshot untriggered height time ignoreTriggers ignoreSpot
      trackUntriggered).timeless =
      (fromSnapshot snapshot untriggered' height time ignoreTriggers ignoreSpot
        trackUntriggered).timeless := by
  cases hextract : ignoreTriggers && trackUntriggered <;>
    simp only [fromSnapshot, hextract, timeless, Bool.false_eq_true, if_false, if_true]

end Replay

/-- Two states hold the same books at the same height, with the same halves pending
and the same orders emptied.  The halves may wait from other instants. -/
structure SameHoldings (s s' : OrderBookState) : Prop where
  orderBook : s.orderBook = s'.orderBook
  height : s.height = s'.height
  time : s.time = s'.time
  orderStatuses (k : ℕ) : (s.pendingOrderStatuses[k]?).map Prod.fst =
    (s'.pendingOrderStatuses[k]?).map Prod.fst
  newDiffs (k : ℕ) : (s.pendingNewDiffs[k]?).map (fun p => (p.sz, p.insertBefore, p.user)) =
    (s'.pendingNewDiffs[k]?).map fun p => (p.sz, p.insertBefore, p.user)
  zeroedRecently : s.zeroedRecently = s'.zeroedRecently
  zeroedSet : s.zeroedSet = s'.zeroedSet

theorem sameHoldings_of_timeless {s s' : OrderBookState} (h : s.timeless = s'.timeless) :
    s.SameHoldings s' where
  orderBook := by
    have hk := congrArg orderBook h
    exact hk
  height := by
    have hk := congrArg OrderBookState.height h
    exact hk
  time := by
    have hk := congrArg time h
    exact hk
  orderStatuses k := by
    have hk := congrArg (fun s => (s.pendingOrderStatuses[k]?).map Prod.fst) h
    simpa [Function.comp_def] using hk
  newDiffs k := by
    have hk := congrArg
      (fun s => (s.pendingNewDiffs[k]?).map fun p => (p.sz, p.insertBefore, p.user)) h
    simpa [Function.comp_def] using hk
  zeroedRecently := by
    have hk := congrArg zeroedRecently h
    exact hk
  zeroedSet := by
    have hk := congrArg zeroedSet h
    exact hk

end OrderBookState

end HlOrderbook
