import HlOrderbook.MultiBook

/-!
# The order book state

The books of all coins together with what the server remembers beside them: the
statuses waiting for their raw book diff and the diffs waiting for their status,
the orders an update emptied recently, and the orders waiting for their trigger.
The two streams of a node, order statuses and raw book diffs, are applied
independently, one batch at a time.

An application that fails returns the state as it was changed so far, which is
what the caller keeps.

## Main definitions

* `OrderBookState`, `OrderBookState.fromSnapshot`.
* `applyOrderStatus`, `applyOrderDiff` — one event.
* `applyOrderStatusesHft`, `applyOrderDiffsHft` — one batch.
* `cleanupStalePending` — the maintenance tick.
-/

set_option autoImplicit false
set_option linter.unusedSectionVars false

namespace HlOrderbook

/-- A `New` diff waiting for its status. -/
structure PendingNew where
  sz : ℕ
  insertBefore : Option ℕ
  since : ℕ
  user : Address

/-- The state.  Instants are those of a monotonic clock, in milliseconds. -/
structure OrderBookState where
  orderBook : OrderBooks InnerL4Order
  height : ℕ
  time : ℕ
  ignoreSpot : Bool
  pendingOrderStatuses : Std.ExtTreeMap ℕ (NodeDataOrderStatus × ℕ)
  pendingNewDiffs : Std.ExtTreeMap ℕ PendingNew
  insertBeforeFallbacks : ℕ
  zeroedRecently : List (ℕ × ℕ)
  zeroedSet : Std.ExtTreeSet ℕ
  untriggeredOrders : Std.ExtTreeMap Coin (Std.ExtTreeMap ℕ InnerL4Order)
  trackUntriggered : Bool

/-- How an application can fail: an event that does not parse, or a panic. -/
inductive Failure where
  | parse
  | panic
  deriving DecidableEq

/-- How many blocks an update to zero is remembered for. -/
def zeroedWindowBlocks : ℕ := 64

variable [SlabPolicy] [FixedPoint]

namespace OrderBookState

/-- Enter an order into the table of orders waiting for their trigger. -/
def insertUntriggered (table : Std.ExtTreeMap Coin (Std.ExtTreeMap ℕ InnerL4Order))
    (order : InnerL4Order) : Std.ExtTreeMap Coin (Std.ExtTreeMap ℕ InnerL4Order) :=
  table.insert order.coin (((table[order.coin]?).getD ∅).insert order.oid order)

/-- Build the state from a snapshot. -/
def fromSnapshot (snapshot : Snapshots InnerL4Order) (untriggered : List InnerL4Order)
    (height time : ℕ) (ignoreTriggers ignoreSpot trackUntriggered : Bool) : OrderBookState :=
  let kept (order : InnerL4Order) : Bool := !(ignoreSpot && order.coin.isSpot)
  let table := if trackUntriggered then (untriggered.filter kept).foldl insertUntriggered ∅ else ∅
  let (snapshot, table) :=
    if ignoreTriggers && trackUntriggered then
      let (snapshot, triggers) := Snapshots.extractTriggers snapshot
      (snapshot, (triggers.filter kept).foldl insertUntriggered table)
    else (snapshot, table)
  { orderBook := OrderBooks.fromSnapshots snapshot ignoreTriggers
    height
    time
    ignoreSpot
    pendingOrderStatuses := ∅
    pendingNewDiffs := ∅
    insertBeforeFallbacks := 0
    zeroedRecently := []
    zeroedSet := ∅
    untriggeredOrders := table
    trackUntriggered }

/-- Record that an anchor could not be honoured. -/
def noteInsertBeforeFallback (s : OrderBookState) : OrderBookState :=
  { s with insertBeforeFallbacks := s.insertBeforeFallbacks + 1 }

/-- Drain the count of anchors that could not be honoured. -/
def takeInsertBeforeFallbacks (s : OrderBookState) : OrderBookState × ℕ :=
  ({ s with insertBeforeFallbacks := 0 }, s.insertBeforeFallbacks)

/-- Carry the table of a previous state into one whose snapshot had no entries. -/
def carryForwardUntriggered (s prev : OrderBookState) : OrderBookState :=
  if s.trackUntriggered && s.untriggeredOrders.isEmpty && !prev.untriggeredOrders.isEmpty then
    { s with untriggeredOrders := prev.untriggeredOrders }
  else s

/-- Every block moves the state's height and time forward, never back. -/
def advance (s : OrderBookState) (height time : ℕ) : OrderBookState :=
  if s.height ≤ height then { s with height, time } else s

/-! ## Order statuses -/

/-- Keep the table of orders waiting for their trigger in step with a status. -/
def trackStatus (s : OrderBookState) (status : NodeDataOrderStatus) : OrderBookState :=
  if !s.trackUntriggered then s
  else if status.status == "open" then
    if status.order.isTrigger && !(s.ignoreSpot && status.order.coin.isSpot) then
      match InnerL4Order.tryFrom status.user status.order with
      | some inner => { s with untriggeredOrders := insertUntriggered s.untriggeredOrders inner }
      | none => s
    else s
  else
    match s.untriggeredOrders[status.order.coin]? with
    | none => s
    | some coinOrders =>
      if coinOrders.contains status.order.oid then
        let coinOrders := coinOrders.erase status.order.oid
        { s with
          untriggeredOrders :=
            if coinOrders.isEmpty then s.untriggeredOrders.erase status.order.coin
            else s.untriggeredOrders.insert status.order.coin coinOrders }
      else s

/-- Rest an order both of whose halves have arrived. -/
def restPaired (s : OrderBookState) (inner : InnerL4Order) (sz : ℕ) (insertBefore : Option ℕ)
    (ts : ℕ) : OrderBookState :=
  let inner := (inner.modifySz sz).convertTrigger ts
  let (orderBook, fellBack) := s.orderBook.addOrderBefore inner insertBefore
  let s := { s with orderBook }
  if fellBack then s.noteInsertBeforeFallback else s

/-- Apply one order status: pair it with the diff that waits for it, or keep it
until the diff arrives. -/
def applyOrderStatus (now : ℕ) (s : OrderBookState) (status : NodeDataOrderStatus) :
    OrderBookState × Except Failure (List Coin) :=
  let oid := status.order.oid
  let s := s.trackStatus status
  match s.pendingNewDiffs[oid]? with
  | some pending =>
    let s := { s with pendingNewDiffs := s.pendingNewDiffs.erase oid }
    match InnerL4Order.tryFrom status.user status.order with
    | none => (s, .error .parse)
    | some inner =>
      (s.restPaired inner pending.sz pending.insertBefore status.time.toNat,
        .ok [status.order.coin])
  | none =>
    if status.isInsertedIntoBook then
      ({ s with pendingOrderStatuses := s.pendingOrderStatuses.insert oid (status, now) }, .ok [])
    else (s, .ok [])

/-! ## Raw book diffs -/

/-- Carry an update or a removal over to the `New` diff that waits for its
status. -/
def applyDiffToPendingNew (s : OrderBookState) (oid : ℕ) (newSz : Option ℕ) : OrderBookState :=
  match s.pendingNewDiffs[oid]? with
  | none => s
  | some pending =>
    match newSz with
    | some sz =>
      if 0 < sz then
        { s with pendingNewDiffs := s.pendingNewDiffs.insert oid { pending with sz } }
      else { s with pendingNewDiffs := s.pendingNewDiffs.erase oid }
    | none => { s with pendingNewDiffs := s.pendingNewDiffs.erase oid }

/-- Remember that an update emptied an order. -/
def noteZeroed (s : OrderBookState) (height oid : ℕ) : OrderBookState :=
  if s.zeroedSet.contains oid then s
  else
    { s with
      zeroedSet := s.zeroedSet.insert oid
      zeroedRecently := s.zeroedRecently ++ [(height, oid)] }

/-- Apply one parsed diff of a coin that is not skipped. -/
def applyInnerDiff (now height : ℕ) (s : OrderBookState) (oid : ℕ) (coin : Coin) (user : Address) :
    InnerOrderDiff → OrderBookState × Except Failure (List Coin)
  | .new sz insertBefore =>
    match s.pendingOrderStatuses[oid]? with
    | some (status, _) =>
      let s := { s with pendingOrderStatuses := s.pendingOrderStatuses.erase oid }
      match InnerL4Order.tryFrom status.user status.order with
      | none => (s, .error .parse)
      | some inner =>
        -- the conversion of the time to an unsigned integer is unwrapped
        if status.time < 0 then (s, .error .panic)
        else (s.restPaired inner sz insertBefore status.time.toNat, .ok [status.order.coin])
    | none =>
      ({ s with
        pendingNewDiffs := s.pendingNewDiffs.insert oid ⟨sz, insertBefore, now, user⟩ }, .ok [])
  | .update _ newSz =>
    let (orderBook, modified) := s.orderBook.modifySz oid coin newSz
    let s := { s with orderBook }
    if modified then (if newSz = 0 then s.noteZeroed height oid else s, .ok [coin])
    else (s.applyDiffToPendingNew oid (some newSz), .ok [coin])
  | .remove =>
    let (orderBook, cancelled) := s.orderBook.cancelOrder oid coin
    let s := { s with orderBook }
    if cancelled then (s, .ok [coin])
    else if s.zeroedSet.contains oid then
      ({ s with zeroedSet := s.zeroedSet.erase oid }, .ok [coin])
    else (s.applyDiffToPendingNew oid none, .ok [coin])

/-- Apply one raw book diff. -/
def applyOrderDiff (now height : ℕ) (s : OrderBookState) (diff : NodeDataOrderDiff) :
    OrderBookState × Except Failure (List Coin) :=
  if diff.coin.isSpot && s.ignoreSpot then (s, .ok [])
  else match InnerOrderDiff.tryFrom diff.rawBookDiff with
    | none => (s, .error .parse)
    | some inner => s.applyInnerDiff now height diff.oid diff.coin diff.user inner

/-- Forget the orders emptied too long ago: the queue is dropped from its front,
and each entry dropped leaves the set. -/
def forgetZeroed (s : OrderBookState) (height : ℕ) : OrderBookState :=
  let old (x : ℕ × ℕ) : Bool := saturatingAdd x.1 zeroedWindowBlocks < height
  { s with
    zeroedRecently := s.zeroedRecently.dropWhile old
    zeroedSet := (s.zeroedRecently.takeWhile old).foldl (fun set x => set.erase x.2) s.zeroedSet }

/-! ## Batches -/

/-- Apply events one after the other, collecting the coins they changed; the
first failure ends the batch. -/
def applyAll {E : Type} (apply : OrderBookState → E → OrderBookState × Except Failure (List Coin)) :
    List E → OrderBookState → Std.ExtTreeSet Coin →
      OrderBookState × Except Failure (Std.ExtTreeSet Coin)
  | [], s, changed => (s, .ok changed)
  | e :: es, s, changed =>
    match apply s e with
    | (s, .ok coins) => applyAll apply es s (changed.insertMany coins)
    | (s, .error f) => (s, .error f)

/-- Apply a batch of order statuses; the answer is the set of coins changed. -/
def applyOrderStatusesHft (now : ℕ) (s : OrderBookState) (batch : Batch NodeDataOrderStatus) :
    OrderBookState × Except Failure (Std.ExtTreeSet Coin) :=
  applyAll (applyOrderStatus now) batch.events (s.advance batch.blockNumber batch.time) ∅

/-- Apply a batch of raw book diffs; the answer is the set of coins changed. -/
def applyOrderDiffsHft (now : ℕ) (s : OrderBookState) (batch : Batch NodeDataOrderDiff) :
    OrderBookState × Except Failure (Std.ExtTreeSet Coin) :=
  applyAll (applyOrderDiff now batch.blockNumber) batch.events
    ((s.forgetZeroed batch.blockNumber).advance batch.blockNumber batch.time) ∅

/-! ## Maintenance -/

/-- The age at which a pending half is given up, in milliseconds. -/
def pendingMaxAge : ℕ := 60000

/-- The number of pending halves kept at most. -/
def maxPending : ℕ := 200000

/-- The keys of the oldest entries of a pending map over its cap; ties in age fall
in the order of the map. -/
def overCap {V : Type} (since : V → ℕ) (m : Std.ExtTreeMap ℕ V) : List ℕ :=
  if maxPending < m.size then
    ((m.toList.map fun x => (since x.2, x.1)).mergeSort (fun a b => a.1 ≤ b.1)
      |>.take (m.size - maxPending)).map Prod.snd
  else []

/-- Drop pending halves that are too old or too many, and compact the books.  The
answer is whether an order may have been lost. -/
def cleanupStalePending (now : ℕ) (s : OrderBookState) : OrderBookState × Bool :=
  let fresh (since : ℕ) : Bool := now - since < pendingMaxAge
  let agedOther := s.pendingNewDiffs.values.any fun p => !fresh p.since && !isProtocolAddress p.user
  let statuses := s.pendingOrderStatuses.filter fun _ x => fresh x.2
  let diffs := s.pendingNewDiffs.filter fun _ p => fresh p.since
  let overStatuses := overCap Prod.snd statuses
  let overDiffs := overCap PendingNew.since diffs
  ({ s with
    pendingOrderStatuses := overStatuses.foldl (fun m k => m.erase k) statuses
    pendingNewDiffs := overDiffs.foldl (fun m k => m.erase k) diffs
    orderBook := s.orderBook.compactAll.1 },
    agedOther || !overStatuses.isEmpty || !overDiffs.isEmpty)

end OrderBookState

end HlOrderbook
