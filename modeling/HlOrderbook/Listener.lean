import HlOrderbook.State
import HlOrderbook.Trades
import HlOrderbook.L2Snapshots

/-!
# The listener

The listener owns the book.  It takes in batches of events, tells the connections
about them, and sends the aggregated books at intervals.  When events may have
been lost it asks for a snapshot of the node's book; while that is fetched and
built, the batches taken in are kept, to be replayed on it.

What the listener reads from outside at a call is an `Env`.  A call answers the
listener after it and the messages broadcast by it, or `none` if it panics.

## Main definitions

* `OrderBookListener`, `EventBatch`, `InternalMessage`.
* `markDesynced`, `finishInstall` — the out-of-sync marks, and their end.
* `applyEventBatch` — take in one batch.
* `flushL2IfDue` — send the aggregated books.
* `PhasedInstall` — an install in progress.
* `computeSnapshotForCoin`, `computeUntriggeredSnapshot` — what can be asked for.
-/

set_option autoImplicit false
set_option linter.unusedSectionVars false

namespace HlOrderbook

/-- The events of one block of one stream. -/
inductive EventBatch where
  | orders (batch : Batch NodeDataOrderStatus)
  | bookDiffs (batch : Batch NodeDataOrderDiff)
  | fills (batch : Batch NodeDataFill)

/-- The number of events. -/
def EventBatch.eventsLen : EventBatch → ℕ
  | .orders batch => batch.events.length
  | .bookDiffs batch => batch.events.length
  | .fills batch => batch.events.length

/-- Whether a batch holds fills, which do not change the book. -/
def EventBatch.isFills : EventBatch → Bool
  | .fills _ => true
  | _ => false

/-- The families of messages that are only sent when a subscription wants them. -/
inductive BroadcastKind where
  | l4Statuses
  | l4Diffs
  | trades
  | bbo
  deriving DecidableEq

/-- The best bid and the best ask: price, size and number of orders. -/
abbrev RawBbo := Option (ℕ × ℕ × ℕ) × Option (ℕ × ℕ × ℕ)

/-- What the listener broadcasts. -/
inductive InternalMessage where
  | snapshot (l2Snapshots previous : L2Snapshots) (time height : ℕ)
      (dirty : Std.ExtTreeSet Coin) (univ : Option (Std.ExtTreeSet Coin))
  | fills (tradesByCoin : Std.ExtTreeMap Coin (List Trade))
  | bboUpdate (bbos : Std.ExtTreeMap Coin RawBbo) (time : ℕ)
  | l4OrderDiffs (time height : ℕ) (diffsByCoin : Std.ExtTreeMap Coin (List NodeDataOrderDiff))
  | l4OrderStatuses (time height : ℕ)
      (statusesByCoin : Std.ExtTreeMap Coin (List NodeDataOrderStatus))

/-- What the listener reads from outside: the clock in milliseconds, the shapes
and the families some connection wants, and the number of connections. -/
structure Env where
  now : ℕ
  active : Finset L2SnapshotParams
  wants : BroadcastKind → Bool
  receiverCount : ℕ

/-- The markets served: perpetual, spot, builder-deployed. -/
structure MarketFilter where
  perps : Bool
  spot : Bool
  hip3 : Bool

/-- Whether a coin belongs to a market that is served. -/
def coinInMarketFilter (coin : Coin) (filter : MarketFilter) : Bool :=
  (coin.isPerp && filter.perps) || (coin.isSpot && filter.spot) || (coin.isHip3 && filter.hip3)

/-- The listener. -/
structure OrderBookListener where
  ignoreSpot : Bool
  marketFilter : MarketFilter
  orderBookState : Option OrderBookState
  fetchedSnapshotCache : Option (List EventBatch)
  cachedEventCount : ℕ
  cacheEventCap : ℕ
  needsResync : Bool
  resyncDataLoss : Bool
  tolerateDrift : Bool
  trackUntriggered : Bool
  maxLossHeight : ℕ
  installCovers : ℕ
  lastSeenHeight : ℕ
  /-- Whether there is a channel to broadcast on. -/
  internalMessageTx : Bool
  tradePairer : TradePairer
  lastL2Broadcast : Option ℕ
  l2SnapshotCache : L2Snapshots
  pendingDirtyL2Coins : Std.ExtTreeSet Coin
  lastActiveL2Params : Finset L2SnapshotParams
  /-- How many batches were applied; a counter of the process. -/
  hftStateCount : ℕ

/-- The interval between two sends of the aggregated books, in milliseconds. -/
def l2BroadcastThrottleMs : ℕ := 50

/-- How many events are kept for the replay. -/
def maxCachedEvents : ℕ := 4000000

/-- The largest batch that is taken in. -/
def maxEventsPerBatch : ℕ := 100000

/-- How far above the last height seen a loss can be. -/
def lossHeightMargin : ℕ := 100

namespace OrderBookListener

/-- A listener without a book; it keeps batches from the beginning. -/
def new (internalMessageTx ignoreSpot : Bool) (marketFilter : MarketFilter) : OrderBookListener where
  ignoreSpot := ignoreSpot
  marketFilter := marketFilter
  orderBookState := none
  fetchedSnapshotCache := some []
  cachedEventCount := 0
  cacheEventCap := maxCachedEvents
  needsResync := false
  resyncDataLoss := false
  tolerateDrift := false
  trackUntriggered := true
  maxLossHeight := 0
  installCovers := 0
  lastSeenHeight := 0
  internalMessageTx := internalMessageTx
  tradePairer := ⟨none⟩
  lastL2Broadcast := none
  l2SnapshotCache := ∅
  pendingDirtyL2Coins := ∅
  lastActiveL2Params := ∅
  hftStateCount := 0

/-- Whether there is a book. -/
def isReady (l : OrderBookListener) : Bool := l.orderBookState.isSome

/-- The coins that have a book and are served. -/
def univ (l : OrderBookListener) : Std.ExtTreeSet Coin :=
  match l.orderBookState with
  | none => ∅
  | some state =>
    Std.ExtTreeSet.ofList
      (state.orderBook.orderBooks.keys.filter fun coin => coinInMarketFilter coin l.marketFilter)

/-- Begin to keep batches for the replay; batches kept already stay. -/
def beginCaching (l : OrderBookListener) : OrderBookListener :=
  if l.fetchedSnapshotCache.isNone then
    { l with fetchedSnapshotCache := some [], cachedEventCount := 0 }
  else l

/-! ## Losses -/

/-- The height the book has been seen at. -/
def observedHeight (l : OrderBookListener) : ℕ :=
  max ((l.orderBookState.map OrderBookState.height).getD 0) l.lastSeenHeight

/-- A bound on the height of a loss that is reported now. -/
def lossBound (l : OrderBookListener) : ℕ :=
  if l.observedHeight = 0 then u64Max else saturatingAdd l.observedHeight lossHeightMargin

/-- Record that the book may have diverged from the node's. -/
def markDesynced (l : OrderBookListener) : OrderBookListener :=
  if l.tolerateDrift then l
  else
    { l with
      needsResync := true
      resyncDataLoss := true
      maxLossHeight := max l.maxLossHeight l.lossBound }

/-! ## The replay cache -/

/-- The events kept, and whether they are kept at all. -/
def replayCacheStatus (l : OrderBookListener) : ℕ × Bool :=
  (l.cachedEventCount, l.fetchedSnapshotCache.isSome)

/-- Take the batches kept so far. -/
def drainReplayCache (l : OrderBookListener) : OrderBookListener × List EventBatch :=
  ({ l with
    cachedEventCount := 0
    fetchedSnapshotCache := l.fetchedSnapshotCache.map fun _ => [] },
    l.fetchedSnapshotCache.getD [])

/-- Give the batches kept up. -/
def abandonReplayCache (l : OrderBookListener) : OrderBookListener :=
  { l with cachedEventCount := 0, fetchedSnapshotCache := none }

/-- Keep a batch; over the cap all are given up, and the book is marked. -/
def pushToReplayCache (l : OrderBookListener) (batch : EventBatch) : OrderBookListener :=
  if l.cacheEventCap < saturatingAdd l.cachedEventCount batch.eventsLen then
    markDesynced { l with fetchedSnapshotCache := none, cachedEventCount := 0 }
  else
    { l with
      cachedEventCount := l.cachedEventCount + batch.eventsLen
      fetchedSnapshotCache := l.fetchedSnapshotCache.map (· ++ [batch]) }

/-- Keep a batch while a snapshot is awaited; the answer is the batch to apply. -/
def cacheForReplay (l : OrderBookListener) (batch : EventBatch) :
    OrderBookListener × Option EventBatch :=
  if batch.isFills || l.fetchedSnapshotCache.isNone then
    (l, if l.isReady then some batch else none)
  else if l.isReady then (l.pushToReplayCache batch, some batch)
  else (l.pushToReplayCache batch, none)

end OrderBookListener

/-! ## What can be asked for -/

/-- A coin's book, cut to a band of prices. -/
def OrderBooks.snapshotForCoin {O : Type} [InnerOrder O] (bs : OrderBooks O) (coin : Coin)
    (band : PxBand) : Option (Snapshot O) :=
  bs.orderBooks[coin]?.map fun book => book.raw.toSnapshotInBand band

namespace OrderBookState

/-- A coin's book, with the time and height it is of. -/
def computeSnapshotForCoin (s : OrderBookState) (coin : Coin) (band : PxBand) :
    Option (ℕ × ℕ × Snapshot InnerL4Order) :=
  (s.orderBook.snapshotForCoin coin band).map fun snapshot => (s.time, s.height, snapshot)

/-- The orders waiting for their trigger, of one coin or of all. -/
def untriggeredSnapshot (s : OrderBookState) (coin : Option Coin) : ℕ × ℕ × List InnerL4Order :=
  (s.time, s.height,
    match coin with
    | some c => (s.untriggeredOrders[c]?.map Std.ExtTreeMap.values).getD []
    | none => s.untriggeredOrders.values.flatMap Std.ExtTreeMap.values)

end OrderBookState

namespace OrderBookListener

/-- A coin's book, if there are books. -/
def computeSnapshotForCoin (l : OrderBookListener) (coin : Coin) (band : PxBand) :
    Option (ℕ × ℕ × Snapshot InnerL4Order) :=
  l.orderBookState.bind fun state => state.computeSnapshotForCoin coin band

/-- The orders waiting for their trigger, if there are books. -/
def computeUntriggeredSnapshot (l : OrderBookListener) (coin : Option Coin) :
    Option (ℕ × ℕ × List InnerL4Order) :=
  l.orderBookState.map fun state => state.untriggeredSnapshot coin

end OrderBookListener

variable [SlabPolicy] [FixedPoint]

/-- The best prices of some coins; a coin without a book has none. -/
def OrderBookState.getBbosForCoins (s : OrderBookState) (coins : Std.ExtTreeSet Coin) :
    ℕ × Std.ExtTreeMap Coin RawBbo :=
  (s.time, Std.ExtTreeMap.ofList (coins.toList.map fun coin =>
    (coin, match s.orderBook.orderBooks[coin]? with
      | none => (none, none)
      | some book => book.raw.getBbo)))

/-- Apply a batch that was kept, if it is above the snapshot's height.  The answer
is whether it failed. -/
def replayBatchAbove (now height : ℕ) (state : OrderBookState) (batch : EventBatch) :
    Option (OrderBookState × Bool) :=
  let result := match batch with
    | .orders b =>
      if height < b.blockNumber then state.applyOrderStatusesHft now b else (state, .ok ∅)
    | .bookDiffs b =>
      if height < b.blockNumber then state.applyOrderDiffsHft now b else (state, .ok ∅)
    | .fills _ => (state, .ok ∅)
  match result with
  | (state, .ok _) => some (state, false)
  | (state, .error .parse) => some (state, true)
  | (_, .error .panic) => none

/-- Apply the batches that were kept. -/
def replayAll (now height : ℕ) : List EventBatch → OrderBookState → Bool →
    Option (OrderBookState × Bool)
  | [], state, failed => some (state, failed)
  | batch :: batches, state, failed =>
    match replayBatchAbove now height state batch with
    | none => none
    | some (state, failed') => replayAll now height batches state (failed || failed')

namespace OrderBookListener

/-! ## Installing a snapshot -/

/-- What an install does to the marks.  `prior` bounds the losses recorded before
it, and `covers` is the height up to which it makes them good. -/
def settleLosses (l : OrderBookListener) (height prior covers : ℕ) (replayFailed : Bool) :
    OrderBookListener :=
  let l := { l with needsResync := false, maxLossHeight := 0, resyncDataLoss := false }
  if replayFailed then l.markDesynced
  else if covers < prior then
    { l with
      needsResync := true
      resyncDataLoss := true
      maxLossHeight := if prior = u64Max then max l.lastSeenHeight height else prior }
  else l

/-- End an install: replay what is still kept, make the new book the book, and
forget the aggregated books of the old one. -/
def finishInstall (now : ℕ) (l : OrderBookListener) (newState : OrderBookState) (height : ℕ)
    (replayFailed : Bool) : Option OrderBookListener :=
  match replayAll now height (l.fetchedSnapshotCache.getD []) newState replayFailed with
  | none => none
  | some (newState, replayFailed) =>
    let prior := l.maxLossHeight
    let covers := max l.installCovers height
    let l := { l with
      fetchedSnapshotCache := none
      cachedEventCount := 0
      installCovers := 0
      orderBookState := some newState.takeInsertBeforeFallbacks.1 }
    some
      { l.settleLosses height prior covers replayFailed with
        l2SnapshotCache := ∅
        pendingDirtyL2Coins := ∅
        lastActiveL2Params := ∅ }

/-- The install of the tests: build, replay and commit in one call. -/
def initFromSnapshot (now : ℕ) (l : OrderBookListener) (snapshot : Snapshots InnerL4Order)
    (height : ℕ) : Option OrderBookListener :=
  let newState := OrderBookState.fromSnapshot snapshot [] height 0 true l.ignoreSpot
    l.trackUntriggered
  let newState := match l.orderBookState with
    | some oldState => newState.carryForwardUntriggered oldState
    | none => newState
  { l with orderBookState := none, l2SnapshotCache := ∅ }.finishInstall now newState height false

/-! ## Taking in a batch -/

/-- Apply a batch to the book.  What the subscribers of single events want is sent
before it is applied. -/
def applyToState (env : Env) (l : OrderBookListener) (state : OrderBookState) :
    EventBatch → OrderBookListener × List InternalMessage × Except Failure (Std.ExtTreeSet Coin)
  | .orders batch =>
    let sent :=
      if l.internalMessageTx && env.wants .l4Statuses && 0 < batch.events.length then
        [.l4OrderStatuses batch.time batch.blockNumber
          (groupBy (fun st => st.order.coin) batch.events)]
      else []
    let (state, result) := state.applyOrderStatusesHft env.now batch
    ({ l with orderBookState := some state.takeInsertBeforeFallbacks.1 }, sent, result)
  | .bookDiffs batch =>
    let byCoin := groupBy (fun d => d.coin)
      (batch.events.filter fun d => !(state.ignoreSpot && d.coin.isSpot))
    let sent :=
      if l.internalMessageTx && env.wants .l4Diffs && !byCoin.isEmpty then
        [.l4OrderDiffs batch.time batch.blockNumber byCoin]
      else []
    let (state, result) := state.applyOrderDiffsHft env.now batch
    ({ l with orderBookState := some state.takeInsertBeforeFallbacks.1 }, sent, result)
  | .fills batch =>
    let state := state.takeInsertBeforeFallbacks.1
    if l.internalMessageTx && env.wants .trades then
      let (pairer, byCoin) := l.tradePairer.group batch.events
      ({ l with orderBookState := some state, tradePairer := pairer },
        if byCoin.isEmpty then [] else [.fills byCoin], .ok ∅)
    else ({ l with orderBookState := some state }, [], .ok ∅)

/-- Every thousandth batch the halves that wait too long are given up; the answer
is whether an order may have been lost. -/
def maintain (now : ℕ) (l : OrderBookListener) : OrderBookListener × Bool :=
  let due := l.hftStateCount % 1000 = 0
  let l := { l with hftStateCount := l.hftStateCount + 1 }
  match l.orderBookState with
  | some state =>
    if due then
      let (state, cleared) := state.cleanupStalePending now
      ({ l with orderBookState := some state }, cleared)
    else (l, false)
  | none => (l, false)

/-- The best prices of the coins that changed. -/
def bboBroadcast (env : Env) (l : OrderBookListener) (changed : Std.ExtTreeSet Coin) :
    List InternalMessage :=
  match l.orderBookState with
  | some state =>
    if !changed.isEmpty && l.internalMessageTx && env.wants .bbo then
      let (time, bbos) := state.getBbosForCoins changed
      [.bboUpdate bbos time]
    else []
  | none => []

/-- Coins whose aggregated books are to be sent. -/
def extendDirty (l : OrderBookListener) (changed : Std.ExtTreeSet Coin) : OrderBookListener :=
  { l with pendingDirtyL2Coins := l.pendingDirtyL2Coins.insertMany changed.toList }

/-- Draw the consequences of a batch that was applied to the book: a failure or a
half that was given up is a loss, and the coins that changed are to be sent. -/
def conclude (env : Env) (l : OrderBookListener) (result : Except Failure (Std.ExtTreeSet Coin)) :
    OrderBookListener × List InternalMessage :=
  let changed := result.toOption.getD ∅
  let (l, cleared) := l.maintain env.now
  let l := if !result.isOk || cleared then l.markDesynced else l
  (l.extendDirty changed, l.bboBroadcast env changed)

/-- Apply a batch to the book there is. -/
def applyLive (env : Env) (l : OrderBookListener) (state : OrderBookState) (batch : EventBatch) :
    Option (OrderBookListener × List InternalMessage) :=
  match l.applyToState env state batch with
  | (_, _, .error .panic) => none
  | (l, sent, result) =>
    let (l, bbo) := l.conclude env result
    some (l, sent ++ bbo)

/-- Take in a batch. -/
def applyEventBatch (env : Env) (l : OrderBookListener) (height : ℕ) (batch : EventBatch) :
    Option (OrderBookListener × List InternalMessage) :=
  let l := { l with lastSeenHeight := max l.lastSeenHeight height }
  if maxEventsPerBatch < batch.eventsLen then some (l.markDesynced, [])
  else match l.cacheForReplay batch with
    | (l, none) => some (l, [])
    | (l, some batch) =>
      match l.orderBookState with
      | some state => l.applyLive env state batch
      | none => some (l, [])

/-! ## Sending the aggregated books -/

/-- Whether the aggregated books are to be sent. -/
def l2Due (now : ℕ) (l : OrderBookListener) : Bool :=
  !l.pendingDirtyL2Coins.isEmpty &&
    l.lastL2Broadcast.all fun last => l2BroadcastThrottleMs ≤ now - last

/-- Rebuild the aggregated books and send them. -/
def broadcastL2 (env : Env) (l : OrderBookListener) (state : OrderBookState) :
    OrderBookListener × List InternalMessage :=
  let dirty := l.pendingDirtyL2Coins
  let previous := l.l2SnapshotCache.filter fun coin _ => dirty.contains coin
  let (cache, recomputed, coinSetChanged) :=
    computeL2SnapshotsIncremental state.orderBook dirty env.active l.l2SnapshotCache
  ({ l with pendingDirtyL2Coins := ∅, l2SnapshotCache := cache },
    if l.internalMessageTx then
      [.snapshot cache previous state.time state.height recomputed
        (if coinSetChanged then some l.univ else none)]
    else [])

/-- The cache holds the wrong books once the shapes wanted have changed. -/
def retune (active : Finset L2SnapshotParams) (l : OrderBookListener) : OrderBookListener :=
  if active = l.lastActiveL2Params then l
  else { l with l2SnapshotCache := ∅, lastActiveL2Params := active }

/-- Send the aggregated books if they are due and wanted. -/
def flushL2IfDue (env : Env) (l : OrderBookListener) : OrderBookListener × List InternalMessage :=
  if !l.l2Due env.now then (l, [])
  else
    let l := { l with lastL2Broadcast := some env.now }
    if !(l.internalMessageTx && 0 < env.receiverCount) then (l, [])
    else if env.active = ∅ then (l, [])
    else
      let l := l.retune env.active
      match l.orderBookState with
      | some state => l.broadcastL2 env state
      | none => (l, [])

end OrderBookListener

/-! ## The phased install -/

/-- How many events may be left for the replay under the lock. -/
def installResidualEventsMax : ℕ := 1000

/-- How often the events that came in meanwhile are taken. -/
def installMaxChaseRounds : ℕ := 32

/-- An install in progress: the book being built, the height it was dumped at,
how many rounds of replay it went through, and whether one failed. -/
structure PhasedInstall where
  state : OrderBookState
  height : ℕ
  rounds : ℕ
  replayFailed : Bool

namespace PhasedInstall

/-- Build the new book, and carry over what the dump does not hold. -/
def build (l : OrderBookListener) (snapshot : Snapshots InnerL4Order)
    (untriggered : List InnerL4Order) (height : ℕ) : PhasedInstall where
  state :=
    let newState := OrderBookState.fromSnapshot snapshot untriggered height 0 true l.ignoreSpot
      l.trackUntriggered
    match l.orderBookState with
    | some oldState => newState.carryForwardUntriggered oldState
    | none => newState
  height := height
  rounds := 0
  replayFailed := false

/-- Whether another round of replay is to be made before the install ends. -/
def chases (p : PhasedInstall) (l : OrderBookListener) : Bool :=
  p.rounds < installMaxChaseRounds && l.replayCacheStatus.2 &&
    installResidualEventsMax < l.replayCacheStatus.1

/-- One round: take the batches kept so far and replay them. -/
def chase (now : ℕ) (p : PhasedInstall) (l : OrderBookListener) :
    Option (PhasedInstall × OrderBookListener) :=
  let (l, chunk) := l.drainReplayCache
  match replayAll now p.height chunk p.state p.replayFailed with
  | none => none
  | some (state, replayFailed) =>
    some (⟨state, p.height, p.rounds + 1, replayFailed⟩, l)

/-- Whether the install ends without the batches that are kept. -/
def givesUp (p : PhasedInstall) (l : OrderBookListener) : Bool :=
  p.rounds = installMaxChaseRounds && l.replayCacheStatus.2 &&
    installResidualEventsMax < l.replayCacheStatus.1

/-- The end of the install. -/
def commit (now : ℕ) (p : PhasedInstall) (l : OrderBookListener) : Option OrderBookListener :=
  if p.givesUp l then
    (l.abandonReplayCache.finishInstall now p.state p.height p.replayFailed).map
      OrderBookListener.markDesynced
  else l.finishInstall now p.state p.height p.replayFailed

end PhasedInstall

end HlOrderbook
