import HlOrderbook.StateSpec

/-!
# What one event does

The branches of the two applications of an event, one constructor each: what must hold
for the branch to be taken, the state it leaves and what it answers, a failure among the
answers.  Later modules split along these and unfold neither application.

## Main definitions

* `StatusOutcome`, `DiffOutcome`.

## Main results

* `statusOutcome`, `diffOutcome`.
-/

set_option autoImplicit false
set_option linter.unusedSectionVars false

namespace HlOrderbook

namespace OrderBookState

variable [SlabPolicy] [FixedPoint]

/-- The diff is of a spot coin, and those are ignored. -/
def skips (s : OrderBookState) (d : NodeDataOrderDiff) : Bool := d.coin.isSpot && s.ignoreSpot

/-- What a status does. -/
inductive StatusOutcome (now : ℕ) (s : OrderBookState) (st : NodeDataOrderStatus) :
    OrderBookState × Except Failure (List Coin) → Prop
  /-- No diff waits, and the order does not rest with this status. -/
  | passed (unknown : s.pendingNewDiffs[st.order.oid]? = none)
      (inserted : st.isInsertedIntoBook = false) :
      StatusOutcome now s st (s.trackStatus st, .ok [])
  /-- No diff waits; the status is kept until one comes. -/
  | kept (unknown : s.pendingNewDiffs[st.order.oid]? = none)
      (inserted : st.isInsertedIntoBook = true) :
      StatusOutcome now s st
        ({ s.trackStatus st with
            pendingOrderStatuses :=
              (s.trackStatus st).pendingOrderStatuses.insert st.order.oid (st, now) }, .ok [])
  /-- A diff waits, and the order does not parse. -/
  | rejected {pending : PendingNew}
      (waits : s.pendingNewDiffs[st.order.oid]? = some pending)
      (unparsed : InnerL4Order.tryFrom st.user st.order = none) :
      StatusOutcome now s st
        ({ s.trackStatus st with
            pendingNewDiffs := (s.trackStatus st).pendingNewDiffs.erase st.order.oid },
          .error .parse)
  /-- A diff waits, and the order rests. -/
  | paired {pending : PendingNew} {inner : InnerL4Order}
      (waits : s.pendingNewDiffs[st.order.oid]? = some pending)
      (parses : InnerL4Order.tryFrom st.user st.order = some inner) :
      StatusOutcome now s st
        (({ s.trackStatus st with
              pendingNewDiffs := (s.trackStatus st).pendingNewDiffs.erase st.order.oid } :
            OrderBookState).restPaired inner pending.sz pending.insertBefore st.time.toNat,
          .ok [st.order.coin])

/-- **The branches of a status.** -/
theorem statusOutcome (now : ℕ) (s : OrderBookState) (st : NodeDataOrderStatus) :
    StatusOutcome now s st (s.applyOrderStatus now st) := by
  simp only [applyOrderStatus]
  split
  case h_1 pending waits =>
    rw [pendingNewDiffs_trackStatus] at waits
    split
    case h_1 unparsed => exact .rejected waits unparsed
    case h_2 inner parses => exact .paired waits parses
  case h_2 unknown =>
    rw [pendingNewDiffs_trackStatus] at unknown
    split
    case isTrue inserted => exact .kept unknown inserted
    case isFalse inserted => exact .passed unknown (by simpa using inserted)

/-- What a diff does. -/
inductive DiffOutcome (now height : ℕ) (s : OrderBookState) (d : NodeDataOrderDiff) :
    OrderBookState × Except Failure (List Coin) → Prop
  | skipped (skips : s.skips d = true) : DiffOutcome now height s d (s, .ok [])
  /-- The diff does not parse. -/
  | unparsed (skips : s.skips d = false) (unparsed : InnerOrderDiff.tryFrom d.rawBookDiff = none) :
      DiffOutcome now height s d (s, .error .parse)
  /-- A status waits, and its order does not parse. -/
  | rejected {sz since : ℕ} {anchor : Option ℕ} {st : NodeDataOrderStatus}
      (skips : s.skips d = false)
      (parses : InnerOrderDiff.tryFrom d.rawBookDiff = some (.new sz anchor))
      (waits : s.pendingOrderStatuses[d.oid]? = some (st, since))
      (unparsed : InnerL4Order.tryFrom st.user st.order = none) :
      DiffOutcome now height s d
        ({ s with pendingOrderStatuses := s.pendingOrderStatuses.erase d.oid }, .error .parse)
  /-- A status waits that is from before 1970. -/
  | trapped {sz since : ℕ} {anchor : Option ℕ} {st : NodeDataOrderStatus} {inner : InnerL4Order}
      (skips : s.skips d = false)
      (parses : InnerOrderDiff.tryFrom d.rawBookDiff = some (.new sz anchor))
      (waits : s.pendingOrderStatuses[d.oid]? = some (st, since))
      (order : InnerL4Order.tryFrom st.user st.order = some inner) (early : st.time < 0) :
      DiffOutcome now height s d
        ({ s with pendingOrderStatuses := s.pendingOrderStatuses.erase d.oid }, .error .panic)
  /-- A status waits, and its order rests. -/
  | paired {sz since : ℕ} {anchor : Option ℕ} {st : NodeDataOrderStatus} {inner : InnerL4Order}
      (skips : s.skips d = false)
      (parses : InnerOrderDiff.tryFrom d.rawBookDiff = some (.new sz anchor))
      (waits : s.pendingOrderStatuses[d.oid]? = some (st, since))
      (order : InnerL4Order.tryFrom st.user st.order = some inner) (late : ¬ st.time < 0) :
      DiffOutcome now height s d
        (({ s with
              pendingOrderStatuses := s.pendingOrderStatuses.erase d.oid } :
            OrderBookState).restPaired inner sz anchor st.time.toNat, .ok [st.order.coin])
  /-- No status waits; the diff does, until one comes. -/
  | waits {sz : ℕ} {anchor : Option ℕ} (skips : s.skips d = false)
      (parses : InnerOrderDiff.tryFrom d.rawBookDiff = some (.new sz anchor))
      (unknown : s.pendingOrderStatuses[d.oid]? = none) :
      DiffOutcome now height s d
        ({ s with
            pendingNewDiffs := s.pendingNewDiffs.insert d.oid ⟨sz, anchor, now, d.user⟩ }, .ok [])
  /-- The size of a resting order changes. -/
  | resized {origSz newSz : ℕ} (skips : s.skips d = false)
      (parses : InnerOrderDiff.tryFrom d.rawBookDiff = some (.update origSz newSz))
      (rests : s.orderBook.find? d.coin d.oid ≠ none) (pos : newSz ≠ 0) :
      DiffOutcome now height s d
        ({ s with orderBook := (s.orderBook.modifySz d.oid d.coin newSz).1 }, .ok [d.coin])
  /-- A resting order is emptied. -/
  | zeroed {origSz : ℕ} (skips : s.skips d = false)
      (parses : InnerOrderDiff.tryFrom d.rawBookDiff = some (.update origSz 0))
      (rests : s.orderBook.find? d.coin d.oid ≠ none) :
      DiffOutcome now height s d
        (({ s with orderBook := (s.orderBook.modifySz d.oid d.coin 0).1 } :
          OrderBookState).noteZeroed height d.oid, .ok [d.coin])
  /-- An update of no resting order is carried over to the diff that waits. -/
  | updated {origSz newSz : ℕ} (skips : s.skips d = false)
      (parses : InnerOrderDiff.tryFrom d.rawBookDiff = some (.update origSz newSz))
      (unknown : s.orderBook.find? d.coin d.oid = none) :
      DiffOutcome now height s d
        (({ s with orderBook := (s.orderBook.modifySz d.oid d.coin newSz).1 } :
          OrderBookState).applyDiffToPendingNew d.oid (some newSz), .ok [d.coin])
  /-- A resting order is removed. -/
  | cancelled (skips : s.skips d = false)
      (parses : InnerOrderDiff.tryFrom d.rawBookDiff = some .remove)
      (rests : s.orderBook.find? d.coin d.oid ≠ none) :
      DiffOutcome now height s d
        ({ s with orderBook := (s.orderBook.cancelOrder d.oid d.coin).1 }, .ok [d.coin])
  /-- A removal follows an update that emptied the order. -/
  | followed (skips : s.skips d = false)
      (parses : InnerOrderDiff.tryFrom d.rawBookDiff = some .remove)
      (unknown : s.orderBook.find? d.coin d.oid = none) (emptied : d.oid ∈ s.zeroedSet) :
      DiffOutcome now height s d
        ({ s with
            orderBook := (s.orderBook.cancelOrder d.oid d.coin).1
            zeroedSet := s.zeroedSet.erase d.oid }, .ok [d.coin])
  /-- A removal of no resting order is carried over to the diff that waits. -/
  | removed (skips : s.skips d = false)
      (parses : InnerOrderDiff.tryFrom d.rawBookDiff = some .remove)
      (unknown : s.orderBook.find? d.coin d.oid = none) (standing : d.oid ∉ s.zeroedSet) :
      DiffOutcome now height s d
        (({ s with orderBook := (s.orderBook.cancelOrder d.oid d.coin).1 } :
          OrderBookState).applyDiffToPendingNew d.oid none, .ok [d.coin])

/-- **The branches of a diff.** -/
theorem diffOutcome (now height : ℕ) (s : OrderBookState) (d : NodeDataOrderDiff) :
    DiffOutcome now height s d (s.applyOrderDiff now height d) := by
  rw [applyOrderDiff]
  split
  case isTrue skips => exact .skipped skips
  case isFalse hskips =>
  have skips : s.skips d = false := by simpa [OrderBookState.skips] using hskips
  split
  case h_1 unparsed => exact .unparsed skips unparsed
  case h_2 inner parses =>
  cases inner with
  | new sz anchor =>
    rw [applyInnerDiff]
    split
    case h_2 unknown => exact .waits skips parses unknown
    case h_1 st since waits =>
      split
      case h_1 unparsed => exact .rejected skips parses waits unparsed
      case h_2 inner order =>
        split
        case isTrue early => exact .trapped skips parses waits order early
        case isFalse late => exact .paired skips parses waits order late
  | update origSz newSz =>
    simp only [applyInnerDiff, OrderBooks.modifySz_snd]
    split
    case isTrue hrests =>
      have rests : s.orderBook.find? d.coin d.oid ≠ none := by
        simpa [Option.isSome_iff_ne_none] using hrests
      by_cases hzero : newSz = 0
      · subst hzero
        rw [if_pos rfl]
        exact .zeroed skips parses rests
      · rw [if_neg hzero]
        exact .resized skips parses rests hzero
    case isFalse hunknown =>
      exact .updated skips parses (by simpa using hunknown)
  | remove =>
    simp only [applyInnerDiff, OrderBooks.cancelOrder_snd]
    split
    case isTrue hrests =>
      exact .cancelled skips parses (by simpa [Option.isSome_iff_ne_none] using hrests)
    case isFalse hunknown =>
      have unknown : s.orderBook.find? d.coin d.oid = none := by simpa using hunknown
      split
      case isTrue emptied => exact .followed skips parses unknown emptied
      case isFalse standing => exact .removed skips parses unknown standing

end OrderBookState

end HlOrderbook
