import HlOrderbook.Lib.KeyedDiff
import HlOrderbook.L2Snapshots

/-!
# The frames of the aggregated book

A connection that subscribed to a coin's aggregated book is sent the whole book
whenever it is not what was sent last, or the whole book once and after that the
difference of one send of the listener to the next.  Both are made out of one
message of the listener, and each keeps a note of its own of what it sent.

## Main definitions

* `L2Subscription` — the coin, the shape and the depth asked for.
* `sendWsDataFromSnapshot`, `sendWsDataFromL2Diff` — the two senders.
* `ClientBook`, `ClientBook.receive` — the book a client puts together again.
-/

set_option autoImplicit false
set_option linter.unusedSectionVars false

namespace HlOrderbook

/-- The depth of a subscription that names none. -/
def defaultLevels : ℕ := 20

/-- A level on the wire. -/
structure Level where
  px : String
  sz : String
  n : ℕ
  deriving DecidableEq

/-- A level as a pair of the price and the rest. -/
def Level.entry (l : Level) : String × String × ℕ := (l.px, l.sz, l.n)

/-- The two sides of a frame. -/
abbrev L2Levels := Snapshot Level

deriving instance DecidableEq for Snapshot

/-- A frame with no level. -/
def L2Levels.empty : L2Levels := ⟨[], []⟩

/-- The hash that tells whether a book is what was sent last. -/
class LevelHash where
  hash : L2Levels → ℕ

/-- What a subscription to an aggregated book asks for. -/
structure L2Subscription where
  coin : Coin
  nSigFigs : Option ℕ
  nLevels : Option ℕ
  mantissa : Option ℕ
  deriving DecidableEq

namespace L2Subscription

/-- How many levels of a side are sent. -/
def depth (s : L2Subscription) : ℕ := s.nLevels.getD defaultLevels

/-- The shape the listener has to build. -/
def shape (s : L2Subscription) : L2SnapshotParams := ⟨s.nSigFigs, s.mantissa⟩

/-- Whether a subscription is accepted. -/
def validate (s : L2Subscription) (univ : Std.ExtTreeSet Coin) : Bool :=
  if !univ.contains s.coin then false
  else if s.nLevels = some defaultLevels then false
  else if maxLevels < s.depth then false
  else match s.nSigFigs with
    | some n =>
      if !(2 ≤ n && n ≤ 5) then false
      else match s.mantissa with
        | some m => !(n < 5 || (m != 5 && m != 2))
        | none => true
    | none => s.mantissa.isNone

theorem depth_le_of_validate {s : L2Subscription} {univ : Std.ExtTreeSet Coin}
    (h : s.validate univ = true) : s.depth ≤ maxLevels := by
  rw [validate] at h
  by_cases hcoin : !univ.contains s.coin
  · simp [hcoin] at h
  · by_cases hdefault : s.nLevels = some defaultLevels
    · simp [hdefault] at h
    · by_cases hdepth : maxLevels < s.depth
      · simp [hdepth] at h
      · omega

end L2Subscription

/-! ## Whole books -/

/-- The whole book. -/
structure L2Book where
  coin : Coin
  time : ℕ
  nSigFigs : Option ℕ
  mantissa : Option ℕ
  nLevels : Option ℕ
  levels : L2Levels

/-- What is noted of a whole book that was sent.  The book itself is kept for the
heartbeat only. -/
structure L2Entry where
  hash : ℕ
  lastSent : ℕ
  payload : Option L2Book

section Send

variable [FixedPoint]

/-- A level as it goes on the wire. -/
def Level.ofInner (l : InnerLevel) : Level := ⟨FixedPoint.toStr l.px, FixedPoint.toStr l.sz, l.n⟩

/-- Both sides as they go on the wire. -/
def exportInnerSnapshot (s : Snapshot InnerLevel) : L2Levels :=
  ⟨s.bids.map Level.ofInner, s.asks.map Level.ofInner⟩

namespace L2Subscription

/-- The levels a book in the right shape is sent with. -/
def exported (s : L2Subscription) (variant : Snapshot InnerLevel) : L2Levels :=
  exportInnerSnapshot (variant.truncate s.depth)

/-- The levels of the subscription's coin and shape. -/
def exportFrom (s : L2Subscription) (src : L2Snapshots) : Option L2Levels :=
  (src[s.coin]?.bind fun perCoin => perCoin s.shape).map s.exported

/-- The levels of a whole book; none when the coin was not built in the shape. -/
def bookLevels (s : L2Subscription) (snapshot : L2Snapshots) : Option L2Levels :=
  match snapshot[s.coin]? with
  | some perCoin => (perCoin s.shape).map s.exported
  | none => some .empty

/-- The levels that are compared with what was sent last: none for a coin that was
not rebuilt, once something was sent. -/
def built (s : L2Subscription) (snapshot : L2Snapshots) (last : Option L2Entry)
    (dirty : Std.ExtTreeSet Coin) (forceFull : Bool) : Option L2Levels :=
  if !forceFull && !dirty.contains s.coin && last.isSome then none else s.bookLevels snapshot

end L2Subscription

variable [LevelHash]

/-- Send the whole book, if it is not what was sent last. -/
def sendWsDataFromSnapshot (now : ℕ) (s : L2Subscription) (snapshot : L2Snapshots) (time : ℕ)
    (last : Option L2Entry) (dirty : Std.ExtTreeSet Coin) (forceFull storePayload : Bool) :
    Option L2Entry × Option L2Book :=
  match s.built snapshot last dirty forceFull with
  | none => (last, none)
  | some levels =>
    let hash := LevelHash.hash levels
    if last.map L2Entry.hash = some hash then (last, none)
    else
      let book := ⟨s.coin, time, s.nSigFigs, s.mantissa, some s.depth, levels⟩
      (some ⟨hash, now, if storePayload then some book else none⟩, some book)

end Send

/-! ## Differences -/

/-- What changed on one side, by price. -/
abbrev L2SideDiff := KeyedDiff String (String × ℕ)

/-- The difference of one side. -/
def L2SideDiff.between (old new : List Level) : L2SideDiff :=
  KeyedDiff.between (old.map Level.entry) (new.map Level.entry)

/-- A difference, with the height of the frame it follows. -/
structure L2DiffUpdates where
  coin : Coin
  time : ℕ
  height : ℕ
  prevHeight : ℕ
  nSigFigs : Option ℕ
  mantissa : Option ℕ
  nLevels : Option ℕ
  bids : L2SideDiff
  asks : L2SideDiff

/-- A frame of the channel of differences. -/
inductive L2Diff where
  | snapshot (coin : Coin) (time height : ℕ) (nSigFigs mantissa nLevels : Option ℕ)
      (levels : L2Levels)
  | updates (u : L2DiffUpdates)

section Send

variable [FixedPoint]

/-- What changed from one send to the next; none when nothing did at the depth
asked for, or when there is nothing to compare with. -/
def L2Subscription.sides (s : L2Subscription) (snapshot previous : L2Snapshots) :
    Option (L2SideDiff × L2SideDiff) :=
  match s.exportFrom previous with
  | none => none
  | some old =>
    let new := (s.exportFrom snapshot).getD .empty
    let bids := L2SideDiff.between old.bids new.bids
    let asks := L2SideDiff.between old.asks new.asks
    if bids.isEmpty && asks.isEmpty then none else some (bids, asks)

/-- Send the whole book, or what changed.  What is noted is the height of the last
frame. -/
def sendWsDataFromL2Diff (s : L2Subscription) (snapshot previous : L2Snapshots) (time height : ℕ)
    (last : Option ℕ) (dirty : Std.ExtTreeSet Coin) (forceFull : Bool) :
    Option ℕ × Option L2Diff :=
  if last.isNone || forceFull || !previous.contains s.coin then
    if last.isSome && !forceFull && !dirty.contains s.coin then (last, none)
    else
      (some height, some (.snapshot s.coin time height s.nSigFigs s.mantissa (some s.depth)
        ((s.exportFrom snapshot).getD .empty)))
  else if !dirty.contains s.coin then (last, none)
  else match s.sides snapshot previous with
    | none => (last, none)
    | some (bids, asks) =>
      (some height, some (.updates ⟨s.coin, time, height, last.getD height, s.nSigFigs,
        s.mantissa, some s.depth, bids, asks⟩))

end Send

/-! ## The client -/

/-- The book a client has, by price. -/
structure ClientBook where
  bids : Std.ExtTreeMap String (String × ℕ)
  asks : Std.ExtTreeMap String (String × ℕ)

namespace ClientBook

/-- The book a list of levels spells out. -/
def ofLevels (levels : L2Levels) : ClientBook :=
  ⟨mapOf (levels.bids.map Level.entry), mapOf (levels.asks.map Level.entry)⟩

/-- Take in a frame; a difference before any whole book is of no use. -/
def receive : Option ClientBook → L2Diff → Option ClientBook
  | _, .snapshot _ _ _ _ _ _ levels => some (ofLevels levels)
  | book, .updates u => book.map fun b => ⟨u.bids.patch b.bids, u.asks.patch b.asks⟩

end ClientBook

/-! ## What the senders do -/

section Spec

variable [FixedPoint] {s : L2Subscription} {snapshot previous : L2Snapshots}

theorem L2Subscription.exportFrom_of_some {v : L2Variants} {x : Snapshot InnerLevel}
    (hv : snapshot[s.coin]? = some v) (hx : v s.shape = some x) :
    s.exportFrom snapshot = some (s.exported x) := by
  simp [L2Subscription.exportFrom, hv, hx]

theorem L2Subscription.exportFrom_of_none (h : snapshot[s.coin]? = none) :
    s.exportFrom snapshot = none := by
  simp [L2Subscription.exportFrom, h]

theorem L2Subscription.bookLevels_of_some {v : L2Variants} (h : snapshot[s.coin]? = some v) :
    s.bookLevels snapshot = (v s.shape).map s.exported := by
  simp [L2Subscription.bookLevels, h]

theorem L2Subscription.bookLevels_of_none (h : snapshot[s.coin]? = none) :
    s.bookLevels snapshot = some .empty := by
  simp [L2Subscription.bookLevels, h]

/-- **The differences of the two sides turn the one book into the other.** -/
theorem L2Subscription.patch_sides (s : L2Subscription) (snapshot : L2Snapshots)
    {previous : L2Snapshots} {old : L2Levels} (hold : s.exportFrom previous = some old)
    (b : ClientBook) (hb : b = .ofLevels old) :
    ((s.sides snapshot previous).elim b fun d => ⟨d.1.patch b.bids, d.2.patch b.asks⟩) =
      .ofLevels ((s.exportFrom snapshot).getD .empty) := by
  generalize hnew : (s.exportFrom snapshot).getD .empty = new
  have hbids : (L2SideDiff.between old.bids new.bids).patch b.bids =
      mapOf (new.bids.map Level.entry) := hb ▸ KeyedDiff.patch_between _ _
  have hasks : (L2SideDiff.between old.asks new.asks).patch b.asks =
      mapOf (new.asks.map Level.entry) := hb ▸ KeyedDiff.patch_between _ _
  simp only [L2Subscription.sides, hold, hnew]
  split
  case isTrue hempty =>
    rw [Bool.and_eq_true] at hempty
    rw [KeyedDiff.patch_of_isEmpty hempty.1] at hbids
    rw [KeyedDiff.patch_of_isEmpty hempty.2] at hasks
    rw [Option.elim_none, ClientBook.ofLevels, ← hbids, ← hasks]
  case isFalse =>
    rw [Option.elim_some, ClientBook.ofLevels, ← hbids, ← hasks]

end Spec

end HlOrderbook
