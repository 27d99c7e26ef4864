import HlOrderbook.Lib.GroupBy
import HlOrderbook.Types

/-!
# Trades

The node writes two fills for a match, the buyer's and the seller's, one right
after the other.  The two are joined into one trade; a fill whose neighbour is
not the other half of its match is dropped.

## Main definitions

* `Trade.fromFills` — the trade of two fills.
* `TradePairer` — the fill that waits for the other half of its match.
-/

set_option autoImplicit false

namespace HlOrderbook

/-- One side of a match, less the fields no function here reads. -/
structure Fill where
  coin : Coin
  px : String
  sz : String
  side : Side
  time : ℕ
  hash : String
  crossed : Bool
  tid : ℕ
  deriving DecidableEq

/-- A fill and the account it belongs to. -/
structure NodeDataFill where
  user : Address
  fill : Fill
  deriving DecidableEq

/-- A trade as clients see it: the buyer first, then the seller. -/
structure Trade where
  coin : Coin
  side : Side
  px : String
  sz : String
  hash : String
  time : ℕ
  tid : ℕ
  users : Address × Address
  deriving DecidableEq

/-- The trade of a buy and a sell; `none` when the two do not belong together.
The side is the one that crossed the spread. -/
def Trade.fromFills (bid ask : NodeDataFill) : Option Trade :=
  if bid.fill.coin ≠ ask.fill.coin ∨ bid.fill.tid ≠ ask.fill.tid ∨ bid.fill.side ≠ .bid ∨
      ask.fill.side ≠ .ask then none
  else some
    { coin := ask.fill.coin
      side := if ask.fill.crossed then .ask else .bid
      px := ask.fill.px
      sz := ask.fill.sz
      hash := ask.fill.hash
      time := ask.fill.time
      tid := ask.fill.tid
      users := (bid.user, ask.user) }

/-- What the fills of earlier batches leave: a fill whose other half may be next. -/
structure TradePairer where
  prev : Option NodeDataFill

namespace TradePairer

/-- Take one fill. -/
def pair (p : TradePairer) (fill : NodeDataFill) : TradePairer × Option Trade :=
  match p.prev with
  | none => (⟨some fill⟩, none)
  | some prev =>
    if prev.fill.tid = fill.fill.tid then
      let (bid, ask) := if fill.fill.side = .bid then (fill, prev) else (prev, fill)
      (⟨none⟩, Trade.fromFills bid ask)
    else (⟨some fill⟩, none)

/-- Take the fills of a batch. -/
def pairAll : List NodeDataFill → TradePairer → TradePairer × List Trade
  | [], p => (p, [])
  | fill :: fills, p =>
    let (p, trade) := p.pair fill
    let (p, trades) := pairAll fills p
    (p, trade.toList ++ trades)

/-- Pair the fills of a batch, and group the trades by coin. -/
def group (p : TradePairer) (fills : List NodeDataFill) :
    TradePairer × Std.ExtTreeMap Coin (List Trade) :=
  let (p, trades) := pairAll fills p
  (p, groupBy Trade.coin trades)

/-- **How fills are split into batches does not matter.** -/
theorem pairAll_append (fills fills' : List NodeDataFill) (p : TradePairer) :
    pairAll (fills ++ fills') p =
      ((pairAll fills' (pairAll fills p).1).1,
        (pairAll fills p).2 ++ (pairAll fills' (pairAll fills p).1).2) := by
  induction fills generalizing p with
  | nil => rfl
  | cons fill fills ih => simp only [List.cons_append, pairAll, ih, List.append_assoc]

/-- A trade joins two fills of one match, the buyer's and the seller's. -/
theorem pair_eq_some {p p' : TradePairer} {fill : NodeDataFill} {trade : Trade}
    (h : p.pair fill = (p', some trade)) :
    p'.prev = none ∧ ∃ prev, p.prev = some prev ∧ prev.fill.tid = trade.tid ∧
      fill.fill.tid = trade.tid ∧ prev.fill.side ≠ fill.fill.side := by
  cases hp : p.prev with
  | none => simp [pair, hp] at h
  | some prev =>
    simp only [pair, hp] at h
    by_cases htid : prev.fill.tid = fill.fill.tid
    · by_cases hside : fill.fill.side = .bid
      · simp only [htid, hside, if_true, Prod.mk.injEq, Trade.fromFills, Option.ite_none_left_eq_some,
          not_or, ne_eq, not_not] at h
        obtain ⟨rfl, ⟨-, -, -, hask⟩, htrade⟩ := h
        refine ⟨rfl, prev, rfl, ?_, ?_, by simp [hside, hask]⟩ <;>
        · rw [Option.some.injEq] at htrade
          simp [← htrade, htid]
      · simp only [htid, hside, if_true, if_false, Prod.mk.injEq, Trade.fromFills,
          Option.ite_none_left_eq_some, not_or, ne_eq, not_not] at h
        obtain ⟨rfl, ⟨-, -, hbid, hask⟩, htrade⟩ := h
        refine ⟨rfl, prev, rfl, ?_, ?_, by simp [hbid, hask]⟩ <;>
        · rw [Option.some.injEq] at htrade
          simp [← htrade, htid]
    · simp [htid] at h

end TradePairer

end HlOrderbook
