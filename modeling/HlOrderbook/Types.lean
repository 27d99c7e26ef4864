import Mathlib.Algebra.GroupWithZero.Nat
import Mathlib.Order.Basic
import Mathlib.Data.Nat.Notation
import Mathlib.Data.Int.Notation

/-!
# Orders and node data

The values that travel through the server: coins, order identifiers, prices and
sizes in fixed point, the order as the book keeps it (`InnerL4Order`) and as the
node writes it (`L4Order`), and the two kinds of book events, order statuses and
raw book diffs, which arrive in batches of one block.

Order identifiers, prices and sizes are wrapped unsigned 64-bit integers in the
source, the last two in units of `10 ^ (-8)`; here all three are natural numbers,
named `oid`, `px` and `sz` where they occur, and the operations that saturate
there are written so that they saturate here.  Times are milliseconds since 1970.

## Main definitions

* `FixedPoint` — the conversions of the source that go through floating point.
* `InnerOrder` — what the book needs of an order.
* `InnerL4Order`, `InnerOrderDiff` — the parsed forms.
* `NodeDataOrderStatus`, `NodeDataOrderDiff`, `Batch` — the node's records.
-/

set_option autoImplicit false

namespace HlOrderbook

/-- The two sides of a book. -/
inductive Side where
  | ask
  | bid
  deriving DecidableEq, Repr

/-- The other side. -/
def Side.opposite : Side → Side
  | .ask => .bid
  | .bid => .ask

@[simp] theorem Side.opposite_opposite (s : Side) : s.opposite.opposite = s := by
  cases s <;> rfl

@[simp] theorem Side.opposite_ne (s : Side) : s.opposite ≠ s := by
  cases s <;> simp [opposite]

/-- The largest unsigned 64-bit integer. -/
def u64Max : ℕ := 2 ^ 64 - 1

/-- Addition that saturates at the largest unsigned 64-bit integer. -/
def saturatingAdd (a b : ℕ) : ℕ := min (a + b) u64Max

/-- A market's name. -/
abbrev Coin := String

namespace Coin

/-- Spot markets: names that begin with `@`, and `PURR/USDC`. -/
def isSpot (coin : Coin) : Bool := coin.toList.head? == some '@' || coin == "PURR/USDC"

/-- Builder-deployed markets: names with a colon. -/
def isHip3 (coin : Coin) : Bool := coin.toList.contains ':'

/-- Perpetual futures: neither of the two. -/
def isPerp (coin : Coin) : Bool := !isSpot coin && !isHip3 coin

end Coin

/-- An account: twenty bytes. -/
abbrev Address := BitVec 160

/-- The address the node places orders of its own under. -/
def isProtocolAddress (user : Address) : Bool := user == BitVec.allOnes 160

/-- The conversions of the source that go through floating point. -/
class FixedPoint where
  /-- A decimal string as a fixed-point number; `none` is an error. -/
  parse : String → Option ℕ
  /-- A fixed-point number as a decimal string. -/
  toStr : ℕ → String
  /-- The number of decimal digits of a price. -/
  numDigits : ℕ → ℕ

namespace FixedPoint

/-- Read a decimal with at most eight digits after the point.  The second argument
is the number read so far, the third the number of digits after the point. -/
def readDecimal : List Char → ℕ → Option ℕ → Option ℕ
  | [], acc, none => some (acc * 10 ^ 8)
  | [], acc, some n => if n ≤ 8 then some (acc * 10 ^ (8 - n)) else none
  | c :: cs, acc, n =>
    if c = '.' then if n.isNone then readDecimal cs acc (some 0) else none
    else if c.isDigit then readDecimal cs (acc * 10 + (c.toNat - 48)) (n.map (· + 1))
    else none

/-- The conversions as they are on plain decimals of at most eight digits after
the point. -/
@[reducible] def decimal : FixedPoint where
  parse s := if s.isEmpty then none else readDecimal s.toList 0 none
  toStr v :=
    let frac := Nat.toDigits 10 (10 ^ 8 + v % 10 ^ 8)
    let frac := (frac.drop 1).reverse.dropWhile (· = '0')
    String.ofList (Nat.toDigits 10 (v / 10 ^ 8) ++ if frac.isEmpty then [] else '.' :: frac.reverse)
  numDigits v := (Nat.toDigits 10 v).length

example : decimal.parse "100.5" = some 10050000000 := by decide

end FixedPoint

/-! ## Orders -/

/-- What the book needs of an order, with the laws that the two kinds of orders
in the source keep: every method that changes an order changes only its size
(`convertTrigger` aside, which does not change the size either), and `fill` takes
the smaller of the two sizes off both orders. -/
class InnerOrder (O : Type) where
  coin : O → Coin
  oid : O → ℕ
  side : O → Side
  limitPx : O → ℕ
  sz : O → ℕ
  decrementSz : O → ℕ → O
  fill : O → O → O × O × ℕ
  modifySz : O → ℕ → O
  convertTrigger : O → ℕ → O
  fill_eq : ∀ taker maker, fill taker maker =
    (decrementSz taker (min (sz taker) (sz maker)),
      decrementSz maker (min (sz taker) (sz maker)), min (sz taker) (sz maker))
  decrementSz_eq : ∀ o dec, decrementSz o dec = modifySz o (sz o - dec)
  sz_modifySz : ∀ o s, sz (modifySz o s) = s
  modifySz_modifySz : ∀ o s t, modifySz (modifySz o s) t = modifySz o t
  modifySz_sz : ∀ o, modifySz o (sz o) = o
  coin_modifySz : ∀ o s, coin (modifySz o s) = coin o
  oid_modifySz : ∀ o s, oid (modifySz o s) = oid o
  side_modifySz : ∀ o s, side (modifySz o s) = side o
  limitPx_modifySz : ∀ o s, limitPx (modifySz o s) = limitPx o

namespace InnerOrder

attribute [simp] sz_modifySz modifySz_modifySz modifySz_sz coin_modifySz oid_modifySz
  side_modifySz limitPx_modifySz

end InnerOrder

/-- The order as the book keeps it. -/
structure InnerL4Order where
  user : Address
  coin : Coin
  side : Side
  limitPx : ℕ
  sz : ℕ
  oid : ℕ
  timestamp : ℕ
  triggerCondition : String
  isTrigger : Bool
  triggerPx : String
  isPositionTpsl : Bool
  reduceOnly : Bool
  orderType : String
  tif : Option String
  cloid : Option String
  deriving DecidableEq

namespace InnerL4Order

/-- Take a size off an order, saturating at zero. -/
def decrementSz (o : InnerL4Order) (dec : ℕ) : InnerL4Order := { o with sz := o.sz - dec }

/-- Replace an order's size. -/
def modifySz (o : InnerL4Order) (sz : ℕ) : InnerL4Order := { o with sz }

/-- Match a taker with a maker: the smaller size is taken off both. -/
def fill (taker maker : InnerL4Order) : InnerL4Order × InnerL4Order × ℕ :=
  let matchSz := min taker.sz maker.sz
  (taker.decrementSz matchSz, maker.decrementSz matchSz, matchSz)

/-- A triggered order rests as a plain limit order. -/
def convertTrigger (o : InnerL4Order) (ts : ℕ) : InnerL4Order :=
  if o.isTrigger then
    { o with
      triggerPx := "0.0"
      triggerCondition := "Triggered"
      isTrigger := false
      timestamp := ts
      tif := some "Gtc" }
  else o

instance : InnerOrder InnerL4Order where
  coin := coin
  oid := oid
  side := side
  limitPx := limitPx
  sz := sz
  decrementSz := decrementSz
  fill := fill
  modifySz := modifySz
  convertTrigger := convertTrigger
  fill_eq _ _ := rfl
  decrementSz_eq _ _ := rfl
  sz_modifySz _ _ := rfl
  modifySz_modifySz _ _ _ := rfl
  modifySz_sz _ := rfl
  coin_modifySz _ _ := rfl
  oid_modifySz _ _ := rfl
  side_modifySz _ _ := rfl
  limitPx_modifySz _ _ := rfl

@[simp] theorem coin_convertTrigger (o : InnerL4Order) (ts : ℕ) :
    (o.convertTrigger ts).coin = o.coin := by
  simp only [convertTrigger]; split <;> rfl

@[simp] theorem oid_convertTrigger (o : InnerL4Order) (ts : ℕ) :
    (o.convertTrigger ts).oid = o.oid := by
  simp only [convertTrigger]; split <;> rfl

@[simp] theorem side_convertTrigger (o : InnerL4Order) (ts : ℕ) :
    (o.convertTrigger ts).side = o.side := by
  simp only [convertTrigger]; split <;> rfl

@[simp] theorem limitPx_convertTrigger (o : InnerL4Order) (ts : ℕ) :
    (o.convertTrigger ts).limitPx = o.limitPx := by
  simp only [convertTrigger]; split <;> rfl

@[simp] theorem sz_convertTrigger (o : InnerL4Order) (ts : ℕ) :
    (o.convertTrigger ts).sz = o.sz := by
  simp only [convertTrigger]; split <;> rfl

end InnerL4Order

/-- The order as the node writes it, less the fields no function here reads. -/
structure L4Order where
  coin : Coin
  side : Side
  limitPx : String
  sz : String
  oid : ℕ
  timestamp : ℕ
  triggerCondition : String
  isTrigger : Bool
  triggerPx : String
  isPositionTpsl : Bool
  reduceOnly : Bool
  orderType : String
  tif : Option String
  cloid : Option String
  deriving DecidableEq

/-- A plain limit order, as the book keeps it. -/
def InnerL4Order.limit (coin : Coin) (side : Side) (px sz oid : ℕ) : InnerL4Order where
  user := 1
  coin := coin
  side := side
  limitPx := px
  sz := sz
  oid := oid
  timestamp := 1
  triggerCondition := "N/A"
  isTrigger := false
  triggerPx := "0.0"
  isPositionTpsl := false
  reduceOnly := false
  orderType := "Limit"
  tif := some "Gtc"
  cloid := none

/-- A plain limit order, as the node writes it. -/
def L4Order.limit (coin : Coin) (side : Side) (px sz : String) (oid : ℕ) : L4Order where
  coin := coin
  side := side
  limitPx := px
  sz := sz
  oid := oid
  timestamp := 1
  triggerCondition := "N/A"
  isTrigger := false
  triggerPx := "0.0"
  isPositionTpsl := false
  reduceOnly := false
  orderType := "Limit"
  tif := some "Gtc"
  cloid := none

/-- Parse the order of an account; `none` is an error. -/
def InnerL4Order.tryFrom [FixedPoint] (user : Address) (o : L4Order) : Option InnerL4Order := do
  let limitPx ← FixedPoint.parse o.limitPx
  let sz ← FixedPoint.parse o.sz
  some
    { user
      coin := o.coin
      side := o.side
      limitPx
      sz
      oid := o.oid
      timestamp := o.timestamp
      triggerCondition := o.triggerCondition
      isTrigger := o.isTrigger
      triggerPx := o.triggerPx
      isPositionTpsl := o.isPositionTpsl
      reduceOnly := o.reduceOnly
      orderType := o.orderType
      tif := o.tif
      cloid := o.cloid }

/-- What parsing keeps of an order. -/
theorem InnerL4Order.tryFrom_eq_some [FixedPoint] {user : Address} {o : L4Order}
    {inner : InnerL4Order} (h : tryFrom user o = some inner) :
    inner.coin = o.coin ∧ inner.side = o.side ∧ inner.oid = o.oid ∧
      FixedPoint.parse o.limitPx = some inner.limitPx := by
  simp only [tryFrom, Option.bind_eq_bind, Option.bind_eq_some_iff, Option.some.injEq] at h
  obtain ⟨px, hpx, sz, -, rfl⟩ := h
  exact ⟨rfl, rfl, rfl, hpx⟩

/-! ## Events -/

/-- What a raw book diff says of an order. -/
inductive OrderDiff where
  | new (sz : String) (insertBefore : Option ℕ)
  | update (origSz newSz : String)
  | remove
  deriving DecidableEq

/-- The parsed form. -/
inductive InnerOrderDiff where
  | new (sz : ℕ) (insertBefore : Option ℕ)
  | update (origSz newSz : ℕ)
  | remove
  deriving DecidableEq

/-- Parse a raw book diff; `none` is an error. -/
def InnerOrderDiff.tryFrom [FixedPoint] : OrderDiff → Option InnerOrderDiff
  | .new sz insertBefore => do some (.new (← FixedPoint.parse sz) insertBefore)
  | .update origSz newSz => do
    some (.update (← FixedPoint.parse origSz) (← FixedPoint.parse newSz))
  | .remove => some .remove

/-- A raw book diff. -/
structure NodeDataOrderDiff where
  user : Address
  oid : ℕ
  px : String
  coin : Coin
  rawBookDiff : OrderDiff
  deriving DecidableEq

/-- An order status. -/
structure NodeDataOrderStatus where
  time : ℤ
  user : Address
  status : String
  order : L4Order
  deriving DecidableEq

/-- Whether the node rests an order with this status: an order that opened, and
is neither waiting for its trigger nor immediate-or-cancel, or one whose trigger
fired. -/
def NodeDataOrderStatus.isInsertedIntoBook (s : NodeDataOrderStatus) : Bool :=
  (s.status == "open" && !s.order.isTrigger && s.order.tif != some "Ioc") ||
    (s.order.isTrigger && s.status == "triggered")

/-- The status of an order that opened. -/
def NodeDataOrderStatus.opened (order : L4Order) : NodeDataOrderStatus := ⟨1, 1, "open", order⟩

/-- The events of one block. -/
structure Batch (E : Type) where
  blockTime : ℤ
  blockNumber : ℕ
  events : List E

/-- The block's time, saturating at zero. -/
def Batch.time {E : Type} (b : Batch E) : ℕ := b.blockTime.toNat

end HlOrderbook
