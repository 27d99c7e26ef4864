import HlOrderbook.Aggregates
import HlOrderbook.State

/-!
# Triggers at the tails of a snapshot

A snapshot may list the orders that wait for their trigger at the end of both of its
sides, each side in an order of its own.  Taking off the tails while an order is listed on
both sides takes off these orders, and no other.

## Main definitions

* `Snapshot.Tailed` — a snapshot of a book and of triggers at both tails.
* `lookupUntriggered` — an entry of the table of triggers.
-/

set_option autoImplicit false
set_option linter.unusedSectionVars false

namespace HlOrderbook

/-! ## One snapshot -/

namespace Snapshot

section Tails

variable {O : Type} [InnerOrder O]

open InnerOrder

/-- Popping takes the tail off, and turns it around. -/
theorem popWhile_append {p : O → Bool} {front tail : List O} (hfront : ∀ o ∈ front, p o = false)
    (htail : ∀ o ∈ tail, p o = true) : popWhile p (front ++ tail) = (front, tail.reverse) := by
  have hstop : ∀ o ∈ front.reverse, ¬ p o = true := fun o ho => by
    simp [hfront o (List.mem_reverse.mp ho)]
  have hgo : ∀ o ∈ tail.reverse, p o = true := fun o ho => htail o (List.mem_reverse.mp ho)
  have hdrop : front.reverse.dropWhile p = front.reverse := by
    cases hrev : front.reverse with
    | nil => rfl
    | cons o rest => rw [List.dropWhile_cons_of_neg (hstop o (hrev ▸ List.mem_cons_self))]
  have htake : front.reverse.takeWhile p = [] := by
    cases hrev : front.reverse with
    | nil => rfl
    | cons o rest => rw [List.takeWhile_cons_of_neg (hstop o (hrev ▸ List.mem_cons_self))]
  rw [popWhile, List.reverse_append, List.dropWhile_append_of_pos hgo,
    List.takeWhile_append_of_pos hgo, hdrop, htake, List.reverse_reverse, List.append_nil]

/-- A snapshot lists a book, and the same triggers behind both of its sides, where the
identifiers of the bids, the asks and the triggers are apart. -/
structure Tailed (s book : Snapshot O) (triggers bidTail askTail : List O) : Prop where
  bids : s.bids = book.bids ++ bidTail
  asks : s.asks = book.asks ++ askTail
  bidTail : bidTail.Perm triggers
  askTail : askTail.Perm triggers
  nodup : (triggers.map oid).Nodup
  sides : ∀ o ∈ book.bids, ∀ o' ∈ book.asks, oid o ≠ oid o'
  bidsApart : ∀ o ∈ book.bids, ∀ o' ∈ triggers, oid o ≠ oid o'
  asksApart : ∀ o ∈ book.asks, ∀ o' ∈ triggers, oid o ≠ oid o'

variable {s book : Snapshot O} {triggers bidTail askTail : List O}

/-- **The tails are taken off and nothing else**, and turned around. -/
theorem Tailed.extractTriggers_eq (h : s.Tailed book triggers bidTail askTail) :
    s.extractTriggers = (book, bidTail.reverse ++ askTail.reverse) := by
  have hboth : ∀ o : O, ((s.bids.map oid).contains (oid o) && (s.asks.map oid).contains (oid o)) =
      true ↔ (∃ o' ∈ s.bids, oid o' = oid o) ∧ ∃ o' ∈ s.asks, oid o' = oid o := by
    intro o
    simp
  have hinBids : ∀ o', o' ∈ s.bids ↔ o' ∈ book.bids ∨ o' ∈ triggers := fun o' => by
    rw [h.bids, List.mem_append, h.bidTail.mem_iff]
  have hinAsks : ∀ o', o' ∈ s.asks ↔ o' ∈ book.asks ∨ o' ∈ triggers := fun o' => by
    rw [h.asks, List.mem_append, h.askTail.mem_iff]
  -- a trigger is on both sides, an order of the book on one
  have htrigger : ∀ o ∈ triggers,
      ((s.bids.map oid).contains (oid o) && (s.asks.map oid).contains (oid o)) = true :=
    fun o ho => (hboth o).mpr
      ⟨⟨o, (hinBids o).mpr (Or.inr ho), rfl⟩, ⟨o, (hinAsks o).mpr (Or.inr ho), rfl⟩⟩
  have hbid : ∀ o ∈ book.bids,
      ((s.bids.map oid).contains (oid o) && (s.asks.map oid).contains (oid o)) = false := by
    intro o ho
    rw [Bool.eq_false_iff, ne_eq, hboth]
    rintro ⟨-, o', ho', heq⟩
    rcases (hinAsks o').mp ho' with hask | htrig
    · exact h.sides o ho o' hask heq.symm
    · exact h.bidsApart o ho o' htrig heq.symm
  have hask : ∀ o ∈ book.asks,
      ((s.bids.map oid).contains (oid o) && (s.asks.map oid).contains (oid o)) = false := by
    intro o ho
    rw [Bool.eq_false_iff, ne_eq, hboth]
    rintro ⟨⟨o', ho', heq⟩, -⟩
    rcases (hinBids o').mp ho' with hbid | htrig
    · exact h.sides o' hbid o ho heq
    · exact h.asksApart o ho o' htrig heq.symm
  have hbids := popWhile_append hbid fun o ho => htrigger o (h.bidTail.mem_iff.mp ho)
  have hasks := popWhile_append hask fun o ho => htrigger o (h.askTail.mem_iff.mp ho)
  rw [← h.bids] at hbids
  rw [← h.asks] at hasks
  rw [extractTriggers]
  simp only [hbids, hasks]

/-- Each trigger is returned twice. -/
theorem Tailed.perm_extracted (h : s.Tailed book triggers bidTail askTail) :
    s.extractTriggers.2.Perm (triggers ++ triggers) := by
  rw [h.extractTriggers_eq]
  exact ((bidTail.reverse_perm).trans h.bidTail).append ((askTail.reverse_perm).trans h.askTail)

theorem Tailed.removeTriggers_eq (h : s.Tailed book triggers bidTail askTail) :
    s.removeTriggers = book := by
  rw [removeTriggers, h.extractTriggers_eq]

end Tails

end Snapshot

/-! ## The table -/

section Table

open OrderBookState

variable {table : Std.ExtTreeMap Coin (Std.ExtTreeMap ℕ InnerL4Order)}

/-- The entry of the table for an order of a coin. -/
def lookupUntriggered (table : Std.ExtTreeMap Coin (Std.ExtTreeMap ℕ InnerL4Order)) (c : Coin)
    (k : ℕ) : Option InnerL4Order := table[c]?.bind fun orders => orders[k]?

theorem lookup_insertUntriggered (o : InnerL4Order) (c : Coin) (k : ℕ) :
    lookupUntriggered (insertUntriggered table o) c k =
      if o.coin = c ∧ o.oid = k then some o else lookupUntriggered table c k := by
  rw [lookupUntriggered, insertUntriggered, Std.ExtTreeMap.getElem?_insert]
  by_cases hc : o.coin = c
  · subst hc
    by_cases hk : o.oid = k
    · simp [hk]
    · cases hget : table[o.coin]? with
      | none => simp [hk, lookupUntriggered, hget]
      | some orders => simp [hk, lookupUntriggered, hget, Std.ExtTreeMap.getElem?_insert]
  · simp [hc, lookupUntriggered]

/-- Of the orders entered, the table holds the last of each coin and identifier. -/
theorem lookup_foldl_insertUntriggered (added : List InnerL4Order) (c : Coin) (k : ℕ) :
    lookupUntriggered (added.foldl insertUntriggered table) c k =
      (added.reverse.find? fun o => o.coin = c ∧ o.oid = k).or (lookupUntriggered table c k) := by
  induction added generalizing table with
  | nil => rfl
  | cons o added ih =>
    rw [List.foldl_cons, ih, lookup_insertUntriggered, List.reverse_cons, List.find?_append]
    by_cases ho : o.coin = c ∧ o.oid = k
    · simp [ho]
    · simp [ho]

/-- Orders that are told apart by coin and identifier are all held, and no other. -/
theorem lookup_entered {added : List InnerL4Order}
    (hapart : ∀ o ∈ added, ∀ o' ∈ added, o.coin = o'.coin → o.oid = o'.oid → o = o') (c : Coin)
    (k : ℕ) (o : InnerL4Order) :
    lookupUntriggered (added.foldl insertUntriggered ∅) c k = some o ↔
      o ∈ added ∧ o.coin = c ∧ o.oid = k := by
  have hempty : lookupUntriggered ∅ c k = none := by simp [lookupUntriggered]
  rw [lookup_foldl_insertUntriggered, hempty, Option.or_none]
  constructor
  · intro hfind
    have hkey := List.find?_some hfind
    exact ⟨List.mem_reverse.mp (List.mem_of_find?_eq_some hfind), of_decide_eq_true hkey⟩
  · rintro ⟨hmem, rfl, rfl⟩
    cases hfind : added.reverse.find? fun o' => o'.coin = o.coin ∧ o'.oid = o.oid with
    | none =>
      have := List.find?_eq_none.mp hfind o (List.mem_reverse.mpr hmem)
      simp at this
    | some o' =>
      have hkey := List.find?_some hfind
      rw [decide_eq_true_iff] at hkey
      have hmem' := List.mem_reverse.mp (List.mem_of_find?_eq_some hfind)
      rw [hapart o' hmem' o hmem hkey.1 hkey.2]

end Table

/-! ## The state -/

section FromSnapshot

variable {snapshots : Snapshots InnerL4Order} {book : Coin → Snapshot InnerL4Order}
  {triggers bidTail askTail : Coin → List InnerL4Order}

/-- The triggers taken off are those of all coins. -/
theorem mem_extractTriggers
    (htailed : ∀ (c : Coin) (s : Snapshot InnerL4Order), snapshots[c]? = some s →
      s.Tailed (book c) (triggers c) (bidTail c) (askTail c))
    (o : InnerL4Order) :
    o ∈ (Snapshots.extractTriggers snapshots).2 ↔ ∃ c ∈ snapshots, o ∈ triggers c := by
  rw [Snapshots.extractTriggers, List.mem_flatMap]
  constructor
  · rintro ⟨s, hs, ho⟩
    obtain ⟨c, hc⟩ := (mem_values_iff _).mp hs
    have htwice := ((htailed c s hc).perm_extracted.mem_iff).mp ho
    rw [List.mem_append, or_self] at htwice
    exact ⟨c, Std.ExtTreeMap.mem_iff_isSome_getElem?.mpr (by rw [hc]; rfl), htwice⟩
  · rintro ⟨c, hc, ho⟩
    obtain ⟨s, hs⟩ := Option.isSome_iff_exists.mp (Std.ExtTreeMap.mem_iff_isSome_getElem?.mp hc)
    refine ⟨s, (mem_values_iff _).mpr ⟨c, hs⟩, ?_⟩
    exact ((htailed c s hs).perm_extracted.mem_iff).mpr (List.mem_append_left _ ho)

/-- **Triggers at the tails are taken off exactly.**  A snapshot whose sides are those of a
book with the same triggers behind each, in any two orders, is cut back to that book, and
each trigger is returned twice, from the tail of the bids and from that of the asks.  The
state built from such snapshots has the books without them, and in its table one entry for
each trigger, those of spot coins apart when they are ignored. -/
theorem triggerTails_exact [SlabPolicy]
    (htailed : ∀ (c : Coin) (s : Snapshot InnerL4Order), snapshots[c]? = some s →
      s.Tailed (book c) (triggers c) (bidTail c) (askTail c))
    (hapart : ∀ c ∈ snapshots, ∀ c' ∈ snapshots, ∀ o ∈ triggers c, ∀ o' ∈ triggers c',
      o.coin = o'.coin → o.oid = o'.oid → o = o')
    (height time : ℕ) (ignoreSpot : Bool) :
    (∀ c s, snapshots[c]? = some s →
      s.extractTriggers = (book c, (bidTail c).reverse ++ (askTail c).reverse) ∧
      s.extractTriggers.2.Perm (triggers c ++ triggers c)) ∧
    (∀ c, (OrderBookState.fromSnapshot snapshots [] height time true ignoreSpot
      true).orderBook.orderBooks[c]? =
        snapshots[c]?.map fun _ => OrderBook.fromSnapshot (book c) false) ∧
    (∀ c ∈ snapshots, ∀ o ∈ triggers c, (OrderBookState.fromSnapshot snapshots [] height time true
      ignoreSpot true).orderBook.find? c o.oid = none) ∧
    ∀ c k o, lookupUntriggered (OrderBookState.fromSnapshot snapshots [] height time true ignoreSpot
      true).untriggeredOrders c k = some o ↔
        (∃ c' ∈ snapshots, o ∈ triggers c') ∧ o.coin = c ∧ o.oid = k ∧
          ¬ (ignoreSpot = true ∧ o.coin.isSpot = true) := by
  have hbooks : ∀ c, (OrderBookState.fromSnapshot snapshots [] height time true ignoreSpot
      true).orderBook.orderBooks[c]? =
        snapshots[c]?.map fun _ => OrderBook.fromSnapshot (book c) false := by
    intro c
    simp only [OrderBookState.fromSnapshot, Bool.and_self, if_true, OrderBooks.fromSnapshots,
      Snapshots.extractTriggers, Std.ExtTreeMap.getElem?_map]
    cases hs : snapshots[c]? with
    | none => rfl
    | some s =>
      have hcut : s.removeTriggers = book c := (htailed c s hs).removeTriggers_eq
      -- what is cut back already is not cut back further
      have htwice : (book c).removeTriggers = book c := by
        rw [← hcut, Snapshot.removeTriggers_removeTriggers]
      have hfrom : RawBook.fromSnapshot (book c) true = RawBook.fromSnapshot (book c) false := by
        simp only [RawBook.fromSnapshot, if_true, Bool.false_eq_true, if_false, htwice]
      have hextracted : s.extractTriggers.1 = book c := hcut
      simp only [Option.map_some, hextracted, Option.some.injEq]
      simp only [OrderBook.fromSnapshot, hfrom]
  refine ⟨fun c s hs => ⟨(htailed c s hs).extractTriggers_eq, (htailed c s hs).perm_extracted⟩,
    hbooks, fun c hc o ho => ?_, fun c k o => ?_⟩
  · obtain ⟨s, hs⟩ := Option.isSome_iff_exists.mp (Std.ExtTreeMap.mem_iff_isSome_getElem?.mp hc)
    have hnot : (OrderBook.fromSnapshot (book c) false).find? o.oid = none := by
      by_contra hrests
      obtain ⟨o', ho', heq⟩ := List.mem_map.mp (OrderBook.rests_fromSnapshot hrests)
      simp only [Snapshot.taken, Bool.false_eq_true, if_false, List.mem_append] at ho'
      rcases ho' with hbid | hask
      · exact (htailed c s hs).bidsApart o' hbid o ho heq
      · exact (htailed c s hs).asksApart o' hask o ho heq
    rw [OrderBooks.find?, hbooks c, hs]
    exact hnot
  · have hmem : ∀ o', o' ∈ (Snapshots.extractTriggers snapshots).2.filter
        (fun order => !(ignoreSpot && order.coin.isSpot)) ↔
        (∃ c ∈ snapshots, o' ∈ triggers c) ∧ ¬ (ignoreSpot = true ∧ o'.coin.isSpot = true) := by
      intro o'
      rw [List.mem_filter, mem_extractTriggers htailed]
      cases ignoreSpot <;> simp
    have htable : (OrderBookState.fromSnapshot snapshots [] height time true ignoreSpot
        true).untriggeredOrders =
        ((Snapshots.extractTriggers snapshots).2.filter fun order =>
          !(ignoreSpot && order.coin.isSpot)).foldl OrderBookState.insertUntriggered ∅ := rfl
    rw [htable, lookup_entered, hmem]
    · constructor
      · rintro ⟨⟨hlisted, hkept⟩, hc, hk⟩
        exact ⟨hlisted, hc, hk, hkept⟩
      · rintro ⟨hlisted, hc, hk, hkept⟩
        exact ⟨⟨hlisted, hkept⟩, hc, hk⟩
    · intro o₁ h₁ o₂ h₂ hcoin hoid
      obtain ⟨c₁, hc₁, ho₁⟩ := ((hmem o₁).mp h₁).1
      obtain ⟨c₂, hc₂, ho₂⟩ := ((hmem o₂).mp h₂).1
      exact hapart c₁ hc₁ c₂ hc₂ o₁ ho₁ o₂ ho₂ hcoin hoid

end FromSnapshot

end HlOrderbook

namespace HlOrderbook

section Example

attribute [local instance] SlabPolicy.latest

/-- An order that waits for its trigger. -/
def stop (oid : ℕ) : InnerL4Order := { orderAt .ask 90 1 oid with isTrigger := true }

/-- One for a spot coin. -/
def spotStop : InnerL4Order := { stop 5 with coin := "@1" }

/-- A bid, an ask, and two triggers behind each side, in either order; and a spot coin with
a trigger only. -/
def tails : Snapshots InnerL4Order :=
  ((∅ : Snapshots InnerL4Order).insert "BTC"
    ⟨[orderAt .bid 99 1 1, stop 2, stop 3], [orderAt .ask 101 1 4, stop 3, stop 2]⟩).insert "@1"
    ⟨[spotStop], [spotStop]⟩

/-- The books of the coins, without the triggers. -/
def tailsBook (c : Coin) : Snapshot InnerL4Order :=
  if c = "BTC" then ⟨[orderAt .bid 99 1 1], [orderAt .ask 101 1 4]⟩ else ⟨[], []⟩

/-- The triggers behind the bids. -/
def tailsBids (c : Coin) : List InnerL4Order := if c = "BTC" then [stop 2, stop 3] else [spotStop]

/-- The triggers behind the asks. -/
def tailsAsks (c : Coin) : List InnerL4Order := if c = "BTC" then [stop 3, stop 2] else [spotStop]

theorem triggerTails_exact_tails :
    (∃ s, tails[("BTC" : Coin)]? = some s ∧
      s.extractTriggers.1 = ⟨[orderAt .bid 99 1 1], [orderAt .ask 101 1 4]⟩ ∧
      s.extractTriggers.2.map (·.oid) = [3, 2, 2, 3]) ∧
    (OrderBookState.fromSnapshot tails [] 7 0 true true true).orderBook.find? "BTC" 3 = none ∧
    lookupUntriggered (OrderBookState.fromSnapshot tails [] 7 0 true true true).untriggeredOrders
      "BTC" 2 = some (stop 2) ∧
    lookupUntriggered (OrderBookState.fromSnapshot tails [] 7 0 true true true).untriggeredOrders
      "@1" 5 = none := by
  have hcoins : ∀ (c : Coin) (s : Snapshot InnerL4Order), tails[c]? = some s →
      c = "@1" ∧ s = ⟨[spotStop], [spotStop]⟩ ∨
      c = "BTC" ∧ s = ⟨[orderAt .bid 99 1 1, stop 2, stop 3],
        [orderAt .ask 101 1 4, stop 3, stop 2]⟩ := by
    intro c s hs
    rw [tails, Std.ExtTreeMap.getElem?_insert, Std.ExtTreeMap.getElem?_insert] at hs
    split at hs
    case isTrue hc => exact Or.inl ⟨(Std.LawfulEqCmp.eq_of_compare hc).symm, by cases hs; rfl⟩
    case isFalse =>
      split at hs
      case isTrue hc => exact Or.inr ⟨(Std.LawfulEqCmp.eq_of_compare hc).symm, by cases hs; rfl⟩
      case isFalse => simp at hs
  have htailed : ∀ (c : Coin) (s : Snapshot InnerL4Order), tails[c]? = some s →
      s.Tailed (tailsBook c) (tailsBids c) (tailsBids c) (tailsAsks c) := by
    intro c s hs
    rcases hcoins c s hs with ⟨rfl, rfl⟩ | ⟨rfl, rfl⟩
    · exact ⟨by decide, by decide, .refl _, .refl _, by decide, by decide, by decide, by decide⟩
    · exact ⟨by decide, by decide, .refl _, .swap _ _ _, by decide, by decide, by decide, by decide⟩
  have hmem : ∀ (c : Coin), c ∈ tails → c = "@1" ∨ c = "BTC" := by
    intro c hc
    obtain ⟨s, hs⟩ := Option.isSome_iff_exists.mp (Std.ExtTreeMap.mem_iff_isSome_getElem?.mp hc)
    exact (hcoins c s hs).imp And.left And.left
  have hapart : ∀ (c : Coin), c ∈ tails → ∀ (c' : Coin), c' ∈ tails → ∀ o ∈ tailsBids c,
      ∀ o' ∈ tailsBids c', o.coin = o'.coin → o.oid = o'.oid → o = o' := by
    intro c hc c' hc'
    rcases hmem c hc with rfl | rfl <;> rcases hmem c' hc' with rfl | rfl <;> decide
  have hbtc : ("BTC" : Coin) ∈ tails := by decide +kernel
  obtain ⟨hcut, -, hnone, htable⟩ := triggerTails_exact htailed hapart 7 0 true
  obtain ⟨s, hs⟩ := Option.isSome_iff_exists.mp (Std.ExtTreeMap.mem_iff_isSome_getElem?.mp hbtc)
  refine ⟨⟨s, hs, ?_, ?_⟩, hnone "BTC" hbtc (stop 3) (by decide),
    (htable "BTC" 2 (stop 2)).mpr ⟨⟨"BTC", hbtc, by decide⟩, rfl, rfl, by decide⟩, ?_⟩
  · rw [(hcut "BTC" s hs).1]
    rfl
  · rw [(hcut "BTC" s hs).1]
    rfl
  · cases hget : lookupUntriggered (OrderBookState.fromSnapshot tails [] 7 0 true true
        true).untriggeredOrders "@1" 5 with
    | none => rfl
    | some o =>
      obtain ⟨-, hcoin, -, hkept⟩ := (htable "@1" 5 o).mp hget
      exact absurd ⟨rfl, by rw [hcoin]; decide⟩ hkept

end Example

end HlOrderbook
