import HlOrderbook.BookRuns
import Std.Data.ExtTreeSet

/-!
# The order books of all coins

A sorted map from coins to books.  A book is created by the first order of its
coin and dropped when a removal or a change of size leaves it empty.  What is
resting where is read through `OrderBooks.find?`.

## Main definitions

* `OrderBooks O` and its operations.
* `OrderBooks.find?` — the order of a coin with an identifier.
-/

set_option autoImplicit false
set_option linter.unusedSectionVars false

namespace HlOrderbook

/-- What the values of a map are. -/
theorem mem_values_iff {α β : Type} {cmp : α → α → Ordering} [Std.TransCmp cmp]
    [Std.LawfulEqCmp cmp] (m : Std.ExtTreeMap α β cmp) {x : β} :
    x ∈ m.values ↔ ∃ k : α, m[k]? = some x := by
  have hvalues : m.values = m.toList.map Prod.snd := by
    obtain ⟨t⟩ := m
    induction t using Std.ExtDTreeMap.inductionOn with
    | mk t =>
      change t.inner.values = (Std.DTreeMap.Internal.Impl.Const.toList t.inner).map Prod.snd
      rw [Std.DTreeMap.Internal.Impl.values_eq_map_snd,
        Std.DTreeMap.Internal.Impl.Const.toList_eq_toListModel_map, List.map_map]
      rfl
  rw [hvalues, List.mem_map]
  constructor
  · rintro ⟨⟨k, y⟩, hmem, rfl⟩
    exact ⟨k, Std.ExtTreeMap.mem_toList_iff_getElem?_eq_some.mp hmem⟩
  · rintro ⟨k, hk⟩
    exact ⟨(k, x), Std.ExtTreeMap.mem_toList_iff_getElem?_eq_some.mpr hk, rfl⟩

/-- The snapshots of all coins. -/
abbrev Snapshots (O : Type) := Std.ExtTreeMap Coin (Snapshot O)

/-- The books of all coins. -/
structure OrderBooks (O : Type) [InnerOrder O] where
  orderBooks : Std.ExtTreeMap Coin (OrderBook O)

variable {O : Type} [InnerOrder O]

open InnerOrder

/-- Strip the orders waiting for their trigger from every snapshot. -/
def Snapshots.extractTriggers (s : Snapshots O) : Snapshots O × List O :=
  (s.map fun _ snapshot => snapshot.extractTriggers.1,
    s.values.flatMap fun snapshot => snapshot.extractTriggers.2)

namespace OrderBook

/-- Build a book by adding the bids, then the asks. -/
def fromSnapshot [SlabPolicy] (snapshot : Snapshot O) (ignoreTriggers : Bool) : OrderBook O :=
  ⟨RawBook.fromSnapshot snapshot ignoreTriggers, RawBook.Sound.fromSnapshot snapshot ignoreTriggers⟩

/-- Adding orders that do not trade with each other or with the book rests them. -/
theorem exists_addOrders [SlabPolicy] (orders : List O) (b : OrderBook O)
    (hnodup : (orders.map oid).Nodup) (hpos : ∀ o ∈ orders, 0 < sz o)
    (hfresh : ∀ o ∈ orders, b.find? (oid o) = none)
    (hbook : ∀ o ∈ orders, ∀ k x, b.find? k = some x → meets o x = false)
    (horders : ∀ o ∈ orders, ∀ o' ∈ orders, meets o o' = false) :
    ∃ b' : OrderBook O, b'.raw = orders.foldl RawBook.addOrder b.raw ∧
      ∀ k, b'.find? k = (b.find? k).or (orders.find? fun o => oid o = k) := by
  induction orders generalizing b with
  | nil => exact ⟨b, rfl, fun k => by simp⟩
  | cons o orders ih =>
    rw [List.map_cons, List.nodup_cons] at hnodup
    have hfind := addOrderBefore_unmet (hfresh o (by simp)) (hpos o (by simp))
      (hbook o (by simp)) none
    have hne : ∀ o' ∈ orders, oid o' ≠ oid o := fun o' ho' he =>
      hnodup.1 (he ▸ List.mem_map_of_mem ho')
    obtain ⟨b', hraw, hb'⟩ := ih (b.addOrderBefore o none).1 hnodup.2
      (fun o' ho' => hpos o' (List.mem_cons_of_mem _ ho')) (by
        intro o' ho'
        rw [hfind, Function.update_of_ne (hne o' ho')]
        exact hfresh o' (List.mem_cons_of_mem _ ho')) (by
        intro o' ho' k x hx
        rw [hfind] at hx
        by_cases hk : k = oid o
        · subst hk
          rw [Function.update_self, Option.some.injEq] at hx
          exact hx ▸ horders o' (List.mem_cons_of_mem _ ho') o (by simp)
        · rw [Function.update_of_ne hk] at hx
          exact hbook o' (List.mem_cons_of_mem _ ho') k x hx)
      fun o' ho' o'' ho'' => horders o' (List.mem_cons_of_mem _ ho') o'' (List.mem_cons_of_mem _ ho'')
    refine ⟨b', hraw, fun k => ?_⟩
    rw [hb', hfind, List.find?_cons]
    by_cases hk : k = oid o
    · subst hk
      simp [hfresh o (by simp)]
    · have hk' : ¬ oid o = k := fun h => hk h.symm
      simp [Function.update_of_ne hk, hk']

/-- **A book built from orders that do not trade with each other holds them.** -/
theorem find?_fromSnapshot [SlabPolicy] {s : Snapshot O} {ignoreTriggers : Bool}
    (hnodup : ((s.taken ignoreTriggers).map oid).Nodup)
    (hpos : ∀ o ∈ s.taken ignoreTriggers, 0 < sz o)
    (hunmet : ∀ o ∈ s.taken ignoreTriggers, ∀ o' ∈ s.taken ignoreTriggers, meets o o' = false)
    (k : ℕ) : (fromSnapshot s ignoreTriggers).find? k =
      (s.taken ignoreTriggers).find? fun o => oid o = k := by
  obtain ⟨b', hraw, hb'⟩ := exists_addOrders (s.taken ignoreTriggers) new hnodup hpos
    (fun _ _ => find?_new _) (fun _ _ k x hx => by simp at hx) hunmet
  have hbook : (fromSnapshot s ignoreTriggers).raw = b'.raw := by
    rw [hraw, Snapshot.taken, List.foldl_append]
    rfl
  rw [find?, hbook, ← find?, hb', find?_new, Option.none_or]

end OrderBook

namespace OrderBooks

/-- The number of orders of all coins. -/
def orderCount (bs : OrderBooks O) : ℕ := (bs.orderBooks.values.map OrderBook.orderCount).sum

/-- Build the book of every coin. -/
def fromSnapshots [SlabPolicy] (snapshots : Snapshots O) (ignoreTriggers : Bool) : OrderBooks O :=
  ⟨snapshots.map fun _ snapshot => OrderBook.fromSnapshot snapshot ignoreTriggers⟩

/-- Add an order to the book of its coin, which is created when there is none. -/
def addOrderBefore [SlabPolicy] (bs : OrderBooks O) (order : O) (insertBefore : Option ℕ) :
    OrderBooks O × Bool :=
  let book := (bs.orderBooks[coin order]?).getD OrderBook.new
  let (book, fellBack) := book.addOrderBefore order insertBefore
  (⟨bs.orderBooks.insert (coin order) book⟩, fellBack)

/-- Put a book back after an operation on it, or drop it when it is empty. -/
def putBack (bs : OrderBooks O) (coin : Coin) (book : OrderBook O) : OrderBooks O :=
  if book.orderCount = 0 then ⟨bs.orderBooks.erase coin⟩ else ⟨bs.orderBooks.insert coin book⟩

/-- Remove an order of a coin; `false` when it is not there. -/
def cancelOrder (bs : OrderBooks O) (oid : ℕ) (coin : Coin) : OrderBooks O × Bool :=
  match bs.orderBooks[coin]? with
  | none => (bs, false)
  | some book =>
    let (book, success) := book.cancelOrder oid
    (bs.putBack coin book, success)

/-- Change the size of an order of a coin; `false` when it is not there. -/
def modifySz (bs : OrderBooks O) (oid : ℕ) (coin : Coin) (newSz : ℕ) : OrderBooks O × Bool :=
  match bs.orderBooks[coin]? with
  | none => (bs, false)
  | some book =>
    let (book, success) := book.modifySz oid newSz
    (bs.putBack coin book, success)

/-- Compact every book and drop the empty ones; the answer counts the levels that
were rebuilt. -/
def compactAll [SlabPolicy] (bs : OrderBooks O) : OrderBooks O × ℕ :=
  (⟨(bs.orderBooks.map fun _ book => book.compact.1).filter fun _ book => book.orderCount > 0⟩,
    (bs.orderBooks.values.map fun book => book.compact.2).sum)

/-! ## What rests where -/

/-- The order of a coin with an identifier. -/
def find? (bs : OrderBooks O) (coin : Coin) (k : ℕ) : Option O :=
  bs.orderBooks[coin]?.bind fun book => book.find? k

/-- The book of a coin, empty when there is none. -/
def book (bs : OrderBooks O) (coin : Coin) : OrderBook O := (bs.orderBooks[coin]?).getD OrderBook.new

theorem find?_eq_book (bs : OrderBooks O) (coin : Coin) (k : ℕ) :
    bs.find? coin k = (bs.book coin).find? k := by
  rw [find?, book]
  cases bs.orderBooks[coin]? <;> simp

theorem valid (bs : OrderBooks O) (coin : Coin) : Valid (bs.find? coin) := by
  rw [show bs.find? coin = (bs.book coin).find? from funext (bs.find?_eq_book coin)]
  exact (bs.book coin).valid

theorem find?_fromSnapshots [SlabPolicy] (snapshots : Snapshots O) (ignoreTriggers : Bool)
    (c : Coin) (k : ℕ) : (fromSnapshots snapshots ignoreTriggers).find? c k =
      snapshots[c]?.bind fun s => (OrderBook.fromSnapshot s ignoreTriggers).find? k := by
  rw [find?, fromSnapshots, Std.ExtTreeMap.getElem?_map, Option.bind_map]
  rfl

theorem find?_insert (bs : OrderBooks O) (c : Coin) (book : OrderBook O) (coin : Coin) (k : ℕ) :
    (⟨bs.orderBooks.insert c book⟩ : OrderBooks O).find? coin k =
      if c = coin then book.find? k else bs.find? coin k := by
  by_cases hc : c = coin <;> simp [find?, Std.ExtTreeMap.getElem?_insert, hc]

theorem find?_putBack (bs : OrderBooks O) (c : Coin) (book : OrderBook O) (coin : Coin) (k : ℕ) :
    (bs.putBack c book).find? coin k = if c = coin then book.find? k else bs.find? coin k := by
  rw [putBack]
  split
  case isTrue h0 =>
    by_cases hc : c = coin
    · simp [find?, hc, (book.orderCount_eq_zero.mp h0) k]
    · simp [find?, Std.ExtTreeMap.getElem?_erase, hc]
  case isFalse h0 => exact find?_insert bs c book coin k

/-- Adding an order touches the book of its coin only. -/
theorem find?_addOrderBefore [SlabPolicy] (bs : OrderBooks O) (order : O) (anchor : Option ℕ)
    (c : Coin) (k : ℕ) : (bs.addOrderBefore order anchor).1.find? c k =
      if coin order = c then ((bs.book c).addOrderBefore order anchor).1.find? k
      else bs.find? c k := by
  rw [addOrderBefore, find?_insert]
  by_cases hc : coin order = c
  · subst hc
    rfl
  · simp [hc]

/-- Adding an order whose identifier rests under its coin changes nothing. -/
theorem find?_addOrderBefore_duplicate [SlabPolicy] {bs : OrderBooks O} {order : O}
    (h : (bs.find? (coin order) (oid order)).isSome) (anchor : Option ℕ) (c : Coin) (k : ℕ) :
    (bs.addOrderBefore order anchor).1.find? c k = bs.find? c k := by
  rw [find?_addOrderBefore]
  by_cases hc : coin order = c
  · subst hc
    rw [find?_eq_book] at h
    rw [if_pos rfl, OrderBook.addOrderBefore_duplicate h, find?_eq_book]
  · simp [hc]

/-- **Adding an order that is new to its coin, in general.** -/
theorem find?_addOrderBefore_matched [SlabPolicy] {bs : OrderBooks O} {order : O}
    (h : bs.find? (coin order) (oid order) = none) (anchor : Option ℕ) :
    ∃ g' taker', Matched (bs.find? (coin order)) order g' taker' ∧
      ∀ c k, (bs.addOrderBefore order anchor).1.find? c k =
        if coin order = c then
          (if sz taker' = 0 then g' else Function.update g' (oid order) (some taker')) k
        else bs.find? c k := by
  rw [find?_eq_book] at h
  obtain ⟨g', taker', hm, hfind⟩ := OrderBook.addOrderBefore_spec h anchor
  refine ⟨g', taker', ?_, ?_⟩
  · rwa [show bs.find? (coin order) = (bs.book (coin order)).find? from
      funext (bs.find?_eq_book _)]
  · intro c k
    rw [find?_addOrderBefore]
    by_cases hc : coin order = c
    · subst hc
      rw [if_pos rfl, if_pos rfl, hfind]
    · simp [hc]

theorem cancelOrder_snd (bs : OrderBooks O) (k : ℕ) (c : Coin) :
    (bs.cancelOrder k c).2 = (bs.find? c k).isSome := by
  rw [cancelOrder, find?]
  cases bs.orderBooks[c]? with
  | none => rfl
  | some book => exact (book.cancelOrder_spec k).2

/-- **Removing an order.** -/
theorem find?_cancelOrder (bs : OrderBooks O) (k : ℕ) (c : Coin) (c' : Coin) (k' : ℕ) :
    (bs.cancelOrder k c).1.find? c' k' =
      if c = c' ∧ k = k' then none else bs.find? c' k' := by
  rw [cancelOrder]
  cases hb : bs.orderBooks[c]? with
  | none =>
    by_cases hc : c = c'
    · subst hc
      simp [find?, hb]
    · simp [hc]
  | some book =>
    simp only [find?_putBack]
    by_cases hc : c = c'
    · subst hc
      rw [if_pos rfl, (book.cancelOrder_spec k).1]
      by_cases hk : k' = k
      · subst hk
        simp
      · have : ¬ k = k' := fun h => hk h.symm
        simp [Function.update_of_ne hk, this, find?, hb]
    · simp [hc]

theorem modifySz_snd (bs : OrderBooks O) (k : ℕ) (c : Coin) (newSz : ℕ) :
    (bs.modifySz k c newSz).2 = (bs.find? c k).isSome := by
  rw [modifySz, find?]
  cases bs.orderBooks[c]? with
  | none => rfl
  | some book => exact (book.modifySz_spec k newSz).2

/-- **Changing the size of an order.** -/
theorem find?_modifySz (bs : OrderBooks O) (k : ℕ) (c : Coin) (newSz : ℕ) (c' : Coin) (k' : ℕ) :
    (bs.modifySz k c newSz).1.find? c' k' =
      if c = c' ∧ k = k' then
        if newSz = 0 then none else (bs.find? c' k').map (InnerOrder.modifySz · newSz)
      else bs.find? c' k' := by
  rw [modifySz]
  cases hb : bs.orderBooks[c]? with
  | none =>
    by_cases hc : c = c'
    · subst hc
      simp [find?, hb]
    · simp [hc]
  | some book =>
    simp only [find?_putBack]
    by_cases hc : c = c'
    · subst hc
      rw [if_pos rfl, (book.modifySz_spec k newSz).1]
      by_cases hk : k' = k
      · subst hk
        simp [find?, hb]
      · have : ¬ k = k' := fun h => hk h.symm
        simp [Function.update_of_ne hk, this, find?, hb]
    · simp [hc]

theorem find?_compactAll [SlabPolicy] (bs : OrderBooks O) (c : Coin) (k : ℕ) :
    bs.compactAll.1.find? c k = bs.find? c k := by
  have hget : bs.compactAll.1.orderBooks[c]? =
      (bs.orderBooks[c]?.map fun book => book.compact.1).filter fun book => book.orderCount > 0 := by
    rw [compactAll, Std.ExtTreeMap.getElem?_filter', Std.ExtTreeMap.getElem?_map]
  rw [find?, hget, find?]
  cases bs.orderBooks[c]? with
  | none => rfl
  | some book =>
    by_cases h0 : book.compact.1.orderCount = 0
    · have hnone := book.compact.1.orderCount_eq_zero.mp h0 k
      rw [OrderBook.find?_compact] at hnone
      simp [Option.filter, h0, hnone]
    · have hpos : book.compact.1.orderCount > 0 := by omega
      simp [Option.filter, hpos]

end OrderBooks

/-! ## What an added order can bring -/

section Added

variable [SlabPolicy]

/-- What rests after an order is added rested before, or is that order. -/
theorem OrderBook.rests_addOrderBefore {b : OrderBook O} {order : O} {anchor : Option ℕ} {k : ℕ}
    (h : (b.addOrderBefore order anchor).1.find? k ≠ none) : b.find? k ≠ none ∨ k = oid order := by
  by_cases hk : k = oid order
  · exact Or.inr hk
  refine Or.inl fun hnone => h ?_
  cases hown : b.find? (oid order) with
  | some o => rwa [addOrderBefore_duplicate (by rw [hown]; rfl)]
  | none =>
    obtain ⟨g', taker', hm, hfind⟩ := addOrderBefore_spec hown anchor
    rw [hfind]
    split
    · exact hm.none k hnone
    · rw [Function.update_of_ne hk]
      exact hm.none k hnone

/-- What rests in a book built from a snapshot is an order of the snapshot. -/
theorem OrderBook.rests_fromSnapshot {s : Snapshot O} {ignoreTriggers : Bool} {k : ℕ}
    (h : (fromSnapshot s ignoreTriggers).find? k ≠ none) :
    k ∈ (s.taken ignoreTriggers).map oid := by
  have key : ∀ (orders : List O) (b : OrderBook O), ∃ b' : OrderBook O,
      b'.raw = orders.foldl RawBook.addOrder b.raw ∧
        ∀ k, b'.find? k ≠ none → b.find? k ≠ none ∨ k ∈ orders.map oid := by
    intro orders
    induction orders with
    | nil => exact fun b => ⟨b, rfl, fun k hk => Or.inl hk⟩
    | cons o orders ih =>
      intro b
      obtain ⟨b', hraw, hb'⟩ := ih (b.addOrderBefore o none).1
      refine ⟨b', hraw, fun k hk => ?_⟩
      rcases hb' k hk with hadded | hmem
      · rcases rests_addOrderBefore hadded with hb | rfl
        · exact Or.inl hb
        · exact Or.inr List.mem_cons_self
      · exact Or.inr (List.mem_cons_of_mem _ hmem)
  obtain ⟨b', hraw, hb'⟩ := key (s.taken ignoreTriggers) new
  have hbook : (fromSnapshot s ignoreTriggers).raw = b'.raw := by
    rw [hraw, Snapshot.taken, List.foldl_append]
    rfl
  rw [find?, hbook, ← find?] at h
  rcases hb' k h with hnew | hmem
  · exact absurd (find?_new k) hnew
  · exact hmem

/-- Adding an order to the books of all coins brings that order at most. -/
theorem OrderBooks.rests_addOrderBefore {bs : OrderBooks O} {order : O} {anchor : Option ℕ}
    {c : Coin} {k : ℕ} (h : (bs.addOrderBefore order anchor).1.find? c k ≠ none) :
    bs.find? c k ≠ none ∨ k = oid order := by
  rw [find?_addOrderBefore] at h
  split at h
  case isTrue hc =>
    rw [find?_eq_book]
    subst hc
    exact OrderBook.rests_addOrderBefore h
  case isFalse => exact Or.inl h

end Added

end HlOrderbook
