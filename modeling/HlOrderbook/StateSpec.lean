import HlOrderbook.State

/-!
# What the operations of the state do

One lemma for each operation of `OrderBookState`, about what rests where and
about the pending halves; later modules unfold none of the operations.

## Main definitions

* `OrderBookState.resting` — the side, price and size an order rests with.
-/

set_option autoImplicit false
set_option linter.unusedSectionVars false

namespace HlOrderbook

/-! ## Quotes -/

/-- A book as a map from coins and identifiers to sides, prices and sizes. -/
abbrev QuoteBook := Coin → ℕ → Option (Side × ℕ × ℕ)

/-- Whether an order at one place would trade with a resting one at another. -/
def placesCross (taker maker : Side × ℕ) : Bool :=
  maker.1 = taker.1.opposite && crosses taker.1 taker.2 maker.2

namespace QuoteBook

/-- The side and price of a quote. -/
abbrev place (q : Side × ℕ × ℕ) : Side × ℕ := (q.1, q.2.1)

/-- No bid of a coin is at or above an ask. -/
def Uncrossed (L : QuoteBook) : Prop :=
  ∀ c j k p q sz sz', L c j = some (.bid, p, sz) → L c k = some (.ask, q, sz') → p < q

/-- Two orders of an uncrossed book do not trade. -/
theorem Uncrossed.unmet {L : QuoteBook} (h : L.Uncrossed) {c : Coin} {j k : ℕ}
    {x y : Side × ℕ × ℕ} (hj : L c j = some x) (hk : L c k = some y) :
    placesCross (place x) (place y) = false := by
  obtain ⟨side, p, sz⟩ := x
  obtain ⟨side', q, sz'⟩ := y
  simp only [placesCross, Bool.and_eq_false_iff, decide_eq_false_iff_not]
  cases side with
  | ask =>
    cases side' with
    | ask => exact Or.inl (by simp [Side.opposite])
    | bid =>
      have := h c k j _ _ _ _ hk hj
      exact Or.inr (by simpa [crosses] using this)
  | bid =>
    cases side' with
    | ask =>
      have := h c j k _ _ _ _ hj hk
      exact Or.inr (by simpa [crosses] using this)
    | bid => exact Or.inl (by simp [Side.opposite])

/-- Enter a quote. -/
def put (L : QuoteBook) (c : Coin) (k : ℕ) (q : Side × ℕ × ℕ) : QuoteBook :=
  fun c' k' => if c = c' ∧ k = k' then some q else L c' k'

/-- Change the size of a quote, or drop it. -/
def resize (L : QuoteBook) (c : Coin) (k : ℕ) (r : Option ℕ) : QuoteBook :=
  fun c' k' =>
    if c = c' ∧ k = k' then (L c' k').bind fun q => r.map fun sz => (q.1, q.2.1, sz) else L c' k'

section Lookup

variable {L : QuoteBook} {c c' : Coin} {k k' : ℕ}

@[simp] theorem put_self (L : QuoteBook) (c : Coin) (k : ℕ) (q : Side × ℕ × ℕ) :
    L.put c k q c k = some q := if_pos ⟨rfl, rfl⟩

theorem put_other (h : ¬ (c = c' ∧ k = k')) (q : Side × ℕ × ℕ) : L.put c k q c' k' = L c' k' :=
  if_neg h

@[simp] theorem resize_self (L : QuoteBook) (c : Coin) (k : ℕ) (r : Option ℕ) :
    L.resize c k r c k = (L c k).bind fun q => r.map fun sz => (q.1, q.2.1, sz) :=
  if_pos ⟨rfl, rfl⟩

theorem resize_other (h : ¬ (c = c' ∧ k = k')) (r : Option ℕ) : L.resize c k r c' k' = L c' k' :=
  if_neg h

theorem resize_eq_some {r : Option ℕ} {q' : Side × ℕ × ℕ} (h : L.resize c k r c k = some q') :
    ∃ q sz, L c k = some q ∧ r = some sz ∧ q' = (q.1, q.2.1, sz) := by
  simp only [resize_self, Option.bind_eq_some_iff, Option.map_eq_some_iff] at h
  obtain ⟨q, hq, sz, hsz, rfl⟩ := h
  exact ⟨q, sz, hq, hsz, rfl⟩

end Lookup

/-- What resting an order that is new to its coin does: no other coin changes, the
orders it does not meet stay, those it meets keep their place, and all of it rests
when it meets none. -/
structure Rested (R : QuoteBook) (c : Coin) (k : ℕ) (q : Side × ℕ × ℕ) (R' : QuoteBook) :
    Prop where
  frame : ∀ c', c' ≠ c → R' c' = R c'
  none : ∀ j, j ≠ k → R c j = .none → R' c j = .none
  unmet : ∀ j x, j ≠ k → R c j = some x → placesCross (place q) (place x) = false → R' c j = some x
  met : ∀ j x y, j ≠ k → R c j = some x → R' c j = some y → place y = place x
  taker : ∀ y, R' c k = some y → place y = place q
  idle : (∀ j x, R c j = some x → placesCross (place q) (place x) = false) → R' = R.put c k q

end QuoteBook

variable [SlabPolicy] [FixedPoint]

/-- The side, price and size of an order. -/
def InnerL4Order.quote (o : InnerL4Order) : Side × ℕ × ℕ := (o.side, o.limitPx, o.sz)

theorem meets_eq_placesCross (taker o : InnerL4Order) :
    meets taker o = placesCross (taker.side, taker.limitPx) (QuoteBook.place o.quote) := rfl

namespace OrderBookState

/-- The side, price and size an order of a coin rests with. -/
def resting (s : OrderBookState) : QuoteBook :=
  fun c k => (s.orderBook.find? c k).map InnerL4Order.quote

theorem resting_eq_none {s : OrderBookState} {c : Coin} {k : ℕ} :
    s.resting c k = none ↔ s.orderBook.find? c k = none := by
  simp [resting]

theorem resting_positive {s : OrderBookState} {c : Coin} {k px sz : ℕ} {side : Side}
    (h : s.resting c k = some (side, px, sz)) : 0 < sz := by
  obtain ⟨o, ho, he⟩ := Option.map_eq_some_iff.mp h
  cases he
  exact (s.orderBook.valid c).positive ho

/-! ## Fields an operation does not touch -/

section Frame

variable (s : OrderBookState) (status : NodeDataOrderStatus) (height time : ℕ)

theorem trackStatus_eq :
    ∃ table, s.trackStatus status = { s with untriggeredOrders := table } := by
  unfold trackStatus
  split
  · exact ⟨_, rfl⟩
  · split
    · split
      · split <;> exact ⟨_, rfl⟩
      · exact ⟨_, rfl⟩
    · split
      · exact ⟨_, rfl⟩
      · split <;> exact ⟨_, rfl⟩

@[simp] theorem orderBook_trackStatus : (s.trackStatus status).orderBook = s.orderBook := by
  obtain ⟨table, h⟩ := s.trackStatus_eq status
  rw [h]

@[simp] theorem pendingOrderStatuses_trackStatus :
    (s.trackStatus status).pendingOrderStatuses = s.pendingOrderStatuses := by
  obtain ⟨table, h⟩ := s.trackStatus_eq status
  rw [h]

@[simp] theorem pendingNewDiffs_trackStatus :
    (s.trackStatus status).pendingNewDiffs = s.pendingNewDiffs := by
  obtain ⟨table, h⟩ := s.trackStatus_eq status
  rw [h]

@[simp] theorem zeroedSet_trackStatus : (s.trackStatus status).zeroedSet = s.zeroedSet := by
  obtain ⟨table, h⟩ := s.trackStatus_eq status
  rw [h]

@[simp] theorem ignoreSpot_trackStatus : (s.trackStatus status).ignoreSpot = s.ignoreSpot := by
  obtain ⟨table, h⟩ := s.trackStatus_eq status
  rw [h]

@[simp] theorem orderBook_advance : (s.advance height time).orderBook = s.orderBook := by
  unfold advance; split <;> rfl

@[simp] theorem pendingOrderStatuses_advance :
    (s.advance height time).pendingOrderStatuses = s.pendingOrderStatuses := by
  unfold advance; split <;> rfl

@[simp] theorem pendingNewDiffs_advance :
    (s.advance height time).pendingNewDiffs = s.pendingNewDiffs := by
  unfold advance; split <;> rfl

@[simp] theorem zeroedSet_advance : (s.advance height time).zeroedSet = s.zeroedSet := by
  unfold advance; split <;> rfl

@[simp] theorem ignoreSpot_advance : (s.advance height time).ignoreSpot = s.ignoreSpot := by
  unfold advance; split <;> rfl

theorem mem_zeroedSet_of_forgetZeroed {k : ℕ} (h : k ∈ (s.forgetZeroed height).zeroedSet) :
    k ∈ s.zeroedSet := by
  have key : ∀ (xs : List (ℕ × ℕ)) (set : Std.ExtTreeSet ℕ),
      k ∈ xs.foldl (fun set x => set.erase x.2) set → k ∈ set := by
    intro xs
    induction xs with
    | nil => exact fun _ h => h
    | cons x xs ih =>
      intro set h
      exact (Std.ExtTreeSet.mem_erase.mp (ih _ h)).2
  exact key _ _ h

variable (inner : InnerL4Order) (sz : ℕ) (anchor : Option ℕ) (ts : ℕ)

theorem restPaired_eq : ∃ n, s.restPaired inner sz anchor ts =
    { s with
      orderBook := (s.orderBook.addOrderBefore ((inner.modifySz sz).convertTrigger ts) anchor).1
      insertBeforeFallbacks := n } := by
  unfold restPaired
  simp only
  split <;> exact ⟨_, rfl⟩

@[simp] theorem orderBook_restPaired : (s.restPaired inner sz anchor ts).orderBook =
    (s.orderBook.addOrderBefore ((inner.modifySz sz).convertTrigger ts) anchor).1 := by
  obtain ⟨n, h⟩ := s.restPaired_eq inner sz anchor ts
  rw [h]

@[simp] theorem pendingOrderStatuses_restPaired :
    (s.restPaired inner sz anchor ts).pendingOrderStatuses = s.pendingOrderStatuses := by
  obtain ⟨n, h⟩ := s.restPaired_eq inner sz anchor ts
  rw [h]

@[simp] theorem pendingNewDiffs_restPaired :
    (s.restPaired inner sz anchor ts).pendingNewDiffs = s.pendingNewDiffs := by
  obtain ⟨n, h⟩ := s.restPaired_eq inner sz anchor ts
  rw [h]

@[simp] theorem zeroedSet_restPaired :
    (s.restPaired inner sz anchor ts).zeroedSet = s.zeroedSet := by
  obtain ⟨n, h⟩ := s.restPaired_eq inner sz anchor ts
  rw [h]

@[simp] theorem ignoreSpot_restPaired :
    (s.restPaired inner sz anchor ts).ignoreSpot = s.ignoreSpot := by
  obtain ⟨n, h⟩ := s.restPaired_eq inner sz anchor ts
  rw [h]

end Frame

/-! ## Resizing an order -/

section Resize

variable (s : OrderBookState) (k : ℕ) (c : Coin)

/-- **Changing the size of an order resizes its quote.** -/
theorem resting_modifySz (newSz : ℕ) :
    { s with orderBook := (s.orderBook.modifySz k c newSz).1 }.resting =
      s.resting.resize c k (if newSz = 0 then none else some newSz) := by
  funext c' k'
  simp only [resting, QuoteBook.resize, OrderBooks.find?_modifySz]
  by_cases hck : c = c' ∧ k = k'
  · by_cases h0 : newSz = 0
    · cases s.orderBook.find? c' k' <;> simp [hck, h0]
    · cases s.orderBook.find? c' k' with
      | none => simp [hck, h0]
      | some o =>
        simp only [hck, h0, and_self, if_true, if_false, Option.map_some, Option.bind_some]
        rfl
  · simp [hck]

/-- **Removing an order drops its quote.** -/
theorem resting_cancelOrder :
    { s with orderBook := (s.orderBook.cancelOrder k c).1 }.resting =
      s.resting.resize c k none := by
  funext c' k'
  simp only [resting, QuoteBook.resize, OrderBooks.find?_cancelOrder]
  by_cases hck : c = c' ∧ k = k'
  · cases s.orderBook.find? c' k' <;> simp [hck]
  · simp [hck]

end Resize

/-! ## Resting a paired order -/

section RestPaired

variable {s : OrderBookState} {inner : InnerL4Order} {sz : ℕ}

theorem quote_paired (inner : InnerL4Order) (sz ts : ℕ) :
    ((inner.modifySz sz).convertTrigger ts).quote = (inner.side, inner.limitPx, sz) := by
  simp [InnerL4Order.quote, InnerL4Order.modifySz]

/-- Resting an order whose identifier rests under its coin changes nothing. -/
theorem resting_restPaired_duplicate (h : (s.resting inner.coin inner.oid).isSome)
    (anchor : Option ℕ) (ts : ℕ) : (s.restPaired inner sz anchor ts).resting = s.resting := by
  funext c k
  simp only [resting, orderBook_restPaired]
  rw [OrderBooks.find?_addOrderBefore_duplicate]
  have hcoin : InnerOrder.coin ((inner.modifySz sz).convertTrigger ts) = inner.coin :=
    InnerL4Order.coin_convertTrigger _ _
  have hoid : InnerOrder.oid ((inner.modifySz sz).convertTrigger ts) = inner.oid :=
    InnerL4Order.oid_convertTrigger _ _
  rw [hcoin, hoid]
  simpa [resting] using h

/-- **Resting a paired order that is new to its coin.** -/
theorem rested_restPaired (h : s.resting inner.coin inner.oid = none) (hpos : 0 < sz)
    (anchor : Option ℕ) (ts : ℕ) :
    QuoteBook.Rested s.resting inner.coin inner.oid (inner.side, inner.limitPx, sz)
      (s.restPaired inner sz anchor ts).resting := by
  set order := (inner.modifySz sz).convertTrigger ts with horder
  have hcoin : InnerOrder.coin order = inner.coin := InnerL4Order.coin_convertTrigger _ _
  have hoid : InnerOrder.oid order = inner.oid := InnerL4Order.oid_convertTrigger _ _
  have hsz : InnerOrder.sz order = sz := InnerL4Order.sz_convertTrigger _ _
  have hquote : order.quote = (inner.side, inner.limitPx, sz) := quote_paired inner sz ts
  have hmeets : ∀ o, meets order o =
      placesCross (inner.side, inner.limitPx) (QuoteBook.place o.quote) := by
    intro o
    rw [meets_eq_placesCross, show order.side = inner.side from congrArg (·.1) hquote,
      show order.limitPx = inner.limitPx from congrArg (·.2.1) hquote]
  have hfree : s.orderBook.find? (InnerOrder.coin order) (InnerOrder.oid order) = none := by
    rw [hcoin, hoid]
    exact resting_eq_none.mp h
  obtain ⟨g', taker', hm, hfind⟩ := OrderBooks.find?_addOrderBefore_matched hfree anchor
  rw [hcoin] at hm
  have hrest : ∀ c k, (s.restPaired inner sz anchor ts).resting c k = if inner.coin = c then
      ((if InnerOrder.sz taker' = 0 then g' else Function.update g' inner.oid (some taker')) k).map
        InnerL4Order.quote else s.resting c k := by
    intro c k
    rw [resting, orderBook_restPaired, ← horder, hfind, hcoin, hoid]
    split <;> rfl
  have hother : ∀ j, j ≠ inner.oid → (s.restPaired inner sz anchor ts).resting inner.coin j =
      (g' j).map InnerL4Order.quote := by
    intro j hj
    rw [hrest, if_pos rfl]
    split
    · rfl
    · rw [Function.update_of_ne hj]
  have hresting : ∀ {j x}, s.resting inner.coin j = some x →
      ∃ o, s.orderBook.find? inner.coin j = some o ∧ o.quote = x :=
    fun hj => Option.map_eq_some_iff.mp hj
  have hunmet : ∀ j x, j ≠ inner.oid → s.resting inner.coin j = some x →
      placesCross (inner.side, inner.limitPx) (QuoteBook.place x) = false →
      (s.restPaired inner sz anchor ts).resting inner.coin j = some x := by
    intro j x hj hx hc
    obtain ⟨o, ho, rfl⟩ := hresting hx
    rw [hother j hj, hm.unmet j o ho ((hmeets o).trans hc)]
    rfl
  refine ⟨?_, ?_, hunmet, ?_, ?_, ?_⟩
  · intro c' hc
    funext k
    rw [hrest, if_neg hc.symm]
  · intro j hj hx
    rw [hother j hj, hm.none j (resting_eq_none.mp hx)]
    rfl
  · intro j x y hj hx hy
    obtain ⟨o, ho, rfl⟩ := hresting hx
    rw [hother j hj] at hy
    rcases hm.met j o ho with hgone | ⟨sz', -, -, hless⟩
    · rw [hgone] at hy
      cases hy
    · rw [hless] at hy
      cases hy
      rfl
  · intro y hy
    rw [hrest, if_pos rfl] at hy
    split at hy
    · rw [hm.none _ (resting_eq_none.mp h)] at hy
      cases hy
    · rw [Function.update_self, hm.taker_eq, Option.map_some, Option.some.injEq] at hy
      have hplace : QuoteBook.place order.quote = (inner.side, inner.limitPx) :=
        congrArg QuoteBook.place hquote
      rw [← hy]
      exact hplace
  · intro hidle
    obtain ⟨rfl, rfl⟩ := hm.eq_of_unmet fun k o ho =>
      (hmeets o).trans (hidle k o.quote (by simp [resting, ho]))
    have hne : InnerOrder.sz order ≠ 0 := by omega
    funext c k
    rw [hrest, QuoteBook.put, if_neg hne]
    by_cases hc : inner.coin = c
    · subst hc
      by_cases hk : inner.oid = k
      · subst hk
        simp [hquote]
      · rw [if_pos rfl, Function.update_of_ne fun hx => hk hx.symm]
        simp [hk, resting]
    · simp [hc]

/-- **An order that is new to its coin and meets no order there rests with the
size of its diff.** -/
theorem resting_restPaired (h : s.resting inner.coin inner.oid = none) (hpos : 0 < sz)
    (hunmet : ∀ k x, s.resting inner.coin k = some x →
      placesCross (inner.side, inner.limitPx) (QuoteBook.place x) = false)
    (anchor : Option ℕ) (ts : ℕ) (c : Coin) (k : ℕ) :
    (s.restPaired inner sz anchor ts).resting c k =
      if inner.coin = c ∧ inner.oid = k then some (inner.side, inner.limitPx, sz)
      else s.resting c k := by
  rw [(rested_restPaired h hpos anchor ts).idle hunmet, QuoteBook.put]

end RestPaired

/-! ## The pending halves -/

section Pending

variable (s : OrderBookState)

theorem applyDiffToPendingNew_eq (k : ℕ) (newSz : Option ℕ) :
    ∃ m, s.applyDiffToPendingNew k newSz = { s with pendingNewDiffs := m } := by
  unfold applyDiffToPendingNew
  split
  · exact ⟨_, rfl⟩
  · split
    · split <;> exact ⟨_, rfl⟩
    · exact ⟨_, rfl⟩

/-- What carrying a diff over does to the diff that waits. -/
theorem getElem?_applyDiffToPendingNew (j : ℕ) (newSz : Option ℕ) (k : ℕ) :
    (s.applyDiffToPendingNew j newSz).pendingNewDiffs[k]? =
      if j = k then (s.pendingNewDiffs[k]?).bind fun p => (newSz.filter (0 < ·)).map fun sz =>
        { p with sz }
      else s.pendingNewDiffs[k]? := by
  unfold applyDiffToPendingNew
  by_cases hk : j = k
  · subst hk
    rw [if_pos rfl]
    split
    case h_1 h => simp [h]
    case h_2 pending h =>
      cases newSz with
      | none => simp [h]
      | some sz => by_cases hpos : 0 < sz <;> simp [hpos, h, Option.filter]
  · rw [if_neg hk]
    split
    · rfl
    · cases newSz with
      | none => simp [Std.ExtTreeMap.getElem?_erase, hk]
      | some sz =>
        by_cases hpos : 0 < sz <;>
          simp [hpos, Std.ExtTreeMap.getElem?_erase, Std.ExtTreeMap.getElem?_insert, hk]

/-- An update or a removal changes the size of the diff that waits, or drops it. -/
theorem pendingNewDiffs_applyDiffToPendingNew (k : ℕ) (newSz : Option ℕ) (j : ℕ) :
    ((s.applyDiffToPendingNew k newSz).pendingNewDiffs[j]?).map PendingNew.sz =
      if k = j then (s.pendingNewDiffs[j]?).bind fun _ => newSz.filter (0 < ·)
      else (s.pendingNewDiffs[j]?).map PendingNew.sz := by
  rw [getElem?_applyDiffToPendingNew]
  split
  · cases s.pendingNewDiffs[j]? with
    | none => rfl
    | some p => cases newSz.filter (0 < ·) <;> rfl
  · rfl

theorem noteZeroed_eq (height k : ℕ) : ∃ q set, s.noteZeroed height k =
    { s with zeroedRecently := q, zeroedSet := set } := by
  unfold noteZeroed
  split <;> exact ⟨_, _, rfl⟩

theorem mem_zeroedSet_noteZeroed {height k j : ℕ} :
    j ∈ (s.noteZeroed height k).zeroedSet ↔ j = k ∨ j ∈ s.zeroedSet := by
  unfold noteZeroed
  split
  case isTrue h =>
    have : k ∈ s.zeroedSet := h
    constructor
    · exact Or.inr
    · rintro (rfl | hj)
      · exact this
      · exact hj
  case isFalse h =>
    simp only [Std.ExtTreeSet.mem_insert, Std.compare_eq_iff_eq]
    rw [eq_comm]

end Pending

/-! ## Batches -/

/-- **The batch rule.**  A property of the events consumed so far and the state,
kept by every event of the batch, holds at its end, and no event fails. -/
theorem applyAll_ok {E : Type}
    (apply : OrderBookState → E → OrderBookState × Except Failure (List Coin))
    (P : List E → OrderBookState → Prop) (todo : List E) {D : List E} {s : OrderBookState}
    (changed : Std.ExtTreeSet Coin) (h : P D s)
    (hstep : ∀ pre e post s, D ++ todo = pre ++ e :: post → P pre s →
      ∃ s' coins, apply s e = (s', .ok coins) ∧ P (pre ++ [e]) s') :
    ∃ s' changed', applyAll apply todo s changed = (s', .ok changed') ∧ P (D ++ todo) s' := by
  induction todo generalizing D s changed with
  | nil => exact ⟨s, changed, rfl, by simpa using h⟩
  | cons e todo ih =>
    obtain ⟨s₁, coins, h₁, hP⟩ := hstep D e todo s rfl h
    obtain ⟨s', changed', h', hP'⟩ := ih (changed.insertMany coins) hP (by simpa using hstep)
    refine ⟨s', changed', ?_, by simpa using hP'⟩
    simp only [applyAll, h₁, h']

end OrderBookState

end HlOrderbook
