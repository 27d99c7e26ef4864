import HlOrderbook.Panics
import HlOrderbook.Outcomes

/-!
# Orders waiting for their trigger

An order waiting for its trigger is in a table beside the books and is not to rest in one.
The table and the books are fed separately: the table from the two places a snapshot
names such orders in, from the statuses, and from the previous state; the books from the
snapshot and from pairing a status with its diff.  No branch that feeds the one looks at
the other, and a status is paired with any diff that waits for it, even where the status
says that the order waits for its trigger.

## Main definitions

* `OrderBookState.InTable`, `OrderBookState.Rests`, `OrderBookState.Apart`.
* `StateCall.KeepsApart` — no branch of a call feeds the one what is in the other.

## Main results

* `apart_of_keepsApart`.
-/

set_option autoImplicit false
set_option linter.unusedSectionVars false

namespace HlOrderbook

open InnerOrder

variable [SlabPolicy] [FixedPoint]

namespace OrderBookState

/-! ## The table and the books -/

/-- An order with the identifier waits for its trigger. -/
def InTable (s : OrderBookState) (k : ℕ) : Prop :=
  ∃ x ∈ s.untriggeredOrders.toList, k ∈ x.2

/-- An order with the identifier rests, under any coin. -/
def Rests (s : OrderBookState) (k : ℕ) : Prop :=
  ∃ x ∈ s.orderBook.orderBooks.toList, x.2.find? k ≠ none

instance (s : OrderBookState) (k : ℕ) : Decidable (s.InTable k) :=
  inferInstanceAs (Decidable (∃ x ∈ s.untriggeredOrders.toList, k ∈ x.2))

instance (s : OrderBookState) (k : ℕ) : Decidable (s.Rests k) :=
  inferInstanceAs (Decidable (∃ x ∈ s.orderBook.orderBooks.toList, x.2.find? k ≠ none))

/-- **No identifier is in the table and in a book.** -/
def Apart (s : OrderBookState) : Prop := ∀ k, s.InTable k → ¬ s.Rests k

variable {s s' : OrderBookState} {k : ℕ}

theorem inTable_iff :
    s.InTable k ↔ ∃ (c : Coin) (orders : _), s.untriggeredOrders[c]? = some orders ∧ k ∈ orders := by
  simp only [InTable, Prod.exists, Std.ExtTreeMap.mem_toList_iff_getElem?_eq_some]

theorem rests_iff : s.Rests k ↔ ∃ c, s.orderBook.find? c k ≠ none := by
  simp only [Rests, Prod.exists, Std.ExtTreeMap.mem_toList_iff_getElem?_eq_some, OrderBooks.find?]
  refine exists_congr fun c => ?_
  cases s.orderBook.orderBooks[c]? <;> simp

theorem Apart.of_imp (h : s.Apart) (htable : ∀ k, s'.InTable k → s.InTable k)
    (hrests : ∀ k, s'.Rests k → s.Rests k) : s'.Apart :=
  fun k hk hr => h k (htable k hk) (hrests k hr)

theorem Apart.of_eq (h : s.Apart) (htable : s'.untriggeredOrders = s.untriggeredOrders)
    (hbook : s'.orderBook = s.orderBook) : s'.Apart := by
  refine h.of_imp (fun k => ?_) (fun k => ?_)
  · rw [InTable, InTable, htable]
    exact id
  · rw [Rests, Rests, hbook]
    exact id

/-! ## Changes of the table -/

section Table

variable {table : Std.ExtTreeMap Coin (Std.ExtTreeMap ℕ InnerL4Order)} {order : InnerL4Order}

/-- What a table holds after an order is entered it held before, or is that order. -/
theorem of_mem_insertUntriggered {c : Coin} {orders : Std.ExtTreeMap ℕ InnerL4Order}
    (h : (insertUntriggered table order)[c]? = some orders) (hk : k ∈ orders) :
    (∃ orders', table[c]? = some orders' ∧ k ∈ orders') ∨ k = order.oid := by
  rw [insertUntriggered, Std.ExtTreeMap.getElem?_insert] at h
  split at h
  case isFalse => exact Or.inl ⟨orders, h, hk⟩
  case isTrue hc =>
    cases h
    rw [Std.compare_eq_iff_eq] at hc
    subst hc
    rw [Std.ExtTreeMap.mem_insert, Std.compare_eq_iff_eq] at hk
    rcases hk with rfl | hk
    · exact Or.inr rfl
    · cases hget : table[order.coin]? with
      | none => simp [hget] at hk
      | some orders => exact Or.inl ⟨orders, rfl, by simpa [hget] using hk⟩

/-- What a table holds after orders are entered it held before, or is one of them. -/
theorem of_mem_foldl_insertUntriggered {added : List InnerL4Order} {c : Coin}
    {orders : Std.ExtTreeMap ℕ InnerL4Order}
    (h : (added.foldl insertUntriggered table)[c]? = some orders) (hk : k ∈ orders) :
    (∃ orders', table[c]? = some orders' ∧ k ∈ orders') ∨ ∃ o ∈ added, k = o.oid := by
  induction added generalizing table with
  | nil => exact Or.inl ⟨orders, h, hk⟩
  | cons o added ih =>
    rcases ih h with ⟨orders', h', hk'⟩ | ⟨o', ho', rfl⟩
    · rcases of_mem_insertUntriggered h' hk' with hbefore | rfl
      · exact Or.inl hbefore
      · exact Or.inr ⟨o, List.mem_cons_self, rfl⟩
    · exact Or.inr ⟨o', List.mem_cons_of_mem _ ho', rfl⟩

end Table

/-- The status enters its order into the table. -/
def enters (s : OrderBookState) (st : NodeDataOrderStatus) : Bool :=
  s.trackUntriggered && st.status == "open" && st.order.isTrigger &&
    !(s.ignoreSpot && st.order.coin.isSpot) && (InnerL4Order.tryFrom st.user st.order).isSome

/-- **What is in the table after a status** was there before, or the status entered it. -/
theorem inTable_trackStatus {st : NodeDataOrderStatus} (h : (s.trackStatus st).InTable k) :
    s.InTable k ∨ (s.enters st = true ∧ k = st.order.oid) := by
  rw [trackStatus] at h
  split at h
  · exact Or.inl h
  split at h
  · split at h
    · split at h
      case h_1 hentered inner hinner =>
        rw [inTable_iff] at h
        obtain ⟨c, orders, hc, hk⟩ := h
        rcases of_mem_insertUntriggered hc hk with ⟨orders', h', hk'⟩ | rfl
        · exact Or.inl (inTable_iff.mpr ⟨c, orders', h', hk'⟩)
        · refine Or.inr ⟨?_, (InnerL4Order.tryFrom_eq_some hinner).2.2.1⟩
          simp_all [enters]
      · exact Or.inl h
    · exact Or.inl h
  · split at h
    · exact Or.inl h
    · next coinOrders hcoin =>
      split at h
      case isFalse => exact Or.inl h
      case isTrue hmem =>
        refine Or.inl (inTable_iff.mpr ?_)
        rw [inTable_iff] at h
        obtain ⟨c, orders, hc, hk⟩ := h
        simp only at hc
        split at hc
        · rw [Std.ExtTreeMap.getElem?_erase] at hc
          split at hc
          · cases hc
          · exact ⟨c, orders, hc, hk⟩
        · rw [Std.ExtTreeMap.getElem?_insert] at hc
          split at hc
          case isFalse => exact ⟨c, orders, hc, hk⟩
          case isTrue hcoin' =>
            cases hc
            exact ⟨st.order.coin, coinOrders, hcoin, (Std.ExtTreeMap.mem_erase.mp hk).2⟩

/-! ## One event -/

/-- A status enters no order that rests, and is paired with no diff while its order is in
the table. -/
structure StatusKeepsApart (s : OrderBookState) (st : NodeDataOrderStatus) : Prop where
  entry : s.enters st = true → ¬ s.Rests st.order.oid
  pairing : (s.pendingNewDiffs[st.order.oid]?).isSome = true →
    (InnerL4Order.tryFrom st.user st.order).isSome = true →
      ¬ (s.trackStatus st).InTable st.order.oid

/-- A diff is paired with no status whose order is in the table. -/
def DiffKeepsApart (s : OrderBookState) (d : NodeDataOrderDiff) : Prop :=
  ∀ st ∈ s.pairsWith d, (InnerL4Order.tryFrom st.user st.order).isSome = true →
    ¬ s.InTable st.order.oid

instance (s : OrderBookState) (st : NodeDataOrderStatus) : Decidable (StatusKeepsApart s st) :=
  decidable_of_iff _ ⟨fun h => ⟨h.1, h.2⟩, fun h => And.intro h.1 h.2⟩

instance (s : OrderBookState) (d : NodeDataOrderDiff) : Decidable (DiffKeepsApart s d) :=
  inferInstanceAs (Decidable (∀ st ∈ s.pairsWith d, _ → _))

/-- Resting an order that is not in the table. -/
theorem Apart.restPaired (h : s.Apart) {inner : InnerL4Order} (hout : ¬ s.InTable inner.oid)
    (sz : ℕ) (anchor : Option ℕ) (ts : ℕ) : (s.restPaired inner sz anchor ts).Apart := by
  obtain ⟨n, hn⟩ := s.restPaired_eq inner sz anchor ts
  rw [hn]
  intro k hk hrests
  obtain ⟨c, hc⟩ := rests_iff.mp hrests
  rcases OrderBooks.rests_addOrderBefore hc with hbefore | rfl
  · exact h k hk (rests_iff.mpr ⟨c, hbefore⟩)
  · refine hout ?_
    rwa [← show oid ((inner.modifySz sz).convertTrigger ts) = inner.oid from
      InnerL4Order.oid_convertTrigger _ _]

/-- **A status that keeps them apart** does so also where it fails. -/
theorem Apart.applyOrderStatus (h : s.Apart) {st : NodeDataOrderStatus}
    (hkeeps : StatusKeepsApart s st) (now : ℕ) : (s.applyOrderStatus now st).1.Apart := by
  have htracked : (s.trackStatus st).Apart := by
    intro k hk hrests
    rw [Rests, orderBook_trackStatus, ← Rests] at hrests
    rcases inTable_trackStatus hk with hbefore | ⟨henters, rfl⟩
    · exact h k hbefore hrests
    · exact hkeeps.entry henters hrests
  have houtcome := s.statusOutcome now st
  generalize s.applyOrderStatus now st = r at houtcome ⊢
  cases houtcome with
  | passed => exact htracked
  | kept => exact htracked.of_eq rfl rfl
  | rejected => exact htracked.of_eq rfl rfl
  | @paired pending inner waits parses =>
    have hpaired : Apart { s.trackStatus st with
        pendingNewDiffs := (s.trackStatus st).pendingNewDiffs.erase st.order.oid } :=
      htracked.of_eq rfl rfl
    refine hpaired.restPaired ?_ _ _ _
    rw [(InnerL4Order.tryFrom_eq_some parses).2.2.1]
    exact hkeeps.pairing (by rw [waits]; rfl) (by rw [parses]; rfl)

theorem Apart.modifySz (h : s.Apart) (k : ℕ) (c : Coin) (newSz : ℕ) :
    Apart { s with orderBook := (s.orderBook.modifySz k c newSz).1 } := by
  refine h.of_imp (fun k => id) fun k' hk => ?_
  obtain ⟨c', hc⟩ := rests_iff.mp hk
  refine rests_iff.mpr ⟨c', fun hnone => hc ?_⟩
  rw [OrderBooks.find?_modifySz, hnone]
  simp

theorem Apart.cancelOrder (h : s.Apart) (k : ℕ) (c : Coin) :
    Apart { s with orderBook := (s.orderBook.cancelOrder k c).1 } := by
  refine h.of_imp (fun k => id) fun k' hk => ?_
  obtain ⟨c', hc⟩ := rests_iff.mp hk
  refine rests_iff.mpr ⟨c', fun hnone => hc ?_⟩
  rw [OrderBooks.find?_cancelOrder, hnone]
  simp

theorem Apart.applyDiffToPendingNew (h : s.Apart) (k : ℕ) (newSz : Option ℕ) :
    (s.applyDiffToPendingNew k newSz).Apart := by
  obtain ⟨m, hm⟩ := s.applyDiffToPendingNew_eq k newSz
  rw [hm]
  exact h.of_eq rfl rfl

theorem Apart.noteZeroed (h : s.Apart) (height k : ℕ) : (s.noteZeroed height k).Apart := by
  obtain ⟨q, set, hz⟩ := s.noteZeroed_eq height k
  rw [hz]
  exact h.of_eq rfl rfl

/-- **A diff that keeps them apart** does so also where it fails. -/
theorem Apart.applyOrderDiff (h : s.Apart) {d : NodeDataOrderDiff} (hkeeps : DiffKeepsApart s d)
    (now height : ℕ) : (s.applyOrderDiff now height d).1.Apart := by
  have houtcome := s.diffOutcome now height d
  generalize s.applyOrderDiff now height d = r at houtcome ⊢
  cases houtcome with
  | skipped => exact h
  | unparsed => exact h
  | rejected => exact h.of_eq rfl rfl
  | trapped => exact h.of_eq rfl rfl
  | @paired sz since anchor st inner skips parses waits order =>
    have hpaired : Apart { s with pendingOrderStatuses := s.pendingOrderStatuses.erase d.oid } :=
      h.of_eq rfl rfl
    refine hpaired.restPaired ?_ _ _ _
    have hpairs : s.pairsWith d = some st := by
      rw [pairsWith, if_neg (by simpa [OrderBookState.skips] using skips), parses]
      exact congrArg (Option.map Prod.fst) waits
    rw [(InnerL4Order.tryFrom_eq_some order).2.2.1]
    exact hkeeps st hpairs (by rw [order]; rfl)
  | waits => exact h.of_eq rfl rfl
  | resized => exact h.modifySz _ _ _
  | zeroed => exact (h.modifySz _ _ _).noteZeroed _ _
  | updated => exact (h.modifySz _ _ _).applyDiffToPendingNew _ _
  | cancelled => exact h.cancelOrder _ _
  | followed => exact (h.cancelOrder _ _).of_eq rfl rfl
  | removed => exact (h.cancelOrder _ _).applyDiffToPendingNew _ _

/-! ## Batches -/

/-- Every event of a batch that is reached meets a condition in the state it is applied
in. -/
def EachMeets {E : Type} (apply : OrderBookState → E → OrderBookState × Except Failure (List Coin))
    (P : OrderBookState → E → Prop) : List E → OrderBookState → Prop
  | [], _ => True
  | e :: es, s => P s e ∧ ((apply s e).2.isOk = true → EachMeets apply P es (apply s e).1)

instance EachMeets.decidable {E : Type}
    {apply : OrderBookState → E → OrderBookState × Except Failure (List Coin)}
    {P : OrderBookState → E → Prop} [∀ s e, Decidable (P s e)] :
    ∀ es s, Decidable (EachMeets apply P es s)
  | [], _ => inferInstanceAs (Decidable True)
  | e :: es, s =>
    have : Decidable (EachMeets apply P es (apply s e).1) := EachMeets.decidable es _
    inferInstanceAs (Decidable (P s e ∧ (_ → _)))

/-- **The rule for batches whose events meet a condition**, failed ones among them. -/
theorem EachMeets.rule {E : Type}
    {apply : OrderBookState → E → OrderBookState × Except Failure (List Coin)}
    {P : OrderBookState → E → Prop} {I : OrderBookState → Prop}
    (hstep : ∀ s e, P s e → I s → I (apply s e).1) {events : List E}
    (hmeets : EachMeets apply P events s) (h : I s) (changed : Std.ExtTreeSet Coin) :
    I (applyAll apply events s changed).1 := by
  induction events generalizing s changed with
  | nil => exact h
  | cons e events ih =>
    obtain ⟨hfirst, hrest⟩ := hmeets
    have h₁ := hstep s e hfirst h
    cases happly : apply s e with
    | mk s₁ r =>
      rw [happly] at h₁ hrest
      cases r with
      | ok coins =>
        simp only [applyAll, happly]
        exact ih (hrest rfl) h₁ _
      | error f =>
        simp only [applyAll, happly]
        exact h₁

end OrderBookState

/-! ## Calls -/

open OrderBookState

/-- No branch of a call feeds the one what is in the other. -/
def StateCall.KeepsApart (s : OrderBookState) : StateCall → Prop
  | .input (.statuses now batch) =>
    EachMeets (OrderBookState.applyOrderStatus now) StatusKeepsApart batch.events
      (s.advance batch.blockNumber batch.time)
  | .input (.diffs now batch) =>
    EachMeets (OrderBookState.applyOrderDiff now batch.blockNumber) DiffKeepsApart batch.events
      ((s.forgetZeroed batch.blockNumber).advance batch.blockNumber batch.time)
  | .carryForward prev =>
    s.trackUntriggered = true → s.untriggeredOrders.isEmpty = true →
      ∀ k, prev.InTable k → ¬ s.Rests k
  | .cleanup _ | .takeFallbacks => True

theorem OrderBookState.Apart.advance {s : OrderBookState} (h : s.Apart) (height time : ℕ) :
    (s.advance height time).Apart := by
  unfold OrderBookState.advance
  split
  · exact h.of_eq rfl rfl
  · exact h

/-- **A call that keeps them apart.** -/
theorem StateCall.apart_step {s : OrderBookState} {call : StateCall} (h : s.Apart)
    (hkeeps : call.KeepsApart s) : (call.step s).Apart := by
  cases call with
  | input i =>
    cases i with
    | statuses now batch =>
      exact EachMeets.rule (fun s st hst hs => hs.applyOrderStatus hst now) hkeeps
        (h.advance _ _) _
    | diffs now batch =>
      have hforgotten : (s.forgetZeroed batch.blockNumber).Apart := h.of_eq rfl rfl
      exact EachMeets.rule (fun s d hd hs => hs.applyOrderDiff hd now batch.blockNumber) hkeeps
        (hforgotten.advance _ _) _
  | cleanup now =>
    refine h.of_imp (fun k => id) fun k hk => ?_
    obtain ⟨c, hc⟩ := rests_iff.mp hk
    refine rests_iff.mpr ⟨c, fun hnone => hc ?_⟩
    exact (OrderBooks.find?_compactAll ..).trans hnone
  | takeFallbacks => exact h.of_eq rfl rfl
  | carryForward prev =>
    rw [StateCall.step, carryForwardUntriggered]
    split
    case isTrue hcarries =>
      simp only [Bool.and_eq_true] at hcarries
      exact hkeeps hcarries.1.1 hcarries.1.2
    case isFalse => exact h

/-- Every call keeps them apart in the state it is made in. -/
def CallsKeepApart : List StateCall → OrderBookState → Prop
  | [], _ => True
  | call :: calls, s => call.KeepsApart s ∧ CallsKeepApart calls (call.step s)

theorem apart_runCalls {calls : List StateCall} {s : OrderBookState} (h : s.Apart)
    (hkeeps : CallsKeepApart calls s) : (runCalls s calls).Apart := by
  induction calls generalizing s with
  | nil => exact h
  | cons call calls ih => exact ih (StateCall.apart_step h hkeeps.1) hkeeps.2

/-! ## The snapshot -/

/-- The orders a snapshot enters into the table. -/
def tableOrders (snapshot : Snapshots InnerL4Order) (untriggered : List InnerL4Order)
    (ignoreTriggers ignoreSpot trackUntriggered : Bool) : List InnerL4Order :=
  if trackUntriggered then
    (untriggered ++ if ignoreTriggers then (Snapshots.extractTriggers snapshot).2 else []).filter
      fun order => !(ignoreSpot && order.coin.isSpot)
  else []

/-- The orders the books are built from. -/
def bookOrders (snapshot : Snapshots InnerL4Order) (ignoreTriggers : Bool) : List InnerL4Order :=
  snapshot.toList.flatMap fun x => x.2.taken ignoreTriggers

section FromSnapshot

variable {snapshot : Snapshots InnerL4Order} {untriggered : List InnerL4Order}
  {ignoreTriggers ignoreSpot trackUntriggered : Bool} {k : ℕ}

theorem of_inTable_fromSnapshot {height time : ℕ}
    (h : (fromSnapshot snapshot untriggered height time ignoreTriggers ignoreSpot
      trackUntriggered).InTable k) :
    ∃ o ∈ tableOrders snapshot untriggered ignoreTriggers ignoreSpot trackUntriggered,
      k = o.oid := by
  obtain ⟨c, orders, hc, hk⟩ := inTable_iff.mp h
  have hempty : ∀ {orders : Std.ExtTreeMap ℕ InnerL4Order},
      (∅ : Std.ExtTreeMap Coin (Std.ExtTreeMap ℕ InnerL4Order))[c]? ≠ some orders := by simp
  cases trackUntriggered with
  | false =>
    cases ignoreTriggers <;> exact absurd hc hempty
  | true =>
    have hlisted : ∀ {orders : Std.ExtTreeMap ℕ InnerL4Order},
        ((untriggered.filter fun order => !(ignoreSpot && order.coin.isSpot)).foldl
          insertUntriggered ∅)[c]? = some orders → k ∈ orders →
          ∃ o ∈ untriggered.filter fun order => !(ignoreSpot && order.coin.isSpot), k = o.oid := by
      intro orders hc hk
      rcases of_mem_foldl_insertUntriggered hc hk with ⟨orders', h', -⟩ | hlisted
      · exact absurd h' hempty
      · exact hlisted
    rw [tableOrders, if_pos rfl, List.filter_append]
    cases ignoreTriggers with
    | false =>
      obtain ⟨o, ho, hoid⟩ := hlisted hc hk
      exact ⟨o, List.mem_append_left _ ho, hoid⟩
    | true =>
      rcases of_mem_foldl_insertUntriggered hc hk with ⟨orders', h', hk'⟩ | ⟨o, ho, hoid⟩
      · obtain ⟨o, ho, hoid⟩ := hlisted h' hk'
        exact ⟨o, List.mem_append_left _ ho, hoid⟩
      · exact ⟨o, List.mem_append_right _ ho, hoid⟩

theorem of_rests_fromSnapshot {height time : ℕ}
    (h : (fromSnapshot snapshot untriggered height time ignoreTriggers ignoreSpot
      trackUntriggered).Rests k) :
    ∃ o ∈ bookOrders snapshot ignoreTriggers, k = o.oid := by
  have hbuilt : ∀ {c : Coin} {s s' : Snapshot InnerL4Order}, snapshot[c]? = some s →
      s'.taken ignoreTriggers = s.taken ignoreTriggers →
      (OrderBook.fromSnapshot s' ignoreTriggers).find? k ≠ none →
      ∃ o ∈ bookOrders snapshot ignoreTriggers, k = o.oid := by
    intro c s s' hs htaken hk
    obtain ⟨o, ho, rfl⟩ := List.mem_map.mp (OrderBook.rests_fromSnapshot hk)
    rw [htaken] at ho
    refine ⟨o, List.mem_flatMap.mpr ⟨(c, s), ?_, ho⟩, rfl⟩
    exact Std.ExtTreeMap.mem_toList_iff_getElem?_eq_some.mpr hs
  have hplain : ∀ {c : Coin}, (OrderBooks.fromSnapshots snapshot ignoreTriggers).find? c k ≠ none →
      ∃ o ∈ bookOrders snapshot ignoreTriggers, k = o.oid := by
    intro c hk
    rw [OrderBooks.find?_fromSnapshots] at hk
    cases hs : snapshot[c]? with
    | none => simp [hs] at hk
    | some s => exact hbuilt hs rfl (by simpa [hs] using hk)
  obtain ⟨c, hc⟩ := rests_iff.mp h
  cases hboth : ignoreTriggers && trackUntriggered with
  | false =>
    rw [fromSnapshot, hboth] at hc
    exact hplain hc
  | true =>
    obtain ⟨rfl, rfl⟩ := Bool.and_eq_true_iff.mp hboth
    have hc : (OrderBooks.fromSnapshots (Snapshots.extractTriggers snapshot).1 true).find? c k
        ≠ none := hc
    rw [OrderBooks.find?_fromSnapshots, Snapshots.extractTriggers,
      Std.ExtTreeMap.getElem?_map] at hc
    cases hs : snapshot[c]? with
    | none => simp [hs] at hc
    | some s =>
      have htaken : s.removeTriggers.taken true = s.taken true := by
        rw [Snapshot.taken, Snapshot.taken, if_pos rfl, if_pos rfl,
          s.removeTriggers_removeTriggers]
      exact hbuilt hs htaken (by simpa [hs, Snapshot.removeTriggers] using hc)

/-- **A snapshot that lists no order in both.** -/
theorem apart_fromSnapshot (height time : ℕ)
    (h : ∀ o ∈ tableOrders snapshot untriggered ignoreTriggers ignoreSpot trackUntriggered,
      ∀ o' ∈ bookOrders snapshot ignoreTriggers, o'.oid ≠ o.oid) :
    (fromSnapshot snapshot untriggered height time ignoreTriggers ignoreSpot
      trackUntriggered).Apart := by
  intro k hk hrests
  obtain ⟨o, ho, rfl⟩ := of_inTable_fromSnapshot hk
  obtain ⟨o', ho', hoid⟩ := of_rests_fromSnapshot hrests
  exact h o ho o' ho' hoid.symm

end FromSnapshot

/-! ## Runs -/

theorem CallsKeepApart.left {before after : List StateCall} {s : OrderBookState}
    (h : CallsKeepApart (before ++ after) s) : CallsKeepApart before s := by
  induction before generalizing s with
  | nil => trivial
  | cons call before ih => exact ⟨h.1, ih h.2⟩

/-- **No order waiting for its trigger rests**, at any moment of a run from a snapshot
that lists no order both in the table and in a book, when no call feeds the one what is
in the other: no status enters an order that rests, no status and diff are paired while
their order is in the table, and no table is carried over that holds an order that
rests.  Calls that fail are among them. -/
theorem apart_of_keepsApart (snapshot : Snapshots InnerL4Order) (untriggered : List InnerL4Order)
    (height time : ℕ) (ignoreTriggers ignoreSpot trackUntriggered : Bool) (calls : List StateCall)
    (hsnapshot :
      ∀ o ∈ tableOrders snapshot untriggered ignoreTriggers ignoreSpot trackUntriggered,
        ∀ o' ∈ bookOrders snapshot ignoreTriggers, o'.oid ≠ o.oid)
    (hcalls : CallsKeepApart calls (fromSnapshot snapshot untriggered height time ignoreTriggers
      ignoreSpot trackUntriggered)) :
    ∀ before after, calls = before ++ after →
      (runCalls (fromSnapshot snapshot untriggered height time ignoreTriggers ignoreSpot
        trackUntriggered) before).Apart := by
  intro before after h
  subst h
  exact apart_runCalls (apart_fromSnapshot height time hsnapshot) hcalls.left

end HlOrderbook

namespace HlOrderbook

section Example

attribute [local instance] SlabPolicy.latest FixedPoint.decimal

/-- An order waiting for its trigger. -/
private def waiting : L4Order := { L4Order.limit "BTC" .bid "100" "2" 7 with isTrigger := true }

/-- The trigger fires: the status that says so comes before the diff. -/
private def triggered : List StateCall :=
  [.input (.statuses 0 ⟨1, 1, [.opened waiting]⟩),
    .input (.statuses 0 ⟨5, 5, [⟨5, 1, "triggered", waiting⟩]⟩),
    .input (.diffs 0 ⟨5, 5, [⟨1, 7, "100", "BTC", .new "2" none⟩]⟩)]

theorem apart_triggered :
    (runCalls (OrderBookState.fromSnapshot ∅ [] 0 0 true false true) triggered).Apart := by
  refine apart_of_keepsApart ∅ [] 0 0 true false true triggered (by decide +kernel) ?_ triggered []
    (List.append_nil _).symm
  refine ⟨?_, ?_, ?_, trivial⟩ <;> unfold StateCall.KeepsApart <;> decide +kernel

/-- **The diffs are ahead**: the status that says that the order waits for its trigger
finds the diff of its trigger. -/
theorem not_apart_diffsAhead :
    ¬ (runCalls (OrderBookState.fromSnapshot ∅ [] 0 0 true false true)
      [.input (.diffs 0 ⟨5, 5, [⟨1, 7, "100", "BTC", .new "2" none⟩]⟩),
        .input (.statuses 0 ⟨1, 1, [.opened waiting]⟩)]).Apart :=
  fun h => h 7 (by decide +kernel) (by decide +kernel)

end Example

end HlOrderbook
