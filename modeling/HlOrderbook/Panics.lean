import HlOrderbook.Pairing

/-!
# Where applying an event can panic

Two things in the way of an event can panic: an index into the slab of a price level
that is not occupied, and the conversion of a status's time to an unsigned integer on
the path of a diff.  The first does not happen, because a level carries the proof that
its pointers spell out a queue.  The second does, for a status from before 1970 whose
`New` diff comes later; the path of a status has the conversion saturate instead.

## Main definitions

* `LinkedList.Unfailing` — no operation on a list finds an index vacant.
* `Input.Trapped` — a batch that meets a status from before 1970.
* `StateCall`, `runCalls` — the calls a state can see.

## Main results

* `applyInput_panic_iff`.
-/

set_option autoImplicit false
set_option linter.unusedSectionVars false

namespace HlOrderbook

/-! ## The slabs -/

/-- No operation on a list panics. -/
structure LinkedList.Unfailing {K V : Type} [Ord K] [Std.TransOrd K] [Std.LawfulEqOrd K]
    [SlabPolicy] (l : LinkedList K V) : Prop where
  pushBack : ∀ key value, (l.raw.pushBack key value).isSome
  insertBefore : ∀ before key value, (l.raw.insertBefore before key value).isSome
  headValue : l.raw.headValue.isSome
  setHeadValue : ∀ value, (l.raw.setHeadValue value).isSome
  removeFront : l.raw.removeFront.isSome
  removeNode : ∀ key, (l.raw.removeNode key).isSome
  nodeValue : ∀ key, (l.raw.nodeValue key).isSome
  setNodeValue : ∀ key value, (l.raw.setNodeValue key value).isSome
  items : l.raw.items.isSome
  compact : l.raw.compact.isSome

/-- **No operation on a list panics**, since its pointers spell out a queue. -/
theorem LinkedList.unfailing {K V : Type} [Ord K] [Std.TransOrd K] [Std.LawfulEqOrd K]
    [SlabPolicy] (l : LinkedList K V) : l.Unfailing := by
  obtain ⟨cells, H⟩ := l.holds
  have hsplit : ∀ key, key ∈ cells.map RawList.Cell.key →
      ∃ xs c ys, cells = xs ++ c :: ys ∧ c.key = key := by
    intro key hk
    obtain ⟨c, hc, rfl⟩ := List.mem_map.mp hk
    obtain ⟨xs, ys, h⟩ := List.append_of_mem hc
    exact ⟨xs, c, ys, h, rfl⟩
  refine ⟨?_, ?_, ?_, ?_, ?_, ?_, ?_, ?_, ?_, ?_⟩
  · intro key value
    by_cases hk : key ∈ cells.map RawList.Cell.key
    · rw [RawList.pushBack_duplicate H hk]
      rfl
    · obtain ⟨l', sid, h, -⟩ := RawList.pushBack_spec H hk value
      rw [h]
      rfl
  · intro before key value
    by_cases hk : key ∈ cells.map RawList.Cell.key
    · rw [RawList.insertBefore_duplicate H before hk]
      rfl
    · by_cases hb : before ∈ cells.map RawList.Cell.key
      · obtain ⟨xs, c, ys, rfl, rfl⟩ := hsplit before hb
        obtain ⟨l', sid, h, -⟩ := RawList.insertBefore_spec H hk value
        rw [h]
        rfl
      · rw [RawList.insertBefore_missing H hb]
        rfl
  · rw [RawList.headValue_spec H]
    rfl
  · intro value
    cases cells with
    | nil =>
      rw [RawList.setHeadValue, H.head]
      rfl
    | cons c cs =>
      obtain ⟨l', h, -⟩ := RawList.setHeadValue_spec H value
      rw [h]
      rfl
  · cases cells with
    | nil =>
      rw [RawList.removeFront_nil H]
      rfl
    | cons c cs =>
      obtain ⟨l', h, -⟩ := RawList.removeFront_spec H
      rw [h]
      rfl
  · intro key
    by_cases hk : key ∈ cells.map RawList.Cell.key
    · obtain ⟨xs, c, ys, rfl, rfl⟩ := hsplit key hk
      obtain ⟨l', h, -⟩ := RawList.removeNode_spec H
      rw [h]
      rfl
    · rw [RawList.removeNode_missing H hk]
      rfl
  · intro key
    by_cases hk : key ∈ cells.map RawList.Cell.key
    · obtain ⟨xs, c, ys, rfl, rfl⟩ := hsplit key hk
      rw [RawList.nodeValue_spec H]
      rfl
    · rw [RawList.nodeValue_missing H hk]
      rfl
  · intro key value
    by_cases hk : key ∈ cells.map RawList.Cell.key
    · obtain ⟨xs, c, ys, rfl, rfl⟩ := hsplit key hk
      obtain ⟨l', h, -⟩ := RawList.setNodeValue_spec H value
      rw [h]
      rfl
    · rw [RawList.setNodeValue, H.index_eq_none hk]
      rfl
  · rw [H.items]
    rfl
  · obtain ⟨l', cells', b, h, -⟩ := RawList.compact_spec H
    rw [h]
    rfl

/-! ## The conversion of the time -/

variable [SlabPolicy] [FixedPoint]

namespace OrderBookState

/-- The status a diff would be paired with: the coin is not skipped, the diff places an
order, and the order's status waits. -/
def pairsWith (s : OrderBookState) (d : NodeDataOrderDiff) : Option NodeDataOrderStatus :=
  if d.coin.isSpot && s.ignoreSpot then none
  else match InnerOrderDiff.tryFrom d.rawBookDiff with
    | some (.new ..) => (s.pendingOrderStatuses[d.oid]?).map Prod.fst
    | _ => none

/-- The diff, or the order it would be paired with, does not parse. -/
def rejects (s : OrderBookState) (d : NodeDataOrderDiff) : Bool :=
  (!(d.coin.isSpot && s.ignoreSpot) && (InnerOrderDiff.tryFrom d.rawBookDiff).isNone) ||
    (s.pairsWith d).any fun st => (InnerL4Order.tryFrom st.user st.order).isNone

/-- The diff would be paired with a status from before 1970 whose order parses. -/
def trapped (s : OrderBookState) (d : NodeDataOrderDiff) : Bool :=
  (s.pairsWith d).any fun st =>
    (InnerL4Order.tryFrom st.user st.order).isSome && decide (st.time < 0)

end OrderBookState

/-- The batch is one of diffs, and before any of them fails to parse one meets a status
from before 1970. -/
def Input.Trapped (s : OrderBookState) : Input → Prop
  | .statuses .. => False
  | .diffs _ batch => (batch.events.takeWhile fun d => !s.rejects d).any s.trapped = true

namespace OrderBookState

/-- The statuses that wait are those that did, less some that did no harm. -/
structure Drained (s s' : OrderBookState) : Prop where
  ignoreSpot : s'.ignoreSpot = s.ignoreSpot
  waits : ∀ k : ℕ, s'.pendingOrderStatuses[k]? = s.pendingOrderStatuses[k]? ∨
    (s'.pendingOrderStatuses[k]? = none ∧ ∀ x, s.pendingOrderStatuses[k]? = some x →
      (InnerL4Order.tryFrom x.1.user x.1.order).isSome = true ∧ ¬ x.1.time < 0)

variable {s s' s'' : OrderBookState}

theorem Drained.of_eq (hspot : s'.ignoreSpot = s.ignoreSpot)
    (h : s'.pendingOrderStatuses = s.pendingOrderStatuses) : Drained s s' :=
  ⟨hspot, fun _ => Or.inl (by rw [h])⟩

theorem Drained.trans (h : Drained s s') (h' : Drained s' s'') : Drained s s'' := by
  refine ⟨h'.ignoreSpot.trans h.ignoreSpot, fun k => ?_⟩
  rcases h.waits k with hk | hk <;> rcases h'.waits k with hk' | hk'
  · exact Or.inl (hk'.trans hk)
  · rw [hk] at hk'
    exact Or.inr hk'
  · rw [← hk'] at hk
    exact Or.inr hk
  · exact Or.inr ⟨hk'.1, hk.2⟩

/-- Draining changes neither what is rejected nor what is a trap. -/
theorem Drained.same (h : Drained s s') (d : NodeDataOrderDiff) :
    s'.rejects d = s.rejects d ∧ s'.trapped d = s.trapped d := by
  have hpairs : s'.pairsWith d = s.pairsWith d ∨ (s'.pairsWith d = none ∧
      ∀ st, s.pairsWith d = some st →
        (InnerL4Order.tryFrom st.user st.order).isSome = true ∧ ¬ st.time < 0) := by
    simp only [pairsWith, h.ignoreSpot]
    split
    · exact Or.inl rfl
    · split
      · rcases h.waits d.oid with hk | ⟨hk, hsafe⟩
        · exact Or.inl (by rw [hk])
        · refine Or.inr ⟨by rw [hk]; rfl, fun st hst => ?_⟩
          obtain ⟨x, hx, rfl⟩ := Option.map_eq_some_iff.mp hst
          exact hsafe x hx
      · exact Or.inl rfl
  rw [rejects, rejects, trapped, trapped, h.ignoreSpot]
  rcases hpairs with heq | ⟨hnone, hsafe⟩
  · rw [heq]
    exact ⟨rfl, rfl⟩
  · rw [hnone]
    cases hst : s.pairsWith d with
    | none => exact ⟨rfl, rfl⟩
    | some st =>
      obtain ⟨hsome, htime⟩ := hsafe st hst
      obtain ⟨inner, hinner⟩ := Option.isSome_iff_exists.mp hsome
      simp [hinner, htime]

/-- **What one diff does**: it is rejected, or it falls into a trap, or it succeeds. -/
theorem applyOrderDiff_cases (now height : ℕ) (s : OrderBookState) (d : NodeDataOrderDiff) :
    (s.rejects d = true ∧ ∃ s', s.applyOrderDiff now height d = (s', .error .parse)) ∨
    (s.rejects d = false ∧ s.trapped d = true ∧
      ∃ s', s.applyOrderDiff now height d = (s', .error .panic)) ∨
    (s.rejects d = false ∧ s.trapped d = false ∧
      ∃ s' coins, s.applyOrderDiff now height d = (s', .ok coins) ∧ Drained s s') := by
  by_cases hskip : (d.coin.isSpot && s.ignoreSpot) = true
  · refine Or.inr (Or.inr ⟨?_, ?_, s, [], ?_, .of_eq rfl rfl⟩)
    · simp [rejects, pairsWith, hskip]
    · simp [trapped, pairsWith, hskip]
    · rw [applyOrderDiff, if_pos hskip]
  have hskip' : (d.coin.isSpot && s.ignoreSpot) = false := by simpa using hskip
  cases hparse : InnerOrderDiff.tryFrom d.rawBookDiff with
  | none =>
    refine Or.inl ⟨?_, s, ?_⟩
    · simp [rejects, hskip', hparse]
    · simp only [applyOrderDiff, if_neg hskip, hparse]
  | some inner =>
    have happly : s.applyOrderDiff now height d =
        s.applyInnerDiff now height d.oid d.coin d.user inner := by
      simp only [applyOrderDiff, if_neg hskip, hparse]
    cases inner with
    | new sz anchor =>
      have hpairs : s.pairsWith d = (s.pendingOrderStatuses[d.oid]?).map Prod.fst := by
        rw [pairsWith, if_neg hskip, hparse]
      rw [rejects, trapped, hpairs, hskip', hparse, happly, applyInnerDiff]
      cases hwait : s.pendingOrderStatuses[d.oid]? with
      | none => exact Or.inr (Or.inr ⟨rfl, rfl, _, _, rfl, .of_eq rfl rfl⟩)
      | some x =>
        obtain ⟨st, since⟩ := x
        have hdrained : (InnerL4Order.tryFrom st.user st.order).isSome = true → ¬ st.time < 0 →
            ∀ s' : OrderBookState, s'.ignoreSpot = s.ignoreSpot →
              s'.pendingOrderStatuses = s.pendingOrderStatuses.erase d.oid → Drained s s' := by
          intro hsome htime s' hspot herase
          refine ⟨hspot, fun k => ?_⟩
          rw [herase, Std.ExtTreeMap.getElem?_erase]
          by_cases hk : d.oid = k
          · subst hk
            refine Or.inr ⟨by simp, fun y hy => ?_⟩
            rw [hwait] at hy
            cases hy
            exact ⟨hsome, htime⟩
          · exact Or.inl (by simp [hk])
        set s₁ : OrderBookState :=
          { s with pendingOrderStatuses := s.pendingOrderStatuses.erase d.oid } with hs₁
        cases hinner : InnerL4Order.tryFrom st.user st.order with
        | none =>
          refine Or.inl ⟨by simp [hinner], s₁, ?_⟩
          simp only [hinner]
        | some inner =>
          by_cases htime : st.time < 0
          · refine Or.inr (Or.inl ⟨by simp [hinner], by simp [hinner, htime], s₁, ?_⟩)
            simp only [hinner, if_pos htime]
          · refine Or.inr (Or.inr ⟨by simp [hinner], by simp [hinner, htime],
              s₁.restPaired inner sz anchor st.time.toNat, [st.order.coin], ?_,
              hdrained (by rw [hinner]; rfl) htime _ ?_ ?_⟩)
            · simp only [hinner, if_neg htime]
            · rw [ignoreSpot_restPaired]
            · rw [pendingOrderStatuses_restPaired]
    | update origSz newSz =>
      have hpairs : s.pairsWith d = none := by rw [pairsWith, if_neg hskip, hparse]
      refine Or.inr (Or.inr ⟨by simp [rejects, hpairs, hparse], by simp [trapped, hpairs], ?_⟩)
      rw [happly, applyInnerDiff]
      simp only
      split
      · split
        · obtain ⟨q, set, hz⟩ := noteZeroed_eq
            { s with orderBook := (s.orderBook.modifySz d.oid d.coin newSz).1 } height d.oid
          exact ⟨_, _, rfl, .of_eq (by rw [hz]) (by rw [hz])⟩
        · exact ⟨_, _, rfl, .of_eq rfl rfl⟩
      · obtain ⟨m, hm⟩ := applyDiffToPendingNew_eq
          { s with orderBook := (s.orderBook.modifySz d.oid d.coin newSz).1 } d.oid (some newSz)
        exact ⟨_, _, rfl, .of_eq (by rw [hm]) (by rw [hm])⟩
    | remove =>
      have hpairs : s.pairsWith d = none := by rw [pairsWith, if_neg hskip, hparse]
      refine Or.inr (Or.inr ⟨by simp [rejects, hpairs, hparse], by simp [trapped, hpairs], ?_⟩)
      rw [happly, applyInnerDiff]
      simp only
      split
      · exact ⟨_, _, rfl, .of_eq rfl rfl⟩
      · split
        · exact ⟨_, _, rfl, .of_eq rfl rfl⟩
        · obtain ⟨m, hm⟩ := applyDiffToPendingNew_eq
            { s with orderBook := (s.orderBook.cancelOrder d.oid d.coin).1 } d.oid none
          exact ⟨_, _, rfl, .of_eq (by rw [hm]) (by rw [hm])⟩

/-- **A batch of diffs panics** exactly when, before any of them is rejected, one falls
into a trap. -/
theorem applyAll_diff_panic_iff (now height : ℕ) (h : Drained s s')
    (events : List NodeDataOrderDiff) (changed : Std.ExtTreeSet Coin) :
    (applyAll (applyOrderDiff now height) events s' changed).2 = .error .panic ↔
      (events.takeWhile fun d => !s.rejects d).any s.trapped = true := by
  induction events generalizing s' changed with
  | nil => simp [applyAll]
  | cons d events ih =>
    obtain ⟨hrejects, htrapped⟩ := h.same d
    rcases applyOrderDiff_cases now height s' d with ⟨hr, s₁, happly⟩ | ⟨hr, ht, s₁, happly⟩ |
      ⟨hr, ht, s₁, coins, happly, hd⟩
    · rw [hrejects] at hr
      simp [applyAll, happly, hr]
    · rw [hrejects] at hr
      rw [htrapped] at ht
      simp [applyAll, happly, hr, ht]
    · rw [hrejects] at hr
      rw [htrapped] at ht
      simp only [applyAll, happly, hr, Bool.not_false, List.takeWhile_cons_of_pos, List.any_cons,
        ht, Bool.false_or]
      exact ih (h.trans hd) _

/-- A status does not panic. -/
theorem applyOrderStatus_ne_panic (now : ℕ) (s : OrderBookState) (st : NodeDataOrderStatus) :
    (s.applyOrderStatus now st).2 ≠ .error .panic := by
  simp only [applyOrderStatus]
  split
  · split <;> simp
  · split <;> simp

/-- A batch of statuses does not panic. -/
theorem applyAll_status_ne_panic (now : ℕ) (events : List NodeDataOrderStatus)
    (s : OrderBookState) (changed : Std.ExtTreeSet Coin) :
    (applyAll (applyOrderStatus now) events s changed).2 ≠ .error .panic := by
  induction events generalizing s changed with
  | nil => simp [applyAll]
  | cons st events ih =>
    have hst := applyOrderStatus_ne_panic now s st
    cases happly : s.applyOrderStatus now st with
    | mk s' r =>
      rw [happly] at hst
      cases r with
      | ok coins =>
        simp only [applyAll, happly]
        exact ih s' _
      | error f =>
        simp only [applyAll, happly]
        intro he
        cases he
        exact hst rfl

end OrderBookState

/-- **A batch panics exactly when it is trapped.** -/
theorem applyInput_panic (s : OrderBookState) (i : Input) :
    (applyInput s i).2 = .error .panic ↔ i.Trapped s := by
  cases i with
  | statuses now batch => exact iff_of_false (OrderBookState.applyAll_status_ne_panic now _ _ _) id
  | diffs now batch =>
    refine OrderBookState.applyAll_diff_panic_iff now batch.blockNumber (.of_eq ?_ ?_) _ _
    · rw [OrderBookState.ignoreSpot_advance]
      rfl
    · rw [OrderBookState.pendingOrderStatuses_advance]
      rfl

/-! ## Runs -/

/-- A call that a state can see. -/
inductive StateCall where
  | input (i : Input)
  | cleanup (now : ℕ)
  | takeFallbacks
  | carryForward (prev : OrderBookState)

/-- The state after a call, which is kept also when the call failed. -/
def StateCall.step (s : OrderBookState) : StateCall → OrderBookState
  | .input i => (applyInput s i).1
  | .cleanup now => (s.cleanupStalePending now).1
  | .takeFallbacks => s.takeInsertBeforeFallbacks.1
  | .carryForward prev => s.carryForwardUntriggered prev

/-- The state after some calls. -/
def runCalls (s : OrderBookState) (calls : List StateCall) : OrderBookState :=
  calls.foldl StateCall.step s

/-- **A panic is a trap.**  After any calls, failed ones among them, no list operation
panics, a batch of statuses does not panic, and a batch of diffs panics exactly when,
before any of its diffs fails to parse, one places an order whose waiting status is from
before 1970. -/
theorem apply_panics_iff (s₀ : OrderBookState) (calls : List StateCall) :
    (∀ l : LinkedList ℕ InnerL4Order, l.Unfailing) ∧
      ∀ i : Input, (applyInput (runCalls s₀ calls) i).2 = .error .panic ↔
        i.Trapped (runCalls s₀ calls) :=
  ⟨fun l => l.unfailing, fun i => applyInput_panic _ i⟩

end HlOrderbook

namespace HlOrderbook

section Example

attribute [local instance] SlabPolicy.latest FixedPoint.decimal

/-- **A status from before 1970, then its diff.** -/
theorem panics_before1970 :
    (applyInput
      (runCalls (OrderBookState.fromSnapshot ∅ [] 0 0 true false true)
        [.input (.statuses 0 ⟨5, 5, [⟨-1, 1, "open", .limit "BTC" .bid "100" "2" 7⟩]⟩)])
      (.diffs 0 ⟨5, 5, [⟨1, 7, "100", "BTC", .new "2" none⟩]⟩)).2 = .error .panic := by
  rw [applyInput_panic, Input.Trapped]
  decide +kernel

end Example

end HlOrderbook
