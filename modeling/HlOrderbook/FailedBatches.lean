import HlOrderbook.Pairing
import HlOrderbook.Outcomes
import HlOrderbook.BookRefinement
import HlOrderbook.BookViews

/-!
# A batch that fails

An event that does not parse ends its batch, and what the events before it did stays.  A
status can fail only after it has taken the diff that waited for it, so a failed batch of
statuses always leaves a trace.  A failed batch of diffs leaves none exactly when the
failing event is a diff that does not parse itself and the diffs before it come to
nothing: none is paired, empties or removes an order, follows one that was emptied or
drops the book of a coin that is empty already, and the sizes and the diffs that wait
end as they were.

## Main definitions

* `Untouched` — what a failed batch is to leave as it was.
* `Input.Harmless` — the diffs before the failing one come to nothing.

## Main results

* `untouched_iff_harmless`.
-/

set_option autoImplicit false
set_option linter.unusedSectionVars false

namespace HlOrderbook

open InnerOrder

/-! ## The queues of all coins -/

section Queues

variable {O : Type} [InnerOrder O]

namespace OrderBook

/-- Changing the size of an order that is not there. -/
theorem modifySz_missing {b : OrderBook O} {k : ℕ} (h : b.find? k = none) (newSz : ℕ) :
    (b.modifySz k newSz).1 = b := by
  have hindex : b.raw.oidToSidePx[k]? = none := by
    rw [b.shows_find?.index, h]
    rfl
  have hraw : (b.raw.modifySz k newSz).1 = b.raw := by
    rw [RawBook.modifySz, RawBook.cancelOrder, hindex]
    split <;> rfl
  cases b
  simp only [OrderBook.modifySz, hraw]

/-- Removing an order that is not there. -/
theorem cancelOrder_missing {b : OrderBook O} {k : ℕ} (h : b.find? k = none) :
    (b.cancelOrder k).1 = b := by
  have hindex : b.raw.oidToSidePx[k]? = none := by
    rw [b.shows_find?.index, h]
    rfl
  have hraw : (b.raw.cancelOrder k).1 = b.raw := by
    rw [RawBook.cancelOrder, hindex]
  cases b
  simp only [OrderBook.cancelOrder, hraw]

/-- The queue of a side at a price. -/
def queue (b : OrderBook O) (s : Side) (px : ℕ) : List O := b.raw.toRef.queue s px

theorem mem_queue {b : OrderBook O} {s : Side} {px : ℕ} {o : O} :
    o ∈ b.queue s px ↔ b.find? (oid o) = some o ∧ side o = s ∧ limitPx o = px := by
  have hshows := b.shows_find?
  rw [queue, RawBook.Shows.queue_toRef, List.mem_map]
  constructor
  · rintro ⟨⟨k, o'⟩, hmem, rfl⟩
    obtain ⟨hk, hs, hpx⟩ := (hshows.queue s px k o').mp hmem
    have hoid : oid o' = k := b.valid.oid_eq hk
    exact ⟨hoid ▸ hk, hs, hpx⟩
  · rintro ⟨hk, hs, hpx⟩
    exact ⟨(oid o, o), (hshows.queue s px _ o).mpr ⟨hk, hs, hpx⟩, rfl⟩

theorem queue_modifySz (b : OrderBook O) (k : ℕ) {newSz : ℕ} (h : newSz ≠ 0) (s : Side) (px : ℕ) :
    (b.modifySz k newSz).1.queue s px =
      (b.queue s px).map fun o => if oid o = k then InnerOrder.modifySz o newSz else o := by
  rw [queue, queue, OrderBook.modifySz, (b.shows_find?.toRef_modifySz b.valid k newSz).1,
    RefBook.modifySz, if_neg h, RefBook.queue_edit _ rfl]

end OrderBook

namespace OrderBooks

/-- The queue of a coin, empty when there is no book. -/
def queue (bs : OrderBooks O) (c : Coin) (s : Side) (px : ℕ) : List O :=
  ((bs.orderBooks[c]?).map fun b => b.queue s px).getD []

/-- A coin has a book, and nothing rests in it. -/
def Vacant (bs : OrderBooks O) (c : Coin) : Prop :=
  ∃ b ∈ bs.orderBooks[c]?, b.orderCount = 0

instance (bs : OrderBooks O) (c : Coin) : Decidable (bs.Vacant c) :=
  inferInstanceAs (Decidable (∃ b ∈ bs.orderBooks[c]?, b.orderCount = 0))

variable {bs bs' : OrderBooks O} {c : Coin} {k : ℕ}

theorem vacant_iff : bs.Vacant c ↔ bs.orderBooks.contains c = true ∧ ∀ k, bs.find? c k = none := by
  rw [Vacant, Std.ExtTreeMap.contains_eq_isSome_getElem?]
  simp only [find?]
  cases bs.orderBooks[c]? with
  | none => simp
  | some b => simp [b.orderCount_eq_zero]

theorem mem_queue {s : Side} {px : ℕ} {o : O} :
    o ∈ bs.queue c s px ↔ bs.find? c (oid o) = some o ∧ side o = s ∧ limitPx o = px := by
  rw [queue, find?]
  cases bs.orderBooks[c]? with
  | none => simp
  | some b => exact b.mem_queue

theorem putBack_of_not_vacant {b : OrderBook O} (hb : bs.orderBooks[c]? = some b)
    (h : ¬ bs.Vacant c) : bs.putBack c b = bs := by
  have hcount : b.orderCount ≠ 0 := fun h0 => h ⟨b, hb, h0⟩
  rw [putBack, if_neg hcount]
  obtain ⟨books⟩ := bs
  refine congrArg OrderBooks.mk (Std.ExtTreeMap.ext_getElem? fun c' => ?_)
  rw [Std.ExtTreeMap.getElem?_insert]
  split
  case isTrue hc =>
    rw [Std.compare_eq_iff_eq] at hc
    subst hc
    exact hb.symm
  case isFalse => rfl

theorem contains_putBack_of_vacant {b : OrderBook O} (hb : bs.orderBooks[c]? = some b)
    (h : bs.Vacant c) : (bs.putBack c b).orderBooks.contains c = false := by
  obtain ⟨b', hb', h0⟩ := h
  rw [hb] at hb'
  cases hb'
  rw [putBack, if_pos h0]
  simp

/-- Changing the size of an order that is not there leaves the books, unless the coin's
is empty. -/
theorem modifySz_missing (h : bs.find? c k = none) (newSz : ℕ) :
    (¬ bs.Vacant c → (bs.modifySz k c newSz).1 = bs) ∧
      (bs.Vacant c → (bs.modifySz k c newSz).1.orderBooks.contains c = false) := by
  rw [modifySz]
  cases hb : bs.orderBooks[c]? with
  | none =>
    refine ⟨fun _ => rfl, fun hv => ?_⟩
    obtain ⟨b, hb', -⟩ := hv
    rw [hb] at hb'
    cases hb'
  | some b =>
    rw [find?, hb] at h
    simp only [b.modifySz_missing h]
    exact ⟨putBack_of_not_vacant hb, contains_putBack_of_vacant hb⟩

/-- Removing an order that is not there leaves the books, unless the coin's is empty. -/
theorem cancelOrder_missing (h : bs.find? c k = none) :
    (¬ bs.Vacant c → (bs.cancelOrder k c).1 = bs) ∧
      (bs.Vacant c → (bs.cancelOrder k c).1.orderBooks.contains c = false) := by
  rw [cancelOrder]
  cases hb : bs.orderBooks[c]? with
  | none =>
    refine ⟨fun _ => rfl, fun hv => ?_⟩
    obtain ⟨b, hb', -⟩ := hv
    rw [hb] at hb'
    cases hb'
  | some b =>
    rw [find?, hb] at h
    simp only [b.cancelOrder_missing h]
    exact ⟨putBack_of_not_vacant hb, contains_putBack_of_vacant hb⟩

/-- **Resizing a resting order** changes its queue in place and drops no book. -/
theorem resize_resting (hrests : bs.find? c k ≠ none) {newSz : ℕ} (h : newSz ≠ 0) :
    (∀ c', (bs.modifySz k c newSz).1.orderBooks.contains c' = bs.orderBooks.contains c') ∧
      ∀ c' s px, (bs.modifySz k c newSz).1.queue c' s px =
        (bs.queue c' s px).map fun o =>
          if c = c' ∧ oid o = k then InnerOrder.modifySz o newSz else o := by
  rw [find?] at hrests
  cases hb : bs.orderBooks[c]? with
  | none => simp [hb] at hrests
  | some b =>
    have hrests : b.find? k ≠ none := by simpa [hb] using hrests
    have hcount : (b.modifySz k newSz).1.orderCount ≠ 0 := by
      intro h0
      have hnone := ((b.modifySz k newSz).1.orderCount_eq_zero.mp h0) k
      rw [(b.modifySz_spec k newSz).1, Function.update_self, if_neg h,
        Option.map_eq_none_iff] at hnone
      exact hrests hnone
    have hbooks : (bs.modifySz k c newSz).1 =
        ⟨bs.orderBooks.insert c (b.modifySz k newSz).1⟩ := by
      rw [modifySz, hb]
      simp only
      rw [putBack, if_neg hcount]
    rw [hbooks]
    refine ⟨fun c' => ?_, fun c' s px => ?_⟩
    · rw [Std.ExtTreeMap.contains_insert]
      by_cases hc : c = c'
      · subst hc
        simp [Std.ExtTreeMap.contains_eq_isSome_getElem?, hb]
      · simp [hc]
    · rw [queue, queue, Std.ExtTreeMap.getElem?_insert]
      by_cases hc : c = c'
      · subst hc
        simp [hb, b.queue_modifySz k h]
      · simp [hc]

end OrderBooks

end Queues

variable [SlabPolicy] [FixedPoint]

namespace OrderBookState

/-! ## What is to be left as it was -/

/-- **The books, both maps of pending halves, the table of untriggered orders and the
window of emptied orders are as they were.** -/
structure Untouched (s s' : OrderBookState) : Prop where
  coins : ∀ c, s'.orderBook.orderBooks.contains c = s.orderBook.orderBooks.contains c
  queues : ∀ c side px, s'.orderBook.queue c side px = s.orderBook.queue c side px
  statuses : s'.pendingOrderStatuses = s.pendingOrderStatuses
  diffs : s'.pendingNewDiffs = s.pendingNewDiffs
  table : s'.untriggeredOrders = s.untriggeredOrders
  recently : s'.zeroedRecently = s.zeroedRecently
  set : s'.zeroedSet = s.zeroedSet

/-- What decides the branch a diff takes, sizes aside. -/
structure Alike (s s' : OrderBookState) : Prop where
  ignoreSpot : s'.ignoreSpot = s.ignoreSpot
  coins : ∀ c, s'.orderBook.orderBooks.contains c = s.orderBook.orderBooks.contains c
  rests : ∀ c k, s'.orderBook.find? c k = none ↔ s.orderBook.find? c k = none
  statuses : s'.pendingOrderStatuses = s.pendingOrderStatuses
  table : s'.untriggeredOrders = s.untriggeredOrders
  recently : s'.zeroedRecently = s.zeroedRecently
  set : s'.zeroedSet = s.zeroedSet

/-- Nothing that decides the branch a diff takes is lost. -/
structure Kept (s s' : OrderBookState) : Prop where
  coins : ∀ c, s.orderBook.orderBooks.contains c = true → s'.orderBook.orderBooks.contains c = true
  rests : ∀ c k, s.orderBook.find? c k ≠ none → s'.orderBook.find? c k ≠ none
  statuses : ∀ k : ℕ, s.pendingOrderStatuses[k]? ≠ none → s'.pendingOrderStatuses[k]? ≠ none
  set : ∀ k ∈ s.zeroedSet, k ∈ s'.zeroedSet

/-- The diff takes a branch that loses nothing: it is skipped, it waits, it resizes a
resting order, or it is carried over to a diff that waits. -/
def Steady (s : OrderBookState) (d : NodeDataOrderDiff) : Prop :=
  s.skips d = true ∨ match InnerOrderDiff.tryFrom d.rawBookDiff with
    | none => False
    | some (.new ..) => s.pendingOrderStatuses[d.oid]? = none
    | some (.update _ newSz) =>
      if s.orderBook.find? d.coin d.oid = none then ¬ s.orderBook.Vacant d.coin else newSz ≠ 0
    | some .remove =>
      s.orderBook.find? d.coin d.oid = none ∧ d.oid ∉ s.zeroedSet ∧ ¬ s.orderBook.Vacant d.coin

/-- The size of an order of a coin after a diff. -/
def updatedSz (s : OrderBookState) (c : Coin) (k cur : ℕ) (d : NodeDataOrderDiff) : ℕ :=
  if s.skips d = false ∧ d.coin = c ∧ d.oid = k then
    match InnerOrderDiff.tryFrom d.rawBookDiff with
    | some (.update _ newSz) => newSz
    | _ => cur
  else cur

/-- The diff that waits with an identifier after a diff. -/
def halfStep (s : OrderBookState) (now k : ℕ) (cur : Option PendingNew) (d : NodeDataOrderDiff) :
    Option PendingNew :=
  if s.skips d = false ∧ d.oid = k then
    match InnerOrderDiff.tryFrom d.rawBookDiff with
    | some (.new sz anchor) => some ⟨sz, anchor, now, d.user⟩
    | some (.update _ newSz) =>
      if s.orderBook.find? d.coin k = none then
        if 0 < newSz then cur.map fun p => { p with sz := newSz } else none
      else cur
    | some .remove => none
    | none => cur
  else cur

variable {s s₁ s' : OrderBookState} {d : NodeDataOrderDiff} {coins : List Coin}
  {now height : ℕ} {k : ℕ} {c : Coin}

namespace Alike

theorem refl (s : OrderBookState) : Alike s s :=
  ⟨rfl, fun _ => rfl, fun _ _ => Iff.rfl, rfl, rfl, rfl, rfl⟩

theorem trans (h : Alike s s₁) (h' : Alike s₁ s') : Alike s s' where
  ignoreSpot := h'.ignoreSpot.trans h.ignoreSpot
  coins c := (h'.coins c).trans (h.coins c)
  rests c k := (h'.rests c k).trans (h.rests c k)
  statuses := h'.statuses.trans h.statuses
  table := h'.table.trans h.table
  recently := h'.recently.trans h.recently
  set := h'.set.trans h.set

theorem skips (h : Alike s s') (d : NodeDataOrderDiff) : s'.skips d = s.skips d := by
  rw [OrderBookState.skips, OrderBookState.skips, h.ignoreSpot]

theorem vacant (h : Alike s s') (c : Coin) : s'.orderBook.Vacant c ↔ s.orderBook.Vacant c := by
  simp only [OrderBooks.vacant_iff, h.coins, h.rests]

theorem steady (h : Alike s s') (d : NodeDataOrderDiff) : s'.Steady d ↔ s.Steady d := by
  rw [Steady, Steady, h.skips]
  refine or_congr_right ?_
  split
  · exact Iff.rfl
  · rw [h.statuses]
  · simp only [h.rests, h.vacant]
  · simp only [h.rests, h.set, h.vacant]

theorem updatedSz (h : Alike s s') : s'.updatedSz = s.updatedSz := by
  funext c k cur d
  rw [OrderBookState.updatedSz, OrderBookState.updatedSz, h.skips]

theorem halfStep (h : Alike s s') : s'.halfStep = s.halfStep := by
  funext now k cur d
  simp only [OrderBookState.halfStep, h.skips, h.rests]

theorem kept (h : Alike s s') (hkept : Kept s s₁) : Kept s' s₁ where
  coins c hc := hkept.coins c ((h.coins c).symm.trans hc)
  rests c k hk := hkept.rests c k fun hnone => hk ((h.rests c k).mpr hnone)
  statuses k hk := hkept.statuses k (by rwa [← h.statuses])
  set k hk := hkept.set k (by rwa [← h.set])

end Alike

/-! ## Diffs that lose nothing -/

/-- What diffs that lose nothing do, the state before them given. -/
structure Effect (now : ℕ) (ds : List NodeDataOrderDiff) (s s' : OrderBookState) : Prop where
  alike : Alike s s'
  halves : ∀ k : ℕ, s'.pendingNewDiffs[k]? =
    ds.foldl (s.halfStep now k) (s.pendingNewDiffs[k]?)
  queues : ∀ c side px, s'.orderBook.queue c side px = (s.orderBook.queue c side px).map fun o =>
    InnerOrder.modifySz o (ds.foldl (s.updatedSz c (oid o)) (sz o))

theorem updatedSz_eq (h : s.skips d = true ∨ ¬ (d.coin = c ∧ d.oid = k) ∨
    ∀ origSz newSz, InnerOrderDiff.tryFrom d.rawBookDiff ≠ some (.update origSz newSz))
    (cur : ℕ) : s.updatedSz c k cur d = cur := by
  rw [updatedSz]
  split
  case isFalse => rfl
  case isTrue hcond =>
    rcases h with hskips | hother | hupdate
    · rw [hcond.1] at hskips
      cases hskips
    · exact absurd hcond.2 hother
    · split
      · next h => exact absurd h (hupdate _ _)
      · rfl

/-- The books are left alone. -/
theorem Effect.of_books {ds : List NodeDataOrderDiff} (halike : Alike s s')
    (hbooks : s'.orderBook = s.orderBook)
    (hhalves : ∀ k : ℕ, s'.pendingNewDiffs[k]? =
      ds.foldl (s.halfStep now k) (s.pendingNewDiffs[k]?))
    (hsizes : ∀ c side px, ∀ o ∈ s.orderBook.queue c side px,
      ds.foldl (s.updatedSz c (oid o)) (sz o) = sz o) : Effect now ds s s' where
  alike := halike
  halves := hhalves
  queues c side px := by
    rw [hbooks]
    refine (List.map_id _).symm.trans (List.map_congr_left fun o ho => ?_)
    rw [hsizes c side px o ho, modifySz_sz]
    rfl

theorem halfStep_of_skips (h : s.skips d = true) (cur : Option PendingNew) :
    s.halfStep now k cur d = cur := by
  simp [halfStep, h]

/-- **A diff that loses nothing.** -/
theorem effect_step (happly : s.applyOrderDiff now height d = (s', .ok coins))
    (hsteady : s.Steady d) : Effect now [d] s s' := by
  have houtcome := s.diffOutcome now height d
  rw [happly] at houtcome
  cases houtcome with
  | skipped skips =>
    exact .of_books (.refl s) rfl (fun k => (halfStep_of_skips skips _).symm)
      fun c side px o _ => updatedSz_eq (Or.inl skips) _
  | paired skips parses waits =>
    simp [Steady, skips, parses, waits] at hsteady
  | @waits sz anchor skips parses unknown =>
    refine .of_books ⟨rfl, fun _ => rfl, fun _ _ => Iff.rfl, rfl, rfl, rfl, rfl⟩ rfl (fun k => ?_)
      fun c side px o _ => updatedSz_eq (Or.inr (Or.inr ?_)) _
    · simp only [List.foldl_cons, List.foldl_nil, halfStep, skips, parses, true_and]
      rw [Std.ExtTreeMap.getElem?_insert]
      by_cases hk : d.oid = k <;> simp [hk]
    · intro origSz newSz h
      rw [parses] at h
      cases h
  | @resized origSz newSz skips parses rests pos =>
    obtain ⟨hcoins, hqueues⟩ := OrderBooks.resize_resting rests pos
    refine ⟨⟨rfl, hcoins, fun c k => ?_, rfl, rfl, rfl, rfl⟩, fun k => ?_, fun c side px => ?_⟩
    · rw [OrderBooks.find?_modifySz, if_neg pos]
      split <;> simp
    · simp only [List.foldl_cons, List.foldl_nil, halfStep, skips, parses, true_and]
      split
      case isTrue hk =>
        subst hk
        rw [if_neg rests]
      case isFalse => rfl
    · rw [hqueues]
      refine List.map_congr_left fun o _ => ?_
      simp only [List.foldl_cons, List.foldl_nil, updatedSz, skips, parses, true_and]
      by_cases hown : d.coin = c ∧ oid o = d.oid
      · rw [if_pos hown, if_pos ⟨hown.1, hown.2.symm⟩]
      · rw [if_neg hown, if_neg fun h => hown ⟨h.1, h.2.symm⟩, modifySz_sz]
  | zeroed skips parses rests =>
    simp [Steady, skips, parses, rests] at hsteady
  | @updated origSz newSz skips parses unknown =>
    have hvacant : ¬ s.orderBook.Vacant d.coin := by
      simpa [Steady, skips, parses, unknown] using hsteady
    rw [(OrderBooks.modifySz_missing unknown newSz).1 hvacant]
    obtain ⟨m, hm⟩ := s.applyDiffToPendingNew_eq d.oid (some newSz)
    refine .of_books ?_ (by rw [hm]) (fun k => ?_) fun c side px o ho => ?_
    · rw [hm]
      exact ⟨rfl, fun _ => rfl, fun _ _ => Iff.rfl, rfl, rfl, rfl, rfl⟩
    · rw [getElem?_applyDiffToPendingNew]
      simp only [List.foldl_cons, List.foldl_nil, halfStep, skips, parses, true_and]
      by_cases hk : d.oid = k
      · subst hk
        rw [if_pos rfl, if_pos rfl, if_pos unknown]
        by_cases hpos : 0 < newSz <;> cases s.pendingNewDiffs[d.oid]? <;>
          simp [hpos, Option.filter]
      · rw [if_neg hk, if_neg hk]
    · refine updatedSz_eq (Or.inr (Or.inl ?_)) _
      rintro ⟨rfl, hk⟩
      rw [hk, (OrderBooks.mem_queue.mp ho).1] at unknown
      cases unknown
  | cancelled skips parses rests =>
    simp [Steady, skips, parses, rests] at hsteady
  | followed skips parses unknown emptied =>
    simp [Steady, skips, parses, emptied] at hsteady
  | removed skips parses unknown standing =>
    have hvacant : ¬ s.orderBook.Vacant d.coin := by
      simp only [Steady, skips, parses, Bool.false_eq_true, false_or] at hsteady
      exact hsteady.2.2
    rw [(OrderBooks.cancelOrder_missing unknown).1 hvacant]
    obtain ⟨m, hm⟩ := s.applyDiffToPendingNew_eq d.oid none
    refine .of_books ?_ (by rw [hm]) (fun k => ?_) fun c side px o ho => ?_
    · rw [hm]
      exact ⟨rfl, fun _ => rfl, fun _ _ => Iff.rfl, rfl, rfl, rfl, rfl⟩
    · rw [getElem?_applyDiffToPendingNew]
      simp only [List.foldl_cons, List.foldl_nil, halfStep, skips, parses, true_and]
      by_cases hk : d.oid = k
      · subst hk
        cases s.pendingNewDiffs[d.oid]? <;> simp
      · rw [if_neg hk, if_neg hk]
    · refine updatedSz_eq (Or.inr (Or.inr ?_)) _
      intro origSz newSz h
      rw [parses] at h
      cases h

/-! ## What cannot come back -/

/-- A diff brings no status, and brings an order, a coin or an emptied order only where it
loses a status or an order. -/
structure Returns (s s' : OrderBookState) : Prop where
  statuses : ∀ k : ℕ, s.pendingOrderStatuses[k]? = none → s'.pendingOrderStatuses[k]? = none
  books : (∀ k : ℕ, s.pendingOrderStatuses[k]? ≠ none → s'.pendingOrderStatuses[k]? ≠ none) →
    (∀ c k, s.orderBook.find? c k = none → s'.orderBook.find? c k = none) ∧
    (∀ c, s.orderBook.orderBooks.contains c = false → s'.orderBook.orderBooks.contains c = false) ∧
    ((∀ c k, s.orderBook.find? c k ≠ none → s'.orderBook.find? c k ≠ none) →
      ∀ k, k ∉ s.zeroedSet → k ∉ s'.zeroedSet)

theorem Returns.refl (s : OrderBookState) : Returns s s :=
  ⟨fun _ => id, fun _ => ⟨fun _ _ => id, fun _ => id, fun _ _ => id⟩⟩

/-- What is kept over two steps is kept over the first. -/
theorem Returns.kept (h : Returns s s₁) (h' : Returns s₁ s') (hkept : Kept s s') :
    Kept s s₁ := by
  have hstatuses : ∀ k : ℕ, s.pendingOrderStatuses[k]? ≠ none →
      s₁.pendingOrderStatuses[k]? ≠ none := fun k hk hnone =>
    hkept.statuses k hk (h'.statuses k hnone)
  have hlater : ∀ k : ℕ, s₁.pendingOrderStatuses[k]? ≠ none →
      s'.pendingOrderStatuses[k]? ≠ none := fun k hk =>
    hkept.statuses k fun hnone => hk (h.statuses k hnone)
  obtain ⟨hrests', hcoins', hset'⟩ := h'.books hlater
  obtain ⟨hrests, -, -⟩ := h.books hstatuses
  have hkeeps : ∀ c k, s₁.orderBook.find? c k ≠ none → s'.orderBook.find? c k ≠ none :=
    fun c k hk => hkept.rests c k fun hnone => hk (hrests c k hnone)
  refine ⟨fun c hc => ?_, fun c k hk hnone => ?_, hstatuses, fun k hk => ?_⟩
  · by_contra hgone
    have hlost := hcoins' c (Bool.eq_false_iff.mpr hgone)
    rw [hkept.coins c hc] at hlost
    cases hlost
  · exact hkept.rests c k hk (hrests' c k hnone)
  · by_contra hgone
    exact hset' hkeeps k hgone (hkept.set k hk)

theorem Returns.trans (h : Returns s s₁) (h' : Returns s₁ s') : Returns s s' := by
  refine ⟨fun k hk => h'.statuses k (h.statuses k hk), fun hkept => ?_⟩
  have hfirst : ∀ k : ℕ, s.pendingOrderStatuses[k]? ≠ none → s₁.pendingOrderStatuses[k]? ≠ none :=
    fun k hk hnone => hkept k hk (h'.statuses k hnone)
  have hlater : ∀ k : ℕ, s₁.pendingOrderStatuses[k]? ≠ none →
      s'.pendingOrderStatuses[k]? ≠ none := fun k hk =>
    hkept k fun hnone => hk (h.statuses k hnone)
  obtain ⟨hrests, hcoins, hset⟩ := h.books hfirst
  obtain ⟨hrests', hcoins', hset'⟩ := h'.books hlater
  refine ⟨fun c k hk => hrests' c k (hrests c k hk), fun c hc => hcoins' c (hcoins c hc), ?_⟩
  intro hkeeps k hk
  refine hset' (fun c j hj => hkeeps c j fun hnone => hj (hrests c j hnone)) k (hset ?_ k hk)
  exact fun c j hj hnone => hkeeps c j hj (hrests' c j hnone)

/-- A step that loses a status brings back what it likes. -/
theorem Returns.of_lost (hstatuses : ∀ k : ℕ, s.pendingOrderStatuses[k]? = none →
      s'.pendingOrderStatuses[k]? = none) (hsome : s.pendingOrderStatuses[k]? ≠ none)
    (hnone : s'.pendingOrderStatuses[k]? = none) : Returns s s' :=
  ⟨hstatuses, fun hkept => absurd hnone (hkept k hsome)⟩

/-- A step that changes the books only, and brings nothing there. -/
theorem Returns.of_books {bs : OrderBooks InnerL4Order}
    (hrests : ∀ c k, s.orderBook.find? c k = none → bs.find? c k = none)
    (hcoins : ∀ c, s.orderBook.orderBooks.contains c = false → bs.orderBooks.contains c = false) :
    Returns s { s with orderBook := bs } :=
  ⟨fun _ => id, fun _ => ⟨hrests, hcoins, fun _ _ => id⟩⟩

theorem contains_putBack {bs : OrderBooks InnerL4Order} {b b' : OrderBook InnerL4Order}
    {coin : Coin} (hb : bs.orderBooks[coin]? = some b) (h : bs.orderBooks.contains c = false) :
    (bs.putBack coin b').orderBooks.contains c = false := by
  have hne : coin ≠ c := by
    rintro rfl
    rw [Std.ExtTreeMap.contains_eq_isSome_getElem?, hb] at h
    cases h
  rw [Std.ExtTreeMap.contains_eq_isSome_getElem?, bs.getElem?_putBack b' hne,
    ← Std.ExtTreeMap.contains_eq_isSome_getElem?]
  exact h

theorem returns_modifySz (s : OrderBookState) (k : ℕ) (coin : Coin) (newSz : ℕ) :
    Returns s { s with orderBook := (s.orderBook.modifySz k coin newSz).1 } := by
  refine .of_books (fun c j hnone => ?_) fun c hc => ?_
  · rw [OrderBooks.find?_modifySz, hnone]
    simp
  · rw [OrderBooks.modifySz]
    split
    · exact hc
    · next b hb => exact contains_putBack hb hc

theorem returns_cancelOrder (s : OrderBookState) (k : ℕ) (coin : Coin) :
    Returns s { s with orderBook := (s.orderBook.cancelOrder k coin).1 } := by
  refine .of_books (fun c j hnone => ?_) fun c hc => ?_
  · rw [OrderBooks.find?_cancelOrder, hnone]
    simp
  · rw [OrderBooks.cancelOrder]
    split
    · exact hc
    · next b hb => exact contains_putBack hb hc

theorem returns_applyDiffToPendingNew (s : OrderBookState) (k : ℕ) (newSz : Option ℕ) :
    Returns s (s.applyDiffToPendingNew k newSz) := by
  obtain ⟨m, hm⟩ := s.applyDiffToPendingNew_eq k newSz
  rw [hm]
  exact ⟨fun _ => id, fun _ => ⟨fun _ _ => id, fun _ => id, fun _ _ => id⟩⟩

/-- **A diff brings nothing back** without losing a status. -/
theorem returns_step (happly : s.applyOrderDiff now height d = (s', .ok coins)) :
    Returns s s' := by
  have houtcome := s.diffOutcome now height d
  rw [happly] at houtcome
  cases houtcome with
  | skipped => exact .refl s
  | @paired sz since anchor st inner skips parses waits =>
    have hstatuses : ∀ k : ℕ, (restPaired { s with
        pendingOrderStatuses := s.pendingOrderStatuses.erase d.oid } inner sz anchor
        st.time.toNat).pendingOrderStatuses[k]? =
        if d.oid = k then none else s.pendingOrderStatuses[k]? := by
      intro k
      rw [pendingOrderStatuses_restPaired, Std.ExtTreeMap.getElem?_erase]
      simp
    have hlost := (hstatuses d.oid).trans (if_pos rfl)
    refine .of_lost (fun k hk => ?_) (by simp [waits]) hlost
    rw [hstatuses, hk]
    split <;> rfl
  | waits => exact ⟨fun _ => id, fun _ => ⟨fun _ _ => id, fun _ => id, fun _ _ => id⟩⟩
  | resized => exact s.returns_modifySz _ _ _
  | zeroed skips parses rests =>
    obtain ⟨q, set, hz⟩ := noteZeroed_eq
      { s with orderBook := (s.orderBook.modifySz d.oid d.coin 0).1 } height d.oid
    have hmodify := s.returns_modifySz d.oid d.coin 0
    rw [hz]
    refine ⟨hmodify.statuses, fun hkept => ?_⟩
    obtain ⟨hrests, hcoins, -⟩ := hmodify.books hkept
    refine ⟨hrests, hcoins, fun hkeeps => absurd ?_ (hkeeps d.coin d.oid rests)⟩
    simp [OrderBooks.find?_modifySz]
  | updated => exact (s.returns_modifySz _ _ _).trans (returns_applyDiffToPendingNew _ _ _)
  | cancelled => exact s.returns_cancelOrder _ _
  | followed =>
    have hcancel := s.returns_cancelOrder d.oid d.coin
    refine ⟨hcancel.statuses, fun hkept => ?_⟩
    obtain ⟨hrests, hcoins, -⟩ := hcancel.books hkept
    exact ⟨hrests, hcoins, fun _ k hk hmem => hk (Std.ExtTreeSet.mem_erase.mp hmem).2⟩
  | removed => exact (s.returns_cancelOrder _ _).trans (returns_applyDiffToPendingNew _ _ _)

/-- **A diff that is seen to lose nothing is one that loses nothing.** -/
theorem steady_of_kept (happly : s.applyOrderDiff now height d = (s', .ok coins))
    (hkept : Kept s s') : s.Steady d := by
  have houtcome := s.diffOutcome now height d
  rw [happly] at houtcome
  have hvacant : s.orderBook.Vacant d.coin → s'.orderBook.orderBooks.contains d.coin = true :=
    fun hv => hkept.coins _ (OrderBooks.vacant_iff.mp hv).1
  cases houtcome with
  | skipped skips => exact Or.inl skips
  | @paired sz since anchor st inner skips parses waits =>
    refine absurd ?_ (hkept.statuses d.oid (by simp [waits]))
    rw [pendingOrderStatuses_restPaired]
    simp
  | waits skips parses unknown =>
    refine Or.inr ?_
    rw [parses]
    exact unknown
  | resized skips parses rests pos =>
    refine Or.inr ?_
    rw [parses]
    simp only
    rw [if_neg rests]
    exact pos
  | zeroed skips parses rests =>
    obtain ⟨q, set, hz⟩ := noteZeroed_eq
      { s with orderBook := (s.orderBook.modifySz d.oid d.coin 0).1 } height d.oid
    rw [hz] at hkept
    refine absurd ?_ (hkept.rests d.coin d.oid rests)
    simp [OrderBooks.find?_modifySz]
  | @updated origSz newSz skips parses unknown =>
    refine Or.inr ?_
    rw [parses]
    simp only
    rw [if_pos unknown]
    intro hv
    obtain ⟨m, hm⟩ := applyDiffToPendingNew_eq
      { s with orderBook := (s.orderBook.modifySz d.oid d.coin newSz).1 } d.oid (some newSz)
    have hcoin := hvacant hv
    rw [hm, (OrderBooks.modifySz_missing unknown newSz).2 hv] at hcoin
    cases hcoin
  | cancelled skips parses rests =>
    refine absurd ?_ (hkept.rests d.coin d.oid rests)
    simp [OrderBooks.find?_cancelOrder]
  | followed skips parses unknown emptied =>
    have hmem := hkept.set _ emptied
    simp at hmem
  | removed skips parses unknown standing =>
    refine Or.inr ?_
    rw [parses]
    refine ⟨unknown, standing, fun hv => ?_⟩
    obtain ⟨m, hm⟩ := applyDiffToPendingNew_eq
      { s with orderBook := (s.orderBook.cancelOrder d.oid d.coin).1 } d.oid none
    have hcoin := hvacant hv
    rw [hm, (OrderBooks.cancelOrder_missing unknown).2 hv] at hcoin
    cases hcoin

/-! ## Up to the event that fails -/

/-- Events applied one after the other, none of which fails. -/
inductive Applied {E : Type}
    (apply : OrderBookState → E → OrderBookState × Except Failure (List Coin)) :
    List E → OrderBookState → OrderBookState → Prop
  | nil (s : OrderBookState) : Applied apply [] s s
  | cons {e : E} {es : List E} {s s₁ s' : OrderBookState} {coins : List Coin}
      (step : apply s e = (s₁, .ok coins)) (rest : Applied apply es s₁ s') :
      Applied apply (e :: es) s s'

/-- **A batch that fails** does so at one of its events, after those before it. -/
theorem exists_failed {E : Type}
    {apply : OrderBookState → E → OrderBookState × Except Failure (List Coin)} {events : List E}
    {changed : Std.ExtTreeSet Coin} {f : Failure}
    (h : applyAll apply events s changed = (s', .error f)) :
    ∃ done e rest s₁, events = done ++ e :: rest ∧ Applied apply done s s₁ ∧
      apply s₁ e = (s', .error f) := by
  induction events generalizing s changed with
  | nil => cases h
  | cons e events ih =>
    rw [applyAll] at h
    split at h
    · next s₁ coins he =>
      obtain ⟨done, e', rest, s₂, rfl, happlied, hfailed⟩ := ih h
      exact ⟨e :: done, e', rest, s₂, rfl, .cons he happlied, hfailed⟩
    · next s₁ f' he =>
      cases h
      exact ⟨[], e, events, s, rfl, .nil s, he⟩

theorem returns_applied {ds : List NodeDataOrderDiff}
    (h : Applied (applyOrderDiff now height) ds s s') : Returns s s' := by
  induction h with
  | nil => exact .refl _
  | cons step _ ih => exact (returns_step step).trans ih

/-- **Diffs that lose nothing**, one after the other. -/
theorem effect_applied {ds : List NodeDataOrderDiff}
    (h : Applied (applyOrderDiff now height) ds s s') (hsteady : ∀ d ∈ ds, s.Steady d) :
    Effect now ds s s' := by
  induction h with
  | nil s => exact .of_books (.refl s) rfl (fun _ => rfl) fun _ _ _ _ _ => rfl
  | @cons d ds s s₁ s' coins step rest ih =>
    have hfirst := effect_step step (hsteady d List.mem_cons_self)
    have hrest := ih fun e he =>
      (hfirst.alike.steady e).mpr (hsteady e (List.mem_cons_of_mem _ he))
    refine ⟨hfirst.alike.trans hrest.alike, fun k => ?_, fun c side px => ?_⟩
    · rw [hrest.halves, hfirst.halves, hfirst.alike.halfStep]
      rfl
    · rw [hrest.queues, hfirst.queues, List.map_map, hfirst.alike.updatedSz]
      refine List.map_congr_left fun o _ => ?_
      simp

/-- Diffs that are seen to lose nothing. -/
theorem steady_applied {ds : List NodeDataOrderDiff}
    (h : Applied (applyOrderDiff now height) ds s s') (hkept : Kept s s') :
    ∀ d ∈ ds, s.Steady d := by
  induction h with
  | nil => simp
  | @cons d ds s s₁ s' coins step rest ih =>
    have hfirst := steady_of_kept step ((returns_step step).kept (returns_applied rest) hkept)
    have halike := (effect_step step hfirst).alike
    intro e he
    rcases List.mem_cons.mp he with rfl | he
    · exact hfirst
    · exact (halike.steady e).mp (ih (halike.kept hkept) e he)

/-- Before the status that fails, the diffs that wait only get fewer. -/
theorem fewer_applied {sts : List NodeDataOrderStatus}
    (h : Applied (applyOrderStatus now) sts s s') (hk : s.pendingNewDiffs[k]? = none) :
    s'.pendingNewDiffs[k]? = none := by
  induction h with
  | nil => exact hk
  | @cons st sts s s₁ s' coins step rest ih =>
    refine ih ?_
    have houtcome := s.statusOutcome now st
    rw [step] at houtcome
    cases houtcome with
    | passed => simpa using hk
    | kept => simpa using hk
    | paired =>
      rw [pendingNewDiffs_restPaired]
      simp [Std.ExtTreeMap.getElem?_erase, hk]

/-! ## The whole batch -/

/-- The queue of emptied orders loses nothing to a block's height. -/
def ForgetsNothing (s : OrderBookState) (height : ℕ) : Prop :=
  ∀ x ∈ s.zeroedRecently.head?, ¬ saturatingAdd x.1 zeroedWindowBlocks < height

theorem forgetZeroed_eq_self (h : s.ForgetsNothing height) : s.forgetZeroed height = s := by
  rw [forgetZeroed]
  cases hq : s.zeroedRecently with
  | nil =>
    cases s
    simp only at hq
    subst hq
    rfl
  | cons x q =>
    have hx := h x (by rw [hq]; rfl)
    cases s
    simp only at hq
    subst hq
    simp [hx]

theorem forgetsNothing_of_eq (h : (s.forgetZeroed height).zeroedRecently = s.zeroedRecently) :
    s.ForgetsNothing height := by
  intro x hx
  rw [← h] at hx
  have hold := List.head?_dropWhile_not (fun x : ℕ × ℕ =>
    decide (saturatingAdd x.1 zeroedWindowBlocks < height)) s.zeroedRecently
  rw [forgetZeroed] at hx
  rw [Option.mem_def.mp hx] at hold
  simpa using hold

/-- The diffs of a batch up to the first that does not parse. -/
def parsed (s : OrderBookState) (events : List NodeDataOrderDiff) : List NodeDataOrderDiff :=
  events.takeWhile fun d => s.skips d || (InnerOrderDiff.tryFrom d.rawBookDiff).isSome

theorem parses_step (happly : s.applyOrderDiff now height d = (s', .ok coins)) :
    s'.ignoreSpot = s.ignoreSpot ∧
      (s.skips d || (InnerOrderDiff.tryFrom d.rawBookDiff).isSome) = true := by
  have houtcome := s.diffOutcome now height d
  rw [happly] at houtcome
  cases houtcome with
  | skipped skips => exact ⟨rfl, by simp [skips]⟩
  | paired skips parses => exact ⟨ignoreSpot_restPaired .., by simp [parses]⟩
  | waits skips parses => exact ⟨rfl, by simp [parses]⟩
  | resized skips parses => exact ⟨rfl, by simp [parses]⟩
  | zeroed skips parses =>
    obtain ⟨q, set, hz⟩ := noteZeroed_eq
      { s with orderBook := (s.orderBook.modifySz d.oid d.coin 0).1 } height d.oid
    exact ⟨by rw [hz], by simp [parses]⟩
  | @updated origSz newSz skips parses =>
    obtain ⟨m, hm⟩ := applyDiffToPendingNew_eq
      { s with orderBook := (s.orderBook.modifySz d.oid d.coin newSz).1 } d.oid (some newSz)
    exact ⟨by rw [hm], by simp [parses]⟩
  | cancelled skips parses => exact ⟨rfl, by simp [parses]⟩
  | followed skips parses => exact ⟨rfl, by simp [parses]⟩
  | removed skips parses =>
    obtain ⟨m, hm⟩ := applyDiffToPendingNew_eq
      { s with orderBook := (s.orderBook.cancelOrder d.oid d.coin).1 } d.oid none
    exact ⟨by rw [hm], by simp [parses]⟩

theorem parses_applied {ds : List NodeDataOrderDiff}
    (h : Applied (applyOrderDiff now height) ds s s') :
    s'.ignoreSpot = s.ignoreSpot ∧
      ∀ d ∈ ds, (s.skips d || (InnerOrderDiff.tryFrom d.rawBookDiff).isSome) = true := by
  induction h with
  | nil => simp
  | @cons d ds s s₁ s' coins step rest ih =>
    obtain ⟨hspot, hparses⟩ := parses_step step
    refine ⟨ih.1.trans hspot, fun e he => ?_⟩
    rcases List.mem_cons.mp he with rfl | he
    · exact hparses
    · rw [skips, ← hspot]
      exact ih.2 e he

/-- **The diffs before the first that does not parse come to nothing**: each loses
nothing, the last update of every resting order gives its size, and the diffs that wait
end as they were. -/
structure Idle (s : OrderBookState) (now : ℕ) (ds : List NodeDataOrderDiff) : Prop where
  steady : ∀ d ∈ ds, s.Steady d
  sizes : ∀ c k o, s.orderBook.find? c k = some o → ds.foldl (s.updatedSz c k) (sz o) = sz o
  halves : ∀ k : ℕ, ds.foldl (s.halfStep now k) (s.pendingNewDiffs[k]?) = s.pendingNewDiffs[k]?

end OrderBookState

open OrderBookState

/-- **A batch that fails leaves no trace when** it is one of diffs, its height forgets no
emptied order, and its diffs before the first that does not parse come to nothing. -/
def Input.Harmless (s : OrderBookState) : Input → Prop
  | .statuses .. => False
  | .diffs now batch =>
    s.ForgetsNothing batch.blockNumber ∧ s.Idle now (s.parsed batch.events)

namespace OrderBookState

variable {s s' : OrderBookState} {now : ℕ}

/-- A failed batch of statuses has taken a diff that waited. -/
theorem not_untouched_statuses {batch : Batch NodeDataOrderStatus}
    (h : s.applyOrderStatusesHft now batch = (s', .error .parse)) : ¬ s.Untouched s' := by
  intro huntouched
  obtain ⟨done, st, rest, s₁, -, happlied, hfailed⟩ := exists_failed h
  have houtcome := s₁.statusOutcome now st
  rw [hfailed] at houtcome
  cases houtcome with
  | @rejected pending waits unparsed =>
    have hgone : s.pendingNewDiffs[st.order.oid]? = none := by
      rw [← huntouched.diffs]
      simp
    rw [fewer_applied happlied (by simpa using hgone)] at waits
    cases waits

/-- A failed batch of diffs that has lost nothing failed at a diff that does not parse. -/
theorem failed_of_statuses {height : ℕ} {ds : List NodeDataOrderDiff} {d : NodeDataOrderDiff}
    {s₁ : OrderBookState} (happlied : Applied (applyOrderDiff now height) ds s s₁)
    (hfailed : s₁.applyOrderDiff now height d = (s', .error .parse))
    (hstatuses : ∀ sz anchor, InnerOrderDiff.tryFrom d.rawBookDiff = some (.new sz anchor) →
      s₁.skips d = false → s₁.pendingOrderStatuses[d.oid]? ≠ none →
      s'.pendingOrderStatuses[d.oid]? ≠ none) :
    s' = s₁ ∧ s₁.skips d = false ∧ InnerOrderDiff.tryFrom d.rawBookDiff = none := by
  have houtcome := s₁.diffOutcome now height d
  rw [hfailed] at houtcome
  cases houtcome with
  | unparsed skips unparsed => exact ⟨rfl, skips, unparsed⟩
  | rejected skips parses waits unparsed =>
    refine absurd ?_ (hstatuses _ _ parses skips (by simp [waits]))
    simp

/-- **A failed batch of diffs.** -/
theorem untouched_diffs_iff {batch : Batch NodeDataOrderDiff}
    (h : s.applyOrderDiffsHft now batch = (s', .error .parse)) :
    s.Untouched s' ↔
      s.ForgetsNothing batch.blockNumber ∧ s.Idle now (s.parsed batch.events) := by
  obtain ⟨done, d, rest, s₁, hevents, happlied, hfailed⟩ := exists_failed h
  obtain ⟨hspot, hdone⟩ := parses_applied happlied
  have hskips : s₁.skips d = s.skips d := by
    rw [skips, skips, hspot, ignoreSpot_advance]
    rfl
  have hdone' : ∀ e ∈ done,
      (s.skips e || (InnerOrderDiff.tryFrom e.rawBookDiff).isSome) = true := by
    intro e he
    have := hdone e he
    rwa [skips, ignoreSpot_advance] at this
  have hparsed : s₁.skips d = false → InnerOrderDiff.tryFrom d.rawBookDiff = none →
      s.parsed batch.events = done := by
    intro hs hp
    rw [parsed, hevents, List.takeWhile_append_of_pos hdone', List.takeWhile_cons_of_neg,
      List.append_nil]
    simp [← hskips, hs, hp]
  set s₀ := (s.forgetZeroed batch.blockNumber).advance batch.blockNumber batch.time with hs₀
  have hbooks : s₀.orderBook = s.orderBook := by
    rw [hs₀, orderBook_advance]
    rfl
  have hstatuses : s₀.pendingOrderStatuses = s.pendingOrderStatuses := by
    rw [hs₀, pendingOrderStatuses_advance]
    rfl
  have hdiffs : s₀.pendingNewDiffs = s.pendingNewDiffs := by
    rw [hs₀, pendingNewDiffs_advance]
    rfl
  have halike : s.ForgetsNothing batch.blockNumber → Alike s s₀ := by
    intro hforgets
    rw [hs₀, forgetZeroed_eq_self hforgets, advance]
    split
    · exact ⟨rfl, fun _ => rfl, fun _ _ => Iff.rfl, rfl, rfl, rfl, rfl⟩
    · exact .refl s
  have hreturns := returns_applied happlied
  constructor
  · intro huntouched
    obtain ⟨rfl, hs, hp⟩ := failed_of_statuses happlied hfailed fun _ _ _ _ hwaits => by
      rw [huntouched.statuses, ← hstatuses]
      exact fun hnone => hwaits (hreturns.statuses _ hnone)
    have hkept : Kept s₀ s' := by
      refine ⟨fun c hc => ?_, fun c k hk => ?_, fun k hk => ?_, fun k hk => ?_⟩
      · rw [huntouched.coins, ← hbooks]
        exact hc
      · obtain ⟨o, ho⟩ := Option.ne_none_iff_exists'.mp hk
        have hoid : oid o = k := (s₀.orderBook.valid c).oid_eq ho
        have hmem : o ∈ s'.orderBook.queue c (side o) (limitPx o) := by
          rw [huntouched.queues, ← hbooks, OrderBooks.mem_queue, hoid]
          exact ⟨ho, rfl, rfl⟩
        rw [OrderBooks.mem_queue, hoid] at hmem
        simp [hmem.1]
      · rwa [huntouched.statuses, ← hstatuses]
      · rw [huntouched.set]
        rw [hs₀, zeroedSet_advance] at hk
        exact s.mem_zeroedSet_of_forgetZeroed _ hk
    have hsteady := steady_applied happlied hkept
    have heffect := effect_applied happlied hsteady
    have hforgets : s.ForgetsNothing batch.blockNumber := by
      refine forgetsNothing_of_eq (Eq.trans ?_ huntouched.recently)
      rw [heffect.alike.recently, hs₀, advance]
      split <;> rfl
    have hsame := halike hforgets
    refine ⟨hforgets, ?_⟩
    rw [hparsed hs hp]
    refine ⟨fun e he => (hsame.steady e).mp (hsteady e he), fun c k o ho => ?_, fun k => ?_⟩
    · have hoid : oid o = k := (s.orderBook.valid c).oid_eq ho
      have hqueue := heffect.queues c (side o) (limitPx o)
      rw [huntouched.queues, hbooks, hsame.updatedSz] at hqueue
      have hmem : o ∈ s.orderBook.queue c (side o) (limitPx o) :=
        OrderBooks.mem_queue.mpr ⟨hoid ▸ ho, rfl, rfl⟩
      have hfixed := List.map_inj_left.mp ((List.map_id _).trans hqueue) o hmem
      have hsz := congrArg sz hfixed
      rw [sz_modifySz, hoid] at hsz
      exact hsz.symm
    · rw [← hsame.halfStep, ← hdiffs, ← heffect.halves, huntouched.diffs, hdiffs]
  · rintro ⟨hforgets, hidle⟩
    have hsame := halike hforgets
    have hinitial : done <+: s.parsed batch.events := by
      rw [parsed, hevents, List.takeWhile_append_of_pos hdone']
      exact List.prefix_append _ _
    have heffect := effect_applied happlied fun e he =>
      (hsame.steady e).mpr (hidle.steady e (hinitial.subset he))
    obtain ⟨rfl, hs, hp⟩ := failed_of_statuses happlied hfailed fun sz anchor hp hs hwaits => by
      have hmem : d ∈ s.parsed batch.events := by
        rw [parsed, hevents, List.takeWhile_append_of_pos hdone',
          List.takeWhile_cons_of_pos (by simp [hp])]
        simp
      have hsteady := hidle.steady d hmem
      rw [Steady, ← hskips, hs, hp] at hsteady
      rw [heffect.alike.statuses, hstatuses] at hwaits
      exact absurd (hsteady.resolve_left (by simp)) hwaits
    rw [hparsed hs hp] at hidle
    have hall := hsame.trans heffect.alike
    refine ⟨hall.coins, fun c side px => ?_, hall.statuses, ?_, hall.table, hall.recently, hall.set⟩
    · rw [heffect.queues, hbooks, hsame.updatedSz]
      refine (List.map_congr_left fun o ho => ?_).trans (List.map_id _)
      rw [hidle.sizes c (oid o) o (OrderBooks.mem_queue.mp ho).1, modifySz_sz]
      rfl
    · refine Std.ExtTreeMap.ext_getElem? fun k => ?_
      rw [heffect.halves, hdiffs, hsame.halfStep, hidle.halves]

end OrderBookState

/-- **A failed batch leaves no trace** exactly when it is one of diffs and its diffs before
the first that does not parse come to nothing. -/
theorem untouched_iff_harmless {s s' : OrderBookState} {i : Input}
    (h : applyInput s i = (s', .error .parse)) : s.Untouched s' ↔ i.Harmless s := by
  cases i with
  | statuses now batch => exact iff_of_false (not_untouched_statuses h) id
  | diffs now batch => exact untouched_diffs_iff h

end HlOrderbook

namespace HlOrderbook

section Example

open OrderBookState

attribute [local instance] SlabPolicy.latest FixedPoint.decimal

/-- The state of a snapshot in which order 7 rests. -/
private def resting7 : OrderBookState :=
  fromSnapshot ((∅ : Snapshots InnerL4Order).insert "BTC"
    ⟨[.limit "BTC" .bid 10000000000 200000000 7], []⟩) [] 0 0 true false true

/-- A diff of an order. -/
private def diffOf (oid : ℕ) (d : OrderDiff) : NodeDataOrderDiff := ⟨1, oid, "100", "BTC", d⟩

/-- **A diff that waits and is dropped, then one that does not parse.** -/
theorem untouched_dropped :
    (fromSnapshot ∅ [] 0 0 true false true).Untouched
      (applyInput (fromSnapshot ∅ [] 0 0 true false true) (.diffs 0 ⟨5, 5,
        [diffOf 7 (.new "2" none), diffOf 7 .remove, diffOf 8 (.new "x" none)]⟩)).1 := by
  have hfailed : (applyInput (fromSnapshot ∅ [] 0 0 true false true) (.diffs 0 ⟨5, 5,
      [diffOf 7 (.new "2" none), diffOf 7 .remove, diffOf 8 (.new "x" none)]⟩)).2 =
      .error .parse := by decide +kernel
  refine (untouched_iff_harmless (Prod.ext rfl hfailed)).mpr ⟨by simp [ForgetsNothing,
    fromSnapshot], ?_⟩
  have hnew : InnerOrderDiff.tryFrom (.new "2" none) = some (.new 200000000 none) := by
    decide +kernel
  have hparsed : (fromSnapshot ∅ [] 0 0 true false true).parsed
      [diffOf 7 (.new "2" none), diffOf 7 .remove, diffOf 8 (.new "x" none)] =
      [diffOf 7 (.new "2" none), diffOf 7 .remove] := by decide +kernel
  rw [hparsed]
  have hbooks : ∀ c k, (fromSnapshot ∅ [] 0 0 true false true).orderBook.find? c k = none := by
    intro c k
    simp [fromSnapshot, OrderBooks.find?_fromSnapshots, Snapshots.extractTriggers]
  refine ⟨?_, ?_, ?_⟩
  · intro d hd
    rcases List.mem_pair.mp hd with rfl | rfl
    · refine Or.inr ?_
      simp only [diffOf, hnew]
      decide +kernel
    · exact Or.inr ⟨hbooks _ _, by decide +kernel, by decide +kernel⟩
  · intro c k o ho
    rw [hbooks] at ho
    cases ho
  · intro k
    by_cases hk : 7 = k
    · subst hk
      change List.foldl _ _ _ = none
      decide +kernel
    · simp [halfStep, diffOf, hk]

/-- **A removal, then a diff that does not parse**: the order stays removed. -/
theorem not_untouched_removed :
    ¬ ∀ (i : Input) s', applyInput resting7 i = (s', .error .parse) → resting7.Untouched s' := by
  intro h
  have hfailed : (applyInput resting7
      (.diffs 0 ⟨5, 5, [diffOf 7 .remove, diffOf 8 (.new "x" none)]⟩)).2 = .error .parse := by
    decide +kernel
  have hcoins := (h _ _ (Prod.ext rfl hfailed)).coins "BTC"
  revert hcoins
  decide +kernel

end Example

end HlOrderbook
