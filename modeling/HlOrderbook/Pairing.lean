import HlOrderbook.StateSpec
import Mathlib.Data.List.Induction

/-!
# Pairing the two streams of a node

A node writes the statuses of its orders to one stream and the changes of its
book to another.  The server reads them independently and pairs each `New` diff
with the first status of its order, whichever comes first.  The reference is
`nodeBook`: an order's place comes from where it rested at the start or from its
first status, its size from the diffs alone.  For every well-formed history and
every interleaving of the two streams the state ends as `nodeBook` says.

## Main definitions

* `nodeBook s₀ statuses diffs` — what rests after the two streams.
* `WellFormed s₀ statuses diffs` — what a node's history satisfies.
* `Paired` — the invariant of the pairing, over the consumed prefixes.
* `runInputs` — applying batches of the two streams in some order.
-/

set_option autoImplicit false
set_option linter.unusedSectionVars false

namespace HlOrderbook

/-- Whether a diff places an order. -/
def OrderDiff.isNew : OrderDiff → Bool
  | .new .. => true
  | _ => false

/-- Whether a parsed diff places an order. -/
def InnerOrderDiff.isNew : InnerOrderDiff → Bool
  | .new .. => true
  | _ => false

theorem InnerOrderDiff.isNew_of_tryFrom [FixedPoint] {d : OrderDiff} {inner : InnerOrderDiff}
    (h : tryFrom d = some inner) : d.isNew = inner.isNew := by
  cases d with
  | new sz anchor =>
    simp only [tryFrom, Option.bind_eq_bind, Option.bind_eq_some_iff, Option.some.injEq] at h
    obtain ⟨_, -, rfl⟩ := h
    rfl
  | update origSz newSz =>
    simp only [tryFrom, Option.bind_eq_bind, Option.bind_eq_some_iff, Option.some.injEq] at h
    obtain ⟨_, -, _, -, rfl⟩ := h
    rfl
  | remove =>
    cases h
    rfl

variable [SlabPolicy] [FixedPoint]

/-! ## The reference -/

/-- An order's size after one of its diffs; none when it is not live. -/
def sizeStep (cur : Option ℕ) (d : OrderDiff) : Option ℕ :=
  match InnerOrderDiff.tryFrom d with
  | none => cur
  | some (.new sz _) => some sz
  | some (.update _ newSz) => if newSz = 0 then none else cur.map fun _ => newSz
  | some .remove => none

/-- The size of an order of a coin after some diffs. -/
def sizeAfter (cur : Option ℕ) (diffs : List NodeDataOrderDiff) (c : Coin) (k : ℕ) : Option ℕ :=
  diffs.foldl (fun cur d => if d.coin = c ∧ d.oid = k then sizeStep cur d.rawBookDiff else cur) cur

/-- The first status of an order. -/
def firstStatus (statuses : List NodeDataOrderStatus) (k : ℕ) : Option NodeDataOrderStatus :=
  statuses.find? fun st => st.order.oid = k

/-- The side and price of an order of a coin: where it rests at the start, else
what its first status says. -/
def placeOf (s₀ : OrderBookState) (statuses : List NodeDataOrderStatus) (c : Coin) (k : ℕ) :
    Option (Side × ℕ) :=
  match s₀.resting c k with
  | some (side, px, _) => some (side, px)
  | none => do
    let st ← firstStatus statuses k
    if st.order.coin = c then
      let px ← FixedPoint.parse st.order.limitPx
      some (st.order.side, px)
    else none

/-- The size of an order after some diffs, from its size at the start. -/
def liveSz (s₀ : OrderBookState) (diffs : List NodeDataOrderDiff) (c : Coin) (k : ℕ) : Option ℕ :=
  sizeAfter ((s₀.resting c k).map fun q => q.2.2) diffs c k

/-- What rests after the two streams: the orders of the start as the diffs left
them, and the orders that had a `New` diff and a status. -/
def nodeBook (s₀ : OrderBookState) (statuses : List NodeDataOrderStatus)
    (diffs : List NodeDataOrderDiff) (c : Coin) (k : ℕ) : Option (Side × ℕ × ℕ) := do
  let (side, px) ← placeOf s₀ statuses c k
  let sz ← liveSz s₀ diffs c k
  some (side, px, sz)

/-- A well-formed history on top of a state without pending halves.  A `New` is
the first diff of its order, which the state does not know; it is positive, all
diffs parse, and all diffs of the order name one coin; its first status is one
that rests, parses, is not before 1970 and names that coin, and the later ones do
not rest.  No coin is ignored, and no bid of the reference is ever at or above an
ask. -/
structure WellFormed (s₀ : OrderBookState) (statuses : List NodeDataOrderStatus)
    (diffs : List NodeDataOrderDiff) : Prop where
  noStatuses : s₀.pendingOrderStatuses = ∅
  noDiffs : s₀.pendingNewDiffs = ∅
  newFirst : ∀ pre d post, diffs = pre ++ d :: post → d.rawBookDiff.isNew = true →
    ∀ e ∈ pre, e.oid ≠ d.oid
  newUnknown : ∀ d ∈ diffs, d.rawBookDiff.isNew = true →
    (∀ c, s₀.resting c d.oid = none) ∧ d.oid ∉ s₀.zeroedSet
  oneCoin : ∀ d ∈ diffs, d.rawBookDiff.isNew = true → ∀ e ∈ diffs, e.oid = d.oid → e.coin = d.coin
  parses : ∀ d ∈ diffs, InnerOrderDiff.tryFrom d.rawBookDiff ≠ none
  positive : ∀ d ∈ diffs, ∀ sz anchor,
    InnerOrderDiff.tryFrom d.rawBookDiff = some (.new sz anchor) → 0 < sz
  notIgnored : ∀ d ∈ diffs, (d.coin.isSpot && s₀.ignoreSpot) = false
  opening : ∀ d ∈ diffs, d.rawBookDiff.isNew = true → ∀ st, firstStatus statuses d.oid = some st →
    st.isInsertedIntoBook = true ∧ st.order.coin = d.coin ∧
      InnerL4Order.tryFrom st.user st.order ≠ none ∧ 0 ≤ st.time
  terminal : ∀ d ∈ diffs, d.rawBookDiff.isNew = true → ∀ pre st post,
    statuses = pre ++ st :: post → st.order.oid = d.oid → (∃ e ∈ pre, e.order.oid = d.oid) →
      st.isInsertedIntoBook = false
  uncrossed : ∀ pre, pre <+: diffs → QuoteBook.Uncrossed (nodeBook s₀ statuses pre)

/-! ## Facts about the reference -/

section Reference

variable {s₀ : OrderBookState} {statuses S : List NodeDataOrderStatus}
  {diffs D : List NodeDataOrderDiff}

@[simp] theorem sizeAfter_nil (cur : Option ℕ) (c : Coin) (k : ℕ) : sizeAfter cur [] c k = cur := rfl

theorem sizeAfter_concat (cur : Option ℕ) (D : List NodeDataOrderDiff) (d : NodeDataOrderDiff)
    (c : Coin) (k : ℕ) : sizeAfter cur (D ++ [d]) c k =
      if d.coin = c ∧ d.oid = k then sizeStep (sizeAfter cur D c k) d.rawBookDiff
      else sizeAfter cur D c k := by
  simp [sizeAfter, List.foldl_append]

theorem liveSz_concat (s₀ : OrderBookState) (D : List NodeDataOrderDiff) (d : NodeDataOrderDiff)
    (c : Coin) (k : ℕ) : liveSz s₀ (D ++ [d]) c k =
      if d.coin = c ∧ d.oid = k then sizeStep (liveSz s₀ D c k) d.rawBookDiff
      else liveSz s₀ D c k := sizeAfter_concat _ D d c k

/-- A diff that does not place an order leaves an order that is not live so. -/
theorem sizeStep_none {d : OrderDiff} (h : d.isNew = false) : sizeStep none d = none := by
  cases d with
  | new sz anchor => simp [OrderDiff.isNew] at h
  | update origSz newSz =>
    simp only [sizeStep, InnerOrderDiff.tryFrom]
    cases FixedPoint.parse origSz <;> cases FixedPoint.parse newSz <;> simp
  | remove => rfl

theorem sizeAfter_none {c : Coin} {k : ℕ}
    (h : ∀ d ∈ D, d.coin = c → d.oid = k → d.rawBookDiff.isNew = false) :
    sizeAfter none D c k = none := by
  induction D using List.reverseRecOn with
  | nil => rfl
  | append_singleton D d ih =>
    have hD := ih fun e he => h e (List.mem_append_left _ he)
    rw [sizeAfter_concat, hD]
    split
    case isTrue hd => exact sizeStep_none (h d (by simp) hd.1 hd.2)
    case isFalse => rfl

theorem liveSz_pos (h : ∀ d ∈ D, ∀ sz anchor,
      InnerOrderDiff.tryFrom d.rawBookDiff = some (.new sz anchor) → 0 < sz) {c : Coin} {k sz : ℕ}
    (hsz : liveSz s₀ D c k = some sz) : 0 < sz := by
  induction D using List.reverseRecOn generalizing sz with
  | nil =>
    obtain ⟨⟨side, px, sz'⟩, hr, rfl⟩ := Option.map_eq_some_iff.mp hsz
    exact OrderBookState.resting_positive hr
  | append_singleton D d ih =>
    have hD : ∀ {sz}, liveSz s₀ D c k = some sz → 0 < sz :=
      ih fun e he => h e (List.mem_append_left _ he)
    rw [liveSz_concat] at hsz
    split at hsz
    case isTrue =>
      simp only [sizeStep] at hsz
      cases hp : InnerOrderDiff.tryFrom d.rawBookDiff with
      | none => rw [hp] at hsz; exact hD hsz
      | some inner =>
        rw [hp] at hsz
        cases inner with
        | new sz' anchor =>
          cases hsz
          exact h d (by simp) _ _ hp
        | update origSz newSz =>
          by_cases h0 : newSz = 0
          · simp [h0] at hsz
          · simp only [h0, if_false, Option.map_eq_some_iff] at hsz
            obtain ⟨-, -, rfl⟩ := hsz
            omega
        | remove => simp at hsz
    case isFalse => exact hD hsz

theorem firstStatus_concat (S : List NodeDataOrderStatus) (st : NodeDataOrderStatus) (k : ℕ) :
    firstStatus (S ++ [st]) k =
      (firstStatus S k).or (if st.order.oid = k then some st else none) := by
  rw [firstStatus, List.find?_append]
  congr 1
  by_cases h : st.order.oid = k <;> simp [h]

theorem firstStatus_concat_of_ne (S : List NodeDataOrderStatus) {st : NodeDataOrderStatus} {k : ℕ}
    (h : st.order.oid ≠ k) : firstStatus (S ++ [st]) k = firstStatus S k := by
  simp [firstStatus_concat, h]

theorem firstStatus_mono (h : S <+: statuses) {k : ℕ} {st : NodeDataOrderStatus}
    (hk : firstStatus S k = some st) : firstStatus statuses k = some st := by
  obtain ⟨S', rfl⟩ := h
  rw [firstStatus, List.find?_append]
  rw [firstStatus] at hk
  simp [hk]

theorem oid_of_firstStatus {k : ℕ} {st : NodeDataOrderStatus} (h : firstStatus S k = some st) :
    st.order.oid = k := by
  simpa using List.find?_some h

theorem mem_of_firstStatus {k : ℕ} {st : NodeDataOrderStatus} (h : firstStatus S k = some st) :
    st ∈ S := List.mem_of_find?_eq_some h

theorem placeOf_of_resting {c : Coin} {k : ℕ} {q : Side × ℕ × ℕ}
    (h : s₀.resting c k = some q) (S : List NodeDataOrderStatus) :
    placeOf s₀ S c k = some (q.1, q.2.1) := by
  simp [placeOf, h]

theorem placeOf_of_firstStatus_none {c : Coin} {k : ℕ} (h : s₀.resting c k = none)
    (hf : firstStatus S k = none) : placeOf s₀ S c k = none := by
  simp [placeOf, h, hf]

theorem placeOf_congr {S' : List NodeDataOrderStatus} {k : ℕ}
    (h : firstStatus S' k = firstStatus S k) (c : Coin) : placeOf s₀ S' c k = placeOf s₀ S c k := by
  simp [placeOf, h]

theorem placeOf_mono (h : S <+: statuses) {c : Coin} {k : ℕ} {p : Side × ℕ}
    (hp : placeOf s₀ S c k = some p) : placeOf s₀ statuses c k = some p := by
  cases hr : s₀.resting c k with
  | some q => rwa [placeOf_of_resting hr] at hp ⊢
  | none =>
    cases hf : firstStatus S k with
    | none => rw [placeOf_of_firstStatus_none hr hf] at hp; simp at hp
    | some st => rwa [placeOf_congr ((firstStatus_mono h hf).trans hf.symm)]

theorem nodeBook_eq_some {c : Coin} {k : ℕ} {q : Side × ℕ × ℕ} :
    nodeBook s₀ S D c k = some q ↔
      placeOf s₀ S c k = some (q.1, q.2.1) ∧ liveSz s₀ D c k = some q.2.2 := by
  obtain ⟨side, px, sz⟩ := q
  simp only [nodeBook, Option.bind_eq_bind, Option.bind_eq_some_iff, Option.some.injEq,
    Prod.mk.injEq, Prod.exists]
  constructor
  · rintro ⟨side, px, hp, sz, hsz, rfl, rfl, rfl⟩
    exact ⟨hp, hsz⟩
  · rintro ⟨hp, hsz⟩
    exact ⟨side, px, hp, sz, hsz, rfl, rfl, rfl⟩

theorem nodeBook_of_place_none {c : Coin} {k : ℕ} (h : placeOf s₀ S c k = none) :
    nodeBook s₀ S D c k = none := by
  simp [nodeBook, h]

theorem nodeBook_of_live_none {c : Coin} {k : ℕ} (h : liveSz s₀ D c k = none) :
    nodeBook s₀ S D c k = none := by
  simp only [nodeBook, h]
  cases placeOf s₀ S c k <;> rfl

theorem nodeBook_mono (h : S <+: statuses) {c : Coin} {k : ℕ} {q : Side × ℕ × ℕ}
    (hq : nodeBook s₀ S D c k = some q) : nodeBook s₀ statuses D c k = some q := by
  rw [nodeBook_eq_some] at hq ⊢
  exact ⟨placeOf_mono h hq.1, hq.2⟩

end Reference

/-! ## The invariant -/

/-- The state after the prefixes `S` and `D` of the two streams.  What rests is
what the reference says of the prefixes; a status whose `New` is to come waits,
unless a later status of the order came first; a `New` whose status is to come
waits with the order's size, while it is live. -/
structure Paired (s₀ : OrderBookState) (diffs : List NodeDataOrderDiff)
    (S : List NodeDataOrderStatus) (D : List NodeDataOrderDiff) (s : OrderBookState) : Prop where
  ignoreSpot : s.ignoreSpot = s₀.ignoreSpot
  resting : ∀ c k, s.resting c k = nodeBook s₀ S D c k
  waitingStatus : ∀ d ∈ diffs, d.rawBookDiff.isNew = true → (∀ e ∈ D, e.oid ≠ d.oid) →
    (s.pendingOrderStatuses[d.oid]?).map Prod.fst = firstStatus S d.oid
  waitingNew : ∀ d ∈ D, d.rawBookDiff.isNew = true →
    (s.pendingNewDiffs[d.oid]?).map PendingNew.sz =
      if (firstStatus S d.oid).isNone then liveSz s₀ D d.coin d.oid else none
  noNew : ∀ k, (∀ d ∈ D, d.rawBookDiff.isNew = true → d.oid ≠ k) → s.pendingNewDiffs[k]? = none
  zeroed : ∀ d ∈ diffs, d.rawBookDiff.isNew = true → d.oid ∈ s.zeroedSet →
    d ∈ D ∧ liveSz s₀ D d.coin d.oid = none

namespace Paired

variable {s₀ s : OrderBookState} {statuses S : List NodeDataOrderStatus}
  {diffs D : List NodeDataOrderDiff}

theorem start (H : WellFormed s₀ statuses diffs) : Paired s₀ diffs [] [] s₀ where
  ignoreSpot := rfl
  resting c k := by
    cases hr : s₀.resting c k with
    | none => rw [nodeBook_of_place_none (placeOf_of_firstStatus_none hr rfl)]
    | some q =>
      symm
      rw [nodeBook_eq_some]
      exact ⟨placeOf_of_resting hr [], by simp [liveSz, hr]⟩
  waitingStatus d _ _ _ := by simp [H.noStatuses, firstStatus]
  waitingNew d hd := by simp at hd
  noNew k _ := by simp [H.noDiffs]
  zeroed d hd hnew hz := absurd hz (H.newUnknown d hd hnew).2

/-- The header of a batch changes nothing the invariant speaks of. -/
theorem advance (h : Paired s₀ diffs S D s) (height time : ℕ) :
    Paired s₀ diffs S D (s.advance height time) where
  ignoreSpot := by simpa using h.ignoreSpot
  resting c k := by simpa [OrderBookState.resting] using h.resting c k
  waitingStatus := by simpa using h.waitingStatus
  waitingNew := by simpa using h.waitingNew
  noNew := by simpa using h.noNew
  zeroed := by simpa using h.zeroed

theorem forgetZeroed (h : Paired s₀ diffs S D s) (height : ℕ) :
    Paired s₀ diffs S D (s.forgetZeroed height) where
  ignoreSpot := h.ignoreSpot
  resting := h.resting
  waitingStatus := h.waitingStatus
  waitingNew := h.waitingNew
  noNew := h.noNew
  zeroed d hd hnew hz := h.zeroed d hd hnew (s.mem_zeroedSet_of_forgetZeroed height hz)

/-- An order that is neither placed nor waiting is not live. -/
theorem live_none (H : WellFormed s₀ statuses diffs) (hD : D <+: diffs) (h : Paired s₀ diffs S D s)
    {k : ℕ} (hp : s.pendingNewDiffs[k]? = none) (hf : firstStatus S k = none) {c : Coin}
    (hr : s₀.resting c k = none) : liveSz s₀ D c k = none := by
  by_cases hex : ∃ d ∈ D, d.rawBookDiff.isNew = true ∧ d.oid = k
  · obtain ⟨d, hd, hnew, rfl⟩ := hex
    by_cases hc : d.coin = c
    · have hw := h.waitingNew d hd hnew
      rw [hp, hf] at hw
      subst hc
      simpa using hw.symm
    · have hdd : d ∈ diffs := hD.subset hd
      rw [liveSz, hr]
      refine sizeAfter_none fun e he hec hek => ?_
      exact absurd ((H.oneCoin d hdd hnew e (hD.subset he) hek).symm.trans hec) hc
  · rw [liveSz, hr]
    refine sizeAfter_none fun e he _ hek => ?_
    by_contra hnew
    exact hex ⟨e, he, by simpa using hnew, hek⟩

/-- A `New` whose order rests does not wait. -/
theorem not_waiting (H : WellFormed s₀ statuses diffs) (hD : D <+: diffs)
    (h : Paired s₀ diffs S D s) {c : Coin} {k : ℕ} (hr : (s.resting c k).isSome) :
    s.pendingNewDiffs[k]? = none := by
  by_cases hex : ∃ d ∈ D, d.rawBookDiff.isNew = true ∧ d.oid = k
  · obtain ⟨d, hd, hnew, rfl⟩ := hex
    have hw := h.waitingNew d hd hnew
    have hs₀ := (H.newUnknown d (hD.subset hd) hnew).1 c
    cases hf : firstStatus S d.oid with
    | none =>
      rw [h.resting, nodeBook_of_place_none (placeOf_of_firstStatus_none hs₀ hf)] at hr
      simp at hr
    | some st =>
      rw [hf] at hw
      simpa using hw
  · refine h.noNew k fun d hd hnew hk => hex ⟨d, hd, hnew, hk⟩

/-! ## One status -/

/-- The reference does not change at a status that finds nothing to pair with. -/
private theorem nodeBook_status (H : WellFormed s₀ statuses diffs) (hD : D <+: diffs)
    (h : Paired s₀ diffs S D s) {st : NodeDataOrderStatus}
    (hp : s.pendingNewDiffs[st.order.oid]? = none) (c : Coin) (k : ℕ) :
    nodeBook s₀ (S ++ [st]) D c k = nodeBook s₀ S D c k := by
  by_cases hk : st.order.oid = k
  · subst hk
    cases hr : s₀.resting c st.order.oid with
    | some q => simp only [nodeBook, placeOf_of_resting hr]
    | none =>
      cases hf : firstStatus S st.order.oid with
      | none =>
        have hl := h.live_none H hD hp hf hr
        rw [nodeBook_of_live_none hl, nodeBook_of_live_none hl]
      | some st' =>
        have : firstStatus (S ++ [st]) st.order.oid = firstStatus S st.order.oid := by
          simp [firstStatus_concat, hf]
        simp only [nodeBook, placeOf_congr this]
  · simp only [nodeBook, placeOf_congr (firstStatus_concat_of_ne S hk)]

/-- A `New` that waits is that of a live order without a status. -/
private theorem waits (h : Paired s₀ diffs S D s) {k : ℕ} {pending : PendingNew}
    (hp : s.pendingNewDiffs[k]? = some pending) : ∃ d ∈ D, d.rawBookDiff.isNew = true ∧
      d.oid = k ∧ firstStatus S k = none ∧ liveSz s₀ D d.coin k = some pending.sz := by
  obtain ⟨d, hd, hnew, rfl⟩ : ∃ d ∈ D, d.rawBookDiff.isNew = true ∧ d.oid = k := by
    by_contra hex
    rw [h.noNew _ fun d hd hnew hk => hex ⟨d, hd, hnew, hk⟩] at hp
    simp at hp
  have hw := h.waitingNew d hd hnew
  rw [hp] at hw
  cases hf : firstStatus S d.oid with
  | none =>
    rw [hf] at hw
    exact ⟨d, hd, hnew, rfl, rfl, by simpa using hw.symm⟩
  | some st => simp [hf] at hw

/-- The first status of an order whose `New` waits places the order. -/
private theorem nodeBook_pairs {st : NodeDataOrderStatus} {c : Coin} {q : Side × ℕ × ℕ}
    (hs₀ : ∀ c, s₀.resting c st.order.oid = none) (hf : firstStatus S st.order.oid = none)
    (hcoin : st.order.coin = c) (hbook : nodeBook s₀ (S ++ [st]) D c st.order.oid = some q)
    (c' : Coin) (k : ℕ) : nodeBook s₀ (S ++ [st]) D c' k =
      if c = c' ∧ st.order.oid = k then some q else nodeBook s₀ S D c' k := by
  by_cases hk : st.order.oid = k
  · subst hk
    by_cases hc : c = c'
    · subst hc
      simp [hbook]
    · have hne : ¬ st.order.coin = c' := hcoin ▸ hc
      have hplace : placeOf s₀ (S ++ [st]) c' st.order.oid = none := by
        simp [placeOf, hs₀, firstStatus_concat, hf, hne]
      rw [if_neg (by simp [hc]), nodeBook_of_place_none hplace,
        nodeBook_of_place_none (placeOf_of_firstStatus_none (hs₀ c') hf)]
  · rw [if_neg (by simp [hk])]
    simp only [nodeBook, placeOf_congr (firstStatus_concat_of_ne S hk)]

/-- What waits for another status waits on. -/
private theorem waitingNew_status (h : Paired s₀ diffs S D s) (st : NodeDataOrderStatus)
    (pending : Std.ExtTreeMap ℕ PendingNew) (hsame : pending[st.order.oid]? = none)
    (hother : ∀ k, st.order.oid ≠ k → pending[k]? = s.pendingNewDiffs[k]?) :
    ∀ d ∈ D, d.rawBookDiff.isNew = true → (pending[d.oid]?).map PendingNew.sz =
      if (firstStatus (S ++ [st]) d.oid).isNone then liveSz s₀ D d.coin d.oid else none := by
  intro d hd hnew
  by_cases hk : st.order.oid = d.oid
  · have hsome : (firstStatus (S ++ [st]) d.oid).isNone = false := by
      simp [firstStatus_concat, hk]
    rw [hsome, ← hk, hsame]
    rfl
  · rw [firstStatus_concat_of_ne S hk, hother _ hk]
    exact h.waitingNew d hd hnew

/-- A status finds the `New` of its order. -/
private theorem status_pairs (H : WellFormed s₀ statuses diffs) (hD : D <+: diffs)
    (h : Paired s₀ diffs S D s) {st : NodeDataOrderStatus} (hS : S ++ [st] <+: statuses) (now : ℕ)
    {pending : PendingNew} (hp : s.pendingNewDiffs[st.order.oid]? = some pending) :
    ∃ s' coins, s.applyOrderStatus now st = (s', .ok coins) ∧
      Paired s₀ diffs (S ++ [st]) D s' := by
  obtain ⟨d, hd, hnew, hoid, hf, hlive⟩ := h.waits hp
  have hdd : d ∈ diffs := hD.subset hd
  have hfirst : firstStatus statuses st.order.oid = some st :=
    firstStatus_mono hS (by simp [firstStatus_concat, hf])
  obtain ⟨-, hcoin, hparse, -⟩ := H.opening d hdd hnew st (hoid ▸ hfirst)
  obtain ⟨inner, hinner⟩ := Option.ne_none_iff_exists'.mp hparse
  obtain ⟨hic, his, hio, hip⟩ := InnerL4Order.tryFrom_eq_some hinner
  have hs₀ : ∀ c, s₀.resting c st.order.oid = none := hoid ▸ (H.newUnknown d hdd hnew).1
  have hplace : placeOf s₀ (S ++ [st]) d.coin st.order.oid = some (inner.side, inner.limitPx) := by
    simp [placeOf, hs₀, firstStatus_concat, hf, hcoin, hip, his]
  have hbook : nodeBook s₀ (S ++ [st]) D d.coin st.order.oid =
      some (inner.side, inner.limitPx, pending.sz) := nodeBook_eq_some.mpr ⟨hplace, hlive⟩
  unfold OrderBookState.applyOrderStatus
  simp only [OrderBookState.pendingNewDiffs_trackStatus, hp, hinner]
  refine ⟨_, _, rfl, ?_⟩
  set s₁ : OrderBookState := { s.trackStatus st with
    pendingNewDiffs := s.pendingNewDiffs.erase st.order.oid } with hs₁
  have hr₁ : ∀ c k, s₁.resting c k = s.resting c k := by
    intro c k
    simp [OrderBookState.resting, hs₁]
  have hnone : s₁.resting inner.coin inner.oid = none := by
    rw [hr₁, h.resting, hio]
    exact nodeBook_of_place_none (placeOf_of_firstStatus_none (hs₀ _) hf)
  have hpos : 0 < pending.sz := liveSz_pos (fun e he => H.positive e (hD.subset he)) hlive
  have hunmet : ∀ k x, s₁.resting inner.coin k = some x →
      placesCross (inner.side, inner.limitPx) (QuoteBook.place x) = false := by
    intro k x hk
    rw [hr₁, h.resting, hic, hcoin] at hk
    exact (H.uncrossed D hD).unmet (nodeBook_mono hS hbook)
      (nodeBook_mono ((List.prefix_append S [st]).trans hS) hk)
  have hrest := OrderBookState.resting_restPaired hnone hpos hunmet pending.insertBefore
    st.time.toNat
  have hwait := h.waitingNew_status st (s.pendingNewDiffs.erase st.order.oid) (by simp)
    fun k hk => by simp [Std.ExtTreeMap.getElem?_erase, hk]
  refine ⟨by simpa [hs₁] using h.ignoreSpot, fun c k => ?_, fun e he henew hfresh => ?_,
    by simpa [hs₁] using hwait, fun k hk => ?_, by simpa [hs₁] using h.zeroed⟩
  · rw [hrest, hr₁, h.resting, hic, hcoin, hio, nodeBook_pairs hs₀ hf hcoin hbook]
  · have hne : st.order.oid ≠ e.oid := fun hk => hfresh d hd (hoid.trans hk)
    rw [firstStatus_concat_of_ne S hne]
    simpa [hs₁] using h.waitingStatus e he henew hfresh
  · have hn := h.noNew k hk
    simp [hs₁, Std.ExtTreeMap.getElem?_erase, hn]

/-- A status that rests on the book waits for the `New` of its order. -/
private theorem status_waits (H : WellFormed s₀ statuses diffs) (hD : D <+: diffs)
    (h : Paired s₀ diffs S D s) {st : NodeDataOrderStatus} {S' : List NodeDataOrderStatus}
    (hS : statuses = S ++ st :: S') (now : ℕ) (hp : s.pendingNewDiffs[st.order.oid]? = none)
    (hins : st.isInsertedIntoBook = true) : ∃ s' coins,
      s.applyOrderStatus now st = (s', .ok coins) ∧ Paired s₀ diffs (S ++ [st]) D s' := by
  have hwait := h.waitingNew_status st _ hp fun _ _ => rfl
  unfold OrderBookState.applyOrderStatus
  simp only [OrderBookState.pendingNewDiffs_trackStatus, hp, hins, if_true]
  refine ⟨_, _, rfl, ⟨by simpa using h.ignoreSpot, fun c k => ?_, fun d hd hnew hfresh => ?_,
    by simpa using hwait, by simpa using h.noNew, by simpa using h.zeroed⟩⟩
  · rw [h.nodeBook_status H hD hp]
    simpa [OrderBookState.resting] using h.resting c k
  · by_cases hk : st.order.oid = d.oid
    · -- only the first status of an order rests on the book
      have hf : firstStatus S d.oid = none := by
        by_contra hf
        obtain ⟨st', hst'⟩ := Option.ne_none_iff_exists'.mp hf
        have hlater := H.terminal d hd hnew S st S' hS hk
          ⟨st', mem_of_firstStatus hst', oid_of_firstStatus hst'⟩
        rw [hins] at hlater
        simp at hlater
      simp [firstStatus_concat, hf, hk]
    · rw [firstStatus_concat_of_ne S hk]
      simpa [Std.ExtTreeMap.getElem?_insert, hk] using h.waitingStatus d hd hnew hfresh

/-- A status that does not rest on the book is not kept. -/
private theorem status_dropped (H : WellFormed s₀ statuses diffs) (hD : D <+: diffs)
    (h : Paired s₀ diffs S D s) {st : NodeDataOrderStatus} (hS : S ++ [st] <+: statuses) (now : ℕ)
    (hp : s.pendingNewDiffs[st.order.oid]? = none) (hins : st.isInsertedIntoBook = false) :
    ∃ s' coins, s.applyOrderStatus now st = (s', .ok coins) ∧
      Paired s₀ diffs (S ++ [st]) D s' := by
  have hwait := h.waitingNew_status st _ hp fun _ _ => rfl
  unfold OrderBookState.applyOrderStatus
  simp only [OrderBookState.pendingNewDiffs_trackStatus, hp, hins, if_false, Bool.false_eq_true]
  refine ⟨_, _, rfl, ⟨by simpa using h.ignoreSpot, fun c k => ?_, fun d hd hnew hfresh => ?_,
    by simpa using hwait, by simpa using h.noNew, by simpa using h.zeroed⟩⟩
  · rw [h.nodeBook_status H hD hp]
    simpa [OrderBookState.resting] using h.resting c k
  · -- it is not the first status of an order whose `New` is to come
    have heq : firstStatus (S ++ [st]) d.oid = firstStatus S d.oid := by
      by_cases hk : st.order.oid = d.oid
      · cases hf : firstStatus S d.oid with
        | none =>
          have hfirst : firstStatus statuses d.oid = some st :=
            firstStatus_mono hS (by simp [firstStatus_concat, hf, hk])
          have hrests := (H.opening d hd hnew st hfirst).1
          rw [hins] at hrests
          simp at hrests
        | some st' => simp [firstStatus_concat, hf]
      · exact firstStatus_concat_of_ne S hk
    rw [heq]
    simpa using h.waitingStatus d hd hnew hfresh

/-- **One status keeps the invariant, and does not fail.** -/
theorem status (H : WellFormed s₀ statuses diffs) (hD : D <+: diffs) (h : Paired s₀ diffs S D s)
    {st : NodeDataOrderStatus} {S' : List NodeDataOrderStatus} (hS : statuses = S ++ st :: S')
    (now : ℕ) : ∃ s' coins, s.applyOrderStatus now st = (s', .ok coins) ∧
      Paired s₀ diffs (S ++ [st]) D s' := by
  have hpre : S ++ [st] <+: statuses := ⟨S', by simp [hS]⟩
  cases hp : s.pendingNewDiffs[st.order.oid]? with
  | some pending => exact h.status_pairs H hD hpre now hp
  | none =>
    cases hins : st.isInsertedIntoBook with
    | true => exact h.status_waits H hD hS now hp hins
    | false => exact h.status_dropped H hD hpre now hp hins

/-! ## One diff -/

/-- The reference at a diff of another order. -/
private theorem nodeBook_other (S : List NodeDataOrderStatus) {d : NodeDataOrderDiff} {c : Coin}
    {k : ℕ} (h : ¬ (d.coin = c ∧ d.oid = k)) :
    nodeBook s₀ S (D ++ [d]) c k = nodeBook s₀ S D c k := by
  simp only [nodeBook, liveSz_concat, if_neg h]

/-- A diff that changes the size of its order, wherever the order is, keeps the
invariant. -/
private theorem resize (H : WellFormed s₀ statuses diffs) (h : Paired s₀ diffs S D s)
    {d : NodeDataOrderDiff} {D' : List NodeDataOrderDiff} (hD : diffs = D ++ d :: D')
    (hold : d.rawBookDiff.isNew = false) {r : Option ℕ}
    (hr : ∀ cur, sizeStep cur d.rawBookDiff = cur.bind fun _ => r) {s' : OrderBookState}
    (hspot : s'.ignoreSpot = s.ignoreSpot)
    (hstatuses : s'.pendingOrderStatuses = s.pendingOrderStatuses)
    (hresting : s'.resting = s.resting.resize d.coin d.oid r)
    (hdiffs : ∀ k, (s'.pendingNewDiffs[k]?).map PendingNew.sz = if d.oid = k then
      (s.pendingNewDiffs[k]?).bind fun _ => r else (s.pendingNewDiffs[k]?).map PendingNew.sz)
    (hzeroed : ∀ k, k ∈ s'.zeroedSet → (k = d.oid ∧ r = none) ∨ k ∈ s.zeroedSet) :
    Paired s₀ diffs S (D ++ [d]) s' := by
  have hsub : D ++ [d] <+: diffs := ⟨D', by simp [hD]⟩
  have hlive : ∀ {c k}, d.coin = c → d.oid = k →
      liveSz s₀ (D ++ [d]) c k = (liveSz s₀ D c k).bind fun _ => r := by
    intro c k hc hk
    rw [liveSz_concat, if_pos ⟨hc, hk⟩, hr]
  have hmem : ∀ {e}, e ∈ D ++ [d] → e.rawBookDiff.isNew = true → e ∈ D := by
    intro e he hnew
    rcases List.mem_append.mp he with he | he
    · exact he
    · rw [List.mem_singleton.mp he, hold] at hnew
      simp at hnew
  refine ⟨hspot.trans h.ignoreSpot, ?_, ?_, ?_, ?_, ?_⟩
  · intro c k
    rw [hresting, QuoteBook.resize, h.resting]
    split
    case isTrue hck =>
      simp only [nodeBook, hlive hck.1 hck.2]
      cases placeOf s₀ S c k <;> cases liveSz s₀ D c k <;> cases r <;> rfl
    case isFalse hck => exact (nodeBook_other S hck).symm
  · intro e he hnew hfresh
    rw [hstatuses]
    exact h.waitingStatus e he hnew fun x hx => hfresh x (List.mem_append_left _ hx)
  · intro e he hnew
    have heD := hmem he hnew
    rw [hdiffs]
    have hw := h.waitingNew e heD hnew
    by_cases hk : d.oid = e.oid
    · have hc : d.coin = e.coin :=
        H.oneCoin e (hsub.subset he) hnew d (hsub.subset (by simp)) hk
      rw [if_pos hk, hlive hc hk]
      cases hf : (firstStatus S e.oid).isNone with
      | true =>
        simp only [hf, if_true] at hw ⊢
        rw [← hw]
        cases s.pendingNewDiffs[e.oid]? <;> rfl
      | false =>
        simp only [hf, Bool.false_eq_true, if_false, Option.map_eq_none_iff] at hw ⊢
        rw [hw]
        rfl
    · have hne : ¬ (d.coin = e.coin ∧ d.oid = e.oid) := fun hx => hk hx.2
      rw [if_neg hk, liveSz_concat, if_neg hne]
      exact hw
  · intro k hk
    have hn := h.noNew k fun e he hnew => hk e (List.mem_append_left _ he) hnew
    have := hdiffs k
    rw [hn] at this
    simpa using this
  · intro e he hnew hz
    have hpre : ∀ {x}, x = e → d.oid = x.oid → x ∈ D := by
      rintro x rfl hk
      -- a `New` comes before every other diff of its order
      rw [hD, List.mem_append, List.mem_cons] at he
      rcases he with he | rfl | he
      · exact he
      · rw [hold] at hnew
        simp at hnew
      · obtain ⟨pre, post, rfl⟩ := List.append_of_mem he
        have := H.newFirst (D ++ d :: pre) x post (by simp [hD]) hnew d (by simp)
        exact absurd hk this
    rcases hzeroed e.oid hz with ⟨hk, rfl⟩ | hz
    · have heD := hpre rfl hk.symm
      have hc : d.coin = e.coin := H.oneCoin e he hnew d (hsub.subset (by simp)) hk.symm
      refine ⟨List.mem_append_left _ heD, ?_⟩
      rw [hlive hc hk.symm]
      cases liveSz s₀ D e.coin e.oid <;> rfl
    · obtain ⟨heD, hl⟩ := h.zeroed e he hnew hz
      refine ⟨List.mem_append_left _ heD, ?_⟩
      rw [liveSz_concat, hl]
      split
      · rw [hr]
        rfl
      · rfl

/-- A `New` makes its order live with its size. -/
private theorem liveSz_new {d : NodeDataOrderDiff} {sz : ℕ} {anchor : Option ℕ}
    (hp : InnerOrderDiff.tryFrom d.rawBookDiff = some (.new sz anchor)) :
    liveSz s₀ (D ++ [d]) d.coin d.oid = some sz := by
  rw [liveSz_concat, if_pos ⟨rfl, rfl⟩, sizeStep, hp]

/-- Another order is as live as before. -/
private theorem liveSz_other {d : NodeDataOrderDiff} {c : Coin} {k : ℕ} (h : d.oid ≠ k) :
    liveSz s₀ (D ++ [d]) c k = liveSz s₀ D c k := by
  rw [liveSz_concat, if_neg fun hx => h hx.2]

/-- Before its `New` an order that is new to the state is not live. -/
private theorem liveSz_fresh {k : ℕ} (hs₀ : ∀ c, s₀.resting c k = none)
    (hfresh : ∀ e ∈ D, e.oid ≠ k) (c : Coin) : liveSz s₀ D c k = none := by
  rw [liveSz, hs₀]
  exact sizeAfter_none fun e he _ hek => absurd hek (hfresh e he)

/-- The orders emptied before a `New` are other ones. -/
private theorem zeroed_new (h : Paired s₀ diffs S D s) {d : NodeDataOrderDiff}
    (hfresh : ∀ e ∈ D, e.oid ≠ d.oid) : ∀ e ∈ diffs, e.rawBookDiff.isNew = true →
      e.oid ∈ s.zeroedSet → e ∈ D ++ [d] ∧ liveSz s₀ (D ++ [d]) e.coin e.oid = none := by
  intro e he henew hz
  obtain ⟨heD, hl⟩ := h.zeroed e he henew hz
  exact ⟨List.mem_append_left _ heD, by rw [liveSz_other (hfresh e heD).symm, hl]⟩

/-- What waits for another `New` waits on. -/
private theorem waitingNew_other (h : Paired s₀ diffs S D s) {d e : NodeDataOrderDiff}
    (he : e ∈ D ++ [d]) (hnew : e.rawBookDiff.isNew = true) (hk : d.oid ≠ e.oid) :
    (s.pendingNewDiffs[e.oid]?).map PendingNew.sz =
      if (firstStatus S e.oid).isNone then liveSz s₀ (D ++ [d]) e.coin e.oid else none := by
  rw [liveSz_other hk]
  rcases List.mem_append.mp he with he | he
  · exact h.waitingNew e he hnew
  · exact absurd (by rw [List.mem_singleton.mp he]) hk

/-- A `New` finds the status of its order. -/
private theorem place_pairs (H : WellFormed s₀ statuses diffs) (hS : S <+: statuses)
    (h : Paired s₀ diffs S D s) {d : NodeDataOrderDiff} (hdd : d ∈ diffs)
    (hsub : D ++ [d] <+: diffs) (hfresh : ∀ e ∈ D, e.oid ≠ d.oid)
    (hnew : d.rawBookDiff.isNew = true) {sz : ℕ} {anchor : Option ℕ}
    (hp : InnerOrderDiff.tryFrom d.rawBookDiff = some (.new sz anchor)) (now height : ℕ)
    {st : NodeDataOrderStatus} {since : ℕ} (hst : s.pendingOrderStatuses[d.oid]? = some (st, since)) :
    ∃ s' coins, s.applyInnerDiff now height d.oid d.coin d.user (.new sz anchor) =
      (s', .ok coins) ∧ Paired s₀ diffs S (D ++ [d]) s' := by
  have hs₀ := (H.newUnknown d hdd hnew).1
  have hf : firstStatus S d.oid = some st := by
    have hw := h.waitingStatus d hdd hnew hfresh
    rw [hst] at hw
    exact hw.symm
  obtain ⟨-, hcoin, hparse, htime⟩ := H.opening d hdd hnew st (firstStatus_mono hS hf)
  obtain ⟨inner, hinner⟩ := Option.ne_none_iff_exists'.mp hparse
  obtain ⟨hic, his, hio, hip⟩ := InnerL4Order.tryFrom_eq_some hinner
  rw [oid_of_firstStatus hf] at hio
  have hplace : placeOf s₀ S d.coin d.oid = some (inner.side, inner.limitPx) := by
    simp [placeOf, hs₀, hf, hcoin, hip, his]
  have hbook : nodeBook s₀ S (D ++ [d]) d.coin d.oid = some (inner.side, inner.limitPx, sz) :=
    nodeBook_eq_some.mpr ⟨hplace, liveSz_new hp⟩
  have hlive₀ := liveSz_fresh hs₀ hfresh
  have hneg : ¬ st.time < 0 := by omega
  unfold OrderBookState.applyInnerDiff
  simp only [hst, hinner, hneg, if_false]
  refine ⟨_, _, rfl, ?_⟩
  set s₁ : OrderBookState :=
    { s with pendingOrderStatuses := s.pendingOrderStatuses.erase d.oid } with hs₁
  have hr₁ : ∀ c k, s₁.resting c k = s.resting c k := fun _ _ => rfl
  have hrnone : s₁.resting inner.coin inner.oid = none := by
    rw [hr₁, h.resting, hio]
    exact nodeBook_of_live_none (hlive₀ _)
  have hunmet : ∀ k x, s₁.resting inner.coin k = some x →
      placesCross (inner.side, inner.limitPx) (QuoteBook.place x) = false := by
    intro k x hk
    rw [hr₁, h.resting, hic, hcoin] at hk
    have hne : d.oid ≠ k := by
      rintro rfl
      rw [nodeBook_of_live_none (hlive₀ _)] at hk
      simp at hk
    rw [← nodeBook_other (d := d) S fun hx => hne hx.2] at hk
    exact (H.uncrossed _ hsub).unmet (nodeBook_mono hS hbook) (nodeBook_mono hS hk)
  have hrest := OrderBookState.resting_restPaired hrnone (H.positive d hdd sz anchor hp) hunmet
    anchor st.time.toNat
  refine ⟨by simpa [hs₁] using h.ignoreSpot, fun c k => ?_, fun e he henew hfr => ?_,
    fun e he henew => ?_, fun k hk => ?_, by simpa [hs₁] using h.zeroed_new hfresh⟩
  · rw [hrest, hr₁, h.resting, hic, hcoin, hio]
    by_cases hck : d.coin = c ∧ d.oid = k
    · obtain ⟨rfl, rfl⟩ := hck
      simp [hbook]
    · rw [if_neg hck, nodeBook_other S hck]
  · have hne : d.oid ≠ e.oid := hfr d (by simp)
    have hw := h.waitingStatus e he henew fun x hx => hfr x (List.mem_append_left _ hx)
    simpa [hs₁, Std.ExtTreeMap.getElem?_erase, hne] using hw
  · by_cases hk : d.oid = e.oid
    · simp [hs₁, ← hk, h.noNew _ fun e he _ => hfresh e he, hf]
    · simpa [hs₁] using h.waitingNew_other he henew hk
  · have hn := h.noNew k fun e he => hk e (List.mem_append_left _ he)
    simpa [hs₁] using hn

/-- A `New` waits for the status of its order. -/
private theorem place_waits (H : WellFormed s₀ statuses diffs) (h : Paired s₀ diffs S D s)
    {d : NodeDataOrderDiff} (hdd : d ∈ diffs) (hsub : D ++ [d] <+: diffs)
    (hfresh : ∀ e ∈ D, e.oid ≠ d.oid) (hnew : d.rawBookDiff.isNew = true) {sz : ℕ}
    {anchor : Option ℕ} (hp : InnerOrderDiff.tryFrom d.rawBookDiff = some (.new sz anchor))
    (now height : ℕ) (hst : s.pendingOrderStatuses[d.oid]? = none) :
    ∃ s' coins, s.applyInnerDiff now height d.oid d.coin d.user (.new sz anchor) =
      (s', .ok coins) ∧ Paired s₀ diffs S (D ++ [d]) s' := by
  have hs₀ := (H.newUnknown d hdd hnew).1
  have hf : firstStatus S d.oid = none := by
    have hw := h.waitingStatus d hdd hnew hfresh
    rw [hst] at hw
    exact hw.symm
  unfold OrderBookState.applyInnerDiff
  simp only [hst]
  refine ⟨_, _, rfl, ⟨h.ignoreSpot, fun c k => ?_, fun e he henew hfr => ?_,
    fun e he henew => ?_, fun k hk => ?_, h.zeroed_new hfresh⟩⟩
  · by_cases hk : d.oid = k
    · subst hk
      change s.resting c d.oid = _
      have hplace := placeOf_of_firstStatus_none (hs₀ c) hf
      rw [h.resting, nodeBook_of_place_none hplace, nodeBook_of_place_none hplace]
    · rw [nodeBook_other S fun hx => hk hx.2]
      exact h.resting c k
  · exact h.waitingStatus e he henew fun x hx => hfr x (List.mem_append_left _ hx)
  · by_cases hk : d.oid = e.oid
    · have hc : d.coin = e.coin := H.oneCoin e (hsub.subset he) henew d hdd hk
      simp [← hk, ← hc, hf, liveSz_new hp]
    · simpa [Std.ExtTreeMap.getElem?_insert, hk] using h.waitingNew_other he henew hk
  · have hn := h.noNew k fun e he => hk e (List.mem_append_left _ he)
    have hne : d.oid ≠ k := hk d (by simp) hnew
    simpa [Std.ExtTreeMap.getElem?_insert, hne] using hn

/-- Where an order does not wait, nothing that waits changes with it. -/
private theorem pending_kept {i : ℕ} (hnone : s.pendingNewDiffs[i]? = none) (r : Option ℕ) (k : ℕ) :
    (s.pendingNewDiffs[k]?).map PendingNew.sz = if i = k then
      (s.pendingNewDiffs[k]?).bind fun _ => r else (s.pendingNewDiffs[k]?).map PendingNew.sz := by
  split
  case isTrue hk =>
    subst hk
    rw [hnone]
    rfl
  case isFalse => rfl

/-- A change of size, of an order that rests or waits. -/
private theorem update (H : WellFormed s₀ statuses diffs) (h : Paired s₀ diffs S D s)
    {d : NodeDataOrderDiff} {D' : List NodeDataOrderDiff} (hD : diffs = D ++ d :: D')
    {origSz newSz : ℕ} (hp : InnerOrderDiff.tryFrom d.rawBookDiff = some (.update origSz newSz))
    (now height : ℕ) : ∃ s' coins,
      s.applyInnerDiff now height d.oid d.coin d.user (.update origSz newSz) = (s', .ok coins) ∧
        Paired s₀ diffs S (D ++ [d]) s' := by
  have hold : d.rawBookDiff.isNew = false := InnerOrderDiff.isNew_of_tryFrom hp
  set r : Option ℕ := if newSz = 0 then none else some newSz with hrdef
  have hr : ∀ cur, sizeStep cur d.rawBookDiff = cur.bind fun _ => r := by
    intro cur
    rw [sizeStep, hp, hrdef]
    cases cur <;> by_cases h0 : newSz = 0 <;> simp [h0]
  have hfind := s.resting_modifySz d.oid d.coin newSz
  rw [← hrdef] at hfind
  unfold OrderBookState.applyInnerDiff
  simp only [OrderBooks.modifySz_snd]
  by_cases hmod : (s.orderBook.find? d.coin d.oid).isSome = true
  · -- an order that rests does not wait
    have hrests : (s.resting d.coin d.oid).isSome = true := by
      simpa [OrderBookState.resting] using hmod
    have hdiffs := pending_kept (h.not_waiting H ⟨d :: D', hD.symm⟩ hrests) r
    simp only [hmod, if_true]
    by_cases h0 : newSz = 0
    · simp only [h0, if_true] at hfind ⊢
      refine ⟨_, _, rfl, ?_⟩
      set s₁ : OrderBookState := { s with orderBook := (s.orderBook.modifySz d.oid d.coin 0).1 }
        with hs₁
      obtain ⟨q, set', heq⟩ := s₁.noteZeroed_eq height d.oid
      have hz : ∀ k, k ∈ (s₁.noteZeroed height d.oid).zeroedSet →
          (k = d.oid ∧ r = none) ∨ k ∈ s.zeroedSet := by
        intro k hk
        rcases (s₁.mem_zeroedSet_noteZeroed).mp hk with rfl | hk
        · exact Or.inl ⟨rfl, by rw [hrdef, if_pos h0]⟩
        · exact Or.inr hk
      rw [heq] at hz ⊢
      exact h.resize H hD hold hr rfl rfl hfind hdiffs hz
    · simp only [h0, if_false]
      exact ⟨_, _, rfl, h.resize H hD hold hr rfl rfl hfind hdiffs fun _ => Or.inr⟩
  · simp only [hmod, if_false, Bool.false_eq_true]
    refine ⟨_, _, rfl, ?_⟩
    set s₁ : OrderBookState := { s with orderBook := (s.orderBook.modifySz d.oid d.coin newSz).1 }
      with hs₁
    have hdiffs := s₁.pendingNewDiffs_applyDiffToPendingNew d.oid (some newSz)
    have hfilter : (some newSz).filter (fun x => decide (0 < x)) = r := by
      rw [hrdef]
      by_cases h0 : newSz = 0
      · simp [h0]
      · have : 0 < newSz := by omega
        simp [h0, this]
    rw [hfilter] at hdiffs
    obtain ⟨m, heq⟩ := s₁.applyDiffToPendingNew_eq d.oid (some newSz)
    rw [heq] at hdiffs ⊢
    exact h.resize H hD hold hr rfl rfl hfind hdiffs fun _ => Or.inr

/-- An order emptied before its removal does not wait any more. -/
private theorem not_waiting_of_zeroed (hD : D <+: diffs) (h : Paired s₀ diffs S D s) {k : ℕ}
    (hz : k ∈ s.zeroedSet) : s.pendingNewDiffs[k]? = none := by
  by_cases hex : ∃ e ∈ D, e.rawBookDiff.isNew = true ∧ e.oid = k
  · obtain ⟨e, he, hnew, rfl⟩ := hex
    have hw := h.waitingNew e he hnew
    rw [(h.zeroed e (hD.subset he) hnew hz).2] at hw
    cases hpend : s.pendingNewDiffs[e.oid]? with
    | none => rfl
    | some p =>
      rw [hpend] at hw
      simp at hw
  · exact h.noNew _ fun e he hnew hk => hex ⟨e, he, hnew, hk⟩

/-- A removal, of an order that rests, was emptied, or waits. -/
private theorem remove (H : WellFormed s₀ statuses diffs) (h : Paired s₀ diffs S D s)
    {d : NodeDataOrderDiff} {D' : List NodeDataOrderDiff} (hD : diffs = D ++ d :: D')
    (hp : InnerOrderDiff.tryFrom d.rawBookDiff = some .remove) (now height : ℕ) : ∃ s' coins,
      s.applyInnerDiff now height d.oid d.coin d.user .remove = (s', .ok coins) ∧
        Paired s₀ diffs S (D ++ [d]) s' := by
  have hsub : D <+: diffs := ⟨d :: D', hD.symm⟩
  have hold : d.rawBookDiff.isNew = false := InnerOrderDiff.isNew_of_tryFrom hp
  have hr : ∀ cur, sizeStep cur d.rawBookDiff = cur.bind fun _ => none := by
    intro cur
    rw [sizeStep, hp]
    cases cur <;> rfl
  have hfind := s.resting_cancelOrder d.oid d.coin
  unfold OrderBookState.applyInnerDiff
  simp only [OrderBooks.cancelOrder_snd]
  by_cases hcan : (s.orderBook.find? d.coin d.oid).isSome = true
  · have hrests : (s.resting d.coin d.oid).isSome = true := by
      simpa [OrderBookState.resting] using hcan
    simp only [hcan, if_true]
    exact ⟨_, _, rfl, h.resize H hD hold hr rfl rfl hfind
      (pending_kept (h.not_waiting H hsub hrests) none) fun _ => Or.inr⟩
  · simp only [hcan, if_false, Bool.false_eq_true]
    by_cases hz : s.zeroedSet.contains d.oid = true
    · simp only [hz, if_true]
      exact ⟨_, _, rfl, h.resize H hD hold hr rfl rfl hfind
        (pending_kept (h.not_waiting_of_zeroed hsub hz) none) fun k hk =>
          Or.inr (Std.ExtTreeSet.mem_erase.mp hk).2⟩
    · simp only [hz, if_false, Bool.false_eq_true]
      refine ⟨_, _, rfl, ?_⟩
      set s₁ : OrderBookState := { s with orderBook := (s.orderBook.cancelOrder d.oid d.coin).1 }
        with hs₁
      have hdiffs := s₁.pendingNewDiffs_applyDiffToPendingNew d.oid none
      obtain ⟨m, heq⟩ := s₁.applyDiffToPendingNew_eq d.oid none
      rw [heq] at hdiffs ⊢
      exact h.resize H hD hold hr rfl rfl hfind hdiffs fun _ => Or.inr

/-- **One diff keeps the invariant, and does not fail.** -/
theorem diff (H : WellFormed s₀ statuses diffs) (hS : S <+: statuses) (h : Paired s₀ diffs S D s)
    {d : NodeDataOrderDiff} {D' : List NodeDataOrderDiff} (hD : diffs = D ++ d :: D')
    (now height : ℕ) : ∃ s' coins, s.applyOrderDiff now height d = (s', .ok coins) ∧
      Paired s₀ diffs S (D ++ [d]) s' := by
  have hdd : d ∈ diffs := by simp [hD]
  have hspot : (d.coin.isSpot && s.ignoreSpot) = false := by
    rw [h.ignoreSpot]
    exact H.notIgnored d hdd
  obtain ⟨inner, hp⟩ := Option.ne_none_iff_exists'.mp (H.parses d hdd)
  unfold OrderBookState.applyOrderDiff
  simp only [hspot, Bool.false_eq_true, if_false, hp]
  cases inner with
  | new sz anchor =>
    have hsub : D ++ [d] <+: diffs := ⟨D', by simp [hD]⟩
    have hnew : d.rawBookDiff.isNew = true := InnerOrderDiff.isNew_of_tryFrom hp
    have hfresh : ∀ e ∈ D, e.oid ≠ d.oid := H.newFirst D d D' hD hnew
    cases hst : s.pendingOrderStatuses[d.oid]? with
    | some waiting => exact h.place_pairs H hS hdd hsub hfresh hnew hp now height hst
    | none => exact h.place_waits H hdd hsub hfresh hnew hp now height hst
  | update origSz newSz => exact h.update H hD hp now height
  | remove => exact h.remove H hD hp now height

end Paired

/-! ## Runs -/

/-- A batch of one of the two streams, with the instant it is applied at. -/
inductive Input where
  | statuses (now : ℕ) (batch : Batch NodeDataOrderStatus)
  | diffs (now : ℕ) (batch : Batch NodeDataOrderDiff)

/-- The statuses an input brings. -/
def Input.statusEvents : Input → List NodeDataOrderStatus
  | .statuses _ batch => batch.events
  | .diffs .. => []

/-- The diffs an input brings. -/
def Input.diffEvents : Input → List NodeDataOrderDiff
  | .statuses .. => []
  | .diffs _ batch => batch.events

/-- Apply one batch. -/
def applyInput (s : OrderBookState) :
    Input → OrderBookState × Except Failure (Std.ExtTreeSet Coin)
  | .statuses now batch => s.applyOrderStatusesHft now batch
  | .diffs now batch => s.applyOrderDiffsHft now batch

/-- Apply batches one after the other; a failure ends the run. -/
def runInputs : List Input → OrderBookState → Except Failure OrderBookState
  | [], s => .ok s
  | input :: inputs, s =>
    match applyInput s input with
    | (s, .ok _) => runInputs inputs s
    | (_, .error f) => .error f

namespace Paired

variable {s₀ s : OrderBookState} {statuses S : List NodeDataOrderStatus}
  {diffs D : List NodeDataOrderDiff}

/-- **One batch keeps the invariant, and does not fail.** -/
theorem input (H : WellFormed s₀ statuses diffs) (h : Paired s₀ diffs S D s) (i : Input)
    (hS : S ++ i.statusEvents <+: statuses) (hD : D ++ i.diffEvents <+: diffs) :
    ∃ s' changed, applyInput s i = (s', .ok changed) ∧
      Paired s₀ diffs (S ++ i.statusEvents) (D ++ i.diffEvents) s' := by
  cases i with
  | statuses now batch =>
    have hD' : D <+: diffs := by simpa [Input.diffEvents] using hD
    obtain ⟨rest, hrest⟩ := hS
    obtain ⟨s', changed, h', hP⟩ := OrderBookState.applyAll_ok
      (OrderBookState.applyOrderStatus now) (fun S s => Paired s₀ diffs S D s) batch.events
      ∅ (h.advance batch.blockNumber batch.time) (by
        intro pre st post s hsplit hs
        have hst : statuses = pre ++ st :: (post ++ rest) := by
          rw [← hrest, Input.statusEvents, hsplit]
          simp
        exact hs.status H hD' hst now)
    exact ⟨s', changed, h', by simpa [Input.statusEvents, Input.diffEvents] using hP⟩
  | diffs now batch =>
    have hS' : S <+: statuses := by simpa [Input.statusEvents] using hS
    obtain ⟨rest, hrest⟩ := hD
    obtain ⟨s', changed, h', hP⟩ := OrderBookState.applyAll_ok
      (OrderBookState.applyOrderDiff now batch.blockNumber) (fun D s => Paired s₀ diffs S D s)
      batch.events ∅ ((h.forgetZeroed batch.blockNumber).advance batch.blockNumber batch.time) (by
        intro pre d post s hsplit hs
        have hd : diffs = pre ++ d :: (post ++ rest) := by
          rw [← hrest, Input.diffEvents, hsplit]
          simp
        exact hs.diff H hS' hd now batch.blockNumber)
    exact ⟨s', changed, h', by simpa [Input.statusEvents, Input.diffEvents] using hP⟩

theorem inputs (H : WellFormed s₀ statuses diffs) (is : List Input) (h : Paired s₀ diffs S D s)
    (hS : S ++ is.flatMap Input.statusEvents = statuses)
    (hD : D ++ is.flatMap Input.diffEvents = diffs) :
    ∃ s', runInputs is s = .ok s' ∧ Paired s₀ diffs statuses diffs s' := by
  induction is generalizing S D s with
  | nil =>
    simp only [List.flatMap_nil, List.append_nil] at hS hD
    subst hS hD
    exact ⟨s, rfl, h⟩
  | cons i is ih =>
    rw [List.flatMap_cons, ← List.append_assoc] at hS hD
    obtain ⟨s₁, changed, h₁, hP⟩ := h.input H i ⟨_, hS⟩ ⟨_, hD⟩
    obtain ⟨s', h', hP'⟩ := ih hP hS hD
    exact ⟨s', by simp only [runInputs, h₁, h'], hP'⟩

end Paired

/-- **The two streams of a well-formed history, interleaved and cut into batches
in any way, lead to the reference book.** -/
theorem runInputs_agrees {s₀ : OrderBookState} {statuses : List NodeDataOrderStatus}
    {diffs : List NodeDataOrderDiff} (H : WellFormed s₀ statuses diffs) (inputs : List Input)
    (hstatuses : inputs.flatMap Input.statusEvents = statuses)
    (hdiffs : inputs.flatMap Input.diffEvents = diffs) :
    ∃ s, runInputs inputs s₀ = .ok s ∧ ∀ c k, s.resting c k = nodeBook s₀ statuses diffs c k := by
  obtain ⟨s, hrun, h⟩ := (Paired.start H).inputs H inputs hstatuses hdiffs
  exact ⟨s, hrun, h.resting⟩

end HlOrderbook

namespace HlOrderbook

section Example

attribute [local instance] SlabPolicy.latest FixedPoint.decimal

/-- A node that places one bid and then shrinks it. -/
theorem wellFormed_shrunkBid :
    WellFormed (OrderBookState.fromSnapshot ∅ [] 0 0 true false true)
      [.opened (.limit "BTC" .bid "100" "2" 7)]
      [⟨1, 7, "100", "BTC", .new "2" none⟩, ⟨1, 7, "100", "BTC", .update "2" "1.5"⟩] := by
  have hnone : ∀ c k, (OrderBookState.fromSnapshot ∅ [] 0 0 true false true).resting c k = none := by
    intro c k
    rfl
  refine ⟨rfl, rfl, ?_, ?_, ?_, ?_, ?_, ?_, ?_, ?_, ?_⟩
  · rintro (_ | ⟨a, _ | ⟨b, pre⟩⟩) d post h hnew
    · simp
    · obtain ⟨-, rfl, -⟩ := by simpa using h
      simp [OrderDiff.isNew] at hnew
    · simp at h
  · intro d hd hnew
    simp only [hnone, true_and, implies_true]
    exact Std.ExtTreeSet.not_mem_empty
  · simp
  · decide
  · intro d hd sz anchor h
    simp only [List.mem_cons, List.not_mem_nil, or_false] at hd
    rcases hd with rfl | rfl
    · have : sz = 200000000 := by
        rw [show InnerOrderDiff.tryFrom (.new "2" none) = some (.new 200000000 none) by decide] at h
        simp_all
      omega
    · simp [show InnerOrderDiff.tryFrom (.update "2" "1.5") = some (.update 200000000 150000000)
        by decide] at h
  · decide
  · decide
  · rintro d hd hnew (_ | ⟨a, pre⟩) st post h hk ⟨e, he, -⟩
    · simp at he
    · simp at h
  · intro pre hpre c j k p q sz sz' hj hk
    have hplace := (nodeBook_eq_some.mp hk).1
    simp only [placeOf, hnone, Option.bind_eq_bind, Option.bind_eq_some_iff] at hplace
    obtain ⟨st, hst, hpx⟩ := hplace
    obtain rfl := List.mem_singleton.mp (mem_of_firstStatus hst)
    split at hpx
    · obtain ⟨_, -, hside⟩ := Option.bind_eq_some_iff.mp hpx
      cases hside
    · cases hpx

/-- The diffs first, then the status. -/
theorem runInputs_agrees_shrunkBid :
    ∃ s, runInputs [.diffs 0 ⟨5, 5, [⟨1, 7, "100", "BTC", .new "2" none⟩]⟩,
        .diffs 0 ⟨6, 6, [⟨1, 7, "100", "BTC", .update "2" "1.5"⟩]⟩,
        .statuses 0 ⟨5, 5, [.opened (.limit "BTC" .bid "100" "2" 7)]⟩]
        (OrderBookState.fromSnapshot ∅ [] 0 0 true false true) = .ok s ∧
      s.resting "BTC" 7 = some (.bid, 10000000000, 150000000) := by
  obtain ⟨s, hrun, h⟩ := runInputs_agrees wellFormed_shrunkBid
    [.diffs 0 ⟨5, 5, [⟨1, 7, "100", "BTC", .new "2" none⟩]⟩,
      .diffs 0 ⟨6, 6, [⟨1, 7, "100", "BTC", .update "2" "1.5"⟩]⟩,
      .statuses 0 ⟨5, 5, [.opened (.limit "BTC" .bid "100" "2" 7)]⟩] rfl rfl
  exact ⟨s, hrun, (h "BTC" 7).trans (by decide)⟩

end Example

end HlOrderbook
