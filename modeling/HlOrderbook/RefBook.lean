import HlOrderbook.BookRuns

/-!
# The reference book

A price-time-priority book with nothing in it but the queues: for each side and
price one plain list of orders.  There is no index, no sum of sizes and no pointer;
an order is looked up by searching, and a taker takes from the makers it meets,
best price first and oldest first, until its size is used up.

## Main definitions

* `RefBook O` and its operations, `RefBook.run`.
* `consume n makers` — what is left of a list of makers when `n` is taken from it.
* `RefBook.Added` — what adding an order does.
-/

set_option autoImplicit false
set_option linter.unusedSectionVars false

namespace HlOrderbook

/-- The queues of a book by side and price; a price without a list has no order. -/
structure RefBook (O : Type) where
  bids : Std.ExtTreeMap ℕ (List O)
  asks : Std.ExtTreeMap ℕ (List O)

variable {O : Type} [InnerOrder O]

open InnerOrder

/-! ## Lists of makers -/

/-- The sum of the sizes. -/
def totalOf (makers : List O) : ℕ := (makers.map sz).sum

@[simp] theorem totalOf_nil : totalOf ([] : List O) = 0 := rfl

@[simp] theorem totalOf_cons (m : O) (makers : List O) :
    totalOf (m :: makers) = sz m + totalOf makers := rfl

@[simp] theorem totalOf_append (xs ys : List O) : totalOf (xs ++ ys) = totalOf xs + totalOf ys := by
  simp [totalOf]

/-- What is left of the makers when a size is taken from them, the first one first. -/
def consume : ℕ → List O → List O
  | _, [] => []
  | n, m :: makers =>
    if sz m ≤ n then consume (n - sz m) makers else modifySz m (sz m - n) :: makers

@[simp] theorem consume_nil (n : ℕ) : consume n ([] : List O) = [] := rfl

theorem consume_zero {makers : List O} (h : ∀ m ∈ makers, 0 < sz m) : consume 0 makers = makers := by
  cases makers with
  | nil => rfl
  | cons m makers =>
    have := h m List.mem_cons_self
    rw [consume, if_neg (by omega), Nat.sub_zero, modifySz_sz]

/-- **Taking from two lists one after the other.** -/
theorem consume_append {xs ys : List O} (hys : ∀ m ∈ ys, 0 < sz m) (n : ℕ) :
    consume n (xs ++ ys) = consume n xs ++ consume (n - totalOf xs) ys := by
  induction xs generalizing n with
  | nil => simp
  | cons m xs ih =>
    by_cases hle : sz m ≤ n
    · simp only [List.cons_append, consume, if_pos hle, totalOf_cons]
      rw [ih, Nat.sub_sub]
    · have h0 : n - (sz m + totalOf xs) = 0 := by omega
      simp only [List.cons_append, consume, if_neg hle, totalOf_cons, h0]
      rw [consume_zero hys]

/-- The makers taken whole are a prefix, and at most the next one is taken in part. -/
theorem consume_split {makers : List O} (h : ∀ m ∈ makers, 0 < sz m) (n : ℕ) :
    ∃ gone rest, makers = gone ++ rest ∧ totalOf gone ≤ n ∧
      ((consume n makers = rest ∧ (rest = [] ∨ totalOf gone = n)) ∨
        ∃ m tail, rest = m :: tail ∧ 0 < n - totalOf gone ∧ n - totalOf gone < sz m ∧
          consume n makers = modifySz m (sz m - (n - totalOf gone)) :: tail) := by
  induction makers generalizing n with
  | nil => exact ⟨[], [], rfl, Nat.zero_le n, Or.inl ⟨rfl, Or.inl rfl⟩⟩
  | cons m makers ih =>
    have hmakers : ∀ m ∈ makers, 0 < sz m := fun m hm => h m (List.mem_cons_of_mem _ hm)
    by_cases hle : sz m ≤ n
    · obtain ⟨gone, rest, rfl, htotal, hcases⟩ := ih hmakers (n - sz m)
      refine ⟨m :: gone, rest, rfl, by simp only [totalOf_cons]; omega, ?_⟩
      rw [consume, if_pos hle, totalOf_cons, ← Nat.sub_sub]
      rcases hcases with ⟨hleft, hdone⟩ | hpart
      · refine Or.inl ⟨hleft, hdone.imp_right fun hn => ?_⟩
        omega
      · exact Or.inr hpart
    · rw [consume, if_neg hle]
      by_cases hn : n = 0
      · subst hn
        refine ⟨[], m :: makers, rfl, Nat.le_refl 0, Or.inl ⟨?_, Or.inr rfl⟩⟩
        rw [Nat.sub_zero, modifySz_sz]
      · refine ⟨[], m :: makers, rfl, Nat.zero_le n, Or.inr ⟨m, makers, rfl, ?_, ?_, rfl⟩⟩
        · simp only [totalOf_nil]
          omega
        · simp only [totalOf_nil]
          omega

/-! ## The book -/

/-- Put an order directly in front of the order with an identifier. -/
def insertInFront (anchor : ℕ) (order : O) : List O → List O
  | [] => [order]
  | o :: queue =>
    if oid o = anchor then order :: o :: queue else o :: insertInFront anchor order queue

/-- Put an order into a queue, in front of its anchor or at the back; whether an
anchor was not found. -/
def placeIn (queue : List O) (order : O) : Option ℕ → List O × Bool
  | none => (queue ++ [order], false)
  | some anchor =>
    if anchor ∈ queue.map oid then (insertInFront anchor order queue, false)
    else (queue ++ [order], true)

namespace RefBook

/-- The queues of one side. -/
def side (r : RefBook O) : Side → Std.ExtTreeMap ℕ (List O)
  | .ask => r.asks
  | .bid => r.bids

/-- Replace the queues of one side. -/
def setSide (r : RefBook O) (s : Side) (queues : Std.ExtTreeMap ℕ (List O)) : RefBook O :=
  match s with
  | .ask => { r with asks := queues }
  | .bid => { r with bids := queues }

/-- The queue of a side at a price. -/
def queue (r : RefBook O) (s : Side) (px : ℕ) : List O := ((r.side s)[px]?).getD []

/-- A book with no order. -/
def new : RefBook O := ⟨∅, ∅⟩

/-- Whether an order with an identifier rests. -/
def rests (r : RefBook O) (k : ℕ) : Bool :=
  (r.bids.toList ++ r.asks.toList).any fun x => x.2.any fun o => oid o = k

/-- The queues a taker meets, best price first. -/
def crossing (r : RefBook O) (taker : O) : List (ℕ × List O) :=
  let queues := (r.side (InnerOrder.side taker).opposite).toList
  (match InnerOrder.side taker with
    | .ask => queues.reverse
    | .bid => queues).filter fun x => crosses (InnerOrder.side taker) (limitPx taker) x.1

/-- The makers a taker meets, in priority order. -/
def makers (r : RefBook O) (taker : O) : List O := (r.crossing taker).flatMap Prod.snd

/-- The size of the makers that a taker meets before those at a price. -/
def ahead (levels : List (ℕ × List O)) (px : ℕ) : ℕ :=
  totalOf ((levels.takeWhile fun x => x.1 ≠ px).flatMap Prod.snd)

/-- A queue, unless it is empty. -/
def nonEmpty (queue : List O) : Option (List O) := if queue.isEmpty then none else some queue

/-- The other side once a taker has taken its size from it. -/
def matched (r : RefBook O) (taker : O) : Std.ExtTreeMap ℕ (List O) :=
  (r.side (InnerOrder.side taker).opposite).filterMap fun px queue =>
    if crosses (InnerOrder.side taker) (limitPx taker) px then
      nonEmpty (consume (sz taker - ahead (r.crossing taker) px) queue)
    else some queue

/-- What is left of a taker once it has met its makers. -/
def remaining (r : RefBook O) (taker : O) : ℕ :=
  sz taker - min (sz taker) (totalOf (r.makers taker))

/-- Match an order and rest what is left of it; whether an anchor was not found. -/
def addOrderBefore (r : RefBook O) (order : O) (insertBefore : Option ℕ) : RefBook O × Bool :=
  if r.rests (oid order) then (r, false)
  else
    let s := InnerOrder.side order
    let r' := r.setSide s.opposite (r.matched order)
    if 0 < r.remaining order then
      let (queue, fellBack) := placeIn (r'.queue s (limitPx order))
        (InnerOrder.modifySz order (r.remaining order)) insertBefore
      (r'.setSide s ((r'.side s).insert (limitPx order) queue), fellBack)
    else (r', false)

/-- Rest an order at the back of its queue. -/
def addOrder (r : RefBook O) (order : O) : RefBook O := (r.addOrderBefore order none).1

/-- Change every queue, and drop those left empty. -/
def edit (r : RefBook O) (f : List O → List O) : RefBook O :=
  ⟨r.bids.filterMap fun _ queue => nonEmpty (f queue),
    r.asks.filterMap fun _ queue => nonEmpty (f queue)⟩

/-- Remove an order. -/
def cancelOrder (r : RefBook O) (k : ℕ) : RefBook O × Bool :=
  (r.edit fun queue => queue.filter fun o => oid o ≠ k, r.rests k)

/-- Change an order's size where it stands; zero removes it. -/
def modifySz (r : RefBook O) (k newSz : ℕ) : RefBook O × Bool :=
  if newSz = 0 then r.cancelOrder k
  else (r.edit fun queue => queue.map fun o =>
    if oid o = k then InnerOrder.modifySz o newSz else o, r.rests k)

/-- Build a book by adding the bids, then the asks. -/
def fromSnapshot (snapshot : Snapshot O) (ignoreTriggers : Bool) : RefBook O :=
  let snapshot := if ignoreTriggers then snapshot.removeTriggers else snapshot
  snapshot.asks.foldl addOrder (snapshot.bids.foldl addOrder new)

/-- The book a run begins with. -/
def start : BookStart O → RefBook O
  | .new => new
  | .fromSnapshot snapshot ignoreTriggers => fromSnapshot snapshot ignoreTriggers

/-- One operation. -/
def step (r : RefBook O) : BookOp O → RefBook O
  | .addOrderBefore order insertBefore => (r.addOrderBefore order insertBefore).1
  | .cancelOrder oid => (r.cancelOrder oid).1
  | .modifySz oid newSz => (r.modifySz oid newSz).1
  | .compact => r

/-- A run of operations. -/
def run (r : RefBook O) (ops : List (BookOp O)) : RefBook O := ops.foldl step r

/-! ## The queues say it all -/

/-- No list is kept for a price without orders. -/
def Tidy (r : RefBook O) : Prop := ∀ s (px : ℕ) q, (r.side s)[px]? = some q → q ≠ []

theorem queue_of_some {r : RefBook O} {s : Side} {px : ℕ} {q : List O}
    (h : (r.side s)[px]? = some q) : r.queue s px = q := by
  simp [queue, h]

theorem Tidy.side_eq {r : RefBook O} (h : r.Tidy) (s : Side) (px : ℕ) :
    (r.side s)[px]? = nonEmpty (r.queue s px) := by
  cases hq : (r.side s)[px]? with
  | none => simp [queue, hq, nonEmpty]
  | some q => simp [queue, hq, nonEmpty, h s px q hq]

/-- **Two tidy books with the same queues are the same.** -/
theorem Tidy.ext {r r' : RefBook O} (h : r.Tidy) (h' : r'.Tidy)
    (hq : ∀ s px, r.queue s px = r'.queue s px) : r = r' := by
  have hside : ∀ s, r.side s = r'.side s := by
    intro s
    apply Std.ExtTreeMap.ext_getElem?
    intro px
    rw [h.side_eq, h'.side_eq, hq]
  obtain ⟨bids, asks⟩ := r
  obtain ⟨bids', asks'⟩ := r'
  have hbids : bids = bids' := hside .bid
  have hasks : asks = asks' := hside .ask
  rw [hbids, hasks]

@[simp] theorem side_setSide (r : RefBook O) (s : Side) (m : Std.ExtTreeMap ℕ (List O)) :
    (r.setSide s m).side s = m := by
  cases s <;> rfl

theorem side_setSide_of_ne (r : RefBook O) {s t : Side} (h : t ≠ s)
    (m : Std.ExtTreeMap ℕ (List O)) : (r.setSide s m).side t = r.side t := by
  cases s <;> cases t <;> first | rfl | exact absurd rfl h

theorem nonEmpty_eq_some {q q' : List O} : nonEmpty q = some q' ↔ q = q' ∧ q' ≠ [] := by
  rw [nonEmpty]
  cases q with
  | nil => simp
  | cons o q =>
    simp only [List.isEmpty_cons, Bool.false_eq_true, if_false, Option.some.injEq]
    constructor
    · rintro rfl
      exact ⟨rfl, List.cons_ne_nil o q⟩
    · exact fun h => h.1

@[simp] theorem nonEmpty_getD (q : List O) : (nonEmpty q).getD [] = q := by
  cases q <;> rfl

theorem getElem?_edit (r : RefBook O) (f : List O → List O) (s : Side) (px : ℕ) :
    ((r.edit f).side s)[px]? = ((r.side s)[px]?).bind fun q => nonEmpty (f q) := by
  cases s <;> exact Std.ExtTreeMap.getElem?_filterMap'

theorem tidy_edit (r : RefBook O) (f : List O → List O) : (r.edit f).Tidy := by
  intro s px q hq
  rw [getElem?_edit, Option.bind_eq_some_iff] at hq
  obtain ⟨q', -, hq'⟩ := hq
  exact (nonEmpty_eq_some.mp hq').2

theorem queue_edit (r : RefBook O) {f : List O → List O} (hf : f [] = []) (s : Side) (px : ℕ) :
    (r.edit f).queue s px = f (r.queue s px) := by
  rw [queue, getElem?_edit, queue]
  cases (r.side s)[px]? with
  | none => simp [hf]
  | some q => simp

theorem getElem?_matched (r : RefBook O) (taker : O) (px : ℕ) :
    (r.matched taker)[px]? = ((r.side (InnerOrder.side taker).opposite)[px]?).bind fun q =>
      if crosses (InnerOrder.side taker) (limitPx taker) px then
        nonEmpty (consume (sz taker - ahead (r.crossing taker) px) q)
      else some q := Std.ExtTreeMap.getElem?_filterMap'

theorem queue_setSide (r : RefBook O) (s : Side) (m : Std.ExtTreeMap ℕ (List O)) (px : ℕ) :
    (r.setSide s m).queue s px = (m[px]?).getD [] := by
  rw [queue, side_setSide]

theorem queue_setSide_of_ne (r : RefBook O) {s t : Side} (h : t ≠ s)
    (m : Std.ExtTreeMap ℕ (List O)) (px : ℕ) : (r.setSide s m).queue t px = r.queue t px := by
  rw [queue, side_setSide_of_ne _ h, queue]

/-! ## What adding an order does -/

theorem mem_crossing {r : RefBook O} {order : O} {x : ℕ × List O} : x ∈ r.crossing order ↔
    (r.side (InnerOrder.side order).opposite)[x.1]? = some x.2 ∧
      crosses (InnerOrder.side order) (limitPx order) x.1 = true := by
  rw [crossing, List.mem_filter]
  refine and_congr_left fun _ => Iff.trans ?_ Std.ExtTreeMap.mem_toList_iff_getElem?_eq_some
  split
  · exact List.mem_reverse
  · exact Iff.rfl

theorem nodup_crossing (r : RefBook O) (order : O) : ((r.crossing order).map Prod.fst).Nodup := by
  have hnd : ((r.side (InnerOrder.side order).opposite).toList.map Prod.fst).Nodup := by
    rw [Std.ExtTreeMap.map_fst_toList_eq_keys]
    exact Std.ExtTreeMap.nodup_keys
  rw [crossing]
  refine List.Nodup.sublist (List.Sublist.map _ List.filter_sublist) ?_
  split
  · simpa only [List.map_reverse, List.nodup_reverse] using hnd
  · exact hnd

/-- **Taking level by level is taking from the makers in priority order.** -/
theorem flatMap_consume {levels : List (ℕ × List O)} (hnd : (levels.map Prod.fst).Nodup)
    (hpos : ∀ x ∈ levels, ∀ o ∈ x.2, 0 < sz o) (n : ℕ) :
    levels.flatMap (fun x => consume (n - ahead levels x.1) x.2) =
      consume n (levels.flatMap Prod.snd) := by
  induction levels generalizing n with
  | nil => rfl
  | cons x levels ih =>
    rw [List.map_cons, List.nodup_cons] at hnd
    have hlevels : ∀ y ∈ levels, ∀ o ∈ y.2, 0 < sz o :=
      fun y hy => hpos y (List.mem_cons_of_mem _ hy)
    have htail : ∀ o ∈ levels.flatMap Prod.snd, 0 < sz o := by
      intro o ho
      obtain ⟨y, hy, hoy⟩ := List.mem_flatMap.mp ho
      exact hlevels y hy o hoy
    have hahead₀ : ahead (x :: levels) x.1 = 0 := by
      simp [ahead]
    have hahead : ∀ y ∈ levels, ahead (x :: levels) y.1 = totalOf x.2 + ahead levels y.1 := by
      intro y hy
      have hne : x.1 ≠ y.1 := fun he => hnd.1 (List.mem_map.mpr ⟨y, hy, he.symm⟩)
      simp [ahead, hne]
    rw [List.flatMap_cons, List.flatMap_cons, consume_append htail, ← ih hnd.2 hlevels, hahead₀,
      Nat.sub_zero]
    congr 1
    refine List.flatMap_congr fun y hy => ?_
    rw [hahead y hy, Nat.sub_sub]

/-- A book as runs leave it: no list is empty, every size is positive, and no list
holds an identifier twice. -/
structure Proper (r : RefBook O) : Prop where
  tidy : r.Tidy
  positive : ∀ s px, ∀ o ∈ r.queue s px, 0 < sz o
  once : ∀ s px, ((r.queue s px).map oid).Nodup

/-- What adding an order with a new identifier does.  The makers it meets are taken in
priority order: those taken whole are a prefix and at most the next one is taken in
part; nothing beyond its limit changes.  What is left of it rests directly in front of
its anchor, when that is in the same list, and else at the back. -/
structure Added (r : RefBook O) (order : O) (anchor : Option ℕ) (r' : RefBook O)
    (fellBack : Bool) : Prop where
  taken : ∃ gone rest left, r.makers order = gone ++ rest ∧
    (r.crossing order).flatMap (fun x => r'.queue (InnerOrder.side order).opposite x.1) = left ∧
    totalOf gone ≤ sz order ∧
    ((left = rest ∧ (rest = [] ∨ totalOf gone = sz order)) ∨
      ∃ m tail, rest = m :: tail ∧ 0 < sz order - totalOf gone ∧ sz order - totalOf gone < sz m ∧
        left = InnerOrder.modifySz m (sz m - (sz order - totalOf gone)) :: tail)
  beyond : ∀ px, crosses (InnerOrder.side order) (limitPx order) px = false →
    r'.queue (InnerOrder.side order).opposite px = r.queue (InnerOrder.side order).opposite px
  elsewhere : ∀ px, px ≠ limitPx order →
    r'.queue (InnerOrder.side order) px = r.queue (InnerOrder.side order) px
  spent : r.remaining order = 0 → r'.queue (InnerOrder.side order) (limitPx order) =
    r.queue (InnerOrder.side order) (limitPx order)
  front : ∀ xs o ys, 0 < r.remaining order → anchor = some (oid o) →
    r.queue (InnerOrder.side order) (limitPx order) = xs ++ o :: ys →
    r'.queue (InnerOrder.side order) (limitPx order) =
      xs ++ InnerOrder.modifySz order (r.remaining order) :: o :: ys
  back : 0 < r.remaining order →
    (∀ o ∈ r.queue (InnerOrder.side order) (limitPx order), anchor ≠ some (oid o)) →
    r'.queue (InnerOrder.side order) (limitPx order) =
      r.queue (InnerOrder.side order) (limitPx order) ++
        [InnerOrder.modifySz order (r.remaining order)]
  fellBack_iff : fellBack = true ↔ 0 < r.remaining order ∧ anchor ≠ none ∧
    ∀ o ∈ r.queue (InnerOrder.side order) (limitPx order), anchor ≠ some (oid o)

theorem insertInFront_split {anchor : ℕ} {order o : O} {xs ys : List O}
    (hxs : ∀ x ∈ xs, oid x ≠ anchor) (ho : oid o = anchor) :
    insertInFront anchor order (xs ++ o :: ys) = xs ++ order :: o :: ys := by
  induction xs with
  | nil => simp [insertInFront, ho]
  | cons x xs ih =>
    rw [List.cons_append, insertInFront, if_neg (hxs x List.mem_cons_self),
      ih fun y hy => hxs y (List.mem_cons_of_mem _ hy)]
    rfl

theorem placeIn_front (order : O) {o : O} {xs ys : List O}
    (hnd : ((xs ++ o :: ys).map oid).Nodup) :
    placeIn (xs ++ o :: ys) order (some (oid o)) = (xs ++ order :: o :: ys, false) := by
  have hmem : oid o ∈ (xs ++ o :: ys).map oid := List.mem_map.mpr ⟨o, by simp, rfl⟩
  rw [List.map_append, List.map_cons, List.nodup_middle, List.nodup_cons] at hnd
  have hne : ∀ x ∈ xs, oid x ≠ oid o := fun x hx he =>
    hnd.1 (List.mem_append_left _ (he ▸ List.mem_map_of_mem hx))
  rw [placeIn, if_pos hmem, insertInFront_split hne rfl]

theorem placeIn_back {queue : List O} {order : O} {anchor : Option ℕ}
    (h : ∀ o ∈ queue, anchor ≠ some (oid o)) :
    placeIn queue order anchor = (queue ++ [order], anchor.isSome) := by
  cases anchor with
  | none => rfl
  | some k =>
    have hk : k ∉ queue.map oid := by
      intro hmem
      obtain ⟨o, ho, rfl⟩ := List.mem_map.mp hmem
      exact h o ho rfl
    rw [placeIn, if_neg hk]
    rfl

theorem queue_matched_beyond {r : RefBook O} {order : O} {px : ℕ}
    (h : crosses (InnerOrder.side order) (limitPx order) px = false) :
    ((r.matched order)[px]?).getD [] = r.queue (InnerOrder.side order).opposite px := by
  rw [getElem?_matched, queue, h]
  cases (r.side (InnerOrder.side order).opposite)[px]? <;> rfl

theorem Proper.makers_matched {r : RefBook O} (h : r.Proper) (order : O) :
    (r.crossing order).flatMap (fun x => ((r.matched order)[x.1]?).getD []) =
      consume (sz order) (r.makers order) := by
  rw [makers, ← flatMap_consume (nodup_crossing r order)]
  · refine List.flatMap_congr fun x hx => ?_
    obtain ⟨hq, hc⟩ := mem_crossing.mp hx
    rw [getElem?_matched, hq, hc]
    simp
  · intro x hx o ho
    refine h.positive (InnerOrder.side order).opposite x.1 o ?_
    rwa [queue_of_some (mem_crossing.mp hx).1]

/-- **Adding an order with a new identifier.** -/
theorem Proper.added {r : RefBook O} (h : r.Proper) {order : O}
    (hfresh : r.rests (oid order) = false) (anchor : Option ℕ) :
    r.Added order anchor (r.addOrderBefore order anchor).1 (r.addOrderBefore order anchor).2 := by
  set s := InnerOrder.side order with hs
  have hopp : s.opposite ≠ s := Side.opposite_ne s
  have hpos : ∀ o ∈ r.makers order, 0 < sz o := by
    intro o ho
    obtain ⟨x, hx, hox⟩ := List.mem_flatMap.mp ho
    refine h.positive s.opposite x.1 o ?_
    rwa [queue_of_some (mem_crossing.mp hx).1]
  -- both ways the other side is the matched one
  have hother : ∀ px, (r.addOrderBefore order anchor).1.queue s.opposite px =
      ((r.matched order)[px]?).getD [] := by
    intro px
    rw [addOrderBefore, hfresh]
    simp only [Bool.false_eq_true, if_false, ← hs]
    split
    · rw [queue_setSide_of_ne _ hopp, queue_setSide]
    · rw [queue_setSide]
  have hown : ∀ px, (r.setSide s.opposite (r.matched order)).queue s px = r.queue s px :=
    fun px => queue_setSide_of_ne _ hopp.symm _ px
  have hrest : 0 < r.remaining order → ∀ q fellBack,
      placeIn (r.queue s (limitPx order)) (InnerOrder.modifySz order (r.remaining order)) anchor =
        (q, fellBack) →
      (r.addOrderBefore order anchor).1.queue s (limitPx order) = q ∧
        (r.addOrderBefore order anchor).2 = fellBack := by
    intro hrem q fellBack hq
    rw [addOrderBefore, hfresh]
    simp only [Bool.false_eq_true, if_false, ← hs, if_pos hrem, hown, hq]
    rw [queue_setSide]
    simp
  have hidle : r.remaining order = 0 → r.addOrderBefore order anchor =
      (r.setSide s.opposite (r.matched order), false) := by
    intro hrem
    rw [addOrderBefore, hfresh]
    simp only [Bool.false_eq_true, if_false, ← hs, hrem, Nat.lt_irrefl]
  refine ⟨?_, ?_, ?_, ?_, ?_, ?_, ?_⟩
  · obtain ⟨gone, rest, hsplit, htotal, hleft⟩ := consume_split hpos (sz order)
    refine ⟨gone, rest, _, hsplit, rfl, htotal, ?_⟩
    rw [← hs]
    simp only [hother, h.makers_matched order]
    exact hleft
  · intro px hpx
    rw [← hs, hother]
    exact queue_matched_beyond hpx
  · intro px hpx
    rw [← hs, addOrderBefore, hfresh]
    simp only [Bool.false_eq_true, if_false, ← hs]
    split
    · have hne : ¬ limitPx order = px := fun he => hpx he.symm
      rw [queue_setSide, Std.ExtTreeMap.getElem?_insert, if_neg (by simpa using hne)]
      exact hown px
    · exact hown px
  · intro hrem
    rw [← hs, hidle hrem]
    exact hown _
  · intro xs o ys hrem hanchor hq
    rw [← hs] at hq ⊢
    have hnd := h.once s (limitPx order)
    refine (hrest hrem _ false ?_).1
    rw [hq] at hnd ⊢
    rw [hanchor]
    exact placeIn_front _ hnd
  · intro hrem hback
    exact (hrest hrem _ _ (placeIn_back hback)).1
  · by_cases hrem : 0 < r.remaining order
    · by_cases hback : ∀ o ∈ r.queue s (limitPx order), anchor ≠ some (oid o)
      · rw [(hrest hrem _ _ (placeIn_back hback)).2, Option.isSome_iff_ne_none]
        exact ⟨fun ha => ⟨hrem, ha, hback⟩, fun ha => ha.2.1⟩
      · refine iff_of_false ?_ fun ha => hback ha.2.2
        push Not at hback
        obtain ⟨o, ho, rfl⟩ := hback
        obtain ⟨xs, ys, hq⟩ := List.append_of_mem ho
        have hnd := h.once s (limitPx order)
        rw [hq] at hnd
        have hplace := placeIn_front (InnerOrder.modifySz order (r.remaining order)) hnd
        rw [← hq] at hplace
        rw [(hrest hrem _ _ hplace).2]
        exact Bool.false_ne_true
    · rw [hidle (by omega)]
      exact iff_of_false Bool.false_ne_true fun ha => hrem ha.1

/-- An order of no size takes nothing and does not rest. -/
theorem Proper.addOrderBefore_zero {r : RefBook O} (h : r.Proper) {order : O} (h0 : sz order = 0)
    (anchor : Option ℕ) : (r.addOrderBefore order anchor).1 = r := by
  have hmatched : r.matched order = r.side (InnerOrder.side order).opposite := by
    apply Std.ExtTreeMap.ext_getElem?
    intro px
    rw [getElem?_matched, h0]
    cases hq : (r.side (InnerOrder.side order).opposite)[px]? with
    | none => rfl
    | some q =>
      have hpos : ∀ o ∈ q, 0 < sz o := by
        rw [← queue_of_some hq]
        exact h.positive _ px
      have hne := h.tidy _ px q hq
      simp only [Option.bind_some, Nat.zero_sub, consume_zero hpos]
      split
      · exact nonEmpty_eq_some.mpr ⟨rfl, hne⟩
      · rfl
  have hremaining : ¬ 0 < r.remaining order := by
    rw [remaining, h0]
    omega
  rw [addOrderBefore]
  by_cases hrests : r.rests (oid order) = true
  · rw [if_pos hrests]
  · rw [if_neg hrests]
    simp only [if_neg hremaining, hmatched]
    cases InnerOrder.side order <;> rfl

end RefBook

end HlOrderbook
