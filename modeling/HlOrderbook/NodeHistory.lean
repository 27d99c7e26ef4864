import HlOrderbook.Pairing

/-!
# Histories of a node

What a node writes, block by block, and the book its raw diffs describe.  An
order is placed by its `New` diff, at the side and price that the status of the
same block names; later diffs change its size or drop it.  A snapshot lists a
book when the state built from it is to rest the orders of that book.

## Main definitions

* `Block`, `Block.step`, `bookAfter` — a block, one diff, and the node's book.
* `ValidHistory` — what a node's history satisfies.
* `Snapshots.Lists` — a snapshot lists the orders of a book.
-/

set_option autoImplicit false
set_option linter.unusedSectionVars false

namespace HlOrderbook

/-- What a node writes for one block. -/
structure Block where
  number : ℕ
  time : ℤ
  statuses : List NodeDataOrderStatus
  diffs : List NodeDataOrderDiff

/-- A raw diff with the block it is in. -/
abbrev BlockDiff := Block × NodeDataOrderDiff

/-- The raw diffs of some blocks, in the order they are written. -/
def diffsOf (blocks : List Block) : List BlockDiff :=
  blocks.flatMap fun B => B.diffs.map fun d => (B, d)

/-- The status that rests an order in a block. -/
def Block.opening (B : Block) (k : ℕ) : Option NodeDataOrderStatus :=
  B.statuses.find? fun st => st.isInsertedIntoBook && st.order.oid = k

/-! ## Heights -/

/-- The blocks up to a height. -/
def upTo (n : ℕ) (blocks : List Block) : List Block := blocks.filter fun B => B.number ≤ n

/-- The blocks above a height, up to another. -/
def between (m n : ℕ) (blocks : List Block) : List Block :=
  blocks.filter fun B => m < B.number && B.number ≤ n

theorem filter_le_append_filter_lt {blocks : List Block}
    (h : blocks.Pairwise (·.number < ·.number)) (n : ℕ) :
    blocks = blocks.filter (fun B => B.number ≤ n) ++ blocks.filter fun B => n < B.number := by
  induction blocks with
  | nil => rfl
  | cons B blocks ih =>
    obtain ⟨hB, hrest⟩ := List.pairwise_cons.mp h
    by_cases hn : B.number ≤ n
    · have : ¬ n < B.number := by omega
      simp only [List.filter_cons, hn, this, decide_true, decide_false, if_true, List.cons_append,
        Bool.false_eq_true, if_false, List.cons.injEq, true_and]
      exact ih hrest
    · have hlt : n < B.number := by omega
      have hnone : blocks.filter (fun B => B.number ≤ n) = [] := by
        rw [List.filter_eq_nil_iff]
        intro B' hB'
        have := hB B' hB'
        simp only [decide_eq_true_eq]
        omega
      have hall : blocks.filter (fun B => n < B.number) = blocks := by
        rw [List.filter_eq_self]
        intro B' hB'
        have := hB B' hB'
        simp only [decide_eq_true_eq]
        omega
      simp only [List.filter_cons, hn, hlt, decide_true, decide_false, if_true, Bool.false_eq_true,
        if_false, hnone, hall, List.nil_append]

theorem upTo_append_between {blocks : List Block} (h : blocks.Pairwise (·.number < ·.number))
    {m n : ℕ} (hmn : m ≤ n) : upTo n blocks = upTo m blocks ++ between m n blocks := by
  have hn : (upTo n blocks).Pairwise (·.number < ·.number) := h.filter _
  rw [filter_le_append_filter_lt hn m]
  congr 1
  · rw [upTo, upTo, List.filter_filter]
    refine List.filter_congr fun B _ => ?_
    by_cases hB : B.number ≤ m
    · have : B.number ≤ n := by omega
      simp [hB, this]
    · simp [hB]
  · rw [upTo, between, List.filter_filter]

theorem between_append {blocks : List Block} (h : blocks.Pairwise (·.number < ·.number))
    {l m n : ℕ} (hlm : l ≤ m) (hmn : m ≤ n) :
    between l n blocks = between l m blocks ++ between m n blocks := by
  have h₁ := upTo_append_between h (hlm.trans hmn)
  rw [upTo_append_between h hmn, upTo_append_between h hlm, List.append_assoc] at h₁
  exact (List.append_cancel_left h₁).symm

/-! ## The node's book -/

variable [SlabPolicy] [FixedPoint]

namespace Block

/-- The side and price an order is placed at in a block. -/
def place (B : Block) (k : ℕ) : Option (Side × ℕ) := do
  let st ← B.opening k
  let px ← FixedPoint.parse st.order.limitPx
  some (st.order.side, px)

/-- One diff, on the node's book. -/
def step (L : QuoteBook) (x : BlockDiff) : QuoteBook :=
  match InnerOrderDiff.tryFrom x.2.rawBookDiff with
  | none => L
  | some (.new sz _) =>
    match x.1.place x.2.oid with
    | none => L
    | some (side, px) => L.put x.2.coin x.2.oid (side, px, sz)
  | some (.update _ newSz) => L.resize x.2.coin x.2.oid (if newSz = 0 then none else some newSz)
  | some .remove => L.resize x.2.coin x.2.oid none

end Block

/-- The node's book after some diffs. -/
def bookAfter (diffs : List BlockDiff) : QuoteBook := diffs.foldl Block.step fun _ _ => none

/-- Whether a diff with its block is the placing of an order. -/
def BlockDiff.isNew (x : BlockDiff) : Bool := x.2.rawBookDiff.isNew

/-- A valid history.  Blocks are numbered in order; all diffs parse; a `New` is
positive and the first diff of its order, and the one status of its block that
rests the order parses, is not before 1970 and names its coin; and the node's book
is never crossed. -/
structure ValidHistory (blocks : List Block) : Prop where
  ordered : blocks.Pairwise (·.number < ·.number)
  parses : ∀ x ∈ diffsOf blocks, InnerOrderDiff.tryFrom x.2.rawBookDiff ≠ none
  positive : ∀ x ∈ diffsOf blocks, ∀ sz anchor,
    InnerOrderDiff.tryFrom x.2.rawBookDiff = some (.new sz anchor) → 0 < sz
  newFirst : ∀ pre x post, diffsOf blocks = pre ++ x :: post → x.isNew = true →
    ∀ y ∈ pre, y.2.oid ≠ x.2.oid
  opened : ∀ x ∈ diffsOf blocks, x.isNew = true → ∃ st ∈ x.1.statuses,
    st.isInsertedIntoBook = true ∧ st.order.oid = x.2.oid ∧ st.order.coin = x.2.coin ∧
      InnerL4Order.tryFrom st.user st.order ≠ none ∧ 0 ≤ st.time ∧
      ∀ st' ∈ x.1.statuses, st'.isInsertedIntoBook = true → st'.order.oid = x.2.oid → st' = st
  uncrossed : ∀ pre, pre <+: diffsOf blocks → (bookAfter pre).Uncrossed

/-! ## Facts about the node's book -/

theorem bookAfter_concat (D : List BlockDiff) (x : BlockDiff) :
    bookAfter (D ++ [x]) = Block.step (bookAfter D) x := by
  simp [bookAfter, List.foldl_append]

namespace Block

variable {L : QuoteBook} {x : BlockDiff}

/-- What a diff can do: nothing, enter a quote, or resize or drop one. -/
theorem step_cases (x : BlockDiff) : (∀ L, step L x = L) ∨
    (x.isNew = true ∧ ∃ (sz : ℕ) (anchor : Option ℕ) (p : Side × ℕ),
      InnerOrderDiff.tryFrom x.2.rawBookDiff = some (.new sz anchor) ∧
      ∀ L, step L x = QuoteBook.put L x.2.coin x.2.oid (p.1, p.2, sz)) ∨
    ∃ r, (∀ sz, r = some sz → 0 < sz) ∧
      ∀ L, step L x = QuoteBook.resize L x.2.coin x.2.oid r := by
  cases hp : InnerOrderDiff.tryFrom x.2.rawBookDiff with
  | none => exact Or.inl fun L => by simp only [step, hp]
  | some inner =>
    have hnew := InnerOrderDiff.isNew_of_tryFrom hp
    cases inner with
    | new sz anchor =>
      cases hplace : x.1.place x.2.oid with
      | none => exact Or.inl fun L => by simp only [step, hp, hplace]
      | some p =>
        exact Or.inr (Or.inl ⟨hnew, sz, anchor, p, rfl, fun L => by simp only [step, hp, hplace]⟩)
    | update origSz newSz =>
      refine Or.inr (Or.inr ⟨if newSz = 0 then none else some newSz, ?_, fun L => ?_⟩)
      · intro sz hsz
        split at hsz
        · cases hsz
        · cases hsz
          omega
      · simp only [step, hp]
    | remove => exact Or.inr (Or.inr ⟨none, by simp, fun L => by simp only [step, hp]⟩)

/-- A diff that is not the placing of an order resizes or drops a quote. -/
theorem step_old (h : x.isNew = false) (hp : InnerOrderDiff.tryFrom x.2.rawBookDiff ≠ none) :
    ∃ r, ∀ L, step L x = QuoteBook.resize L x.2.coin x.2.oid r := by
  obtain ⟨inner, hinner⟩ := Option.ne_none_iff_exists'.mp hp
  have hold := InnerOrderDiff.isNew_of_tryFrom hinner
  cases inner with
  | new sz anchor => simp [BlockDiff.isNew, hold, InnerOrderDiff.isNew] at h
  | update origSz newSz =>
    refine ⟨if newSz = 0 then none else some newSz, fun L => ?_⟩
    simp only [step, hinner]
  | remove =>
    refine ⟨none, fun L => ?_⟩
    simp only [step, hinner]

/-- A diff changes the quote of its own order at most. -/
theorem step_other {c : Coin} {k : ℕ} (h : ¬ (x.2.coin = c ∧ x.2.oid = k)) :
    step L x c k = L c k := by
  obtain hx | ⟨-, sz, anchor, p, -, hx⟩ | ⟨r, -, hx⟩ := step_cases x
  · rw [hx]
  · rw [hx, QuoteBook.put, if_neg h]
  · rw [hx, QuoteBook.resize, if_neg h]

/-- An order that is not in the book and not placed is not in the book after. -/
theorem step_none {c : Coin} {k : ℕ} (h : L c k = none)
    (hnew : x.isNew = true → x.2.oid ≠ k) : step L x c k = none := by
  obtain hx | ⟨hisNew, sz, anchor, p, -, hx⟩ | ⟨r, -, hx⟩ := step_cases x
  · rw [hx, h]
  · rw [hx, QuoteBook.put, if_neg fun hck => hnew hisNew hck.2, h]
  · rw [hx, QuoteBook.resize, h]
    split <;> rfl

/-- An order keeps its place until it is placed again. -/
theorem step_place {c : Coin} {k : ℕ} {q q' : Side × ℕ × ℕ} (h : L c k = some q)
    (hnew : x.isNew = true → x.2.oid ≠ k) (hq : step L x c k = some q') :
    QuoteBook.place q' = QuoteBook.place q := by
  obtain hx | ⟨hisNew, sz, anchor, p, -, hx⟩ | ⟨r, -, hx⟩ := step_cases x
  · rw [hx, h] at hq
    cases hq
    rfl
  · rw [hx, QuoteBook.put, if_neg fun hck => hnew hisNew hck.2, h] at hq
    cases hq
    rfl
  · rw [hx, QuoteBook.resize, h] at hq
    split at hq
    · obtain ⟨sz, -, rfl⟩ := Option.map_eq_some_iff.mp hq
      rfl
    · cases hq
      rfl

end Block

/-- An order in the book was placed under its coin. -/
theorem exists_new_of_bookAfter {D : List BlockDiff} {c : Coin} {k : ℕ} {q : Side × ℕ × ℕ}
    (h : bookAfter D c k = some q) : ∃ x ∈ D, x.isNew = true ∧ x.2.coin = c ∧ x.2.oid = k := by
  induction D using List.reverseRecOn generalizing q with
  | nil => cases h
  | append_singleton D x ih =>
    rw [bookAfter_concat] at h
    by_cases hx : x.isNew = true ∧ x.2.coin = c ∧ x.2.oid = k
    · exact ⟨x, by simp, hx⟩
    · cases hD : bookAfter D c k with
      | some q' =>
        obtain ⟨y, hy, hrest⟩ := ih hD
        exact ⟨y, List.mem_append_left _ hy, hrest⟩
      | none =>
        by_cases hck : x.2.coin = c ∧ x.2.oid = k
        · rw [Block.step_none hD fun hnew => absurd ⟨hnew, hck⟩ hx] at h
          cases h
        · rw [Block.step_other hck, hD] at h
          cases h

namespace ValidHistory

variable {blocks : List Block} {pre mid post D : List BlockDiff} {x : BlockDiff}

/-- An order is not in the book when it is placed. -/
theorem fresh (V : ValidHistory blocks) (h : diffsOf blocks = pre ++ x :: post)
    (hx : x.isNew = true) (c : Coin) : bookAfter pre c x.2.oid = none := by
  cases hb : bookAfter pre c x.2.oid with
  | none => rfl
  | some q =>
    obtain ⟨y, hy, -, -, hk⟩ := exists_new_of_bookAfter hb
    exact absurd hk (V.newFirst pre x post h hx y hy)

/-- An order that had a diff is not placed any more. -/
theorem notNew (V : ValidHistory blocks) (h : diffsOf blocks = pre ++ x :: post) {k : ℕ}
    (hk : ∃ y ∈ pre, y.2.oid = k) : x.isNew = true → x.2.oid ≠ k := by
  rintro hx rfl
  obtain ⟨y, hy, hk⟩ := hk
  exact V.newFirst pre x post h hx y hy hk

/-- **An order that is gone stays gone.** -/
theorem gone (V : ValidHistory blocks) (h : pre ++ mid <+: diffsOf blocks) {c : Coin} {k : ℕ}
    (hk : ∃ y ∈ pre, y.2.oid = k) (hnone : bookAfter pre c k = none) :
    bookAfter (pre ++ mid) c k = none := by
  induction mid using List.reverseRecOn with
  | nil => simpa using hnone
  | append_singleton mid x ih =>
    obtain ⟨post, hpost⟩ := h
    rw [← List.append_assoc] at hpost ⊢
    have hsplit : diffsOf blocks = (pre ++ mid) ++ x :: post := by simp [← hpost]
    rw [bookAfter_concat]
    refine Block.step_none (ih ⟨x :: post, hsplit.symm⟩) (V.notNew hsplit ?_)
    obtain ⟨y, hy, hk⟩ := hk
    exact ⟨y, List.mem_append_left _ hy, hk⟩

/-- An order that is in the book at two moments was in it all the time between. -/
theorem between (V : ValidHistory blocks) (h : pre ++ mid <+: diffsOf blocks) {c : Coin} {k : ℕ}
    (hk : ∃ y ∈ pre, y.2.oid = k) {q : Side × ℕ × ℕ} (hq : bookAfter (pre ++ mid) c k = some q) :
    ∃ q', bookAfter pre c k = some q' := by
  cases hpre : bookAfter pre c k with
  | none =>
    rw [V.gone h hk hpre] at hq
    cases hq
  | some q' => exact ⟨q', rfl⟩

/-- **An order keeps its place.** -/
theorem samePlace (V : ValidHistory blocks) (h : pre ++ mid <+: diffsOf blocks) {c : Coin} {k : ℕ}
    {q q' : Side × ℕ × ℕ} (hq : bookAfter pre c k = some q)
    (hq' : bookAfter (pre ++ mid) c k = some q') : QuoteBook.place q' = QuoteBook.place q := by
  have hmem : ∃ y ∈ pre, y.2.oid = k := by
    obtain ⟨y, hy, -, -, hk⟩ := exists_new_of_bookAfter hq
    exact ⟨y, hy, hk⟩
  induction mid using List.reverseRecOn generalizing q' with
  | nil =>
    rw [List.append_nil, hq] at hq'
    cases hq'
    rfl
  | append_singleton mid x ih =>
    obtain ⟨post, hpost⟩ := h
    rw [← List.append_assoc] at hpost hq'
    have hsplit : diffsOf blocks = (pre ++ mid) ++ x :: post := by simp [← hpost]
    have hmem' : ∃ y ∈ pre ++ mid, y.2.oid = k := by
      obtain ⟨y, hy, hk⟩ := hmem
      exact ⟨y, List.mem_append_left _ hy, hk⟩
    have hprefix : pre ++ mid <+: diffsOf blocks := ⟨x :: post, hsplit.symm⟩
    have hx : (pre ++ mid) ++ [x] <+: diffsOf blocks := ⟨post, hpost⟩
    obtain ⟨q₁, hq₁⟩ := V.between hx hmem' hq'
    rw [bookAfter_concat] at hq'
    rw [Block.step_place hq₁ (V.notNew hsplit hmem') hq', ih hprefix hq₁]

/-- The status that rests an order, where it is placed. -/
theorem opening_eq (V : ValidHistory blocks) (hx : x ∈ diffsOf blocks) (hnew : x.isNew = true) :
    ∃ st inner, x.1.opening x.2.oid = some st ∧ InnerL4Order.tryFrom st.user st.order = some inner ∧
      inner.coin = x.2.coin ∧ inner.oid = x.2.oid ∧ st.order.coin = x.2.coin ∧ 0 ≤ st.time ∧
      x.1.place x.2.oid = some (inner.side, inner.limitPx) ∧
      ∀ st' ∈ x.1.statuses, st'.isInsertedIntoBook = true → st'.order.oid = x.2.oid → st' = st := by
  obtain ⟨st, hst, hins, hoid, hcoin, hparse, htime, huniq⟩ := V.opened x hx hnew
  obtain ⟨inner, hinner⟩ := Option.ne_none_iff_exists'.mp hparse
  obtain ⟨hic, his, hio, hip⟩ := InnerL4Order.tryFrom_eq_some hinner
  have hopening : x.1.opening x.2.oid = some st := by
    rw [Block.opening]
    cases hf : x.1.statuses.find? fun st => st.isInsertedIntoBook && st.order.oid = x.2.oid with
    | none =>
      rw [List.find?_eq_none] at hf
      exact absurd (hf st hst) (by simp [hins, hoid])
    | some st' =>
      have hp := List.find?_some hf
      simp only [Bool.and_eq_true, decide_eq_true_eq] at hp
      rw [huniq st' (List.mem_of_find?_eq_some hf) hp.1 hp.2]
  refine ⟨st, inner, hopening, hinner, hic.trans hcoin, hio.trans hoid, hcoin, htime, ?_, huniq⟩
  simp [Block.place, hopening, hip, his]

/-- Placing an order enters its quote. -/
theorem step_new (V : ValidHistory blocks) (hx : x ∈ diffsOf blocks) {sz : ℕ} {anchor : Option ℕ}
    (hnew : InnerOrderDiff.tryFrom x.2.rawBookDiff = some (.new sz anchor)) :
    ∃ p, x.1.place x.2.oid = some p ∧
      ∀ L, Block.step L x = QuoteBook.put L x.2.coin x.2.oid (p.1, p.2, sz) := by
  obtain ⟨st, inner, -, -, -, -, -, -, hplace, -⟩ :=
    V.opening_eq hx (InnerOrderDiff.isNew_of_tryFrom hnew)
  refine ⟨_, hplace, fun L => ?_⟩
  simp only [Block.step, hnew, hplace]

theorem book_positive (V : ValidHistory blocks) (h : D <+: diffsOf blocks) {c : Coin} {k : ℕ}
    {q : Side × ℕ × ℕ} (hq : bookAfter D c k = some q) : 0 < q.2.2 := by
  induction D using List.reverseRecOn generalizing q with
  | nil => cases hq
  | append_singleton D x ih =>
    have hD : ∀ {q}, bookAfter D c k = some q → 0 < q.2.2 := ih ((List.prefix_append D [x]).trans h)
    have hx : x ∈ diffsOf blocks := h.subset (by simp)
    rw [bookAfter_concat] at hq
    obtain hstep | ⟨-, sz, anchor, p, hnew, hstep⟩ | ⟨r, hr, hstep⟩ := Block.step_cases x
    · rw [hstep] at hq
      exact hD hq
    · rw [hstep, QuoteBook.put] at hq
      split at hq
      · cases hq
        exact V.positive x hx _ _ hnew
      · exact hD hq
    · rw [hstep, QuoteBook.resize] at hq
      split at hq
      · simp only [Option.bind_eq_some_iff, Option.map_eq_some_iff] at hq
        obtain ⟨-, -, sz, hsz, rfl⟩ := hq
        exact hr sz hsz
      · exact hD hq

end ValidHistory

/-! ## Snapshots of a book -/

/-- The orders a state takes from the snapshot of a coin. -/
def Snapshots.orders (snapshots : Snapshots InnerL4Order) (ignoreTriggers : Bool) (c : Coin) :
    List InnerL4Order :=
  match snapshots[c]? with
  | none => []
  | some s => s.taken ignoreTriggers

/-- The snapshots list each order of a book once, with its side, price and size,
and no other. -/
structure Snapshots.Lists (snapshots : Snapshots InnerL4Order) (ignoreTriggers : Bool)
    (L : QuoteBook) : Prop where
  once : ∀ c, ((snapshots.orders ignoreTriggers c).map InnerL4Order.oid).Nodup
  quote : ∀ c k q, L c k = some q ↔
    ∃ o ∈ snapshots.orders ignoreTriggers c, o.oid = k ∧ o.quote = q

/-- **The state built from snapshots that list an uncrossed book rests that
book.** -/
theorem OrderBookState.resting_fromSnapshot {snapshots : Snapshots InnerL4Order}
    {ignoreTriggers : Bool} {L : QuoteBook} (h : snapshots.Lists ignoreTriggers L)
    (hpos : ∀ c k q, L c k = some q → 0 < q.2.2) (hu : L.Uncrossed)
    (untriggered : List InnerL4Order) (height time : ℕ) (ignoreSpot trackUntriggered : Bool) :
    (fromSnapshot snapshots untriggered height time ignoreTriggers ignoreSpot
      trackUntriggered).resting = L := by
  have hmem : ∀ {c o}, o ∈ snapshots.orders ignoreTriggers c → L c o.oid = some o.quote :=
    fun ho => (h.quote _ _ _).mpr ⟨_, ho, rfl, rfl⟩
  -- stripping the triggers beforehand takes the same orders
  have hstrip : ∀ c k, (fromSnapshot snapshots untriggered height time ignoreTriggers ignoreSpot
      trackUntriggered).orderBook.find? c k =
      (snapshots.orders ignoreTriggers c).find? fun o => o.oid = k := by
    intro c k
    have hbook : ∀ s, snapshots[c]? = some s → ∀ s' : Snapshot InnerL4Order,
        s'.taken ignoreTriggers = s.taken ignoreTriggers →
        (OrderBook.fromSnapshot s' ignoreTriggers).find? k =
          (s.taken ignoreTriggers).find? fun o => o.oid = k := by
      intro s hs s' hs'
      have ho : snapshots.orders ignoreTriggers c = s'.taken ignoreTriggers := by
        rw [Snapshots.orders, hs, hs']
      rw [← hs']
      refine OrderBook.find?_fromSnapshot ?_ ?_ ?_ k
      · rw [← ho]
        exact h.once c
      · intro o hmo
        rw [← ho] at hmo
        exact hpos _ _ _ (hmem hmo)
      · intro o hmo o' hmo'
        rw [← ho] at hmo hmo'
        rw [meets_eq_placesCross]
        exact hu.unmet (hmem hmo) (hmem hmo')
    by_cases hboth : (ignoreTriggers && trackUntriggered) = true
    · obtain ⟨hignore, -⟩ := by simpa using hboth
      simp only [fromSnapshot, hboth, if_true, Snapshots.extractTriggers]
      rw [OrderBooks.find?_fromSnapshots, Std.ExtTreeMap.getElem?_map, Snapshots.orders]
      cases hs : snapshots[c]? with
      | none => rfl
      | some s =>
        refine hbook s hs s.removeTriggers ?_
        simp only [Snapshot.taken, hignore, if_true, s.removeTriggers_removeTriggers]
    · simp only [fromSnapshot, hboth, if_false, Bool.false_eq_true]
      rw [OrderBooks.find?_fromSnapshots, Snapshots.orders]
      cases hs : snapshots[c]? with
      | none => rfl
      | some s => exact hbook s hs s rfl
  funext c k
  rw [resting, hstrip]
  cases hf : (snapshots.orders ignoreTriggers c).find? fun o => o.oid = k with
  | none =>
    cases hL : L c k with
    | none => rfl
    | some q =>
      obtain ⟨o, ho, hk, -⟩ := (h.quote c k q).mp hL
      rw [List.find?_eq_none] at hf
      exact absurd hk (by simpa using hf o ho)
  | some o =>
    have hk : o.oid = k := by simpa using List.find?_some hf
    rw [← hk, hmem (List.mem_of_find?_eq_some hf)]
    rfl

end HlOrderbook
