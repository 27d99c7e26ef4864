import HlOrderbook.BookLoop
import HlOrderbook.MergeOrder
import HlOrderbook.NewDiffs
import HlOrderbook.Pairing

/-!
# The live book is the node's

The lines of the two book streams arrive on two channels, the merge hands out their batches
in an order of its own, and the listener applies them and gives up now and then what waits
too long.  The invariant of the pairing holds of the batches handed out, and what is to come
is what is left of the lines: as long as nothing has to be given up, the book is at every
moment what the reference makes of the batches handed out so far.

## Main definitions

* `OrderBookState.KeepsAll`, `BookLoop.Handles` — nothing is given up, and no batch is too large.
* `arrived` — the batches of a stream that are to be applied.
* `BookLoop.OnCourse` — the invariant.

## Main results

* `served_eq_nodeBook` — the book there is at any moment of a run.
-/

set_option autoImplicit false
set_option linter.unusedSectionVars false

namespace HlOrderbook

/-! ## What a batch brings -/

namespace EventBatch

/-- The statuses of a batch. -/
def statuses : EventBatch → List NodeDataOrderStatus
  | .orders batch => batch.events
  | .bookDiffs _ => []
  | .fills _ => []

/-- The diffs of a batch. -/
def diffs : EventBatch → List NodeDataOrderDiff
  | .orders _ => []
  | .bookDiffs batch => batch.events
  | .fills _ => []

end EventBatch

/-- The statuses of some batches. -/
def statusLinesOf (batches : List (ℕ × EventBatch)) : List NodeDataOrderStatus :=
  batches.flatMap fun b => b.2.statuses

/-- The diffs of some batches. -/
def diffLinesOf (batches : List (ℕ × EventBatch)) : List NodeDataOrderDiff :=
  batches.flatMap fun b => b.2.diffs

@[simp] theorem statusLinesOf_append (batches batches' : List (ℕ × EventBatch)) :
    statusLinesOf (batches ++ batches') = statusLinesOf batches ++ statusLinesOf batches' :=
  List.flatMap_append

@[simp] theorem diffLinesOf_append (batches batches' : List (ℕ × EventBatch)) :
    diffLinesOf (batches ++ batches') = diffLinesOf batches ++ diffLinesOf batches' :=
  List.flatMap_append

theorem prefix_statusLinesOf {batches batches' : List (ℕ × EventBatch)} (h : batches <+: batches') :
    statusLinesOf batches <+: statusLinesOf batches' := by
  obtain ⟨rest, rfl⟩ := h
  exact ⟨statusLinesOf rest, (statusLinesOf_append _ _).symm⟩

theorem prefix_diffLinesOf {batches batches' : List (ℕ × EventBatch)} (h : batches <+: batches') :
    diffLinesOf batches <+: diffLinesOf batches' := by
  obtain ⟨rest, rfl⟩ := h
  exact ⟨diffLinesOf rest, (diffLinesOf_append _ _).symm⟩

/-! ## A tick that gives up nothing -/

/-- No pending half is too old, and there are not too many. -/
def OrderBookState.KeepsAll (now : ℕ) (s : OrderBookState) : Prop :=
  (∀ x ∈ s.pendingOrderStatuses.toList, now - x.2.2 < pendingMaxAge) ∧
  (∀ x ∈ s.pendingNewDiffs.toList, now - x.2.since < pendingMaxAge) ∧
  s.pendingOrderStatuses.size ≤ maxPending ∧ s.pendingNewDiffs.size ≤ maxPending

instance (now : ℕ) (s : OrderBookState) : Decidable (s.KeepsAll now) :=
  inferInstanceAs (Decidable (_ ∧ _ ∧ _ ∧ _))

/-- A filter that every entry passes leaves the map. -/
private theorem filter_of_forall {V : Type} {m : Std.ExtTreeMap ℕ V} {fresh : V → Bool}
    (h : ∀ x ∈ m.toList, fresh x.2 = true) : m.filter (fun _ x => fresh x) = m := by
  refine Std.ExtTreeMap.ext_getElem? fun k => ?_
  rw [Std.ExtTreeMap.getElem?_filter']
  cases hk : m[k]? with
  | none => rfl
  | some x =>
    exact Option.filter_some_pos
      (h (k, x) (Std.ExtTreeMap.mem_toList_iff_getElem?_eq_some.mpr hk))

private theorem overCap_of_le {V : Type} {since : V → ℕ} {m : Std.ExtTreeMap ℕ V}
    (h : m.size ≤ OrderBookState.maxPending) : OrderBookState.overCap since m = [] :=
  if_neg (Nat.not_lt.mpr h)

namespace OrderBookState

variable [SlabPolicy] {now : ℕ} {s : OrderBookState}

/-- Such a tick only compacts the books. -/
theorem cleanupStalePending_of_keepsAll (h : s.KeepsAll now) :
    s.cleanupStalePending now = ({ s with orderBook := s.orderBook.compactAll.1 }, false) := by
  obtain ⟨hstatuses, hdiffs, hfew, hfew'⟩ := h
  have hfilter : s.pendingOrderStatuses.filter (fun _ x => decide (now - x.2 < pendingMaxAge)) =
      s.pendingOrderStatuses :=
    filter_of_forall fun x hx => decide_eq_true (hstatuses x hx)
  have hfilter' : s.pendingNewDiffs.filter (fun _ p => decide (now - p.since < pendingMaxAge)) =
      s.pendingNewDiffs :=
    filter_of_forall fun x hx => decide_eq_true (hdiffs x hx)
  have haged : (s.pendingNewDiffs.values.any fun p =>
      !decide (now - p.since < pendingMaxAge) && !isProtocolAddress p.user) = false := by
    rw [List.any_eq_false]
    intro p hp
    obtain ⟨k, hk⟩ := (mem_values_iff s.pendingNewDiffs).mp hp
    have hfresh := hdiffs (k, p) (Std.ExtTreeMap.mem_toList_iff_getElem?_eq_some.mpr hk)
    simp [hfresh]
  simp only [cleanupStalePending, hfilter, hfilter', haged, overCap_of_le hfew, overCap_of_le hfew',
    List.foldl_nil, List.isEmpty_nil, Bool.not_true, Bool.or_self]

end OrderBookState

/-- Such a tick leaves what rests and what is pending. -/
theorem Paired.cleanup [FixedPoint] {s₀ s : OrderBookState} {diffs D : List NodeDataOrderDiff}
    {S : List NodeDataOrderStatus} [SlabPolicy] (h : Paired s₀ diffs S D s) :
    Paired s₀ diffs S D { s with orderBook := s.orderBook.compactAll.1 } where
  ignoreSpot := h.ignoreSpot
  resting c k := by
    rw [← h.resting c k, OrderBookState.resting, OrderBookState.resting]
    exact congrArg (Option.map InnerL4Order.quote) (OrderBooks.find?_compactAll _ c k)
  waitingStatus := h.waitingStatus
  waitingNew := h.waitingNew
  noNew := h.noNew
  zeroed := h.zeroed

/-! ## The listener -/

variable [SlabPolicy] [FixedPoint]

namespace OrderBookListener

/-- A batch is not too large, and if a tick is due at its end it gives up nothing. -/
def Handles (env : Env) (l : OrderBookListener) (batch : EventBatch) : Prop :=
  batch.eventsLen ≤ maxEventsPerBatch ∧
  (l.hftStateCount % 1000 = 0 → ∀ s ∈ l.orderBookState,
    ∀ s' ∈ (l.applyToState env s batch).1.orderBookState, s'.KeepsAll env.now)

instance (env : Env) (l : OrderBookListener) (batch : EventBatch) :
    Decidable (l.Handles env batch) := inferInstanceAs (Decidable (_ ∧ (_ → _)))

variable {env : Env} {l l' : OrderBookListener} {batch : EventBatch} {height : ℕ}
  {s₀ s : OrderBookState} {statuses S : List NodeDataOrderStatus}
  {diffs D : List NodeDataOrderDiff}

/-- The book after a batch does not depend on the rest of the listener. -/
theorem orderBookState_applyToState (env : Env) (l l' : OrderBookListener) (s : OrderBookState)
    (batch : EventBatch) : (l.applyToState env s batch).1.orderBookState =
      (l'.applyToState env s batch).1.orderBookState := by
  cases batch with
  | orders b => rfl
  | bookDiffs b => rfl
  | fills b =>
    have hfills : ∀ l : OrderBookListener, (l.applyToState env s (.fills b)).1.orderBookState =
        some s.takeInsertBeforeFallbacks.1 := by
      intro l
      simp only [applyToState]
      split <;> rfl
    rw [hfills, hfills]

/-- A batch of a well-formed history is applied to the book, and does not fail. -/
theorem paired_applyToState (env : Env) (H : WellFormed s₀ statuses diffs)
    (h : Paired s₀ diffs S D s)
    (hS : S ++ batch.statuses <+: statuses) (hD : D ++ batch.diffs <+: diffs) :
    ∃ s' pairer changed, (l.applyToState env s batch).1 =
        { l with orderBookState := some s', tradePairer := pairer } ∧
      (l.applyToState env s batch).2.2 = .ok changed ∧
      Paired s₀ diffs (S ++ batch.statuses) (D ++ batch.diffs) s' := by
  have htake : ∀ {S D s}, Paired s₀ diffs S D s →
      Paired s₀ diffs S D s.takeInsertBeforeFallbacks.1 := fun h =>
    ⟨h.ignoreSpot, h.resting, h.waitingStatus, h.waitingNew, h.noNew, h.zeroed⟩
  cases batch with
  | orders b =>
    obtain ⟨s', changed, happly, h'⟩ := h.input H (.statuses env.now b) hS hD
    rw [applyInput] at happly
    refine ⟨_, l.tradePairer, changed, ?_, ?_, htake h'⟩
    · simp only [applyToState, happly]
    · simp only [applyToState, happly]
  | bookDiffs b =>
    obtain ⟨s', changed, happly, h'⟩ := h.input H (.diffs env.now b) hS hD
    rw [applyInput] at happly
    refine ⟨_, l.tradePairer, changed, ?_, ?_, htake h'⟩
    · simp only [applyToState, happly]
    · simp only [applyToState, happly]
  | fills b =>
    have h' : Paired s₀ diffs (S ++ (EventBatch.fills b).statuses)
        (D ++ (EventBatch.fills b).diffs) s.takeInsertBeforeFallbacks.1 := by
      rw [EventBatch.statuses, EventBatch.diffs, List.append_nil, List.append_nil]
      exact htake h
    simp only [applyToState]
    split
    · exact ⟨_, _, _, rfl, rfl, h'⟩
    · exact ⟨_, _, _, rfl, rfl, h'⟩

/-- Without a tick that gives something up, nothing but the book, the count and what is to be
sent changes. -/
theorem conclude_of_keepsAll (env : Env) (changed : Std.ExtTreeSet Coin)
    (hbook : l.orderBookState = some s)
    (hkeeps : l.hftStateCount % 1000 = 0 → s.KeepsAll env.now) :
    ∃ s', ((l.conclude env (.ok changed)).1.orderBookState = some s') ∧
      (s' = s ∨ s' = { s with orderBook := s.orderBook.compactAll.1 }) ∧
      (l.conclude env (.ok changed)).1.fetchedSnapshotCache = l.fetchedSnapshotCache ∧
      (l.conclude env (.ok changed)).1.needsResync = l.needsResync := by
  by_cases hdue : l.hftStateCount % 1000 = 0
  · have hclean := OrderBookState.cleanupStalePending_of_keepsAll (hkeeps hdue)
    simp only [conclude, maintain, hbook, hdue, if_true, hclean]
    exact ⟨_, rfl, Or.inr rfl, rfl, rfl⟩
  · simp only [conclude, maintain, hbook, hdue, if_false]
    exact ⟨s, rfl, Or.inl rfl, rfl, rfl⟩

/-- The book is what the pairing makes of what was applied. -/
def Serves (s₀ : OrderBookState) (diffs : List NodeDataOrderDiff) (S : List NodeDataOrderStatus)
    (D : List NodeDataOrderDiff) (l : OrderBookListener) : Prop :=
  ∃ s, l.orderBookState = some s ∧ Paired s₀ diffs S D s

/-- **One batch**: it is applied, and if nothing is kept for a replay it makes no mark. -/
theorem Serves.applyEventBatch (H : WellFormed s₀ statuses diffs) (h : l.Serves s₀ diffs S D)
    (hS : S ++ batch.statuses <+: statuses) (hD : D ++ batch.diffs <+: diffs)
    (hhandles : l.Handles env batch) (height : ℕ) :
    ∃ l' sent, l.applyEventBatch env height batch = some (l', sent) ∧
      l'.Serves s₀ diffs (S ++ batch.statuses) (D ++ batch.diffs) ∧
      (l.fetchedSnapshotCache = none →
        l'.fetchedSnapshotCache = none ∧ l'.needsResync = l.needsResync) := by
  obtain ⟨s, hbook, hpaired⟩ := h
  have hready : (l.see height).isReady = true := by
    rw [isReady, see, hbook]
    rfl
  have hsnd : ((l.see height).cacheForReplay batch).2 = some batch := by
    rw [cacheForReplay_snd, if_pos hready]
  have hmarked := cacheForReplay_marked (l.see height) batch
  have hcount : ((l.see height).cacheForReplay batch).1.hftStateCount = l.hftStateCount := by
    obtain ⟨c, n, r, d, b, heq⟩ := hmarked.eq
    rw [heq]
    rfl
  have hnone : l.fetchedSnapshotCache = none →
      ((l.see height).cacheForReplay batch).1 = l.see height := by
    intro hcache
    rw [cacheForReplay, if_pos (by simp [see, hcache])]
  have hbook₁ : ((l.see height).cacheForReplay batch).1.orderBookState = some s :=
    hmarked.orderBookState.trans hbook
  generalize hkept : (l.see height).cacheForReplay batch = r at hsnd hcount hnone hbook₁
  obtain ⟨l₁, kept⟩ := r
  obtain rfl : kept = some batch := hsnd
  simp only at hcount hnone hbook₁
  obtain ⟨s', pairer, changed, hlistener, hresult, hpaired'⟩ :=
    paired_applyToState (l := l₁) env H hpaired hS hD
  have hkeeps : l₁.hftStateCount % 1000 = 0 → s'.KeepsAll env.now := by
    intro hdue
    refine hhandles.2 (hcount ▸ hdue) s hbook s' ?_
    rw [orderBookState_applyToState env l l₁, hlistener]
    rfl
  obtain ⟨s'', hbook', hs'', hcache', hneeds'⟩ := conclude_of_keepsAll env
    (l := { l₁ with orderBookState := some s', tradePairer := pairer }) changed rfl hkeeps
  have hlen : ¬ maxEventsPerBatch < batch.eventsLen := Nat.not_lt.mpr hhandles.1
  have hsee : ({ l with lastSeenHeight := max l.lastSeenHeight height } : OrderBookListener) =
      l.see height := rfl
  have happly : l.applyEventBatch env height batch = l₁.applyLive env s batch := by
    simp only [OrderBookListener.applyEventBatch, if_neg hlen, hsee, hkept, hbook₁]
  have hlive : ∃ sent, l₁.applyLive env s batch =
      some (({ l₁ with orderBookState := some s', tradePairer := pairer } :
        OrderBookListener).conclude env (.ok changed) |>.1, sent) := by
    rw [applyLive]
    generalize l₁.applyToState env s batch = r at hlistener hresult
    obtain ⟨l₂, sent, result⟩ := r
    obtain rfl : l₂ = _ := hlistener
    obtain rfl : result = _ := hresult
    exact ⟨_, rfl⟩
  obtain ⟨sent, hlive⟩ := hlive
  refine ⟨_, sent, happly.trans hlive, ⟨s'', hbook', ?_⟩, fun hcache => ?_⟩
  · rcases hs'' with rfl | rfl
    · exact hpaired'
    · exact hpaired'.cleanup
  · obtain rfl : l₁ = l.see height := hnone hcache
    exact ⟨hcache'.trans hcache, hneeds'⟩

end OrderBookListener

/-! ## The loop -/

variable [LineParser]

/-- The events of the merge among those of the loop. -/
def mergeOps (ops : List BookLoopOp) : List MergeOp :=
  ops.filterMap fun
    | .merge _ op => some op
    | .fills .. | .desync | .flush _ => none

/-- The batches of a stream that are to be applied: those of the lines on its channel at the
start and of those that arrive, if they are above the floor. -/
def arrived (rx : Slot → List String) (floor : ℕ) (ops : List BookLoopOp) (i : Slot) :
    List (ℕ × EventBatch) :=
  (rx i ++ LiveMerge.arrivalsOf i (mergeOps ops)).filterMap (LiveMerge.keep floor i)

/-- The batches that were handed out of a stream. -/
def handedOf (said : List MergeEvent) (i : Slot) : List (ℕ × EventBatch) :=
  LiveMerge.takenOf i (LiveMerge.handedOut said)

/-- A batch brings only what the lines of its stream do. -/
def OfKind (t : Taken) : Prop :=
  (t.2.2 = .orderStatuses ∧ t.2.1.diffs = []) ∨ (t.2.2 = .orderDiffs ∧ t.2.1.statuses = [])

theorem ofKind_of_parse {line : String} {i : Slot} {p : ℕ × EventBatch}
    (h : parseEventLine line i.source = some p) : OfKind (p.1, p.2, i.source) := by
  cases i with
  | statuses =>
    refine Or.inl ⟨rfl, ?_⟩
    simp only [Slot.source, parseEventLine] at h
    split at h
    · cases h
    · obtain ⟨batch, -, rfl⟩ := Option.map_eq_some_iff.mp h
      rfl
  | diffs =>
    refine Or.inr ⟨rfl, ?_⟩
    simp only [Slot.source, parseEventLine] at h
    split at h
    · cases h
    · obtain ⟨batch, -, rfl⟩ := Option.map_eq_some_iff.mp h
      rfl

/-- Each half of what a batch brings is counted in its stream. -/
theorem OfKind.brings {t : Taken} (h : OfKind t) :
    statusLinesOf (LiveMerge.takenOf .statuses [t]) = t.2.1.statuses ∧
      diffLinesOf (LiveMerge.takenOf .diffs [t]) = t.2.1.diffs := by
  rcases h with ⟨hsource, hnone⟩ | ⟨hsource, hnone⟩
  · simp [LiveMerge.takenOf, hsource, Slot.source, statusLinesOf, diffLinesOf, hnone]
  · simp [LiveMerge.takenOf, hsource, Slot.source, statusLinesOf, diffLinesOf, hnone]

namespace BookLoop

open LiveMerge

/-- The listener can take the batches handed out, one after the other. -/
def HandlesTaken (env : Env) : List Taken → OrderBookListener → Prop
  | [], _ => True
  | (height, batch, _) :: rest, l => l.Handles env batch ∧
    ∀ r ∈ l.applyEventBatch env height batch, HandlesTaken env rest r.1

instance HandlesTaken.decidable (env : Env) : ∀ taken l, Decidable (HandlesTaken env taken l)
  | [], _ => inferInstanceAs (Decidable True)
  | (height, batch, _) :: rest, l =>
    have : ∀ r, Decidable (HandlesTaken env rest r) := fun r => HandlesTaken.decidable env rest r
    inferInstanceAs (Decidable (l.Handles env batch ∧
      ∀ r ∈ l.applyEventBatch env height batch, HandlesTaken env rest r.1))

/-- In an event of the loop nothing has to be given up, and no batch is too large. -/
def Handles (s : BookLoop) : BookLoopOp → Prop
  | .merge env op => ∀ r ∈ s.merge.step op, HandlesTaken env (handedOut r.2) s.listener
  | .fills env line => ∀ r ∈ parseEventLine line .fills, s.listener.Handles env r.2
  | .desync | .flush _ => True

instance Handles.decidable (s : BookLoop) : ∀ op, Decidable (s.Handles op)
  | .merge env op =>
    inferInstanceAs (Decidable (∀ r ∈ s.merge.step op, HandlesTaken env (handedOut r.2) s.listener))
  | .fills env line =>
    inferInstanceAs (Decidable (∀ r ∈ parseEventLine line .fills, s.listener.Handles env r.2))
  | .desync | .flush _ => inferInstanceAs (Decidable True)

/-- **The invariant of the loop**, with what happens after it: what was handed out, what waits
in the merge and what is still to come are the batches of the streams, and the book is what
the pairing makes of those handed out. -/
structure OnCourse (s₀ : OrderBookState) (diffs : List NodeDataOrderDiff)
    (whole : Slot → List (ℕ × EventBatch)) (ops : List BookLoopOp) (said : List MergeEvent)
    (s : BookLoop) : Prop where
  waits : s.merge.Waits
  source : ∀ t ∈ handedOut said ++ s.merge.ready, ∃ i : Slot, t.2.2 = i.source
  lines : ∀ i, handedOf said i ++ s.merge.pendingOf i ++
    (s.merge.rx i ++ arrivalsOf i (mergeOps ops)).filterMap (keep s.merge.floor i) = whole i
  serves : s.listener.Serves s₀ diffs (statusLinesOf (handedOf said .statuses))
    (diffLinesOf (handedOf said .diffs))

variable {env : Env} {l : OrderBookListener} {s s' : BookLoop} {op : BookLoopOp}
  {ops : List BookLoopOp} {said said' : List MergeEvent} {whole : Slot → List (ℕ × EventBatch)}
  {s₀ : OrderBookState} {statuses S : List NodeDataOrderStatus} {diffs D : List NodeDataOrderDiff}

/-- A listener that is marked only by what is reported. -/
def Unmarked (l l' : OrderBookListener) : Prop :=
  l.fetchedSnapshotCache = none →
    l'.fetchedSnapshotCache = none ∧ l'.needsResync = l.needsResync

theorem Unmarked.trans {l l' l'' : OrderBookListener} (h : Unmarked l l') (h' : Unmarked l' l'') :
    Unmarked l l'' := fun hcache =>
  ⟨(h' (h hcache).1).1, ((h' (h hcache).1).2).trans (h hcache).2⟩

/-- **The batches handed out** are applied one after the other. -/
theorem serves_applyTaken (H : WellFormed s₀ statuses diffs) {taken : List Taken}
    (hkind : ∀ t ∈ taken, OfKind t) (h : l.Serves s₀ diffs S D)
    (hS : S ++ statusLinesOf (takenOf .statuses taken) <+: statuses)
    (hD : D ++ diffLinesOf (takenOf .diffs taken) <+: diffs) (hhandles : HandlesTaken env taken l) :
    ∃ l', applyTaken env taken l = some l' ∧
      l'.Serves s₀ diffs (S ++ statusLinesOf (takenOf .statuses taken))
        (D ++ diffLinesOf (takenOf .diffs taken)) ∧ Unmarked l l' := by
  induction taken generalizing l S D with
  | nil =>
    refine ⟨l, rfl, ?_, fun hcache => ⟨hcache, rfl⟩⟩
    simpa [takenOf, statusLinesOf, diffLinesOf] using h
  | cons t taken ih =>
    rw [List.forall_mem_cons] at hkind
    obtain ⟨hstatuses, hdiffs⟩ := hkind.1.brings
    have hsplit : ∀ i, takenOf i (t :: taken) = takenOf i [t] ++ takenOf i taken :=
      fun i => takenOf_append i [t] taken
    rw [hsplit, statusLinesOf_append, hstatuses, ← List.append_assoc] at hS ⊢
    rw [hsplit, diffLinesOf_append, hdiffs, ← List.append_assoc] at hD ⊢
    obtain ⟨height, batch, source⟩ := t
    obtain ⟨hfirst, hrest⟩ := hhandles
    obtain ⟨l₁, sent, happly, hserves, hunmarked⟩ := h.applyEventBatch H
      ((List.prefix_append _ _).trans hS) ((List.prefix_append _ _).trans hD) hfirst height
    obtain ⟨l', hl', hserves', hunmarked'⟩ := ih hkind.2 hserves hS hD (hrest (l₁, sent) happly)
    refine ⟨l', ?_, hserves', Unmarked.trans hunmarked hunmarked'⟩
    simp only [applyTaken, happly, hl']

/-- Sending the aggregated books leaves the book and the marks. -/
theorem serves_flush (env : Env) (h : l.Serves s₀ diffs S D) :
    (l.flushL2IfDue env).1.Serves s₀ diffs S D ∧ Unmarked l (l.flushL2IfDue env).1 := by
  obtain ⟨last, cache, dirty, active, heq⟩ := OrderBookListener.flushL2IfDue_fst env l
  rw [heq]
  exact ⟨h, fun hcache => ⟨hcache, rfl⟩⟩

/-- What the parsed lines of the streams are, and how they stand to the history. -/
structure FromHistory (statuses : List NodeDataOrderStatus) (diffs : List NodeDataOrderDiff)
    (whole : Slot → List (ℕ × EventBatch)) : Prop where
  parsed : ∀ i, ∀ p ∈ whole i, ∃ line, parseEventLine line i.source = some p
  statuses_prefix : statusLinesOf (whole .statuses) <+: statuses
  diffs_prefix : diffLinesOf (whole .diffs) <+: diffs

/-- Where a turn of the merge leaves the lines. -/
theorem OnCourse.lines_step {env : Env} {mop : MergeOp} {m : LiveMerge}
    (h : OnCourse s₀ diffs whole (.merge env mop :: ops) said s)
    (hstep : s.merge.step mop = some (m, said')) (i : Slot) :
    handedOf (said ++ said') i ++ m.pendingOf i ++
      (m.rx i ++ arrivalsOf i (mergeOps ops)).filterMap (keep m.floor i) = whole i := by
  have haccounts := step_accounts h.waits hstep
  have hchannel := step_channel hstep i
  have hops : arrivalsOf i (mergeOps (.merge env mop :: ops)) =
      arrivalsOf i [mop] ++ arrivalsOf i (mergeOps ops) := arrivalsOf_append i [mop] (mergeOps ops)
  have hlines := h.lines i
  rw [hops, ← List.append_assoc, hchannel, List.append_assoc (consumedOf i said'),
    List.filterMap_append] at hlines
  calc handedOf (said ++ said') i ++ m.pendingOf i ++
        (m.rx i ++ arrivalsOf i (mergeOps ops)).filterMap (keep m.floor i)
      = handedOf said i ++ (takenOf i (handedOut said') ++ m.pendingOf i) ++
          (m.rx i ++ arrivalsOf i (mergeOps ops)).filterMap (keep s.merge.floor i) := by
        rw [handedOf, handedOut_append, takenOf_append, haccounts.floor]
        simp only [handedOf, List.append_assoc]
    _ = handedOf said i ++ (s.merge.pendingOf i ++
          (consumedOf i said').filterMap (keep s.merge.floor i)) ++
          (m.rx i ++ arrivalsOf i (mergeOps ops)).filterMap (keep s.merge.floor i) := by
        rw [haccounts.lines i]
    _ = whole i := by
        rw [← hlines]
        simp only [List.append_assoc]

theorem OnCourse.source_step {env : Env} {mop : MergeOp} {m : LiveMerge}
    (h : OnCourse s₀ diffs whole (.merge env mop :: ops) said s)
    (hstep : s.merge.step mop = some (m, said')) :
    ∀ t ∈ handedOut (said ++ said') ++ m.ready, ∃ i : Slot, t.2.2 = i.source := by
  intro t ht
  rw [handedOut_append, List.append_assoc] at ht
  rcases step_taken hstep with ⟨hsame, -⟩ | ⟨i, height, b, -, hnew, -⟩
  · rw [hsame] at ht
    exact h.source t ht
  · rw [hnew, ← List.append_assoc, List.mem_append] at ht
    rcases ht with ht | ht
    · exact h.source t ht
    · rw [List.mem_singleton.mp ht]
      exact ⟨i, rfl⟩

/-- **What a turn of the merge hands out is applied.** -/
theorem OnCourse.taken (H : WellFormed s₀ statuses diffs)
    (hhistory : FromHistory statuses diffs whole) {env : Env} {mop : MergeOp} {m : LiveMerge}
    (h : OnCourse s₀ diffs whole (.merge env mop :: ops) said s)
    (hstep : s.merge.step mop = some (m, said'))
    (hhandles : HandlesTaken env (handedOut said') s.listener) :
    ∃ l', applyTaken env (handedOut said') s.listener = some l' ∧
      l'.Serves s₀ diffs (statusLinesOf (handedOf (said ++ said') .statuses))
        (diffLinesOf (handedOf (said ++ said') .diffs)) ∧ Unmarked s.listener l' := by
  have hbegins : ∀ i, handedOf (said ++ said') i <+: whole i := fun i =>
    ⟨m.pendingOf i ++ (m.rx i ++ arrivalsOf i (mergeOps ops)).filterMap (keep m.floor i), by
      rw [← List.append_assoc]
      exact h.lines_step hstep i⟩
  have hsplit : ∀ i, handedOf (said ++ said') i = handedOf said i ++ takenOf i (handedOut said') :=
    fun i => by rw [handedOf, handedOut_append, takenOf_append, handedOf]
  have hkind : ∀ t ∈ handedOut said', OfKind t := by
    intro t ht
    obtain ⟨i, hi⟩ := h.source_step hstep t (by simp [ht])
    have hmem : (t.1, t.2.1) ∈ handedOf (said ++ said') i := by
      rw [hsplit]
      exact List.mem_append_right _ (List.mem_filterMap.mpr ⟨t, ht, if_pos hi⟩)
    obtain ⟨line, hline⟩ := hhistory.parsed i _ ((hbegins i).subset hmem)
    have hof := ofKind_of_parse hline
    rw [← hi] at hof
    exact hof
  have hS := (prefix_statusLinesOf (hbegins .statuses)).trans hhistory.statuses_prefix
  have hD := (prefix_diffLinesOf (hbegins .diffs)).trans hhistory.diffs_prefix
  rw [hsplit, statusLinesOf_append] at hS ⊢
  rw [hsplit, diffLinesOf_append] at hD ⊢
  exact serves_applyTaken H hkind h.serves hS hD hhandles

/-- **One event keeps the invariant**, and marks the listener only for a report. -/
theorem OnCourse.step (H : WellFormed s₀ statuses diffs)
    (hhistory : FromHistory statuses diffs whole) (h : OnCourse s₀ diffs whole (op :: ops) said s)
    (hhandles : s.Handles op) (hstep : s.step op = some (s', said')) :
    OnCourse s₀ diffs whole ops (said ++ said') s' ∧
      (op ≠ .desync → Unmarked s.listener s'.listener) := by
  -- an event of the listener alone
  have hsame : ∀ {l : OrderBookListener}, mergeOps (op :: ops) = mergeOps ops →
      l.Serves s₀ diffs (statusLinesOf (handedOf said .statuses))
        (diffLinesOf (handedOf said .diffs)) →
      OnCourse s₀ diffs whole ops (said ++ []) { s with listener := l } := by
    intro l hops hserves
    rw [List.append_nil]
    exact ⟨h.waits, h.source, fun i => by rw [← h.lines i, hops], hserves⟩
  cases op with
  | merge env mop =>
    simp only [BookLoop.step] at hstep
    cases hmerge : s.merge.step mop with
    | none =>
      rw [hmerge] at hstep
      cases hstep
    | some r =>
      obtain ⟨m, events⟩ := r
      obtain ⟨l, happly, hserves, hunmarked⟩ :=
        h.taken H hhistory hmerge (hhandles (m, events) hmerge)
      simp only [hmerge, happly, Option.some.injEq, Prod.mk.injEq] at hstep
      obtain ⟨rfl, rfl⟩ := hstep
      have hwaits := (step_accounts h.waits hmerge).waits
      obtain ⟨hflush, hunmarked'⟩ := serves_flush env hserves
      refine ⟨⟨hwaits, h.source_step hmerge, h.lines_step hmerge, ?_⟩, fun _ => ?_⟩
      · simp only
        split
        · exact hserves
        · exact hflush
      · simp only
        split
        · exact hunmarked
        · exact Unmarked.trans hunmarked hunmarked'
  | fills env line =>
    simp only [BookLoop.step] at hstep
    cases hparse : parseEventLine line .fills with
    | none =>
      simp only [hparse, Option.some.injEq, Prod.mk.injEq] at hstep
      obtain ⟨rfl, rfl⟩ := hstep
      exact ⟨hsame rfl h.serves, fun _ hcache => ⟨hcache, rfl⟩⟩
    | some p =>
      obtain ⟨height, batch⟩ := p
      have hnone : batch.statuses = [] ∧ batch.diffs = [] := by
        simp only [parseEventLine] at hparse
        split at hparse
        · cases hparse
        · obtain ⟨b, -, heq⟩ := Option.map_eq_some_iff.mp hparse
          cases heq
          exact ⟨rfl, rfl⟩
      have hserves := h.serves
      have hbegins : ∀ i, handedOf said i <+: whole i := fun i =>
        ⟨_, (List.append_assoc ..).symm.trans (h.lines i)⟩
      have hS := (prefix_statusLinesOf (hbegins .statuses)).trans hhistory.statuses_prefix
      have hD := (prefix_diffLinesOf (hbegins .diffs)).trans hhistory.diffs_prefix
      obtain ⟨l', sent, happly, hserves', hunmarked⟩ := hserves.applyEventBatch H
        (by rw [hnone.1, List.append_nil]; exact hS) (by rw [hnone.2, List.append_nil]; exact hD)
        (hhandles (height, batch) hparse) height
      rw [hnone.1, hnone.2, List.append_nil, List.append_nil] at hserves'
      simp only [hparse, happly, Option.map_some, Option.some.injEq, Prod.mk.injEq] at hstep
      obtain ⟨rfl, rfl⟩ := hstep
      obtain ⟨hflush, hunmarked'⟩ := serves_flush env hserves'
      exact ⟨hsame rfl hflush, fun _ => Unmarked.trans hunmarked hunmarked'⟩
  | desync =>
    cases hstep
    refine ⟨hsame rfl ?_, fun hne => absurd rfl hne⟩
    obtain ⟨state, hbook, hpaired⟩ := h.serves
    exact ⟨state, (OrderBookListener.markDesynced_marked _).orderBookState.trans hbook, hpaired⟩
  | flush env =>
    cases hstep
    obtain ⟨hflush, hunmarked⟩ := serves_flush env h.serves
    exact ⟨hsame rfl hflush, fun _ => hunmarked⟩

/-- **A run**, from whatever is on the channels at its start. -/
theorem OnCourse.run (H : WellFormed s₀ statuses diffs)
    (hhistory : FromHistory statuses diffs whole) (h : OnCourse s₀ diffs whole ops said s)
    (hhandles : Runs.Meets BookLoop.step (fun _ s op => s.Handles op) said ops s)
    (hrun : runSteps BookLoop.step ops s = some (s', said')) :
    OnCourse s₀ diffs whole [] (said ++ said') s' ∧
      ((∀ op ∈ ops, op ≠ .desync) → Unmarked s.listener s'.listener) := by
  induction ops generalizing s said said' with
  | nil =>
    cases hrun
    rw [List.append_nil]
    exact ⟨h, fun _ hcache => ⟨hcache, rfl⟩⟩
  | cons op ops ih =>
    obtain ⟨s₁, said₁, said₂, hstep, hrest, rfl⟩ := Runs.cons_eq_some.mp hrun
    rw [Runs.Meets, hstep] at hhandles
    obtain ⟨h₁, hunmarked⟩ := h.step H hhistory hhandles.1 hstep
    obtain ⟨h₂, hunmarked'⟩ := ih h₁ hhandles.2 hrest
    rw [← List.append_assoc]
    refine ⟨h₂, fun hops => ?_⟩
    rw [List.forall_mem_cons] at hops
    exact Unmarked.trans (hunmarked hops.1) (hunmarked' hops.2)

end BookLoop

open BookLoop in
/-- **The live book is the node's.**  Let the lines of the two streams be those of a
well-formed history, arriving in any order and handed out by the merge as it does.  As long
as no half has to be given up and no batch is too large, the book is at every moment what the
reference makes of the batches handed out; once nothing is left in the merge, of all that
arrived.  The listener is marked only by a report, and no turn of the merge stops the loop. -/
theorem served_eq_nodeBook {s₀ : OrderBookState} {statuses : List NodeDataOrderStatus}
    {diffs : List NodeDataOrderDiff} (H : WellFormed s₀ statuses diffs) {l : OrderBookListener}
    (hbook : l.orderBookState = some s₀) {rx : Slot → List String} {floor : ℕ}
    {ops : List BookLoopOp} {s : BookLoop} {said : List MergeEvent}
    (hstatuses : statusLinesOf (arrived rx floor ops .statuses) <+: statuses)
    (hdiffs : diffLinesOf (arrived rx floor ops .diffs) <+: diffs)
    (hhandles : Runs.Meets BookLoop.step (fun _ s op => s.Handles op) [] ops ⟨.new rx floor, l⟩)
    (hrun : runSteps BookLoop.step ops ⟨.new rx floor, l⟩ = some (s, said)) :
    (∃ state, s.listener.orderBookState = some state ∧
      (∀ c k, state.resting c k = nodeBook s₀ (statusLinesOf (handedOf said .statuses))
        (diffLinesOf (handedOf said .diffs)) c k) ∧
      ((∀ i, s.merge.pendingOf i = [] ∧ s.merge.rx i = []) →
        ∀ c k, state.resting c k = nodeBook s₀ (statusLinesOf (arrived rx floor ops .statuses))
          (diffLinesOf (arrived rx floor ops .diffs)) c k)) ∧
    ((∀ op ∈ ops, op ≠ .desync) → l.fetchedSnapshotCache = none →
      s.listener.needsResync = l.needsResync) ∧
    ∀ env now r, s.merge.poll now = some r → s.Handles (.merge env (.poll now)) →
      (s.step (.merge env (.poll now))).isSome = true := by
  have hhistory : FromHistory statuses diffs (arrived rx floor ops) := by
    refine ⟨fun i p hp => ?_, hstatuses, hdiffs⟩
    obtain ⟨line, -, hline⟩ := List.mem_filterMap.mp hp
    exact ⟨line, (Option.filter_eq_some_iff.mp hline).1⟩
  have hstart : OnCourse s₀ diffs (arrived rx floor ops) ops [] ⟨.new rx floor, l⟩ :=
    ⟨LiveMerge.new_waits rx floor, fun t ht => absurd ht List.not_mem_nil, fun i => rfl,
      s₀, hbook, Paired.start H⟩
  obtain ⟨hend, hunmarked⟩ := hstart.run H hhistory hhandles hrun
  rw [List.nil_append] at hend
  obtain ⟨state, hstate, hpaired⟩ := hend.serves
  refine ⟨⟨state, hstate, hpaired.resting, fun hdrained => ?_⟩,
    fun hops hcache => (hunmarked hops hcache).2, fun env now r hpoll hhandles => ?_⟩
  · have hall : ∀ i, handedOf said i = arrived rx floor ops i := by
      intro i
      have hlines := hend.lines i
      rw [(hdrained i).1, (hdrained i).2] at hlines
      simpa [mergeOps, LiveMerge.arrivalsOf] using hlines
    rw [← hall, ← hall]
    exact hpaired.resting
  · obtain ⟨m, events⟩ := r
    have hnext : OnCourse s₀ diffs (arrived rx floor ops) [.merge env (.poll now)] said s :=
      ⟨hend.waits, hend.source, hend.lines, hend.serves⟩
    obtain ⟨l', happly, -⟩ := hnext.taken H hhistory hpoll
      (hhandles (m, events) hpoll)
    simp only [BookLoop.step, LiveMerge.step, hpoll, happly, Option.isSome_some]

end HlOrderbook

namespace HlOrderbook

section Example

attribute [local instance] SlabPolicy.latest FixedPoint.decimal

/-! A node that places one bid and then shrinks it: its lines. -/

namespace ShrunkBid

/-- The line of a block of one event. -/
def blockOf (height event : String) : String :=
  "\x7b\"local_time\":\"1970-01-01T00:00:00\",\"block_time\":\"1970-01-01T00:00:00\"," ++
    "\"block_number\":" ++ height ++ ",\"events\":[" ++ event ++ "]\x7d"

def someone : String := "\"user\":\"0x0000000000000000000000000000000000000001\""

def opened : String :=
  "\x7b\"time\":\"1970-01-01T00:00:00.001\"," ++ someone ++ ",\"status\":\"open\",\"order\":\x7b" ++
    "\"coin\":\"BTC\",\"side\":\"B\",\"limitPx\":\"100\",\"sz\":\"2\",\"oid\":7,\"timestamp\":1," ++
    "\"triggerCondition\":\"N/A\",\"isTrigger\":false,\"triggerPx\":\"0.0\",\"children\":[]," ++
    "\"isPositionTpsl\":false,\"reduceOnly\":false,\"orderType\":\"Limit\",\"origSz\":\"2\"," ++
    "\"tif\":\"Gtc\",\"cloid\":null\x7d\x7d"

def changed (diff : String) : String :=
  "\x7b" ++ someone ++ ",\"oid\":7,\"px\":\"100\",\"coin\":\"BTC\",\"raw_book_diff\":" ++ diff ++
    "\x7d"

def placed : String := changed "\x7b\"new\":\x7b\"sz\":\"2\"\x7d\x7d"

def shrunk : String :=
  changed "\x7b\"update\":\x7b\"origSz\":\"2\",\"newSz\":\"1.5\"\x7d\x7d"

/-- A parser on the lines of a bid. -/
@[reducible] def bidLines : LineParser where
  fills _ := none
  orderStatuses line := if line = blockOf "5" opened then
    some ⟨5, 5, [.opened (.limit "BTC" .bid "100" "2" 7)]⟩ else none
  orderDiffs line := if line = blockOf "5" placed then
      some ⟨5, 5, [⟨1, 7, "100", "BTC", .new "2" none⟩]⟩
    else if line = blockOf "6" shrunk then
      some ⟨6, 6, [⟨1, 7, "100", "BTC", .update "2" "1.5"⟩]⟩
    else none

end ShrunkBid

open ShrunkBid

attribute [local instance] bidLines

/-- A listener without orders. -/
private def serving : OrderBookListener :=
  { OrderBookListener.new true false ⟨true, true, true⟩ with
    orderBookState := some (.fromSnapshot ∅ [] 0 0 true false true)
    fetchedSnapshotCache := none }

/-- The diffs of two blocks arrive, then the status. -/
private def bidOps : List BookLoopOp :=
  let env : Env := ⟨0, ∅, fun _ => false, 0⟩
  [.merge env (.arrive .diffs (blockOf "5" placed)),
    .merge env (.arrive .diffs (blockOf "6" shrunk)),
    .merge env (.arrive .statuses (blockOf "5" opened)), .merge env .start] ++
    List.replicate 19 (.merge env (.poll 0))

/-- The bid rests with the size it was shrunk to. -/
theorem served_eq_nodeBook_bid : ∃ s said state,
    runSteps BookLoop.step bidOps ⟨.new (fun _ => []) 0, serving⟩ = some (s, said) ∧
      s.listener.orderBookState = some state ∧
      state.resting "BTC" 7 = some (.bid, 10000000000, 150000000) ∧
      s.listener.needsResync = false := by
  have hend : (runSteps BookLoop.step bidOps ⟨.new (fun _ => []) 0, serving⟩).map (fun r =>
      ((r.1.merge.pendingOf .statuses).length + (r.1.merge.pendingOf .diffs).length,
        r.1.merge.rx .statuses ++ r.1.merge.rx .diffs)) = some (0, []) := by decide +kernel
  obtain ⟨s, said, hrun, hend⟩ := Runs.exists_of_map hend
  have hpending : (s.merge.pendingOf .statuses).length + (s.merge.pendingOf .diffs).length = 0 :=
    (Prod.mk.inj hend).1
  have hrx := List.append_eq_nil_iff.mp (Prod.mk.inj hend).2
  obtain ⟨⟨state, hstate, -, hdrained⟩, hneeds, -⟩ := served_eq_nodeBook wellFormed_shrunkBid
    (l := serving) rfl
    (by decide +kernel) (by decide +kernel) (by decide +kernel) hrun
  refine ⟨s, said, state, hrun, hstate, (hdrained ?_ "BTC" 7).trans (by decide +kernel), ?_⟩
  · intro i
    cases i with
    | statuses => exact ⟨List.eq_nil_of_length_eq_zero (by omega), hrx.1⟩
    | diffs => exact ⟨List.eq_nil_of_length_eq_zero (by omega), hrx.2⟩
  · refine hneeds (fun op hop heq => ?_) rfl
    subst heq
    simp [bidOps] at hop

end Example

end HlOrderbook
