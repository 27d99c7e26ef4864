import HlOrderbook.Ingest
import HlOrderbook.Timeless

/-!
# Catching up off the lock

An install replays the batches kept for it in rounds, while further batches are
taken in and applied to the old book.  The install in one call replays them all at
its end.  Both make the same book: every batch kept is replayed once, in the order
it came.  Only the instants from which pending halves wait differ, since a half that
is replayed in a round waits from that round on.

## Main definitions

* `CatchUp`, `CatchUpOp`, `CatchUp.step` — an install whose rounds are made at any time.
* `OrderBookListener.Alike` — two listeners that differ in instants only.
* `alike_oneLock` — the phased install is the install in one call.
-/

set_option autoImplicit false
set_option linter.unusedSectionVars false

namespace HlOrderbook

variable [SlabPolicy] [FixedPoint]

/-! ## Keeping batches -/

namespace OrderBookListener

/-- The listener with other batches kept. -/
def withCache (l : OrderBookListener) (cache : Option (List EventBatch)) (count : ℕ) :
    OrderBookListener :=
  { l with fetchedSnapshotCache := cache, cachedEventCount := count }

/-- The batches a listener that keeps batches keeps of one. -/
def kept (batch : EventBatch) : List EventBatch :=
  if batch.isFills || maxEventsPerBatch < batch.eventsLen then [] else [batch]

section WithCache

variable (l : OrderBookListener) (cache : Option (List EventBatch)) (count : ℕ)

@[simp] theorem orderBookState_withCache :
    (l.withCache cache count).orderBookState = l.orderBookState := rfl

@[simp] theorem hftStateCount_withCache :
    (l.withCache cache count).hftStateCount = l.hftStateCount := rfl

@[simp] theorem internalMessageTx_withCache :
    (l.withCache cache count).internalMessageTx = l.internalMessageTx := rfl

@[simp] theorem lastActiveL2Params_withCache :
    (l.withCache cache count).lastActiveL2Params = l.lastActiveL2Params := rfl

@[simp] theorem fetchedSnapshotCache_withCache :
    (l.withCache cache count).fetchedSnapshotCache = cache := rfl

@[simp] theorem tolerateDrift_withCache :
    (l.withCache cache count).tolerateDrift = l.tolerateDrift := rfl

theorem l2Due_withCache (now : ℕ) : (l.withCache cache count).l2Due now = l.l2Due now := rfl

theorem markDesynced_withCache :
    (l.withCache cache count).markDesynced = l.markDesynced.withCache cache count := by
  cases hdrift : l.tolerateDrift <;>
    simp only [markDesynced, tolerateDrift_withCache, hdrift, Bool.false_eq_true, if_false,
      if_true]
  rfl

theorem see_withCache (height : ℕ) :
    (l.withCache cache count).see height = (l.see height).withCache cache count := rfl

theorem applyToState_withCache (env : Env) (state : OrderBookState) (batch : EventBatch) :
    (l.withCache cache count).applyToState env state batch =
      (l.applyToState env state batch).map (·.withCache cache count) id := by
  cases batch with
  | orders b => rfl
  | bookDiffs b => rfl
  | fills b =>
    cases htrades : l.internalMessageTx && env.wants .trades <;>
      simp only [applyToState, internalMessageTx_withCache, htrades, Bool.false_eq_true, if_false,
        if_true] <;> rfl

theorem maintain_withCache (now : ℕ) :
    (l.withCache cache count).maintain now = (l.maintain now).map (·.withCache cache count) id := by
  cases hbook : l.orderBookState with
  | none =>
    simp only [maintain, orderBookState_withCache, hbook]
    rfl
  | some state =>
    by_cases hdue : l.hftStateCount % 1000 = 0 <;>
      simp only [maintain, orderBookState_withCache, hftStateCount_withCache, hbook, hdue,
        if_true, if_false] <;> rfl

theorem conclude_withCache (env : Env) (result : Except Failure (Std.ExtTreeSet Coin)) :
    (l.withCache cache count).conclude env result =
      (l.conclude env result).map (·.withCache cache count) id := by
  simp only [conclude, maintain_withCache]
  generalize l.maintain env.now = r
  obtain ⟨l, cleared⟩ := r
  simp only [Prod.map_apply, id]
  split
  · rw [markDesynced_withCache]
    rfl
  · rfl

theorem applyLive_withCache (env : Env) (state : OrderBookState) (batch : EventBatch) :
    (l.withCache cache count).applyLive env state batch =
      (l.applyLive env state batch).map (Prod.map (·.withCache cache count) id) := by
  rw [applyLive, applyLive, applyToState_withCache]
  generalize l.applyToState env state batch = r
  obtain ⟨l, sent, result⟩ := r
  cases result with
  | ok coins =>
    simp only [Prod.map_apply, id, conclude_withCache]
    rfl
  | error f =>
    cases f with
    | panic => rfl
    | parse =>
      simp only [Prod.map_apply, id, conclude_withCache]
      rfl

theorem retune_withCache (active : Finset L2SnapshotParams) :
    (l.withCache cache count).retune active = (l.retune active).withCache cache count := by
  by_cases hsame : active = l.lastActiveL2Params <;>
    simp only [retune, lastActiveL2Params_withCache, hsame, if_true, if_false]
  rfl

theorem flushL2IfDue_withCache (env : Env) :
    (l.withCache cache count).flushL2IfDue env =
      (l.flushL2IfDue env).map (·.withCache cache count) id := by
  have hsent : ({ l.withCache cache count with lastL2Broadcast := some env.now }) =
      ({ l with lastL2Broadcast := some env.now } : OrderBookListener).withCache cache count := rfl
  rw [flushL2IfDue, flushL2IfDue, l2Due_withCache, hsent]
  generalize ({ l with lastL2Broadcast := some env.now } : OrderBookListener) = sent
  simp only [retune_withCache, internalMessageTx_withCache, orderBookState_withCache]
  by_cases hdue : (!l.l2Due env.now) = true
  · rw [if_pos hdue, if_pos hdue]
    rfl
  · rw [if_neg hdue, if_neg hdue]
    by_cases hheard : (!(sent.internalMessageTx && decide (0 < env.receiverCount))) = true
    · rw [if_pos hheard, if_pos hheard]
      rfl
    · rw [if_neg hheard, if_neg hheard]
      by_cases hactive : env.active = ∅
      · rw [if_pos hactive, if_pos hactive]
        rfl
      · rw [if_neg hactive, if_neg hactive]
        cases (sent.retune env.active).orderBookState with
        | none => rfl
        | some state => rfl

end WithCache

variable {l l' l₂ l₂' : OrderBookListener} {env : Env} {height : ℕ} {batch : EventBatch}
  {sent sent₂ : List InternalMessage}

/-- What a listener keeps for the replay, unless it has to give it all up. -/
theorem cacheForReplay_eq (l : OrderBookListener) (hlen : ¬ maxEventsPerBatch < batch.eventsLen) :
    (l.cacheForReplay batch).1.fetchedSnapshotCache = none ∨
      ∃ count, (l.cacheForReplay batch).1 =
        l.withCache (l.fetchedSnapshotCache.map (· ++ kept batch)) count := by
  have hpush : (l.pushToReplayCache batch).fetchedSnapshotCache = none ∨
      ∃ count, l.pushToReplayCache batch =
        l.withCache (l.fetchedSnapshotCache.map (· ++ [batch])) count := by
    rw [pushToReplayCache]
    split
    · left
      rw [markDesynced]
      split <;> rfl
    · exact Or.inr ⟨_, rfl⟩
  rw [cacheForReplay, kept]
  cases hfills : batch.isFills with
  | true =>
    refine Or.inr ⟨l.cachedEventCount, ?_⟩
    simp [withCache]
  | false =>
    simp only [Bool.false_or, decide_eq_true_eq, hlen, if_false]
    cases hcache : l.fetchedSnapshotCache with
    | none => simp [hcache]
    | some batches =>
      simp only [hcache, Option.map_some] at hpush
      simp only [Option.isNone_some, Bool.false_eq_true, if_false, Option.map_some]
      split <;> exact hpush

theorem cache_markDesynced (l : OrderBookListener) :
    l.markDesynced.fetchedSnapshotCache = l.fetchedSnapshotCache := by
  have hsame := markDesynced_withCache l l.fetchedSnapshotCache l.cachedEventCount
  change l.markDesynced = l.markDesynced.withCache l.fetchedSnapshotCache _ at hsame
  rw [hsame]
  rfl

theorem cache_applyLive {state : OrderBookState}
    (h : l.applyLive env state batch = some (l', sent)) :
    l'.fetchedSnapshotCache = l.fetchedSnapshotCache := by
  have hsame := applyLive_withCache l l.fetchedSnapshotCache l.cachedEventCount env state batch
  change l.applyLive env state batch = _ at hsame
  rw [h, Option.map_some, Option.some.injEq] at hsame
  exact congrArg (·.1.fetchedSnapshotCache) hsame

/-- What taking in a batch does beside keeping it. -/
def applyRest (env : Env) (l : OrderBookListener) (height : ℕ) (batch : EventBatch) :
    Option (OrderBookListener × List InternalMessage) :=
  if maxEventsPerBatch < batch.eventsLen then some ((l.see height).markDesynced, [])
  else match l.orderBookState with
    | some state => (l.see height).applyLive env state batch
    | none => some (l.see height, [])

theorem applyRest_withCache (l : OrderBookListener) (cache : Option (List EventBatch))
    (count : ℕ) :
    (l.withCache cache count).applyRest env height batch =
      (l.applyRest env height batch).map (Prod.map (·.withCache cache count) id) := by
  rw [applyRest, applyRest, see_withCache, orderBookState_withCache, markDesynced_withCache]
  split
  · rfl
  · cases l.orderBookState with
    | none => rfl
    | some state => exact applyLive_withCache _ _ _ env state batch

/-- **A batch is kept after those kept before**, unless all are given up. -/
theorem applyEventBatch_alive (h : l.applyEventBatch env height batch = some (l', sent))
    (halive : l'.fetchedSnapshotCache.isSome) :
    ∃ r count, l.applyRest env height batch = some (r, sent) ∧
      l' = r.withCache (l.fetchedSnapshotCache.map (· ++ kept batch)) count := by
  rcases applyEventBatch_cases h with ⟨hlen, rfl, rfl⟩ | ⟨hlen, hnone, rfl, rfl⟩ |
    ⟨hlen, state, hsome, hlive⟩
  · refine ⟨_, (l.see height).markDesynced.cachedEventCount, if_pos hlen, ?_⟩
    have hkept : l.fetchedSnapshotCache.map (· ++ kept batch) =
        (l.see height).markDesynced.fetchedSnapshotCache := by
      rw [cache_markDesynced]
      simp [kept, hlen, see]
    rw [hkept]
    rfl
  · rcases cacheForReplay_eq (l.see height) hlen with hgone | ⟨count, hkept⟩
    · simp [hgone] at halive
    · exact ⟨_, count, by rw [applyRest, if_neg hlen, hnone], hkept⟩
  · rcases cacheForReplay_eq (l.see height) hlen with hgone | ⟨count, hkept⟩
    · rw [cache_applyLive hlive, hgone] at halive
      cases halive
    · rw [hkept, applyLive_withCache] at hlive
      obtain ⟨r, hr, heq⟩ := Option.map_eq_some_iff.mp hlive
      cases heq
      exact ⟨r.1, count, by rw [applyRest, if_neg hlen, hsome]; exact hr, rfl⟩

/-- What a new book is built by. -/
def settings (l : OrderBookListener) : Bool × Bool := (l.ignoreSpot, l.trackUntriggered)

theorem Marked.settings (h : l.Marked l') : l'.settings = l.settings := by
  obtain ⟨c, n, r, d, b, rfl⟩ := h.eq
  rfl

theorem Applied.settings (h : l.Applied l') : l'.settings = l.settings := by
  obtain ⟨s, p, n, rfl⟩ := h.eq
  rfl

theorem settings_conclude (env : Env) (l : OrderBookListener)
    (result : Except Failure (Std.ExtTreeSet Coin)) :
    (l.conclude env result).1.settings = l.settings := by
  have hmaintain := (maintain_applied env.now l).settings
  simp only [conclude]
  split
  · exact (markDesynced_marked _).settings.trans hmaintain
  · exact hmaintain

theorem settings_applyEventBatch (h : l.applyEventBatch env height batch = some (l', sent)) :
    l'.settings = l.settings := by
  have hkeep := (cacheForReplay_marked (l.see height) batch).settings
  rcases applyEventBatch_cases h with ⟨-, rfl, -⟩ | ⟨-, -, rfl, -⟩ | ⟨-, state, -, hlive⟩
  · exact (markDesynced_marked _).settings
  · exact hkeep
  · obtain ⟨l₁, sent₁, result, happly, -, rfl, -⟩ := applyLive_eq_some hlive
    have happlied := applyToState_applied env ((l.see height).cacheForReplay batch).1 state batch
    rw [happly] at happlied
    exact (settings_conclude env l₁ result).trans (happlied.settings.trans hkeep)

/-- A listener that has given up what it kept does not begin again by itself. -/
theorem cache_applyEventBatch_none (h : l.applyEventBatch env height batch = some (l', sent))
    (hnone : l.fetchedSnapshotCache = none) : l'.fetchedSnapshotCache = none := by
  by_contra hsome
  obtain ⟨r, count, -, rfl⟩ := applyEventBatch_alive h (Option.isSome_iff_ne_none.mpr hsome)
  simp [hnone] at hsome

end OrderBookListener

/-! ## The system -/

/-- A listener and the install in progress. -/
structure CatchUp where
  listener : OrderBookListener
  install : PhasedInstall

/-- What happens during an install: a batch is taken in, a loss is reported, the
aggregated books are sent, or a round of replay is made. -/
inductive CatchUpOp where
  | apply (env : Env) (height : ℕ) (batch : EventBatch)
  | desync
  | flush (env : Env)
  | chase (now : ℕ)

/-- Whether an event is a round of replay. -/
def CatchUpOp.isChase : CatchUpOp → Bool
  | .chase _ => true
  | _ => false

/-- The batches kept for the replay in a run, in the order they came. -/
def keptBatches (ops : List CatchUpOp) : List EventBatch :=
  ops.flatMap fun
    | .apply _ _ batch => OrderBookListener.kept batch
    | _ => []

namespace CatchUp

/-- One event; `none` is a panic.  A round can be made at any time, however much is
kept and however many were made. -/
def step (c : CatchUp) : CatchUpOp → Option (CatchUp × List InternalMessage)
  | .apply env height batch =>
    (c.listener.applyEventBatch env height batch).map fun r => ({ c with listener := r.1 }, r.2)
  | .desync => some ({ c with listener := c.listener.markDesynced }, [])
  | .flush env =>
    some ({ c with listener := (c.listener.flushL2IfDue env).1 }, (c.listener.flushL2IfDue env).2)
  | .chase now => (c.install.chase now c.listener).map fun r => (⟨r.2, r.1⟩, [])

/-- The beginning: the new book is built. -/
def start (l : OrderBookListener) (snapshot : Snapshots InnerL4Order)
    (untriggered : List InnerL4Order) (height : ℕ) : CatchUp :=
  ⟨l, .build l snapshot untriggered height⟩

variable {c c' : CatchUp} {op : CatchUpOp} {said : List InternalMessage}

theorem apply_eq_some {env : Env} {height : ℕ} {batch : EventBatch}
    (h : c.step (.apply env height batch) = some (c', said)) :
    ∃ l', c.listener.applyEventBatch env height batch = some (l', said) ∧
      c' = { c with listener := l' } := by
  obtain ⟨r, hr, heq⟩ := Option.map_eq_some_iff.mp h
  cases heq
  exact ⟨r.1, hr, rfl⟩

theorem chase_eq_some {now : ℕ} (h : c.step (.chase now) = some (c', said)) :
    ∃ state failed, replayAll now c.install.height (c.listener.fetchedSnapshotCache.getD [])
        c.install.state c.install.replayFailed = some (state, failed) ∧
      c' = ⟨c.listener.withCache (c.listener.fetchedSnapshotCache.map fun _ => []) 0,
        ⟨state, c.install.height, c.install.rounds + 1, failed⟩⟩ ∧ said = [] := by
  obtain ⟨r, hr, heq⟩ := Option.map_eq_some_iff.mp h
  cases heq
  rw [PhasedInstall.chase] at hr
  simp only [OrderBookListener.drainReplayCache] at hr
  split at hr
  · cases hr
  case h_2 state failed hreplay =>
    cases hr
    exact ⟨state, failed, hreplay, rfl, rfl⟩

/-- What was given up during an install stays given up. -/
theorem cache_none (h : c.step op = some (c', said))
    (hnone : c.listener.fetchedSnapshotCache = none) :
    c'.listener.fetchedSnapshotCache = none := by
  cases op with
  | apply env height batch =>
    obtain ⟨l', happly, rfl⟩ := apply_eq_some h
    exact OrderBookListener.cache_applyEventBatch_none happly hnone
  | desync =>
    cases h
    exact (OrderBookListener.cache_markDesynced c.listener).trans hnone
  | flush env =>
    cases h
    obtain ⟨last, cache, dirty, active, heq⟩ := OrderBookListener.flushL2IfDue_fst env c.listener
    rw [heq]
    exact hnone
  | chase now =>
    obtain ⟨state, failed, -, rfl, -⟩ := chase_eq_some h
    simp [hnone]

theorem alive_before (h : c.step op = some (c', said))
    (halive : c'.listener.fetchedSnapshotCache.isSome) :
    c.listener.fetchedSnapshotCache.isSome := by
  by_contra hnone
  rw [cache_none h (by simpa using hnone)] at halive
  cases halive

/-! ## What is replayed, and what is kept -/

/-- The new book is the one built with some batches replayed on it, and these with
those still kept are all that came. -/
structure Caught (c₀ : CatchUp) (batches : List EventBatch) (c : CatchUp) : Prop where
  settings : c.listener.settings = c₀.listener.settings
  height : c.install.height = c₀.install.height
  replayed : ∃ drained residual, c.listener.fetchedSnapshotCache = some residual ∧
    drained ++ residual = batches ∧
    replayAll 0 c₀.install.height drained c₀.install.state.timeless c₀.install.replayFailed =
      some (c.install.state.timeless, c.install.replayFailed)

theorem Caught.start {c₀ : CatchUp} {batches : List EventBatch}
    (hcache : c₀.listener.fetchedSnapshotCache = some batches) : c₀.Caught batches c₀ where
  settings := rfl
  height := rfl
  replayed := ⟨[], batches, hcache, rfl, rfl⟩

/-- An event that leaves the new book alone. -/
theorem Caught.aside {c₀ : CatchUp} {batches more : List EventBatch} (h : c₀.Caught batches c)
    {l : OrderBookListener} (hsettings : l.settings = c.listener.settings)
    (hcache : l.fetchedSnapshotCache = c.listener.fetchedSnapshotCache.map (· ++ more)) :
    c₀.Caught (batches ++ more) { c with listener := l } := by
  obtain ⟨drained, residual, hkept, hall, hreplay⟩ := h.replayed
  refine ⟨hsettings.trans h.settings, h.height, drained, residual ++ more, ?_, ?_, hreplay⟩
  · simp [hcache, hkept]
  · rw [← List.append_assoc, hall]

/-- **A round replays what is kept**, after what was replayed before. -/
theorem Caught.chase {c₀ : CatchUp} {batches : List EventBatch} {now : ℕ}
    (h : c₀.Caught batches c) (hstep : c.step (.chase now) = some (c', said)) :
    c₀.Caught batches c' := by
  obtain ⟨state, failed, hround, rfl, -⟩ := chase_eq_some hstep
  obtain ⟨drained, residual, hkept, hall, hreplay⟩ := h.replayed
  refine ⟨h.settings, h.height, drained ++ residual, [], ?_, ?_, ?_⟩
  · simp [hkept]
  · rw [List.append_nil, hall]
  · have hnext := OrderBookState.timeless_replayAll c.install.state now c.install.height residual
      c.install.replayFailed
    simp only [hkept, Option.getD_some] at hround
    rw [hround, h.height] at hnext
    rw [OrderBookState.replayAll_append, hreplay, Option.bind_some, ← hnext]
    rfl

/-- **Every event keeps the account.** -/
theorem Caught.step {c₀ : CatchUp} {batches : List EventBatch} (h : c₀.Caught batches c)
    (hstep : c.step op = some (c', said)) (halive : c'.listener.fetchedSnapshotCache.isSome) :
    c₀.Caught (batches ++ keptBatches [op]) c' := by
  cases op with
  | apply env height batch =>
    obtain ⟨l', happly, rfl⟩ := apply_eq_some hstep
    have hsettings := OrderBookListener.settings_applyEventBatch happly
    obtain ⟨r, count, -, rfl⟩ := OrderBookListener.applyEventBatch_alive happly halive
    have hkept : keptBatches [.apply env height batch] = OrderBookListener.kept batch := by
      simp [keptBatches]
    exact h.aside hsettings (by rw [hkept]; rfl)
  | desync =>
    cases hstep
    refine h.aside (OrderBookListener.markDesynced_marked c.listener).settings ?_
    simp [OrderBookListener.cache_markDesynced, keptBatches]
  | flush env =>
    cases hstep
    obtain ⟨last, cache, dirty, active, heq⟩ := OrderBookListener.flushL2IfDue_fst env c.listener
    refine h.aside ?_ ?_
    · rw [heq]
      rfl
    · simp [heq, keptBatches]
  | chase now =>
    have hsame : batches ++ keptBatches [CatchUpOp.chase now] = batches := by simp [keptBatches]
    rw [hsame]
    exact h.chase hstep

theorem keptBatches_concat (ops : List CatchUpOp) (op : CatchUpOp) :
    keptBatches (ops ++ [op]) = keptBatches ops ++ keptBatches [op] := by
  simp [keptBatches]

/-- **The account of a whole run.** -/
theorem caught_run (c₀ : CatchUp) {ops : List CatchUpOp} {batches : List EventBatch}
    (hcache : c₀.listener.fetchedSnapshotCache = some batches)
    (hrun : runSteps CatchUp.step ops c₀ = some (c, said))
    (halive : c.listener.fetchedSnapshotCache.isSome) :
    c₀.Caught (batches ++ keptBatches ops) c := by
  refine Runs.along (P := fun ops _ c => c.listener.fetchedSnapshotCache.isSome →
    c₀.Caught (batches ++ keptBatches ops) c) ?_ ?_ hrun halive
  · intro ops c₁ said₁ op c₂ said₂ _ ih hstep halive
    have h := (ih (alive_before hstep halive)).step hstep halive
    rw [keptBatches_concat, ← List.append_assoc]
    exact h
  · intro _
    have hnil : batches ++ keptBatches [] = batches := by simp [keptBatches]
    rw [hnil]
    exact Caught.start hcache

/-! ## The run without rounds -/

/-- An event that is no round does the same to a listener that keeps other batches. -/
theorem listener_aside {d d' : CatchUp} {said' : List InternalMessage} {batches : List EventBatch}
    {count : ℕ} (hop : op.isChase = false)
    (hstep : c.step op = some (c', said)) (hstep' : d.step op = some (d', said'))
    (halive : c'.listener.fetchedSnapshotCache.isSome)
    (halive' : d'.listener.fetchedSnapshotCache.isSome)
    (hd : d.listener = c.listener.withCache (some batches) count) :
    ∃ count, d'.listener = c'.listener.withCache (some (batches ++ keptBatches [op])) count := by
  cases op with
  | apply env height batch =>
    obtain ⟨l, happly, rfl⟩ := apply_eq_some hstep
    obtain ⟨l', happly', rfl⟩ := apply_eq_some hstep'
    obtain ⟨r, n, hrest, rfl⟩ := OrderBookListener.applyEventBatch_alive happly halive
    obtain ⟨r', n', hrest', rfl⟩ := OrderBookListener.applyEventBatch_alive happly' halive'
    rw [hd, OrderBookListener.applyRest_withCache, hrest, Option.map_some,
      Option.some.injEq] at hrest'
    have hr : r.withCache (some batches) count = r' := congrArg Prod.fst hrest'
    refine ⟨n', ?_⟩
    simp only [hd, ← hr, OrderBookListener.fetchedSnapshotCache_withCache, Option.map_some,
      keptBatches, List.flatMap_cons, List.flatMap_nil, List.append_nil]
    rfl
  | desync =>
    cases hstep
    cases hstep'
    refine ⟨count, ?_⟩
    simp only [hd, OrderBookListener.markDesynced_withCache, keptBatches, List.flatMap_cons,
      List.flatMap_nil, List.append_nil]
  | flush env =>
    cases hstep
    cases hstep'
    refine ⟨count, ?_⟩
    simp only [hd, OrderBookListener.flushL2IfDue_withCache, keptBatches, List.flatMap_cons,
      List.flatMap_nil, List.append_nil]
    rfl
  | chase now => cases hop

/-- **Without its rounds a run does the same to the listener**, but that everything is
still kept. -/
theorem listener_withoutChases (c₀ : CatchUp) {c₂ : CatchUp} {ops : List CatchUpOp}
    {batches : List EventBatch}
    {said₂ : List InternalMessage} (hcache : c₀.listener.fetchedSnapshotCache = some batches)
    (hrun : runSteps CatchUp.step ops c₀ = some (c, said))
    (halive : c.listener.fetchedSnapshotCache.isSome)
    (hrun₂ : runSteps CatchUp.step (ops.filter (!·.isChase)) c₀ = some (c₂, said₂))
    (halive₂ : c₂.listener.fetchedSnapshotCache.isSome) :
    ∃ count, c₂.listener = c.listener.withCache (some (batches ++ keptBatches ops)) count := by
  refine Runs.along (P := fun ops _ c => ∀ c₂ said₂,
    runSteps CatchUp.step (ops.filter (!·.isChase)) c₀ = some (c₂, said₂) →
    c.listener.fetchedSnapshotCache.isSome → c₂.listener.fetchedSnapshotCache.isSome →
    ∃ count, c₂.listener = c.listener.withCache (some (batches ++ keptBatches ops)) count)
    ?_ ?_ hrun c₂ said₂ hrun₂ halive halive₂
  · intro ops c₁ said₁ op c' said' _ ih hstep d' said₂ hrun₂ halive halive₂
    have halive₁ := alive_before hstep halive
    rw [keptBatches_concat, ← List.append_assoc]
    cases hop : op.isChase with
    | true =>
      have hfilter : (ops ++ [op]).filter (!·.isChase) = ops.filter (!·.isChase) := by simp [hop]
      rw [hfilter] at hrun₂
      obtain ⟨count, hd⟩ := ih d' said₂ hrun₂ halive₁ halive₂
      cases op with
      | chase now =>
        obtain ⟨state, failed, -, rfl, -⟩ := chase_eq_some hstep
        exact ⟨count, by rw [hd]; simp [keptBatches, OrderBookListener.withCache]⟩
      | apply env height batch => cases hop
      | desync => cases hop
      | flush env => cases hop
    | false =>
      have hfilter : (ops ++ [op]).filter (!·.isChase) = ops.filter (!·.isChase) ++ [op] := by
        simp [hop]
      rw [hfilter] at hrun₂
      obtain ⟨d, said₃, said₄, hrun₃, hstep₂, -⟩ := Runs.concat_eq_some.mp hrun₂
      obtain ⟨count, hd⟩ := ih d said₃ hrun₃ halive₁ (alive_before hstep₂ halive₂)
      exact listener_aside hop hstep hstep₂ halive halive₂ hd
  · intro c₂ said₂ hrun₂ _ _
    cases hrun₂
    refine ⟨c₀.listener.cachedEventCount, ?_⟩
    have hnil : batches ++ keptBatches [] = batches := by simp [keptBatches]
    rw [hnil, ← hcache]
    rfl

end CatchUp

/-! ## The end of the install -/

namespace OrderBookListener

/-- Two listeners hold books that are alike, and are the same otherwise. -/
structure Alike (l l' : OrderBookListener) : Prop where
  book : ∃ s s', l.orderBookState = some s ∧ l'.orderBookState = some s' ∧ s.SameHoldings s'
  rest : { l with orderBookState := none } = { l' with orderBookState := none }

/-- What an install makes of the listener once everything is replayed. -/
def installed (l : OrderBookListener) (height : ℕ) (state : OrderBookState)
    (replayFailed : Bool) : OrderBookListener :=
  let prior := l.maxLossHeight
  let covers := max l.installCovers height
  let l := { l with
    fetchedSnapshotCache := none
    cachedEventCount := 0
    installCovers := 0
    orderBookState := some state.takeInsertBeforeFallbacks.1 }
  { l.settleLosses height prior covers replayFailed with
    l2SnapshotCache := ∅
    pendingDirtyL2Coins := ∅
    lastActiveL2Params := ∅ }

theorem finishInstall_eq (now height : ℕ) (l : OrderBookListener) (state : OrderBookState)
    (replayFailed : Bool) : l.finishInstall now state height replayFailed =
      (replayAll now height (l.fetchedSnapshotCache.getD []) state replayFailed).map fun r =>
        l.installed height r.1 r.2 := by
  rw [finishInstall]
  cases replayAll now height (l.fetchedSnapshotCache.getD []) state replayFailed with
  | none => rfl
  | some r => rfl

theorem orderBookState_installed (l : OrderBookListener) (height : ℕ) (s : OrderBookState)
    (failed : Bool) :
    (l.installed height s failed).orderBookState = some s.takeInsertBeforeFallbacks.1 := by
  simp only [installed, settleLosses]
  split
  · exact (markDesynced_marked _).orderBookState
  · split <;> rfl

/-- The old book and what was kept do not enter what is installed. -/
theorem installed_stripped (l : OrderBookListener) (cache : Option (List EventBatch)) (count : ℕ)
    (height : ℕ) (s : OrderBookState) (failed : Bool) :
    ({ l.withCache cache count with
        orderBookState := none
        l2SnapshotCache := ∅ } : OrderBookListener).installed height s failed =
      l.installed height s failed := by
  simp only [installed, settleLosses, withCache]
  cases failed with
  | true =>
    simp only [if_true, markDesynced]
    cases l.tolerateDrift <;> rfl
  | false =>
    simp only [Bool.false_eq_true, if_false]
    by_cases hlost : max l.installCovers height < l.maxLossHeight
    · simp only [hlost, if_true]
      rfl
    · simp only [hlost, if_false]

/-- Of the new book the marks depend on the height alone. -/
theorem installed_rest {s s' : OrderBookState} (hheight : s.height = s'.height)
    (l : OrderBookListener) (height : ℕ) (failed : Bool) :
    { l.installed height s failed with orderBookState := none } =
      { l.installed height s' failed with orderBookState := none } := by
  simp only [installed, settleLosses]
  cases failed with
  | true =>
    cases l.tolerateDrift <;>
      simp [markDesynced, lossBound, observedHeight, hheight,
        OrderBookState.takeInsertBeforeFallbacks]
  | false =>
    simp only [Bool.false_eq_true, if_false]
    split <;> rfl

/-- **Two replays that end alike install listeners that are alike.** -/
theorem alike_installed {s s' : OrderBookState} (h : s.timeless = s'.timeless)
    (l : OrderBookListener) (height : ℕ) (failed : Bool) :
    (l.installed height s failed).Alike (l.installed height s' failed) where
  book := by
    have halike := OrderBookState.sameHoldings_of_timeless h
    exact ⟨_, _, l.orderBookState_installed height s failed,
      l.orderBookState_installed height s' failed, halike.orderBook, halike.height, halike.time,
      halike.orderStatuses, halike.newDiffs, halike.zeroedRecently, halike.zeroedSet⟩
  rest := installed_rest (OrderBookState.sameHoldings_of_timeless h).height l height failed

end OrderBookListener

namespace CatchUp

/-- A listener as it would be had no round of replay taken what was kept. -/
def oneLock (l : OrderBookListener) (batches : List EventBatch) : OrderBookListener :=
  { l with fetchedSnapshotCache := some batches }

/-- The book an install starts from. -/
def base (l : OrderBookListener) (snapshot : Snapshots InnerL4Order) (height : ℕ) :
    OrderBookState :=
  (OrderBookState.fromSnapshot snapshot [] height 0 true l.ignoreSpot l.trackUntriggered).timeless

theorem base_eq_of_settings {l l' : OrderBookListener} (h : l.settings = l'.settings)
    (snapshot : Snapshots InnerL4Order) (height : ℕ) :
    base l snapshot height = base l' snapshot height := by
  obtain ⟨hspot, htrack⟩ := Prod.mk.inj h
  rw [base, base, hspot, htrack]

theorem timeless_build (l : OrderBookListener) (snapshot : Snapshots InnerL4Order)
    (untriggered : List InnerL4Order) (height : ℕ) :
    (PhasedInstall.build l snapshot untriggered height).state.timeless = base l snapshot height := by
  have hfrom := OrderBookState.timeless_fromSnapshot height snapshot untriggered [] 0 true
    l.ignoreSpot l.trackUntriggered
  simp only [PhasedInstall.build]
  cases l.orderBookState with
  | none => exact hfrom
  | some old => exact (OrderBookState.timeless_carryForwardUntriggered _ old).trans hfrom

/-- **The install in one call** builds the same book and replays all that is kept. -/
theorem init_eq (l : OrderBookListener) (batches : List EventBatch) (count now : ℕ)
    (snapshot : Snapshots InnerL4Order) (height : ℕ) :
    (l.withCache (some batches) count).initFromSnapshot now snapshot height =
      (replayAll now height batches (PhasedInstall.build l snapshot [] height).state false).map
        fun r => l.installed height r.1 r.2 := by
  rw [OrderBookListener.initFromSnapshot, OrderBookListener.finishInstall_eq]
  simp only [OrderBookListener.installed_stripped]
  rfl

/-- **The rounds and the last replay together replay all that was kept**, once and in
order. -/
theorem replayAll_of_caught {c : CatchUp} {l : OrderBookListener} {snapshot : Snapshots InnerL4Order}
    {untriggered : List InnerL4Order} {height now : ℕ} {batches residual : List EventBatch}
    {r : OrderBookState × Bool} (h : (start l snapshot untriggered height).Caught batches c)
    (hkept : c.listener.fetchedSnapshotCache = some residual)
    (hlast : replayAll now c.install.height residual c.install.state c.install.replayFailed =
      some r) :
    ∃ r', replayAll now height batches
        (PhasedInstall.build c.listener snapshot [] height).state false = some r' ∧
      r'.1.timeless = r.1.timeless ∧ r'.2 = r.2 := by
  obtain ⟨drained, residual', hkept', hall, hdrained⟩ := h.replayed
  cases hkept.symm.trans hkept'
  have hbuilt : (start l snapshot untriggered height).install.state.timeless =
      (PhasedInstall.build c.listener snapshot [] height).state.timeless :=
    (timeless_build ..).trans ((base_eq_of_settings h.settings.symm ..).trans
      (timeless_build ..).symm)
  have hheight : c.install.height = height := h.height
  have hrounds : replayAll 0 height drained
      (PhasedInstall.build c.listener snapshot [] height).state.timeless false =
        some (c.install.state.timeless, c.install.replayFailed) := by
    rw [← hbuilt]
    exact hdrained
  have hrest := OrderBookState.timeless_replayAll c.install.state now height residual
    c.install.replayFailed
  rw [← hheight, hlast, hheight] at hrest
  have hwhole := OrderBookState.timeless_replayAll
    (PhasedInstall.build c.listener snapshot [] height).state now height batches false
  rw [← hall, OrderBookState.replayAll_append _ 0, hrounds, Option.bind_some, ← hrest, hall]
    at hwhole
  obtain ⟨r', hr', heq⟩ := Option.map_eq_some_iff.mp hwhole
  rw [Prod.ext_iff] at heq
  exact ⟨r', hr', heq.1, heq.2⟩

/-- **What the end of an install leaves**, against the install in one call. -/
theorem alike_init {l l' : OrderBookListener} {batches : List EventBatch} {c : CatchUp}
    {ops : List CatchUpOp} {said : List InternalMessage} {snapshot : Snapshots InnerL4Order}
    {untriggered : List InnerL4Order} {height now : ℕ}
    (hcache : l.fetchedSnapshotCache = some batches)
    (hrun : runSteps step ops (start l snapshot untriggered height) = some (c, said))
    (halive : c.listener.fetchedSnapshotCache.isSome)
    (hcommit : c.listener.finishInstall now c.install.state c.install.height
      c.install.replayFailed = some l') :
    ∃ l₂, (∀ count, (c.listener.withCache (some (batches ++ keptBatches ops))
      count).initFromSnapshot now snapshot height = some l₂) ∧ l'.Alike l₂ := by
  have hcaught := caught_run (start l snapshot untriggered height) hcache hrun halive
  obtain ⟨residual, hkept⟩ := Option.isSome_iff_exists.mp halive
  have hheight : c.install.height = height := hcaught.height
  rw [OrderBookListener.finishInstall_eq, hkept, Option.getD_some,
    Option.map_eq_some_iff] at hcommit
  obtain ⟨r, hr, rfl⟩ := hcommit
  obtain ⟨r', hr', hstate, hfailed⟩ := replayAll_of_caught hcaught hkept hr
  refine ⟨c.listener.installed height r'.1 r'.2, fun count => ?_, ?_⟩
  · rw [init_eq, hr', Option.map_some]
  · rw [hfailed, hheight]
    exact OrderBookListener.alike_installed hstate.symm c.listener height r.2

/-! ## The installs of the ingest loop -/

/-- An event of the ingest loop that can come during an install. -/
def ofIngest : IngestOp → Option CatchUpOp
  | .apply env height batch => some (.apply env height batch)
  | .desync _ => some .desync
  | .flush env => some (.flush env)
  | .chase now => some (.chase now)
  | .beginFetch _ | .build .. | .commit _ | .init .. => none

/-- **The ingest loop makes its rounds like that.** -/
theorem step_ofIngest {i' : Ingest} {op : IngestOp} {op' : CatchUpOp} {said : List InternalMessage}
    (hop : ofIngest op = some op') {c : CatchUp}
    (h : Ingest.step ⟨c.listener, some c.install⟩ op = some (i', said)) :
    ∃ c', c.step op' = some (c', said) ∧ i' = ⟨c'.listener, some c'.install⟩ := by
  cases op with
  | apply env height batch =>
    cases hop
    obtain ⟨r, hr, heq⟩ := Option.map_eq_some_iff.mp h
    cases heq
    exact ⟨_, Option.map_eq_some_iff.mpr ⟨r, hr, rfl⟩, rfl⟩
  | desync line =>
    cases hop
    cases h
    exact ⟨_, rfl, rfl⟩
  | flush env =>
    cases hop
    cases h
    exact ⟨_, rfl, rfl⟩
  | chase now =>
    cases hop
    simp only [Ingest.step] at h
    split at h
    · obtain ⟨r, hr, heq⟩ := Option.map_eq_some_iff.mp h
      cases heq
      exact ⟨_, Option.map_eq_some_iff.mpr ⟨r, hr, rfl⟩, rfl⟩
    · cases h
  | beginFetch head => cases hop
  | build snapshot untriggered height => cases hop
  | commit now => cases hop
  | init now snapshot height => cases hop

theorem run_ofIngest {i' : Ingest} {ops : List IngestOp} {ops' : List CatchUpOp}
    {said : List InternalMessage} (hops : ops.map ofIngest = ops'.map some) {c : CatchUp}
    (h : runSteps Ingest.step ops ⟨c.listener, some c.install⟩ = some (i', said)) :
    ∃ c', runSteps step ops' c = some (c', said) ∧ i' = ⟨c'.listener, some c'.install⟩ := by
  induction ops generalizing ops' c said with
  | nil =>
    cases h
    obtain rfl := List.map_eq_nil_iff.mp hops.symm
    exact ⟨c, rfl, rfl⟩
  | cons op ops ih =>
    obtain ⟨op', ops'', rfl, hop, hrest⟩ := List.map_eq_cons_iff.mp hops.symm
    obtain ⟨i₁, said₁, said₂, hstep, hrun, rfl⟩ := Runs.cons_eq_some.mp h
    obtain ⟨c₁, hstep', rfl⟩ := step_ofIngest hop.symm hstep
    obtain ⟨c', hrun', rfl⟩ := ih hrest.symm hrun
    exact ⟨c', Runs.cons_eq_some.mpr ⟨c₁, said₁, said₂, hstep', hrun', rfl⟩, rfl⟩

/-- **An install of the ingest loop that is not given up** leaves what the install in
one call would. -/
theorem alike_commit {l : OrderBookListener} {i i' : Ingest} {batches : List EventBatch}
    {ops : List IngestOp} {ops' : List CatchUpOp} {said said' : List InternalMessage}
    {snapshot : Snapshots InnerL4Order} {untriggered : List InnerL4Order} {height now : ℕ}
    {p : PhasedInstall} (hcache : l.fetchedSnapshotCache = some batches)
    (hops : ops.map ofIngest = ops'.map some)
    (hrun : runSteps Ingest.step ops ⟨l, some (.build l snapshot untriggered height)⟩ =
      some (i, said))
    (halive : i.listener.fetchedSnapshotCache.isSome) (hp : i.install = some p)
    (hkeeps : p.givesUp i.listener = false) (hcommit : i.step (.commit now) = some (i', said')) :
    ∃ l₂, (oneLock i.listener (batches ++ keptBatches ops')).initFromSnapshot now snapshot height =
      some l₂ ∧ i'.listener.Alike l₂ := by
  obtain ⟨c, hrun', rfl⟩ := run_ofIngest (c := start l snapshot untriggered height) hops hrun
  cases hp
  simp only [Ingest.step] at hcommit
  split at hcommit
  · cases hcommit
  · obtain ⟨l', hl', heq⟩ := Option.map_eq_some_iff.mp hcommit
    cases heq
    rw [PhasedInstall.commit, hkeeps, if_neg Bool.false_ne_true] at hl'
    obtain ⟨l₂, hinit, halike⟩ := alike_init hcache hrun' halive hl'
    exact ⟨l₂, hinit c.listener.cachedEventCount, halike⟩

end CatchUp

open CatchUp in
/-- **The phased install is the install in one call**: whatever rounds of replay it
makes among what happens meanwhile, it leaves the listener that one call at its end
leaves, which builds from the same snapshot and replays all that was kept.  The halves
that are left pending may wait from other instants. -/
theorem alike_oneLock {l l' : OrderBookListener} {batches : List EventBatch} {c : CatchUp}
    {ops : List CatchUpOp} {said : List InternalMessage} {snapshot : Snapshots InnerL4Order}
    {untriggered : List InnerL4Order} {height now : ℕ}
    (hcache : l.fetchedSnapshotCache = some batches)
    (hrun : runSteps step ops (start l snapshot untriggered height) = some (c, said))
    (halive : c.listener.fetchedSnapshotCache.isSome)
    (hcommit : c.listener.finishInstall now c.install.state c.install.height
      c.install.replayFailed = some l') :
    ∃ l₂, (oneLock c.listener (batches ++ keptBatches ops)).initFromSnapshot now snapshot height =
        some l₂ ∧ l'.Alike l₂ ∧
      ∀ c₂ said₂, runSteps step (ops.filter (!·.isChase)) (start l snapshot untriggered height) =
          some (c₂, said₂) → c₂.listener.fetchedSnapshotCache.isSome →
        c₂.listener.initFromSnapshot now snapshot height = some l₂ := by
  obtain ⟨l₂, hinit, halike⟩ := alike_init hcache hrun halive hcommit
  refine ⟨l₂, hinit c.listener.cachedEventCount, halike, fun c₂ said₂ hrun₂ halive₂ => ?_⟩
  obtain ⟨count, hsame⟩ := listener_withoutChases (start l snapshot untriggered height)
    hcache hrun halive hrun₂ halive₂
  rw [hsame]
  exact hinit count

/-- The books, what is pending with its instants, the height and the marks are the
same. -/
def OrderBookListener.SameInstall (l l' : OrderBookListener) : Prop :=
  l.orderBookState.map (·.orderBook) = l'.orderBookState.map (·.orderBook) ∧
  l.orderBookState.map (·.pendingOrderStatuses) =
    l'.orderBookState.map (·.pendingOrderStatuses) ∧
  l.orderBookState.map (·.pendingNewDiffs) = l'.orderBookState.map (·.pendingNewDiffs) ∧
  l.orderBookState.map (·.height) = l'.orderBookState.map (·.height) ∧
  l.needsResync = l'.needsResync ∧ l.maxLossHeight = l'.maxLossHeight

end HlOrderbook

namespace HlOrderbook

section Example

open CatchUp

attribute [local instance] SlabPolicy.latest FixedPoint.decimal

/-- A listener before its first snapshot. -/
private def before : OrderBookListener := .new true true ⟨true, true, true⟩

/-- The diff of an order comes and is replayed at instant 1; then come the status of
another order and its diff. -/
private def oneRound : List CatchUpOp :=
  [.apply ⟨0, ∅, fun _ => false, 1⟩ 1 (.bookDiffs ⟨1, 1, [⟨1, 7, "100", "BTC", .new "1" none⟩]⟩),
    .chase 1,
    .apply ⟨1, ∅, fun _ => false, 1⟩ 1 (.orders ⟨1, 1, [.opened (.limit "BTC" .bid "99" "2" 8)]⟩),
    .apply ⟨1, ∅, fun _ => false, 1⟩ 2 (.bookDiffs ⟨2, 2, [⟨1, 8, "99", "BTC", .new "2" none⟩]⟩)]

/-- Since when the diff of the first order waits. -/
private def waitsSince (l : OrderBookListener) : Option ℕ :=
  (l.orderBookState.bind fun s => s.pendingNewDiffs[7]?).map PendingNew.since

/-- **A half that is replayed in a round waits from that round on**, and in the install
in one call from its end. -/
theorem not_sameInstall_chased : ¬ ∀ (l l' : OrderBookListener) (batches : List EventBatch)
    (c : CatchUp) (ops : List CatchUpOp) (said : List InternalMessage)
    (snapshot : Snapshots InnerL4Order) (untriggered : List InnerL4Order) (height now : ℕ),
    l.fetchedSnapshotCache = some batches →
    runSteps step ops (start l snapshot untriggered height) = some (c, said) →
    c.listener.fetchedSnapshotCache.isSome →
    c.listener.finishInstall now c.install.state c.install.height c.install.replayFailed =
      some l' →
    ∃ l₂, (oneLock c.listener (batches ++ keptBatches ops)).initFromSnapshot now snapshot height =
      some l₂ ∧ l'.SameInstall l₂ := by
  intro h
  have hend : (runSteps step oneRound (start before ∅ [] 0)).map (fun r =>
      (r.1.listener.fetchedSnapshotCache.isSome,
        (r.1.listener.finishInstall 2 r.1.install.state r.1.install.height
          r.1.install.replayFailed).map waitsSince,
        ((oneLock r.1.listener (keptBatches oneRound)).initFromSnapshot 2 ∅ 0).map waitsSince)) =
      some (true, some (some 1), some (some 2)) := by
    decide +kernel
  obtain ⟨c, said, hrun, hc⟩ := Runs.exists_of_map hend
  simp only [Prod.mk.injEq] at hc
  obtain ⟨halive, hcommit, hinit⟩ := hc
  obtain ⟨l', hl', hsince'⟩ := Option.map_eq_some_iff.mp hcommit
  obtain ⟨l₂, hl₂, hsame⟩ := h before l' [] c oneRound said ∅ [] 0 2 rfl hrun halive hl'
  rw [List.nil_append] at hl₂
  rw [hl₂, Option.map_some, Option.some.injEq] at hinit
  have hdiffs : waitsSince l' = waitsSince l₂ := by
    have hpending := congrArg
      (fun m => (m.bind fun m => m[7]?).map PendingNew.since) hsame.2.2.1
    simpa [waitsSince, Option.bind_map, Function.comp_def] using hpending
  rw [hsince', hinit] at hdiffs
  cases hdiffs

theorem alike_oneLock_oneRound : ∃ c said l' l₂,
    runSteps step oneRound (start before ∅ [] 0) = some (c, said) ∧
    c.listener.finishInstall 2 c.install.state c.install.height c.install.replayFailed =
      some l' ∧
    (oneLock c.listener (keptBatches oneRound)).initFromSnapshot 2 ∅ 0 = some l₂ ∧
    l'.Alike l₂ := by
  have hend : (runSteps step oneRound (start before ∅ [] 0)).map (fun r =>
      (r.1.listener.fetchedSnapshotCache.isSome,
        (r.1.listener.finishInstall 2 r.1.install.state r.1.install.height
          r.1.install.replayFailed).isSome)) = some (true, true) := by
    decide +kernel
  obtain ⟨c, said, hrun, hc⟩ := Runs.exists_of_map hend
  simp only [Prod.mk.injEq] at hc
  obtain ⟨halive, hcommit⟩ := hc
  obtain ⟨l', hl'⟩ := Option.isSome_iff_exists.mp hcommit
  have hcache : before.fetchedSnapshotCache = some [] := rfl
  obtain ⟨l₂, hl₂, halike, -⟩ := alike_oneLock hcache hrun halive hl'
  exact ⟨c, said, l', l₂, hrun, hl', hl₂, halike⟩

end Example

end HlOrderbook
