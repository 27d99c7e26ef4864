import HlOrderbook.Lib.Runs
import HlOrderbook.Listener

/-!
# The ingest loop

Everything that happens to the listener: batches, reports of discarded lines,
sends, and snapshots that are fetched and installed, the install advancing step by
step among the rest.  What each of them can do to the listener is said once here,
field by field, and used by every property of whole runs.

## Main definitions

* `Ingest`, `IngestOp`, `Ingest.step` — the system.
* `OrderBookListener.Marked l l'` — `l'` is `l` with other marks.
* `applyEventBatch_cases` — what taking in a batch can do.
-/

set_option autoImplicit false
set_option linter.unusedSectionVars false

namespace HlOrderbook

/-- The listener and the install in progress. -/
structure Ingest where
  listener : OrderBookListener
  install : Option PhasedInstall

/-- What happens to the listener.  A report of a discarded line carries the line's
block height, which the listener is not told; a fetch begins with a read of the
node's head height; `init` is the install of the tests. -/
inductive IngestOp where
  | apply (env : Env) (height : ℕ) (batch : EventBatch)
  | desync (line : ℕ)
  | flush (env : Env)
  | beginFetch (head : ℕ)
  | build (snapshot : Snapshots InnerL4Order) (untriggered : List InnerL4Order) (height : ℕ)
  | chase (now : ℕ)
  | commit (now : ℕ)
  | init (now : ℕ) (snapshot : Snapshots InnerL4Order) (height : ℕ)

/-- A fetch begins.  The install will make good what was lost up to the node's head
height as of now. -/
def OrderBookListener.beginFetch (l : OrderBookListener) (head : ℕ) : OrderBookListener :=
  { l.beginCaching with installCovers := head }

variable [SlabPolicy] [FixedPoint]

/-- One event; `none` when it cannot happen now, or is a panic. -/
def Ingest.step (i : Ingest) : IngestOp → Option (Ingest × List InternalMessage)
  | .apply env height batch =>
    (i.listener.applyEventBatch env height batch).map fun r => ({ i with listener := r.1 }, r.2)
  | .desync _ => some ({ i with listener := i.listener.markDesynced }, [])
  | .flush env =>
    some ({ i with listener := (i.listener.flushL2IfDue env).1 }, (i.listener.flushL2IfDue env).2)
  | .beginFetch head =>
    some (⟨i.listener.beginFetch head, none⟩, [])
  | .build snapshot untriggered height =>
    some ({ i with install := some (.build i.listener snapshot untriggered height) }, [])
  | .chase now =>
    match i.install with
    | some p =>
      if p.chases i.listener then
        (p.chase now i.listener).map fun r => (⟨r.2, some r.1⟩, [])
      else none
    | none => none
  | .commit now =>
    match i.install with
    | some p =>
      if p.chases i.listener then none
      else (p.commit now i.listener).map fun l => (⟨l, none⟩, [])
    | none => none
  | .init now snapshot height =>
    (i.listener.initFromSnapshot now snapshot height).map fun l => ({ i with listener := l }, [])

namespace OrderBookListener

/-! ## What a mark changes -/

/-- The listener may have been marked, and what is kept for the replay changed. -/
structure Marked (l l' : OrderBookListener) : Prop where
  eq : ∃ cache count needs loss bound, l' = { l with
    fetchedSnapshotCache := cache
    cachedEventCount := count
    needsResync := needs
    resyncDataLoss := loss
    maxLossHeight := bound }
  needsResync : l.needsResync = true → l'.needsResync = true

theorem Marked.refl (l : OrderBookListener) : l.Marked l := ⟨⟨_, _, _, _, _, rfl⟩, id⟩

theorem Marked.trans {l l' l'' : OrderBookListener} (h : l.Marked l') (h' : l'.Marked l'') :
    l.Marked l'' := by
  obtain ⟨c, n, r, d, b, rfl⟩ := h.eq
  obtain ⟨c', n', r', d', b', rfl⟩ := h'.eq
  exact ⟨⟨c', n', r', d', b', rfl⟩, h'.needsResync ∘ h.needsResync⟩

variable {l l' : OrderBookListener}

namespace Marked

theorem orderBookState (h : l.Marked l') : l'.orderBookState = l.orderBookState := by
  obtain ⟨c, n, r, d, b, rfl⟩ := h.eq; rfl

theorem tolerateDrift (h : l.Marked l') : l'.tolerateDrift = l.tolerateDrift := by
  obtain ⟨c, n, r, d, b, rfl⟩ := h.eq; rfl

theorem installCovers (h : l.Marked l') : l'.installCovers = l.installCovers := by
  obtain ⟨c, n, r, d, b, rfl⟩ := h.eq; rfl

theorem lossBound (h : l.Marked l') : l'.lossBound = l.lossBound := by
  obtain ⟨c, n, r, d, b, rfl⟩ := h.eq; rfl

end Marked

theorem markDesynced_marked (l : OrderBookListener) : l.Marked l.markDesynced := by
  rw [markDesynced]
  split
  · exact .refl l
  · exact ⟨⟨_, _, _, _, _, rfl⟩, fun _ => rfl⟩

theorem pushToReplayCache_marked (l : OrderBookListener) (batch : EventBatch) :
    l.Marked (l.pushToReplayCache batch) := by
  rw [pushToReplayCache]
  split
  · have hdrop : l.Marked { l with fetchedSnapshotCache := none, cachedEventCount := 0 } :=
      ⟨⟨_, _, _, _, _, rfl⟩, id⟩
    exact hdrop.trans (markDesynced_marked _)
  · exact ⟨⟨_, _, _, _, _, rfl⟩, id⟩

theorem cacheForReplay_marked (l : OrderBookListener) (batch : EventBatch) :
    l.Marked (l.cacheForReplay batch).1 := by
  rw [cacheForReplay]
  split
  · exact .refl l
  · split <;> exact pushToReplayCache_marked l batch

theorem beginCaching_marked (l : OrderBookListener) : l.Marked l.beginCaching := by
  rw [beginCaching]
  split
  · exact ⟨⟨_, _, _, _, _, rfl⟩, id⟩
  · exact .refl l

theorem cacheForReplay_snd (l : OrderBookListener) (batch : EventBatch) :
    (l.cacheForReplay batch).2 = if l.isReady then some batch else none := by
  rw [cacheForReplay]
  split
  · rfl
  · split <;> simp [*]

/-! ## What taking in a batch can do -/

/-- The height of a batch has been seen. -/
def see (l : OrderBookListener) (height : ℕ) : OrderBookListener :=
  { l with lastSeenHeight := max l.lastSeenHeight height }

/-- **Taking in a batch**: it is too large, or it is kept because there is no book,
or it is applied to the book. -/
theorem applyEventBatch_cases {env : Env} {height : ℕ} {batch : EventBatch}
    {sent : List InternalMessage} (h : l.applyEventBatch env height batch = some (l', sent)) :
    (maxEventsPerBatch < batch.eventsLen ∧ l' = (l.see height).markDesynced ∧ sent = []) ∨
    (¬ maxEventsPerBatch < batch.eventsLen ∧ l.orderBookState = none ∧
      l' = ((l.see height).cacheForReplay batch).1 ∧ sent = []) ∨
    (¬ maxEventsPerBatch < batch.eventsLen ∧ ∃ state, l.orderBookState = some state ∧
      ((l.see height).cacheForReplay batch).1.applyLive env state batch = some (l', sent)) := by
  by_cases hlen : maxEventsPerBatch < batch.eventsLen
  · simp only [applyEventBatch, if_pos hlen, Option.some.injEq, Prod.mk.injEq] at h
    exact Or.inl ⟨hlen, h.1.symm, h.2.symm⟩
  · have hsnd := cacheForReplay_snd (l.see height) batch
    have hstate : ((l.see height).cacheForReplay batch).1.orderBookState = l.orderBookState :=
      (cacheForReplay_marked (l.see height) batch).orderBookState
    have hsee : ({ l with lastSeenHeight := max l.lastSeenHeight height } : OrderBookListener) =
        l.see height := rfl
    simp only [applyEventBatch, if_neg hlen, hsee] at h
    generalize (l.see height).cacheForReplay batch = r at h hsnd hstate ⊢
    obtain ⟨l₁, kept⟩ := r
    simp only [isReady, see] at hsnd hstate
    cases hbook : l.orderBookState with
    | none =>
      simp only [hbook, Option.isSome_none, Bool.false_eq_true, if_false] at hsnd
      subst hsnd
      simp only [Option.some.injEq, Prod.mk.injEq] at h
      exact Or.inr (Or.inl ⟨hlen, rfl, h.1.symm, h.2.symm⟩)
    | some state =>
      simp only [hbook, Option.isSome_some, if_true] at hsnd
      subst hsnd
      simp only [hstate, hbook] at h
      exact Or.inr (Or.inr ⟨hlen, state, rfl, h⟩)

/-- The state of the book, the fill that waits and the count of batches may have
changed. -/
structure Applied (l l' : OrderBookListener) : Prop where
  eq : ∃ state pairer count, l' = { l with
    orderBookState := state
    tradePairer := pairer
    hftStateCount := count }

theorem applyToState_applied (env : Env) (l : OrderBookListener) (state : OrderBookState)
    (batch : EventBatch) : l.Applied (l.applyToState env state batch).1 := by
  cases batch with
  | orders batch => exact ⟨_, _, _, rfl⟩
  | bookDiffs batch => exact ⟨_, _, _, rfl⟩
  | fills batch =>
    simp only [applyToState]
    split <;> exact ⟨_, _, _, rfl⟩

/-- What is sent before a batch is applied is about its single events. -/
theorem mem_applyToState {env : Env} {l : OrderBookListener} {state : OrderBookState}
    {batch : EventBatch} {m : InternalMessage} (hm : m ∈ (l.applyToState env state batch).2.1) :
    (∃ time height byCoin, m = .l4OrderStatuses time height byCoin) ∨
    (∃ time height byCoin, m = .l4OrderDiffs time height byCoin) ∨ ∃ byCoin, m = .fills byCoin := by
  cases batch with
  | orders batch =>
    simp only [applyToState] at hm
    split at hm
    · exact Or.inl ⟨_, _, _, List.mem_singleton.mp hm⟩
    · cases hm
  | bookDiffs batch =>
    simp only [applyToState] at hm
    split at hm
    · exact Or.inr (Or.inl ⟨_, _, _, List.mem_singleton.mp hm⟩)
    · cases hm
  | fills batch =>
    simp only [applyToState] at hm
    split at hm
    · split at hm
      · cases hm
      · exact Or.inr (Or.inr ⟨_, List.mem_singleton.mp hm⟩)
    · cases hm

theorem maintain_applied (now : ℕ) (l : OrderBookListener) : l.Applied (l.maintain now).1 := by
  simp only [maintain]
  split
  · split <;> exact ⟨_, _, _, rfl⟩
  · exact ⟨_, _, _, rfl⟩

/-- **Applying a batch to the book.** -/
theorem applyLive_eq_some {env : Env} {state : OrderBookState} {batch : EventBatch}
    {sent : List InternalMessage} (h : l.applyLive env state batch = some (l', sent)) :
    ∃ l₁ sent₁ result, l.applyToState env state batch = (l₁, sent₁, result) ∧
      result ≠ .error .panic ∧ l' = (l₁.conclude env result).1 ∧
      sent = sent₁ ++ (l₁.conclude env result).2 := by
  rw [applyLive] at h
  generalize l.applyToState env state batch = r at h
  obtain ⟨l₁, sent₁, result⟩ := r
  refine ⟨l₁, sent₁, result, rfl, ?_⟩
  cases result with
  | ok coins =>
    simp only [Option.some.injEq, Prod.mk.injEq] at h
    exact ⟨by simp, h.1.symm, h.2.symm⟩
  | error f =>
    cases f with
    | panic => cases h
    | parse =>
      simp only [Option.some.injEq, Prod.mk.injEq] at h
      exact ⟨by simp, h.1.symm, h.2.symm⟩

/-- Drawing the consequences keeps a mark. -/
theorem needsResync_conclude (env : Env) {l : OrderBookListener}
    (result : Except Failure (Std.ExtTreeSet Coin)) (h : l.needsResync = true) :
    (l.conclude env result).1.needsResync = true := by
  obtain ⟨s, p, n, heq⟩ := (maintain_applied env.now l).eq
  have hmaintain : (l.maintain env.now).1.needsResync = true := by rw [heq]; exact h
  simp only [conclude, extendDirty]
  split
  · exact (markDesynced_marked _).needsResync hmaintain
  · exact hmaintain

/-- **Taking in a batch keeps a mark.** -/
theorem needsResync_applyEventBatch {env : Env} {height : ℕ} {batch : EventBatch}
    {sent : List InternalMessage} (h : l.applyEventBatch env height batch = some (l', sent))
    (hneeds : l.needsResync = true) : l'.needsResync = true := by
  have hkeep := (cacheForReplay_marked (l.see height) batch).needsResync hneeds
  rcases applyEventBatch_cases h with ⟨-, rfl, -⟩ | ⟨-, -, rfl, -⟩ | ⟨-, state, -, hlive⟩
  · exact (markDesynced_marked _).needsResync hneeds
  · exact hkeep
  · obtain ⟨l₁, sent₁, result, happly, -, rfl, -⟩ := applyLive_eq_some hlive
    obtain ⟨s, p, n, heq⟩ := (applyToState_applied env ((l.see height).cacheForReplay batch).1
      state batch).eq
    rw [happly] at heq
    simp only at heq
    refine needsResync_conclude env result ?_
    rw [heq]
    exact hkeep

/-! ## What a send can do -/

/-- A send changes when the last one was, the cache, the coins to be sent and the
shapes built last. -/
theorem flushL2IfDue_fst (env : Env) (l : OrderBookListener) :
    ∃ last cache dirty active, (l.flushL2IfDue env).1 = { l with
      lastL2Broadcast := last
      l2SnapshotCache := cache
      pendingDirtyL2Coins := dirty
      lastActiveL2Params := active } := by
  have hretune : ∃ cache active, (l.retune env.active) = { l with
      l2SnapshotCache := cache, lastActiveL2Params := active } := by
    rw [retune]
    split <;> exact ⟨_, _, rfl⟩
  simp only [flushL2IfDue]
  split
  · exact ⟨_, _, _, _, rfl⟩
  · split
    · exact ⟨_, _, _, _, rfl⟩
    · split
      · exact ⟨_, _, _, _, rfl⟩
      · simp only [retune]
        split <;> split <;> exact ⟨_, _, _, _, rfl⟩

end OrderBookListener

/-! ## What an install can do before its end, and at it -/

namespace Ingest

open OrderBookListener

variable {i i' : Ingest} {now : ℕ} {sent : List InternalMessage}

/-- A round of replay takes what is kept. -/
theorem chase_eq_some (h : i.step (.chase now) = some (i', sent)) :
    ∃ p, i' = ⟨i.listener.drainReplayCache.1, some p⟩ ∧ sent = [] := by
  rw [step] at h
  cases hinstall : i.install with
  | none => simp [hinstall] at h
  | some p =>
    simp only [hinstall] at h
    split at h
    · obtain ⟨r, hchase, hr⟩ := Option.map_eq_some_iff.mp h
      cases hr
      simp only [PhasedInstall.chase] at hchase
      split at hchase
      · cases hchase
      · cases hchase
        exact ⟨_, rfl, rfl⟩
    · cases h

/-- The end of an install may give up what is kept, and mark the new book for it. -/
theorem commit_eq_some (h : i.step (.commit now) = some (i', sent)) :
    ∃ p l₀ l₁, i.install = some p ∧ (l₀ = i.listener ∨ l₀ = i.listener.abandonReplayCache) ∧
      l₀.finishInstall now p.state p.height p.replayFailed = some l₁ ∧
      l₁.Marked i'.listener ∧ sent = [] := by
  rw [step] at h
  cases hinstall : i.install with
  | none => simp [hinstall] at h
  | some p =>
    simp only [hinstall] at h
    split at h
    · cases h
    · obtain ⟨l', hcommit, hr⟩ := Option.map_eq_some_iff.mp h
      cases hr
      rw [PhasedInstall.commit] at hcommit
      split at hcommit
      · obtain ⟨l₁, hfinish, rfl⟩ := Option.map_eq_some_iff.mp hcommit
        exact ⟨p, _, l₁, rfl, Or.inr rfl, hfinish, markDesynced_marked l₁, rfl⟩
      · exact ⟨p, _, l', rfl, Or.inl rfl, hcommit, .refl l', rfl⟩

end Ingest

end HlOrderbook
