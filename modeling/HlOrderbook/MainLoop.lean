import HlOrderbook.BookLoop
import HlOrderbook.BookRefinement
import HlOrderbook.L2Views
import HlOrderbook.Lib.Trail
import HlOrderbook.MergeOrder

/-!
# The main loop

The loop that drives the listener: it takes what the watchers send, asks for a snapshot when
there is no book or the book is out of sync, holds the book streams until the snapshot is in,
and spaces the snapshots it asks for.  A fetch runs beside the loop and reports its result on a
channel.

## Main definitions

* `FetchTask`, `MainLoop`, `MainLoop.step` — a fetch, the loop with the fetches that run, and
  what can happen.
* `era` — the height of the snapshot that the book streams are applied to.

## Main results

* `oneFetch_run` — there is one fetch at a time, nothing is ever kept for its replay, and what
  is applied to a book lies above the snapshot it was built from.
* `standsStill_run` — from the start of a re-sync to the end of an install no book changes.
* `resyncs_backOff` — how far apart the re-syncs of a run are.
-/

set_option autoImplicit false
set_option linter.unusedSectionVars false

namespace HlOrderbook

/-- The least and the greatest time between a fetch and the next, in milliseconds. -/
def resyncBackoffBase : ℕ := 10000

def resyncBackoffMax : ℕ := 300000

/-- A fetch: it has been started, the node's state is being dumped and read, or it is being
installed. -/
inductive FetchTask where
  | spawned
  | dumping
  | installing (p : PhasedInstall)

/-- The loop, the fetches that run and the results that wait to be received. -/
structure MainLoop where
  book : BookLoop
  mergeActive : Bool
  tasks : List FetchTask
  results : List (Option ℕ)
  snapshotFetchPending : Bool
  resyncBackoff : ℕ
  nextFetchAllowed : ℕ
  now : ℕ

/-- What happens: time passes; the loop takes what the watchers send or a flush is due; a fetch
advances; its result is received; or the ticker ticks, with watchers that may be started. -/
inductive MainLoopOp where
  | elapse (ms : ℕ)
  | book (op : BookLoopOp)
  | begin (k : ℕ) (head : ℕ)
  | load (k : ℕ) (snapshot : Snapshots InnerL4Order) (untriggered : List InnerL4Order) (height : ℕ)
  | chase (k : ℕ) (now : ℕ)
  | commit (k : ℕ) (now : ℕ)
  | fail (k : ℕ)
  | receive
  | tick (rx : Slot → List String)

/-- What the loop does that is told of: what the merge does, a fetch that is started, a snapshot
that is installed, and a result that is received. -/
inductive MainEvent where
  | merge (event : MergeEvent)
  | started (resync : Bool) (now : ℕ)
  | installed (height : ℕ)
  | received (converged : Bool) (now : ℕ)

/-- Whether something comes from the watchers of the book streams without the merge being
asked. -/
def BookLoopOp.isAside : BookLoopOp → Bool
  | .merge _ (.arrive _ _) => true
  | .merge _ (.close _) => true
  | .merge _ _ => false
  | _ => true

/-- The end of an install. -/
def MainLoopOp.isCommit : MainLoopOp → Bool
  | .commit _ _ => true
  | _ => false

namespace MainLoop

variable [SlabPolicy] [FixedPoint] [LineParser]

/-- The loop with another listener. -/
def withListener (s : MainLoop) (l : OrderBookListener) : MainLoop :=
  { s with book := { s.book with listener := l } }

/-- Whether a snapshot is to be fetched: there is no book, or it is out of sync and the time
between two fetches is over. -/
def fetchDue (s : MainLoop) : Bool :=
  !s.book.listener.isReady ||
    s.book.listener.needsResync && s.book.listener.resyncDataLoss && s.nextFetchAllowed ≤ s.now

/-- A result is received: the time to the next fetch. -/
def afterFetch (s : MainLoop) : MainLoop :=
  let backoff :=
    if s.book.listener.needsResync then min (s.resyncBackoff * 2) resyncBackoffMax
    else resyncBackoffBase
  { s with resyncBackoff := backoff, nextFetchAllowed := s.now + backoff }

/-- One event; `none` when it cannot happen now, or ends the server. -/
def step (s : MainLoop) : MainLoopOp → Option (MainLoop × List MainEvent)
  | .elapse ms => some ({ s with now := s.now + ms }, [])
  | .book op =>
    if s.mergeActive || op.isAside then
      (s.book.step op).map fun r => ({ s with book := r.1 }, r.2.map .merge)
    else none
  | .begin k head =>
    match s.tasks[k]? with
    | some .spawned =>
      some ({ s.withListener (s.book.listener.beginFetch head) with
        tasks := s.tasks.set k .dumping }, [])
    | _ => none
  | .load k snapshot untriggered height =>
    match s.tasks[k]? with
    | some .dumping =>
      let p : PhasedInstall := .build s.book.listener snapshot untriggered height
      some ({ s with tasks := s.tasks.set k (.installing p) }, [])
    | _ => none
  | .chase k now =>
    match s.tasks[k]? with
    | some (.installing p) =>
      if p.chases s.book.listener then
        (p.chase now s.book.listener).map fun r =>
          ({ s.withListener r.2 with tasks := s.tasks.set k (.installing r.1) }, [])
      else none
    | _ => none
  | .commit k now =>
    match s.tasks[k]? with
    | some (.installing p) =>
      if p.chases s.book.listener then none
      else (p.commit now s.book.listener).map fun l =>
        ({ s.withListener l with
          tasks := s.tasks.eraseIdx k
          results := s.results ++ [some p.height] }, [.installed p.height])
    | _ => none
  | .fail k =>
    match s.tasks[k]? with
    | none => none
    | some .spawned => none
    | some _ =>
      some ({ s with tasks := s.tasks.eraseIdx k, results := s.results ++ [none] }, [])
  | .receive =>
    match s.results with
    | [] => none
    | none :: rest =>
      -- without a first snapshot there is nothing to serve
      if s.book.listener.isReady then
        some ({ s with results := rest, snapshotFetchPending := false }.afterFetch,
          [.received (!s.book.listener.needsResync) s.now])
      else none
    | some height :: rest =>
      some ({ s with
        results := rest
        snapshotFetchPending := false
        book := { s.book with merge := { s.book.merge with floor := height } }
        mergeActive := true }.afterFetch,
        [.received (!s.book.listener.needsResync) s.now])
  | .tick rx =>
    if s.fetchDue && !s.snapshotFetchPending then
      -- a re-sync: the watchers are started again, and the book stands still
      let s' := if s.book.listener.isReady then
          { s with book := { s.book with merge := .new rx 0 }, mergeActive := false }
        else s
      some ({ s' with snapshotFetchPending := true, tasks := s.tasks ++ [.spawned] },
        [.started s.book.listener.isReady s.now])
    else some (s, [])

/-- The loop as it is started: a listener without a book, and watchers that have been started. -/
def init (l : OrderBookListener) (rx : Slot → List String) (now : ℕ) : MainLoop where
  book := ⟨.new rx 0, l⟩
  mergeActive := false
  tasks := []
  results := []
  snapshotFetchPending := false
  resyncBackoff := resyncBackoffBase
  nextFetchAllowed := now
  now := now

end MainLoop

/-! ## What is kept for the replay -/

namespace OrderBookListener

variable [SlabPolicy] [FixedPoint]

/-- What is kept for the replay, and whether there is a book, are as before. -/
structure SameReplay (l l' : OrderBookListener) : Prop where
  cache : l'.fetchedSnapshotCache = l.fetchedSnapshotCache
  count : l'.cachedEventCount = l.cachedEventCount
  isReady : l'.isReady = l.isReady

variable {l l' l'' : OrderBookListener} {env : Env} {height : ℕ} {batch : EventBatch}
  {sent : List InternalMessage}

theorem SameReplay.trans (h : l.SameReplay l') (h' : l'.SameReplay l'') : l.SameReplay l'' :=
  ⟨h'.cache.trans h.cache, h'.count.trans h.count, h'.isReady.trans h.isReady⟩

theorem markDesynced_sameReplay (l : OrderBookListener) : l.SameReplay l.markDesynced := by
  rw [markDesynced]
  split <;> exact ⟨rfl, rfl, rfl⟩

theorem flushL2IfDue_sameReplay (env : Env) (l : OrderBookListener) :
    l.SameReplay (l.flushL2IfDue env).1 := by
  obtain ⟨last, cache, dirty, active, heq⟩ := flushL2IfDue_fst env l
  rw [heq]
  exact ⟨rfl, rfl, rfl⟩

theorem conclude_sameReplay (env : Env) (l : OrderBookListener)
    (result : Except Failure (Std.ExtTreeSet Coin)) :
    l.SameReplay (l.conclude env result).1 := by
  have hmaintain : l.SameReplay (l.maintain env.now).1 := by
    obtain ⟨s, p, n, heq⟩ := (maintain_applied env.now l).eq
    exact ⟨by rw [heq], by rw [heq], isReady_maintain env.now l⟩
  have hextend : ∀ (l₁ : OrderBookListener) changed, l₁.SameReplay (l₁.extendDirty changed) :=
    fun _ _ => ⟨rfl, rfl, rfl⟩
  rw [conclude_fst]
  split
  · exact (hmaintain.trans (markDesynced_sameReplay _)).trans (hextend _ _)
  · exact hmaintain.trans (hextend _ _)

/-- A batch of fills, or any batch when nothing is kept, is not kept. -/
theorem applyEventBatch_sameReplay (h : l.applyEventBatch env height batch = some (l', sent))
    (hkeep : batch.isFills = true ∨ l.fetchedSnapshotCache = none) : l.SameReplay l' := by
  have hsee : l.SameReplay (l.see height) := ⟨rfl, rfl, rfl⟩
  have hcond : (batch.isFills || (l.see height).fetchedSnapshotCache.isNone) = true := by
    rcases hkeep with hfills | hnone
    · simp [hfills]
    · simp [see, hnone]
  have hnot : ((l.see height).cacheForReplay batch).1 = l.see height := by
    rw [cacheForReplay, if_pos hcond]
  rcases applyEventBatch_cases h with ⟨-, rfl, -⟩ | ⟨-, -, rfl, -⟩ | ⟨-, state, hbook, hlive⟩
  · exact hsee.trans (markDesynced_sameReplay _)
  · rw [hnot]
    exact hsee
  · rw [hnot] at hlive
    obtain ⟨l₁, sent₁, result, happly, -, rfl, -⟩ := applyLive_eq_some hlive
    have happlied : (l.see height).SameReplay l₁ := by
      have hready := isReady_applyToState env (l.see height) state batch
      obtain ⟨s, p, n, heq⟩ := (applyToState_applied env (l.see height) state batch).eq
      rw [happly] at heq hready
      simp only at heq hready
      refine ⟨by rw [heq], by rw [heq], ?_⟩
      rw [hready, isReady, see, hbook]
      rfl
    exact (hsee.trans happlied).trans (conclude_sameReplay env l₁ result)

end OrderBookListener

namespace BookLoop

variable [SlabPolicy] [FixedPoint] [LineParser] {s s' : BookLoop} {op : BookLoopOp}
  {said : List MergeEvent}

open OrderBookListener

theorem applyTaken_sameReplay {env : Env} {taken : List Taken} {l l' : OrderBookListener}
    (h : applyTaken env taken l = some l') (hnone : l.fetchedSnapshotCache = none) :
    l.SameReplay l' := by
  induction taken generalizing l with
  | nil =>
    cases h
    exact ⟨rfl, rfl, rfl⟩
  | cons t rest ih =>
    obtain ⟨height, batch, source⟩ := t
    cases happly : l.applyEventBatch env height batch with
    | none => simp [applyTaken, happly] at h
    | some r =>
      simp only [applyTaken, happly] at h
      have hsame : l.SameReplay r.1 := applyEventBatch_sameReplay happly (.inr hnone)
      exact hsame.trans (ih h (hsame.cache.trans hnone))

theorem isFills_of_parse {line : String} {parsed : ℕ × EventBatch}
    (h : parseEventLine line .fills = some parsed) : parsed.2.isFills = true := by
  simp only [parseEventLine] at h
  split at h
  · cases h
  · obtain ⟨batch, -, rfl⟩ := Option.map_eq_some_iff.mp h
    rfl

/-- **Nothing is kept** of what comes while the streams are held, or while nothing is awaited. -/
theorem step_sameReplay (h : s.step op = some (s', said))
    (hkeep : op.isAside = true ∨ s.listener.fetchedSnapshotCache = none) :
    s.listener.SameReplay s'.listener := by
  cases op with
  | merge env mop =>
    cases hmerge : s.merge.step mop with
    | none => simp [step, hmerge] at h
    | some r =>
      obtain ⟨m, events⟩ := r
      cases happly : applyTaken env (LiveMerge.handedOut events) s.listener with
      | none => simp [step, hmerge, happly] at h
      | some l =>
        simp only [step, hmerge, happly, Option.some.injEq, Prod.mk.injEq] at h
        obtain ⟨rfl, rfl⟩ := h
        have hsame : s.listener.SameReplay l := by
          rcases hkeep with haside | hnone
          · have hnothing : events = [] := by
              cases mop <;> simp [BookLoopOp.isAside] at haside
              · simp only [LiveMerge.step] at hmerge
                split at hmerge <;> cases hmerge
                rfl
              · cases hmerge
                rfl
            rw [hnothing] at happly
            cases happly
            exact ⟨rfl, rfl, rfl⟩
          · exact applyTaken_sameReplay happly hnone
        simp only
        split
        · exact hsame
        · exact hsame.trans (flushL2IfDue_sameReplay env l)
  | fills env line =>
    simp only [step] at h
    split at h
    · cases h
      exact ⟨rfl, rfl, rfl⟩
    · next height batch hparse =>
      obtain ⟨r, hr, heq⟩ := Option.map_eq_some_iff.mp h
      cases heq
      have hfills := isFills_of_parse hparse
      exact (applyEventBatch_sameReplay hr (.inl hfills)).trans (flushL2IfDue_sameReplay env r.1)
  | desync =>
    cases h
    exact markDesynced_sameReplay _
  | flush env =>
    cases h
    exact flushL2IfDue_sameReplay env _

end BookLoop

/-! ## What the merge holds -/

namespace LiveMerge

variable [LineParser] {m m' : LiveMerge} {op : MergeOp} {said : List MergeEvent}

/-- What the merge holds lies above the floor, and is of one of the two streams. -/
structure Above (m : LiveMerge) : Prop where
  waits : m.Waits
  source : ∀ t ∈ m.ready, ∃ i : Slot, t.2.2 = i.source
  above : ∀ i, ∀ p ∈ m.pendingOf i, m.floor < p.1

/-- A merge that holds nothing. -/
structure Empty (m : LiveMerge) : Prop where
  waits : m.Waits
  ready : m.ready = []
  peek : m.peek = fun _ => none

theorem empty_new (rx : Slot → List String) (floor : ℕ) : (new rx floor).Empty :=
  ⟨new_waits rx floor, rfl, rfl⟩

/-- A merge that holds nothing may be given another floor. -/
theorem Empty.above (h : m.Empty) (floor : ℕ) : Above { m with floor := floor } where
  waits := h.waits
  source t ht := by simp [h.ready] at ht
  above i p hp := by simp [pendingOf, takenOf, h.ready, h.peek] at hp

/-- **What is handed out lies above the floor.** -/
theorem Above.step (h : m.Above) (hstep : m.step op = some (m', said)) :
    m'.Above ∧ m'.floor = m.floor ∧ ∀ t ∈ handedOut said, m.floor < t.1 := by
  have haccounts := step_accounts h.waits hstep
  have hsource : ∀ t ∈ handedOut said ++ m'.ready, ∃ i : Slot, t.2.2 = i.source := by
    intro t ht
    rcases step_taken hstep with ⟨hsame, -⟩ | ⟨i, height, b, -, hnew, -⟩
    · rw [hsame] at ht
      exact h.source t ht
    · rw [hnew, List.mem_append, List.mem_singleton] at ht
      rcases ht with ht | rfl
      · exact h.source t ht
      · exact ⟨i, rfl⟩
  have hlines : ∀ i, ∀ p ∈ takenOf i (handedOut said) ++ m'.pendingOf i, m.floor < p.1 := by
    intro i p hp
    rw [← haccounts.lines i] at hp
    rcases List.mem_append.mp hp with hold | hread
    · exact h.above i p hold
    · exact floor_lt_of_mem hread
  refine ⟨⟨haccounts.waits, fun t ht => hsource t (List.mem_append_right _ ht), ?_⟩,
    haccounts.floor, ?_⟩
  · intro i p hp
    rw [haccounts.floor]
    exact hlines i p (List.mem_append_right _ hp)
  · intro t ht
    obtain ⟨i, hi⟩ := hsource t (List.mem_append_left _ ht)
    exact hlines i (t.1, t.2.1) (List.mem_append_left _
      (List.mem_filterMap.mpr ⟨t, ht, if_pos hi⟩))

/-- Lines that arrive, and channels that close, are not looked at. -/
theorem Empty.aside {env : Env} (h : m.Empty) (hstep : m.step op = some (m', said))
    (haside : (BookLoopOp.merge env op).isAside = true) :
    m'.Empty ∧ m'.floor = m.floor ∧ said = [] := by
  cases op with
  | arrive i line =>
    simp only [LiveMerge.step] at hstep
    split at hstep <;> cases hstep
    exact ⟨⟨h.waits, h.ready, h.peek⟩, rfl, rfl⟩
  | close i =>
    cases hstep
    exact ⟨⟨h.waits, h.ready, h.peek⟩, rfl, rfl⟩
  | start => cases haside
  | poll now => cases haside
  | wake i => cases haside
  | timeout now => cases haside
  | cancel => cases haside

end LiveMerge

namespace BookLoop

variable [SlabPolicy] [FixedPoint] [LineParser] {s s' : BookLoop} {op : BookLoopOp}
  {said : List MergeEvent}

/-- What comes while the streams are held leaves the merge empty. -/
theorem step_aside (h : s.step op = some (s', said)) (hempty : s.merge.Empty)
    (haside : op.isAside = true) :
    s'.merge.Empty ∧ s'.merge.floor = s.merge.floor ∧ said = [] := by
  have hsame : s'.merge = s.merge ∧ said = [] →
      s'.merge.Empty ∧ s'.merge.floor = s.merge.floor ∧ said = [] := by
    intro hsame
    rw [hsame.1]
    exact ⟨hempty, rfl, hsame.2⟩
  cases op with
  | merge env mop =>
    cases hmerge : s.merge.step mop with
    | none => simp [step, hmerge] at h
    | some r =>
      obtain ⟨m, events⟩ := r
      cases happly : applyTaken env (LiveMerge.handedOut events) s.listener with
      | none => simp [step, hmerge, happly] at h
      | some l =>
        simp only [step, hmerge, happly, Option.some.injEq, Prod.mk.injEq] at h
        obtain ⟨rfl, rfl⟩ := h
        exact hempty.aside hmerge haside
  | fills env line =>
    simp only [step] at h
    split at h
    · cases h
      exact hsame ⟨rfl, rfl⟩
    · obtain ⟨r, hr, heq⟩ := Option.map_eq_some_iff.mp h
      cases heq
      exact hsame ⟨rfl, rfl⟩
  | desync =>
    cases h
    exact hsame ⟨rfl, rfl⟩
  | flush env =>
    cases h
    exact hsame ⟨rfl, rfl⟩

/-- What is handed out lies above the floor. -/
theorem step_above (h : s.step op = some (s', said)) (habove : s.merge.Above) :
    s'.merge.Above ∧ s'.merge.floor = s.merge.floor ∧
      ∀ t ∈ LiveMerge.handedOut said, s.merge.floor < t.1 := by
  rcases step_merge h with ⟨hsame, rfl⟩ | ⟨mop, hmerge⟩
  · rw [hsame]
    exact ⟨habove, rfl, fun t ht => absurd ht List.not_mem_nil⟩
  · exact habove.step hmerge

end BookLoop

/-! ## Installs -/

/-- The listener as the server starts it: what is kept at most for a replay, whether losses are
heeded, and whether the orders that wait for their trigger are tracked. -/
def OrderBookListener.configured (internalMessageTx ignoreSpot : Bool) (marketFilter : MarketFilter)
    (cap : ℕ) (tolerateDrift trackUntriggered : Bool) : OrderBookListener :=
  { OrderBookListener.new internalMessageTx ignoreSpot marketFilter with
    cacheEventCap := cap, tolerateDrift, trackUntriggered }

section Installs

variable [SlabPolicy] [FixedPoint] {l l' : OrderBookListener} {p : PhasedInstall} {now : ℕ}

/-- Nothing is kept for the replay. -/
structure OrderBookListener.KeepsNothing (l : OrderBookListener) : Prop where
  cache : l.fetchedSnapshotCache = none ∨ l.fetchedSnapshotCache = some []
  count : l.cachedEventCount = 0

theorem OrderBookListener.keepsNothing_configured (tx spot : Bool) (filter : MarketFilter)
    (cap : ℕ) (drift track : Bool) :
    (OrderBookListener.configured tx spot filter cap drift track).KeepsNothing :=
  ⟨Or.inr rfl, rfl⟩

theorem OrderBookListener.SameReplay.keepsNothing (h : l.SameReplay l') (hl : l.KeepsNothing) :
    l'.KeepsNothing := ⟨by rw [h.cache]; exact hl.cache, h.count.trans hl.count⟩

theorem OrderBookListener.KeepsNothing.beginFetch (hl : l.KeepsNothing) (head : ℕ) :
    (l.beginFetch head).KeepsNothing := by
  have hbegin : l.beginCaching.KeepsNothing := by
    rw [beginCaching]
    split
    · exact ⟨Or.inr rfl, rfl⟩
    · exact hl
  exact ⟨hbegin.cache, hbegin.count⟩

/-- There is nothing to replay. -/
theorem PhasedInstall.not_chases (hl : l.KeepsNothing) : p.chases l = false := by
  simp [PhasedInstall.chases, OrderBookListener.replayCacheStatus, hl.count]

/-- **An install puts in the book as it was built.** -/
theorem PhasedInstall.commit_keepsNothing (hl : l.KeepsNothing) (h : p.commit now l = some l') :
    l'.fetchedSnapshotCache = none ∧ l'.cachedEventCount = 0 ∧
      l'.orderBookState = some p.state.takeInsertBeforeFallbacks.1 := by
  have hgives : p.givesUp l = false := by
    simp [PhasedInstall.givesUp, OrderBookListener.replayCacheStatus, hl.count]
  have hnothing : l.fetchedSnapshotCache.getD [] = [] := by
    rcases hl.cache with hcache | hcache <;> rw [hcache] <;> rfl
  rw [PhasedInstall.commit, hgives, if_neg Bool.false_ne_true, OrderBookListener.finishInstall,
    hnothing, replayAll] at h
  cases h
  simp only [OrderBookListener.settleLosses]
  split
  · rw [OrderBookListener.markDesynced]
    split <;> exact ⟨rfl, rfl, rfl⟩
  · split <;> exact ⟨rfl, rfl, rfl⟩

end Installs

/-! ## One fetch at a time -/

/-- The height of the snapshot that the book streams are applied to, from what was told of. -/
def eraAfter : Option ℕ → MainEvent → Option ℕ
  | _, .started _ _ => none
  | _, .installed height => some height
  | era, _ => era

def era (said : List MainEvent) : Option ℕ := said.foldl eraAfter none

/-- A batch that is handed out lies above the snapshot that was installed last, with no fetch
started since. -/
def HandedAbove (before : List MainEvent) : MainEvent → Prop
  | .merge (.handed t) => ∃ height, era before = some height ∧ height < t.1
  | _ => True

theorem era_merge (said : List MainEvent) (events : List MergeEvent) :
    era (said ++ events.map .merge) = era said := by
  induction events generalizing said with
  | nil => simp
  | cons e events ih =>
    rw [List.map_cons, List.append_cons, ih, era, List.foldl_append]
    rfl

namespace MainLoop

variable [SlabPolicy] [FixedPoint] [LineParser]

/-- **Where the loop stands**: at most one fetch runs or has a result that was not received;
meanwhile the streams are held, the merge holds nothing, and nothing is kept for the replay. -/
structure OnTrack (said : List MainEvent) (s : MainLoop) : Prop where
  inFlight : s.tasks.length + s.results.length = if s.snapshotFetchPending then 1 else 0
  held : s.snapshotFetchPending = true → s.mergeActive = false
  empty : s.mergeActive = false → s.book.merge.Empty
  above : s.book.merge.Above
  keepsNothing : s.book.listener.KeepsNothing
  live : s.mergeActive = true → s.book.listener.fetchedSnapshotCache = none ∧
    s.book.listener.isReady = true ∧ era said = some s.book.merge.floor
  fresh : ∀ p, .installing p ∈ s.tasks → p.rounds = 0
  done : ∀ height, some height ∈ s.results → s.book.listener.fetchedSnapshotCache = none ∧
    s.book.listener.isReady = true ∧ era said = some height
  handed : SaidAfter HandedAbove said

variable {l : OrderBookListener} {rx : Slot → List String} {now : ℕ} {s s' : MainLoop}
  {said said' : List MainEvent} {op : MainLoopOp} {ops : List MainLoopOp}

theorem onTrack_init (hl : l.KeepsNothing) : OnTrack [] (init l rx now) where
  inFlight := rfl
  held h := rfl
  empty _ := LiveMerge.empty_new rx 0
  above := (LiveMerge.empty_new rx 0).above 0
  keepsNothing := hl
  live h := by cases h
  fresh p hp := by cases hp
  done height hheight := by cases hheight
  handed := .nil

/-- A fetch that runs is the only one. -/
theorem OnTrack.running (h : OnTrack said s) {k : ℕ} {t : FetchTask} (hk : s.tasks[k]? = some t) :
    s.snapshotFetchPending = true ∧ k = 0 ∧ s.tasks = [t] ∧ s.results = [] := by
  have hlen := h.inFlight
  have hlt := List.getElem?_eq_some_iff.mp hk
  obtain ⟨hlt, hget⟩ := hlt
  cases hpending : s.snapshotFetchPending with
  | false =>
    simp only [hpending, Bool.false_eq_true, if_false] at hlen
    omega
  | true =>
    simp only [hpending, if_true] at hlen
    have hone : s.tasks.length = 1 := by omega
    obtain ⟨t', ht'⟩ := List.length_eq_one_iff.mp hone
    have hk0 : k = 0 := by omega
    refine ⟨rfl, hk0, ?_, List.length_eq_zero_iff.mp (by omega)⟩
    simp only [ht', hk0, List.getElem_cons_zero] at hget
    rw [ht', hget]

/-- A result that waits is the only one, and no fetch runs. -/
theorem OnTrack.waiting (h : OnTrack said s) {r : Option ℕ} {rest : List (Option ℕ)}
    (hr : s.results = r :: rest) :
    s.snapshotFetchPending = true ∧ s.tasks = [] ∧ rest = [] := by
  have hlen := h.inFlight
  rw [hr, List.length_cons] at hlen
  cases hpending : s.snapshotFetchPending with
  | false =>
    simp only [hpending, Bool.false_eq_true, if_false] at hlen
    omega
  | true =>
    simp only [hpending, if_true] at hlen
    exact ⟨rfl, List.length_eq_zero_iff.mp (by omega), List.length_eq_zero_iff.mp (by omega)⟩

/-- Nothing runs and nothing waits. -/
theorem OnTrack.nothing (h : OnTrack said s) (hpending : s.snapshotFetchPending = false) :
    s.tasks = [] ∧ s.results = [] := by
  have hlen := h.inFlight
  simp only [hpending, Bool.false_eq_true, if_false] at hlen
  exact ⟨List.length_eq_zero_iff.mp (by omega), List.length_eq_zero_iff.mp (by omega)⟩

/-- **What the watchers send** keeps the invariant. -/
theorem OnTrack.book (h : OnTrack said s) {op : BookLoopOp}
    (hstep : s.step (.book op) = some (s', said')) : OnTrack (said ++ said') s' := by
  simp only [step, Option.ite_none_right_eq_some] at hstep
  obtain ⟨hactive, hstep⟩ := hstep
  obtain ⟨⟨book, events⟩, hbook, heq⟩ := Option.map_eq_some_iff.mp hstep
  cases heq
  have haside : s.mergeActive = false → op.isAside = true := by
    intro hheld
    rwa [hheld, Bool.false_or] at hactive
  have hsame : s.book.listener.SameReplay book.listener := by
    refine BookLoop.step_sameReplay hbook ?_
    cases hheld : s.mergeActive with
    | true => exact Or.inr (h.live hheld).1
    | false => exact Or.inl (haside hheld)
  obtain ⟨habove, hfloor, hhanded⟩ := BookLoop.step_above hbook h.above
  have hera : era (said ++ events.map .merge) = era said := era_merge said events
  exact
    { inFlight := h.inFlight
      held := h.held
      empty := fun hheld => (BookLoop.step_aside hbook (h.empty hheld) (haside hheld)).1
      above := habove
      keepsNothing := hsame.keepsNothing h.keepsNothing
      live := fun hactive => by
        obtain ⟨hcache, hready, hfloor'⟩ := h.live hactive
        exact ⟨hsame.cache.trans hcache, hsame.isReady.trans hready, by
          rw [hera, hfloor', hfloor]⟩
      fresh := h.fresh
      done := fun height hheight => by
        obtain ⟨hcache, hready, hdone⟩ := h.done height hheight
        exact ⟨hsame.cache.trans hcache, hsame.isReady.trans hready, hera.trans hdone⟩
      handed := by
        refine h.handed.append ?_
        intro before m after heq
        obtain ⟨events₁, events₂, hevents, rfl, hafter⟩ := List.map_eq_append_iff.mp heq
        obtain ⟨e, events₃, rfl, rfl, -⟩ := List.map_eq_cons_iff.mp hafter
        cases e with
        | consumed i line => trivial
        | handed t =>
          have hmem : .handed t ∈ events := by
            rw [show events = events₁ ++ .handed t :: events₃ from hevents]
            exact List.mem_append_right _ List.mem_cons_self
          have ht : t ∈ LiveMerge.handedOut events := List.mem_filterMap.mpr ⟨_, hmem, rfl⟩
          have hactive : s.mergeActive = true := by
            by_contra hheld
            rw [Bool.not_eq_true] at hheld
            rw [(BookLoop.step_aside hbook (h.empty hheld) (haside hheld)).2.2] at ht
            exact absurd ht List.not_mem_nil
          exact ⟨s.book.merge.floor, by rw [era_merge, (h.live hactive).2.2], hhanded t ht⟩ }

/-- A step that says nothing and leaves the merge as it is. -/
theorem OnTrack.of_quiet (h : OnTrack said s) (hbook : s'.book.merge = s.book.merge)
    (hactive : s'.mergeActive = s.mergeActive)
    (hpending : s'.snapshotFetchPending = s.snapshotFetchPending)
    (hlen : s'.tasks.length + s'.results.length = s.tasks.length + s.results.length)
    (hkeeps : s'.book.listener.KeepsNothing)
    (hlive : s.mergeActive = true → s.book.listener.SameReplay s'.book.listener)
    (hfresh : ∀ p, .installing p ∈ s'.tasks → p.rounds = 0)
    (hdone : ∀ height, some height ∈ s'.results → some height ∈ s.results ∧
      s.book.listener.SameReplay s'.book.listener) : OnTrack (said ++ []) s' := by
  rw [List.append_nil]
  exact
    { inFlight := by rw [hlen, hpending]; exact h.inFlight
      held := fun hp => by rw [hactive]; exact h.held (hpending ▸ hp)
      empty := fun hheld => by rw [hbook]; exact h.empty (hactive ▸ hheld)
      above := by rw [hbook]; exact h.above
      keepsNothing := hkeeps
      live := fun ha => by
        rw [hactive] at ha
        obtain ⟨hcache, hready, hera⟩ := h.live ha
        have hsame := hlive ha
        exact ⟨hsame.cache.trans hcache, hsame.isReady.trans hready, by rw [hbook]; exact hera⟩
      fresh := hfresh
      done := fun height hheight => by
        obtain ⟨hold, hsame⟩ := hdone height hheight
        obtain ⟨hcache, hready, hera⟩ := h.done height hold
        exact ⟨hsame.cache.trans hcache, hsame.isReady.trans hready, hera⟩
      handed := h.handed }

/-- **A fetch that advances** keeps the invariant. -/
theorem OnTrack.begin (h : OnTrack said s) {k head : ℕ}
    (hstep : s.step (.begin k head) = some (s', said')) : OnTrack (said ++ said') s' := by
  simp only [step] at hstep
  split at hstep
  · next hk =>
    cases hstep
    obtain ⟨hpending, hk0, htasks, hresults⟩ := h.running hk
    have hheld := h.held hpending
    refine h.of_quiet rfl rfl rfl (by simp [withListener]) (h.keepsNothing.beginFetch head) ?_ ?_ ?_
    · intro hactive
      rw [hheld] at hactive
      cases hactive
    · intro p hp
      simp [hk0, htasks] at hp
    · intro height hheight
      simp [withListener, hresults] at hheight
  · cases hstep

theorem OnTrack.load (h : OnTrack said s) {k height : ℕ} {snapshot : Snapshots InnerL4Order}
    {untriggered : List InnerL4Order}
    (hstep : s.step (.load k snapshot untriggered height) = some (s', said')) :
    OnTrack (said ++ said') s' := by
  simp only [step] at hstep
  split at hstep
  · next hk =>
    cases hstep
    obtain ⟨hpending, hk0, htasks, hresults⟩ := h.running hk
    refine h.of_quiet rfl rfl rfl (by simp) h.keepsNothing (fun _ => ⟨rfl, rfl, rfl⟩) ?_ ?_
    · intro p hp
      simp [hk0, htasks] at hp
      rw [hp]
      rfl
    · intro height hheight
      exact ⟨hheight, rfl, rfl, rfl⟩
  · cases hstep

/-- There is never a round of replay. -/
theorem OnTrack.not_chase (h : OnTrack said s) (k now : ℕ) : s.step (.chase k now) = none := by
  simp only [step]
  split
  · rw [PhasedInstall.not_chases h.keepsNothing, if_neg Bool.false_ne_true]
  · rfl

/-- **The end of an install** keeps the invariant. -/
theorem OnTrack.commit (h : OnTrack said s) {k now : ℕ}
    (hstep : s.step (.commit k now) = some (s', said')) : OnTrack (said ++ said') s' := by
  simp only [step] at hstep
  split at hstep
  · next p hk =>
    rw [PhasedInstall.not_chases h.keepsNothing, if_neg Bool.false_ne_true] at hstep
    obtain ⟨l, hcommit, heq⟩ := Option.map_eq_some_iff.mp hstep
    cases heq
    obtain ⟨hpending, hk0, htasks, hresults⟩ := h.running hk
    obtain ⟨hcache, hcount, hbook⟩ := PhasedInstall.commit_keepsNothing h.keepsNothing hcommit
    have hheld := h.held hpending
    exact
      { inFlight := by simp [withListener, hpending, htasks, hresults, hk0]
        held := h.held
        empty := h.empty
        above := h.above
        keepsNothing := ⟨Or.inl hcache, hcount⟩
        live := fun hactive => by
          have : s.mergeActive = true := hactive
          rw [hheld] at this
          cases this
        fresh := fun p hp => by simp [htasks, hk0] at hp
        done := fun height hheight => by
          simp only [hresults, List.nil_append, List.mem_singleton, Option.some.injEq] at hheight
          refine ⟨hcache, ?_, ?_⟩
          · simp [withListener, OrderBookListener.isReady, hbook]
          · rw [hheight, era, List.foldl_append]
            rfl
        handed := h.handed.append (.singleton trivial) }
  · cases hstep

theorem OnTrack.fail (h : OnTrack said s) {k : ℕ}
    (hstep : s.step (.fail k) = some (s', said')) : OnTrack (said ++ said') s' := by
  simp only [step] at hstep
  split at hstep
  · cases hstep
  · cases hstep
  · next t ht hk =>
    cases hstep
    obtain ⟨hpending, hk0, htasks, hresults⟩ := h.running hk
    refine h.of_quiet rfl rfl rfl (by simp [htasks, hresults, hk0]) h.keepsNothing
      (fun _ => ⟨rfl, rfl, rfl⟩) ?_ ?_
    · intro p hp
      simp [htasks, hk0] at hp
    · intro height hheight
      simp [hresults] at hheight

/-- **A result that is received** keeps the invariant. -/
theorem OnTrack.receive (h : OnTrack said s)
    (hstep : s.step .receive = some (s', said')) : OnTrack (said ++ said') s' := by
  simp only [step] at hstep
  split at hstep
  · cases hstep
  · next rest hresults =>
    rw [Option.ite_none_right_eq_some] at hstep
    obtain ⟨hready, hstep⟩ := hstep
    cases hstep
    obtain ⟨hpending, htasks, rfl⟩ := h.waiting hresults
    have hheld := h.held hpending
    exact
      { inFlight := by simp [afterFetch, htasks]
        held := fun hp => by cases hp
        empty := h.empty
        above := h.above
        keepsNothing := h.keepsNothing
        live := fun hactive => by
          have : s.mergeActive = true := hactive
          rw [hheld] at this
          cases this
        fresh := h.fresh
        done := fun height hheight => by cases hheight
        handed := h.handed.append (.singleton trivial) }
  · next height rest hresults =>
    cases hstep
    obtain ⟨hpending, htasks, rfl⟩ := h.waiting hresults
    have hheld := h.held hpending
    obtain ⟨hcache, hready, hera⟩ := h.done height (by simp [hresults])
    exact
      { inFlight := by simp [afterFetch, htasks]
        held := fun hp => by cases hp
        empty := fun hactive => by cases hactive
        above := (h.empty hheld).above height
        keepsNothing := h.keepsNothing
        live := fun _ => ⟨hcache, hready, by rw [era, List.foldl_append]; exact hera⟩
        fresh := h.fresh
        done := fun height hheight => by cases hheight
        handed := h.handed.append (.singleton trivial) }

/-- **A tick** keeps the invariant. -/
theorem OnTrack.tick (h : OnTrack said s)
    (hstep : s.step (.tick rx) = some (s', said')) : OnTrack (said ++ said') s' := by
  simp only [step] at hstep
  split at hstep
  · next hdue =>
    rw [Bool.and_eq_true, Bool.not_eq_true'] at hdue
    obtain ⟨htasks, hresults⟩ := h.nothing hdue.2
    cases hstep
    have hheld : s.book.listener.isReady = false → s.mergeActive = false := by
      intro hready
      by_contra hactive
      rw [Bool.not_eq_false] at hactive
      rw [(h.live hactive).2.1] at hready
      cases hready
    split
    · next hready =>
      exact
        { inFlight := by simp [htasks, hresults]
          held := fun _ => rfl
          empty := fun _ => LiveMerge.empty_new rx 0
          above := (LiveMerge.empty_new rx 0).above 0
          keepsNothing := h.keepsNothing
          live := fun hactive => by cases hactive
          fresh := fun p hp => by simp [htasks] at hp
          done := fun height hheight => by simp [hresults] at hheight
          handed := h.handed.append (.singleton trivial) }
    · next hready =>
      have hheld' := hheld (Bool.not_eq_true _ ▸ hready)
      exact
        { inFlight := by simp [htasks, hresults]
          held := fun _ => hheld'
          empty := h.empty
          above := h.above
          keepsNothing := h.keepsNothing
          live := fun hactive => by
            have : s.mergeActive = true := hactive
            rw [hheld'] at this
            cases this
          fresh := fun p hp => by simp [htasks] at hp
          done := fun height hheight => by simp [hresults] at hheight
          handed := h.handed.append (.singleton trivial) }
  · cases hstep
    rw [List.append_nil]
    exact h

/-- **Every event keeps the invariant.** -/
theorem OnTrack.step (h : OnTrack said s) (hstep : s.step op = some (s', said')) :
    OnTrack (said ++ said') s' := by
  cases op with
  | elapse ms =>
    cases hstep
    exact h.of_quiet rfl rfl rfl rfl h.keepsNothing (fun _ => ⟨rfl, rfl, rfl⟩) h.fresh
      fun height hheight => ⟨hheight, rfl, rfl, rfl⟩
  | book op => exact h.book hstep
  | begin k head => exact h.begin hstep
  | load k snapshot untriggered height => exact h.load hstep
  | chase k now =>
    rw [h.not_chase] at hstep
    cases hstep
  | commit k now => exact h.commit hstep
  | fail k => exact h.fail hstep
  | receive => exact h.receive hstep
  | tick rx => exact h.tick hstep

theorem onTrack_run (hl : l.KeepsNothing)
    (hrun : runSteps step ops (init l rx now) = some (s, said)) : OnTrack said s := by
  refine Runs.along (P := fun _ said s => OnTrack said s) ?_ (onTrack_init hl) hrun
  intro _ s₁ said₁ op s₂ said₂ _ h hstep
  exact h.step hstep

/-- **There is one fetch at a time**, whose result the loop waits for; while it is out the book
streams are held, so that nothing is ever kept for its replay: no round of replay is ever made
and an install puts in the book as it was built.  Every batch that is applied lies above the
snapshot installed last, with no fetch started since. -/
theorem oneFetch_run {tx spot drift track : Bool} {filter : MarketFilter} {cap : ℕ}
    (hrun : runSteps step ops (init (.configured tx spot filter cap drift track) rx now) =
      some (s, said)) :
    (s.tasks.length + s.results.length = if s.snapshotFetchPending then 1 else 0) ∧
    (s.snapshotFetchPending = true → s.mergeActive = false) ∧
    s.book.listener.cachedEventCount = 0 ∧
    (∀ k now, s.step (.chase k now) = none) ∧
    (∀ k now s' said', s.step (.commit k now) = some (s', said') → ∃ p,
      s.tasks[k]? = some (.installing p) ∧ p.rounds = 0 ∧
      s'.book.listener.orderBookState = some p.state.takeInsertBeforeFallbacks.1) ∧
    SaidAfter HandedAbove said := by
  have h := onTrack_run (OrderBookListener.keepsNothing_configured ..) hrun
  refine ⟨h.inFlight, h.held, h.keepsNothing.count, h.not_chase, ?_, h.handed⟩
  intro k now s' said' hstep
  simp only [step] at hstep
  split at hstep
  · next p hk =>
    rw [PhasedInstall.not_chases h.keepsNothing, if_neg Bool.false_ne_true] at hstep
    obtain ⟨l, hcommit, heq⟩ := Option.map_eq_some_iff.mp hstep
    cases heq
    exact ⟨p, hk, h.fresh p (List.mem_of_getElem? hk),
      (PhasedInstall.commit_keepsNothing h.keepsNothing hcommit).2.2⟩
  · cases hstep

end MainLoop

/-! ## The book stands still -/

namespace OrderBooks

variable {bs bs' bs'' : OrderBooks InnerL4Order}

/-- The books rest the same orders, in the same queues; no book rests none. -/
def SameQueues (bs bs' : OrderBooks InnerL4Order) : Prop :=
  ∀ c, (bs'.book c).raw.toRef = (bs.book c).raw.toRef

theorem SameQueues.refl (bs : OrderBooks InnerL4Order) : bs.SameQueues bs := fun _ => rfl

theorem SameQueues.trans (h : bs.SameQueues bs') (h' : bs'.SameQueues bs'') :
    bs.SameQueues bs'' := fun c => (h' c).trans (h c)

theorem toRef_of_orderCount {b : OrderBook InnerL4Order} (h : b.orderCount = 0) :
    b.raw.toRef = (OrderBook.new : OrderBook InnerL4Order).raw.toRef := by
  have hnone := b.orderCount_eq_zero_iff_side.mp h
  have hbids : b.raw.bids = ∅ := hnone .bid
  have hasks : b.raw.asks = ∅ := hnone .ask
  rw [RawBook.toRef, RawBook.toRef, hbids, hasks]
  rfl

theorem sameQueues_compactAll [SlabPolicy] (bs : OrderBooks InnerL4Order) :
    bs.SameQueues bs.compactAll.1 := by
  intro c
  have hget : bs.compactAll.1.orderBooks[c]? =
      (bs.orderBooks[c]?.map fun b => b.compact.1).filter fun b => b.orderCount > 0 := by
    rw [compactAll, Std.ExtTreeMap.getElem?_filter', Std.ExtTreeMap.getElem?_map]
  cases hbook : bs.orderBooks[c]? with
  | none => rw [book, book, hget, hbook]; rfl
  | some b =>
    have hcompact : b.compact.1.raw.toRef = b.raw.toRef := RawBook.Shows.toRef_compact b.raw
    rw [hbook, Option.map_some] at hget
    by_cases h0 : b.compact.1.orderCount = 0
    · rw [book, book, hget, hbook]
      simp only [Option.filter, h0, gt_iff_lt, lt_irrefl, decide_false, Bool.false_eq_true,
        if_false, Option.getD_none, Option.getD_some]
      rw [← hcompact, toRef_of_orderCount h0]
    · have hpos : 0 < b.compact.1.orderCount := by omega
      rw [book, book, hget, hbook]
      simp only [Option.filter, gt_iff_lt, hpos, decide_true, if_true, Option.getD_some]
      exact hcompact

end OrderBooks

namespace OrderBookListener

variable [SlabPolicy] [FixedPoint] {l l' : OrderBookListener} {env : Env} {height : ℕ}
  {batch : EventBatch} {sent : List InternalMessage}

theorem sameQueues_conclude (env : Env) (l : OrderBookListener)
    (result : Except Failure (Std.ExtTreeSet Coin)) :
    l.books.SameQueues (l.conclude env result).1.books := by
  have hmaintain : l.books.SameQueues (l.maintain env.now).1.books := by
    simp only [maintain]
    split
    · next state hstate =>
      split
      · rw [books_of_some hstate]
        exact OrderBooks.sameQueues_compactAll _
      · exact .refl _
    · exact .refl _
  have hextend : ∀ (l₁ : OrderBookListener) changed, (l₁.extendDirty changed).books = l₁.books :=
    fun _ _ => rfl
  rw [conclude_fst, hextend]
  split
  · rw [(markDesynced_marked _).books]
    exact hmaintain
  · exact hmaintain

/-- Fills change no book. -/
theorem sameQueues_fills (h : l.applyEventBatch env height batch = some (l', sent))
    (hfills : batch.isFills = true) : l.books.SameQueues l'.books := by
  have hkeep : ((l.see height).cacheForReplay batch).1.books = l.books :=
    (cacheForReplay_marked (l.see height) batch).books
  rcases applyEventBatch_cases h with ⟨-, rfl, -⟩ | ⟨-, -, rfl, -⟩ | ⟨-, state, hstate, hlive⟩
  · rw [(markDesynced_marked (l.see height)).books]
    exact .refl _
  · rw [hkeep]
    exact .refl _
  · obtain ⟨l₁, sent₁, result, happly, -, rfl, -⟩ := applyLive_eq_some hlive
    have hbooks := (applyToState_books env ((l.see height).cacheForReplay batch).1 state batch).1
    have hsame : (batch.applyTo env.now state).1 = state := by
      cases batch with
      | fills b => rfl
      | orders b => cases hfills
      | bookDiffs b => cases hfills
    rw [happly, hsame] at hbooks
    rw [books_of_some hstate, ← hbooks]
    exact sameQueues_conclude env l₁ result

theorem books_flushL2IfDue (env : Env) (l : OrderBookListener) :
    (l.flushL2IfDue env).1.books = l.books := by
  obtain ⟨last, cache, dirty, active, heq⟩ := flushL2IfDue_fst env l
  rw [heq]
  rfl

end OrderBookListener

namespace BookLoop

variable [SlabPolicy] [FixedPoint] [LineParser] {s s' : BookLoop} {op : BookLoopOp}
  {said : List MergeEvent}

open OrderBookListener

/-- **What comes while the streams are held changes no book.** -/
theorem sameQueues_aside (h : s.step op = some (s', said)) (haside : op.isAside = true)
    (hempty : s.merge.Empty) : s.listener.books.SameQueues s'.listener.books := by
  cases op with
  | merge env mop =>
    cases hmerge : s.merge.step mop with
    | none => simp [step, hmerge] at h
    | some r =>
      obtain ⟨m, events⟩ := r
      obtain ⟨-, -, hnothing⟩ := hempty.aside hmerge haside
      simp only [step, hmerge, hnothing, LiveMerge.handedOut, List.filterMap_nil, applyTaken,
        if_true, Option.some.injEq, Prod.mk.injEq] at h
      rw [← h.1]
      exact .refl _
  | fills env line =>
    simp only [step] at h
    split at h
    · cases h
      exact .refl _
    · next height batch hparse =>
      obtain ⟨r, hr, heq⟩ := Option.map_eq_some_iff.mp h
      cases heq
      rw [books_flushL2IfDue]
      exact sameQueues_fills hr (isFills_of_parse hparse)
  | desync =>
    cases h
    rw [(markDesynced_marked _).books]
    exact .refl _
  | flush env =>
    cases h
    rw [books_flushL2IfDue]
    exact .refl _

end BookLoop

namespace MainLoop

variable [SlabPolicy] [FixedPoint] [LineParser] {l : OrderBookListener}
  {rx : Slot → List String} {now : ℕ} {s s' : MainLoop} {said said' : List MainEvent}
  {op : MainLoopOp} {ops : List MainLoopOp}

/-- The streams are held, and no snapshot waits to be received. -/
structure Still (s : MainLoop) : Prop where
  held : s.mergeActive = false
  results : ∀ height, some height ∉ s.results

/-- **Nothing but the end of an install changes a book** while the streams are held. -/
theorem Still.step (hstill : s.Still) (h : OnTrack said s) (hop : op.isCommit = false)
    (hstep : s.step op = some (s', said')) :
    s'.Still ∧ s.book.listener.books.SameQueues s'.book.listener.books := by
  cases op with
  | elapse ms =>
    cases hstep
    exact ⟨⟨hstill.held, hstill.results⟩, .refl _⟩
  | book op =>
    simp only [MainLoop.step, hstill.held, Bool.false_or, Option.ite_none_right_eq_some] at hstep
    obtain ⟨haside, hstep⟩ := hstep
    obtain ⟨r, hbook, heq⟩ := Option.map_eq_some_iff.mp hstep
    cases heq
    exact ⟨⟨rfl, hstill.results⟩,
      BookLoop.sameQueues_aside hbook haside (h.empty hstill.held)⟩
  | begin k head =>
    simp only [MainLoop.step] at hstep
    split at hstep
    · cases hstep
      refine ⟨⟨hstill.held, hstill.results⟩, ?_⟩
      simp only [withListener, OrderBookListener.beginFetch, OrderBookListener.beginCaching]
      split <;> exact .refl _
    · cases hstep
  | load k snapshot untriggered height =>
    simp only [MainLoop.step] at hstep
    split at hstep
    · cases hstep
      exact ⟨⟨hstill.held, hstill.results⟩, .refl _⟩
    · cases hstep
  | chase k now =>
    rw [h.not_chase] at hstep
    cases hstep
  | commit k now => cases hop
  | fail k =>
    simp only [MainLoop.step] at hstep
    split at hstep
    · cases hstep
    · cases hstep
    · cases hstep
      refine ⟨⟨hstill.held, fun height hheight => ?_⟩, .refl _⟩
      simp only [List.mem_append, List.mem_singleton, reduceCtorEq, or_false] at hheight
      exact hstill.results height hheight
  | receive =>
    simp only [MainLoop.step] at hstep
    split at hstep
    · cases hstep
    · next rest hresults =>
      obtain ⟨-, hstep⟩ := Option.ite_none_right_eq_some.mp hstep
      cases hstep
      refine ⟨⟨hstill.held, fun height hheight => ?_⟩, .refl _⟩
      exact hstill.results height (by rw [hresults]; exact List.mem_cons_of_mem _ hheight)
    · next height rest hresults =>
      exact absurd (by rw [hresults]; exact List.mem_cons_self) (hstill.results height)
  | tick rx =>
    simp only [MainLoop.step] at hstep
    split at hstep
    · cases hstep
      split
      · exact ⟨⟨rfl, hstill.results⟩, .refl _⟩
      · exact ⟨⟨hstill.held, hstill.results⟩, .refl _⟩
    · cases hstep
      exact ⟨hstill, .refl _⟩

theorem Still.run (hstill : s.Still) (h : OnTrack said s) (hops : ∀ op ∈ ops, op.isCommit = false)
    (hrun : runSteps MainLoop.step ops s = some (s', said')) :
    s'.Still ∧ s.book.listener.books.SameQueues s'.book.listener.books := by
  induction ops generalizing s said said' with
  | nil =>
    cases hrun
    exact ⟨hstill, .refl _⟩
  | cons op ops ih =>
    obtain ⟨s₁, said₁, said₂, hstep, hrest, rfl⟩ := Runs.cons_eq_some.mp hrun
    rw [List.forall_mem_cons] at hops
    obtain ⟨hstill₁, hsame₁⟩ := hstill.step h hops.1 hstep
    obtain ⟨hstill', hsame'⟩ := ih hstill₁ (h.step hstep) hops.2 hrest
    exact ⟨hstill', hsame₁.trans hsame'⟩

/-- **During a re-sync the book stands still**: from the tick that asks for a snapshot to the end
of its install, whatever arrives, is reported, fails or is asked for again meanwhile, every
coin's book rests the same orders in the same queues. -/
theorem standsStill_run {tx spot drift track : Bool} {filter : MarketFilter} {cap : ℕ}
    {rx' : Slot → List String} {s₀ : MainLoop} {ops' : List MainLoopOp} {t : ℕ}
    (hrun : runSteps step ops (init (.configured tx spot filter cap drift track) rx now) =
      some (s₀, said))
    (htick : s₀.step (.tick rx') = some (s, [.started true t]))
    (hrun' : runSteps step ops' s = some (s', said')) (hops : ∀ op ∈ ops', op.isCommit = false) :
    s₀.book.listener.books.SameQueues s'.book.listener.books ∧ s'.mergeActive = false := by
  have h₀ := onTrack_run (OrderBookListener.keepsNothing_configured ..) hrun
  have h := h₀.step htick
  have hstill : s.Still ∧ s.book.listener = s₀.book.listener := by
    simp only [step] at htick
    split at htick
    · next hdue =>
      rw [Bool.and_eq_true, Bool.not_eq_true'] at hdue
      obtain ⟨-, hresults⟩ := h₀.nothing hdue.2
      simp only [Option.some.injEq, Prod.mk.injEq, List.cons.injEq, MainEvent.started.injEq,
        and_true] at htick
      obtain ⟨rfl, hready, -⟩ := htick
      rw [if_pos hready]
      exact ⟨⟨rfl, fun height hheight => by simp [hresults] at hheight⟩, rfl⟩
    · cases htick
  obtain ⟨hstill', hsame⟩ := hstill.1.run h hops hrun'
  rw [hstill.2] at hsame
  exact ⟨hsame, hstill'.held⟩

end MainLoop

/-! ## How far apart the fetches are -/

/-- How many results in a row have not brought the book into sync. -/
def failuresAfter : ℕ → MainEvent → ℕ
  | _, .received true _ => 0
  | k, .received false _ => k + 1
  | k, _ => k

def failures (said : List MainEvent) : ℕ := said.foldl failuresAfter 0

/-- When the last result was received. -/
def receivedAfter : Option ℕ → MainEvent → Option ℕ
  | _, .received _ t => some t
  | r, _ => r

def lastReceived (said : List MainEvent) : Option ℕ := said.foldl receivedAfter none

/-- When a re-sync was started. -/
def MainEvent.resyncStart : MainEvent → Option ℕ
  | .started true t => some t
  | _ => none

def starts (said : List MainEvent) : List ℕ := said.filterMap MainEvent.resyncStart

/-- The time to be kept after a number of failures: it is doubled each time, up to a bound. -/
def backOff (failures : ℕ) : ℕ := min (resyncBackoffBase * 2 ^ failures) resyncBackoffMax

/-- A re-sync is started no earlier than the time to be kept after the last result. -/
def BacksOff (before : List MainEvent) : MainEvent → Prop
  | .started true t => ∃ r, lastReceived before = some r ∧ r + backOff (failures before) ≤ t
  | _ => True

/-- Neither a start nor a result. -/
def MainEvent.isNeutral : MainEvent → Bool
  | .started _ _ => false
  | .received _ _ => false
  | _ => true

theorem backOff_succ (k : ℕ) : min (backOff k * 2) resyncBackoffMax = backOff (k + 1) := by
  rw [backOff, backOff, Nat.pow_succ, ← Nat.mul_assoc]
  omega

theorem resyncBackoffBase_le (k : ℕ) : resyncBackoffBase ≤ backOff k := by
  have : resyncBackoffBase * 1 ≤ resyncBackoffBase * 2 ^ k :=
    Nat.mul_le_mul_left _ Nat.one_le_two_pow
  have : resyncBackoffBase ≤ resyncBackoffMax := by decide
  rw [backOff]
  omega

section Neutral

variable {said said' : List MainEvent}

theorem foldl_neutral {A : Type} {f : A → MainEvent → A}
    (hf : ∀ a e, e.isNeutral = true → f a e = a) (h : ∀ e ∈ said', e.isNeutral = true) (a : A) :
    said'.foldl f a = a := by
  induction said' generalizing a with
  | nil => rfl
  | cons e rest ih =>
    rw [List.forall_mem_cons] at h
    rw [List.foldl_cons, hf a e h.1, ih h.2]

theorem failures_neutral (h : ∀ e ∈ said', e.isNeutral = true) :
    failures (said ++ said') = failures said := by
  rw [failures, List.foldl_append]
  exact foldl_neutral (fun a e he => by cases e <;> first | rfl | cases he) h _

theorem lastReceived_neutral (h : ∀ e ∈ said', e.isNeutral = true) :
    lastReceived (said ++ said') = lastReceived said := by
  rw [lastReceived, List.foldl_append]
  exact foldl_neutral (fun a e he => by cases e <;> first | rfl | cases he) h _

theorem starts_neutral (h : ∀ e ∈ said', e.isNeutral = true) :
    starts (said ++ said') = starts said := by
  have hnone : said'.filterMap MainEvent.resyncStart = [] := by
    rw [List.filterMap_eq_nil_iff]
    intro e he
    have := h e he
    cases e <;> first | rfl | cases this
  rw [starts, List.filterMap_append, hnone, List.append_nil, starts]

end Neutral

namespace MainLoop

variable [SlabPolicy] [FixedPoint] [LineParser] {l : OrderBookListener}
  {rx : Slot → List String} {now : ℕ} {s s' : MainLoop} {said said' : List MainEvent}
  {op : MainLoopOp} {ops : List MainLoopOp}

/-- **How the loop paces the fetches.** -/
structure Paced (said : List MainEvent) (s : MainLoop) : Prop where
  backoff : s.resyncBackoff = backOff (failures said)
  allowed : ∀ r, lastReceived said = some r → s.nextFetchAllowed = r + s.resyncBackoff
  unready : lastReceived said = none → s.snapshotFetchPending = false →
    s.book.listener.isReady = false
  past : ∀ a ∈ starts said, a ≤ s.now
  waited : s.snapshotFetchPending = false → ∀ a ∈ starts said,
    a + resyncBackoffBase ≤ s.nextFetchAllowed
  spaced : (starts said).Pairwise fun a b => a + resyncBackoffBase ≤ b
  backsOff : SaidAfter BacksOff said

theorem paced_init (hl : l.isReady = false) : Paced [] (init l rx now) where
  backoff := rfl
  allowed r hr := by cases hr
  unready _ _ := hl
  past a ha := by cases ha
  waited _ a ha := by cases ha
  spaced := .nil
  backsOff := .nil

/-- A step that neither starts a fetch nor receives a result. -/
theorem Paced.of_neutral (h : Paced said s) (hsaid : ∀ e ∈ said', e.isNeutral = true)
    (hbackoff : s'.resyncBackoff = s.resyncBackoff)
    (hallowed : s'.nextFetchAllowed = s.nextFetchAllowed)
    (hpending : s'.snapshotFetchPending = s.snapshotFetchPending) (hnow : s.now ≤ s'.now)
    (hready : s'.snapshotFetchPending = false →
      s'.book.listener.isReady = s.book.listener.isReady) : Paced (said ++ said') s' where
  backoff := by rw [hbackoff, h.backoff, failures_neutral hsaid]
  allowed r hr := by
    rw [lastReceived_neutral hsaid] at hr
    rw [hallowed, hbackoff, h.allowed r hr]
  unready hnone hp := by
    rw [lastReceived_neutral hsaid] at hnone
    rw [hready hp, h.unready hnone (hpending ▸ hp)]
  past a ha := by
    rw [starts_neutral hsaid] at ha
    exact (h.past a ha).trans hnow
  waited hp a ha := by
    rw [starts_neutral hsaid] at ha
    rw [hallowed]
    exact h.waited (hpending ▸ hp) a ha
  spaced := by
    rw [starts_neutral hsaid]
    exact h.spaced
  backsOff := by
    refine h.backsOff.append fun before m after heq => ?_
    have hm := hsaid m (by rw [heq]; exact List.mem_append_right _ List.mem_cons_self)
    cases m with
    | merge event => trivial
    | started resync t => cases hm
    | installed height => trivial
    | received converged t => cases hm

theorem neutral_merge (events : List MergeEvent) :
    ∀ e ∈ events.map MainEvent.merge, e.isNeutral = true := by
  intro e he
  obtain ⟨event, -, rfl⟩ := List.mem_map.mp he
  rfl

/-- A step of a fetch that runs. -/
theorem Paced.of_running (h : Paced said s) (hsaid : ∀ e ∈ said', e.isNeutral = true)
    (hrunning : s.snapshotFetchPending = true) (hbackoff : s'.resyncBackoff = s.resyncBackoff)
    (hallowed : s'.nextFetchAllowed = s.nextFetchAllowed)
    (hpending : s'.snapshotFetchPending = s.snapshotFetchPending) (hnow : s'.now = s.now) :
    Paced (said ++ said') s' :=
  h.of_neutral hsaid hbackoff hallowed hpending hnow.ge fun hp => by
    rw [hpending, hrunning] at hp
    cases hp

/-- A result is received. -/
theorem Paced.afterFetch (h : Paced said s) {converged : Bool}
    (hconverged : converged = !s.book.listener.needsResync)
    (hbook : s'.book.listener = s.book.listener) (hnow : s'.now = s.now)
    (hbackoff : s'.resyncBackoff = s.resyncBackoff) :
    Paced (said ++ [.received converged s.now]) s'.afterFetch := by
  have hstarts : starts (said ++ [.received converged s.now]) = starts said := by
    simp [starts, MainEvent.resyncStart]
  have hlast : lastReceived (said ++ [.received converged s.now]) = some s.now := by
    rw [lastReceived, List.foldl_append]
    rfl
  have hnext : s'.afterFetch.resyncBackoff =
      backOff (failures (said ++ [.received converged s.now])) := by
    rw [failures, List.foldl_append, hconverged]
    simp only [MainLoop.afterFetch, hbook, hbackoff, h.backoff]
    cases s.book.listener.needsResync with
    | true => exact backOff_succ _
    | false => rfl
  have hallowed : s'.afterFetch.nextFetchAllowed = s.now + s'.afterFetch.resyncBackoff := by
    rw [← hnow]
    rfl
  exact
    { backoff := hnext
      allowed := fun r hr => by
        rw [hlast, Option.some.injEq] at hr
        rw [hallowed, hr]
      unready := fun hnone => by rw [hlast] at hnone; cases hnone
      past := fun a ha => by
        rw [hstarts] at ha
        exact (h.past a ha).trans hnow.ge
      waited := fun _ a ha => by
        rw [hstarts] at ha
        have hpast := h.past a ha
        have hbase := resyncBackoffBase_le (failures (said ++ [.received converged s.now]))
        rw [hallowed, hnext]
        omega
      spaced := by
        rw [hstarts]
        exact h.spaced
      backsOff := h.backsOff.append (.singleton trivial) }

/-- **A tick** starts a re-sync only when the time to be kept is over. -/
theorem Paced.tick (h : Paced said s)
    (hstep : s.step (.tick rx) = some (s', said')) : Paced (said ++ said') s' := by
  simp only [step] at hstep
  split at hstep
  · next hdue =>
    rw [Bool.and_eq_true, Bool.not_eq_true'] at hdue
    obtain ⟨hdue, hpending⟩ := hdue
    cases hstep
    cases hready : s.book.listener.isReady with
    | false =>
      simp only [Bool.false_eq_true, if_false]
      have hstarts : starts (said ++ [.started false s.now]) = starts said := by
        simp [starts, MainEvent.resyncStart]
      have hlast : lastReceived (said ++ [.started false s.now]) = lastReceived said := by
        rw [lastReceived, List.foldl_append]
        rfl
      exact
        { backoff := by
            rw [failures, List.foldl_append]
            exact h.backoff
          allowed := fun r hr => h.allowed r (hlast ▸ hr)
          unready := fun _ hp => by cases hp
          past := fun a ha => h.past a (hstarts ▸ ha)
          waited := fun hp => by cases hp
          spaced := hstarts ▸ h.spaced
          backsOff := h.backsOff.append (.singleton trivial) }
    | true =>
      simp only [if_true]
      have hstarts : starts (said ++ [.started true s.now]) = starts said ++ [s.now] := by
        simp [starts, MainEvent.resyncStart]
      have hlast : lastReceived (said ++ [.started true s.now]) = lastReceived said := by
        rw [lastReceived, List.foldl_append]
        rfl
      have hallowed : s.nextFetchAllowed ≤ s.now := by
        simp only [fetchDue, hready, Bool.not_true, Bool.false_or, Bool.and_eq_true,
          decide_eq_true_eq] at hdue
        exact hdue.2
      have hreceived : ∃ r, lastReceived said = some r := by
        rw [← Option.isSome_iff_exists, Option.isSome_iff_ne_none]
        intro hnone
        rw [h.unready hnone hpending] at hready
        cases hready
      obtain ⟨r, hr⟩ := hreceived
      exact
        { backoff := by
            rw [failures, List.foldl_append]
            exact h.backoff
          allowed := fun r hr => h.allowed r (hlast ▸ hr)
          unready := fun _ hp => by cases hp
          past := fun a ha => by
            rw [hstarts, List.mem_append, List.mem_singleton] at ha
            rcases ha with ha | rfl
            · exact h.past a ha
            · exact le_rfl
          waited := fun hp => by cases hp
          spaced := by
            rw [hstarts, List.pairwise_append]
            refine ⟨h.spaced, List.pairwise_singleton _ _, fun a ha b hb => ?_⟩
            rw [List.mem_singleton.mp hb]
            exact (h.waited hpending a ha).trans hallowed
          backsOff := by
            refine h.backsOff.append (.singleton ⟨r, by rw [List.append_nil]; exact hr, ?_⟩)
            rw [List.append_nil, ← h.backoff, ← h.allowed r hr]
            exact hallowed }
  · cases hstep
    rw [List.append_nil]
    exact h

/-- **Every event keeps the pace.** -/
theorem Paced.step (h : Paced said s) (htrack : OnTrack said s)
    (hstep : s.step op = some (s', said')) : Paced (said ++ said') s' := by
  have hnil : ∀ e ∈ ([] : List MainEvent), e.isNeutral = true :=
    fun e he => absurd he List.not_mem_nil
  cases op with
  | elapse ms =>
    cases hstep
    exact h.of_neutral hnil rfl rfl rfl (Nat.le_add_right _ _) fun _ => rfl
  | book op =>
    simp only [MainLoop.step, Option.ite_none_right_eq_some] at hstep
    obtain ⟨hactive, hstep⟩ := hstep
    obtain ⟨r, hbook, heq⟩ := Option.map_eq_some_iff.mp hstep
    cases heq
    refine h.of_neutral (neutral_merge r.2) rfl rfl rfl le_rfl fun _ => ?_
    refine (BookLoop.step_sameReplay hbook ?_).isReady
    cases hheld : s.mergeActive with
    | true => exact Or.inr (htrack.live hheld).1
    | false => exact Or.inl (by rwa [hheld, Bool.false_or] at hactive)
  | begin k head =>
    simp only [MainLoop.step] at hstep
    split at hstep
    · next hk =>
      cases hstep
      exact h.of_running hnil (htrack.running hk).1 rfl rfl rfl rfl
    · cases hstep
  | load k snapshot untriggered height =>
    simp only [MainLoop.step] at hstep
    split at hstep
    · next hk =>
      cases hstep
      exact h.of_running hnil (htrack.running hk).1 rfl rfl rfl rfl
    · cases hstep
  | chase k now =>
    rw [htrack.not_chase] at hstep
    cases hstep
  | commit k now =>
    simp only [MainLoop.step] at hstep
    split at hstep
    · next p hk =>
      split at hstep
      · cases hstep
      · obtain ⟨l, -, heq⟩ := Option.map_eq_some_iff.mp hstep
        cases heq
        refine h.of_running ?_ (htrack.running hk).1 rfl rfl rfl rfl
        intro e he
        rw [List.mem_singleton.mp he]
        rfl
    · cases hstep
  | fail k =>
    simp only [MainLoop.step] at hstep
    split at hstep
    · cases hstep
    · cases hstep
    · next hk =>
      cases hstep
      exact h.of_running hnil (htrack.running hk).1 rfl rfl rfl rfl
  | receive =>
    simp only [MainLoop.step] at hstep
    split at hstep
    · cases hstep
    · obtain ⟨-, hstep⟩ := Option.ite_none_right_eq_some.mp hstep
      cases hstep
      exact h.afterFetch rfl rfl rfl rfl
    · cases hstep
      exact h.afterFetch rfl rfl rfl rfl
  | tick rx => exact h.tick hstep

theorem paced_run (hl : l.KeepsNothing) (hready : l.isReady = false)
    (hrun : runSteps step ops (init l rx now) = some (s, said)) :
    OnTrack said s ∧ Paced said s := by
  refine Runs.along (P := fun _ said s => OnTrack said s ∧ Paced said s) ?_
    ⟨onTrack_init hl, paced_init hready⟩ hrun
  intro _ s₁ said₁ op s₂ said₂ _ h hstep
  exact ⟨h.1.step hstep, h.2.step h.1 hstep⟩

/-- **How far apart the re-syncs of a run are**: each is started no earlier than ten seconds
after the last result, twice as long for each failure in a row before it but never more than
five minutes, so that in any stretch of time there is at most one for each ten seconds of it and
one more. -/
theorem resyncs_backOff {tx spot drift track : Bool} {filter : MarketFilter} {cap : ℕ}
    (hrun : runSteps step ops (init (.configured tx spot filter cap drift track) rx now) =
      some (s, said)) :
    SaidAfter BacksOff said ∧ ∀ lo w,
      ((starts said).filter fun t => lo ≤ t ∧ t ≤ lo + w).length ≤ w / resyncBackoffBase + 1 := by
  have h := (paced_run (OrderBookListener.keepsNothing_configured ..) rfl hrun).2
  exact ⟨h.backsOff, fun lo w => length_filter_le_of_spaced (by decide) h.spaced lo w⟩

end MainLoop

end HlOrderbook

namespace HlOrderbook

section Example

namespace MainLoop

attribute [local instance] SlabPolicy.latest FixedPoint.decimal LiveMerge.LineParser.emptyBlocks

/-- A first snapshot is installed, in which a bid rests; a block is handed on to the listener, and
a loss is reported after it. -/
private def firstSnapshot : List MainLoopOp :=
  let env : Env := ⟨0, ∅, fun _ => false, 0⟩
  let bid : InnerL4Order := .limit "BTC" .bid 9900000000 100000000 1
  [.tick fun _ => [], .begin 0 50,
    .load 0 ((∅ : Snapshots InnerL4Order).insert "BTC" ⟨[bid], []⟩) [] 50, .commit 0 0, .receive,
    .book (.merge env (.arrive .diffs (LiveMerge.emptyBlock "100"))),
    .book (.merge env (.arrive .statuses (LiveMerge.emptyBlock "100"))),
    .book (.merge env .start)] ++ List.replicate 14 (.book (.merge env (.poll 0))) ++
    [.book .desync, .elapse 10000]

/-- A re-sync during which a line, a fill and another report of a loss come in; it fails, and is
tried again. -/
private def failedResync : List MainLoopOp :=
  let env : Env := ⟨0, ∅, fun _ => false, 0⟩
  [.begin 0 1100, .book (.merge env (.arrive .diffs (LiveMerge.emptyBlock "100"))),
    .book (.fills env (LiveMerge.emptyBlock "100")), .book .desync, .fail 0, .receive,
    .elapse 20000, .tick fun _ => []]

private abbrev started : MainLoop :=
  init (.configured true false ⟨true, true, true⟩ 4000000 false true) (fun _ => []) 0

/-- Both batches of the block have been handed out. -/
theorem oneFetch_run_resync : ∃ s said,
    runSteps step (firstSnapshot ++ (.tick fun _ => []) :: failedResync) started =
      some (s, said) ∧ s.snapshotFetchPending = true ∧ s.mergeActive = false ∧
      (said.filter fun e => e matches .merge (.handed _)).length = 2 ∧
      SaidAfter HandedAbove said := by
  obtain ⟨s, said, hrun, hend⟩ := Runs.exists_of_map (a := (true, 2))
    (f := fun r : MainLoop × List MainEvent => (r.1.snapshotFetchPending,
      (r.2.filter fun e => e matches .merge (.handed _)).length)) (by decide +kernel :
      (runSteps step (firstSnapshot ++ (.tick fun _ => []) :: failedResync) started).map _ = _)
  rw [Prod.mk.injEq] at hend
  have h := oneFetch_run hrun
  exact ⟨s, said, hrun, hend.1, h.2.1 hend.1, hend.2, h.2.2.2.2.2⟩

/-- The bid rests at the end as it did before. -/
theorem standsStill_run_resync : ∃ s₀ s s' said said',
    runSteps step firstSnapshot started = some (s₀, said) ∧
      s₀.step (.tick fun _ => []) = some (s, [.started true 10000]) ∧
      runSteps step failedResync s = some (s', said') ∧
      (s₀.book.listener.books.book "BTC").orderCount = 1 ∧
      s₀.book.listener.books.SameQueues s'.book.listener.books ∧ s'.mergeActive = false := by
  obtain ⟨s', said, hrun, -⟩ := Runs.exists_of_map (a := true)
    (f := fun r : MainLoop × List MainEvent => r.1.snapshotFetchPending) (by decide +kernel :
      (runSteps step (firstSnapshot ++ (.tick fun _ => []) :: failedResync) started).map _ = _)
  obtain ⟨s₀, said₁, said₂, hfirst, hrest, -⟩ := Runs.append_eq_some.mp hrun
  obtain ⟨s, said₃, said₄, htick, hfailed, -⟩ := Runs.cons_eq_some.mp hrest
  have hdue : (s₀.fetchDue && !s₀.snapshotFetchPending, s₀.book.listener.isReady, s₀.now,
      (s₀.book.listener.books.book "BTC").orderCount) = (true, true, 10000, 1) := by
    have hend : (runSteps step firstSnapshot started).map (fun r =>
        (r.1.fetchDue && !r.1.snapshotFetchPending, r.1.book.listener.isReady, r.1.now,
          (r.1.book.listener.books.book "BTC").orderCount)) = some (true, true, 10000, 1) := by
      decide +kernel
    rw [hfirst] at hend
    exact Option.some.inj hend
  simp only [Prod.mk.injEq] at hdue
  obtain ⟨hdue, hready, hnow, hbid⟩ := hdue
  have hsaid : said₃ = [.started true 10000] := by
    simp only [step, hdue, hready, hnow, if_true, Option.some.injEq, Prod.mk.injEq] at htick
    exact htick.2.symm
  rw [hsaid] at htick
  exact ⟨s₀, s, s', said₁, said₄, hfirst, htick, hfailed, hbid,
    standsStill_run hfirst htick hfailed (by decide)⟩

theorem resyncs_backOff_resync : ∃ s said,
    runSteps step (firstSnapshot ++ (.tick fun _ => []) :: failedResync) started =
      some (s, said) ∧ starts said = [10000, 30000] ∧ SaidAfter BacksOff said ∧
      ((starts said).filter fun t => 10000 ≤ t ∧ t ≤ 10000 + 15000).length ≤ 2 := by
  obtain ⟨s, said, hrun, hstarts⟩ := Runs.exists_of_map (a := [10000, 30000])
    (f := fun r : MainLoop × List MainEvent => starts r.2) (by decide +kernel :
      (runSteps step (firstSnapshot ++ (.tick fun _ => []) :: failedResync) started).map _ = _)
  have h := resyncs_backOff hrun
  exact ⟨s, said, hrun, hstarts, h.1, h.2 10000 15000⟩

end MainLoop

end Example

end HlOrderbook
