import HlOrderbook.Lib.Trail
import HlOrderbook.Ingest

/-!
# The sends of the aggregated books

What the steps of the ingest loop do to the cache of aggregated books, the coins
to be sent and the shapes built last, and how each message that is sent is linked
to the one sent before it: what it calls the previous books, and what it did not
rebuild, is what that message held.

## Main definitions

* `L2Broadcast` — a message with the aggregated books, and what there was when it
  was sent.
* `L2Change` — what one step can do.
* `Linked`, `Remembers` — one message after another, and the cache after a message.
-/

set_option autoImplicit false
set_option linter.unusedSectionVars false

namespace HlOrderbook

/-- A message with the aggregated books; with it, the shapes that were wanted and
the books there were when it was sent. -/
structure L2Broadcast where
  snapshot : L2Snapshots
  previous : L2Snapshots
  time : ℕ
  height : ℕ
  dirty : Std.ExtTreeSet Coin
  univ : Option (Std.ExtTreeSet Coin)
  active : Finset L2SnapshotParams
  books : OrderBooks InnerL4Order

/-- A message of the listener; with it, the shapes that were wanted and the books
there were when it was sent. -/
structure Broadcast where
  message : InternalMessage
  active : Finset L2SnapshotParams
  books : OrderBooks InnerL4Order

/-- A message with the aggregated books. -/
def Broadcast.l2? (b : Broadcast) : Option L2Broadcast :=
  match b.message with
  | .snapshot snapshot previous time height dirty univ =>
    some ⟨snapshot, previous, time, height, dirty, univ, b.active, b.books⟩
  | _ => none

/-- The books of a listener, no coin having one when there is none. -/
def OrderBookListener.books (l : OrderBookListener) : OrderBooks InnerL4Order :=
  (l.orderBookState.map OrderBookState.orderBook).getD ⟨∅⟩

/-- The shapes that were wanted at a step. -/
def IngestOp.active : IngestOp → Finset L2SnapshotParams
  | .apply env _ _ => env.active
  | .flush env => env.active
  | _ => ∅

/-- The messages sent by a step that leaves the listener as it is given. -/
def IngestOp.broadcasts (op : IngestOp) (l : OrderBookListener) (sent : List InternalMessage) :
    List Broadcast :=
  sent.map fun m => ⟨m, op.active, l.books⟩

/-- The messages with the aggregated books among them. -/
def l2Of (queue : List Broadcast) : List L2Broadcast := queue.filterMap Broadcast.l2?

variable [SlabPolicy] [FixedPoint]

namespace OrderBookListener

variable {env : Env} {l l' : OrderBookListener}

/-- The message that is sent when the shapes wanted are those of the cache. -/
def l2Message (env : Env) (l : OrderBookListener) (state : OrderBookState) : L2Broadcast :=
  let built := computeL2SnapshotsIncremental state.orderBook l.pendingDirtyL2Coins env.active
    l.l2SnapshotCache
  { snapshot := built.1
    previous := l.l2SnapshotCache.filter fun coin _ => l.pendingDirtyL2Coins.contains coin
    time := state.time
    height := state.height
    dirty := built.2.1
    univ := if built.2.2 then some l.univ else none
    active := env.active
    books := state.orderBook }

/-- **What a send can do**: nothing, or make the cache one of the shapes wanted
when there is no book, or send. -/
theorem flushL2IfDue_cases (env : Env) (l : OrderBookListener) :
    ((l.flushL2IfDue env).2 = [] ∧
      ∃ last, (l.flushL2IfDue env).1 = { l with lastL2Broadcast := last }) ∨
    (l.orderBookState = none ∧ (l.flushL2IfDue env).2 = [] ∧
      ∃ last, (l.flushL2IfDue env).1 = { l.retune env.active with lastL2Broadcast := last }) ∨
    (env.active.Nonempty ∧ l.internalMessageTx = true ∧ ∃ state, l.orderBookState = some state ∧
      ∃ last, l.flushL2IfDue env =
        ({ l.retune env.active with lastL2Broadcast := last } : OrderBookListener).broadcastL2 env
          state) := by
  rw [flushL2IfDue]
  by_cases hdue : l.l2Due env.now
  · simp only [hdue, Bool.not_true, Bool.false_eq_true, if_false]
    by_cases htx : (l.internalMessageTx && 0 < env.receiverCount) = true
    · simp only [htx, Bool.not_true, Bool.false_eq_true, if_false]
      by_cases hactive : env.active = ∅
      · exact Or.inl ⟨by simp [hactive], _, by simp only [hactive, if_true]; rfl⟩
      · have hretune : ({ l with lastL2Broadcast := some env.now } : OrderBookListener).retune
            env.active = { l.retune env.active with lastL2Broadcast := some env.now } := by
          simp only [retune]
          split <;> rfl
        have hstate : ({ l.retune env.active with lastL2Broadcast := some env.now } :
            OrderBookListener).orderBookState = l.orderBookState := by
          simp only [retune]
          split <;> rfl
        simp only [hactive, if_false, hretune, hstate]
        cases hbook : l.orderBookState with
        | none => exact Or.inr (Or.inl ⟨rfl, rfl, _, rfl⟩)
        | some state =>
          have hne : env.active.Nonempty := Finset.nonempty_iff_ne_empty.mpr hactive
          have htx' : l.internalMessageTx = true := by
            rw [Bool.and_eq_true] at htx
            exact htx.1
          exact Or.inr (Or.inr ⟨hne, htx', state, rfl, _, rfl⟩)
    · exact Or.inl ⟨by simp [htx], _, by simp only [htx]; rfl⟩
  · exact Or.inl ⟨by simp [hdue], l.lastL2Broadcast, by simp [hdue]⟩

/-! ## What the other steps can do -/

/-- The cache, the shapes it was built in and the coins to be sent are the same, but
that coins may have been added. -/
structure KeepsL2 (l l' : OrderBookListener) : Prop where
  cache : l'.l2SnapshotCache = l.l2SnapshotCache
  active : l'.lastActiveL2Params = l.lastActiveL2Params
  dirty : ∀ c ∈ l.pendingDirtyL2Coins, c ∈ l'.pendingDirtyL2Coins

theorem KeepsL2.refl (l : OrderBookListener) : l.KeepsL2 l := ⟨rfl, rfl, fun _ h => h⟩

theorem KeepsL2.trans {l l' l'' : OrderBookListener} (h : l.KeepsL2 l') (h' : l'.KeepsL2 l'') :
    l.KeepsL2 l'' :=
  ⟨h'.cache.trans h.cache, h'.active.trans h.active, fun c hc => h'.dirty c (h.dirty c hc)⟩

theorem Marked.keepsL2 (h : l.Marked l') : l.KeepsL2 l' := by
  obtain ⟨c, n, r, d, b, rfl⟩ := h.eq
  exact ⟨rfl, rfl, fun _ h => h⟩

theorem Applied.keepsL2 (h : l.Applied l') : l.KeepsL2 l' := by
  obtain ⟨s, p, n, rfl⟩ := h.eq
  exact ⟨rfl, rfl, fun _ h => h⟩

theorem see_keepsL2 (l : OrderBookListener) (height : ℕ) : l.KeepsL2 (l.see height) :=
  ⟨rfl, rfl, fun _ h => h⟩

theorem mem_extendDirty {changed : Std.ExtTreeSet Coin} {c : Coin} :
    c ∈ (l.extendDirty changed).pendingDirtyL2Coins ↔ c ∈ l.pendingDirtyL2Coins ∨ c ∈ changed := by
  rw [extendDirty, Std.ExtTreeSet.mem_insertMany_list, List.contains_iff_mem,
    Std.ExtTreeSet.mem_toList]

theorem conclude_fst (env : Env) (l : OrderBookListener)
    (result : Except Failure (Std.ExtTreeSet Coin)) : (l.conclude env result).1 =
      (if !result.isOk || (l.maintain env.now).2 then (l.maintain env.now).1.markDesynced
        else (l.maintain env.now).1).extendDirty (result.toOption.getD ∅) := rfl

theorem conclude_keepsL2 (env : Env) (l : OrderBookListener)
    (result : Except Failure (Std.ExtTreeSet Coin)) : l.KeepsL2 (l.conclude env result).1 := by
  have hextend : ∀ (l₁ : OrderBookListener) changed, l₁.KeepsL2 (l₁.extendDirty changed) :=
    fun l₁ changed => ⟨rfl, rfl, fun c hc => mem_extendDirty.mpr (Or.inl hc)⟩
  rw [conclude_fst]
  refine (maintain_applied env.now l).keepsL2.trans (KeepsL2.trans ?_ (hextend _ _))
  split
  · exact (markDesynced_marked _).keepsL2
  · exact .refl _

/-- Taking in a batch. -/
theorem applyEventBatch_keepsL2 {height : ℕ} {batch : EventBatch} {sent : List InternalMessage}
    (h : l.applyEventBatch env height batch = some (l', sent)) : l.KeepsL2 l' := by
  have hsee := see_keepsL2 l height
  have hkeep := hsee.trans (cacheForReplay_marked (l.see height) batch).keepsL2
  rcases applyEventBatch_cases h with ⟨-, rfl, -⟩ | ⟨-, -, rfl, -⟩ | ⟨-, state, -, hlive⟩
  · exact hsee.trans (markDesynced_marked _).keepsL2
  · exact hkeep
  · obtain ⟨l₁, sent₁, result, happly, -, rfl, -⟩ := applyLive_eq_some hlive
    have happlied := applyToState_applied env ((l.see height).cacheForReplay batch).1 state batch
    rw [happly] at happlied
    exact (hkeep.trans happlied.keepsL2).trans (conclude_keepsL2 env l₁ result)

/-- No message with the aggregated books is sent when a batch is taken in. -/
theorem l2Of_applyEventBatch {height : ℕ} {batch : EventBatch} {sent : List InternalMessage}
    (h : l.applyEventBatch env height batch = some (l', sent)) :
    l2Of ((IngestOp.apply env height batch).broadcasts l' sent) = [] := by
  have hbbo : ∀ (l₁ : OrderBookListener) changed, ∀ m ∈ l₁.bboBroadcast env changed,
      ∃ bbos time, m = .bboUpdate bbos time := by
    intro l₁ changed m hm
    simp only [bboBroadcast] at hm
    split at hm
    · split at hm
      · exact ⟨_, _, List.mem_singleton.mp hm⟩
      · cases hm
    · cases hm
  have hsent : ∀ m ∈ sent, ∀ active books, (⟨m, active, books⟩ : Broadcast).l2? = none := by
    intro m hm active books
    rcases applyEventBatch_cases h with ⟨-, -, rfl⟩ | ⟨-, -, -, rfl⟩ | ⟨-, state, -, hlive⟩
    · cases hm
    · cases hm
    · obtain ⟨l₁, sent₁, result, heq, -, -, rfl⟩ := applyLive_eq_some hlive
      rcases List.mem_append.mp hm with hm | hm
      · have hm' : m ∈
            (((l.see height).cacheForReplay batch).1.applyToState env state batch).2.1 := by
          rw [heq]
          exact hm
        rcases mem_applyToState hm' with ⟨_, _, _, rfl⟩ | ⟨_, _, _, rfl⟩ | ⟨_, rfl⟩ <;> rfl
      · obtain ⟨bbos, time, rfl⟩ := hbbo _ _ m hm
        rfl
  rw [l2Of, IngestOp.broadcasts, List.filterMap_map, List.filterMap_eq_nil_iff]
  intro m hm
  exact hsent m hm _ _

theorem finishInstall_eq_some {now height : ℕ} {state : OrderBookState} {failed : Bool}
    (h : l.finishInstall now state height failed = some l') :
    l'.l2SnapshotCache = ∅ ∧ l'.pendingDirtyL2Coins = ∅ ∧ l'.lastActiveL2Params = ∅ := by
  rw [finishInstall] at h
  split at h
  · cases h
  · rw [Option.some.injEq] at h
    subst h
    exact ⟨rfl, rfl, rfl⟩

end OrderBookListener

/-- Whether a step ends an install. -/
def IngestOp.installs : IngestOp → Bool
  | .commit _ => true
  | .init _ _ _ => true
  | _ => false

open OrderBookListener

/-- **What a step can do to the aggregated books**: leave them, forget them, get
ready for other shapes, or send them. -/
inductive L2Change (op : IngestOp) (l l' : OrderBookListener) : List L2Broadcast → Prop where
  | kept (hinstalls : op.installs = false) (h : l.KeepsL2 l') : L2Change op l l' []
  | forgotten (hinstalls : op.installs = true) (hcache : l'.l2SnapshotCache = ∅)
      (hdirty : l'.pendingDirtyL2Coins = ∅) (hactive : l'.lastActiveL2Params = ∅) :
      L2Change op l l' []
  | retuned (env : Env) (hop : op = .flush env) (hstate : l.orderBookState = none)
      (h : (l.retune env.active).KeepsL2 l') : L2Change op l l' []
  | sent (env : Env) (state : OrderBookState) (hop : op = .flush env)
      (hactive : env.active.Nonempty) (hstate : l.orderBookState = some state)
      (hcache : l'.l2SnapshotCache = ((l.retune env.active).l2Message env state).snapshot)
      (hdirty : l'.pendingDirtyL2Coins = ∅) (hlast : l'.lastActiveL2Params = env.active) :
      L2Change op l l' [(l.retune env.active).l2Message env state]

/-- What a send of the listener does to the aggregated books. -/
theorem L2Change.of_flush (env : Env) (l : OrderBookListener) :
    L2Change (.flush env) l (l.flushL2IfDue env).1
      (l2Of ((IngestOp.flush env).broadcasts (l.flushL2IfDue env).1 (l.flushL2IfDue env).2)) := by
  have hretune : (l.retune env.active).internalMessageTx = l.internalMessageTx ∧
      (l.retune env.active).orderBookState = l.orderBookState ∧
      (l.retune env.active).lastActiveL2Params = env.active := by
    rw [retune]
    split
    case isTrue h => exact ⟨rfl, rfl, h.symm⟩
    case isFalse => exact ⟨rfl, rfl, rfl⟩
  rcases l.flushL2IfDue_cases env with ⟨hsent, last, hfst⟩ | ⟨hstate, hsent, last, hfst⟩ |
    ⟨hactive, htx, state, hstate, last, heq⟩
  · rw [hsent, hfst]
    exact .kept rfl ⟨rfl, rfl, fun _ h => h⟩
  · rw [hsent, hfst]
    exact .retuned env rfl hstate ⟨rfl, rfl, fun _ h => h⟩
  · obtain ⟨htx', hstate', hlast⟩ := hretune
    have hbroadcast : (l.flushL2IfDue env).2 =
        [.snapshot ((l.retune env.active).l2Message env state).snapshot
          ((l.retune env.active).l2Message env state).previous state.time state.height
          ((l.retune env.active).l2Message env state).dirty
          ((l.retune env.active).l2Message env state).univ] := by
      rw [heq]
      exact if_pos (htx'.trans htx)
    have hfst : (l.flushL2IfDue env).1.orderBookState = some state ∧
        (l.flushL2IfDue env).1.l2SnapshotCache =
          ((l.retune env.active).l2Message env state).snapshot ∧
        (l.flushL2IfDue env).1.pendingDirtyL2Coins = ∅ ∧
        (l.flushL2IfDue env).1.lastActiveL2Params = env.active := by
      rw [heq]
      exact ⟨hstate'.trans hstate, rfl, rfl, hlast⟩
    obtain ⟨hbook, hcache, hdirty, hactive'⟩ := hfst
    have hbooks : (l.flushL2IfDue env).1.books = state.orderBook := by
      rw [books, hbook]
      rfl
    have hmessage : l2Of ((IngestOp.flush env).broadcasts (l.flushL2IfDue env).1
        (l.flushL2IfDue env).2) = [(l.retune env.active).l2Message env state] := by
      rw [IngestOp.broadcasts, hbooks, hbroadcast]
      rfl
    rw [hmessage]
    exact .sent env state rfl hactive hstate hcache hdirty hactive'

/-- **What a step does to the aggregated books.** -/
theorem Ingest.step_l2 {i i' : Ingest} {op : IngestOp} {sent : List InternalMessage}
    (h : i.step op = some (i', sent)) :
    L2Change op i.listener i'.listener (l2Of (op.broadcasts i'.listener sent)) := by
  cases op with
  | apply env height batch =>
    simp only [step, Option.map_eq_some_iff, Prod.exists, Prod.mk.injEq] at h
    obtain ⟨l', sent', happly, rfl, rfl⟩ := h
    rw [l2Of_applyEventBatch happly]
    exact .kept rfl (applyEventBatch_keepsL2 happly)
  | desync line =>
    cases h
    exact .kept rfl (markDesynced_marked _).keepsL2
  | flush env =>
    cases h
    exact .of_flush env i.listener
  | beginFetch head =>
    cases h
    have hcovers : i.listener.beginCaching.KeepsL2 (i.listener.beginFetch head) :=
      ⟨rfl, rfl, fun _ h => h⟩
    exact .kept rfl ((beginCaching_marked _).keepsL2.trans hcovers)
  | build snapshot untriggered height =>
    cases h
    exact .kept rfl (.refl _)
  | chase now =>
    obtain ⟨p, rfl, rfl⟩ := chase_eq_some h
    exact .kept rfl ⟨rfl, rfl, fun _ h => h⟩
  | commit now =>
    obtain ⟨p, l₀, l₁, -, -, hfinish, hmark, rfl⟩ := commit_eq_some h
    obtain ⟨hcache, hdirty, hactive⟩ := finishInstall_eq_some hfinish
    obtain ⟨c, n, r, d, b, hmark⟩ := hmark.eq
    exact .forgotten rfl (by rw [hmark]; exact hcache) (by rw [hmark]; exact hdirty)
      (by rw [hmark]; exact hactive)
  | init now snapshot height =>
    simp only [step, Option.map_eq_some_iff, Prod.mk.injEq] at h
    obtain ⟨l', hinit, rfl, rfl⟩ := h
    obtain ⟨hcache, hdirty, hactive⟩ := finishInstall_eq_some hinit
    exact .forgotten rfl hcache hdirty hactive

/-! ## One message after another -/

/-- What the one message calls the previous books, and what it did not rebuild, is
what the message before it held. -/
structure Linked (m m' : L2Broadcast) : Prop where
  previous : ∀ (c : Coin) (v : L2Variants), m'.previous[c]? = some v → m.snapshot[c]? = some v
  kept : ∀ (c : Coin) (v : L2Variants), c ∉ m'.dirty → m'.snapshot[c]? = some v →
    m.snapshot[c]? = some v

/-- The cache holds nothing but what the message held. -/
def Remembers (l : OrderBookListener) (m : L2Broadcast) : Prop :=
  ∀ (c : Coin) (v : L2Variants), l.l2SnapshotCache[c]? = some v → m.snapshot[c]? = some v

/-- The message holds every coin in every shape that was wanted. -/
structure Complete (m : L2Broadcast) : Prop where
  snapshot : ∀ (c : Coin) (v : L2Variants) p, p ∈ m.active → m.snapshot[c]? = some v →
    (v p).isSome = true
  previous : ∀ (c : Coin) (v : L2Variants) p, p ∈ m.active → m.previous[c]? = some v →
    (v p).isSome = true

/-- The cache holds every coin it has in the shapes built last. -/
def CacheBuilt (l : OrderBookListener) : Prop :=
  ∀ (c : Coin) (v : L2Variants) p, p ∈ l.lastActiveL2Params → l.l2SnapshotCache[c]? = some v →
    (v p).isSome = true

section Retune

variable {active : Finset L2SnapshotParams} {l l' : OrderBookListener}

/-- What is left once the shapes have changed. -/
theorem getElem?_retune {c : Coin} {v : L2Variants}
    (h : (l.retune active).l2SnapshotCache[c]? = some v) :
    l.l2SnapshotCache[c]? = some v ∧ l.lastActiveL2Params = active := by
  rw [retune] at h
  split at h
  case isTrue heq => exact ⟨h, heq.symm⟩
  case isFalse => simp at h

@[simp] theorem lastActiveL2Params_retune (active : Finset L2SnapshotParams)
    (l : OrderBookListener) : (l.retune active).lastActiveL2Params = active := by
  rw [retune]
  split
  case isTrue heq => exact heq.symm
  case isFalse => rfl

theorem CacheBuilt.retune (h : CacheBuilt l) (active : Finset L2SnapshotParams) :
    CacheBuilt (l.retune active) := by
  intro c v p hp hv
  obtain ⟨hv, heq⟩ := getElem?_retune hv
  rw [lastActiveL2Params_retune, ← heq] at hp
  exact h c v p hp hv

theorem Remembers.retune {m : L2Broadcast} (h : Remembers l m) (active : Finset L2SnapshotParams) :
    Remembers (l.retune active) m := fun c v hv => h c v (getElem?_retune hv).1

theorem CacheBuilt.keepsL2 (h : CacheBuilt l) (hkeeps : l.KeepsL2 l') : CacheBuilt l' := by
  intro c v p hp hv
  rw [hkeeps.active] at hp
  rw [hkeeps.cache] at hv
  exact h c v p hp hv

theorem Remembers.keepsL2 {m : L2Broadcast} (h : Remembers l m) (hkeeps : l.KeepsL2 l') :
    Remembers l' m := fun c v hv => h c v (hkeeps.cache ▸ hv)

end Retune

section Message

variable {env : Env} {l : OrderBookListener} {state : OrderBookState} {c : Coin} {v : L2Variants}

theorem getElem?_previous (h : (l.l2Message env state).previous[c]? = some v) :
    l.l2SnapshotCache[c]? = some v ∧ c ∈ l.pendingDirtyL2Coins := by
  simp only [l2Message, Std.ExtTreeMap.getElem?_filter', Option.filter_eq_some_iff] at h
  exact ⟨h.1, h.2⟩

/-- What the message holds: the book just built, or what the cache held. -/
theorem getElem?_snapshot (h : (l.l2Message env state).snapshot[c]? = some v) :
    (c ∈ (l.l2Message env state).dirty ∧ ∃ book, state.orderBook.orderBooks[c]? = some book ∧
      v = computeL2VariantsForCoin book env.active) ∨
    (c ∉ l.pendingDirtyL2Coins ∧ l.l2SnapshotCache[c]? = some v ∧
      ∃ book, state.orderBook.orderBooks[c]? = some book) := by
  simp only [l2Message, getElem?_computeL2SnapshotsIncremental, mem_recomputed] at h ⊢
  have hcontains : state.orderBook.orderBooks.contains c = true ↔
      ∃ book, state.orderBook.orderBooks[c]? = some book := by
    rw [Std.ExtTreeMap.contains_eq_isSome_getElem?, Option.isSome_iff_exists]
  split at h
  case isTrue hcompute =>
    obtain ⟨book, hbook, rfl⟩ := Option.map_eq_some_iff.mp h
    exact Or.inl ⟨Or.inl hcompute, book, hbook, rfl⟩
  case isFalse hcompute =>
    split at h
    case isTrue hbook =>
      refine Or.inr ⟨fun hc => hcompute ?_, h, hcontains.mp hbook⟩
      exact mem_coinsToCompute_of_changed hc hbook
    case isFalse => cases h

/-- A coin that is to be sent is reported. -/
theorem mem_dirty_of_pending (h : c ∈ l.pendingDirtyL2Coins) : c ∈ (l.l2Message env state).dirty := by
  refine (mem_recomputed ..).mpr ?_
  cases hbook : state.orderBook.orderBooks[c]? with
  | none => exact Or.inr ⟨h, rfl⟩
  | some book =>
    refine Or.inl (mem_coinsToCompute_of_changed h ?_)
    rw [Std.ExtTreeMap.contains_eq_isSome_getElem?, hbook]
    rfl

/-- What is not reported is what the cache held. -/
theorem getElem?_snapshot_of_not_dirty (hc : c ∉ (l.l2Message env state).dirty)
    (h : (l.l2Message env state).snapshot[c]? = some v) : l.l2SnapshotCache[c]? = some v := by
  rcases getElem?_snapshot h with ⟨hdirty, -⟩ | ⟨-, hcache, -⟩
  · exact absurd hdirty hc
  · exact hcache

/-- A coin that is reported and has no book in the message has none at all. -/
theorem getElem?_books_of_dirty (hc : c ∈ (l.l2Message env state).dirty)
    (h : (l.l2Message env state).snapshot[c]? = none) :
    (l.l2Message env state).books.orderBooks[c]? = none := by
  rcases (mem_recomputed ..).mp hc with hcompute | ⟨-, hbook⟩
  · simp only [l2Message, getElem?_computeL2SnapshotsIncremental, if_pos hcompute,
      Option.map_eq_none_iff] at h
    exact h
  · exact hbook

theorem linked_l2Message {m : L2Broadcast} (h : Remembers l m) : Linked m (l.l2Message env state) :=
  ⟨fun c v hv => h c v (getElem?_previous hv).1,
    fun c v hc hv => h c v (getElem?_snapshot_of_not_dirty hc hv)⟩

theorem complete_l2Message (h : CacheBuilt l) (hactive : l.lastActiveL2Params = env.active) :
    Complete (l.l2Message env state) := by
  constructor
  · intro c v p hp hv
    rcases getElem?_snapshot hv with ⟨-, book, -, rfl⟩ | ⟨-, hcache, -⟩
    · have hp : p ∈ env.active := hp
      rw [computeL2VariantsForCoin_eq_some hp]
      rfl
    · exact h c v p (hactive ▸ hp) hcache
  · intro c v p hp hv
    exact h c v p (hactive ▸ hp) (getElem?_previous hv).1

end Message

variable {op : IngestOp} {l l' : OrderBookListener} {ms xs : List L2Broadcast}

theorem cacheBuilt_new (tx spot : Bool) (filter : MarketFilter) :
    CacheBuilt (.new tx spot filter) := by
  intro c v p hp
  cases hp

namespace L2Change

/-- **A step keeps the cache built.** -/
theorem cacheBuilt (h : L2Change op l l' ms) (hbuilt : CacheBuilt l) : CacheBuilt l' := by
  cases h with
  | kept _ h => exact hbuilt.keepsL2 h
  | forgotten _ hcache _ _ =>
    intro c v p _ hv
    rw [hcache] at hv
    simp at hv
  | retuned env _ _ h => exact (hbuilt.retune env.active).keepsL2 h
  | sent env state _ _ _ hcache _ hlast =>
    intro c v p hp hv
    rw [hlast] at hp
    rw [hcache] at hv
    exact (complete_l2Message (hbuilt.retune env.active)
      (lastActiveL2Params_retune _ _)).snapshot c v p hp hv

/-- A message that is sent is complete. -/
theorem complete (h : L2Change op l l' ms) (hbuilt : CacheBuilt l) : ∀ m ∈ ms, Complete m := by
  cases h with
  | sent env state =>
    intro m hm
    rw [List.mem_singleton.mp hm]
    exact complete_l2Message (hbuilt.retune env.active) (lastActiveL2Params_retune _ _)
  | _ => intro m hm; cases hm

/-- **A step makes the trail of messages longer.** -/
theorem trail (h : L2Change op l l' ms) (htrail : Trail Remembers Linked l xs) :
    Trail Remembers Linked l' (xs ++ ms) := by
  cases h with
  | kept _ h =>
    rw [List.append_nil]
    exact htrail.mono fun m hm => hm.keepsL2 h
  | forgotten _ hcache _ _ =>
    rw [List.append_nil]
    refine htrail.mono fun m _ c v hv => ?_
    rw [hcache] at hv
    simp at hv
  | retuned env _ _ h =>
    rw [List.append_nil]
    exact htrail.mono fun m hm => (hm.retune env.active).keepsL2 h
  | sent env state _ _ _ hcache _ _ =>
    refine htrail.concat (fun m hm => linked_l2Message (hm.retune env.active)) ?_
    intro c v hv
    rw [← hcache]
    exact hv

end L2Change

end HlOrderbook
