import HlOrderbook.Ingest

/-!
# Losses reported while a snapshot is fetched

A mark records an upper bound of the height of the loss it stands for.  An install
keeps the listener out of sync exactly when some bound recorded since the last
install is above everything the install makes good, or its own replay lost
something.  The bound is taken from the last height seen, which stands still while
a snapshot is fetched, so a line discarded meanwhile can lie above its bound.

## Main definitions

* `Ingest.marks`, `Ingest.runMarks` — the bounds recorded.
* `needsResync_commit_iff` — when an install leaves the listener out of sync.
-/

set_option autoImplicit false
set_option linter.unusedSectionVars false

namespace HlOrderbook

variable [SlabPolicy] [FixedPoint]

namespace OrderBookListener

/-! ## The bounds recorded -/

/-- Whether a batch that is to be kept for the replay is over the cap. -/
def overflows (l : OrderBookListener) (batch : EventBatch) : Bool :=
  !(batch.isFills || l.fetchedSnapshotCache.isNone) &&
    l.cacheEventCap < saturatingAdd l.cachedEventCount batch.eventsLen

/-- The bounds recorded once a batch was applied to the book. -/
def concludeMarks (env : Env) (l : OrderBookListener)
    (result : Except Failure (Std.ExtTreeSet Coin)) : List ℕ :=
  let (l, cleared) := l.maintain env.now
  if !result.isOk || cleared then [l.lossBound] else []

/-- The bounds recorded when a batch is taken in. -/
def applyMarks (env : Env) (l : OrderBookListener) (height : ℕ) (batch : EventBatch) : List ℕ :=
  let l := l.see height
  if maxEventsPerBatch < batch.eventsLen then [l.lossBound]
  else (if l.overflows batch then [l.lossBound] else []) ++
    match l.orderBookState with
    | none => []
    | some state =>
      let (l, _, result) := (l.cacheForReplay batch).1.applyToState env state batch
      l.concludeMarks env result

/-- A listener that heeds losses recorded the given bounds, and nothing else that
an install looks at has changed. -/
structure Recorded (l l' : OrderBookListener) (bounds : List ℕ) : Prop where
  tolerateDrift : l'.tolerateDrift = l.tolerateDrift
  installCovers : l'.installCovers = l.installCovers
  lt_max : l.tolerateDrift = false →
    ∀ n, n < l'.maxLossHeight ↔ n < l.maxLossHeight ∨ ∃ b ∈ bounds, n < b

variable {l l' l'' : OrderBookListener} {bounds bounds' : List ℕ}

namespace Recorded

theorem of_same (hdrift : l'.tolerateDrift = l.tolerateDrift)
    (hcovers : l'.installCovers = l.installCovers) (hmax : l'.maxLossHeight = l.maxLossHeight) :
    l.Recorded l' [] := ⟨hdrift, hcovers, by simp [hmax]⟩

theorem refl (l : OrderBookListener) : l.Recorded l [] := of_same rfl rfl rfl

theorem trans (h : l.Recorded l' bounds) (h' : l'.Recorded l'' bounds') :
    l.Recorded l'' (bounds ++ bounds') where
  tolerateDrift := h'.tolerateDrift.trans h.tolerateDrift
  installCovers := h'.installCovers.trans h.installCovers
  lt_max hdrift n := by
    rw [h'.lt_max (h.tolerateDrift.trans hdrift), h.lt_max hdrift, or_assoc]
    simp only [List.mem_append, or_and_right, exists_or]

theorem markDesynced (l : OrderBookListener) : l.Recorded l.markDesynced [l.lossBound] where
  tolerateDrift := (markDesynced_marked l).tolerateDrift
  installCovers := (markDesynced_marked l).installCovers
  lt_max hdrift n := by
    rw [OrderBookListener.markDesynced, hdrift]
    simp

theorem of_applied (h : l.Applied l') : l.Recorded l' [] := by
  obtain ⟨s, p, n, rfl⟩ := h.eq
  exact of_same rfl rfl rfl

end Recorded

theorem pushToReplayCache_recorded (l : OrderBookListener) (batch : EventBatch) :
    l.Recorded (l.pushToReplayCache batch)
      (if l.cacheEventCap < saturatingAdd l.cachedEventCount batch.eventsLen then [l.lossBound]
        else []) := by
  rw [pushToReplayCache]
  split
  · have hdrop : l.Recorded { l with fetchedSnapshotCache := none, cachedEventCount := 0 } [] :=
      .of_same rfl rfl rfl
    exact hdrop.trans (.markDesynced _)
  · exact .of_same rfl rfl rfl

theorem cacheForReplay_recorded (l : OrderBookListener) (batch : EventBatch) :
    l.Recorded (l.cacheForReplay batch).1 (if l.overflows batch then [l.lossBound] else []) := by
  rw [cacheForReplay, overflows]
  by_cases hkeep : (batch.isFills || l.fetchedSnapshotCache.isNone) = true
  · simp only [hkeep, if_true, Bool.not_true, Bool.false_and, Bool.false_eq_true, if_false]
    exact .refl l
  · simp only [hkeep, if_false, Bool.not_false, Bool.true_and, decide_eq_true_eq,
      Bool.false_eq_true]
    split <;> exact pushToReplayCache_recorded l batch

theorem conclude_recorded (env : Env) (l : OrderBookListener)
    (result : Except Failure (Std.ExtTreeSet Coin)) :
    l.Recorded (l.conclude env result).1 (l.concludeMarks env result) := by
  have happlied := Recorded.of_applied (maintain_applied env.now l)
  simp only [conclude, concludeMarks]
  split
  · exact happlied.trans ((Recorded.markDesynced _).trans (.of_same rfl rfl rfl))
  · exact happlied.trans (.of_same rfl rfl rfl)

/-- **What taking in a batch records.** -/
theorem applyEventBatch_recorded {env : Env} {height : ℕ} {batch : EventBatch}
    {sent : List InternalMessage} (h : l.applyEventBatch env height batch = some (l', sent)) :
    l.Recorded l' (l.applyMarks env height batch) := by
  have hsee : l.Recorded (l.see height) [] := .of_same rfl rfl rfl
  have hstate : (l.see height).orderBookState = l.orderBookState := rfl
  rw [applyMarks]
  rcases applyEventBatch_cases h with ⟨hlen, rfl, -⟩ | ⟨hlen, hnone, rfl, -⟩ |
    ⟨hlen, state, hsome, hlive⟩
  · rw [if_pos hlen]
    exact hsee.trans (.markDesynced _)
  · rw [if_neg hlen]
    simp only [hstate, hnone, List.append_nil]
    exact hsee.trans (cacheForReplay_recorded _ batch)
  · obtain ⟨l₁, sent₁, result, happly, -, rfl, -⟩ := applyLive_eq_some hlive
    have happlied := applyToState_applied env ((l.see height).cacheForReplay batch).1 state batch
    rw [if_neg hlen]
    simp only [hstate, hsome, happly] at happlied ⊢
    exact (hsee.trans (cacheForReplay_recorded _ batch)).trans
      ((Recorded.of_applied happlied).trans (conclude_recorded env l₁ result))

theorem flushL2IfDue_recorded (env : Env) (l : OrderBookListener) :
    l.Recorded (l.flushL2IfDue env).1 [] := by
  obtain ⟨last, cache, dirty, active, hflush⟩ := flushL2IfDue_fst env l
  rw [hflush]
  exact .of_same rfl rfl rfl

end OrderBookListener

namespace Ingest

open OrderBookListener

/-- The bounds recorded in one event that does not end an install. -/
def marks (i : Ingest) : IngestOp → List ℕ
  | .apply env height batch => i.listener.applyMarks env height batch
  | .desync _ => [i.listener.lossBound]
  | _ => []

/-- The bounds recorded in a run. -/
def runMarks : List IngestOp → Ingest → List ℕ
  | [], _ => []
  | op :: ops, i =>
    i.marks op ++ match i.step op with
      | none => []
      | some (i, _) => runMarks ops i

end Ingest

/-- What can happen between the beginning of a fetch and the end of its install. -/
def IngestOp.isInFlight : IngestOp → Bool
  | .apply .. | .desync _ | .flush _ | .build .. | .chase _ => true
  | .beginFetch _ | .commit _ | .init .. => false

namespace Ingest

open OrderBookListener

variable {i i' : Ingest} {op : IngestOp} {ops : List IngestOp} {sent : List InternalMessage}

/-- **One event of a fetch in flight records its marks.** -/
theorem step_recorded (h : i.step op = some (i', sent)) (hop : op.isInFlight = true) :
    i.listener.Recorded i'.listener (i.marks op) := by
  cases op with
  | apply env height batch =>
    simp only [step, Option.map_eq_some_iff] at h
    obtain ⟨r, hr, hi⟩ := h
    cases hi
    exact applyEventBatch_recorded hr
  | desync line =>
    cases h
    exact .markDesynced _
  | flush env =>
    cases h
    exact flushL2IfDue_recorded env i.listener
  | build snapshot untriggered height =>
    cases h
    exact .refl _
  | chase now =>
    obtain ⟨p, rfl, -⟩ := chase_eq_some h
    exact .of_same rfl rfl rfl
  | beginFetch head => cases hop
  | commit now => cases hop
  | init now snapshot height => cases hop

/-- A fetch in flight records the marks of its events. -/
theorem run_recorded (h : runSteps step ops i = some (i', sent))
    (hops : ∀ op ∈ ops, op.isInFlight = true) :
    i.listener.Recorded i'.listener (runMarks ops i) := by
  induction ops generalizing i sent with
  | nil =>
    cases h
    exact .refl _
  | cons op ops ih =>
    obtain ⟨i₁, sent₁, sent₂, hstep, hrun, -⟩ := Runs.cons_eq_some.mp h
    rw [runMarks, hstep]
    exact (step_recorded hstep (hops op (by simp))).trans
      (ih hrun fun op hop => hops op (List.mem_cons_of_mem _ hop))

end Ingest

/-! ## The end of an install -/

namespace OrderBookListener

theorem needsResync_settleLosses {l : OrderBookListener} (hdrift : l.tolerateDrift = false)
    (height prior covers : ℕ) (replayFailed : Bool) :
    (l.settleLosses height prior covers replayFailed).needsResync = true ↔
      replayFailed = true ∨ covers < prior := by
  simp only [settleLosses]
  split
  case isTrue hfailed => simp [markDesynced, hdrift, hfailed]
  case isFalse hfailed =>
    split
    case isTrue hlt => simp [hlt]
    case isFalse hlt => simp [hfailed, hlt]

/-- Whether the replay at the end of an install fails, or has failed before. -/
def replayFails (now : ℕ) (l : OrderBookListener) (state : OrderBookState) (height : ℕ)
    (replayFailed : Bool) : Bool :=
  match replayAll now height (l.fetchedSnapshotCache.getD []) state replayFailed with
  | some (_, replayFailed) => replayFailed
  | none => false

/-- **When an install leaves the listener out of sync.** -/
theorem needsResync_finishInstall {l l' : OrderBookListener} (hdrift : l.tolerateDrift = false)
    {now height : ℕ} {state : OrderBookState} {replayFailed : Bool}
    (h : l.finishInstall now state height replayFailed = some l') :
    l'.needsResync = true ↔ l.replayFails now state height replayFailed = true ∨
      max l.installCovers height < l.maxLossHeight := by
  rw [finishInstall] at h
  rw [replayFails]
  cases hreplay : replayAll now height (l.fetchedSnapshotCache.getD []) state replayFailed with
  | none => simp [hreplay] at h
  | some r =>
    rw [hreplay] at h
    cases h
    exact needsResync_settleLosses (by exact hdrift) _ _ _ _

theorem tolerateDrift_settleLosses (l : OrderBookListener) (height prior covers : ℕ)
    (replayFailed : Bool) :
    (l.settleLosses height prior covers replayFailed).tolerateDrift = l.tolerateDrift := by
  simp only [settleLosses]
  split
  · exact (markDesynced_marked _).tolerateDrift
  · split <;> rfl

theorem tolerateDrift_finishInstall {l l' : OrderBookListener} {now height : ℕ}
    {state : OrderBookState} {replayFailed : Bool}
    (h : l.finishInstall now state height replayFailed = some l') :
    l'.tolerateDrift = l.tolerateDrift := by
  rw [finishInstall] at h
  split at h
  · cases h
  · cases h
    exact tolerateDrift_settleLosses _ _ _ _ _

theorem tolerateDrift_beginFetch (l : OrderBookListener) (head : ℕ) :
    (l.beginFetch head).tolerateDrift = l.tolerateDrift :=
  (beginCaching_marked l).tolerateDrift

theorem maxLossHeight_beginFetch (l : OrderBookListener) (head : ℕ) :
    (l.beginFetch head).maxLossHeight = l.maxLossHeight := by
  change l.beginCaching.maxLossHeight = _
  rw [beginCaching]
  split <;> rfl

end OrderBookListener

namespace Ingest

open OrderBookListener

/-- What the install of a fetch owes: if a line above the dump was reported as
discarded meanwhile, which no reader will deliver, the listener is out of sync. -/
def KeepsLosses (ops : List IngestOp) (p : PhasedInstall) (l : OrderBookListener) : Prop :=
  (∃ line, IngestOp.desync line ∈ ops ∧ p.height < line) → l.needsResync = true

variable {i₀ i i' : Ingest} {ops : List IngestOp} {p : PhasedInstall}
  {said said' : List InternalMessage} {head now : ℕ}

/-- **When the end of a fetch leaves the listener out of sync.** -/
theorem needsResync_commit_iff (hdrift : i₀.listener.tolerateDrift = false)
    (hops : ∀ op ∈ ops, op.isInFlight = true)
    (hrun : runSteps step (.beginFetch head :: ops) i₀ = some (i, said))
    (hp : i.install = some p) (hcommit : i.step (.commit now) = some (i', said')) :
    i'.listener.needsResync = true ↔ p.givesUp i.listener = true ∨
      i.listener.replayFails now p.state p.height p.replayFailed = true ∨
      ∃ b ∈ i₀.listener.maxLossHeight :: runMarks (.beginFetch head :: ops) i₀,
        max head p.height < b := by
  obtain ⟨i₁, said₁, said₂, hbegin, hflight, -⟩ := Runs.cons_eq_some.mp hrun
  have hmarks : runMarks (.beginFetch head :: ops) i₀ = runMarks ops i₁ := by
    rw [runMarks, hbegin]
    rfl
  cases hbegin
  have hrecorded := run_recorded hflight hops
  have hdrift₁ := (tolerateDrift_beginFetch i₀.listener head).trans hdrift
  have hdrift' : i.listener.tolerateDrift = false := hrecorded.tolerateDrift.trans hdrift₁
  have hcovers : i.listener.installCovers = head := hrecorded.installCovers
  have hlt := hrecorded.lt_max hdrift₁ (max head p.height)
  simp only [maxLossHeight_beginFetch] at hlt
  simp only [hmarks, List.mem_cons, exists_eq_or_imp, ← hlt]
  simp only [step, hp] at hcommit
  split at hcommit
  · cases hcommit
  · simp only [PhasedInstall.commit, Option.map_eq_some_iff] at hcommit
    obtain ⟨l', hl', hi⟩ := hcommit
    cases hi
    split at hl'
    case isTrue hgives =>
      obtain ⟨l, hl, rfl⟩ := Option.map_eq_some_iff.mp hl'
      have hd : l.tolerateDrift = false := (tolerateDrift_finishInstall hl).trans hdrift'
      simp [markDesynced, hd, hgives]
    case isFalse hgives =>
      rw [needsResync_finishInstall hdrift' hl', hcovers]
      simp [hgives]

/-- **Which losses reported during a fetch the install keeps.** -/
theorem keepsLosses_iff (hdrift : i₀.listener.tolerateDrift = false)
    (hops : ∀ op ∈ ops, op.isInFlight = true)
    (hrun : runSteps step (.beginFetch head :: ops) i₀ = some (i, said))
    (hp : i.install = some p) (hcommit : i.step (.commit now) = some (i', said')) :
    KeepsLosses ops p i'.listener ↔
      ((∃ line, IngestOp.desync line ∈ ops ∧ p.height < line) → p.givesUp i.listener = true ∨
        i.listener.replayFails now p.state p.height p.replayFailed = true ∨
        ∃ b ∈ i₀.listener.maxLossHeight :: runMarks (.beginFetch head :: ops) i₀,
          max head p.height < b) :=
  imp_congr_right fun _ => needsResync_commit_iff hdrift hops hrun hp hcommit

end Ingest

end HlOrderbook

namespace HlOrderbook

section Example

attribute [local instance] SlabPolicy.latest FixedPoint.decimal

namespace Ingest

/-- A listener before its first snapshot. -/
def fresh : Ingest := ⟨.new true true ⟨true, true, true⟩, none⟩

/-- A first snapshot at height 1000; line 1001 is discarded, and the fetch that
follows fails. -/
def failedFetch : List IngestOp :=
  [.beginFetch 1000, .build ∅ [] 1000, .commit 0, .desync 1001, .beginFetch 1001]

/-- The fetch after it begins when the head is at 1250; line 1300 is discarded, and
the dump is of height 1200. -/
def overtaken : List IngestOp := [.desync 1300, .build ∅ [] 1200]

/-- The same, with the head at 1060 and a dump of height 1050. -/
def behind : List IngestOp := [.desync 1300, .build ∅ [] 1050]

/-- A run that is not refused ends somewhere, and its end can be computed. -/
theorem exists_end {A : Type} {r : Option (Ingest × List InternalMessage)} {f : Ingest → A} {a : A}
    (h : r.map (fun x => f x.1) = some a) : ∃ i said, r = some (i, said) ∧ f i = a := by
  obtain ⟨x, hx, ha⟩ := Option.map_eq_some_iff.mp h
  exact ⟨x.1, x.2, hx, ha⟩

/-- **An install forgets a loss above its dump** when the head had moved on before
the fetch began. -/
theorem keepsLosses_overtaken : ¬ ∀ (i₀ i i' : Ingest) (head now : ℕ) (ops : List IngestOp)
    (p : PhasedInstall) (said said' : List InternalMessage),
    i₀.listener.tolerateDrift = false → (∀ op ∈ ops, op.isInFlight = true) →
    runSteps step (.beginFetch head :: ops) i₀ = some (i, said) → i.install = some p →
    i.step (.commit now) = some (i', said') → KeepsLosses ops p i'.listener := by
  intro h
  obtain ⟨i₀, said₀, h₀, hdrift⟩ := exists_end (f := fun i => i.listener.tolerateDrift) (a := false)
    (r := runSteps step failedFetch fresh) (by decide +kernel)
  obtain ⟨i, said, hi, hheight⟩ := exists_end (f := fun i => i.install.map PhasedInstall.height)
    (a := some 1200) (r := runSteps step (failedFetch ++ .beginFetch 1250 :: overtaken) fresh)
    (by decide +kernel)
  obtain ⟨i', said', hi', hneeds⟩ := exists_end (f := fun i => i.listener.needsResync) (a := false)
    (r := runSteps step ((failedFetch ++ .beginFetch 1250 :: overtaken) ++ [.commit 0]) fresh)
    (by decide +kernel)
  obtain ⟨i₁, said₁, said₂, hrun, hcommit, -⟩ := Runs.concat_eq_some.mp hi'
  obtain ⟨i₂, said₃, said₄, hearlier, hfetch, -⟩ := Runs.append_eq_some.mp hrun
  cases hrun.symm.trans hi
  cases hearlier.symm.trans h₀
  obtain ⟨p, hp, hph⟩ := Option.map_eq_some_iff.mp hheight
  have hkept := h _ _ _ _ _ _ _ _ _ hdrift (by decide) hfetch hp hcommit
    ⟨1300, by simp [overtaken], by omega⟩
  simp [hneeds] at hkept

theorem keepsLosses_iff_behind : ∃ i₀ i i' p said said', i₀.listener.tolerateDrift = false ∧
    runSteps step (.beginFetch 1060 :: behind) i₀ = some (i, said) ∧ i.install = some p ∧
    i.step (.commit 0) = some (i', said') ∧ KeepsLosses behind p i'.listener := by
  obtain ⟨i₀, said₀, h₀, hi₀⟩ := exists_end (f := fun i => (i.listener.tolerateDrift,
      i.listener.maxLossHeight)) (a := (false, 1100))
    (r := runSteps step failedFetch fresh) (by decide +kernel)
  obtain ⟨i, said, hi, hheight⟩ := exists_end (f := fun i => i.install.map PhasedInstall.height)
    (a := some 1050) (r := runSteps step (failedFetch ++ .beginFetch 1060 :: behind) fresh)
    (by decide +kernel)
  obtain ⟨i', said', hi', -⟩ := exists_end (f := fun i => i.listener.needsResync) (a := true)
    (r := runSteps step ((failedFetch ++ .beginFetch 1060 :: behind) ++ [.commit 0]) fresh)
    (by decide +kernel)
  obtain ⟨i₁, said₁, said₂, hrun, hcommit, -⟩ := Runs.concat_eq_some.mp hi'
  obtain ⟨i₂, said₃, said₄, hearlier, hfetch, -⟩ := Runs.append_eq_some.mp hrun
  cases hrun.symm.trans hi
  cases hearlier.symm.trans h₀
  obtain ⟨p, hp, hph⟩ := Option.map_eq_some_iff.mp hheight
  obtain ⟨hdrift, hbound⟩ := Prod.mk.inj hi₀
  refine ⟨_, _, _, p, _, _, hdrift, hfetch, hp, hcommit, ?_⟩
  refine (keepsLosses_iff hdrift (by decide) hfetch hp hcommit).mpr fun _ => Or.inr (Or.inr ?_)
  exact ⟨_, List.mem_cons_self, by omega⟩

end Ingest

end Example

end HlOrderbook
