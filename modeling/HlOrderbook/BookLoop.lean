import HlOrderbook.Ingest
import HlOrderbook.LiveMerge

/-!
# The live book

While the book is live, the ingest loop takes the lines of the two book streams
through the merge and gives every batch to the listener.  Each line that is taken
off a channel is to come to the listener, to be below the floor, or to leave the
listener out of sync; a line that does not parse does none of these.

## Main definitions

* `BookLoop`, `BookLoop.step` — the loop.
* `BookLoop.NoSilentLoss` — no line is lost silently.
* `noSilentLoss_iff` — when that is so.
-/

set_option autoImplicit false
set_option linter.unusedSectionVars false

namespace HlOrderbook

/-- The merge of the book streams and the listener. -/
structure BookLoop where
  merge : LiveMerge
  listener : OrderBookListener

/-- What happens while the book is live: the merge moves, a line of fills or a
report of a discarded line arrives, or the aggregated books are due. -/
inductive BookLoopOp where
  | merge (env : Env) (op : MergeOp)
  | fills (env : Env) (line : String)
  | desync
  | flush (env : Env)

variable [SlabPolicy] [FixedPoint] [LineParser]

namespace BookLoop

/-- Give the batches handed out to the listener, one after the other. -/
def applyTaken (env : Env) : List Taken → OrderBookListener → Option OrderBookListener
  | [], l => some l
  | (height, batch, _) :: rest, l =>
    match l.applyEventBatch env height batch with
    | none => none
    | some (l, _) => applyTaken env rest l

/-- One event; what it answers is what the merge does with the lines. -/
def step (s : BookLoop) : BookLoopOp → Option (BookLoop × List MergeEvent)
  | .merge env op =>
    match s.merge.step op with
    | none => none
    | some (m, events) =>
      match applyTaken env (LiveMerge.handedOut events) s.listener with
      | none => none
      | some l =>
        some (⟨m, if LiveMerge.handedOut events = [] then l else (l.flushL2IfDue env).1⟩, events)
  | .fills env line =>
    match parseEventLine line .fills with
    | none => some (s, [])
    | some (height, batch) =>
      (s.listener.applyEventBatch env height batch).map fun r =>
        ({ s with listener := (r.1.flushL2IfDue env).1 }, [])
  | .desync => some ({ s with listener := s.listener.markDesynced }, [])
  | .flush env => some ({ s with listener := (s.listener.flushL2IfDue env).1 }, [])

/-- What is to become of a line taken off a channel: its batch was given to the
listener or waits to be, or is not above the floor, or the listener is out of
sync. -/
def Accounted (s : BookLoop) (said : List MergeEvent) (i : Slot) (line : String) : Prop :=
  (∃ parsed, parseEventLine line i.source = some parsed ∧
    (parsed.1 ≤ s.merge.floor ∨ parsed ∈ LiveMerge.takenOf i (LiveMerge.handedOut said) ∨
      parsed ∈ s.merge.pendingOf i)) ∨
  s.listener.needsResync = true

/-- At every moment of a run, every line taken off a channel so far is accounted
for. -/
def NoSilentLoss (s₀ : BookLoop) (ops : List BookLoopOp) : Prop :=
  ∀ pre, pre <+: ops → ∀ s said, runSteps step pre s₀ = some (s, said) →
    ∀ i, ∀ line ∈ LiveMerge.consumedOf i said, s.Accounted said i line

/-- Every line of a run parses, or is taken off its channel when the listener is out
of sync anyway. -/
def LinesParse (s₀ : BookLoop) (ops : List BookLoopOp) : Prop :=
  ∀ pre op, pre ++ [op] <+: ops → ∀ s said s' said', runSteps step pre s₀ = some (s, said) →
    s.step op = some (s', said') → ∀ i, ∀ line ∈ LiveMerge.consumedOf i said',
      (parseEventLine line i.source).isSome = true ∨ s.listener.needsResync = true

variable {s s' : BookLoop} {op : BookLoopOp} {ops : List BookLoopOp} {said said' : List MergeEvent}

theorem needsResync_applyTaken {env : Env} {taken : List Taken} {l l' : OrderBookListener}
    (h : applyTaken env taken l = some l') (hneeds : l.needsResync = true) :
    l'.needsResync = true := by
  induction taken generalizing l with
  | nil =>
    cases h
    exact hneeds
  | cons t rest ih =>
    obtain ⟨height, batch, source⟩ := t
    cases happly : l.applyEventBatch env height batch with
    | none => simp [applyTaken, happly] at h
    | some r =>
      simp only [applyTaken, happly] at h
      exact ih h (OrderBookListener.needsResync_applyEventBatch happly hneeds)

theorem needsResync_flush (env : Env) {l : OrderBookListener} (h : l.needsResync = true) :
    (l.flushL2IfDue env).1.needsResync = true := by
  obtain ⟨last, cache, dirty, active, heq⟩ := OrderBookListener.flushL2IfDue_fst env l
  rw [heq]
  exact h

/-- A mark stays as long as the book is live. -/
theorem needsResync_step (h : s.step op = some (s', said)) (hneeds : s.listener.needsResync = true) :
    s'.listener.needsResync = true := by
  cases op with
  | merge env op =>
    simp only [step] at h
    split at h
    · cases h
    · split at h
      case h_1 => cases h
      case h_2 l happly =>
        cases h
        have := needsResync_applyTaken happly hneeds
        simp only
        split
        · exact this
        · exact needsResync_flush env this
  | fills env line =>
    simp only [step] at h
    split at h
    · cases h
      exact hneeds
    · obtain ⟨r, hr, heq⟩ := Option.map_eq_some_iff.mp h
      cases heq
      exact needsResync_flush env (OrderBookListener.needsResync_applyEventBatch hr hneeds)
  | desync =>
    cases h
    exact (OrderBookListener.markDesynced_marked _).needsResync hneeds
  | flush env =>
    cases h
    exact needsResync_flush env hneeds

/-- The merge in the loop: what it says, it says as a merge. -/
theorem step_merge (h : s.step op = some (s', said)) :
    (s'.merge = s.merge ∧ said = []) ∨ ∃ mop, s.merge.step mop = some (s'.merge, said) := by
  cases op with
  | merge env op =>
    simp only [step] at h
    split at h
    case h_1 => cases h
    case h_2 m events hstep =>
      split at h
      · cases h
      · cases h
        exact Or.inr ⟨op, hstep⟩
  | fills env line =>
    simp only [step] at h
    split at h
    · cases h
      exact Or.inl ⟨rfl, rfl⟩
    · obtain ⟨r, hr, heq⟩ := Option.map_eq_some_iff.mp h
      cases heq
      exact Or.inl ⟨rfl, rfl⟩
  | desync =>
    cases h
    exact Or.inl ⟨rfl, rfl⟩
  | flush env =>
    cases h
    exact Or.inl ⟨rfl, rfl⟩

/-- Taking a line off a channel leaves the listener alone. -/
theorem listener_of_consumed (h : s.step op = some (s', said)) {i : Slot} {line : String}
    (hline : line ∈ LiveMerge.consumedOf i said) : s'.listener = s.listener := by
  cases op with
  | merge env op =>
    simp only [step] at h
    split at h
    case h_1 => cases h
    case h_2 m events hstep =>
      split at h
      case h_1 => cases h
      case h_2 l happly =>
        cases h
        have hnone := LiveMerge.handedOut_of_consumed hstep hline
        rw [hnone] at happly
        cases happly
        simp [hnone]
  | fills env line' =>
    simp only [step] at h
    split at h
    · cases h
      rfl
    · obtain ⟨r, hr, heq⟩ := Option.map_eq_some_iff.mp h
      cases heq
      simp [LiveMerge.consumedOf] at hline
  | desync =>
    cases h
    simp [LiveMerge.consumedOf] at hline
  | flush env =>
    cases h
    simp [LiveMerge.consumedOf] at hline

/-- The loop loses no line that its merge does not lose. -/
theorem run_accounts (hwaits : s.merge.Waits) (h : runSteps step ops s = some (s', said)) :
    s.merge.Accounts s'.merge said := by
  induction ops generalizing s said with
  | nil =>
    cases h
    exact .of_same rfl hwaits rfl rfl
  | cons op ops ih =>
    obtain ⟨s₁, said₁, said₂, hstep, hrun, rfl⟩ := Runs.cons_eq_some.mp h
    have hfirst : s.merge.Accounts s₁.merge said₁ := by
      rcases step_merge hstep with ⟨hm, rfl⟩ | ⟨mop, hm⟩
      · rw [hm]
        exact .of_same rfl hwaits rfl rfl
      · exact LiveMerge.step_accounts hwaits hm
    exact hfirst.trans (ih hfirst.waits hrun)

/-- **A line is lost silently exactly when one does not parse** while the listener is
in sync. -/
theorem noSilentLoss_iff (rx : Slot → List String) (floor : ℕ) (l : OrderBookListener)
    (ops : List BookLoopOp) :
    NoSilentLoss ⟨.new rx floor, l⟩ ops ↔ LinesParse ⟨.new rx floor, l⟩ ops := by
  constructor
  · intro h pre op hpre s said s' said' hrun hstep i line hline
    have hlast := Runs.concat_eq_some.mpr ⟨s, said, said', hrun, hstep, rfl⟩
    have hmem : line ∈ LiveMerge.consumedOf i (said ++ said') := by
      rw [LiveMerge.consumedOf_append]
      exact List.mem_append_right _ hline
    rcases h _ hpre s' _ hlast i line hmem with ⟨parsed, hparsed, -⟩ | hneeds
    · exact Or.inl (by rw [hparsed]; rfl)
    · exact Or.inr (listener_of_consumed hstep hline ▸ hneeds)
  · intro h pre hpre s said hrun i line hline
    have hparse : ∀ i, ∀ line ∈ LiveMerge.consumedOf i said,
        (parseEventLine line i.source).isSome = true ∨ s.listener.needsResync = true := by
      refine Runs.along (P := fun es said s => es <+: ops → ∀ i, ∀ line ∈
        LiveMerge.consumedOf i said, (parseEventLine line i.source).isSome = true ∨
          s.listener.needsResync = true) ?_ ?_ hrun hpre
      · intro es s₁ said₁ op s₂ said₂ hrun₁ ih hstep hes i line hline
        rw [LiveMerge.consumedOf_append] at hline
        rcases List.mem_append.mp hline with hline | hline
        · exact (ih ((List.prefix_append _ _).trans hes) i line hline).imp_right
            (needsResync_step hstep)
        · exact (h es op hes s₁ said₁ s₂ said₂ hrun₁ hstep i line hline).imp_right
            (needsResync_step hstep)
      · intro _ i line hline
        simp [LiveMerge.consumedOf] at hline
    rcases hparse i line hline with hsome | hneeds
    · obtain ⟨parsed, hparsed⟩ := Option.isSome_iff_exists.mp hsome
      have hwaits : (LiveMerge.new rx floor).Waits := fun on hon => by cases hon
      have haccounts := run_accounts (s := ⟨.new rx floor, l⟩) hwaits hrun
      refine Or.inl ⟨parsed, hparsed, ?_⟩
      by_cases hfloor : parsed.1 ≤ floor
      · exact Or.inl (haccounts.floor ▸ hfloor)
      · right
        have hkept : parsed ∈ (LiveMerge.consumedOf i said).filterMap (LiveMerge.keep floor i) := by
          refine List.mem_filterMap.mpr ⟨line, hline, ?_⟩
          simp [LiveMerge.keep, hparsed, Option.filter, show floor < parsed.1 by omega]
        have hlines := haccounts.lines i
        simp only [LiveMerge.pendingOf, LiveMerge.new, LiveMerge.takenOf, List.filterMap_nil,
          Option.toList_none, List.append_nil, List.nil_append] at hlines
        rw [hlines] at hkept
        exact List.mem_append.mp hkept
    · exact Or.inr hneeds

end BookLoop

end HlOrderbook

namespace HlOrderbook

section Example

attribute [local instance] SlabPolicy.latest FixedPoint.decimal

namespace BookLoop

/-- A parser on the lines that are no records. -/
@[reducible] def LineParser.rejecting : LineParser where
  fills _ := none
  orderStatuses _ := none
  orderDiffs _ := none

attribute [local instance] LineParser.rejecting

/-- A listener with an empty book, installed at height 1000. -/
def live : OrderBookListener :=
  { OrderBookListener.new true true ⟨true, true, true⟩ with
    orderBookState := some (.fromSnapshot ∅ [] 1000 0 true true true)
    fetchedSnapshotCache := none }

/-- A line arrives that has the shape of a record and is none, and is read. -/
def unreadable (env : Env) : List BookLoopOp :=
  [.merge env (.arrive .diffs "{}"), .merge env .start, .merge env (.poll 0), .merge env (.poll 0),
    .merge env (.poll 0)]

/-- **A line that does not parse is lost silently.** -/
theorem noSilentLoss_unreadable : ¬ NoSilentLoss ⟨.new (fun _ => []) 1000, live⟩
    (unreadable ⟨0, ∅, fun _ => false, 0⟩) := by
  intro h
  have hline := h _ List.prefix_rfl _ _ rfl .diffs "{}" (by
    change "{}" ∈ ["{}"]
    simp)
  rcases hline with ⟨parsed, hparsed, -⟩ | hneeds
  · simp [parseEventLine, Slot.source] at hparsed
  · cases hneeds

end BookLoop

end Example

end HlOrderbook
