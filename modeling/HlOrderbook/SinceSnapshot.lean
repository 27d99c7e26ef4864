import HlOrderbook.LiveBook
import HlOrderbook.MainLoop

/-!
# The book since a snapshot

From the moment a fetch has read the node's state until the next fetch is started, the main loop
builds a book from it, installs it, receives the result and applies the book streams to it.  What
it serves then is the state that was read with the node's history since.

## Main definitions

* `MainLoop.Since` — the invariant, a case for each phase.

## Main results

* `served_since_load` — the book there is, whenever the book streams are applied.
-/

set_option autoImplicit false
set_option linter.unusedSectionVars false

namespace HlOrderbook

open LiveMerge

/-! ## While the streams are held -/

namespace BookLoop

variable [SlabPolicy] [FixedPoint] [LineParser] {s s' : BookLoop} {op : BookLoopOp}
  {ops : List BookLoopOp} {said : List MergeEvent}

/-- The loop with another floor. -/
def withFloor (s : BookLoop) (floor : ℕ) : BookLoop :=
  { s with merge := { s.merge with floor := floor } }

/-- What comes while the streams are held does not look at the floor. -/
theorem step_withFloor (h : s.step op = some (s', said)) (hempty : s.merge.Empty)
    (haside : op.isAside = true) (floor : ℕ) :
    (s.withFloor floor).step op = some (s'.withFloor floor, []) := by
  cases op with
  | merge env mop =>
    cases hmerge : s.merge.step mop with
    | none => simp [step, hmerge] at h
    | some r =>
      obtain ⟨m, events⟩ := r
      obtain ⟨-, -, rfl⟩ := hempty.aside hmerge haside
      have hfloor : (s.withFloor floor).merge.step mop = some ({ m with floor := floor }, []) := by
        cases mop with
        | arrive i line =>
          simp only [LiveMerge.step, withFloor] at hmerge ⊢
          split at hmerge
          · cases hmerge
          · next hopen =>
            cases hmerge
            exact if_neg hopen
        | close i =>
          cases hmerge
          rfl
        | start => cases haside
        | poll now => cases haside
        | wake i => cases haside
        | timeout now => cases haside
        | cancel => cases haside
      simp only [step, hmerge, handedOut, List.filterMap_nil, applyTaken, if_true,
        Option.some.injEq, Prod.mk.injEq] at h
      rw [← h.1]
      simp only [step, hfloor, handedOut, List.filterMap_nil, applyTaken, if_true]
      rfl
  | fills env line =>
    simp only [step, withFloor] at h ⊢
    split at h
    · cases h
      rfl
    · obtain ⟨r, hr, heq⟩ := Option.map_eq_some_iff.mp h
      cases heq
      rw [hr]
      rfl
  | desync =>
    cases h
    rfl
  | flush env =>
    cases h
    rfl

/-- The lines that wait and those that are to come stay the same. -/
theorem lines_aside (h : s.step op = some (s', said)) (hempty : s.merge.Empty)
    (haside : op.isAside = true) (i : Slot) :
    s'.merge.rx i ++ arrivalsOf i (mergeOps ops) =
      s.merge.rx i ++ arrivalsOf i (mergeOps (op :: ops)) := by
  cases op with
  | merge env mop =>
    cases hmerge : s.merge.step mop with
    | none => simp [step, hmerge] at h
    | some r =>
      obtain ⟨m, events⟩ := r
      obtain ⟨-, -, rfl⟩ := hempty.aside hmerge haside
      simp only [step, hmerge, handedOut, List.filterMap_nil, applyTaken, if_true,
        Option.some.injEq, Prod.mk.injEq] at h
      have hchannel := step_channel hmerge i
      have hops : arrivalsOf i (mergeOps (.merge env mop :: ops)) =
          arrivalsOf i [mop] ++ arrivalsOf i (mergeOps ops) :=
        arrivalsOf_append i [mop] (mergeOps ops)
      rw [hops, ← List.append_assoc, hchannel, ← h.1]
      rfl
  | fills env line =>
    simp only [step] at h
    split at h
    · cases h
      rfl
    · obtain ⟨r, hr, heq⟩ := Option.map_eq_some_iff.mp h
      cases heq
      rfl
  | desync =>
    cases h
    rfl
  | flush env =>
    cases h
    rfl

end BookLoop

/-- A fetch is started. -/
def MainEvent.isStart : MainEvent → Bool
  | .started _ _ => true
  | _ => false

namespace MainLoop

variable [SlabPolicy] [FixedPoint] [LineParser]

/-- The events of the book loop among those of the main loop. -/
def bookOps (ops : List MainLoopOp) : List BookLoopOp :=
  ops.filterMap fun
    | .book op => some op
    | _ => none

/-- What the merge does, of what is told. -/
def mergeEvents (said : List MainEvent) : List MergeEvent :=
  said.filterMap fun
    | .merge event => some event
    | _ => none

/-- The state that an install is to put in the book. -/
def toBuild (s : MainLoop) (snapshot : Snapshots InnerL4Order) (untriggered : List InnerL4Order)
    (height : ℕ) : OrderBookState :=
  (PhasedInstall.build s.book.listener snapshot untriggered height).state

/-- In an event nothing has to be given up, and no batch is too large. -/
def Handles (s : MainLoop) : MainLoopOp → Prop
  | .book op => s.book.Handles op
  | _ => True

instance (s : MainLoop) : ∀ op, Decidable (s.Handles op)
  | .book op => inferInstanceAs (Decidable (s.book.Handles op))
  | .elapse _ | .begin _ _ | .load _ _ _ _ | .chase _ _ | .commit _ _ | .fail _ | .receive
  | .tick _ => inferInstanceAs (Decidable True)

@[simp] theorem mergeEvents_append (said said' : List MainEvent) :
    mergeEvents (said ++ said') = mergeEvents said ++ mergeEvents said' := List.filterMap_append

@[simp] theorem mergeEvents_map (events : List MergeEvent) :
    mergeEvents (events.map .merge) = events := by
  induction events with
  | nil => rfl
  | cons e events ih => exact congrArg (e :: ·) ih

/-- **Where the loop is since a state was read**, with what happens after it: the book is being
built, or it is installed and its result waits, or the streams are applied to it, or the fetch
has failed. -/
inductive Since (built : OrderBookState) (height : ℕ) (diffs : List NodeDataOrderDiff)
    (whole : Slot → List (ℕ × EventBatch)) (ops : List BookLoopOp) (events : List MergeEvent)
    (s : MainLoop) : Prop where
  | building (p : PhasedInstall) (htasks : s.tasks = [.installing p]) (hstate : p.state = built)
      (hheight : p.height = height) (hevents : events = [])
      (hlines : ∀ i, (s.book.merge.rx i ++ arrivalsOf i (mergeOps ops)).filterMap
        (keep height i) = whole i)
  | installed (hresults : s.results = [some height]) (hevents : events = [])
      (hcourse : BookLoop.OnCourse built diffs whole ops [] (s.book.withFloor height))
  | live (hactive : s.mergeActive = true)
      (hcourse : BookLoop.OnCourse built diffs whole ops events s.book)
  | failed (hheld : s.mergeActive = false) (htasks : s.tasks = [])
      (hresults : ∀ height, some height ∉ s.results)

variable {built : OrderBookState} {height : ℕ} {statuses : List NodeDataOrderStatus}
  {diffs : List NodeDataOrderDiff} {whole : Slot → List (ℕ × EventBatch)}
  {s s' : MainLoop} {said₀ said said' : List MainEvent} {op : MainLoopOp}
  {ops : List MainLoopOp} {bops : List BookLoopOp} {events : List MergeEvent}

/-- What is put in the book is what the pairing starts from. -/
theorem serves_install (H : WellFormed built statuses diffs) {l : OrderBookListener}
    (hbook : l.orderBookState = some built.takeInsertBeforeFallbacks.1) :
    l.Serves built diffs [] [] := by
  have h := Paired.start H
  exact ⟨_, hbook, h.ignoreSpot, h.resting, h.waitingStatus, h.waitingNew, h.noNew, h.zeroed⟩

/-- **The streams bring something.** -/
theorem Since.book {op : BookLoopOp} (H : WellFormed built statuses diffs)
    (hhistory : BookLoop.FromHistory statuses diffs whole) (hsince : Since built height diffs whole
      (op :: bops) events s) (h : OnTrack said₀ s) (hhandles : s.book.Handles op)
    (hstep : s.step (.book op) = some (s', said)) :
    Since built height diffs whole bops (events ++ mergeEvents said) s' := by
  simp only [step, Option.ite_none_right_eq_some] at hstep
  obtain ⟨hactive, hstep⟩ := hstep
  obtain ⟨⟨book, bookSaid⟩, hbook, heq⟩ := Option.map_eq_some_iff.mp hstep
  cases heq
  have haside : s.mergeActive = false → op.isAside = true ∧ s.book.merge.Empty := by
    intro hheld
    rw [hheld, Bool.false_or] at hactive
    exact ⟨hactive, h.empty hheld⟩
  rw [mergeEvents_map]
  cases hsince with
  | building p htasks hstate hheight hevents hlines =>
    have hk : s.tasks[0]? = some (.installing p) := by rw [htasks]; rfl
    obtain ⟨haside, hempty⟩ := haside (h.held (h.running hk).1)
    obtain ⟨-, -, rfl⟩ := BookLoop.step_aside hbook hempty haside
    refine .building p htasks hstate hheight (by rw [hevents]; rfl) fun i => ?_
    rw [BookLoop.lines_aside hbook hempty haside i]
    exact hlines i
  | installed hresults hevents hcourse =>
    obtain ⟨haside, hempty⟩ := haside (h.held (h.waiting hresults).1)
    obtain ⟨-, -, rfl⟩ := BookLoop.step_aside hbook hempty haside
    have hfloor := BookLoop.step_withFloor hbook hempty haside height
    refine .installed hresults (by rw [hevents]; rfl) ?_
    refine (hcourse.step H hhistory ?_ hfloor).1
    cases op with
    | merge env mop =>
      intro r hr
      obtain ⟨m', said'⟩ := r
      have hfloor : (s.book.withFloor height).merge.Empty :=
        ⟨hempty.waits, hempty.ready, hempty.peek⟩
      obtain ⟨-, -, rfl⟩ := hfloor.aside hr haside
      trivial
    | fills env line => exact hhandles
    | desync => trivial
    | flush env => trivial
  | live hactive hcourse => exact .live hactive (hcourse.step H hhistory hhandles hbook).1
  | failed hheld htasks hresults => exact .failed hheld htasks hresults

/-- Where nothing is told of the streams. -/
theorem Since.quiet (hsince : Since built height diffs whole bops events s) :
    Since built height diffs whole bops (events ++ []) s := by
  rwa [List.append_nil]

/-- Time has no part in it. -/
theorem Since.elapse (hsince : Since built height diffs whole bops events s)
    {ms : ℕ} (hstep : s.step (.elapse ms) = some (s', said)) :
    Since built height diffs whole bops (events ++ mergeEvents said) s' := by
  cases hstep
  refine Since.quiet ?_
  cases hsince with
  | building p htasks hstate hheight hevents hlines =>
    exact .building p htasks hstate hheight hevents hlines
  | installed hresults hevents hcourse => exact .installed hresults hevents hcourse
  | live hactive hcourse => exact .live hactive hcourse
  | failed hheld htasks hresults => exact .failed hheld htasks hresults

/-- A fetch that runs installs what was read, and nothing has been handed out yet. -/
theorem Since.of_running (hsince : Since built height diffs whole bops events s)
    (h : OnTrack said₀ s) {k : ℕ} {t : FetchTask} (hk : s.tasks[k]? = some t) :
    ∃ p, t = .installing p ∧ p.state = built ∧ p.height = height ∧ events = [] ∧
      ∀ i, (s.book.merge.rx i ++ arrivalsOf i (mergeOps bops)).filterMap (keep height i) =
        whole i := by
  obtain ⟨hpending, -, htasks, hresults⟩ := h.running hk
  cases hsince with
  | building p htasks' hstate hheight hevents hlines =>
    rw [htasks', List.cons.injEq] at htasks
    exact ⟨p, htasks.1.symm, hstate, hheight, hevents, hlines⟩
  | installed hresults' => simp [hresults] at hresults'
  | live hactive =>
    have hheld := h.held hpending
    rw [hactive] at hheld
    cases hheld
  | failed hheld htasks' => simp [htasks] at htasks'

/-- The state that was read is put in the book. -/
theorem Since.commit (H : WellFormed built statuses diffs)
    (hsince : Since built height diffs whole bops events s) (h : OnTrack said₀ s) {k now : ℕ}
    (hstep : s.step (.commit k now) = some (s', said)) :
    Since built height diffs whole bops (events ++ mergeEvents said) s' := by
  simp only [MainLoop.step] at hstep
  split at hstep
  · next p hk =>
    rw [PhasedInstall.not_chases h.keepsNothing, if_neg Bool.false_ne_true] at hstep
    obtain ⟨l, hcommit, heq⟩ := Option.map_eq_some_iff.mp hstep
    cases heq
    obtain ⟨p', heq, rfl, rfl, rfl, hlines⟩ := hsince.of_running h hk
    cases heq
    obtain ⟨hpending, -, -, hresults⟩ := h.running hk
    have hempty := h.empty (h.held hpending)
    refine .installed ?_ rfl ⟨hempty.waits, fun t ht => ?_, fun i => ?_, ?_⟩
    · simp [hresults]
    · have hready : t ∈ s.book.merge.ready := ht
      rw [hempty.ready] at hready
      cases hready
    · rw [← hlines i]
      simp only [pendingOf, withListener, BookLoop.withFloor, hempty.ready, hempty.peek]
      rfl
    · exact serves_install H (PhasedInstall.commit_keepsNothing h.keepsNothing hcommit).2.2
  · cases hstep

/-- The fetch fails. -/
theorem Since.fail (h : OnTrack said₀ s) {k : ℕ} (hstep : s.step (.fail k) = some (s', said)) :
    Since built height diffs whole bops (events ++ mergeEvents said) s' := by
  simp only [MainLoop.step] at hstep
  split at hstep
  · cases hstep
  · cases hstep
  · next t hk =>
    cases hstep
    obtain ⟨hpending, hk0, htasks, hresults⟩ := h.running hk
    refine Since.quiet (.failed (h.held hpending) ?_ fun height hheight => ?_)
    · simp [hk0, htasks]
    · simp [hresults] at hheight

/-- The loop takes the result of a fetch: it begins to apply the streams, or it does not. -/
theorem Since.receive (hsince : Since built height diffs whole bops events s) (h : OnTrack said₀ s)
    (hstep : s.step .receive = some (s', said)) :
    Since built height diffs whole bops (events ++ mergeEvents said) s' := by
  have hnot : ∀ {r : Option ℕ} {rest : List (Option ℕ)}, s.results = r :: rest →
      (∀ p, s.tasks ≠ [.installing p]) ∧ s.mergeActive = false := by
    intro r rest hresults
    obtain ⟨hpending, htasks, -⟩ := h.waiting hresults
    exact ⟨fun p htasks' => by simp [htasks] at htasks', h.held hpending⟩
  simp only [MainLoop.step] at hstep
  split at hstep
  · cases hstep
  · next rest hresults =>
    obtain ⟨-, hstep⟩ := Option.ite_none_right_eq_some.mp hstep
    cases hstep
    refine Since.quiet ?_
    cases hsince with
    | building p htasks => exact absurd htasks ((hnot hresults).1 p)
    | installed hresults' => simp [hresults] at hresults'
    | live hactive => simp [(hnot hresults).2] at hactive
    | failed hheld htasks hnone =>
      exact .failed hheld htasks fun height hheight =>
        hnone height (by rw [hresults]; exact List.mem_cons_of_mem _ hheight)
  · next height' rest hresults =>
    cases hstep
    refine Since.quiet ?_
    cases hsince with
    | building p htasks => exact absurd htasks ((hnot hresults).1 p)
    | installed hresults' hevents hcourse =>
      rw [hresults, List.cons.injEq, Option.some.injEq] at hresults'
      obtain ⟨rfl, -⟩ := hresults'
      rw [hevents]
      exact .live rfl hcourse
    | live hactive => simp [(hnot hresults).2] at hactive
    | failed hheld htasks hnone =>
      have hmem : some height' ∈ s.results := by
        rw [hresults]
        exact List.mem_cons_self
      exact absurd hmem (hnone height')

/-- **Every event keeps the invariant**, as long as no fetch is started. -/
theorem Since.step (H : WellFormed built statuses diffs)
    (hhistory : BookLoop.FromHistory statuses diffs whole)
    (hsince : Since built height diffs whole (bookOps (op :: ops)) events s) (h : OnTrack said₀ s)
    (hhandles : s.Handles op) (hstart : ∀ e ∈ said, e.isStart = false)
    (hstep : s.step op = some (s', said)) :
    Since built height diffs whole (bookOps ops) (events ++ mergeEvents said) s' := by
  cases op with
  | elapse ms => exact Since.elapse hsince hstep
  | book op => exact hsince.book H hhistory h hhandles hstep
  | begin k head =>
    -- the one fetch there is has read its state
    simp only [MainLoop.step] at hstep
    split at hstep
    · next hk =>
      obtain ⟨p, heq, -⟩ := hsince.of_running h hk
      cases heq
    · cases hstep
  | load k snapshot untriggered height =>
    simp only [MainLoop.step] at hstep
    split at hstep
    · next hk =>
      obtain ⟨p, heq, -⟩ := hsince.of_running h hk
      cases heq
    · cases hstep
  | chase k now =>
    rw [h.not_chase] at hstep
    cases hstep
  | commit k now => exact Since.commit H hsince h hstep
  | fail k => exact Since.fail h hstep
  | receive => exact Since.receive hsince h hstep
  | tick rx =>
    simp only [MainLoop.step] at hstep
    split at hstep
    · cases hstep
      exact absurd (hstart _ List.mem_cons_self) (by simp [MainEvent.isStart])
    · cases hstep
      exact Since.quiet hsince

theorem Since.run (H : WellFormed built statuses diffs)
    (hhistory : BookLoop.FromHistory statuses diffs whole)
    (hsince : Since built height diffs whole (bookOps ops) events s) (h : OnTrack said₀ s)
    {told : List MainEvent}
    (hhandles : Runs.Meets MainLoop.step (fun _ s op => s.Handles op) told ops s)
    (hstart : ∀ e ∈ said, e.isStart = false) (hrun : runSteps MainLoop.step ops s = some (s', said)) :
    Since built height diffs whole [] (events ++ mergeEvents said) s' := by
  induction ops generalizing s said₀ said events told with
  | nil =>
    cases hrun
    rw [show mergeEvents [] = [] from rfl, List.append_nil]
    exact hsince
  | cons op ops ih =>
    obtain ⟨s₁, said₁, said₂, hstep, hrest, rfl⟩ := Runs.cons_eq_some.mp hrun
    rw [Runs.Meets, hstep] at hhandles
    have hsince₁ := hsince.step H hhistory h hhandles.1
      (fun e he => hstart e (List.mem_append_left _ he)) hstep
    rw [mergeEvents_append, ← List.append_assoc]
    exact ih hsince₁ (h.step hstep) hhandles.2
      (fun e he => hstart e (List.mem_append_right _ he)) hrest

/-- **Whatever has happened before**, once a fetch has read the node's state and until the next
fetch is started, the book is, whenever the book streams are applied, what the reference makes of
the state that was read and the batches handed out since; and once nothing is left in the merge,
of all that lay on the channels when it was read or has arrived since. -/
theorem served_since_load {tx spot drift track : Bool} {filter : MarketFilter} {cap k : ℕ}
    {rx : Slot → List String} {now : ℕ} {before : List MainLoopOp} {s₀ : MainLoop}
    {snapshot : Snapshots InnerL4Order} {untriggered : List InnerL4Order}
    (hbefore : runSteps step before (init (.configured tx spot filter cap drift track) rx now) =
      some (s₀, said₀))
    (H : WellFormed (s₀.toBuild snapshot untriggered height) statuses diffs)
    (hstatuses : statusLinesOf (arrived s₀.book.merge.rx height (bookOps ops) .statuses) <+:
      statuses)
    (hdiffs : diffLinesOf (arrived s₀.book.merge.rx height (bookOps ops) .diffs) <+: diffs)
    (hhandles : Runs.Meets step (fun _ s op => s.Handles op) []
      (.load k snapshot untriggered height :: ops) s₀)
    (hrun : runSteps step (.load k snapshot untriggered height :: ops) s₀ = some (s, said))
    (hstart : ∀ e ∈ said, e.isStart = false) (hlive : s.mergeActive = true) :
    ∃ state, s.book.listener.orderBookState = some state ∧
      (∀ c oid, state.resting c oid = nodeBook (s₀.toBuild snapshot untriggered height)
        (statusLinesOf (handedOf (mergeEvents said) .statuses))
        (diffLinesOf (handedOf (mergeEvents said) .diffs)) c oid) ∧
      ((∀ i, s.book.merge.pendingOf i = [] ∧ s.book.merge.rx i = []) →
        ∀ c oid, state.resting c oid = nodeBook (s₀.toBuild snapshot untriggered height)
          (statusLinesOf (arrived s₀.book.merge.rx height (bookOps ops) .statuses))
          (diffLinesOf (arrived s₀.book.merge.rx height (bookOps ops) .diffs)) c oid) := by
  have h₀ := onTrack_run (OrderBookListener.keepsNothing_configured ..) hbefore
  have hhistory : BookLoop.FromHistory statuses diffs
      (arrived s₀.book.merge.rx height (bookOps ops)) := by
    refine ⟨fun i p hp => ?_, hstatuses, hdiffs⟩
    obtain ⟨line, -, hline⟩ := List.mem_filterMap.mp hp
    exact ⟨line, (Option.filter_eq_some_iff.mp hline).1⟩
  obtain ⟨s₁, said₁, said₂, hload, hrest, rfl⟩ := Runs.cons_eq_some.mp hrun
  rw [Runs.Meets, hload] at hhandles
  have h₁ := h₀.step hload
  have hsince : said₁ = [] ∧ Since (s₀.toBuild snapshot untriggered height) height diffs
      (arrived s₀.book.merge.rx height (bookOps ops)) (bookOps ops) [] s₁ := by
    simp only [MainLoop.step] at hload
    split at hload
    · next hk =>
      obtain ⟨-, hk0, htasks, -⟩ := h₀.running hk
      cases hload
      refine ⟨rfl, .building _ ?_ rfl rfl rfl fun i => rfl⟩
      rw [htasks, hk0]
      rfl
    · cases hload
  obtain ⟨rfl, hsince⟩ := hsince
  have hend := hsince.run H hhistory h₁ hhandles.2 hstart hrest
  have htrack := Runs.along (P := fun _ said s => OnTrack ((said₀ ++ []) ++ said) s)
    (fun _ _ _ _ _ _ _ h hstep => by rw [← List.append_assoc]; exact h.step hstep)
    (by rwa [List.append_nil]) hrest
  cases hend with
  | building p htasks =>
    have hk : s.tasks[0]? = some (.installing p) := by rw [htasks]; rfl
    simp [htrack.held (htrack.running hk).1] at hlive
  | installed hresults => simp [htrack.held (htrack.waiting hresults).1] at hlive
  | failed hheld => simp [hheld] at hlive
  | live hactive hcourse =>
    obtain ⟨state, hstate, hpaired⟩ := hcourse.serves
    refine ⟨state, hstate, hpaired.resting, fun hdrained => ?_⟩
    have hall : ∀ i, handedOf (mergeEvents said₂) i =
        arrived s₀.book.merge.rx height (bookOps ops) i := by
      intro i
      have hlines := hcourse.lines i
      rw [(hdrained i).1, (hdrained i).2] at hlines
      simpa [mergeOps, arrivalsOf] using hlines
    rw [← hall, ← hall]
    exact hpaired.resting

end MainLoop

end HlOrderbook

namespace HlOrderbook

section Example

namespace MainLoop

open ShrunkBid

attribute [local instance] SlabPolicy.latest FixedPoint.decimal bidLines

/-- The diffs of a bid arrive while the first snapshot is installed, the status after it. -/
private def installedBetween : List MainLoopOp :=
  let env : Env := ⟨0, ∅, fun _ => false, 0⟩
  [.book (.merge env (.arrive .diffs (blockOf "5" placed))), .commit 0 0,
    .book (.merge env (.arrive .diffs (blockOf "6" shrunk))), .receive,
    .book (.merge env (.arrive .statuses (blockOf "5" opened))), .book (.merge env .start)] ++
    List.replicate 19 (.book (.merge env (.poll 0)))

private abbrev unready : MainLoop :=
  init (.configured true false ⟨true, true, true⟩ 4000000 false true) (fun _ => []) 0

/-- The first snapshot has been asked for. -/
private abbrev askedFor : MainLoop :=
  { unready.withListener (unready.book.listener.beginFetch 0) with
    tasks := [.dumping], snapshotFetchPending := true }

theorem served_since_load_bid : ∃ s said state,
    runSteps step [.tick fun _ => [], .begin 0 0] unready = some (askedFor, [.started false 0]) ∧
      runSteps step (.load 0 ∅ [] 0 :: installedBetween) askedFor = some (s, said) ∧
      s.book.listener.orderBookState = some state ∧
      state.resting "BTC" 7 = some (.bid, 10000000000, 150000000) := by
  have hbefore : runSteps step [.tick fun _ => [], .begin 0 0] unready =
      some (askedFor, [.started false 0]) := rfl
  obtain ⟨s, said, hrun, hend⟩ := Runs.exists_of_map
    (a := (true, true, 0, ([] : List String)))
    (f := fun r : MainLoop × List MainEvent => (r.1.mergeActive, r.2.all fun e => !e.isStart,
      (r.1.book.merge.pendingOf .statuses).length + (r.1.book.merge.pendingOf .diffs).length,
      r.1.book.merge.rx .statuses ++ r.1.book.merge.rx .diffs)) (by decide +kernel :
      (runSteps step (.load 0 ∅ [] 0 :: installedBetween) askedFor).map _ = _)
  simp only [Prod.mk.injEq, List.all_eq_true, Bool.not_eq_true'] at hend
  obtain ⟨hlive, hstart, hpending, hrx⟩ := hend
  rw [List.append_eq_nil_iff] at hrx
  have H : WellFormed (askedFor.toBuild ∅ [] 0) _ _ := wellFormed_shrunkBid
  obtain ⟨state, hstate, -, hdrained⟩ := served_since_load hbefore H
    (by decide +kernel) (by decide +kernel) (by decide +kernel) hrun hstart hlive
  refine ⟨s, said, state, hbefore, hrun, hstate, (hdrained ?_ "BTC" 7).trans (by decide +kernel)⟩
  intro i
  cases i with
  | statuses => exact ⟨List.eq_nil_of_length_eq_zero (by omega), hrx.1⟩
  | diffs => exact ⟨List.eq_nil_of_length_eq_zero (by omega), hrx.2⟩

end MainLoop

end Example

end HlOrderbook
