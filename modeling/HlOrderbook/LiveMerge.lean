import HlOrderbook.Lib.Runs
import HlOrderbook.Listener

/-!
# Merging the two book streams

Order statuses and raw book diffs come in two channels of lines.  The merge reads
ahead one batch of each and hands the batches out in block order.  A stream whose
other half has nothing to offer is held back, unless it is close behind or the
other half has been silent for long.

The merge runs in small steps, so that lines can arrive and a call can be given up
at any moment where that is possible in the source: `poll` is one turn of the loop,
and while the loop waits for a line it can be woken by one, run into its deadline,
or be cancelled.

## Main definitions

* `LineParser`, `parseEventLine` — from a line to a batch.
* `LiveMerge`, `MergeOp`, `LiveMerge.step` — the merge.
* `LiveMerge.run_accounts` — no line is lost but those that do not parse.
-/

set_option autoImplicit false
set_option linter.unusedSectionVars false

namespace HlOrderbook

/-! ## Lines -/

/-- The streams of the node. -/
inductive EventSource where
  | fills
  | orderStatuses
  | orderDiffs
  deriving DecidableEq

/-- The parser of the node's lines, which is not part of the server. -/
class LineParser where
  fills : String → Option (Batch NodeDataFill)
  orderStatuses : String → Option (Batch NodeDataOrderStatus)
  orderDiffs : String → Option (Batch NodeDataOrderDiff)

/-- Parse one line: the block's height, and its batch.  A line that is empty or
does not parse is an error, which is counted and nothing else. -/
def parseEventLine [LineParser] (line : String) : EventSource → Option (ℕ × EventBatch)
  | .fills => if line.isEmpty then none
    else (LineParser.fills line).map fun batch => (batch.blockNumber, .fills batch)
  | .orderStatuses => if line.isEmpty then none
    else (LineParser.orderStatuses line).map fun batch => (batch.blockNumber, .orders batch)
  | .orderDiffs => if line.isEmpty then none
    else (LineParser.orderDiffs line).map fun batch => (batch.blockNumber, .bookDiffs batch)

/-! ## The merge -/

/-- The two channels. -/
inductive Slot where
  | statuses
  | diffs
  deriving DecidableEq

/-- The other channel. -/
def Slot.other : Slot → Slot
  | .statuses => .diffs
  | .diffs => .statuses

/-- The stream of a channel. -/
def Slot.source : Slot → EventSource
  | .statuses => .orderStatuses
  | .diffs => .orderDiffs

/-- How far past the height last taken from the other stream a lone batch may be. -/
def mergeLookaheadBlocks : ℕ := 32

/-- How long a stream is waited for before it counts as dead, in milliseconds. -/
def mergeDeadWait : ℕ := 10000

/-- How many batches are handed out at a time. -/
def mergeTake : ℕ := 64

/-- A batch, its block's height and the stream it came from. -/
abbrev Taken := ℕ × EventBatch × EventSource

/-- Where the loop stands: not called, at its beginning, filling the place of a
channel, picking the next batch, or waiting, for one channel or for either. -/
inductive MergePhase where
  | idle
  | top
  | refill (i : Slot)
  | pick
  | waiting (waitingOn : Option Slot)
  deriving DecidableEq

/-- The merge. -/
structure LiveMerge where
  rx : Slot → List String
  closed : Slot → Bool
  floor : ℕ
  peek : Slot → Option (ℕ × EventBatch)
  seen : Slot → ℕ
  dead : Slot → Bool
  waitingSince : Option ℕ
  ready : List Taken
  phase : MergePhase

/-- What happens to the merge: a line arrives, a channel closes, a call begins, the
loop takes a turn, is woken by a line, runs into its deadline, or is given up. -/
inductive MergeOp where
  | arrive (i : Slot) (line : String)
  | close (i : Slot)
  | start
  | poll (now : ℕ)
  | wake (i : Slot)
  | timeout (now : ℕ)
  | cancel

/-- What the merge does with a line: it takes it off its channel, and it hands a
batch out. -/
inductive MergeEvent where
  | consumed (i : Slot) (line : String)
  | handed (taken : Taken)

variable [LineParser]

namespace LiveMerge

/-- A merge that has read nothing. -/
def new (rx : Slot → List String) (floor : ℕ) : LiveMerge where
  rx := rx
  closed := fun _ => false
  floor := floor
  peek := fun _ => none
  seen := fun _ => 0
  dead := fun _ => false
  waitingSince := none
  ready := []
  phase := .idle

/-- Take in a line: one that does not parse, or whose block is not above the floor,
is dropped. -/
def accept (m : LiveMerge) (i : Slot) (line : String) : LiveMerge :=
  let m := { m with dead := Function.update m.dead i false, waitingSince := none }
  match parseEventLine line i.source with
  | some parsed =>
    if parsed.1 ≤ m.floor then m
    else { m with peek := Function.update m.peek i (some parsed) }
  | none => m

/-- Whether a lone batch may be applied. -/
def loneOk (m : LiveMerge) (me : Slot) (h : ℕ) : Bool :=
  m.seen me.other = 0 || h ≤ wrap64 (m.seen me.other + mergeLookaheadBlocks) || m.dead me.other

/-- Which stream may be applied next: the lower of two batches, or a lone one that
may be applied. -/
def pick (m : LiveMerge) : Option Slot :=
  match m.peek .statuses, m.peek .diffs with
  | some (hs, _), some (hd, _) => some (if hs ≤ hd then .statuses else .diffs)
  | some (h, _), none => if m.loneOk .statuses h then some .statuses else none
  | none, some (h, _) => if m.loneOk .diffs h then some .diffs else none
  | none, none => none

/-- The channel a lone batch waits for. -/
def waitingOn (m : LiveMerge) : Option Slot :=
  match m.peek .statuses, m.peek .diffs with
  | some _, none => some .diffs
  | none, some _ => some .statuses
  | _, _ => none

/-- Hand out what is ready; the call returns. -/
def handOut (m : LiveMerge) : LiveMerge × List MergeEvent :=
  ({ m with ready := [], phase := .idle }, m.ready.map .handed)

/-- The phase after the place of a channel is filled, or there is nothing to fill
it with. -/
def afterRefill : Slot → MergePhase
  | .statuses => .refill .diffs
  | .diffs => .pick

/-- One turn of the loop.  A closed channel ends the server. -/
def poll (now : ℕ) (m : LiveMerge) : Option (LiveMerge × List MergeEvent) :=
  match m.phase with
  | .idle => none
  | .top =>
    if mergeTake ≤ m.ready.length then some m.handOut
    else some ({ m with phase := .refill .statuses }, [])
  | .refill i =>
    if (m.peek i).isSome then some ({ m with phase := afterRefill i }, [])
    else match m.rx i with
      | line :: rest =>
        some ({ m with rx := Function.update m.rx i rest }.accept i line, [.consumed i line])
      | [] => if m.closed i then none else some ({ m with phase := afterRefill i }, [])
  | .pick =>
    match m.pick with
    | some i =>
      match m.peek i with
      | none => some ({ m with phase := .top }, [])
      | some (h, b) =>
        some ({ m with
          peek := Function.update m.peek i none
          seen := Function.update m.seen i (max (m.seen i) h)
          ready := m.ready ++ [(h, b, i.source)]
          phase := .top }, [])
    | none =>
      if m.ready ≠ [] then some m.handOut
      else some ({ m with
        phase := .waiting m.waitingOn
        waitingSince := if m.waitingOn.isSome then some (m.waitingSince.getD now)
          else m.waitingSince }, [])
  | .waiting _ => none

/-- A line wakes the loop that waits for it. -/
def wake (m : LiveMerge) (i : Slot) : Option (LiveMerge × List MergeEvent) :=
  match m.phase with
  | .waiting on =>
    if on.all (· = i) then
      match m.rx i with
      | line :: rest =>
        some ({ m with rx := Function.update m.rx i rest, phase := .top }.accept i line,
          [.consumed i line])
      | [] => none
    else none
  | _ => none

/-- The channel waited for has been silent for too long. -/
def timeout (now : ℕ) (m : LiveMerge) : Option (LiveMerge × List MergeEvent) :=
  match m.phase, m.waitingSince with
  | .waiting (some i), some since =>
    if mergeDeadWait ≤ now - since then
      some ({ m with dead := Function.update m.dead i true, waitingSince := none, phase := .top },
        [])
    else none
  | _, _ => none

/-- One event; `none` when it cannot happen now, or ends the server. -/
def step (m : LiveMerge) : MergeOp → Option (LiveMerge × List MergeEvent)
  | .arrive i line =>
    if m.closed i then none
    else some ({ m with rx := Function.update m.rx i (m.rx i ++ [line]) }, [])
  | .close i => some ({ m with closed := Function.update m.closed i true }, [])
  | .start => match m.phase with
    | .idle => some ({ m with phase := .top }, [])
    | _ => none
  | .poll now => m.poll now
  | .wake i => m.wake i
  | .timeout now => m.timeout now
  | .cancel => match m.phase with
    | .waiting _ => some ({ m with phase := .idle }, [])
    | _ => none

/-! ## What became of the lines -/

/-- The batch of a line that is above the floor. -/
def keep (floor : ℕ) (i : Slot) (line : String) : Option (ℕ × EventBatch) :=
  (parseEventLine line i.source).filter fun parsed => floor < parsed.1

/-- The lines taken off a channel. -/
def consumedOf (i : Slot) (events : List MergeEvent) : List String :=
  events.filterMap fun
    | .consumed j line => if j = i then some line else none
    | .handed _ => none

/-- The batches of one stream among those taken. -/
def takenOf (i : Slot) (taken : List Taken) : List (ℕ × EventBatch) :=
  taken.filterMap fun t => if t.2.2 = i.source then some (t.1, t.2.1) else none

/-- The batches handed out. -/
def handedOut (events : List MergeEvent) : List Taken :=
  events.filterMap fun
    | .consumed _ _ => none
    | .handed taken => some taken

/-- The batches of a stream that were read and wait to be handed out. -/
def pendingOf (m : LiveMerge) (i : Slot) : List (ℕ × EventBatch) :=
  takenOf i m.ready ++ (m.peek i).toList

/-- A loop that waits for a channel has nothing in its place. -/
def Waits (m : LiveMerge) : Prop :=
  ∀ on, m.phase = .waiting on → ∀ i, on.all (· = i) = true → m.peek i = none

variable {m m' : LiveMerge} {op : MergeOp} {ops : List MergeOp} {said said' : List MergeEvent}

@[simp] theorem consumedOf_append (i : Slot) (said said' : List MergeEvent) :
    consumedOf i (said ++ said') = consumedOf i said ++ consumedOf i said' :=
  List.filterMap_append

@[simp] theorem handedOut_append (said said' : List MergeEvent) :
    handedOut (said ++ said') = handedOut said ++ handedOut said' := List.filterMap_append

@[simp] theorem takenOf_append (i : Slot) (taken taken' : List Taken) :
    takenOf i (taken ++ taken') = takenOf i taken ++ takenOf i taken' := List.filterMap_append

@[simp] theorem handedOut_handed (taken : List Taken) :
    handedOut (taken.map .handed) = taken := by
  simp [handedOut, List.filterMap_map]

@[simp] theorem consumedOf_handed (i : Slot) (taken : List Taken) :
    consumedOf i (taken.map .handed) = [] := by
  simp [consumedOf, List.filterMap_map]

theorem source_injective {i j : Slot} : i.source = j.source ↔ i = j := by
  cases i <;> cases j <;> simp [Slot.source]

theorem takenOf_singleton (i j : Slot) (h : ℕ) (b : EventBatch) :
    takenOf i [(h, b, j.source)] = if j = i then [(h, b)] else [] := by
  by_cases hji : j = i
  · simp [takenOf, hji]
  · simp [takenOf, hji, source_injective]

theorem accept_floor (m : LiveMerge) (i : Slot) (line : String) :
    (m.accept i line).floor = m.floor := by
  simp only [accept]
  split
  · split <;> rfl
  · rfl

theorem accept_phase (m : LiveMerge) (i : Slot) (line : String) :
    (m.accept i line).phase = m.phase := by
  simp only [accept]
  split
  · split <;> rfl
  · rfl

/-- **What taking in a line adds.** -/
theorem pendingOf_accept {i : Slot} (hpeek : m.peek i = none) (line : String) (j : Slot) :
    (m.accept i line).pendingOf j =
      m.pendingOf j ++ if i = j then (keep m.floor i line).toList else [] := by
  simp only [accept, keep]
  cases hparse : parseEventLine line i.source with
  | none => simp [pendingOf]
  | some parsed =>
    by_cases hfloor : parsed.1 ≤ m.floor
    · have : ¬ m.floor < parsed.1 := by omega
      simp [pendingOf, hfloor]
    · have : m.floor < parsed.1 := by omega
      by_cases hij : i = j
      · subst hij
        simp [pendingOf, hfloor, hpeek, Option.filter, this]
      · have hji : ¬ j = i := fun h => hij h.symm
        simp [pendingOf, hfloor, hij, Function.update_of_ne hji]

theorem consumedOf_singleton (i j : Slot) (line : String) :
    consumedOf i [.consumed j line] = if j = i then [line] else [] := by
  by_cases hji : j = i
  · simp [consumedOf, hji]
  · simp [consumedOf, hji]

/-- What one event does with the lines: it keeps the floor, and what it takes off a
channel and keeps is handed out or pending. -/
structure Accounts (m m' : LiveMerge) (said : List MergeEvent) : Prop where
  floor : m'.floor = m.floor
  waits : m'.Waits
  lines : ∀ i, m.pendingOf i ++ (consumedOf i said).filterMap (keep m.floor i) =
    takenOf i (handedOut said) ++ m'.pendingOf i

/-- An event that takes nothing off a channel and hands nothing out. -/
theorem Accounts.of_same (hfloor : m'.floor = m.floor) (hwaits : m'.Waits)
    (hready : m'.ready = m.ready) (hpeek : m'.peek = m.peek) : m.Accounts m' [] :=
  ⟨hfloor, hwaits, fun i => by simp [consumedOf, handedOut, takenOf, pendingOf, hready, hpeek]⟩

/-- Taking in a line. -/
theorem Accounts.accept {i : Slot} (hpeek : m.peek i = none) (rx : Slot → List String)
    {phase : MergePhase} (hphase : ∀ on, phase ≠ .waiting on) (line : String) :
    m.Accounts ({ m with rx := rx, phase := phase }.accept i line) [.consumed i line] where
  floor := accept_floor _ _ _
  waits on hon := absurd ((accept_phase _ _ _).symm.trans hon) (hphase on)
  lines j := by
    rw [pendingOf_accept (m := { m with rx := rx, phase := phase }) hpeek, consumedOf_singleton]
    by_cases hij : i = j
    · subst hij
      cases hk : keep m.floor i line <;> simp [handedOut, takenOf, pendingOf, hk]
    · simp [handedOut, takenOf, pendingOf, hij]

/-- Handing out what is ready. -/
theorem Accounts.handOut (m : LiveMerge) : m.Accounts m.handOut.1 m.handOut.2 where
  floor := rfl
  waits on hon := by cases hon
  lines i := by simp [LiveMerge.handOut, pendingOf, takenOf]

theorem waitingOn_none (m : LiveMerge) {i : Slot} (h : m.pick = none)
    (hi : m.waitingOn.all (· = i) = true) : m.peek i = none := by
  cases hs : m.peek .statuses with
  | some a =>
    cases hd : m.peek .diffs with
    | some b => simp [pick, hs, hd] at h
    | none =>
      cases i with
      | statuses => simp [waitingOn, hs, hd] at hi
      | diffs => exact hd
  | none =>
    cases hd : m.peek .diffs with
    | some b =>
      cases i with
      | statuses => exact hs
      | diffs => simp [waitingOn, hs, hd] at hi
    | none =>
      cases i with
      | statuses => exact hs
      | diffs => exact hd

theorem afterRefill_ne_waiting (i : Slot) (on : Option Slot) : afterRefill i ≠ .waiting on := by
  cases i <;> simp [afterRefill]

/-- **One turn of the loop loses no line.** -/
theorem poll_accounts {now : ℕ} (h : m.poll now = some (m', said)) : m.Accounts m' said := by
  have hnot : ∀ {phase : MergePhase} {m'' : LiveMerge}, (∀ on, phase ≠ .waiting on) →
      m''.phase = phase → m''.Waits := fun hp heq on hon => absurd (heq.symm.trans hon) (hp on)
  rw [poll] at h
  cases hphase : m.phase with
  | idle => simp [hphase] at h
  | waiting on => simp [hphase] at h
  | top =>
    simp only [hphase] at h
    split at h
    · cases h
      exact .handOut m
    · cases h
      exact .of_same rfl (hnot (by simp) rfl) rfl rfl
  | refill i =>
    simp only [hphase] at h
    split at h
    case isTrue =>
      cases h
      exact .of_same rfl (hnot (afterRefill_ne_waiting i) rfl) rfl rfl
    case isFalse hpeek =>
      cases hrx : m.rx i with
      | cons line rest =>
        simp only [hrx, Option.some.injEq, Prod.mk.injEq] at h
        obtain ⟨rfl, rfl⟩ := h
        have hplace : ∀ on, MergePhase.refill i ≠ .waiting on := by simp
        exact .accept (by simpa using hpeek) _ hplace line
      | nil =>
        simp only [hrx] at h
        split at h
        · cases h
        · cases h
          exact .of_same rfl (hnot (afterRefill_ne_waiting i) rfl) rfl rfl
  | pick =>
    simp only [hphase] at h
    cases hpick : m.pick with
    | some i =>
      cases hpeek : m.peek i with
      | none =>
        simp only [hpick, hpeek] at h
        cases h
        exact .of_same rfl (hnot (by simp) rfl) rfl rfl
      | some parsed =>
        obtain ⟨height, b⟩ := parsed
        simp only [hpick, hpeek] at h
        cases h
        refine ⟨rfl, hnot (by simp) rfl, fun j => ?_⟩
        by_cases hij : i = j
        · subst hij
          simp [consumedOf, handedOut, takenOf, pendingOf, hpeek]
        · have hji : ¬ j = i := fun h => hij h.symm
          simp [consumedOf, handedOut, takenOf, pendingOf, source_injective, hij, hji]
    | none =>
      simp only [hpick] at h
      split at h
      · cases h
        exact .handOut m
      · cases h
        refine .of_same rfl (fun on hon i hi => ?_) rfl rfl
        cases hon
        exact waitingOn_none m hpick hi

/-- **No event loses a line.** -/
theorem step_accounts (hwaits : m.Waits) (h : m.step op = some (m', said)) :
    m.Accounts m' said := by
  have hnot : ∀ {phase : MergePhase} {m'' : LiveMerge}, (∀ on, phase ≠ .waiting on) →
      m''.phase = phase → m''.Waits := fun hp heq on hon => absurd (heq.symm.trans hon) (hp on)
  cases op with
  | arrive i line =>
    simp only [step] at h
    split at h
    · cases h
    · cases h
      exact .of_same rfl hwaits rfl rfl
  | close i =>
    cases h
    exact .of_same rfl hwaits rfl rfl
  | start =>
    simp only [step] at h
    split at h
    · cases h
      exact .of_same rfl (hnot (by simp) rfl) rfl rfl
    · cases h
  | poll now => exact poll_accounts h
  | wake i =>
    simp only [step, wake] at h
    split at h
    case h_1 on hphase =>
      split at h
      case isTrue hon =>
        split at h
        · cases h
          exact .accept (hwaits on hphase i hon) _ (by simp) _
        · cases h
      case isFalse => cases h
    case h_2 => cases h
  | timeout now =>
    simp only [step, timeout] at h
    split at h
    · split at h
      · cases h
        exact .of_same rfl (hnot (by simp) rfl) rfl rfl
      · cases h
    · cases h
  | cancel =>
    simp only [step] at h
    split at h
    · cases h
      exact .of_same rfl (hnot (by simp) rfl) rfl rfl
    · cases h

theorem Accounts.trans {m'' : LiveMerge} (h : m.Accounts m' said) (h' : m'.Accounts m'' said') :
    m.Accounts m'' (said ++ said') where
  floor := h'.floor.trans h.floor
  waits := h'.waits
  lines i := by
    have h₁ := h.lines i
    have h₂ := h'.lines i
    rw [h.floor] at h₂
    rw [consumedOf_append, List.filterMap_append, ← List.append_assoc, h₁, List.append_assoc, h₂,
      handedOut_append, takenOf_append, List.append_assoc]

/-- **No run loses a line**: what was taken off a channel and is above the floor has
been handed out or is pending, in the order it came. -/
theorem run_accounts (hwaits : m.Waits) (h : runSteps step ops m = some (m', said)) :
    m.Accounts m' said := by
  induction ops generalizing m said with
  | nil =>
    cases h
    exact .of_same rfl hwaits rfl rfl
  | cons op ops ih =>
    obtain ⟨m₁, said₁, said₂, hstep, hrun, rfl⟩ := Runs.cons_eq_some.mp h
    have hfirst := step_accounts hwaits hstep
    exact hfirst.trans (ih hfirst.waits hrun)

/-- A turn takes a line off a channel or hands batches out, not both. -/
theorem handedOut_of_consumed (h : m.step op = some (m', said)) {i : Slot} {line : String}
    (hline : line ∈ consumedOf i said) : handedOut said = [] := by
  have hhand : ∀ m : LiveMerge, line ∉ consumedOf i m.handOut.2 := by
    intro m
    simp [handOut]
  cases op with
  | arrive j line' =>
    simp only [step] at h
    split at h <;> cases h
    simp [consumedOf] at hline
  | close j =>
    cases h
    simp [consumedOf] at hline
  | start =>
    simp only [step] at h
    split at h <;> cases h
    simp [consumedOf] at hline
  | wake j =>
    simp only [step, wake] at h
    split at h
    · split at h
      · split at h <;> cases h
        rfl
      · cases h
    · cases h
  | timeout now =>
    simp only [step, timeout] at h
    split at h
    · split at h <;> cases h
      simp [consumedOf] at hline
    · cases h
  | cancel =>
    simp only [step] at h
    split at h <;> cases h
    simp [consumedOf] at hline
  | poll now =>
    simp only [step, poll] at h
    split at h
    · cases h
    · split at h
      · cases h
        exact absurd hline (hhand m)
      · cases h
        simp [consumedOf] at hline
    · split at h
      · cases h
        simp [consumedOf] at hline
      · split at h
        · cases h
          rfl
        · split at h <;> cases h
          simp [consumedOf] at hline
    · split at h
      · split at h <;> cases h <;> simp [consumedOf] at hline
      · split at h
        · cases h
          exact absurd hline (hhand m)
        · cases h
          simp [consumedOf] at hline
    · cases h

end LiveMerge

end HlOrderbook
