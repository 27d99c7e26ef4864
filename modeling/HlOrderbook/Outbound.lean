import Mathlib.Algebra.GroupWithZero.Nat
import HlOrderbook.Lib.Runs
import HlOrderbook.Lib.Trail

/-!
# What a connection sends

The session of a connection puts its frames into two bounded queues, one for data and one for
pongs, and a writer sends them on the socket, one at a time and pongs first.  A session that
finds a queue full for too long, or the writer gone, gives the connection up.

## Main definitions

* `Outbound`, `Outbound.step` — the queues, the writer and the session's waiting send.
* `PongsFirst`, `Justified` — when a data frame is taken, and when a frame is refused.

## Main results

* `outbound_run` — what is written is what was accepted, in order and without gaps.
* `outbound_drains` — nothing that was accepted is lost when a session ends.
-/

set_option autoImplicit false
set_option linter.unusedSectionVars false

namespace HlOrderbook

/-- The two queues. -/
inductive Lane where
  | data
  | pong
  deriving DecidableEq

/-- How many frames wait in a queue at most. -/
def Lane.capacity : Lane → ℕ
  | .data => 128
  | .pong => 8

/-- How long a send may take, in milliseconds. -/
def wsSendTimeout : ℕ := 5000

/-- The writer: it is about to take a frame, sends one, closes the socket, or is gone. -/
inductive WriterPhase (F : Type) where
  | selecting
  | sending (lane : Lane) (frame : F) (since : ℕ)
  | closing
  | gone
  deriving DecidableEq

def WriterPhase.isGone {F : Type} : WriterPhase F → Bool
  | .gone => true
  | _ => false

/-- A connection's way out.  `held` says whether the session still has the queues, `alive`
whether all its sends went well, `waiting` is the send that waits for a place, and since when. -/
structure Outbound (F : Type) where
  queue : Lane → List F
  isOpen : Lane → Bool
  held : Bool
  alive : Bool
  waiting : Option (F × ℕ)
  writer : WriterPhase F
  now : ℕ

/-- What happens: time passes; the session sends, its waiting send finds a place or is given up,
it answers a ping, or it ends; the writer takes a frame, has sent it or fails to, has closed the
socket, or is aborted. -/
inductive OutboundOp (F : Type) where
  | elapse (ms : ℕ)
  | send (frame : F)
  | place
  | giveUp
  | ping
  | drop
  | select
  | sent
  | fail
  | closed
  | abort

/-- Time that passes is no step. -/
def OutboundOp.steps {F : Type} : OutboundOp F → ℕ
  | .elapse _ => 0
  | _ => 1

/-- What is told of a frame, and of the writer. -/
inductive OutboundEvent (F : Type) where
  | accepted (lane : Lane) (frame : F)
  | refused (lane : Lane) (now : ℕ)
  | took (lane : Lane) (frame : F) (now : ℕ)
  | wrote (lane : Lane) (frame : F)
  | broke
  | gone
  deriving DecidableEq

/-- What is told of the socket, which has no part in the queues. -/
def OutboundEvent.isOfSocket {F : Type} : OutboundEvent F → Bool
  | .wrote _ _ => true
  | .broke => true
  | .gone => true
  | _ => false

namespace Outbound

variable {F : Type}

/-- A new connection. -/
def new (now : ℕ) : Outbound F where
  queue := fun _ => []
  isOpen := fun _ => true
  held := true
  alive := true
  waiting := none
  writer := .selecting
  now := now

/-- Whether there is a place in a queue. -/
def hasRoom (s : Outbound F) (lane : Lane) : Bool := (s.queue lane).length < lane.capacity

/-- Put a frame into a queue. -/
def push (s : Outbound F) (lane : Lane) (frame : F) : Outbound F :=
  { s with queue := Function.update s.queue lane (s.queue lane ++ [frame]) }

/-- Whether the session is at a point where it can send. -/
def isFree (s : Outbound F) : Bool := s.held && s.alive && s.waiting.isNone

/-- What the writer gets from a queue: a frame, its end, or nothing yet. -/
def receive (s : Outbound F) (lane : Lane) : Option (Option F) :=
  if s.isOpen lane then
    match s.queue lane with
    | frame :: _ => some (some frame)
    | [] => if s.held then none else some none
  else none

/-- The writer takes what it got. -/
def take (s : Outbound F) (lane : Lane) : Option F → Outbound F × List (OutboundEvent F)
  | some frame =>
    ({ s with
      queue := Function.update s.queue lane (s.queue lane).tail
      writer := .sending lane frame s.now }, [.took lane frame s.now])
  | none => ({ s with isOpen := Function.update s.isOpen lane false }, [])

/-- One event; `none` when it cannot happen now. -/
def step (pongFrame : F) (s : Outbound F) :
    OutboundOp F → Option (Outbound F × List (OutboundEvent F))
  | .elapse ms => some ({ s with now := s.now + ms }, [])
  | .send frame =>
    if !s.isFree then none
    else if s.writer.isGone then some ({ s with alive := false }, [.refused .data s.now])
    else if s.hasRoom .data then some (s.push .data frame, [.accepted .data frame])
    else some ({ s with waiting := some (frame, s.now) }, [])
  | .place =>
    match s.waiting with
    | none => none
    | some (frame, _) =>
      if !s.writer.isGone && s.hasRoom .data then
        some ({ s.push .data frame with waiting := none }, [.accepted .data frame])
      else none
  | .giveUp =>
    match s.waiting with
    | none => none
    | some (_, since) =>
      if s.writer.isGone || !s.hasRoom .data && since + wsSendTimeout ≤ s.now then
        some ({ s with waiting := none, alive := false }, [.refused .data s.now])
      else none
  | .ping =>
    if !s.isFree then none
    else if !s.writer.isGone && s.hasRoom .pong then
      some (s.push .pong pongFrame, [.accepted .pong pongFrame])
    else some ({ s with alive := false }, [.refused .pong s.now])
  | .drop => if s.held && s.waiting.isNone then some ({ s with held := false }, []) else none
  | .select =>
    match s.writer with
    | .selecting =>
      if !s.isOpen .data && !s.isOpen .pong then some ({ s with writer := .closing }, [])
      -- pongs first
      else match s.receive .pong with
        | some got => some (s.take .pong got)
        | none => (s.receive .data).map (s.take .data)
    | _ => none
  | .sent =>
    match s.writer with
    | .sending lane frame _ => some ({ s with writer := .selecting }, [.wrote lane frame])
    | _ => none
  | .fail =>
    match s.writer with
    | .sending _ _ _ => some ({ s with writer := .closing }, [.broke])
    | _ => none
  | .closed =>
    match s.writer with
    | .closing => some ({ s with writer := .gone }, [.gone])
    | _ => none
  | .abort =>
    if !s.held && !s.writer.isGone then some ({ s with writer := .gone }, [.broke, .gone])
    else none

/-! ## What was told -/

section Told

/-- The frames that a queue accepted. -/
def acceptedOn (lane : Lane) (said : List (OutboundEvent F)) : List F :=
  said.filterMap fun
    | .accepted l frame => if l = lane then some frame else none
    | _ => none

/-- The frames that the writer took, with their queues. -/
def taken (said : List (OutboundEvent F)) : List (Lane × F) :=
  said.filterMap fun
    | .took lane frame _ => some (lane, frame)
    | _ => none

/-- The frames that the writer has written, with their queues. -/
def written (said : List (OutboundEvent F)) : List (Lane × F) :=
  said.filterMap fun
    | .wrote lane frame => some (lane, frame)
    | _ => none

/-- Those of one queue. -/
def onLane (lane : Lane) (frames : List (Lane × F)) : List F :=
  frames.filterMap fun x => if x.1 = lane then some x.2 else none

/-- A data frame is taken only when every pong that was accepted has been taken. -/
def PongsFirst (before : List (OutboundEvent F)) : OutboundEvent F → Prop
  | .took .data _ _ => onLane .pong (taken before) = acceptedOn .pong before
  | _ => True

/-- A frame is refused only when the writer is gone or the queue is full, the data queue for so
long that no frame was taken from it for as long as a send may wait. -/
def Justified (before : List (OutboundEvent F)) : OutboundEvent F → Prop
  | .refused lane now => .gone ∈ before ∨
      (acceptedOn lane before).length = (onLane lane (taken before)).length + lane.capacity ∧
        (lane = .data → ∀ frame t, .took .data frame t ∈ before → t + wsSendTimeout ≤ now)
  | _ => True

variable {said said' : List (OutboundEvent F)}

@[simp] theorem acceptedOn_append (lane : Lane) :
    acceptedOn lane (said ++ said') = acceptedOn lane said ++ acceptedOn lane said' :=
  List.filterMap_append

@[simp] theorem taken_append : taken (said ++ said') = taken said ++ taken said' :=
  List.filterMap_append

@[simp] theorem written_append : written (said ++ said') = written said ++ written said' :=
  List.filterMap_append

@[simp] theorem onLane_append (lane : Lane) (xs ys : List (Lane × F)) :
    onLane lane (xs ++ ys) = onLane lane xs ++ onLane lane ys := List.filterMap_append

end Told

variable {pongFrame : F} {s s' : Outbound F} {said said' : List (OutboundEvent F)}
  {op : OutboundOp F} {ops : List (OutboundOp F)}

/-- How the writer stands to what it took. -/
def Wire (said : List (OutboundEvent F)) : WriterPhase F → Prop
  | .selecting => taken said = written said
  | .sending lane frame _ => taken said = written said ++ [(lane, frame)]
  | _ => written said <+: taken said

/-- **Where a connection stands.** -/
structure Flows (said : List (OutboundEvent F)) (s : Outbound F) : Prop where
  bounded : ∀ lane, (s.queue lane).length ≤ lane.capacity
  lanes : ∀ lane, acceptedOn lane said = onLane lane (taken said) ++ s.queue lane
  wire : Wire said s.writer
  ended : ∀ lane, s.isOpen lane = false → s.held = false ∧ s.queue lane = []
  finished : .broke ∉ said → s.writer = .closing ∨ s.writer = .gone →
    taken said = written said ∧ ∀ lane, s.isOpen lane = false
  gone : s.writer.isGone = true → .gone ∈ said
  holds : s.waiting.isSome = true → s.held = true
  waits : ∀ frame since, s.waiting = some (frame, since) → s.hasRoom .data = false →
    ∀ f t, .took .data f t ∈ said → t ≤ since
  past : ∀ lane f t, .took lane f t ∈ said → t ≤ s.now
  pongsFirst : SaidAfter PongsFirst said
  justified : SaidAfter Justified said

theorem flows_new (now : ℕ) : Flows [] (new now : Outbound F) where
  bounded lane := Nat.zero_le _
  lanes lane := rfl
  wire := rfl
  ended lane h := by cases h
  finished _ h := by rcases h with h | h <;> cases h
  gone h := by cases h
  holds h := by cases h
  waits frame since h := by cases h
  past lane f t h := by cases h
  pongsFirst := .nil
  justified := .nil

theorem length_push (s : Outbound F) (lane lane' : Lane) (frame : F) :
    ((s.push lane frame).queue lane').length =
      (s.queue lane').length + if lane' = lane then 1 else 0 := by
  by_cases h : lane' = lane
  · subst h
    simp [push]
  · simp [push, h]

/-- Events that say nothing of a frame that was taken or written. -/
theorem wire_append (h : taken said' = [] ∧ written said' = []) (w : WriterPhase F) :
    Wire (said ++ said') w ↔ Wire said w := by
  cases w <;> simp [Wire, h.1, h.2]

/-- **A frame is accepted.** -/
theorem Flows.accept (h : Flows said s) {lane : Lane} {frame : F} (hroom : s.hasRoom lane = true)
    (hheld : s.held = true) :
    Flows (said ++ [.accepted lane frame]) { s.push lane frame with waiting := none } where
  bounded lane' := by
    have hbound := h.bounded lane'
    have hlen := length_push s lane lane' frame
    simp only [hasRoom, decide_eq_true_eq] at hroom
    by_cases heq : lane' = lane
    · subst heq
      simp only [if_true] at hlen
      simp only [hlen]
      omega
    · simp only [if_neg heq] at hlen
      simp only [hlen]
      omega
  lanes lane' := by
    have hlanes := h.lanes lane'
    by_cases heq : lane' = lane
    · subst heq
      simp [acceptedOn, taken, push] at hlanes ⊢
      rw [hlanes]
      simp
    · have hne : ¬ lane = lane' := fun h => heq h.symm
      simp [acceptedOn, taken, push, heq, hne] at hlanes ⊢
      exact hlanes
  wire := (wire_append ⟨rfl, rfl⟩ _).mpr h.wire
  ended lane' hclosed := by
    have := (h.ended lane' hclosed).1
    rw [hheld] at this
    cases this
  finished hbroke hend := by
    have hbroke' : .broke ∉ said := fun hmem => hbroke (List.mem_append_left _ hmem)
    obtain ⟨htaken, hclosed⟩ := h.finished hbroke' hend
    exact ⟨by simpa [taken, written] using htaken, hclosed⟩
  gone hgone := List.mem_append_left _ (h.gone hgone)
  holds hsome := by cases hsome
  waits frame since hwaiting := by cases hwaiting
  past lane' f t ht := by
    rcases List.mem_append.mp ht with ht | ht
    · exact h.past lane' f t ht
    · simp at ht
  pongsFirst := h.pongsFirst.append (.singleton trivial)
  justified := h.justified.append (.singleton trivial)

/-- **A frame is refused.** -/
theorem Flows.refuse (h : Flows said s) (lane : Lane)
    (hjust : Justified said (.refused lane s.now)) :
    Flows (said ++ [.refused lane s.now]) { s with waiting := none, alive := false } where
  bounded := h.bounded
  lanes lane' := by simpa [acceptedOn, taken] using h.lanes lane'
  wire := (wire_append ⟨rfl, rfl⟩ _).mpr h.wire
  ended := h.ended
  finished hbroke hend := by
    have hbroke' : .broke ∉ said := fun hmem => hbroke (List.mem_append_left _ hmem)
    obtain ⟨htaken, hclosed⟩ := h.finished hbroke' hend
    exact ⟨by simpa [taken, written] using htaken, hclosed⟩
  gone hgone := List.mem_append_left _ (h.gone hgone)
  holds hsome := by cases hsome
  waits frame since hwaiting := by cases hwaiting
  past lane' f t ht := by
    rcases List.mem_append.mp ht with ht | ht
    · exact h.past lane' f t ht
    · simp at ht
  pongsFirst := h.pongsFirst.append (.singleton trivial)
  justified := h.justified.append (.singleton (by rw [List.append_nil]; exact hjust))

/-- What is written was taken. -/
theorem Flows.partly (h : Flows said s) : written said <+: taken said := by
  have hwire := h.wire
  cases hwriter : s.writer with
  | selecting =>
    rw [hwriter, Wire] at hwire
    simp [hwire]
  | sending lane frame since =>
    rw [hwriter, Wire] at hwire
    simp [hwire]
  | closing =>
    rw [hwriter] at hwire
    exact hwire
  | gone =>
    rw [hwriter] at hwire
    exact hwire

/-- A full queue holds as many frames as it may. -/
theorem Flows.full (h : Flows said s) {lane : Lane} (hfull : s.hasRoom lane = false) :
    (acceptedOn lane said).length = (onLane lane (taken said)).length + lane.capacity := by
  have hbound := h.bounded lane
  simp only [hasRoom, decide_eq_false_iff_not] at hfull
  rw [h.lanes lane, List.length_append]
  omega

theorem receive_some {lane : Lane} {frame : F} (h : s.receive lane = some (some frame)) :
    s.isOpen lane = true ∧ ∃ rest, s.queue lane = frame :: rest := by
  simp only [receive, Option.ite_none_right_eq_some] at h
  obtain ⟨hopen, h⟩ := h
  refine ⟨hopen, ?_⟩
  split at h
  · next f rest hqueue =>
    simp only [Option.some.injEq] at h
    exact ⟨rest, by rw [hqueue, h]⟩
  · split at h <;> simp at h

theorem receive_end {lane : Lane} (h : s.receive lane = some none) :
    s.held = false ∧ s.queue lane = [] := by
  simp only [receive, Option.ite_none_right_eq_some] at h
  obtain ⟨hopen, h⟩ := h
  split at h
  · simp at h
  · next hqueue =>
    cases hheld : s.held with
    | true => simp [hheld] at h
    | false => exact ⟨rfl, hqueue⟩

/-- A queue that has nothing to give is empty. -/
theorem Flows.queue_of_receive (h : Flows said s) {lane : Lane} (hnone : s.receive lane = none) :
    s.queue lane = [] := by
  cases hopen : s.isOpen lane with
  | false => exact (h.ended lane hopen).2
  | true =>
    simp only [receive, hopen, if_true] at hnone
    split at hnone
    · cases hnone
    · assumption

/-- **The writer takes a frame.** -/
theorem Flows.takeFrame (h : Flows said s) (hwriter : s.writer = .selecting) {lane : Lane}
    {frame : F} (hgot : s.receive lane = some (some frame))
    (hfirst : lane = .data → s.receive .pong = none) :
    Flows (said ++ (s.take lane (some frame)).2) (s.take lane (some frame)).1 := by
  obtain ⟨hopen, rest, hqueue⟩ := receive_some hgot
  have hlen : ∀ lane', ((s.take lane (some frame)).1.queue lane').length ≤
      (s.queue lane').length := by
    intro lane'
    by_cases heq : lane' = lane
    · subst heq
      simp [Outbound.take]
    · simp [Outbound.take, heq]
  exact
    { bounded := fun lane' => (hlen lane').trans (h.bounded lane')
      lanes := fun lane' => by
        have hlanes := h.lanes lane'
        by_cases heq : lane' = lane
        · subst heq
          simp [Outbound.take, acceptedOn, taken, onLane, hqueue] at hlanes ⊢
          exact hlanes
        · have hne : ¬ lane = lane' := fun h => heq h.symm
          simp [Outbound.take, acceptedOn, taken, onLane, heq, hne] at hlanes ⊢
          exact hlanes
      wire := by
        have hwire := h.wire
        rw [hwriter] at hwire
        simp only [Wire, Outbound.take] at hwire ⊢
        simp [taken, written] at hwire ⊢
        exact hwire
      ended := fun lane' hclosed => by
        obtain ⟨hheld, hempty⟩ := h.ended lane' hclosed
        refine ⟨hheld, ?_⟩
        have := hlen lane'
        rw [hempty, List.length_nil, Nat.le_zero] at this
        exact List.length_eq_zero_iff.mp this
      finished := fun _ hend => by rcases hend with hend | hend <;> cases hend
      gone := fun hgone => by cases hgone
      holds := h.holds
      waits := fun f since hwaiting hfull f' t ht => by
        have hfull' : s.hasRoom .data = false := by
          have := hlen .data
          simp only [hasRoom, decide_eq_false_iff_not] at hfull ⊢
          omega
        rcases List.mem_append.mp ht with ht | ht
        · exact h.waits f since hwaiting hfull' f' t ht
        · -- a place became free
          simp only [Outbound.take, List.mem_singleton, OutboundEvent.took.injEq] at ht
          obtain ⟨rfl, -, -⟩ := ht
          have hbound := h.bounded .data
          simp only [hasRoom, decide_eq_false_iff_not, Outbound.take, Function.update_self, hqueue,
            List.tail_cons] at hfull
          rw [hqueue, List.length_cons] at hbound
          omega
      past := fun lane' f t ht => by
        rcases List.mem_append.mp ht with ht | ht
        · exact h.past lane' f t ht
        · simp only [Outbound.take, List.mem_singleton, OutboundEvent.took.injEq] at ht
          exact ht.2.2.le
      pongsFirst := by
        refine h.pongsFirst.append (.singleton ?_)
        rw [List.append_nil]
        cases lane with
        | pong => trivial
        | data =>
          have hlanes := h.lanes .pong
          rw [h.queue_of_receive (hfirst rfl), List.append_nil] at hlanes
          exact hlanes.symm
      justified := h.justified.append (.singleton trivial) }

/-- A queue has come to its end. -/
theorem Flows.takeEnd (h : Flows said s) (hwriter : s.writer = .selecting) {lane : Lane}
    (hgot : s.receive lane = some none) :
    Flows (said ++ (s.take lane none).2) (s.take lane none).1 := by
  obtain ⟨hheld, hempty⟩ := receive_end hgot
  rw [Outbound.take, List.append_nil]
  exact
    { bounded := h.bounded
      lanes := h.lanes
      wire := h.wire
      ended := fun lane' hclosed => by
        by_cases heq : lane' = lane
        · subst heq
          exact ⟨hheld, hempty⟩
        · simp only [Function.update_of_ne heq] at hclosed
          exact h.ended lane' hclosed
      finished := fun _ hend => by
        simp only [hwriter] at hend
        rcases hend with hend | hend <;> cases hend
      gone := h.gone
      holds := h.holds
      waits := h.waits
      past := h.past
      pongsFirst := h.pongsFirst
      justified := h.justified }

/-! ### The session -/

theorem isFree_eq_true (h : s.isFree = true) : s.held = true ∧ s.waiting = none := by
  simp only [isFree, Bool.and_eq_true, Option.isNone_iff_eq_none] at h
  exact ⟨h.1.1, h.2⟩

/-- A send that does not wait is over at once. -/
theorem push_of_waiting (h : s.waiting = none) (lane : Lane) (frame : F) :
    s.push lane frame = { s.push lane frame with waiting := none } := by
  simp [push, h]

/-- A send that finds the queue full begins to wait. -/
theorem Flows.wait (h : Flows said s) (hheld : s.held = true) (frame : F) :
    Flows said { s with waiting := some (frame, s.now) } :=
  { h with
    holds := fun _ => hheld
    waits := fun f since hsome _ f' t ht => by
      simp only [Option.some.injEq, Prod.mk.injEq] at hsome
      rw [← hsome.2]
      exact h.past .data f' t ht }

theorem Flows.send (h : Flows said s) {frame : F}
    (hstep : s.step pongFrame (.send frame) = some (s', said')) : Flows (said ++ said') s' := by
  simp only [Outbound.step, Bool.not_eq_true', Option.ite_none_left_eq_some, Bool.not_eq_false]
    at hstep
  obtain ⟨hfree, hstep⟩ := hstep
  obtain ⟨hheld, hwaiting⟩ := isFree_eq_true hfree
  split at hstep
  · next hgone =>
    cases hstep
    have hrefuse := h.refuse .data (Or.inl (h.gone hgone))
    simpa [hwaiting] using hrefuse
  · split at hstep
    · next hroom =>
      cases hstep
      rw [push_of_waiting hwaiting]
      exact h.accept hroom hheld
    · cases hstep
      rw [List.append_nil]
      exact h.wait hheld frame

theorem Flows.place (h : Flows said s) (hstep : s.step pongFrame .place = some (s', said')) :
    Flows (said ++ said') s' := by
  simp only [Outbound.step] at hstep
  split at hstep
  · cases hstep
  · next frame since hwaiting =>
    obtain ⟨hcond, hstep⟩ := Option.ite_none_right_eq_some.mp hstep
    cases hstep
    rw [Bool.and_eq_true] at hcond
    exact h.accept hcond.2 (h.holds (by rw [hwaiting]; rfl))

theorem Flows.giveUp (h : Flows said s) (hstep : s.step pongFrame .giveUp = some (s', said')) :
    Flows (said ++ said') s' := by
  simp only [Outbound.step] at hstep
  split at hstep
  · cases hstep
  · next frame since hwaiting =>
    obtain ⟨hcond, hstep⟩ := Option.ite_none_right_eq_some.mp hstep
    cases hstep
    refine h.refuse .data ?_
    rw [Bool.or_eq_true] at hcond
    rcases hcond with hgone | hlate
    · exact Or.inl (h.gone hgone)
    · simp only [Bool.and_eq_true, Bool.not_eq_true', decide_eq_true_eq] at hlate
      refine Or.inr ⟨h.full hlate.1, fun _ f t ht => ?_⟩
      have := h.waits frame since hwaiting hlate.1 f t ht
      omega

theorem Flows.ping (h : Flows said s) (hstep : s.step pongFrame .ping = some (s', said')) :
    Flows (said ++ said') s' := by
  simp only [Outbound.step, Bool.not_eq_true', Option.ite_none_left_eq_some, Bool.not_eq_false]
    at hstep
  obtain ⟨hfree, hstep⟩ := hstep
  obtain ⟨hheld, hwaiting⟩ := isFree_eq_true hfree
  split at hstep
  · next hcond =>
    cases hstep
    rw [Bool.and_eq_true] at hcond
    rw [push_of_waiting hwaiting]
    exact h.accept hcond.2 hheld
  · next hcond =>
    cases hstep
    have hjust : Justified said (.refused .pong s.now) := by
      cases hgone : s.writer.isGone with
      | true => exact Or.inl (h.gone hgone)
      | false =>
        rw [hgone, Bool.not_false, Bool.true_and, Bool.not_eq_true] at hcond
        exact Or.inr ⟨h.full hcond, fun hlane => by cases hlane⟩
    simpa [hwaiting] using h.refuse .pong hjust

theorem Flows.drop (h : Flows said s) (hstep : s.step pongFrame .drop = some (s', said')) :
    Flows (said ++ said') s' := by
  obtain ⟨hcond, hstep⟩ := Option.ite_none_right_eq_some.mp hstep
  cases hstep
  rw [Bool.and_eq_true, Option.isNone_iff_eq_none] at hcond
  rw [List.append_nil]
  exact { h with
    ended := fun lane hclosed => ⟨rfl, (h.ended lane hclosed).2⟩
    holds := fun hsome => by
      simp only [hcond.2] at hsome
      cases hsome }

/-! ### The writer -/

theorem acceptedOn_of_isOfSocket (h : ∀ e ∈ said', e.isOfSocket = true) (lane : Lane) :
    acceptedOn lane said' = [] := by
  refine List.filterMap_eq_nil_iff.mpr fun e he => ?_
  cases e with
  | accepted lane' frame => cases h _ he
  | _ => rfl

theorem taken_of_isOfSocket (h : ∀ e ∈ said', e.isOfSocket = true) : taken said' = [] := by
  refine List.filterMap_eq_nil_iff.mpr fun e he => ?_
  cases e with
  | took lane frame t => cases h _ he
  | _ => rfl

/-- **The writer goes on**, and what is told is of the socket. -/
theorem Flows.goOn (h : Flows said s) {w : WriterPhase F}
    (hsocket : ∀ e ∈ said', e.isOfSocket = true) (hwire : Wire (said ++ said') w)
    (hfinished : .broke ∉ said ++ said' → w = .closing ∨ w = .gone →
      taken said = written (said ++ said') ∧ ∀ lane, s.isOpen lane = false)
    (hgone : w.isGone = true → .gone ∈ said ++ said') :
    Flows (said ++ said') { s with writer := w } where
  bounded := h.bounded
  lanes lane := by
    rw [acceptedOn_append, taken_append, acceptedOn_of_isOfSocket hsocket,
      taken_of_isOfSocket hsocket, List.append_nil, List.append_nil]
    exact h.lanes lane
  wire := hwire
  ended := h.ended
  finished hbroke hend := by
    rw [taken_append, taken_of_isOfSocket hsocket, List.append_nil]
    exact hfinished hbroke hend
  gone := hgone
  holds := h.holds
  waits f since hwaiting hfull f' t ht := by
    refine h.waits f since hwaiting hfull f' t ((List.mem_append.mp ht).resolve_right fun hmem => ?_)
    cases hsocket _ hmem
  past lane f t ht := by
    refine h.past lane f t ((List.mem_append.mp ht).resolve_right fun hmem => ?_)
    cases hsocket _ hmem
  pongsFirst := by
    refine h.pongsFirst.append (.of_forall fun e he before => ?_)
    cases e with
    | took lane frame t => cases hsocket _ he
    | _ => trivial
  justified := by
    refine h.justified.append (.of_forall fun e he before => ?_)
    cases e with
    | refused lane now => cases hsocket _ he
    | _ => trivial

/-- Both queues have come to their end. -/
theorem Flows.finish (h : Flows said s) (hwriter : s.writer = .selecting)
    (hclosed : ∀ lane, s.isOpen lane = false) : Flows said { s with writer := .closing } := by
  have hwire := h.wire
  rw [hwriter] at hwire
  have hpartly : Wire (said ++ []) (.closing : WriterPhase F) := by
    rw [List.append_nil]
    exact h.partly
  have hgoes := h.goOn (by simp) hpartly
    (fun _ _ => ⟨by rw [List.append_nil]; exact hwire, hclosed⟩) (fun hgone => by cases hgone)
  rwa [List.append_nil] at hgoes

theorem Flows.select (h : Flows said s) (hstep : s.step pongFrame .select = some (s', said')) :
    Flows (said ++ said') s' := by
  simp only [Outbound.step] at hstep
  split at hstep
  · next hwriter =>
    split at hstep
    · next hclosed =>
      simp only [Bool.and_eq_true, Bool.not_eq_true'] at hclosed
      cases hstep
      rw [List.append_nil]
      refine h.finish hwriter fun lane => ?_
      cases lane with
      | data => exact hclosed.1
      | pong => exact hclosed.2
    · split at hstep
      · next got hgot =>
        have heq := Option.some.inj hstep
        rw [show s' = (s.take .pong got).1 by rw [heq],
          show said' = (s.take .pong got).2 by rw [heq]]
        cases got with
        | none => exact h.takeEnd hwriter hgot
        | some frame => exact h.takeFrame hwriter hgot fun hlane => by cases hlane
      · next hpong =>
        obtain ⟨got, hgot, heq⟩ := Option.map_eq_some_iff.mp hstep
        rw [show s' = (s.take .data got).1 by rw [heq],
          show said' = (s.take .data got).2 by rw [heq]]
        cases got with
        | none => exact h.takeEnd hwriter hgot
        | some frame => exact h.takeFrame hwriter hgot fun _ => hpong
  · cases hstep

theorem Flows.sent (h : Flows said s) (hstep : s.step pongFrame .sent = some (s', said')) :
    Flows (said ++ said') s' := by
  simp only [Outbound.step] at hstep
  split at hstep
  · next lane frame since hwriter =>
    cases hstep
    have hwire := h.wire
    rw [hwriter] at hwire
    refine h.goOn (by simp [OutboundEvent.isOfSocket]) ?_ (fun _ hend => ?_) fun hgone => by
      cases hgone
    · simp only [Wire] at hwire ⊢
      simpa [taken, written] using hwire
    · rcases hend with hend | hend <;> cases hend
  · cases hstep

theorem Flows.fail (h : Flows said s) (hstep : s.step pongFrame .fail = some (s', said')) :
    Flows (said ++ said') s' := by
  simp only [Outbound.step] at hstep
  split at hstep
  · cases hstep
    have hpartly : Wire said (.closing : WriterPhase F) := h.partly
    refine h.goOn (by simp [OutboundEvent.isOfSocket]) ((wire_append ⟨rfl, rfl⟩ _).mpr hpartly)
      (fun hbroke _ => ?_) fun hgone => by cases hgone
    exact absurd (List.mem_append_right _ List.mem_cons_self) hbroke
  · cases hstep

theorem Flows.closed (h : Flows said s) (hstep : s.step pongFrame .closed = some (s', said')) :
    Flows (said ++ said') s' := by
  simp only [Outbound.step] at hstep
  split at hstep
  · next hwriter =>
    cases hstep
    have hpartly : Wire said (.gone : WriterPhase F) := h.partly
    refine h.goOn (by simp [OutboundEvent.isOfSocket]) ((wire_append ⟨rfl, rfl⟩ _).mpr hpartly)
      (fun hbroke _ => ?_) fun _ => List.mem_append_right _ List.mem_cons_self
    have hbroke' : .broke ∉ said := fun hmem => hbroke (List.mem_append_left _ hmem)
    obtain ⟨htaken, hclosed⟩ := h.finished hbroke' (Or.inl hwriter)
    exact ⟨by simpa [written] using htaken, hclosed⟩
  · cases hstep

theorem Flows.abort (h : Flows said s) (hstep : s.step pongFrame .abort = some (s', said')) :
    Flows (said ++ said') s' := by
  obtain ⟨hcond, hstep⟩ := Option.ite_none_right_eq_some.mp hstep
  cases hstep
  have hpartly : Wire said (.gone : WriterPhase F) := h.partly
  refine h.goOn (by simp [OutboundEvent.isOfSocket]) ((wire_append ⟨rfl, rfl⟩ _).mpr hpartly)
    (fun hbroke _ => ?_) fun _ => List.mem_append_right _ (by simp)
  exact absurd (List.mem_append_right _ List.mem_cons_self) hbroke

/-- **Every event keeps the invariant.** -/
theorem Flows.step (h : Flows said s) (hstep : s.step pongFrame op = some (s', said')) :
    Flows (said ++ said') s' := by
  cases op with
  | elapse ms =>
    cases hstep
    rw [List.append_nil]
    exact { h with past := fun lane f t ht => (h.past lane f t ht).trans (Nat.le_add_right _ _) }
  | send frame => exact h.send hstep
  | place => exact h.place hstep
  | giveUp => exact h.giveUp hstep
  | ping => exact h.ping hstep
  | drop => exact h.drop hstep
  | select => exact h.select hstep
  | sent => exact h.sent hstep
  | fail => exact h.fail hstep
  | closed => exact h.closed hstep
  | abort => exact h.abort hstep

theorem flows_run {now : ℕ} (hrun : runSteps (step pongFrame) ops (new now) = some (s, said)) :
    Flows said s := by
  refine Runs.along (P := fun _ said s => Flows said s) ?_ (flows_new now) hrun
  intro _ s₁ said₁ op s₂ said₂ _ h hstep
  exact h.step hstep

/-- **What a connection sends**: no queue overflows; what is written of a queue was accepted by
it, in its order and without a gap, and it is all that was accepted if the writer went without
an error; a data frame is taken only when no pong waits; and a frame is refused only when the
writer is gone or its queue is full. -/
theorem outbound_run {now : ℕ} (hrun : runSteps (step pongFrame) ops (new now) = some (s, said)) :
    (∀ lane, (s.queue lane).length ≤ lane.capacity) ∧
      (∀ lane, onLane lane (written said) <+: acceptedOn lane said) ∧
      (.broke ∉ said → s.writer = .gone →
        ∀ lane, onLane lane (written said) = acceptedOn lane said) ∧
      SaidAfter PongsFirst said ∧ SaidAfter Justified said := by
  have h := flows_run hrun
  refine ⟨h.bounded, fun lane => ?_, fun hbroke hgone lane => ?_, h.pongsFirst, h.justified⟩
  · rw [h.lanes lane]
    exact (h.partly.filterMap _).trans (List.prefix_append _ _)
  · obtain ⟨htaken, hclosed⟩ := h.finished hbroke (Or.inr hgone)
    rw [h.lanes lane, htaken, (h.ended lane (hclosed lane)).2, List.append_nil]

/-! ## The writer comes to its end -/

/-- What the writer does next when no send fails. -/
def writes : WriterPhase F → OutboundOp F
  | .selecting => .select
  | .sending _ _ _ => .sent
  | .closing => .closed
  | .gone => .elapse 0

/-- How many of its steps the writer is from its end once the session is over. -/
def remaining (s : Outbound F) : ℕ :=
  match s.writer with
  | .selecting => 2 * ((s.queue .data).length + (s.queue .pong).length) +
      (s.isOpen .data).toNat + (s.isOpen .pong).toNat + 2
  | .sending _ _ _ => 2 * ((s.queue .data).length + (s.queue .pong).length) +
      (s.isOpen .data).toNat + (s.isOpen .pong).toNat + 3
  | .closing => 1
  | .gone => 0

theorem Flows.remaining_le (h : Flows said s) : s.remaining ≤ 277 := by
  have hdata : (s.queue .data).length ≤ 128 := h.bounded .data
  have hpong : (s.queue .pong).length ≤ 8 := h.bounded .pong
  have hopen : ∀ lane, (s.isOpen lane).toNat ≤ 1 := fun lane => Bool.toNat_le _
  have hopenData := hopen .data
  have hopenPong := hopen .pong
  rw [remaining]
  split <;> omega

theorem remaining_takeFrame (hwriter : s.writer = .selecting) {lane : Lane} {frame : F}
    (hgot : s.receive lane = some (some frame)) :
    (s.take lane (some frame)).1.remaining + 1 = s.remaining := by
  obtain ⟨hopen, rest, hqueue⟩ := receive_some hgot
  cases lane with
  | data =>
    simp [remaining, Outbound.take, hwriter, hqueue]
    omega
  | pong =>
    simp [remaining, Outbound.take, hwriter, hqueue]
    omega

theorem remaining_takeEnd (hwriter : s.writer = .selecting) {lane : Lane}
    (hgot : s.receive lane = some none) :
    (s.take lane none).1.remaining + 1 = s.remaining := by
  have hopen : s.isOpen lane = true := by
    simp only [receive, Option.ite_none_right_eq_some] at hgot
    exact hgot.1
  cases lane with
  | data =>
    simp [remaining, Outbound.take, hwriter, hopen]
    omega
  | pong => simp [remaining, Outbound.take, hwriter, hopen]

/-- **Once the session is over each event brings the writer one step closer to its end**, if it
is not time that passes or an error. -/
theorem Flows.remaining_step (h : Flows said s) (hheld : s.held = false)
    (hstep : s.step pongFrame op = some (s', said')) (hbroke : .broke ∉ said') :
    s'.held = false ∧ s'.remaining + op.steps = s.remaining := by
  have hwaiting : s.waiting = none := by
    cases hwaiting : s.waiting with
    | none => rfl
    | some x => exact absurd (h.holds (by rw [hwaiting]; rfl)) (by simp [hheld])
  cases op with
  | elapse ms =>
    cases hstep
    exact ⟨hheld, rfl⟩
  | send frame => simp [Outbound.step, isFree, hheld] at hstep
  | place => simp [Outbound.step, hwaiting] at hstep
  | giveUp => simp [Outbound.step, hwaiting] at hstep
  | ping => simp [Outbound.step, isFree, hheld] at hstep
  | drop => simp [Outbound.step, hheld] at hstep
  | select =>
    simp only [Outbound.step] at hstep
    split at hstep
    · next hwriter =>
      split at hstep
      · next hclosed =>
        simp only [Bool.and_eq_true, Bool.not_eq_true'] at hclosed
        cases hstep
        refine ⟨hheld, ?_⟩
        have hdata := (h.ended .data hclosed.1).2
        have hpong := (h.ended .pong hclosed.2).2
        simp [remaining, hwriter, hclosed.1, hclosed.2, hdata, hpong, OutboundOp.steps]
      · split at hstep
        · next got hgot =>
          have heq := Option.some.inj hstep
          rw [show s' = (s.take .pong got).1 by rw [heq]]
          cases got with
          | none => exact ⟨hheld, remaining_takeEnd hwriter hgot⟩
          | some frame => exact ⟨hheld, remaining_takeFrame hwriter hgot⟩
        · obtain ⟨got, hgot, heq⟩ := Option.map_eq_some_iff.mp hstep
          rw [show s' = (s.take .data got).1 by rw [heq]]
          cases got with
          | none => exact ⟨hheld, remaining_takeEnd hwriter hgot⟩
          | some frame => exact ⟨hheld, remaining_takeFrame hwriter hgot⟩
    · cases hstep
  | sent =>
    simp only [Outbound.step] at hstep
    split at hstep
    · next lane frame since hwriter =>
      cases hstep
      exact ⟨hheld, by simp [remaining, hwriter, OutboundOp.steps]⟩
    · cases hstep
  | fail =>
    simp only [Outbound.step] at hstep
    split at hstep
    · cases hstep
      exact absurd List.mem_cons_self hbroke
    · cases hstep
  | closed =>
    simp only [Outbound.step] at hstep
    split at hstep
    · next hwriter =>
      cases hstep
      exact ⟨hheld, by simp [remaining, hwriter, OutboundOp.steps]⟩
    · cases hstep
  | abort =>
    obtain ⟨-, hstep⟩ := Option.ite_none_right_eq_some.mp hstep
    cases hstep
    exact absurd List.mem_cons_self hbroke

/-- The writer never waits once the session is over. -/
theorem writes_isSome (hheld : s.held = false) :
    (s.step pongFrame (writes s.writer)).isSome = true := by
  cases hwriter : s.writer with
  | selecting =>
    simp only [writes, Outbound.step, hwriter]
    split
    · rfl
    · next hopen =>
      have hreceive : ∀ lane, s.isOpen lane = true → (s.receive lane).isSome = true := by
        intro lane hopen
        simp only [receive, hopen, hheld, if_true]
        split <;> simp
      split
      · rfl
      · next hpong =>
        rw [Option.isSome_map]
        apply hreceive
        by_contra hdata
        rw [Bool.not_eq_true] at hdata
        have hpongOpen : s.isOpen .pong = true := by simpa [hdata] using hopen
        have := hreceive .pong hpongOpen
        rw [hpong] at this
        cases this
  | sending lane frame since => simp [writes, Outbound.step, hwriter]
  | closing => simp [writes, Outbound.step, hwriter]
  | gone => rfl

/-- **Nothing that was accepted is lost when a session ends**: if no send fails from there on,
the writer always has a next step, and it comes to its end after as many steps as remain to
it, of which there are never more than 277; if none failed before either, it has written then
all that was accepted. -/
theorem outbound_drains {now : ℕ} {s₀ : Outbound F} {ops' : List (OutboundOp F)}
    (hrun : runSteps (step pongFrame) ops (new now) = some (s₀, said)) (hheld : s₀.held = false)
    (hrest : runSteps (step pongFrame) ops' s₀ = some (s, said'))
    (hbroke : .broke ∉ said') :
    (s.step pongFrame (writes s.writer)).isSome = true ∧
      s.remaining + (ops'.map OutboundOp.steps).sum = s₀.remaining ∧ s₀.remaining ≤ 277 ∧
      (.broke ∉ said → s.remaining = 0 →
        ∀ lane, onLane lane (written (said ++ said')) = acceptedOn lane (said ++ said')) := by
  have h₀ := flows_run hrun
  have hleft : .broke ∉ said' → Flows (said ++ said') s ∧ s.held = false ∧
      s.remaining + (ops'.map OutboundOp.steps).sum = s₀.remaining := by
    refine Runs.along (P := fun ops' said' s => .broke ∉ said' → Flows (said ++ said') s ∧
      s.held = false ∧ s.remaining + (ops'.map OutboundOp.steps).sum = s₀.remaining) ?_ ?_ hrest
    · intro ops₁ s₁ said₁ op s₂ said₂ _ ih hstep hbroke
      obtain ⟨h₁, hheld₁, hleft₁⟩ := ih fun h => hbroke (List.mem_append_left _ h)
      obtain ⟨hheld₂, hstep₂⟩ := h₁.remaining_step hheld₁ hstep
        fun h => hbroke (List.mem_append_right _ h)
      refine ⟨by simpa using h₁.step hstep, hheld₂, ?_⟩
      rw [List.map_append, List.sum_append, List.map_singleton, List.sum_singleton]
      omega
    · intro _
      exact ⟨by simpa using h₀, hheld, rfl⟩
  obtain ⟨h, hheld', hleft⟩ := hleft hbroke
  refine ⟨writes_isSome hheld', hleft, h₀.remaining_le, fun hearlier hzero => ?_⟩
  have hnever : .broke ∉ said ++ said' := by
    rw [List.mem_append, not_or]
    exact ⟨hearlier, hbroke⟩
  have hgone : s.writer = .gone := by
    cases hwriter : s.writer with
    | gone => rfl
    | _ => simp [remaining, hwriter] at hzero
  obtain ⟨htaken, hclosed⟩ := h.finished hnever (Or.inr hgone)
  intro lane
  rw [h.lanes lane, htaken, (h.ended lane (hclosed lane)).2, List.append_nil]

end Outbound

end HlOrderbook

namespace HlOrderbook

section Example

namespace Outbound

/-- A ping is answered between two frames, and the session ends. -/
private def pinged : List (OutboundOp ℕ) := [.send 1, .ping, .select, .send 2, .drop]

/-- The writer sends what is left. -/
private def emptied : List (OutboundOp ℕ) :=
  [.sent, .select, .select, .sent, .select, .sent, .select, .select, .closed]

theorem outbound_run_ping : ∃ s said,
    runSteps (step 0) (pinged ++ emptied) (new 0) = some (s, said) ∧
      written said = [(.pong, 0), (.data, 1), (.data, 2)] ∧
      onLane .data (written said) = acceptedOn .data said ∧
      SaidAfter PongsFirst said ∧ SaidAfter Justified said := by
  obtain ⟨s, said, hrun, hend⟩ := Runs.exists_of_map
    (a := ([(Lane.pong, 0), (.data, 1), (.data, 2)], true, true))
    (f := fun r : Outbound ℕ × List (OutboundEvent ℕ) =>
      (written r.2, decide (.broke ∉ r.2), decide (r.1.writer = .gone))) (by decide +kernel :
        (runSteps (step 0) (pinged ++ emptied) (new 0)).map _ = _)
  simp only [Prod.mk.injEq, decide_eq_true_eq] at hend
  have h := outbound_run hrun
  exact ⟨s, said, hrun, hend.1, h.2.2.1 hend.2.1 hend.2.2 .data, h.2.2.2⟩

theorem outbound_drains_ping : ∃ s₀ s said said',
    runSteps (step 0) pinged (new 0) = some (s₀, said) ∧
      runSteps (step 0) emptied s₀ = some (s, said') ∧ s₀.remaining = 9 ∧ s.remaining = 0 ∧
      onLane .data (written (said ++ said')) = acceptedOn .data (said ++ said') := by
  obtain ⟨s, said, hrun, hend⟩ := Runs.exists_of_map (a := (true, 0))
    (f := fun r : Outbound ℕ × List (OutboundEvent ℕ) =>
      (decide (.broke ∉ r.2), r.1.remaining)) (by decide +kernel :
        (runSteps (step 0) (pinged ++ emptied) (new 0)).map _ = _)
  simp only [Prod.mk.injEq, decide_eq_true_eq] at hend
  obtain ⟨s₀, said₁, said₂, hpinged, hemptied, rfl⟩ := Runs.append_eq_some.mp hrun
  obtain ⟨s₁, said₃, hsession, hheld⟩ := Runs.exists_of_map (a := false)
    (f := fun r : Outbound ℕ × List (OutboundEvent ℕ) => r.1.held) (by decide +kernel :
        (runSteps (step 0) pinged (new 0)).map _ = _)
  rw [hpinged] at hsession
  cases hsession
  rw [List.mem_append, not_or] at hend
  have h := outbound_drains hpinged hheld hemptied hend.1.2
  rw [hend.2] at h
  exact ⟨s₀, s, said₁, said₂, hpinged, hemptied, h.2.1.symm, hend.2, h.2.2.2 hend.1.1 rfl .data⟩

end Outbound

end Example

end HlOrderbook
