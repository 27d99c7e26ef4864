import HlOrderbook.Lib.Trail
import HlOrderbook.L2Feed

/-!
# Whether a client sees that it missed a frame

Every difference names the height of the frame sent before it.  A client that
missed frames compares that with the height of the last frame it has.  The two
differ unless the last frame it missed and the last it has were made at one height,
which they can be: a block is applied over several sends.

## Main definitions

* `diffFrames` — the frames of the channel of differences.
* `DetectsGaps` — a client sees that it missed frames.
* `HeightsApart` — which frames were made at different heights.
-/

set_option autoImplicit false
set_option linter.unusedSectionVars false

namespace HlOrderbook

/-- The height a frame names as its own. -/
def L2Diff.height : L2Diff → ℕ
  | .snapshot _ _ height _ _ _ _ => height
  | .updates u => u.height

/-- A frame of the channel of differences, with the message it was made of. -/
abbrev DiffFrame := L2Broadcast × L2Diff

/-- The frames of the channel of differences. -/
def diffFrames (said : List L2Event) : List DiffFrame :=
  said.filterMap fun
    | .diff m frame => some (m, frame)
    | _ => none

/-- Whatever frames between a frame and a difference a client misses, the difference
does not name the height of the frame it has. -/
def DetectsGaps (frames : List DiffFrame) : Prop :=
  ∀ (before : List DiffFrame) (last : DiffFrame) (missed : List DiffFrame) (m : L2Broadcast)
    (u : L2DiffUpdates) (after : List DiffFrame),
    frames = before ++ last :: missed ++ (m, .updates u) :: after → missed ≠ [] →
      u.prevHeight ≠ last.2.height

/-- No message that a frame was made of is at the height of an earlier one, where a
difference comes next. -/
def HeightsApart (frames : List DiffFrame) : Prop :=
  ∀ (before : List DiffFrame) (x : DiffFrame) (between : List DiffFrame) (y : DiffFrame)
    (m : L2Broadcast) (u : L2DiffUpdates) (after : List DiffFrame),
    frames = before ++ x :: between ++ y :: (m, .updates u) :: after → x.1.height ≠ y.1.height

/-! ## What the frames name -/

/-- A connection notes the height of the last frame it sent. -/
def NotesFrame (noted : Option (Option ℕ)) (x : DiffFrame) : Prop := noted.join = some x.1.height

/-- A difference names the height of the frame before it. -/
def Follows (x y : DiffFrame) : Prop := ∀ u, y.2 = .updates u → u.prevHeight = x.1.height

/-- What is known of the frames sent so far. -/
structure Continues (noted : Option (Option ℕ)) (frames : List DiffFrame) : Prop where
  trail : Trail NotesFrame Follows noted frames
  heights : ∀ x ∈ frames, x.2.height = x.1.height

theorem diffFrames_append (said said' : List L2Event) :
    diffFrames (said ++ said') = diffFrames said ++ diffFrames said' := List.filterMap_append

/-- The note is the same, but for a subscription that begins. -/
theorem Continues.of_same {noted noted' : Option (Option ℕ)} {frames : List DiffFrame}
    (h : Continues noted frames) (hsame : noted'.join = noted.join) : Continues noted' frames :=
  ⟨h.trail.mono fun _ hx => hsame.trans hx, h.heights⟩

section Step

variable [SlabPolicy] [FixedPoint] [LevelHash]

/-- **A frame of the channel of differences** carries its message's height, and a
difference that of the frame before. -/
theorem sendWsDataFromL2Diff_frame {s : L2Subscription} {snapshot previous : L2Snapshots}
    {time height : ℕ} {last last' : Option ℕ} {dirty : Std.ExtTreeSet Coin} {forceFull : Bool}
    {frame : Option L2Diff}
    (h : sendWsDataFromL2Diff s snapshot previous time height last dirty forceFull =
      (last', frame)) :
    (frame = none ∧ last' = last) ∨
      ∃ d, frame = some d ∧ last' = some height ∧ d.height = height ∧
        ∀ u, d = .updates u → last = some u.prevHeight := by
  rw [sendWsDataFromL2Diff] at h
  split at h
  case isTrue =>
    split at h <;> cases h
    · exact Or.inl ⟨rfl, rfl⟩
    · exact Or.inr ⟨_, rfl, rfl, rfl, nofun⟩
  case isFalse hserved =>
    split at h
    · cases h
      exact Or.inl ⟨rfl, rfl⟩
    · split at h <;> cases h
      · exact Or.inl ⟨rfl, rfl⟩
      · refine Or.inr ⟨_, rfl, rfl, rfl, fun u hu => ?_⟩
        cases hu
        cases last with
        | none => simp at hserved
        | some noted => rfl

/-- The frames of one message. -/
theorem diffFrames_deliver (c : L2Connection) (now : ℕ) (m : L2Broadcast) :
    diffFrames (c.deliver now m).2 =
      (((c.lastL2Diff.map (c.deliverDiff m)).map Prod.snd).getD []).filterMap fun
        | .diff m frame => some (m, frame)
        | _ => none := by
  have hbook : diffFrames (((c.lastL2.map (c.deliverBook now m)).map Prod.snd).getD []) = [] := by
    cases c.lastL2 with
    | none => rfl
    | some last =>
      cases hcompares : c.comparesWith m last with
      | none => simp [deliverBook_of_none now hcompares, diffFrames]
      | some levels =>
        rcases deliverBook_of_some now hcompares with ⟨-, heq⟩ | ⟨frame, -, heq⟩ <;>
          simp [heq, diffFrames]
  change diffFrames (_ ++ _) = _
  rw [diffFrames_append, hbook]
  rfl

/-- **Taking a message.** -/
theorem Continues.deliver {c : L2Connection} {frames : List DiffFrame}
    (h : Continues c.lastL2Diff frames) (now : ℕ) (m : L2Broadcast) :
    Continues (c.deliver now m).1.lastL2Diff (frames ++ diffFrames (c.deliver now m).2) := by
  have hnote : (c.deliver now m).1.lastL2Diff =
      (c.lastL2Diff.map (c.deliverDiff m)).map Prod.fst := rfl
  rw [hnote, diffFrames_deliver]
  cases hlast : c.lastL2Diff with
  | none =>
    rw [hlast] at h
    simpa using h
  | some last =>
    rw [hlast] at h
    cases hsend : sendWsDataFromL2Diff c.subscription m.snapshot m.previous m.time m.height last
        m.dirty c.forceFull with
    | mk last' frame =>
      have hdeliver : c.deliverDiff m last =
          (last', (frame.map (L2Event.diff m)).toList) := by
        rw [L2Connection.deliverDiff, hsend]
      rw [Option.map_some, hdeliver]
      rcases sendWsDataFromL2Diff_frame hsend with ⟨rfl, rfl⟩ | ⟨d, rfl, rfl, hheight, hprev⟩
      · simpa using h
      · constructor
        · refine h.trail.concat (m := (m, d)) ?_ rfl
          intro x hx u hu
          have hnoted : last = some x.1.height := hx
          rw [hprev u hu] at hnoted
          exact Option.some.inj hnoted
        · intro x hx
          rcases List.mem_append.mp hx with hx | hx
          · exact h.heights x hx
          · rw [List.mem_singleton.mp hx]
            exact hheight

/-- **One event**, if it does not end the subscription. -/
theorem Continues.step {f f' : L2Feed} {op : L2FeedOp} {said : List L2Event}
    {frames : List DiffFrame} (h : Continues f.connection.lastL2Diff frames)
    (hkeeps : op ≠ .unsubscribe .diff) (hstep : f.step op = some (f', said)) :
    Continues f'.connection.lastL2Diff (frames ++ diffFrames said) := by
  have hsilent : ∀ {noted'}, noted' = f.connection.lastL2Diff →
      Continues noted' (frames ++ diffFrames []) := by
    intro noted' heq
    rw [heq]
    simpa [diffFrames] using h
  cases op with
  | ingest op =>
    simp only [L2Feed.step] at hstep
    split at hstep
    · obtain ⟨r, -, hr⟩ := Option.map_eq_some_iff.mp hstep
      cases hr
      exact hsilent rfl
    · cases hstep
  | subscribe channel =>
    cases hstep
    rcases subscribe_cases f.connection channel with heq | heq | heq <;> rw [heq]
    · exact hsilent rfl
    · exact hsilent rfl
    · refine (hsilent rfl).of_same ?_
      cases f.connection.lastL2Diff <;> rfl
  | unsubscribe channel =>
    cases hstep
    cases channel with
    | diff => exact absurd rfl hkeeps
    | book =>
      simp only [L2Connection.unsubscribe]
      split <;> exact hsilent rfl
  | receive now =>
    simp only [L2Feed.step] at hstep
    split at hstep
    · cases hstep
    · rename_i b rest hqueue
      split at hstep
      · rename_i m hl2
        cases hstep
        exact Continues.deliver (c := { f.connection with queue := rest }) h now m
      · cases hstep
        exact hsilent rfl
  | lag n =>
    simp only [L2Feed.step] at hstep
    split at hstep
    · cases hstep
      simpa [diffFrames] using h
    · cases hstep
  | heartbeat now time =>
    simp only [L2Feed.step] at hstep
    rcases resend_cases f.connection now time with heq | ⟨entry, payload, -, -, heq⟩ <;>
    · rw [heq] at hstep
      cases hstep
      simpa [diffFrames] using h

/-- **A run**, while the subscription lasts. -/
theorem Continues.run {f f' : L2Feed} {es : List L2FeedOp} {said : List L2Event}
    (hkeeps : .unsubscribe .diff ∉ es)
    (hrun : runSteps L2Feed.step es f = some (f', said)) :
    Continues f'.connection.lastL2Diff (diffFrames said) := by
  refine Runs.along (P := fun es said f' => .unsubscribe .diff ∉ es →
    Continues f'.connection.lastL2Diff (diffFrames said)) ?_ ?_ hrun hkeeps
  · intro es f₁ said₁ e f₂ said₂ _ ih hstep hkeeps
    rw [diffFrames_append]
    refine (ih fun hmem => hkeeps (List.mem_append_left _ hmem)).step (fun he => hkeeps ?_) hstep
    simp [he]
  · intro _
    exact ⟨.nil _, nofun⟩

end Step

/-! ## Gaps -/

/-- The last frame missed is the one a difference follows. -/
theorem Continues.prevHeight {noted : Option (Option ℕ)} {frames before : List DiffFrame}
    {y : DiffFrame} {m : L2Broadcast} {u : L2DiffUpdates} {after : List DiffFrame}
    (h : Continues noted frames) (heq : frames = before ++ y :: (m, .updates u) :: after) :
    u.prevHeight = y.1.height := by
  have hsuffix : y :: (m, .updates u) :: after <:+ frames := ⟨before, heq.symm⟩
  exact (h.trail.suffix hsuffix).linked_of_cons u rfl

/-- **A gap is seen exactly when the last frame missed and the last one had were made
at different heights**, while the subscription lasts. -/
theorem detectsGaps_iff [SlabPolicy] [FixedPoint] [LevelHash] {f f' : L2Feed} {es : List L2FeedOp}
    {said : List L2Event} (hkeeps : .unsubscribe .diff ∉ es)
    (hrun : runSteps L2Feed.step es f = some (f', said)) :
    DetectsGaps (diffFrames said) ↔ HeightsApart (diffFrames said) := by
  have hcontinues := Continues.run hkeeps hrun
  constructor
  · intro h before x between y m u after heq hheight
    have hmissed : diffFrames said =
        before ++ x :: (between ++ [y]) ++ (m, .updates u) :: after := by
      rw [heq]
      simp
    refine h before x (between ++ [y]) m u after hmissed (by simp) ?_
    calc u.prevHeight = y.1.height := hcontinues.prevHeight heq
      _ = x.1.height := hheight.symm
      _ = x.2.height := (hcontinues.heights x (by simp [heq])).symm
  · intro h before last missed m u after heq hmissed hheight
    obtain ⟨between, y, rfl⟩ := (List.eq_nil_or_concat missed).resolve_left hmissed
    have hsplit : diffFrames said =
        before ++ last :: between ++ y :: (m, .updates u) :: after := by
      rw [heq]
      simp
    refine h before last between y m u after hsplit ?_
    calc last.1.height = last.2.height := (hcontinues.heights last (by simp [heq])).symm
      _ = u.prevHeight := hheight.symm
      _ = y.1.height := hcontinues.prevHeight hsplit

/-- It is enough that no two frames are made at one height. -/
theorem heightsApart_of_nodup {frames : List DiffFrame}
    (h : (frames.map fun x => x.1.height).Nodup) : HeightsApart frames := by
  intro before x between y m u after heq
  rw [heq, List.append_assoc, List.map_append, List.cons_append, List.map_cons] at h
  have hx := (List.nodup_cons.mp (List.nodup_append.mp h).2.1).1
  intro he
  apply hx
  rw [he]
  simp

end HlOrderbook

namespace HlOrderbook

section Example

attribute [local instance] SlabPolicy.latest FixedPoint.decimal LevelHash.polynomial

/-- The heights the frames name: their own, and that of the frame before. -/
def frameHeights (said : List L2Event) : List (ℕ × Option ℕ) :=
  (diffFrames said).map fun x => match x.2 with
    | .snapshot _ _ height _ _ _ _ => (height, none)
    | .updates u => (u.height, some u.prevHeight)

/-- Three blocks, sent one by one. -/
def threeBlocks : List L2FeedOp :=
  [.subscribe .diff, .bidDiff 1001 (.update "1" "0.5"), .baseFlush 100, .receive 100,
    .bidDiff 1002 (.update "0.5" "0.25"), .baseFlush 200, .receive 200,
    .bidDiff 1003 (.update "0.25" "0.125"), .baseFlush 300, .receive 300]

theorem detectsGaps_threeBlocks : ∃ i sent f said,
    runSteps Ingest.step L2FeedOp.oneBid ⟨.new true true ⟨true, true, true⟩, none⟩ =
      some (i, sent) ∧
    runSteps L2Feed.step threeBlocks ⟨i, .new .btc i.listener.univ none⟩ = some (f, said) ∧
    frameHeights said = [(1001, none), (1002, some 1001), (1003, some 1002)] ∧
    DetectsGaps (diffFrames said) := by
  have hend : (runSteps Ingest.step L2FeedOp.oneBid
      ⟨.new true true ⟨true, true, true⟩, none⟩).map (fun r => (runSteps L2Feed.step threeBlocks
        ⟨r.1, .new .btc r.1.listener.univ none⟩).map fun r =>
          (frameHeights r.2, (diffFrames r.2).map fun x => x.1.height)) =
      some (some ([(1001, none), (1002, some 1001), (1003, some 1002)], [1001, 1002, 1003])) := by
    decide +kernel
  obtain ⟨i, sent, hreach, hi⟩ := Runs.exists_of_map hend
  obtain ⟨f, said, hrun, hsaid⟩ := Runs.exists_of_map hi
  simp only [Prod.mk.injEq] at hsaid
  obtain ⟨hframes, hheights⟩ := hsaid
  have hkeeps : .unsubscribe .diff ∉ threeBlocks := by
    simp [threeBlocks, L2FeedOp.bidDiff, L2FeedOp.baseFlush]
  refine ⟨i, sent, f, said, hreach, hrun, hframes, (detectsGaps_iff hkeeps hrun).mpr ?_⟩
  refine heightsApart_of_nodup ?_
  rw [hheights]
  decide

/-- Block 1001 is sent twice: its diffs come before its statuses, and one of them waits
for a status. -/
def sharedBlock : List L2FeedOp :=
  [.subscribe .diff,
    .ingest (.apply ⟨0, ∅, fun _ => false, 1⟩ 1001 (.bookDiffs ⟨1001, 1001,
      [⟨1, 7, "100", "BTC", .update "1" "0.5"⟩, ⟨1, 8, "99", "BTC", .new "2" none⟩]⟩)),
    .baseFlush 100, .receive 100,
    .ingest (.apply ⟨0, ∅, fun _ => false, 1⟩ 1001 (.orders ⟨1001, 1001,
      [.opened (.limit "BTC" .bid "99" "2" 8)]⟩)),
    .baseFlush 200, .receive 200,
    .bidDiff 1002 (.update "0.5" "0.25"), .baseFlush 300, .receive 300]

/-- **A client misses the second frame and cannot see it**: the third names the height
of the first. -/
theorem detectsGaps_sharedBlock : ∃ i sent f said,
    runSteps Ingest.step L2FeedOp.oneBid ⟨.new true true ⟨true, true, true⟩, none⟩ =
      some (i, sent) ∧
    runSteps L2Feed.step sharedBlock ⟨i, .new .btc i.listener.univ none⟩ = some (f, said) ∧
    frameHeights said = [(1001, none), (1001, some 1001), (1002, some 1001)] ∧
    ¬ DetectsGaps (diffFrames said) := by
  have hend : (runSteps Ingest.step L2FeedOp.oneBid
      ⟨.new true true ⟨true, true, true⟩, none⟩).map (fun r => (runSteps L2Feed.step sharedBlock
        ⟨r.1, .new .btc r.1.listener.univ none⟩).map fun r => frameHeights r.2) =
      some (some [(1001, none), (1001, some 1001), (1002, some 1001)]) := by
    decide +kernel
  obtain ⟨i, sent, hreach, hi⟩ := Runs.exists_of_map hend
  obtain ⟨f, said, hrun, hframes⟩ := Runs.exists_of_map hi
  refine ⟨i, sent, f, said, hreach, hrun, hframes, fun h => ?_⟩
  obtain ⟨x, rest, hx, hfirst, hrest⟩ := List.map_eq_cons_iff.mp hframes
  obtain ⟨y, rest', rfl, -, hlast⟩ := List.map_eq_cons_iff.mp hrest
  obtain ⟨⟨m, d⟩, after, rfl, hd, hnil⟩ := List.map_eq_cons_iff.mp hlast
  rw [List.map_eq_nil_iff] at hnil
  subst hnil
  cases d with
  | snapshot => cases hd
  | updates u =>
    obtain ⟨-, hprev⟩ := Prod.ext_iff.mp hd
    refine h [] x [y] m u [] hx (by simp) ?_
    have hheight : x.2.height = 1001 := by
      cases hframe : x.2 <;> rw [hframe] at hfirst
      · exact (Prod.ext_iff.mp hfirst).1
      · cases (Prod.ext_iff.mp hfirst).2
    rw [hheight]
    exact Option.some.inj hprev

end Example

end HlOrderbook
