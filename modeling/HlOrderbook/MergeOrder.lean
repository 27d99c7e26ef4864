import HlOrderbook.LiveMerge

/-!
# The order the merge hands batches out in

What the merge hands out of a stream is a prefix of what arrived there, less the
lines that do not parse and the batches at or below the floor, however the calls are
given up.  Between the streams the merge takes the lower of two batches, and a lone
one only within the lookahead of what it last took from the other stream.

The gate does not speak before it took a batch from the other stream: a stream whose
batches so far were all at or below the floor counts as one that has not spoken.

## Main definitions

* `arrivalsOf i ops` — the lines that arrive on a channel.
* `LiveMerge.TakenAt` — the moment a batch is taken.

## Main results

* `handed_once` — in order, without loss and without repetition.
* `handed_in_order` — how far one stream is taken ahead of the other.
-/

set_option autoImplicit false
set_option linter.unusedSectionVars false

namespace HlOrderbook

variable [LineParser]

namespace LiveMerge

/-- The lines that arrive on a channel. -/
def arrivalsOf (i : Slot) (ops : List MergeOp) : List String :=
  ops.filterMap fun
    | .arrive j line => if j = i then some line else none
    | _ => none

@[simp] theorem arrivalsOf_append (i : Slot) (ops ops' : List MergeOp) :
    arrivalsOf i (ops ++ ops') = arrivalsOf i ops ++ arrivalsOf i ops' := List.filterMap_append

variable {m m' : LiveMerge} {op : MergeOp} {ops : List MergeOp} {said said' : List MergeEvent}

theorem accept_rx (m : LiveMerge) (i : Slot) (line : String) : (m.accept i line).rx = m.rx := by
  simp only [accept]
  split
  · split <;> rfl
  · rfl

theorem accept_ready (m : LiveMerge) (i : Slot) (line : String) :
    (m.accept i line).ready = m.ready := by
  simp only [accept]
  split
  · split <;> rfl
  · rfl

theorem accept_seen (m : LiveMerge) (i : Slot) (line : String) :
    (m.accept i line).seen = m.seen := by
  simp only [accept]
  split
  · split <;> rfl
  · rfl

/-! ## One event -/

/-- Taking the first line off a channel. -/
theorem update_rx {i : Slot} {line : String} {rest : List String} (h : m.rx i = line :: rest)
    (j : Slot) : m.rx j = consumedOf j [.consumed i line] ++ Function.update m.rx i rest j := by
  rw [consumedOf_singleton]
  by_cases hij : i = j
  · subst hij
    simp [h]
  · have hji : ¬ j = i := fun he => hij he.symm
    simp [hij, hji]

/-- **A line that arrives is on its channel until it is taken off.** -/
theorem step_channel (h : m.step op = some (m', said)) (j : Slot) :
    m.rx j ++ arrivalsOf j [op] = consumedOf j said ++ m'.rx j := by
  have hsame : ∀ {m'' : LiveMerge}, m''.rx = m.rx → (∀ i line, op ≠ .arrive i line) →
      m.rx j ++ arrivalsOf j [op] = consumedOf j [] ++ m''.rx j := by
    intro m'' hrx hop
    have harrivals : arrivalsOf j [op] = [] := by
      cases op <;> first | rfl | exact absurd rfl (hop _ _)
    rw [harrivals, hrx]
    simp [consumedOf]
  cases op with
  | arrive i line =>
    simp only [step] at h
    split at h
    · cases h
    · cases h
      by_cases hij : i = j
      · subst hij
        simp [arrivalsOf, consumedOf]
      · have hji : ¬ j = i := fun he => hij he.symm
        simp [arrivalsOf, consumedOf, hij, hji]
  | close i =>
    cases h
    exact hsame rfl (by simp)
  | start =>
    simp only [step] at h
    split at h <;> cases h
    exact hsame rfl (by simp)
  | wake i =>
    simp only [step, wake] at h
    split at h
    · split at h
      · split at h
        · rename_i line rest hrx
          cases h
          rw [accept_rx]
          simpa [arrivalsOf] using update_rx hrx j
        · cases h
      · cases h
    · cases h
  | timeout now =>
    simp only [step, timeout] at h
    split at h
    · split at h <;> cases h
      exact hsame rfl (by simp)
    · cases h
  | cancel =>
    simp only [step] at h
    split at h <;> cases h
    exact hsame rfl (by simp)
  | poll now =>
    simp only [step, poll] at h
    split at h
    · cases h
    · split at h <;> cases h
      · simp [arrivalsOf]
      · exact hsame rfl (by simp)
    · split at h
      · cases h
        exact hsame rfl (by simp)
      · split at h
        · rename_i line rest hrx
          cases h
          rw [accept_rx]
          simpa [arrivalsOf] using update_rx hrx j
        · split at h <;> cases h
          exact hsame rfl (by simp)
    · split at h
      · split at h <;> cases h <;> exact hsame rfl (by simp)
      · split at h <;> cases h
        · simp [arrivalsOf]
        · exact hsame rfl (by simp)
    · cases h

/-- A batch is taken: the loop picks its stream, of which it is the batch read ahead. -/
structure TakenAt (m : LiveMerge) (op : MergeOp) (i : Slot) (h : ℕ) (b : EventBatch) : Prop where
  phase : m.phase = .pick
  poll : ∃ now, op = .poll now
  pick : m.pick = some i
  peek : m.peek i = some (h, b)

/-- **Batches are taken one at a time, and handed out in that order.** -/
theorem step_taken (h : m.step op = some (m', said)) :
    (handedOut said ++ m'.ready = m.ready ∧ m'.seen = m.seen) ∨
      ∃ i height b, m.TakenAt op i height b ∧
        handedOut said ++ m'.ready = m.ready ++ [(height, b, i.source)] ∧
        m'.seen = Function.update m.seen i (max (m.seen i) height) := by
  cases op with
  | arrive i line =>
    simp only [step] at h
    split at h <;> cases h
    exact Or.inl ⟨rfl, rfl⟩
  | close i =>
    cases h
    exact Or.inl ⟨rfl, rfl⟩
  | start =>
    simp only [step] at h
    split at h <;> cases h
    exact Or.inl ⟨rfl, rfl⟩
  | wake i =>
    simp only [step, wake] at h
    split at h
    · split at h
      · split at h <;> cases h
        exact Or.inl ⟨accept_ready _ _ _, accept_seen _ _ _⟩
      · cases h
    · cases h
  | timeout now =>
    simp only [step, timeout] at h
    split at h
    · split at h <;> cases h
      exact Or.inl ⟨rfl, rfl⟩
    · cases h
  | cancel =>
    simp only [step] at h
    split at h <;> cases h
    exact Or.inl ⟨rfl, rfl⟩
  | poll now =>
    simp only [step, poll] at h
    split at h
    · cases h
    · split at h <;> cases h
      · exact Or.inl ⟨by simp, rfl⟩
      · exact Or.inl ⟨rfl, rfl⟩
    · split at h
      · cases h
        exact Or.inl ⟨rfl, rfl⟩
      · split at h
        · cases h
          exact Or.inl ⟨accept_ready _ _ _, accept_seen _ _ _⟩
        · split at h <;> cases h
          exact Or.inl ⟨rfl, rfl⟩
    · rename_i hphase
      split at h
      · rename_i i hpick
        split at h
        · cases h
          exact Or.inl ⟨rfl, rfl⟩
        · rename_i height b hpeek
          cases h
          exact Or.inr ⟨i, height, b, ⟨hphase, ⟨now, rfl⟩, hpick, hpeek⟩, rfl, rfl⟩
      · split at h <;> cases h
        · exact Or.inl ⟨by simp, rfl⟩
        · exact Or.inl ⟨rfl, rfl⟩
    · cases h

/-! ## Runs -/

theorem new_waits (rx : Slot → List String) (floor : ℕ) : (new rx floor).Waits :=
  fun _ hon => by cases hon

/-- What was on a channel or arrived there has been taken off, or is still there. -/
theorem run_channel (h : runSteps step ops m = some (m', said)) (i : Slot) :
    m.rx i ++ arrivalsOf i ops = consumedOf i said ++ m'.rx i := by
  refine Runs.along (P := fun ops said m' =>
    m.rx i ++ arrivalsOf i ops = consumedOf i said ++ m'.rx i) ?_ ?_ h
  · intro ops m₁ said₁ op m₂ said₂ _ ih hstep
    rw [arrivalsOf_append, ← List.append_assoc, ih, List.append_assoc, step_channel hstep i,
      consumedOf_append, List.append_assoc]
  · simp [arrivalsOf, consumedOf]

/-- **Every line is in one place**: what arrived above the floor was handed out, or
is pending, or is still on its channel. -/
theorem run_places {rx : Slot → List String} {floor : ℕ}
    (h : runSteps step ops (new rx floor) = some (m', said)) (i : Slot) :
    (rx i ++ arrivalsOf i ops).filterMap (keep floor i) =
      takenOf i (handedOut said ++ m'.ready) ++ ((m'.peek i).toList ++
        (m'.rx i).filterMap (keep floor i)) := by
  have hchannel := run_channel h i
  have hlines := (run_accounts (new_waits rx floor) h).lines i
  have hnew : (new rx floor).pendingOf i = [] := rfl
  rw [hnew, List.nil_append] at hlines
  calc (rx i ++ arrivalsOf i ops).filterMap (keep floor i)
      = (consumedOf i said).filterMap (keep floor i) ++ (m'.rx i).filterMap (keep floor i) := by
        rw [← List.filterMap_append, ← hchannel]
        rfl
    _ = takenOf i (handedOut said) ++ m'.pendingOf i ++ (m'.rx i).filterMap (keep floor i) :=
        congrArg (· ++ (m'.rx i).filterMap (keep floor i)) hlines
    _ = _ := by simp [pendingOf]

/-- **What is handed out of a stream is a prefix of what arrived there above the
floor**, in order and once each, and the rest of it is not lost. -/
theorem handed_once {rx : Slot → List String} {floor : ℕ}
    (h : runSteps step ops (new rx floor) = some (m', said)) (i : Slot) :
    takenOf i (handedOut said) <+: (rx i ++ arrivalsOf i ops).filterMap (keep floor i) ∧
      takenOf i (handedOut said) ++ m'.pendingOf i ++ (m'.rx i).filterMap (keep floor i) =
        (rx i ++ arrivalsOf i ops).filterMap (keep floor i) := by
  have hplaces : takenOf i (handedOut said) ++ m'.pendingOf i ++
      (m'.rx i).filterMap (keep floor i) = (rx i ++ arrivalsOf i ops).filterMap (keep floor i) := by
    rw [run_places h i]
    simp [pendingOf]
  refine ⟨⟨m'.pendingOf i ++ (m'.rx i).filterMap (keep floor i), ?_⟩, hplaces⟩
  rw [← List.append_assoc]
  exact hplaces

/-- What a run takes comes behind what is ready. -/
theorem run_taken (h : runSteps step ops m = some (m', said)) :
    ∃ more, handedOut said ++ m'.ready = m.ready ++ more := by
  refine Runs.along (P := fun _ said m' =>
    ∃ more, handedOut said ++ m'.ready = m.ready ++ more) ?_ ⟨[], by simp [handedOut]⟩ h
  intro ops m₁ said₁ op m₂ said₂ _ ih hstep
  obtain ⟨more, hmore⟩ := ih
  rcases step_taken hstep with ⟨hsame, -⟩ | ⟨i, height, b, -, hnew, -⟩
  · exact ⟨more, by rw [handedOut_append, List.append_assoc, hsame, hmore]⟩
  · refine ⟨more ++ [(height, b, i.source)], ?_⟩
    rw [handedOut_append, List.append_assoc, hnew, ← List.append_assoc, hmore, List.append_assoc]

/-- **Every batch handed out was taken at some moment**, behind those before it. -/
theorem taken_moment {before after : List Taken} {t : Taken}
    (h : runSteps step ops m = some (m', said))
    (hsplit : handedOut said ++ m'.ready = m.ready ++ before ++ t :: after) :
    ∃ pre op post m₁ said₁ i, ops = pre ++ op :: post ∧
      runSteps step pre m = some (m₁, said₁) ∧ m₁.TakenAt op i t.1 t.2.1 ∧
      t.2.2 = i.source ∧ handedOut said₁ ++ m₁.ready = m.ready ++ before := by
  induction ops generalizing m said before with
  | nil =>
    cases h
    simp [handedOut] at hsplit
  | cons op ops ih =>
    obtain ⟨m₁, said₁, said₂, hstep, hrun, rfl⟩ := Runs.cons_eq_some.mp h
    rw [handedOut_append, List.append_assoc] at hsplit
    have hlater : ∀ before', handedOut said₁ ++ (m₁.ready ++ before' ++ t :: after) =
          m.ready ++ before ++ t :: after → handedOut said₁ ++ (m₁.ready ++ before') =
            m.ready ++ before →
        ∃ pre op' post m₂ said₃ i, op :: ops = pre ++ op' :: post ∧
          runSteps step pre m = some (m₂, said₃) ∧ m₂.TakenAt op' i t.1 t.2.1 ∧
          t.2.2 = i.source ∧ handedOut said₃ ++ m₂.ready = m.ready ++ before := by
      intro before' htotal hbefore
      have hrest := List.append_cancel_left (hsplit.trans htotal.symm)
      obtain ⟨pre, op', post, m₂, said₃, i, rfl, hpre, htaken, hsource, hready⟩ := ih hrun hrest
      refine ⟨op :: pre, op', post, m₂, said₁ ++ said₃, i, rfl,
        Runs.cons_eq_some.mpr ⟨m₁, said₁, said₃, hstep, hpre, rfl⟩, htaken, hsource, ?_⟩
      rw [handedOut_append, List.append_assoc, hready, hbefore]
    rcases step_taken hstep with ⟨hsame, -⟩ | ⟨i, height, b, htaken, hnew, -⟩
    · refine hlater before ?_ ?_
      · rw [← hsame]
        simp only [List.append_assoc]
      · rw [← hsame, List.append_assoc]
    · obtain ⟨more, hmore⟩ := run_taken hrun
      have htotal : m.ready ++ (before ++ t :: after) =
          m.ready ++ (height, b, i.source) :: more := by
        rw [← List.append_assoc, ← hsplit, hmore, ← List.append_assoc, hnew]
        simp only [List.append_assoc, List.singleton_append]
      have hfirst := List.append_cancel_left htotal
      cases before with
      | nil =>
        obtain ⟨rfl, -⟩ := List.cons.inj hfirst
        exact ⟨[], op, ops, m, [], i, rfl, rfl, htaken, rfl, by simp [handedOut]⟩
      | cons x before =>
        obtain ⟨rfl, -⟩ := List.cons.inj hfirst
        refine hlater before ?_ ?_
        · rw [← List.append_assoc, ← List.append_assoc, hnew]
          simp only [List.append_assoc, List.cons_append, List.nil_append]
        · rw [← List.append_assoc, hnew]
          simp only [List.append_assoc, List.cons_append, List.nil_append]

/-! ## What the merge remembers of a stream -/

/-- The height seen is the highest taken, and zero before there is any. -/
structure Remembers (m : LiveMerge) (taken : List Taken) : Prop where
  above : ∀ i, ∀ x ∈ takenOf i taken, x.1 ≤ m.seen i
  attained : ∀ i, m.seen i ≠ 0 → ∃ x ∈ takenOf i taken, x.1 = m.seen i

theorem run_remembers {rx : Slot → List String} {floor : ℕ}
    (h : runSteps step ops (new rx floor) = some (m', said)) :
    m'.Remembers (handedOut said ++ m'.ready) := by
  refine Runs.along (P := fun _ said m' => m'.Remembers (handedOut said ++ m'.ready)) ?_ ?_ h
  · intro ops m₁ said₁ op m₂ said₂ _ ih hstep
    rcases step_taken hstep with ⟨hsame, hseen⟩ | ⟨i, height, b, -, hnew, hseen⟩
    · rw [handedOut_append, List.append_assoc, hsame]
      exact ⟨fun i x hx => hseen ▸ ih.above i x hx, fun i => hseen ▸ ih.attained i⟩
    · rw [handedOut_append, List.append_assoc, hnew, ← List.append_assoc]
      constructor
      · intro j x hx
        rw [takenOf_append, takenOf_singleton] at hx
        rw [hseen]
        by_cases hij : i = j
        · subst hij
          rw [Function.update_self]
          rcases List.mem_append.mp hx with hx | hx
          · exact le_max_of_le_left (ih.above i x hx)
          · rw [if_pos rfl, List.mem_singleton] at hx
            exact le_max_of_le_right (by rw [hx])
        · have hji : ¬ j = i := fun he => hij he.symm
          rw [if_neg hij, List.append_nil] at hx
          rw [Function.update_of_ne hji]
          exact ih.above j x hx
      · intro j hj
        rw [takenOf_append, takenOf_singleton]
        rw [hseen] at hj ⊢
        by_cases hij : i = j
        · subst hij
          rw [Function.update_self] at hj ⊢
          by_cases hle : height ≤ m₁.seen i
          · rw [max_eq_left hle] at hj ⊢
            obtain ⟨x, hx, hheight⟩ := ih.attained i hj
            exact ⟨x, List.mem_append_left _ hx, hheight⟩
          · refine ⟨(height, b), List.mem_append_right _ (by simp), ?_⟩
            exact (max_eq_right (by omega)).symm
        · have hji : ¬ j = i := fun he => hij he.symm
          rw [Function.update_of_ne hji] at hj ⊢
          obtain ⟨x, hx, hheight⟩ := ih.attained j hj
          exact ⟨x, List.mem_append_left _ hx, hheight⟩
  · exact ⟨fun i x hx => by simp [handedOut, new, takenOf] at hx, fun i hi => absurd rfl hi⟩

/-- What was read off a channel above the floor is taken, or is its head. -/
theorem consumed_kept {rx : Slot → List String} {floor : ℕ}
    (h : runSteps step ops (new rx floor) = some (m', said)) (i : Slot) :
    (consumedOf i said).filterMap (keep floor i) =
      takenOf i (handedOut said ++ m'.ready) ++ (m'.peek i).toList := by
  have hlines := (run_accounts (new_waits rx floor) h).lines i
  have hnew : (new rx floor).pendingOf i = [] := rfl
  rw [hnew, List.nil_append] at hlines
  rw [takenOf_append, List.append_assoc]
  exact hlines

/-- The lower of two heads is picked, and the statuses at equal heights. -/
theorem pick_lower {i : Slot} {h h' : ℕ} {b b' : EventBatch} (hpick : m.pick = some i)
    (hi : m.peek i = some (h, b)) (hother : m.peek i.other = some (h', b')) :
    h ≤ h' ∧ (h = h' → i = .statuses) := by
  cases i with
  | statuses =>
    change m.peek .diffs = some (h', b') at hother
    by_cases hle : h ≤ h'
    · exact ⟨hle, fun _ => rfl⟩
    · simp [pick, hi, hother, hle] at hpick
  | diffs =>
    change m.peek .statuses = some (h', b') at hother
    by_cases hle : h' ≤ h
    · simp [pick, hi, hother, hle] at hpick
    · exact ⟨by omega, fun he => by omega⟩

/-- A lone head is picked only if it may be applied. -/
theorem pick_lone {i : Slot} {h : ℕ} {b : EventBatch} (hpick : m.pick = some i)
    (hi : m.peek i = some (h, b)) (hother : m.peek i.other = none) : m.loneOk i h = true := by
  cases i with
  | statuses =>
    change m.peek .diffs = none at hother
    by_contra hnot
    simp [pick, hi, hother, hnot] at hpick
  | diffs =>
    change m.peek .statuses = none at hother
    by_contra hnot
    simp [pick, hi, hother, hnot] at hpick

/-- The heights of a stream never go down. -/
def HeightsOrdered (i : Slot) (lines : List String) : Prop :=
  (lines.filterMap (parseEventLine · i.source)).Pairwise (·.1 ≤ ·.1)

instance (i : Slot) (lines : List String) : Decidable (HeightsOrdered i lines) :=
  inferInstanceAs (Decidable (List.Pairwise _ _))

theorem HeightsOrdered.kept {i : Slot} {lines : List String} (h : HeightsOrdered i lines)
    (floor : ℕ) : (lines.filterMap (keep floor i)).Pairwise (·.1 ≤ ·.1) := by
  have hkeep : lines.filterMap (keep floor i) =
      (lines.filterMap (parseEventLine · i.source)).filter (fun parsed => floor < parsed.1) := by
    rw [List.filter_filterMap]
    rfl
  rw [hkeep]
  exact List.Pairwise.filter _ h

/-- What is kept of a stream is above the floor. -/
theorem floor_lt_of_mem {floor : ℕ} {i : Slot} {lines : List String} {x : ℕ × EventBatch}
    (h : x ∈ lines.filterMap (keep floor i)) : floor < x.1 := by
  obtain ⟨line, -, hkeep⟩ := List.mem_filterMap.mp h
  simpa using (Option.filter_eq_some_iff.mp hkeep).2

/-- **How far one stream is taken ahead of the other.**  At the moment a batch is
taken it is not above the head of the other stream, and statuses come first at equal
heights.  Where the other stream does not count as dead and a batch of it above the
floor was read before, none is left of it further than the lookahead below. -/
theorem handed_in_order {rx : Slot → List String} {floor : ℕ}
    (hrun : runSteps step ops (new rx floor) = some (m', said))
    (hheights : ∀ j, HeightsOrdered j (rx j ++ arrivalsOf j ops))
    {before after : List Taken} {h : ℕ} {b : EventBatch} {i : Slot}
    (hsplit : handedOut said = before ++ (h, b, i.source) :: after) :
    ∃ pre op post m₁ said₁, ops = pre ++ op :: post ∧
      runSteps step pre (new rx floor) = some (m₁, said₁) ∧
      m₁.TakenAt op i h b ∧ handedOut said₁ ++ m₁.ready = before ∧
      (∀ h' b', m₁.peek i.other = some (h', b') → h ≤ h' ∧ (h = h' → i = .statuses)) ∧
      (m₁.dead i.other = false →
        (consumedOf i.other said₁).filterMap (keep floor i.other) ≠ [] →
        ∃ rest, (rx i.other ++ arrivalsOf i.other ops).filterMap (keep floor i.other) =
            takenOf i.other before ++ rest ∧
          ∀ x ∈ rest, h ≤ x.1 + mergeLookaheadBlocks) := by
  have htotal : handedOut said ++ m'.ready =
      (new rx floor).ready ++ before ++ (h, b, i.source) :: (after ++ m'.ready) := by
    rw [hsplit]
    simp [new]
  obtain ⟨pre, op, post, m₁, said₁, i', rfl, hpre, htaken, hsource, hready⟩ :=
    taken_moment hrun htotal
  obtain rfl := source_injective.mp hsource
  replace hready : handedOut said₁ ++ m₁.ready = before := hready
  refine ⟨pre, op, post, m₁, said₁, rfl, hpre, htaken, hready,
    fun h' b' hother => pick_lower htaken.pick htaken.peek hother, fun hdead hread => ?_⟩
  generalize hj : i.other = j at hdead hread ⊢
  have hplaces := run_places hpre j
  rw [hready] at hplaces
  -- What is not taken yet: the head, what is on the channel, and what arrives later.
  refine ⟨(m₁.peek j).toList ++ (m₁.rx j).filterMap (keep floor j) ++
    (arrivalsOf j (op :: post)).filterMap (keep floor j), ?_, ?_⟩
  · rw [arrivalsOf_append, ← List.append_assoc, List.filterMap_append, hplaces]
    simp only [List.append_assoc]
  intro x hx
  have hordered := (hheights j).kept floor
  rw [arrivalsOf_append, ← List.append_assoc, List.filterMap_append, hplaces,
    List.append_assoc (takenOf j before)] at hordered
  cases hpeek : m₁.peek j with
  | some head =>
    have hlower := (pick_lower htaken.pick htaken.peek (hj ▸ hpeek)).1
    rw [hpeek] at hx hordered
    have hle : head.1 ≤ x.1 := by
      rcases List.mem_cons.mp hx with rfl | hx
      · exact le_rfl
      · exact List.rel_of_pairwise_cons (List.pairwise_append.mp hordered).2.1 hx
    exact (hlower.trans hle).trans (Nat.le_add_right _ _)
  | none =>
    have hkept := consumed_kept hpre j
    rw [hready, hpeek, Option.toList_none, List.append_nil] at hkept
    rw [hkept] at hread
    obtain ⟨first, hfirst⟩ := List.exists_mem_of_ne_nil _ hread
    have hremembers := run_remembers hpre
    rw [hready] at hremembers
    have hpositive : floor < first.1 := by
      rw [← hkept] at hfirst
      exact floor_lt_of_mem hfirst
    have hseen : m₁.seen j ≠ 0 := by
      have := hremembers.above j first hfirst
      omega
    obtain ⟨last, hlast, hheight⟩ := hremembers.attained j hseen
    have hle : last.1 ≤ x.1 := (List.pairwise_append.mp hordered).2.2 last hlast x hx
    have hlone := pick_lone htaken.pick htaken.peek (hj ▸ hpeek)
    rw [loneOk, hj, hdead, Bool.or_false, Bool.or_eq_true, decide_eq_true_eq,
      decide_eq_true_eq] at hlone
    have hgate : h ≤ m₁.seen j + mergeLookaheadBlocks :=
      (hlone.resolve_left hseen).trans (Nat.mod_le _ _)
    omega

end LiveMerge

end HlOrderbook

namespace HlOrderbook

section Example

namespace LiveMerge

/-- The line of a block without events. -/
def emptyBlock (height : String) : String :=
  "\x7b\"local_time\":\"1970-01-01T00:00:00\",\"block_time\":\"1970-01-01T00:00:00\"," ++
    "\"block_number\":" ++ height ++ ",\"events\":[]\x7d"

/-- The record on the line of a block without events. -/
def readEmptyBlock {E : Type} (line : String) : Option (Batch E) :=
  [("5", 5), ("20", 20), ("100", 100)].findSome? fun block =>
    if line = emptyBlock block.1 then some ⟨0, block.2, []⟩ else none

/-- A parser on blocks without events. -/
@[reducible] def LineParser.emptyBlocks : LineParser where
  fills := readEmptyBlock
  orderStatuses := readEmptyBlock
  orderDiffs := readEmptyBlock

attribute [local instance] LineParser.emptyBlocks

/-- A status of block 5 is at or below the floor.  The call that drops it waits and is
given up; the next one takes the diffs of block 100. -/
def upToDiffs : List MergeOp :=
  [.arrive .statuses (emptyBlock "5"), .start] ++ List.replicate 5 (.poll 0) ++
    [.cancel, .arrive .diffs (emptyBlock "100"), .start] ++ List.replicate 4 (.poll 0)

/-- The statuses of block 20 come late. -/
def lateStatuses : List MergeOp :=
  [.poll 0, .arrive .statuses (emptyBlock "20")] ++ List.replicate 9 (.poll 0)

/-- The heights and streams of the batches handed out. -/
def order (said : List MergeEvent) : List (ℕ × EventSource) :=
  (handedOut said).map fun t => (t.1, t.2.2)

/-- Nothing is lost by the call that was given up. -/
theorem handed_once_lateStatuses : ∃ m' said,
    runSteps step (upToDiffs ++ lateStatuses) (new (fun _ => []) 10) = some (m', said) ∧
      order said = [(100, .orderDiffs), (20, .orderStatuses)] ∧
      takenOf .statuses (handedOut said) <+:
        (arrivalsOf .statuses (upToDiffs ++ lateStatuses)).filterMap (keep 10 .statuses) := by
  have hdecided : (runSteps step (upToDiffs ++ lateStatuses) (new (fun _ => []) 10)).map
      (fun r => order r.2) = some [(100, .orderDiffs), (20, .orderStatuses)] := by decide +kernel
  obtain ⟨m', said, hrun, horder⟩ := Runs.exists_of_map hdecided
  exact ⟨m', said, hrun, horder, (handed_once hrun .statuses).1⟩

/-- The diffs of block 100 are handed out first, at their moment. -/
theorem handed_in_order_lateStatuses : ∃ m' said before h b after,
    runSteps step (upToDiffs ++ lateStatuses) (new (fun _ => []) 10) = some (m', said) ∧
      (∀ j, HeightsOrdered j (arrivalsOf j (upToDiffs ++ lateStatuses))) ∧
      handedOut said = before ++ (h, b, Slot.diffs.source) :: after ∧
      ∃ pre op post m₁ said₁, upToDiffs ++ lateStatuses = pre ++ op :: post ∧
        runSteps step pre (new (fun _ => []) 10) = some (m₁, said₁) ∧ m₁.TakenAt op .diffs h b := by
  have hdecided : (runSteps step (upToDiffs ++ lateStatuses) (new (fun _ => []) 10)).map
      (fun r => order r.2) = some [(100, .orderDiffs), (20, .orderStatuses)] := by decide +kernel
  have hheights : ∀ j, HeightsOrdered j (arrivalsOf j (upToDiffs ++ lateStatuses)) := by
    intro j
    cases j <;> decide +kernel
  obtain ⟨m', said, hrun, horder⟩ := Runs.exists_of_map hdecided
  obtain ⟨⟨h, b, source⟩, after, hsplit, hfirst, -⟩ := List.map_eq_cons_iff.mp horder
  obtain ⟨rfl, rfl⟩ := Prod.ext_iff.mp hfirst
  have hfirst : handedOut said = [] ++ (100, b, Slot.diffs.source) :: after := hsplit
  obtain ⟨pre, op, post, m₁, said₁, hops, hpre, htaken, -⟩ :=
    handed_in_order hrun hheights hfirst
  exact ⟨m', said, [], 100, b, after, hrun, hheights, hsplit, pre, op, post, m₁, said₁, hops, hpre,
    htaken⟩

/-- **A stream has spoken, is not dead, and is overtaken**: the statuses of block 20
come after the diffs of block 100. -/
theorem handed_overtaking : ∃ m₁ said₁ b,
    runSteps step upToDiffs (new (fun _ => []) 10) = some (m₁, said₁) ∧
      (∀ j, HeightsOrdered j (arrivalsOf j (upToDiffs ++ lateStatuses))) ∧
      m₁.TakenAt (.poll 0) .diffs 100 b ∧ m₁.dead .statuses = false ∧
      (consumedOf .statuses said₁).filterMap (parseEventLine · .orderStatuses) ≠ [] ∧
      handedOut said₁ ++ m₁.ready = [] ∧
      ∃ x ∈ (arrivalsOf .statuses lateStatuses).filterMap (keep 10 .statuses),
        x.1 + mergeLookaheadBlocks < 100 := by
  have hdecided : (runSteps step upToDiffs (new (fun _ => []) 10)).map (fun r =>
      (r.1.phase, r.1.pick, (r.1.peek .diffs).map (·.1), r.1.dead .statuses)) =
      some (.pick, some .diffs, some 100, false) := by decide +kernel
  have hsaid : (runSteps step upToDiffs (new (fun _ => []) 10)).map (fun r =>
      (((consumedOf .statuses r.2).filterMap (parseEventLine · .orderStatuses)).map (·.1),
        order (r.2 ++ r.1.ready.map .handed))) = some ([5], []) := by decide +kernel
  have hlate : ((arrivalsOf .statuses lateStatuses).filterMap (keep 10 .statuses)).map (·.1) =
      [20] := by decide +kernel
  obtain ⟨m₁, said₁, hrun, hstate⟩ := Runs.exists_of_map hdecided
  rw [hrun] at hsaid
  simp only [Option.map_some, Option.some.injEq, Prod.mk.injEq] at hstate hsaid
  obtain ⟨hphase, hpick, hpeek, hdead⟩ := hstate
  obtain ⟨hspoke, horder⟩ := hsaid
  obtain ⟨⟨h, b⟩, hhead, rfl⟩ := Option.map_eq_some_iff.mp hpeek
  have hheights : ∀ j, HeightsOrdered j (arrivalsOf j (upToDiffs ++ lateStatuses)) := by
    intro j
    cases j <;> decide +kernel
  refine ⟨m₁, said₁, b, hrun, hheights, ⟨hphase, ⟨0, rfl⟩, hpick, hhead⟩, hdead, ?_, ?_, ?_⟩
  · intro hnone
    rw [hnone] at hspoke
    cases hspoke
  · rw [← handedOut_handed m₁.ready, ← handedOut_append]
    exact List.map_eq_nil_iff.mp horder
  · obtain ⟨x, rest, hx, h20, -⟩ := List.map_eq_cons_iff.mp hlate
    refine ⟨x, hx ▸ List.mem_cons_self, ?_⟩
    rw [h20]
    decide

end LiveMerge

end Example

end HlOrderbook
