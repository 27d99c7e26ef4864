import Mathlib.Data.List.Induction

/-!
# Runs of a partial step

A system that takes one event at a time, may refuse it, and says something at
each step.  A run takes a list of events, and says what its steps say.

## Main definitions

* `runSteps step events s` — the run.
* `Runs.invariant`, `Runs.invariant_said`, `Runs.along` — what a step keeps, a run keeps.
* `Runs.Meets` — the steps of a run meet a condition.
* `Runs.Always` — a property holds all along a run.
-/

set_option autoImplicit false

namespace HlOrderbook

variable {S E M : Type} {step : S → E → Option (S × List M)}

/-- Take the events one after the other; one that is refused ends the run. -/
def runSteps (step : S → E → Option (S × List M)) : List E → S → Option (S × List M)
  | [], s => some (s, [])
  | e :: es, s =>
    match step s e with
    | none => none
    | some (s, said) =>
      match runSteps step es s with
      | none => none
      | some (s, said') => some (s, said ++ said')

namespace Runs

variable {s s' : S} {e : E} {es es' : List E} {said : List M}

@[simp] theorem nil : runSteps step [] s = some (s, []) := rfl

theorem cons_eq_some : runSteps step (e :: es) s = some (s', said) ↔
    ∃ s₁ said₁ said₂, step s e = some (s₁, said₁) ∧ runSteps step es s₁ = some (s', said₂) ∧
      said = said₁ ++ said₂ := by
  rw [runSteps]
  cases hstep : step s e with
  | none => simp
  | some r =>
    obtain ⟨s₁, said₁⟩ := r
    cases hrun : runSteps step es s₁ with
    | none => simp [hrun]
    | some r => simp [hrun, eq_comm, Prod.ext_iff]

theorem append_eq_some : runSteps step (es ++ es') s = some (s', said) ↔
    ∃ s₁ said₁ said₂, runSteps step es s = some (s₁, said₁) ∧
      runSteps step es' s₁ = some (s', said₂) ∧ said = said₁ ++ said₂ := by
  induction es generalizing s said with
  | nil => simp
  | cons e es ih =>
    rw [List.cons_append, cons_eq_some]
    constructor
    · rintro ⟨s₁, said₁, said₂, hstep, hrun, rfl⟩
      obtain ⟨s₂, said₃, said₄, hrun₁, hrun₂, rfl⟩ := ih.mp hrun
      exact ⟨s₂, said₁ ++ said₃, said₄, cons_eq_some.mpr ⟨s₁, said₁, said₃, hstep, hrun₁, rfl⟩,
        hrun₂, (List.append_assoc ..).symm⟩
    · rintro ⟨s₂, said₃, said₄, hrun₁, hrun₂, rfl⟩
      obtain ⟨s₁, said₁, said₂, hstep, hrun, rfl⟩ := cons_eq_some.mp hrun₁
      exact ⟨s₁, said₁, said₂ ++ said₄, hstep, ih.mpr ⟨s₂, said₂, said₄, hrun, hrun₂, rfl⟩,
        List.append_assoc ..⟩

theorem concat_eq_some : runSteps step (es ++ [e]) s = some (s', said) ↔
    ∃ s₁ said₁ said₂, runSteps step es s = some (s₁, said₁) ∧ step s₁ e = some (s', said₂) ∧
      said = said₁ ++ said₂ := by
  rw [append_eq_some]
  constructor
  · rintro ⟨s₁, said₁, said₂, hrun, hlast, rfl⟩
    obtain ⟨s₂, said₃, said₄, hstep, hnil, rfl⟩ := cons_eq_some.mp hlast
    cases hnil
    exact ⟨s₁, said₁, said₃, hrun, hstep, by simp⟩
  · rintro ⟨s₁, said₁, said₂, hrun, hstep, rfl⟩
    exact ⟨s₁, said₁, said₂, hrun, cons_eq_some.mpr ⟨s', said₂, [], hstep, rfl, by simp⟩, rfl⟩

/-- A run that is not refused ends somewhere, and says something. -/
theorem exists_of_map {A : Type} {f : S × List M → A} {a : A}
    (h : (runSteps step es s).map f = some a) :
    ∃ s' said, runSteps step es s = some (s', said) ∧ f (s', said) = a := by
  obtain ⟨⟨s', said⟩, hrun, ha⟩ := Option.map_eq_some_iff.mp h
  exact ⟨s', said, hrun, ha⟩

/-- **The invariant rule**, for runs of events of some kind. -/
theorem invariant {P : S → Prop} {Q : E → Prop}
    (hstep : ∀ s e s' said, Q e → P s → step s e = some (s', said) → P s') (h : P s)
    (hQ : ∀ e ∈ es, Q e) (hrun : runSteps step es s = some (s', said)) : P s' := by
  induction es generalizing s said with
  | nil =>
    cases hrun
    exact h
  | cons e es ih =>
    obtain ⟨s₁, said₁, said₂, hs, hrun, -⟩ := cons_eq_some.mp hrun
    exact ih (hstep s e s₁ said₁ (hQ e (by simp)) h hs)
      (fun e' he' => hQ e' (List.mem_cons_of_mem _ he')) hrun

/-- **The invariant rule, with what is said.** -/
theorem invariant_said {P : S → Prop} {Q : E → Prop} {R : M → Prop}
    (hstep : ∀ s e s' said, Q e → P s → step s e = some (s', said) → P s' ∧ ∀ m ∈ said, R m)
    (h : P s) (hQ : ∀ e ∈ es, Q e) (hrun : runSteps step es s = some (s', said)) :
    P s' ∧ ∀ m ∈ said, R m := by
  induction es generalizing s said with
  | nil =>
    cases hrun
    exact ⟨h, fun m hm => absurd hm List.not_mem_nil⟩
  | cons e es ih =>
    obtain ⟨s₁, said₁, said₂, hs, hrest, rfl⟩ := cons_eq_some.mp hrun
    rw [List.forall_mem_cons] at hQ
    obtain ⟨h₁, hsaid₁⟩ := hstep s e s₁ said₁ hQ.1 h hs
    obtain ⟨h₂, hsaid₂⟩ := ih h₁ hQ.2 hrest
    exact ⟨h₂, fun m hm => (List.mem_append.mp hm).elim (hsaid₁ m) (hsaid₂ m)⟩

/-- **The rule for a property of the events so far**, what was said, and the state. -/
theorem along {P : List E → List M → S → Prop}
    (hstep : ∀ es s₁ said₁ e s₂ said₂, runSteps step es s = some (s₁, said₁) → P es said₁ s₁ →
      step s₁ e = some (s₂, said₂) → P (es ++ [e]) (said₁ ++ said₂) s₂)
    (h : P [] [] s) (hrun : runSteps step es s = some (s', said)) : P es said s' := by
  induction es using List.reverseRecOn generalizing s' said with
  | nil =>
    cases hrun
    exact h
  | append_singleton es e ih =>
    obtain ⟨s₁, said₁, said₂, hrun₁, hs, rfl⟩ := concat_eq_some.mp hrun
    exact hstep es s₁ said₁ e s' said₂ hrun₁ (ih hrun₁) hs

/-- Every step meets a condition on what was said before it, the state it is taken in
and its event. -/
def Meets (step : S → E → Option (S × List M)) (P : List M → S → E → Prop) :
    List M → List E → S → Prop
  | _, [], _ => True
  | said, e :: es, s => P said s e ∧
    match step s e with
    | none => True
    | some (s', said') => Meets step P (said ++ said') es s'

instance Meets.decidable {P : List M → S → E → Prop} [∀ said s e, Decidable (P said s e)] :
    ∀ said es s, Decidable (Meets step P said es s)
  | _, [], _ => inferInstanceAs (Decidable True)
  | said, e :: es, s =>
    have : Decidable (match step s e with
        | none => True
        | some (s', said') => Meets step P (said ++ said') es s') :=
      match step s e with
      | none => inferInstanceAs (Decidable True)
      | some (s', said') => Meets.decidable (said ++ said') es s'
    inferInstanceAs (Decidable (P said s e ∧ _))

/-- **The rule for runs whose steps meet a condition.** -/
theorem Meets.rule {P : List M → S → E → Prop} {I : List M → S → Prop}
    (hstep : ∀ said s e s' said', P said s e → I said s → step s e = some (s', said') →
      I (said ++ said') s')
    {said₀ : List M} (hmeets : Meets step P said₀ es s) (h : I said₀ s)
    (hrun : runSteps step es s = some (s', said)) : I (said₀ ++ said) s' := by
  induction es generalizing s said₀ said with
  | nil =>
    cases hrun
    rw [List.append_nil]
    exact h
  | cons e es ih =>
    obtain ⟨s₁, said₁, said₂, hs, hrest, rfl⟩ := cons_eq_some.mp hrun
    rw [Meets, hs] at hmeets
    rw [← List.append_assoc]
    exact ih hmeets.2 (hstep _ _ _ _ _ hmeets.1 h hs) hrest

/-- The steps of both parts of a run. -/
theorem Meets.append_iff {P : List M → S → E → Prop} {said₀ : List M}
    (hrun : runSteps step es s = some (s', said)) :
    Meets step P said₀ (es ++ es') s ↔
      Meets step P said₀ es s ∧ Meets step P (said₀ ++ said) es' s' := by
  induction es generalizing s said₀ said with
  | nil =>
    cases hrun
    rw [List.append_nil]
    exact ⟨fun h => ⟨trivial, h⟩, fun h => h.2⟩
  | cons e es ih =>
    obtain ⟨s₁, said₁, said₂, hs, hrest, rfl⟩ := cons_eq_some.mp hrun
    rw [List.cons_append, Meets, Meets, hs, ← List.append_assoc]
    simp only
    rw [ih hrest, and_assoc]

/-- A property holds in every state a run goes through. -/
def Always (step : S → E → Option (S × List M)) (P : S → Prop) (es : List E) (s : S) : Prop :=
  ∀ pre post s' said, es = pre ++ post → runSteps step pre s = some (s', said) → P s'

/-- **The rule for exact conditions.**  Where a step meets a condition exactly if it keeps a
property, the steps of a run meet it exactly if the property holds all along. -/
theorem always_iff_meets {P : S → Prop} {C : S → E → Prop}
    (hstep : ∀ s e, P s → (C s e ↔ ∀ s' said, step s e = some (s', said) → P s'))
    (h : P s) (said₀ : List M) : Always step P es s ↔ Meets step (fun _ => C) said₀ es s := by
  induction es generalizing s said₀ with
  | nil =>
    refine ⟨fun _ => trivial, fun _ pre post s' said heq hrun => ?_⟩
    rw [(List.append_eq_nil_iff.mp heq.symm).1] at hrun
    cases hrun
    exact h
  | cons e es ih =>
    constructor
    · intro halways
      have hnext : ∀ s₁ said₁, step s e = some (s₁, said₁) → Always step P es s₁ := by
        intro s₁ said₁ hs pre post s' said heq hrun
        exact halways (e :: pre) post s' (said₁ ++ said) (by rw [heq, List.cons_append])
          (cons_eq_some.mpr ⟨s₁, said₁, said, hs, hrun, rfl⟩)
      have hkeeps : ∀ s₁ said₁, step s e = some (s₁, said₁) → P s₁ :=
        fun s₁ said₁ hs => hnext s₁ said₁ hs [] es s₁ [] rfl rfl
      rw [Meets]
      refine ⟨(hstep s e h).mpr hkeeps, ?_⟩
      cases hs : step s e with
      | none => trivial
      | some r => exact (ih (hkeeps r.1 r.2 hs) (said₀ ++ r.2)).mp (hnext r.1 r.2 hs)
    · intro hmeets pre post s' said heq hrun
      rw [Meets] at hmeets
      cases pre with
      | nil =>
        cases hrun
        exact h
      | cons e' pre =>
        rw [List.cons_append, List.cons_eq_cons] at heq
        obtain ⟨rfl, heq⟩ := heq
        obtain ⟨s₁, said₁, said₂, hs, hrest, -⟩ := cons_eq_some.mp hrun
        have h₁ := (hstep s e h).mp hmeets.1 s₁ said₁ hs
        rw [hs] at hmeets
        exact (ih h₁ (said₀ ++ said₁)).mpr hmeets.2 pre post s' said₂ heq hrest

/-- **The rule for exact conditions, with an invariant** that the steps keep as long as the
property holds. -/
theorem always_iff_meets_of_invariant {I P : S → Prop} {C : S → E → Prop}
    (hstep : ∀ s e, I s → P s → (C s e ↔ ∀ s' said, step s e = some (s', said) → P s'))
    (hinv : ∀ s e s' said, I s → P s → step s e = some (s', said) → I s')
    (hI : I s) (hP : P s) (said₀ : List M) :
    Always step P es s ↔ Meets step (fun _ => C) said₀ es s := by
  have hboth : Always step P es s ↔ Always step (fun s => I s ∧ P s) es s := by
    refine ⟨fun halways pre post s' said heq hrun => ?_,
      fun halways pre post s' said heq hrun => (halways pre post s' said heq hrun).2⟩
    refine along (P := fun pre' _ s => (∃ post, es = pre' ++ post) → I s ∧ P s) ?_
      (fun _ => ⟨hI, hP⟩) hrun ⟨post, heq⟩
    rintro pre' s₁ said₁ e s₂ said₂ hrun₁ ih hs ⟨post, heq⟩
    obtain ⟨h₁, h₂⟩ := ih ⟨e :: post, by rw [heq, List.append_assoc, List.singleton_append]⟩
    exact ⟨hinv s₁ e s₂ said₂ h₁ h₂ hs, halways (pre' ++ [e]) post s₂ (said₁ ++ said₂) heq
      (concat_eq_some.mpr ⟨s₁, said₁, said₂, hrun₁, hs, rfl⟩)⟩
  rw [hboth]
  refine always_iff_meets (fun s e h => ⟨fun hc s' said hs => ?_, fun hall => ?_⟩) ⟨hI, hP⟩ said₀
  · exact ⟨hinv s e s' said h.1 h.2 hs, (hstep s e h.1 h.2).mp hc s' said hs⟩
  · exact (hstep s e h.1 h.2).mpr fun s' said hs => (hall s' said hs).2

end Runs

end HlOrderbook
