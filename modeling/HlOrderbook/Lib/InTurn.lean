import Mathlib.Data.List.Nodup

/-!
# Acting for one key after another

A state keeps something for each of some keys, and acts for one key at a time.  Where
acting for a key depends on what is kept for it only, and changes nothing that is kept
for another, acting for several keys in turn is acting for each of them alone.

## Main definitions

* `inTurn` — act for some keys, one after another.
* `Apart` — the keys do not share what is kept for them.
-/

set_option autoImplicit false
set_option linter.unusedSectionVars false

namespace HlOrderbook

variable {σ κ υ β : Type} {act : σ → κ → σ × List β} {view : σ → κ → υ} {ok : κ → Prop}

/-- Act for some keys, one after another. -/
def inTurn (act : σ → κ → σ × List β) : List κ → σ → σ × List β
  | [], s => (s, [])
  | k :: rest, s => ((inTurn act rest (act s k).1).1, (act s k).2 ++ (inTurn act rest (act s k).1).2)

/-- Acting for a key reads and writes what is kept for that key only. -/
structure Apart (act : σ → κ → σ × List β) (view : σ → κ → υ) (ok : κ → Prop) : Prop where
  frame : ∀ s k k', ok k → ok k' → k ≠ k' → view (act s k').1 k = view s k
  congr : ∀ s s' k, view s k = view s' k →
    (act s k).2 = (act s' k).2 ∧ view (act s k).1 k = view (act s' k).1 k

namespace Apart

/-- What is kept for a key is left alone when it is not its turn. -/
theorem view_inTurn_of_notMem (h : Apart act view ok) {ks : List κ} (hks : ∀ k ∈ ks, ok k)
    {k : κ} (hk : ok k) (hnotMem : k ∉ ks) (s : σ) : view (inTurn act ks s).1 k = view s k := by
  induction ks generalizing s with
  | nil => rfl
  | cons k' rest ih =>
    have hrest := ih (fun k hk => hks k (List.mem_cons_of_mem _ hk))
      (fun hmem => hnotMem (List.mem_cons_of_mem _ hmem)) (act s k').1
    have hne : k ≠ k' := fun heq => hnotMem (heq ▸ List.mem_cons_self)
    exact hrest.trans (h.frame s k k' hk (hks k' List.mem_cons_self) hne)

/-- **Acting in turn is acting for each key alone.** -/
theorem inTurn_eq (h : Apart act view ok) {ks : List κ} (hks : ∀ k ∈ ks, ok k) (hnodup : ks.Nodup)
    (s : σ) : (inTurn act ks s).2 = ks.flatMap (fun k => (act s k).2) ∧
      ∀ k ∈ ks, view (inTurn act ks s).1 k = view (act s k).1 k := by
  induction ks generalizing s with
  | nil => exact ⟨rfl, nofun⟩
  | cons k rest ih =>
    obtain ⟨hnotMem, hnodup⟩ := List.nodup_cons.mp hnodup
    have hrest : ∀ k' ∈ rest, ok k' := fun k' hk' => hks k' (List.mem_cons_of_mem _ hk')
    have hk : ok k := hks k List.mem_cons_self
    obtain ⟨hsaid, hviews⟩ := ih hrest hnodup (act s k).1
    -- what is kept for the others is as it was
    have hsame : ∀ k' ∈ rest, view (act s k).1 k' = view s k' := fun k' hk' =>
      h.frame s k' k (hrest k' hk') hk fun heq => hnotMem (heq ▸ hk')
    constructor
    · have hothers := List.flatMap_congr fun k' hk' => (h.congr _ _ k' (hsame k' hk')).1
      rw [inTurn, List.flatMap_cons, ← hothers, ← hsaid]
    · intro k' hk'
      rcases List.mem_cons.mp hk' with rfl | hmem
      · exact h.view_inTurn_of_notMem hrest hk hnotMem _
      · exact (hviews k' hmem).trans (h.congr _ _ k' (hsame k' hmem)).2

end Apart

end HlOrderbook
